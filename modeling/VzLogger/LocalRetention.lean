import VzLogger.LocalBuffer
import VzLogger.Lib.Window
import Mathlib.Logic.Function.Basic

/-! # What the local buffer retains

All channels share the map of lists: `add_ch_to_localbuffer` appends to the list of one
uuid, `shrink_localbuffer` drops from the front of every list.  A key that is not in the
map has an empty list.

In size mode each list is the last part of what was appended, of the configured length.
In time mode the shrink stops at the first reading that is young enough, so the list is
the window it should be only where the readings too old stand in front.
-/
namespace VzLogger.LocalBuffer.Retention

/-- The map of the lists, and the books: what was appended for each uuid, and the time of
the shrink, if that came last. -/
structure Lists where
  localbuffer : String → List ChannelData
  appended : String → List ChannelData
  shrunk : Option Int

inductive Event where
  | shrink (nowMs : Int)
  | add (uuid : String) (buf : Buffer)

namespace Lists

def initial : Lists := ⟨fun _ => [], fun _ => [], none⟩

/-- What `add_ch_to_localbuffer` appends. -/
def items (buf : Buffer) : List ChannelData := (Buffer.live buf.sent.nodes).map channelData

/-- What is no longer in the list. -/
def dropped (w : Lists) (uuid : String) : List ChannelData :=
  (w.appended uuid).take ((w.appended uuid).length - (w.localbuffer uuid).length)

end Lists

variable (cfg : Config)

def step (w : Lists) : Event → Option Lists
  | .shrink nowMs =>
    some { w with
      localbuffer := fun uuid => shrinkLocalbuffer cfg nowMs (w.localbuffer uuid)
      shrunk := some nowMs }
  | .add uuid buf =>
    some
      { localbuffer :=
          Function.update w.localbuffer uuid (addChToLocalbuffer cfg buf (w.localbuffer uuid))
        appended := Function.update w.appended uuid (w.appended uuid ++ Lists.items buf)
        shrunk := none }

def machine : EventMachine.Machine Lists Event := ⟨Lists.initial, step cfg⟩

/-- Not older than the time to keep. -/
def young (nowMs : Int) (d : ChannelData) : Bool := nowMs - 1000 * cfg.bufferLength ≤ d.t

/-- In size mode each list holds the last `-bufferLength` readings appended; in time mode
it holds, after a shrink, those that are young enough. -/
def Retained (w : Lists) : Prop :=
  if cfg.bufferLength < 0 then
    ∀ uuid, w.localbuffer uuid = Window.lastOf (-cfg.bufferLength).toNat (w.appended uuid)
  else
    ∀ nowMs ∈ w.shrunk, ∀ uuid, w.localbuffer uuid = (w.appended uuid).filter (young cfg nowMs)

/-- A shrink in time mode finds in each list the readings too old in front of the others,
the first of the others not beyond `minT` (as it is where the product fits into an `int`),
and nothing young among what was dropped before. -/
def InFront (w : Lists) : Event → Prop
  | .shrink nowMs => 0 ≤ cfg.bufferLength → ∀ uuid,
    (∀ d ∈ w.dropped uuid, young cfg nowMs d = false) ∧
      (w.localbuffer uuid).Pairwise
        (fun a b => young cfg nowMs a = true → young cfg nowMs b = true) ∧
      ∀ d ∈ (w.localbuffer uuid).find? (young cfg nowMs), minT cfg nowMs ≤ d.t
  | .add _ _ => True

variable {cfg}

/-! ## One step -/

/-- A time to keep that is no number of milliseconds in an `int` counts for less. -/
theorem le_minT (hlen : 0 ≤ cfg.bufferLength) (nowMs : Int) :
    nowMs - 1000 * cfg.bufferLength ≤ minT cfg nowMs := by
  have hle : CString.toInt (1000 * cfg.bufferLength) ≤ 1000 * cfg.bufferLength := by
    simp only [CString.toInt, Int.bmod]
    omega
  unfold minT
  omega

theorem minT_of_lt (hlen : 0 ≤ cfg.bufferLength) (hlt : 1000 * cfg.bufferLength < 2 ^ 31)
    (nowMs : Int) : minT cfg nowMs = nowMs - 1000 * cfg.bufferLength := by
  rw [minT, CString.toInt_of_mem (by omega) hlt]

/-- What is too old is dropped where the loop gets to it. -/
theorem lt_minT_of_not_young (hlen : 0 ≤ cfg.bufferLength) {nowMs : Int} (d : ChannelData)
    (hold : young cfg nowMs d = false) : decide (d.t < minT cfg nowMs) = true := by
  have hle := le_minT hlen nowMs
  rw [young, decide_eq_false_iff_not] at hold
  exact decide_eq_true (by omega)

namespace Lists
variable {w w' : Lists}

/-- Each list is the last part of what was appended. -/
def Suffixes (w : Lists) : Prop := ∀ uuid, w.localbuffer uuid <:+ w.appended uuid

theorem dropped_append (h : w.Suffixes) (uuid : String) :
    w.dropped uuid ++ w.localbuffer uuid = w.appended uuid := by
  obtain ⟨pre, hpre⟩ := h uuid
  rw [dropped, ← hpre, List.length_append, Nat.add_sub_cancel_right, List.take_left]

/-- What holds of each list and its books holds after a change to one of them. -/
theorem forall_update {P : List ChannelData → List ChannelData → Prop}
    (h : ∀ uuid, P (w.localbuffer uuid) (w.appended uuid)) (added : String)
    {l a : List ChannelData} (hadded : P l a) (uuid : String) :
    P (Function.update w.localbuffer added l uuid) (Function.update w.appended added a uuid) := by
  by_cases heq : uuid = added
  · subst heq
    simp only [Function.update_self]
    exact hadded
  · simp only [Function.update_of_ne heq]
    exact h uuid

theorem suffixes_step {e : Event} (h : w.Suffixes) (hstep : step cfg w e = some w') :
    w'.Suffixes := by
  cases e with
  | shrink nowMs =>
    obtain rfl := Option.some.inj hstep
    intro uuid
    exact (shrinkLocalbuffer_suffix nowMs _).trans (h uuid)
  | add added buf =>
    obtain rfl := Option.some.inj hstep
    apply forall_update h added
    apply (addChToLocalbuffer_suffix buf _).trans
    obtain ⟨pre, hpre⟩ := h added
    exact ⟨pre, by rw [← List.append_assoc, hpre, items]⟩

theorem retained_initial : Retained cfg initial := by
  unfold Retained
  split
  · intro uuid
    exact List.drop_nil.symm
  · intro nowMs hnow
    cases hnow

/-- In size mode a step keeps the last readings. -/
theorem retained_step (hsize : cfg.bufferLength < 0) {e : Event} (h : Retained cfg w)
    (hstep : step cfg w e = some w') : Retained cfg w' := by
  unfold Retained at h ⊢
  rw [if_pos hsize] at h ⊢
  cases e with
  | shrink nowMs =>
    obtain rfl := Option.some.inj hstep
    intro uuid
    have hsame : shrinkLocalbuffer cfg nowMs (w.localbuffer uuid) = w.localbuffer uuid :=
      if_neg (Int.not_le.mpr hsize)
    exact hsame.trans (h uuid)
  | add added buf =>
    obtain rfl := Option.some.inj hstep
    have hadd : addChToLocalbuffer cfg buf (w.localbuffer added) =
        Window.lastOf (-cfg.bufferLength).toNat (w.localbuffer added ++ items buf) := if_pos hsize
    apply forall_update (P := fun l a => l = Window.lastOf (-cfg.bufferLength).toNat a) h added
    rw [hadd, h added, Window.lastOf_lastOf_append]

/-- In time mode a shrink leaves the young readings exactly if they are in order. -/
theorem retained_shrink (htime : ¬cfg.bufferLength < 0) (h : w.Suffixes) {nowMs : Int}
    (hstep : step cfg w (.shrink nowMs) = some w') :
    Retained cfg w' ↔ InFront cfg w (.shrink nowMs) := by
  have hlen := Int.not_lt.mp htime
  obtain rfl := Option.some.inj hstep
  rw [Retained, if_neg htime]
  have hlist : ∀ uuid,
      shrinkLocalbuffer cfg nowMs (w.localbuffer uuid) =
          (w.appended uuid).filter (young cfg nowMs) ↔
        (∀ d ∈ w.dropped uuid, young cfg nowMs d = false) ∧
          (w.localbuffer uuid).Pairwise
            (fun a b => young cfg nowMs a = true → young cfg nowMs b = true) ∧
          ∀ d ∈ (w.localbuffer uuid).find? (young cfg nowMs), minT cfg nowMs ≤ d.t := by
    intro uuid
    rw [shrinkLocalbuffer, if_pos hlen, ← dropped_append h uuid,
      Window.dropWhile_eq_filter_append_iff (lt_minT_of_not_young hlen)]
    simp only [decide_eq_false_iff_not, Int.not_lt]
  constructor
  · intro hretained _ uuid
    exact (hlist uuid).mp (hretained nowMs rfl uuid)
  · intro hfront now hnow uuid
    obtain rfl := Option.some.inj hnow
    exact (hlist uuid).mpr (hfront hlen uuid)

/-- Readings appended in the order of their times are in front, if the clock has not gone
back and the time to keep fits into an `int`. -/
theorem inFront_of_sorted (hlt : 1000 * cfg.bufferLength < 2 ^ 31) (h : w.Suffixes) {nowMs : Int}
    (hsorted : ∀ uuid, (w.appended uuid).Pairwise fun a b => a.t ≤ b.t)
    (hdropped : ∀ uuid, ∀ d ∈ w.dropped uuid, young cfg nowMs d = false) :
    InFront cfg w (.shrink nowMs) := by
  intro hlen uuid
  refine ⟨hdropped uuid, ?_, ?_⟩
  · apply ((hsorted uuid).sublist (h uuid).sublist).imp
    intro a b hab ha
    simp only [young, decide_eq_true_eq] at ha ⊢
    exact Int.le_trans ha hab
  · intro d hd
    have hyoung : young cfg nowMs d = true := List.find?_some hd
    rw [minT_of_lt hlen hlt]
    exact of_decide_eq_true hyoung

end Lists

/-! ## Runs -/

/-- **The buffer retains what it should exactly in the runs whose shrinks find the readings
too old in front.**  In size mode that is every run. -/
theorem retained_iff (cfg : Config) (es : List Event) :
    (machine cfg).Throughout (Retained cfg) Lists.initial es ↔
      (machine cfg).EachStep (InFront cfg) Lists.initial es := by
  have hP : ∀ w (_ : List Event), Retained cfg w ∧ w.Suffixes → Retained cfg w :=
    fun w _ h => h.1
  have hkeep : ∀ w e (_ : List Event) w', Retained cfg w ∧ w.Suffixes → InFront cfg w e →
      (machine cfg).step w e = some w' → Retained cfg w' ∧ w'.Suffixes := by
    intro w e _ w' h hfront hstep
    refine ⟨?_, Lists.suffixes_step h.2 hstep⟩
    by_cases hsize : cfg.bufferLength < 0
    · exact Lists.retained_step hsize h.1 hstep
    · cases e with
      | shrink nowMs => exact (Lists.retained_shrink hsize h.2 hstep).mpr hfront
      | add uuid buf =>
        obtain rfl := Option.some.inj hstep
        rw [Retained, if_neg hsize]
        intro nowMs hnow
        cases hnow
  have hbreak : ∀ w e (_ : List Event) w', Retained cfg w ∧ w.Suffixes → ¬InFront cfg w e →
      (machine cfg).step w e = some w' → ¬Retained cfg w' := by
    intro w e _ w' h hfront hstep hretained
    cases e with
    | shrink nowMs =>
      by_cases hsize : cfg.bufferLength < 0
      · exact hfront fun hlen => absurd hsize (Int.not_lt.mpr hlen)
      · exact hfront ((Lists.retained_shrink hsize h.2 hstep).mp hretained)
    | add uuid buf => exact hfront trivial
  have hinitial : Retained cfg Lists.initial ∧ Lists.initial.Suffixes :=
    ⟨Lists.retained_initial, fun _ => List.suffix_rfl⟩
  exact EventMachine.Machine.throughout_iff_eachStep hP hkeep hbreak hinitial

/-- Two readings of one cycle, the second with the earlier time; the shrink stops at the
first. -/
theorem not_retained_unordered :
    ¬(machine ⟨.none, -1, false, 1⟩).Throughout (Retained ⟨.none, -1, false, 1⟩) Lists.initial
      [.add "u" (((Buffer.initial .none).push (.tick 2)).push (.tick 1)), .shrink 2500] := by
  rintro ⟨-, hrest⟩
  have hretained := ((hrest _ rfl).2 _ rfl) 2500 rfl "u"
  exact absurd hretained (by decide +kernel)

/-! ## A channel -/

/-- A buffer with these elements. -/
def bufferOf (its : List (Node Reading)) : Buffer :=
  its.foldl (fun b it => b.push it.val) (Buffer.initial .none)

theorem items_foldl_push (b : Buffer) (its : List (Node Reading))
    (h : ∀ it ∈ its, it.val.deleted = false) :
    Lists.items (its.foldl (fun b it => b.push it.val) b) =
      Lists.items b ++ its.map channelData := by
  induction its generalizing b with
  | nil => exact (List.append_nil _).symm
  | cons it its ih =>
    have hpush : Lists.items (b.push it.val) = Lists.items b ++ [channelData it] := by
      rw [Lists.items, Buffer.live_push (h it List.mem_cons_self), List.map_append]
      rfl
    rw [List.foldl_cons, ih _ fun x hx => h x (List.mem_cons_of_mem it hx), hpush,
      List.append_assoc]
    rfl

theorem items_bufferOf {its : List (Node Reading)} (h : ∀ it ∈ its, it.val.deleted = false) :
    Lists.items (bufferOf its) = its.map channelData := items_foldl_push _ its h

/-- The lists get to hold, for a uuid, the list and the books of a channel, but for what the
copy that is under way has appended. -/
def Simulated (cfg : Config) (uuid : String) (w : World) : Prop :=
  ∃ es v its, (machine cfg).run Lists.initial es = some v ∧
    w.localbuffer = v.localbuffer uuid ++ its.map channelData ∧
    w.appended.map channelData = v.appended uuid ++ its.map channelData ∧
    (∀ it ∈ its, it.val.deleted = false) ∧ (w.pc.copying = false → its = [])

section simulation
variable {uuid : String} {w w' : World}

theorem Simulated.elsewhere (h : Simulated cfg uuid w) (hstep : Elsewhere cfg w w') :
    Simulated cfg uuid w' := by
  obtain ⟨es, v, its, hrun, hlist, happended, -, hnone⟩ := h
  obtain rfl := hnone hstep.pc.1
  rw [List.map_nil, List.append_nil] at hlist happended
  have happended' : w'.appended.map channelData = v.appended uuid := by
    rw [hstep.books.1, happended]
  rcases hstep.list with hlist' | ⟨nowMs, hlist'⟩
  · exact ⟨es, v, [], hrun, by rw [hlist', hlist]; simp, by rw [happended']; simp, nofun,
      fun _ => rfl⟩
  · refine ⟨es ++ [.shrink nowMs], _, [], EventMachine.Machine.run_append.mpr ⟨v, hrun, rfl⟩, ?_,
      by rw [happended']; simp, nofun, fun _ => rfl⟩
    rw [hlist', hlist]
    simp

/-- The end of a copy is one step of the lists, with all that it has appended. -/
theorem Simulated.ends (h : Simulated cfg uuid w) (left : List (Node Reading)) :
    Simulated cfg uuid { w with
      localbuffer := keepNewest cfg w.localbuffer, pc := .reading, left := left } := by
  obtain ⟨es, v, its, hrun, hlist, happended, hlive, -⟩ := h
  refine ⟨es ++ [.add uuid (bufferOf its)], _, [], EventMachine.Machine.run_append.mpr
    ⟨v, hrun, rfl⟩, ?_, ?_, nofun, fun _ => rfl⟩
  · have hitems : (Buffer.live (bufferOf its).sent.nodes).map channelData =
      its.map channelData := items_bufferOf hlive
    simp only [Function.update_self, addChToLocalbuffer_eq, hitems, List.map_nil, List.append_nil,
      hlist]
  · simp only [Function.update_self, items_bufferOf hlive, List.map_nil, List.append_nil,
      happended]

theorem Simulated.visit (h : Simulated cfg uuid w) (it : Node Reading) :
    Simulated cfg uuid (w.visit it) := by
  obtain ⟨es, v, its, hrun, hlist, happended, hlive, -⟩ := h
  unfold World.visit
  split
  · exact ⟨es, v, its, hrun, hlist, happended, hlive, nofun⟩
  · rename_i hdeleted
    refine ⟨es, v, its ++ [it], hrun, ?_, ?_, ?_, nofun⟩
    · simp [hlist]
    · simp [happended]
    · intro x hx
      rcases List.mem_append.mp hx with hx | hx
      · exact hlive x hx
      · rw [List.mem_singleton.mp hx]
        simpa using hdeleted

/-- A step that goes on in the copy and appends nothing. -/
theorem Simulated.goes (h : Simulated cfg uuid w) {pc : Pc} (hpc : pc.copying = true) :
    Simulated cfg uuid { w with pc := pc } := by
  obtain ⟨es, v, its, hrun, hlist, happended, hlive, -⟩ := h
  refine ⟨es, v, its, hrun, hlist, happended, hlive, fun hnot => ?_⟩
  rw [hpc] at hnot
  cases hnot

theorem Simulated.statement (h : Simulated cfg uuid w) (hstep : w.statement cfg = some w') :
    Simulated cfg uuid w' := by
  unfold World.statement at hstep
  split at hstep
  · obtain rfl := Option.some.inj hstep
    exact h.ends _
  · split at hstep <;> obtain rfl := Option.some.inj hstep
    · exact h.visit _
    · exact h.goes rfl
  · split at hstep <;> obtain rfl := Option.some.inj hstep
    · exact h.goes rfl
    · exact h.goes rfl
  · cases hstep

/-- A step of a channel is a step of its list, or a part of one, or leaves the list alone. -/
theorem simulated_step {e : LocalBuffer.Event} (h : Simulated cfg uuid w)
    (hstep : LocalBuffer.step cfg w e = some w') : Simulated cfg uuid w' := by
  rcases step_cases cfg hstep with helse | ⟨-, rfl⟩ | ⟨-, hstatement⟩ | ⟨b, -, rfl⟩
  · exact h.elsewhere helse
  · exact h.goes rfl
  · exact h.statement hstatement
  · exact h

end simulation

/-- **What the cycles of a channel do to its list is a run of the lists.** -/
theorem simulated_run (uuid : String) {w : World} {es : List LocalBuffer.Event}
    (hrun : (LocalBuffer.machine cfg).run (LocalBuffer.initial cfg) es = some w) :
    Simulated cfg uuid w := by
  have hinitial : Simulated cfg uuid (LocalBuffer.initial cfg) :=
    ⟨[], Lists.initial, [], rfl, rfl, rfl, nofun, fun _ => rfl⟩
  apply EventMachine.Machine.run_induction hrun hinitial
  intro s e t hs hstep
  exact simulated_step hs hstep

/-- In size mode, what a channel serves are the last readings it appended, but during a copy. -/
theorem localbuffer_eq_lastOf (hsize : cfg.bufferLength < 0) {w : World}
    {es : List LocalBuffer.Event}
    (hrun : (LocalBuffer.machine cfg).run (LocalBuffer.initial cfg) es = some w)
    (hpc : w.pc.copying = false) :
    w.localbuffer = Window.lastOf (-cfg.bufferLength).toNat (w.appended.map channelData) := by
  obtain ⟨fs, v, its, hfs, hlist, happended, -, hnone⟩ := simulated_run "" hrun
  obtain rfl := hnone hpc
  rw [List.map_nil, List.append_nil] at hlist happended
  have hretained : Retained cfg v := by
    apply EventMachine.Machine.run_induction hfs Lists.retained_initial
    intro s e t hs hstep
    exact Lists.retained_step hsize hs hstep
  rw [Retained, if_pos hsize] at hretained
  rw [hlist, happended]
  exact hretained ""

end VzLogger.LocalBuffer.Retention
