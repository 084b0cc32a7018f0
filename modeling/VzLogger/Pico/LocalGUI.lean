import VzLogger.Buffer
import VzLogger.Lib.EventMachine
import Mathlib.Data.List.Chain

/-! # The display on the Pico

The channels with the `localGUI` interface share one e-paper panel.  Each of them has a line on
it, by its format; the panel is refreshed at most once in two minutes, unless there is a new
line, and sent to sleep between refreshes.  What the panel is told is kept in the books.

A line is its format and its value.  The formats print one number in less than 64 characters, and
there are no more of them than the panel has room for.
-/
namespace VzLogger.Pico

def minUpdateInterval : Nat := 120
def fullUpdateEvery : Nat := 50
def sleepAfterRefreshCount : Nat := 5
def sleepMinUpdateInterval : Nat := 120

section
variable (F : Type) [Ord F]

/-- A value for each format, in the order of the formats. -/
abbrev Lines := Std.TreeMap F Rat

/-- What is drawn. -/
structure Refresh where
  time : Int
  /-- `EPD_2IN9B_V4_Display_Base`, or else `…_Display_Partial` -/
  full : Bool
  lines : Lines F

/-- A command to the panel. -/
inductive Command where
  | init
  | clear
  | display (r : Refresh F)
  | sleep

/-- The members of `LocalGUIDisplay`. -/
structure LocalGUIDisplay where
  lines : Lines F
  refreshCount : Nat
  initialized : Bool
  lastUpdate : Int
  prevNumLines : Nat
  sleeping : Bool
  commands : List (Command F)

/-- A call of `LocalGUI::send()`: the format and the buffer of the channel, and the time. -/
structure SendEvent where
  format : F
  buf : Buffer
  now : Int

end

namespace LocalGUIDisplay
variable {F : Type} [Ord F]

/-- As constructed. -/
def initial : LocalGUIDisplay F := ⟨∅, 0, false, 0, 0, false, []⟩

def init (d : LocalGUIDisplay F) : LocalGUIDisplay F :=
  if d.initialized then d
  else { d with initialized := true, commands := d.commands ++ [.init, .clear] }

def putLine (d : LocalGUIDisplay F) (format : F) (val : Rat) : LocalGUIDisplay F :=
  let d := { d with lines := d.lines.insert format val }
  if d.lines.size ≠ d.prevNumLines then { d with prevNumLines := d.lines.size, lastUpdate := 0 }
  else d

/-- Waking up. -/
def wakeUp (d : LocalGUIDisplay F) : LocalGUIDisplay F :=
  if d.sleeping then { init { d with initialized := false } with sleeping := false } else d

/-- Going to sleep. -/
def goToSleep (d : LocalGUIDisplay F) : LocalGUIDisplay F :=
  if 0 < sleepAfterRefreshCount ∧ sleepAfterRefreshCount < d.refreshCount ∧
      sleepMinUpdateInterval ≤ minUpdateInterval then
    { d with sleeping := true, commands := d.commands ++ [.sleep] }
  else d

/-- `showLines`, once the display is to be updated. -/
def refresh (d : LocalGUIDisplay F) (now : Int) : LocalGUIDisplay F :=
  let fullUpdateNeeded := d.refreshCount % fullUpdateEvery = 0 || d.sleeping
  let d := { d with lastUpdate := now }.wakeUp
  let d := { d with
    refreshCount := (d.refreshCount + 1) % 2 ^ 32
    commands := d.commands ++ [Command.display ⟨now, fullUpdateNeeded, d.lines⟩] }
  d.goToSleep

def showLines (d : LocalGUIDisplay F) (now : Int) : LocalGUIDisplay F :=
  if 0 < d.lastUpdate ∧ now - d.lastUpdate < minUpdateInterval then d else d.refresh now

/-- `LocalGUI::send()`: the display, and the buffer of the channel. -/
def send (d : LocalGUIDisplay F) (e : SendEvent F) : LocalGUIDisplay F × Buffer :=
  let d := d.init
  match e.buf.sent.nodes.getLast? with
  | none => (d, e.buf)
  | some it =>
    ((d.putLine e.format it.val.value).showLines e.now,
      (e.buf.markFirst e.buf.sent.nodes.length).clean)

def machine : EventMachine.Machine (LocalGUIDisplay F) (SendEvent F) :=
  ⟨initial, fun d e => some (d.send e).1⟩

end LocalGUIDisplay

/-! ## The panel -/

inductive Panel where
  | off
  | awake
  | asleep
  deriving DecidableEq

namespace Panel
variable {F : Type} [Ord F]

/-- It takes no command but to wake up unless it is awake. -/
def take : Panel → Command F → Option Panel
  | _, .init => some .awake
  | .awake, .clear => some .awake
  | .awake, .display _ => some .awake
  | .awake, .sleep => some .asleep
  | _, _ => none

/-- The panel after some commands. -/
def run (commands : List (Command F)) : Option Panel := commands.foldlM take .off

theorem run_append {commands more : List (Command F)} {p : Panel} (h : run commands = some p) :
    run (commands ++ more) = more.foldlM take p := by
  rw [run, List.foldlM_append, ← run, h]
  rfl

end Panel

/-! ## What is shown -/

section
variable {F : Type} [Ord F]

/-- The refreshes among the commands. -/
def refreshes (commands : List (Command F)) : List (Refresh F) :=
  commands.filterMap fun
    | .display r => some r
    | _ => none

theorem refreshes_append (commands more : List (Command F)) :
    refreshes (commands ++ more) = refreshes commands ++ refreshes more :=
  List.filterMap_append ..

/-- A value that was sent. -/
structure Sent (F : Type) where
  format : F
  value : Rat
  time : Int

/-- What a call sends: the last reading in the buffer. -/
def SendEvent.sent (e : SendEvent F) : List (Sent F) :=
  e.buf.sent.nodes.getLast?.toList.map fun it => ⟨e.format, it.val.value, e.now⟩

/-- The last values, by their formats. -/
def linesOf (h : List (Sent F)) : Lines F := h.foldl (fun ls s => ls.insert s.format s.value) ∅

theorem linesOf_concat (h : List (Sent F)) (s : Sent F) :
    linesOf (h ++ [s]) = (linesOf h).insert s.format s.value := by
  rw [linesOf, List.foldl_append]
  rfl

/-- The kind of a refresh, by its number: the first one is full, the next five are not, and the
later ones wake the panel up. -/
def IsFull (k : Nat) : Prop := k % 2 ^ 32 = 0 ∨ sleepAfterRefreshCount < k % 2 ^ 32

/-- Two refreshes in a row are two minutes apart, or the second one has a new line. -/
def Spaced (r r' : Refresh F) : Prop :=
  r.time + minUpdateInterval ≤ r'.time ∨ ∃ f, f ∈ r'.lines ∧ f ∉ r.lines

/-- The refreshes are as they should be. -/
structure Regular (rs : List (Refresh F)) : Prop where
  kinds : ∀ k r, rs[k]? = some r → (r.full = true ↔ IsFull k)
  spaced : rs.IsChain Spaced

/-- The last refresh shows the value just sent and all others, or is less than two minutes old
and shows the same lines. -/
structure Fresh (rs : List (Refresh F)) (h : List (Sent F)) (s : Sent F) : Prop where
  shown : ∃ r, rs.getLast? = some r ∧ (∀ f, f ∈ r.lines ↔ f ∈ linesOf h) ∧
    (r.time = s.time ∧ r.lines = linesOf h ∨ s.time < r.time + minUpdateInterval)

theorem Regular.concat {rs : List (Refresh F)} (hrs : Regular rs) {r : Refresh F}
    (hkind : r.full = true ↔ IsFull rs.length)
    (hspaced : ∀ r', rs.getLast? = some r' → Spaced r' r) : Regular (rs ++ [r]) where
  kinds k r' h := by
    rcases Nat.lt_trichotomy k rs.length with hlt | rfl | hgt
    · rw [List.getElem?_append_left hlt] at h
      exact hrs.kinds k r' h
    · rw [List.getElem?_concat_length] at h
      obtain rfl := Option.some.inj h
      exact hkind
    · rw [List.getElem?_eq_none (by simpa [Nat.succ_le_iff] using hgt)] at h
      cases h
  spaced := by
    refine hrs.spaced.append (.singleton r) ?_
    intro r' hr' r'' hr''
    obtain rfl := Option.some.inj hr''
    exact hspaced r' hr'

namespace LocalGUIDisplay
variable {d t : LocalGUIDisplay F} {h : List (Sent F)}

/-- Where the display takes the panel to be. -/
def panel (d : LocalGUIDisplay F) : Panel :=
  if d.initialized then if d.sleeping then .asleep else .awake else .off

/-- The invariant, with the values sent so far. -/
structure Shows (d : LocalGUIDisplay F) (h : List (Sent F)) : Prop where
  panel : Panel.run d.commands = some d.panel
  lines : d.lines = linesOf h
  prevNumLines : d.prevNumLines = d.lines.size
  refreshCount : d.refreshCount = (refreshes d.commands).length % 2 ^ 32
  sleeping : d.sleeping = true ↔ sleepAfterRefreshCount < d.refreshCount
  initialized : refreshes d.commands ≠ [] → d.initialized = true
  regular : Regular (refreshes d.commands)
  lastUpdate : ∀ r, (refreshes d.commands).getLast? = some r →
    d.lastUpdate = r.time ∧ 0 < r.time ∧ ∀ f, f ∈ r.lines ↔ f ∈ d.lines
  fresh : ∀ s, h.getLast? = some s → Fresh (refreshes d.commands) h s

theorem shows_initial : Shows (initial : LocalGUIDisplay F) [] where
  panel := rfl
  lines := rfl
  prevNumLines := rfl
  refreshCount := rfl
  sleeping := ⟨nofun, fun h => absurd h (Nat.not_lt_zero _)⟩
  initialized h := absurd rfl h
  regular := ⟨nofun, List.IsChain.nil⟩
  lastUpdate _ h := by cases h
  fresh _ h := by cases h

theorem Shows.init (hw : Shows d h) : Shows d.init h ∧ d.init.initialized = true := by
  unfold LocalGUIDisplay.init
  split
  · rename_i hinit
    exact ⟨hw, hinit⟩
  · rename_i hinit
    have hnone : refreshes d.commands = [] :=
      Classical.byContradiction fun hne => hinit (hw.initialized hne)
    have hsame : refreshes (d.commands ++ [.init, .clear]) = refreshes d.commands := by
      rw [refreshes_append]
      exact List.append_nil _
    have hcount : d.refreshCount = 0 := by rw [hw.refreshCount, hnone]; rfl
    have hsleeping : d.sleeping = false := by
      rw [← Bool.not_eq_true, hw.sleeping, hcount]
      exact Nat.not_lt_zero _
    refine ⟨⟨?_, hw.lines, hw.prevNumLines, ?_, hw.sleeping, fun _ => rfl, ?_, ?_, ?_⟩, rfl⟩
    · rw [Panel.run_append hw.panel, LocalGUIDisplay.panel, if_neg hinit]
      simp only [LocalGUIDisplay.panel, hsleeping]
      rfl
    · rw [hsame]
      exact hw.refreshCount
    · rw [hsame]
      exact hw.regular
    · rw [hsame]
      exact hw.lastUpdate
    · rw [hsame]
      exact hw.fresh

/-- What a refresh does. -/
structure Refreshed (d t : LocalGUIDisplay F) (now : Int) : Prop where
  panel : Panel.run t.commands = some t.panel
  lines : t.lines = d.lines
  prevNumLines : t.prevNumLines = d.prevNumLines
  lastUpdate : t.lastUpdate = now
  refreshCount : t.refreshCount = (d.refreshCount + 1) % 2 ^ 32
  sleeping : t.sleeping = true ↔ sleepAfterRefreshCount < t.refreshCount
  initialized : t.initialized = true
  refreshes : refreshes t.commands = refreshes d.commands ++
    [⟨now, d.refreshCount % fullUpdateEvery = 0 || d.sleeping, d.lines⟩]

/-- The panel is awake. -/
structure Woken (d t : LocalGUIDisplay F) : Prop where
  panel : Panel.run t.commands = some .awake
  lines : t.lines = d.lines
  prevNumLines : t.prevNumLines = d.prevNumLines
  lastUpdate : t.lastUpdate = d.lastUpdate
  refreshCount : t.refreshCount = d.refreshCount
  sleeping : t.sleeping = false
  initialized : t.initialized = true
  refreshes : Pico.refreshes t.commands = Pico.refreshes d.commands

theorem woken (hinit : d.initialized = true) (hpanel : Panel.run d.commands = some d.panel) :
    Woken d d.wakeUp := by
  unfold wakeUp
  split
  · rename_i hsleeping
    have hasleep : d.panel = .asleep := by
      rw [LocalGUIDisplay.panel, if_pos hinit, if_pos hsleeping]
    refine ⟨?_, rfl, rfl, rfl, rfl, rfl, rfl, ?_⟩
    · simp only [LocalGUIDisplay.init, Bool.false_eq_true, if_false]
      rw [Panel.run_append hpanel, hasleep]
      rfl
    · simp only [LocalGUIDisplay.init, Bool.false_eq_true, if_false]
      rw [refreshes_append]
      exact List.append_nil _
  · rename_i hsleeping
    have hawake : d.panel = .awake := by
      rw [LocalGUIDisplay.panel, if_pos hinit, if_neg hsleeping]
    exact ⟨hpanel.trans (congrArg some hawake), rfl, rfl, rfl, rfl, by simpa using hsleeping,
      hinit, rfl⟩

theorem refreshed (hinit : d.initialized = true) (hpanel : Panel.run d.commands = some d.panel)
    (now : Int) : Refreshed d (d.refresh now) now := by
  have hwoken : Woken { d with lastUpdate := now } { d with lastUpdate := now }.wakeUp :=
    woken hinit hpanel
  unfold refresh
  generalize { d with lastUpdate := now }.wakeUp = u at hwoken
  obtain ⟨hrun, hlines, hprev, hlast, hcount, hsleeping, hu, hrefreshes⟩ := hwoken
  dsimp only at hlines hprev hlast hcount hrefreshes ⊢
  have hdisplay : ∀ r : Refresh F, Panel.run (u.commands ++ [.display r]) = some .awake := fun r =>
    Panel.run_append hrun
  have hone : ∀ r : Refresh F, Pico.refreshes (u.commands ++ [.display r]) =
      Pico.refreshes d.commands ++ [r] := fun r => by
    rw [refreshes_append, hrefreshes]
    rfl
  unfold goToSleep
  split
  · rename_i hsleep
    refine ⟨?_, hlines, hprev, hlast, by rw [hcount], ?_, hu, ?_⟩
    · rw [Panel.run_append (hdisplay _), LocalGUIDisplay.panel]
      simp only [hu, if_true]
      rfl
    · exact iff_of_true rfl hsleep.2.1
    · rw [refreshes_append, hone, hlines]
      exact List.append_nil _
  · rename_i hstays
    have hfew : ¬ sleepAfterRefreshCount < (u.refreshCount + 1) % 2 ^ 32 := fun hmany =>
      hstays ⟨by decide, hmany, by decide⟩
    refine ⟨?_, hlines, hprev, hlast, by rw [hcount], ?_, hu, ?_⟩
    · rw [hdisplay, LocalGUIDisplay.panel]
      simp only [hu, hsleeping, if_true]
      rfl
    · exact iff_of_false (by rw [hsleeping]; nofun) hfew
    · rw [hone, hlines]

/-- A refresh after a value was sent. -/
theorem Shows.refresh (hw : Shows d h) (hinit : d.initialized = true) {u : LocalGUIDisplay F}
    (hsame : ∃ lines prevNumLines lastUpdate, u = { d with
      lines := lines, prevNumLines := prevNumLines, lastUpdate := lastUpdate })
    {s : Sent F} (hlines : u.lines = linesOf (h ++ [s])) (hprev : u.prevNumLines = u.lines.size)
    (hnow : 0 < s.time)
    (hspaced : ∀ r full, (refreshes d.commands).getLast? = some r →
      Spaced r ⟨s.time, full, u.lines⟩) :
    Shows (u.refresh s.time) (h ++ [s]) := by
  obtain ⟨lines, prevNumLines, lastUpdate, hu⟩ := hsame
  have hrefreshed : Refreshed u (u.refresh s.time) s.time :=
    refreshed (by rw [hu]; exact hinit) (by rw [hu]; exact hw.panel) s.time
  subst hu
  subst hlines
  dsimp only at hprev
  subst hprev
  obtain ⟨hpanel, hlines', hprev', hlast, hcount, hsleeping, hinit', hrefreshes⟩ := hrefreshed
  dsimp only at hlines' hprev' hcount hrefreshes hspaced
  have hkind : (d.refreshCount % fullUpdateEvery = 0 || d.sleeping) = true ↔
      IsFull (Pico.refreshes d.commands).length := by
    rw [Bool.or_eq_true, decide_eq_true_eq, hw.sleeping, IsFull, ← hw.refreshCount]
    simp only [fullUpdateEvery, sleepAfterRefreshCount]
    omega
  have hend : ∀ r : Refresh F, (Pico.refreshes d.commands ++ [r]).getLast? = some r :=
    fun _ => List.getLast?_concat
  refine ⟨hpanel, hlines', ?_, ?_, hsleeping, fun _ => hinit', ?_, ?_, ?_⟩
  · rw [hprev', hlines']
  · rw [hrefreshes, hcount, hw.refreshCount, List.length_append]
    exact Nat.mod_add_mod ..
  · rw [hrefreshes]
    exact hw.regular.concat hkind fun r hr => hspaced r _ hr
  · rw [hrefreshes, hend]
    intro r hr
    obtain rfl := Option.some.inj hr
    exact ⟨hlast, hnow, fun f => by rw [hlines']⟩
  · intro s' hs'
    obtain rfl : s = s' := by
      rw [List.getLast?_concat] at hs'
      exact Option.some.inj hs'
    rw [hrefreshes]
    exact ⟨_, hend _, fun _ => Iff.rfl, .inl ⟨rfl, rfl⟩⟩

variable [Std.TransOrd F]

/-- A line that is there gets another value. -/
theorem mem_insert_of_mem {ls : Lines F} {f : F} (hf : f ∈ ls) (v : Rat) (g : F) :
    g ∈ ls.insert f v ↔ g ∈ ls := by
  rw [Std.TreeMap.mem_insert]
  constructor
  · rintro (heq | hg)
    · exact (Std.TreeMap.mem_congr heq).mp hf
    · exact hg
  · exact Or.inr

theorem Shows.step (hw : Shows d h) {e : SendEvent F} (hnow : 0 < e.now) :
    Shows (d.send e).1 (h ++ e.sent) := by
  obtain ⟨hw, hinit⟩ := hw.init
  unfold send SendEvent.sent
  generalize d.init = d at hw hinit
  cases hlast : e.buf.sent.nodes.getLast? with
  | none =>
    rw [Option.toList_none, List.map_nil, List.append_nil]
    exact hw
  | some it =>
    rw [Option.toList_some, List.map_singleton]
    dsimp only
    generalize hs : (⟨e.format, it.val.value, e.now⟩ : Sent F) = s
    have hnow : 0 < s.time := by rw [← hs]; exact hnow
    have hlines : d.lines.insert e.format it.val.value = linesOf (h ++ [s]) := by
      rw [linesOf_concat, ← hw.lines, ← hs]
    have htime : e.now = s.time := by rw [← hs]
    rw [htime]
    by_cases hmem : e.format ∈ d.lines
    · have hsize : (d.lines.insert e.format it.val.value).size = d.prevNumLines := by
        rw [Std.TreeMap.size_insert, if_pos (Std.TreeMap.mem_iff_contains.mp hmem), hw.prevNumLines]
      have hput : d.putLine e.format it.val.value =
          { d with lines := d.lines.insert e.format it.val.value } :=
        if_neg (not_not.mpr hsize)
      rw [hput]
      unfold showLines
      split
      · rename_i hskip
        have hne : h ≠ [] := by
          rintro rfl
          rw [hw.lines] at hmem
          exact Std.TreeMap.not_mem_emptyc hmem
        obtain ⟨s', hs'⟩ : ∃ s', h.getLast? = some s' := ⟨_, List.getLast?_eq_some_getLast hne⟩
        obtain ⟨r, hr, -, -⟩ := (hw.fresh s' hs').shown
        obtain ⟨hlastUpdate, hpos, hsame⟩ := hw.lastUpdate r hr
        have hkeep : ∀ f, f ∈ r.lines ↔ f ∈ d.lines.insert e.format it.val.value := fun f =>
          (hsame f).trans (mem_insert_of_mem hmem _ f).symm
        refine ⟨hw.panel, hlines, hsize.symm, hw.refreshCount, hw.sleeping, hw.initialized,
          hw.regular, ?_, ?_⟩
        · intro r' hr'
          obtain rfl := Option.some.inj (hr.symm.trans hr')
          exact ⟨hlastUpdate, hpos, hkeep⟩
        · intro s'' hs''
          obtain rfl : s = s'' := by
            rw [List.getLast?_concat] at hs''
            exact Option.some.inj hs''
          refine ⟨r, hr, fun f => by rw [hkeep f, hlines], .inr ?_⟩
          have hlate := hskip.2
          rw [hlastUpdate] at hlate
          omega
      · rename_i hdue
        refine hw.refresh hinit ⟨_, _, _, rfl⟩ hlines ?_ hnow ?_
        · exact hsize.symm
        · intro r full hr
          obtain ⟨htime, hpos, -⟩ := hw.lastUpdate r hr
          refine .inl ?_
          dsimp only at hdue ⊢
          omega
    · have hsize : (d.lines.insert e.format it.val.value).size ≠ d.prevNumLines := by
        have hnot : ¬ d.lines.contains e.format = true := fun hc =>
          hmem (Std.TreeMap.mem_iff_contains.mpr hc)
        rw [Std.TreeMap.size_insert, if_neg hnot, hw.prevNumLines]
        exact Nat.succ_ne_self _
      have hput : d.putLine e.format it.val.value =
          { d with
            lines := d.lines.insert e.format it.val.value
            prevNumLines := (d.lines.insert e.format it.val.value).size
            lastUpdate := 0 } := if_pos hsize
      rw [hput]
      unfold showLines
      rw [if_neg fun hskip => absurd hskip.1 (Int.lt_irrefl 0)]
      refine hw.refresh hinit ⟨_, _, _, rfl⟩ hlines rfl hnow ?_
      intro r full hr
      obtain ⟨-, -, hsame⟩ := hw.lastUpdate r hr
      refine .inr ⟨e.format, ?_, ?_⟩
      · exact Std.TreeMap.mem_insert_self
      · rw [hsame]
        exact hmem

/-- **What the display shows.**  In every run of the channels' calls, with a clock that is set:
the panel gets no command while it is off or asleep; its refreshes are of the kinds they should be,
and two minutes apart unless there is a new line; and after every value that was sent, the panel
shows it with the last values of all other channels, or was refreshed less than two minutes ago
and shows the same lines with older values. -/
theorem display_shows {es : List (SendEvent F)} (hrun : machine.run initial es = some d)
    (hnow : ∀ e ∈ es, 0 < e.now) :
    (∃ p, Panel.run d.commands = some p) ∧ Regular (refreshes d.commands) ∧
      ∀ s, (es.flatMap SendEvent.sent).getLast? = some s →
        Fresh (refreshes d.commands) (es.flatMap SendEvent.sent) s := by
  have hshows : Shows d ([] ++ es.flatMap SendEvent.sent) :=
    EventMachine.Machine.run_history SendEvent.sent hrun hnow shows_initial
      fun _ _ _ _ hw hpos hstep => by
        obtain rfl := Option.some.inj hstep
        exact hw.step hpos
  rw [List.nil_append] at hshows
  exact ⟨⟨_, hshows.panel⟩, hshows.regular, hshows.fresh⟩

/-- A second line comes at once, its next value after two minutes. -/
theorem display_shows_two :
    let buf : Buffer := (Buffer.initial .none).push (.tick 1)
    ∃ d, (machine : EventMachine.Machine (LocalGUIDisplay Nat) _).run initial
        [⟨1, buf, 100⟩, ⟨2, buf, 101⟩, ⟨2, buf, 102⟩, ⟨2, buf, 300⟩] = some d ∧
      (refreshes d.commands).map Refresh.time = [100, 101, 300] ∧
      (refreshes d.commands).IsChain Spaced := by
  intro buf
  have hex : ∃ d, (machine : EventMachine.Machine (LocalGUIDisplay Nat) _).run initial
      [⟨1, buf, 100⟩, ⟨2, buf, 101⟩, ⟨2, buf, 102⟩, ⟨2, buf, 300⟩] = some d ∧
      (refreshes d.commands).map Refresh.time = [100, 101, 300] :=
    EventMachine.Machine.exists_run_of_any (by decide +kernel)
  obtain ⟨d, hrun, htimes⟩ := hex
  exact ⟨d, hrun, htimes, (display_shows hrun (by simp)).2.1.spaced⟩

end LocalGUIDisplay
end
end VzLogger.Pico
