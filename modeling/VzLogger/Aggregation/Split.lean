import VzLogger.Buffer
import Mathlib.Data.Option.Defs
import Mathlib.Order.Bounds.Defs

/-! # Aggregating a maximum or a sum more than once

A channel in mode `max` or `sum` between two drains: readings are pushed, and
`aggregate` is called at the end, or at other places as well.  An earlier call
leaves its survivor in the buffer, and the next one takes it for a reading.

That makes no difference.  The survivor's value stands for all the readings it
was made from, and its time for the latest of them: the rounding may have moved
it back, but only within its slot, so a reading that now counts as later falls
into the same slot.
-/
namespace VzLogger

open Buffer (live latest latestStep dblMax slot)

inductive SplitEvent where
  | push (value : Rat) (time : Timeval) (identifier : ReadingIdentifier)
  | aggregate

namespace SplitEvent
variable (aggtime : Int) (aggFixedInterval : Bool)

/-- The buffer after an event. -/
def step (b : Buffer) : SplitEvent → Buffer
  | .push value time identifier => b.push ⟨false, value, time, identifier⟩
  | .aggregate => b.aggregate aggtime aggFixedInterval

def run (b : Buffer) (es : List SplitEvent) : Buffer := es.foldl (step aggtime aggFixedInterval) b

/-- The reading an event pushes. -/
def reading : SplitEvent → Option Reading
  | .push value time identifier => some ⟨false, value, time, identifier⟩
  | .aggregate => none

def isPush (e : SplitEvent) : Bool := e.reading.isSome

/-- The readings of a run, in the order they are pushed. -/
def pushed (es : List SplitEvent) : List Reading := es.filterMap reading

/-- A time, or the start of its slot of `aggtime` seconds. -/
def settledMs (timeMs : Int) : Int :=
  if aggFixedInterval = true ∧ 0 < aggtime then timeMs - timeMs % (1000 * aggtime) else timeMs

/-- What one aggregate of some readings should be. -/
structure Survivor (aggmode : AggMode) (rs : List Reading) (r : Reading) : Prop where
  undeleted : r.deleted = false
  max : aggmode = .max → IsGreatest {v | ∃ x ∈ rs, x.value = v} r.value
  sum : aggmode = .sum → r.value = (rs.map Reading.value).sum
  time : ∃ t, IsGreatest {t | ∃ x ∈ rs, x.timeMs = t} t ∧
    r.timeMs = settledMs aggtime aggFixedInterval t

end SplitEvent

/-! ## Values -/

namespace Buffer

/-- How a mode takes in one more value. -/
def op : AggMode → Rat → Rat → Rat
  | .max => max
  | _ => (· + ·)

def start : AggMode → Rat
  | .max => -dblMax
  | _ => 0

/-- `aggvalue` after the first loop. -/
def aggvalue (aggmode : AggMode) (vs : List Rat) : Rat := vs.foldl (op aggmode) (start aggmode)

theorem aggvalue_append_singleton (aggmode : AggMode) (vs : List Rat) (v : Rat) :
    aggvalue aggmode (vs ++ [v]) = op aggmode (aggvalue aggmode vs) v := by
  rw [aggvalue, List.foldl_append]
  rfl

theorem aggvalue_sum (vs : List Rat) : aggvalue .sum vs = vs.sum := by
  rw [aggvalue, List.sum_eq_foldl]
  rfl

/-- A loop of mode `max` finds the greatest of the start and the values. -/
theorem foldl_max_spec (v : Rat) (vs : List Rat) :
    (vs.foldl max v = v ∨ vs.foldl max v ∈ vs) ∧
      v ≤ vs.foldl max v ∧ ∀ w ∈ vs, w ≤ vs.foldl max v := by
  induction vs generalizing v with
  | nil => simp
  | cons w vs ih =>
    obtain ⟨hmem, hstart, hle⟩ := ih (max v w)
    rw [List.foldl_cons]
    refine ⟨?_, le_trans (le_max_left v w) hstart, ?_⟩
    · rcases hmem with hmem | hmem
      · rw [hmem]
        rcases max_choice v w with h | h
        · exact Or.inl h
        · rw [h]
          exact Or.inr List.mem_cons_self
      · exact Or.inr (List.mem_cons_of_mem _ hmem)
    · intro x hx
      rcases List.mem_cons.mp hx with rfl | hx
      · exact le_trans (le_max_right v x) hstart
      · exact hle x hx

/-- With values above the start, that is the greatest value. -/
theorem aggvalue_max {vs : List Rat} (hne : vs ≠ []) (h : ∀ v ∈ vs, -dblMax < v) :
    IsGreatest {v | v ∈ vs} (aggvalue .max vs) := by
  obtain ⟨hmem, -, hle⟩ := foldl_max_spec (-dblMax) vs
  refine ⟨?_, hle⟩
  rcases hmem with hmem | hmem
  · obtain ⟨v, rest, rfl⟩ := List.exists_cons_of_ne_nil hne
    have hlt := h v List.mem_cons_self
    have hv := hle v List.mem_cons_self
    rw [hmem] at hv
    exact absurd hlt (not_lt.mpr hv)
  · exact hmem

/-- The result of a loop is taken in as it is. -/
theorem aggvalue_singleton {aggmode : AggMode} (h : aggmode = .max ∨ aggmode = .sum)
    (vs : List Rat) : aggvalue aggmode [aggvalue aggmode vs] = aggvalue aggmode vs := by
  rcases h with rfl | rfl
  · exact max_eq_right (foldl_max_spec (-dblMax) vs).2.1
  · exact zero_add _

theorem maxValue_eq (l : List (Node Reading)) :
    maxValue l = aggvalue .max ((live l).map fun it => it.val.value) := by
  rw [maxValue, aggvalue, List.foldl_map]
  congr 1
  funext v it
  exact (max_def_lt v it.val.value).symm

theorem sumValue_eq (l : List (Node Reading)) :
    sumValue l = aggvalue .sum ((live l).map fun it => it.val.value) := by
  rw [sumValue, aggvalue, List.foldl_map]
  rfl

/-! ## One call -/

/-- **The survivor of a call.**  The latest undeleted reading, with the value of
them all and its time rounded; nothing else stays. -/
theorem aggregate_nodes {b : Buffer} (h : b.aggmode = .max ∨ b.aggmode = .sum) (aggtime : Int)
    (aggFixedInterval : Bool) : (b.aggregate aggtime aggFixedInterval).sent.nodes =
      (latest b.sent.nodes).toList.map fun m =>
        ⟨m.addr, fixTime aggtime aggFixedInterval (m.val.setValue
          (aggvalue b.aggmode ((live b.sent.nodes).map fun it => it.val.value)))⟩ := by
  have hnone : b.aggmode ≠ .none := by rcases h with h | h <;> simp [h]
  rw [aggregate, if_neg hnone, clean_nodes, aggregatePass, live_fixTimes]
  have hfold : b.fold.sent = settle b.sent fun r =>
      r.setValue (aggvalue b.aggmode ((live b.sent.nodes).map fun it => it.val.value)) := by
    unfold fold
    rcases h with h | h
    · rw [h]
      dsimp only
      rw [maxValue_eq]
    · rw [h]
      dsimp only
      rw [sumValue_eq]
  rw [hfold]
  cases hl : latest b.sent.nodes with
  | none =>
    -- no undeleted reading: nothing is kept, and nothing stays
    have hnil := latest_eq_none.mp hl
    rw [settle_of_live_nil hnil, hnil]
    rfl
  | some m =>
    rw [live_settle hl (mem_live.mp (latest_spec hl).1).2]
    rfl

end Buffer

/-! ## Times -/

namespace SplitEvent
variable {aggtime : Int} {aggFixedInterval : Bool}

/-- The time of what an aggregate keeps stands for that of the latest reading:
it is the same, or an earlier one in the same slot. -/
def Tracks (aggtime : Int) (aggFixedInterval : Bool) (kept last : Reading) : Prop :=
  if aggFixedInterval = true ∧ 0 < aggtime then
    0 ≤ kept.timeMs ∧ kept.timeMs ≤ last.timeMs ∧ slot aggtime kept = slot aggtime last
  else kept.time = last.time

theorem timeMs_of_time {r s : Reading} (h : r.time = s.time) : r.timeMs = s.timeMs := by
  rw [Reading.timeMs, Reading.timeMs, h]

theorem slot_of_nonneg {r : Reading} (h : 0 ≤ r.timeMs) :
    slot aggtime r = aggtime * (r.timeMs / 1000 / aggtime) := by
  rw [slot, Int.tdiv_eq_ediv_of_nonneg h, Int.tdiv_eq_ediv_of_nonneg (by omega)]

theorem slot_mono (haggtime : 0 < aggtime) {r s : Reading} (hr : 0 ≤ r.timeMs)
    (h : r.timeMs ≤ s.timeMs) : slot aggtime r ≤ slot aggtime s := by
  rw [slot_of_nonneg hr, slot_of_nonneg (le_trans hr h)]
  have h1 : r.timeMs / 1000 ≤ s.timeMs / 1000 := by omega
  exact Int.mul_le_mul_of_nonneg_left (Int.ediv_le_ediv haggtime h1) (le_of_lt haggtime)

theorem tracks_refl {r : Reading} (h : 0 ≤ r.timeMs) : Tracks aggtime aggFixedInterval r r := by
  unfold Tracks
  split
  · exact ⟨h, le_rfl, rfl⟩
  · rfl

/-- One more reading: whichever of the two it takes the place of, what is kept
still stands for the latest. -/
theorem tracks_latestStep {m l it it' : Node Reading} (hval : it.val = it'.val)
    (hit : 0 ≤ it.val.timeMs) (h : Tracks aggtime aggFixedInterval m.val l.val) :
    Option.Rel (fun x y => Tracks aggtime aggFixedInterval x.val y.val)
      (latestStep (some m) it) (latestStep (some l) it') := by
  have hnew : Tracks aggtime aggFixedInterval it.val it'.val := hval ▸ tracks_refl hit
  have hle : m.val.timeMs ≤ l.val.timeMs := by
    unfold Tracks at h
    split at h
    · exact h.2.1
    · exact le_of_eq (timeMs_of_time h)
  simp only [latestStep, ← hval]
  by_cases hl : l.val.timeMs < it.val.timeMs
  · rw [if_pos hl, if_pos (lt_of_le_of_lt hle hl)]
    exact .some hnew
  · by_cases hm : m.val.timeMs < it.val.timeMs
    · -- the new reading is later than the rounded time only
      rw [if_neg hl, if_pos hm]
      refine .some ?_
      unfold Tracks at h ⊢
      split at h
      · rename_i hfixed
        rw [if_pos hfixed]
        have hlower := slot_mono hfixed.2 h.1 (le_of_lt hm)
        have hupper := slot_mono hfixed.2 hit (not_lt.mp hl)
        exact ⟨hit, not_lt.mp hl, by omega⟩
      · have htime := timeMs_of_time h
        omega
    · rw [if_neg hl, if_neg hm]
      exact .some h

/-- The rounding of an aggregate stays within the slot. -/
theorem tracks_fixTime {kept last : Reading} (v : Rat)
    (h : Tracks aggtime aggFixedInterval kept last) :
    Tracks aggtime aggFixedInterval
      (Buffer.fixTime aggtime aggFixedInterval (kept.setValue v)) last := by
  unfold Tracks Buffer.fixTime at *
  split
  · rename_i hfixed
    rw [if_pos hfixed] at h
    obtain ⟨hnonneg, hle, hslot⟩ := h
    have hkept : slot aggtime (kept.setValue v) = slot aggtime kept := rfl
    have hpos := hfixed.2
    have h0 : 0 ≤ kept.timeMs / 1000 / aggtime :=
      Int.ediv_nonneg (by omega) (le_of_lt hpos)
    have hmul := Int.mul_ediv_self_le (x := kept.timeMs / 1000) (k := aggtime) (by omega)
    have hs : slot aggtime kept = aggtime * (kept.timeMs / 1000 / aggtime) := slot_of_nonneg hnonneg
    have hs0 : 0 ≤ slot aggtime kept := hs ▸ Int.mul_nonneg (le_of_lt hpos) h0
    have hms : ((kept.setValue v).setTime ⟨slot aggtime kept, 0⟩).timeMs =
        slot aggtime kept * 1000 := Reading.setTime_timeMs _ _
    have hms0 : 0 ≤ ((kept.setValue v).setTime ⟨slot aggtime kept, 0⟩).timeMs := by omega
    rw [hkept]
    refine ⟨hms0, by omega, ?_⟩
    rw [slot_of_nonneg hms0, hms, Int.mul_ediv_cancel _ (by decide), hs,
      Int.mul_ediv_cancel_left _ (ne_of_gt hpos), ← hs, hslot]
  · rename_i hfixed
    rw [if_neg hfixed] at h
    exact h

/-- Rounding what stands for the latest reading gives the time of that reading,
rounded. -/
theorem fixTime_time {kept last : Reading} (h : Tracks aggtime aggFixedInterval kept last)
    (v : Rat) : (Buffer.fixTime aggtime aggFixedInterval (kept.setValue v)).time =
      (Buffer.fixTime aggtime aggFixedInterval last).time := by
  unfold Tracks at h
  unfold Buffer.fixTime
  split
  · rename_i hfixed
    rw [if_pos hfixed] at h
    have hslot : slot aggtime (kept.setValue v) = slot aggtime last := h.2.2
    simp only [Reading.setTime, hslot]
  · rename_i hfixed
    rw [if_neg hfixed] at h
    exact h

theorem fixTime_timeMs {r : Reading} (h : 0 ≤ r.timeMs) :
    (Buffer.fixTime aggtime aggFixedInterval r).timeMs =
      settledMs aggtime aggFixedInterval r.timeMs := by
  unfold Buffer.fixTime settledMs
  split
  · rename_i hfixed
    have hdiv : r.timeMs / 1000 / aggtime = r.timeMs / (1000 * aggtime) :=
      Int.ediv_ediv_of_nonneg (by decide)
    have hsum := Int.mul_ediv_add_emod r.timeMs (1000 * aggtime)
    rw [Reading.setTime_timeMs, slot_of_nonneg h, hdiv]
    linarith
  · rfl

/-! ## Runs -/

/-- The latest of the pushed readings, the first one among equals. -/
def last (rs : List Reading) : Option (Node Reading) :=
  (rs.map fun r => ⟨0, r⟩).foldl latestStep none

/-- What is in the buffer stands for the readings pushed so far. -/
structure Stands (aggtime : Int) (aggFixedInterval : Bool) (b : Buffer) (rs : List Reading) :
    Prop where
  aggmode : b.aggmode = .max ∨ b.aggmode = .sum
  value : Buffer.aggvalue b.aggmode ((live b.sent.nodes).map fun it => it.val.value) =
    Buffer.aggvalue b.aggmode (rs.map Reading.value)
  time : Option.Rel (fun m l => Tracks aggtime aggFixedInterval m.val l.val)
    (latest b.sent.nodes) (last rs)

theorem stands_push {b : Buffer} {rs : List Reading} (h : Stands aggtime aggFixedInterval b rs)
    {rd : Reading} (hrd : rd.deleted = false) (htime : 0 ≤ rd.timeMs) :
    Stands aggtime aggFixedInterval (b.push rd) (rs ++ [rd]) where
  aggmode := h.aggmode
  value := by
    rw [Buffer.live_push hrd, List.map_append, List.map_append]
    simp only [List.map_cons, List.map_nil, Buffer.push_aggmode]
    rw [Buffer.aggvalue_append_singleton, Buffer.aggvalue_append_singleton, h.value]
  time := by
    have hlast : last (rs ++ [rd]) = latestStep (last rs) ⟨0, rd⟩ := by
      rw [last, List.map_append, List.foldl_append]
      rfl
    rw [Buffer.latest_push hrd, hlast]
    have hrel := h.time
    generalize latest b.sent.nodes = m, last rs = l at hrel ⊢
    cases hrel with
    | none => exact .some (tracks_refl htime)
    | some hml => exact tracks_latestStep rfl htime hml

theorem stands_aggregate {b : Buffer} {rs : List Reading}
    (h : Stands aggtime aggFixedInterval b rs) :
    Stands aggtime aggFixedInterval (b.aggregate aggtime aggFixedInterval) rs := by
  have hnone : b.aggmode ≠ .none := by rcases h.aggmode with h | h <;> simp [h]
  have hlive := Buffer.live_of_undeleted
    (Buffer.aggregate_undeleted hnone aggtime aggFixedInterval)
  have hnodes := Buffer.aggregate_nodes h.aggmode aggtime aggFixedInterval
  refine ⟨by rw [Buffer.aggregate_aggmode]; exact h.aggmode, ?_, ?_⟩
  · rw [hlive, hnodes, Buffer.aggregate_aggmode, ← h.value]
    cases hm : latest b.sent.nodes with
    | none =>
      rw [Buffer.latest_eq_none.mp hm]
      rfl
    | some m =>
      simp only [Option.toList_some, List.map_cons, List.map_nil, Buffer.fixTime_value,
        Reading.setValue_value]
      exact Buffer.aggvalue_singleton h.aggmode _
  · rw [latest, hlive, hnodes]
    have hrel := h.time
    generalize latest b.sent.nodes = m, last rs = l at hrel ⊢
    cases hrel with
    | none => exact .none
    | some hml => exact .some (tracks_fixTime _ hml)

theorem stands_step {b : Buffer} {rs : List Reading} (h : Stands aggtime aggFixedInterval b rs)
    (e : SplitEvent) (htime : ∀ r ∈ e.reading, 0 ≤ r.timeMs) :
    Stands aggtime aggFixedInterval (step aggtime aggFixedInterval b e)
      (rs ++ e.reading.toList) := by
  cases e with
  | push value time identifier => exact stands_push h rfl (htime _ rfl)
  | aggregate =>
    rw [show (reading .aggregate).toList = [] from rfl, List.append_nil]
    exact stands_aggregate h

theorem stands_run {es : List SplitEvent} (htimes : ∀ r ∈ pushed es, 0 ≤ r.timeMs)
    {b : Buffer} {rs : List Reading} (h : Stands aggtime aggFixedInterval b rs) :
    Stands aggtime aggFixedInterval (run aggtime aggFixedInterval b es) (rs ++ pushed es) := by
  induction es generalizing b rs with
  | nil => simpa [run, pushed] using h
  | cons e es ih =>
    have hpushed : pushed (e :: es) = e.reading.toList ++ pushed es := by
      cases he : e.reading <;> simp [pushed, he]
    rw [hpushed] at htimes ⊢
    rw [← List.append_assoc]
    refine ih (fun r hr => htimes r (List.mem_append_right _ hr)) (stands_step h e ?_)
    intro r hr
    exact htimes r (List.mem_append_left _ (by simpa using hr))

/-- The last aggregate leaves one reading, with the value of them all, at the
time of the latest. -/
theorem aggregate_of_stands {b : Buffer} {rs : List Reading} {l : Node Reading}
    (h : Stands aggtime aggFixedInterval b rs) (hl : last rs = some l) :
    ∃ it : Node Reading, (b.aggregate aggtime aggFixedInterval).sent.nodes = [it] ∧
      it.val.deleted = false ∧
      it.val.value = Buffer.aggvalue b.aggmode (rs.map Reading.value) ∧
      it.val.time = (Buffer.fixTime aggtime aggFixedInterval l.val).time := by
  have hnodes := Buffer.aggregate_nodes h.aggmode aggtime aggFixedInterval
  have htime := h.time
  rw [hl] at htime
  match hm : latest b.sent.nodes, htime with
  | some m, .some hml =>
    rw [hm, h.value] at hnodes
    refine ⟨_, hnodes, ?_, ?_, ?_⟩
    · rw [Buffer.fixTime_deleted, Reading.setValue_deleted]
      exact (Buffer.mem_live.mp (Buffer.latest_spec hm).1).2
    · rw [Buffer.fixTime_value, Reading.setValue_value]
    · exact fixTime_time hml _

theorem last_spec {rs : List Reading} (hne : rs ≠ []) : ∃ l, last rs = some l ∧ l.val ∈ rs ∧
    ∀ r ∈ rs, r.timeMs ≤ l.val.timeMs := by
  obtain ⟨r, rest, rfl⟩ := List.exists_cons_of_ne_nil hne
  obtain ⟨l, hl, hmem, hle, hall⟩ :=
    Buffer.foldl_latestStep_some (rest.map fun r => ⟨0, r⟩) ⟨0, r⟩
  refine ⟨l, hl, ?_, ?_⟩
  · rcases hmem with rfl | hmem
    · exact List.mem_cons_self
    · obtain ⟨x, hx, rfl⟩ := List.mem_map.mp hmem
      exact List.mem_cons_of_mem _ hx
  · intro x hx
    rcases List.mem_cons.mp hx with rfl | hx
    · exact hle
    · exact hall ⟨0, x⟩ (List.mem_map_of_mem hx)

theorem pushed_filter_isPush (es : List SplitEvent) : pushed (es.filter isPush) = pushed es := by
  induction es with
  | nil => rfl
  | cons e es ih =>
    cases e with
    | push value time identifier => exact congrArg (_ :: ·) ih
    | aggregate => exact ih

theorem run_aggmode (aggtime : Int) (aggFixedInterval : Bool) (b : Buffer)
    (es : List SplitEvent) : (run aggtime aggFixedInterval b es).aggmode = b.aggmode := by
  induction es generalizing b with
  | nil => rfl
  | cons e es ih =>
    refine (ih _).trans ?_
    cases e with
    | push value time identifier => rfl
    | aggregate => exact Buffer.aggregate_aggmode b aggtime aggFixedInterval

/-- **Aggregation may be split anywhere.**  In mode `max` and in mode `sum`, the
aggregate at the end leaves one reading: the greatest value or the sum of all the
pushed ones, at their latest time, wherever else `aggregate` was called. -/
theorem aggregate_split (aggtime : Int) (aggFixedInterval : Bool) {b : Buffer}
    (hmode : b.aggmode = .max ∨ b.aggmode = .sum) (hempty : live b.sent.nodes = [])
    {es : List SplitEvent} (hne : pushed es ≠ []) (htimes : ∀ r ∈ pushed es, 0 ≤ r.timeMs)
    (hvalues : ∀ r ∈ pushed es, -dblMax < r.value) :
    ∃ often once : Node Reading,
      ((run aggtime aggFixedInterval b es).aggregate aggtime aggFixedInterval).sent.nodes =
        [often] ∧
      ((run aggtime aggFixedInterval b (es.filter isPush)).aggregate aggtime
        aggFixedInterval).sent.nodes = [once] ∧
      Survivor aggtime aggFixedInterval b.aggmode (pushed es) often.val ∧
      often.val.value = once.val.value ∧ often.val.time = once.val.time := by
  have hstart : Stands aggtime aggFixedInterval b [] := by
    refine ⟨hmode, by rw [hempty]; rfl, ?_⟩
    rw [Buffer.latest_eq_none.mpr hempty]
    exact .none
  obtain ⟨l, hl, hmem, hlast⟩ := last_spec hne
  have hfilter := pushed_filter_isPush es
  obtain ⟨often, hoften, hundeleted, hvalue, htime⟩ :=
    aggregate_of_stands (stands_run htimes hstart) hl
  obtain ⟨once, honce, -, hvalue', htime'⟩ :=
    aggregate_of_stands (stands_run (hfilter ▸ htimes) hstart) (hfilter.symm ▸ hl)
  rw [run_aggmode, List.nil_append] at hvalue hvalue'
  refine ⟨often, once, hoften, honce, ⟨hundeleted, ?_, ?_, l.val.timeMs, ?_, ?_⟩, ?_, ?_⟩
  · intro hmax
    rw [hmax] at hvalue
    have hsome : (pushed es).map Reading.value ≠ [] := by simpa using hne
    have hgreatest := Buffer.aggvalue_max hsome (by simpa using hvalues)
    rw [hvalue]
    simpa using hgreatest
  · intro hsum
    rw [hvalue, hsum, Buffer.aggvalue_sum]
  · exact ⟨⟨l.val, hmem, rfl⟩, by rintro t ⟨x, hx, rfl⟩; exact hlast x hx⟩
  · rw [timeMs_of_time htime, fixTime_timeMs (htimes _ hmem)]
  · rw [hvalue, hvalue', hfilter]
  · rw [htime, htime']

/-- A maximum over three readings, with slots of a minute: the aggregate in
between moves the first two to the start of the minute. -/
theorem aggregate_split_minute :
    let es : List SplitEvent :=
      [.push 5 ⟨70, 0⟩ .nil, .push 9 ⟨110, 0⟩ .nil, .aggregate, .push 2 ⟨90, 500⟩ .nil]
    ∃ often once : Node Reading,
      ((run 60 true (Buffer.initial .max) es).aggregate 60 true).sent.nodes = [often] ∧
      ((run 60 true (Buffer.initial .max) (es.filter isPush)).aggregate 60 true).sent.nodes =
        [once] ∧
      Survivor 60 true .max (pushed es) often.val ∧
      often.val.value = once.val.value ∧ often.val.time = once.val.time :=
  aggregate_split 60 true (b := Buffer.initial .max) (Or.inl rfl) rfl (by simp [pushed, reading])
    (by decide) (by decide +kernel)

end SplitEvent
end VzLogger
