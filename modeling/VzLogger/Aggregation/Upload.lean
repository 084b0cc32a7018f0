import VzLogger.Volkszaehler.Model
import VzLogger.Lib.EventMachine

/-! # From aggregation to upload

A channel in mode `sum` with `aggfixedinterval` and the Volkszaehler interface,
whole operations one after another; a drain follows an aggregation, before
anything else is pushed.

An aggregation leaves one reading, its time rounded down to the start of a slot
of `aggtime` seconds.  A drain takes it only if that time is newer than the one
it took last.  Two aggregations whose latest readings fall into one slot lose the
second sum.
-/
namespace VzLogger

open Buffer (live total)

/-- The channel, and the books: the pushed readings, and those put into
`_values`. -/
structure SumUpload where
  buf : Buffer
  vz : Volkszaehler
  aggregated : Bool
  pushed : List Reading
  accepted : List (Node Reading)

inductive SumUploadEvent where
  | push (rd : Reading)
  | aggregate
  | drain

namespace SumUpload

/-- A new channel, aggregation mode `sum`. -/
def initial : SumUpload := ⟨Buffer.initial .sum, Volkszaehler.initial, true, [], []⟩

/-- Every reading is constructed without a mark. -/
def step (aggtime : Int) (w : SumUpload) : SumUploadEvent → Option SumUpload
  | .push rd =>
    if rd.deleted then none
    else some { w with buf := w.buf.push rd, aggregated := false, pushed := w.pushed ++ [rd] }
  | .aggregate => some { w with buf := w.buf.aggregate aggtime true, aggregated := true }
  | .drain =>
    if w.aggregated then
      let (vz, buf) := Volkszaehler.apiJsonTuples 0 w.vz w.buf
      some { w with
        buf := buf
        vz := vz
        accepted := w.accepted ++ (Volkszaehler.drained 0 w.vz w.buf).taken }
    else none

/-- The channel as a machine. -/
def machine (aggtime : Int) : EventMachine.Machine SumUpload SumUploadEvent :=
  ⟨initial, step aggtime⟩

/-- Nothing is lost. -/
def Conserved (w : SumUpload) : Prop :=
  total w.accepted + total (live w.buf.sent.nodes) = (w.pushed.map Reading.value).sum

instance (w : SumUpload) : Decidable (Conserved w) := inferInstanceAs (Decidable (_ = _))

/-- A drain finds nothing that it would lose: what is in the buffer is newer than
the last timestamp, or has no value. -/
def Harmless (w : SumUpload) : SumUploadEvent → Prop
  | .drain => ∀ it ∈ w.buf.sent.nodes,
      w.vz.filter.lastTimestamp < it.val.timeMs ∨ it.val.value = 0
  | _ => True

/-- Between the operations nothing is marked, and an aggregation leaves at most
one reading. -/
structure Inv (w : SumUpload) : Prop where
  aggmode : w.buf.aggmode = .sum
  undeleted : ∀ it ∈ w.buf.sent.nodes, it.val.deleted = false
  single : w.aggregated = true → w.buf.sent.nodes.length ≤ 1
  conserved : Conserved w

theorem inv_initial : Inv initial where
  aggmode := rfl
  undeleted := by simp [initial, Buffer.initial]
  single := by simp [initial, Buffer.initial]
  conserved := by simp [Conserved, initial, Buffer.initial]

theorem inv_push {w : SumUpload} (hw : Inv w) {rd : Reading} (hrd : rd.deleted = false) :
    Inv { w with buf := w.buf.push rd, aggregated := false, pushed := w.pushed ++ [rd] } where
  aggmode := hw.aggmode
  undeleted := Buffer.forall_push (·.deleted = false) hw.undeleted hrd
  single := by
    intro h
    cases h
  conserved := by
    rw [Conserved, Buffer.total_live_push hrd, ← add_assoc, hw.conserved]
    simp

theorem inv_aggregate {w : SumUpload} (hw : Inv w) (aggtime : Int) :
    Inv { w with buf := w.buf.aggregate aggtime true, aggregated := true } := by
  obtain ⟨hlength, htotal⟩ := Buffer.aggregate_sum hw.aggmode aggtime true
  have hundeleted := Buffer.aggregate_undeleted (by rw [hw.aggmode]; decide) aggtime true
  refine ⟨?_, hundeleted, fun _ => hlength, ?_⟩
  · rw [Buffer.aggregate_aggmode]
    exact hw.aggmode
  · rw [Conserved, Buffer.live_of_undeleted hundeleted, htotal]
    exact hw.conserved

/-! ## A drain -/

/-- The readings a drain takes from a buffer of at most one. -/
theorem taken_single {vz : Volkszaehler} {buf : Buffer} (h : buf.sent.nodes.length ≤ 1) :
    (Volkszaehler.drained 0 vz buf).taken =
      buf.sent.nodes.filter fun it => vz.filter.lastTimestamp < it.val.timeMs := by
  unfold Volkszaehler.drained
  match hl : buf.sent.nodes with
  | [] => rfl
  | [it] =>
    by_cases hnewer : vz.filter.lastTimestamp < it.val.timeMs
    · have haccept : Volkszaehler.accept 0 vz.filter it.val =
          some { vz.filter with lastTimestamp := it.val.timeMs } := by
        rw [Volkszaehler.accept, FilterState.accept_zero, if_pos (decide_eq_true hnewer)]
      rw [drainLoop.cons_taken rfl haccept]
      simp [hnewer]
    · have haccept : Volkszaehler.accept 0 vz.filter it.val = none := by
        rw [Volkszaehler.accept, FilterState.accept_zero, if_neg (by simpa using hnewer)]
      rw [drainLoop.cons_ignored rfl haccept]
      simp [hnewer]
  | _ :: _ :: _ =>
    rw [hl] at h
    simp at h

/-- A drain leaves the buffer empty. -/
theorem apiJsonTuples_nodes (duplicates : Int) (vz : Volkszaehler) (buf : Buffer) :
    (Volkszaehler.apiJsonTuples duplicates vz buf).2.sent.nodes = [] := by
  rw [Volkszaehler.apiJsonTuples, Buffer.clean_nodes, Volkszaehler.drain_nodes]
  exact Buffer.live_map_markDelete _

/-- The state after a drain. -/
def afterDrain (w : SumUpload) : SumUpload :=
  { w with
    buf := (Volkszaehler.apiJsonTuples 0 w.vz w.buf).2
    vz := (Volkszaehler.apiJsonTuples 0 w.vz w.buf).1
    accepted := w.accepted ++ (Volkszaehler.drained 0 w.vz w.buf).taken }

theorem step_drain {aggtime : Int} {w t : SumUpload}
    (h : (machine aggtime).step w .drain = some t) : w.aggregated = true ∧ t = afterDrain w := by
  obtain ⟨hagg, hw⟩ := Option.ite_some_none_eq_some.mp h
  exact ⟨hagg, hw.symm⟩

/-- A drain keeps the totals exactly if it finds nothing that it would lose. -/
theorem conserved_afterDrain {w : SumUpload} (hw : Inv w) (hagg : w.aggregated = true) :
    Conserved (afterDrain w) ↔ Harmless w .drain := by
  have hlength := hw.single hagg
  have hw' := hw.conserved
  rw [Conserved, Buffer.live_of_undeleted hw.undeleted] at hw'
  have hleft : live (afterDrain w).buf.sent.nodes = [] := by
    rw [afterDrain, apiJsonTuples_nodes, Buffer.live_nil]
  rw [Conserved, hleft, Buffer.total_nil, add_zero, afterDrain, Buffer.total_append,
    taken_single hlength]
  dsimp only
  rw [← hw']
  match hl : w.buf.sent.nodes with
  | [] => simp [Harmless, hl]
  | [it] =>
    by_cases hnewer : w.vz.filter.lastTimestamp < it.val.timeMs
    · simp [Harmless, hl, hnewer]
    · simp [Harmless, hl, hnewer, eq_comm]
  | _ :: _ :: _ =>
    rw [hl] at hlength
    simp at hlength

/-! ## Runs -/

theorem inv_step {aggtime : Int} {w t : SumUpload} {e : SumUploadEvent} (hw : Inv w)
    (he : Harmless w e) (h : (machine aggtime).step w e = some t) : Inv t := by
  cases e with
  | push rd =>
    obtain ⟨hrd, h⟩ := Option.ite_none_left_eq_some.mp h
    obtain rfl := Option.some.inj h
    exact inv_push hw (by simpa using hrd)
  | aggregate =>
    obtain rfl := Option.some.inj h
    exact inv_aggregate hw aggtime
  | drain =>
    obtain ⟨hagg, rfl⟩ := step_drain h
    have hnodes : (afterDrain w).buf.sent.nodes = [] := apiJsonTuples_nodes 0 w.vz w.buf
    refine ⟨hw.aggmode, ?_, ?_, (conserved_afterDrain hw hagg).mpr he⟩
    · rw [hnodes]
      simp
    · rw [hnodes]
      simp

/-- **When no consumption is lost.**  In every run, the totals agree after every
operation exactly if every drain finds nothing that it would lose. -/
theorem conserved_iff_harmless (aggtime : Int) (es : List SumUploadEvent) :
    (machine aggtime).Throughout Conserved initial es ↔
      (machine aggtime).EachStep Harmless initial es := by
  have hP : ∀ w (_ : List SumUploadEvent), Inv w → Conserved w := fun _ _ hw => hw.conserved
  have hkeep : ∀ w e (_ : List SumUploadEvent) t, Inv w → Harmless w e →
      (machine aggtime).step w e = some t → Inv t := fun _ _ _ _ hw he h => inv_step hw he h
  have hbreak : ∀ w e (_ : List SumUploadEvent) t, Inv w → ¬Harmless w e →
      (machine aggtime).step w e = some t → ¬Conserved t := by
    intro w e _ t hw he h ht
    cases e with
    | drain =>
      obtain ⟨hagg, rfl⟩ := step_drain h
      exact he ((conserved_afterDrain hw hagg).mp ht)
    | push | aggregate => exact he trivial
  exact EventMachine.Machine.throughout_iff_eachStep hP hkeep hbreak inv_initial

/-- Two aggregations within one minute, with slots of a minute. -/
def twoInOneSlot : List SumUploadEvent :=
  [.push (.tick 61), .aggregate, .drain, .push (.tick 62), .aggregate, .drain]

/-- Both readings are given the time of the slot, and the second is ignored. -/
theorem twoInOneSlot_loses :
    ∃ w, (machine 60).run initial twoInOneSlot = some w ∧ total w.accepted = 1 ∧
      (w.pushed.map Reading.value).sum = 2 ∧ ¬Conserved w :=
  EventMachine.Machine.exists_run_of_any (by decide +kernel)

end SumUpload
end VzLogger
