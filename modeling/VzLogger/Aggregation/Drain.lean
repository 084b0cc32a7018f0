import VzLogger.Volkszaehler.Model
import VzLogger.InfluxDB.Model
import VzLogger.ReadingThread
import VzLogger.Lib.EventMachine

/-! # Draining a buffer that is being aggregated

A channel in mode `sum`, without rounding of times.  The reading thread pushes,
and aggregates in two critical sections; the drain loop of either interface may
run between them, followed later by the interface's own `clean`.  Requests
succeed, and the limit InfluxDB puts on the buffer is left out.

The loops do not ask whether a reading is marked deleted.  Between the pass and
its `clean` the readings folded into the latest one are still in the list, marked
but newer than the last timestamp, and a drain forwards them as well.
-/
namespace VzLogger

/-- The two interfaces that drain with the same loop. -/
inductive Api where
  | volkszaehler (duplicates : Int)
  | influxDB (db : InfluxDB)

namespace Api

def duplicates : Api → Int
  | .volkszaehler duplicates => duplicates
  | .influxDB db => db.duplicates

/-- How a time must compare with the last timestamp. -/
def newer : Api → Int → Int → Bool
  | .volkszaehler _, last, timestamp => last < timestamp
  | .influxDB _, last, timestamp => last ≤ timestamp

/-- When the loop stops. -/
def full : Api → Nat → Bool
  | .volkszaehler _, _ => false
  | .influxDB db, lines => db.full lines

/-- The drain loop. -/
def drained (api : Api) (filter : FilterState) (buf : Buffer) : Drained :=
  match api with
  | .volkszaehler duplicates => Volkszaehler.drained duplicates ⟨[], [], filter⟩ buf
  | .influxDB db => db.built filter buf

/-- Whether the interface cleans the buffer after the loop: InfluxDB only after
a request. -/
def cleans : Api → Drained → Bool
  | .volkszaehler _, _ => true
  | .influxDB _, d => !d.taken.isEmpty

theorem isNewer (api : Api) : IsNewer api.newer := by
  cases api with
  | volkszaehler duplicates =>
    exact ⟨fun h => decide_eq_true h, fun h => le_of_lt (of_decide_eq_true h)⟩
  | influxDB db => exact ⟨fun h => decide_eq_true (le_of_lt h), fun h => of_decide_eq_true h⟩

theorem drained_eq (api : Api) (filter : FilterState) (buf : Buffer) :
    api.drained filter buf = drainLoop (FilterState.accept api.newer api.duplicates) api.full
      filter 0 buf.sent.nodes := by
  cases api <;> rfl

theorem cleans_of_mem {api : Api} {d : Drained} {it : Node Reading} (h : it ∈ d.taken) :
    api.cleans d = true := by
  cases api with
  | volkszaehler duplicates => rfl
  | influxDB db => simpa [cleans] using List.ne_nil_of_mem h

end Api

open Buffer (live total Dead)

/-- The channel, and the books: the pushed readings, those forwarded, and the
places of those folded into another one. -/
structure Forwarding where
  buf : Buffer
  filter : FilterState
  cleanDue : Bool
  pushed : List Reading
  forwarded : List (Node Reading)
  folded : List Nat

inductive ForwardingEvent where
  | push (rd : Reading)
  | aggregatePass (aggtime : Int)
  | clean
  | drain
  | apiClean

namespace Forwarding

/-- A new channel, aggregation mode `sum`. -/
def initial : Forwarding := ⟨Buffer.initial .sum, FilterState.initial, false, [], [], []⟩

/-- The readings a pass folds: all but the latest. -/
def foldedBy (b : Buffer) : List Nat :=
  ((live b.sent.nodes).map Node.addr).filter fun a =>
    (Buffer.latest b.sent.nodes).map Node.addr ≠ some a

def step (api : Api) (w : Forwarding) : ForwardingEvent → Option Forwarding
  | .push rd =>
    (w.buf.readerStep (.push rd)).map fun buf => { w with buf := buf, pushed := w.pushed ++ [rd] }
  | .aggregatePass aggtime =>
    (w.buf.readerStep (.aggregatePass aggtime false)).map fun buf =>
      { w with buf := buf, folded := w.folded ++ foldedBy w.buf }
  | .clean => (w.buf.readerStep .clean).map fun buf => { w with buf := buf }
  | .drain =>
    if w.cleanDue then none
    else
      let d := api.drained w.filter w.buf
      some { w with
        buf := w.buf.markFirst d.reached
        filter := d.filter
        cleanDue := api.cleans d
        forwarded := w.forwarded ++ d.taken }
  | .apiClean => if w.cleanDue then some { w with buf := w.buf.clean, cleanDue := false } else none

/-- The two threads as a machine. -/
def machine (api : Api) : EventMachine.Machine Forwarding ForwardingEvent := ⟨initial, step api⟩

/-- Nothing is lost or forwarded twice. -/
structure Conserved (w : Forwarding) : Prop where
  totals : total w.forwarded + total (live w.buf.sent.nodes) = (w.pushed.map Reading.value).sum
  unfolded : ∀ it ∈ w.forwarded, it.addr ∉ w.folded

/-- Newer than the last timestamp, as the drain loop compares. -/
def isNewer (api : Api) (w : Forwarding) (r : Reading) : Bool :=
  api.newer w.filter.lastTimestamp r.timeMs

/-- The readings a drain comes to. -/
def reached (api : Api) (w : Forwarding) : List (Node Reading) :=
  reach (isNewer api w) api.full 0 w.buf.sent.nodes

/-- A drain meets the buffer at a good moment: none of the newer readings it
comes to is marked deleted, and the undeleted ones it ignores add up to nothing. -/
def Clear (api : Api) (w : Forwarding) : ForwardingEvent → Prop
  | .drain =>
    (∀ it ∈ reached api w, isNewer api w it.val = true → it.val.deleted = false) ∧
      total ((live (reached api w)).filter fun it => !isNewer api w it.val) = 0
  | _ => True

/-- The times of the readings still to be pushed. -/
def pushedTimes (es : List ForwardingEvent) : List Int :=
  es.filterMap fun
    | .push rd => some rd.timeMs
    | _ => none

/-- While all drains are at good moments: the buffer is sorted, and what is
marked in it but would pass the filter was folded. -/
structure Inv (api : Api) (w : Forwarding) (es : List ForwardingEvent) : Prop where
  aggmode : w.buf.aggmode = .sum
  sorted : (w.buf.sent.nodes.map (fun it => it.val.timeMs) ++ pushedTimes es).Pairwise (· < ·)
  conserved : Conserved w
  marked : ∀ it ∈ w.buf.sent.nodes, it.val.deleted = true →
    w.filter.lastTimestamp < it.val.timeMs ∨ w.cleanDue = false ∧ isNewer api w it.val = true →
      it.addr ∈ w.folded
  forwarded : ∀ it ∈ w.forwarded, Dead w.buf it.addr
  folded : ∀ a ∈ w.folded, Dead w.buf a

theorem inv_initial (api : Api) {es : List ForwardingEvent}
    (h : (pushedTimes es).Pairwise (· < ·)) : Inv api initial es where
  aggmode := rfl
  sorted := by simpa [initial, Buffer.initial] using h
  conserved := ⟨by simp [initial, Buffer.initial], by simp [initial]⟩
  marked := by simp [initial, Buffer.initial]
  forwarded := by simp [initial]
  folded := by simp [initial]

/-! ## The reading thread -/

theorem mem_foldedBy {b : Buffer} {a : Nat} : a ∈ foldedBy b ↔
    (∃ n ∈ live b.sent.nodes, n.addr = a) ∧
      (Buffer.latest b.sent.nodes).map Node.addr ≠ some a := by
  simp [foldedBy]

/-- What a pass makes of the readings: places and times stay, and marked is what
was, or is folded. -/
theorem mem_fold {b : Buffer} (h : b.aggmode = .sum) {it : Node Reading}
    (hit : it ∈ b.fold.sent.nodes) : ∃ n ∈ b.sent.nodes, n.addr = it.addr ∧
      n.val.timeMs = it.val.timeMs ∧
      (it.val.deleted = true ↔ n.val.deleted = true ∨ n.addr ∈ foldedBy b) := by
  rw [Buffer.fold, h] at hit
  obtain ⟨n, hn, rfl⟩ := List.mem_map.mp hit
  have hfolded (hlive : n.val.deleted = false) : n.addr ∈ foldedBy b ↔
      (Buffer.latest b.sent.nodes).map Node.addr ≠ some n.addr := by
    rw [mem_foldedBy]
    exact and_iff_right ⟨n, Buffer.mem_live.mpr ⟨hn, hlive⟩, rfl⟩
  refine ⟨n, hn, rfl, ?_⟩
  dsimp only
  split
  · rename_i hdel
    exact ⟨rfl, by simp [hdel]⟩
  · rename_i hdel
    have hlive : n.val.deleted = false := by simpa using hdel
    split
    · rename_i hlatest
      exact ⟨rfl, by simp [hlive, hfolded hlive, hlatest]⟩
    · rename_i hlatest
      exact ⟨rfl, by simp [hlive, hfolded hlive, hlatest]⟩

theorem inv_push {api : Api} {w : Forwarding} {rd : Reading} {buf : Buffer}
    {es : List ForwardingEvent} (hw : Inv api w (.push rd :: es))
    (h : w.buf.readerStep (.push rd) = some buf) :
    Inv api { w with buf := buf, pushed := w.pushed ++ [rd] } es := by
  have hdead {a : Nat} (ha : Dead w.buf a) : Dead buf a := Buffer.dead_readerStep ha h
  obtain ⟨hrd, rfl⟩ := Buffer.readerStep_push h
  refine ⟨hw.aggmode, ?_, ⟨?_, hw.conserved.unfolded⟩, ?_,
    fun it hit => hdead (hw.forwarded it hit),
    fun a ha => hdead (hw.folded a ha)⟩
  · simpa [pushedTimes] using hw.sorted
  · rw [Buffer.total_live_push hrd, ← add_assoc, hw.conserved.totals]
    simp
  · intro it hit hdel
    rcases List.mem_append.mp hit with hit | hit
    · exact hw.marked it hit hdel
    · rw [List.mem_singleton.mp hit, hrd] at hdel
      cases hdel

theorem inv_aggregatePass {api : Api} {w : Forwarding} {aggtime : Int} {buf : Buffer}
    {es : List ForwardingEvent} (hw : Inv api w (.aggregatePass aggtime :: es))
    (h : w.buf.readerStep (.aggregatePass aggtime false) = some buf) :
    Inv api { w with buf := buf, folded := w.folded ++ foldedBy w.buf } es := by
  have hdead {a : Nat} (ha : Dead w.buf a) : Dead buf a := Buffer.dead_readerStep ha h
  have hbuf : buf = w.buf.fold := by
    simpa [Buffer.readerStep, hw.aggmode, Buffer.aggregatePass, Buffer.fixTimes] using h.symm
  subst hbuf
  refine ⟨?_, ?_, ⟨?_, ?_⟩, ?_, fun it hit => hdead (hw.forwarded it hit), ?_⟩
  · rw [Buffer.fold, hw.aggmode]
  · rw [Buffer.fold_times]
    exact hw.sorted
  · rw [Buffer.total_live_fold hw.aggmode]
    exact hw.conserved.totals
  · intro it hit hfolded
    rcases List.mem_append.mp hfolded with hfolded | hfolded
    · exact hw.conserved.unfolded it hit hfolded
    · -- what was forwarded is marked, and a pass leaves it alone
      obtain ⟨⟨n, hn, heq⟩, -⟩ := mem_foldedBy.mp hfolded
      have hn := Buffer.mem_live.mp hn
      rw [(hw.forwarded it hit).deleted n hn.1 heq] at hn
      exact absurd hn.2 (by decide)
  · intro it hit hdel hnewer
    obtain ⟨n, hn, haddr, htime, hiff⟩ := mem_fold hw.aggmode hit
    rw [← haddr]
    rcases hiff.mp hdel with hdel | hfolded
    · rw [← htime, isNewer, ← htime] at hnewer
      exact List.mem_append_left _ (hw.marked n hn hdel hnewer)
    · exact List.mem_append_right _ hfolded
  · intro a ha
    rcases List.mem_append.mp ha with ha | ha
    · exact hdead (hw.folded a ha)
    · obtain ⟨⟨n, hn, rfl⟩, -⟩ := mem_foldedBy.mp ha
      refine ⟨?_, fun it hit heq => ?_⟩
      · exact lt_of_lt_of_le (w.buf.sent.fresh n (Buffer.mem_live.mp hn).1)
          (Buffer.addr_readerStep h).1
      · obtain ⟨m, -, haddr, -, hiff⟩ := mem_fold hw.aggmode hit
        rw [haddr, heq] at hiff
        exact hiff.mpr (Or.inr ha)

theorem inv_clean {api : Api} {w : Forwarding} {e : ForwardingEvent} {cleanDue : Bool}
    {es : List ForwardingEvent} (hw : Inv api w (e :: es))
    (he : pushedTimes (e :: es) = pushedTimes es) :
    Inv api { w with buf := w.buf.clean, cleanDue := cleanDue } es := by
  have hdead {a : Nat} (ha : Dead w.buf a) : Dead w.buf.clean a :=
    Buffer.dead_readerStep ha (e := .clean) rfl
  refine ⟨hw.aggmode, ?_, ⟨?_, hw.conserved.unfolded⟩, ?_,
    fun it hit => hdead (hw.forwarded it hit),
    fun a ha => hdead (hw.folded a ha)⟩
  · have h := hw.sorted
    rw [he] at h
    exact h.sublist ((List.filter_sublist.map _).append_right _)
  · rw [Buffer.clean_nodes, Buffer.live_live]
    exact hw.conserved.totals
  · intro it hit hdel
    rw [w.buf.clean_undeleted it hit] at hdel
    cases hdel

/-! ## The drain -/

/-- The state after a drain. -/
def afterDrain (api : Api) (w : Forwarding) : Forwarding :=
  let d := api.drained w.filter w.buf
  { w with
    buf := w.buf.markFirst d.reached
    filter := d.filter
    cleanDue := api.cleans d
    forwarded := w.forwarded ++ d.taken }

section Drain
variable {api : Api} {w : Forwarding}

theorem reached_eq_take :
    w.buf.sent.nodes.take (reached api w).length = reached api w :=
  (List.prefix_iff_eq_take.mp (reach_isPrefix _ _ _ _)).symm

/-- What the loop does, from the state before it. -/
theorem drained_spec (hdup : api.duplicates = 0)
    (hsorted : (w.buf.sent.nodes.map (fun it => it.val.timeMs)).Pairwise (· < ·)) :
    (api.drained w.filter w.buf).taken = (reached api w).filter (fun it => isNewer api w it.val) ∧
      (api.drained w.filter w.buf).reached = (reached api w).length ∧
      w.filter.lastTimestamp ≤ (api.drained w.filter w.buf).filter.lastTimestamp ∧
      ∀ it ∈ (api.drained w.filter w.buf).taken,
        it.val.timeMs ≤ (api.drained w.filter w.buf).filter.lastTimestamp := by
  rw [Api.drained_eq, hdup]
  exact ⟨(drainLoop_zero api.isNewer w.filter 0 hsorted).1,
    (drainLoop_zero api.isNewer w.filter 0 hsorted).2,
    le_lastTimestamp api.isNewer 0 api.full w.filter 0 w.buf.sent.nodes⟩

/-- The undeleted readings after a drain are those it did not come to. -/
theorem live_afterDrain {k : Nat} : live (w.buf.markFirst k).sent.nodes =
    live (w.buf.sent.nodes.drop k) := by
  rw [Buffer.markFirst_nodes, Buffer.live_append, Buffer.live_map_markDelete, List.nil_append]

/-- The totals before a drain, by what it does to the readings. -/
theorem total_live_split : total (live w.buf.sent.nodes) =
    total ((live (reached api w)).filter fun it => isNewer api w it.val) +
      total ((live (reached api w)).filter fun it => !isNewer api w it.val) +
      total (live (w.buf.sent.nodes.drop (reached api w).length)) := by
  have hsplit := List.take_append_drop (reached api w).length w.buf.sent.nodes
  rw [reached_eq_take] at hsplit
  calc total (live w.buf.sent.nodes)
      = total (live (reached api w)) +
          total (live (w.buf.sent.nodes.drop (reached api w).length)) := by
        rw [← Buffer.total_append, ← Buffer.live_append, hsplit]
    _ = _ := by rw [Buffer.total_filter_add (fun it => isNewer api w it.val)]

/-- If no marked reading passes the filter, only live ones are taken. -/
theorem taken_live
    (h : ∀ it ∈ reached api w, isNewer api w it.val = true → it.val.deleted = false) :
    (live (reached api w)).filter (fun it => isNewer api w it.val) =
      (reached api w).filter (fun it => isNewer api w it.val) := by
  rw [live, List.filter_filter]
  refine List.filter_congr fun it hit => ?_
  cases hnewer : isNewer api w it.val with
  | false => simp
  | true => simp [h it hit hnewer]

theorem inv_drain (hdup : api.duplicates = 0) {es : List ForwardingEvent}
    (hw : Inv api w (.drain :: es)) (hclear : Clear api w .drain) (hpc : w.cleanDue = false) :
    Inv api (afterDrain api w) es := by
  obtain ⟨hunmarked, hnothing⟩ := hclear
  obtain ⟨htaken, hreached, hle, htimes⟩ :=
    drained_spec hdup (List.pairwise_append.mp hw.sorted).1
  refine ⟨hw.aggmode, ?_, ⟨?_, ?_⟩, ?_, ?_,
    fun a ha => Buffer.dead_markFirst (hw.folded a ha) _⟩
  · rw [afterDrain, Buffer.markFirst_times]
    exact hw.sorted
  · have htotals := hw.conserved.totals
    rw [total_live_split, hnothing, taken_live hunmarked] at htotals
    rw [afterDrain, live_afterDrain, hreached, Buffer.total_append, htaken]
    linarith
  · intro it hit hfolded
    rcases List.mem_append.mp hit with hit | hit
    · exact hw.conserved.unfolded it hit hfolded
    · rw [htaken] at hit
      obtain ⟨hreach, hnewer⟩ := List.mem_filter.mp hit
      have hdel := (hw.folded _ hfolded).deleted it ((reach_isPrefix _ _ _ _).subset hreach) rfl
      rw [hunmarked it hreach hnewer] at hdel
      cases hdel
  · -- a marked reading is not newer than the timestamp the drain leaves
    intro it hit hdel hnewer
    have hnewer' : isNewer api w it.val = true := by
      rcases hnewer with hlt | ⟨-, hnewer⟩
      · exact api.isNewer.of_lt (lt_of_le_of_lt hle hlt)
      · exact api.isNewer.anti hle hnewer
    rcases List.mem_append.mp hit with hit | hit
    · obtain ⟨n, hn, rfl⟩ := List.mem_map.mp hit
      rw [hreached, reached_eq_take] at hn
      have hn : n ∈ (api.drained w.filter w.buf).taken := by
        rw [htaken]
        exact List.mem_filter.mpr ⟨hn, hnewer'⟩
      rcases hnewer with hlt | ⟨hidle, -⟩
      · exact absurd (htimes n hn) (not_le.mpr hlt)
      · have hdue : (afterDrain api w).cleanDue = true := Api.cleans_of_mem hn
        rw [hdue] at hidle
        cases hidle
    · exact hw.marked it (List.mem_of_mem_drop hit) hdel (Or.inr ⟨hpc, hnewer'⟩)
  · intro it hit
    rcases List.mem_append.mp hit with hit | hit
    · exact Buffer.dead_markFirst (hw.forwarded it hit) _
    · rw [htaken] at hit
      have hreach := (List.mem_filter.mp hit).1
      refine Buffer.dead_of_mem_take ?_
      rw [hreached, reached_eq_take]
      exact hreach

/-- A drain at a bad moment forwards a folded reading, or loses a value. -/
theorem not_conserved_drain (hdup : api.duplicates = 0) {es : List ForwardingEvent}
    (hw : Inv api w (.drain :: es)) (hclear : ¬Clear api w .drain) (hpc : w.cleanDue = false) :
    ¬Conserved (afterDrain api w) := by
  obtain ⟨htaken, hreached, -, -⟩ := drained_spec hdup (List.pairwise_append.mp hw.sorted).1
  intro ht
  by_cases hunmarked : ∀ it ∈ reached api w, isNewer api w it.val = true → it.val.deleted = false
  · refine hclear ⟨hunmarked, ?_⟩
    have htotals := hw.conserved.totals
    rw [total_live_split, taken_live hunmarked] at htotals
    have htotals' := ht.totals
    rw [afterDrain, live_afterDrain, hreached, Buffer.total_append, htaken] at htotals'
    dsimp only at htotals'
    linarith
  · simp only [not_forall] at hunmarked
    obtain ⟨it, hreach, hnewer, hdel⟩ := hunmarked
    have hfolded : it.addr ∈ w.folded :=
      hw.marked it ((reach_isPrefix _ _ _ _).subset hreach) (by simpa using hdel)
        (Or.inr ⟨hpc, hnewer⟩)
    refine ht.unfolded it (List.mem_append_right _ ?_) hfolded
    rw [htaken]
    exact List.mem_filter.mpr ⟨hreach, hnewer⟩

end Drain

/-! ## Runs -/

theorem inv_step {api : Api} (hdup : api.duplicates = 0) {w t : Forwarding} {e : ForwardingEvent}
    {es : List ForwardingEvent} (hw : Inv api w (e :: es)) (he : Clear api w e)
    (h : step api w e = some t) : Inv api t es := by
  cases e with
  | push rd =>
    obtain ⟨buf, hbuf, rfl⟩ := Option.map_eq_some_iff.mp h
    exact inv_push hw hbuf
  | aggregatePass aggtime =>
    obtain ⟨buf, hbuf, rfl⟩ := Option.map_eq_some_iff.mp h
    exact inv_aggregatePass hw hbuf
  | clean =>
    obtain rfl := Option.some.inj h
    exact inv_clean hw rfl
  | drain =>
    obtain ⟨hpc, h⟩ := Option.ite_none_left_eq_some.mp h
    obtain rfl := Option.some.inj h
    exact inv_drain hdup hw he (by simpa using hpc)
  | apiClean =>
    obtain ⟨-, rfl⟩ := Option.ite_some_none_eq_some.mp h
    exact inv_clean hw rfl

/-- **When the totals agree.**  In every run of increasing times, the totals
agree and nothing folded is forwarded in every state, exactly if every drain
meets the buffer at a good moment. -/
theorem conserved_iff_clear (api : Api) (hdup : api.duplicates = 0) (es : List ForwardingEvent)
    (hes : (pushedTimes es).Pairwise (· < ·)) :
    (machine api).Throughout Conserved initial es ↔
      (machine api).EachStep (Clear api) initial es := by
  have hP : ∀ w es, Inv api w es → Conserved w := fun _ _ hw => hw.conserved
  have hkeep : ∀ w e es t, Inv api w (e :: es) → Clear api w e → (machine api).step w e = some t →
      Inv api t es := fun _ _ _ _ hw he h => inv_step hdup hw he h
  have hbreak : ∀ w e es t, Inv api w (e :: es) → ¬Clear api w e →
      (machine api).step w e = some t → ¬Conserved t := by
    intro w e es t hw he h
    cases e with
    | drain =>
      simp only [machine, step] at h
      split at h
      · cases h
      · rename_i hpc
        obtain rfl := Option.some.inj h
        exact not_conserved_drain hdup hw he (by simpa using hpc)
    | push | aggregatePass | clean | apiClean => exact absurd trivial he
  exact EventMachine.Machine.throughout_iff_eachStep hP hkeep hbreak (inv_initial api hes)

/-- Two readings are folded into one, and drained before they are cleaned. -/
def drainedBeforeClean : List ForwardingEvent :=
  [.push (.tick 1), .push (.tick 2), .aggregatePass 0, .drain]

theorem conserved_iff_clear_drainedBeforeClean :
    (machine (.volkszaehler 0)).Throughout Conserved initial drainedBeforeClean ↔
      (machine (.volkszaehler 0)).EachStep (Clear (.volkszaehler 0)) initial drainedBeforeClean :=
  conserved_iff_clear (.volkszaehler 0) rfl drainedBeforeClean (by decide)

/-- Of a total of 2, the drain forwards 3, the first reading on its own and in
the aggregate. -/
theorem drainedBeforeClean_forwards_folded :
    ∃ w, (machine (.volkszaehler 0)).run initial drainedBeforeClean = some w ∧
      total w.forwarded = 3 ∧ ⟨0, (Reading.tick 1).markDelete⟩ ∈ w.forwarded ∧ 0 ∈ w.folded ∧
      ¬Conserved w := by
  obtain ⟨w, hw, htotal, hforwarded, hfolded⟩ :
      ∃ w, (machine (.volkszaehler 0)).run initial drainedBeforeClean = some w ∧
        total w.forwarded = 3 ∧ ⟨0, (Reading.tick 1).markDelete⟩ ∈ w.forwarded ∧ 0 ∈ w.folded :=
    EventMachine.Machine.exists_run_of_any (by decide +kernel)
  exact ⟨w, hw, htotal, hforwarded, hfolded, fun h => h.unfolded _ hforwarded hfolded⟩

end Forwarding
end VzLogger
