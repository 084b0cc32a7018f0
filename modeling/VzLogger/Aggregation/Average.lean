import VzLogger.Buffer
import Mathlib.Tactic.FieldSimp

/-! # Aggregating an average more than once

A channel in mode `avg` between two drains: readings are pushed, and `aggregate`
is called at the end, or at other places as well while the interface is busy.
Nobody drains in between, so an earlier call leaves its survivor in the buffer,
with the average in place of the raw value, and the next call takes the average
for a reading.

An extra call is harmless only where its survivor keeps the raw value: before
anything was pushed, or after the very first reading that the channel has seen.
At any other place the last reading pushed before the call no longer counts; two
runs of the same times that differ in its value then show the difference.
-/
namespace VzLogger

open Buffer (live avgAcc avgStep avgKeep AvgAcc)

inductive AvgEvent where
  | push (value : Rat) (time : Timeval) (identifier : ReadingIdentifier)
  | aggregate
  /-- the interface empties the buffer -/
  | drain
  deriving DecidableEq

namespace AvgEvent

/-- The buffer after an event; `aggFixedInterval` is off. -/
def step (aggtime : Int) (b : Buffer) : AvgEvent → Buffer
  | .push value time identifier => b.push ⟨false, value, time, identifier⟩
  | .aggregate => b.aggregate aggtime false
  | .drain => (b.markFirst b.sent.nodes.length).clean

def run (aggtime : Int) (b : Buffer) (es : List AvgEvent) : Buffer := es.foldl (step aggtime) b

/-- The reading an event pushes. -/
def reading : AvgEvent → Option Reading
  | .push value time identifier => some ⟨false, value, time, identifier⟩
  | _ => none

def isPush (e : AvgEvent) : Bool := e.reading.isSome

/-- The readings of a run, in the order they are pushed. -/
def pushed (es : List AvgEvent) : List Reading := es.filterMap reading

/-- The event without the value. -/
def shape : AvgEvent → AvgEvent
  | .push _ time identifier => .push 0 time identifier
  | e => e

/-- The pushed times increase, from that of the last aggregation on. -/
def Increasing (b : Buffer) (es : List AvgEvent) : Prop :=
  ((b.lastAvg.toList ++ pushed es).map Reading.timeMs).Pairwise (· < ·)

/-- The extra calls make no difference: the survivor of the call at the end is
the same, and so is that of every later call. -/
def Independent (aggtime : Int) (b : Buffer) (es : List AvgEvent) : Prop :=
  let often := (run aggtime b es).aggregate aggtime false
  let once := (run aggtime b (es.filter isPush)).aggregate aggtime false
  often.sent.nodes = once.sent.nodes ∧
    ∀ later, Increasing b (es ++ later) →
      ((run aggtime often later).aggregate aggtime false).sent.nodes =
        ((run aggtime once later).aggregate aggtime false).sent.nodes

/-- Where a call does no harm, after `n` pushes. -/
def HarmlessAt (lastAvg : Option Reading) (n : Nat) : Prop := n = 0 ∨ n = 1 ∧ lastAvg = none

/-- Every extra call is where it does no harm; `n` readings were pushed before. -/
def Harmless (lastAvg : Option Reading) : Nat → List AvgEvent → Prop
  | _, [] => True
  | n, .aggregate :: es => HarmlessAt lastAvg n ∧ Harmless lastAvg n es
  | n, .push _ _ _ :: es => Harmless lastAvg (n + 1) es
  | n, .drain :: es => Harmless lastAvg n es

end AvgEvent

/-! ## One call -/

namespace Buffer
variable {b : Buffer} {aggtime : Int}

theorem ext {b c : Buffer} (hsent : b.sent = c.sent) (haggmode : b.aggmode = c.aggmode)
    (hlastAvg : b.lastAvg = c.lastAvg) : b = c := by
  cases b
  cases c
  simp_all

theorem aggregate_avg_of_nil (h : b.aggmode = .avg) (hnil : b.sent.nodes = []) :
    b.aggregate aggtime false = b := by
  have hlive : live b.sent.nodes = [] := by rw [hnil, live_nil]
  have hlatest : latest b.sent.nodes = none := latest_eq_none.mpr hlive
  have hfold : b.fold = b := by
    unfold fold
    rw [h]
    dsimp only
    rw [settle_of_live_nil hlive, hlatest]
    exact ext rfl h.symm rfl
  rw [aggregate, if_neg (by rw [h]; decide), aggregatePass, hfold, fixTimes, if_neg (by simp)]
  exact clean_of_undeleted (by simp [hnil])

/-- The survivor of a call, and the raw reading it remembers. -/
theorem aggregate_avg (aggtime : Int) (h : b.aggmode = .avg)
    (hundeleted : ∀ it ∈ b.sent.nodes, it.val.deleted = false) {m : Node Reading}
    (hm : latest b.sent.nodes = some m) :
    (b.aggregate aggtime false).sent.nodes =
        [⟨m.addr, avgKeep (b.sent.nodes.foldl avgStep ⟨0, 0, b.lastAvg⟩) m.val⟩] ∧
      (b.aggregate aggtime false).sent.next = b.sent.next ∧
      (b.aggregate aggtime false).lastAvg = some m.val := by
  have hacc : avgAcc b.lastAvg b.sent.nodes = b.sent.nodes.foldl avgStep ⟨0, 0, b.lastAvg⟩ := by
    rw [avgAcc, live_of_undeleted hundeleted]
  have hkeep : (avgKeep (avgAcc b.lastAvg b.sent.nodes) m.val).deleted = false := by
    have hmdel := (mem_live.mp (latest_spec hm).1).2
    unfold avgKeep
    split
    · exact hmdel
    · exact hmdel
  have hlive := live_settle hm hkeep
  rw [aggregate, if_neg (by rw [h]; decide), aggregatePass, fixTimes, if_neg (by simp)]
  unfold fold
  rw [h]
  refine ⟨?_, rfl, ?_⟩
  · rw [clean_nodes, ← hacc]
    exact hlive
  · rw [clean_lastAvg, hm]
    rfl

/-- A call on an empty buffer does nothing. -/
theorem aggregate_avg_cases (aggtime : Int) (h : b.aggmode = .avg)
    (hundeleted : ∀ it ∈ b.sent.nodes, it.val.deleted = false) :
    b.sent.nodes = [] ∧ b.aggregate aggtime false = b ∨ ∃ m ∈ b.sent.nodes,
      latest b.sent.nodes = some m ∧
      (b.aggregate aggtime false).sent.nodes =
        [⟨m.addr, avgKeep (b.sent.nodes.foldl avgStep ⟨0, 0, b.lastAvg⟩) m.val⟩] ∧
      (b.aggregate aggtime false).lastAvg = some m.val := by
  cases hm : latest b.sent.nodes with
  | none =>
    have hnil : b.sent.nodes = [] := by
      rw [← live_of_undeleted hundeleted]
      exact latest_eq_none.mp hm
    exact Or.inl ⟨hnil, aggregate_avg_of_nil h hnil⟩
  | some m =>
    obtain ⟨hnodes, -, hlast⟩ := aggregate_avg aggtime h hundeleted hm
    exact Or.inr ⟨m, (mem_live.mp (latest_spec hm).1).1, rfl, hnodes, hlast⟩

/-! ## Sums of constant values -/

/-- What the accumulated sum has over that of the constant `c`. -/
def excess (c : Rat) (acc : AvgAcc) : Rat := acc.aggvalue - c * acc.aggtimespan

theorem avgStep_of_previous {acc : AvgAcc} {p : Reading} (h : acc.previous = some p)
    (it : Node Reading) :
    avgStep acc it = ⟨acc.aggvalue + p.value * (((it.val.timeMs - p.timeMs : Int) : Rat) / 1000),
      acc.aggtimespan + ((it.val.timeMs - p.timeMs : Int) : Rat) / 1000, some it.val⟩ := by
  unfold avgStep
  rw [h]

theorem avgStep_previous (acc : AvgAcc) (it : Node Reading) :
    (avgStep acc it).previous = some it.val := by
  unfold avgStep
  split <;> rfl

/-- A step adds what the previous value has over `c`, for the time it held. -/
theorem excess_step {c : Rat} {acc : AvgAcc} {p : Reading} (h : acc.previous = some p)
    (it : Node Reading) : excess c (avgStep acc it) =
      excess c acc + (p.value - c) * (((it.val.timeMs - p.timeMs : Int) : Rat) / 1000) := by
  rw [avgStep_of_previous h, excess, excess]
  ring

theorem excess_step_const {c : Rat} {acc : AvgAcc}
    (h : ∀ p, acc.previous = some p → p.value = c) (it : Node Reading) :
    excess c (avgStep acc it) = excess c acc := by
  cases hp : acc.previous with
  | none =>
    unfold avgStep
    rw [hp]
    rfl
  | some p => rw [excess_step hp, h p hp, sub_self, zero_mul, add_zero]

/-- Constant values leave the excess alone. -/
theorem excess_foldl {c : Rat} {acc : AvgAcc} {l : List (Node Reading)}
    (hacc : ∀ p, acc.previous = some p → p.value = c) (hl : ∀ it ∈ l, it.val.value = c) :
    excess c (l.foldl avgStep acc) = excess c acc ∧
      ∀ p, (l.foldl avgStep acc).previous = some p → p.value = c := by
  induction l generalizing acc with
  | nil => exact ⟨rfl, hacc⟩
  | cons it l ih =>
    have hstep : ∀ p, (avgStep acc it).previous = some p → p.value = c := by
      intro p hp
      rw [avgStep_previous] at hp
      obtain rfl := Option.some.inj hp
      exact hl it List.mem_cons_self
    obtain ⟨hexcess, hprevious⟩ := ih hstep fun n hn => hl n (List.mem_cons_of_mem _ hn)
    exact ⟨hexcess.trans (excess_step_const hacc it), hprevious⟩

/-- The time spans add up to that from the first reading to the last one. -/
theorem aggtimespan_foldl {acc : AvgAcc} {p : Reading} (h : acc.previous = some p)
    (l : List (Node Reading)) : ∃ q, (l.foldl avgStep acc).previous = some q ∧
      (l.foldl avgStep acc).aggtimespan =
        acc.aggtimespan + ((q.timeMs - p.timeMs : Int) : Rat) / 1000 := by
  induction l generalizing acc p with
  | nil => exact ⟨p, h, by simp⟩
  | cons it l ih =>
    obtain ⟨q, hq, hspan⟩ := ih (avgStep_previous acc it)
    refine ⟨q, hq, ?_⟩
    rw [List.foldl_cons, hspan, avgStep_of_previous h]
    push_cast
    ring

/-- A time passes between the first reading, or the remembered one, and the last. -/
theorem aggtimespan_pos {l : List (Node Reading)} {lastAvg : Option Reading} {it : Node Reading}
    (hstarted : l ≠ [] ∨ lastAvg ≠ none) (hl : ∀ n ∈ l, n.val.timeMs < it.val.timeMs)
    (hlast : ∀ p, lastAvg = some p → p.timeMs < it.val.timeMs) :
    0 < ((l ++ [it]).foldl avgStep ⟨0, 0, lastAvg⟩).aggtimespan := by
  have hspan {acc : AvgAcc} {p : Reading} (hacc : acc.previous = some p)
      (hzero : acc.aggtimespan = 0) (hlt : p.timeMs < it.val.timeMs) (k : List (Node Reading)) :
      0 < ((k ++ [it]).foldl avgStep acc).aggtimespan := by
    obtain ⟨q, hq, hspan⟩ := aggtimespan_foldl hacc (k ++ [it])
    rw [List.foldl_append, List.foldl_cons, List.foldl_nil, avgStep_previous] at hq
    obtain rfl := Option.some.inj hq
    rw [hspan, hzero, zero_add]
    have : (0 : Rat) < ((it.val.timeMs - p.timeMs : Int) : Rat) := by exact_mod_cast sub_pos.mpr hlt
    positivity
  cases hL : lastAvg with
  | some p => exact hspan rfl rfl (hlast p hL) l
  | none =>
    obtain ⟨a, rest, rfl⟩ :=
      List.exists_cons_of_ne_nil (hstarted.resolve_right fun h => h hL)
    have hfirst : (avgStep ⟨0, 0, none⟩ a).previous = some a.val := rfl
    exact hspan hfirst rfl (hl a List.mem_cons_self) rest

@[simp] theorem avgKeep_timeMs (acc : AvgAcc) (r : Reading) :
    (avgKeep acc r).timeMs = r.timeMs := by
  unfold avgKeep
  split <;> rfl

/-- The survivor's value, by its excess. -/
theorem avgKeep_value {c : Rat} {acc : AvgAcc} (h : 0 < acc.aggtimespan) (r : Reading) :
    (avgKeep acc r).value = c + excess c acc / acc.aggtimespan := by
  rw [avgKeep, if_pos h, Reading.setValue_value, excess]
  field_simp
  ring

theorem avgKeep_of_excess {c : Rat} {acc : AvgAcc} (h : excess c acc = 0) {r : Reading}
    (hr : r.value = c) : (avgKeep acc r).value = c := by
  by_cases hspan : 0 < acc.aggtimespan
  · rw [avgKeep_value hspan, h, zero_div, add_zero]
  · rw [avgKeep, if_neg hspan]
    exact hr

end Buffer

namespace AvgEvent
variable {aggtime : Int} {b often once : Buffer}

/-! ## Harmless calls -/

/-- The buffer of a run with extra calls, and that of the run without them: at
most, the first has remembered its only reading. -/
structure Alike (often once : Buffer) : Prop where
  sent : often.sent = once.sent
  often_avg : often.aggmode = .avg
  once_avg : once.aggmode = .avg
  undeleted : ∀ it ∈ once.sent.nodes, it.val.deleted = false
  lastAvg : often.lastAvg = once.lastAvg ∨ once.lastAvg = none ∧
    ∃ a rest, once.sent.nodes = a :: rest ∧ often.lastAvg = some a.val

theorem alike_push (h : Alike often once) (value : Rat) (time : Timeval)
    (identifier : ReadingIdentifier) :
    Alike (often.push ⟨false, value, time, identifier⟩) (once.push ⟨false, value, time, identifier⟩)
    where
  sent := by rw [Buffer.push, Buffer.push, h.sent]
  often_avg := h.often_avg
  once_avg := h.once_avg
  undeleted := Buffer.forall_push (·.deleted = false) h.undeleted rfl
  lastAvg := by
    rcases h.lastAvg with heq | ⟨hnone, a, rest, hnodes, hsome⟩
    · exact Or.inl heq
    · exact Or.inr ⟨hnone, a, _, congrArg (· ++ _) hnodes, hsome⟩

/-- The remembered reading is the first one, so it adds no time. -/
theorem foldl_alike (h : Alike often once) :
    once.sent.nodes.foldl avgStep ⟨0, 0, often.lastAvg⟩ =
      once.sent.nodes.foldl avgStep ⟨0, 0, once.lastAvg⟩ := by
  rcases h.lastAvg with heq | ⟨hnone, a, rest, hnodes, hsome⟩
  · rw [heq]
  · rw [hnodes, hnone, hsome, List.foldl_cons, List.foldl_cons]
    have hfirst : avgStep ⟨0, 0, some a.val⟩ a = avgStep ⟨0, 0, none⟩ a := by
      simp [avgStep]
    rw [hfirst]

theorem aggregate_of_alike (h : Alike often once) :
    often.aggregate aggtime false = once.aggregate aggtime false := by
  rcases Buffer.aggregate_avg_cases aggtime h.once_avg h.undeleted with
    ⟨hnil, honce⟩ | ⟨m, -, hm, -, -⟩
  · have hlast : often.lastAvg = once.lastAvg := by
      rcases h.lastAvg with heq | ⟨-, a, rest, hnodes, -⟩
      · exact heq
      · rw [hnil] at hnodes
        cases hnodes
    rw [Buffer.aggregate_avg_of_nil h.often_avg (h.sent ▸ hnil), honce]
    exact Buffer.ext h.sent (h.often_avg.trans h.once_avg.symm) hlast
  · obtain ⟨hnodes, hnext, hlast⟩ := Buffer.aggregate_avg aggtime h.once_avg h.undeleted hm
    obtain ⟨hnodes', hnext', hlast'⟩ :=
      Buffer.aggregate_avg aggtime h.often_avg (h.sent ▸ h.undeleted) (h.sent ▸ hm)
    refine Buffer.ext (NodeList.ext ?_ ?_) ?_ (hlast'.trans hlast.symm)
    · rw [hnodes', hnodes, h.sent, foldl_alike h]
    · rw [hnext', hnext, h.sent]
    · rw [Buffer.aggregate_aggmode, Buffer.aggregate_aggmode, h.often_avg, h.once_avg]

/-- A call before anything was pushed, or after the first reading. -/
theorem alike_aggregate (h : Alike often once)
    (hn : HarmlessAt once.lastAvg once.sent.nodes.length) :
    Alike (often.aggregate aggtime false) once := by
  rcases hn with hn | ⟨hn, hnone⟩
  · -- an empty buffer
    have hnil := List.length_eq_zero_iff.mp hn
    rw [Buffer.aggregate_avg_of_nil h.often_avg (h.sent ▸ hnil)]
    exact h
  · -- the first reading is its own average
    obtain ⟨a, hnodes⟩ := List.length_eq_one_iff.mp hn
    have hm : Buffer.latest once.sent.nodes = some a := by
      have ha := h.undeleted a (by rw [hnodes]; exact List.mem_singleton_self a)
      have hlatest : Buffer.latest ([] ++ [a]) = some a :=
        Buffer.latest_append_singleton ha (by simp)
      rw [hnodes]
      exact hlatest
    obtain ⟨hnodes', hnext', hlast'⟩ := Buffer.aggregate_avg aggtime h.often_avg
      (h.sent ▸ h.undeleted) (h.sent ▸ hm)
    refine ⟨NodeList.ext ?_ (hnext'.trans (by rw [h.sent])), ?_, h.once_avg, h.undeleted,
      Or.inr ⟨hnone, a, [], hnodes, hlast'⟩⟩
    · rw [hnodes', h.sent, foldl_alike h, hnone, hnodes]
      simp [avgStep, avgKeep]
    · rw [Buffer.aggregate_aggmode]
      exact h.often_avg

theorem alike_run {es : List AvgEvent} (h : Alike often once) (hdrain : .drain ∉ es)
    (hes : Harmless once.lastAvg once.sent.nodes.length es) :
    Alike (run aggtime often es) (run aggtime once (es.filter isPush)) := by
  induction es generalizing often once with
  | nil => exact h
  | cons e es ih =>
    have hdrain' : .drain ∉ es := fun hd => hdrain (List.mem_cons_of_mem _ hd)
    cases e with
    | push value time identifier =>
      refine ih (alike_push h value time identifier) hdrain' ?_
      have hlength : (step aggtime once (.push value time identifier)).sent.nodes.length =
          once.sent.nodes.length + 1 := List.length_append
      rw [hlength]
      exact hes
    | aggregate => exact ih (alike_aggregate h hes.1) hdrain' hes.2
    | drain => exact absurd List.mem_cons_self hdrain

/-! ## A harmful call -/

/-- Nothing but the value `c` in the buffer, and remembered. -/
structure Flat (c : Rat) (b : Buffer) : Prop where
  avg : b.aggmode = .avg
  undeleted : ∀ it ∈ b.sent.nodes, it.val.deleted = false
  values : ∀ it ∈ b.sent.nodes, it.val.value = c
  lastAvg : ∀ p, b.lastAvg = some p → p.value = c

/-- The remembered reading may have any value, but adds no time. -/
structure Forgotten (c : Rat) (b : Buffer) : Prop where
  avg : b.aggmode = .avg
  undeleted : ∀ it ∈ b.sent.nodes, it.val.deleted = false
  values : ∀ it ∈ b.sent.nodes, it.val.value = c
  lastAvg : ∃ p a rest, b.lastAvg = some p ∧ b.sent.nodes = a :: rest ∧ a.val.timeMs = p.timeMs

/-- The event with the value `c`. -/
def withValue (c : Rat) : AvgEvent → AvgEvent
  | .push _ time identifier => .push c time identifier
  | e => e

section Constant
variable {c : Rat}

/-- If the values in the buffer are `c` and nothing exceeds them, so is the
survivor's. -/
theorem flat_aggregate_of_excess (havg : b.aggmode = .avg)
    (hundeleted : ∀ it ∈ b.sent.nodes, it.val.deleted = false)
    (hvalues : ∀ it ∈ b.sent.nodes, it.val.value = c)
    (hlastAvg : b.sent.nodes = [] → ∀ p, b.lastAvg = some p → p.value = c)
    (hexcess : Buffer.excess c (b.sent.nodes.foldl avgStep ⟨0, 0, b.lastAvg⟩) = 0) :
    Flat c (b.aggregate aggtime false) := by
  rcases Buffer.aggregate_avg_cases aggtime havg hundeleted with
    ⟨hnil, heq⟩ | ⟨m, hmem, -, hnodes, hlast⟩
  · rw [heq]
    exact ⟨havg, hundeleted, hvalues, hlastAvg hnil⟩
  · refine ⟨by rw [Buffer.aggregate_aggmode]; exact havg, ?_, ?_, ?_⟩
    · exact Buffer.aggregate_undeleted (by rw [havg]; decide) aggtime false
    · rw [hnodes]
      intro it hit
      rw [List.mem_singleton.mp hit]
      exact Buffer.avgKeep_of_excess hexcess (hvalues m hmem)
    · intro p hp
      rw [hlast] at hp
      obtain rfl := Option.some.inj hp
      exact hvalues m hmem

theorem flat_aggregate (aggtime : Int) (h : Flat c b) : Flat c (b.aggregate aggtime false) := by
  refine flat_aggregate_of_excess h.avg h.undeleted h.values (fun _ => h.lastAvg) ?_
  rw [(Buffer.excess_foldl h.lastAvg h.values).1]
  simp [Buffer.excess]

theorem forgotten_aggregate (h : Forgotten c b) : Flat c (b.aggregate aggtime false) := by
  obtain ⟨p, a, rest, hp, hnodes, htime⟩ := h.lastAvg
  refine flat_aggregate_of_excess h.avg h.undeleted h.values (fun hnil => ?_) ?_
  · rw [hnodes] at hnil
    cases hnil
  · have hvalues := h.values
    rw [hnodes] at hvalues ⊢
    have hfirst : ∀ q, (avgStep ⟨0, 0, some p⟩ a).previous = some q → q.value = c := by
      intro q hq
      rw [Buffer.avgStep_previous] at hq
      obtain rfl := Option.some.inj hq
      exact hvalues a List.mem_cons_self
    rw [hp, List.foldl_cons, (Buffer.excess_foldl hfirst fun it hit =>
      hvalues it (List.mem_cons_of_mem _ hit)).1, Buffer.excess_step rfl, htime]
    simp [Buffer.excess]

theorem flat_push (h : Flat c b) (time : Timeval) (identifier : ReadingIdentifier) :
    Flat c (b.push ⟨false, c, time, identifier⟩) where
  avg := h.avg
  undeleted := Buffer.forall_push (·.deleted = false) h.undeleted rfl
  values := Buffer.forall_push (·.value = c) h.values rfl
  lastAvg := h.lastAvg

theorem forgotten_push (h : Forgotten c b) (time : Timeval) (identifier : ReadingIdentifier) :
    Forgotten c (b.push ⟨false, c, time, identifier⟩) where
  avg := h.avg
  undeleted := Buffer.forall_push (·.deleted = false) h.undeleted rfl
  values := Buffer.forall_push (·.value = c) h.values rfl
  lastAvg := by
    obtain ⟨p, a, rest, hp, hnodes, htime⟩ := h.lastAvg
    exact ⟨p, a, _, hp, congrArg (· ++ _) hnodes, htime⟩

theorem drain_nodes (aggtime : Int) (h : ∀ it ∈ b.sent.nodes, it.val.deleted = false) :
    (step aggtime b .drain).sent.nodes = [] := by
  have hnil := Buffer.clean_markFirst_nodes h b.sent.nodes.length
  rw [List.drop_length] at hnil
  exact hnil

theorem flat_drain (h : Flat c b) : Flat c (step aggtime b .drain) := by
  refine ⟨h.avg, ?_, ?_, h.lastAvg⟩
  · rw [drain_nodes aggtime h.undeleted]
    exact fun it hit => absurd hit List.not_mem_nil
  · rw [drain_nodes aggtime h.undeleted]
    exact fun it hit => absurd hit List.not_mem_nil

theorem flat_run (aggtime : Int) (h : Flat c b) (es : List AvgEvent) :
    Flat c (run aggtime b (es.map (withValue c))) := by
  induction es generalizing b with
  | nil => exact h
  | cons e es ih =>
    cases e with
    | push value time identifier => exact ih (flat_push h time identifier)
    | aggregate => exact ih (flat_aggregate aggtime h)
    | drain => exact ih (flat_drain h)

/-- Without a drain, a forgotten value is never found again. -/
theorem forgotten_run (h : Forgotten c b) {es : List AvgEvent} (hdrain : .drain ∉ es) :
    Flat c ((run aggtime b (es.map (withValue c))).aggregate aggtime false) := by
  induction es generalizing b with
  | nil => exact forgotten_aggregate h
  | cons e es ih =>
    cases e with
    | push value time identifier =>
      exact ih (forgotten_push h time identifier) fun hd => hdrain (List.mem_cons_of_mem _ hd)
    | aggregate => exact flat_aggregate aggtime (flat_run aggtime (forgotten_aggregate h) es)
    | drain => exact absurd List.mem_cons_self hdrain

/-- Nothing in the buffer, nor what is remembered, is as late as `t`. -/
structure Earlier (b : Buffer) (t : Int) : Prop where
  nodes : ∀ it ∈ b.sent.nodes, it.val.timeMs < t
  lastAvg : ∀ p, b.lastAvg = some p → p.timeMs < t

theorem earlier_aggregate (h : Flat c b) {t : Int} (hb : Earlier b t) :
    Earlier (b.aggregate aggtime false) t := by
  rcases Buffer.aggregate_avg_cases aggtime h.avg h.undeleted with
    ⟨-, heq⟩ | ⟨m, hmem, -, hnodes, hlast⟩
  · rw [heq]
    exact hb
  · refine ⟨fun it hit => ?_, fun p hp => ?_⟩
    · rw [hnodes] at hit
      rw [List.mem_singleton.mp hit, Buffer.avgKeep_timeMs]
      exact hb.nodes m hmem
    · rw [hlast] at hp
      obtain rfl := Option.some.inj hp
      exact hb.nodes m hmem

theorem earlier_drain (h : Flat c b) {t : Int} (hb : Earlier b t) :
    Earlier (step aggtime b .drain) t := by
  refine ⟨fun it hit => ?_, hb.lastAvg⟩
  rw [drain_nodes aggtime h.undeleted] at hit
  cases hit

theorem earlier_run (h : Flat c b) {es : List AvgEvent} {t : Int} (hb : Earlier b t)
    (hes : ∀ r ∈ pushed (es.map (withValue c)), r.timeMs < t) :
    Earlier (run aggtime b (es.map (withValue c))) t := by
  induction es generalizing b with
  | nil => exact hb
  | cons e es ih =>
    cases e with
    | push value time identifier =>
      obtain ⟨ht, hes⟩ :=
        List.forall_mem_cons.mp (hes : ∀ r ∈ _ :: pushed (es.map (withValue c)), _)
      have hnodes := Buffer.forall_push (·.timeMs < t) hb.nodes ht
      exact ih (flat_push h time identifier) ⟨hnodes, hb.lastAvg⟩ hes
    | aggregate => exact ih (flat_aggregate aggtime h) (earlier_aggregate h hb) hes
    | drain => exact ih (flat_drain h) (earlier_drain h hb) hes

/-- The channel has a reading, or remembers one. -/
def Started (b : Buffer) : Prop := b.sent.nodes ≠ [] ∨ b.lastAvg ≠ none

theorem started_aggregate (h : Flat c b) (hb : Started b) :
    Started (b.aggregate aggtime false) := by
  rcases Buffer.aggregate_avg_cases aggtime h.avg h.undeleted with ⟨-, heq⟩ | ⟨m, -, -, -, hlast⟩
  · rw [heq]
    exact hb
  · exact Or.inr (by rw [hlast]; exact Option.some_ne_none _)

theorem started_run (h : Flat c b) {es : List AvgEvent} (hdrain : .drain ∉ es)
    (hes : Started b ∨ ∃ e ∈ es, e.isPush = true) :
    Started (run aggtime b (es.map (withValue c))) := by
  induction es generalizing b with
  | nil => exact hes.resolve_right (by simp)
  | cons e es ih =>
    have hdrain' : .drain ∉ es := fun hd => hdrain (List.mem_cons_of_mem _ hd)
    cases e with
    | push value time identifier =>
      exact ih (flat_push h time identifier) hdrain'
        (Or.inl (Or.inl (List.append_ne_nil_of_right_ne_nil _ (List.cons_ne_nil _ _))))
    | aggregate =>
      refine ih (flat_aggregate aggtime h) hdrain' (hes.imp (started_aggregate h) ?_)
      rintro ⟨e, he, hpush⟩
      rcases List.mem_cons.mp he with rfl | he
      · cases hpush
      · exact ⟨e, he, hpush⟩
    | drain => exact absurd List.mem_cons_self hdrain

/-- **A call forgets the reading pushed last.**  Not the first reading the channel
has seen, it only says how long the values before it held. -/
theorem forgotten_of_aggregate (aggtime : Int) (h : Flat c b) (hstarted : Started b) {r : Reading}
    (hr : r.deleted = false) (hearlier : Earlier b r.timeMs) :
    Forgotten c ((b.push r).aggregate aggtime false) ∧
      ((b.push r).aggregate aggtime false).lastAvg = some r := by
  have hundeleted : ∀ it ∈ (b.push r).sent.nodes, it.val.deleted = false :=
    Buffer.forall_push (·.deleted = false) h.undeleted hr
  have hm : Buffer.latest (b.push r).sent.nodes = some ⟨b.sent.next, r⟩ :=
    Buffer.latest_append_singleton hr fun n hn => hearlier.nodes n (Buffer.mem_live.mp hn).1
  obtain ⟨hnodes, -, hlast⟩ := Buffer.aggregate_avg aggtime (b := b.push r) h.avg hundeleted hm
  have hspan : 0 < ((b.push r).sent.nodes.foldl avgStep ⟨0, 0, b.lastAvg⟩).aggtimespan :=
    Buffer.aggtimespan_pos hstarted hearlier.nodes hearlier.lastAvg
  -- the value of the last reading holds for no time yet
  have hexcess : Buffer.excess c ((b.push r).sent.nodes.foldl avgStep ⟨0, 0, b.lastAvg⟩) = 0 := by
    have hlast : ∀ p, (⟨0, 0, b.lastAvg⟩ : AvgAcc).previous = some p → p.value = c := h.lastAvg
    obtain ⟨hexcess, hprevious⟩ := Buffer.excess_foldl hlast h.values
    rw [Buffer.push_nodes, List.foldl_append, List.foldl_cons, List.foldl_nil,
      Buffer.excess_step_const hprevious, hexcess]
    simp [Buffer.excess]
  refine ⟨⟨?_, ?_, ?_, r, _, [], hlast, hnodes, Buffer.avgKeep_timeMs _ _⟩, hlast⟩
  · rw [Buffer.aggregate_aggmode]
    exact h.avg
  · exact Buffer.aggregate_undeleted (by rw [Buffer.push_aggmode, h.avg]; decide) aggtime false
  · rw [hnodes]
    intro it hit
    rw [List.mem_singleton.mp hit, Buffer.push_lastAvg, Buffer.avgKeep_value hspan, hexcess,
      zero_div, add_zero]

end Constant

/-! ## The run without extra calls -/

/-- Pushes alone only make the list longer. -/
theorem run_pushes (aggtime : Int) (b : Buffer) {es : List AvgEvent}
    (hes : ∀ e ∈ es, e.isPush = true) :
    (run aggtime b es).aggmode = b.aggmode ∧ (run aggtime b es).lastAvg = b.lastAvg ∧
      (run aggtime b es).sent.nodes.map Node.val = b.sent.nodes.map Node.val ++ pushed es := by
  induction es generalizing b with
  | nil => exact ⟨rfl, rfl, (List.append_nil _).symm⟩
  | cons e es ih =>
    obtain ⟨he, hrest⟩ := List.forall_mem_cons.mp hes
    cases e with
    | push value time identifier =>
      obtain ⟨havg, hlast, hnodes⟩ := ih (b.push ⟨false, value, time, identifier⟩) hrest
      refine ⟨havg, hlast, hnodes.trans ?_⟩
      rw [Buffer.push_nodes, List.map_append, List.append_assoc]
      rfl
    | aggregate | drain => cases he

theorem pushed_filter (es : List AvgEvent) : pushed (es.filter isPush) = pushed es := by
  induction es with
  | nil => rfl
  | cons e es ih =>
    cases e with
    | push value time identifier => exact congrArg (_ :: ·) ih
    | aggregate | drain => exact ih

theorem pushed_undeleted {es : List AvgEvent} : ∀ r ∈ pushed es, r.deleted = false := by
  intro r hr
  obtain ⟨e, -, he⟩ := List.mem_filterMap.mp hr
  cases e with
  | push value time identifier =>
    obtain rfl := Option.some.inj he
    rfl
  | aggregate | drain => cases he

theorem pushed_withValue {c : Rat} {es : List AvgEvent} :
    ∀ r ∈ pushed (es.map (withValue c)), r.value = c := by
  intro r hr
  obtain ⟨e, he, heq⟩ := List.mem_filterMap.mp hr
  obtain ⟨e, -, rfl⟩ := List.mem_map.mp he
  cases e with
  | push value time identifier =>
    obtain rfl := Option.some.inj heq
    rfl
  | aggregate | drain => cases heq

/-- The values exceed `c` by one of them, for as long as that one held. -/
theorem excess_of_different {c : Rat} {lastAvg : Option Reading} {l r : List (Node Reading)}
    {it n : Node Reading} (hlast : ∀ p, lastAvg = some p → p.value = c)
    (hl : ∀ k ∈ l, k.val.value = c) (hn : n.val.value = c) (hr : ∀ k ∈ r, k.val.value = c) :
    Buffer.excess c ((l ++ it :: n :: r).foldl avgStep ⟨0, 0, lastAvg⟩) =
      (it.val.value - c) * (((n.val.timeMs - it.val.timeMs : Int) : Rat) / 1000) := by
  have hfirst : ∀ p, (⟨0, 0, lastAvg⟩ : AvgAcc).previous = some p → p.value = c := hlast
  obtain ⟨hexcess, hprevious⟩ := Buffer.excess_foldl hfirst hl
  have hnext : ∀ p, (avgStep (avgStep (l.foldl avgStep ⟨0, 0, lastAvg⟩) it) n).previous = some p →
      p.value = c := by
    intro p hp
    rw [Buffer.avgStep_previous] at hp
    obtain rfl := Option.some.inj hp
    exact hn
  rw [List.foldl_append, List.foldl_cons, List.foldl_cons, (Buffer.excess_foldl hnext hr).1,
    Buffer.excess_step (Buffer.avgStep_previous _ it), Buffer.excess_step_const hprevious, hexcess]
  simp [Buffer.excess]

section Different
variable {c : Rat} (hundeleted : ∀ it ∈ b.sent.nodes, it.val.deleted = false)
  (htimes : ((b.lastAvg.toList ++ b.sent.nodes.map Node.val).map Reading.timeMs).Pairwise (· < ·))
include hundeleted htimes

/-- With increasing times the last reading is the survivor. -/
theorem latest_last {l : List (Node Reading)} {it : Node Reading}
    (hnodes : b.sent.nodes = l ++ [it]) :
    Buffer.latest b.sent.nodes = some it ∧ (∀ n ∈ l, n.val.timeMs < it.val.timeMs) ∧
      ∀ p, b.lastAvg = some p → p.timeMs < it.val.timeMs := by
  have hsplit : (b.lastAvg.toList ++ (l ++ [it]).map Node.val).map Reading.timeMs =
      (b.lastAvg.toList ++ l.map Node.val).map Reading.timeMs ++ [it.val.timeMs] := by simp
  rw [hnodes, hsplit, List.pairwise_append] at htimes
  have hlt : ∀ t ∈ (b.lastAvg.toList ++ l.map Node.val), t.timeMs < it.val.timeMs := by
    intro t ht
    exact htimes.2.2 _ (List.mem_map_of_mem ht) _ (by simp)
  have hl : ∀ n ∈ l, n.val.timeMs < it.val.timeMs := fun n hn =>
    hlt _ (List.mem_append_right _ (List.mem_map_of_mem hn))
  refine ⟨?_, hl, fun p hp => hlt p (List.mem_append_left _ (by simp [hp]))⟩
  rw [hnodes] at hundeleted ⊢
  exact Buffer.latest_append_singleton (hundeleted it (by simp)) fun n hn =>
    hl n (Buffer.mem_live.mp hn).1

/-- A different value shows in the average, unless it is the last one. -/
theorem average_of_different (havg : b.aggmode = .avg)
    (hlast : ∀ p, b.lastAvg = some p → p.value = c)
    {l r : List (Node Reading)} {it n : Node Reading} (hnodes : b.sent.nodes = l ++ it :: n :: r)
    (hl : ∀ k ∈ l, k.val.value = c) (hn : n.val.value = c) (hr : ∀ k ∈ r, k.val.value = c)
    (hit : it.val.value ≠ c) :
    ∃ m ∈ (b.aggregate aggtime false).sent.nodes, m.val.value ≠ c := by
  obtain ⟨r', z, hz⟩ : ∃ r' z, n :: r = r' ++ [z] :=
    ⟨_, _, (List.dropLast_append_getLast (List.cons_ne_nil n r)).symm⟩
  have hnodes' : b.sent.nodes = (l ++ it :: r') ++ [z] := by
    rw [hnodes, hz]
    simp
  obtain ⟨hm, hbefore, hremembered⟩ := latest_last hundeleted htimes hnodes'
  obtain ⟨hsurvivor, -, -⟩ := Buffer.aggregate_avg aggtime havg hundeleted hm
  have hspan : 0 < (b.sent.nodes.foldl avgStep ⟨0, 0, b.lastAvg⟩).aggtimespan := by
    rw [hnodes']
    exact Buffer.aggtimespan_pos (Or.inl (by simp)) hbefore hremembered
  -- the different value held until the next reading
  have hexcess : Buffer.excess c (b.sent.nodes.foldl avgStep ⟨0, 0, b.lastAvg⟩) ≠ 0 := by
    have htime : it.val.timeMs < n.val.timeMs := by
      rw [hnodes, List.map_append, List.map_append, List.map_append, List.pairwise_append,
        List.pairwise_append] at htimes
      exact (List.pairwise_cons.mp htimes.2.1.2.1).1 _ (by simp)
    have hheld : (0 : Rat) < ((n.val.timeMs - it.val.timeMs : Int) : Rat) := by
      exact_mod_cast sub_pos.mpr htime
    rw [hnodes, excess_of_different hlast hl hn hr]
    exact mul_ne_zero (sub_ne_zero.mpr hit) (by positivity)
  refine ⟨_, hsurvivor ▸ List.mem_singleton_self _, ?_⟩
  dsimp only
  rw [Buffer.avgKeep_value (c := c) hspan]
  intro hc
  exact div_ne_zero hexcess (ne_of_gt hspan) (by linarith)

end Different

/-! ## When the extra calls make no difference -/

/-- Two runs that differ in nothing but the values. -/
def SameShape (es fs : List AvgEvent) : Prop := es.map shape = fs.map shape

theorem harmless_congr {lastAvg : Option Reading} {n : Nat} {es fs : List AvgEvent}
    (h : SameShape es fs) : Harmless lastAvg n es ↔ Harmless lastAvg n fs := by
  induction es generalizing n fs with
  | nil => rw [List.map_eq_nil_iff.mp (Eq.symm h : fs.map shape = [])]
  | cons e es ih =>
    obtain ⟨f, fs, rfl, hef, hrest⟩ := List.map_eq_cons_iff.mp (Eq.symm h)
    have hrest : SameShape es fs := hrest.symm
    cases e with
    | push =>
      cases f with
      | push => exact (ih hrest : Harmless lastAvg (n + 1) es ↔ Harmless lastAvg (n + 1) fs)
      | aggregate | drain => cases hef
    | aggregate =>
      cases f with
      | aggregate => exact and_congr_right fun _ => ih hrest
      | push | drain => cases hef
    | drain =>
      cases f with
      | drain => exact (ih hrest : Harmless lastAvg n es ↔ Harmless lastAvg n fs)
      | push | aggregate => cases hef

theorem drain_mem_congr {es fs : List AvgEvent} (h : SameShape es fs) :
    .drain ∈ es ↔ .drain ∈ fs := by
  have hmap (l : List AvgEvent) : .drain ∈ l.map shape ↔ .drain ∈ l := by
    rw [List.mem_map]
    constructor
    · rintro ⟨e, he, heq⟩
      cases e with
      | drain => exact he
      | push | aggregate => cases heq
    · exact fun hd => ⟨_, hd, rfl⟩
  rw [← hmap es, h, hmap fs]

theorem pushed_times_congr {es fs : List AvgEvent} (h : SameShape es fs) :
    (pushed es).map Reading.timeMs = (pushed fs).map Reading.timeMs := by
  have hmap (l : List AvgEvent) :
      (pushed (l.map shape)).map Reading.timeMs = (pushed l).map Reading.timeMs := by
    induction l with
    | nil => rfl
    | cons e l ih =>
      cases e with
      | push value time identifier => exact congrArg (_ :: ·) ih
      | aggregate | drain => exact ih
  rw [← hmap es, h, hmap fs]

theorem sameShape_withValue (c : Rat) (es : List AvgEvent) :
    SameShape es (es.map (withValue c)) := by
  rw [SameShape, List.map_map]
  refine List.map_congr_left fun e _ => ?_
  cases e <;> rfl

/-- A harmful call follows a push that is not the first. -/
theorem exists_of_not_harmless {lastAvg : Option Reading} {n : Nat} {es : List AvgEvent}
    (hdrain : .drain ∉ es) (h : ¬Harmless lastAvg n es) :
    (∃ pre value time identifier post,
      es = pre ++ .push value time identifier :: .aggregate :: post ∧
      (lastAvg ≠ none ∨ n ≠ 0 ∨ ∃ e ∈ pre, e.isPush = true)) ∨
    ¬HarmlessAt lastAvg n ∧ ∃ post, es = .aggregate :: post := by
  induction es generalizing n with
  | nil => exact absurd trivial h
  | cons e es ih =>
    have hdrain' : .drain ∉ es := fun hd => hdrain (List.mem_cons_of_mem _ hd)
    cases e with
    | push value time identifier =>
      refine Or.inl ?_
      rcases ih hdrain' h with ⟨pre, v, t, i, post, rfl, -⟩ | ⟨hat, post, rfl⟩
      · exact ⟨.push value time identifier :: pre, v, t, i, post, rfl,
          Or.inr (Or.inr ⟨_, List.mem_cons_self, rfl⟩)⟩
      · refine ⟨[], value, time, identifier, post, rfl, ?_⟩
        by_cases hn : n = 0
        · subst hn
          exact Or.inl fun hnone => hat (Or.inr ⟨rfl, hnone⟩)
        · exact Or.inr (Or.inl hn)
    | aggregate =>
      by_cases hat : HarmlessAt lastAvg n
      · refine Or.inl ?_
        rcases ih hdrain' fun hes => h ⟨hat, hes⟩ with ⟨pre, v, t, i, post, rfl, hpre⟩ | ⟨hat', -⟩
        · refine ⟨.aggregate :: pre, v, t, i, post, rfl, hpre.imp_right (Or.imp_right ?_)⟩
          rintro ⟨e, he, hpush⟩
          exact ⟨e, List.mem_cons_of_mem _ he, hpush⟩
        · exact absurd hat hat'
      · exact Or.inr ⟨hat, es, rfl⟩
    | drain => exact absurd List.mem_cons_self hdrain

/-- The run without the extra calls: the list holds what was pushed. -/
theorem run_once (aggtime : Int) (hnil : b.sent.nodes = []) (es : List AvgEvent) :
    (run aggtime b (es.filter isPush)).aggmode = b.aggmode ∧
      (run aggtime b (es.filter isPush)).lastAvg = b.lastAvg ∧
      (run aggtime b (es.filter isPush)).sent.nodes.map Node.val = pushed es ∧
      ∀ it ∈ (run aggtime b (es.filter isPush)).sent.nodes, it.val.deleted = false := by
  obtain ⟨havg, hlast, hnodes⟩ := run_pushes aggtime b
    (fun e he => (List.mem_filter.mp he).2 : ∀ e ∈ es.filter isPush, e.isPush = true)
  rw [hnil, List.map_nil, List.nil_append, pushed_filter] at hnodes
  refine ⟨havg, hlast, hnodes, fun it hit => ?_⟩
  have hval : it.val ∈ pushed es := hnodes ▸ List.mem_map_of_mem hit
  exact pushed_undeleted it.val hval

/-- A run with a push and a call right after it. -/
def around (c : Rat) (pre post : List AvgEvent) (time : Timeval) (identifier : ReadingIdentifier) :
    List AvgEvent :=
  pre.map (withValue c) ++ .push (c + 1) time identifier :: .aggregate :: post.map (withValue c)

theorem pushed_around (c : Rat) (pre post : List AvgEvent) (time : Timeval)
    (identifier : ReadingIdentifier) : pushed (around c pre post time identifier) =
      pushed (pre.map (withValue c)) ++
        ⟨false, c + 1, time, identifier⟩ :: pushed (post.map (withValue c)) :=
  List.filterMap_append

/-- A reading far enough in the future. -/
def after (c : Rat) (r : Reading) : AvgEvent := .push c ⟨|r.timeMs| + 1, 0⟩ .nil

theorem lt_after (c : Rat) (r : Reading) :
    r.timeMs < (⟨false, c, ⟨|r.timeMs| + 1, 0⟩, .nil⟩ : Reading).timeMs := by
  have h : (⟨false, c, ⟨|r.timeMs| + 1, 0⟩, .nil⟩ : Reading).timeMs = (|r.timeMs| + 1) * 1000 :=
    Reading.setTime_timeMs ⟨false, c, ⟨0, 0⟩, .nil⟩ _
  have habs := le_abs_self r.timeMs
  have hpos := abs_nonneg r.timeMs
  rw [h]
  omega

/-- After a drain, the remembered value is what the next average starts with. -/
theorem forgotten_after_drain (aggtime : Int) (havg : b.aggmode = .avg)
    (hundeleted : ∀ it ∈ b.sent.nodes, it.val.deleted = false) {r : Reading}
    (hlast : b.lastAvg = some r) (c : Rat) :
    Forgotten r.value ((run aggtime b [.drain, after c r]).aggregate aggtime false) := by
  have hempty := drain_nodes aggtime hundeleted
  have hlast' : (step aggtime b .drain).lastAvg = some r := hlast
  have hvalue : ∀ p, (step aggtime b .drain).lastAvg = some p → p.value = r.value := by
    intro p hp
    rw [Option.some.inj (hlast'.symm.trans hp)]
  have hflat : Flat r.value (step aggtime b .drain) :=
    ⟨havg, by simp [hempty], by simp [hempty], hvalue⟩
  have hstarted : Started (step aggtime b .drain) :=
    Or.inr (by rw [hlast']; exact Option.some_ne_none r)
  have hearlier : Earlier (step aggtime b .drain)
      (⟨false, c, ⟨|r.timeMs| + 1, 0⟩, .nil⟩ : Reading).timeMs := by
    refine ⟨by simp [hempty], fun p hp => ?_⟩
    rw [← Option.some.inj (hlast'.symm.trans hp)]
    exact lt_after c r
  exact (forgotten_of_aggregate aggtime hflat hstarted rfl hearlier).1

/-- The times still increase if the reading is pushed after a run that the other
value ends. -/
theorem increasing_after {c : Rat} {pre post : List AvgEvent} {time : Timeval}
    {identifier : ReadingIdentifier} (h : Increasing b (around c pre post time identifier))
    (hnone : pushed (post.map (withValue c)) = []) :
    Increasing b (around c pre post time identifier ++
      [.drain, after c ⟨false, c + 1, time, identifier⟩]) := by
  have happend : pushed (around c pre post time identifier ++
      [.drain, after c ⟨false, c + 1, time, identifier⟩]) =
      pushed (around c pre post time identifier) ++
        pushed [.drain, after c ⟨false, c + 1, time, identifier⟩] :=
    List.filterMap_append
  rw [Increasing, pushed_around, hnone] at h
  rw [Increasing, happend, pushed_around, hnone, ← List.append_assoc, List.map_append,
    List.pairwise_append]
  refine ⟨h, List.pairwise_singleton _ _, fun t ht u hu => ?_⟩
  rw [List.mem_singleton.mp hu]
  refine lt_of_le_of_lt ?_ (lt_after c ⟨false, c + 1, time, identifier⟩)
  rw [← List.append_assoc, List.map_append, List.pairwise_append] at h
  rw [← List.append_assoc, List.map_append, List.mem_append] at ht
  rcases ht with ht | ht
  · exact le_of_lt (h.2.2 t ht _ (List.mem_singleton_self _))
  · rw [List.mem_singleton.mp ht]

section Around
variable {c : Rat} {pre post : List AvgEvent} {time : Timeval} {identifier : ReadingIdentifier}
  (havg : b.aggmode = .avg) (hnil : b.sent.nodes = []) (hc : ∀ p, b.lastAvg = some p → p.value = c)
  (htimes : Increasing b (around c pre post time identifier))
include havg hnil hc htimes

/-- With the call, the different value is forgotten. -/
theorem often_around (hpre : .drain ∉ pre) (hpost : .drain ∉ post)
    (hstarted : b.lastAvg ≠ none ∨ ∃ e ∈ pre, e.isPush = true) :
    Flat c ((run aggtime b (around c pre post time identifier)).aggregate aggtime false) := by
  have hflat : Flat c b := ⟨havg, by simp [hnil], by simp [hnil], hc⟩
  have hlt : ∀ p ∈ b.lastAvg.toList ++ pushed (pre.map (withValue c)),
      p.timeMs < (⟨false, c + 1, time, identifier⟩ : Reading).timeMs := by
    rw [Increasing, pushed_around, ← List.append_assoc, List.map_append, List.map_cons,
      List.pairwise_append] at htimes
    exact fun p hp => htimes.2.2 _ (List.mem_map_of_mem hp) _ List.mem_cons_self
  have hearlier : Earlier (run aggtime b (pre.map (withValue c)))
      (⟨false, c + 1, time, identifier⟩ : Reading).timeMs := by
    refine earlier_run hflat ⟨by simp [hnil], fun p hp => ?_⟩
      fun p hp => hlt p (List.mem_append_right _ hp)
    exact hlt p (List.mem_append_left _ (by simp [hp]))
  have hstarted' : Started (run aggtime b (pre.map (withValue c))) :=
    started_run hflat hpre (hstarted.imp_left Or.inr)
  rw [around, run, List.foldl_append]
  have hforgotten :=
    (forgotten_of_aggregate aggtime (flat_run aggtime hflat pre) hstarted' rfl hearlier).1
  exact forgotten_run hforgotten hpost

/-- Without the call it shows, or it is what is remembered. -/
theorem once_around (aggtime : Int) :
    (∃ m ∈ ((run aggtime b ((around c pre post time identifier).filter isPush)).aggregate
        aggtime false).sent.nodes, m.val.value ≠ c) ∨
    pushed (post.map (withValue c)) = [] ∧
      ((run aggtime b ((around c pre post time identifier).filter isPush)).aggregate
        aggtime false).lastAvg = some ⟨false, c + 1, time, identifier⟩ := by
  obtain ⟨havg', hlast, hnodes, hundeleted⟩ :=
    run_once aggtime hnil (around c pre post time identifier)
  rw [Increasing, ← hnodes, ← hlast] at htimes
  rw [pushed_around] at hnodes
  obtain ⟨l, tail, hsplit, hl, htail⟩ := List.map_eq_append_iff.mp hnodes
  obtain ⟨it, r, rfl, hit, hr⟩ := List.map_eq_cons_iff.mp htail
  have hvalue (k : List (Node Reading)) {es : List AvgEvent}
      (hk : k.map Node.val = pushed (es.map (withValue c))) : ∀ n ∈ k, n.val.value = c :=
    fun n hn => pushed_withValue n.val (hk ▸ List.mem_map_of_mem hn)
  cases r with
  | nil =>
    -- the different reading is the last one
    obtain ⟨hm, -, -⟩ := latest_last hundeleted htimes hsplit
    refine Or.inr ⟨hr.symm, ?_⟩
    rw [(Buffer.aggregate_avg aggtime (havg'.trans havg) hundeleted hm).2.2, hit]
  | cons n r =>
    refine Or.inl (average_of_different hundeleted htimes (havg'.trans havg) ?_ hsplit
      (hvalue l hl) (hvalue _ hr n List.mem_cons_self)
      (fun k hk => hvalue _ hr k (List.mem_cons_of_mem _ hk)) ?_)
    · rw [hlast]
      exact hc
    · rw [hit]
      simp

/-- A harmful call shows: with one value different from all the others, the
average forgets it, or the next one after a drain does. -/
theorem not_independent (hpre : .drain ∉ pre) (hpost : .drain ∉ post)
    (hstarted : b.lastAvg ≠ none ∨ ∃ e ∈ pre, e.isPush = true) :
    ¬Independent aggtime b (around c pre post time identifier) := by
  rintro ⟨hsurvivor, hlater⟩
  have hoften : Flat c ((run aggtime b (around c pre post time identifier)).aggregate aggtime
      false) := often_around havg hnil hc htimes hpre hpost hstarted
  rcases once_around havg hnil hc htimes aggtime with ⟨m, hm, hne⟩ | ⟨hnone, hlast⟩
  · rw [← hsurvivor] at hm
    exact hne (hoften.values m hm)
  · -- what is remembered comes to light after a drain
    obtain ⟨havg', -, -, -⟩ := run_once aggtime hnil (around c pre post time identifier)
    have hne : (run aggtime b ((around c pre post time identifier).filter isPush)).aggmode ≠
        .none := by rw [havg', havg]; decide
    have honce := forgotten_after_drain aggtime
      ((Buffer.aggregate_aggmode _ aggtime false).trans (havg'.trans havg))
      (Buffer.aggregate_undeleted hne aggtime false) hlast c
    have hflat := flat_aggregate aggtime
      (flat_run aggtime hoften [.drain, after c ⟨false, c + 1, time, identifier⟩])
    have heq := hlater _ (increasing_after htimes hnone)
    obtain ⟨-, a, rest, -, hnodes, -⟩ := honce.lastAvg
    have ha : a ∈ _ := hnodes ▸ List.mem_cons_self
    have hone := honce.values a ha
    have hzero := hflat.values a (heq ▸ ha)
    linarith

end Around

/-- **When extra calls make no difference.**  Between two drains, calls at given
places make no difference for any values, exactly if each of them comes before
the first push, or right after the first reading the channel has ever seen. -/
theorem independent_iff_harmless (aggtime : Int) (havg : b.aggmode = .avg)
    (hnil : b.sent.nodes = []) {es : List AvgEvent} (hdrain : .drain ∉ es)
    (htimes : Increasing b es) :
    (∀ fs, SameShape es fs → Independent aggtime b fs) ↔ Harmless b.lastAvg 0 es := by
  constructor
  · intro h
    by_contra hharmful
    obtain ⟨pre, v, time, identifier, post, rfl, hstarted⟩ :=
      (exists_of_not_harmless hdrain hharmful).resolve_right fun hat => hat.1 (Or.inl rfl)
    -- one value different from the remembered one, and all others the same as it
    obtain ⟨c, hc⟩ : ∃ c, ∀ p, b.lastAvg = some p → p.value = c :=
      ⟨(b.lastAvg.map Reading.value).getD 0, fun p hp => by rw [hp]; rfl⟩
    have hshape : SameShape (pre ++ .push v time identifier :: .aggregate :: post)
        (around c pre post time identifier) := by
      rw [around, SameShape, List.map_append, List.map_append, sameShape_withValue c pre]
      exact congrArg (_ ++ _ :: _ :: ·) (sameShape_withValue c post)
    refine not_independent havg hnil hc ?_ (fun hd => hdrain (List.mem_append_left _ hd))
      (fun hd => hdrain
        (List.mem_append_right _ (List.mem_cons_of_mem _ (List.mem_cons_of_mem _ hd))))
      (hstarted.imp_right fun h => h.resolve_left fun hn => hn rfl) (h _ hshape)
    rw [Increasing, List.map_append] at htimes ⊢
    rw [← pushed_times_congr hshape]
    exact htimes
  · intro h fs hfs
    have halike : Alike b b :=
      ⟨rfl, havg, havg, by simp [hnil], Or.inl rfl⟩
    have hrun : Alike (run aggtime b fs) (run aggtime b (fs.filter isPush)) := by
      refine alike_run halike (fun hd => hdrain ((drain_mem_congr hfs).mpr hd)) ?_
      rw [hnil]
      exact (harmless_congr hfs).mp h
    rw [Independent, aggregate_of_alike hrun]
    exact ⟨rfl, fun _ _ => rfl⟩

/-- Three readings, and a call after the second one. -/
def calledEarly : List AvgEvent :=
  [.push 10 ⟨1, 0⟩ .nil, .push 20 ⟨2, 0⟩ .nil, .aggregate, .push 30 ⟨3, 0⟩ .nil]

theorem independent_iff_harmless_calledEarly :
    (∀ fs, SameShape calledEarly fs → Independent 0 (Buffer.initial .avg) fs) ↔
      Harmless none 0 calledEarly :=
  independent_iff_harmless 0 (b := Buffer.initial .avg) rfl rfl (by decide)
    (by unfold Increasing; decide)

/-- The average is 15, but 10 with the early call: the 20 is forgotten. -/
theorem calledEarly_forgets :
    Increasing (Buffer.initial .avg) calledEarly ∧
      ((run 0 (Buffer.initial .avg) (calledEarly.filter isPush)).aggregate 0 false).sent.nodes.map
        (fun it => it.val.value) = [15] ∧
      ((run 0 (Buffer.initial .avg) calledEarly).aggregate 0 false).sent.nodes.map
        (fun it => it.val.value) = [10] ∧
      ¬Independent 0 (Buffer.initial .avg) calledEarly := by
  have honce : ((run 0 (Buffer.initial .avg) (calledEarly.filter isPush)).aggregate 0
      false).sent.nodes.map (fun it => it.val.value) = [15] := by decide +kernel
  have hoften : ((run 0 (Buffer.initial .avg) calledEarly).aggregate 0 false).sent.nodes.map
      (fun it => it.val.value) = [10] := by decide +kernel
  refine ⟨by unfold Increasing; decide, honce, hoften, fun h => ?_⟩
  have hvalues := congrArg (List.map fun it => it.val.value) h.1
  rw [honce, hoften] at hvalues
  exact absurd hvalues (by decide +kernel)

end AvgEvent
end VzLogger
