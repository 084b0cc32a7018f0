import VzLogger.Aggregation.Average
import VzLogger.Lib.StepSignal

/-! # The average is the mean of the signal

A channel in mode `avg` whose consumer keeps up: readings are pushed in batches,
`aggregate` is called after each batch, and its survivor is drained before the
next one.

The raw readings are the samples of a step signal.  The value an aggregate leaves
is the mean of that signal since the aggregate before, or since the first reading
of all: what it weighs over its time is the integral of the signal.  A batch
starts from the raw reading the previous aggregate remembered, not from its
result, so the weights of all batches add up to the integral of the whole signal.
-/
namespace VzLogger

open Buffer (avgStep avgKeep AvgAcc)
open StepSignal (Sample hold area Ordered)

/-- What a meter measured. -/
structure Measurement where
  value : Rat
  time : Timeval
  identifier : ReadingIdentifier

namespace Measurement

def reading (m : Measurement) : Reading := ⟨false, m.value, m.time, m.identifier⟩

def push (m : Measurement) : AvgEvent := .push m.value m.time m.identifier

end Measurement

namespace AvgEvent

/-- One batch: its readings are pushed, and `aggregate` is called. -/
def batchRun (aggtime : Int) (b : Buffer) (batch : List Measurement) : Buffer :=
  run aggtime b (batch.map Measurement.push ++ [.aggregate])

/-- What is in the buffer after the aggregate of each batch; it is drained
before the next batch. -/
def survivors (aggtime : Int) : Buffer → List (List Measurement) → List (List Reading)
  | _, [] => []
  | b, batch :: batches =>
    (batchRun aggtime b batch).sent.nodes.map Node.val ::
      survivors aggtime (step aggtime (batchRun aggtime b batch) .drain) batches

/-- The time of the last reading of a batch. -/
def lastMs (start : Int) (batch : List Measurement) : Int :=
  (batch.getLast?.map fun m => m.reading.timeMs).getD start

/-- The time each batch accounts for, from the end of the previous one. -/
def spans : Int → List (List Measurement) → List (Int × Int)
  | _, [] => []
  | start, batch :: batches => (start, lastMs start batch) :: spans (lastMs start batch) batches

/-- The raw readings as the samples of a signal. -/
noncomputable def signal (rs : List Reading) : List Sample := rs.map fun r => ⟨r.timeMs, r.value⟩

/-- One survivor, at the end of its span, and over the span its value weighs as
much as the signal. -/
def Exact (raw : List Reading) (span : Int × Int) (rs : List Reading) : Prop :=
  ∃ r, rs = [r] ∧ r.timeMs = span.2 ∧
    (r.value : ℝ) * (span.2 - span.1) = ∫ t in (span.1 : ℝ)..span.2, hold (signal raw) t

/-- What all survivors weigh, each over its span. -/
noncomputable def weight (spans : List (Int × Int)) (survivors : List (List Reading)) : ℝ :=
  (List.zipWith (fun span rs => (rs.map fun r : Reading => (r.value : ℝ)).sum *
    ((span.2 : ℝ) - span.1)) spans survivors).sum

/-! ## The loop of one batch -/

theorem signal_cons (r : Reading) (rs : List Reading) :
    signal (r :: rs) = ⟨r.timeMs, r.value⟩ :: signal rs := rfl

theorem signal_append (rs qs : List Reading) : signal (rs ++ qs) = signal rs ++ signal qs :=
  List.map_append

theorem ordered_signal {rs : List Reading} (h : (rs.map Reading.timeMs).Pairwise (· < ·)) :
    Ordered (signal rs) := by
  rw [Ordered, signal, List.map_map]
  have hcast := h.map (fun t : Int => (t : ℝ)) fun _ _ hlt => Int.cast_lt.mpr hlt
  rw [List.map_map] at hcast
  exact hcast

/-- The accumulators of the loop: the area under the signal, and its time. -/
theorem foldl_avgStep {acc : AvgAcc} {p : Reading} (h : acc.previous = some p)
    (l : List (Node Reading)) :
    ((l.foldl avgStep acc).aggvalue : ℝ) =
        acc.aggvalue + area (signal (p :: l.map Node.val)) / 1000 ∧
      ((l.foldl avgStep acc).aggtimespan : ℝ) = acc.aggtimespan +
        (((p :: l.map Node.val).getLast (List.cons_ne_nil _ _)).timeMs - p.timeMs : ℝ) / 1000 := by
  induction l generalizing acc p with
  | nil => simp [signal]
  | cons it l ih =>
    obtain ⟨harea, hspan⟩ := ih (Buffer.avgStep_previous acc it)
    rw [List.foldl_cons, harea, hspan, Buffer.avgStep_of_previous h]
    simp only [List.map_cons, signal_cons, StepSignal.area_cons_cons, List.getLast_cons_cons]
    push_cast
    constructor <;> ring

/-- What the survivor of a batch weighs. -/
theorem avgKeep_weight {p : Reading} {l : List (Node Reading)} {last : Reading}
    (hlast : (p :: l.map Node.val).getLast (List.cons_ne_nil _ _) = last)
    (htimes : ((p :: l.map Node.val).map Reading.timeMs).Pairwise (· < ·)) (r : Reading) :
    ((avgKeep (l.foldl avgStep ⟨0, 0, some p⟩) r).value : ℝ) * (last.timeMs - p.timeMs) =
      area (signal (p :: l.map Node.val)) := by
  have hfirst : (⟨0, 0, some p⟩ : AvgAcc).previous = some p := rfl
  obtain ⟨harea, hspan⟩ := foldl_avgStep hfirst l
  rw [hlast] at hspan
  cases l with
  | nil =>
    -- no time has passed: the reading is kept as it is
    obtain rfl : p = last := hlast
    simp [signal]
  | cons it l =>
    have hlt : p.timeMs < last.timeMs := by
      refine (List.pairwise_cons.mp htimes).1 _ (List.mem_map_of_mem ?_)
      rw [← hlast, List.map_cons, List.getLast_cons_cons]
      exact List.getLast_mem _
    have hpos : (0 : ℝ) < (last.timeMs - p.timeMs : ℝ) := by
      have : (p.timeMs : ℝ) < last.timeMs := by exact_mod_cast hlt
      linarith
    have hspan' : 0 < ((it :: l).foldl avgStep ⟨0, 0, some p⟩).aggtimespan := by
      have : (0 : ℝ) < (((it :: l).foldl avgStep ⟨0, 0, some p⟩).aggtimespan : ℝ) := by
        rw [hspan]
        simpa using div_pos hpos (by norm_num : (0 : ℝ) < 1000)
      exact_mod_cast this
    rw [avgKeep, if_pos hspan', Reading.setValue_value]
    push_cast
    rw [harea, hspan]
    simp only [Rat.cast_zero, zero_add]
    field_simp

/-! ## One batch -/

theorem pushed_push (batch : List Measurement) :
    pushed (batch.map Measurement.push) = batch.map Measurement.reading := by
  induction batch with
  | nil => rfl
  | cons m batch ih => exact congrArg (_ :: ·) ih

/-- Between two batches: the buffer is empty, and remembers the last raw reading. -/
structure Ready (b : Buffer) (previous : Option Reading) : Prop where
  avg : b.aggmode = .avg
  nodes : b.sent.nodes = []
  lastAvg : b.lastAvg = previous

/-- The loop starts from the remembered reading, or else from the first one. -/
theorem foldl_avgStep_start {previous : Option Reading} {l : List (Node Reading)} {p : Reading}
    {rest : List Reading} (hsplit : previous.toList ++ l.map Node.val = p :: rest) :
    ∃ ns : List (Node Reading), ns.map Node.val = rest ∧
      l.foldl avgStep ⟨0, 0, previous⟩ = ns.foldl avgStep ⟨0, 0, some p⟩ := by
  cases previous with
  | some q =>
    obtain ⟨rfl, rfl⟩ := List.cons.inj hsplit
    exact ⟨l, rfl, rfl⟩
  | none =>
    cases l with
    | nil => cases hsplit
    | cons it l =>
      obtain ⟨rfl, rfl⟩ := List.cons.inj hsplit
      exact ⟨l, rfl, rfl⟩

/-- What the pushes of a batch leave in an empty buffer. -/
theorem pushes_spec (aggtime : Int) {b : Buffer} {previous : Option Reading}
    (hb : Ready b previous) (batch : List Measurement) :
    let c := run aggtime b (batch.map Measurement.push)
    c.aggmode = .avg ∧ c.lastAvg = previous ∧
      c.sent.nodes.map Node.val = batch.map Measurement.reading ∧
      ∀ it ∈ c.sent.nodes, it.val.deleted = false := by
  intro c
  have hpushes : ∀ e ∈ batch.map Measurement.push, e.isPush = true := by
    intro e he
    obtain ⟨m, -, rfl⟩ := List.mem_map.mp he
    rfl
  obtain ⟨havg, hprevious, hvals⟩ := run_pushes aggtime b hpushes
  rw [hb.nodes, List.map_nil, List.nil_append, pushed_push] at hvals
  refine ⟨havg.trans hb.avg, hprevious.trans hb.lastAvg, hvals, fun it hit => ?_⟩
  have hmem : it.val ∈ batch.map Measurement.reading := hvals ▸ List.mem_map_of_mem hit
  obtain ⟨m, -, hm⟩ := List.mem_map.mp hmem
  rw [← hm]
  rfl

/-- **One batch.**  The survivor has the time of the last reading, and weighs
what the signal does since the remembered reading, or since the first one. -/
theorem batchRun_spec (aggtime : Int) {b : Buffer} {previous : Option Reading}
    (hb : Ready b previous) {batch : List Measurement} (hne : batch ≠ []) {p : Reading}
    {rest : List Reading} (hsplit : previous.toList ++ batch.map Measurement.reading = p :: rest)
    (htimes : ((p :: rest).map Reading.timeMs).Pairwise (· < ·)) :
    let last := (p :: rest).getLast (List.cons_ne_nil _ _)
    ∃ it, (batchRun aggtime b batch).sent.nodes = [it] ∧ it.val.timeMs = last.timeMs ∧
      (it.val.value : ℝ) * (last.timeMs - p.timeMs) = area (signal (p :: rest)) ∧
      (rest = [] → it.val = p) ∧
      Ready (step aggtime (batchRun aggtime b batch) .drain) (some last) := by
  obtain ⟨havg, hprevious, hvals, hundeleted⟩ := pushes_spec aggtime hb batch
  generalize hc : run aggtime b (batch.map Measurement.push) = c at havg hprevious hvals hundeleted
  obtain ⟨l, z, hnodes⟩ : ∃ l z, c.sent.nodes = l ++ [z] := by
    have hnodes : c.sent.nodes ≠ [] := by
      intro hnil
      rw [hnil] at hvals
      exact hne (List.map_eq_nil_iff.mp hvals.symm)
    exact ⟨_, _, (List.dropLast_append_getLast hnodes).symm⟩
  rw [← hvals] at hsplit
  have hz : z.val = (p :: rest).getLast (List.cons_ne_nil _ _) := by
    have hend : p :: rest = (previous.toList ++ l.map Node.val) ++ [z.val] := by
      rw [← hsplit, hnodes]
      simp
    rw [List.getLast_congr _ _ hend, List.getLast_append_singleton]
    simp
  have hincreasing :
      ((c.lastAvg.toList ++ c.sent.nodes.map Node.val).map Reading.timeMs).Pairwise (· < ·) := by
    rw [hprevious, hsplit]
    exact htimes
  obtain ⟨hm, -, -⟩ := latest_last hundeleted hincreasing hnodes
  obtain ⟨hsurvivor, -, hlastAvg⟩ := Buffer.aggregate_avg aggtime havg hundeleted hm
  have hrun : batchRun aggtime b batch = c.aggregate aggtime false := by
    rw [batchRun, run, List.foldl_append, ← hc]
    rfl
  -- the mean starts at the remembered reading, or at the first one of all
  obtain ⟨ns, hns, hfold⟩ := foldl_avgStep_start hsplit
  rw [hprevious, hfold] at hsurvivor
  refine ⟨_, hrun ▸ hsurvivor, ?_, ?_, ?_, ?_, ?_, ?_⟩
  · rw [Buffer.avgKeep_timeMs, hz]
  · subst hns
    exact avgKeep_weight rfl htimes z.val
  · intro hrest
    subst hrest
    rw [List.map_eq_nil_iff.mp hns, hz]
    rfl
  · rw [hrun]
    exact (Buffer.aggregate_aggmode c aggtime false).trans havg
  · rw [hrun]
    exact drain_nodes aggtime (Buffer.aggregate_undeleted (by rw [havg]; decide) aggtime false)
  · rw [hrun, ← hz]
    exact hlastAvg

/-! ## All batches -/

theorem lastMs_append (start : Int) (batch batch' : List Measurement) :
    lastMs start (batch ++ batch') = lastMs (lastMs start batch) batch' := by
  rw [lastMs, lastMs, lastMs, List.getLast?_append]
  cases batch'.getLast? <;> rfl

theorem lastMs_eq {previous : List Reading} {batch : List Measurement} (hne : batch ≠ [])
    {l : List Reading} (hsplit : previous ++ batch.map Measurement.reading = l) (hl : l ≠ [])
    (start : Int) : lastMs start batch = (l.getLast hl).timeMs := by
  obtain ⟨init, m, rfl⟩ : ∃ init m, batch = init ++ [m] :=
    ⟨_, _, (List.dropLast_append_getLast hne).symm⟩
  subst hsplit
  simp [lastMs]

theorem getLast_signal (p : Reading) (rest : List Reading) :
    ((⟨p.timeMs, p.value⟩ :: signal rest : List Sample).getLast (List.cons_ne_nil _ _)).time =
      ((p :: rest).getLast (List.cons_ne_nil _ _)).timeMs := by
  induction rest generalizing p with
  | nil => rfl
  | cons q rest ih =>
    simp only [signal_cons, List.getLast_cons_cons]
    exact ih q

/-- The integral of the signal over a run of its readings. -/
theorem integral_signal {raw pre rest post : List Reading} {p : Reading}
    (hraw : raw = pre ++ p :: (rest ++ post)) (htimes : (raw.map Reading.timeMs).Pairwise (· < ·)) :
    let last := (p :: rest).getLast (List.cons_ne_nil _ _)
    IntervalIntegrable (hold (signal raw)) MeasureTheory.volume p.timeMs last.timeMs ∧
      ∫ t in (p.timeMs : ℝ)..last.timeMs, hold (signal raw) t = area (signal (p :: rest)) := by
  have hsignal : signal raw =
      signal pre ++ ⟨p.timeMs, p.value⟩ :: (signal rest ++ signal post) := by
    rw [hraw, signal_append, signal_cons, signal_append]
  have h := StepSignal.integral_hold (hsignal ▸ ordered_signal htimes)
  rw [getLast_signal, ← hsignal] at h
  exact h

/-- What is known after some batches: `pre` are the raw readings before the
remembered one, and `start` is the time the next batch accounts from. -/
structure Upto (aggtime : Int) (raw : List Reading) (start : Int) (b : Buffer)
    (batches : List (List Measurement)) : Prop where
  exact : List.Forall₂ (Exact raw) (spans start batches) (survivors aggtime b batches)
  integrable : IntervalIntegrable (hold (signal raw)) MeasureTheory.volume start
    (lastMs start batches.flatten)
  weight : weight (spans start batches) (survivors aggtime b batches) =
    ∫ t in (start : ℝ)..lastMs start batches.flatten, hold (signal raw) t

theorem upto_of_ready (aggtime : Int) {raw pre : List Reading} {previous : Option Reading}
    {batches : List (List Measurement)} (hne : ∀ batch ∈ batches, batch ≠ [])
    (hraw : raw = pre ++ (previous.toList ++ batches.flatten.map Measurement.reading))
    (htimes : (raw.map Reading.timeMs).Pairwise (· < ·)) {start : Int}
    (hstart : ∀ r ∈ (previous.toList ++ batches.flatten.map Measurement.reading).head?,
      r.timeMs = start)
    {b : Buffer} (hb : Ready b previous) : Upto aggtime raw start b batches := by
  induction batches generalizing pre previous start b with
  | nil => exact ⟨.nil, IntervalIntegrable.refl, intervalIntegral.integral_same.symm⟩
  | cons batch batches ih =>
    obtain ⟨hbatch, hrest⟩ := List.forall_mem_cons.mp hne
    obtain ⟨p, rest, hsplit⟩ : ∃ p rest,
        previous.toList ++ batch.map Measurement.reading = p :: rest :=
      List.exists_cons_of_ne_nil (by simp [hbatch])
    have hflat : previous.toList ++ (batch :: batches).flatten.map Measurement.reading =
        p :: (rest ++ batches.flatten.map Measurement.reading) := by
      rw [List.flatten_cons, List.map_append, ← List.append_assoc, hsplit, List.cons_append]
    rw [hflat] at hraw hstart
    obtain rfl : p.timeMs = start := hstart p rfl
    have hseg : ((p :: rest).map Reading.timeMs).Pairwise (· < ·) := by
      rw [hraw] at htimes
      refine htimes.sublist (List.Sublist.map _ ?_)
      rw [← List.cons_append]
      exact (List.sublist_append_left _ _).trans (List.sublist_append_right _ _)
    obtain ⟨it, hnodes, htime, hweight, -, hready⟩ :=
      batchRun_spec aggtime hb hbatch hsplit hseg
    have hlast := lastMs_eq hbatch hsplit (List.cons_ne_nil _ _) p.timeMs
    obtain ⟨hint, hval⟩ := integral_signal hraw htimes
    rw [← hlast] at hint hval hweight htime
    -- the next batch goes on from the last reading of this one
    have hraw' : raw = (pre ++ (p :: rest).dropLast) ++
        ((some ((p :: rest).getLast (List.cons_ne_nil _ _))).toList ++
          batches.flatten.map Measurement.reading) := by
      rw [hraw, ← List.cons_append, Option.toList_some, List.append_assoc pre,
        ← List.append_assoc _ [_], List.dropLast_append_getLast]
    obtain ⟨hexact', hint', hweight'⟩ := ih hrest hraw'
      (by
        intro r hr
        obtain rfl := Option.some.inj hr
        exact hlast.symm) hready
    have hend := lastMs_append p.timeMs batch batches.flatten
    refine ⟨.cons ⟨it.val, by rw [hnodes]; rfl, htime, hweight.trans hval.symm⟩ hexact', ?_, ?_⟩
    · rw [List.flatten_cons, hend]
      exact hint.trans hint'
    · rw [List.flatten_cons, hend, ← intervalIntegral.integral_add_adjacent_intervals hint hint',
        hval, ← hweight, ← hweight']
      simp [weight, spans, survivors, hnodes]

/-- **The average is exact.**  Over its span, each survivor weighs as much as the
signal of the raw readings, a single first reading is kept as it is, and all
survivors together weigh what the whole signal does. -/
theorem average_exact (aggtime : Int) {batches : List (List Measurement)}
    (hne : ∀ batch ∈ batches, batch ≠ [])
    (htimes : ((batches.flatten.map Measurement.reading).map Reading.timeMs).Pairwise (· < ·))
    {first : Measurement} (hfirst : batches.flatten.head? = some first) :
    let raw := batches.flatten.map Measurement.reading
    let start := first.reading.timeMs
    let rs := survivors aggtime (Buffer.initial .avg) batches
    List.Forall₂ (Exact raw) (spans start batches) rs ∧
      (∀ rest, batches = [first] :: rest → rs.head? = some [first.reading]) ∧
      weight (spans start batches) rs =
        ∫ t in (start : ℝ)..lastMs start batches.flatten, hold (signal raw) t := by
  have hready : Ready (Buffer.initial .avg) none := ⟨rfl, rfl, rfl⟩
  have hstart : ∀ r ∈ (Option.toList none ++ batches.flatten.map Measurement.reading).head?,
      r.timeMs = first.reading.timeMs := by
    intro r hr
    rw [Option.toList_none, List.nil_append, List.head?_map, hfirst] at hr
    rw [← Option.some.inj hr]
  have hraw : batches.flatten.map Measurement.reading =
      [] ++ (Option.toList none ++ batches.flatten.map Measurement.reading) := rfl
  have h := upto_of_ready aggtime hne hraw htimes hstart hready
  refine ⟨h.exact, ?_, h.weight⟩
  rintro rest rfl
  have hsplit : Option.toList none ++ [first].map Measurement.reading = first.reading :: [] := rfl
  obtain ⟨it, hnodes, -, -, hkept, -⟩ :=
    batchRun_spec aggtime hready (List.cons_ne_nil _ _) hsplit (by simp)
  rw [survivors, hnodes, ← hkept rfl]
  rfl

/-- A first reading alone, then two more. -/
def twoBatches : List (List Measurement) :=
  [[⟨5, ⟨1, 0⟩, .nil⟩], [⟨7, ⟨2, 0⟩, .nil⟩, ⟨9, ⟨4, 0⟩, .nil⟩]]

theorem average_exact_twoBatches :
    let raw := twoBatches.flatten.map Measurement.reading
    let rs := survivors 0 (Buffer.initial .avg) twoBatches
    rs.map (fun l => l.map Reading.value) = [[5], [19 / 3]] ∧
      List.Forall₂ (Exact raw) (spans 1000 twoBatches) rs ∧
      rs.head? = some [⟨false, 5, ⟨1, 0⟩, .nil⟩] ∧
      weight (spans 1000 twoBatches) rs =
        ∫ t in ((1000 : Int) : ℝ)..((4000 : Int) : ℝ), hold (signal raw) t := by
  have hne : ∀ batch ∈ twoBatches, batch ≠ [] := by simp [twoBatches]
  obtain ⟨hexact, hfirst, hweight⟩ := average_exact 0 hne (by decide) rfl
  exact ⟨by decide +kernel, hexact, hfirst _ rfl, hweight⟩

end AvgEvent
end VzLogger
