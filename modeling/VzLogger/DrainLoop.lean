import VzLogger.Buffer

/-! # The drain loop of the middleware interfaces

`Volkszaehler::api_json_tuples` and `InfluxDB::send` take readings out of the
channel buffer with the same loop: every reading goes through a filter of
timestamps and duplicates, and is marked deleted whether it passed or not.  They
differ in how they compare a time with the last one taken (`newer`), and in that
InfluxDB stops when a request is full.
-/
namespace VzLogger

/-- `_last_timestamp` and `_lastReadingSent`. -/
structure FilterState where
  lastTimestamp : Int
  lastReadingSent : Option Reading
  deriving DecidableEq

namespace FilterState

/-- As the constructors set it. -/
def initial : FilterState := ⟨0, none⟩

/-- The filter: the state after the reading `r` is taken, `none` if it is
ignored.  `duplicates` is in seconds. -/
def accept (newer : Int → Int → Bool) (duplicates : Int) (f : FilterState) (r : Reading) :
    Option FilterState :=
  let timestamp := r.timeMs
  let duplicatesMs := duplicates * 1000
  if newer f.lastTimestamp timestamp then
    if duplicates = 0 then some { f with lastTimestamp := timestamp }
    else
      match f.lastReadingSent with
      | none => some ⟨timestamp, some r⟩
      | some sent =>
        if f.lastTimestamp + duplicatesMs ≤ timestamp ∨ r.value ≠ sent.value then
          some ⟨timestamp, some r⟩
        else none
  else none

/-- A reading is taken with its own time, which is then the last one. -/
theorem accept_lastTimestamp {newer : Int → Int → Bool} {duplicates : Int} {f g : FilterState}
    {r : Reading} (h : f.accept newer duplicates r = some g) :
    g.lastTimestamp = r.timeMs ∧ newer f.lastTimestamp r.timeMs = true := by
  cases hnewer : newer f.lastTimestamp r.timeMs with
  | false => simp [accept, hnewer] at h
  | true =>
    refine ⟨?_, rfl⟩
    simp only [accept, hnewer, if_true] at h
    split at h
    · exact (Option.some.inj h) ▸ rfl
    · split at h
      · exact (Option.some.inj h) ▸ rfl
      · split at h
        · exact (Option.some.inj h) ▸ rfl
        · cases h

/-- Without the duplicates option only the time matters. -/
theorem accept_zero (newer : Int → Int → Bool) (f : FilterState) (r : Reading) :
    f.accept newer 0 r =
      if newer f.lastTimestamp r.timeMs then some { f with lastTimestamp := r.timeMs }
      else none := by
  simp [accept]

/-- The mark of a reading does not matter. -/
theorem accept_markDelete_eq_none {newer : Int → Int → Bool} {duplicates : Int} {f : FilterState}
    {r : Reading} (h : f.accept newer duplicates r = none) :
    f.accept newer duplicates r.markDelete = none := by
  have htime : r.markDelete.timeMs = r.timeMs := rfl
  have hvalue : r.markDelete.value = r.value := rfl
  cases hnewer : newer f.lastTimestamp r.timeMs with
  | false => simp [accept, htime, hnewer]
  | true =>
    simp only [accept, htime, hvalue, hnewer, if_true] at h ⊢
    split at h
    · cases h
    · rename_i hdup
      rw [if_neg hdup]
      split at h
      · cases h
      · split at h
        · cases h
        · rename_i hsent
          exact if_neg hsent

end FilterState

/-- What a drain loop did: the filter state it left, the readings it took, and
how many readings it visited. -/
structure Drained where
  filter : FilterState
  taken : List (Node Reading)
  reached : Nat

/-- The loop over the buffer.  `full` is asked before each reading, with the
number of readings taken so far. -/
def drainLoop (accept : FilterState → Reading → Option FilterState) (full : Nat → Bool) :
    FilterState → Nat → List (Node Reading) → Drained
  | f, _, [] => ⟨f, [], 0⟩
  | f, lines, it :: rest =>
    if full lines then ⟨f, [], 0⟩
    else
      match accept f it.val with
      | some g =>
        let d := drainLoop accept full g (lines + 1) rest
        ⟨d.filter, it :: d.taken, d.reached + 1⟩
      | none =>
        let d := drainLoop accept full f lines rest
        ⟨d.filter, d.taken, d.reached + 1⟩

namespace drainLoop
variable {accept : FilterState → Reading → Option FilterState} {full : Nat → Bool}

section Steps
variable {f : FilterState} {lines : Nat} {it : Node Reading} {rest : List (Node Reading)}

@[simp] theorem nil : drainLoop accept full f lines [] = ⟨f, [], 0⟩ := rfl

theorem cons_full (h : full lines = true) :
    drainLoop accept full f lines (it :: rest) = ⟨f, [], 0⟩ := by
  simp [drainLoop, h]

theorem cons_taken (h : full lines = false) {g : FilterState} (hg : accept f it.val = some g) :
    drainLoop accept full f lines (it :: rest) =
      ⟨(drainLoop accept full g (lines + 1) rest).filter,
        it :: (drainLoop accept full g (lines + 1) rest).taken,
        (drainLoop accept full g (lines + 1) rest).reached + 1⟩ := by
  simp [drainLoop, h, hg]

theorem cons_ignored (h : full lines = false) (hn : accept f it.val = none) :
    drainLoop accept full f lines (it :: rest) =
      ⟨(drainLoop accept full f lines rest).filter, (drainLoop accept full f lines rest).taken,
        (drainLoop accept full f lines rest).reached + 1⟩ := by
  simp [drainLoop, h, hn]

end Steps

/-- The loop never stops early. -/
theorem reached_of_never_full (hfull : ∀ k, full k = false) (f : FilterState) (lines : Nat)
    (l : List (Node Reading)) : (drainLoop accept full f lines l).reached = l.length := by
  induction l generalizing f lines with
  | nil => rfl
  | cons it rest ih =>
    cases h : accept f it.val with
    | none => rw [cons_ignored (hfull _) h]; simp [ih]
    | some g => rw [cons_taken (hfull _) h]; simp [ih]

/-- What is taken was visited, in the same order. -/
theorem taken_sublist (f : FilterState) (lines : Nat) (l : List (Node Reading)) :
    (drainLoop accept full f lines l).taken.Sublist
      (l.take (drainLoop accept full f lines l).reached) := by
  induction l generalizing f lines with
  | nil => simp
  | cons it rest ih =>
    cases hf : full lines with
    | true => rw [cons_full hf]; simp
    | false =>
      cases h : accept f it.val with
      | none => rw [cons_ignored hf h]; exact (ih f lines).cons it
      | some g => rw [cons_taken hf h]; exact (ih g (lines + 1)).cons_cons it

/-- A loop that is not full from the start takes something exactly if the filter,
as it stands, lets one of the readings pass. -/
theorem taken_ne_nil_iff {lines : Nat} (hfull : full lines = false) (f : FilterState)
    (l : List (Node Reading)) :
    (drainLoop accept full f lines l).taken ≠ [] ↔ ∃ it ∈ l, accept f it.val ≠ none := by
  induction l with
  | nil => simp
  | cons it rest ih =>
    cases h : accept f it.val with
    | none =>
      rw [cons_ignored hfull h, ih]
      simp [h]
    | some g =>
      rw [cons_taken hfull h]
      simp [h]

/-- A loop that took nothing left the filter as it was. -/
theorem filter_of_taken_eq_nil {f : FilterState} {lines : Nat} {l : List (Node Reading)}
    (h : (drainLoop accept full f lines l).taken = []) :
    (drainLoop accept full f lines l).filter = f := by
  induction l generalizing lines with
  | nil => rfl
  | cons it rest ih =>
    cases hf : full lines with
    | true => rw [cons_full hf]
    | false =>
      cases ha : accept f it.val with
      | none =>
        rw [cons_ignored hf ha] at h ⊢
        exact ih h
      | some g =>
        rw [cons_taken hf ha] at h
        cases h

/-- Readings that the filter ignores from the start are passed over. -/
theorem append_ignored {f : FilterState} {lines : Nat} (hf : full lines = false)
    {l : List (Node Reading)} (hl : ∀ it ∈ l, accept f it.val = none) (m : List (Node Reading)) :
    (drainLoop accept full f lines (l ++ m)).reached =
      l.length + (drainLoop accept full f lines m).reached := by
  induction l with
  | nil => simp
  | cons it rest ih =>
    obtain ⟨hit, hrest⟩ := List.forall_mem_cons.mp hl
    rw [List.cons_append, cons_ignored hf hit, List.length_cons]
    dsimp only
    rw [ih hrest]
    omega

/-- A request does not grow beyond what is full. -/
theorem length_taken_le {limit : Nat} (hlimit : full limit = true) (f : FilterState) {lines : Nat}
    (hlines : lines ≤ limit) (l : List (Node Reading)) :
    lines + (drainLoop accept full f lines l).taken.length ≤ limit := by
  induction l generalizing f lines with
  | nil => simpa using hlines
  | cons it rest ih =>
    cases hf : full lines with
    | true =>
      rw [cons_full hf]
      exact hlines
    | false =>
      have hne : lines ≠ limit := by
        rintro rfl
        rw [hf] at hlimit
        cases hlimit
      cases ha : accept f it.val with
      | none =>
        rw [cons_ignored hf ha]
        exact ih f hlines
      | some g =>
        have hnext := ih g (show lines + 1 ≤ limit by omega)
        rw [cons_taken hf ha, List.length_cons]
        omega

/-- If the filter lets every reading pass, in any state that the loop comes to,
everything visited is taken. -/
theorem taken_eq_take {Good : FilterState → List (Node Reading) → Prop}
    (hgood : ∀ f it rest, Good f (it :: rest) → ∃ g, accept f it.val = some g ∧ Good g rest)
    {f : FilterState} (lines : Nat) {l : List (Node Reading)} (hl : Good f l) :
    (drainLoop accept full f lines l).taken =
      l.take (drainLoop accept full f lines l).reached := by
  induction l generalizing f lines with
  | nil => rfl
  | cons it rest ih =>
    cases hf : full lines with
    | true => rw [cons_full hf]; rfl
    | false =>
      obtain ⟨g, hg, hrest⟩ := hgood f it rest hl
      rw [cons_taken hf hg, ih (lines + 1) hrest]
      rfl

end drainLoop

/-! ## Without the duplicates option -/

/-- A comparison of times between `<` and `≤`. -/
structure IsNewer (newer : Int → Int → Bool) : Prop where
  of_lt : ∀ {a b}, a < b → newer a b = true
  le : ∀ {a b}, newer a b = true → a ≤ b

/-- A time newer than one timestamp is newer than any before it. -/
theorem IsNewer.anti {newer : Int → Int → Bool} (h : IsNewer newer) {a b c : Int} (hab : a ≤ b)
    (hbc : newer b c = true) : newer a c = true := by
  rcases Int.lt_or_eq_of_le hab with hlt | rfl
  · exact h.of_lt (lt_of_lt_of_le hlt (h.le hbc))
  · exact hbc

/-- The readings the loop comes to, if those that satisfy `p` count as lines. -/
def reach (p : Reading → Bool) (full : Nat → Bool) : Nat → List (Node Reading) → List (Node Reading)
  | _, [] => []
  | lines, it :: rest =>
    if full lines then [] else it :: reach p full (if p it.val then lines + 1 else lines) rest

theorem reach_congr {p q : Reading → Bool} {full : Nat → Bool} {lines : Nat}
    {l : List (Node Reading)} (h : ∀ it ∈ l, p it.val = q it.val) :
    reach p full lines l = reach q full lines l := by
  induction l generalizing lines with
  | nil => rfl
  | cons it rest ih =>
    rw [reach, reach, h it List.mem_cons_self, ih fun n hn => h n (List.mem_cons_of_mem _ hn)]

theorem reach_isPrefix (p : Reading → Bool) (full : Nat → Bool) (lines : Nat)
    (l : List (Node Reading)) : reach p full lines l <+: l := by
  induction l generalizing lines with
  | nil => exact List.prefix_refl []
  | cons it rest ih =>
    rw [reach]
    split
    · exact List.nil_prefix
    · exact List.prefix_cons_inj it |>.mpr (ih _)

/-- **The loop on increasing times.**  It comes to the readings of `reach`, and
takes those newer than the last timestamp it started with. -/
theorem drainLoop_zero {newer : Int → Int → Bool} (hnewer : IsNewer newer) {full : Nat → Bool}
    (f : FilterState) (lines : Nat) {l : List (Node Reading)}
    (hl : (l.map (fun it => it.val.timeMs)).Pairwise (· < ·)) :
    (drainLoop (FilterState.accept newer 0) full f lines l).taken =
        (reach (fun r => newer f.lastTimestamp r.timeMs) full lines l).filter
          (fun it => newer f.lastTimestamp it.val.timeMs) ∧
      (drainLoop (FilterState.accept newer 0) full f lines l).reached =
        (reach (fun r => newer f.lastTimestamp r.timeMs) full lines l).length := by
  induction l generalizing f lines with
  | nil => exact ⟨rfl, rfl⟩
  | cons it rest ih =>
    obtain ⟨hlt, hrest⟩ := List.pairwise_cons.mp hl
    rw [reach]
    cases hfull : full lines with
    | true =>
      rw [drainLoop.cons_full hfull]
      exact ⟨rfl, rfl⟩
    | false =>
      cases hit : newer f.lastTimestamp it.val.timeMs with
      | false =>
        have haccept : f.accept newer 0 it.val = none := by
          rw [FilterState.accept_zero, hit]
          rfl
        obtain ⟨htaken, hreached⟩ := ih f lines hrest
        rw [drainLoop.cons_ignored hfull haccept, htaken, hreached]
        simp [hit]
      | true =>
        have haccept : f.accept newer 0 it.val =
            some { f with lastTimestamp := it.val.timeMs } := by
          rw [FilterState.accept_zero, hit]
          rfl
        obtain ⟨htaken, hreached⟩ :=
          ih { f with lastTimestamp := it.val.timeMs } (lines + 1) hrest
        -- whatever follows is newer than both timestamps
        have hsame : ∀ n ∈ rest, newer it.val.timeMs n.val.timeMs =
            newer f.lastTimestamp n.val.timeMs := by
          intro n hn
          have hltn := hlt _ (List.mem_map_of_mem hn)
          rw [hnewer.of_lt hltn, hnewer.of_lt (lt_of_le_of_lt (hnewer.le hit) hltn)]
        have hreach : reach (fun r => newer it.val.timeMs r.timeMs) full (lines + 1) rest =
            reach (fun r => newer f.lastTimestamp r.timeMs) full (lines + 1) rest :=
          reach_congr hsame
        rw [drainLoop.cons_taken hfull haccept, htaken, hreached]
        dsimp only
        rw [hreach]
        have hfilter : (reach (fun r => newer f.lastTimestamp r.timeMs) full (lines + 1)
            rest).filter (fun it' => newer it.val.timeMs it'.val.timeMs) =
            (reach (fun r => newer f.lastTimestamp r.timeMs) full (lines + 1) rest).filter
            (fun it => newer f.lastTimestamp it.val.timeMs) :=
          List.filter_congr fun n hn => hsame n ((reach_isPrefix _ _ _ _).subset hn)
        rw [hfilter]
        simp [hit]

/-- The last timestamp never goes back, and nothing taken is newer than it. -/
theorem le_lastTimestamp {newer : Int → Int → Bool} (hnewer : IsNewer newer) (duplicates : Int)
    (full : Nat → Bool) (f : FilterState) (lines : Nat) (l : List (Node Reading)) :
    f.lastTimestamp ≤
        (drainLoop (FilterState.accept newer duplicates) full f lines l).filter.lastTimestamp ∧
      ∀ it ∈ (drainLoop (FilterState.accept newer duplicates) full f lines l).taken,
        it.val.timeMs ≤ (drainLoop (FilterState.accept newer duplicates) full f lines
          l).filter.lastTimestamp := by
  induction l generalizing f lines with
  | nil => exact ⟨le_refl _, by simp⟩
  | cons it rest ih =>
    cases hfull : full lines with
    | true =>
      rw [drainLoop.cons_full hfull]
      exact ⟨le_refl _, by simp⟩
    | false =>
      cases haccept : f.accept newer duplicates it.val with
      | none =>
        rw [drainLoop.cons_ignored hfull haccept]
        exact ih f lines
      | some g =>
        obtain ⟨hg, hit⟩ := FilterState.accept_lastTimestamp haccept
        obtain ⟨hle, htaken⟩ := ih g (lines + 1)
        rw [drainLoop.cons_taken hfull haccept]
        dsimp only
        refine ⟨by have := hnewer.le hit; omega, fun n hn => ?_⟩
        rcases List.mem_cons.mp hn with rfl | hn
        · omega
        · exact htaken n hn

/-- What is taken is in order, and not older than the last timestamp. -/
theorem taken_pairwise {newer : Int → Int → Bool} (hnewer : IsNewer newer) (duplicates : Int)
    (full : Nat → Bool) (f : FilterState) (lines : Nat) (l : List (Node Reading)) :
    (∀ it ∈ (drainLoop (FilterState.accept newer duplicates) full f lines l).taken,
        f.lastTimestamp ≤ it.val.timeMs) ∧
      ((drainLoop (FilterState.accept newer duplicates) full f lines l).taken.map
        fun it => it.val.timeMs).Pairwise (· ≤ ·) := by
  induction l generalizing f lines with
  | nil => exact ⟨by simp, by simp⟩
  | cons it rest ih =>
    cases hfull : full lines with
    | true =>
      rw [drainLoop.cons_full hfull]
      exact ⟨by simp, by simp⟩
    | false =>
      cases haccept : f.accept newer duplicates it.val with
      | none =>
        rw [drainLoop.cons_ignored hfull haccept]
        exact ih f lines
      | some g =>
        obtain ⟨hg, hit⟩ := FilterState.accept_lastTimestamp haccept
        obtain ⟨hle, hsorted⟩ := ih g (lines + 1)
        have hnew := hnewer.le hit
        rw [drainLoop.cons_taken hfull haccept]
        constructor
        · intro n hn
          rcases List.mem_cons.mp hn with rfl | hn
          · exact hnew
          · have := hle n hn
            omega
        · rw [List.map_cons, List.pairwise_cons]
          refine ⟨?_, hsorted⟩
          intro t ht
          obtain ⟨n, hn, rfl⟩ := List.mem_map.mp ht
          have := hle n hn
          omega

end VzLogger
