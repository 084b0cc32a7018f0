import VzLogger.Reading
import VzLogger.Lib.NodeList
import Mathlib.Algebra.BigOperators.Group.List.Basic
import Mathlib.Tactic.Linarith

/-! # The channel buffer

`Buffer` holds the readings of one channel in a linked list.  Between `lock` and
`unlock` nothing else touches the list, so a critical section is one function
here.  `aggregate` is two of them: the pass over the list (`aggregatePass`), and
the `clean` that follows it.

The three modes share their loops: a first loop over the undeleted readings
finds the latest of them and accumulates a value, a second one gives the value to
the latest reading and marks the others deleted (`settle`).
-/
namespace VzLogger

/-- `Buffer::aggmode`. -/
inductive AggMode where
  | none
  | max
  | avg
  | sum
  deriving DecidableEq, Repr

/-- The list of readings, the aggregation mode, and the raw last reading of the
last aggregation (mode `avg`). -/
structure Buffer where
  sent : NodeList Reading
  aggmode : AggMode
  lastAvg : Option Reading

namespace Buffer

/-- A new buffer. -/
def initial (aggmode : AggMode) : Buffer := ⟨NodeList.empty, aggmode, none⟩

def push (b : Buffer) (rd : Reading) : Buffer := { b with sent := b.sent.pushBack rd }

/-- `size() == 0`. -/
def isEmpty (b : Buffer) : Bool := b.sent.nodes.isEmpty

/-- `clean` with its default argument: erase the readings marked deleted. -/
def clean (b : Buffer) : Buffer := { b with sent := b.sent.eraseIf Reading.deleted }

def undelete (b : Buffer) : Buffer := { b with sent := b.sent.mapNodes (fun it => it.val.reset) }

/-- The readings the aggregation loops look at: `if (!it->deleted())`. -/
def live (l : List (Node Reading)) : List (Node Reading) := l.filter (fun it => !it.val.deleted)

/-! ## The loops of `aggregate` -/

/-- The pointer `latest` after one more reading: only a greater time moves it. -/
def latestStep (latest : Option (Node Reading)) (it : Node Reading) : Option (Node Reading) :=
  match latest with
  | none => some it
  | some l => if l.val.timeMs < it.val.timeMs then some it else some l

/-- `latest` after the first loop. -/
def latest (l : List (Node Reading)) : Option (Node Reading) := (live l).foldl latestStep none

/-- The second loop: `keep` changes the latest reading, the others are marked. -/
def settle (sent : NodeList Reading) (keep : Reading → Reading) : NodeList Reading :=
  sent.mapNodes fun it =>
    if it.val.deleted then it.val
    else if (latest sent.nodes).map Node.addr = some it.addr then keep it.val
    else it.val.markDelete

/-- The greatest finite `double`. -/
def dblMax : Rat := (2 ^ 53 - 1) * 2 ^ 971

/-- `aggvalue` of mode `max`. -/
def maxValue (l : List (Node Reading)) : Rat :=
  (live l).foldl (fun v it => if v < it.val.value then it.val.value else v) (-dblMax)

/-- `aggvalue` of mode `sum`. -/
def sumValue (l : List (Node Reading)) : Rat :=
  (live l).foldl (fun v it => v + it.val.value) 0

/-- The accumulators of mode `avg`. -/
structure AvgAcc where
  aggvalue : Rat
  aggtimespan : Rat
  previous : Option Reading

/-- One reading of the first loop of mode `avg`: the value of the previous one
holds up to its time. -/
def avgStep (acc : AvgAcc) (it : Node Reading) : AvgAcc :=
  match acc.previous with
  | none => { acc with previous := some it.val }
  | some p =>
    let timespan : Rat := ((it.val.timeMs - p.timeMs : Int) : Rat) / 1000
    ⟨acc.aggvalue + p.value * timespan, acc.aggtimespan + timespan, some it.val⟩

def avgAcc (lastAvg : Option Reading) (l : List (Node Reading)) : AvgAcc :=
  (live l).foldl avgStep ⟨0, 0, lastAvg⟩

/-- What mode `avg` does to the latest reading: without a time span it keeps its
value. -/
def avgKeep (acc : AvgAcc) (r : Reading) : Reading :=
  if 0 < acc.aggtimespan then r.setValue (acc.aggvalue / acc.aggtimespan) else r

/-- The two loops of the buffer's mode. -/
def fold (b : Buffer) : Buffer :=
  match b.aggmode with
  | .none => b
  | .max =>
    { b with sent := settle b.sent (fun r => r.setValue (maxValue b.sent.nodes)) }
  | .sum =>
    { b with sent := settle b.sent (fun r => r.setValue (sumValue b.sent.nodes)) }
  | .avg =>
    { b with
      sent := settle b.sent (avgKeep (avgAcc b.lastAvg b.sent.nodes))
      -- the last value is stored before it is modified
      lastAvg := ((latest b.sent.nodes).map Node.val).or b.lastAvg }

/-- The start of the `aggtime` slot a reading falls into. -/
def slot (aggtime : Int) (r : Reading) : Int := aggtime * ((r.timeMs.tdiv 1000).tdiv aggtime)

/-- The rounding of the times, if `aggFixedInterval` is set. -/
def fixTimes (aggtime : Int) (aggFixedInterval : Bool) (b : Buffer) : Buffer :=
  if aggFixedInterval = true ∧ 0 < aggtime then
    { b with sent := b.sent.mapNodes fun it =>
        if it.val.deleted then it.val else it.val.setTime ⟨slot aggtime it.val, 0⟩ }
  else b

/-- The critical section of `aggregate`, for a mode other than `none`. -/
def aggregatePass (aggtime : Int) (aggFixedInterval : Bool) (b : Buffer) : Buffer :=
  fixTimes aggtime aggFixedInterval b.fold

/-- `Buffer::aggregate`. -/
def aggregate (aggtime : Int) (aggFixedInterval : Bool) (b : Buffer) : Buffer :=
  if b.aggmode = .none then b else (aggregatePass aggtime aggFixedInterval b).clean

/-- Mark the first `k` readings deleted, as the drain loops do. -/
def markFirst (b : Buffer) (k : Nat) : Buffer :=
  { b with sent := b.sent.mapFirst k Reading.markDelete }

/-! ## What the operations do to the list -/

@[simp] theorem push_nodes (b : Buffer) (rd : Reading) :
    (b.push rd).sent.nodes = b.sent.nodes ++ [⟨b.sent.next, rd⟩] := rfl

@[simp] theorem clean_nodes (b : Buffer) : b.clean.sent.nodes = live b.sent.nodes := rfl

@[simp] theorem undelete_nodes (b : Buffer) :
    b.undelete.sent.nodes = b.sent.nodes.map (fun it => ⟨it.addr, it.val.reset⟩) := rfl

@[simp] theorem markFirst_nodes (b : Buffer) (k : Nat) :
    (b.markFirst k).sent.nodes =
      (b.sent.nodes.take k).map (fun it => ⟨it.addr, it.val.markDelete⟩) ++ b.sent.nodes.drop k :=
  rfl

@[simp] theorem push_aggmode (b : Buffer) (rd : Reading) : (b.push rd).aggmode = b.aggmode := rfl
@[simp] theorem clean_aggmode (b : Buffer) : b.clean.aggmode = b.aggmode := rfl
@[simp] theorem push_lastAvg (b : Buffer) (rd : Reading) : (b.push rd).lastAvg = b.lastAvg := rfl
@[simp] theorem clean_lastAvg (b : Buffer) : b.clean.lastAvg = b.lastAvg := rfl

/-- What holds of every reading in the buffer, and of the new one. -/
theorem forall_push {b : Buffer} {rd : Reading} (P : Reading → Prop)
    (hb : ∀ it ∈ b.sent.nodes, P it.val) (hrd : P rd) :
    ∀ it ∈ (b.push rd).sent.nodes, P it.val := by
  intro it hit
  rcases List.mem_append.mp hit with hit | hit
  · exact hb it hit
  · rw [List.mem_singleton.mp hit]
    exact hrd

theorem isEmpty_iff (b : Buffer) : b.isEmpty = true ↔ b.sent.nodes = [] := by
  simp [isEmpty]

/-! ## Undeleted readings -/

theorem mem_live {l : List (Node Reading)} {it : Node Reading} :
    it ∈ live l ↔ it ∈ l ∧ it.val.deleted = false := by
  simp [live]

@[simp] theorem live_nil : live [] = [] := rfl

theorem live_append (l m : List (Node Reading)) : live (l ++ m) = live l ++ live m :=
  List.filter_append ..

theorem live_of_undeleted {l : List (Node Reading)} (h : ∀ it ∈ l, it.val.deleted = false) :
    live l = l :=
  List.filter_eq_self.mpr fun it hit => by simp [h it hit]

theorem live_of_deleted {l : List (Node Reading)} (h : ∀ it ∈ l, it.val.deleted = true) :
    live l = [] :=
  List.filter_eq_nil_iff.mpr fun it hit => by simp [h it hit]

@[simp] theorem live_live (l : List (Node Reading)) : live (live l) = live l :=
  live_of_undeleted fun _ hit => (mem_live.mp hit).2

theorem live_push {b : Buffer} {rd : Reading} (hrd : rd.deleted = false) :
    live (b.push rd).sent.nodes = live b.sent.nodes ++ [⟨b.sent.next, rd⟩] := by
  rw [push_nodes, live_append]
  exact congrArg _ (live_of_undeleted (by simpa using hrd))

theorem live_map_markDelete (l : List (Node Reading)) :
    live (l.map (fun it => ⟨it.addr, it.val.markDelete⟩)) = [] :=
  live_of_deleted fun it hit => by
    obtain ⟨m, -, rfl⟩ := List.mem_map.mp hit
    rfl

theorem clean_undeleted (b : Buffer) : ∀ it ∈ b.clean.sent.nodes, it.val.deleted = false :=
  fun _ hit => (mem_live.mp hit).2

/-- A buffer without marks is left alone by `clean`. -/
theorem clean_of_undeleted {b : Buffer} (h : ∀ it ∈ b.sent.nodes, it.val.deleted = false) :
    b.clean = b := by
  have hsent : b.sent.eraseIf Reading.deleted = b.sent :=
    NodeList.ext (live_of_undeleted h) rfl
  rw [clean, hsent]

/-- Marks on the first `k` readings, cleaned. -/
theorem clean_markFirst_nodes {b : Buffer} (h : ∀ it ∈ b.sent.nodes, it.val.deleted = false)
    (k : Nat) : (b.markFirst k).clean.sent.nodes = b.sent.nodes.drop k := by
  rw [clean_nodes, markFirst_nodes, live_append, live_map_markDelete, List.nil_append]
  exact live_of_undeleted fun it hit => h it (List.mem_of_mem_drop hit)

/-- Marks on the first `k` readings, taken back. -/
theorem undelete_markFirst_nodes {b : Buffer} (h : ∀ it ∈ b.sent.nodes, it.val.deleted = false)
    (k : Nat) : (b.markFirst k).undelete.sent.nodes = b.sent.nodes := by
  have htake : ∀ it ∈ b.sent.nodes.take k,
      (⟨it.addr, it.val.markDelete.reset⟩ : Node Reading) = id it :=
    fun it hit => by rw [Reading.reset_markDelete (h it (List.mem_of_mem_take hit)), id]
  have hdrop : ∀ it ∈ b.sent.nodes.drop k, (⟨it.addr, it.val.reset⟩ : Node Reading) = id it :=
    fun it hit => by rw [Reading.reset_of_undeleted (h it (List.mem_of_mem_drop hit)), id]
  rw [undelete_nodes, markFirst_nodes, List.map_append, List.map_map]
  calc _ = b.sent.nodes.take k ++ b.sent.nodes.drop k :=
        congrArg₂ _ ((List.map_congr_left htake).trans (List.map_id _))
          ((List.map_congr_left hdrop).trans (List.map_id _))
    _ = b.sent.nodes := List.take_append_drop k _

/-! ## Totals -/

/-- The sum of the values. -/
def total (l : List (Node Reading)) : Rat := (l.map (fun it => it.val.value)).sum

@[simp] theorem total_nil : total [] = 0 := rfl

@[simp] theorem total_append (l m : List (Node Reading)) : total (l ++ m) = total l + total m := by
  simp [total]

/-- A push adds its value. -/
theorem total_live_push {b : Buffer} {rd : Reading} (hrd : rd.deleted = false) :
    total (live (b.push rd).sent.nodes) = total (live b.sent.nodes) + rd.value := by
  rw [live_push hrd, total_append]
  simp [total]

@[simp] theorem total_cons (it : Node Reading) (l : List (Node Reading)) :
    total (it :: l) = it.val.value + total l := by
  simp [total]

theorem total_filter_add (p : Node Reading → Bool) (l : List (Node Reading)) :
    total (l.filter p) + total (l.filter (fun it => !p it)) = total l := by
  induction l with
  | nil => simp
  | cons it l ih => cases h : p it <;> simp [h, ← ih] <;> ring

theorem sumValue_eq_total (l : List (Node Reading)) : sumValue l = total (live l) := by
  rw [sumValue, total, List.sum_eq_foldl, List.foldl_map]

/-! ## The latest reading -/

theorem foldl_latestStep_some (l : List (Node Reading)) (it : Node Reading) :
    ∃ m, l.foldl latestStep (some it) = some m ∧ (m = it ∨ m ∈ l) ∧
      it.val.timeMs ≤ m.val.timeMs ∧ ∀ n ∈ l, n.val.timeMs ≤ m.val.timeMs := by
  induction l generalizing it with
  | nil => exact ⟨it, rfl, Or.inl rfl, Int.le_refl _, by simp⟩
  | cons n l ih =>
    rw [List.foldl_cons]
    by_cases h : it.val.timeMs < n.val.timeMs
    · -- a later reading takes over, one at the same time does not
      rw [show latestStep (some it) n = some n from if_pos h]
      obtain ⟨m, hm, hmem, hle, hall⟩ := ih n
      refine ⟨m, hm, ?_, by omega, ?_⟩
      · rcases hmem with rfl | hmem
        · exact Or.inr List.mem_cons_self
        · exact Or.inr (List.mem_cons_of_mem _ hmem)
      · intro k hk
        rcases List.mem_cons.mp hk with rfl | hk
        · exact hle
        · exact hall k hk
    · rw [show latestStep (some it) n = some it from if_neg h]
      obtain ⟨m, hm, hmem, hle, hall⟩ := ih it
      refine ⟨m, hm, hmem.imp_right (List.mem_cons_of_mem _), hle, ?_⟩
      intro k hk
      rcases List.mem_cons.mp hk with rfl | hk
      · omega
      · exact hall k hk

theorem latest_eq_none {l : List (Node Reading)} : latest l = none ↔ live l = [] := by
  unfold latest
  cases live l with
  | nil => simp
  | cons it rest =>
    obtain ⟨m, hm, -⟩ := foldl_latestStep_some rest it
    rw [List.foldl_cons, show latestStep none it = some it from rfl, hm]
    simp

/-- The latest reading is an undeleted one of greatest time. -/
theorem latest_spec {l : List (Node Reading)} {m : Node Reading} (h : latest l = some m) :
    m ∈ live l ∧ ∀ n ∈ live l, n.val.timeMs ≤ m.val.timeMs := by
  unfold latest at h
  cases hl : live l with
  | nil => rw [hl] at h; cases h
  | cons it rest =>
    rw [hl, List.foldl_cons, show latestStep none it = some it from rfl] at h
    obtain ⟨m', hm', hmem, hle, hall⟩ := foldl_latestStep_some rest it
    obtain rfl : m' = m := Option.some.inj (hm'.symm.trans h)
    refine ⟨List.mem_cons.mpr hmem, ?_⟩
    intro n hn
    rcases List.mem_cons.mp hn with rfl | hn
    · exact hle
    · exact hall n hn

theorem latest_push {b : Buffer} {rd : Reading} (hrd : rd.deleted = false) :
    latest (b.push rd).sent.nodes = latestStep (latest b.sent.nodes) ⟨b.sent.next, rd⟩ := by
  rw [latest, live_push hrd, List.foldl_append]
  rfl

/-- With increasing times, the latest reading is the last one. -/
theorem latest_append_singleton {l : List (Node Reading)} {it : Node Reading}
    (hit : it.val.deleted = false) (h : ∀ n ∈ live l, n.val.timeMs < it.val.timeMs) :
    latest (l ++ [it]) = some it := by
  have hlive : live (l ++ [it]) = live l ++ [it] := by
    rw [live_append, live_of_undeleted (l := [it]) (by simpa using hit)]
  have hne : latest (l ++ [it]) ≠ none := by
    rw [Ne, latest_eq_none, hlive]
    simp
  obtain ⟨m, hm⟩ := Option.ne_none_iff_exists'.mp hne
  obtain ⟨hmem, hmax⟩ := latest_spec hm
  rw [hlive] at hmem hmax
  rcases List.mem_append.mp hmem with hl | hl
  · have h1 := h m hl
    have h2 := hmax it (by simp)
    omega
  · rw [hm, List.mem_singleton.mp hl]

/-! ## What a pass leaves undeleted -/

/-- One list is another one with some unmarked readings changed in place. -/
def InPlace (l m : NodeList Reading) : Prop :=
  ∃ f : Node Reading → Reading, m = l.mapNodes f ∧ ∀ it, it.val.deleted = true → f it = it.val

theorem InPlace.refl (l : NodeList Reading) : InPlace l l :=
  ⟨Node.val, NodeList.ext (by simp) rfl, fun _ _ => rfl⟩

theorem InPlace.trans {l m n : NodeList Reading} (hlm : InPlace l m) (hmn : InPlace m n) :
    InPlace l n := by
  obtain ⟨f, rfl, hf⟩ := hlm
  obtain ⟨g, rfl, hg⟩ := hmn
  refine ⟨fun it => g ⟨it.addr, f it⟩, NodeList.mapNodes_mapNodes l f g, fun it hd => ?_⟩
  have hfd : (f it).deleted = true := by rw [hf it hd]; exact hd
  exact (hg ⟨it.addr, f it⟩ hfd).trans (hf it hd)

theorem inPlace_settle (sent : NodeList Reading) (keep : Reading → Reading) :
    InPlace sent (settle sent keep) :=
  ⟨_, rfl, fun _ hd => if_pos hd⟩

theorem inPlace_fold (b : Buffer) : InPlace b.sent b.fold.sent := by
  unfold fold
  cases b.aggmode with
  | none => exact InPlace.refl b.sent
  | max => exact inPlace_settle b.sent fun r => r.setValue (maxValue b.sent.nodes)
  | avg => exact inPlace_settle b.sent (avgKeep (avgAcc b.lastAvg b.sent.nodes))
  | sum => exact inPlace_settle b.sent fun r => r.setValue (sumValue b.sent.nodes)

/-- A pass changes readings in place, and none that is marked. -/
theorem inPlace_aggregatePass (aggtime : Int) (aggFixedInterval : Bool) (b : Buffer) :
    InPlace b.sent (aggregatePass aggtime aggFixedInterval b).sent := by
  unfold aggregatePass fixTimes
  split
  · exact (inPlace_fold b).trans ⟨_, rfl, fun _ hd => if_pos hd⟩
  · exact inPlace_fold b

theorem settle_of_live_nil {sent : NodeList Reading} (h : live sent.nodes = [])
    (keep : Reading → Reading) : settle sent keep = sent := by
  refine NodeList.ext ?_ rfl
  rw [settle, NodeList.mapNodes_nodes]
  conv_rhs => rw [← List.map_id sent.nodes]
  refine List.map_congr_left fun it hit => ?_
  have hdel : it.val.deleted = true := by
    by_contra hd
    have : it ∈ live sent.nodes := mem_live.mpr ⟨hit, by simpa using hd⟩
    rw [h] at this
    cases this
  simp [hdel]

/-- **One survivor.**  A pass over a list with undeleted readings leaves the
latest of them, changed by `keep`, and marks the rest. -/
theorem live_settle {sent : NodeList Reading} {m : Node Reading} (h : latest sent.nodes = some m)
    {keep : Reading → Reading} (hkeep : (keep m.val).deleted = false) :
    live (settle sent keep).nodes = [⟨m.addr, keep m.val⟩] := by
  have hm := mem_live.mp (latest_spec h).1
  rw [settle, NodeList.mapNodes_nodes, h]
  -- away from `m`, every node comes out deleted
  have hout : ∀ l : List (Node Reading), (∀ it ∈ l, it ∈ sent.nodes) → m ∉ l →
      live (l.map fun it => ⟨it.addr, if it.val.deleted then it.val
        else if (some m).map Node.addr = some it.addr then keep it.val
        else it.val.markDelete⟩) = [] := by
    intro l hl hml
    refine live_of_deleted fun it hit => ?_
    obtain ⟨n, hn, rfl⟩ := List.mem_map.mp hit
    have hne : m.addr ≠ n.addr := fun he =>
      hml (sent.eq_of_addr hm.1 (hl n hn) he ▸ hn)
    cases hd : n.val.deleted <;> simp [hd, hne]
  obtain ⟨pre, post, hsplit⟩ := List.append_of_mem hm.1
  have hnd : sent.nodes.Nodup := List.Nodup.of_map _ sent.nodup
  rw [hsplit] at hnd
  obtain ⟨-, hpost, hdisj⟩ := List.nodup_append.mp hnd
  have hpre : m ∉ pre := fun hp => hdisj m hp m List.mem_cons_self rfl
  have hpost := (List.nodup_cons.mp hpost).1
  have hsub : ∀ it, it ∈ pre ∨ it ∈ post → it ∈ sent.nodes := by
    intro it hit
    rw [hsplit, List.mem_append, List.mem_cons]
    tauto
  rw [hsplit, ← List.singleton_append, List.map_append, List.map_append, live_append, live_append,
    hout pre (fun it hit => hsub it (Or.inl hit)) hpre,
    hout post (fun it hit => hsub it (Or.inr hit)) hpost, List.append_nil, List.nil_append]
  simp only [List.map_cons, List.map_nil, hm.2, Option.map_some, if_true, Bool.false_eq_true,
    if_false]
  exact live_of_undeleted (by simpa using hkeep)

/-- A pass leaves at most one reading undeleted. -/
theorem length_live_settle (sent : NodeList Reading) {keep : Reading → Reading}
    (hkeep : ∀ r, (keep r).deleted = r.deleted) : (live (settle sent keep).nodes).length ≤ 1 := by
  cases hl : latest sent.nodes with
  | none =>
    have hnil := latest_eq_none.mp hl
    rw [settle_of_live_nil hnil, hnil]
    exact Nat.zero_le 1
  | some m =>
    rw [live_settle hl ((hkeep m.val).trans (mem_live.mp (latest_spec hl).1).2)]
    exact Nat.le_refl 1

/-- What the rounding does to an undeleted reading. -/
def fixTime (aggtime : Int) (aggFixedInterval : Bool) (r : Reading) : Reading :=
  if aggFixedInterval = true ∧ 0 < aggtime then r.setTime ⟨slot aggtime r, 0⟩ else r

@[simp] theorem fixTime_value (aggtime : Int) (aggFixedInterval : Bool) (r : Reading) :
    (fixTime aggtime aggFixedInterval r).value = r.value := by
  unfold fixTime
  split <;> rfl

@[simp] theorem fixTime_deleted (aggtime : Int) (aggFixedInterval : Bool) (r : Reading) :
    (fixTime aggtime aggFixedInterval r).deleted = r.deleted := by
  unfold fixTime
  split <;> rfl

/-- The rounding changes the times of the undeleted readings, and nothing else. -/
theorem live_fixTimes (aggtime : Int) (aggFixedInterval : Bool) (b : Buffer) :
    live (b.fixTimes aggtime aggFixedInterval).sent.nodes =
      (live b.sent.nodes).map fun it => ⟨it.addr, fixTime aggtime aggFixedInterval it.val⟩ := by
  unfold fixTimes fixTime
  split
  · rw [NodeList.mapNodes_nodes]
    induction b.sent.nodes with
    | nil => rfl
    | cons it l ih => cases hd : it.val.deleted <;> simpa [live, hd] using ih
  · exact (List.map_id _).symm

/-- A pass of mode `sum` keeps the total of the undeleted values. -/
theorem total_live_fold {b : Buffer} (h : b.aggmode = .sum) :
    total (live b.fold.sent.nodes) = total (live b.sent.nodes) := by
  have hfold : b.fold.sent = settle b.sent (fun r => r.setValue (sumValue b.sent.nodes)) := by
    rw [fold, h]
  rw [hfold]
  cases hl : latest b.sent.nodes with
  | none => rw [settle_of_live_nil (latest_eq_none.mp hl)]
  | some m =>
    have hm := mem_live.mp (latest_spec hl).1
    rw [live_settle hl (by simpa using hm.2), total_cons, Reading.setValue_value, total_nil,
      add_zero, sumValue_eq_total]

theorem markFirst_times (b : Buffer) (k : Nat) :
    (b.markFirst k).sent.nodes.map (fun it => it.val.timeMs) =
      b.sent.nodes.map (fun it => it.val.timeMs) := by
  rw [markFirst_nodes, List.map_append, List.map_map]
  conv_rhs => rw [← List.take_append_drop k b.sent.nodes, List.map_append]
  rfl

/-- Times of a list after a pass without rounding. -/
theorem fold_times (b : Buffer) :
    b.fold.sent.nodes.map (fun it => it.val.timeMs) =
      b.sent.nodes.map (fun it => it.val.timeMs) := by
  have hsettle (keep : Reading → Reading) (hkeep : ∀ r, (keep r).timeMs = r.timeMs) :
      (settle b.sent keep).nodes.map (fun it => it.val.timeMs) =
        b.sent.nodes.map (fun it => it.val.timeMs) := by
    rw [settle, NodeList.mapNodes_nodes, List.map_map]
    refine List.map_congr_left fun it _ => ?_
    dsimp only [Function.comp]
    split
    · rfl
    · split
      · exact hkeep _
      · rfl
  unfold fold
  cases b.aggmode with
  | none => rfl
  | max => exact hsettle _ fun _ => rfl
  | avg =>
    refine hsettle _ fun r => ?_
    unfold avgKeep
    split <;> rfl
  | sum => exact hsettle _ fun _ => rfl

theorem aggregate_undeleted {b : Buffer} (h : b.aggmode ≠ .none) (aggtime : Int)
    (aggFixedInterval : Bool) :
    ∀ it ∈ (b.aggregate aggtime aggFixedInterval).sent.nodes, it.val.deleted = false := by
  rw [aggregate, if_neg h]
  exact clean_undeleted _

@[simp] theorem aggregate_aggmode (b : Buffer) (aggtime : Int) (aggFixedInterval : Bool) :
    (b.aggregate aggtime aggFixedInterval).aggmode = b.aggmode := by
  unfold aggregate aggregatePass fixTimes fold
  repeat' split
  all_goals simp_all

/-- **An aggregation of mode `sum`.**  One reading at most is left, with the total
of them all. -/
theorem aggregate_sum {b : Buffer} (h : b.aggmode = .sum) (aggtime : Int)
    (aggFixedInterval : Bool) :
    (b.aggregate aggtime aggFixedInterval).sent.nodes.length ≤ 1 ∧
      total (b.aggregate aggtime aggFixedInterval).sent.nodes = total (live b.sent.nodes) := by
  have hnodes : (b.aggregate aggtime aggFixedInterval).sent.nodes =
      live (b.fold.fixTimes aggtime aggFixedInterval).sent.nodes := by
    rw [aggregate, if_neg (by rw [h]; decide), clean_nodes, aggregatePass]
  have hfold : b.fold.sent = settle b.sent (fun r => r.setValue (sumValue b.sent.nodes)) := by
    rw [fold, h]
  rw [hnodes, live_fixTimes]
  constructor
  · rw [List.length_map, hfold]
    exact length_live_settle b.sent fun _ => rfl
  · rw [← total_live_fold h, total, total, List.map_map]
    exact congrArg List.sum (List.map_congr_left fun it _ => fixTime_value _ _ it.val)

end Buffer
end VzLogger
