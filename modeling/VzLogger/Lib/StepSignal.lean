import Mathlib.MeasureTheory.Integral.IntervalIntegral.Basic

/-! # Step signals

A signal that is sampled now and then, and keeps the value of a sample until the
next one (`hold`).  Its integral from one sample to a later one is a finite sum
(`area`): each value times the time it held.
-/
namespace StepSignal

structure Sample where
  time : ℝ
  value : ℝ

/-- The signal: the value of the last sample taken at or before a time. -/
noncomputable def hold (s : List Sample) (t : ℝ) : ℝ :=
  s.foldl (fun v p => if p.time ≤ t then p.value else v) 0

/-- Each value times the time it held. -/
noncomputable def area : List Sample → ℝ
  | p :: q :: rest => p.value * (q.time - p.time) + area (q :: rest)
  | _ => 0

@[simp] theorem area_singleton (p : Sample) : area [p] = 0 := rfl

theorem area_cons_cons (p q : Sample) (rest : List Sample) :
    area (p :: q :: rest) = p.value * (q.time - p.time) + area (q :: rest) := rfl

/-- The samples are in order. -/
def Ordered (s : List Sample) : Prop := (s.map Sample.time).Pairwise (· < ·)

theorem Ordered.append {s l : List Sample} (h : Ordered (s ++ l)) :
    Ordered s ∧ Ordered l ∧ ∀ p ∈ s, ∀ q ∈ l, p.time < q.time := by
  rw [Ordered, List.map_append, List.pairwise_append] at h
  refine ⟨h.1, h.2.1, fun p hp q hq => ?_⟩
  exact h.2.2 _ (List.mem_map_of_mem hp) _ (List.mem_map_of_mem hq)

/-- Later samples do not matter yet. -/
theorem foldl_later {l : List Sample} {t v : ℝ} (h : ∀ p ∈ l, t < p.time) :
    l.foldl (fun v p => if p.time ≤ t then p.value else v) v = v := by
  induction l with
  | nil => rfl
  | cons p l ih =>
    rw [List.foldl_cons, if_neg (not_le.mpr (h p List.mem_cons_self))]
    exact ih fun q hq => h q (List.mem_cons_of_mem _ hq)

/-- Between two neighbours the signal is the value of the first. -/
theorem hold_between {pre post : List Sample} {p q : Sample} {t : ℝ}
    (h : Ordered (pre ++ p :: q :: post)) (hp : p.time ≤ t) (hq : t < q.time) :
    hold (pre ++ p :: q :: post) t = p.value := by
  obtain ⟨-, h, -⟩ := h.append
  have hrest := List.pairwise_cons.mp (List.pairwise_cons.mp h).2
  have hlater : ∀ r ∈ q :: post, t < r.time := by
    intro r hr
    rcases List.mem_cons.mp hr with rfl | hr
    · exact hq
    · exact lt_trans hq (hrest.1 _ (List.mem_map_of_mem hr))
  rw [hold, List.foldl_append, List.foldl_cons, if_pos hp]
  exact foldl_later hlater

/-! ## Samples left out -/

/-- `t` is `s` without some samples that only repeat the value held before them;
`v` is the value held at the start. -/
inductive Thins : ℝ → List Sample → List Sample → Prop where
  | nil {v : ℝ} : Thins v [] []
  | keep {v : ℝ} {p : Sample} {s t : List Sample} : Thins p.value s t → Thins v (p :: s) (p :: t)
  | drop {v : ℝ} {p : Sample} {s t : List Sample} :
    p.value = v → Thins v s t → Thins v (p :: s) t

theorem Thins.sublist {v : ℝ} {s t : List Sample} (h : Thins v s t) : t.Sublist s := by
  induction h with
  | nil => exact List.Sublist.refl _
  | keep _ ih => exact ih.cons_cons _
  | drop _ _ ih => exact ih.cons _

/-- Samples that repeat the value held do not change the signal. -/
theorem Thins.foldl_eq {v : ℝ} {s t : List Sample} (h : Thins v s t) (hs : Ordered s) (τ : ℝ) :
    t.foldl (fun v p => if p.time ≤ τ then p.value else v) v =
      s.foldl (fun v p => if p.time ≤ τ then p.value else v) v := by
  induction h with
  | nil => rfl
  | @keep v p s t hthins ih =>
    obtain ⟨hlt, hs⟩ := List.pairwise_cons.mp hs
    rw [List.foldl_cons, List.foldl_cons]
    by_cases hp : p.time ≤ τ
    · rw [if_pos hp]
      exact ih hs
    · -- all that follows is later still
      have hlater : ∀ q ∈ s, τ < q.time := fun q hq =>
        lt_trans (not_le.mp hp) (hlt _ (List.mem_map_of_mem hq))
      have hlater' : ∀ q ∈ t, τ < q.time := fun q hq => hlater q (hthins.sublist.subset hq)
      rw [if_neg hp, foldl_later hlater, foldl_later hlater']
  | @drop v p s t hp hthins ih =>
    rw [List.foldl_cons, hp, ite_self]
    exact ih (List.pairwise_cons.mp hs).2

/-- **The integral of a step signal**, from a sample to any later one. -/
theorem integral_hold {pre post : List Sample} {p : Sample} {rest : List Sample}
    (h : Ordered (pre ++ p :: (rest ++ post))) :
    let last := ((p :: rest).getLast (List.cons_ne_nil p rest)).time
    IntervalIntegrable (hold (pre ++ p :: (rest ++ post))) MeasureTheory.volume p.time last ∧
      ∫ t in p.time..last, hold (pre ++ p :: (rest ++ post)) t = area (p :: rest) := by
  induction rest generalizing pre p with
  | nil => exact ⟨IntervalIntegrable.refl, intervalIntegral.integral_same⟩
  | cons q rest ih =>
    have hshift : pre ++ p :: (q :: rest ++ post) = pre ++ [p] ++ q :: (rest ++ post) := by simp
    obtain ⟨hint, hval⟩ := ih (hshift ▸ h)
    rw [← hshift] at hint hval
    have hle : p.time ≤ q.time := by
      obtain ⟨-, h, -⟩ := h.append
      exact le_of_lt ((List.pairwise_cons.mp h).1 _ List.mem_cons_self)
    have hconst : Set.EqOn (fun _ => p.value) (hold (pre ++ p :: (q :: rest ++ post)))
        (Set.Ioo p.time q.time) := fun t ht => (hold_between h (le_of_lt ht.1) ht.2).symm
    have hint' : IntervalIntegrable (hold (pre ++ p :: (q :: rest ++ post)))
        MeasureTheory.volume p.time q.time :=
      intervalIntegrable_const.congr_uIoo (Set.uIoo_of_le hle ▸ hconst)
    have hval' : ∫ t in p.time..q.time, hold (pre ++ p :: (q :: rest ++ post)) t =
        p.value * (q.time - p.time) := by
      rw [← intervalIntegral.integral_congr_Ioo_of_le hle hconst, intervalIntegral.integral_const,
        smul_eq_mul, mul_comm]
    dsimp only
    rw [List.getLast_cons_cons]
    refine ⟨hint'.trans hint, ?_⟩
    rw [← intervalIntegral.integral_add_adjacent_intervals hint' hint, hval', hval, area_cons_cons]

end StepSignal
