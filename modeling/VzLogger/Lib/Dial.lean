import Mathlib.Algebra.Order.Round
import Mathlib.Algebra.Order.Field.Basic
import Mathlib.Data.Rat.Floor
import Mathlib.Tactic.FieldSimp
import Mathlib.Tactic.Linarith
import Mathlib.Tactic.Ring

/-! # Positions on a dial

A dial has a circumference `p`: positions that differ by a multiple of it are the
same.  `wrap` is the position between zero and `p`, `dist` how far a position is from
zero, whichever way is shorter.
-/
namespace Dial
variable {α : Type} [Field α] [LinearOrder α] [IsStrictOrderedRing α] [FloorRing α]

/-- `x` modulo `p`. -/
def wrap (p x : α) : α := p * Int.fract (x / p)

/-- The distance to the nearest multiple of `p`. -/
def dist (p x : α) : α := |x - p * round (x / p)|

section
variable {p x r : α} (hp : 0 < p)
include hp

theorem wrap_nonneg (x : α) : 0 ≤ wrap p x := mul_nonneg hp.le (Int.fract_nonneg _)

theorem wrap_lt (x : α) : wrap p x < p := by
  have h := mul_lt_mul_of_pos_left (Int.fract_lt_one (x / p)) hp
  rwa [mul_one] at h

theorem wrap_add_mul (x : α) (n : Int) : wrap p (x + p * n) = wrap p x := by
  have hdiv : (x + p * n) / p = x / p + n := by
    field_simp
  rw [wrap, hdiv, Int.fract_add_intCast, ← wrap]

theorem wrap_of_mem (h0 : 0 ≤ x) (h : x < p) : wrap p x = x := by
  have hfract : Int.fract (x / p) = x / p :=
    Int.fract_eq_self.mpr ⟨div_nonneg h0 hp.le, (div_lt_one hp).mpr h⟩
  rw [wrap, hfract, mul_div_cancel₀ _ hp.ne']

/-- The only position between zero and `p`. -/
theorem wrap_eq_iff {y : α} : wrap p x = y ↔ 0 ≤ y ∧ y < p ∧ ∃ n : Int, x = y + p * n := by
  constructor
  · rintro rfl
    refine ⟨wrap_nonneg hp x, wrap_lt hp x, ⌊x / p⌋, ?_⟩
    rw [wrap, Int.fract, mul_sub, mul_div_cancel₀ _ hp.ne']
    ring
  · rintro ⟨h0, h, n, rfl⟩
    rw [wrap_add_mul hp, wrap_of_mem hp h0 h]

theorem dist_le_iff : dist p x ≤ r ↔ ∃ n : Int, |x - p * n| ≤ r := by
  constructor
  · exact fun h => ⟨_, h⟩
  · rintro ⟨n, hn⟩
    have hround := mul_le_mul_of_nonneg_left (round_le (x / p) n) hp.le
    have hmul : ∀ m : Int, p * |x / p - m| = |x - p * m| := by
      intro m
      rw [← abs_of_pos hp, ← abs_mul, abs_of_pos hp, mul_sub, mul_div_cancel₀ _ hp.ne']
    rw [hmul, hmul] at hround
    exact hround.trans hn

theorem dist_lt_iff : dist p x < r ↔ ∃ n : Int, |x - p * n| < r := by
  constructor
  · exact fun h => ⟨_, h⟩
  · rintro ⟨n, hn⟩
    exact lt_of_le_of_lt ((dist_le_iff hp).mpr ⟨n, le_refl _⟩) hn

/-- Whole turns do not matter. -/
theorem dist_le_add_mul (n : Int) : dist p (x + p * n) ≤ r ↔ dist p x ≤ r := by
  rw [dist_le_iff hp, dist_le_iff hp]
  constructor
  · rintro ⟨m, hm⟩
    refine ⟨m - n, ?_⟩
    have hsame : x - p * ((m - n : Int) : α) = x + p * n - p * m := by
      push_cast
      ring
    rw [hsame]
    exact hm
  · rintro ⟨m, hm⟩
    refine ⟨m + n, ?_⟩
    have hsame : x + p * n - p * ((m + n : Int) : α) = x - p * m := by
      push_cast
      ring
    rw [hsame]
    exact hm

theorem dist_le_neg : dist p (-x) ≤ r ↔ dist p x ≤ r := by
  rw [dist_le_iff hp, dist_le_iff hp]
  have hsame : ∀ (y : α) (n : Int), |-y - p * ((-n : Int) : α)| = |y - p * n| := by
    intro y n
    rw [← abs_neg]
    push_cast
    congr 1
    ring
  constructor
  · rintro ⟨n, hn⟩
    refine ⟨-n, ?_⟩
    have h := hsame (-x) n
    rw [neg_neg] at h
    rw [h]
    exact hn
  · rintro ⟨n, hn⟩
    refine ⟨-n, ?_⟩
    rw [hsame]
    exact hn

end
end Dial
