import Mathlib.Data.Rat.Floor
import Mathlib.Tactic.FieldSimp
import Mathlib.Tactic.Linarith
import Mathlib.Tactic.Ring

/-! # Decimal text

Printing of integers and of rationals with a fixed number of decimals, as the C
library prints them, and what the printed digits read as.  Core's `Nat.toDigits`
and `Nat.ofDigitChars` do the work on natural numbers.
-/
namespace Decimal

/-- The decimal digits of a natural number. -/
def ofNat (n : Nat) : List Char := Nat.toDigits 10 n

/-- The decimal text of an integer (`%d`, `std::to_string`). -/
def ofInt (i : Int) : List Char :=
  if i < 0 then '-' :: ofNat i.natAbs else ofNat i.natAbs

/-- The natural number a digit string denotes. -/
def toNat (ds : List Char) : Nat := Nat.ofDigitChars 10 ds 0

/-- A non-negative rational rounded to the nearest integer, to the even one
half-way between two. -/
def roundHalfEven (q : Rat) : Nat :=
  let n := q.floor.toNat
  let r := q - n
  if r < 1 / 2 then n
  else if 1 / 2 < r then n + 1
  else if n % 2 = 0 then n else n + 1

/-- The text of a rational with `k` decimals (`%.kf`). -/
def ofRat (k : Nat) (q : Rat) : List Char :=
  let n := roundHalfEven (|q| * 10 ^ k)
  (if q < 0 then ['-'] else []) ++ ofNat (n / 10 ^ k) ++
    '.' :: List.leftpad k '0' (ofNat (n % 10 ^ k))

/-- The number that the text of a rational with `k` decimals shows. -/
def rounded (k : Nat) (q : Rat) : Rat :=
  let r : Rat := roundHalfEven (|q| * 10 ^ k) / 10 ^ k
  if q < 0 then -r else r

/-! ## What the digits read as -/

@[simp] theorem toNat_ofNat (n : Nat) : toNat (ofNat n) = n := Nat.ofDigitChars_ten_toDigits

theorem ofNat_ne_nil (n : Nat) : ofNat n ≠ [] := Nat.toDigits_ne_nil

theorem isDigit_of_mem_ofNat {n : Nat} {c : Char} (h : c ∈ ofNat n) : c.isDigit = true :=
  Nat.isDigit_of_mem_toDigits (by decide) (by decide) h

theorem toNat_leftpad (k : Nat) (ds : List Char) : toNat (List.leftpad k '0' ds) = toNat ds := by
  simp only [toNat, List.leftpad]
  rw [Nat.ofDigitChars_append, Nat.ofDigitChars_replicate_zero, Nat.mul_zero]

theorem isDigit_of_mem_leftpad {k : Nat} {ds : List Char} (hds : ∀ c ∈ ds, c.isDigit = true)
    {c : Char} (h : c ∈ List.leftpad k '0' ds) : c.isDigit = true := by
  rcases List.mem_append.mp h with h | h
  · rw [List.eq_of_mem_replicate h]
    rfl
  · exact hds c h

/-- A decimal without leading zero: `0` is its own text, and no longer text
starts with `0`. -/
theorem ofNat_head (n : Nat) : ofNat n = ['0'] ∨ (ofNat n).head? ≠ some '0' := by
  induction n using Nat.strong_induction_on with
  | _ n ih =>
    unfold ofNat at ih ⊢
    rw [Nat.toDigits_eq_if (by decide)]
    by_cases h : n < 10
    · rw [if_pos h]
      have hdigit : ∀ m < 10, m = 0 ∨ Nat.digitChar m ≠ '0' := by decide
      rcases hdigit n h with rfl | hn
      · left; rfl
      · right; simpa using hn
    · rw [if_neg h]
      right
      have hne : Nat.toDigits 10 (n / 10) ≠ [] := Nat.toDigits_ne_nil
      rw [List.head?_append_of_ne_nil _ hne]
      rcases ih (n / 10) (by omega) with h0 | h0
      · have : n / 10 = 0 := by
          have := congrArg toNat h0
          rw [show toNat (Nat.toDigits 10 (n / 10)) = n / 10 from toNat_ofNat _] at this
          exact this
        omega
      · exact h0

/-- The decimals of a number below `10 ^ k` fill exactly `k` places. -/
theorem length_leftpad_ofNat {k n : Nat} (hk : 0 < k) (hn : n < 10 ^ k) :
    (List.leftpad k '0' (ofNat n)).length = k := by
  have h : (ofNat n).length ≤ k := (Nat.length_toDigits_le_iff (by decide) hk).mpr hn
  rw [List.leftpad, List.length_append, List.length_replicate]
  omega

theorem roundHalfEven_natCast (n : Nat) : roundHalfEven (n : Rat) = n := by
  have hfloor : (n : Rat).floor.toNat = n := by
    rw [show ((n : Rat)) = ((n : Int) : Rat) by norm_cast, Rat.floor_intCast]
    simp
  simp [roundHalfEven, hfloor]

/-- A multiple of `10 ^ -k` is printed digit for digit. -/
theorem roundHalfEven_scaled {k : Nat} {q : Rat} {m : Int} (hq : q = m / 10 ^ k) :
    roundHalfEven (|q| * 10 ^ k) = m.natAbs := by
  have hk : (10 : Rat) ^ k ≠ 0 := by positivity
  have habs : |q| * 10 ^ k = (m.natAbs : Rat) := by
    rw [hq, abs_div, abs_of_pos (by positivity : (0 : Rat) < 10 ^ k), div_mul_cancel₀ _ hk]
    simp
  rw [habs, roundHalfEven_natCast]

theorem rounded_scaled {k : Nat} {q : Rat} {m : Int} (hq : q = m / 10 ^ k) : rounded k q = q := by
  have habs : |q| = (m.natAbs : Rat) / 10 ^ k := by
    rw [hq, abs_div, abs_of_pos (by positivity : (0 : Rat) < 10 ^ k)]
    simp
  unfold rounded
  rw [roundHalfEven_scaled hq, ← habs]
  by_cases hneg : q < 0
  · rw [if_pos hneg, abs_of_neg hneg, neg_neg]
  · rw [if_neg hneg, abs_of_nonneg (not_lt.mp hneg)]

end Decimal
