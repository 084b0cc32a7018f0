import VzLogger.Lib.CString
import Mathlib.Algebra.Order.Round
import Mathlib.Data.Int.Log

/-! # Rounding of numbers

`lrint` and the conversion of a `double` to an integer, on exact rationals.  What
`lrint` returns where the integer is no `long` is unspecified in C, and a parameter
here; the conversion is the integer.  `abs` of the least `int`, which has no positive,
is that `int`.  `toDouble` is the nearest `double`, of those in the normal range.
-/
namespace CMath

/-- To the nearest integer, to the even one half-way between two. -/
def rint (x : Rat) : Int :=
  if x < 0 then -(Decimal.roundHalfEven (-x) : Int) else Decimal.roundHalfEven x

/-- `lrint`, with a result of 64 bits. -/
def lrint (beyond : Rat → Int) (x : Rat) : Int :=
  if -2 ^ 63 ≤ rint x ∧ rint x < 2 ^ 63 then rint x else beyond x

/-- The integer part, towards zero. -/
def trunc (x : Rat) : Int := if x < 0 then ⌈x⌉ else ⌊x⌋

/-- To a number of 53 bits, the nearest one. -/
def toDouble (x : Rat) : Rat :=
  let ulp : Rat := 2 ^ (Int.log 2 |x| - 52)
  rint (x / ulp) * ulp

/-- `abs` of an `int`. -/
def abs (n : Int) : Int := CString.toInt (n.natAbs : Int)

theorem trunc_of_nonneg {x : Rat} (hx : 0 ≤ x) : trunc x = ⌊x⌋ := if_neg (not_lt.mpr hx)

theorem abs_of_mem {n : Int} (hlo : -2 ^ 31 < n) (hhi : n < 2 ^ 31) : abs n = |n| := by
  rw [abs, CString.toInt_of_mem (by omega) (by omega), Int.natCast_natAbs]

@[simp] theorem rint_intCast (n : Int) : rint n = n := by
  unfold rint
  split
  · rename_i hneg
    have hneg : n < 0 := by exact_mod_cast hneg
    have hcast : (-(n : Rat)) = ((-n).toNat : Rat) := by
      have : ((-n).toNat : Int) = -n := Int.toNat_of_nonneg (by omega)
      rw [← Int.cast_natCast, this, Int.cast_neg]
    rw [hcast, Decimal.roundHalfEven_natCast]
    omega
  · rename_i hpos
    have hpos : 0 ≤ n := by exact_mod_cast not_lt.mp hpos
    have hcast : (n : Rat) = (n.toNat : Rat) := by
      have : (n.toNat : Int) = n := Int.toNat_of_nonneg hpos
      rw [← Int.cast_natCast, this]
    rw [hcast, Decimal.roundHalfEven_natCast]
    omega

theorem rint_neg (x : Rat) : rint (-x) = -rint x := by
  rcases lt_trichotomy x 0 with hx | rfl | hx
  · rw [rint, rint, if_pos hx, if_neg (by linarith), Int.neg_neg]
  · have hzero : rint 0 = 0 := by exact_mod_cast rint_intCast 0
    rw [neg_zero, hzero, neg_zero]
  · rw [rint, rint, if_pos (by linarith), if_neg (by linarith), neg_neg]

theorem lrint_of_abs_lt {x : Rat} (h : |rint x| < 2 ^ 63) (beyond : Rat → Int) :
    lrint beyond x = rint x :=
  if_pos ⟨(neg_lt_of_abs_lt h).le, lt_of_abs_lt h⟩

/-- What is no `long`, in one direction or the other. -/
theorem lrint_of_le_abs {x : Rat} (h : 2 ^ 63 ≤ |rint x|) :
    (∀ beyond, lrint beyond x = beyond x) ∨ ∀ beyond, lrint beyond (-x) = beyond (-x) := by
  rcases le_abs.mp h with hpos | hneg
  · exact Or.inl fun beyond => if_neg (by omega)
  · right
    intro beyond
    refine if_neg ?_
    rw [rint_neg]
    omega

end CMath
