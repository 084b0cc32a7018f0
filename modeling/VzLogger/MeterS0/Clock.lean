import VzLogger.MeterS0.Model
import Mathlib.Tactic.Linarith
import Mathlib.Tactic.Positivity

/-! # Times in nanoseconds

What the functions on `struct timespec` do to the time in nanoseconds, for values as
`clock_gettime` returns them.
-/
namespace VzLogger.Timespec

def ns (a : Timespec) : Int := a.tvSec * 1000000000 + a.tvNsec

/-- `tv_nsec` is below a second, as in everything that the clock returns. -/
def Valid (a : Timespec) : Prop := 0 ≤ a.tvNsec ∧ a.tvNsec < 1000000000

/-- `a` is the time `t`, to the millisecond. -/
def SameMs (a t : Timespec) : Prop := a.ns ≤ t.ns ∧ t.ns < a.ns + 1000000

/-- Where in a millisecond a time lies. -/
def phase (a : Timespec) : Int := a.ns % 1000000

instance (a : Timespec) : Decidable a.Valid := inferInstanceAs (Decidable (_ ∧ _))

instance (a t : Timespec) : Decidable (a.SameMs t) := inferInstanceAs (Decidable (_ ∧ _))

variable {a b : Timespec}

@[simp] theorem ns_normalize (a : Timespec) : a.normalize.ns = a.ns := by
  unfold normalize ns
  split
  · simp only
    omega
  · rfl

theorem valid_normalize (h : 0 ≤ a.tvNsec) : a.normalize.Valid := by
  unfold normalize Valid
  split
  · simp only
    omega
  · omega

@[simp] theorem ns_addMs (a : Timespec) (ms : Nat) : (a.addMs ms).ns = a.ns + ms * 1000000 := by
  rw [addMs, ns_normalize]
  simp only [ns]
  omega

@[simp] theorem phase_addMs (a : Timespec) (ms : Nat) : (a.addMs ms).phase = a.phase := by
  rw [phase, ns_addMs, phase, Int.add_mul_emod_self_right]

theorem valid_addMs (h : a.Valid) (ms : Nat) : (a.addMs ms).Valid := by
  refine valid_normalize ?_
  have := h.1
  simp only
  omega

theorem valid_sub (ha : a.Valid) (hb : b.Valid) : (a.sub b).Valid := by
  obtain ⟨ha0, ha1⟩ := ha
  obtain ⟨hb0, hb1⟩ := hb
  unfold sub Valid
  split <;> simp only <;> omega

theorem valid_add (ha : a.Valid) (hb : b.Valid) : (a.add b).Valid :=
  valid_normalize (Int.add_nonneg ha.1 hb.1)

theorem seconds_le (h : a.ns ≤ b.ns) : a.seconds ≤ b.seconds := by
  have hns : (a.ns : Rat) ≤ b.ns := Int.cast_le.mpr h
  simp only [ns, Int.cast_add, Int.cast_mul, Int.cast_ofNat] at hns
  unfold seconds
  linarith

/-- Times of one phase are in the order of the times that they stand for. -/
theorem ns_le_of_phase {t u : Timespec} (hphase : a.phase = b.phase) (ha : a.SameMs t)
    (hb : b.SameMs u) (h : t.ns ≤ u.ns) : a.ns ≤ b.ns := by
  obtain ⟨ha, -⟩ := ha
  obtain ⟨-, hb⟩ := hb
  unfold phase at hphase
  omega

theorem toULong_of_lt {longBits : Nat} {z : Int} (h0 : 0 ≤ z) (h : z < 2 ^ longBits) :
    (toULong longBits z : Int) = z := by
  rw [toULong, Int.emod_eq_of_lt h0 h, Int.toNat_of_nonneg h0]

theorem toULong_lt (longBits : Nat) (z : Int) : toULong longBits z < 2 ^ longBits := by
  have hpos : (0 : Int) < 2 ^ longBits := by positivity
  have hmod := Int.emod_lt_of_pos z hpos
  have hpow : ((2 ^ longBits : Nat) : Int) = 2 ^ longBits := by push_cast; rfl
  unfold toULong
  omega

theorem subMs_lt (longBits : Nat) (a b : Timespec) :
    subMs longBits a b < 2 ^ longBits := by
  unfold subMs
  split <;> exact toULong_lt _ _

/-- `timespec_sub_ms` counts whole milliseconds, from a time that is not in the
future and not too far in the past. -/
theorem subMs_spec {longBits : Nat} (hlong : 32 ≤ longBits) (ha : a.Valid) (hb : b.Valid)
    (hle : b.ns ≤ a.ns) (hlt : a.ns < b.ns + 2 ^ longBits * 1000000) :
    b.ns + subMs longBits a b * 1000000 ≤ a.ns ∧
      a.ns < b.ns + subMs longBits a b * 1000000 + 1000000 := by
  obtain ⟨ha0, ha1⟩ := ha
  obtain ⟨hb0, hb1⟩ := hb
  have hpow : (2 ^ 32 : Int) ≤ 2 ^ longBits := pow_le_pow_right₀ (by decide) hlong
  have hinner : ∀ z : Int, 0 ≤ z → z < 2000000000 →
      ((toULong longBits z / 1000000 : Nat) : Int) = z / 1000000 := by
    intro z h0 h
    rw [Int.natCast_ediv, toULong_of_lt h0 (by omega)]
    rfl
  unfold ns at hle hlt ⊢
  unfold subMs
  split
  · rename_i hborrow
    rw [hinner _ (by omega) (by omega), toULong_of_lt (by omega) (by omega)]
    omega
  · rename_i hborrow
    rw [hinner _ (by omega) (by omega), toULong_of_lt (by omega) (by omega)]
    omega

/-! ## There and back -/

/-- **When a time is rebuilt from its milliseconds**: exactly if it is not before the one
they count from, nor too late for an `unsigned long`. -/
theorem rebuilt_iff {longBits : Nat} (hlong : 32 ≤ longBits) (ha : a.Valid) (hb : b.Valid) :
    ((b.addMs (subMs longBits a b)).Valid ∧ (b.addMs (subMs longBits a b)).SameMs a) ↔
      b.ns ≤ a.ns ∧ a.ns < b.ns + 2 ^ longBits * 1000000 := by
  constructor
  · rintro ⟨-, hle, hlt⟩
    rw [ns_addMs] at hle hlt
    have hms : (subMs longBits a b : Int) < 2 ^ longBits := by
      exact_mod_cast subMs_lt longBits a b
    constructor <;> omega
  · rintro ⟨hle, hlt⟩
    obtain ⟨hle', hlt'⟩ := subMs_spec hlong ha hb hle hlt
    refine ⟨valid_addMs hb _, ?_⟩
    rw [SameMs, ns_addMs]
    exact ⟨hle', hlt'⟩

/-- Two seconds and a borrow, on 32 bits. -/
theorem rebuilt_iff_borrow :
    ((addMs ⟨1, 999999999⟩ (subMs 32 ⟨4, 5⟩ ⟨1, 999999999⟩)).Valid ∧
        (addMs ⟨1, 999999999⟩ (subMs 32 ⟨4, 5⟩ ⟨1, 999999999⟩)).SameMs ⟨4, 5⟩) ↔
      ns ⟨1, 999999999⟩ ≤ ns ⟨4, 5⟩ ∧ ns ⟨4, 5⟩ < ns ⟨1, 999999999⟩ + 2 ^ 32 * 1000000 :=
  rebuilt_iff (by decide) (by decide) (by decide)

/-- The clock is set back by a second: the time is rebuilt some 18 quadrillion seconds
later. -/
theorem not_rebuilt_back :
    Valid ⟨0, 0⟩ ∧ Valid ⟨1, 0⟩ ∧
      addMs ⟨1, 0⟩ (subMs 64 ⟨0, 0⟩ ⟨1, 0⟩) = ⟨18446744073709551, 616000000⟩ ∧
      ¬(addMs ⟨1, 0⟩ (subMs 64 ⟨0, 0⟩ ⟨1, 0⟩)).SameMs ⟨0, 0⟩ := by
  decide +kernel

end VzLogger.Timespec
