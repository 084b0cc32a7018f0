import VzLogger.Lib.CMath
import VzLogger.Lib.Dial
import VzLogger.Lib.EventMachine
import VzLogger.Lib.Loop
import Mathlib.Data.Int.ModEq

/-! # Impulses

A meter whose last digits turn shows only where the dial stands.  `calcImpulses` makes
impulses of two values, taking a movement of more than half a turn for one across zero,
and `read` returns them, from the values it keeps of the last image.  Values are exact
rationals, and a value that was not recognised (a NaN) is `none`.
-/
namespace VzLogger.MeterOCR
open CMath CString

/-! ## The wrap detection -/

section
variable {impulses : Int} (hpos : 0 < impulses) (imp : Int)
include hpos

theorem whileNegative_ends :
    ∃ t, Loop.run (fun imp => imp < 0) (fun imp => some (imp + impulses)) imp.natAbs imp = some t ∧
      (t % impulses = imp % impulses ∧ (imp < impulses → t < impulses)) ∧
      decide (t < 0) = false := by
  apply Loop.exists_run (fun t => (-t).toNat) ?_ ⟨rfl, id⟩ (by omega)
  rintro t ⟨hmod, hlt⟩ hneg
  have hneg : t < 0 := of_decide_eq_true hneg
  refine ⟨t + impulses, rfl, ⟨?_, fun _ => by omega⟩, by omega⟩
  rw [Int.add_emod_right]
  exact hmod

theorem whilePositive_ends :
    ∃ t, Loop.run (fun imp => 0 < imp) (fun imp => some (imp - impulses)) imp.natAbs imp = some t ∧
      (-t % impulses = -imp % impulses ∧ (-impulses < imp → -impulses < t)) ∧
      decide (0 < t) = false := by
  apply Loop.exists_run (fun t => t.toNat) ?_ ⟨rfl, id⟩ (by omega)
  rintro t ⟨hmod, hlt⟩ hgt
  have hgt : 0 < t := of_decide_eq_true hgt
  refine ⟨t - impulses, rfl, ⟨?_, fun _ => by omega⟩, by omega⟩
  have hneg : -(t - impulses) = -t + impulses := by omega
  rw [hneg, Int.add_emod_right]
  exact hmod

end

/-- `while (imp < 0) imp += _impulses`. -/
def whileNegative {impulses : Int} (hpos : 0 < impulses) (imp : Int) : Int :=
  (Loop.run (fun imp => imp < 0) (fun imp => some (imp + impulses)) imp.natAbs imp).get
    (Option.isSome_iff_exists.mpr ((whileNegative_ends hpos imp).imp fun _ h => h.1))

/-- `while (imp > 0) imp -= _impulses`. -/
def whilePositive {impulses : Int} (hpos : 0 < impulses) (imp : Int) : Int :=
  (Loop.run (fun imp => 0 < imp) (fun imp => some (imp - impulses)) imp.natAbs imp).get
    (Option.isSome_iff_exists.mpr ((whilePositive_ends hpos imp).imp fun _ h => h.1))

/-- What `calcImpulses` does with the rounded difference. -/
def detectWrap (impulses imp : Int) : Int :=
  if h : 10 ≤ impulses ∧ impulses / 2 < CMath.abs imp then  -- assume a wrap occured
    if imp < 0 then
      whileNegative (show 0 < impulses by omega) imp  -- (0.99 -> 0.01: -98 > 50 -> 2)
    else
      whilePositive (show 0 < impulses by omega) imp  -- reverse: 98 > 50, -> -2
  else imp

/-- `MeterOCR::calcImpulses`; `beyond` is what `lrint` makes of a number that is too
large. -/
def calcImpulses (beyond : Rat → Int) (impulses : Int) (value oldValue : Rat) : Int :=
  detectWrap impulses (toInt (lrint beyond ((value - oldValue) * impulses)))

theorem whileNegative_eq {impulses : Int} (hpos : 0 < impulses) {imp : Int} (h : imp < 0) :
    whileNegative hpos imp = imp % impulses := by
  obtain ⟨t, hrun, ⟨hmod, hlt⟩, hend⟩ := whileNegative_ends hpos imp
  have hend : 0 ≤ t := not_lt.mp (of_decide_eq_false hend)
  simp only [whileNegative, hrun, Option.get_some]
  rw [← hmod, Int.emod_eq_of_lt hend (hlt (by omega))]

theorem whilePositive_eq {impulses : Int} (hpos : 0 < impulses) {imp : Int} (h : 0 ≤ imp) :
    whilePositive hpos imp = -(-imp % impulses) := by
  obtain ⟨t, hrun, ⟨hmod, hlt⟩, hend⟩ := whilePositive_ends hpos imp
  have hend : t ≤ 0 := not_lt.mp (of_decide_eq_false hend)
  have hlt := hlt (by omega)
  simp only [whilePositive, hrun, Option.get_some]
  rw [← hmod, Int.emod_eq_of_lt (by omega) (by omega), Int.neg_neg]

section
variable {impulses imp : Int}

theorem detectWrap_of_le (h : CMath.abs imp ≤ impulses / 2) : detectWrap impulses imp = imp :=
  dif_neg fun hwrap => not_lt.mpr h hwrap.2

/-- The result, where `abs` is one: a wrap leaves what is missing to whole turns, the
other way round. -/
theorem detectWrap_eq (h10 : 10 ≤ impulses) (hlo : -2 ^ 31 < imp) (hhi : imp < 2 ^ 31) :
    detectWrap impulses imp =
      if impulses / 2 < |imp| then -(imp.sign * (-|imp| % impulses)) else imp := by
  have habs : CMath.abs imp = |imp| := CMath.abs_of_mem hlo hhi
  by_cases hwrap : impulses / 2 < |imp|
  · rw [if_pos hwrap, detectWrap, dif_pos ⟨h10, habs ▸ hwrap⟩]
    split
    · rename_i hneg
      rw [whileNegative_eq _ hneg, Int.sign_eq_neg_one_of_neg hneg, abs_of_neg hneg, neg_neg,
        neg_one_mul, neg_neg]
    · rename_i hpos
      have hne : imp ≠ 0 := by
        rintro rfl
        rw [abs_zero] at hwrap
        omega
      have hpos : 0 < imp := by omega
      rw [whilePositive_eq _ hpos.le, Int.sign_eq_one_of_pos hpos, abs_of_pos hpos, one_mul]
  · rw [if_neg hwrap]
    exact detectWrap_of_le (habs ▸ not_lt.mp hwrap)

/-- Whole turns are all that is added or taken away. -/
theorem detectWrap_modEq (impulses imp : Int) :
    detectWrap impulses imp ≡ imp [ZMOD impulses] := by
  unfold detectWrap
  split
  · split
    · rename_i hneg
      rw [whileNegative_eq _ hneg]
      exact Int.mod_modEq imp impulses
    · rename_i hpos
      rw [whilePositive_eq _ (not_lt.mp hpos)]
      have h := (Int.mod_modEq (-imp) impulses).neg
      rwa [neg_neg] at h
  · exact Int.ModEq.refl imp

theorem detectWrap_neg (h10 : 10 ≤ impulses) (hlo : -2 ^ 31 < imp) (hhi : imp < 2 ^ 31) :
    detectWrap impulses (-imp) = -detectWrap impulses imp := by
  rw [detectWrap_eq h10 hlo hhi, detectWrap_eq h10 (by omega) (by omega), abs_neg, Int.sign_neg]
  split
  · rw [neg_mul]
  · rfl

theorem detectWrap_half_iff (h10 : 10 ≤ impulses) (hlo : -2 ^ 31 < imp) (hhi : imp < 2 ^ 31) :
    2 * |detectWrap impulses imp| ≤ impulses ↔
      2 * |imp| ≤ impulses ∨ 2 * (-|imp| % impulses) ≤ impulses := by
  rw [detectWrap_eq h10 hlo hhi]
  by_cases hwrap : impulses / 2 < |imp|
  · have hne : imp ≠ 0 := by
      rintro rfl
      rw [abs_zero] at hwrap
      omega
    have hmag : |-(imp.sign * (-|imp| % impulses))| = -|imp| % impulses := by
      rw [abs_neg, abs_mul, abs_of_nonneg (Int.emod_nonneg _ (by omega))]
      rcases lt_or_gt_of_ne hne with hneg | hpos
      · rw [Int.sign_eq_neg_one_of_neg hneg, abs_neg, abs_one, one_mul]
      · rw [Int.sign_eq_one_of_pos hpos, abs_one, one_mul]
    rw [if_pos hwrap, hmag]
    constructor
    · exact .inr
    · rintro (h | h)
      · omega
      · exact h
  · rw [if_neg hwrap]
    exact iff_of_true (by omega) (.inl (by omega))

end

/-- The impulses are those of the movement that is nearest, in either direction. -/
structure Wraps (beyond : Rat → Int) (impulses : Int) (value oldValue : Rat) : Prop where
  congruent : calcImpulses beyond impulses value oldValue ≡
    rint ((value - oldValue) * impulses) [ZMOD impulses]
  half : 2 * |calcImpulses beyond impulses value oldValue| ≤ impulses
  antisymm : calcImpulses beyond impulses oldValue value =
    -calcImpulses beyond impulses value oldValue

/-- The rounded difference is a `long` in either direction, and an `int` that `abs` can
take, up to whole turns; it is no more than half a turn, or no more than half a turn short
of whole ones: the loops stop at the change of the sign. -/
structure Detectable (impulses diff : Int) : Prop where
  long : |diff| < 2 ^ 63
  fits : impulses ∣ diff - toInt diff
  ne_min : toInt diff ≠ -2 ^ 31
  near : 2 * |toInt diff| ≤ impulses ∨ 2 * (-|toInt diff| % impulses) ≤ impulses

/-- Where both differences are what was rounded. -/
theorem wraps_iff_of_eq {beyond : Rat → Int} {impulses : Int} (h10 : 10 ≤ impulses)
    {value oldValue : Rat} {diff : Int} (hdiff : rint ((value - oldValue) * impulses) = diff)
    (hforth : calcImpulses beyond impulses value oldValue = detectWrap impulses (toInt diff))
    (hback : calcImpulses beyond impulses oldValue value =
      detectWrap impulses (toInt (-diff))) :
    Wraps beyond impulses value oldValue ↔
      impulses ∣ diff - toInt diff ∧ toInt diff ≠ -2 ^ 31 ∧
        (2 * |toInt diff| ≤ impulses ∨ 2 * (-|toInt diff| % impulses) ≤ impulses) := by
  have hmod := detectWrap_modEq impulses (toInt diff)
  have hlo := neg_le_toInt diff
  have hhi := toInt_lt diff
  constructor
  · rintro ⟨hcongruent, hhalf, hanti⟩
    rw [hdiff, hforth] at hcongruent
    rw [hforth] at hhalf hanti
    rw [hback] at hanti
    have hne : toInt diff ≠ -2 ^ 31 := by
      intro hmin
      have hmin' : toInt (-diff) = -2 ^ 31 := toInt_neg_min hmin
      have habs : CMath.abs (-2 ^ 31) = -2 ^ 31 := by decide
      rw [hmin', hmin, detectWrap_of_le (by rw [habs]; omega)] at hanti
      omega
    refine ⟨?_, hne, (detectWrap_half_iff h10 (by omega) hhi).mp hhalf⟩
    exact (hmod.symm.trans hcongruent).dvd
  · rintro ⟨hfits, hne, hnear⟩
    refine ⟨?_, ?_, ?_⟩
    · rw [hdiff, hforth]
      exact hmod.trans (Int.modEq_iff_dvd.mpr hfits)
    · rw [hforth]
      exact (detectWrap_half_iff h10 (by omega) hhi).mpr hnear
    · rw [hforth, hback, toInt_neg hne]
      exact detectWrap_neg h10 (by omega) hhi

/-- Nothing and one impulse are no wraps. -/
theorem detectWrap_of_small {impulses : Int} (h10 : 10 ≤ impulses) :
    detectWrap impulses (toInt 0) = 0 ∧ detectWrap impulses (toInt 1) = 1 := by
  constructor
  · refine detectWrap_of_le ?_
    rw [show CMath.abs (toInt 0) = 0 from by decide]
    omega
  · refine detectWrap_of_le ?_
    rw [show CMath.abs (toInt 1) = 1 from by decide]
    omega

/-- What `lrint` returns for a number that is too large is not always right. -/
theorem not_wraps_of_le_abs {impulses : Int} (h10 : 10 ≤ impulses) {value oldValue : Rat}
    (h : 2 ^ 63 ≤ |rint ((value - oldValue) * impulses)|) :
    ¬∀ beyond, Wraps beyond impulses value oldValue := by
  intro hwraps
  obtain ⟨hzero, hone⟩ := detectWrap_of_small h10
  rcases lrint_of_le_abs h with hforth | hback
  · -- both nothing and one impulse would be congruent to the difference
    have h0 := (hwraps fun _ => 0).congruent
    have h1 := (hwraps fun _ => 1).congruent
    rw [calcImpulses, hforth, hzero] at h0
    rw [calcImpulses, hforth, hone] at h1
    have hdvd : impulses ∣ 1 := (h0.trans h1.symm).dvd
    exact absurd (Int.le_of_dvd (by decide) hdvd) (by omega)
  · -- both would be the impulses of the way forth, turned round
    have hneg : (oldValue - value) * impulses = -((value - oldValue) * impulses) := by ring
    have hsame : calcImpulses (fun _ => 0) impulses value oldValue =
        calcImpulses (fun _ => 1) impulses value oldValue ∨
        ∀ beyond, lrint beyond ((value - oldValue) * impulses) =
          beyond ((value - oldValue) * impulses) := by
      by_cases hlong : -2 ^ 63 ≤ rint ((value - oldValue) * impulses) ∧
          rint ((value - oldValue) * impulses) < 2 ^ 63
      · left
        rw [calcImpulses, calcImpulses, lrint, lrint, if_pos hlong, if_pos hlong]
      · right
        exact fun beyond => if_neg hlong
    rcases hsame with hsame | hforth
    · have h0 := (hwraps fun _ => 0).antisymm
      have h1 := (hwraps fun _ => 1).antisymm
      rw [calcImpulses, hneg, hback, hzero] at h0
      rw [calcImpulses, hneg, hback, hone, ← hsame] at h1
      omega
    · have h1 := (hwraps fun _ => 1).antisymm
      rw [calcImpulses, hneg, hback, hone, calcImpulses, hforth, hone] at h1
      omega

/-- **Where the wrap detection is right**, whatever `lrint` returns for a number that is
too large. -/
theorem calcImpulses_wraps_iff {impulses : Int} (h10 : 10 ≤ impulses) (value oldValue : Rat) :
    (∀ beyond, Wraps beyond impulses value oldValue) ↔
      Detectable impulses (rint ((value - oldValue) * impulses)) := by
  have hneg : (oldValue - value) * impulses = -((value - oldValue) * impulses) := by ring
  by_cases hlong : |rint ((value - oldValue) * impulses)| < 2 ^ 63
  · have hiff : ∀ beyond, Wraps beyond impulses value oldValue ↔ _ := fun beyond =>
      wraps_iff_of_eq h10 rfl (by rw [calcImpulses, lrint_of_abs_lt hlong])
        (by rw [calcImpulses, hneg, lrint_of_abs_lt (by rw [rint_neg, abs_neg]; exact hlong),
          rint_neg])
    constructor
    · intro h
      obtain ⟨hfits, hne, hnear⟩ := (hiff fun _ => 0).mp (h _)
      exact ⟨hlong, hfits, hne, hnear⟩
    · rintro ⟨-, hfits, hne, hnear⟩ beyond
      exact (hiff beyond).mpr ⟨hfits, hne, hnear⟩
  · exact iff_of_false (not_wraps_of_le_abs h10 (not_lt.mp hlong)) fun h => hlong h.long

/-- Almost a turn backwards, from 0.9 to 0.1. -/
theorem calcImpulses_wraps_back :
    (∀ beyond, calcImpulses beyond 10 (1 / 10) (9 / 10) = 2) ∧
      ∀ beyond, Wraps beyond 10 (1 / 10) (9 / 10) := by
  have hlong : |rint ((1 / 10 - 9 / 10) * (10 : Int))| < 2 ^ 63 := by decide +kernel
  refine ⟨fun beyond => ?_, (calcImpulses_wraps_iff (by decide) _ _).mpr ?_⟩
  · rw [calcImpulses, lrint_of_abs_lt hlong]
    decide +kernel
  · constructor <;> decide +kernel

/-- A turn and a fifth of one, which is two impulses forward, is counted as eight back. -/
theorem calcImpulses_not_nearest :
    (∀ beyond, calcImpulses beyond 10 (6 / 5) 0 = -8) ∧ ∀ beyond, ¬Wraps beyond 10 (6 / 5) 0 := by
  have hlong : |rint ((6 / 5 - 0) * (10 : Int))| < 2 ^ 63 := by decide +kernel
  have heval : ∀ beyond, calcImpulses beyond 10 (6 / 5) 0 = -8 := by
    intro beyond
    rw [calcImpulses, lrint_of_abs_lt hlong]
    decide +kernel
  refine ⟨heval, fun beyond h => ?_⟩
  have hhalf := h.half
  rw [heval beyond] at hhalf
  exact absurd hhalf (by decide)

end VzLogger.MeterOCR
