import VzLogger.Lib.CMath
import VzLogger.Lib.Dial
import Mathlib.Tactic.NormNum

/-! # Digits from needles

A needle shows a position on a dial from 0 to 10.  The position is measured with an
error, and the digit is its integer part, so that a needle near a digit needs help:
from the smaller digits, which say how far it must have come
(`roundBasedOnSmallerDigits`), or, for the smallest, from the digit of the last image
(`debounce`).  Positions are exact rationals.
-/
namespace VzLogger.MeterOCR
open CMath

/-- Round up: 8.1 detected as 0.1 and 7.99 is 8. -/
def roundUp (nr : Int) (fnr smaller : Rat) (conf : Int) : Int × Int :=
  let nnr := trunc (fnr + 1 / 2 - smaller)
  if nnr ≠ nr then (if 10 ≤ nnr then 0 else nnr, conf - 10) else (nr, conf)

/-- Round down: 3.9 detected as 0.9 and 4.1 is 3. -/
def roundDown (nr : Int) (fnr smaller : Rat) (conf : Int) : Int × Int :=
  let nnr := if fnr < smaller - 1 / 2 then 9 else trunc (fnr - smaller + 1 / 2)
  if nnr ≠ nr then (nnr, conf - 15) else (nr, conf)

/-- `RecognizerNeedle::roundBasedOnSmallerDigits`: the digit, and the confidence. -/
def roundBasedOnSmallerDigits (curNr : Int) (fnr smaller : Rat) (conf : Int) : Int × Int :=
  let up := if smaller < 1 / 2 then roundUp curNr fnr smaller conf else (curNr, conf)
  if 1 / 2 ≤ smaller then roundDown up.1 fnr smaller up.2 else up

/-- The digit to go on with, after `iprev`. -/
def debounce (iprev : Int) (fnew : Rat) : Int :=
  let inew := trunc fnew  -- no proper rounding. we want 0.99 to be 0.
  if iprev = 0 then
    let nnr := if inew = 9 ∧ 19 / 2 < fnew then 0 else inew
    if inew = 1 ∧ fnew < 3 / 2 then 0 else nnr
  else if iprev = 9 then
    let nnr := if inew = 0 ∧ fnew < 1 / 2 then 9 else inew
    if inew = 8 ∧ 17 / 2 ≤ fnew then 9 else nnr
  else
    let fp : Rat := iprev
    if fp < fnew then
      if fnew - fp < 3 / 2 then iprev else inew
    else if fp - fnew < 1 / 2 then iprev else inew

/-! ## Smaller digits -/

section Smaller
variable {d : Int} {s fnr : Rat} {conf : Int}

/-- The smaller digits are below a half: the needle is not before the digit. -/
theorem round_of_lt (hs : s < 1 / 2) {nnr : Int} (hnnr : trunc (fnr + 1 / 2 - s) = nnr)
    (hcur : ⌊fnr⌋ < 10) (hd : d = if 10 ≤ nnr then 0 else nnr) :
    (roundBasedOnSmallerDigits ⌊fnr⌋ fnr s conf).1 = d := by
  rw [roundBasedOnSmallerDigits, if_pos hs, if_neg (not_le.mpr hs), roundUp, hnnr]
  by_cases hne : nnr = ⌊fnr⌋
  · rw [if_neg (not_not.mpr hne), hd, if_neg (by omega)]
    exact hne.symm
  · rw [if_pos hne]
    exact hd.symm

/-- They are a half or more: the needle has not come to the next digit. -/
theorem round_of_le (hs : 1 / 2 ≤ s)
    (hd : d = if fnr < s - 1 / 2 then 9 else trunc (fnr - s + 1 / 2)) :
    (roundBasedOnSmallerDigits ⌊fnr⌋ fnr s conf).1 = d := by
  rw [roundBasedOnSmallerDigits, if_neg (not_lt.mpr hs), if_pos hs, roundDown, ← hd]
  by_cases hne : d = ⌊fnr⌋
  · rw [if_neg (not_not.mpr hne)]
    exact hne.symm
  · rw [if_pos hne]

/-- **Needle correction.**  Measured less than half a digit off, the needle is read as
the digit it stands for. -/
theorem roundBasedOnSmallerDigits_eq (hd0 : 0 ≤ d) (hd9 : d ≤ 9) (hs0 : 0 ≤ s) (hs1 : s < 1)
    (hf0 : 0 ≤ fnr) (hf : fnr < 10) (hdist : Dial.dist 10 (fnr - (d + s)) < 1 / 2) (conf : Int) :
    (roundBasedOnSmallerDigits ⌊fnr⌋ fnr s conf).1 = d := by
  obtain ⟨n, hn⟩ := (Dial.dist_lt_iff (by norm_num)).mp hdist
  obtain ⟨hlo, hhi⟩ := abs_lt.mp hn
  have hd0' : (0 : Rat) ≤ d := by exact_mod_cast hd0
  have hd9' : (d : Rat) ≤ 9 := by exact_mod_cast hd9
  have hcur : ⌊fnr⌋ < 10 := Int.floor_lt.mpr (by exact_mod_cast hf)
  -- the error may take the needle past zero, one way or the other
  have hturns : n = -1 ∨ n = 0 ∨ n = 1 := by
    have h1 : (-2 : Rat) < n := by linarith
    have h2 : (n : Rat) < 2 := by linarith
    have h1 : -2 < n := by exact_mod_cast h1
    have h2 : n < 2 := by exact_mod_cast h2
    omega
  by_cases hs : s < 1 / 2
  · rcases hturns with rfl | rfl | rfl
    · push_cast at hlo hhi
      linarith
    · push_cast at hlo hhi
      have hnnr : trunc (fnr + 1 / 2 - s) = d := by
        rw [trunc_of_nonneg (by linarith), Int.floor_eq_iff]
        constructor <;> linarith
      exact round_of_lt hs hnnr hcur (by rw [if_neg (by omega)])
    · push_cast at hlo hhi
      have hzero : d = 0 := by
        have h1 : (d : Rat) < 1 := by linarith
        have h1 : d < 1 := by exact_mod_cast h1
        omega
      subst hzero
      have hnnr : trunc (fnr + 1 / 2 - s) = 10 := by
        rw [trunc_of_nonneg (by linarith), Int.floor_eq_iff]
        push_cast at hlo hhi ⊢
        constructor <;> linarith
      exact round_of_lt hs hnnr hcur rfl
  · have hs := not_lt.mp hs
    rcases hturns with rfl | rfl | rfl
    · push_cast at hlo hhi
      have hnine : d = 9 := by
        have h8 : (8 : Rat) < d := by linarith
        have h8 : 8 < d := by exact_mod_cast h8
        omega
      subst hnine
      push_cast at hlo hhi
      exact round_of_le hs (by rw [if_pos (by linarith)])
    · push_cast at hlo hhi
      refine round_of_le hs ?_
      rw [if_neg (by linarith), trunc_of_nonneg (by linarith), eq_comm, Int.floor_eq_iff]
      constructor <;> linarith
    · push_cast at hlo hhi
      linarith

/-- 9.9 is measured as 0.3. -/
theorem roundBasedOnSmallerDigits_eq_wrap :
    (roundBasedOnSmallerDigits ⌊(3 / 10 : Rat)⌋ (3 / 10) (9 / 10) 100).1 = 9 ∧
      roundBasedOnSmallerDigits 0 (3 / 10) (9 / 10) 100 = (9, 85) := by
  refine ⟨roundBasedOnSmallerDigits_eq (by norm_num) (by norm_num) (by norm_num) (by norm_num)
    (by norm_num) (by norm_num) ?_ 100, by decide +kernel⟩
  refine (Dial.dist_lt_iff (by norm_num)).mpr ⟨-1, ?_⟩
  norm_num

end Smaller

/-! ## Debouncing -/

/-- The digit is kept from half a digit before it to half a digit after its end. -/
def InWindow (i : Int) (f : Rat) : Prop :=
  Dial.wrap 10 (f - i) < 3 / 2 ∨ 19 / 2 < Dial.wrap 10 (f - i)

/-- The lower end of the window of 9, where the comparison is not strict. -/
def OnEdge (i : Int) (f : Rat) : Prop := i = 9 ∧ f = 17 / 2

instance (i : Int) (f : Rat) : Decidable (InWindow i f) := inferInstanceAs (Decidable (_ ∨ _))

instance (i : Int) (f : Rat) : Decidable (OnEdge i f) := inferInstanceAs (Decidable (_ ∧ _))

/-- The digit is kept within the window, and otherwise read off. -/
def Debounces (i : Int) (f : Rat) : Prop :=
  (InWindow i f → debounce i f = i) ∧ (¬InWindow i f → debounce i f = ⌊f⌋)

/-- A dial turned by `k` digits gives the digit turned by `k`. -/
def Rotates (i : Int) (f : Rat) (k : Int) : Prop :=
  debounce ((i + k) % 10) (Dial.wrap 10 (f + k)) = (debounce i f + k) % 10

section Debounce
variable {i : Int} {f : Rat}

theorem wrap_sub (hi0 : 0 ≤ i) (hi9 : i ≤ 9) (hf0 : 0 ≤ f) (hf : f < 10) :
    Dial.wrap 10 (f - i) = if (i : Rat) ≤ f then f - i else f - i + 10 := by
  have hi0' : (0 : Rat) ≤ i := by exact_mod_cast hi0
  have hi9' : (i : Rat) ≤ 9 := by exact_mod_cast hi9
  split
  · rename_i hle
    exact Dial.wrap_of_mem (by norm_num) (by linarith) (by linarith)
  · rename_i hlt
    refine (Dial.wrap_eq_iff (by norm_num)).mpr ⟨by linarith, by linarith, -1, ?_⟩
    push_cast
    ring

/-- The window in positions of the needle, around zero. -/
theorem inWindow_zero (hf0 : 0 ≤ f) (hf : f < 10) : InWindow 0 f ↔ f < 3 / 2 ∨ 19 / 2 < f := by
  rw [InWindow, wrap_sub (by decide) (by decide) hf0 hf, Int.cast_zero, if_pos hf0, sub_zero]

/-- The window of 9, which ends behind zero. -/
theorem inWindow_nine (hf0 : 0 ≤ f) (hf : f < 10) : InWindow 9 f ↔ f < 1 / 2 ∨ 17 / 2 < f := by
  rw [InWindow, wrap_sub (by decide) (by decide) hf0 hf, Int.cast_ofNat]
  by_cases hle : 9 ≤ f
  · rw [if_pos hle]
    exact iff_of_true (.inl (by linarith)) (.inr (by linarith))
  · rw [if_neg hle]
    apply or_congr
    · constructor <;> intro h <;> linarith
    · constructor <;> intro h <;> linarith

/-- The window of another digit. -/
theorem inWindow_between (h1 : 1 ≤ i) (h8 : i ≤ 8) (hf0 : 0 ≤ f) (hf : f < 10) :
    InWindow i f ↔ i - 1 / 2 < f ∧ f < i + 3 / 2 := by
  have h1' : (1 : Rat) ≤ i := by exact_mod_cast h1
  have h8' : (i : Rat) ≤ 8 := by exact_mod_cast h8
  rw [InWindow, wrap_sub (by omega) (by omega) hf0 hf]
  by_cases hle : (i : Rat) ≤ f
  · rw [if_pos hle, or_iff_left (by linarith)]
    constructor
    · intro h
      constructor <;> linarith
    · intro h
      linarith [h.2]
  · rw [if_neg hle, or_iff_right (by linarith)]
    constructor
    · intro h
      constructor <;> linarith
    · intro h
      linarith [h.1]

theorem trunc_eq_iff (hf0 : 0 ≤ f) {n : Int} : trunc f = n ↔ n ≤ f ∧ f < n + 1 := by
  rw [trunc_of_nonneg hf0, Int.floor_eq_iff]

/-- The branch of 0. -/
theorem debounce_zero (hf0 : 0 ≤ f) (hf : f < 10) :
    debounce 0 f = if f < 3 / 2 ∨ 19 / 2 < f then 0 else ⌊f⌋ := by
  rw [← trunc_of_nonneg hf0]
  by_cases hlow : f < 3 / 2
  · by_cases h1 : f < 1
    · have h0 : trunc f = 0 := (trunc_eq_iff hf0).mpr (by push_cast; constructor <;> linarith)
      simp [debounce, h0]
    · have h1 : trunc f = 1 := (trunc_eq_iff hf0).mpr (by push_cast; constructor <;> linarith)
      simp [debounce, h1, hlow]
  · by_cases hhigh : 19 / 2 < f
    · have h9 : trunc f = 9 := (trunc_eq_iff hf0).mpr (by push_cast; constructor <;> linarith)
      simp [debounce, h9, hhigh]
    · simp [debounce, hlow, hhigh]

/-- The branch of 9. -/
theorem debounce_nine (hf0 : 0 ≤ f) (hf : f < 10) :
    debounce 9 f = if f < 1 / 2 ∨ 17 / 2 ≤ f then 9 else ⌊f⌋ := by
  rw [← trunc_of_nonneg hf0]
  by_cases hlow : f < 1 / 2
  · have h0 : trunc f = 0 := (trunc_eq_iff hf0).mpr (by push_cast; constructor <;> linarith)
    simp only [debounce, h0, hlow, and_true, true_or, if_true]
    simp
  · by_cases hhigh : 17 / 2 ≤ f
    · by_cases h8 : f < 9
      · have h8 : trunc f = 8 := (trunc_eq_iff hf0).mpr (by push_cast; constructor <;> linarith)
        simp [debounce, h8, hhigh]
      · have h9 : trunc f = 9 := (trunc_eq_iff hf0).mpr (by push_cast; constructor <;> linarith)
        simp [debounce, h9]
    · simp only [debounce, hlow, hhigh, and_false, or_false, if_false]
      rfl

/-- The general branch. -/
theorem debounce_between (h1 : 1 ≤ i) (h8 : i ≤ 8) (hf0 : 0 ≤ f) :
    debounce i f = if i - 1 / 2 < f ∧ f < i + 3 / 2 then i else ⌊f⌋ := by
  unfold debounce
  rw [if_neg (by omega), if_neg (by omega), ← trunc_of_nonneg hf0]
  by_cases hlt : (i : Rat) < f
  · rw [if_pos hlt]
    exact if_congr ⟨fun h => ⟨by linarith, by linarith⟩, fun h => by linarith [h.2]⟩ rfl rfl
  · rw [if_neg hlt]
    exact if_congr ⟨fun h => ⟨by linarith, by linarith⟩, fun h => by linarith [h.1]⟩ rfl rfl

/-- What `debounce` does with every digit: its window, and the edge of 9. -/
theorem debounce_eq (hi0 : 0 ≤ i) (hi9 : i ≤ 9) (hf0 : 0 ≤ f) (hf : f < 10) :
    debounce i f = if InWindow i f ∨ OnEdge i f then i else ⌊f⌋ := by
  have hi : i = 0 ∨ i = 9 ∨ (1 ≤ i ∧ i ≤ 8) := by omega
  rcases hi with rfl | rfl | ⟨h1, h8⟩
  · have hedge : ¬OnEdge 0 f := fun h => absurd h.1 (by decide)
    rw [debounce_zero hf0 hf]
    exact if_congr ((or_iff_left hedge).trans (inWindow_zero hf0 hf)).symm rfl rfl
  · have hedge : InWindow 9 f ∨ OnEdge 9 f ↔ f < 1 / 2 ∨ 17 / 2 ≤ f := by
      rw [inWindow_nine hf0 hf, OnEdge, le_iff_lt_or_eq, or_assoc, @eq_comm _ f]
      simp only [true_and]
    rw [debounce_nine hf0 hf]
    exact if_congr hedge.symm rfl rfl
  · have hedge : ¬OnEdge i f := fun h => by have := h.1; omega
    rw [debounce_between h1 h8 hf0]
    exact if_congr ((or_iff_left hedge).trans (inWindow_between h1 h8 hf0 hf)).symm rfl rfl

/-- Neither the window nor the integer part of a position minds a turn of the dial. -/
theorem inWindow_rotate (k : Int) :
    InWindow ((i + k) % 10) (Dial.wrap 10 (f + k)) ↔ InWindow i f := by
  obtain ⟨-, -, n, hn⟩ := (Dial.wrap_eq_iff (by norm_num : (0 : Rat) < 10)).mp
    (rfl : Dial.wrap 10 (f + k) = Dial.wrap 10 (f + k))
  have hmod : (((i + k) % 10 : Int) : Rat) = i + k - 10 * ((i + k) / 10 : Int) := by
    have h := Int.emod_def (i + k) 10
    rw [h]
    push_cast
    ring
  have hsame : Dial.wrap 10 (f + k) - (((i + k) % 10 : Int) : Rat) =
      f - i + 10 * (((i + k) / 10 - n : Int) : Rat) := by
    rw [hmod]
    push_cast
    linarith
  rw [InWindow, InWindow, hsame, Dial.wrap_add_mul (by norm_num)]

theorem floor_rotate (k : Int) : ⌊Dial.wrap 10 (f + k)⌋ = (⌊f⌋ + k) % 10 := by
  obtain ⟨h0, h10, n, hn⟩ := (Dial.wrap_eq_iff (by norm_num : (0 : Rat) < 10)).mp
    (rfl : Dial.wrap 10 (f + k) = Dial.wrap 10 (f + k))
  have hfloor : ⌊f⌋ + k = ⌊Dial.wrap 10 (f + k)⌋ + 10 * n := by
    rw [← Int.floor_add_intCast, hn]
    have hcast : (10 : Rat) * n = ((10 * n : Int) : Rat) := by push_cast; rfl
    rw [hcast, Int.floor_add_intCast, ← hcast, ← hn]
  have hlo : 0 ≤ ⌊Dial.wrap 10 (f + k)⌋ := Int.floor_nonneg.mpr h0
  have hhi : ⌊Dial.wrap 10 (f + k)⌋ < 10 := Int.floor_lt.mpr (by exact_mod_cast h10)
  rw [hfloor, Int.add_mul_emod_self_left, Int.emod_eq_of_lt hlo hhi]

/-- **Where debouncing is the same for every digit**: a position is treated by the
common window exactly if it is not the edge of 9, and a turned dial gives the turned
digit exactly if both positions are that edge or neither is. -/
theorem debounce_uniform_iff (hi0 : 0 ≤ i) (hi9 : i ≤ 9) (hf0 : 0 ≤ f) (hf : f < 10) :
    (Debounces i f ↔ ¬OnEdge i f) ∧
      ∀ k, Rotates i f k ↔
        (OnEdge i f ↔ OnEdge ((i + k) % 10) (Dial.wrap 10 (f + k))) := by
  have hedge : ∀ {j : Int} {g : Rat}, 0 ≤ g → OnEdge j g → ¬InWindow j g ∧ ⌊g⌋ = 8 ∧ j = 9 := by
    rintro j g hg ⟨rfl, rfl⟩
    refine ⟨?_, by norm_num, rfl⟩
    rw [inWindow_nine hg (by norm_num)]
    norm_num
  have hdebounce := debounce_eq hi0 hi9 hf0 hf
  constructor
  · constructor
    · rintro ⟨-, hout⟩ hon
      obtain ⟨hwindow, hfloor, hnine⟩ := hedge hf0 hon
      have hkeep := hout hwindow
      rw [hdebounce, if_pos (.inr hon)] at hkeep
      omega
    · intro hon
      constructor
      · intro hwindow
        rw [hdebounce, if_pos (.inl hwindow)]
      · intro hwindow
        rw [hdebounce, if_neg (not_or.mpr ⟨hwindow, hon⟩)]
  · intro k
    have hrotated := debounce_eq (Int.emod_nonneg (i + k) (by decide : (10 : Int) ≠ 0))
      (by have := Int.emod_lt_of_pos (i + k) (by decide : (0 : Int) < 10); omega)
      (Dial.wrap_nonneg (by norm_num) (f + k)) (Dial.wrap_lt (by norm_num) (f + k))
    have hturned0 := Dial.wrap_nonneg (by norm_num : (0 : Rat) < 10) (f + k)
    have hfloor := floor_rotate (f := f) k
    have hwindow' := inWindow_rotate (i := i) (f := f) k
    rw [Rotates, hdebounce, hrotated]
    by_cases hwindow : InWindow i f
    · have hon : ¬OnEdge i f := fun h => (hedge hf0 h).1 hwindow
      have hon' : ¬OnEdge ((i + k) % 10) (Dial.wrap 10 (f + k)) :=
        fun h => (hedge hturned0 h).1 (hwindow'.mpr hwindow)
      rw [if_pos (.inl (hwindow'.mpr hwindow)), if_pos (.inl hwindow)]
      exact iff_of_true rfl (iff_of_false hon hon')
    · have hturned := mt hwindow'.mp hwindow
      by_cases hon : OnEdge i f
      · obtain ⟨-, h8, h9⟩ := hedge hf0 hon
        rw [if_pos (show InWindow i f ∨ OnEdge i f from .inr hon)]
        by_cases hon' : OnEdge ((i + k) % 10) (Dial.wrap 10 (f + k))
        · rw [if_pos (.inr hon')]
          exact iff_of_true rfl (iff_of_true hon hon')
        · rw [if_neg (not_or.mpr ⟨hturned, hon'⟩), hfloor, h8]
          refine iff_of_false ?_ fun h => hon' (h.mp hon)
          omega
      · rw [if_neg (show ¬(InWindow i f ∨ OnEdge i f) from not_or.mpr ⟨hwindow, hon⟩), ← hfloor]
        by_cases hon' : OnEdge ((i + k) % 10) (Dial.wrap 10 (f + k))
        · obtain ⟨-, h8, h9⟩ := hedge hturned0 hon'
          rw [if_pos (.inr hon'), h8]
          exact iff_of_false (by omega) fun h => hon (h.mpr hon')
        · rw [if_neg (not_or.mpr ⟨hturned, hon'⟩)]
          exact iff_of_true rfl (iff_of_false hon hon')

/-- The lower end of the window of 5, and what it is for 6. -/
theorem debounce_uniform_iff_five : Debounces 5 (9 / 2) ∧ debounce 5 (9 / 2) = 4 ∧
    Rotates 5 (9 / 2) 1 := by
  have hwrap : Dial.wrap 10 ((9 / 2 : Rat) + (1 : Int)) = 11 / 2 :=
    (Dial.wrap_eq_iff (by norm_num)).mpr ⟨by norm_num, by norm_num, 0, by norm_num⟩
  obtain ⟨hsame, hturn⟩ := debounce_uniform_iff (i := 5) (f := 9 / 2) (by norm_num) (by norm_num)
    (by norm_num) (by norm_num)
  refine ⟨hsame.mpr (by simp [OnEdge]), by decide +kernel, (hturn 1).mpr ?_⟩
  rw [hwrap]
  norm_num [OnEdge]

/-- No window is common to 5 and 9, and the 8 of a dial at 7.5 turned to 8.5 stays 9. -/
theorem debounce_not_uniform :
    (¬∃ W : Rat → Prop, ∀ (i : Int) (f : Rat), 0 ≤ i → i ≤ 9 → 0 ≤ f → f < 10 →
      (W (Dial.wrap 10 (f - i)) → debounce i f = i) ∧
        (¬W (Dial.wrap 10 (f - i)) → debounce i f = ⌊f⌋)) ∧
      ¬Rotates 8 (15 / 2) 1 := by
  constructor
  · rintro ⟨W, hW⟩
    have hnine : Dial.wrap 10 ((17 / 2 : Rat) - (9 : Int)) = 19 / 2 :=
      (Dial.wrap_eq_iff (by norm_num)).mpr ⟨by norm_num, by norm_num, -1, by norm_num⟩
    have hfive : Dial.wrap 10 ((9 / 2 : Rat) - (5 : Int)) = 19 / 2 :=
      (Dial.wrap_eq_iff (by norm_num)).mpr ⟨by norm_num, by norm_num, -1, by norm_num⟩
    obtain ⟨-, hout⟩ := hW 9 (17 / 2) (by norm_num) (by norm_num) (by norm_num) (by norm_num)
    obtain ⟨hin, -⟩ := hW 5 (9 / 2) (by norm_num) (by norm_num) (by norm_num) (by norm_num)
    rw [hnine] at hout
    rw [hfive] at hin
    by_cases hmem : W (19 / 2)
    · exact absurd (hin hmem) (by decide +kernel)
    · exact absurd (hout hmem) (by decide +kernel)
  · have hwrap : Dial.wrap 10 ((15 / 2 : Rat) + (1 : Int)) = 17 / 2 :=
      (Dial.wrap_eq_iff (by norm_num)).mpr ⟨by norm_num, by norm_num, 0, by norm_num⟩
    rw [Rotates, hwrap]
    decide +kernel

end Debounce
end VzLogger.MeterOCR
