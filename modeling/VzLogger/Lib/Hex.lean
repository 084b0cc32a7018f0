import VzLogger.Lib.Strtod
import VzLogger.Lib.Window
import Mathlib.Algebra.Order.Ring.Nat
import Mathlib.Tactic.Ring

/-! # Hexadecimal numbers in C strings

`strtol` with base 16, and byte strings as pairs of digits.
-/
namespace CString

def isHexDigit (c : Char) : Bool := (hexDigit c).isSome

/-- `strtol(s, NULL, 16)`.  A `0x` without a digit behind it is a zero, too. -/
def strtolHex (longBits : Nat) (s : List Char) : Int :=
  let (negative, s) := sign (skipSpace s)
  let s := if startsWith "0x".toList s then s.drop 2 else s
  let n : Int := hexToNat (s.takeWhile isHexDigit)
  clampLong longBits (if negative then -n else n)

/-- A byte string, and a text with two digits for each byte. -/
inductive HexText : List UInt8 → List Char → Prop where
  | nil : HexText [] []
  | cons {h l : Char} {x y : Nat} {bytes : List UInt8} {hex : List Char} :
    hexDigit h = some x → hexDigit l = some y → HexText bytes hex →
      HexText (UInt8.ofNat (x * 16 + y) :: bytes) (h :: l :: hex)

/-! ## Digits -/

theorem hexDigit_lt {c : Char} {n : Nat} (h : hexDigit c = some n) : n < 16 := by
  unfold hexDigit at h
  split at h
  · rename_i hdigit
    obtain rfl := Option.some.inj h
    have hzero : '0'.toNat = 48 := rfl
    have hnine : '9'.toNat = 57 := rfl
    rw [Char.isDigit_iff_toNat] at hdigit
    omega
  · split at h
    · rename_i hletter
      obtain rfl := Option.some.inj h
      have ha : 'a'.toNat = 97 := rfl
      have hf : 'f'.toNat = 102 := rfl
      have hle : c.toLower.toNat ≤ 'f'.toNat := hletter.2
      omega
    · cases h

/-- A digit is no white space, no sign, and not the end of a string. -/
theorem isHexDigit_ne {c : Char} (h : isHexDigit c = true) :
    isSpace c = false ∧ c ≠ '-' ∧ c ≠ '+' ∧ c ≠ '\x00' := by
  refine ⟨?_, ?_, ?_, ?_⟩
  · by_contra hspace
    simp only [isSpace, List.mem_cons, List.not_mem_nil, or_false, decide_eq_true_eq,
      Bool.not_eq_false] at hspace
    rcases hspace with rfl | rfl | rfl | rfl | rfl | rfl <;> cases h
  · rintro rfl
    cases h
  · rintro rfl
    cases h
  · rintro rfl
    cases h

/-- Nor is it the letter of `0x`. -/
theorem toLower_ne_of_isHexDigit {c : Char} (h : isHexDigit c = true) : c.toLower ≠ 'x' := by
  intro hx
  have hdigits : ∀ n < 58, (Char.ofNat n).toLower ≠ 'x' := by decide
  rw [isHexDigit, hexDigit] at h
  split at h
  · rename_i hdigit
    have hnine : '9'.toNat = 57 := rfl
    rw [Char.isDigit_iff_toNat] at hdigit
    apply hdigits c.toNat (by omega)
    rwa [Char.ofNat_toNat]
  · rw [hx, if_neg (by decide)] at h
    cases h

theorem sign_of_isHexDigit {c : Char} (h : isHexDigit c = true) (s : List Char) :
    sign (c :: s) = (false, c :: s) := by
  obtain ⟨-, hminus, hplus, -⟩ := isHexDigit_ne h
  unfold sign
  split
  · rename_i heq
    exact absurd (List.cons.inj heq).1 hminus
  · rename_i heq
    exact absurd (List.cons.inj heq).1 hplus
  · rfl

/-! ## Texts -/

/-- Every byte string has a text. -/
theorem exists_text (bytes : List UInt8) : ∃ hex, HexText bytes hex := by
  have hdigit : ∀ n < 16, hexDigit ("0123456789abcdef".toList.getD n '0') = some n := by
    decide +kernel
  induction bytes with
  | nil => exact ⟨[], .nil⟩
  | cons b bytes ih =>
    obtain ⟨hex, hhex⟩ := ih
    have hb := b.toNat_lt
    have hcons := HexText.cons (hdigit (b.toNat / 16) (by omega))
      (hdigit (b.toNat % 16) (Nat.mod_lt _ (by decide))) hhex
    rw [Nat.div_add_mod', UInt8.ofNat_toNat] at hcons
    exact ⟨_, hcons⟩

/-- Every text of digits in pairs is that of a byte string. -/
theorem exists_bytes {n : Nat} {hex : List Char} (hlen : hex.length = 2 * n)
    (hdigits : ∀ c ∈ hex, isHexDigit c = true) : ∃ bytes, HexText bytes hex := by
  induction n generalizing hex with
  | zero =>
    obtain rfl := List.length_eq_zero_iff.mp hlen
    exact ⟨[], .nil⟩
  | succ n ih =>
    match hex, hlen with
    | h :: l :: hex, hlen =>
      simp only [List.forall_mem_cons] at hdigits
      obtain ⟨hh, hl, hdigits⟩ := hdigits
      obtain ⟨x, hx⟩ := Option.isSome_iff_exists.mp hh
      obtain ⟨y, hy⟩ := Option.isSome_iff_exists.mp hl
      simp only [List.length_cons] at hlen
      obtain ⟨bytes, hbytes⟩ := ih (show hex.length = 2 * n by omega) hdigits
      exact ⟨_, .cons hx hy hbytes⟩

/-! ## Numbers -/

theorem hexToNat_foldl (n : Nat) (ds : List Char) :
    ds.foldl (fun n c => n * 16 + (hexDigit c).getD 0) n = n * 16 ^ ds.length + hexToNat ds := by
  induction ds generalizing n with
  | nil => simp [hexToNat]
  | cons d ds ih =>
    rw [hexToNat, List.foldl_cons, List.foldl_cons, ih, ih, List.length_cons, pow_succ]
    ring

theorem hexToNat_append (ds es : List Char) :
    hexToNat (ds ++ es) = hexToNat ds * 16 ^ es.length + hexToNat es := by
  rw [hexToNat, List.foldl_append, hexToNat_foldl, ← hexToNat]

theorem hexToNat_lt (ds : List Char) : hexToNat ds < 16 ^ ds.length := by
  induction ds with
  | nil => decide
  | cons d ds ih =>
    have hone : hexToNat [d] < 16 := by
      cases hd : hexDigit d with
      | none => simp [hexToNat, hd]
      | some n => simpa [hexToNat, hd] using hexDigit_lt hd
    have happend := hexToNat_append [d] ds
    rw [List.singleton_append] at happend
    rw [happend, List.length_cons, pow_succ]
    nlinarith

theorem hexToNat_pair {h l : Char} {x y : Nat} (hh : hexDigit h = some x)
    (hl : hexDigit l = some y) : hexToNat [h, l] = x * 16 + y := by
  simp [hexToNat, hh, hl]

/-- The last byte of a number is that of its last two digits. -/
theorem hexToNat_mod {ds : List Char} (hlen : 2 ≤ ds.length) :
    hexToNat ds % 256 = hexToNat (Window.lastOf 2 ds) := by
  have hsplit : ds.take (ds.length - 2) ++ Window.lastOf 2 ds = ds := List.take_append_drop _ _
  have htwo : (Window.lastOf 2 ds).length = 2 := by
    rw [Window.lastOf, List.length_drop]
    omega
  have happend := hexToNat_append (ds.take (ds.length - 2)) (Window.lastOf 2 ds)
  have hlt := hexToNat_lt (Window.lastOf 2 ds)
  rw [hsplit, htwo] at happend
  rw [htwo] at hlt
  omega

/-- `strtol` on a pair of digits takes those behind it for a part of the number. -/
theorem strtolHex_pair {h l : Char} (hh : isHexDigit h = true) (hl : isHexDigit l = true)
    (longBits : Nat) (s : List Char) :
    strtolHex longBits (h :: l :: s) =
      clampLong longBits (hexToNat (h :: l :: s.takeWhile isHexDigit)) := by
  have hplain : startsWith "0x".toList (h :: l :: s) = false := by
    simp [startsWith, List.isPrefixOf, (toLower_ne_of_isHexDigit hl).symm]
  unfold strtolHex
  rw [skipSpace_cons_of_not (isHexDigit_ne hh).1, sign_of_isHexDigit hh]
  simp only [hplain, Bool.false_eq_true, if_false]
  rw [List.takeWhile_cons_of_pos hh, List.takeWhile_cons_of_pos hl]

end CString
