import VzLogger.Lib.Decimal
import Mathlib.Data.List.TakeWhile

/-! # Numbers and fields in C strings

`sscanf` for the conversions `%d`, `%u`, `%*d`, `%[…]` and `%<width>s`, `atoi`,
and the tokens of `strsep`.  A format is a list of directives.  A scan returns
the conversions it stored, in order; what the C function returns is their number
(its `EOF`, for a text that ends before the first of them, is none here).

An `int` has 32 bits.  `longBits` is the width of `long`, through which the C
library reads every number: a number too large for it is saturated first, and
then cut down to an `int`.
-/
namespace CString

/-- `isspace` in the C locale. -/
def isSpace (c : Char) : Bool := c ∈ [' ', '\t', '\n', '\x0b', '\x0c', '\r']

def skipSpace (s : List Char) : List Char := s.dropWhile isSpace

/-- What a C function sees of a string: `c_str()` up to the first NUL. -/
def cStr (s : List Char) : List Char := s.takeWhile (· ≠ '\x00')

/-- An optional sign: whether it is a minus, and the text after it. -/
def sign : List Char → Bool × List Char
  | '-' :: s => (true, s)
  | '+' :: s => (false, s)
  | s => (false, s)

/-- The decimal number at the start of a text, after white space, and the text
after it; `none` where there is no digit. -/
def number (s : List Char) : Option (Int × List Char) :=
  let (negative, s) := sign (skipSpace s)
  let digits := s.takeWhile Char.isDigit
  if digits = [] then none
  else some (if negative then -Decimal.toNat digits else Decimal.toNat digits,
    s.dropWhile Char.isDigit)

/-- The `int` with the same low 32 bits. -/
def toInt (z : Int) : Int := z.bmod (2 ^ 32)

/-- The `long` that `strtol` makes of a number. -/
def clampLong (longBits : Nat) (z : Int) : Int :=
  max (-2 ^ (longBits - 1)) (min (2 ^ (longBits - 1) - 1) z)

/-- The `unsigned long` that `strtoul` makes of a number, up to multiples of
`2 ^ longBits`. -/
def clampUnsignedLong (longBits : Nat) (z : Int) : Int :=
  if 2 ^ longBits ≤ z.natAbs then 2 ^ longBits - 1 else z

/-- `strtol(s, NULL, 10)`. -/
def strtol (longBits : Nat) (s : List Char) : Int :=
  match number s with
  | none => 0
  | some (z, _) => clampLong longBits z

/-- `atoi`. -/
def atoi (longBits : Nat) (s : List Char) : Int := toInt (strtol longBits s)

inductive Directive where
  /-- white space, any amount of it -/
  | space
  | char (c : Char)
  /-- `%d` or `%u` into an `int`; a `*` suppresses the store -/
  | number (signed store : Bool)
  /-- `%[…]` -/
  | scanset (accept : Char → Bool)
  /-- `%<width>s` -/
  | word (width : Nat)

/-- The characters of a format that stand for themselves. -/
def literal (s : List Char) : List Directive := s.map .char

inductive Value where
  | int (z : Int)
  | text (s : List Char)
  deriving DecidableEq

def sscanf (longBits : Nat) : List Directive → List Char → List Value
  | [], _ => []
  | .space :: format, s => sscanf longBits format (skipSpace s)
  | .char _ :: _, [] => []
  | .char c :: format, d :: s => if d = c then sscanf longBits format s else []
  | .number signed store :: format, s =>
    match number s with
    | none => []
    | some (z, s) =>
      let z := toInt (if signed then clampLong longBits z else clampUnsignedLong longBits z)
      if store then .int z :: sscanf longBits format s else sscanf longBits format s
  | .scanset accept :: format, s =>
    let field := s.takeWhile accept
    if field = [] then [] else .text field :: sscanf longBits format (s.dropWhile accept)
  | .word width :: format, s =>
    let s := skipSpace s
    let field := (s.takeWhile fun c => !isSpace c).take width
    if field = [] then [] else .text field :: sscanf longBits format (s.drop field.length)

/-- What successive calls of `strsep` return, until the cursor is `NULL`. -/
def tokens (delim : List Char) (s : List Char) : List (List Char) := s.splitOnP (· ∈ delim)

/-! ## Numbers -/

@[simp] theorem skipSpace_cons_of_not {c : Char} (h : isSpace c = false) (s : List Char) :
    skipSpace (c :: s) = c :: s := by
  simp [skipSpace, h]

theorem isSpace_of_isDigit {c : Char} (h : c.isDigit = true) : isSpace c = false := by
  by_contra hc
  simp only [isSpace, List.mem_cons, List.not_mem_nil, or_false, decide_eq_true_eq,
    Bool.not_eq_false] at hc
  rcases hc with rfl | rfl | rfl | rfl | rfl | rfl <;> cases h

theorem sign_of_isDigit {c : Char} (h : c.isDigit = true) (s : List Char) :
    sign (c :: s) = (false, c :: s) := by
  unfold sign
  split
  · rename_i heq
    obtain ⟨rfl, -⟩ := List.cons.inj heq
    cases h
  · rename_i heq
    obtain ⟨rfl, -⟩ := List.cons.inj heq
    cases h
  · rfl

/-- A printed number reads back, up to the first character that is not a digit. -/
theorem number_ofNat (n : Nat) {rest : List Char} (h : ∀ c ∈ rest.head?, c.isDigit = false) :
    number (Decimal.ofNat n ++ rest) = some ((n : Int), rest) := by
  obtain ⟨c, ds, hds⟩ := List.exists_cons_of_ne_nil (Decimal.ofNat_ne_nil n)
  have hdigit : ∀ d ∈ Decimal.ofNat n, d.isDigit = true := fun d => Decimal.isDigit_of_mem_ofNat
  have hc : c.isDigit = true := hdigit c (by rw [hds]; exact List.mem_cons_self)
  have hsign : sign (skipSpace (Decimal.ofNat n ++ rest)) = (false, Decimal.ofNat n ++ rest) := by
    rw [hds, List.cons_append, skipSpace_cons_of_not (isSpace_of_isDigit hc), sign_of_isDigit hc]
  have hstop : rest.takeWhile Char.isDigit = [] ∧ rest.dropWhile Char.isDigit = rest := by
    cases rest with
    | nil => exact ⟨rfl, rfl⟩
    | cons d rest => simp [h d rfl]
  rw [number, hsign]
  simp only [List.takeWhile_append_of_pos hdigit, List.dropWhile_append_of_pos hdigit, hstop.1,
    hstop.2, List.append_nil, Decimal.ofNat_ne_nil, ↓reduceIte, Bool.false_eq_true,
    Decimal.toNat_ofNat]

/-- A number within the range of an `int` is left as it is. -/
theorem toInt_of_mem {z : Int} (hlo : -2 ^ 31 ≤ z) (hhi : z < 2 ^ 31) : toInt z = z := by
  apply Int.bmod_eq_of_le_mul_two <;> omega

/-- A number just above the range of an `int` is taken for a negative one. -/
theorem toInt_of_le {z : Int} (hlo : 2 ^ 31 ≤ z) (hhi : z < 2 ^ 32) : toInt z = z - 2 ^ 32 := by
  simp only [toInt, Int.bmod]
  omega

theorem neg_le_toInt (z : Int) : -2 ^ 31 ≤ toInt z := by
  have h := Int.le_bmod (x := z) (show 0 < 2 ^ 32 by decide)
  simp only [toInt]
  omega

theorem toInt_lt (z : Int) : toInt z < 2 ^ 31 := by
  have h := Int.bmod_lt (x := z) (show 0 < 2 ^ 32 by decide)
  simp only [toInt]
  omega

/-- The least `int` has no negative. -/
theorem toInt_neg {z : Int} (h : toInt z ≠ -2 ^ 31) : toInt (-z) = -toInt z := by
  simp only [toInt, Int.bmod] at *
  omega

theorem toInt_neg_min {z : Int} (h : toInt z = -2 ^ 31) : toInt (-z) = -2 ^ 31 := by
  simp only [toInt, Int.bmod] at *
  omega

/-- `atoi` returns an `int`. -/
theorem neg_le_atoi (longBits : Nat) (s : List Char) : -2 ^ 31 ≤ atoi longBits s :=
  neg_le_toInt (strtol longBits s)

/-- A number that fits into an `int` passes through `long`. -/
theorem clampLong_of_lt {longBits : Nat} (hbits : 32 ≤ longBits) {n : Nat} (hn : n < 2 ^ 31) :
    clampLong longBits n = n := by
  have hpow : (2 : Int) ^ 31 ≤ 2 ^ (longBits - 1) := pow_le_pow_right₀ (by decide) (by omega)
  unfold clampLong
  omega

theorem atoi_ofNat {longBits : Nat} (hbits : 32 ≤ longBits) {n : Nat} (hn : n < 2 ^ 31) :
    atoi longBits (Decimal.ofNat n) = n := by
  have hnum : number (Decimal.ofNat n ++ []) = some ((n : Int), []) := number_ofNat n (by simp)
  rw [List.append_nil] at hnum
  simp only [atoi, strtol, hnum, clampLong_of_lt hbits hn]
  exact toInt_of_mem (by omega) (by omega)

/-- A number below `2 ^ 32` passes through `unsigned long`. -/
theorem clampUnsignedLong_of_lt {longBits : Nat} (hbits : 32 ≤ longBits) {n : Nat}
    (hn : n < 2 ^ 32) : clampUnsignedLong longBits n = n := by
  have hpow : 2 ^ 32 ≤ 2 ^ longBits := Nat.pow_le_pow_right (by decide) hbits
  unfold clampUnsignedLong
  rw [if_neg]
  rw [Int.natAbs_natCast]
  omega

/-! ## Scans -/

@[simp] theorem sscanf_literal (longBits : Nat) (l : List Char) (format : List Directive)
    (s : List Char) :
    sscanf longBits (literal l ++ format) (l ++ s) = sscanf longBits format s := by
  induction l with
  | nil => rfl
  | cons c l ih => exact (if_pos rfl).trans ih

@[simp] theorem sscanf_char (longBits : Nat) (c : Char) (format : List Directive) (s : List Char) :
    sscanf longBits (.char c :: format) (c :: s) = sscanf longBits format s := if_pos rfl

/-- A word that fits into its width, at the end of the text. -/
theorem sscanf_word {longBits width : Nat} {w : List Char} (hne : w ≠ [])
    (hspace : ∀ c ∈ w, isSpace c = false) (hlen : w.length ≤ width) :
    sscanf longBits [.word width] w = [.text w] := by
  have hskip : skipSpace w = w := by
    obtain ⟨c, w, rfl⟩ := List.exists_cons_of_ne_nil hne
    exact skipSpace_cons_of_not (hspace c List.mem_cons_self) w
  have htake : (w.takeWhile fun c => !isSpace c).take width = w := by
    rw [List.takeWhile_eq_self_iff.mpr (by simpa using hspace), List.take_of_length_le hlen]
  simp only [sscanf, hskip, htake, hne, ↓reduceIte]

/-- A number is read up to where it ends. -/
theorem sscanf_number {s rest : List Char} {z : Int} (h : number s = some (z, rest))
    (longBits : Nat) (signed store : Bool) (format : List Directive) :
    sscanf longBits (.number signed store :: format) s =
      (if store then
        [.int (toInt (if signed then clampLong longBits z else clampUnsignedLong longBits z))]
      else []) ++ sscanf longBits format rest := by
  simp only [sscanf, h]
  cases store <;> rfl

theorem sscanf_unsigned {longBits : Nat} (hbits : 32 ≤ longBits) {n : Nat} (hn : n < 2 ^ 32)
    (format : List Directive) {rest : List Char} (h : ∀ c ∈ rest.head?, c.isDigit = false) :
    sscanf longBits (.number false true :: format) (Decimal.ofNat n ++ rest) =
      .int (toInt n) :: sscanf longBits format rest := by
  rw [sscanf_number (number_ofNat n h), if_pos rfl, if_neg Bool.false_ne_true,
    clampUnsignedLong_of_lt hbits hn]
  rfl

/-- A printed number that fits into an `int`. -/
theorem sscanf_signed {longBits : Nat} (hbits : 32 ≤ longBits) {n : Nat} (hn : n < 2 ^ 31)
    (store : Bool) (format : List Directive) {rest : List Char}
    (h : ∀ c ∈ rest.head?, c.isDigit = false) :
    sscanf longBits (.number true store :: format) (Decimal.ofNat n ++ rest) =
      (if store then [.int n] else []) ++ sscanf longBits format rest := by
  have hvalue : toInt (clampLong longBits n) = n := by
    rw [clampLong_of_lt hbits hn, toInt_of_mem (by omega) (by omega)]
  rw [sscanf_number (number_ofNat n h), if_pos rfl, hvalue]

theorem sscanf_space (longBits : Nat) (format : List Directive) (s : List Char) :
    sscanf longBits (.space :: format) s = sscanf longBits format (skipSpace s) := rfl

/-- A field of accepted characters, up to the first that is not. -/
theorem sscanf_scanset {longBits : Nat} {accept : Char → Bool} {field rest : List Char}
    (hne : field ≠ []) (hfield : ∀ c ∈ field, accept c = true)
    (hrest : ∀ c ∈ rest.head?, accept c = false) (format : List Directive) :
    sscanf longBits (.scanset accept :: format) (field ++ rest) =
      .text field :: sscanf longBits format rest := by
  have hstop : rest.takeWhile accept = [] ∧ rest.dropWhile accept = rest := by
    cases rest with
    | nil => exact ⟨rfl, rfl⟩
    | cons c rest => simp [hrest c rfl]
  simp only [sscanf, List.takeWhile_append_of_pos hfield, List.dropWhile_append_of_pos hfield,
    hstop.1, hstop.2, List.append_nil, hne, ↓reduceIte]

/-- A text that does not start as the format does stores nothing. -/
theorem sscanf_literal_eq_nil (longBits : Nat) {l s : List Char} (h : ¬l <+: s)
    (format : List Directive) : sscanf longBits (literal l ++ format) s = [] := by
  induction l generalizing s with
  | nil => exact absurd List.nil_prefix h
  | cons c l ih =>
    cases s with
    | nil => rfl
    | cons d s =>
      show (if d = c then sscanf longBits (literal l ++ format) s else []) = []
      by_cases hdc : d = c
      · subst hdc
        rw [if_pos rfl]
        exact ih fun hl => h ((List.cons_prefix_cons).mpr ⟨rfl, hl⟩)
      · rw [if_neg hdc]

end CString
