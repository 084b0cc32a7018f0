import VzLogger.Lib.CString

/-! # `strtod`

The number at the start of a text, as `strtod` reads it in the C locale: after
white space and a sign a decimal or hexadecimal floating-point number, or the
words for an infinity and for "not a number".  A finite number is an exact
rational; the rounding to `double` is not modelled.
-/
namespace CString

inductive Double where
  | finite (q : Rat)
  | infinity (negative : Bool)
  | nan
  deriving DecidableEq, Repr

/-- `a < b` for two `double`s; nothing compares with "not a number". -/
def Double.lt : Double → Double → Bool
  | .finite p, .finite q => p < q
  | .finite _, .infinity negative => !negative
  | .infinity negative, .finite _ => negative
  | .infinity negative, .infinity negative' => negative && !negative'
  | _, _ => false

/-- The value of a hexadecimal digit. -/
def hexDigit (c : Char) : Option Nat :=
  if c.isDigit then some (c.toNat - '0'.toNat)
  else if 'a' ≤ c.toLower ∧ c.toLower ≤ 'f' then some (c.toLower.toNat - 'a'.toNat + 10)
  else none

def hexToNat (ds : List Char) : Nat := ds.foldl (fun n c => n * 16 + (hexDigit c).getD 0) 0

/-- The digits before and after the point, and the text behind them; `none` where
there are no digits. -/
def mantissa (isDigit : Char → Bool) (s : List Char) :
    Option (List Char × List Char × List Char) :=
  let whole := s.takeWhile isDigit
  let (fraction, rest) :=
    match s.dropWhile isDigit with
    | '.' :: r => (r.takeWhile isDigit, r.dropWhile isDigit)
    | r => ([], r)
  if whole ++ fraction = [] then none else some (whole, fraction, rest)

/-- The exponent behind `marker`, 0 where there is none. -/
def exponent (marker : Char) : List Char → Int
  | [] => 0
  | c :: s =>
    if c.toLower = marker then
      let (negative, s) := sign s
      let digits := s.takeWhile Char.isDigit
      if negative then -Decimal.toNat digits else Decimal.toNat digits
    else 0

/-- A hexadecimal number behind `0x`. -/
def hexFloat (s : List Char) : Option Rat :=
  (mantissa (fun c => (hexDigit c).isSome) s).map fun (whole, fraction, rest) =>
    (hexToNat (whole ++ fraction) : Rat) * 2 ^ (exponent 'p' rest - 4 * (fraction.length : Int))

def decimalFloat (s : List Char) : Option Rat :=
  (mantissa Char.isDigit s).map fun (whole, fraction, rest) =>
    (Decimal.toNat (whole ++ fraction) : Rat) * 10 ^ (exponent 'e' rest - (fraction.length : Int))

/-- The text starts with a word, in any case. -/
def startsWith (word s : List Char) : Bool := word.isPrefixOf (s.map Char.toLower)

/-- `strtod(s, NULL)`. -/
def strtod (s : List Char) : Double :=
  let (negative, s) := sign (skipSpace s)
  if startsWith "inf".toList s then .infinity negative
  else if startsWith "nan".toList s then .nan
  else
    let hex := if startsWith "0x".toList s then hexFloat (s.drop 2) else none
    let q := (hex.orElse fun _ => decimalFloat s).getD 0
    .finite (if negative then -q else q)

/-- Whether `strtod(s, &endptr)` moves `endptr` away from `s`. -/
def hasNumber (s : List Char) : Bool :=
  let (_, s) := sign (skipSpace s)
  if startsWith "inf".toList s then true
  else if startsWith "nan".toList s then true
  else
    let hex := if startsWith "0x".toList s then hexFloat (s.drop 2) else none
    (hex.orElse fun _ => decimalFloat s).isSome

/-- Without a number the result is zero. -/
theorem strtod_of_not_hasNumber {s : List Char} (h : hasNumber s = false) :
    strtod s = .finite 0 := by
  unfold hasNumber at h
  unfold strtod
  dsimp only at h ⊢
  split at h
  · cases h
  · split at h
    · cases h
    · rename_i hinf hnan
      have hnone := Option.not_isSome_iff_eq_none.mp (by rw [h]; decide)
      rw [if_neg hinf, if_neg hnan, hnone]
      simp

example : strtod " -001846.05*".toList = .finite (-184605 / 100) := by decide +kernel
example : strtod "0x1.8p1".toList = .finite 3 := by decide +kernel

end CString
