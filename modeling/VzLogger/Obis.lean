import VzLogger.Lib.CString

/-! # OBIS codes

An OBIS code is six bytes, written `A-B:C.D.E*F`.  `parse` is the parser of
`Obis.cpp` as it stands: one pass over the characters with the current field,
the number read so far, how many characters the field has, and whether it is one
of the letters `C`, `F`, `L`, `P`.  The number is an `int`, which wraps when it
overflows.
-/
namespace VzLogger

/-- The six bytes of an OBIS code. -/
structure Obis where
  media : UInt8
  channel : UInt8
  indicator : UInt8
  mode : UInt8
  quantities : UInt8
  storage : UInt8
  deriving DecidableEq, Repr

namespace Obis

/-- `DC`: not specified, not given. -/
def notGiven : UInt8 := 0xff

/-- All six bytes not given. -/
def allNotGiven : Obis := ⟨notGiven, notGiven, notGiven, notGiven, notGiven, notGiven⟩

/-- `_raw[field] = v`. -/
def setRaw (o : Obis) (field : Int) (v : UInt8) : Obis :=
  if field = 0 then { o with media := v }
  else if field = 1 then { o with channel := v }
  else if field = 2 then { o with indicator := v }
  else if field = 3 then { o with mode := v }
  else if field = 4 then { o with quantities := v }
  else { o with storage := v }

/-- The locals of the parser. -/
structure ParseState where
  raw : Obis
  num : Int
  field : Int
  digit : Nat
  hasSc : Bool

/-- The code of a letter that stands for a number. -/
def specialCode (byte : Char) : Option Int :=
  if byte = 'C' then some 96
  else if byte = 'F' then some 97
  else if byte = 'L' then some 98
  else if byte = 'P' then some 99
  else none

/-- The field that a separator ends, `none` where it may not stand. -/
def separatorField (byte : Char) (field : Int) : Option Int :=
  if byte = '-' ∧ field < 0 then some 0
  else if byte = ':' ∧ field < 1 then some 1
  else if byte = '.' ∧ field < 3 then some (if field < 2 then 2 else 3)
  else if (byte = '*' ∨ byte = '&') ∧ field = 3 then some 4
  else none

theorem separatorField_eq_some {c : Char} {field field' : Int} :
    separatorField c field = some field' ↔
      (c = '-' ∧ field < 0 ∧ field' = 0) ∨ (c = ':' ∧ field < 1 ∧ field' = 1) ∨
        (c = '.' ∧ field < 3 ∧ field' = if field < 2 then 2 else 3) ∨
        ((c = '*' ∨ c = '&') ∧ field = 3 ∧ field' = 4) := by
  unfold separatorField
  grind

/-- One character; `none` is `ERR`. -/
def parseByte (s : ParseState) (byte : Char) : Option ParseState :=
  let digit := s.digit + 1
  if byte.isDigit then
    if s.hasSc then none
    else
      let num := CString.toInt (s.num * 10 + (byte.toNat - '0'.toNat))
      some { s with num := num, digit := digit }
  else
    match specialCode byte with
    | some code =>
      if 1 < digit then none else some { s with num := code, hasSc := true, digit := digit }
    | none =>
      match separatorField byte s.field with
      | none => none
      | some field =>
        if s.num < 0 ∨ 255 < s.num then none
        else some ⟨s.raw.setRaw field (UInt8.ofInt s.num), 0, field, 0, false⟩

/-- `Obis::parse`; `none` is `ERR`.  The last field is stored without the range
check of the others. -/
def parse (str : List Char) : Option Obis :=
  match str.foldlM parseByte ⟨allNotGiven, 0, -1, 0, false⟩ with
  | none => none
  | some s =>
    let field := s.field + 1
    if field < 3 then none else some (s.raw.setRaw field (UInt8.ofInt s.num))

/-- `Obis::isValid`: a basic sanity check of the fields A, B and F. -/
def isValid (o : Obis) : Bool :=
  o.media ≤ 9 && o.channel ≤ 64 && (o.storage = notGiven || o.storage ≤ 99)

/-- `OBIS_STR_LEN`. -/
def obisStrLen : Nat := 6 * 3 + 5 + 1

/-- `Obis::unparse`: the text in a buffer of `n` characters, and the length that
`snprintf` returns. -/
def unparse (n : Nat) (o : Obis) : List Char × Nat :=
  let text := Decimal.ofNat o.media.toNat ++ '-' :: Decimal.ofNat o.channel.toNat ++ ':' ::
    Decimal.ofNat o.indicator.toNat ++ '.' :: Decimal.ofNat o.mode.toNat ++ '.' ::
    Decimal.ofNat o.quantities.toNat ++ '*' :: Decimal.ofNat o.storage.toNat
  (text.take (n - 1), text.length)

/-- `Obis::toString`. -/
def toString (o : Obis) : List Char :=
  Decimal.ofInt o.media.toNat ++ "-".toList ++ Decimal.ofInt o.channel.toNat ++ ":".toList ++
    Decimal.ofInt o.indicator.toNat ++ ".".toList ++ Decimal.ofInt o.mode.toNat ++ ".".toList ++
    Decimal.ofInt o.quantities.toNat ++ "*".toList ++ Decimal.ofInt o.storage.toNat

/-- The table of aliases, up to its stop row. -/
def aliases : List (Obis × List Char) :=
  let dc := notGiven
  [ (⟨1, 0, 1, 7, dc, dc⟩, "power".toList),
    (⟨1, 0, 21, 7, dc, dc⟩, "power-l1".toList),
    (⟨1, 0, 41, 7, dc, dc⟩, "power-l2".toList),
    (⟨1, 0, 61, 7, dc, dc⟩, "power-l3".toList),
    (⟨1, 0, 12, 7, dc, dc⟩, "voltage".toList),
    (⟨1, 0, 32, 7, dc, dc⟩, "voltage-l1".toList),
    (⟨1, 0, 52, 7, dc, dc⟩, "voltage-l2".toList),
    (⟨1, 0, 72, 7, dc, dc⟩, "voltage-l3".toList),
    (⟨1, 0, 11, 7, dc, dc⟩, "current".toList),
    (⟨1, 0, 31, 7, dc, dc⟩, "current-l1".toList),
    (⟨1, 0, 51, 7, dc, dc⟩, "current-l2".toList),
    (⟨1, 0, 71, 7, dc, dc⟩, "current-l3".toList),
    (⟨1, 0, 14, 7, 0, dc⟩, "frequency".toList),
    (⟨1, 0, 12, 7, 0, dc⟩, "powerfactor".toList),
    (⟨0, 0, 96, 1, dc, dc⟩, "device".toList),
    (⟨1, 0, 96, 5, 5, dc⟩, "status".toList),
    (⟨1, 0, 1, 8, dc, dc⟩, "counter".toList),
    (⟨1, 0, 2, 8, dc, dc⟩, "counter-out".toList),
    (⟨1, 0, 1, 8, 1, dc⟩, "esy-counter-t1".toList),
    (⟨1, 0, 1, 8, 2, dc⟩, "esy-counter-t2".toList),
    (⟨1, 0, 0, 0, 0, dc⟩, "hag-id".toList),
    (⟨1, 0, 96, 50, 0, 0⟩, "hag-status".toList),
    (⟨1, 0, 96, 50, 0, 1⟩, "hag-frequency".toList),
    (⟨1, 0, 96, 50, 0, 2⟩, "hag-temp".toList),
    (⟨1, 0, 96, 50, 0, 3⟩, "hag-temp-min".toList),
    (⟨1, 0, 96, 50, 0, 4⟩, "hag-temp-avg".toList),
    (⟨1, 0, 96, 50, 0, 5⟩, "hag-temp-max".toList),
    (⟨1, 0, 96, 50, 0, 6⟩, "hag-check".toList),
    (⟨1, 0, 96, 50, 0, 7⟩, "hag-diag".toList),
    (⟨255, 255, 16, 8, 0, 255⟩, "lg-counter-et".toList),
    (⟨255, 255, 16, 8, 1, 255⟩, "lg-counter-ht".toList),
    (⟨255, 255, 16, 8, 2, 255⟩, "lg-counter-lt".toList) ]

/-- `Obis::lookup_alias`. -/
def lookupAlias (name : List Char) : Option Obis :=
  (aliases.find? (fun row => row.2 = name)).map Prod.fst

/-- The constructor from a text; `none` where it throws. -/
def ofText (strClear : List Char) : Option Obis :=
  (parse strClear).orElse fun _ => lookupAlias strClear

example : ofText "1-0:1.8.0".toList = some ⟨1, 0, 1, 8, 0, 255⟩ := by decide
example : ofText "power".toList = some ⟨1, 0, 1, 7, 255, 255⟩ := by decide

end Obis
end VzLogger
