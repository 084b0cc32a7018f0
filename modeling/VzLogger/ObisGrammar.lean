import VzLogger.Obis

/-! # The grammar of OBIS codes

A code is written `[A-][B:]C.D[.E[*F]]`, with `&` allowed for `*`.  What the
parser accepts is that form with looser fields: a field may be empty, the last
one may have any value, and the range check of the others sees a number that has
wrapped.  On the codes the grammar has, the parser is exact, and it reads back
what `unparse` prints.
-/
namespace VzLogger.Obis

/-- The texts of the fields of a code; `F` says whether `&` stands before it. -/
structure Fields where
  a : Option (List Char)
  b : Option (List Char)
  c : List Char
  d : List Char
  ef : Option (List Char × Option (Bool × List Char))

namespace Fields

/-- `[.E[*F]]`. -/
def textEF : Option (List Char × Option (Bool × List Char)) → List Char
  | none => []
  | some (e, none) => '.' :: e
  | some (e, some (ampersand, f)) => '.' :: e ++ (if ampersand then '&' else '*') :: f

/-- `[A-][B:]C.D[.E[*F]]`. -/
def text (p : Fields) : List Char :=
  p.a.elim [] (· ++ ['-']) ++ p.b.elim [] (· ++ [':']) ++ p.c ++ '.' :: p.d ++ textEF p.ef

def givenEF : Option (List Char × Option (Bool × List Char)) → List (List Char)
  | none => []
  | some (e, none) => [e]
  | some (e, some (_, f)) => [e, f]

/-- The fields that are given, in order. -/
def given (p : Fields) : List (List Char) :=
  p.a.toList ++ p.b.toList ++ p.c :: p.d :: givenEF p.ef

end Fields

/-- What a field says: the code of its letter, or its number. -/
def fieldValue (t : List Char) : Int :=
  (t.head?.bind specialCode).getD (Decimal.toNat t)

def fieldByte (t : List Char) : UInt8 := UInt8.ofInt (fieldValue t)

/-- Digits only, or one letter. -/
def IsFieldText (t : List Char) : Prop :=
  (∀ c ∈ t, c.isDigit = true) ∨ ∃ c, t = [c] ∧ specialCode c ≠ none

/-- A decimal number from 0 to 255, or one letter. -/
def IsField (t : List Char) : Prop := t ≠ [] ∧ IsFieldText t ∧ fieldValue t ≤ 255

/-- The six bytes of a code, the wildcard for every field that is not given. -/
def Fields.code (p : Fields) : Obis :=
  ⟨p.a.elim notGiven fieldByte, p.b.elim notGiven fieldByte, fieldByte p.c, fieldByte p.d,
    p.ef.elim notGiven fun ef => fieldByte ef.1,
    p.ef.elim notGiven fun ef => ef.2.elim notGiven fun f => fieldByte f.2⟩

/-- The text has the form of a code, and denotes `o`. -/
def Denotes (s : List Char) (o : Obis) : Prop :=
  ∃ p : Fields, p.text = s ∧ (∀ t ∈ p.given, IsField t) ∧ p.code = o

/-- What the range check of the parser sees of a field: the number as an `int`. -/
def PassesCheck (t : List Char) : Prop :=
  0 ≤ CString.toInt (fieldValue t) ∧ CString.toInt (fieldValue t) ≤ 255

instance (t : List Char) : Decidable (PassesCheck t) :=
  inferInstanceAs (Decidable (_ ∧ _))

/-! ## One field -/

def isSeparator (c : Char) : Bool := c ∈ ['-', ':', '.', '*', '&']

/-- The parser at the start of a field. -/
def atField (raw : Obis) (field : Int) : ParseState := ⟨raw, 0, field, 0, false⟩

theorem separatorField_of_not {c : Char} (h : isSeparator c = false) (field : Int) :
    separatorField c field = none := by
  simp only [isSeparator, List.mem_cons, List.not_mem_nil, or_false, decide_eq_false_iff_not,
    not_or] at h
  obtain ⟨hminus, hcolon, hdot, hstar, hamp⟩ := h
  simp [separatorField, hminus, hcolon, hdot, hstar, hamp]

theorem isDigit_of_isSeparator {c : Char} (h : isSeparator c = true) : c.isDigit = false := by
  simp only [isSeparator, List.mem_cons, List.not_mem_nil, or_false, decide_eq_true_eq] at h
  rcases h with rfl | rfl | rfl | rfl | rfl <;> rfl

theorem specialCode_of_isSeparator {c : Char} (h : isSeparator c = true) :
    specialCode c = none := by
  simp only [isSeparator, List.mem_cons, List.not_mem_nil, or_false, decide_eq_true_eq] at h
  rcases h with rfl | rfl | rfl | rfl | rfl <;> rfl

theorem specialCode_of_isDigit {c : Char} (h : c.isDigit = true) : specialCode c = none := by
  unfold specialCode
  repeat rw [if_neg (by rintro rfl; cases h)]

/-- The codes of the letters pass the range check. -/
theorem specialCode_le {c : Char} {code : Int} (h : specialCode c = some code) :
    0 ≤ code ∧ code ≤ 255 := by
  unfold specialCode at h
  split at h
  · cases h; decide
  split at h
  · cases h; decide
  split at h
  · cases h; decide
  split at h
  · cases h; decide
  · cases h

theorem isDigit_of_specialCode {c : Char} (h : specialCode c ≠ none) : c.isDigit = false := by
  by_contra hc
  exact h (specialCode_of_isDigit (by simpa using hc))

/-- One more digit in an `int`. -/
theorem toInt_digit (n d : Int) :
    CString.toInt (CString.toInt n * 10 + d) = CString.toInt (n * 10 + d) := by
  unfold CString.toInt
  rw [← Int.bmod_add_bmod (x := Int.bmod n (2 ^ 32) * 10), Int.bmod_mul_bmod, Int.bmod_add_bmod]

theorem parseByte_isDigit {c : Char} (h : c.isDigit = true) (raw : Obis) (num field : Int)
    (digit : Nat) : parseByte ⟨raw, num, field, digit, false⟩ c =
      some ⟨raw, CString.toInt (num * 10 + (c.toNat - '0'.toNat)), field, digit + 1, false⟩ := by
  simp [parseByte, h]

/-- A run of digits leaves its number as an `int`. -/
theorem foldlM_digits {ds : List Char} (h : ∀ c ∈ ds, c.isDigit = true) (raw : Obis) (n : Nat)
    (field : Int) (digit : Nat) :
    ds.foldlM parseByte ⟨raw, CString.toInt n, field, digit, false⟩ =
      some ⟨raw, CString.toInt (Nat.ofDigitChars 10 ds n), field, digit + ds.length, false⟩ := by
  induction ds generalizing n digit with
  | nil => rfl
  | cons c ds ih =>
    obtain ⟨hc, hds⟩ := List.forall_mem_cons.mp h
    have hge : '0'.toNat ≤ c.toNat := (Char.isDigit_iff_toNat.mp hc).1
    have hnum : CString.toInt n * 10 + ((c.toNat : Int) - ('0'.toNat : Int)) =
        CString.toInt n * 10 + ((c.toNat - '0'.toNat : Nat) : Int) := by omega
    rw [List.foldlM_cons, parseByte_isDigit hc, hnum, toInt_digit]
    have hstep := ih hds (10 * n + (c.toNat - '0'.toNat)) (digit + 1)
    rw [Nat.ofDigitChars_cons, List.length_cons, show digit + (ds.length + 1) =
      digit + 1 + ds.length by omega, ← hstep]
    push_cast
    rw [Int.mul_comm 10]
    rfl

/-- After its first character a field goes on with digits only, and not at all
after a letter. -/
theorem digits_of_foldlM {t : List Char} (hsep : ∀ c ∈ t, isSeparator c = false) {s s' : ParseState}
    (hdigit : 0 < s.digit) (h : t.foldlM parseByte s = some s') :
    (s.hasSc = true → t = []) ∧ ∀ c ∈ t, c.isDigit = true := by
  induction t generalizing s with
  | nil => simp
  | cons c t ih =>
    obtain ⟨hc, ht⟩ := List.forall_mem_cons.mp hsep
    rw [List.foldlM_cons] at h
    obtain ⟨s₁, h₁, h⟩ := Option.bind_eq_some_iff.mp h
    simp only [parseByte] at h₁
    split at h₁
    · next hd =>
      obtain ⟨hsc, h₁⟩ := Option.ite_none_left_eq_some.mp h₁
      obtain rfl := Option.some.inj h₁
      have hrest := ih ht (Nat.succ_pos _) h
      exact ⟨fun h => absurd h hsc, List.forall_mem_cons.mpr ⟨hd, hrest.2⟩⟩
    · split at h₁
      · rw [if_pos (by omega)] at h₁
        cases h₁
      · rw [separatorField_of_not hc] at h₁
        cases h₁

theorem specialCode_head_of_digits {t : List Char} (h : ∀ c ∈ t, c.isDigit = true) :
    t.head?.bind specialCode = none := by
  cases t with
  | nil => rfl
  | cons c t => exact specialCode_of_isDigit (h c List.mem_cons_self)

theorem not_isSeparator_of_isFieldText {t : List Char} (h : IsFieldText t) :
    ∀ c ∈ t, isSeparator c = false := by
  intro c hc
  by_contra hsep
  rw [Bool.not_eq_false] at hsep
  rcases h with h | ⟨d, rfl, hd⟩
  · have hdigit := h c hc
    rw [isDigit_of_isSeparator hsep] at hdigit
    cases hdigit
  · rw [List.mem_singleton.mp hc] at hsep
    exact hd (specialCode_of_isSeparator hsep)

/-- A field is digits or one letter, and leaves its value as an `int`. -/
theorem foldlM_atField {t : List Char} (hsep : ∀ c ∈ t, isSeparator c = false) {raw : Obis}
    {field : Int} {s : ParseState} (h : t.foldlM parseByte (atField raw field) = some s) :
    IsFieldText t ∧ s.raw = raw ∧ s.field = field ∧ s.num = CString.toInt (fieldValue t) := by
  cases t with
  | nil =>
    obtain rfl := Option.some.inj h
    exact ⟨.inl (by simp), rfl, rfl, rfl⟩
  | cons c t =>
    obtain ⟨hc, ht⟩ := List.forall_mem_cons.mp hsep
    by_cases hd : c.isDigit = true
    · -- a number: all further characters are digits too
      have hdigits : ∀ d ∈ c :: t, d.isDigit = true := by
        rw [List.foldlM_cons, atField, parseByte_isDigit hd] at h
        exact List.forall_mem_cons.mpr ⟨hd, (digits_of_foldlM ht (Nat.succ_pos _) h).2⟩
      have hrun := foldlM_digits hdigits raw 0 field 0
      obtain rfl := Option.some.inj (h.symm.trans hrun)
      refine ⟨.inl hdigits, rfl, rfl, ?_⟩
      rw [fieldValue, specialCode_head_of_digits hdigits, Option.getD_none, Decimal.toNat]
    · -- a letter: nothing may follow it
      rw [List.foldlM_cons] at h
      obtain ⟨s₁, h₁, h⟩ := Option.bind_eq_some_iff.mp h
      simp only [parseByte, hd, Bool.false_eq_true, ↓reduceIte] at h₁
      cases hcode : specialCode c with
      | none =>
        rw [hcode, separatorField_of_not hc] at h₁
        cases h₁
      | some code =>
        rw [hcode] at h₁
        obtain rfl := Option.some.inj h₁
        obtain rfl := (digits_of_foldlM ht (Nat.succ_pos _) h).1 rfl
        obtain rfl := Option.some.inj h
        have hrange := specialCode_le hcode
        refine ⟨.inr ⟨c, rfl, by simp [hcode]⟩, rfl, rfl, ?_⟩
        rw [fieldValue, List.head?_cons, Option.bind_some, hcode]
        exact (CString.toInt_of_mem (z := code) (by omega) (by omega)).symm

theorem exists_foldlM_atField {t : List Char} (h : IsFieldText t) (raw : Obis) (field : Int) :
    ∃ s, t.foldlM parseByte (atField raw field) = some s := by
  rcases h with hdigits | ⟨c, rfl, hc⟩
  · exact ⟨_, foldlM_digits hdigits raw 0 field 0⟩
  · obtain ⟨code, hcode⟩ := Option.ne_none_iff_exists'.mp hc
    refine ⟨⟨raw, code, field, 1, true⟩, ?_⟩
    simp [atField, parseByte, hcode, isDigit_of_specialCode hc]

/-! ## Field after field -/

/-- The parser from the start of a field on. -/
def parseFrom (raw : Obis) (field : Int) (s : List Char) : Option Obis :=
  (s.foldlM parseByte (atField raw field)).bind fun s =>
    if s.field + 1 < 3 then none else some (s.raw.setRaw (s.field + 1) (UInt8.ofInt s.num))

theorem parse_eq_parseFrom (s : List Char) : parse s = parseFrom allNotGiven (-1) s := by
  unfold parse parseFrom atField
  cases s.foldlM parseByte ⟨allNotGiven, 0, -1, 0, false⟩ <;> rfl

/-- A byte keeps the low bits of an `int`. -/
theorem ofInt_toInt (z : Int) : UInt8.ofInt (CString.toInt z) = UInt8.ofInt z := by
  have h : CString.toInt z % 2 ^ 8 = z % 2 ^ 8 := by
    have hmod := Int.bmod_emod (x := z) (m := 2 ^ 32)
    unfold CString.toInt
    omega
  simp only [UInt8.ofInt, h]

/-- The last field: the range check is not made. -/
theorem parseFrom_field {t : List Char} (hsep : ∀ c ∈ t, isSeparator c = false) {raw : Obis}
    {field : Int} {o : Obis} : parseFrom raw field t = some o ↔
      IsFieldText t ∧ 2 ≤ field ∧ o = raw.setRaw (field + 1) (fieldByte t) := by
  constructor
  · intro hparse
    obtain ⟨s, hs, h⟩ := Option.bind_eq_some_iff.mp hparse
    clear hparse
    obtain ⟨hfield, rfl, rfl, hnum⟩ := foldlM_atField hsep hs
    obtain ⟨hlt, h⟩ := Option.ite_none_left_eq_some.mp h
    rw [hnum, ofInt_toInt] at h
    exact ⟨hfield, by omega, (Option.some.inj h).symm⟩
  · rintro ⟨hfield, hlt, rfl⟩
    obtain ⟨s, hs⟩ := exists_foldlM_atField hfield raw field
    obtain ⟨-, hraw, hf, hnum⟩ := foldlM_atField hsep hs
    rw [parseFrom, hs, Option.bind_some, if_neg (by omega), hraw, hf, hnum, ofInt_toInt, fieldByte]

/-- A field and the separator after it. -/
theorem parseFrom_separator {t : List Char} (hsep : ∀ c ∈ t, isSeparator c = false) {c : Char}
    (hc : isSeparator c = true) {r : List Char} {raw : Obis} {field : Int} {o : Obis} :
    parseFrom raw field (t ++ c :: r) = some o ↔
      IsFieldText t ∧ PassesCheck t ∧ ∃ field', separatorField c field = some field' ∧
        parseFrom (raw.setRaw field' (fieldByte t)) field' r = some o := by
  have hstep : ∀ s : ParseState, s.raw = raw → s.field = field →
      s.num = CString.toInt (fieldValue t) → parseByte s c =
        (separatorField c field).bind fun field' =>
          if PassesCheck t then some (atField (raw.setRaw field' (fieldByte t)) field')
          else none := by
    rintro s rfl rfl hnum
    simp only [parseByte, isDigit_of_isSeparator hc, specialCode_of_isSeparator hc,
      Bool.false_eq_true, ↓reduceIte]
    cases separatorField c s.field with
    | none => rfl
    | some field' =>
      by_cases hcheck : PassesCheck t
      · have hcheck' : ¬(s.num < 0 ∨ 255 < s.num) := by
          unfold PassesCheck at hcheck
          omega
        have hbyte : fieldByte t = UInt8.ofInt s.num := by rw [hnum, ofInt_toInt, fieldByte]
        rw [Option.bind_some, if_pos hcheck, hbyte]
        exact if_neg hcheck'
      · have hcheck' : s.num < 0 ∨ 255 < s.num := by
          unfold PassesCheck at hcheck
          omega
        rw [Option.bind_some, if_neg hcheck]
        exact if_pos hcheck'
  constructor
  · intro h
    rw [parseFrom, List.foldlM_append] at h
    obtain ⟨s, h, hlast⟩ := Option.bind_eq_some_iff.mp h
    obtain ⟨s₁, hs₁, h⟩ := Option.bind_eq_some_iff.mp h
    obtain ⟨hfield, hraw, hf, hnum⟩ := foldlM_atField hsep hs₁
    rw [List.foldlM_cons, hstep s₁ hraw hf hnum] at h
    obtain ⟨s₂, hs₂, h⟩ := Option.bind_eq_some_iff.mp h
    obtain ⟨field', hfield', hs₂⟩ := Option.bind_eq_some_iff.mp hs₂
    obtain ⟨hcheck, hs₂⟩ := Option.ite_some_none_eq_some.mp hs₂
    refine ⟨hfield, hcheck, field', hfield', ?_⟩
    rw [parseFrom, hs₂, h]
    exact hlast
  · rintro ⟨hfield, hcheck, field', hfield', h⟩
    obtain ⟨s₁, hs₁⟩ := exists_foldlM_atField hfield raw field
    obtain ⟨-, hraw, hf, hnum⟩ := foldlM_atField hsep hs₁
    rw [parseFrom, List.foldlM_append, hs₁]
    show ((c :: r).foldlM parseByte s₁).bind _ = some o
    rw [List.foldlM_cons, hstep s₁ hraw hf hnum, hfield', Option.bind_some, if_pos hcheck]
    exact h

/-- A text is one field, or a field, a separator and the rest. -/
theorem exists_cut (s : List Char) :
    (∀ c ∈ s, isSeparator c = false) ∨ ∃ t c r, s = t ++ c :: r ∧
      (∀ d ∈ t, isSeparator d = false) ∧ isSeparator c = true := by
  induction s with
  | nil => exact .inl (by simp)
  | cons c s ih =>
    cases hc : isSeparator c with
    | true => exact .inr ⟨[], c, s, rfl, by simp, hc⟩
    | false =>
      rcases ih with h | ⟨t, d, r, rfl, ht, hd⟩
      · exact .inl (List.forall_mem_cons.mpr ⟨hc, h⟩)
      · exact .inr ⟨c :: t, d, r, rfl, List.forall_mem_cons.mpr ⟨hc, ht⟩, hd⟩

/-- What the parser does with a text: it is the last field, or a field that
passes the check goes before a separator that may stand there. -/
theorem parseFrom_cases {raw : Obis} {field : Int} {s : List Char} {o : Obis}
    (h : parseFrom raw field s = some o) :
    (IsFieldText s ∧ 2 ≤ field ∧ o = raw.setRaw (field + 1) (fieldByte s)) ∨
      ∃ t c r field', s = t ++ c :: r ∧ IsFieldText t ∧ PassesCheck t ∧
        separatorField c field = some field' ∧
          parseFrom (raw.setRaw field' (fieldByte t)) field' r = some o := by
  rcases exists_cut s with hsep | ⟨t, c, r, rfl, hsep, hc⟩
  · exact .inl ((parseFrom_field hsep).mp h)
  · obtain ⟨ht, hcheck, field', hfield', h⟩ := (parseFrom_separator hsep hc).mp h
    exact .inr ⟨t, c, r, field', rfl, ht, hcheck, hfield', h⟩

/-! ## The form of a code -/

/-- The fields of a code as the parser wants them: the check is made before every
separator. -/
def Accepted (ts : List (List Char)) : Prop :=
  (∀ t ∈ ts, IsFieldText t) ∧ ∀ t ∈ ts.dropLast, PassesCheck t

theorem accepted_singleton {t : List Char} : Accepted [t] ↔ IsFieldText t := by
  simp [Accepted]

theorem accepted_cons_cons {t u : List Char} {ts : List (List Char)} :
    Accepted (t :: u :: ts) ↔ IsFieldText t ∧ PassesCheck t ∧ Accepted (u :: ts) := by
  simp only [Accepted, List.forall_mem_cons, List.dropLast_cons_cons]
  tauto

namespace Fields

/-- The bytes of the fields that are given, written over `raw`. -/
def codeOver (raw : Obis) (p : Fields) : Obis :=
  ⟨p.a.elim raw.media fieldByte, p.b.elim raw.channel fieldByte, fieldByte p.c, fieldByte p.d,
    p.ef.elim raw.quantities fun ef => fieldByte ef.1,
    p.ef.elim raw.storage fun ef => ef.2.elim raw.storage fun f => fieldByte f.2⟩

theorem codeOver_allNotGiven (p : Fields) : p.codeOver allNotGiven = p.code := rfl

end Fields

open Fields

/-- After `*` there is one field more. -/
theorem parseFrom_four {raw : Obis} {s : List Char} {o : Obis} :
    parseFrom raw 4 s = some o ↔ IsFieldText s ∧ o = { raw with storage := fieldByte s } := by
  constructor
  · intro h
    rcases parseFrom_cases h with ⟨hs, -, rfl⟩ | ⟨t, c, r, field', -, -, -, hc, -⟩
    · exact ⟨hs, rfl⟩
    · have := separatorField_eq_some.mp hc
      omega
  · rintro ⟨hs, rfl⟩
    exact (parseFrom_field (not_isSeparator_of_isFieldText hs)).mpr ⟨hs, by decide, rfl⟩

/-- After the `.` behind `D`: `E[*F]`. -/
theorem parseFrom_three {raw : Obis} {s : List Char} {o : Obis} :
    parseFrom raw 3 s = some o ↔ ∃ e f, textEF (some (e, f)) = '.' :: s ∧
      Accepted (givenEF (some (e, f))) ∧
        o = { raw with quantities := fieldByte e
                       storage := f.elim raw.storage fun f => fieldByte f.2 } := by
  constructor
  · intro h
    rcases parseFrom_cases h with ⟨hs, -, rfl⟩ | ⟨t, c, r, field', rfl, ht, hcheck, hc, h⟩
    · exact ⟨s, none, rfl, accepted_singleton.mpr hs, rfl⟩
    · obtain ⟨hstar, rfl⟩ : (c = '*' ∨ c = '&') ∧ field' = 4 := by
        simpa using separatorField_eq_some.mp hc
      obtain ⟨hr, rfl⟩ := parseFrom_four.mp h
      have haccepted : Accepted [t, r] :=
        accepted_cons_cons.mpr ⟨ht, hcheck, accepted_singleton.mpr hr⟩
      rcases hstar with rfl | rfl
      · exact ⟨t, some (false, r), rfl, haccepted, rfl⟩
      · exact ⟨t, some (true, r), rfl, haccepted, rfl⟩
  · rintro ⟨e, f, htext, haccepted, rfl⟩
    cases f with
    | none =>
      obtain rfl := (List.cons.inj htext).2
      have he := accepted_singleton.mp haccepted
      exact (parseFrom_field (not_isSeparator_of_isFieldText he)).mpr ⟨he, by decide, rfl⟩
    | some f =>
      obtain ⟨ampersand, f⟩ := f
      obtain rfl := (List.cons.inj htext).2
      obtain ⟨he, hcheck, haccepted⟩ := accepted_cons_cons.mp haccepted
      have hf := accepted_singleton.mp haccepted
      have hc : isSeparator (if ampersand then '&' else '*') = true := by cases ampersand <;> rfl
      refine (parseFrom_separator (not_isSeparator_of_isFieldText he) hc).mpr
        ⟨he, hcheck, 4, by cases ampersand <;> rfl, parseFrom_four.mpr ⟨hf, rfl⟩⟩

/-- After the `.` behind `C`: `D[.E[*F]]`. -/
theorem parseFrom_two {raw : Obis} {s : List Char} {o : Obis} :
    parseFrom raw 2 s = some o ↔ ∃ d ef, s = d ++ textEF ef ∧ Accepted (d :: givenEF ef) ∧
      o = { raw with mode := fieldByte d
                     quantities := ef.elim raw.quantities fun ef => fieldByte ef.1
                     storage := ef.elim raw.storage fun ef =>
                       ef.2.elim raw.storage fun f => fieldByte f.2 } := by
  have hcons : ∀ d e f, Accepted (d :: givenEF (some (e, f))) ↔
      IsFieldText d ∧ PassesCheck d ∧ Accepted (givenEF (some (e, f))) := by
    intro d e f
    cases f <;> exact accepted_cons_cons
  constructor
  · intro h
    rcases parseFrom_cases h with ⟨hs, -, rfl⟩ | ⟨t, c, r, field', rfl, ht, hcheck, hc, h⟩
    · exact ⟨s, none, (List.append_nil s).symm, accepted_singleton.mpr hs, rfl⟩
    · obtain ⟨rfl, rfl⟩ : c = '.' ∧ field' = 3 := by
        simpa using separatorField_eq_some.mp hc
      obtain ⟨e, f, htext, haccepted, rfl⟩ := parseFrom_three.mp h
      exact ⟨t, some (e, f), by rw [htext], (hcons t e f).mpr ⟨ht, hcheck, haccepted⟩, rfl⟩
  · rintro ⟨d, ef, rfl, haccepted, rfl⟩
    cases ef with
    | none =>
      have hd := accepted_singleton.mp haccepted
      rw [textEF, List.append_nil]
      exact (parseFrom_field (not_isSeparator_of_isFieldText hd)).mpr ⟨hd, by decide, rfl⟩
    | some ef =>
      obtain ⟨e, f⟩ := ef
      obtain ⟨hd, hcheck, haccepted⟩ := (hcons d e f).mp haccepted
      obtain ⟨r, hr⟩ : ∃ r, textEF (some (e, f)) = '.' :: r := by cases f <;> exact ⟨_, rfl⟩
      rw [hr]
      exact (parseFrom_separator (not_isSeparator_of_isFieldText hd) rfl).mpr
        ⟨hd, hcheck, 3, rfl, parseFrom_three.mpr ⟨e, f, hr, haccepted, rfl⟩⟩

/-- A code without the fields `A` and `B`. -/
theorem parseFrom_indicator {field : Int} (hfield : field < 2) {raw : Obis} {p : Fields}
    (ha : p.a = none) (hb : p.b = none) (h : Accepted p.given) :
    parseFrom raw field p.text = some (p.codeOver raw) := by
  obtain ⟨a, b, c, d, ef⟩ := p
  obtain rfl : a = none := ha
  obtain rfl : b = none := hb
  obtain ⟨hc, hcheck, h⟩ := accepted_cons_cons.mp h
  have hdot : separatorField '.' field = some 2 :=
    separatorField_eq_some.mpr (.inr (.inr (.inl ⟨rfl, by omega, (if_pos hfield).symm⟩)))
  have htext : (⟨none, none, c, d, ef⟩ : Fields).text = c ++ '.' :: (d ++ textEF ef) := by
    simp [Fields.text]
  rw [htext]
  exact (parseFrom_separator (not_isSeparator_of_isFieldText hc) rfl).mpr
    ⟨hc, hcheck, 2, hdot, parseFrom_two.mpr ⟨d, ef, rfl, h, rfl⟩⟩

theorem parseFrom_channel {field : Int} (hfield : field < 1) {raw : Obis} {p : Fields}
    (ha : p.a = none) (h : Accepted p.given) :
    parseFrom raw field p.text = some (p.codeOver raw) := by
  obtain ⟨a, b, c, d, ef⟩ := p
  obtain rfl : a = none := ha
  cases b with
  | none => exact parseFrom_indicator (by omega) rfl rfl h
  | some b =>
    obtain ⟨hb, hcheck, h⟩ := accepted_cons_cons.mp h
    have htext : (⟨none, some b, c, d, ef⟩ : Fields).text =
        b ++ ':' :: (⟨none, none, c, d, ef⟩ : Fields).text := by simp [Fields.text]
    rw [htext]
    exact (parseFrom_separator (not_isSeparator_of_isFieldText hb) rfl).mpr
      ⟨hb, hcheck, 1, separatorField_eq_some.mpr (.inr (.inl ⟨rfl, hfield, rfl⟩)),
        parseFrom_indicator (by decide) rfl rfl h⟩

/-- The parser accepts every code whose fields it wants. -/
theorem parse_text {p : Fields} (h : Accepted p.given) : parse p.text = some p.code := by
  rw [parse_eq_parseFrom, ← codeOver_allNotGiven]
  obtain ⟨a, b, c, d, ef⟩ := p
  cases a with
  | none => exact parseFrom_channel (by decide) rfl h
  | some a =>
    have h' : IsFieldText a ∧ PassesCheck a ∧ Accepted (⟨none, b, c, d, ef⟩ : Fields).given := by
      cases b <;> exact accepted_cons_cons.mp h
    obtain ⟨ha, hcheck, h⟩ := h'
    have htext : (⟨some a, b, c, d, ef⟩ : Fields).text =
        a ++ '-' :: (⟨none, b, c, d, ef⟩ : Fields).text := by simp [Fields.text]
    rw [htext]
    exact (parseFrom_separator (not_isSeparator_of_isFieldText ha) rfl).mpr
      ⟨ha, hcheck, 0, rfl, parseFrom_channel (by decide) rfl h⟩

/-- After a `.` the parser is past the fields `A` and `B`. -/
theorem exists_of_dot {raw : Obis} {t r : List Char} {o : Obis} (ht : IsFieldText t)
    (hcheck : PassesCheck t) (h : parseFrom (raw.setRaw 2 (fieldByte t)) 2 r = some o) :
    ∃ p : Fields, p.a = none ∧ p.b = none ∧ p.text = t ++ '.' :: r ∧ Accepted p.given ∧
      p.codeOver raw = o := by
  obtain ⟨d, ef, rfl, haccepted, rfl⟩ := parseFrom_two.mp h
  exact ⟨⟨none, none, t, d, ef⟩, rfl, rfl, by simp [Fields.text],
    accepted_cons_cons.mpr ⟨ht, hcheck, haccepted⟩, rfl⟩

theorem exists_of_parseFrom_one {raw : Obis} {s : List Char} {o : Obis}
    (h : parseFrom raw 1 s = some o) :
    ∃ p : Fields, p.a = none ∧ p.b = none ∧ p.text = s ∧ Accepted p.given ∧ p.codeOver raw = o := by
  rcases parseFrom_cases h with ⟨-, hfield, -⟩ | ⟨t, c, r, field', rfl, ht, hcheck, hc, h⟩
  · omega
  · obtain ⟨rfl, rfl⟩ : c = '.' ∧ field' = 2 := by
      simpa using separatorField_eq_some.mp hc
    exact exists_of_dot ht hcheck h

theorem exists_of_colon {raw : Obis} {t r : List Char} {o : Obis} (ht : IsFieldText t)
    (hcheck : PassesCheck t) (h : parseFrom (raw.setRaw 1 (fieldByte t)) 1 r = some o) :
    ∃ p : Fields, p.a = none ∧ p.text = t ++ ':' :: r ∧ Accepted p.given ∧ p.codeOver raw = o := by
  obtain ⟨⟨a, b, c, d, ef⟩, rfl, rfl, rfl, haccepted, rfl⟩ := exists_of_parseFrom_one h
  exact ⟨⟨none, some t, c, d, ef⟩, rfl, by simp [Fields.text],
    accepted_cons_cons.mpr ⟨ht, hcheck, haccepted⟩, rfl⟩

theorem exists_of_parseFrom_zero {raw : Obis} {s : List Char} {o : Obis}
    (h : parseFrom raw 0 s = some o) :
    ∃ p : Fields, p.a = none ∧ p.text = s ∧ Accepted p.given ∧ p.codeOver raw = o := by
  rcases parseFrom_cases h with ⟨-, hfield, -⟩ | ⟨t, c, r, field', rfl, ht, hcheck, hc, h⟩
  · omega
  · have hchar : (c = ':' ∧ field' = 1) ∨ (c = '.' ∧ field' = 2) := by
      simpa using separatorField_eq_some.mp hc
    rcases hchar with ⟨rfl, rfl⟩ | ⟨rfl, rfl⟩
    · exact exists_of_colon ht hcheck h
    · obtain ⟨p, ha, -, hp⟩ := exists_of_dot ht hcheck h
      exact ⟨p, ha, hp⟩

/-- The parser accepts nothing else. -/
theorem exists_of_parse {s : List Char} {o : Obis} (h : parse s = some o) :
    ∃ p : Fields, p.text = s ∧ Accepted p.given ∧ p.code = o := by
  rw [parse_eq_parseFrom] at h
  rcases parseFrom_cases h with ⟨-, hfield, -⟩ | ⟨t, c, r, field', rfl, ht, hcheck, hc, h⟩
  · omega
  · have hchar : (c = '-' ∧ field' = 0) ∨ (c = ':' ∧ field' = 1) ∨ (c = '.' ∧ field' = 2) := by
      simpa using separatorField_eq_some.mp hc
    rcases hchar with ⟨rfl, rfl⟩ | ⟨rfl, rfl⟩ | ⟨rfl, rfl⟩
    · obtain ⟨⟨a, b, c, d, ef⟩, rfl, rfl, haccepted, rfl⟩ := exists_of_parseFrom_zero h
      have hcons : Accepted (⟨some t, b, c, d, ef⟩ : Fields).given := by
        cases b <;> exact accepted_cons_cons.mpr ⟨ht, hcheck, haccepted⟩
      exact ⟨⟨some t, b, c, d, ef⟩, by simp [Fields.text], hcons, rfl⟩
    · obtain ⟨p, -, hp⟩ := exists_of_colon ht hcheck h
      exact ⟨p, hp⟩
    · obtain ⟨p, -, -, hp⟩ := exists_of_dot ht hcheck h
      exact ⟨p, hp⟩

/-- What the parser accepts, and what it reads. -/
theorem parse_eq_some_iff {s : List Char} {o : Obis} :
    parse s = some o ↔ ∃ p : Fields, p.text = s ∧ Accepted p.given ∧ p.code = o := by
  constructor
  · exact exists_of_parse
  · rintro ⟨p, rfl, haccepted, rfl⟩
    exact parse_text haccepted

/-! ## Where the parser is exact -/

theorem fieldValue_nonneg (t : List Char) : 0 ≤ fieldValue t := by
  unfold fieldValue
  cases h : t.head?.bind specialCode with
  | none => exact Int.natCast_nonneg _
  | some code =>
    obtain ⟨c, -, hcode⟩ := Option.bind_eq_some_iff.mp h
    exact (specialCode_le hcode).1

/-- On a field of the grammar the check sees the number itself. -/
theorem IsField.passesCheck {t : List Char} (h : IsField t) : PassesCheck t := by
  have hnonneg := fieldValue_nonneg t
  have hle := h.2.2
  rw [PassesCheck, CString.toInt_of_mem (by omega) (by omega)]
  exact ⟨hnonneg, hle⟩

theorem accepted_of_isField {ts : List (List Char)} (h : ∀ t ∈ ts, IsField t) : Accepted ts :=
  ⟨fun t ht => (h t ht).2.1, fun t ht => (h t (List.dropLast_subset ts ht)).passesCheck⟩

/-- The fields of a code are what its separators leave. -/
theorem splitOnP_text {p : Fields} (h : ∀ t ∈ p.given, IsFieldText t) :
    p.text.splitOnP isSeparator = p.given := by
  have hfield : ∀ t ∈ p.given, ∀ c ∈ t, isSeparator c = false := fun t ht =>
    not_isSeparator_of_isFieldText (h t ht)
  have hcut : ∀ t ∈ p.given, ∀ c, isSeparator c = true → ∀ r,
      (t ++ c :: r).splitOnP isSeparator = t :: r.splitOnP isSeparator :=
    fun t ht c hc r => List.splitOnP_append_cons_of_forall_mem (hfield t ht) c hc r
  have hend : ∀ t ∈ p.given, t.splitOnP isSeparator = [t] :=
    fun t ht => List.splitOnP_eq_singleton (hfield t ht)
  obtain ⟨a, b, c, d, ef⟩ := p
  have htail : (d ++ textEF ef).splitOnP isSeparator = d :: givenEF ef := by
    rcases ef with _ | ⟨e, _ | ⟨ampersand, f⟩⟩
    · rw [textEF, List.append_nil, hend d (by simp [given]), givenEF]
    · rw [textEF, hcut d (by simp [given]) '.' rfl, hend e (by simp [given, givenEF]), givenEF]
    · have hstar : isSeparator (if ampersand then '&' else '*') = true := by
        cases ampersand <;> rfl
      rw [textEF, List.cons_append, hcut d (by simp [given]) '.' rfl,
        hcut e (by simp [given, givenEF]) _ hstar, hend f (by simp [given, givenEF]), givenEF]
  have hc : (c ++ '.' :: (d ++ textEF ef)).splitOnP isSeparator = c :: d :: givenEF ef := by
    rw [hcut c (by simp [given]) '.' rfl, htail]
  cases a <;> cases b <;>
    simp only [Fields.text, Fields.given, Option.elim_none, Option.elim_some, Option.toList_none,
      Option.toList_some, List.nil_append, List.append_assoc, List.cons_append]
  · exact hc
  · rw [hcut _ (by simp [given]) ':' rfl, hc]
  · rw [hcut _ (by simp [given]) '-' rfl, hc]
  · rw [hcut _ (by simp [given]) '-' rfl, hcut _ (by simp [given]) ':' rfl, hc]

/-- A text with a field that the grammar does not have denotes nothing. -/
theorem not_denotes_of_mem {s t : List Char} (ht : t ∈ s.splitOnP isSeparator) (hfield : ¬IsField t)
    (o : Obis) : ¬Denotes s o := by
  rintro ⟨p, rfl, h, -⟩
  rw [splitOnP_text fun t ht => (h t ht).2.1] at ht
  exact hfield (h t ht)

theorem parse_of_denotes {s : List Char} {o : Obis} (h : Denotes s o) : parse s = some o := by
  obtain ⟨p, rfl, hp, rfl⟩ := h
  exact parse_text (accepted_of_isField hp)

/-- The parser is exact on a text unless the text has the form of a code with a
field that is empty or over 255, and the check lets it pass. -/
theorem parse_exact_iff (s : List Char) :
    (∀ o, parse s = some o ↔ Denotes s o) ↔
      ∀ p : Fields, p.text = s → Accepted p.given → ∀ t ∈ p.given, IsField t := by
  constructor
  · rintro h p rfl haccepted t ht
    by_contra hfield
    rw [← splitOnP_text haccepted.1] at ht
    exact not_denotes_of_mem ht hfield p.code ((h p.code).mp (parse_text haccepted))
  · refine fun h o => ⟨fun hparse => ?_, parse_of_denotes⟩
    obtain ⟨p, htext, haccepted, hcode⟩ := exists_of_parse hparse
    exact ⟨p, htext, h p htext haccepted, hcode⟩

/-- The last field wraps to a byte, and an empty field is zero. -/
theorem parse_not_exact :
    parse "1-0:1.8.256".toList = some ⟨1, 0, 1, 8, 0, 255⟩ ∧
      parse "1-0:1..8".toList = some ⟨1, 0, 1, 0, 8, 255⟩ ∧
        ¬∀ s o, parse s = some o ↔ Denotes s o := by
  have hlast : parse "1-0:1.8.256".toList = some ⟨1, 0, 1, 8, 0, 255⟩ := by decide
  refine ⟨hlast, by decide, fun h => ?_⟩
  have hfield : ¬IsField "256".toList := fun h => absurd h.2.2 (by decide)
  exact not_denotes_of_mem (by decide) hfield _ ((h _ _).mp hlast)

/-! ## Printed codes -/

theorem isField_ofNat (b : UInt8) : IsField (Decimal.ofNat b.toNat) := by
  have hdigits : ∀ c ∈ Decimal.ofNat b.toNat, c.isDigit = true := fun c =>
    Decimal.isDigit_of_mem_ofNat
  refine ⟨Decimal.ofNat_ne_nil _, .inl hdigits, ?_⟩
  rw [fieldValue, specialCode_head_of_digits hdigits, Option.getD_none, Decimal.toNat_ofNat]
  have := b.toNat_lt
  omega

theorem fieldByte_ofNat (b : UInt8) : fieldByte (Decimal.ofNat b.toNat) = b := by
  have hdigits : ∀ c ∈ Decimal.ofNat b.toNat, c.isDigit = true := fun c =>
    Decimal.isDigit_of_mem_ofNat
  have hmod : ((b.toNat : Int) % 2 ^ 8).toNat = b.toNat := by
    have := b.toNat_lt
    omega
  rw [fieldByte, fieldValue, specialCode_head_of_digits hdigits, Option.getD_none,
    Decimal.toNat_ofNat, UInt8.ofInt, hmod, UInt8.ofNat_toNat]

/-- The fields that `unparse` prints. -/
def printed (o : Obis) : Fields :=
  ⟨some (Decimal.ofNat o.media.toNat), some (Decimal.ofNat o.channel.toNat),
    Decimal.ofNat o.indicator.toNat, Decimal.ofNat o.mode.toNat,
    some (Decimal.ofNat o.quantities.toNat, some (false, Decimal.ofNat o.storage.toNat))⟩

theorem length_ofNat_byte (b : UInt8) : (Decimal.ofNat b.toNat).length ≤ 3 := by
  have := b.toNat_lt
  exact (Nat.length_toDigits_le_iff (by decide) (by decide)).mpr (by omega)

/-- A printed code fits into its buffer. -/
theorem length_text_printed (o : Obis) : o.printed.text.length + 1 ≤ obisStrLen := by
  have h := fun b : UInt8 => length_ofNat_byte b
  have hmedia := h o.media
  have hchannel := h o.channel
  have hindicator := h o.indicator
  have hmode := h o.mode
  have hquantities := h o.quantities
  have hstorage := h o.storage
  simp only [printed, Fields.text, textEF, Option.elim_some, List.length_append, List.length_cons,
    List.length_nil, obisStrLen]
  omega

theorem unparse_eq (o : Obis) : o.unparse obisStrLen = (o.printed.text, o.printed.text.length) := by
  have htext : Decimal.ofNat o.media.toNat ++ '-' :: Decimal.ofNat o.channel.toNat ++ ':' ::
      Decimal.ofNat o.indicator.toNat ++ '.' :: Decimal.ofNat o.mode.toNat ++ '.' ::
      Decimal.ofNat o.quantities.toNat ++ '*' :: Decimal.ofNat o.storage.toNat =
        o.printed.text := by
    simp [printed, Fields.text, textEF]
  have hlen := o.length_text_printed
  simp only [unparse, htext]
  rw [List.take_of_length_le (by omega)]

theorem ofInt_byte (b : UInt8) : Decimal.ofInt b.toNat = Decimal.ofNat b.toNat := by
  rw [Decimal.ofInt, if_neg (by omega), Int.natAbs_natCast]

theorem toString_eq (o : Obis) : o.toString = o.printed.text := by
  simp [toString, ofInt_byte, printed, Fields.text, textEF]

/-- `parse` reads back what `unparse` prints, within the buffer the program gives
it, and `toString` is the same text. -/
theorem parse_unparse (o : Obis) :
    parse (o.unparse obisStrLen).1 = some o ∧ (o.unparse obisStrLen).2 + 1 ≤ obisStrLen ∧
      o.toString = (o.unparse obisStrLen).1 := by
  have hfields : ∀ t ∈ o.printed.given, IsField t := by
    simp only [printed, given, givenEF, Option.toList_some, List.cons_append, List.nil_append,
      List.forall_mem_cons, isField_ofNat, true_and]
    exact fun t ht => absurd ht List.not_mem_nil
  have hcode : o.printed.code = o := by
    simp only [printed, Fields.code, Option.elim_some, fieldByte_ofNat]
  rw [unparse_eq, toString_eq]
  refine ⟨?_, o.length_text_printed, rfl⟩
  rw [parse_text (accepted_of_isField hfields), hcode]

end VzLogger.Obis
