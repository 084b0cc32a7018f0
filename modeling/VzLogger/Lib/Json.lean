import VzLogger.Lib.Decimal

/-! # JSON text

JSON values and the decoder of their text: whitespace, literals, numbers
(as exact rationals), strings with escapes, arrays and objects.  `decode` takes
a whole text; a text it rejects is not well formed.

`Reads t v k` says that the decoder takes the text `t`, followed by a separator
or a closing bracket, for the value `v`, given recursion budget `k`.  A printer
is verified by building `Reads` bottom up: `reads_ofInt` and `reads_ofRat` for
numbers, `reads_arr` for an array whose elements are joined by commas.
-/
namespace Json

/-- A JSON value. -/
inductive Value where
  | null
  | bool (b : Bool)
  | num (q : Rat)
  | str (s : List Char)
  | arr (vs : List Value)
  | obj (ms : List (List Char × Value))

def isSpace (c : Char) : Bool := c = ' ' || c = '\t' || c = '\n' || c = '\r'

def skipSpace (s : List Char) : List Char := s.dropWhile isSpace

/-! ## Numbers -/

/-- The leading digits of a text, and the rest. -/
def digits (s : List Char) : List Char × List Char := s.span Char.isDigit

/-- The integer part: `0`, or digits that do not start with `0`. -/
def intPart (s : List Char) : Option (Nat × List Char) :=
  match digits s with
  | ([], _) => none
  | ('0' :: _ :: _, _) => none
  | (ds, s) => some (Decimal.toNat ds, s)

/-- The optional fraction. -/
def fracPart : List Char → Option (Rat × List Char)
  | '.' :: s =>
    match digits s with
    | ([], _) => none
    | (ds, s) => some (Decimal.toNat ds / 10 ^ ds.length, s)
  | s => some (0, s)

/-- An optional sign, `true` for minus. -/
def sign : List Char → Bool × List Char
  | '+' :: s => (false, s)
  | '-' :: s => (true, s)
  | s => (false, s)

/-- The optional exponent. -/
def expPart (s : List Char) : Option (Int × List Char) :=
  if s.head? = some 'e' ∨ s.head? = some 'E' then
    let (neg, s) := sign s.tail
    match digits s with
    | ([], _) => none
    | (ds, s) => some (if neg then -(Decimal.toNat ds : Int) else Decimal.toNat ds, s)
  else some (0, s)

/-- The unsigned part of a number. -/
def magnitude (s : List Char) : Option (Rat × List Char) :=
  match intPart s with
  | none => none
  | some (i, s) =>
    match fracPart s with
    | none => none
    | some (f, s) =>
      match expPart s with
      | none => none
      | some (e, s) => some ((i + f) * 10 ^ e, s)

def number : List Char → Option (Value × List Char)
  | '-' :: s => (magnitude s).map fun p => (.num (-p.1), p.2)
  | s => (magnitude s).map fun p => (.num p.1, p.2)

/-! ## Strings and literals -/

def hexDigit (c : Char) : Option Nat :=
  if c.isDigit then some (c.toNat - '0'.toNat)
  else if 'a' ≤ c ∧ c ≤ 'f' then some (c.toNat - 'a'.toNat + 10)
  else if 'A' ≤ c ∧ c ≤ 'F' then some (c.toNat - 'A'.toNat + 10)
  else none

/-- The character a one-letter escape stands for. -/
def escape : Char → Option Char
  | '"' => some '"'
  | '\\' => some '\\'
  | '/' => some '/'
  | 'b' => some (Char.ofNat 8)
  | 'f' => some (Char.ofNat 12)
  | 'n' => some '\n'
  | 'r' => some '\r'
  | 't' => some '\t'
  | _ => none

/-- The rest of a string literal, after its opening quote. -/
def stringBody : List Char → Option (List Char × List Char)
  | [] => none
  | '"' :: s => some ([], s)
  | '\\' :: 'u' :: a :: b :: c :: d :: s =>
    match hexDigit a, hexDigit b, hexDigit c, hexDigit d with
    | some a, some b, some c, some d =>
      (stringBody s).map fun p =>
        (Char.ofNat (((a * 16 + b) * 16 + c) * 16 + d) :: p.1, p.2)
    | _, _, _, _ => none
  | '\\' :: c :: s =>
    match escape c with
    | some e => (stringBody s).map fun p => (e :: p.1, p.2)
    | none => none
  | c :: s =>
    if c.toNat < 32 ∨ c = '\\' then none
    else (stringBody s).map fun p => (c :: p.1, p.2)

def literals : List (List Char × Value) :=
  [("null".toList, .null), ("true".toList, .bool true), ("false".toList, .bool false)]

/-- A literal or a number. -/
def scalar (s : List Char) : Option (Value × List Char) :=
  match literals.find? (fun l => l.1.isPrefixOf s) with
  | some l => some (l.2, s.drop l.1.length)
  | none => number s

/-! ## Values -/

mutual

/-- One value.  The first argument bounds the recursion. -/
def value : Nat → List Char → Option (Value × List Char)
  | 0, _ => none
  | k + 1, s =>
    match skipSpace s with
    | '[' :: s =>
      match skipSpace s with
      | ']' :: s => some (.arr [], s)
      | _ => (elements k s).map fun p => (.arr p.1, p.2)
    | '{' :: s =>
      match skipSpace s with
      | '}' :: s => some (.obj [], s)
      | _ => (members k s).map fun p => (.obj p.1, p.2)
    | '"' :: s => (stringBody s).map fun p => (.str p.1, p.2)
    | s => scalar s

/-- The elements of an array, up to and with its closing bracket. -/
def elements : Nat → List Char → Option (List Value × List Char)
  | 0, _ => none
  | k + 1, s =>
    match value k s with
    | none => none
    | some (v, s) =>
      match skipSpace s with
      | ',' :: s => (elements k s).map fun p => (v :: p.1, p.2)
      | ']' :: s => some ([v], s)
      | _ => none

/-- The members of an object, up to and with its closing brace. -/
def members : Nat → List Char → Option (List (List Char × Value) × List Char)
  | 0, _ => none
  | k + 1, s =>
    match skipSpace s with
    | '"' :: s =>
      match stringBody s with
      | none => none
      | some (key, s) =>
        match skipSpace s with
        | ':' :: s =>
          match value k s with
          | none => none
          | some (v, s) =>
            match skipSpace s with
            | ',' :: s => (members k s).map fun p => ((key, v) :: p.1, p.2)
            | '}' :: s => some ([(key, v)], s)
            | _ => none
        | _ => none
    | _ => none

end

/-- The value of a whole text, `none` if the text is not well-formed JSON.
Every two levels of the recursion take a character. -/
def decode (s : List Char) : Option Value :=
  match value (2 * s.length + 2) s with
  | some (v, rest) => if skipSpace rest = [] then some v else none
  | none => none

example : (decode "[1 , -2.5e1]".toList).isSome = true := by decide +kernel
example : (decode "[1,]".toList).isSome = false := by decide +kernel

/-! ## What a printed text reads as -/

/-- The text after a value: nothing, a separator or a closing bracket. -/
def Ends (rest : List Char) : Prop :=
  ∀ c, rest.head? = some c → c = ',' ∨ c = ']' ∨ c = '}'

theorem ends_nil : Ends [] := by simp [Ends]

theorem ends_cons {c : Char} (h : c = ',' ∨ c = ']' ∨ c = '}') (s : List Char) : Ends (c :: s) := by
  intro d hd
  obtain rfl : c = d := by simpa using hd
  exact h

theorem Ends.cases {rest : List Char} (h : Ends rest) :
    rest = [] ∨ ∃ c s, rest = c :: s ∧ (c = ',' ∨ c = ']' ∨ c = '}') := by
  cases rest with
  | nil => exact Or.inl rfl
  | cons c s => exact Or.inr ⟨c, s, rfl, h c rfl⟩

/-- The text after a number: no more of the number follows. -/
def Stops (rest : List Char) : Prop :=
  ∀ c, rest.head? = some c → c.isDigit = false ∧ c ≠ '.' ∧ c ≠ 'e' ∧ c ≠ 'E'

theorem stops_nil : Stops [] := by simp [Stops]

theorem stops_cons {c : Char} (h : c.isDigit = false ∧ c ≠ '.' ∧ c ≠ 'e' ∧ c ≠ 'E')
    (s : List Char) : Stops (c :: s) := by
  intro d hd
  obtain rfl : c = d := by simpa using hd
  exact h

theorem Ends.stops {rest : List Char} (h : Ends rest) : Stops rest := by
  intro c hc
  rcases h c hc with rfl | rfl | rfl <;> decide

theorem digits_append {ds rest : List Char} (hds : ∀ c ∈ ds, c.isDigit = true)
    (hrest : ∀ c, rest.head? = some c → c.isDigit = false) : digits (ds ++ rest) = (ds, rest) := by
  have hstop : rest.takeWhile Char.isDigit = [] ∧ rest.dropWhile Char.isDigit = rest := by
    cases rest with
    | nil => exact ⟨rfl, rfl⟩
    | cons c s =>
      have := hrest c rfl
      simp [this]
  rw [digits, List.span_eq_takeWhile_dropWhile, List.takeWhile_append_of_pos hds,
    List.dropWhile_append_of_pos hds, hstop.1, hstop.2, List.append_nil]

theorem intPart_ofNat (n : Nat) {rest : List Char}
    (hrest : ∀ c, rest.head? = some c → c.isDigit = false) :
    intPart (Decimal.ofNat n ++ rest) = some (n, rest) := by
  have hdigits : ∀ c ∈ Decimal.ofNat n, c.isDigit = true :=
    fun c hc => Decimal.isDigit_of_mem_ofNat hc
  have hd := digits_append hdigits hrest
  unfold intPart
  rw [hd]
  split
  · rename_i heq
    exact absurd (Prod.mk.inj heq).1 (Decimal.ofNat_ne_nil n)
  · rename_i c tl s heq
    have hn := (Prod.mk.inj heq).1
    rcases Decimal.ofNat_head n with h | h
    · rw [h] at hn
      simp at hn
    · rw [hn] at h
      simp at h
  · rename_i ds s _ _ heq
    obtain ⟨rfl, rfl⟩ := Prod.mk.inj heq
    rw [Decimal.toNat_ofNat]

theorem fracPart_skip {rest : List Char} (h : rest.head? ≠ some '.') :
    fracPart rest = some (0, rest) := by
  unfold fracPart
  split
  · simp at h
  · rfl

theorem expPart_skip {rest : List Char} (h : Stops rest) : expPart rest = some (0, rest) := by
  unfold expPart
  rw [if_neg]
  rintro (he | he)
  · exact (h 'e' he).2.2.1 rfl
  · exact (h 'E' he).2.2.2 rfl

theorem Stops.noDigit {rest : List Char} (h : Stops rest) :
    ∀ c, rest.head? = some c → c.isDigit = false := fun c hc => (h c hc).1

theorem Stops.noPoint {rest : List Char} (h : Stops rest) : rest.head? ≠ some '.' :=
  fun hc => (h '.' hc).2.1 rfl

theorem magnitude_ofNat (n : Nat) {rest : List Char} (h : Stops rest) :
    magnitude (Decimal.ofNat n ++ rest) = some ((n : Rat), rest) := by
  unfold magnitude
  rw [intPart_ofNat n h.noDigit]
  simp only [fracPart_skip h.noPoint, expPart_skip h]
  simp

/-- A natural number, a point, and the digits of a fraction. -/
theorem magnitude_fixed (n : Nat) {ds rest : List Char} (hne : ds ≠ [])
    (hds : ∀ c ∈ ds, c.isDigit = true) (h : Stops rest) :
    magnitude (Decimal.ofNat n ++ '.' :: ds ++ rest) =
      some ((n : Rat) + Decimal.toNat ds / 10 ^ ds.length, rest) := by
  unfold magnitude
  rw [List.append_assoc, intPart_ofNat n (by simp)]
  have hfrac : fracPart ('.' :: ds ++ rest) =
      some ((Decimal.toNat ds : Rat) / 10 ^ ds.length, rest) := by
    simp only [List.cons_append, fracPart]
    rw [digits_append hds h.noDigit]
    cases ds with
    | nil => exact absurd rfl hne
    | cons c ds => rfl
  simp only [hfrac, expPart_skip h]
  simp

/-- A text that does not start with a minus sign. -/
theorem number_of_magnitude {s rest : List Char} {q : Rat} (hs : s.head? ≠ some '-')
    (h : magnitude s = some (q, rest)) : number s = some (.num q, rest) := by
  unfold number
  split
  · simp at hs
  · rw [h]
    rfl

theorem ofNat_head_ne_minus (n : Nat) (s : List Char) :
    (Decimal.ofNat n ++ s).head? ≠ some '-' := by
  rw [List.head?_append_of_ne_nil _ (Decimal.ofNat_ne_nil n)]
  intro h
  have := Decimal.isDigit_of_mem_ofNat (List.mem_of_mem_head? h)
  exact absurd this (by decide)

/-- The decoder reads `t`, before the end of a value, as `v`. -/
def Reads (t : List Char) (v : Value) (k : Nat) : Prop :=
  ∀ n rest, k ≤ n → Ends rest → value n (t ++ rest) = some (v, rest)

/-- The decoder reads `t` as `v`, before anything that does not go on with a number. -/
def Parses (t : List Char) (v : Value) (k : Nat) : Prop :=
  ∀ n rest, k ≤ n → Stops rest → value n (t ++ rest) = some (v, rest)

theorem Parses.reads {t : List Char} {v : Value} {k : Nat} (h : Parses t v k) : Reads t v k :=
  fun n rest hn hrest => h n rest hn hrest.stops

/-- A text whose first character can only start a number. -/
theorem value_number {s rest : List Char} {q : Rat} {n : Nat}
    (hs : ∃ c t, s = c :: t ∧ (c = '-' ∨ c.isDigit = true))
    (h : number s = some (.num q, rest)) : value (n + 1) s = some (.num q, rest) := by
  obtain ⟨c, t, rfl, hc⟩ := hs
  have hc' : isSpace c = false ∧ c ≠ '[' ∧ c ≠ '{' ∧ c ≠ '"' ∧ c ≠ 'n' ∧ c ≠ 't' ∧ c ≠ 'f' := by
    refine ⟨?_, ?_, ?_, ?_, ?_, ?_, ?_⟩
    · rcases hc with rfl | hc
      · rfl
      · simp only [isSpace, Bool.or_eq_false_iff, decide_eq_false_iff_not]
        refine ⟨⟨⟨?_, ?_⟩, ?_⟩, ?_⟩ <;> (rintro rfl; exact absurd hc (by decide))
    all_goals
      rintro rfl
      exact absurd hc (by decide)
  have hskip : skipSpace (c :: t) = c :: t := by
    simp [skipSpace, hc'.1]
  have hlit : literals.find? (fun l => l.1.isPrefixOf (c :: t)) = none := by
    simp [literals, Ne.symm hc'.2.2.2.2.1, Ne.symm hc'.2.2.2.2.2.1, Ne.symm hc'.2.2.2.2.2.2]
  unfold value
  rw [hskip]
  split
  · rename_i heq; exact absurd (List.cons.inj heq).1 hc'.2.1
  · rename_i heq; exact absurd (List.cons.inj heq).1 hc'.2.2.1
  · rename_i heq; exact absurd (List.cons.inj heq).1 hc'.2.2.2.1
  · rename_i heq
    rw [scalar, hlit]
    exact h

theorem ofNat_starts (n : Nat) (s : List Char) :
    ∃ c t, Decimal.ofNat n ++ s = c :: t ∧ c.isDigit = true := by
  cases h : Decimal.ofNat n with
  | nil => exact absurd h (Decimal.ofNat_ne_nil n)
  | cons c t => exact ⟨c, t ++ s, rfl, Decimal.isDigit_of_mem_ofNat (by rw [h]; simp)⟩

theorem parses_ofInt (i : Int) : Parses (Decimal.ofInt i) (.num i) 1 := by
  intro n rest hn hrest
  obtain ⟨m, rfl⟩ := Nat.exists_eq_add_of_le' hn
  have hmag := magnitude_ofNat i.natAbs hrest
  unfold Decimal.ofInt
  split
  · rename_i hneg
    have hi : -((i.natAbs : Nat) : Rat) = (i : Rat) := by
      rw [Nat.cast_natAbs, abs_of_neg hneg, Int.cast_neg, neg_neg]
    change value (m + 1) ('-' :: (Decimal.ofNat i.natAbs ++ rest)) = _
    apply value_number ⟨'-', _, rfl, Or.inl rfl⟩
    rw [number, hmag, Option.map_some, hi]
  · rename_i hpos
    have hi : ((i.natAbs : Nat) : Rat) = (i : Rat) := by
      rw [Nat.cast_natAbs, abs_of_nonneg (not_lt.mp hpos)]
    obtain ⟨c, t, heq, hc⟩ := ofNat_starts i.natAbs rest
    apply value_number ⟨c, t, heq, Or.inr hc⟩
    rw [number_of_magnitude (ofNat_head_ne_minus _ _) hmag, hi]

theorem reads_ofInt (i : Int) : Reads (Decimal.ofInt i) (.num i) 1 := (parses_ofInt i).reads

/-- A rational printed with `k` decimals reads as the number it was rounded to. -/
theorem parses_ofRat {k : Nat} (hk : 0 < k) (q : Rat) :
    Parses (Decimal.ofRat k q) (.num (Decimal.rounded k q)) 1 := by
  intro n rest hn hrest
  obtain ⟨n, rfl⟩ := Nat.exists_eq_add_of_le' hn
  generalize hm : Decimal.roundHalfEven (|q| * 10 ^ k) = m
  have hpow : (0 : Rat) < 10 ^ k := by positivity
  have hlt : m % 10 ^ k < 10 ^ k := Nat.mod_lt _ (by positivity)
  have hlen := Decimal.length_leftpad_ofNat hk hlt
  have hne : List.leftpad k '0' (Decimal.ofNat (m % 10 ^ k)) ≠ [] := by
    intro h
    rw [h] at hlen
    simp at hlen
    omega
  have hdigits : ∀ c ∈ List.leftpad k '0' (Decimal.ofNat (m % 10 ^ k)), c.isDigit = true :=
    fun c hc => Decimal.isDigit_of_mem_leftpad (fun c hc => Decimal.isDigit_of_mem_ofNat hc) hc
  have hmag := magnitude_fixed (m / 10 ^ k) hne hdigits hrest
  -- the quotient and the remainder make up the number again
  have hdiv : ((m / 10 ^ k : Nat) : Rat) + ((m % 10 ^ k : Nat) : Rat) / 10 ^ k = m / 10 ^ k := by
    have hdiv := Nat.div_add_mod m (10 ^ k)
    have hdivq : (10 : Rat) ^ k * ((m / 10 ^ k : Nat) : Rat) + ((m % 10 ^ k : Nat) : Rat) =
        (m : Rat) := by exact_mod_cast hdiv
    rw [← hdivq]
    field_simp
  rw [Decimal.toNat_leftpad, Decimal.toNat_ofNat, hlen, hdiv] at hmag
  unfold Decimal.ofRat Decimal.rounded
  rw [hm]
  by_cases hneg : q < 0
  · simp only [hneg, if_true]
    change value (n + 1) ('-' :: (Decimal.ofNat (m / 10 ^ k) ++
      '.' :: List.leftpad k '0' (Decimal.ofNat (m % 10 ^ k)) ++ rest)) = _
    apply value_number ⟨'-', _, rfl, Or.inl rfl⟩
    rw [number, hmag, Option.map_some]
  · simp only [hneg, if_false, List.nil_append]
    have hstart := ofNat_starts (m / 10 ^ k)
      ('.' :: List.leftpad k '0' (Decimal.ofNat (m % 10 ^ k)) ++ rest)
    rw [← List.append_assoc] at hstart
    obtain ⟨c, t, heq, hc⟩ := hstart
    apply value_number ⟨c, t, heq, Or.inr hc⟩
    refine number_of_magnitude ?_ hmag
    rw [List.append_assoc]
    exact ofNat_head_ne_minus _ _

/-- A multiple of `10 ^ -k`, printed with `k` decimals, reads as itself. -/
theorem reads_ofRat {k : Nat} (hk : 0 < k) {q : Rat} {m : Int} (hq : q = m / 10 ^ k) :
    Reads (Decimal.ofRat k q) (.num q) 1 := by
  have h := parses_ofRat hk q
  rw [Decimal.rounded_scaled hq] at h
  exact h.reads

/-! ## Arrays -/

/-- No value starts with a closing bracket. -/
theorem value_closing {n : Nat} {s t : List Char} (h : skipSpace s = ']' :: t) :
    value n s = none := by
  cases n with
  | zero => rfl
  | succ n =>
    have hlit : literals.find? (fun l => l.1.isPrefixOf (']' :: t)) = none := by
      simp [literals]
    have hnum : number (']' :: t) = none := by
      simp [number, magnitude, intPart, digits, List.span_eq_takeWhile_dropWhile]
    have hscalar : scalar (']' :: t) = none := by
      rw [scalar, hlit]
      exact hnum
    unfold value
    rw [h]
    exact hscalar

theorem Reads.not_closing {t : List Char} {v : Value} {k : Nat} (h : Reads t v k)
    {rest u : List Char} (hrest : Ends rest) : skipSpace (t ++ rest) ≠ ']' :: u := by
  intro hclose
  have := h k rest (Nat.le_refl k) hrest
  rw [value_closing hclose] at this
  cases this

theorem intercalate_cons_cons (t u : List Char) (ts : List (List Char)) :
    [','].intercalate (t :: u :: ts) = t ++ ',' :: [','].intercalate (u :: ts) := by
  simp [List.intercalate]

theorem intercalate_singleton (t : List Char) : [','].intercalate [t] = t := by
  simp [List.intercalate]

section Arrays
variable {k : Nat} {ts : List (List Char)} {vs : List Value}

/-- Elements joined by commas and closed are read one by one. -/
theorem elements_intercalate (h : List.Forall₂ (Reads · · k) ts vs) (hne : ts ≠ []) :
    ∀ n rest, k + ts.length ≤ n →
      elements n ([','].intercalate ts ++ ']' :: rest) = some (vs, rest) := by
  induction h with
  | nil => exact absurd rfl hne
  | @cons t v ts vs htv hrest ih =>
    intro n rest hn
    obtain ⟨n, rfl⟩ := Nat.exists_eq_add_of_le' (show 1 ≤ n by simp at hn; omega)
    cases hrest with
    | nil =>
      rw [intercalate_singleton, elements,
        htv n (']' :: rest) (by simp at hn; omega) (ends_cons (by decide) _)]
      rfl
    | @cons u w ts vs huw hrest =>
      rw [intercalate_cons_cons, List.append_assoc, List.cons_append, elements,
        htv n _ (by simp at hn; omega) (ends_cons (by decide) _)]
      have := ih (by simp) n rest (by simp at hn ⊢; omega)
      simp only [skipSpace, List.dropWhile, isSpace]
      simp [this]

/-- A comma before the closing bracket is not read. -/
theorem elements_trailing (h : List.Forall₂ (Reads · · k) ts vs) (hne : ts ≠ []) :
    ∀ n rest, k + ts.length ≤ n →
      elements n ([','].intercalate ts ++ ',' :: ']' :: rest) = none := by
  induction h with
  | nil => exact absurd rfl hne
  | @cons t v ts vs htv hrest ih =>
    intro n rest hn
    obtain ⟨n, rfl⟩ := Nat.exists_eq_add_of_le' (show 1 ≤ n by simp at hn; omega)
    cases hrest with
    | nil =>
      rw [intercalate_singleton, elements,
        htv n _ (by simp at hn; omega) (ends_cons (by decide) _)]
      have hnone : elements n (']' :: rest) = none := by
        cases n with
        | zero => rfl
        | succ n => rw [elements, value_closing rfl]
      simp only [skipSpace, List.dropWhile, isSpace]
      simp [hnone]
    | @cons u w ts vs huw hrest =>
      rw [intercalate_cons_cons, List.append_assoc, List.cons_append, elements,
        htv n _ (by simp at hn; omega) (ends_cons (by decide) _)]
      have := ih (by simp) n rest (by simp at hn ⊢; omega)
      simp only [skipSpace, List.dropWhile, isSpace]
      simp [this]

/-- The opening bracket of a non-empty array hands over to `elements`. -/
theorem value_open (h : List.Forall₂ (Reads · · k) ts vs) (hne : ts ≠ []) {sep : List Char}
    (hsep : Ends sep) (n : Nat) :
    value (n + 1) ('[' :: ([','].intercalate ts ++ sep)) =
      (elements n ([','].intercalate ts ++ sep)).map fun p => (.arr p.1, p.2) := by
  have hopen : ∀ u, skipSpace ([','].intercalate ts ++ sep) ≠ ']' :: u := by
    intro u
    cases h with
    | nil => exact absurd rfl hne
    | @cons t v ts vs htv hrest =>
      cases ts with
      | nil =>
        rw [intercalate_singleton]
        exact htv.not_closing hsep
      | cons u ts =>
        rw [intercalate_cons_cons, List.append_assoc, List.cons_append]
        exact htv.not_closing (ends_cons (by decide) _)
  unfold value
  change (match skipSpace ([','].intercalate ts ++ sep) with
    | ']' :: s => some (Value.arr [], s)
    | _ => (elements n ([','].intercalate ts ++ sep)).map
        fun p : List Value × List Char => (Value.arr p.1, p.2)) = _
  split
  · rename_i heq
    exact absurd heq (hopen _)
  · rfl

/-- **An array of printed elements.** -/
theorem reads_arr (h : List.Forall₂ (Reads · · k) ts vs) (hne : ts ≠ []) :
    Reads ('[' :: [','].intercalate ts ++ [']']) (.arr vs) (k + ts.length + 1) := by
  intro n rest hn hrest
  obtain ⟨n, rfl⟩ := Nat.exists_eq_add_of_le' (show 1 ≤ n by omega)
  rw [List.append_assoc, List.cons_append, List.singleton_append,
    value_open h hne (ends_cons (by decide) _) n,
    elements_intercalate h hne n rest (by omega)]
  rfl

theorem decode_of_reads {t : List Char} {v : Value} (h : Reads t v k)
    (hk : k ≤ 2 * t.length + 2) : decode t = some v := by
  have := h (2 * t.length + 2) [] hk ends_nil
  rw [List.append_nil] at this
  rw [decode, this]
  rfl

theorem length_le_intercalate (ts : List (List Char)) :
    ts.length ≤ ([','].intercalate ts).length + 1 := by
  induction ts with
  | nil => simp
  | cons t ts ih =>
    cases ts with
    | nil => simp
    | cons u ts =>
      rw [intercalate_cons_cons]
      simp only [List.length_cons, List.length_append] at ih ⊢
      omega

/-- The text of an array decodes to its elements. -/
theorem decode_arr (h : List.Forall₂ (Reads · · k) ts vs) (hne : ts ≠ [])
    (hk : k ≤ ([','].intercalate ts).length) :
    decode ('[' :: [','].intercalate ts ++ [']']) = some (.arr vs) := by
  apply decode_of_reads (reads_arr h hne)
  have := length_le_intercalate ts
  simp only [List.length_append, List.length_cons, List.length_nil]
  omega

/-- A comma after the last element makes the text ill formed. -/
theorem decode_trailing (h : List.Forall₂ (Reads · · k) ts vs) (hne : ts ≠ [])
    (hk : k ≤ ([','].intercalate ts).length) :
    decode ('[' :: [','].intercalate ts ++ [',', ']']) = none := by
  have hlen := length_le_intercalate ts
  rw [decode]
  simp only [List.length_append, List.length_cons, List.length_nil, List.cons_append]
  rw [value_open h hne (ends_cons (by decide) _),
    elements_trailing h hne _ [] (by omega)]
  rfl

end Arrays

end Json
