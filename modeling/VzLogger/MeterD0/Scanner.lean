import VzLogger.MeterD0.Model

/-! # The telegram scanner, and the safety of the decoder

What the decoder is for: a scanner with texts instead of arrays and indices.  Its
fields have no bound, it keeps the whole text of each data line beside the
reading, and it does not know how a reading is made of the texts (`report`).

The decoder refines it.  What the arrays hold is the text of the current field as
far as it fits, so no store is outside an array, and the branches for a logical
error are never taken.
-/
namespace VzLogger.MeterD0

/-- Where in a telegram the scanner is, with the text of the current line. -/
inductive Mode where
  | start
  | vendor (letters : List Char)
  | baudrate
  | identification (text : List Char)
  | ack
  | code (code : List Char)
  | value (code value : List Char)
  | unit (code value unit : List Char)
  /-- outside a telegram; `asked` after a `?` -/
  | ended (asked : Bool)

/-- Nothing of the current field has been read. -/
def Mode.Fresh : Mode → Prop
  | .start | .baudrate | .ack => True
  | .vendor letters => letters = []
  | .identification t => t = []
  | .code t => t = []
  | .value _ u => u = []
  | .unit _ _ w => w = []
  | .ended asked => asked = false

instance (m : Mode) : Decidable m.Fresh := by
  cases m <;> unfold Mode.Fresh <;> infer_instance

/-- A data line with the reading made of it. -/
structure Line (α : Type) where
  code : List Char
  value : List Char
  reading : α

/-- The scanner: its mode, and the lines of the telegram that gave a reading. -/
structure Scanner (α : Type) where
  mode : Mode
  lines : List (Line α)

namespace Scanner
variable {α : Type} (report : List Char → List Char → Option α) (maxReadings : Nat)

/-- The end of a data line. -/
def addLine (lines : List (Line α)) (code value : List Char) : Scanner α :=
  match report code value with
  | some reading =>
    ⟨.code [], if lines.length < maxReadings then lines ++ [⟨code, value, reading⟩] else lines⟩
  | none => ⟨.code [], lines⟩

/-- A byte inside a telegram, neither a mark nor a slash at the start of a field. -/
def scan (a : Scanner α) (byte : Char) : Except (Exit × Scanner α) (Scanner α) :=
  match a.mode with
  | .start => .ok a
  | .vendor letters =>
    if byte = '\r' ∨ byte = '\n' ∨ byte = '/' then .ok ⟨.vendor [], []⟩
    else if !byte.isAlpha then .error (.vendorNotAlpha, a)
    else if letters.length < 2 then .ok ⟨.vendor (letters ++ [byte]), a.lines⟩
    else .ok ⟨.baudrate, a.lines⟩
  | .baudrate => .ok ⟨.identification [], a.lines⟩
  | .identification t =>
    if byte = '\r' ∨ byte = '\n' then .ok ⟨.ack, a.lines⟩
    else .ok ⟨.identification (if isPrint byte then t ++ [byte] else t), a.lines⟩
  | .ack => .ok ⟨.code [], a.lines⟩
  | .code t =>
    if byte = '\n' ∨ byte = '\r' ∨ byte = '\x02' then .ok a
    else if byte = '(' then .ok ⟨.value t [], a.lines⟩
    else .ok ⟨.code (t ++ [byte]), a.lines⟩
  | .value t u =>
    if byte = ')' then .ok (addLine report maxReadings a.lines t u)
    else if byte = '*' then .ok ⟨.unit t u [], a.lines⟩
    else .ok ⟨.value t (u ++ [byte]), a.lines⟩
  | .unit t u w =>
    if byte = ')' then .ok (addLine report maxReadings a.lines t u)
    else .ok ⟨.unit t u (w ++ [byte]), a.lines⟩
  | .ended _ =>
    if byte = '\x02' then .ok ⟨.code [], a.lines⟩
    else if byte = '/' then .ok ⟨.vendor [], a.lines⟩
    else .ok ⟨.ended false, a.lines⟩

/-- One byte.  A slash at the start of a field starts a telegram, and forgets the
lines so far; after `?` an `!` does too, but keeps them. -/
def onByte (a : Scanner α) (byte : Char) : Except (Exit × Scanner α) (Scanner α) :=
  if byte = '/' ∧ a.mode.Fresh then .ok ⟨.vendor [], []⟩
  else if byte = '!' then
    match a.mode with
    | .ended true => .ok ⟨.vendor [], a.lines⟩
    | _ => .error (.package, a)
  else if byte = '?' then .ok ⟨.ended true, a.lines⟩
  else scan report maxReadings a byte

def onEvent (a : Scanner α) : Event → Except (Exit × Scanner α) (Scanner α)
  | .timeout => .error (.timedOut, a)
  | .zero => .ok a
  | .again => .ok a
  | .failed => .error (.readError, a)
  | .byte b => onByte report maxReadings a b

def initial : Scanner α := ⟨.start, []⟩

/-- The scanner over all events. -/
def loop (a : Scanner α) (events : List Event) : Except (Exit × Scanner α) (Scanner α) :=
  events.foldlM (onEvent report maxReadings) a

/-- The lines at the end of a scan, if it has ended. -/
def linesOf : Except (Exit × Scanner α) (Scanner α) → List (Line α)
  | .ok a => a.lines
  | .error (_, a) => a.lines

end Scanner

/-! ## Refinement -/

/-- The reading that the decoder makes of a line: it has 16 characters of the code
and 32 of the value, and sees them as C strings. -/
def reportLine (code value : List Char) : Option Slot :=
  let code := CString.cStr (code.take 16)
  let value := CString.cStr (value.take 32)
  if 0 < code.length ∧ 0 < value.length ∧ code.head?.any saneFirst then
    (Obis.ofText code).map fun obis => ⟨some obis, CString.strtod value⟩
  else none

/-- The decoder's locals hold what the scanner has read. -/
def Mode.Holds (s : State) : Mode → Prop
  | .start => s.context = .start ∧ s.byteIterator = 0
  | .vendor letters =>
    s.context = .vendor ∧ s.byteIterator = letters.length ∧ letters.length < 3
  | .baudrate => s.context = .baudrate ∧ s.byteIterator = 0
  | .identification t =>
    s.context = .identification ∧ s.byteIterator = min t.length 16
  | .ack => s.context = .ack ∧ s.byteIterator = 0
  | .code t =>
    s.context = .obisCode ∧ s.byteIterator = min t.length 16 ∧
      CBuffer.Starts s.obisCode (t.take 16)
  | .value t u =>
    s.context = .value ∧ s.byteIterator = min u.length 32 ∧
      CBuffer.Starts s.obisCode (t.take 16 ++ ['\x00']) ∧ CBuffer.Starts s.value (u.take 32)
  | .unit t u w =>
    s.context = .unit ∧ s.byteIterator = min w.length 16 ∧
      CBuffer.Starts s.obisCode (t.take 16 ++ ['\x00']) ∧
        CBuffer.Starts s.value (u.take 32 ++ ['\x00'])
  | .ended asked =>
    s.context = .end_ ∧ s.byteIterator = (if asked then 1 else 0) ∧
      (asked = true → s.endseq.head = '?')

/-- The readings counted are those of the scanner's lines. -/
structure Counts (maxReadings : Nat) (s : State) (lines : List (Line Slot)) : Prop where
  count : s.numberOfTuples = lines.length
  le : lines.length ≤ maxReadings
  slots : maxReadings ≤ s.rds.length
  readings : s.readings = lines.map Line.reading

/-- The decoder agrees with the scanner. -/
structure Agrees (maxReadings : Nat) (s : State) (a : Scanner Slot) : Prop where
  holds : a.mode.Holds s
  counts : Counts maxReadings s a.lines

/-- The decoder's next state or end is that of the scanner. -/
inductive Refines (maxReadings : Nat) : Next → Except (Exit × Scanner Slot) (Scanner Slot) → Prop
    where
  | ok {s : State} {a : Scanner Slot} (h : Agrees maxReadings s a) :
    Refines maxReadings (.ok s) (.ok a)
  | exit {e : Exit} {s : State} {a : Scanner Slot} (h : Counts maxReadings s a.lines) :
    Refines maxReadings (.error (.exit e s)) (.error (e, a))

section
variable {maxReadings : Nat} {s : State} {a : Scanner Slot}

theorem put_of_store {n : Nat} {buf buf' : Vector Char n} {i : Nat} {c : Char}
    (h : CBuffer.store buf i c = some buf') : put buf i c = .ok buf' := by
  rw [put, h]

/-- A byte more in a field of `size` characters. -/
theorem put_next {n size : Nat} {buf : Vector Char n} {t : List Char} (hsize : size < n)
    (h : CBuffer.Starts buf (t.take size)) (ht : t.length < size) (c : Char) :
    ∃ buf', put buf (min t.length size) c = .ok buf' ∧
      CBuffer.Starts buf' ((t ++ [c]).take size) := by
  rw [List.take_of_length_le (by omega)] at h
  obtain ⟨buf', hstore, hstarts⟩ := h.store (by omega) c
  refine ⟨buf', ?_, ?_⟩
  · rw [min_eq_left (by omega)]
    exact put_of_store hstore
  · rw [List.take_of_length_le (by rw [List.length_append, List.length_singleton]; omega)]
    exact hstarts

/-- The NUL behind a field. -/
theorem put_nul {n size : Nat} {buf : Vector Char n} {t : List Char} (hsize : size < n)
    (h : CBuffer.Starts buf (t.take size)) :
    ∃ buf', put buf (min t.length size) '\x00' = .ok buf' ∧
      CBuffer.Starts buf' (t.take size ++ ['\x00']) := by
  obtain ⟨buf', hstore, hstarts⟩ := h.store (by rw [List.length_take]; omega) '\x00'
  rw [List.length_take, min_comm] at hstore
  exact ⟨buf', put_of_store hstore, hstarts⟩

/-- A store whose text does not matter. -/
theorem put_lt {n : Nat} (buf : Vector Char n) {i : Nat} (hi : i < n) (c : Char) :
    ∃ buf', put buf i c = .ok buf' :=
  ⟨buf.set i c hi, put_of_store (dif_pos hi)⟩

/-- Steps that leave the readings alone. -/
theorem Counts.of_eq {t : State} {lines : List (Line Slot)} (h : Counts maxReadings s lines)
    (hcount : t.numberOfTuples = s.numberOfTuples) (hrds : t.rds = s.rds) :
    Counts maxReadings t lines := by
  refine ⟨hcount.trans h.count, h.le, hrds ▸ h.slots, ?_⟩
  rw [State.readings, hcount, hrds]
  exact h.readings

theorem Counts.reset {t : State} {lines : List (Line Slot)} (h : Counts maxReadings s lines)
    (hcount : t.numberOfTuples = 0) (hrds : t.rds = s.rds) : Counts maxReadings t [] :=
  ⟨hcount, Nat.zero_le _, hrds ▸ h.slots, by rw [State.readings, hcount]; rfl⟩

/-- The decoder makes of a line what `reportLine` says, as long as there is a slot. -/
theorem refines_addReading {t u : List Char}
    (hcode : CBuffer.Starts s.obisCode (t.take 16 ++ ['\x00']))
    (hvalue : CBuffer.Starts s.value (u.take 32 ++ ['\x00'])) {lines : List (Line Slot)}
    (hs : Counts maxReadings s lines) :
    Refines maxReadings (addReading maxReadings s)
      (.ok (Scanner.addLine reportLine maxReadings lines t u)) := by
  have hcount := hs.count
  have hle := hs.le
  have hslots := hs.slots
  have hreadings := hs.readings
  -- what is stored behind the readings that count
  have hkept : ∀ (slot : Slot) (i : Nat), s.numberOfTuples ≤ i →
      (s.rds.set i slot).take s.numberOfTuples = lines.map Line.reading := by
    intro slot i hi
    rw [List.take_set_of_le hi]
    exact hreadings
  have hstarts : CBuffer.Starts s.obisCode ([] : List Char) := CBuffer.starts_nil _
  simp only [addReading, hcode.text_eq, hvalue.text_eq, Scanner.addLine, reportLine]
  by_cases hsane : 0 < (CString.cStr (t.take 16)).length ∧ 0 < (CString.cStr (u.take 32)).length ∧
      (CString.cStr (t.take 16)).head?.any saneFirst = true
  · rw [if_pos hsane]
    by_cases hfree : s.numberOfTuples < maxReadings
    · rw [if_pos ⟨hfree, hsane⟩]
      simp only [putSlot, if_pos (show s.numberOfTuples < s.rds.length by omega), bind, Except.bind,
        List.length_set, List.set_set]
      cases Obis.ofText (CString.cStr (t.take 16)) with
      | none =>
        refine Refines.ok ⟨⟨rfl, rfl, hstarts⟩, hcount, hle, ?_, ?_⟩
        · rw [List.length_set]
          exact hslots
        · exact hkept _ _ (Nat.le_refl _)
      | some obis =>
        simp only [Option.map_some, if_pos (show lines.length < maxReadings by omega)]
        refine Refines.ok ⟨⟨rfl, rfl, hstarts⟩, ?_, ?_, ?_, ?_⟩
        · simp [hcount]
        · simp; omega
        · simpa using hslots
        · simp only [State.readings, List.map_append, List.map_cons, List.map_nil]
          rw [List.take_succ_eq_append_getElem (by rw [List.length_set]; omega),
            hkept _ _ (Nat.le_refl _), List.getElem_set_self]
    · rw [if_neg fun h => hfree h.1]
      cases Obis.ofText (CString.cStr (t.take 16)) with
      | none => exact Refines.ok ⟨⟨rfl, rfl, hstarts⟩, hs.of_eq rfl rfl⟩
      | some obis =>
        simp only [Option.map_some, if_neg (show ¬lines.length < maxReadings by omega)]
        exact Refines.ok ⟨⟨rfl, rfl, hstarts⟩, hs.of_eq rfl rfl⟩
  · rw [if_neg hsane, if_neg fun h => hsane h.2]
    exact Refines.ok ⟨⟨rfl, rfl, hstarts⟩, hs.of_eq rfl rfl⟩

/-! ### One byte -/

theorem Mode.Holds.fresh_iff {m : Mode} (h : m.Holds s) : s.byteIterator = 0 ↔ m.Fresh := by
  cases m with
  | start | baudrate | ack => simp [Mode.Fresh, h.2]
  | vendor letters => simp [Mode.Fresh, h.2.1]
  | identification t => simp [Mode.Fresh, h.2]
  | code t => simp [Mode.Fresh, h.2.1]
  | value t u => simp [Mode.Fresh, h.2.1]
  | unit t u w => simp [Mode.Fresh, h.2.1]
  | ended asked => simp [Mode.Fresh, h.2.1]

theorem Mode.Holds.context_eq_end_iff {m : Mode} (h : m.Holds s) :
    s.context = .end_ ↔ ∃ asked, m = .ended asked := by
  cases m <;> simp [h.1]

/-- A step that does not end a line. -/
theorem refines_of_ok {n : Next} {r : Except (Exit × Scanner Slot) (Scanner Slot)} {t : State}
    {b : Scanner Slot} (hn : n = .ok t) (hr : r = .ok b) (hne : t.context ≠ .endLine)
    (h : Agrees maxReadings t b) : Refines maxReadings (n >>= afterContext maxReadings) r := by
  rw [hn, hr]
  show Refines maxReadings (afterContext maxReadings t) (.ok b)
  rw [afterContext, if_neg hne]
  exact Refines.ok h

/-- A step that ends the reading. -/
theorem refines_of_exit {n : Next} {r : Except (Exit × Scanner Slot) (Scanner Slot)} {t : State}
    {e : Exit} {b : Scanner Slot} (hn : n = .error (.exit e t)) (hr : r = .error (e, b))
    (h : Counts maxReadings t b.lines) :
    Refines maxReadings (n >>= afterContext maxReadings) r := by
  rw [hn, hr]
  exact Refines.exit h

variable (byte : Char)

theorem refines_vendor {letters : List Char} (hs : Counts maxReadings s a.lines)
    (hmode : a.mode = .vendor letters) (h : Mode.Holds s (.vendor letters)) :
    Refines maxReadings (onVendor s byte >>= afterContext maxReadings)
      (Scanner.scan reportLine maxReadings a byte) := by
  obtain ⟨hcontext, hit, hlen⟩ := h
  have hne : s.context ≠ .endLine := by simp [hcontext]
  by_cases hreset : byte = '\r' ∨ byte = '\n' ∨ byte = '/'
  · have hok : onVendor s byte = .ok { s with byteIterator := 0, numberOfTuples := 0 } :=
      if_pos hreset
    have hscan : Scanner.scan reportLine maxReadings a byte = .ok ⟨.vendor [], []⟩ := by
      simp only [Scanner.scan, hmode, if_pos hreset]
    exact refines_of_ok hok hscan hne ⟨⟨hcontext, rfl, by decide⟩, hs.reset rfl rfl⟩
  cases halpha : byte.isAlpha with
  | false =>
    have hexit : onVendor s byte = .error (.exit .vendorNotAlpha s) := by
      simp [onVendor, hreset, halpha]
    have hscan : Scanner.scan reportLine maxReadings a byte = .error (.vendorNotAlpha, a) := by
      simp [Scanner.scan, hmode, hreset, halpha]
    exact refines_of_exit hexit hscan hs
  | true =>
    obtain ⟨vendor, hput⟩ := put_lt s.vendor (show s.byteIterator < 4 by omega) byte
    by_cases htwo : letters.length < 2
    · have hok : onVendor s byte =
          .ok { s with vendor := vendor, byteIterator := s.byteIterator + 1 } := by
        simp only [onVendor, if_neg hreset, halpha, Bool.not_true, Bool.false_eq_true, ↓reduceIte,
          hput]
        exact if_neg (by omega)
      have hscan : Scanner.scan reportLine maxReadings a byte =
          .ok ⟨.vendor (letters ++ [byte]), a.lines⟩ := by
        simp [Scanner.scan, hmode, hreset, halpha, htwo]
      exact refines_of_ok hok hscan hne
        ⟨⟨hcontext, by simp [hit], by simp; omega⟩, hs.of_eq rfl rfl⟩
    · obtain ⟨vendor', hput'⟩ := put_lt vendor (show s.byteIterator + 1 < 4 by omega) '\x00'
      have hok : onVendor s byte = .ok { s with
          vendor := vendor', byteIterator := 0, context := .baudrate
          meter := { s.meter with reactionTimeMs := if vendor[2].isLower then 20 else 200 } } := by
        simp only [onVendor, if_neg hreset, halpha, Bool.not_true, Bool.false_eq_true, ↓reduceIte,
          hput]
        refine (if_pos (by omega)).trans ?_
        simp only [hput']
        rfl
      have hscan : Scanner.scan reportLine maxReadings a byte = .ok ⟨.baudrate, a.lines⟩ := by
        simp [Scanner.scan, hmode, hreset, halpha, htwo]
      exact refines_of_ok hok hscan (by simp) ⟨⟨rfl, rfl⟩, hs.of_eq rfl rfl⟩

theorem refines_identification {t : List Char} (hs : Counts maxReadings s a.lines)
    (hmode : a.mode = .identification t) (h : Mode.Holds s (.identification t)) :
    Refines maxReadings (onIdentification s byte >>= afterContext maxReadings)
      (Scanner.scan reportLine maxReadings a byte) := by
  obtain ⟨hcontext, hit⟩ := h
  have hne : s.context ≠ .endLine := by simp [hcontext]
  by_cases hend : byte = '\r' ∨ byte = '\n'
  · obtain ⟨identification, hput⟩ :=
      put_lt s.identification (show s.byteIterator < 17 by omega) '\x00'
    have hok : onIdentification s byte = .ok { s with
        identification := identification, byteIterator := 0, context := .ack } := by
      simp only [onIdentification, if_pos hend, hput]
      rfl
    have hscan : Scanner.scan reportLine maxReadings a byte = .ok ⟨.ack, a.lines⟩ := by
      simp only [Scanner.scan, hmode, if_pos hend]
    exact refines_of_ok hok hscan (by simp) ⟨⟨rfl, rfl⟩, hs.of_eq rfl rfl⟩
  have hscan : Scanner.scan reportLine maxReadings a byte =
      .ok ⟨.identification (if isPrint byte then t ++ [byte] else t), a.lines⟩ := by
    simp only [Scanner.scan, hmode, if_neg hend]
  cases hprint : isPrint byte with
  | false =>
    have hok : onIdentification s byte = .ok s := by
      simp [onIdentification, hend, hprint]
    rw [hprint] at hscan
    exact refines_of_ok hok hscan hne ⟨⟨hcontext, hit⟩, hs⟩
  | true =>
    rw [hprint, if_pos rfl] at hscan
    by_cases hfits : s.byteIterator < 16
    · obtain ⟨identification, hput⟩ :=
        put_lt s.identification (show s.byteIterator < 17 by omega) byte
      have hok : onIdentification s byte = .ok { s with
          identification := identification, byteIterator := s.byteIterator + 1 } := by
        simp only [onIdentification, if_neg hend, hprint, if_pos hfits, hput]
        rfl
      exact refines_of_ok hok hscan hne ⟨⟨hcontext, by simp [hit]; omega⟩, hs.of_eq rfl rfl⟩
    · have hok : onIdentification s byte = .ok s := by
        simp [onIdentification, hend, hprint, hfits]
      exact refines_of_ok hok hscan hne ⟨⟨hcontext, by simp [hit]; omega⟩, hs⟩

theorem refines_code {t : List Char} (hs : Counts maxReadings s a.lines)
    (hmode : a.mode = .code t) (h : Mode.Holds s (.code t)) :
    Refines maxReadings (onObisCode s byte >>= afterContext maxReadings)
      (Scanner.scan reportLine maxReadings a byte) := by
  obtain ⟨hcontext, hit, hstarts⟩ := h
  have hne : s.context ≠ .endLine := by simp [hcontext]
  by_cases hskip : byte = '\n' ∨ byte = '\r' ∨ byte = '\x02'
  · have hok : onObisCode s byte = .ok s := if_neg (by tauto)
    have hscan : Scanner.scan reportLine maxReadings a byte = .ok a := by
      simp only [Scanner.scan, hmode, if_pos hskip]
    exact refines_of_ok hok hscan hne ⟨hmode ▸ ⟨hcontext, hit, hstarts⟩, hs⟩
  have hkeep : byte ≠ '\n' ∧ byte ≠ '\r' ∧ byte ≠ '\x02' := by tauto
  by_cases hopen : byte = '('
  · obtain ⟨obisCode, hput, hstarts'⟩ := put_nul (by decide) hstarts
    have hok : onObisCode s byte =
        .ok { s with obisCode := obisCode, byteIterator := 0, context := .value } := by
      simp only [onObisCode, if_pos hkeep, if_pos hopen, hit, hput]
      rfl
    have hscan : Scanner.scan reportLine maxReadings a byte = .ok ⟨.value t [], a.lines⟩ := by
      simp only [Scanner.scan, hmode, if_neg hskip, if_pos hopen]
    exact refines_of_ok hok hscan (by simp)
      ⟨⟨rfl, rfl, hstarts', CBuffer.starts_nil _⟩, hs.of_eq rfl rfl⟩
  have hscan : Scanner.scan reportLine maxReadings a byte = .ok ⟨.code (t ++ [byte]), a.lines⟩ := by
    simp only [Scanner.scan, hmode, if_neg hskip, if_neg hopen]
  by_cases hfits : t.length < 16
  · obtain ⟨obisCode, hput, hstarts'⟩ := put_next (by decide) hstarts hfits byte
    have hok : onObisCode s byte =
        .ok { s with obisCode := obisCode, byteIterator := s.byteIterator + 1 } := by
      simp only [onObisCode, if_pos hkeep, if_neg hopen]
      rw [if_pos (by omega), hit, hput]
      rfl
    exact refines_of_ok hok hscan hne
      ⟨⟨hcontext, by simp [hit]; omega, hstarts'⟩, hs.of_eq rfl rfl⟩
  · have hok : onObisCode s byte = .ok s := by
      simp only [onObisCode, if_pos hkeep, if_neg hopen]
      exact if_neg (by omega)
    refine refines_of_ok hok hscan hne ⟨⟨hcontext, by simp [hit]; omega, ?_⟩, hs⟩
    rw [List.take_append_of_le_length (by omega)]
    exact hstarts

/-- The closing bracket of a line. -/
theorem refines_addLine {n : Next} {r : Except (Exit × Scanner Slot) (Scanner Slot)} {e : State}
    {t u : List Char} {lines : List (Line Slot)} (hn : n = .ok e)
    (hr : r = .ok (Scanner.addLine reportLine maxReadings lines t u)) (he : e.context = .endLine)
    (hcode : CBuffer.Starts e.obisCode (t.take 16 ++ ['\x00']))
    (hvalue : CBuffer.Starts e.value (u.take 32 ++ ['\x00']))
    (hs : Counts maxReadings e lines) : Refines maxReadings (n >>= afterContext maxReadings) r := by
  rw [hn, hr]
  show Refines maxReadings (afterContext maxReadings e) _
  rw [afterContext, if_pos he]
  exact refines_addReading hcode hvalue hs

theorem refines_value {t u : List Char} (hs : Counts maxReadings s a.lines)
    (hmode : a.mode = .value t u) (h : Mode.Holds s (.value t u)) :
    Refines maxReadings (onValue s byte >>= afterContext maxReadings)
      (Scanner.scan reportLine maxReadings a byte) := by
  obtain ⟨hcontext, hit, hcode, hstarts⟩ := h
  have hne : s.context ≠ .endLine := by simp [hcontext]
  obtain ⟨value, hput, hvalue⟩ := put_nul (by decide) hstarts
  by_cases hclose : byte = ')'
  · obtain ⟨unit, hunit⟩ := put_lt s.unit (show 0 < 17 by decide) '\x00'
    have hok : onValue s byte = .ok { s with
        value := value, byteIterator := 0, unit := unit, context := .endLine } := by
      simp only [onValue, if_pos (show byte = '*' ∨ byte = ')' from .inr hclose), hit, hput]
      refine (if_pos hclose).trans ?_
      rw [hunit]
      rfl
    have hscan : Scanner.scan reportLine maxReadings a byte =
        .ok (Scanner.addLine reportLine maxReadings a.lines t u) := by
      simp only [Scanner.scan, hmode, if_pos hclose]
    exact refines_addLine hok hscan rfl hcode hvalue (hs.of_eq rfl rfl)
  by_cases hstar : byte = '*'
  · have hok : onValue s byte =
        .ok { s with value := value, byteIterator := 0, context := .unit } := by
      simp only [onValue, if_pos (show byte = '*' ∨ byte = ')' from .inl hstar), hit, hput]
      exact if_neg hclose
    have hscan : Scanner.scan reportLine maxReadings a byte = .ok ⟨.unit t u [], a.lines⟩ := by
      simp only [Scanner.scan, hmode, if_neg hclose, if_pos hstar]
    exact refines_of_ok hok hscan (by simp) ⟨⟨rfl, rfl, hcode, hvalue⟩, hs.of_eq rfl rfl⟩
  have hscan : Scanner.scan reportLine maxReadings a byte =
      .ok ⟨.value t (u ++ [byte]), a.lines⟩ := by
    simp only [Scanner.scan, hmode, if_neg hclose, if_neg hstar]
  by_cases hfits : u.length < 32
  · obtain ⟨value', hput', hstarts'⟩ := put_next (by decide) hstarts hfits byte
    have hok : onValue s byte =
        .ok { s with value := value', byteIterator := s.byteIterator + 1 } := by
      simp only [onValue]
      rw [if_neg (by tauto), if_pos (by omega), hit, hput']
      rfl
    exact refines_of_ok hok hscan hne
      ⟨⟨hcontext, by simp [hit]; omega, hcode, hstarts'⟩, hs.of_eq rfl rfl⟩
  · have hok : onValue s byte = .ok s := by
      simp only [onValue]
      rw [if_neg (by tauto), if_neg (by omega)]
    refine refines_of_ok hok hscan hne ⟨⟨hcontext, by simp [hit]; omega, hcode, ?_⟩, hs⟩
    rw [List.take_append_of_le_length (by omega)]
    exact hstarts

theorem refines_unit {t u w : List Char} (hs : Counts maxReadings s a.lines)
    (hmode : a.mode = .unit t u w) (h : Mode.Holds s (.unit t u w)) :
    Refines maxReadings (onUnit s byte >>= afterContext maxReadings)
      (Scanner.scan reportLine maxReadings a byte) := by
  obtain ⟨hcontext, hit, hcode, hvalue⟩ := h
  have hne : s.context ≠ .endLine := by simp [hcontext]
  by_cases hclose : byte = ')'
  · obtain ⟨unit, hput⟩ := put_lt s.unit (show s.byteIterator < 17 by omega) '\x00'
    have hok : onUnit s byte =
        .ok { s with unit := unit, byteIterator := 0, context := .endLine } := by
      simp only [onUnit, if_pos hclose, hput]
      rfl
    have hscan : Scanner.scan reportLine maxReadings a byte =
        .ok (Scanner.addLine reportLine maxReadings a.lines t u) := by
      simp only [Scanner.scan, hmode, if_pos hclose]
    exact refines_addLine hok hscan rfl hcode hvalue (hs.of_eq rfl rfl)
  have hscan : Scanner.scan reportLine maxReadings a byte =
      .ok ⟨.unit t u (w ++ [byte]), a.lines⟩ := by
    simp only [Scanner.scan, hmode, if_neg hclose]
  by_cases hfits : s.byteIterator < 16
  · obtain ⟨unit, hput⟩ := put_lt s.unit (show s.byteIterator < 17 by omega) byte
    have hok : onUnit s byte = .ok { s with unit := unit, byteIterator := s.byteIterator + 1 } := by
      simp only [onUnit, if_neg hclose, if_pos hfits, hput]
      rfl
    exact refines_of_ok hok hscan hne
      ⟨⟨hcontext, by simp [hit]; omega, hcode, hvalue⟩, hs.of_eq rfl rfl⟩
  · have hok : onUnit s byte = .ok s := by
      simp only [onUnit, if_neg hclose, if_neg hfits]
    exact refines_of_ok hok hscan hne ⟨⟨hcontext, by simp [hit]; omega, hcode, hvalue⟩, hs⟩

theorem refines_ended {asked : Bool} (hs : Counts maxReadings s a.lines)
    (hmode : a.mode = .ended asked) (h : Mode.Holds s (.ended asked)) (hmark : byte ≠ '!')
    (hask : byte ≠ '?') :
    Refines maxReadings (onEnd s byte >>= afterContext maxReadings)
      (Scanner.scan reportLine maxReadings a byte) := by
  obtain ⟨hcontext, hit, -⟩ := h
  have hne : s.context ≠ .endLine := by simp [hcontext]
  by_cases hstx : byte = '\x02'
  · have hok : onEnd s byte = .ok { s with context := .obisCode, byteIterator := 0 } := by
      simp [onEnd, hstx]
    have hscan : Scanner.scan reportLine maxReadings a byte = .ok ⟨.code [], a.lines⟩ := by
      simp [Scanner.scan, hmode, hstx]
    exact refines_of_ok hok hscan (by simp)
      ⟨⟨rfl, rfl, CBuffer.starts_nil _⟩, hs.of_eq rfl rfl⟩
  by_cases hslash : byte = '/'
  · have hok : onEnd s byte = .ok { s with context := .vendor, byteIterator := 0 } := by
      simp [onEnd, hslash]
    have hscan : Scanner.scan reportLine maxReadings a byte = .ok ⟨.vendor [], a.lines⟩ := by
      simp [Scanner.scan, hmode, hslash]
    exact refines_of_ok hok hscan (by simp) ⟨⟨rfl, rfl, by decide⟩, hs.of_eq rfl rfl⟩
  have hscan : Scanner.scan reportLine maxReadings a byte = .ok ⟨.ended false, a.lines⟩ := by
    simp [Scanner.scan, hmode, hstx, hslash]
  by_cases hpos : 0 < s.byteIterator
  · have hok : onEnd s byte = .ok { s with byteIterator := 0 } := by
      simp [onEnd, hmark, hask, hstx, hslash, hpos]
    exact refines_of_ok hok hscan hne
      ⟨⟨hcontext, rfl, fun h => by cases h⟩, hs.of_eq rfl rfl⟩
  · have hok : onEnd s byte = .ok s := by
      simp [onEnd, hmark, hask, hstx, hslash, hpos]
    exact refines_of_ok hok hscan hne
      ⟨⟨hcontext, by simp; omega, fun h => by cases h⟩, hs⟩

/-- A `?` at the end of a telegram is remembered. -/
theorem refines_ask {t : State} (hs : Counts maxReadings t a.lines) (hcontext : t.context = .end_)
    (hit : t.byteIterator = 0) :
    Refines maxReadings (onEnd t '?' >>= afterContext maxReadings)
      (.ok ⟨.ended true, a.lines⟩) := by
  have hok : onEnd t '?' =
      .ok { t with endseq := t.endseq.set 0 '?', byteIterator := t.byteIterator + 1 } := by
    have hput : put t.endseq t.byteIterator '?' = .ok (t.endseq.set 0 '?') := by
      rw [hit]
      rfl
    have hne : ¬( '?' = '!') := by decide
    simp only [onEnd, if_neg hne, ↓reduceIte, if_pos hit, hput]
    rfl
  refine refines_of_ok hok rfl (by simp [hcontext])
    ⟨⟨hcontext, by simp [hit], fun _ => ?_⟩, hs.of_eq rfl rfl⟩
  exact Vector.getElem_set_self _

/-- A slash at the start of a field. -/
theorem refines_slash (hs : Counts maxReadings s a.lines) :
    Refines maxReadings
      (onContext { s with context := .vendor } '/' >>= afterContext maxReadings)
      (.ok ⟨.vendor [], []⟩) := by
  have hok : onContext { s with context := .vendor } '/' = .ok { s with
      context := .vendor, byteIterator := 0, numberOfTuples := 0 } := by
    simp [onContext, onVendor]
  exact refines_of_ok hok rfl (by simp) ⟨⟨rfl, rfl, by decide⟩, hs.reset rfl rfl⟩

/-- An `!`, where no telegram has just ended. -/
theorem refines_package (hs : Counts maxReadings s a.lines)
    (hmode : ∀ asked, a.mode ≠ .ended asked) :
    Refines maxReadings
      (onContext { s with context := .end_, byteIterator := 0 } '!' >>= afterContext maxReadings)
      (match a.mode with
        | .ended true => .ok ⟨.vendor [], a.lines⟩
        | _ => .error (.package, a)) := by
  have hexit : onContext { s with context := .end_, byteIterator := 0 } '!' =
      .error (.exit .package { s with context := .end_, byteIterator := 0 }) := rfl
  have hscan : (match a.mode with
      | .ended true => .ok ⟨.vendor [], a.lines⟩
      | _ => .error (.package, a) : Except (Exit × Scanner Slot) (Scanner Slot)) =
        .error (.package, a) := by
    split
    · next h => exact absurd h (hmode true)
    · rfl
  exact refines_of_exit hexit hscan (hs.of_eq rfl rfl)

/-- An `!` at the end of a telegram; after a `?` the next one begins. -/
theorem refines_mark {asked : Bool} (hs : Counts maxReadings s a.lines)
    (h : Mode.Holds s (.ended asked)) :
    Refines maxReadings (onEnd s '!' >>= afterContext maxReadings)
      (match Mode.ended asked with
        | .ended true => .ok ⟨.vendor [], a.lines⟩
        | _ => .error (.package, a)) := by
  obtain ⟨-, hit, hask⟩ := h
  cases asked with
  | false => exact refines_of_exit (if_pos hit) rfl hs
  | true =>
    have hasked : s.endseq[0] = '?' := hask rfl
    have hok : onEnd s '!' = .ok { s with context := .vendor, byteIterator := 0 } := by
      simp [onEnd, hit, hasked]
    exact refines_of_ok hok rfl (by simp) ⟨⟨rfl, rfl, by decide⟩, hs.of_eq rfl rfl⟩

/-- A `?` at the end of a telegram, the first or another one. -/
theorem refines_askAgain {asked : Bool} (hs : Counts maxReadings s a.lines)
    (h : Mode.Holds s (.ended asked)) :
    Refines maxReadings (onEnd s '?' >>= afterContext maxReadings)
      (.ok ⟨.ended true, a.lines⟩) := by
  obtain ⟨hcontext, hit, hask⟩ := h
  cases asked with
  | false => exact refines_ask hs hcontext hit
  | true =>
    have hok : onEnd s '?' = .ok s := by simp [onEnd, hit]
    exact refines_of_ok hok rfl (by simp [hcontext]) ⟨⟨hcontext, hit, hask⟩, hs⟩

/-- A byte that is no mark, and no slash at the start of a field. -/
theorem refines_scan (h : Agrees maxReadings s a) (hslash : ¬(byte = '/' ∧ s.byteIterator = 0))
    (hmark : byte ≠ '!') (hask : byte ≠ '?') :
    Refines maxReadings (onContext s byte >>= afterContext maxReadings)
      (Scanner.scan reportLine maxReadings a byte) := by
  obtain ⟨mode, lines⟩ := a
  obtain ⟨hholds, hs⟩ := h
  cases mode with
  | start =>
    obtain ⟨hcontext, hit⟩ := hholds
    have hne : byte ≠ '/' := fun h => hslash ⟨h, hit⟩
    rw [onContext, hcontext]
    exact refines_of_ok (if_neg hne) rfl (by simp [hcontext]) ⟨⟨hcontext, hit⟩, hs⟩
  | vendor letters =>
    rw [onContext, hholds.1]
    exact refines_vendor byte hs rfl hholds
  | baudrate =>
    rw [onContext, hholds.1]
    exact refines_of_ok rfl rfl (by simp) ⟨⟨rfl, rfl⟩, hs.of_eq rfl rfl⟩
  | identification t =>
    rw [onContext, hholds.1]
    exact refines_identification byte hs rfl hholds
  | ack =>
    rw [onContext, hholds.1]
    by_cases hack : s.meter.autoAck = true ∨ s.meter.ack ≠ []
    · exact refines_of_ok (if_pos hack) rfl (by simp)
        ⟨⟨rfl, hholds.2, CBuffer.starts_nil _⟩, hs.of_eq rfl rfl⟩
    · exact refines_of_ok (if_neg hack) rfl (by simp)
        ⟨⟨rfl, hholds.2, CBuffer.starts_nil _⟩, hs.of_eq rfl rfl⟩
  | code t =>
    rw [onContext, hholds.1]
    exact refines_code byte hs rfl hholds
  | value t u =>
    rw [onContext, hholds.1]
    exact refines_value byte hs rfl hholds
  | unit t u w =>
    rw [onContext, hholds.1]
    exact refines_unit byte hs rfl hholds
  | ended asked =>
    rw [onContext, hholds.1]
    exact refines_ended byte hs rfl hholds hmark hask

/-- **Refinement, one byte.** -/
theorem refines_onByte (h : Agrees maxReadings s a) :
    Refines maxReadings (onByte maxReadings s byte)
      (Scanner.onByte reportLine maxReadings a byte) := by
  obtain ⟨hholds, hs⟩ := h
  have hfresh := hholds.fresh_iff
  have hend := hholds.context_eq_end_iff
  unfold onByte Scanner.onByte
  by_cases hslash : byte = '/' ∧ a.mode.Fresh
  · rw [if_pos hslash, redirect, if_pos ⟨hslash.1, hfresh.mpr hslash.2⟩, hslash.1]
    exact refines_slash hs
  have hslash' : ¬(byte = '/' ∧ s.byteIterator = 0) := fun h => hslash ⟨h.1, hfresh.mp h.2⟩
  rw [if_neg hslash, redirect, if_neg hslash']
  by_cases hmark : byte = '!'
  · subst hmark
    rw [if_pos (.inr rfl), if_pos rfl]
    by_cases hcontext : s.context = .end_
    · obtain ⟨asked, hmode⟩ := hend.mp hcontext
      rw [if_neg (not_not.mpr hcontext), onContext, hcontext, hmode]
      exact refines_mark hs (hmode ▸ hholds)
    · rw [if_pos hcontext]
      exact refines_package hs fun asked hmode => hcontext (hend.mpr ⟨asked, hmode⟩)
  rw [if_neg hmark]
  by_cases hask : byte = '?'
  · subst hask
    rw [if_pos (.inl rfl), if_pos rfl]
    by_cases hcontext : s.context = .end_
    · obtain ⟨asked, hmode⟩ := hend.mp hcontext
      rw [if_neg (not_not.mpr hcontext), onContext, hcontext]
      exact refines_askAgain hs (hmode ▸ hholds)
    · rw [if_pos hcontext]
      exact refines_ask (hs.of_eq rfl rfl) rfl rfl
  rw [if_neg hask, if_neg (by tauto)]
  exact refines_scan byte ⟨hholds, hs⟩ hslash' hmark hask

/-! ### Runs -/

theorem refines_onEvent (h : Agrees maxReadings s a) (e : Event) :
    Refines maxReadings (onEvent maxReadings s e)
      (Scanner.onEvent reportLine maxReadings a e) := by
  cases e with
  | timeout | failed => exact Refines.exit h.counts
  | zero | again => exact Refines.ok h
  | byte b => exact refines_onByte b h

/-- **Refinement.**  The decoder goes through the events as the scanner does. -/
theorem refines_loop (h : Agrees maxReadings s a) (events : List Event) :
    Refines maxReadings (loop maxReadings s events)
      (Scanner.loop reportLine maxReadings a events) := by
  induction events generalizing s a with
  | nil => exact Refines.ok h
  | cons e events ih =>
    have hstep := refines_onEvent h e
    rw [loop, Scanner.loop, List.foldlM_cons, List.foldlM_cons]
    generalize onEvent maxReadings s e = next at hstep ⊢
    generalize Scanner.onEvent reportLine maxReadings a e = scanned at hstep ⊢
    cases hstep with
    | ok h' => exact ih h'
    | exit h' => exact Refines.exit h'

end

theorem agrees_initial {maxReadings : Nat} (meter : MeterD0) (stack : Stack) {rds : List Slot}
    (hrds : maxReadings ≤ rds.length) :
    Agrees maxReadings (MeterD0.initial meter stack rds) Scanner.initial :=
  ⟨⟨rfl, rfl⟩, rfl, Nat.zero_le _, hrds, rfl⟩

/-- The events that the loop of `read` sees. -/
def loopEvents (meter : MeterD0) (events : List Event) : List Event :=
  if meter.waitSyncEnd then (syncEnd 0 '\x00' events).2 else events

/-- `read` refines the scanner. -/
theorem refines_read {maxReadings : Nat} (meter : MeterD0) (stack : Stack) {rds : List Slot}
    (hrds : maxReadings ≤ rds.length) (events : List Event) :
    Refines maxReadings (read meter stack rds maxReadings events)
      (Scanner.loop reportLine maxReadings Scanner.initial (loopEvents meter events)) := by
  by_cases hsync : meter.waitSyncEnd = true
  · simp only [read, loopEvents, hsync, ↓reduceIte]
    exact refines_loop (agrees_initial _ stack hrds) _
  · simp only [read, loopEvents, hsync, Bool.false_eq_true, ↓reduceIte]
    exact refines_loop (agrees_initial _ stack hrds) _

/-! ## Safety -/

/-- The ends that the scanner has. -/
theorem Scanner.exit_of_onEvent {α : Type} {report : List Char → List Char → Option α}
    {maxReadings : Nat} {a b : Scanner α} {e : Event} {x : Exit}
    (h : Scanner.onEvent report maxReadings a e = .error (x, b)) :
    x ≠ .endLineError ∧ x ≠ .endError := by
  cases e with
  | timeout | failed =>
    obtain ⟨rfl, -⟩ := Prod.mk.inj (Except.error.inj h)
    decide
  | zero | again => cases h
  | byte c =>
    simp only [Scanner.onEvent, Scanner.onByte, Scanner.scan] at h
    repeat' split at h
    all_goals first
      | (obtain ⟨rfl, -⟩ := Prod.mk.inj (Except.error.inj h); decide)
      | cases h

theorem Scanner.exit_of_loop {α : Type} {report : List Char → List Char → Option α}
    {maxReadings : Nat} {a b : Scanner α} {events : List Event} {x : Exit}
    (h : Scanner.loop report maxReadings a events = .error (x, b)) :
    x ≠ .endLineError ∧ x ≠ .endError := by
  induction events generalizing a with
  | nil => cases h
  | cons e events ih =>
    rw [Scanner.loop, List.foldlM_cons] at h
    cases hstep : Scanner.onEvent report maxReadings a e with
    | ok c =>
      rw [hstep] at h
      exact ih h
    | error p =>
      rw [hstep] at h
      obtain rfl : p = (x, b) := Except.error.inj h
      exact Scanner.exit_of_onEvent hstep

/-- No store is outside its array, the count stays within the caller's limit, and
no branch for a logical error is taken. -/
def Safe (maxReadings : Nat) : Next → Prop
  | .ok s => s.numberOfTuples ≤ maxReadings
  | .error .fault => False
  | .error (.exit e s) =>
    s.numberOfTuples ≤ maxReadings ∧ e ≠ .endLineError ∧ e ≠ .endError

/-- **The decoder is safe**, whatever comes in. -/
theorem read_safe (meter : MeterD0) (stack : Stack) {rds : List Slot} {maxReadings : Nat}
    (hrds : maxReadings ≤ rds.length) (events : List Event) :
    Safe maxReadings (read meter stack rds maxReadings events) := by
  have hrefines := refines_read meter stack hrds events
  generalize hread : read meter stack rds maxReadings events = next at hrefines ⊢
  generalize hscan : Scanner.loop reportLine maxReadings Scanner.initial
    (loopEvents meter events) = scanned at hrefines
  cases hrefines with
  | ok h => exact h.counts.count.trans_le h.counts.le
  | exit h => exact ⟨h.count.trans_le h.le, Scanner.exit_of_loop hscan⟩

/-- A line without room: the vector of the caller holds one reading. -/
theorem read_safe_one :
    Safe 1 (read ⟨[], false, false, 0⟩ Stack.filled [⟨none, .finite 0⟩] 1
      ("/ABC5x\r\n1.8.0(1)\r\n2.8.0(2)\r\n!".toList.map Event.byte)) :=
  read_safe _ _ (Nat.le_refl 1) _

end VzLogger.MeterD0
