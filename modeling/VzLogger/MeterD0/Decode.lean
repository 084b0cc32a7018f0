import VzLogger.MeterD0.Scanner

/-! # Decoding a telegram

A telegram is `/`, three letters, a baudrate character and an identification on
the first line, then data lines `obis(value)` or `obis(value*unit)`, then `!`.
The scanner reads it line by line; with texts that fit, the decoder returns the
readings of the lines that have one, in order, up to the caller's limit.
-/
namespace VzLogger.MeterD0

/-- A line `obis(value)` or `obis(value*unit)`. -/
structure DataLine where
  obis : List Char
  value : List Char
  unit : Option (List Char)

def DataLine.text (l : DataLine) : List Char :=
  l.obis ++ '(' :: l.value ++ l.unit.elim [] ('*' :: ·) ++ [')', '\r', '\n']

structure Telegram where
  vendor : List Char
  baudrate : Char
  identification : List Char
  lines : List DataLine

def Telegram.text (t : Telegram) : List Char :=
  '/' :: t.vendor ++ t.baudrate :: t.identification ++ ['\r', '\n'] ++
    t.lines.flatMap DataLine.text ++ ['!']

/-- A character of the first line. -/
def HeaderChar (c : Char) : Prop := isPrint c = true ∧ c ∉ ['/', '?', '!']

/-- A character of a field in a data line. -/
def FieldChar (c : Char) : Prop := isPrint c = true ∧ c ∉ ['(', ')', '/', '!', '?']

structure DataLine.WellFormed (l : DataLine) : Prop where
  obis : ∀ c ∈ l.obis, FieldChar c
  obis_fits : l.obis.length ≤ 16
  value : ∀ c ∈ l.value, FieldChar c ∧ c ≠ '*'
  value_fits : l.value.length ≤ 32
  unit : ∀ w ∈ l.unit, (∀ c ∈ w, FieldChar c) ∧ w.length ≤ 16

structure Telegram.WellFormed (t : Telegram) : Prop where
  vendor : t.vendor.length = 3 ∧ ∀ c ∈ t.vendor, c.isAlpha = true
  baudrate : HeaderChar t.baudrate
  identification : ∀ c ∈ t.identification, HeaderChar c
  lines : ∀ l ∈ t.lines, l.WellFormed

/-- The reading of a line: its value is not empty, and its code starts with a
digit, `C` or `F` and is an OBIS code. -/
def DataLine.reading (l : DataLine) : Option Slot :=
  if l.value ≠ [] ∧ l.obis.head?.any saneFirst then
    (Obis.ofText l.obis).map fun obis => ⟨some obis, CString.strtod l.value⟩
  else none

/-- The byte of an event. -/
def Event.byte? : Event → Option Char
  | .byte b => some b
  | _ => none

/-- The events are the bytes of a text, with waiting in between, and no timeout. -/
structure Receives (events : List Event) (text : List Char) : Prop where
  bytes : events.filterMap Event.byte? = text
  noTimeout : ∀ e ∈ events, e ≠ .timeout ∧ e ≠ .failed

/-! ## The scanner on pieces of a telegram -/

namespace Scanner
variable {α : Type} {report : List Char → List Char → Option α} {maxReadings : Nat}

/-- The scanner over bytes. -/
def scanText (report : List Char → List Char → Option α) (maxReadings : Nat) (a : Scanner α)
    (text : List Char) : Except (Exit × Scanner α) (Scanner α) :=
  text.foldlM (onByte report maxReadings) a

/-- Waiting does not matter. -/
theorem loop_eq_scanText {events : List Event} {text : List Char} (h : Receives events text)
    (a : Scanner α) : loop report maxReadings a events = scanText report maxReadings a text := by
  obtain ⟨rfl, hno⟩ := h
  induction events generalizing a with
  | nil => rfl
  | cons e events ih =>
    obtain ⟨he, hrest⟩ := List.forall_mem_cons.mp hno
    cases e with
    | timeout => exact absurd rfl he.1
    | failed => exact absurd rfl he.2
    | zero | again => exact ih a hrest
    | byte b =>
      rw [loop, List.foldlM_cons, onEvent, List.filterMap_cons]
      show _ = (b :: events.filterMap Event.byte?).foldlM (onByte report maxReadings) a
      rw [List.foldlM_cons]
      cases onByte report maxReadings a b with
      | error p => rfl
      | ok b => exact ih b hrest

theorem scanText_append {a b : Scanner α} {s t : List Char}
    (h : scanText report maxReadings a s = .ok b) :
    scanText report maxReadings a (s ++ t) = scanText report maxReadings b t := by
  rw [scanText, List.foldlM_append]
  show (scanText report maxReadings a s >>= _) = _
  rw [h]
  rfl

theorem scanText_cons {a b : Scanner α} {c : Char} {t : List Char}
    (h : onByte report maxReadings a c = .ok b) :
    scanText report maxReadings a (c :: t) = scanText report maxReadings b t := by
  rw [scanText, List.foldlM_cons, h]
  rfl

/-- A byte that is no mark is scanned. -/
theorem onByte_eq_scan {c : Char} (hslash : c ≠ '/') (hmark : c ≠ '!') (hask : c ≠ '?')
    (a : Scanner α) : onByte report maxReadings a c = scan report maxReadings a c := by
  rw [onByte, if_neg (by tauto), if_neg hmark, if_neg hask]

/-- A field that takes up its characters one by one. -/
theorem scanText_field {mode : List Char → Mode} {lines : List (Line α)} {t : List Char}
    (h : ∀ pre c, c ∈ t →
      onByte report maxReadings ⟨mode pre, lines⟩ c = .ok ⟨mode (pre ++ [c]), lines⟩) :
    scanText report maxReadings ⟨mode [], lines⟩ t = .ok ⟨mode t, lines⟩ := by
  suffices hgen : ∀ pre, scanText report maxReadings ⟨mode pre, lines⟩ t =
      .ok ⟨mode (pre ++ t), lines⟩ from hgen []
  induction t with
  | nil =>
    intro pre
    rw [List.append_nil]
    rfl
  | cons c t ih =>
    intro pre
    rw [scanText_cons (h pre c List.mem_cons_self),
      ih (fun pre d hd => h pre d (List.mem_cons_of_mem _ hd)) (pre ++ [c]), List.append_assoc,
      List.singleton_append]

end Scanner

theorem FieldChar.ne {c : Char} (h : FieldChar c) : c ≠ '(' ∧ c ≠ ')' ∧ c ≠ '/' ∧ c ≠ '!' ∧
    c ≠ '?' := by
  have hmem := h.2
  simp only [List.mem_cons, List.not_mem_nil, or_false, not_or] at hmem
  exact hmem

theorem HeaderChar.ne {c : Char} (h : HeaderChar c) : c ≠ '/' ∧ c ≠ '?' ∧ c ≠ '!' := by
  have hmem := h.2
  simp only [List.mem_cons, List.not_mem_nil, or_false, not_or] at hmem
  exact hmem

/-- A printable character is no control character. -/
theorem ne_control {c : Char} (h : isPrint c = true) :
    c ≠ '\r' ∧ c ≠ '\n' ∧ c ≠ '\x02' ∧ c ≠ '\x00' := by
  refine ⟨?_, ?_, ?_, ?_⟩ <;> rintro rfl <;> cases h

section
variable {α : Type} {report : List Char → List Char → Option α} {maxReadings : Nat}
  {lines : List (Line α)}

open Scanner

/-- The first line brings the scanner to the data lines. -/
theorem scanText_header {t : Telegram} (h : t.WellFormed) :
    scanText report maxReadings Scanner.initial
        ('/' :: t.vendor ++ t.baudrate :: t.identification ++ ['\r', '\n']) =
      .ok ⟨.code [], []⟩ := by
  obtain ⟨x, y, z, hvendor⟩ := List.length_eq_three.mp h.vendor.1
  have halpha := h.vendor.2
  rw [hvendor] at halpha ⊢
  have hletter : ∀ c, c.isAlpha = true → (c ≠ '/' ∧ c ≠ '!' ∧ c ≠ '?') ∧ c ≠ '\r' ∧ c ≠ '\n' := by
    intro c hc
    refine ⟨⟨?_, ?_, ?_⟩, ?_, ?_⟩ <;> rintro rfl <;> cases hc
  have hscan : ∀ letters c, c ∈ [x, y, z] → Scanner.onByte report maxReadings
      (⟨.vendor letters, []⟩ : Scanner α) c =
        if letters.length < 2 then .ok ⟨.vendor (letters ++ [c]), []⟩
        else .ok ⟨.baudrate, []⟩ := by
    intro letters c hc
    obtain ⟨⟨hslash, hmark, hask⟩, hcr, hlf⟩ := hletter c (halpha c hc)
    rw [onByte_eq_scan hslash hmark hask]
    simp [scan, hcr, hlf, hslash, halpha c hc]
  have hx : Scanner.onByte report maxReadings (⟨.vendor [], []⟩ : Scanner α) x =
      .ok ⟨.vendor [x], []⟩ := hscan [] x (by simp)
  have hy : Scanner.onByte report maxReadings (⟨.vendor [x], []⟩ : Scanner α) y =
      .ok ⟨.vendor [x, y], []⟩ := hscan [x] y (by simp)
  have hz : Scanner.onByte report maxReadings (⟨.vendor [x, y], []⟩ : Scanner α) z =
      .ok ⟨.baudrate, []⟩ := hscan [x, y] z (by simp)
  have hbaud := h.baudrate.ne
  have hstart : Scanner.onByte report maxReadings (Scanner.initial : Scanner α) '/' =
      .ok ⟨.vendor [], []⟩ := if_pos ⟨rfl, trivial⟩
  have hident : scanText report maxReadings (⟨.identification [], []⟩ : Scanner α)
      t.identification = .ok ⟨.identification t.identification, []⟩ := by
    refine scanText_field fun pre c hc => ?_
    have hprint := (h.identification c hc).1
    obtain ⟨hslash, hask, hmark⟩ := (h.identification c hc).ne
    obtain ⟨hcr, hlf, -, -⟩ := ne_control hprint
    rw [onByte_eq_scan hslash hmark hask]
    simp [scan, hcr, hlf, hprint]
  rw [List.append_assoc, List.cons_append, List.cons_append, List.cons_append, List.cons_append,
    List.nil_append, List.cons_append, scanText_cons hstart, scanText_cons hx, scanText_cons hy,
    scanText_cons hz,
    scanText_cons (onByte_eq_scan hbaud.1 hbaud.2.2 hbaud.2.1 _), scanText_append hident]
  rfl

/-- A data line brings the scanner to the next one, with its reading. -/
theorem scanText_line {l : DataLine} (h : l.WellFormed) :
    scanText report maxReadings (⟨.code [], lines⟩ : Scanner α) l.text =
      .ok (addLine report maxReadings lines l.obis l.value) := by
  have hobis : scanText report maxReadings (⟨.code [], lines⟩ : Scanner α) l.obis =
      .ok ⟨.code l.obis, lines⟩ := by
    refine scanText_field fun pre c hc => ?_
    obtain ⟨hopen, -, hslash, hmark, hask⟩ := (h.obis c hc).ne
    obtain ⟨hcr, hlf, hstx, -⟩ := ne_control (h.obis c hc).1
    rw [onByte_eq_scan hslash hmark hask]
    simp [scan, hcr, hlf, hstx, hopen]
  have hvalue : scanText report maxReadings (⟨.value l.obis [], lines⟩ : Scanner α) l.value =
      .ok ⟨.value l.obis l.value, lines⟩ := by
    refine scanText_field fun pre c hc => ?_
    obtain ⟨-, hclose, hslash, hmark, hask⟩ := (h.value c hc).1.ne
    rw [onByte_eq_scan hslash hmark hask]
    simp [scan, hclose, (h.value c hc).2]
  have hend : scanText report maxReadings (addLine report maxReadings lines l.obis l.value)
      ['\r', '\n'] = .ok (addLine report maxReadings lines l.obis l.value) := by
    unfold addLine
    cases report l.obis l.value <;> rfl
  rw [DataLine.text, List.append_assoc, List.append_assoc, scanText_append hobis, List.cons_append,
    scanText_cons (b := ⟨.value l.obis [], lines⟩) rfl, scanText_append hvalue]
  cases hunit : l.unit with
  | none =>
    rw [Option.elim_none, List.nil_append,
      scanText_cons (b := addLine report maxReadings lines l.obis l.value) rfl]
    exact hend
  | some w =>
    have hw : scanText report maxReadings (⟨.unit l.obis l.value [], lines⟩ : Scanner α) w =
        .ok ⟨.unit l.obis l.value w, lines⟩ := by
      refine scanText_field fun pre c hc => ?_
      obtain ⟨-, hclose, hslash, hmark, hask⟩ := ((h.unit w hunit).1 c hc).ne
      rw [onByte_eq_scan hslash hmark hask]
      simp [scan, hclose]
    rw [Option.elim_some, List.cons_append,
      scanText_cons (b := ⟨.unit l.obis l.value [], lines⟩) rfl, scanText_append hw,
      scanText_cons (b := addLine report maxReadings lines l.obis l.value) rfl]
    exact hend

/-- The readings after one more line. -/
theorem addLine_readings (report : List Char → List Char → Option α)
    (hlines : lines.length ≤ maxReadings) (code value : List Char) :
    ∃ lines', addLine report maxReadings lines code value = ⟨.code [], lines'⟩ ∧
      lines'.length ≤ maxReadings ∧ lines'.map Line.reading =
        (lines.map Line.reading ++ (report code value).toList).take maxReadings := by
  have hall : (lines.map Line.reading).take maxReadings = lines.map Line.reading :=
    List.take_of_length_le (by rw [List.length_map]; exact hlines)
  unfold addLine
  cases report code value with
  | none => exact ⟨lines, rfl, hlines, by rw [Option.toList_none, List.append_nil, hall]⟩
  | some reading =>
    by_cases hfree : lines.length < maxReadings
    · refine ⟨lines ++ [⟨code, value, reading⟩], by simp only [if_pos hfree], ?_, ?_⟩
      · simp only [List.length_append, List.length_singleton]
        omega
      · rw [List.take_of_length_le]
        · simp
        · simp only [List.length_append, List.length_map, Option.toList_some,
            List.length_singleton]
          omega
    · refine ⟨lines, by simp only [if_neg hfree], hlines, ?_⟩
      rw [List.take_append_of_le_length (by rw [List.length_map]; omega), hall]

/-- All data lines, one after the other. -/
theorem scanText_lines (report : List Char → List Char → Option α) {ls : List DataLine}
    (h : ∀ l ∈ ls, l.WellFormed)
    (hlines : lines.length ≤ maxReadings) :
    ∃ lines', scanText report maxReadings (⟨.code [], lines⟩ : Scanner α)
        (ls.flatMap DataLine.text) = .ok ⟨.code [], lines'⟩ ∧
      lines'.map Line.reading = (lines.map Line.reading ++
        ls.filterMap fun l => report l.obis l.value).take maxReadings := by
  induction ls generalizing lines with
  | nil =>
    refine ⟨lines, rfl, ?_⟩
    rw [List.filterMap_nil, List.append_nil, List.take_of_length_le]
    rw [List.length_map]
    exact hlines
  | cons l ls ih =>
    obtain ⟨hl, hls⟩ := List.forall_mem_cons.mp h
    obtain ⟨lines₁, hline, hlen, hreadings⟩ :=
      addLine_readings report hlines l.obis l.value
    obtain ⟨lines₂, hscan, hreadings₂⟩ := ih hls hlen
    refine ⟨lines₂, ?_, ?_⟩
    · rw [List.flatMap_cons, scanText_append (scanText_line hl), hline]
      exact hscan
    · have hcut : ∀ xs ys : List α, (xs.take maxReadings ++ ys).take maxReadings =
          (xs ++ ys).take maxReadings := by
        intro xs ys
        rw [List.take_append, List.take_take, min_self, List.take_append, List.length_take]
        congr 2
        omega
      have hreport : (l :: ls).filterMap (fun l => report l.obis l.value) =
          (report l.obis l.value).toList ++ ls.filterMap fun l => report l.obis l.value := by
        rw [List.filterMap_cons]
        cases report l.obis l.value <;> rfl
      rw [hreadings₂, hreadings, hcut, List.append_assoc, hreport]

end

/-! ## The decoder -/

/-- On texts that fit, the decoder makes of a line what the line says. -/
theorem reportLine_eq {l : DataLine} (h : l.WellFormed) :
    reportLine l.obis l.value = l.reading := by
  have hcStr : ∀ t : List Char, (∀ c ∈ t, isPrint c = true) → CString.cStr t = t := by
    intro t ht
    refine List.takeWhile_eq_self_iff.mpr fun c hc => ?_
    simpa using (ne_control (ht c hc)).2.2.2
  have hobis := hcStr l.obis fun c hc => (h.obis c hc).1
  have hvalue := hcStr l.value fun c hc => (h.value c hc).1.1
  have hnonempty : l.obis.head?.any saneFirst = true → 0 < l.obis.length := by
    cases l.obis <;> simp
  simp only [reportLine, DataLine.reading, List.take_of_length_le h.obis_fits,
    List.take_of_length_le h.value_fits, hobis, hvalue]
  refine if_congr ?_ rfl rfl
  rw [List.length_pos_iff] at hnonempty ⊢
  rw [List.length_pos_iff]
  tauto

/-- **A telegram is decoded.**  `read` returns the readings of the data lines that
have one, in order, as many as fit. -/
theorem read_telegram {t : Telegram} (ht : t.WellFormed) {meter : MeterD0}
    (hsync : meter.waitSyncEnd = false) (stack : Stack) {rds : List Slot} {maxReadings : Nat}
    (hrds : maxReadings ≤ rds.length) {events : List Event} (hevents : Receives events t.text) :
    ∃ s, read meter stack rds maxReadings events = .error (.exit .package s) ∧
      s.readings = (t.lines.filterMap DataLine.reading).take maxReadings ∧
        s.numberOfTuples = s.readings.length := by
  have hnone : ([] : List (Line Slot)).length ≤ maxReadings := Nat.zero_le _
  obtain ⟨lines, hscan, hreadings⟩ := scanText_lines reportLine ht.lines hnone
  have hpackage : Scanner.loop reportLine maxReadings Scanner.initial (loopEvents meter events) =
      .error (.package, ⟨.code [], lines⟩) := by
    rw [loopEvents, hsync, if_neg (by decide), Scanner.loop_eq_scanText hevents, Telegram.text,
      List.append_assoc, Scanner.scanText_append (scanText_header ht),
      Scanner.scanText_append hscan]
    rfl
  have hrefines := refines_read meter stack hrds events
  rw [hpackage] at hrefines
  generalize read meter stack rds maxReadings events = next at hrefines ⊢
  cases hrefines with
  | @exit _ s _ hs =>
    refine ⟨s, rfl, ?_, ?_⟩
    · have hlines : t.lines.filterMap (fun l => reportLine l.obis l.value) =
          t.lines.filterMap DataLine.reading :=
        List.filterMap_congr fun l hl => reportLine_eq (ht.lines l hl)
      rw [hs.readings, hreadings, List.map_nil, List.nil_append, hlines]
    · rw [hs.readings, List.length_map, hs.count]

/-- Two lines with a reading, and one without. -/
def sampleTelegram : Telegram where
  vendor := "LGZ".toList
  baudrate := '5'
  identification := "ZMD120".toList
  lines := [⟨"1.8.0".toList, "001846.5".toList, some "kWh".toList⟩,
    ⟨"L.1".toList, "7".toList, none⟩, ⟨"F.F".toList, "00".toList, none⟩]

theorem headerChar_of_all {t : List Char}
    (h : t.all (fun c => isPrint c && !(['/', '?', '!'].contains c)) = true) :
    ∀ c ∈ t, HeaderChar c := by
  simpa [HeaderChar] using h

theorem fieldChar_of_all {t : List Char}
    (h : t.all (fun c => isPrint c && !(['(', ')', '/', '!', '?'].contains c)) = true) :
    ∀ c ∈ t, FieldChar c := by
  simpa [FieldChar] using h

theorem wellFormed_sampleTelegram : sampleTelegram.WellFormed := by
  have hline : ∀ t u : List Char, ∀ w : Option (List Char),
      t.all (fun c => isPrint c && !(['(', ')', '/', '!', '?'].contains c)) = true →
      u.all (fun c => isPrint c && !(['(', ')', '/', '!', '?'].contains c)) = true →
      w.all (fun w => w.all (fun c => isPrint c && !(['(', ')', '/', '!', '?'].contains c)) &&
        decide (w.length ≤ 16)) = true →
      '*' ∉ u → t.length ≤ 16 → u.length ≤ 32 → (⟨t, u, w⟩ : DataLine).WellFormed := by
    intro t u w ht hu hw hstar htlen hulen
    refine ⟨fieldChar_of_all ht, htlen, fun c hc => ⟨fieldChar_of_all hu c hc, ?_⟩, hulen, ?_⟩
    · rintro rfl
      exact hstar hc
    · rintro w hmem
      obtain rfl : _ = some w := hmem
      rw [Option.all_some, Bool.and_eq_true, decide_eq_true_eq] at hw
      exact ⟨fieldChar_of_all hw.1, hw.2⟩
  refine ⟨⟨rfl, ?_⟩, headerChar_of_all (t := ['5']) (by decide) _ List.mem_cons_self,
    headerChar_of_all (by decide), ?_⟩
  · exact List.all_eq_true.mp (by decide : "LGZ".toList.all Char.isAlpha = true)
  · simp only [sampleTelegram, List.forall_mem_cons]
    refine ⟨hline _ _ _ ?_ ?_ ?_ ?_ ?_ ?_, hline _ _ _ ?_ ?_ ?_ ?_ ?_ ?_,
      hline _ _ _ ?_ ?_ ?_ ?_ ?_ ?_, by simp⟩ <;> decide

theorem read_telegram_sample :
    ∃ s, read ⟨[], false, false, 0⟩ Stack.filled (List.replicate 8 ⟨none, .finite 0⟩) 8
        (sampleTelegram.text.map Event.byte) = .error (.exit .package s) ∧
      s.readings = [⟨some ⟨255, 255, 1, 8, 0, 255⟩, .finite (3693 / 2)⟩,
        ⟨some ⟨255, 255, 97, 97, 255, 255⟩, .finite 0⟩] ∧
          s.numberOfTuples = s.readings.length := by
  have hreceives : Receives (sampleTelegram.text.map Event.byte) sampleTelegram.text := by
    refine ⟨?_, fun e he => ?_⟩
    · rw [List.filterMap_map]
      exact List.filterMap_some
    · obtain ⟨c, -, rfl⟩ := List.mem_map.mp he
      exact ⟨nofun, nofun⟩
  have hreadings : (sampleTelegram.lines.filterMap DataLine.reading).take 8 =
      [⟨some ⟨255, 255, 1, 8, 0, 255⟩, .finite (3693 / 2)⟩,
        ⟨some ⟨255, 255, 97, 97, 255, 255⟩, .finite 0⟩] := by decide +kernel
  rw [← hreadings]
  exact read_telegram wellFormed_sampleTelegram rfl _ (Nat.le_refl 8) hreceives

end VzLogger.MeterD0
