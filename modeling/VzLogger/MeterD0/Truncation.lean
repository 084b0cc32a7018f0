import VzLogger.MeterD0.Decode

/-! # Readings from truncated text

The decoder keeps 16 characters of a code and 32 of a value, logs that there is
too much data, and goes on with what it has.  A reading it returns is that of the
whole text only if the characters that were cut off do not matter.  A printed
OBIS code has up to 23 characters.
-/
namespace VzLogger.MeterD0

/-- The code and the value of each line whose reading is counted, as they came in
between their delimiters. -/
def countedTexts (meter : MeterD0) (maxReadings : Nat) (events : List Event) :
    List (List Char × List Char) :=
  (Scanner.linesOf (Scanner.loop reportLine maxReadings Scanner.initial
    (loopEvents meter events))).map fun l => (l.code, l.value)

/-- The reading is that of the complete texts. -/
def Denotes (texts : List Char × List Char) (slot : Slot) : Prop :=
  slot.identifier = Obis.ofText texts.1 ∧ slot.value = CString.strtod texts.2

/-- What is cut off, at the length of the arrays or at a NUL, does not matter. -/
def CutHarmless (texts : List Char × List Char) : Prop :=
  Obis.ofText (CString.cStr (texts.1.take 16)) = Obis.ofText texts.1 ∧
    CString.strtod (CString.cStr (texts.2.take 32)) = CString.strtod texts.2

/-- A line in the scanner has the reading of its texts as they were cut. -/
def Line.FromCut (l : Line Slot) : Prop := reportLine l.code l.value = some l.reading

namespace Scanner
variable {maxReadings : Nat} {a b : Scanner Slot}

theorem fromCut_addLine {lines : List (Line Slot)} (h : ∀ l ∈ lines, l.FromCut)
    (code value : List Char) :
    ∀ l ∈ (addLine reportLine maxReadings lines code value).lines, l.FromCut := by
  unfold addLine
  cases hreport : reportLine code value with
  | none => exact h
  | some reading =>
    dsimp only
    split
    · intro l hl
      rcases List.mem_append.mp hl with hl | hl
      · exact h l hl
      · rw [List.mem_singleton.mp hl]
        exact hreport
    · exact h

/-- A step keeps the lines, forgets them, or adds one. -/
theorem fromCut_onEvent (maxReadings : Nat) (h : ∀ l ∈ a.lines, l.FromCut) (e : Event) :
    ∀ l ∈ linesOf (onEvent reportLine maxReadings a e), l.FromCut := by
  cases e with
  | timeout | zero | again | failed => exact h
  | byte c =>
    simp only [onEvent, onByte, scan]
    repeat' split
    all_goals first
      | exact h
      | exact fromCut_addLine h _ _
      | exact fun l hl => absurd hl List.not_mem_nil

theorem fromCut_loop (maxReadings : Nat) (h : ∀ l ∈ a.lines, l.FromCut) (events : List Event) :
    ∀ l ∈ linesOf (loop reportLine maxReadings a events), l.FromCut := by
  induction events generalizing a with
  | nil => exact h
  | cons e events ih =>
    have hstep := fromCut_onEvent maxReadings h e
    rw [loop, List.foldlM_cons]
    cases honEvent : onEvent reportLine maxReadings a e with
    | ok b =>
      rw [honEvent] at hstep
      exact ih hstep
    | error p =>
      rw [honEvent] at hstep
      exact hstep

end Scanner

/-- A reading from cut texts is that of the complete ones if the cut is harmless. -/
theorem denotes_iff_cutHarmless {l : Line Slot} (h : l.FromCut) :
    Denotes (l.code, l.value) l.reading ↔ CutHarmless (l.code, l.value) := by
  have hreport : reportLine l.code l.value = some l.reading := h
  simp only [reportLine] at hreport
  split at hreport
  · obtain ⟨obis, hobis, hreading⟩ := Option.map_eq_some_iff.mp hreport
    rw [Denotes, CutHarmless, ← hreading, hobis]
  · cases hreport

/-- **When no reading comes from truncated text.**  Every reading returned is that
of the complete texts of its line exactly if, in every line that is counted, what
was cut off does not matter. -/
theorem returned_denotes_iff (meter : MeterD0) (stack : Stack) {rds : List Slot}
    {maxReadings : Nat} (hrds : maxReadings ≤ rds.length) {events : List Event} {e : Exit}
    {s : State} (hread : read meter stack rds maxReadings events = .error (.exit e s)) :
    List.Forall₂ Denotes (countedTexts meter maxReadings events) s.readings ↔
      ∀ texts ∈ countedTexts meter maxReadings events, CutHarmless texts := by
  have hrefines := refines_read meter stack hrds events
  have hcut := Scanner.fromCut_loop maxReadings (a := Scanner.initial)
    (fun l hl => absurd hl List.not_mem_nil) (loopEvents meter events)
  rw [hread] at hrefines
  unfold countedTexts
  generalize Scanner.loop reportLine maxReadings Scanner.initial (loopEvents meter events) = scanned
    at hrefines hcut ⊢
  cases hrefines with
  | @exit _ _ a hs =>
    have hlines : ∀ l ∈ a.lines, l.FromCut := hcut
    rw [hs.readings, Scanner.linesOf, List.forall₂_map_left_iff, List.forall₂_map_right_iff,
      List.forall₂_same, List.forall_mem_map]
    exact forall₂_congr fun l hl => denotes_iff_cutHarmless (hlines l hl)

/-- Texts that fit are not cut. -/
theorem cutHarmless_of_fits {t u : List Char} (ht : t.length ≤ 16 ∧ '\x00' ∉ t)
    (hu : u.length ≤ 32 ∧ '\x00' ∉ u) : CutHarmless (t, u) := by
  have hcStr : ∀ s : List Char, '\x00' ∉ s → CString.cStr s = s := by
    intro s hs
    refine List.takeWhile_eq_self_iff.mpr fun c hc => ?_
    simpa using fun h : c = '\x00' => hs (h ▸ hc)
  rw [CutHarmless, List.take_of_length_le ht.1, List.take_of_length_le hu.1, hcStr t ht.2,
    hcStr u hu.2]
  exact ⟨rfl, rfl⟩

/-- How a call has ended, with its readings. -/
def ended : Next → Option (Exit × List Slot)
  | .error (.exit e s) => some (e, s.readings)
  | _ => none

theorem exists_of_ended {next : Next} {e : Exit} {rs : List Slot} (h : ended next = some (e, rs)) :
    ∃ s, next = .error (.exit e s) ∧ s.readings = rs := by
  match next with
  | .error (.exit e' s) =>
    obtain ⟨rfl, rfl⟩ := Prod.mk.inj (Option.some.inj h)
    exact ⟨s, rfl, rfl⟩

theorem returned_denotes_iff_sample :
    ∃ s, read ⟨[], false, false, 0⟩ Stack.filled (List.replicate 8 ⟨none, .finite 0⟩) 8
        (sampleTelegram.text.map Event.byte) = .error (.exit .package s) ∧
      (List.Forall₂ Denotes
          (countedTexts ⟨[], false, false, 0⟩ 8 (sampleTelegram.text.map Event.byte)) s.readings ↔
        ∀ texts ∈ countedTexts ⟨[], false, false, 0⟩ 8 (sampleTelegram.text.map Event.byte),
          CutHarmless texts) := by
  have hended : ended (read ⟨[], false, false, 0⟩ Stack.filled
      (List.replicate 8 ⟨none, .finite 0⟩) 8 (sampleTelegram.text.map Event.byte)) =
        some (.package, [⟨some ⟨255, 255, 1, 8, 0, 255⟩, .finite (3693 / 2)⟩,
          ⟨some ⟨255, 255, 97, 97, 255, 255⟩, .finite 0⟩]) := by decide +kernel
  obtain ⟨s, hs, -⟩ := exists_of_ended hended
  exact ⟨s, hs, returned_denotes_iff _ _ (Nat.le_refl 8) hs⟩

/-- A printed code of 23 characters. -/
def longTelegram : Telegram where
  vendor := "LGZ".toList
  baudrate := '5'
  identification := "ZMD120".toList
  lines := [⟨(Obis.allNotGiven.unparse Obis.obisStrLen).1, "1".toList, none⟩]

/-- Its line is returned under another identifier. -/
theorem returned_truncated :
    ∃ s, read ⟨[], false, false, 0⟩ Stack.filled [⟨none, .finite 0⟩] 1
        (longTelegram.text.map Event.byte) = .error (.exit .package s) ∧
      s.readings = [⟨some ⟨255, 255, 255, 255, 0, 255⟩, .finite 1⟩] ∧
      ¬List.Forall₂ Denotes
        (countedTexts ⟨[], false, false, 0⟩ 1 (longTelegram.text.map Event.byte)) s.readings := by
  have hended : ended (read ⟨[], false, false, 0⟩ Stack.filled [⟨none, .finite 0⟩] 1
      (longTelegram.text.map Event.byte)) =
        some (.package, [⟨some ⟨255, 255, 255, 255, 0, 255⟩, .finite 1⟩]) := by decide +kernel
  have htexts : countedTexts ⟨[], false, false, 0⟩ 1 (longTelegram.text.map Event.byte) =
      [("255-255:255.255.255*255".toList, "1".toList)] := by decide +kernel
  obtain ⟨s, hs, hreadings⟩ := exists_of_ended hended
  refine ⟨s, hs, hreadings, fun h => ?_⟩
  rw [htexts, hreadings, List.forall₂_cons] at h
  exact absurd h.1.1 (by decide +kernel)

end VzLogger.MeterD0
