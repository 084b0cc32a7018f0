import VzLogger.ScanfFormat
import VzLogger.Lib.Slots
import VzLogger.Lib.Stdio
import VzLogger.Lib.Strtod
import Mathlib.Data.List.TakeWhile

/-! # The file meter and the exec meter

Both read a text line by line, the one from its file and the other from the output
of its command, with a copy each of one loop: every line makes a reading through
`sscanf` and the compiled format, or by `strtod` where there is no format.  The text
is what there is to read once the file has changed, or the command is started.

`sscanf` is a parameter: both meters do the same with whatever it makes of a line.
Neither the index, an `unsigned int`, nor the vector comes near its bounds.
-/
namespace VzLogger

open CString (Double strtod hasNumber)

/-- `MeterFile`, as far as `read` uses it. -/
structure MeterFile where
  format : List Char

structure MeterExec where
  format : List Char

/-- What `sscanf` leaves in its arguments, and what it returns. -/
structure Scan where
  value : Double
  string : Option (List Char)
  timestamp : Double
  found : Int

/-- A text that does not match leaves the values set before. -/
def Scan.noMatch : Scan := ⟨.finite 0, none, .finite (-1), 0⟩

namespace FileExec

/-- A reading of the caller's vector; without a `time` it is of the present. -/
structure Slot where
  identifier : List Char
  value : Double
  time : Option Double
  deriving DecidableEq

/-- The caller's vector, and the index in it. -/
structure State (n : Nat) where
  rds : Vector Slot n
  i : Nat

/-- The result of a constructor's loop as a `std::string`; it is empty if there is no
option. -/
def formatString (compile : ScanfFormat.Format → Option (List Char)) :
    Option ScanfFormat.Format → Option (List Char)
  | none => some []
  | some format => (compile format).bind fun buf =>
    if '\x00' ∈ buf then some (CString.cStr buf) else none

/-- `if ((nl = strrchr(line, c))) *nl = '\0'`. -/
def cutLast (c : Char) (line : List Char) : List Char :=
  if c ∈ line then (line.reverse.dropWhile (· ≠ c)).tail.reverse else line

/-- The line without its end. -/
def stripLine (line : List Char) : List Char := cutLast '\r' (cutLast '\n' (CString.cStr line))

/-- `timestamp >= 0.0`. -/
def notNegative : Double → Bool
  | .finite q => 0 ≤ q
  | .infinity negative => !negative
  | .nan => false

/-- Value and identifier; the text of the latter is missing where nothing was read. -/
def Slot.setScan (rd : Slot) (scan : Scan) : Slot :=
  { rd with value := scan.value, identifier := scan.string.getD "<null>".toList }

/-- The time; without one in the line it is the current time. -/
def Slot.setTime (rd : Slot) (timestamp : Double) : Slot :=
  { rd with time := if notNegative timestamp then some timestamp else none }

/-- A line read with a format: the reading is written before it is known to count. -/
def scanLine {n : Nat} (sscanf : List Char → List Char → Scan) (format line : List Char)
    (s : State n) : Option (State n) :=
  if h : s.i < n then
    let scan := sscanf format line
    let rd := s.rds[s.i].setScan scan
    if 1 ≤ scan.found then some ⟨s.rds.set s.i (rd.setTime scan.timestamp), s.i + 1⟩
    else some ⟨s.rds.set s.i rd, s.i⟩
  else none

/-- The reading that a line without a format makes. -/
def plainSlot (line : List Char) : Slot := ⟨[], strtod line, none⟩

/-- `while (i < n && fgets(line, 256, fd))`, and what is left of the stream. -/
def readLoop {n : Nat} (onLine : List Char → State n → Option (State n)) :
    Nat → Stdio.Stream → State n → Option (Stdio.Stream × State n)
  | 0, _, _ => none
  | rounds + 1, fd, s =>
    if s.i < n then
      match Stdio.fgets 256 fd with
      | (none, fd) => some (fd, s)
      | (some line, fd) => (onLine (stripLine line) s).bind (readLoop onLine rounds fd)
    else some (fd, s)

/-- The readings that a state counts, as identifier and value. -/
def State.readings {n : Nat} (s : State n) : List (List Char × Double) :=
  (Slots.filled s.rds s.i).map fun rd => (rd.identifier, rd.value)

end FileExec

namespace MeterFile
open FileExec

def construct (fresh : (n : Nat) → Vector Char n) (format : Option ScanfFormat.Format) :
    Option MeterFile :=
  (formatString (ScanfFormat.meterFile fresh) format).map fun format => ⟨format⟩

/-- The body of the loop. -/
def onLine {n : Nat} (sscanf : List Char → List Char → Scan) (file : MeterFile)
    (line : List Char) (s : State n) : Option (State n) :=
  if file.format ≠ [] then scanLine sscanf file.format line s
  else if h : s.i < n then  -- just reading a value per line
    let rds := s.rds.set s.i (plainSlot line)
    if hasNumber line then some ⟨rds, s.i + 1⟩ else some ⟨rds, s.i⟩
  else none

/-- `MeterFile::read`, from the beginning of the file. -/
def read (sscanf : List Char → List Char → Scan) (file : MeterFile) (text : List Char) {n : Nat}
    (rds : Vector Slot n) : Option (State n) :=
  (readLoop (file.onLine sscanf) (text.length + 1) (.opened text) ⟨rds, 0⟩).map Prod.snd

end MeterFile

namespace MeterExec
open FileExec

def construct (fresh : (n : Nat) → Vector Char n) (format : Option ScanfFormat.Format) :
    Option MeterExec :=
  (formatString (ScanfFormat.meterExec fresh) format).map fun format => ⟨format⟩

/-- The body of the loop.  The test of `endptr` is commented out. -/
def onLine {n : Nat} (sscanf : List Char → List Char → Scan) (exec : MeterExec)
    (line : List Char) (s : State n) : Option (State n) :=
  if exec.format ≠ [] then scanLine sscanf exec.format line s
  else if h : s.i < n then some ⟨s.rds.set s.i (plainSlot line), s.i + 1⟩
  else none

/-- `while (i < n && !feof(_pipe))`. -/
def goesOn {n : Nat} (s : Stdio.Stream × State n) : Bool := s.2.i < n && !s.1.eof

/-- `MeterExec::read`, where the command starts and prints the text. -/
def read (sscanf : List Char → List Char → Scan) (exec : MeterExec) (text : List Char) {n : Nat}
    (rds : Vector Slot n) : Option (State n) :=
  (Loop.run goesOn (fun s => readLoop (exec.onLine sscanf) (text.length + 1) s.1 s.2)
    (text.length + 1) (.opened text, ⟨rds, 0⟩)).map Prod.snd

end MeterExec

/-! ## What a loop reads -/

namespace FileExec
variable {n : Nat}

/-- The body of a loop makes a reading of each line that `counts`. -/
def Reads (onLine : List Char → State n → Option (State n)) (counts : List Char → Bool)
    (reading : List Char → List Char × Double) : Prop :=
  ∀ line s, s.i < n → ∃ t, onLine line s = some t ∧
    t.readings = s.readings ++ (if counts line then [reading line] else []) ∧
    t.i = s.i + (if counts line then 1 else 0)

theorem readings_set_of_le {rds : Vector Slot n} {i j : Nat} (hi : i < n) (hj : j ≤ i)
    (rd : Slot) : (⟨rds.set i rd, j⟩ : State n).readings = (⟨rds, j⟩ : State n).readings := by
  simp only [State.readings, Slots.filled_set_of_le hi hj]

theorem readings_set {rds : Vector Slot n} {i : Nat} (hi : i < n) (rd : Slot) :
    (⟨rds.set i rd, i + 1⟩ : State n).readings =
      (⟨rds, i⟩ : State n).readings ++ [(rd.identifier, rd.value)] := by
  simp only [State.readings, Slots.filled_set hi, List.map_append, List.map_singleton]

/-- Both meters read a line with a format in the same way. -/
theorem reads_scanLine (sscanf : List Char → List Char → Scan) (format : List Char) :
    Reads (n := n) (scanLine sscanf format) (fun line => 1 ≤ (sscanf format line).found)
      fun line => ((sscanf format line).string.getD "<null>".toList, (sscanf format line).value) := by
  intro line s hi
  by_cases hfound : 1 ≤ (sscanf format line).found
  · refine ⟨⟨s.rds.set s.i ((s.rds[s.i].setScan (sscanf format line)).setTime
      (sscanf format line).timestamp), s.i + 1⟩, ?_, ?_, ?_⟩
    · simp [scanLine, hi, hfound]
    · rw [readings_set]
      simp [hfound, Slot.setScan, Slot.setTime]
    · simp [hfound]
  · refine ⟨⟨s.rds.set s.i (s.rds[s.i].setScan (sscanf format line)), s.i⟩, ?_, ?_, ?_⟩
    · simp [scanLine, hi, hfound]
    · rw [readings_set_of_le hi (Nat.le_refl _)]
      simp [hfound]
    · simp [hfound]

theorem reads_file (sscanf : List Char → List Char → Scan) {file : MeterFile}
    (h : file.format = []) :
    Reads (n := n) (file.onLine sscanf) hasNumber fun line => ([], strtod line) := by
  intro line s hi
  by_cases hnumber : hasNumber line = true
  · refine ⟨⟨s.rds.set s.i (plainSlot line), s.i + 1⟩, ?_, ?_, ?_⟩
    · simp [MeterFile.onLine, h, hi, hnumber]
    · rw [readings_set, if_pos hnumber]
      rfl
    · rw [if_pos hnumber]
  · refine ⟨⟨s.rds.set s.i (plainSlot line), s.i⟩, ?_, ?_, ?_⟩
    · simp [MeterFile.onLine, h, hi, hnumber]
    · rw [readings_set_of_le hi (Nat.le_refl _), if_neg hnumber, List.append_nil]
    · rw [if_neg hnumber]
      rfl

/-- The exec meter counts every line. -/
theorem reads_exec (sscanf : List Char → List Char → Scan) {exec : MeterExec}
    (h : exec.format = []) :
    Reads (n := n) (exec.onLine sscanf) (fun _ => true) fun line => ([], strtod line) := by
  intro line s hi
  refine ⟨⟨s.rds.set s.i (plainSlot line), s.i + 1⟩, ?_, ?_, rfl⟩
  · simp [MeterExec.onLine, h, hi]
  · rw [readings_set]
    rfl

/-- What the loop returns of a text: the readings of the lines that count, up to the
limit, and then there is no room or no text left. -/
theorem readLoop_spec {onLine : List Char → State n → Option (State n)}
    {counts : List Char → Bool} {reading : List Char → List Char × Double}
    (h : Reads onLine counts reading) {rounds calls : Nat} {fd : Stdio.Stream} {s : State n}
    (hs : s.i ≤ n) (hrounds : fd.rest.length < rounds) (hcalls : fd.rest.length ≤ calls) :
    ∃ fd' t, readLoop onLine rounds fd s = some (fd', t) ∧ (t.i < n → fd'.eof = true) ∧
      t.readings = s.readings ++
        ((((Stdio.linesFrom 256 calls fd).map stripLine).filter counts).map reading).take
          (n - s.i) := by
  induction rounds generalizing fd s calls with
  | zero => omega
  | succ rounds ih =>
    by_cases hi : s.i < n
    · cases hline : Stdio.fgets 256 fd with
      | mk line fd₁ =>
        cases line with
        | none =>
          refine ⟨fd₁, s, ?_, ?_, ?_⟩
          · simp [readLoop, hi, hline]
          · rw [Stdio.fgets_none (by decide) hline]
            exact fun _ => rfl
          · cases calls <;> simp [Stdio.linesFrom, hline]
        | some line =>
          have hlt := Stdio.length_of_fgets_some hline
          obtain ⟨calls, rfl⟩ : ∃ k, calls = k + 1 := ⟨calls - 1, by omega⟩
          obtain ⟨s₁, hs₁, hreadings, hindex⟩ := h (stripLine line) s hi
          have hs₁i : s₁.i ≤ n := by
            rw [hindex]
            split <;> omega
          have hrest : fd₁.rest.length < rounds ∧ fd₁.rest.length ≤ calls := by omega
          obtain ⟨fd', t, hrun, hend, ht⟩ := ih hs₁i hrest.1 hrest.2
          refine ⟨fd', t, ?_, hend, ?_⟩
          · simp only [readLoop, hi, ↓reduceIte, hline, hs₁, Option.bind_some]
            exact hrun
          · rw [ht, hreadings, hindex, List.append_assoc]
            simp only [Stdio.linesFrom, hline, List.map_cons, List.filter_cons]
            obtain ⟨k, hk⟩ : ∃ k, n - s.i = k + 1 := ⟨n - s.i - 1, by omega⟩
            split
            · simp [hk, show n - (s.i + 1) = k by omega]
            · simp
    · refine ⟨fd, s, ?_, ?_, ?_⟩
      · simp [readLoop, hi]
      · simp [hi]
      · simp [show n - s.i = 0 by omega]

/-- A text line by line, as both loops see it. -/
def textLines (text : List Char) : List (List Char) := (Stdio.lines 256 text).map stripLine

theorem readLoop_text {onLine : List Char → State n → Option (State n)}
    {counts : List Char → Bool} {reading : List Char → List Char × Double}
    (h : Reads onLine counts reading) (text : List Char) (rds : Vector Slot n) :
    ∃ fd t, readLoop onLine (text.length + 1) (.opened text) ⟨rds, 0⟩ = some (fd, t) ∧
      (t.i < n → fd.eof = true) ∧
      t.readings = (((textLines text).filter counts).map reading).take n := by
  have hrounds : (Stdio.Stream.opened text).rest.length < text.length + 1 := Nat.lt_succ_self _
  have hcalls : (Stdio.Stream.opened text).rest.length ≤ text.length := Nat.le_refl _
  obtain ⟨fd, t, hrun, hend, ht⟩ := readLoop_spec h (s := ⟨rds, 0⟩) (Nat.zero_le n) hrounds hcalls
  exact ⟨fd, t, hrun, hend, ht⟩

end FileExec

namespace MeterFile
open FileExec

theorem onLine_format {n : Nat} (sscanf : List Char → List Char → Scan) {file : MeterFile}
    (h : file.format ≠ []) : file.onLine (n := n) sscanf = scanLine sscanf file.format := by
  funext line s
  simp [onLine, h]

/-- What the file meter reads, by the lines that count. -/
theorem read_spec {n : Nat} {sscanf : List Char → List Char → Scan} {file : MeterFile}
    {counts : List Char → Bool} {reading : List Char → List Char × Double}
    (h : Reads (n := n) (file.onLine sscanf) counts reading) (text : List Char)
    (rds : Vector Slot n) : ∃ t, file.read sscanf text rds = some t ∧
      t.readings = (((textLines text).filter counts).map reading).take n := by
  obtain ⟨fd, t, hrun, -, ht⟩ := readLoop_text h text rds
  refine ⟨t, ?_, ht⟩
  rw [read, hrun, Option.map_some]

end MeterFile

namespace MeterExec
open FileExec

theorem onLine_format {n : Nat} (sscanf : List Char → List Char → Scan) {exec : MeterExec}
    (h : exec.format ≠ []) : exec.onLine (n := n) sscanf = scanLine sscanf exec.format := by
  funext line s
  simp [onLine, h]

/-- The outer loop runs the inner one once: it stops at the limit, or at the end of the
text. -/
theorem read_spec {n : Nat} {sscanf : List Char → List Char → Scan} {exec : MeterExec}
    {counts : List Char → Bool} {reading : List Char → List Char × Double}
    (h : Reads (n := n) (exec.onLine sscanf) counts reading) (text : List Char)
    (rds : Vector Slot n) : ∃ t, exec.read sscanf text rds = some t ∧
      t.readings = (((textLines text).filter counts).map reading).take n := by
  obtain ⟨fd, t, hrun, hend, ht⟩ := readLoop_text h text rds
  rcases Nat.eq_zero_or_pos n with hn | hn
  · refine ⟨⟨rds, 0⟩, ?_, ?_⟩
    · rw [read, Loop.run_of_not]
      · rfl
      · simp [goesOn, hn]
    · subst hn
      simp [State.readings]
  · refine ⟨t, ?_, ht⟩
    have hstart : goesOn (Stdio.Stream.opened text, (⟨rds, 0⟩ : State n)) = true := by
      simp [goesOn, Stdio.Stream.opened, hn]
    have hexit : goesOn (fd, t) = false := by
      simp only [goesOn, Bool.and_eq_false_iff, decide_eq_false_iff_not, Bool.not_eq_false']
      by_cases hi : t.i < n
      · exact Or.inr (hend hi)
      · exact Or.inl hi
    rw [read, Loop.run_succ hstart, hrun, Option.bind_some, Loop.run_of_not hexit, Option.map_some]

end MeterExec
/-! ## Lines without a number -/

namespace FileExec

section
variable {α β : Type} {p : α → Bool} {f : α → β} {z : β}

/-- Elements that fail a test can be left out of a list of values without a trace. -/
def Alike (p : α → Bool) (f : α → β) (z : β) (n : Nat) (l : List α) : Prop :=
  (∀ a ∈ l.take n, p a = true) ∨
    (n ≤ (l.filter p).length ∧ ∀ a ∈ ((l.filter p).take n).drop (l.takeWhile p).length, f a = z)

/-- The elements that pass, among the first ones. -/
theorem filter_take_isPrefix (p : α → Bool) (n : Nat) (l : List α) :
    (l.take n).filter p <+: (l.filter p).take n := by
  refine List.prefix_of_prefix_length_le ((List.take_prefix n l).filter p)
    (List.take_prefix _ _) ?_
  have hle := List.length_filter_le p (l.take n)
  have hle' := (List.take_prefix n l).filter p |>.length_le
  rw [List.length_take] at hle ⊢
  omega

section
variable (hz : ∀ a, p a = false → f a = z)
include hz

/-- If the first elements that pass have the value `z`, all of the first elements have. -/
theorem eq_of_filter {l : List α} {n : Nat} (h : ∀ a ∈ (l.filter p).take n, f a = z) :
    ∀ a ∈ l.take n, f a = z := by
  intro a ha
  cases hp : p a with
  | false => exact hz a hp
  | true => exact h a ((filter_take_isPrefix p n l).subset (List.mem_filter.mpr ⟨ha, hp⟩))

/-- If the values of all elements, behind one more `z`, are those of the elements that
pass, then these are all `z`. -/
theorem eq_of_cons_take {l : List α} {n : Nat}
    (h : z :: (l.map f).take n = ((l.filter p).map f).take (n + 1)) :
    ∀ a ∈ (l.filter p).take (n + 1), f a = z := by
  induction n with
  | zero =>
    intro a ha
    have hmem : f a ∈ [z] := by
      rw [List.take_zero] at h
      rw [h, ← List.map_take]
      exact List.mem_map_of_mem ha
    exact List.mem_singleton.mp hmem
  | succ n ih =>
    have hprev : z :: (l.map f).take n = ((l.filter p).map f).take (n + 1) := by
      have h := congrArg (List.take (n + 1)) h
      rwa [List.take_succ_cons, List.take_take, List.take_take, Nat.min_eq_left (by omega),
        Nat.min_eq_left (by omega)] at h
    intro a ha
    have hmem : f a ∈ z :: (l.map f).take (n + 1) := by
      rw [h, ← List.map_take]
      exact List.mem_map_of_mem ha
    rcases List.mem_cons.mp hmem with hfa | hmem
    · exact hfa
    · rw [← List.map_take] at hmem
      obtain ⟨b, hb, hfb⟩ := List.mem_map.mp hmem
      rw [← hfb]
      exact eq_of_filter hz (ih hprev) b hb

/-- **When leaving out changes nothing.** -/
theorem take_map_eq_iff (n : Nat) (l : List α) :
    (l.map f).take n = ((l.filter p).map f).take n ↔ Alike p f z n l := by
  induction l generalizing n with
  | nil => simp [Alike]
  | cons a l ih =>
    obtain _ | n := n
    · simp [Alike]
    cases hp : p a with
    | true =>
      rw [List.filter_cons_of_pos hp]
      simp only [List.map_cons, List.take_succ_cons, List.cons.injEq, true_and]
      rw [ih n]
      simp [Alike, hp]
    | false =>
      have hfilter : (a :: l).filter p = l.filter p := by simp [hp]
      have htake : (a :: l).takeWhile p = [] := by simp [hp]
      have hnot : ¬∀ b ∈ (a :: l).take (n + 1), p b = true := by simp [hp]
      rw [Alike, or_iff_right hnot, hfilter, htake]
      simp only [List.length_nil, List.drop_zero, List.map_cons, List.take_succ_cons, hz a hp]
      have hlen := List.length_filter_le p l
      constructor
      · intro h
        refine ⟨?_, eq_of_cons_take hz h⟩
        have hlength := congrArg List.length h
        simp only [List.length_cons, List.length_take, List.length_map] at hlength
        omega
      · rintro ⟨hroom, hall⟩
        have hleft : (l.map f).take n = List.replicate n z := by
          refine List.eq_replicate_iff.mpr ⟨by simp; omega, fun x hx => ?_⟩
          rw [← List.map_take] at hx
          obtain ⟨b, hb, rfl⟩ := List.mem_map.mp hx
          refine eq_of_filter hz (fun c hc => hall c ?_) b hb
          exact List.take_subset_take_left _ (Nat.le_succ n) hc
        have hright : ((l.filter p).map f).take (n + 1) = List.replicate (n + 1) z := by
          refine List.eq_replicate_iff.mpr ⟨by simp; omega, fun x hx => ?_⟩
          rw [← List.map_take] at hx
          obtain ⟨b, hb, rfl⟩ := List.mem_map.mp hx
          exact hall b hb
        rw [hleft, hright, List.replicate_succ]

end
end

/-- **When the two meters read alike.**  With a format, always.  Without one, when the
first lines all have a number; or when enough lines have one, and those of them that
follow a line without are zero. -/
theorem read_agree_iff (sscanf : List Char → List Char → Scan) (fresh : (n : Nat) → Vector Char n)
    (format : Option ScanfFormat.Format) {file : MeterFile} {exec : MeterExec}
    (hfile : MeterFile.construct fresh format = some file)
    (hexec : MeterExec.construct fresh format = some exec) (text : List Char) {n : Nat}
    (rds rds' : Vector Slot n) :
    (file.read sscanf text rds).map State.readings = (exec.read sscanf text rds').map State.readings ↔
      file.format ≠ [] ∨ Alike hasNumber strtod (.finite 0) n (textLines text) := by
  have hformat : exec.format = file.format := by
    obtain ⟨f, hf, rfl⟩ := Option.map_eq_some_iff.mp hfile
    obtain ⟨g, hg, rfl⟩ := Option.map_eq_some_iff.mp hexec
    exact Option.some.inj (hg.symm.trans hf)
  by_cases h : file.format = []
  · obtain ⟨t, ht, hreadings⟩ := MeterFile.read_spec (reads_file sscanf h) text rds
    obtain ⟨u, hu, hreadings'⟩ :=
      MeterExec.read_spec (reads_exec sscanf (hformat.trans h)) text rds'
    rw [ht, hu, Option.map_some, Option.map_some, hreadings, hreadings', Option.some_inj,
      or_iff_right (not_not_intro h), List.filter_true, eq_comm]
    have hz : ∀ line, hasNumber line = false →
        (([], strtod line) : List Char × Double) = ([], .finite 0) :=
      fun line hline => by rw [CString.strtod_of_not_hasNumber hline]
    rw [take_map_eq_iff hz]
    simp only [Alike, Prod.mk.injEq, true_and]
  · have hfile := reads_scanLine (n := n) sscanf file.format
    have hexec := reads_scanLine (n := n) sscanf exec.format
    rw [← MeterFile.onLine_format sscanf h] at hfile
    rw [← MeterExec.onLine_format sscanf (hformat ▸ h)] at hexec
    obtain ⟨t, ht, hreadings⟩ := MeterFile.read_spec hfile text rds
    obtain ⟨u, hu, hreadings'⟩ := MeterExec.read_spec hexec text rds'
    rw [ht, hu, Option.map_some, Option.map_some, hreadings, hreadings', hformat]
    exact iff_of_true rfl (Or.inl h)

/-- Both meters without a format, on two lines with a number, on a number with a line of
text and a zero behind it, and on the same with a seven behind it. -/
theorem read_agree_iff_numbers :
    ((⟨[]⟩ : MeterFile).read (fun _ _ => .noMatch) "7\n8\n".toList
        (Vector.replicate 2 ⟨[], .nan, none⟩)).map State.readings =
      ((⟨[]⟩ : MeterExec).read (fun _ _ => .noMatch) "7\n8\n".toList
        (Vector.replicate 2 ⟨[], .nan, none⟩)).map State.readings ∧
    ((⟨[]⟩ : MeterFile).read (fun _ _ => .noMatch) "7\nkWh\n0\n".toList
        (Vector.replicate 2 ⟨[], .nan, none⟩)).map State.readings =
      ((⟨[]⟩ : MeterExec).read (fun _ _ => .noMatch) "7\nkWh\n0\n".toList
        (Vector.replicate 2 ⟨[], .nan, none⟩)).map State.readings ∧
    ((⟨[]⟩ : MeterFile).read (fun _ _ => .noMatch) "8\nkWh\n7\n".toList
        (Vector.replicate 2 ⟨[], .nan, none⟩)).map State.readings ≠
      ((⟨[]⟩ : MeterExec).read (fun _ _ => .noMatch) "8\nkWh\n7\n".toList
        (Vector.replicate 2 ⟨[], .nan, none⟩)).map State.readings := by
  refine ⟨?_, ?_, fun heq => ?_⟩
  · exact (read_agree_iff _ (fun n => Vector.replicate n '#') none rfl rfl _ _ _).mpr
      (Or.inr (Or.inl (by decide)))
  · exact (read_agree_iff _ (fun n => Vector.replicate n '#') none rfl rfl _ _ _).mpr
      (Or.inr (Or.inr (by decide +kernel)))
  · exact absurd ((read_agree_iff _ (fun n => Vector.replicate n '#') none rfl rfl _ _ _).mp heq)
      (by unfold Alike; decide +kernel)

/-- A line without a number is a reading of zero for the exec meter alone. -/
theorem read_disagree :
    MeterFile.construct (fun n => Vector.replicate n '#') none = some ⟨[]⟩ ∧
    MeterExec.construct (fun n => Vector.replicate n '#') none = some ⟨[]⟩ ∧
    ((⟨[]⟩ : MeterFile).read (fun _ _ => .noMatch) "Temperature\n".toList
      (Vector.replicate 2 ⟨[], .nan, none⟩)).map State.readings = some [] ∧
    ((⟨[]⟩ : MeterExec).read (fun _ _ => .noMatch) "Temperature\n".toList
      (Vector.replicate 2 ⟨[], .nan, none⟩)).map State.readings = some [([], .finite 0)] := by
  refine ⟨rfl, rfl, ?_, ?_⟩
  · obtain ⟨t, ht, hreadings⟩ := MeterFile.read_spec (reads_file (n := 2) (fun _ _ => .noMatch) rfl)
      "Temperature\n".toList (Vector.replicate 2 ⟨[], .nan, none⟩)
    rw [ht, Option.map_some, hreadings]
    decide
  · obtain ⟨t, ht, hreadings⟩ := MeterExec.read_spec (reads_exec (n := 2) (fun _ _ => .noMatch) rfl)
      "Temperature\n".toList (Vector.replicate 2 ⟨[], .nan, none⟩)
    rw [ht, Option.map_some, hreadings]
    decide

end FileExec
end VzLogger
