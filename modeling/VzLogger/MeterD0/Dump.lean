import VzLogger.MeterS0.Model
import VzLogger.MeterD0.Model
import VzLogger.Lib.EventMachine
import VzLogger.Lib.Decimal
import VzLogger.Lib.Hex
import Mathlib.Logic.Function.Basic

/-! # The dump file of a D0 meter

With the option `dump_file` a D0 meter writes every byte it exchanges to a file,
sixteen to a row, together with remarks of its own.  The row being filled is a
`static` array of the function: all D0 meters of the process fill the same one,
while the position in the row is a member of each meter.

A reader of the file gets back what one meter dumped, in order and without loss, as
long as no other meter dumps while this one has a row begun.
-/
namespace VzLogger.MeterD0.Dump

/-- `DUMP_MODE`. -/
inductive DumpMode where
  | none
  | ctrl
  | dumpIn
  | dumpOut
  deriving DecidableEq

/-! ## The row -/

/-- `sizeof(str_dump)`: three characters for each byte, two blanks, the characters
themselves, a blank and the newline. -/
def rowSize : Nat := 3 * 16 + 2 + 18

/-- The row after the `memset`. -/
def blankRow : List Char := List.replicate (rowSize - 1) ' ' ++ ['\n']

/-- `hex_asc`. -/
def hexAsc (n : Nat) : Char := "0123456789abcdef".toList.getD n ' '

/-- A byte of a text. -/
def byteChar (b : UInt8) : Char := Char.ofNat b.toNat

/-- What stands behind the columns for a byte. -/
def printable (b : UInt8) : Char := if isPrint (byteChar b) then byteChar b else ' '

/-- `hex_byte_pack` into column `pos`, and the character itself. -/
def putByte (row : List Char) (pos : Nat) (b : UInt8) : List Char :=
  ((row.set (pos * 3) (hexAsc (b.toNat / 16))).set (pos * 3 + 1) (hexAsc (b.toNat % 16))).set
    (3 * 16 + 2 + pos) (printable b)

/-! ## The time stamp -/

/-- `%.9lld`. -/
def nineDigits (n : Int) : List Char :=
  (if n < 0 then ['-'] else []) ++ List.leftpad 9 '0' (Decimal.ofNat n.natAbs)

/-- The milliseconds since the last time stamp of any meter, 0 for the first one. -/
def delta (ts last : Timespec) : Int :=
  if last.tvSec = 0 then 0
  else ts.tvSec * 1000 + ts.tvNsec.tdiv 1000000 - last.tvNsec.tdiv 1000000 - last.tvSec * 1000

/-- `"%2lld.%.9llds (%6ld ms) "`. -/
def stampText (ts last : Timespec) : List Char :=
  List.leftpad 2 ' ' (Decimal.ofInt (ts.tvSec.tmod 100)) ++ '.' :: nineDigits ts.tvNsec ++
    "s (".toList ++ List.leftpad 6 ' ' (Decimal.ofInt (delta ts last)) ++ " ms) ".toList

/-- `sizeof(tbuf)`. -/
def tbufSize : Nat := 30

/-- What `fwrite(tbuf, 1, l, ..)` writes: `snprintf` returns the length of the whole
text, so the terminating zero is written where the text fills the buffer, and a longer
text makes `fwrite` read behind the buffer. -/
def stamp (ts last : Timespec) : Option (List Char) :=
  let text := stampText ts last
  if text.length < tbufSize then some text
  else if text.length = tbufSize then some (text.take (tbufSize - 1) ++ ['\x00'])
  else none

/-! ## The meters -/

/-- The members of one meter.  `file` is what was written to its dump file. -/
structure Meter where
  /-- `_dump_fd` -/
  dumpFd : Bool
  oldMode : DumpMode
  dumpPos : Nat
  file : List Char

/-- All meters, and the two `static` variables of `dump_file`. -/
structure World (ι : Type) where
  meter : ι → Meter
  strDump : List Char
  tsLast : Timespec

/-- Start marker, and whether a newline ends the header. -/
def marker : DumpMode → List Char × Bool
  | .ctrl => ("##### ".toList, false)
  | .dumpIn => (">>>>> ".toList, true)
  | .dumpOut => ("<<<<< ".toList, true)
  | .none => ("##### ".toList, false)

/-- The locals of one call. -/
structure Local where
  pos : Nat
  row : List Char
  file : List Char
  tsLast : Timespec

/-- `dump out str?` -/
def flush (l : Local) : Local :=
  if l.pos ≠ 0 then { l with file := l.file ++ l.row, pos := 0, row := blankRow } else l

/-- The part for a new mode: the row begun, and the header. -/
def changeMode (mode : DumpMode) (clock : Option Timespec) (l : Local) : Option Local :=
  let l := flush l
  let (s, newline) := marker mode
  let e := if newline then ['\n'] else []
  match clock with
  | none => some { l with file := l.file ++ ('\n' :: s ++ e) }
  | some ts =>
    match stamp ts l.tsLast with
    | none => none
    | some text => some { l with file := l.file ++ ('\n' :: s ++ text ++ e), tsLast := ts }

/-- One byte. -/
def dumpByte (l : Local) (b : UInt8) : Local :=
  let row := putByte l.row l.pos b
  if 15 < l.pos + 1 then { l with file := l.file ++ row, pos := 0, row := blankRow }
  else { l with row, pos := l.pos + 1 }

/-- The locals at the start of a call, after the `memset` of a new row. -/
def World.enter {ι : Type} (w : World ι) (i : ι) : Local :=
  let m := w.meter i
  ⟨m.dumpPos, if m.dumpPos = 0 then blankRow else w.strDump, m.file, w.tsLast⟩

/-- The switch on the mode. -/
def dumpBuf (mode : DumpMode) (buf : List UInt8) (l : Local) : Local :=
  match mode with
  | .ctrl => { l with file := l.file ++ buf.map byteChar }
  | .dumpIn | .dumpOut => buf.foldl dumpByte l
  | .none => l

/-- The members and the `static` variables at the end of a call. -/
def World.leave {ι : Type} [DecidableEq ι] (w : World ι) (i : ι) (mode : DumpMode) (l : Local) :
    World ι where
  meter := Function.update w.meter i ⟨true, if mode = .ctrl then .none else mode, l.pos, l.file⟩
  strDump := l.row
  tsLast := l.tsLast

/-- `dump_file(mode, buf, len)`, with the time that `clock_gettime` gives, if it does. -/
def dumpFile {ι : Type} [DecidableEq ι] (w : World ι) (i : ι) (mode : DumpMode) (buf : List UInt8)
    (clock : Option Timespec) : Option (World ι) :=
  if !(w.meter i).dumpFd then some w
  else
    let l := if mode ≠ (w.meter i).oldMode then changeMode mode clock (w.enter i)
      else some (w.enter i)
    l.map fun l => w.leave i mode (dumpBuf mode buf l)

/-- The remarks of the program. -/
inductive Remark where
  | opened
  | closed
  | read
  | tcioflush
  | timeout
  | usleep
  | tcdrain
  deriving DecidableEq

def Remark.text : Remark → String
  | .opened => "opened"
  | .closed => "closed\n"
  | .read => "read"
  | .tcioflush => "TCIOFLUSH and cfsetiospeed"
  | .timeout => "timeout!"
  | .usleep => "usleep cfsetispeed"
  | .tcdrain => "tcdrain cfsetispeed"

/-- What a meter does with its dump file. -/
inductive Call where
  /-- `open`, and whether `fopen` succeeds -/
  | open (fopen : Bool)
  | close
  | remark (r : Remark)
  | received (buf : List UInt8)
  | sent (buf : List UInt8)

namespace World
variable {ι : Type} [DecidableEq ι]

/-- `dump_file(CTRL, str)`. -/
def ctrl (w : World ι) (i : ι) (r : Remark) (clock : Option Timespec) : Option (World ι) :=
  dumpFile w i .ctrl (r.text.toList.map fun c => UInt8.ofNat c.toNat) clock

def setFd (w : World ι) (i : ι) (dumpFd : Bool) : World ι :=
  { w with meter := Function.update w.meter i { w.meter i with dumpFd } }

def call (w : World ι) (i : ι) (clock : Option Timespec) : Call → Option (World ι)
  | .open fopen => (w.setFd i fopen).ctrl i .opened clock
  | .close => (w.ctrl i .closed clock).map fun w => w.setFd i false
  | .remark r => w.ctrl i r clock
  | .received buf => dumpFile w i .dumpIn buf clock
  | .sent buf => dumpFile w i .dumpOut buf clock

/-- No dump file is open, and none was written. -/
def initial : World ι := ⟨fun _ => ⟨false, .none, 0, []⟩, List.replicate rowSize '\x00', ⟨0, 0⟩⟩

end World

/-! ## Reading a dump file -/

/-- What a dump file tells. -/
inductive Item where
  | ctrl (text : List Char)
  | received (b : UInt8)
  | sent (b : UInt8)
  deriving DecidableEq

/-- The bytes of a row, up to the first column without a number. -/
def rowBytes : Nat → List Char → List UInt8
  | n + 1, h :: l :: _ :: rest =>
    match CString.hexDigit h, CString.hexDigit l with
    | some x, some y => UInt8.ofNat (x * 16 + y) :: rowBytes n rest
    | _, _ => []
  | _, _ => []

/-- A reader in the middle of a file: the direction of the rows, the line begun, and
what was read so far. -/
structure Reader where
  mode : DumpMode
  line : List Char
  items : List Item

namespace Reader

/-- The text of a remark, behind the time stamp if there is one. -/
def remarkText (line : List Char) : List Char :=
  if ')' ∈ line then (line.dropWhile (· ≠ ')')).drop 2 else line

def ofBytes : DumpMode → List UInt8 → List Item
  | .dumpIn, bytes => bytes.map .received
  | .dumpOut, bytes => bytes.map .sent
  | _, _ => []

/-- At the end of a line. -/
def endLine (r : Reader) : Reader :=
  if r.line = [] then r
  else if "##### ".toList.isPrefixOf r.line then
    ⟨.none, [], r.items ++ [.ctrl (remarkText (r.line.drop 6))]⟩
  else if ">>>>> ".toList.isPrefixOf r.line then ⟨.dumpIn, [], r.items⟩
  else if "<<<<< ".toList.isPrefixOf r.line then ⟨.dumpOut, [], r.items⟩
  else ⟨r.mode, [], r.items ++ ofBytes r.mode (rowBytes 16 r.line)⟩

def feed (r : Reader) (c : Char) : Reader :=
  if c = '\n' then r.endLine else { r with line := r.line ++ [c] }

end Reader

/-- What a dump file tells, read from its start. -/
def decode (file : List Char) : List Item :=
  ((file.foldl Reader.feed ⟨.none, [], []⟩).endLine).items

/-! ## Runs -/

/-- The world, and the books: what each meter dumped while its file was open. -/
structure State (ι : Type) where
  world : World ι
  history : ι → List Item

/-- A call of one meter, and the time. -/
structure Event (ι : Type) where
  meter : ι
  call : Call
  clock : Option Timespec

/-- What a call adds to the file of an open meter. -/
def Call.items : Call → List Item
  | .open _ => [.ctrl "opened".toList]
  | .close => [.ctrl "closed".toList]
  | .remark r => [.ctrl (r.text.toList.filter (· ≠ '\n'))]
  | .received buf => buf.map .received
  | .sent buf => buf.map .sent

/-- The call writes: the file is open, or is opened by it. -/
def dumping {ι : Type} (w : World ι) (e : Event ι) : Bool :=
  match e.call with
  | .open fopen => fopen
  | _ => (w.meter e.meter).dumpFd

def step {ι : Type} [DecidableEq ι] (s : State ι) (e : Event ι) : Option (State ι) :=
  (s.world.call e.meter e.clock e.call).map fun w =>
    ⟨w, if dumping s.world e then
        Function.update s.history e.meter (s.history e.meter ++ e.call.items)
      else s.history⟩

def machine (ι : Type) [DecidableEq ι] : EventMachine.Machine (State ι) (Event ι) :=
  ⟨⟨.initial, fun _ => []⟩, step⟩

/-- The bytes of meter `i` that are not in its file yet: those in the row begun. -/
def pending {ι : Type} (w : World ι) (i : ι) : List Item :=
  Reader.ofBytes (w.meter i).oldMode (rowBytes (w.meter i).dumpPos w.strDump)

/-- Every file, with the row begun, tells what its meter dumped. -/
def Faithful {ι : Type} (s : State ι) : Prop :=
  ∀ i, decode (s.world.meter i).file ++ pending s.world i = s.history i

/-- No other meter has a row begun while a meter dumps. -/
def Alone {ι : Type} (s : State ι) (e : Event ι) : Prop :=
  dumping s.world e = true → ∀ j ≠ e.meter, (s.world.meter j).dumpPos = 0

/-! ## Rows -/

/-- The columns of some bytes. -/
def columns (bytes : List UInt8) : List Char :=
  bytes.flatMap fun b => [hexAsc (b.toNat / 16), hexAsc (b.toNat % 16), ' ']

/-- The row with some bytes in its first columns. -/
def rowOf (bytes : List UInt8) : List Char :=
  columns bytes ++ List.replicate (50 - 3 * bytes.length) ' ' ++ bytes.map printable ++
    List.replicate (17 - bytes.length) ' ' ++ ['\n']

theorem hexDigit_hexAsc {n : Nat} (h : n < 16) : CString.hexDigit (hexAsc n) = some n := by
  have hall : ∀ n < 16, CString.hexDigit (hexAsc n) = some n := by decide +kernel
  exact hall n h

theorem hexAsc_ne {n : Nat} (h : n < 16) : hexAsc n ∉ ['#', '<', '>', '\n'] := by
  have hall : ∀ n < 16, hexAsc n ∉ ['#', '<', '>', '\n'] := by decide
  exact hall n h

theorem printable_ne (b : UInt8) : printable b ≠ '\n' := by
  unfold printable
  split
  · rename_i h
    intro hb
    rw [hb] at h
    cases h
  · decide

@[simp] theorem rowOf_nil : rowOf [] = blankRow := rfl

theorem length_columns (bytes : List UInt8) : (columns bytes).length = 3 * bytes.length := by
  induction bytes with
  | nil => rfl
  | cons b bytes ih =>
    simp only [columns, List.flatMap_cons, List.length_append, List.length_cons, List.length_nil]
      at ih ⊢
    omega

theorem columns_append (bytes : List UInt8) (b : UInt8) :
    columns (bytes ++ [b]) =
      columns bytes ++ [hexAsc (b.toNat / 16), hexAsc (b.toNat % 16), ' '] := by
  simp [columns]

/-- A byte goes into the first free column. -/
theorem putByte_rowOf {bytes : List UInt8} (h : bytes.length < 16) (b : UInt8) :
    putByte (rowOf bytes) bytes.length b = rowOf (bytes ++ [b]) := by
  have hset : ∀ (l r : List Char) (c d : Char) (k : Nat), l.length = k →
      (l ++ c :: r).set k d = l ++ d :: r := by
    rintro l r c d _ rfl
    simp
  have hfree : List.replicate (50 - 3 * bytes.length) ' ' =
      ' ' :: ' ' :: ' ' :: List.replicate (47 - 3 * bytes.length) ' ' := by
    rw [show 50 - 3 * bytes.length = 47 - 3 * bytes.length + 1 + 1 + 1 by omega]
    rfl
  have hend : List.replicate (17 - bytes.length) ' ' =
      ' ' :: List.replicate (16 - bytes.length) ' ' := by
    rw [show 17 - bytes.length = 16 - bytes.length + 1 by omega]
    rfl
  have hcols := length_columns bytes
  unfold putByte rowOf
  rw [hfree, hend, List.length_append, List.length_singleton,
    show 50 - 3 * (bytes.length + 1) = 47 - 3 * bytes.length by omega,
    show 17 - (bytes.length + 1) = 16 - bytes.length by omega, columns_append]
  simp only [List.append_assoc, List.cons_append, List.nil_append, List.map_append, List.map_cons,
    List.map_nil]
  rw [hset (columns bytes) _ _ _ (bytes.length * 3) (by omega)]
  have hsecond := hset (columns bytes ++ [hexAsc (b.toNat / 16)])
    (' ' :: (List.replicate (47 - 3 * bytes.length) ' ' ++ (bytes.map printable ++
      ' ' :: (List.replicate (16 - bytes.length) ' ' ++ ['\n'])))) ' ' (hexAsc (b.toNat % 16))
    (bytes.length * 3 + 1) (by simp; omega)
  simp only [List.append_assoc, List.cons_append, List.nil_append] at hsecond
  rw [hsecond]
  have hthird := hset (columns bytes ++ [hexAsc (b.toNat / 16), hexAsc (b.toNat % 16), ' '] ++
    List.replicate (47 - 3 * bytes.length) ' ' ++ bytes.map printable)
    (List.replicate (16 - bytes.length) ' ' ++ ['\n']) ' ' (printable b)
    (3 * 16 + 2 + bytes.length) (by simp; omega)
  simp only [List.append_assoc, List.cons_append, List.nil_append] at hthird
  exact hthird

theorem rowBytes_blank (n : Nat) {rest : List Char} (h : rest.head? = some ' ') :
    rowBytes n rest = [] := by
  rcases n with _ | n
  · rfl
  · rcases rest with _ | ⟨c, _ | ⟨d, _ | ⟨e, rest⟩⟩⟩
    · rfl
    · rfl
    · rfl
    · obtain rfl : c = ' ' := Option.some.inj h
      rfl

/-- The columns read back, up to a blank column or as many as are asked for. -/
theorem rowBytes_columns (bytes : List UInt8) {n : Nat} {rest : List Char}
    (h : bytes.length = n ∨ bytes.length ≤ n ∧ rest.head? = some ' ') :
    rowBytes n (columns bytes ++ rest) = bytes := by
  induction bytes generalizing n with
  | nil =>
    rcases h with rfl | ⟨-, h⟩
    · rfl
    · exact rowBytes_blank n h
  | cons b bytes ih =>
    have hb := b.toNat_lt
    cases n with
    | zero => simp at h
    | succ n =>
      have hrest := ih (n := n) (by simpa using h)
      have hbyte : UInt8.ofNat (b.toNat / 16 * 16 + b.toNat % 16) = b := by
        rw [Nat.div_add_mod', UInt8.ofNat_toNat]
      simp only [columns, List.flatMap_cons, List.cons_append, List.nil_append] at hrest ⊢
      rw [rowBytes, hexDigit_hexAsc (by omega), hexDigit_hexAsc (Nat.mod_lt _ (by decide))]
      simp only [hbyte, hrest]

/-! ## The reader -/

namespace Reader

theorem feed_text {t : List Char} (h : ∀ c ∈ t, c ≠ '\n') (r : Reader) :
    t.foldl feed r = { r with line := r.line ++ t } := by
  induction t generalizing r with
  | nil => simp
  | cons c t ih =>
    obtain ⟨hc, ht⟩ := List.forall_mem_cons.mp h
    rw [List.foldl_cons, feed, if_neg hc, ih ht]
    simp

theorem endLine_of_line {r : Reader} (h : r.line = []) : r.endLine = r := by
  rw [endLine, if_pos h]

@[simp] theorem endLine_line (r : Reader) : r.endLine.line = [] := by
  unfold endLine
  split
  · assumption
  · split_ifs <;> rfl

/-- The header of the received and of the sent bytes. -/
theorem endLine_marker {mode : DumpMode} (hmode : mode = .dumpIn ∨ mode = .dumpOut)
    (text : List Char) (r : Reader) :
    endLine { r with line := (marker mode).1 ++ text } = ⟨mode, [], r.items⟩ := by
  rcases hmode with rfl | rfl <;> rfl

theorem endLine_ctrl (text : List Char) (r : Reader) :
    endLine { r with line := "##### ".toList ++ text } =
      ⟨.none, [], r.items ++ [.ctrl (remarkText text)]⟩ := rfl

theorem rowOf_eq (bytes : List UInt8) :
    ∃ rest, rowOf bytes = columns bytes ++ rest ++ ['\n'] ∧ (∀ c ∈ rest, c ≠ '\n') ∧
      (bytes.length ≤ 16 → rest.head? = some ' ') := by
  refine ⟨List.replicate (50 - 3 * bytes.length) ' ' ++ bytes.map printable ++
    List.replicate (17 - bytes.length) ' ', by simp [rowOf], ?_, ?_⟩
  · intro c hc
    simp only [List.mem_append, List.mem_replicate, List.mem_map] at hc
    rcases hc with (⟨-, rfl⟩ | ⟨b, -, rfl⟩) | ⟨-, rfl⟩
    · decide
    · exact printable_ne b
    · decide
  · intro hlen
    rw [show 50 - 3 * bytes.length = 49 - 3 * bytes.length + 1 by omega]
    rfl

theorem columns_ne (bytes : List UInt8) : ∀ c ∈ columns bytes, c ≠ '\n' := by
  intro c hc
  obtain ⟨b, -, hc⟩ := List.mem_flatMap.mp hc
  have hb := b.toNat_lt
  have hhi := hexAsc_ne (n := b.toNat / 16) (by omega)
  have hlo := hexAsc_ne (n := b.toNat % 16) (Nat.mod_lt _ (by decide))
  simp only [List.mem_cons, List.not_mem_nil, or_false, not_or] at hc hhi hlo
  rcases hc with rfl | rfl | rfl
  · exact hhi.2.2.2
  · exact hlo.2.2.2
  · decide

/-- A row gives its bytes to the direction of the last header. -/
theorem feed_rowOf {bytes : List UInt8} (hne : bytes ≠ []) (hlen : bytes.length ≤ 16)
    {r : Reader} (hline : r.line = []) :
    (rowOf bytes).foldl feed r = ⟨r.mode, [], r.items ++ ofBytes r.mode bytes⟩ := by
  obtain ⟨rest, hrow, hrest, hhead⟩ := rowOf_eq bytes
  have htext : ∀ c ∈ columns bytes ++ rest, c ≠ '\n' := by
    intro c hc
    rcases List.mem_append.mp hc with hc | hc
    · exact columns_ne bytes c hc
    · exact hrest c hc
  have hbytes := rowBytes_columns bytes (.inr ⟨hlen, hhead hlen⟩)
  rw [hrow, List.foldl_append, feed_text htext, hline, List.nil_append]
  show endLine _ = _
  -- the row starts with a digit, which no marker does
  obtain ⟨b, tail, rfl⟩ := List.exists_cons_of_ne_nil hne
  have hb := b.toNat_lt
  have hdigit := hexAsc_ne (n := b.toNat / 16) (by omega)
  simp only [List.mem_cons, List.not_mem_nil, or_false, not_or] at hdigit
  obtain ⟨hctrl, hout, hin, -⟩ := hdigit
  have hcons : columns (b :: tail) ++ rest =
      hexAsc (b.toNat / 16) :: hexAsc (b.toNat % 16) :: ' ' :: (columns tail ++ rest) := rfl
  have hplain : ∀ c cs, ¬ hexAsc (b.toNat / 16) = c →
      ¬ (c :: cs : List Char).isPrefixOf (columns (b :: tail) ++ rest) = true := by
    intro c cs hc hprefix
    rw [hcons, List.isPrefixOf_cons_cons, Bool.and_eq_true, beq_iff_eq] at hprefix
    exact hc hprefix.1.symm
  have hctrl' : ¬ "##### ".toList.isPrefixOf (columns (b :: tail) ++ rest) = true :=
    hplain '#' "#### ".toList hctrl
  have hin' : ¬ ">>>>> ".toList.isPrefixOf (columns (b :: tail) ++ rest) = true :=
    hplain '>' ">>>> ".toList hin
  have hout' : ¬ "<<<<< ".toList.isPrefixOf (columns (b :: tail) ++ rest) = true :=
    hplain '<' "<<<< ".toList hout
  have hfull : columns (b :: tail) ++ rest ≠ [] := by
    rw [hcons]
    exact List.cons_ne_nil _ _
  unfold endLine
  simp only [hfull, hbytes, if_false]
  rw [if_neg hctrl', if_neg hin', if_neg hout']

end Reader

/-! ## Time stamps -/

/-- A character that neither ends a time stamp nor a line. -/
def Inner (c : Char) : Prop := c ≠ ')' ∧ c ≠ '\n'

instance (c : Char) : Decidable (Inner c) := inferInstanceAs (Decidable (_ ∧ _))

/-- `List.all`, which computes, for each character of a text. -/
theorem forall_mem_of_all {p : Char → Prop} [DecidablePred p] {s : List Char}
    (h : s.all (fun c => decide (p c)) = true) : ∀ c ∈ s, p c := by
  simpa using h

theorem inner_of_isDigit {c : Char} (h : c.isDigit = true) : Inner c := by
  constructor <;> rintro rfl <;> cases h

theorem inner_ofInt {i : Int} {c : Char} (h : c ∈ Decimal.ofInt i) : Inner c := by
  unfold Decimal.ofInt at h
  split at h
  · rcases List.mem_cons.mp h with rfl | h
    · decide
    · exact inner_of_isDigit (Decimal.isDigit_of_mem_ofNat h)
  · exact inner_of_isDigit (Decimal.isDigit_of_mem_ofNat h)

theorem inner_leftpad {n : Nat} {fill c : Char} {ds : List Char} (hfill : Inner fill)
    (hds : ∀ c ∈ ds, Inner c) (h : c ∈ List.leftpad n fill ds) : Inner c := by
  rcases List.mem_append.mp h with h | h
  · rwa [List.eq_of_mem_replicate h]
  · exact hds c h

theorem inner_nineDigits {n : Int} {c : Char} (h : c ∈ nineDigits n) : Inner c := by
  rcases List.mem_append.mp h with h | h
  · split at h
    · obtain rfl := List.mem_singleton.mp h
      decide
    · cases h
  · exact inner_leftpad (by decide)
      (fun c hc => inner_of_isDigit (Decimal.isDigit_of_mem_ofNat hc)) h

/-- The only closing parenthesis of a time stamp stands right before its end. -/
theorem stampText_eq (ts last : Timespec) :
    ∃ body, stampText ts last = body ++ [')', ' '] ∧ ∀ c ∈ body, Inner c := by
  refine ⟨List.leftpad 2 ' ' (Decimal.ofInt (ts.tvSec.tmod 100)) ++ '.' :: nineDigits ts.tvNsec ++
    "s (".toList ++ List.leftpad 6 ' ' (Decimal.ofInt (delta ts last)) ++ " ms".toList, ?_, ?_⟩
  · rw [stampText, List.append_assoc _ " ms".toList]
    rfl
  · intro c hc
    simp only [List.mem_append, List.mem_cons] at hc
    rcases hc with (((h | rfl | h) | h) | h) | h
    · exact inner_leftpad (by decide) (fun c hc => inner_ofInt hc) h
    · decide
    · exact inner_nineDigits h
    · have hall : ∀ c ∈ "s (".toList, Inner c := forall_mem_of_all (by decide)
      exact hall c h
    · exact inner_leftpad (by decide) (fun c hc => inner_ofInt hc) h
    · have hall : ∀ c ∈ " ms".toList, Inner c := forall_mem_of_all (by decide)
      exact hall c h

/-- Also where the buffer cuts its last blank off. -/
theorem stamp_eq {ts last : Timespec} {text : List Char} (h : stamp ts last = some text) :
    ∃ body c, text = body ++ [')', c] ∧ c ≠ '\n' ∧ ∀ c ∈ body, Inner c := by
  obtain ⟨body, hbody, hinner⟩ := stampText_eq ts last
  unfold stamp at h
  simp only [hbody] at h
  split at h
  · exact ⟨body, ' ', (Option.some.inj h).symm, by decide, hinner⟩
  · split at h
    · rename_i hlen
      have htake : (body ++ [')', ' ']).take (tbufSize - 1) = body ++ [')'] := by
        have hn : tbufSize - 1 = (body ++ [')']).length := by
          simp only [List.length_append, List.length_cons, List.length_nil] at hlen ⊢
          omega
        rw [hn, show body ++ [')', ' '] = (body ++ [')']) ++ [' '] by simp, List.take_left]
      rw [htake] at h
      refine ⟨body, '\x00', ?_, by decide, hinner⟩
      rw [← Option.some.inj h]
      simp
    · cases h

/-- The text of a remark is what stands behind the time stamp. -/
theorem remarkText_stamp {ts last : Timespec} {text : List Char} (h : stamp ts last = some text)
    (remark : List Char) : Reader.remarkText (text ++ remark) = remark := by
  obtain ⟨body, c, rfl, -, hbody⟩ := stamp_eq h
  have hdrop : (body ++ ([')', c] ++ remark)).dropWhile (· ≠ ')') = [')', c] ++ remark := by
    rw [List.dropWhile_append_of_pos fun d hd => by simpa using (hbody d hd).1]
    rfl
  rw [Reader.remarkText, if_pos (by simp), List.append_assoc, hdrop]
  rfl

theorem stamp_ne {ts last : Timespec} {text : List Char} (h : stamp ts last = some text) :
    ∀ c ∈ text, c ≠ '\n' := by
  obtain ⟨body, c, rfl, hc, hbody⟩ := stamp_eq h
  intro d hd
  simp only [List.mem_append, List.mem_cons, List.not_mem_nil, or_false] at hd
  rcases hd with hd | rfl | rfl
  · exact (hbody d hd).2
  · decide
  · exact hc

/-! ## The books of a meter -/

def reader (file : List Char) : Reader := file.foldl Reader.feed ⟨.none, [], []⟩

theorem reader_append (file text : List Char) :
    reader (file ++ text) = text.foldl Reader.feed (reader file) := List.foldl_append

/-- The file and the bytes in the row begun tell the history `h`. -/
structure Books (mode : DumpMode) (l : Local) (bytes : List UInt8) (h : List Item) : Prop where
  pos : l.pos = bytes.length
  room : bytes.length < 16
  row : l.row = rowOf bytes
  mode_ne : mode ≠ .ctrl
  idle : mode = .none → bytes = []
  header : mode ≠ .none → (reader l.file).line = [] ∧ (reader l.file).mode = mode
  told : (reader l.file).endLine.items ++ Reader.ofBytes mode bytes = h

variable {mode old : DumpMode} {l l' : Local} {bytes : List UInt8} {h : List Item}

theorem flush_books (hb : Books mode l bytes h) : Books .none (flush l) [] h := by
  have hpos := hb.pos
  unfold flush
  by_cases hnil : bytes = []
  · rw [hnil, List.length_nil] at hpos
    rw [if_neg (not_not.mpr hpos)]
    refine ⟨hpos, by decide, by rw [hb.row, hnil], by decide, fun _ => rfl, fun h => absurd rfl h, ?_⟩
    have htold := hb.told
    rw [hnil] at htold
    cases mode <;> exact htold
  · have hlen : bytes.length ≠ 0 := fun h => hnil (List.length_eq_zero_iff.mp h)
    have hmode : mode ≠ .none := fun h => hnil (hb.idle h)
    obtain ⟨hline, hm⟩ := hb.header hmode
    rw [if_pos (by omega)]
    refine ⟨rfl, by decide, rfl, by decide, fun _ => rfl, fun h => absurd rfl h, ?_⟩
    have htold := hb.told
    rw [Reader.endLine_of_line hline] at htold
    have hroom := hb.room
    simp only [reader_append, hb.row]
    rw [Reader.feed_rowOf hnil (by omega) hline, Reader.endLine_of_line rfl, hm]
    simpa [Reader.ofBytes] using htold

/-- What follows the marker of a remark up to its text. -/
structure Stamped (text : List Char) : Prop where
  line : ∀ c ∈ text, c ≠ '\n'
  remark : ∀ r : List Char, ')' ∉ r → Reader.remarkText (text ++ r) = r

/-- The header of a new mode, written behind everything told so far. -/
theorem changeMode_spec {clock : Option Timespec} (hb : Books old l bytes h)
    (hl : changeMode mode clock l = some l') :
    l'.pos = 0 ∧ l'.row = blankRow ∧ ∃ r text, r.line = [] ∧ r.items = h ∧ Stamped text ∧
      reader l'.file = ((marker mode).1 ++ text ++
        if (marker mode).2 then ['\n'] else []).foldl Reader.feed r := by
  have hf := flush_books hb
  have htold := hf.told
  rw [show Reader.ofBytes .none [] = [] from rfl, List.append_nil] at htold
  have hstart : ∀ text : List Char, reader ((flush l).file ++ '\n' :: text) =
      text.foldl Reader.feed (reader (flush l).file).endLine := fun text => reader_append _ _
  unfold changeMode at hl
  cases clock with
  | none =>
    obtain rfl := Option.some.inj hl
    refine ⟨hf.pos, hf.row, _, [], Reader.endLine_line _, htold, ⟨by simp, ?_⟩, ?_⟩
    · intro r hr
      rw [List.nil_append, Reader.remarkText, if_neg hr]
    · rw [List.append_nil]
      exact hstart _
  | some ts =>
    simp only at hl
    split at hl
    · cases hl
    · rename_i text hstamp
      obtain rfl := Option.some.inj hl
      refine ⟨hf.pos, hf.row, _, text, Reader.endLine_line _, htold, ⟨stamp_ne hstamp, ?_⟩, ?_⟩
      · intro r _
        exact remarkText_stamp hstamp r
      · exact hstart _

/-- The text of a remark without the newline that ends some. -/
def Remark.shown (r : Remark) : List Char := r.text.toList.filter (· ≠ '\n')

theorem Remark.text_eq (r : Remark) : ∃ e, (e = [] ∨ e = ['\n']) ∧
    ((r.text.toList.map fun c => UInt8.ofNat c.toNat).map byteChar) = r.shown ++ e ∧
      (∀ c ∈ r.shown, c ≠ '\n') ∧ ')' ∉ r.shown := by
  cases r with
  | closed =>
    exact ⟨['\n'], .inr rfl, by decide +kernel, forall_mem_of_all (by decide +kernel),
      by decide +kernel⟩
  | _ =>
    exact ⟨[], .inl rfl, by decide +kernel, forall_mem_of_all (by decide +kernel),
      by decide +kernel⟩

/-- A remark is one item, and ends what went before. -/
theorem ctrl_books {clock : Option Timespec} (hb : Books old l bytes h)
    (hl : changeMode .ctrl clock l = some l') (r : Remark) :
    Books .none (dumpBuf .ctrl (r.text.toList.map fun c => UInt8.ofNat c.toNat) l') []
      (h ++ [.ctrl r.shown]) := by
  obtain ⟨hpos, hrow, s, text, hline, hitems, htext, hreader⟩ := changeMode_spec hb hl
  obtain ⟨e, he, hbuf, hshown, hparen⟩ := r.text_eq
  refine ⟨hpos, by decide, hrow, by decide, fun _ => rfl, fun h => absurd rfl h, ?_⟩
  have hplain : ∀ c ∈ "##### ".toList ++ text ++ r.shown, c ≠ '\n' := by
    intro c hc
    rcases List.mem_append.mp hc with hc | hc
    · rcases List.mem_append.mp hc with hc | hc
      · have hall : ∀ c ∈ "##### ".toList, c ≠ '\n' := forall_mem_of_all (by decide)
        exact hall c hc
      · exact htext.line c hc
    · exact hshown c hc
  have hfeed : reader (dumpBuf .ctrl (r.text.toList.map fun c => UInt8.ofNat c.toNat) l').file =
      e.foldl Reader.feed { s with line := "##### ".toList ++ (text ++ r.shown) } := by
    show reader (l'.file ++ _) = _
    rw [hbuf, reader_append, hreader, ← List.foldl_append, ← List.append_assoc, List.foldl_append]
    congr 1
    have := Reader.feed_text hplain s
    rw [hline, List.nil_append, List.append_assoc] at this
    rw [← this]
    show (("##### ".toList ++ text ++ []) ++ r.shown).foldl _ _ = _
    rw [List.append_nil, List.append_assoc]
  have hend : (reader (dumpBuf .ctrl (r.text.toList.map fun c => UInt8.ofNat c.toNat) l').file
      ).endLine = ⟨.none, [], h ++ [.ctrl r.shown]⟩ := by
    rw [hfeed, ← hitems]
    have hctrl := Reader.endLine_ctrl (text ++ r.shown) s
    rw [htext.remark _ hparen] at hctrl
    rcases he with rfl | rfl
    · exact hctrl
    · rw [List.foldl_cons, List.foldl_nil, Reader.feed, if_pos rfl, hctrl,
        Reader.endLine_of_line rfl]
  rw [hend]
  exact List.append_nil _

/-- A header for bytes adds no item. -/
theorem header_books {clock : Option Timespec} (hmode : mode = .dumpIn ∨ mode = .dumpOut)
    (hb : Books old l bytes h) (hl : changeMode mode clock l = some l') : Books mode l' [] h := by
  obtain ⟨hpos, hrow, s, text, hline, hitems, htext, hreader⟩ := changeMode_spec hb hl
  have hplain : ∀ c ∈ (marker mode).1 ++ text, c ≠ '\n' := by
    intro c hc
    rcases List.mem_append.mp hc with hc | hc
    · have hall : ∀ c ∈ (marker mode).1, c ≠ '\n' := by
        rcases hmode with rfl | rfl <;> exact forall_mem_of_all (by decide)
      exact hall c hc
    · exact htext.line c hc
  have hnewline : (if (marker mode).2 then ['\n'] else []) = ['\n'] := by
    rcases hmode with rfl | rfl <;> rfl
  have hfeed : reader l'.file = ⟨mode, [], h⟩ := by
    rw [hreader, hnewline, List.foldl_append, Reader.feed_text hplain, hline, List.nil_append,
      List.foldl_cons, List.foldl_nil, Reader.feed, if_pos rfl, Reader.endLine_marker hmode, hitems]
  have hne : mode ≠ .ctrl := by rcases hmode with rfl | rfl <;> decide
  refine ⟨hpos, by decide, hrow, hne, fun _ => rfl, fun _ => ?_, ?_⟩
  · rw [hfeed]
    exact ⟨rfl, rfl⟩
  · rw [hfeed, Reader.endLine_of_line rfl]
    rcases hmode with rfl | rfl <;> exact List.append_nil _

theorem ofBytes_append (mode : DumpMode) (bs cs : List UInt8) :
    Reader.ofBytes mode (bs ++ cs) = Reader.ofBytes mode bs ++ Reader.ofBytes mode cs := by
  cases mode <;> simp [Reader.ofBytes]

/-- A byte goes into the row, and a full row into the file. -/
theorem dumpByte_books (hne : mode ≠ .none) (hb : Books mode l bytes h) (b : UInt8) :
    ∃ bytes', Books mode (dumpByte l b) bytes' (h ++ Reader.ofBytes mode [b]) := by
  obtain ⟨hline, hmode⟩ := hb.header hne
  have hroom := hb.room
  have hput : putByte l.row l.pos b = rowOf (bytes ++ [b]) := by
    rw [hb.row, hb.pos, putByte_rowOf hroom]
  have htold : (reader l.file).items ++ Reader.ofBytes mode (bytes ++ [b]) =
      h ++ Reader.ofBytes mode [b] := by
    rw [← hb.told, Reader.endLine_of_line hline, ofBytes_append, List.append_assoc]
  unfold dumpByte
  simp only [hput]
  by_cases hfull : 15 < l.pos + 1
  · rw [if_pos hfull]
    have hlen : (bytes ++ [b]).length ≤ 16 := by
      rw [List.length_append, List.length_singleton]
      omega
    have hfeed : reader (l.file ++ rowOf (bytes ++ [b])) =
        ⟨mode, [], h ++ Reader.ofBytes mode [b]⟩ := by
      rw [reader_append, Reader.feed_rowOf (by simp) hlen hline, hmode, htold]
    refine ⟨[], rfl, by decide, rfl, hb.mode_ne, fun _ => rfl, fun _ => ?_, ?_⟩
    · rw [hfeed]
      exact ⟨rfl, rfl⟩
    · rw [hfeed, Reader.endLine_of_line rfl]
      cases mode <;> exact List.append_nil _
  · rw [if_neg hfull]
    have hpos := hb.pos
    refine ⟨bytes ++ [b], by simp [hpos], ?_, rfl, hb.mode_ne, fun h => absurd h hne,
      fun _ => ⟨hline, hmode⟩, ?_⟩
    · rw [List.length_append, List.length_singleton]
      omega
    · rw [Reader.endLine_of_line hline, htold]

theorem dumpBytes_books (hne : mode ≠ .none) (buf : List UInt8) (hb : Books mode l bytes h) :
    ∃ bytes', Books mode (buf.foldl dumpByte l) bytes' (h ++ Reader.ofBytes mode buf) := by
  induction buf generalizing l bytes h with
  | nil =>
    refine ⟨bytes, ?_⟩
    rw [show Reader.ofBytes mode [] = [] by cases mode <;> rfl, List.append_nil]
    exact hb
  | cons b buf ih =>
    obtain ⟨bytes', hb'⟩ := dumpByte_books hne hb b
    obtain ⟨bytes'', hb''⟩ := ih hb'
    rw [List.append_assoc, ← ofBytes_append] at hb''
    exact ⟨bytes'', hb''⟩

/-! ## All meters -/

section World
variable {ι : Type} [DecidableEq ι] {w w' : World ι} {i : ι} {clock : Option Timespec}

/-- A call writes nothing, or it writes the header if the mode changes, and its buffer. -/
theorem dumpFile_cases {buf : List UInt8} (hw : dumpFile w i mode buf clock = some w') :
    ((w.meter i).dumpFd = false ∧ w' = w) ∨
    ((w.meter i).dumpFd = true ∧ ∃ l,
      (if mode ≠ (w.meter i).oldMode then changeMode mode clock (w.enter i)
        else some (w.enter i)) = some l ∧ w' = w.leave i mode (dumpBuf mode buf l)) := by
  unfold dumpFile at hw
  cases hfd : (w.meter i).dumpFd with
  | false =>
    rw [hfd] at hw
    exact .inl ⟨rfl, (Option.some.inj hw).symm⟩
  | true =>
    rw [hfd] at hw
    obtain ⟨l, hl, rfl⟩ := Option.map_eq_some_iff.mp hw
    exact .inr ⟨rfl, l, hl, rfl⟩

def AllBooks (w : World ι) (h : ι → List Item) : Prop :=
  ∀ i, ∃ bytes, Books (w.meter i).oldMode (w.enter i) bytes (h i)

/-- What a meter leaves behind for the others: a new row is cleared before it is used. -/
theorem leave_books {h : ι → List Item} {l : Local} {bytes : List UInt8} {items : List Item}
    (hall : AllBooks w h) (halone : ∀ j ≠ i, (w.meter j).dumpPos = 0)
    (hb : Books (if mode = .ctrl then .none else mode) l bytes (h i ++ items)) :
    AllBooks (w.leave i mode l) (Function.update h i (h i ++ items)) := by
  intro j
  by_cases hj : j = i
  · subst hj
    refine ⟨bytes, ?_⟩
    simp only [World.leave, World.enter, Function.update_self]
    have hrow : (if l.pos = 0 then blankRow else l.row) = rowOf bytes := by
      rw [← hb.row]
      split
      · rename_i hpos
        rw [hb.pos] at hpos
        rw [hb.row, List.length_eq_zero_iff.mp hpos, rowOf_nil]
      · rfl
    exact ⟨hb.pos, hb.room, hrow, hb.mode_ne, hb.idle, hb.header, hb.told⟩
  · obtain ⟨bytes', hj'⟩ := hall j
    refine ⟨bytes', ?_⟩
    have hpos := halone j hj
    simp only [World.leave, World.enter, Function.update_of_ne hj, hpos, if_pos] at hj' ⊢
    exact ⟨hj'.pos, hj'.room, hj'.row, hj'.mode_ne, hj'.idle, hj'.header, hj'.told⟩

theorem ctrl_allBooks {h : ι → List Item} (hall : AllBooks w h) (r : Remark)
    (halone : (w.meter i).dumpFd = true → ∀ j ≠ i, (w.meter j).dumpPos = 0)
    (hw : w.ctrl i r clock = some w') :
    AllBooks w' (if (w.meter i).dumpFd then Function.update h i (h i ++ [.ctrl r.shown]) else h) := by
  rcases dumpFile_cases hw with ⟨hfd, rfl⟩ | ⟨hfd, l, hl, rfl⟩
  · rw [if_neg (by simp [hfd])]
    exact hall
  · obtain ⟨bytes, hb⟩ := hall i
    rw [if_pos hfd]
    rw [if_pos (Ne.symm hb.mode_ne)] at hl
    exact leave_books hall (halone hfd) (ctrl_books hb hl r)

theorem bytes_allBooks {h : ι → List Item} (hall : AllBooks w h)
    (hmode : mode = .dumpIn ∨ mode = .dumpOut) {buf : List UInt8}
    (halone : (w.meter i).dumpFd = true → ∀ j ≠ i, (w.meter j).dumpPos = 0)
    (hw : dumpFile w i mode buf clock = some w') :
    AllBooks w' (if (w.meter i).dumpFd then
      Function.update h i (h i ++ Reader.ofBytes mode buf) else h) := by
  rcases dumpFile_cases hw with ⟨hfd, rfl⟩ | ⟨hfd, l, hl, rfl⟩
  · rw [if_neg (by simp [hfd])]
    exact hall
  · obtain ⟨bytes, hb⟩ := hall i
    have hne : mode ≠ .none := by rcases hmode with rfl | rfl <;> decide
    have hctrl : (if mode = .ctrl then DumpMode.none else mode) = mode := by
      rcases hmode with rfl | rfl <;> rfl
    have hstart : ∃ bytes, Books mode l bytes (h i) := by
      split at hl
      · exact ⟨[], header_books hmode hb hl⟩
      · rename_i heq
        obtain rfl := Option.some.inj hl
        rw [not_not.mp heq]
        exact ⟨bytes, hb⟩
    obtain ⟨bytes', hb'⟩ := hstart
    obtain ⟨bytes'', hb''⟩ := dumpBytes_books hne buf hb'
    rw [if_pos hfd]
    refine leave_books hall (halone hfd) (?_ : Books _ _ bytes'' _)
    rw [hctrl]
    rcases hmode with rfl | rfl <;> exact hb''

theorem setFd_allBooks {h : ι → List Item} (hall : AllBooks w h) (i : ι) (dumpFd : Bool) :
    AllBooks (w.setFd i dumpFd) h := by
  intro j
  obtain ⟨bytes, hb⟩ := hall j
  refine ⟨bytes, ?_⟩
  by_cases hj : j = i
  · subst hj
    simpa only [World.setFd, World.enter, Function.update_self] using hb
  · simpa only [World.setFd, World.enter, Function.update_of_ne hj] using hb

omit [DecidableEq ι] in
theorem initial_allBooks : AllBooks (World.initial : World ι) fun _ => [] :=
  fun _ => ⟨[], rfl, by decide, rfl, nofun, fun _ => rfl, fun h => absurd rfl h, rfl⟩

omit [DecidableEq ι] in
/-- The file and the row of a meter tell its history. -/
theorem told_of_books {h : ι → List Item} {j : ι} {bytes : List UInt8}
    (hb : Books (w.meter j).oldMode (w.enter j) bytes (h j)) :
    decode (w.meter j).file ++ pending w j = h j := by
  have hpending : rowBytes (w.meter j).dumpPos w.strDump = bytes := by
    have hpos : (w.meter j).dumpPos = bytes.length := hb.pos
    by_cases hzero : (w.meter j).dumpPos = 0
    · rw [hzero] at hpos ⊢
      rw [List.length_eq_zero_iff.mp hpos.symm]
      rfl
    · have hrow := hb.row
      simp only [World.enter, if_neg hzero] at hrow
      rw [hrow, rowOf, List.append_assoc, List.append_assoc, List.append_assoc, hpos]
      exact rowBytes_columns bytes (.inl rfl)
  rw [pending, hpending]
  exact hb.told

omit [DecidableEq ι] in
theorem length_pending {h : ι → List Item} {j : ι} {bytes : List UInt8}
    (hb : Books (w.meter j).oldMode (w.enter j) bytes (h j)) :
    (pending w j).length = (w.meter j).dumpPos := by
  have hsame : pending w j = Reader.ofBytes (w.meter j).oldMode bytes :=
    List.append_cancel_left ((told_of_books hb).trans hb.told.symm)
  rw [hsame, show (w.meter j).dumpPos = bytes.length from hb.pos]
  cases hm : (w.meter j).oldMode with
  | none => rw [hb.idle hm]; rfl
  | ctrl => exact absurd hm hb.mode_ne
  | dumpIn => exact List.length_map _
  | dumpOut => exact List.length_map _

end World

variable {ι : Type} [DecidableEq ι]

/-- The books of a run. -/
theorem step_allBooks {s t : State ι} {e : Event ι} (hall : AllBooks s.world s.history)
    (halone : Alone s e) (hst : step s e = some t) : AllBooks t.world t.history := by
  obtain ⟨w', hw, rfl⟩ := Option.map_eq_some_iff.mp hst
  obtain ⟨i, call, clock⟩ := e
  cases call with
  | «open» fopen =>
    have hfd : ((s.world.setFd i fopen).meter i).dumpFd = fopen := by
      simp [World.setFd]
    have hpos : ∀ j ≠ i, ((s.world.setFd i fopen).meter j).dumpPos = (s.world.meter j).dumpPos := by
      intro j hj
      simp [World.setFd, Function.update_of_ne hj]
    have hctrl := ctrl_allBooks (setFd_allBooks hall i fopen) .opened (fun h j hj => by
      rw [hpos j hj]
      exact halone (hfd ▸ h) j hj) hw
    rw [hfd] at hctrl
    exact hctrl
  | close =>
    have hw : (s.world.ctrl i .closed clock).map (fun w => w.setFd i false) = some w' := hw
    obtain ⟨w, hctrl, rfl⟩ := Option.map_eq_some_iff.mp hw
    exact setFd_allBooks (ctrl_allBooks hall .closed halone hctrl) i false
  | remark r => exact ctrl_allBooks hall r halone hw
  | received buf => exact bytes_allBooks hall (.inl rfl) halone hw
  | sent buf => exact bytes_allBooks hall (.inr rfl) halone hw

theorem step_history {s t : State ι} {e : Event ι} (hst : step s e = some t) {j : ι}
    (hj : j ≠ e.meter) : t.history j = s.history j := by
  obtain ⟨w', -, rfl⟩ := Option.map_eq_some_iff.mp hst
  simp only
  split
  · exact Function.update_of_ne hj _ _
  · rfl

/-- A remark leaves a blank row, whatever stood in it. -/
theorem strDump_of_remark {w w' : World ι} {i : ι} {r : Remark} {clock : Option Timespec}
    {bytes : List UInt8} {h : List Item} (hb : Books (w.meter i).oldMode (w.enter i) bytes h)
    (hfd : (w.meter i).dumpFd = true) (hw : w.ctrl i r clock = some w') :
    w'.strDump = blankRow ∧ ∀ j ≠ i, w'.meter j = w.meter j := by
  rcases dumpFile_cases hw with ⟨hclosed, -⟩ | ⟨-, l, hl, rfl⟩
  · rw [hfd] at hclosed
    cases hclosed
  · rw [if_pos (Ne.symm hb.mode_ne)] at hl
    obtain ⟨-, hrow, -⟩ := changeMode_spec hb hl
    exact ⟨hrow, fun j hj => Function.update_of_ne hj _ _⟩

/-- The invariant of a run. -/
def Booked (s : State ι) : Prop := AllBooks s.world s.history

/-- **Every dump file tells what its meter dumped**, with the row begun, as long as no
meter dumps while another has a row begun; and a remark of a meter then keeps this
exactly if no other meter has a row begun. -/
theorem dump_faithful {es : List (Event ι)} {u : State ι}
    (halone : (machine ι).EachStep Alone (machine ι).init es)
    (hrun : (machine ι).run (machine ι).init es = some u) :
    Faithful u ∧ ∀ i r clock t, (u.world.meter i).dumpFd = true →
      step u ⟨i, .remark r, clock⟩ = some t →
        (Faithful t ↔ ∀ j ≠ i, (u.world.meter j).dumpPos = 0) := by
  have hstart : Booked (machine ι).init := initial_allBooks
  have hall : Booked u :=
    EventMachine.Machine.run_invariant (fun _ _ _ => step_allBooks) hstart halone hrun
  refine ⟨fun i => told_of_books (hall i).choose_spec, ?_⟩
  intro i r clock t hfd hst
  constructor
  · intro hfaithful j hj
    obtain ⟨w', hw, ht⟩ := Option.map_eq_some_iff.mp hst
    obtain ⟨_, hbi⟩ := hall i
    obtain ⟨hrow, hother⟩ := strDump_of_remark hbi hfd hw
    obtain ⟨bytes, hb⟩ := hall j
    have hafter := hfaithful j
    rw [step_history hst hj, ← told_of_books hb, ← ht] at hafter
    -- the bytes of the row begun are in the history, and no longer in the row
    have hlost : pending w' j = [] := by
      rw [pending, hrow, hother j hj, rowBytes_blank _ (by rfl)]
      cases (u.world.meter j).oldMode <;> rfl
    simp only [hlost, List.append_nil, hother j hj] at hafter
    rw [← length_pending hb, List.self_eq_append_right.mp hafter]
    rfl
  · intro hzero i'
    exact told_of_books (step_allBooks hall (fun _ => hzero) hst i').choose_spec

instance (s : State Bool) (e : Event Bool) : Decidable (Alone s e) :=
  inferInstanceAs (Decidable (_ → ∀ j : Bool, j ≠ e.meter → _))

/-- A meter that closes its file and opens it again, and another one that begins a row:
a remark of the other one keeps what the files tell, and one of the first meter does not. -/
theorem dump_faithful_two :
    ∃ u, (machine Bool).run (machine Bool).init
        [⟨false, .open true, none⟩, ⟨false, .received [0x2f, 0x41], some ⟨5, 70000000⟩⟩,
          ⟨false, .close, some ⟨6, 0⟩⟩, ⟨false, .open true, none⟩, ⟨true, .open true, none⟩,
          ⟨true, .sent [0x06], none⟩] = some u ∧
      (decode (u.world.meter false).file =
        [.ctrl "opened".toList, .received 0x2f, .received 0x41, .ctrl "closed".toList,
          .ctrl "opened".toList]) ∧
      Faithful u ∧
      (∃ t, step u ⟨true, .remark .timeout, none⟩ = some t ∧ Faithful t) ∧
      ∃ t, step u ⟨false, .remark .timeout, none⟩ = some t ∧ ¬ Faithful t := by
  have hex : ∃ u, (machine Bool).run (machine Bool).init
      [⟨false, .open true, none⟩, ⟨false, .received [0x2f, 0x41], some ⟨5, 70000000⟩⟩,
        ⟨false, .close, some ⟨6, 0⟩⟩, ⟨false, .open true, none⟩, ⟨true, .open true, none⟩,
        ⟨true, .sent [0x06], none⟩] = some u ∧
      decode (u.world.meter false).file =
        [.ctrl "opened".toList, .received 0x2f, .received 0x41, .ctrl "closed".toList,
          .ctrl "opened".toList] ∧
      ((u.world.meter false).dumpFd = true ∧ (u.world.meter true).dumpFd = true) ∧
      ((u.world.meter false).dumpPos = 0 ∧ (u.world.meter true).dumpPos = 1) ∧
      (step u ⟨true, .remark .timeout, none⟩).isSome = true ∧
      (step u ⟨false, .remark .timeout, none⟩).isSome = true :=
    EventMachine.Machine.exists_run_of_any (by decide +kernel)
  obtain ⟨u, hrun, hfile, ⟨hopen, hopen'⟩, ⟨hblank, hbegun⟩, hsome, hsome'⟩ := hex
  obtain ⟨t, ht⟩ := Option.isSome_iff_exists.mp hsome
  obtain ⟨t', ht'⟩ := Option.isSome_iff_exists.mp hsome'
  obtain ⟨hfaithful, hremark⟩ := dump_faithful (by decide +kernel) hrun
  refine ⟨u, hrun, hfile, hfaithful, ⟨t, ht, ?_⟩, t', ht', fun hlost => ?_⟩
  · exact (hremark true .timeout none t hopen' ht).mpr (by simpa using hblank)
  · have hnone := (hremark false .timeout none t' hopen ht').mp hlost true (by decide)
    rw [hbegun] at hnone
    cases hnone

end VzLogger.MeterD0.Dump
