import VzLogger.Obis
import VzLogger.Lib.CBuffer
import VzLogger.Lib.Strtod

/-! # The D0 meter

`MeterD0::read` decodes a telegram byte by byte, with a state machine over local
character arrays.  A store outside an array is a `fault` here, and every other way
out of the loop is an `Exit` of its own.  The arrays that the program leaves
uninitialised start with arbitrary contents.

The settings of the serial line, the pull sequence and the dump file are left
out: the decoder does not read them.
-/
namespace VzLogger

open CString (Double)

/-- The members that `read` uses. -/
structure MeterD0 where
  ack : List Char
  autoAck : Bool
  waitSyncEnd : Bool
  reactionTimeMs : Nat

namespace MeterD0

/-- `D0_BUFFER_LENGTH`. -/
def d0BufferLength : Nat := 1024

/-- `context`. -/
inductive Context where
  | start
  | vendor
  | baudrate
  | identification
  | ack
  | startLine
  | obisCode
  | value
  | unit
  | endLine
  /-- `END` -/
  | end_
  deriving DecidableEq

/-- A reading of the caller's vector, as far as `read` writes it; the time is left out. -/
structure Slot where
  identifier : Option Obis
  value : Double
  deriving DecidableEq

/-- The locals and the members.  `sent` collects the acknowledgements written to
the meter. -/
structure State where
  context : Context
  vendor : Vector Char 4
  identification : Vector Char 17
  obisCode : Vector Char 17
  value : Vector Char 33
  unit : Vector Char 17
  endseq : Vector Char 3
  baudrate : Char
  byteIterator : Nat
  numberOfTuples : Nat
  errorFlag : Bool
  rds : List Slot
  meter : MeterD0
  sent : List (List Char)

/-- How `read` ends. -/
inductive Exit where
  /-- a complete package -/
  | package
  /-- nothing received for too long -/
  | timedOut
  | readError
  | vendorNotAlpha
  /-- "logical error in state machine" in `END_LINE` -/
  | endLineError
  /-- the error flag set in `END` -/
  | endError
  deriving DecidableEq

/-- Why there is no next state. -/
inductive Stop where
  /-- a store outside an array -/
  | fault
  | exit (e : Exit) (s : State)

/-- The next state, or the end. -/
abbrev Next := Except Stop State

/-- `buf[i] = c` for a local array. -/
def put {n : Nat} (buf : Vector Char n) (i : Nat) (c : Char) : Except Stop (Vector Char n) :=
  match CBuffer.store buf i c with
  | none => .error .fault
  | some buf => .ok buf

/-- The test before the switch: a slash at the start of a field is the start of a
telegram, `?` and `!` are its end. -/
def redirect (s : State) (byte : Char) : State :=
  if byte = '/' ∧ s.byteIterator = 0 then { s with context := .vendor }
  else if byte = '?' ∨ byte = '!' then
    if s.context ≠ .end_ then { s with context := .end_, byteIterator := 0 } else s
  else s

/-- `START`. -/
def onStart (s : State) (byte : Char) : Next :=
  if byte = '/' then
    .ok { s with byteIterator := 0, numberOfTuples := 0, context := .vendor }
  else .ok s

/-- `VENDOR`. -/
def onVendor (s : State) (byte : Char) : Next :=
  if byte = '\r' ∨ byte = '\n' ∨ byte = '/' then
    .ok { s with byteIterator := 0, numberOfTuples := 0 }
  else if !byte.isAlpha then .error (.exit .vendorNotAlpha s)
  else do
    let vendor ← put s.vendor s.byteIterator byte
    let byteIterator := s.byteIterator + 1
    if 3 ≤ byteIterator then
      let reactionTimeMs := if vendor[2].isLower then 20 else 200
      let vendor ← put vendor byteIterator '\x00'
      return { s with vendor, byteIterator := 0, context := .baudrate,
                      meter := { s.meter with reactionTimeMs } }
    else return { s with vendor, byteIterator }

/-- `BAUDRATE`. -/
def onBaudrate (s : State) (byte : Char) : Next :=
  .ok { s with baudrate := byte, byteIterator := 0, context := .identification }

/-- `isprint` in the C locale. -/
def isPrint (c : Char) : Bool := 0x20 ≤ c.toNat && c.toNat ≤ 0x7e

/-- `IDENTIFICATION`. -/
def onIdentification (s : State) (byte : Char) : Next :=
  if byte = '\r' ∨ byte = '\n' then do
    let identification ← put s.identification s.byteIterator '\x00'
    return { s with identification, byteIterator := 0, context := .ack }
  else if !isPrint byte then .ok s
  else if s.byteIterator < 16 then do
    let identification ← put s.identification s.byteIterator byte
    return { s with identification, byteIterator := s.byteIterator + 1 }
  else .ok s

/-- The acknowledgement for a baudrate character. -/
def ackSequence (baudrate : Char) : List Char :=
  let ack := ['\x06', '0', '0', '0', '\r', '\n']
  if baudrate ∈ ['1', '2', '3', '4', '5', '6'] then ack.set 2 baudrate else ack

/-- `ACK`: the byte itself is ignored. -/
def onAck (s : State) : Next :=
  if s.meter.autoAck = true ∨ s.meter.ack ≠ [] then
    let ack := if s.meter.ack = [] then ackSequence s.baudrate else s.meter.ack
    .ok { s with meter := { s.meter with ack }, sent := s.sent ++ [ack], context := .obisCode }
  else .ok { s with context := .obisCode }

/-- `OBIS_CODE`. -/
def onObisCode (s : State) (byte : Char) : Next :=
  if byte ≠ '\n' ∧ byte ≠ '\r' ∧ byte ≠ '\x02' then
    if byte = '(' then do
      let obisCode ← put s.obisCode s.byteIterator '\x00'
      return { s with obisCode, byteIterator := 0, context := .value }
    else if s.byteIterator < 16 then do
      let obisCode ← put s.obisCode s.byteIterator byte
      return { s with obisCode, byteIterator := s.byteIterator + 1 }
    else .ok s
  else .ok s

/-- `VALUE`. -/
def onValue (s : State) (byte : Char) : Next :=
  if byte = '*' ∨ byte = ')' then do
    let value ← put s.value s.byteIterator '\x00'
    if byte = ')' then
      let unit ← put s.unit 0 '\x00'
      return { s with value, byteIterator := 0, unit, context := .endLine }
    else return { s with value, byteIterator := 0, context := .unit }
  else if s.byteIterator < 32 then do
    let value ← put s.value s.byteIterator byte
    return { s with value, byteIterator := s.byteIterator + 1 }
  else .ok s

/-- `UNIT`. -/
def onUnit (s : State) (byte : Char) : Next :=
  if byte = ')' then do
    let unit ← put s.unit s.byteIterator '\x00'
    return { s with unit, byteIterator := 0, context := .endLine }
  else if s.byteIterator < 16 then do
    let unit ← put s.unit s.byteIterator byte
    return { s with unit, byteIterator := s.byteIterator + 1 }
  else .ok s

/-- `END`. -/
def onEnd (s : State) (byte : Char) : Next :=
  if byte = '!' then
    if s.byteIterator = 0 then .error (.exit .package s)
    else if s.endseq[0] = '?' then .ok { s with context := .vendor, byteIterator := 0 }
    else .error (.exit .endError { s with errorFlag := true })
  else if byte = '?' then
    if s.byteIterator = 0 then do
      let endseq ← put s.endseq s.byteIterator byte
      return { s with endseq, byteIterator := s.byteIterator + 1 }
    else .ok s
  else if byte = '\x02' then .ok { s with context := .obisCode, byteIterator := 0 }
  else if byte = '/' then .ok { s with context := .vendor, byteIterator := 0 }
  else if 0 < s.byteIterator then .ok { s with byteIterator := 0 }
  else .ok s

/-- The switch. -/
def onContext (s : State) (byte : Char) : Next :=
  match s.context with
  | .start => onStart s byte
  | .vendor => onVendor s byte
  | .baudrate => onBaudrate s byte
  | .identification => onIdentification s byte
  | .ack => onAck s
  | .startLine => .ok s
  | .obisCode => onObisCode s byte
  | .value => onValue s byte
  | .unit => onUnit s byte
  | .endLine => .error (.exit .endLineError s)
  | .end_ => onEnd s byte

/-- The first characters that an OBIS code may have. -/
def saneFirst (c : Char) : Bool := c.isDigit || c = 'C' || c = 'F'

/-- `rds[i] = …`. -/
def putSlot (rds : List Slot) (i : Nat) (slot : Slot) : Except Stop (List Slot) :=
  if i < rds.length then .ok (rds.set i slot) else .error .fault

/-- The end of a data line.  The value is stored before the code is parsed. -/
def addReading (maxReadings : Nat) (s : State) : Next :=
  let obisCode := CBuffer.text s.obisCode
  let value := CBuffer.text s.value
  let done : State := { s with byteIterator := 0, context := .obisCode }
  if s.numberOfTuples < maxReadings ∧ 0 < obisCode.length ∧ 0 < value.length ∧
      obisCode.head?.any saneFirst then do
    let slot := s.rds.getD s.numberOfTuples ⟨none, .finite 0⟩
    let rds ← putSlot s.rds s.numberOfTuples { slot with value := CString.strtod value }
    match Obis.ofText obisCode with
    | some obis =>
      let rds ← putSlot rds s.numberOfTuples ⟨some obis, CString.strtod value⟩
      return { done with rds, numberOfTuples := s.numberOfTuples + 1 }
    | none => return { done with rds }
  else .ok done

/-- After the switch: the closing bracket of a data line adds the reading. -/
def afterContext (maxReadings : Nat) (s : State) : Next :=
  if s.context = .endLine then addReading maxReadings s else .ok s

/-- One byte. -/
def onByte (maxReadings : Nat) (s : State) (byte : Char) : Next := do
  let s ← onContext (redirect s byte) byte
  afterContext maxReadings s

/-- What happens in one turn of the loop. -/
inductive Event where
  /-- the time check finds that nothing came for too long -/
  | timeout
  /-- `read` returns 0 -/
  | zero
  /-- `read` returns -1 with `EAGAIN` -/
  | again
  /-- `read` returns -1 with another error -/
  | failed
  | byte (b : Char)

/-- One turn of the loop. -/
def onEvent (maxReadings : Nat) (s : State) : Event → Next
  | .timeout => .error (.exit .timedOut s)
  | .zero => .ok s
  | .again => .ok s
  | .failed => .error (.exit .readError s)
  | .byte b => onByte maxReadings s b

/-- The loop. -/
def loop (maxReadings : Nat) (s : State) (events : List Event) : Next :=
  events.foldlM (onEvent maxReadings) s

/-- The search for the end of a telegram before the loop, which has no time check
and takes an error for the byte it read before: `_wait_sync_end` afterwards, and
what is left to read. -/
def syncEnd (skipped : Nat) (byte : Char) : List Event → Bool × List Event
  | [] => (true, [])
  | .timeout :: events => syncEnd skipped byte events
  | .zero :: events => (true, events)
  | .byte b :: events =>
    if b = '!' then (false, events)
    else if d0BufferLength < skipped + 1 then (false, events)
    else syncEnd (skipped + 1) b events
  | _ :: events =>
    if byte = '!' then (false, events)
    else if d0BufferLength < skipped + 1 then (false, events)
    else syncEnd (skipped + 1) byte events

/-- What the arrays without an initializer hold. -/
structure Stack where
  obisCode : Vector Char 17
  value : Vector Char 33
  unit : Vector Char 17
  endseq : Vector Char 3

/-- No array has a NUL. -/
def Stack.filled : Stack where
  obisCode := Vector.replicate 17 '#'
  value := Vector.replicate 33 '#'
  unit := Vector.replicate 17 '#'
  endseq := Vector.replicate 3 '#'

/-- The state before the loop. -/
def initial (meter : MeterD0) (stack : Stack) (rds : List Slot) : State where
  context := .start
  vendor := Vector.replicate 4 '\x00'
  identification := Vector.replicate 17 '\x00'
  obisCode := stack.obisCode
  value := stack.value
  unit := stack.unit
  endseq := stack.endseq
  baudrate := '\x00'
  byteIterator := 0
  numberOfTuples := 0
  errorFlag := false
  rds := rds
  meter := meter
  sent := []

/-- `MeterD0::read`.  Without an `Exit` it is still reading. -/
def read (meter : MeterD0) (stack : Stack) (rds : List Slot) (maxReadings : Nat)
    (events : List Event) : Next :=
  let (waitSyncEnd, events) :=
    if meter.waitSyncEnd then syncEnd 0 '\x00' events else (false, events)
  loop maxReadings (initial { meter with waitSyncEnd } stack rds) events

/-- The readings a state counts. -/
def State.readings (s : State) : List Slot := s.rds.take s.numberOfTuples

end MeterD0
end VzLogger
