import VzLogger.Obis
import VzLogger.Lib.EventMachine
import VzLogger.Lib.Slots
import VzLogger.Lib.Strtod

/-! # The OMS meter

`MeterOMS::read` receives telegrams until the master is silent, and walks over the
data records of each.  Four kinds of record make a reading.  A record with the time of
the telegram is compared with the time of the telegram before: meters repeat what they
have sent.

The receipt and decryption of a telegram are left out: an event is a telegram that was
decrypted, with the records that libmbus finds in it, or a new call of `read`.  Beside
the program's state a `World` keeps the time of the last telegram that was not a
duplicate.
-/
namespace VzLogger

open CString (Double)

/-- `mbus_data_record`, as far as `read` uses it. -/
structure MbusRecord where
  dif : UInt8
  vif : UInt8
  nvife : UInt8
  /-- the first of the extensions -/
  vife1 : UInt8
  /-- `get_record_value` -/
  value : Double
  deriving DecidableEq

namespace MeterOMS

/-- A reading of the caller's vector; without a `time` it is of the present. -/
structure Slot where
  identifier : Obis
  value : Double
  time : Option Double
  deriving DecidableEq

/-- The identifiers "1.8.0", "2.8.0", "1.7.0" and "2.7.0". -/
def energyIn : Obis := ⟨255, 255, 1, 8, 0, 255⟩
def energyOut : Obis := ⟨255, 255, 2, 8, 0, 255⟩
def powerIn : Obis := ⟨255, 255, 1, 7, 0, 255⟩
def powerOut : Obis := ⟨255, 255, 2, 7, 0, 255⟩

example : [energyIn, energyOut, powerIn, powerOut].map some =
    ["1.8.0", "2.8.0", "1.7.0", "2.7.0"].map fun text => Obis.ofText text.toList := by decide

/-- The identifier of the reading that a record makes. -/
def identifierOf (record : MbusRecord) : Option Obis :=
  if record.vif = 0x03 then if record.dif = 0x04 then some energyIn else none
  else if record.vif = 0x83 then
    if record.dif = 0x04 ∧ record.nvife = 1 ∧ record.vife1 = 0x3c then some energyOut else none
  else if record.vif = 0x2b then if record.dif = 0x04 then some powerIn else none
  else if record.vif = 0xab then
    if record.dif = 0x04 ∧ record.nvife = 1 ∧ record.vife1 = 0x3c then some powerOut else none
  else none

/-- `timeFromMeter > 1.0`. -/
def validTime (timeFromMeter : Double) : Bool := Double.lt (.finite 1) timeFromMeter

/-- The variables of the walk over the records. -/
structure State (n : Nat) where
  useLocalTime : Bool
  lastTimestamp : Double
  timeFromMeter : Double
  ignoreTelegram : Bool
  rds : Vector Slot n
  ret : Nat
  ret_le : ret ≤ n

/-- A record with the time. -/
def State.onTime {n : Nat} (s : State n) (timeFromMeter : Double) : State n :=
  if validTime timeFromMeter ∧ timeFromMeter = s.lastTimestamp then
    { s with timeFromMeter, ignoreTelegram := true }
  else if validTime timeFromMeter then { s with timeFromMeter, lastTimestamp := timeFromMeter }
  else { s with timeFromMeter }

/-- A record that makes a reading, if there is room. -/
def State.addReading {n : Nat} (s : State n) (identifier : Obis) (value : Double) : State n :=
  if h : s.ret < n then
    let time := if validTime s.timeFromMeter ∧ s.useLocalTime = false then some s.timeFromMeter
      else none
    { s with rds := s.rds.set s.ret ⟨identifier, value, time⟩, ret := s.ret + 1, ret_le := h }
  else s

/-- The switch. -/
def State.onRecord {n : Nat} (s : State n) (record : MbusRecord) : State n :=
  if record.vif = 0x6d then s.onTime record.value
  else
    match identifierOf record with
    | some identifier => s.addReading identifier record.value
    | none => s

/-- The loop over the records. -/
def State.onRecords {n : Nat} (s : State n) : List MbusRecord → State n
  | [] => s
  | record :: records => if s.ignoreTelegram then s else (s.onRecord record).onRecords records

/-- A telegram. -/
def State.onTelegram {n : Nat} (s : State n) (records : List MbusRecord) : State n :=
  { s with timeFromMeter := .finite 0, ignoreTelegram := false }.onRecords records

/-- The readings that a state counts, as identifier and value. -/
def State.readings {n : Nat} (s : State n) : List (Obis × Double) :=
  (Slots.filled s.rds s.ret).map fun rd => (rd.identifier, rd.value)

/-- The meter in a call of `read`. -/
structure World where
  n : Nat
  state : State n
  /-- the time of the last telegram accepted -/
  accepted : Double

inductive Event where
  /-- a new call, with the caller's vector -/
  | read (n : Nat) (rds : Vector Slot n)
  | telegram (records : List MbusRecord)

/-- The time of a telegram: that of the first record with a valid one. -/
def timeOf (records : List MbusRecord) : Option Double :=
  ((records.filter fun record => record.vif = 0x6d).map MbusRecord.value).find? validTime

namespace World

def initial (useLocalTime : Bool) : World where
  n := 0
  state := ⟨useLocalTime, .finite 0, .finite 0, false, #v[], 0, Nat.le_refl 0⟩
  accepted := .finite 0

def step (w : World) : Event → Option World
  | .read n rds =>
    some { w with n, state := { w.state with rds, ret := 0, ret_le := Nat.zero_le n } }
  | .telegram records =>
    some { w with
      state := w.state.onTelegram records
      accepted := (timeOf records).getD w.accepted }

/-- The meter as a machine. -/
def machine (useLocalTime : Bool) : EventMachine.Machine World Event :=
  ⟨initial useLocalTime, step⟩

end World

/-! ## What a telegram contributes -/

/-- The reading that a record makes. -/
def readingOf (record : MbusRecord) : Option (Obis × Double) :=
  (identifierOf record).map fun identifier => (identifier, record.value)

/-- The records in front of the first valid time that repeats the one before it. -/
def heard (last : Double) : List MbusRecord → List MbusRecord
  | [] => []
  | record :: records =>
    if record.vif = 0x6d ∧ validTime record.value then
      if record.value = last then [] else record :: heard record.value records
    else record :: heard last records

/-- What is left of a telegram behind them. -/
def unheard (last : Double) (records : List MbusRecord) : List MbusRecord :=
  records.drop (heard last records).length

/-- In a duplicate, no record that makes a reading stands in front of the time that
repeats the last one; in a newer telegram, none stands behind a time that does.  Only
readings that there is room for matter. -/
structure InPlace (w : World) (records : List MbusRecord) : Prop where
  duplicate : timeOf records = some w.accepted → w.state.ret = w.n ∨
    (heard w.state.lastTimestamp records).filterMap readingOf = []
  newer : ∀ time, timeOf records = some time → Double.lt w.accepted time = true →
    w.n - w.state.ret ≤ ((heard w.state.lastTimestamp records).filterMap readingOf).length ∨
      (unheard w.state.lastTimestamp records).filterMap readingOf = []

/-- The condition on a step. -/
def Ordered (w : World) : Event → Prop
  | .telegram records => InPlace w records
  | .read _ _ => True

/-! ## The walk over the records -/

section
variable {n : Nat} (s : State n)

end

end MeterOMS
end VzLogger
