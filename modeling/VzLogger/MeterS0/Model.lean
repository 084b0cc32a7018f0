import VzLogger.Reading
import VzLogger.Lib.EventMachine

/-! # The S0 meter

`MeterS0::counter_thread` and `MeterS0::read` share two counters of impulses, one
for each direction.  Every access to a shared variable is one step of its thread;
what the hardware and the clock return is part of the event.  Sleeping, also while
an input is debounced, is no step: a thread may take any time between two steps.

The counters are 32 bits wide, `unsigned long` has `longBits`.  Times that the
program computes in `double` are exact rationals.
-/
namespace VzLogger

/-- `struct timespec`. -/
structure Timespec where
  tvSec : Int
  tvNsec : Int
  deriving DecidableEq, Repr

namespace Timespec

/-- The loop that normalizes `tv_nsec`, in closed form. -/
def normalize (a : Timespec) : Timespec :=
  if 1000000000 ≤ a.tvNsec then ⟨a.tvSec + a.tvNsec / 1000000000, a.tvNsec % 1000000000⟩ else a

/-- `timespec_sub`. -/
def sub (a b : Timespec) : Timespec :=
  if a.tvNsec - b.tvNsec < 0 then ⟨a.tvSec - b.tvSec - 1, a.tvNsec - b.tvNsec + 1000000000⟩
  else ⟨a.tvSec - b.tvSec, a.tvNsec - b.tvNsec⟩

/-- `timespec_add`. -/
def add (a b : Timespec) : Timespec := normalize ⟨a.tvSec + b.tvSec, a.tvNsec + b.tvNsec⟩

/-- The `unsigned long` with the same low bits. -/
def toULong (longBits : Nat) (z : Int) : Nat := (z % 2 ^ longBits).toNat

/-- `timespec_sub_ms`. -/
def subMs (longBits : Nat) (a b : Timespec) : Nat :=
  if a.tvNsec < b.tvNsec then
    toULong longBits ((a.tvSec - b.tvSec - 1) * 1000
      + (toULong longBits (1000000000 + a.tvNsec - b.tvNsec) / 1000000 : Nat))
  else
    toULong longBits ((a.tvSec - b.tvSec) * 1000
      + (toULong longBits (a.tvNsec - b.tvNsec) / 1000000 : Nat))

/-- `timespec_add_ms`. -/
def addMs (a : Timespec) (ms : Nat) : Timespec :=
  normalize ⟨a.tvSec + (ms / 1000 : Nat), a.tvNsec + (ms % 1000 * 1000000 : Nat)⟩

/-- `tv_sec + tv_nsec / 1e9`. -/
def seconds (a : Timespec) : Rat := a.tvSec + a.tvNsec / 1000000000

/-- `Reading::time(struct timespec const &)`. -/
def toTimeval (a : Timespec) : Timeval := ⟨a.tvSec, a.tvNsec.tdiv 1000⟩

end Timespec

/-- The options, and what kind of hardware interface there is. -/
structure MeterS0 where
  /-- `_hwif->is_blocking()` -/
  blocking : Bool
  /-- there is a second interface, for the direction -/
  hwifDir : Bool
  sendZero : Bool
  resolution : Int
  longBits : Nat

namespace MeterS0

/-- Where the counter thread is. -/
inductive CounterPc where
  /-- before the loop -/
  | start
  | loop
  /-- `waitForImpulse` has returned true -/
  | arrived
  /-- the time of the impulse is computed, and not stored yet -/
  | stamped (ms : Nat)
  /-- before it looks whether the input is set -/
  | check
  /-- an impulse; before the direction is read -/
  | dir (state : Option Int)
  | count (neg : Bool) (state : Option Int)
  | store (state : Int)
  deriving DecidableEq

/-- Where `read` is, with its local variables. -/
inductive ReadPc where
  | idle
  | loadImp
  | loadNeg (tImp : Nat)
  | test (tImp tImpNeg : Nat)
  | subImp (tImp tImpNeg : Nat)
  | subNeg (tImp tImpNeg : Nat)
  | clock (tImp tImpNeg : Nat)
  /-- blocking: no impulse moves the reference -/
  | addRef (tImp tImpNeg : Nat) (req : Timespec)
  | loadMs (tImp tImpNeg : Nat) (req : Timespec)
  /-- `check_ref_for_overflow` -/
  | checkMs (tImp tImpNeg : Nat) (req temp : Timespec)
  | shiftRef (tImp tImpNeg : Nat) (req temp : Timespec)
  | subMs (tImp tImpNeg : Nat) (req temp : Timespec)
  | report (tImp tImpNeg : Nat) (req : Timespec) (t1 t2 : Rat)
  deriving DecidableEq

/-- The meter and its two threads, and the books: the increments made, the states
sampled, and what every `read` returned. -/
structure Run where
  impulses : Nat
  impulsesNeg : Nat
  timeLastRead : Timespec
  timeLastRef : Timespec
  msLastImpulse : Nat
  timeLastImpulseReturned : Timespec
  firstImpulse : Bool
  lastState : Int
  counter : CounterPc
  reader : ReadPc
  incs : Nat
  incsNeg : Nat
  samples : List Int
  returned : List (List Reading)

inductive Event where
  /-- `_hwif->status()` returns -/
  | status (state : Int)
  /-- `waitForImpulse` returns true -/
  | impulse
  /-- the counter thread has read the clock, and reads the reference -/
  | stamp (now : Timespec)
  /-- `_hwif_dir->status()` returns -/
  | dirStatus (state : Int)
  /-- the next statement of the counter thread -/
  | counter
  /-- a call of `read` with room for `n` readings -/
  | read (n : Nat)
  /-- `read` reads the clock -/
  | clock (now : Timespec)
  /-- the next statement of `read` -/
  | reader

variable (m : MeterS0)

/-- After `open` at some time. -/
def initial (now : Timespec) : Run where
  impulses := 0
  impulsesNeg := 0
  timeLastRead := now
  timeLastRef := now
  msLastImpulse := 0
  timeLastImpulseReturned := now
  firstImpulse := true
  lastState := 0
  counter := .start
  reader := .idle
  incs := 0
  incsNeg := 0
  samples := []
  returned := []

/-- `HWIF_MMAP::status`, of the one interface that does not block: the level of a pin in
the word at `_gpio + 13`. -/
def hwifMmapStatus (gpiopin : Nat) (gpio : BitVec 32) : Int :=
  if 0 < gpio &&& (1#32 <<< gpiopin) then 1 else 0

/-- `++`, and `-=`, of an atomic `unsigned int`. -/
def inc32 (a : Nat) : Nat := (a + 1) % 2 ^ 32
def sub32 (a t : Nat) : Nat := (a + (2 ^ 32 - t)) % 2 ^ 32

/-! ## The counter thread -/

/-- An impulse: its direction is read if there is an interface for it. -/
def edge (state : Option Int) : CounterPc := if m.hwifDir then .dir state else .count false state

/-- `_hwif->status()` returns. -/
def statusStep (w : Run) (state : Int) : Option Run :=
  match w.counter with
  | .start =>
    some { w with
      lastState := if 0 ≤ state then state else 0
      samples := w.samples ++ [state]
      counter := .loop }
  | .loop =>
    if m.blocking then none
    else
      some { w with
        samples := w.samples ++ [state]
        counter :=
          if 0 ≤ state ∧ state ≠ w.lastState then
            if w.lastState = 0 then m.edge (some state) else .store state
          else .loop }
  | .check => some { w with counter := if state ≠ 0 then m.edge none else .loop }
  | _ => none

/-- Where the counter thread goes after an increment. -/
def CounterPc.next : Option Int → CounterPc
  | some state => .store state
  | none => .loop

/-- The statements of the counter thread that read nothing. -/
def counterStep (w : Run) : Option Run :=
  match w.counter with
  | .stamped ms => some { w with msLastImpulse := ms, counter := .check }
  | .count true state =>
    some { w with
      impulsesNeg := inc32 w.impulsesNeg, incsNeg := w.incsNeg + 1, counter := .next state }
  | .count false state =>
    some { w with impulses := inc32 w.impulses, incs := w.incs + 1, counter := .next state }
  | .store state => some { w with lastState := state, counter := .loop }
  | _ => none

/-! ## `read` -/

def impulse : List Char := "Impulse".toList
def impulseNeg : List Char := "Impulse_neg".toList
def power : List Char := "Power".toList
def powerNeg : List Char := "Power_neg".toList

/-- A reading with a `StringIdentifier`. -/
def reading (name : List Char) (req : Timespec) (value : Rat) : Reading :=
  ⟨false, value, req.toTimeval, .string name⟩

/-- The readings of one direction: no power with the first impulse. -/
def readings (first : Bool) (name powerName : List Char) (tImp : Nat) (req : Timespec)
    (t1 t2 : Rat) : List Reading :=
  if m.sendZero = true ∨ 0 < tImp then
    (if first then []
      else [reading powerName req (3600000 / ((t2 - t1) * m.resolution) * tImp)])
    ++ [reading name req tImp]
  else []

/-- What `read` returns. -/
def rds (first : Bool) (tImp tImpNeg : Nat) (req : Timespec) (t1 t2 : Rat) : List Reading :=
  m.readings first impulse power tImp req t1 t2
    ++ m.readings first impulseNeg powerNeg tImpNeg req t1 t2

/-- The end of the time computation: equal times are held apart. -/
def reportAt (tImp tImpNeg : Nat) (req : Timespec) (t1 t2 : Rat) : ReadPc :=
  .report tImp tImpNeg req t1 (if t2 = t1 then t2 + 1 / 1000000 else t2)

/-- Blocking: the times of the last impulse before this call and of the last one in
it. -/
def finish (w : Run) (tImp tImpNeg : Nat) (req temp : Timespec) : Run :=
  { w with
    timeLastImpulseReturned := temp
    timeLastRead := req
    reader := reportAt tImp tImpNeg temp w.timeLastImpulseReturned.seconds temp.seconds }

/-- `clock_gettime` in `read`. -/
def clockStep (w : Run) (now : Timespec) : Option Run :=
  match w.reader with
  | .clock tImp tImpNeg =>
    if m.blocking then some { w with reader := .addRef tImp tImpNeg now }
    else
      some { w with
        timeLastRead := now
        reader := reportAt tImp tImpNeg now w.timeLastRead.seconds now.seconds }
  | _ => none

/-- The statements of `read`. -/
def readerStep (w : Run) : Option Run :=
  match w.reader with
  | .loadImp => some { w with reader := .loadNeg w.impulses }
  | .loadNeg tImp => some { w with reader := .test tImp w.impulsesNeg }
  | .test tImp tImpNeg =>
    some { w with
      reader :=
        if 0 < tImp ∨ 0 < tImpNeg then .subImp tImp tImpNeg
        else if m.sendZero then .clock tImp tImpNeg
        else .loadImp }
  | .subImp tImp tImpNeg =>
    some { w with impulses := sub32 w.impulses tImp, reader := .subNeg tImp tImpNeg }
  | .subNeg tImp tImpNeg =>
    some { w with impulsesNeg := sub32 w.impulsesNeg tImpNeg, reader := .clock tImp tImpNeg }
  | .addRef tImp tImpNeg req =>
    some { w with
      timeLastRef :=
        if tImp = 0 ∧ tImpNeg = 0 then w.timeLastRef.add (req.sub w.timeLastRead)
        else w.timeLastRef
      reader := .loadMs tImp tImpNeg req }
  | .loadMs tImp tImpNeg req =>
    some { w with reader := .checkMs tImp tImpNeg req (w.timeLastRef.addMs w.msLastImpulse) }
  | .checkMs tImp tImpNeg req temp =>
    if 2 ^ 30 < w.msLastImpulse then some { w with reader := .shiftRef tImp tImpNeg req temp }
    else some (finish w tImp tImpNeg req temp)
  | .shiftRef tImp tImpNeg req temp =>
    some { w with
      timeLastRef := w.timeLastRef.addMs (2 ^ 30)
      reader := .subMs tImp tImpNeg req temp }
  | .subMs tImp tImpNeg req temp =>
    some (finish { w with
      msLastImpulse := Timespec.toULong m.longBits (w.msLastImpulse - 2 ^ 30) }
      tImp tImpNeg req temp)
  | .report tImp tImpNeg req t1 t2 =>
    let rds := m.rds w.firstImpulse tImp tImpNeg req t1 t2
    some { w with
      firstImpulse := w.firstImpulse && rds.isEmpty
      returned := w.returned ++ [rds]
      reader := .idle }
  | .idle | .clock _ _ => none

def step (w : Run) : Event → Option Run
  | .status state => m.statusStep w state
  | .impulse =>
    if w.counter = .loop ∧ m.blocking = true then some { w with counter := .arrived } else none
  | .stamp now =>
    if w.counter = .arrived then
      some { w with counter := .stamped (Timespec.subMs m.longBits now w.timeLastRef) }
    else none
  | .dirStatus state =>
    match w.counter with
    | .dir next => some { w with counter := .count (0 < state) next }
    | _ => none
  | .counter => counterStep w
  | .read n =>
    match w.reader with
    | .idle =>
      if n < 4 then some { w with returned := w.returned ++ [[]] }
      else some { w with reader := .loadImp }
    | _ => none
  | .clock now => m.clockStep w now
  | .reader => m.readerStep w

/-- The meter as a machine. -/
def machine (now : Timespec) : EventMachine.Machine Run Event := ⟨initial now, m.step⟩

end MeterS0
end VzLogger
