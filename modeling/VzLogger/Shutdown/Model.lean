import VzLogger.WakeUp

/-! # Stopping a meter

`MeterMap::cancel` cancels the logging thread of each channel, one after the other, and
joins it, then does the same with the reading thread, and closes the meter.

A logging thread may be cancelled in `pthread_cond_wait`.  The wait takes the mutex of
the buffer again before the thread ends, and nothing gives it up afterwards.  The reading
thread allows its cancellation at a few points only, and does not give up a mutex it
waits for: if it still has to lock the buffer of such a channel, it never ends.

Each channel is a `WakeUp` of its own, with the reading thread inside it where it pushes
to the channel or sends its data.  The verbosity is one at which no thread prints: a thread
that is cancelled inside `print` leaves the mutex of the log locked, too.
-/
namespace VzLogger

namespace Shutdown

/-- The reading thread. -/
inductive ReaderAt where
  /-- at `_safe_to_cancel` in `reading_thread` -/
  | top
  /-- at `_safe_to_cancel` in the aggregate loop of `MeterMap::read` -/
  | loop
  /-- in `_cancellable_sleep` -/
  | sleep
  /-- in `mtr->read` -/
  | query
  /-- in the loop over the channels and readings -/
  | deliver
  /-- in `push` of channel `k` -/
  | push (k : Nat)
  /-- in `sendData`, at channel `k` -/
  | send (k : Nat)
  | ended
  deriving DecidableEq

/-- The main thread, before the statement that the name says. -/
inductive MainPc where
  /-- in the main loop -/
  | running
  | cancelChannel (k : Nat)
  | joinChannel (k : Nat)
  | cancelReader
  | joinReader
  | close
  | finished
  deriving DecidableEq

/-- A meter: its channels, the options of the loop, and its protocol, whose `read` may
throw, or pass a `_safe_to_cancel` of its own. -/
structure Setup where
  channels : Nat
  interval : Bool
  aggtime : Bool
  readThrows : Bool
  readSafe : Bool

/-- What a logging thread does, besides its death. -/
inductive LoggerEvent where
  | drain
  | sent
  | wake
  | step

/-- What the reading thread does. -/
inductive ReaderEvent where
  /-- past a safe point -/
  | go
  /-- `mtr->read` returns -/
  | readings
  | throws
  /-- a reading of channel `k` -/
  | push (k : Nat)
  /-- another round of the aggregate loop -/
  | again
  /-- to `sendData` -/
  | publish
  /-- a pass of `aggregate` -/
  | aggregate
  /-- a statement of `push` or of `sendData` for one channel -/
  | statement
  /-- done with the channel -/
  | next
  /-- the cancellation takes effect -/
  | dies

inductive Event where
  /-- the signal to quit -/
  | quit
  | main
  | reader (e : ReaderEvent)
  | logger (k : Nat) (e : LoggerEvent)
  /-- the cancellation of a logging thread takes effect -/
  | loggerDies (k : Nat)

def LoggerEvent.inner : LoggerEvent → WakeUpEvent
  | .drain => .drain
  | .sent => .sent
  | .wake => .wake
  | .step => .step .logging

end Shutdown

open Shutdown

/-- The threads of a meter.  `dead` and `cancelled` are about the logging threads. -/
structure Shutdown where
  reader : ReaderAt
  firstReading : Bool
  chan : Nat → WakeUp
  dead : Nat → Bool
  cancelled : Nat → Bool
  readerCancelled : Bool
  main : MainPc

namespace Shutdown
variable (c : Setup)

def initial : Shutdown :=
  ⟨.top, true, fun _ => .initial, fun _ => false, fun _ => false, false, .running⟩

/-- The loop over the channels in `cancel`, from channel `k` on. -/
def cancelFrom (k : Nat) : MainPc := if k < c.channels then .cancelChannel k else .cancelReader

def mainStep (s : Shutdown) : Option Shutdown :=
  match s.main with
  | .cancelChannel k =>
    some { s with cancelled := Function.update s.cancelled k true, main := .joinChannel k }
  | .joinChannel k => if s.dead k then some { s with main := cancelFrom c (k + 1) } else none
  | .cancelReader => some { s with readerCancelled := true, main := .joinReader }
  | .joinReader => if s.reader = .ended then some { s with main := .close } else none
  | .close => some { s with main := .finished }
  | .running | .finished => none

/-- One channel makes a step, `MeterMap` going elsewhere in the meantime. -/
def within (s : Shutdown) (k : Nat) (e : WakeUpEvent) (reader : ReaderAt) : Option Shutdown :=
  (WakeUp.step (s.chan k) e).map fun w => { s with chan := Function.update s.chan k w, reader }

/-- The loop over the channels in `sendData`, from channel `k` on. -/
def sendFrom (s : Shutdown) (k : Nat) : Option Shutdown :=
  if k < c.channels then s.within k .sendData (.send k) else some { s with reader := .top }

/-- Where a cancellation of the reading thread takes effect. -/
def safePoint : ReaderAt → Bool
  | .top | .loop | .sleep => true
  | .query => c.readSafe
  | _ => false

def readerStep (s : Shutdown) : ReaderEvent → Option Shutdown
  | .go =>
    if s.readerCancelled then none
    else match s.reader with
      | .top => some { s with reader := .loop }
      | .loop =>
        some { s with reader := if c.interval && !s.firstReading then .sleep else .query,
                      firstReading := false }
      | .sleep => some { s with reader := .query }
      | _ => none
  | .readings => if s.reader = .query then some { s with reader := .deliver } else none
  | .throws =>
    if s.reader = .query ∧ c.readThrows = true then some { s with reader := .ended } else none
  | .push k =>
    if s.reader = .deliver ∧ k < c.channels then s.within k .push (.push k) else none
  | .again =>
    if s.reader = .deliver ∧ c.aggtime = true then some { s with reader := .loop } else none
  | .publish => if s.reader = .deliver then sendFrom c s 0 else none
  | .aggregate =>
    match s.reader with
    | .send k => s.within k .aggregate (.send k)
    | _ => none
  | .statement =>
    match s.reader with
    | .push k => s.within k (.step .reading) (.push k)
    | .send k => s.within k (.step .reading) (.send k)
    | _ => none
  | .next =>
    match s.reader with
    | .push k => if (s.chan k).reader = .read then some { s with reader := .deliver } else none
    | .send k => if (s.chan k).reader = .read then sendFrom c s (k + 1) else none
    | _ => none
  | .dies =>
    if s.readerCancelled ∧ safePoint c s.reader then some { s with reader := .ended } else none

/-- Where the cancellation of a logging thread takes effect: in the condition wait, where
it takes the mutex again first, and in the network functions of a `send`. -/
def loggerDies (w : WakeUp) : Option WakeUp :=
  match w.logger with
  | .waits => w.loggerStep
  | .sending => some w
  | _ => none

def step (s : Shutdown) : Event → Option Shutdown
  | .quit => if s.main = .running then some { s with main := cancelFrom c 0 } else none
  | .main => mainStep c s
  | .reader e => readerStep c s e
  | .logger k e =>
    if k < c.channels ∧ s.dead k = false then s.within k e.inner s.reader else none
  | .loggerDies k =>
    if k < c.channels ∧ s.dead k = false ∧ s.cancelled k = true then
      (loggerDies (s.chan k)).map fun w =>
        { s with chan := Function.update s.chan k w, dead := Function.update s.dead k true }
    else none

def machine : EventMachine.Machine Shutdown Event := ⟨initial, step c⟩

/-! ## The deadlock -/

/-- The logging thread of channel `k` ended with the mutex of the buffer. -/
def Orphan (s : Shutdown) (k : Nat) : Prop :=
  k < c.channels ∧ s.dead k = true ∧ (s.chan k).monitor.mutex.owner = some .logging

/-- The reading thread cannot end before it locks the buffer of channel `k` again. -/
def MustLock (s : Shutdown) (k : Nat) : Prop :=
  match s.reader with
  | .top | .loop | .sleep | .ended => False
  | .query => c.aggtime = false ∧ c.readThrows = false ∧ c.readSafe = false
  | .deliver => c.aggtime = false
  | .push j => j = k ∧ (s.chan k).reader ≠ .read ∨ c.aggtime = false
  | .send j => j < k ∨ j = k ∧ (s.chan k).reader ≠ .read

/-- The reading thread will wait for a mutex that nobody gives up. -/
def Doomed (s : Shutdown) : Prop := ∃ k, Orphan c s k ∧ MustLock c s k

/-- `cancel` can still return. -/
def CanFinish (s : Shutdown) : Prop :=
  ∃ es u, (machine c).run s es = some u ∧ u.main = .finished

end Shutdown
end VzLogger
