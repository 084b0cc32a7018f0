import VzLogger.Lib.EventMachine
import VzLogger.Lib.Sync

/-! # Waking the logging thread

The reading thread of a meter pushes readings into the buffer of a channel, sets
`_newValues` in `MeterMap::sendData`, without the lock, and notifies the channel.
The logging thread waits in `Channel::wait` for the flag, clears it, and sends.

Each statement is one step.  Where a thread does something else under the lock of
the buffer (the passes of `aggregate` and `clean`, the drain of `send`), the step
only takes the mutex and gives it up.  A reading is its number in the order of the
pushes.
-/
namespace VzLogger

/-- The threads of a channel. -/
inductive ChannelThread where
  | reading
  | logging
  deriving DecidableEq

namespace WakeUp

/-- The reading thread, before the statement that the name says. -/
inductive ReaderPc where
  /-- in `MeterMap::read` -/
  | read
  | pushLock
  | pushBack
  | pushUnlock
  | aggregateLock
  | aggregateUnlock
  /-- in `MeterMap::sendData` -/
  | haveNewValues
  | cleanLock
  | cleanUnlock
  | notifyLock
  | notifyBroadcast
  | notifyUnlock
  deriving DecidableEq

/-- The logging thread. -/
inductive LoggerPc where
  | waitLock
  | waitTest
  | waitBlock
  /-- in `pthread_cond_wait` -/
  | waits
  | waitClear
  | waitUnlock
  | send
  /-- in `Channel::sendData` -/
  | sending
  | drainLock
  | drainUnlock
  deriving DecidableEq

end WakeUp

open WakeUp

/-- The channel, its threads, and the books: how many readings are pushed, how
many were pushed when `_newValues` was last set, when the last notification
finished, and when the last `send` started. -/
structure WakeUp where
  monitor : Sync.Monitor ChannelThread
  newValues : Bool
  reader : ReaderPc
  logger : LoggerPc
  pushed : Nat
  flagged : Nat
  notified : Nat
  started : Nat

/-- What the threads do. -/
inductive WakeUpEvent where
  /-- the reading thread pushes another reading -/
  | push
  /-- the reading thread goes over to `sendData` -/
  | sendData
  /-- a pass of `aggregate` -/
  | aggregate
  /-- `send` drains the buffer -/
  | drain
  /-- `send` returns, or throws -/
  | sent
  /-- a spurious wake-up -/
  | wake
  | step (t : ChannelThread)

namespace WakeUp

def initial : WakeUp := ⟨.initial, false, .read, .waitLock, 0, 0, 0, 0⟩

/-- The reading thread takes the mutex and goes on. -/
def readerLock (w : WakeUp) (pc : ReaderPc) : Option WakeUp :=
  (w.monitor.lock .reading).map fun m => { w with monitor := m, reader := pc }

def readerUnlock (w : WakeUp) (pc : ReaderPc) : Option WakeUp :=
  (w.monitor.unlock .reading).map fun m => { w with monitor := m, reader := pc }

/-- The statement the reading thread is at. -/
def readerStep (w : WakeUp) : Option WakeUp :=
  match w.reader with
  | .pushLock => w.readerLock .pushBack
  | .pushBack => some { w with pushed := w.pushed + 1, reader := .pushUnlock }
  | .pushUnlock => w.readerUnlock .read
  | .aggregateLock => w.readerLock .aggregateUnlock
  | .aggregateUnlock => w.readerUnlock .haveNewValues
  | .haveNewValues => some { w with newValues := true, flagged := w.pushed, reader := .cleanLock }
  | .cleanLock => w.readerLock .cleanUnlock
  | .cleanUnlock => w.readerUnlock .notifyLock
  | .notifyLock => w.readerLock .notifyBroadcast
  | .notifyBroadcast => some { w with monitor := w.monitor.broadcast, reader := .notifyUnlock }
  | .notifyUnlock =>
    (w.readerUnlock .read).map fun w => { w with notified := w.pushed }
  | .read => none

/-- The logging thread takes the mutex and goes on. -/
def loggerLock (w : WakeUp) (pc : LoggerPc) : Option WakeUp :=
  (w.monitor.lock .logging).map fun m => { w with monitor := m, logger := pc }

def loggerUnlock (w : WakeUp) (pc : LoggerPc) : Option WakeUp :=
  (w.monitor.unlock .logging).map fun m => { w with monitor := m, logger := pc }

/-- The statement the logging thread is at. -/
def loggerStep (w : WakeUp) : Option WakeUp :=
  match w.logger with
  | .waitLock => w.loggerLock .waitTest
  | .waitTest => some { w with logger := if w.newValues then .waitClear else .waitBlock }
  | .waitBlock => (w.monitor.wait .logging).map fun m => { w with monitor := m, logger := .waits }
  | .waits => (w.monitor.relock .logging).map fun m => { w with monitor := m, logger := .waitTest }
  | .waitClear => some { w with newValues := false, logger := .waitUnlock }
  | .waitUnlock => w.loggerUnlock .send
  | .send => some { w with started := w.pushed, logger := .sending }
  | .drainLock => w.loggerLock .drainUnlock
  | .drainUnlock => w.loggerUnlock .sending
  | .sending => none

def step (w : WakeUp) : WakeUpEvent → Option WakeUp
  | .push => if w.reader = .read then some { w with reader := .pushLock } else none
  | .sendData => if w.reader = .read then some { w with reader := .haveNewValues } else none
  | .aggregate =>
    if w.reader = .haveNewValues then some { w with reader := .aggregateLock } else none
  | .drain => if w.logger = .sending then some { w with logger := .drainLock } else none
  | .sent => if w.logger = .sending then some { w with logger := .waitLock } else none
  | .wake => (w.monitor.wake .logging).map fun m => { w with monitor := m }
  | .step .reading => w.readerStep
  | .step .logging => w.loggerStep

/-- The channel as a machine. -/
def machine : EventMachine.Machine WakeUp WakeUpEvent := ⟨initial, step⟩

/-- The logging thread is blocked in the condition wait, without a wake-up. -/
def Blocked (w : WakeUp) : Prop :=
  w.logger = .waits ∧ w.monitor.place .logging = .waiting

/-- The notification after the push of reading `i` is finished, and no `send` was
started since the push. -/
def Overdue (w : WakeUp) (i : Nat) : Prop := i < w.notified ∧ w.started ≤ i

/-! ## The invariant -/

/-- Statements of the reading thread under the lock. -/
def ReaderPc.Inside : ReaderPc → Prop
  | .pushBack | .pushUnlock | .aggregateUnlock | .cleanUnlock | .notifyBroadcast
  | .notifyUnlock => True
  | _ => False

/-- Statements of the reading thread after `have_newValues`. -/
def ReaderPc.Flagged : ReaderPc → Prop
  | .cleanLock | .cleanUnlock | .notifyLock | .notifyBroadcast | .notifyUnlock => True
  | _ => False

/-- Statements of the logging thread under the lock. -/
def LoggerPc.Inside : LoggerPc → Prop
  | .waitTest | .waitBlock | .waitClear | .waitUnlock | .drainUnlock => True
  | _ => False

/-- The logging thread has cleared the flag and is about to send. -/
def LoggerPc.Cleared : LoggerPc → Prop
  | .waitUnlock | .send => True
  | _ => False

/-- Readings the flag was set for are sent, or the flag is still set, or the
logging thread is about to send.  So it goes to sleep only when every finished
notification was followed by a `send`, and a notification finds it awake or wakes
it. -/
structure Inv (w : WakeUp) : Prop where
  reader : w.reader.Inside → w.monitor.mutex.owner = some .reading
  logger : w.logger.Inside → w.monitor.mutex.owner = some .logging
  order : w.started ≤ w.pushed ∧ w.notified ≤ w.flagged ∧ w.flagged ≤ w.pushed
  current : w.reader.Flagged → w.flagged = w.pushed
  flag : w.started < w.flagged → w.newValues = true ∨ w.logger.Cleared
  asleep : w.logger = .waitBlock ∨ Blocked w → w.notified ≤ w.started
  woken : w.reader = .notifyUnlock → w.monitor.place .logging ≠ .waiting

theorem inv_initial : Inv initial where
  reader := False.elim
  logger := False.elim
  order := ⟨Nat.le_refl _, Nat.le_refl _, Nat.le_refl _⟩
  current := False.elim
  flag := fun h => absurd h (Nat.lt_irrefl _)
  asleep := fun _ => Nat.le_refl _
  woken := fun h => by cases h

section Reader
variable {w v : WakeUp}

/-- While the reading thread holds the mutex, the logging thread is not inside. -/
theorem logger_outside (hw : Inv w) (h : w.reader.Inside) : ¬w.logger.Inside := by
  intro hin
  have := (hw.reader h).symm.trans (hw.logger hin)
  cases this

/-- The reading thread goes on without the monitor. -/
theorem inv_reader (hw : Inv w) {pc : ReaderPc} (hin : pc.Inside → w.reader.Inside)
    (hcur : pc.Flagged → w.flagged = w.pushed) (hne : pc ≠ .notifyUnlock) :
    Inv { w with reader := pc } :=
  { hw with
    reader := fun h => hw.reader (hin h)
    current := hcur
    woken := fun h => absurd h hne }

theorem inv_readerLock (hw : Inv w) {pc : ReaderPc} (h : w.readerLock pc = some v)
    (hcur : pc.Flagged → w.flagged = w.pushed) (hne : pc ≠ .notifyUnlock) : Inv v := by
  obtain ⟨m, hm, rfl⟩ := Option.map_eq_some_iff.mp h
  obtain ⟨hfree, -, howner, hplace⟩ := Sync.Monitor.of_enter hm
  have hlogging : m.place .logging = w.monitor.place .logging := hplace .logging (by simp)
  exact {
    reader := fun _ => howner
    logger := fun hin => by
      have := hw.logger hin
      rw [hfree] at this
      cases this
    order := hw.order
    current := hcur
    flag := hw.flag
    asleep := fun h => hw.asleep (h.imp id fun hb => ⟨hb.1, hlogging.symm.trans hb.2⟩)
    woken := fun h => absurd h hne }

theorem inv_readerUnlock (hw : Inv w) {pc : ReaderPc} (h : w.readerUnlock pc = some v)
    (hin : ¬pc.Inside) (hcur : pc.Flagged → w.flagged = w.pushed) : Inv v := by
  obtain ⟨m, hm, rfl⟩ := Option.map_eq_some_iff.mp h
  obtain ⟨howner, -, -, hplace⟩ := Sync.Monitor.of_leave hm
  have hlogging : m.place .logging = w.monitor.place .logging := hplace .logging (by simp)
  exact {
    reader := fun h => absurd h hin
    logger := fun hin => by
      have := (hw.logger hin).symm.trans howner
      cases this
    order := hw.order
    current := hcur
    flag := hw.flag
    asleep := fun h => hw.asleep (h.imp id fun hb => ⟨hb.1, hlogging.symm.trans hb.2⟩)
    woken := fun h => by
      have h : pc = .notifyUnlock := h
      rw [h] at hin
      exact absurd trivial hin }

theorem inv_readerStep (hw : Inv w) (h : w.readerStep = some v) : Inv v := by
  have hcurrent := hw.current
  unfold readerStep at h
  cases hpc : w.reader with
  | read => simp [hpc] at h
  | pushLock | aggregateLock =>
    rw [hpc] at h
    exact inv_readerLock hw h False.elim (by simp)
  | cleanLock | notifyLock =>
    rw [hpc] at h hcurrent
    exact inv_readerLock hw h (fun _ => hcurrent trivial) (by simp)
  | pushUnlock | aggregateUnlock =>
    rw [hpc] at h
    exact inv_readerUnlock hw h id False.elim
  | cleanUnlock =>
    rw [hpc] at h hcurrent
    exact inv_readerUnlock hw h id (fun _ => hcurrent trivial)
  | pushBack =>
    rw [hpc] at h
    obtain rfl := Option.some.inj h
    obtain ⟨hstarted, hnotified, hflagged⟩ := hw.order
    exact { hw with
      reader := fun _ => hw.reader (by rw [hpc]; trivial)
      order := ⟨Nat.le_succ_of_le hstarted, hnotified, Nat.le_succ_of_le hflagged⟩
      current := False.elim
      woken := fun h => by cases h }
  | haveNewValues =>
    rw [hpc] at h
    obtain rfl := Option.some.inj h
    obtain ⟨hstarted, hnotified, hflagged⟩ := hw.order
    exact { hw with
      reader := False.elim
      order := ⟨hstarted, Nat.le_trans hnotified hflagged, Nat.le_refl _⟩
      current := fun _ => rfl
      flag := fun _ => Or.inl rfl
      woken := fun h => by cases h }
  | notifyBroadcast =>
    rw [hpc] at h hcurrent
    obtain rfl := Option.some.inj h
    have hawake : w.monitor.broadcast.place .logging ≠ .waiting :=
      w.monitor.broadcast_place_ne_waiting .logging
    exact { hw with
      reader := fun _ => hw.reader (by rw [hpc]; trivial)
      current := fun _ => hcurrent trivial
      asleep := by
        rintro (h | ⟨-, h⟩)
        · exact hw.asleep (Or.inl h)
        · exact absurd h hawake
      woken := fun _ => hawake }
  | notifyUnlock =>
    rw [hpc] at h hcurrent
    obtain ⟨u, hu, rfl⟩ := Option.map_eq_some_iff.mp h
    have hinside : w.reader.Inside := by rw [hpc]; trivial
    have hinv := inv_readerUnlock hw hu id False.elim
    obtain ⟨m, hm, rfl⟩ := Option.map_eq_some_iff.mp hu
    obtain ⟨-, -, -, hplace⟩ := Sync.Monitor.of_leave hm
    obtain ⟨hstarted, -, -⟩ := hw.order
    have hflagged := hcurrent trivial
    -- the logging thread is neither blocked nor about to be
    exact { hinv with
      order := ⟨hstarted, Nat.le_of_eq hflagged.symm, Nat.le_of_eq hflagged⟩
      asleep := by
        rintro (h | ⟨-, h⟩)
        · exact absurd (show w.logger.Inside by rw [show w.logger = .waitBlock from h]; trivial)
            (logger_outside hw hinside)
        · exact absurd ((hplace .logging (by simp)).symm.trans h) (hw.woken hpc) }

end Reader

section Logger
variable {w v : WakeUp}

/-- While the logging thread holds the mutex, the reading thread is not inside. -/
theorem reader_outside (hw : Inv w) (h : w.monitor.mutex.owner = some .logging) :
    ¬w.reader.Inside := by
  intro hin
  have := (hw.reader hin).symm.trans h
  cases this

/-- The logging thread goes on without the monitor, and not to sleep. -/
theorem inv_logger (hw : Inv w) {p : LoggerPc} (hin : p.Inside → w.logger.Inside)
    (hflag : w.logger.Cleared → p.Cleared) (hblock : p ≠ .waitBlock) (hwaits : p ≠ .waits) :
    Inv { w with logger := p } :=
  { hw with
    logger := fun h => hw.logger (hin h)
    flag := fun h => (hw.flag h).imp id hflag
    asleep := by
      rintro (h | ⟨h, -⟩)
      · exact absurd h hblock
      · exact absurd h hwaits }

/-- The logging thread takes the mutex: from outside, or at the end of a wait. -/
theorem inv_loggerEnter (hw : Inv w) {p : LoggerPc} {place : Sync.Place}
    {m : Sync.Monitor ChannelThread} (h : w.monitor.enter place .logging = some m)
    (hflag : ¬w.logger.Cleared) (hblock : p ≠ .waitBlock)
    (hwaits : p ≠ .waits) : Inv { w with monitor := m, logger := p } := by
  obtain ⟨hfree, -, howner, -⟩ := Sync.Monitor.of_enter h
  have hawake : m.place .logging = .outside := m.awake .logging howner
  exact {
    reader := fun hin => by
      have := hw.reader hin
      rw [hfree] at this
      cases this
    logger := fun _ => howner
    order := hw.order
    current := hw.current
    flag := fun h => (hw.flag h).imp id fun hc => absurd hc hflag
    asleep := by
      rintro (h | ⟨h, -⟩)
      · exact absurd h hblock
      · exact absurd h hwaits
    woken := fun _ => by
      rw [show ({ w with monitor := m, logger := p } : WakeUp).monitor = m from rfl, hawake]
      simp }

/-- The logging thread gives up the mutex. -/
theorem inv_loggerLeave (hw : Inv w) {p : LoggerPc} {place : Sync.Place}
    {m : Sync.Monitor ChannelThread} (h : w.monitor.leave place .logging = some m)
    (hin : ¬p.Inside) (hflag : w.logger.Cleared → p.Cleared)
    (hasleep : p = .waits → w.notified ≤ w.started) :
    Inv { w with monitor := m, logger := p } := by
  obtain ⟨howner, -, -, -⟩ := Sync.Monitor.of_leave h
  have hout : ¬w.reader.Inside := reader_outside hw howner
  exact {
    reader := fun h => absurd h hout
    logger := fun h => absurd h hin
    order := hw.order
    current := hw.current
    flag := fun h => (hw.flag h).imp id hflag
    asleep := by
      rintro (h | ⟨h, -⟩)
      · have h : p = .waitBlock := h
        rw [h] at hin
        exact absurd trivial hin
      · exact hasleep h
    woken := fun h => by
      have h : w.reader = .notifyUnlock := h
      rw [h] at hout
      exact absurd trivial hout }

theorem inv_loggerStep (hw : Inv w) (h : w.loggerStep = some v) : Inv v := by
  obtain ⟨hstarted, hnotified, hflagged⟩ := hw.order
  unfold loggerStep at h
  cases hpc : w.logger with
  | sending => simp [hpc] at h
  | waitLock | drainLock =>
    rw [hpc] at h
    obtain ⟨m, hm, rfl⟩ := Option.map_eq_some_iff.mp h
    exact inv_loggerEnter hw hm (by rw [hpc]; exact id) (by simp) (by simp)
  | waits =>
    rw [hpc] at h
    obtain ⟨m, hm, rfl⟩ := Option.map_eq_some_iff.mp h
    exact inv_loggerEnter hw hm (by rw [hpc]; exact id) (by simp) (by simp)
  | waitUnlock =>
    rw [hpc] at h
    obtain ⟨m, hm, rfl⟩ := Option.map_eq_some_iff.mp h
    exact inv_loggerLeave hw hm id (fun _ => trivial) (by simp)
  | drainUnlock =>
    rw [hpc] at h
    obtain ⟨m, hm, rfl⟩ := Option.map_eq_some_iff.mp h
    exact inv_loggerLeave hw hm id (by rw [hpc]; exact id) (by simp)
  | waitBlock =>
    rw [hpc] at h
    obtain ⟨m, hm, rfl⟩ := Option.map_eq_some_iff.mp h
    exact inv_loggerLeave hw hm id (by rw [hpc]; exact id) fun _ => hw.asleep (Or.inl hpc)
  | waitTest =>
    rw [hpc] at h
    obtain rfl := Option.some.inj h
    by_cases hnew : w.newValues = true
    · rw [if_pos hnew]
      exact inv_logger (p := .waitClear) hw (fun _ => by rw [hpc]; trivial)
        (by rw [hpc]; exact False.elim) (by simp) (by simp)
    · rw [if_neg hnew]
      -- nothing is flagged that is not sent
      have hsent : w.flagged ≤ w.started := by
        by_contra hlt
        rcases hw.flag (Nat.lt_of_not_le hlt) with h | h
        · exact hnew h
        · rw [hpc] at h
          exact h
      exact { hw with
        logger := fun _ => hw.logger (by rw [hpc]; trivial)
        flag := fun h => absurd hsent (Nat.not_le_of_lt h)
        asleep := fun _ => Nat.le_trans hnotified hsent }
  | waitClear =>
    rw [hpc] at h
    obtain rfl := Option.some.inj h
    exact { hw with
      logger := fun _ => hw.logger (by rw [hpc]; trivial)
      flag := fun _ => Or.inr trivial
      asleep := by
        rintro (h | ⟨h, -⟩) <;> cases h }
  | send =>
    rw [hpc] at h
    obtain rfl := Option.some.inj h
    exact { hw with
      logger := False.elim
      order := ⟨Nat.le_refl _, hnotified, hflagged⟩
      flag := fun h => absurd hflagged (Nat.not_le_of_lt h)
      asleep := by
        rintro (h | ⟨h, -⟩) <;> cases h }

end Logger

theorem inv_step {w v : WakeUp} {e : WakeUpEvent} (hw : Inv w) (h : step w e = some v) :
    Inv v := by
  cases e with
  | push | sendData | aggregate =>
    obtain ⟨-, rfl⟩ := Option.ite_some_none_eq_some.mp h
    exact inv_reader hw False.elim False.elim (by simp)
  | drain | sent =>
    obtain ⟨hpc, rfl⟩ := Option.ite_some_none_eq_some.mp h
    exact inv_logger hw False.elim (by rw [hpc]; exact False.elim) (by simp) (by simp)
  | wake =>
    -- a spurious wake-up: the thread is awake, and tests the flag again
    obtain ⟨m, hm, rfl⟩ := Option.map_eq_some_iff.mp h
    obtain ⟨-, hmutex, hwoken, -⟩ := Sync.Monitor.of_wake hm
    have hawake : m.place .logging ≠ .waiting := by rw [hwoken]; simp
    exact { hw with
      reader := fun hin => by rw [hmutex]; exact hw.reader hin
      logger := fun hin => by rw [hmutex]; exact hw.logger hin
      asleep := by
        rintro (h | ⟨-, h⟩)
        · exact hw.asleep (Or.inl h)
        · exact absurd h hawake
      woken := fun _ => hawake }
  | step t =>
    cases t with
    | reading => exact inv_readerStep hw h
    | logging => exact inv_loggerStep hw h

/-- **No wake-up is lost.**  In no state of any run is the logging thread blocked
while the notification after some push is finished and no `send` was started
since that push. -/
theorem not_blocked_of_overdue {es : List WakeUpEvent} {w : WakeUp}
    (hrun : machine.run initial es = some w) : ¬∃ i, Overdue w i ∧ Blocked w := by
  have hw : Inv w :=
    EventMachine.Machine.run_induction hrun inv_initial fun _ _ _ hs h => inv_step hs h
  rintro ⟨i, ⟨hnotified, hstarted⟩, hblocked⟩
  have hle := hw.asleep (Or.inr hblocked)
  omega

/-- The logging thread goes to sleep; a push and its notification wake it, and it
sends. -/
def wokenByNotify : List WakeUpEvent :=
  [.step .logging, .step .logging, .step .logging,
    .push, .step .reading, .step .reading, .step .reading,
    .sendData, .step .reading, .step .reading, .step .reading, .step .reading, .step .reading,
    .step .reading,
    .step .logging, .step .logging, .step .logging, .step .logging, .step .logging]

theorem not_blocked_of_overdue_woken :
    ∃ w, machine.run initial wokenByNotify = some w ∧ w.notified = 1 ∧ w.started = 1 ∧
      ¬∃ i, Overdue w i ∧ Blocked w := by
  obtain ⟨w, hrun, hn⟩ : ∃ w, machine.run initial wokenByNotify = some w ∧
      (w.notified = 1 ∧ w.started = 1) :=
    EventMachine.Machine.exists_run_of_any (by decide +kernel)
  exact ⟨w, hrun, hn.1, hn.2, not_blocked_of_overdue hrun⟩

end WakeUp
end VzLogger
