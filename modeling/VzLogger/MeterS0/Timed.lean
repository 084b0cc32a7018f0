import VzLogger.MeterS0.Clock
import VzLogger.MeterS0.Conservation

/-! # A run with the times of its impulses

The books beside the state of the S0 meter: the clock at every stamp, the time of each
impulse when it is counted, and what every call of `read` has found.  Then, what a
step of either thread does to the state and the books.
-/
namespace VzLogger.MeterS0

/-- What a call of `read` has found, with the clock at the stamp that it took its time
from, and the time of the latest impulse in its count. -/
structure Report where
  firstImpulse : Bool
  tImp : Nat
  tImpNeg : Nat
  time : Timespec
  t1 : Rat
  t2 : Rat
  stamp : Option Timespec
  impulse : Option Timespec
  deriving DecidableEq

/-- Which reference the milliseconds of a stamp count from. -/
inductive Reference where
  /-- `_time_last_ref`, as it is -/
  | current
  /-- as it was before `check_ref_for_overflow` moved it -/
  | shifted
  /-- another one, or the difference did not fit -/
  | gone
  deriving DecidableEq

/-- `check_ref_for_overflow` moves the reference. -/
def Reference.shift : Reference → Reference
  | .current => .shifted
  | .shifted | .gone => .gone

/-- A run, with what the clock showed. -/
structure Timed where
  run : Run
  /-- the clock at the last stamp, and the reference it was made with -/
  clock : Timespec
  clockRef : Reference
  /-- the clock and the reference that `_ms_last_impulse` stands for -/
  msClock : Timespec
  msRef : Reference
  /-- the event that `_ms_last_impulse` was stored for is counted in `_impulses` -/
  msCounted : Bool
  /-- the time of the latest impulse counted -/
  counted : Option Timespec
  /-- the time of the latest impulse in the count that was loaded last -/
  included : Option Timespec
  /-- the clock that the `_ms_last_impulse` loaded last stood for, with the reference as it
  was then -/
  loaded : Option Timespec
  reports : List Report

/-- `now` is not before the reference, and not too late for an `unsigned long`. -/
def Fits (m : MeterS0) (ref now : Timespec) : Prop :=
  ref.ns ≤ now.ns ∧ now.ns < ref.ns + 2 ^ m.longBits * 1000000

instance (m : MeterS0) (ref now : Timespec) : Decidable (Fits m ref now) :=
  inferInstanceAs (Decidable (_ ∧ _))

namespace Timed

def initial (now : Timespec) : Timed where
  run := MeterS0.initial now
  clock := now
  clockRef := .current
  msClock := now
  msRef := .current
  msCounted := false
  counted := none
  included := none
  loaded := none
  reports := []

/-- The books after a step to `run`. -/
def observe (m : MeterS0) (w : Timed) (run : Run) : Event → Timed
  | .stamp now =>
    { w with
      run := run
      clock := now
      clockRef := if Fits m w.run.timeLastRef now then .current else .gone }
  | .counter =>
    match w.run.counter with
    | .stamped _ =>
      { w with run := run, msClock := w.clock, msRef := w.clockRef, msCounted := false }
    | .count false _ => { w with run := run, counted := some w.clock, msCounted := true }
    | _ => { w with run := run }
  | .reader =>
    match w.run.reader with
    | .loadImp => { w with run := run, included := w.counted }
    | .addRef 0 0 _ => { w with run := run, clockRef := .gone, msRef := .gone }
    | .loadMs _ _ _ =>
      { w with run := run, loaded := if w.msRef = .current then some w.msClock else none }
    | .shiftRef _ _ _ _ =>
      { w with run := run, clockRef := w.clockRef.shift, msRef := w.msRef.shift }
    | .subMs _ _ _ _ =>
      { w with
        run := run
        clockRef := if w.clockRef = .current then .current else .gone
        msRef := if w.msRef = .shifted ∧ 2 ^ 30 ≤ w.run.msLastImpulse then .current else .gone }
    | .report tImp tImpNeg req t1 t2 =>
      { w with
        run := run
        reports := w.reports ++
          [⟨w.run.firstImpulse, tImp, tImpNeg, req, t1, t2, w.loaded, w.included⟩] }
    | _ => { w with run := run }
  | _ => { w with run := run }

def step (m : MeterS0) (w : Timed) (e : Event) : Option Timed :=
  (m.step w.run e).map fun run => w.observe m run e

def machine (m : MeterS0) (now : Timespec) : EventMachine.Machine Timed Event :=
  ⟨initial now, step m⟩

@[simp] theorem observe_run (m : MeterS0) (w : Timed) (run : Run) (e : Event) :
    (w.observe m run e).run = run := by
  unfold observe
  split
  · rfl
  · split <;> rfl
  · split <;> rfl
  · rfl

/-- A call with impulses leaves the reference as it is. -/
theorem observe_addRef {m : MeterS0} {w : Timed} {run : Run} {tImp tImpNeg : Nat} {req : Timespec}
    (hpc : w.run.reader = .addRef tImp tImpNeg req) (h : ¬(tImp = 0 ∧ tImpNeg = 0)) :
    w.observe m run .reader = { w with run := run } := by
  cases tImp with
  | succ n => simp only [observe, hpc]
  | zero =>
    cases tImpNeg with
    | succ n => simp only [observe, hpc]
    | zero => exact absurd ⟨rfl, rfl⟩ h

/-- The books change nothing: the runs are those of the meter. -/
theorem run_eq (m : MeterS0) (now : Timespec) (es : List Event) (w : Timed) :
    ((machine m now).run w es).map Timed.run = (m.machine now).run w.run es := by
  induction es generalizing w with
  | nil => rfl
  | cons e es ih =>
    have hstep : (machine m now).step w e = (m.step w.run e).map fun run => w.observe m run e := rfl
    simp only [EventMachine.Machine.run, hstep]
    cases h : m.step w.run e with
    | none => simp [MeterS0.machine, h]
    | some run => simp [MeterS0.machine, h, ih]

end Timed

/-! ## Who changes what -/

/-- The events of `read`; the others are those of the counter thread. -/
def Event.OfRead : Event → Prop
  | .read _ | .clock _ | .reader => True
  | _ => False

/-- What `read` works with is as it was. -/
structure SameRead (w t : Timed) : Prop where
  reader : t.run.reader = w.run.reader
  timeLastRead : t.run.timeLastRead = w.run.timeLastRead
  timeLastRef : t.run.timeLastRef = w.run.timeLastRef
  timeLastImpulseReturned : t.run.timeLastImpulseReturned = w.run.timeLastImpulseReturned
  returned : t.run.returned = w.run.returned
  included : t.included = w.included
  loaded : t.loaded = w.loaded
  reports : t.reports = w.reports

/-- What the counter thread works with is as it was. -/
structure SameCounter (w t : Timed) : Prop where
  counter : t.run.counter = w.run.counter
  clock : t.clock = w.clock
  msClock : t.msClock = w.msClock
  msCounted : t.msCounted = w.msCounted
  counted : t.counted = w.counted

section Frames
variable {m : MeterS0} {w t : Timed} {e : Event}

theorem sameRead_run {run : Run} (h : m.step w.run e = some run) (he : ¬e.OfRead) :
    run.reader = w.run.reader ∧ run.timeLastRead = w.run.timeLastRead ∧
      run.timeLastRef = w.run.timeLastRef ∧
      run.timeLastImpulseReturned = w.run.timeLastImpulseReturned ∧
      run.returned = w.run.returned := by
  cases e with
  | read n | clock now | reader => exact absurd trivial he
  | impulse | stamp now =>
    obtain ⟨-, rfl⟩ := Option.ite_some_none_eq_some.mp h
    exact ⟨rfl, rfl, rfl, rfl, rfl⟩
  | status state =>
    simp only [MeterS0.step, statusStep] at h
    cases hpc : w.run.counter with
    | start | check =>
      rw [hpc] at h
      obtain rfl := Option.some.inj h
      exact ⟨rfl, rfl, rfl, rfl, rfl⟩
    | loop =>
      rw [hpc] at h
      obtain ⟨-, h⟩ := Option.ite_none_left_eq_some.mp h
      obtain rfl := Option.some.inj h
      exact ⟨rfl, rfl, rfl, rfl, rfl⟩
    | _ => simp [hpc] at h
  | dirStatus state =>
    simp only [MeterS0.step] at h
    split at h
    · obtain rfl := Option.some.inj h
      exact ⟨rfl, rfl, rfl, rfl, rfl⟩
    · cases h
  | counter =>
    simp only [MeterS0.step, counterStep] at h
    cases hpc : w.run.counter with
    | stamped ms | store state =>
      rw [hpc] at h
      obtain rfl := Option.some.inj h
      exact ⟨rfl, rfl, rfl, rfl, rfl⟩
    | count neg state =>
      rw [hpc] at h
      cases neg
      all_goals
        obtain rfl := Option.some.inj h
        exact ⟨rfl, rfl, rfl, rfl, rfl⟩
    | _ => simp [hpc] at h

theorem sameRead (h : Timed.step m w e = some t) (he : ¬e.OfRead) : SameRead w t := by
  obtain ⟨run, hrun, rfl⟩ := Option.map_eq_some_iff.mp h
  obtain ⟨hreader, hlastRead, hlastRef, htime, hreturned⟩ := sameRead_run hrun he
  have hbooks : (w.observe m run e).included = w.included ∧
      (w.observe m run e).loaded = w.loaded ∧ (w.observe m run e).reports = w.reports := by
    cases e with
    | read n | clock now | reader => exact absurd trivial he
    | counter =>
      simp only [Timed.observe]
      split <;> exact ⟨rfl, rfl, rfl⟩
    | _ => exact ⟨rfl, rfl, rfl⟩
  refine ⟨?_, ?_, ?_, ?_, ?_, hbooks.1, hbooks.2.1, hbooks.2.2⟩
  all_goals rw [Timed.observe_run]
  · exact hreader
  · exact hlastRead
  · exact hlastRef
  · exact htime
  · exact hreturned

theorem counter_run {run : Run} (h : m.step w.run e = some run) (he : e.OfRead) :
    run.counter = w.run.counter := by
  cases e with
  | status s | impulse | stamp now | dirStatus s | counter => exact absurd he id
  | read n =>
    simp only [MeterS0.step] at h
    split at h
    · split at h <;> (obtain rfl := Option.some.inj h; rfl)
    · cases h
  | clock now =>
    simp only [MeterS0.step, clockStep] at h
    split at h
    · split at h <;> (obtain rfl := Option.some.inj h; rfl)
    · cases h
  | reader =>
    simp only [MeterS0.step, readerStep] at h
    cases hpc : w.run.reader with
    | idle | clock tImp tImpNeg => simp [hpc] at h
    | checkMs tImp tImpNeg req temp =>
      rw [hpc] at h
      dsimp only at h
      split at h <;> (obtain rfl := Option.some.inj h; rfl)
    | _ =>
      rw [hpc] at h
      obtain rfl := Option.some.inj h
      rfl

theorem sameCounter (h : Timed.step m w e = some t) (he : e.OfRead) : SameCounter w t := by
  obtain ⟨run, hrun, rfl⟩ := Option.map_eq_some_iff.mp h
  have hcounter := counter_run hrun he
  have hbooks : (w.observe m run e).clock = w.clock ∧ (w.observe m run e).msClock = w.msClock ∧
      (w.observe m run e).msCounted = w.msCounted ∧ (w.observe m run e).counted = w.counted := by
    cases e with
    | status s | impulse | stamp now | dirStatus s | counter => exact absurd he id
    | reader =>
      simp only [Timed.observe]
      split <;> exact ⟨rfl, rfl, rfl, rfl⟩
    | _ => exact ⟨rfl, rfl, rfl, rfl⟩
  refine ⟨?_, hbooks.1, hbooks.2.1, hbooks.2.2.1, hbooks.2.2.2⟩
  rw [Timed.observe_run, hcounter]

/-- The stamp of an event has been stored, and whether the event is an impulse is not
decided or not counted yet. -/
def CounterPc.Stored : CounterPc → Prop
  | .check | .dir _ | .count _ _ => True
  | _ => False

/-- A step of the counter thread without a stamp, its store or a count of its own. -/
structure Quiet (w t : Timed) : Prop where
  counter : ∀ ms, t.run.counter ≠ .stamped ms
  stored : t.run.counter.Stored → w.run.counter.Stored
  msLastImpulse : t.run.msLastImpulse = w.run.msLastImpulse
  clock : t.clock = w.clock
  msClock : t.msClock = w.msClock
  msRef : t.msRef = w.msRef
  msCounted : t.msCounted = w.msCounted
  counted : t.counted = w.counted

/-- What a step of the counter thread does. -/
inductive Counts (m : MeterS0) (w t : Timed) : Event → Prop where
  | stamp (now : Timespec) (ht : t = { w with
      run := { w.run with
        counter := .stamped (Timespec.subMs m.longBits now w.run.timeLastRef) }
      clock := now
      clockRef := if Fits m w.run.timeLastRef now then .current else .gone }) :
      Counts m w t (.stamp now)
  | store (ms : Nat) (hpc : w.run.counter = .stamped ms) (ht : t = { w with
      run := { w.run with msLastImpulse := ms, counter := .check }
      msClock := w.clock
      msRef := w.clockRef
      msCounted := false }) : Counts m w t .counter
  | count (hstored : w.run.counter.Stored) (hcounter : ∀ ms, t.run.counter ≠ .stamped ms)
      (hdone : ¬t.run.counter.Stored) (hms : t.run.msLastImpulse = w.run.msLastImpulse)
      (ht : t = { w with run := t.run, counted := some w.clock, msCounted := true }) :
      Counts m w t .counter
  | quiet (e : Event) (h : Quiet w t) : Counts m w t e

/-- After an increment the next event is waited for. -/
theorem next_waits (state : Option Int) :
    (∀ ms, CounterPc.next state ≠ .stamped ms) ∧ ¬(CounterPc.next state).Stored := by
  cases state <;> simp [CounterPc.next, CounterPc.Stored]

theorem counts (hblocking : m.blocking = true) (h : Timed.step m w e = some t)
    (he : ¬e.OfRead) : Counts m w t e := by
  obtain ⟨run, hrun, rfl⟩ := Option.map_eq_some_iff.mp h
  have hedge : ∀ state ms, m.edge state ≠ .stamped ms := by
    intro state ms heq
    exact (edge_ne state).2 (by rw [heq]; trivial)
  cases e with
  | read n | clock now | reader => exact absurd trivial he
  | stamp now =>
    obtain ⟨-, rfl⟩ := Option.ite_some_none_eq_some.mp hrun
    exact .stamp now rfl
  | impulse =>
    obtain ⟨-, rfl⟩ := Option.ite_some_none_eq_some.mp hrun
    exact .quiet _ ⟨fun ms h => (by cases h), fun h => h.elim, rfl, rfl, rfl, rfl, rfl, rfl⟩
  | dirStatus state =>
    simp only [MeterS0.step] at hrun
    split at hrun
    · rename_i next hpc
      obtain rfl := Option.some.inj hrun
      have hstored : w.run.counter.Stored := by
        rw [hpc]
        trivial
      exact .quiet _
        ⟨fun ms h => (by cases h), fun _ => hstored, rfl, rfl, rfl, rfl, rfl, rfl⟩
    · cases hrun
  | status state =>
    simp only [MeterS0.step, statusStep] at hrun
    cases hpc : w.run.counter with
    | start =>
      rw [hpc] at hrun
      obtain rfl := Option.some.inj hrun
      exact .quiet _ ⟨fun ms h => (by cases h), fun h => h.elim, rfl, rfl, rfl, rfl, rfl, rfl⟩
    | loop =>
      -- a blocking meter waits here
      rw [hpc] at hrun
      exact absurd hblocking (Option.ite_none_left_eq_some.mp hrun).1
    | check =>
      rw [hpc] at hrun
      obtain rfl := Option.some.inj hrun
      refine .quiet _ ⟨fun ms => ?_, fun _ => ?_, rfl, rfl, rfl, rfl, rfl, rfl⟩
      · simp only [Timed.observe]
        split
        · exact hedge _ ms
        · simp
      · rw [hpc]
        trivial
    | _ => simp [hpc] at hrun
  | counter =>
    simp only [MeterS0.step, counterStep] at hrun
    cases hpc : w.run.counter with
    | stamped ms =>
      rw [hpc] at hrun
      obtain rfl := Option.some.inj hrun
      exact .store ms hpc (by simp [Timed.observe, hpc])
    | count neg state =>
      rw [hpc] at hrun
      obtain ⟨hstamped, hdone⟩ := next_waits state
      cases neg with
      | false =>
        obtain rfl := Option.some.inj hrun
        refine .count (by rw [hpc]; trivial) ?_ ?_ ?_ (by simp [Timed.observe, hpc])
        all_goals rw [Timed.observe_run]
        · exact hstamped
        · exact hdone
      | true =>
        obtain rfl := Option.some.inj hrun
        refine .quiet _ ⟨?_, ?_, ?_, ?_, ?_, ?_, ?_, ?_⟩
        · rw [Timed.observe_run]
          exact hstamped
        · rw [Timed.observe_run]
          exact fun h => absurd h hdone
        all_goals simp [Timed.observe, hpc]
    | store state =>
      rw [hpc] at hrun
      obtain rfl := Option.some.inj hrun
      refine .quiet _ ⟨fun ms heq => ?_, fun h => ?_, ?_, ?_, ?_, ?_, ?_, ?_⟩
      · rw [Timed.observe_run] at heq
        cases heq
      · rw [Timed.observe_run] at h
        exact h.elim
      all_goals simp [Timed.observe, hpc]
    | _ => simp [hpc] at hrun

end Frames

/-! ## The steps of `read` -/

/-- The time that the running call has made of the last stamp. -/
def ReadPc.temp : ReadPc → Option Timespec
  | .checkMs _ _ _ temp | .shiftRef _ _ _ temp | .subMs _ _ _ temp => some temp
  | _ => none

/-- The call has loaded a count that is not zero, and not yet the stamp for it. -/
def ReadPc.Awaits : ReadPc → Prop
  | .loadNeg tImp | .test tImp _ | .subImp tImp _ | .subNeg tImp _ | .clock tImp _
  | .addRef tImp _ _ | .loadMs tImp _ _ => 0 < tImp
  | _ => False

/-- The call has loaded a count that is not zero, and the stamp for it. -/
def ReadPc.Dated : ReadPc → Prop
  | .checkMs tImp _ _ _ | .shiftRef tImp _ _ _ | .subMs tImp _ _ _ | .report tImp _ _ _ _ =>
    0 < tImp
  | _ => False

/-- The call may have moved the reference as one without impulses. -/
def ReadPc.Zeroed : ReadPc → Prop
  | .loadMs tImp _ _ | .checkMs tImp _ _ _ | .shiftRef tImp _ _ _ | .subMs tImp _ _ _
  | .report tImp _ _ _ _ => tImp = 0
  | _ => False

def ReadPc.Reporting : ReadPc → Prop
  | .report _ _ _ _ _ => True
  | _ => False

/-- A step of `read` that gets neither its count nor its times further. -/
structure Kept (w t : Timed) : Prop where
  timeLastImpulseReturned : t.run.timeLastImpulseReturned = w.run.timeLastImpulseReturned
  phase : t.run.timeLastRef.phase = w.run.timeLastRef.phase ∨
    t.run.reader.Zeroed ∧ t.run.reader.temp = none
  returned : ∀ rds ∈ t.run.returned, rds ∈ w.run.returned ∨ rds = []
  included : t.included = w.included
  loaded : t.loaded = w.loaded
  reports : t.reports = w.reports
  temp : t.run.reader.temp = w.run.reader.temp
  awaits : t.run.reader.Awaits → w.run.reader.Awaits
  dated : t.run.reader.Dated → w.run.reader.Dated
  zeroed : w.run.reader.Zeroed → t.run.reader.Zeroed
  reporting : ¬w.run.reader.Reporting ∧ ¬t.run.reader.Reporting

/-- What a step of `read` does, in a blocking meter. -/
inductive Reads (m : MeterS0) (w t : Timed) (e : Event) : Prop where
  | load (he : e = .reader) (hpc : w.run.reader = .loadImp) (ht : t = { w with
      run := { w.run with reader := .loadNeg w.run.impulses }
      included := w.counted })
  | loadMs (tImp tImpNeg : Nat) (req : Timespec) (he : e = .reader)
      (hpc : w.run.reader = .loadMs tImp tImpNeg req) (ht : t = { w with
        run := { w.run with
          reader := .checkMs tImp tImpNeg req
            (w.run.timeLastRef.addMs w.run.msLastImpulse) }
        loaded := if w.msRef = .current then some w.msClock else none })
  | finish (tImp tImpNeg : Nat) (temp : Timespec) (htemp : w.run.reader.temp = some temp)
      (hdated : w.run.reader.Dated ↔ 0 < tImp) (hzeroed : w.run.reader.Zeroed ↔ tImp = 0)
      (hreader : t.run.reader = reportAt tImp tImpNeg temp w.run.timeLastImpulseReturned.seconds
        temp.seconds)
      (htime : t.run.timeLastImpulseReturned = temp)
      (href : t.run.timeLastRef = w.run.timeLastRef)
      (hreturned : t.run.returned = w.run.returned)
      (hbooks : t.included = w.included ∧ t.loaded = w.loaded ∧ t.reports = w.reports)
  | report (tImp tImpNeg : Nat) (req : Timespec) (t1 t2 : Rat)
      (hpc : w.run.reader = .report tImp tImpNeg req t1 t2) (ht : t = { w with
        run := { w.run with
          firstImpulse :=
            w.run.firstImpulse && (m.rds w.run.firstImpulse tImp tImpNeg req t1 t2).isEmpty
          returned := w.run.returned ++ [m.rds w.run.firstImpulse tImp tImpNeg req t1 t2]
          reader := .idle }
        reports := w.reports ++
          [⟨w.run.firstImpulse, tImp, tImpNeg, req, t1, t2, w.loaded, w.included⟩] })
  | kept (h : Kept w t)

section Reads
variable {m : MeterS0} {w t : Timed} {e : Event}

/-- A statement that only moves on within the call. -/
theorem kept_of_run {p : ReadPc} {run : Run} (hrun : run = { w.run with
      impulses := run.impulses
      impulsesNeg := run.impulsesNeg
      timeLastRef := run.timeLastRef
      reader := p })
    (hphase : run.timeLastRef.phase = w.run.timeLastRef.phase ∨ p.Zeroed ∧ p.temp = none)
    (hbooks : (w.observe m run e).included = w.included ∧
      (w.observe m run e).loaded = w.loaded ∧ (w.observe m run e).reports = w.reports)
    (htemp : p.temp = w.run.reader.temp) (hawaits : p.Awaits → w.run.reader.Awaits)
    (hdated : p.Dated → w.run.reader.Dated)
    (hzeroed : w.run.reader.Zeroed → p.Zeroed)
    (hreporting : ¬w.run.reader.Reporting ∧ ¬p.Reporting) : Kept w (w.observe m run e) := by
  refine ⟨?_, ?_, ?_, hbooks.1, hbooks.2.1, hbooks.2.2, ?_, ?_, ?_, ?_, ?_⟩
  all_goals rw [Timed.observe_run, hrun]
  · exact hphase
  · exact fun rds hrds => Or.inl hrds
  · exact htemp
  · exact hawaits
  · exact hdated
  · exact hzeroed
  · exact hreporting

/-- The end of a call with impulses, with or without the milliseconds moved. -/
theorem reads_finish {tImp tImpNeg : Nat} {req temp : Timespec} (ms : Nat)
    (hpc : w.run.reader = .checkMs tImp tImpNeg req temp ∨
      w.run.reader = .subMs tImp tImpNeg req temp) :
    Reads m w (w.observe m (finish { w.run with msLastImpulse := ms } tImp tImpNeg req temp)
      .reader) .reader := by
  rcases hpc with hpc | hpc
  all_goals
    refine .finish tImp tImpNeg temp (by rw [hpc]; rfl) (by rw [hpc]; exact Iff.rfl)
      (by rw [hpc]; exact Iff.rfl) ?_ ?_ ?_ ?_ (by simp [Timed.observe, hpc, finish])
    all_goals
      rw [Timed.observe_run]
      rfl

theorem reads_reader (h : Timed.step m w .reader = some t) : Reads m w t .reader := by
  obtain ⟨run, hrun, rfl⟩ := Option.map_eq_some_iff.mp h
  have hkept : ∀ {p : ReadPc}, run = { w.run with
        impulses := run.impulses
        impulsesNeg := run.impulsesNeg
        timeLastRef := run.timeLastRef
        reader := p } →
      run.timeLastRef.phase = w.run.timeLastRef.phase ∨ p.Zeroed ∧ p.temp = none →
      w.run.reader ≠ .loadImp →
      (∀ tImp tImpNeg req, w.run.reader ≠ .loadMs tImp tImpNeg req) →
      p.temp = w.run.reader.temp → (p.Awaits → w.run.reader.Awaits) →
      (p.Dated → w.run.reader.Dated) →
      (w.run.reader.Zeroed → p.Zeroed) → ¬w.run.reader.Reporting ∧ ¬p.Reporting →
      Reads m w (w.observe m run .reader) .reader := by
    intro p hrun hphase hload hloadMs htemp hawaits hdated hzeroed hreporting
    refine .kept (kept_of_run hrun hphase ?_ htemp hawaits hdated hzeroed hreporting)
    simp only [Timed.observe]
    split
    · rename_i hpc
      exact absurd hpc hload
    · exact ⟨rfl, rfl, rfl⟩
    · rename_i hpc
      exact absurd hpc (hloadMs _ _ _)
    · exact ⟨rfl, rfl, rfl⟩
    · exact ⟨rfl, rfl, rfl⟩
    · rename_i hpc
      rw [hpc] at hreporting
      exact absurd trivial hreporting.1
    · exact ⟨rfl, rfl, rfl⟩
  simp only [MeterS0.step, readerStep] at hrun
  cases hpc : w.run.reader with
  | idle | clock tImp tImpNeg => simp [hpc] at hrun
  | loadImp =>
    rw [hpc] at hrun
    obtain rfl := Option.some.inj hrun
    exact .load rfl hpc (by simp [Timed.observe, hpc])
  | loadNeg tImp =>
    rw [hpc] at hrun hkept
    obtain rfl := Option.some.inj hrun
    exact hkept rfl (Or.inl rfl) (by simp) (by simp) rfl id id id ⟨id, id⟩
  | test tImp tImpNeg =>
    rw [hpc] at hrun hkept
    obtain rfl := Option.some.inj hrun
    have hnext : ∀ p, (p = if 0 < tImp ∨ 0 < tImpNeg then .subImp tImp tImpNeg
        else if m.sendZero then .clock tImp tImpNeg else .loadImp) →
        p.temp = none ∧ (ReadPc.Awaits p → 0 < tImp) ∧ ¬p.Dated ∧ ¬p.Reporting := by
      rintro p rfl
      split
      · exact ⟨rfl, id, id, id⟩
      · split
        · exact ⟨rfl, id, id, id⟩
        · exact ⟨rfl, fun h => h.elim, id, id⟩
    obtain ⟨htemp, hawaits, hdated, hreporting⟩ := hnext _ rfl
    exact hkept rfl (Or.inl rfl) (by simp) (by simp) htemp hawaits (fun h => absurd h hdated)
      (fun h => h.elim) ⟨id, hreporting⟩
  | subImp tImp tImpNeg | subNeg tImp tImpNeg =>
    rw [hpc] at hrun hkept
    obtain rfl := Option.some.inj hrun
    exact hkept rfl (Or.inl rfl) (by simp) (by simp) rfl id id id ⟨id, id⟩
  | addRef tImp tImpNeg req =>
    rw [hpc] at hrun hkept
    obtain rfl := Option.some.inj hrun
    refine hkept rfl ?_ (by simp) (by simp) rfl id id (fun h => h.elim) ⟨id, id⟩
    by_cases hzero : tImp = 0 ∧ tImpNeg = 0
    · exact Or.inr ⟨hzero.1, rfl⟩
    · simp only [if_neg hzero, true_or]
  | shiftRef tImp tImpNeg req temp =>
    rw [hpc] at hrun hkept
    obtain rfl := Option.some.inj hrun
    exact hkept rfl (Or.inl (Timespec.phase_addMs _ _)) (by simp) (by simp) rfl id
      id id ⟨id, id⟩
  | loadMs tImp tImpNeg req =>
    rw [hpc] at hrun
    obtain rfl := Option.some.inj hrun
    exact .loadMs tImp tImpNeg req rfl hpc (by simp [Timed.observe, hpc])
  | checkMs tImp tImpNeg req temp =>
    rw [hpc] at hrun hkept
    dsimp only at hrun
    split at hrun
    · obtain rfl := Option.some.inj hrun
      exact hkept rfl (Or.inl rfl) (by simp) (by simp) rfl id id id ⟨id, id⟩
    · obtain rfl := Option.some.inj hrun
      exact reads_finish w.run.msLastImpulse (Or.inl hpc)
  | subMs tImp tImpNeg req temp =>
    rw [hpc] at hrun
    obtain rfl := Option.some.inj hrun
    exact reads_finish _ (Or.inr hpc)
  | report tImp tImpNeg req t1 t2 =>
    rw [hpc] at hrun
    obtain rfl := Option.some.inj hrun
    exact .report tImp tImpNeg req t1 t2 hpc (by simp [Timed.observe, hpc])

theorem reads (hblocking : m.blocking = true) (h : Timed.step m w e = some t) (he : e.OfRead) :
    Reads m w t e := by
  cases e with
  | status s | impulse | stamp now | dirStatus s | counter => exact absurd he id
  | reader => exact reads_reader h
  | read n =>
    obtain ⟨run, hrun, rfl⟩ := Option.map_eq_some_iff.mp h
    simp only [MeterS0.step] at hrun
    split at hrun
    · rename_i hpc
      split at hrun
      · obtain rfl := Option.some.inj hrun
        refine .kept ⟨rfl, Or.inl rfl, fun rds hrds => ?_, rfl, rfl, rfl, rfl, id, id, id, ?_⟩
        · exact (List.mem_append.mp hrds).imp id List.mem_singleton.mp
        · exact ⟨by rw [hpc]; exact id, by simp [Timed.observe, hpc, ReadPc.Reporting]⟩
      · obtain rfl := Option.some.inj hrun
        exact .kept (kept_of_run (p := .loadImp) rfl (Or.inl rfl) ⟨rfl, rfl, rfl⟩ (by rw [hpc]; rfl)
          (fun h => h.elim) (fun h => h.elim) (by rw [hpc]; exact id)
          ⟨by rw [hpc]; exact id, id⟩)
    · cases hrun
  | clock now =>
    obtain ⟨run, hrun, rfl⟩ := Option.map_eq_some_iff.mp h
    simp only [MeterS0.step, clockStep] at hrun
    split at hrun
    · rename_i tImp tImpNeg hpc
      rw [if_pos hblocking] at hrun
      obtain rfl := Option.some.inj hrun
      exact .kept (kept_of_run (p := .addRef tImp tImpNeg now) rfl (Or.inl rfl) ⟨rfl, rfl, rfl⟩
        (by rw [hpc]; rfl) (by rw [hpc]; exact id) (fun h => h.elim)
        (by rw [hpc]; exact id) ⟨by rw [hpc]; exact id, id⟩)
    · cases hrun

end Reads

end VzLogger.MeterS0
