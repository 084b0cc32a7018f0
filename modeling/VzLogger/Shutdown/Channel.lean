import VzLogger.Shutdown.Model
import VzLogger.Lib.CanReach

/-! # One channel of a meter that is stopped

Who holds the mutex is at a statement under it, so a logging thread that is alive gives the
mutex up by itself, and comes to a point where a cancellation takes effect; and the reading
thread comes to the end of its work on a channel unless the logging thread ended with the
mutex.
-/
namespace VzLogger.Shutdown

section Channel
open WakeUp
variable {w v : WakeUp}

/-- Who holds the mutex is at a statement under it, and only the logging thread is ever in
the condition wait. -/
structure Placed (w : WakeUp) : Prop where
  reading : w.monitor.mutex.owner = some .reading → w.reader.Inside
  logging : w.monitor.mutex.owner = some .logging → w.logger.Inside
  outside : w.monitor.place .reading = .outside
  waits : w.logger = .waits ↔ w.monitor.place .logging ≠ .outside

theorem Placed.place_outside (hw : Placed w) (h : w.logger ≠ .waits) :
    w.monitor.place .logging = .outside :=
  Classical.byContradiction fun hne => h (hw.waits.mpr hne)

theorem placed_initial : Placed WakeUp.initial :=
  ⟨nofun, nofun, rfl, by decide⟩

theorem placed_readerLock (hw : Placed w) {p : ReaderPc} (h : w.readerLock p = some v)
    (hin : p.Inside) : Placed v := by
  obtain ⟨m, hm, rfl⟩ := Option.map_eq_some_iff.mp h
  obtain ⟨-, -, howner, hplace⟩ := Sync.Monitor.of_enter hm
  refine ⟨fun _ => hin, fun h => ?_, m.awake _ howner, ?_⟩
  · have := howner.symm.trans h
    cases this
  · rw [hplace .logging (by simp)]
    exact hw.waits

theorem placed_readerUnlock (hw : Placed w) {p : ReaderPc} (h : w.readerUnlock p = some v) :
    Placed v := by
  obtain ⟨m, hm, rfl⟩ := Option.map_eq_some_iff.mp h
  obtain ⟨-, howner, hout, hplace⟩ := Sync.Monitor.of_leave hm
  refine ⟨fun h => ?_, fun h => ?_, hout, ?_⟩
  · have := howner.symm.trans h
    cases this
  · have := howner.symm.trans h
    cases this
  · rw [hplace .logging (by simp)]
    exact hw.waits

/-- The reading thread goes on under the mutex, or without it. -/
theorem placed_reader (hw : Placed w) {p : ReaderPc} (hin : w.reader.Inside → p.Inside) :
    Placed { w with reader := p } :=
  ⟨fun h => hin (hw.reading h), hw.logging, hw.outside, hw.waits⟩

theorem placed_readerStep (hw : Placed w) (h : w.readerStep = some v) : Placed v := by
  unfold WakeUp.readerStep at h
  cases hpc : w.reader with
  | read => simp [hpc] at h
  | pushLock | aggregateLock | cleanLock | notifyLock =>
    rw [hpc] at h
    exact placed_readerLock hw h trivial
  | pushUnlock | aggregateUnlock | cleanUnlock =>
    rw [hpc] at h
    exact placed_readerUnlock hw h
  | pushBack =>
    rw [hpc] at h
    obtain rfl := Option.some.inj h
    exact ⟨fun _ => trivial, hw.logging, hw.outside, hw.waits⟩
  | haveNewValues =>
    rw [hpc] at h
    obtain rfl := Option.some.inj h
    have hread := hw.reading
    rw [hpc] at hread
    exact ⟨hread, hw.logging, hw.outside, hw.waits⟩
  | notifyBroadcast =>
    rw [hpc] at h
    obtain rfl := Option.some.inj h
    refine ⟨fun _ => trivial, hw.logging, ?_, ?_⟩
    · simp [Sync.Monitor.broadcast, hw.outside]
    · rw [hw.waits]
      simp only [Sync.Monitor.broadcast]
      split <;> simp_all
  | notifyUnlock =>
    rw [hpc] at h
    obtain ⟨u, hu, rfl⟩ := Option.map_eq_some_iff.mp h
    have hu := placed_readerUnlock hw hu
    exact ⟨hu.reading, hu.logging, hu.outside, hu.waits⟩

/-- The logging thread takes the mutex. -/
theorem placed_loggerEnter (hw : Placed w) {p : LoggerPc} {place : Sync.Place}
    {m : Sync.Monitor ChannelThread} (h : w.monitor.enter place .logging = some m)
    (hin : p.Inside) (hne : p ≠ .waits) : Placed { w with monitor := m, logger := p } := by
  obtain ⟨-, -, howner, hplace⟩ := Sync.Monitor.of_enter h
  refine ⟨fun h => ?_, fun _ => hin, ?_, ?_⟩
  · have := howner.symm.trans h
    cases this
  · rw [hplace .reading (by simp)]
    exact hw.outside
  · simp [hne, m.awake _ howner]

/-- The logging thread gives the mutex up. -/
theorem placed_loggerLeave (hw : Placed w) {p : LoggerPc} {place : Sync.Place}
    {m : Sync.Monitor ChannelThread} (h : w.monitor.leave place .logging = some m)
    (hwaits : p = .waits ↔ place ≠ .outside) : Placed { w with monitor := m, logger := p } := by
  obtain ⟨-, howner, hat, hplace⟩ := Sync.Monitor.of_leave h
  refine ⟨fun h => ?_, fun h => ?_, ?_, ?_⟩
  · have := howner.symm.trans h
    cases this
  · have := howner.symm.trans h
    cases this
  · rw [hplace .reading (by simp)]
    exact hw.outside
  · rw [hat]
    exact hwaits

/-- The logging thread goes on under the mutex, or without it. -/
theorem placed_logger (hw : Placed w) {p : LoggerPc} (hin : w.logger.Inside → p.Inside)
    (hold : w.logger ≠ .waits) (hnew : p ≠ .waits) : Placed { w with logger := p } := by
  refine ⟨hw.reading, fun h => hin (hw.logging h), hw.outside, ?_⟩
  have := hw.waits
  simp only [hold, hnew, false_iff] at this ⊢
  exact this

theorem placed_loggerStep (hw : Placed w) (h : w.loggerStep = some v) : Placed v := by
  unfold loggerStep at h
  cases hpc : w.logger with
  | sending => simp [hpc] at h
  | waitLock | drainLock | waits =>
    rw [hpc] at h
    obtain ⟨m, hm, rfl⟩ := Option.map_eq_some_iff.mp h
    exact placed_loggerEnter hw hm trivial (by simp)
  | waitUnlock | drainUnlock | waitBlock =>
    rw [hpc] at h
    obtain ⟨m, hm, rfl⟩ := Option.map_eq_some_iff.mp h
    exact placed_loggerLeave hw hm (by simp)
  | waitTest =>
    rw [hpc] at h
    obtain rfl := Option.some.inj h
    refine placed_logger hw (fun _ => ?_) (by simp [hpc]) ?_ <;> split <;> simp [LoggerPc.Inside]
  | waitClear =>
    rw [hpc] at h
    obtain rfl := Option.some.inj h
    have := placed_logger hw (p := .waitUnlock) (fun _ => trivial) (by simp [hpc]) (by simp)
    exact ⟨this.reading, this.logging, this.outside, this.waits⟩
  | send =>
    rw [hpc] at h
    obtain rfl := Option.some.inj h
    have := placed_logger hw (p := .sending) (by rw [hpc]; exact id) (by simp [hpc]) (by simp)
    exact ⟨this.reading, this.logging, this.outside, this.waits⟩

theorem placed_step {e : WakeUpEvent} (hw : Placed w) (h : WakeUp.step w e = some v) :
    Placed v := by
  cases e with
  | push | sendData | aggregate =>
    obtain ⟨hpc, rfl⟩ := Option.ite_some_none_eq_some.mp h
    exact placed_reader hw (by rw [hpc]; exact False.elim)
  | drain | sent =>
    obtain ⟨hpc, rfl⟩ := Option.ite_some_none_eq_some.mp h
    exact placed_logger hw (by rw [hpc]; exact False.elim) (by simp [hpc]) (by simp)
  | wake =>
    obtain ⟨m, hm, rfl⟩ := Option.map_eq_some_iff.mp h
    obtain ⟨hwaiting, hmutex, hwoken, hplace⟩ := Sync.Monitor.of_wake hm
    refine ⟨fun h => hw.reading (hmutex ▸ h), fun h => hw.logging (hmutex ▸ h), ?_, ?_⟩
    · rw [hplace .reading (by simp)]
      exact hw.outside
    · rw [hwoken, hw.waits, hwaiting]
      simp
  | step t =>
    cases t with
    | reading => exact placed_readerStep hw h
    | logging => exact placed_loggerStep hw h

theorem exists_enter {m : Sync.Monitor ChannelThread} {place : Sync.Place} {t : ChannelThread}
    (hfree : m.mutex.owner = none) (hplace : m.place t = place) : ∃ n, m.enter place t = some n :=
  ⟨_, if_pos ⟨hfree, hplace⟩⟩

theorem exists_leave {m : Sync.Monitor ChannelThread} {t : ChannelThread}
    (howner : m.mutex.owner = some t) (place : Sync.Place) : ∃ n, m.leave place t = some n :=
  ⟨_, if_pos howner⟩

/-- Events of the logging thread. -/
def ByLogger (e : WakeUpEvent) : Prop := e = .wake ∨ e = .step .logging

/-- Where the logging thread can be without the mutex, not waiting for it. -/
def Away (p : LoggerPc) : Prop := p = .waits ∨ p = .send ∨ p = .sending

theorem leaves (howner : w.monitor.mutex.owner = some .logging)
    (hpc : w.logger = .waitUnlock ∨ w.logger = .drainUnlock ∨ w.logger = .waitBlock) :
    WakeUp.machine.CanReach ByLogger
      (fun v => v.monitor.mutex.owner = none ∧ Away v.logger) w := by
  rcases hpc with hpc | hpc | hpc
  · obtain ⟨m, hm⟩ := exists_leave howner .outside
    obtain ⟨-, hnone, -⟩ := Sync.Monitor.of_leave hm
    exact .once (t := { w with monitor := m, logger := .send }) (.inr rfl)
      (by simp [WakeUp.machine, WakeUp.step, loggerStep, hpc, loggerUnlock, Sync.Monitor.unlock, hm])
      ⟨hnone, .inr (.inl rfl)⟩
  · obtain ⟨m, hm⟩ := exists_leave howner .outside
    obtain ⟨-, hnone, -⟩ := Sync.Monitor.of_leave hm
    exact .once (t := { w with monitor := m, logger := .sending }) (.inr rfl)
      (by simp [WakeUp.machine, WakeUp.step, loggerStep, hpc, loggerUnlock, Sync.Monitor.unlock, hm])
      ⟨hnone, .inr (.inr rfl)⟩
  · obtain ⟨m, hm⟩ := exists_leave howner .waiting
    obtain ⟨-, hnone, -⟩ := Sync.Monitor.of_leave hm
    exact .once (t := { w with monitor := m, logger := .waits }) (.inr rfl)
      (by simp [WakeUp.machine, WakeUp.step, loggerStep, hpc, Sync.Monitor.wait, hm])
      ⟨hnone, .inl rfl⟩

/-- A logging thread that holds the mutex gives it up without any help. -/
theorem releases (hw : Placed w) (howner : w.monitor.mutex.owner = some .logging) :
    WakeUp.machine.CanReach ByLogger
      (fun v => v.monitor.mutex.owner = none ∧ Away v.logger) w := by
  have hin := hw.logging howner
  have hclear : ∀ w : WakeUp, w.monitor.mutex.owner = some .logging → w.logger = .waitClear →
      WakeUp.machine.CanReach ByLogger
        (fun v => v.monitor.mutex.owner = none ∧ Away v.logger) w := fun w howner hpc =>
    .step (t := { w with newValues := false, logger := .waitUnlock }) (.inr rfl)
      (by simp [WakeUp.machine, WakeUp.step, loggerStep, hpc]) (leaves howner (.inl rfl))
  cases hpc : w.logger with
  | waitLock | waits | send | sending | drainLock =>
    rw [hpc] at hin
    exact hin.elim
  | waitUnlock => exact leaves howner (.inl hpc)
  | drainUnlock => exact leaves howner (.inr (.inl hpc))
  | waitBlock => exact leaves howner (.inr (.inr hpc))
  | waitClear => exact hclear w howner hpc
  | waitTest =>
    by_cases hnew : w.newValues = true
    · exact .step (t := { w with logger := .waitClear }) (.inr rfl)
        (by simp [WakeUp.machine, WakeUp.step, loggerStep, hpc, hnew]) (hclear _ howner rfl)
    · exact .step (t := { w with logger := .waitBlock }) (.inr rfl)
        (by simp [WakeUp.machine, WakeUp.step, loggerStep, hpc, hnew])
        (leaves howner (.inr (.inr rfl)))

/-- The cancellation can take effect. -/
def Mortal (w : WakeUp) : Prop := ∃ v, loggerDies w = some v

theorem mortal_of_away (hw : Placed w) (hfree : w.monitor.mutex.owner = none)
    (haway : Away w.logger) : WakeUp.machine.CanReach ByLogger Mortal w := by
  rcases haway with hpc | hpc | hpc
  · have hmortal : ∀ w : WakeUp, w.monitor.mutex.owner = none → w.logger = .waits →
        w.monitor.place .logging = .woken → Mortal w := by
      intro w hfree hpc hplace
      obtain ⟨m, hm⟩ := exists_enter hfree hplace
      exact ⟨{ w with monitor := m, logger := .waitTest },
        by simp [loggerDies, loggerStep, hpc, Sync.Monitor.relock, hm]⟩
    cases hplace : w.monitor.place .logging with
    | outside => exact absurd hplace (hw.waits.mp hpc)
    | woken => exact .here (hmortal w hfree hpc hplace)
    | waiting =>
      obtain ⟨m, hm⟩ : ∃ m, w.monitor.wake .logging = some m := ⟨_, dif_pos hplace⟩
      obtain ⟨-, hmutex, hwoken, -⟩ := Sync.Monitor.of_wake hm
      exact .once (t := { w with monitor := m }) (.inl rfl)
        (by simp [WakeUp.machine, WakeUp.step, hm])
        (hmortal _ (by rw [hmutex]; exact hfree) hpc hwoken)
  · exact .once (t := { w with started := w.pushed, logger := .sending }) (.inr rfl)
      (by simp [WakeUp.machine, WakeUp.step, loggerStep, hpc]) ⟨_, rfl⟩
  · exact .here ⟨w, by rw [loggerDies, hpc]⟩

theorem placed_byLogger {e : WakeUpEvent} (hw : Placed w) (_ : ByLogger e)
    (h : WakeUp.step w e = some v) : Placed v := placed_step hw h

/-- A logging thread that the reading thread does not keep from the mutex comes to a point
where its cancellation takes effect. -/
theorem mortal (hw : Placed w) (hinv : WakeUp.Inv w)
    (howner : w.monitor.mutex.owner ≠ some .reading) :
    WakeUp.machine.CanReach ByLogger Mortal w := by
  have hheld : ∀ w, Placed w → w.monitor.mutex.owner = some .logging →
      WakeUp.machine.CanReach ByLogger Mortal w := fun w hw howner =>
    ((releases hw howner).keeps hw fun _ _ _ hs he => placed_byLogger hs he).trans
      fun _ ⟨⟨hfree, haway⟩, hv⟩ => mortal_of_away hv hfree haway
  have hlock : ∀ p : LoggerPc, p.Inside → w.monitor.place .logging = .outside →
      w.monitor.mutex.owner = none → w.loggerStep = w.loggerLock p → p ≠ .waits →
        WakeUp.machine.CanReach ByLogger Mortal w := by
    intro p hin hplace hfree hstep hne
    obtain ⟨m, hm⟩ := exists_enter hfree hplace
    obtain ⟨-, -, hlogging, -⟩ := Sync.Monitor.of_enter hm
    refine .step (t := { w with monitor := m, logger := p }) (.inr rfl) ?_
      (hheld _ (placed_loggerEnter hw hm hin hne) hlogging)
    show w.loggerStep = _
    rw [hstep]
    simp [loggerLock, Sync.Monitor.lock, hm]
  rcases ho : w.monitor.mutex.owner with _ | t
  · cases hpc : w.logger with
    | waits => exact mortal_of_away hw ho (.inl hpc)
    | send => exact mortal_of_away hw ho (.inr (.inl hpc))
    | sending => exact mortal_of_away hw ho (.inr (.inr hpc))
    | waitLock =>
      exact hlock .waitTest trivial (hw.place_outside (by simp [hpc])) ho
        (by rw [loggerStep, hpc]) (by simp)
    | drainLock =>
      exact hlock .drainUnlock trivial (hw.place_outside (by simp [hpc])) ho
        (by rw [loggerStep, hpc]) (by simp)
    | waitTest | waitBlock | waitClear | waitUnlock | drainUnlock =>
      have := hinv.logger (by rw [hpc]; trivial)
      rw [ho] at this
      cases this
  · cases t with
    | reading => exact absurd ho howner
    | logging => exact hheld w hw ho

/-- How far the reading thread is from the end of its work on a channel. -/
def ahead : ReaderPc → Nat
  | .read => 0
  | .pushUnlock | .notifyUnlock => 1
  | .pushBack | .notifyBroadcast => 2
  | .pushLock | .notifyLock => 3
  | .cleanUnlock => 4
  | .cleanLock => 5
  | .haveNewValues => 6
  | .aggregateUnlock => 7
  | .aggregateLock => 8

/-- The reading thread goes on, unless it waits for the mutex. -/
theorem advances (hw : Placed w) (hinv : WakeUp.Inv w) (hread : w.reader ≠ .read)
    (hfree : w.monitor.mutex.owner ≠ some .logging) :
    ∃ v, w.readerStep = some v ∧ ahead v.reader < ahead w.reader := by
  have hlock : ∀ p : ReaderPc, ¬ w.reader.Inside → ∃ v, w.readerLock p = some v ∧ v.reader = p := by
    intro p hout
    have hnone : w.monitor.mutex.owner = none := by
      rcases ho : w.monitor.mutex.owner with _ | t
      · rfl
      · cases t with
        | reading => exact absurd (hw.reading ho) hout
        | logging => exact absurd ho hfree
    obtain ⟨m, hm⟩ := exists_enter hnone hw.outside
    exact ⟨{ w with monitor := m, reader := p },
      by simp [readerLock, Sync.Monitor.lock, hm], rfl⟩
  have hunlock : ∀ p : ReaderPc, w.reader.Inside → ∃ v, w.readerUnlock p = some v ∧ v.reader = p := by
    intro p hin
    obtain ⟨m, hm⟩ := exists_leave (hinv.reader hin) .outside
    exact ⟨{ w with monitor := m, reader := p },
      by simp [readerUnlock, Sync.Monitor.unlock, hm], rfl⟩
  unfold WakeUp.readerStep
  cases hpc : w.reader with
  | read => exact absurd hpc hread
  | pushLock =>
    obtain ⟨v, hv, hr⟩ := hlock .pushBack (by rw [hpc]; exact id)
    exact ⟨v, hv, by rw [hr]; decide⟩
  | aggregateLock =>
    obtain ⟨v, hv, hr⟩ := hlock .aggregateUnlock (by rw [hpc]; exact id)
    exact ⟨v, hv, by rw [hr]; decide⟩
  | cleanLock =>
    obtain ⟨v, hv, hr⟩ := hlock .cleanUnlock (by rw [hpc]; exact id)
    exact ⟨v, hv, by rw [hr]; decide⟩
  | notifyLock =>
    obtain ⟨v, hv, hr⟩ := hlock .notifyBroadcast (by rw [hpc]; exact id)
    exact ⟨v, hv, by rw [hr]; decide⟩
  | pushUnlock =>
    obtain ⟨v, hv, hr⟩ := hunlock .read (by rw [hpc]; trivial)
    exact ⟨v, hv, by rw [hr]; decide⟩
  | aggregateUnlock =>
    obtain ⟨v, hv, hr⟩ := hunlock .haveNewValues (by rw [hpc]; trivial)
    exact ⟨v, hv, by rw [hr]; decide⟩
  | cleanUnlock =>
    obtain ⟨v, hv, hr⟩ := hunlock .notifyLock (by rw [hpc]; trivial)
    exact ⟨v, hv, by rw [hr]; decide⟩
  | notifyUnlock =>
    obtain ⟨v, hv, hr⟩ := hunlock .read (by rw [hpc]; trivial)
    refine ⟨{ v with notified := v.pushed }, ?_, ?_⟩
    · simp only [hv, Option.map_some]
    · rw [show ({ v with notified := v.pushed } : WakeUp).reader = .read from hr]
      decide
  | pushBack => exact ⟨_, rfl, by simp [ahead]⟩
  | haveNewValues => exact ⟨_, rfl, by simp [ahead]⟩
  | notifyBroadcast => exact ⟨_, rfl, by simp [ahead]⟩

/-- The logging thread leaves the reading thread where it is. -/
theorem reader_of_logger {e : LoggerEvent} (h : WakeUp.step w e.inner = some v) :
    v.reader = w.reader := by
  cases e with
  | drain | sent =>
    obtain ⟨-, rfl⟩ := Option.ite_some_none_eq_some.mp h
    rfl
  | wake =>
    obtain ⟨m, -, rfl⟩ := Option.map_eq_some_iff.mp h
    rfl
  | step =>
    have h : w.loggerStep = some v := h
    unfold loggerStep at h
    cases hpc : w.logger with
    | sending => simp [hpc] at h
    | waitLock | drainLock | waits | waitUnlock | drainUnlock | waitBlock =>
      rw [hpc] at h
      obtain ⟨m, -, rfl⟩ := Option.map_eq_some_iff.mp h
      rfl
    | waitTest | waitClear | send =>
      rw [hpc] at h
      obtain rfl := Option.some.inj h
      rfl

/-- A logging thread ends as it would go on. -/
theorem loggerDies_cases (h : loggerDies w = some v) : v = w ∨ w.loggerStep = some v := by
  unfold loggerDies at h
  cases hpc : w.logger with
  | waits =>
    rw [hpc] at h
    exact .inr h
  | sending =>
    rw [hpc] at h
    exact .inl (Option.some.inj h).symm
  | _ =>
    rw [hpc] at h
    cases h

/-- The reading thread takes no mutex that is held, and gives up only its own: it comes to
no end with a channel whose mutex the logging thread holds. -/
theorem owner_of_reader (hinv : WakeUp.Inv w) (h : w.readerStep = some v)
    (howner : w.monitor.mutex.owner = some .logging) :
    v.reader ≠ .read ∧ v.monitor.mutex.owner = some .logging := by
  have hout : ¬ w.reader.Inside := reader_outside hinv howner
  have hlock : ∀ p, w.readerLock p ≠ some v := by
    intro p hp
    obtain ⟨m, hm, -⟩ := Option.map_eq_some_iff.mp hp
    have := (Sync.Monitor.of_enter hm).1
    rw [howner] at this
    cases this
  unfold WakeUp.readerStep at h
  cases hpc : w.reader with
  | read => simp [hpc] at h
  | pushLock | aggregateLock | cleanLock | notifyLock =>
    rw [hpc] at h
    exact absurd h (hlock _)
  | haveNewValues =>
    rw [hpc] at h
    obtain rfl := Option.some.inj h
    exact ⟨by simp, howner⟩
  | _ =>
    rw [hpc] at hout
    exact absurd trivial hout

theorem ByLogger.inner {e : WakeUpEvent} (h : ByLogger e) : ∃ f : LoggerEvent, e = f.inner := by
  rcases h with rfl | rfl
  · exact ⟨.wake, rfl⟩
  · exact ⟨.step, rfl⟩

/-- The reading thread does not hand the mutex to the logging thread. -/
theorem owner_ne_of_reader (h : w.readerStep = some v)
    (howner : w.monitor.mutex.owner ≠ some .logging) :
    v.monitor.mutex.owner ≠ some .logging := by
  have hlock : ∀ p v, w.readerLock p = some v → v.monitor.mutex.owner ≠ some .logging := by
    intro p v hp
    obtain ⟨m, hm, rfl⟩ := Option.map_eq_some_iff.mp hp
    simp only [(Sync.Monitor.of_enter hm).2.2.1]
    decide
  have hunlock : ∀ p v, w.readerUnlock p = some v → v.monitor.mutex.owner ≠ some .logging := by
    intro p v hp
    obtain ⟨m, hm, rfl⟩ := Option.map_eq_some_iff.mp hp
    simp only [(Sync.Monitor.of_leave hm).2.1]
    decide
  unfold WakeUp.readerStep at h
  cases hpc : w.reader with
  | read => simp [hpc] at h
  | pushLock | aggregateLock | cleanLock | notifyLock =>
    rw [hpc] at h
    exact hlock _ v h
  | pushUnlock | aggregateUnlock | cleanUnlock =>
    rw [hpc] at h
    exact hunlock _ v h
  | pushBack | haveNewValues | notifyBroadcast =>
    rw [hpc] at h
    obtain rfl := Option.some.inj h
    exact howner
  | notifyUnlock =>
    rw [hpc] at h
    obtain ⟨u, hu, rfl⟩ := Option.map_eq_some_iff.mp h
    exact hunlock _ u hu

/-- The work on a channel comes to its end, if the logging thread lives or did not end with
the mutex. -/
theorem finishes {alive : Prop} (hw : Placed w) (hinv : WakeUp.Inv w)
    (hfree : alive ∨ w.monitor.mutex.owner ≠ some .logging) :
    WakeUp.machine.CanReach (fun e => alive ∧ ByLogger e ∨ e = .step .reading)
      (fun v => v.reader = .read ∧ (alive ∨ v.monitor.mutex.owner ≠ some .logging)) w := by
  have hreach := EventMachine.Machine.canReach_of_rank (M := WakeUp.machine)
    (D := fun e => alive ∧ ByLogger e ∨ e = .step .reading) (P := fun v => v.reader = .read)
    (I := fun w => Placed w ∧ WakeUp.Inv w ∧
      (alive ∨ w.monitor.mutex.owner ≠ some .logging))
    (fun w => ahead w.reader) ?_ ⟨hw, hinv, hfree⟩
  · refine (hreach.keeps (I := fun w => alive ∨ w.monitor.mutex.owner ≠ some .logging) hfree
      ?_).mono (fun _ => id) fun _ => id
    rintro w e v hfree (⟨halive, -⟩ | rfl) hst
    · exact .inl halive
    · exact hfree.imp id (owner_ne_of_reader hst)
  · rintro w ⟨hw, hinv, hfree⟩ hread
    have hadvance : ∀ w, Placed w → WakeUp.Inv w → w.reader ≠ .read →
        w.monitor.mutex.owner ≠ some .logging →
        WakeUp.machine.CanReach (fun e => alive ∧ ByLogger e ∨ e = .step .reading)
          (fun v => (Placed v ∧ WakeUp.Inv v ∧ (alive ∨ v.monitor.mutex.owner ≠ some .logging)) ∧
            ahead v.reader < ahead w.reader) w := by
      intro w hw hinv hread hne
      obtain ⟨v, hv, hlt⟩ := advances hw hinv hread hne
      have hst : WakeUp.step w (.step .reading) = some v := hv
      exact .once (.inr rfl) hst
        ⟨⟨placed_step hw hst, WakeUp.inv_step hinv hst, .inr (owner_ne_of_reader hv hne)⟩, hlt⟩
    by_cases howner : w.monitor.mutex.owner = some .logging
    · -- the logging thread gives the mutex up first
      have halive := hfree.resolve_right (not_not.mpr howner)
      have hkeeps := (releases hw howner).keeps
        (I := fun v => Placed v ∧ WakeUp.Inv v ∧ v.reader = w.reader) ⟨hw, hinv, rfl⟩ ?_
      · refine (hkeeps.mono (fun e he => .inl ⟨halive, he⟩) fun _ => id).trans ?_
        rintro v ⟨⟨hnone, -⟩, hv, hvinv, hr⟩
        have := hadvance v hv hvinv (hr ▸ hread) (by rw [hnone]; simp)
        rwa [hr] at this
      · rintro u e v ⟨hu, huinv, hr⟩ he hst
        obtain ⟨f, rfl⟩ := he.inner
        exact ⟨placed_step hu hst, WakeUp.inv_step huinv hst, (reader_of_logger hst).trans hr⟩
    · exact hadvance w hw hinv hread howner

end Channel

end VzLogger.Shutdown
