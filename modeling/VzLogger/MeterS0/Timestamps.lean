import VzLogger.MeterS0.Timed
import Mathlib.Data.List.Chain
import Mathlib.Algebra.Order.Group.Unbundled.Int

/-! # Which impulse a timestamp belongs to

A blocking meter stamps every event of its input before it looks whether the event
was an impulse.  `read` counts what has been counted by then, but takes its time from
the last stamp: that of a bounce, of the other direction, or of an impulse that is not
in the count.  It may also have moved the reference that the stamp counts from.

In every run the time returned is that of the stamp that was loaded.  Where the event of
that stamp is the latest impulse in the count, the time is right.
-/
namespace VzLogger.MeterS0
open Timespec (SameMs)

/-! ## What is to hold, and when -/

/-- The power of a call is computed from its own timestamp and that of the call before,
held apart by a microsecond if they are the same: the interval is not empty, and not
negative if the events were in order. -/
def Report.Follows (latest : Report → Option Timespec) (r r' : Report) : Prop :=
  0 < r.tImp → 0 < r'.tImp →
    (r'.t1 = r.time.seconds ∧
      r'.t2 = if r'.time.seconds = r'.t1 then r'.time.seconds + 1 / 1000000
        else r'.time.seconds) ∧
    r'.t1 ≠ r'.t2 ∧ ∀ i ∈ latest r, ∀ i' ∈ latest r', i.ns ≤ i'.ns → r'.t1 < r'.t2

/-- A reading of impulses that is not zero is the one of a report. -/
def FromReport (m : MeterS0) (reports : List Report) (rds : List Reading) (rd : Reading) : Prop :=
  rd.identifier = .string impulse → rd.value ≠ 0 →
    ∃ r ∈ reports, 0 < r.tImp ∧ rd = reading impulse r.time r.tImp ∧
      rds = m.rds r.firstImpulse r.tImp r.tImpNeg r.time r.t1 r.t2

/-- Every reading of impulses that is not zero has the time, in milliseconds, of the
latest impulse in its count, and no power is computed from a wrong or empty
interval. -/
structure TimesBelong (m : MeterS0) (w : Timed) : Prop where
  readings : ∀ rds ∈ w.run.returned, ∀ rd ∈ rds, FromReport m w.reports rds rd
  times : ∀ r ∈ w.reports, 0 < r.tImp → ∃ t ∈ r.impulse, r.time.SameMs t
  intervals : w.reports.IsChain (Report.Follows Report.impulse)

/-- What the clock shows is valid. -/
def Event.ValidClock : Event → Prop
  | .stamp now | .clock now => now.Valid
  | _ => True

/-- No stamp is stored while `read` is between a count that is not zero and its stamp.
When `read` loads such a count, the event of the last stamp is in it; when it loads the
stamp, the stamp counts from the reference as it is. -/
def Punctual (w : Timed) : Event → Prop
  | .counter =>
    match w.run.counter with
    | .stamped _ => ¬w.run.reader.Awaits
    | _ => True
  | .reader =>
    match w.run.reader with
    | .loadImp => 0 < w.run.impulses → w.msCounted = true
    | .loadMs tImp _ _ => 0 < tImp → w.msRef = .current
    | _ => True
  | _ => True

/-! ## The clocks -/

/-- `ref` and so many milliseconds are the time `t`, to the millisecond. -/
def Within (ref : Timespec) (ms : Nat) (t : Timespec) : Prop := (ref.addMs ms).SameMs t

/-- So many milliseconds stand for the time `t`, where `ref` is `_time_last_ref`. -/
def Reference.Stands (r : Reference) (ref : Timespec) (ms : Nat) (t : Timespec) : Prop :=
  match r with
  | .current => Within ref ms t
  | .shifted => ∃ ref' : Timespec, ref = ref'.addMs (2 ^ 30) ∧ Within ref' ms t
  | .gone => True

/-- The clock that the running call has read. -/
def ReadPc.req : ReadPc → Option Timespec
  | .addRef _ _ req | .loadMs _ _ req | .checkMs _ _ req _ | .shiftRef _ _ req _
  | .subMs _ _ req _ => some req
  | _ => none

/-- What the clock shows is valid, and the milliseconds computed from it stand for it. -/
structure Clocks (m : MeterS0) (w : Timed) : Prop where
  timeLastRef : w.run.timeLastRef.Valid
  timeLastRead : w.run.timeLastRead.Valid
  req : ∀ req ∈ w.run.reader.req, req.Valid
  stamped : ∀ ms, w.run.counter = .stamped ms →
    ms < 2 ^ m.longBits ∧ w.clockRef.Stands w.run.timeLastRef ms w.clock
  msLastImpulse : w.run.msLastImpulse < 2 ^ m.longBits ∧
    w.msRef.Stands w.run.timeLastRef w.run.msLastImpulse w.msClock

section Clocks
variable {m : MeterS0} {w t : Timed}

theorem within_subMs (hlong : 32 ≤ m.longBits) {now ref : Timespec} (hnow : now.Valid)
    (href : ref.Valid) (hfits : Fits m ref now) :
    Within ref (Timespec.subMs m.longBits now ref) now := by
  obtain ⟨hle, hlt⟩ := hfits
  obtain ⟨hle', hlt'⟩ := Timespec.subMs_spec hlong hnow href hle hlt
  simp only [Within, SameMs, Timespec.ns_addMs]
  exact ⟨hle', hlt'⟩

/-- Taking `2 ^ 30` milliseconds off and adding them to the reference is no change. -/
theorem within_shift {ref : Timespec} {ms longBits : Nat} {clock : Timespec}
    (h : Within ref ms clock) (hms : 2 ^ 30 ≤ ms) (hlt : ms < 2 ^ longBits) :
    Within (ref.addMs (2 ^ 30)) (Timespec.toULong longBits (ms - 2 ^ 30)) clock := by
  have hpow : ((2 ^ longBits : Nat) : Int) = 2 ^ longBits := by push_cast; rfl
  have hsub : (Timespec.toULong longBits (ms - 2 ^ 30) : Int) = ms - 2 ^ 30 :=
    Timespec.toULong_of_lt (by omega) (by omega)
  simp only [Within, SameMs, Timespec.ns_addMs] at h ⊢
  omega

theorem Reference.Stands.shift {r : Reference} {ref t : Timespec} {ms : Nat}
    (h : r.Stands ref ms t) : r.shift.Stands (ref.addMs (2 ^ 30)) ms t := by
  cases r with
  | current => exact ⟨ref, rfl, h⟩
  | shifted | gone => trivial

theorem clocks_initial {now : Timespec} (hnow : now.Valid) : Clocks m (Timed.initial now) where
  timeLastRef := hnow
  timeLastRead := hnow
  req := fun _ h => by cases h
  stamped := fun _ h => by cases h
  msLastImpulse := by
    refine ⟨Nat.two_pow_pos _, ?_⟩
    simp [Timed.initial, MeterS0.initial, Reference.Stands, Within, SameMs]

theorem clocks_counter (hlong : 32 ≤ m.longBits) (hblocking : m.blocking = true) {e : Event}
    (hw : Clocks m w) (he : e.ValidClock) (hside : ¬e.OfRead) (h : Timed.step m w e = some t) :
    Clocks m t := by
  have hread := sameRead h hside
  have hlastRef : t.run.timeLastRef.Valid := by
    rw [hread.timeLastRef]
    exact hw.timeLastRef
  have hlastRead : t.run.timeLastRead.Valid := by
    rw [hread.timeLastRead]
    exact hw.timeLastRead
  have hreq : ∀ req ∈ t.run.reader.req, req.Valid := by
    rw [hread.reader]
    exact hw.req
  have hmsLast : t.run.msLastImpulse = w.run.msLastImpulse → t.msRef = w.msRef →
      t.msClock = w.msClock → t.run.msLastImpulse < 2 ^ m.longBits ∧
        t.msRef.Stands t.run.timeLastRef t.run.msLastImpulse t.msClock := by
    intro hms href hclock
    rw [hms, href, hclock, hread.timeLastRef]
    exact hw.msLastImpulse
  cases counts hblocking h hside with
  | stamp now ht =>
    subst ht
    refine ⟨hlastRef, hlastRead, hreq, fun ms hms => ?_, hw.msLastImpulse⟩
    obtain rfl : _ = ms := CounterPc.stamped.inj hms
    refine ⟨Timespec.subMs_lt _ _ _, ?_⟩
    by_cases hfits : Fits m w.run.timeLastRef now
    · simp only [if_pos hfits]
      exact within_subMs hlong he hw.timeLastRef hfits
    · simp only [if_neg hfits]
      trivial
  | store ms hpc ht =>
    subst ht
    exact ⟨hlastRef, hlastRead, hreq, fun ms hms => (by cases hms), hw.stamped ms hpc⟩
  | count hstored hcounter hdone hms ht =>
    exact ⟨hlastRef, hlastRead, hreq, fun ms hpc => absurd hpc (hcounter ms),
      hmsLast hms (by rw [ht]) (by rw [ht])⟩
  | quiet _ hquiet =>
    exact ⟨hlastRef, hlastRead, hreq, fun ms hpc => absurd hpc (hquiet.counter ms),
      hmsLast hquiet.msLastImpulse hquiet.msRef hquiet.msClock⟩

/-- A step of `read` that leaves `_ms_last_impulse` alone. -/
theorem Clocks.read {e : Event} {run : Run} (hw : Clocks m w)
    (hsame : SameCounter w (w.observe m run e)) (hlastRef : run.timeLastRef.Valid)
    (hlastRead : run.timeLastRead.Valid) (hreq : ∀ req ∈ run.reader.req, req.Valid)
    (hms : run.msLastImpulse = w.run.msLastImpulse)
    (href : ∀ {ms clock},
      (w.clockRef.Stands w.run.timeLastRef ms clock →
        (w.observe m run e).clockRef.Stands run.timeLastRef ms clock) ∧
      (w.msRef.Stands w.run.timeLastRef ms clock →
        (w.observe m run e).msRef.Stands run.timeLastRef ms clock)) :
    Clocks m (w.observe m run e) where
  timeLastRef := by
    rw [Timed.observe_run]
    exact hlastRef
  timeLastRead := by
    rw [Timed.observe_run]
    exact hlastRead
  req := by
    rw [Timed.observe_run]
    exact hreq
  stamped := by
    rw [hsame.counter, hsame.clock, Timed.observe_run]
    exact fun ms hpc => ⟨(hw.stamped ms hpc).1, href.1 (hw.stamped ms hpc).2⟩
  msLastImpulse := by
    rw [Timed.observe_run, hms, hsame.msClock]
    exact ⟨hw.msLastImpulse.1, href.2 hw.msLastImpulse.2⟩

theorem clocks_reader (hw : Clocks m w) (h : Timed.step m w .reader = some t) : Clocks m t := by
  have hsame := sameCounter h trivial
  obtain ⟨run, hrun, rfl⟩ := Option.map_eq_some_iff.mp h
  have hreq := hw.req
  simp only [MeterS0.step, readerStep] at hrun
  cases hpc : w.run.reader with
  | idle | clock tImp tImpNeg => simp [hpc] at hrun
  | loadImp | loadNeg tImp | subImp tImp tImpNeg | subNeg tImp tImpNeg
  | report tImp tImpNeg req t1 t2 =>
    rw [hpc] at hrun
    obtain rfl := Option.some.inj hrun
    refine hw.read hsame hw.timeLastRef hw.timeLastRead (fun _ h => by cases h) rfl ?_
    simp only [Timed.observe, hpc]
    exact ⟨id, id⟩
  | test tImp tImpNeg =>
    rw [hpc] at hrun
    obtain rfl := Option.some.inj hrun
    refine hw.read hsame hw.timeLastRef hw.timeLastRead ?_ rfl ?_
    · simp only
      split
      · exact fun _ h => by cases h
      · split <;> exact fun _ h => by cases h
    · simp only [Timed.observe, hpc]
      exact ⟨id, id⟩
  | addRef tImp tImpNeg req =>
    rw [hpc] at hrun hreq
    obtain rfl := Option.some.inj hrun
    have hvalid : req.Valid := hreq req rfl
    refine hw.read hsame ?_ hw.timeLastRead hreq rfl ?_
    · simp only
      split
      · exact Timespec.valid_add hw.timeLastRef (Timespec.valid_sub hvalid hw.timeLastRead)
      · exact hw.timeLastRef
    · -- only a call without impulses moves the reference, and no stamp counts from it then
      intro ms clock
      by_cases hzero : tImp = 0 ∧ tImpNeg = 0
      · obtain ⟨rfl, rfl⟩ := hzero
        simp only [Timed.observe, hpc]
        exact ⟨fun _ => trivial, fun _ => trivial⟩
      · rw [Timed.observe_addRef hpc hzero, if_neg hzero]
        exact ⟨id, id⟩
  | loadMs tImp tImpNeg req =>
    rw [hpc] at hrun hreq
    obtain rfl := Option.some.inj hrun
    refine hw.read hsame hw.timeLastRef hw.timeLastRead hreq rfl ?_
    simp only [Timed.observe, hpc]
    exact ⟨id, id⟩
  | checkMs tImp tImpNeg req temp =>
    rw [hpc] at hrun hreq
    dsimp only at hrun
    split at hrun
    · obtain rfl := Option.some.inj hrun
      refine hw.read hsame hw.timeLastRef hw.timeLastRead hreq rfl ?_
      simp only [Timed.observe, hpc]
      exact ⟨id, id⟩
    · obtain rfl := Option.some.inj hrun
      refine hw.read hsame hw.timeLastRef (hreq req rfl) (fun _ h => by cases h) rfl ?_
      simp only [Timed.observe, hpc]
      exact ⟨id, id⟩
  | shiftRef tImp tImpNeg req temp =>
    rw [hpc] at hrun hreq
    obtain rfl := Option.some.inj hrun
    refine hw.read hsame (Timespec.valid_addMs hw.timeLastRef _) hw.timeLastRead hreq rfl ?_
    simp only [Timed.observe, hpc]
    exact ⟨.shift, .shift⟩
  | subMs tImp tImpNeg req temp =>
    rw [hpc] at hrun hreq
    obtain rfl := Option.some.inj hrun
    obtain ⟨hlt, hstands⟩ := hw.msLastImpulse
    constructor
    · rw [Timed.observe_run]
      exact hw.timeLastRef
    · rw [Timed.observe_run]
      exact hreq req rfl
    · rw [Timed.observe_run]
      exact fun _ h => by cases h
    · rw [hsame.counter, hsame.clock, Timed.observe_run]
      intro ms hstamped
      obtain ⟨hlt, hstands⟩ := hw.stamped ms hstamped
      refine ⟨hlt, ?_⟩
      simp only [Timed.observe, hpc]
      split
      · rename_i hcurrent
        rw [hcurrent] at hstands
        exact hstands
      · trivial
    · rw [hsame.msClock]
      simp only [Timed.observe, hpc, finish]
      refine ⟨Timespec.toULong_lt _ _, ?_⟩
      split
      · -- the reference was moved, and the milliseconds follow
        rename_i hms
        rw [hms.1] at hstands
        obtain ⟨ref, href, hwithin⟩ := hstands
        rw [href]
        exact within_shift hwithin hms.2 hlt
      · trivial

theorem clocks_step (hlong : 32 ≤ m.longBits) (hblocking : m.blocking = true) {e : Event}
    (hw : Clocks m w) (he : e.ValidClock) (h : Timed.step m w e = some t) : Clocks m t := by
  by_cases hside : e.OfRead
  · have hsame := sameCounter h hside
    cases e with
    | status s | impulse | stamp now | dirStatus s | counter => exact absurd hside id
    | reader => exact clocks_reader hw h
    | read n =>
      obtain ⟨run, hrun, rfl⟩ := Option.map_eq_some_iff.mp h
      simp only [MeterS0.step] at hrun
      split at hrun
      · split at hrun
        · obtain rfl := Option.some.inj hrun
          exact hw.read hsame hw.timeLastRef hw.timeLastRead hw.req rfl ⟨id, id⟩
        · obtain rfl := Option.some.inj hrun
          exact hw.read hsame hw.timeLastRef hw.timeLastRead (fun _ h => by cases h) rfl ⟨id, id⟩
      · cases hrun
    | clock now =>
      obtain ⟨run, hrun, rfl⟩ := Option.map_eq_some_iff.mp h
      simp only [MeterS0.step, clockStep] at hrun
      split at hrun
      · rw [if_pos hblocking] at hrun
        obtain rfl := Option.some.inj hrun
        refine hw.read hsame hw.timeLastRef hw.timeLastRead ?_ rfl ⟨id, id⟩
        rintro req ⟨⟩
        exact he
      · cases hrun
  · exact clocks_counter hlong hblocking hw he hside h

end Clocks

/-! ## The times that `read` returns -/

/-- A time made of the last stamp is that of its event. -/
def Timed.Made (w : Timed) (temp : Timespec) : Prop :=
  (∀ s ∈ w.loaded, temp.SameMs s) ∧ temp.phase = w.run.timeLastRef.phase

/-- The running call works with the time of the stamp that it has loaded, and has the
time of the call before at hand. -/
structure Reported (m : MeterS0) (w : Timed) : Prop where
  temp : ∀ temp ∈ w.run.reader.temp, w.Made temp
  previous : ∀ r ∈ w.reports.getLast?, ¬w.run.reader.Reporting →
    w.run.timeLastImpulseReturned = r.time
  report : ∀ tImp tImpNeg req t1 t2, w.run.reader = .report tImp tImpNeg req t1 t2 →
    w.run.timeLastImpulseReturned = req ∧ w.Made req ∧
      (∀ r ∈ w.reports.getLast?, t1 = r.time.seconds) ∧
      t2 = if req.seconds = t1 then req.seconds + 1 / 1000000 else req.seconds
  aligned : ∀ r ∈ w.reports.getLast?, 0 < r.tImp → ¬w.run.reader.Zeroed →
    r.time.phase = w.run.timeLastRef.phase
  readings : ∀ rds ∈ w.run.returned, ∀ rd ∈ rds, FromReport m w.reports rds rd
  stamps : ∀ r ∈ w.reports, ∀ s ∈ r.stamp, r.time.SameMs s
  intervals : w.reports.IsChain (Report.Follows Report.stamp)

section Reported
variable {m : MeterS0} {w t : Timed} {e : Event}

theorem reported_initial (now : Timespec) : Reported m (Timed.initial now) where
  temp := fun _ h => by cases h
  previous := fun _ h => by cases h
  report := fun _ _ _ _ _ h => by cases h
  aligned := fun _ h => by cases h
  readings := fun _ h => by cases h
  stamps := fun _ h => by cases h
  intervals := .nil

/-- The readings of a call that are named for impulses carry its count and its time. -/
theorem mem_rds {first : Bool} {tImp tImpNeg : Nat} {req : Timespec} {t1 t2 : Rat} {rd : Reading}
    (hrd : rd ∈ m.rds first tImp tImpNeg req t1 t2) (hname : rd.identifier = .string impulse) :
    rd = reading impulse req tImp := by
  have hother : ∀ {name : List Char} {value : Rat}, name ≠ impulse →
      rd ≠ reading name req value := by
    rintro name value hne rfl
    exact hne (by injection hname)
  have hmem : ∀ {own powerName : List Char} {n : Nat},
      rd ∈ m.readings first own powerName n req t1 t2 →
        (∃ v, rd = reading powerName req v) ∨ rd = reading own req n := by
    intro own powerName n h
    unfold readings at h
    split at h
    · rcases List.mem_append.mp h with h | h
      · split at h
        · cases h
        · exact Or.inl ⟨_, List.mem_singleton.mp h⟩
      · exact Or.inr (List.mem_singleton.mp h)
    · cases h
  rcases List.mem_append.mp hrd with h | h
  · rcases hmem h with ⟨v, h⟩ | h
    · exact absurd h (hother (by decide))
    · exact h
  · rcases hmem h with ⟨v, h⟩ | h
    · exact absurd h (hother (by decide))
    · exact absurd h (hother (by decide))

theorem FromReport.mono {reports : List Report} {rds : List Reading} {rd : Reading}
    (h : FromReport m reports rds rd) (r : Report) : FromReport m (reports ++ [r]) rds rd := by
  intro hname hvalue
  obtain ⟨r, hr, hrest⟩ := h hname hvalue
  exact ⟨r, List.mem_append_left _ hr, hrest⟩

theorem fromReport_rds (reports : List Report) (r : Report) {rd : Reading}
    (hrd : rd ∈ m.rds r.firstImpulse r.tImp r.tImpNeg r.time r.t1 r.t2) :
    FromReport m (reports ++ [r]) (m.rds r.firstImpulse r.tImp r.tImpNeg r.time r.t1 r.t2) rd := by
  intro hname hvalue
  obtain rfl := mem_rds hrd hname
  have hpos : 0 < r.tImp := by
    refine Nat.pos_of_ne_zero fun h0 => hvalue ?_
    rw [h0]
    rfl
  exact ⟨r, List.mem_append_right _ (List.mem_singleton.mpr rfl), hpos, rfl, rfl⟩

/-- The interval between two calls that count impulses. -/
theorem follows_report (hw : Reported m w) {tImp tImpNeg : Nat} {req : Timespec} {t1 t2 : Rat}
    (hpc : w.run.reader = .report tImp tImpNeg req t1 t2) {r : Report}
    (hr : r ∈ w.reports.getLast?) :
    r.Follows Report.stamp
      ⟨w.run.firstImpulse, tImp, tImpNeg, req, t1, t2, w.loaded, w.included⟩ := by
  intro hpos hpos'
  obtain ⟨-, ⟨hmade, hphase⟩, ht1, ht2⟩ := hw.report _ _ _ _ _ hpc
  have ht1 : t1 = r.time.seconds := ht1 r hr
  refine ⟨⟨ht1, ht2⟩, ?_, fun i hi i' hi' hle => ?_⟩
  · simp only [ht2]
    split
    · rename_i hsame
      rw [hsame]
      linarith
    · rename_i hne
      exact Ne.symm hne
  · -- the reference has kept its phase since the call before
    have hzeroed : ¬w.run.reader.Zeroed := by
      rw [hpc]
      exact Nat.pos_iff_ne_zero.mp hpos'
    have hsame : r.time.phase = req.phase := (hw.aligned r hr hpos hzeroed).trans hphase.symm
    have hns : r.time.ns ≤ req.ns :=
      Timespec.ns_le_of_phase hsame (hw.stamps r (List.mem_of_getLast? hr) i hi) (hmade i' hi') hle
    have hseconds : t1 ≤ req.seconds := by
      rw [ht1]
      exact Timespec.seconds_le hns
    simp only [ht2]
    split
    · linarith
    · rename_i hne
      exact lt_of_le_of_ne hseconds (Ne.symm hne)

/-- **A call returns.** -/
theorem reported_report (hw : Reported m w) {tImp tImpNeg : Nat} {req : Timespec} {t1 t2 : Rat}
    (hpc : w.run.reader = .report tImp tImpNeg req t1 t2) (ht : t = { w with
      run := { w.run with
        firstImpulse :=
          w.run.firstImpulse && (m.rds w.run.firstImpulse tImp tImpNeg req t1 t2).isEmpty
        returned := w.run.returned ++ [m.rds w.run.firstImpulse tImp tImpNeg req t1 t2]
        reader := .idle }
      reports := w.reports ++
        [⟨w.run.firstImpulse, tImp, tImpNeg, req, t1, t2, w.loaded, w.included⟩] }) :
    Reported m t := by
  subst ht
  obtain ⟨htime, hmade, -, -⟩ := hw.report _ _ _ _ _ hpc
  refine ⟨fun _ h => (by cases h), ?_, fun _ _ _ _ _ h => (by cases h), ?_, ?_, ?_, ?_⟩
  · rw [List.getLast?_concat]
    rintro r ⟨⟩ -
    exact htime
  · rw [List.getLast?_concat]
    rintro r ⟨⟩ - -
    exact hmade.2
  · intro rds hrds rd hrd
    rcases List.mem_append.mp hrds with hrds | hrds
    · exact (hw.readings rds hrds rd hrd).mono _
    · obtain rfl := List.mem_singleton.mp hrds
      exact fromReport_rds w.reports
        ⟨w.run.firstImpulse, tImp, tImpNeg, req, t1, t2, w.loaded, w.included⟩ hrd
  · intro r hr
    rcases List.mem_append.mp hr with hr | hr
    · exact hw.stamps r hr
    · obtain rfl := List.mem_singleton.mp hr
      exact hmade.1
  · refine List.isChain_append.mpr ⟨hw.intervals, .singleton _, ?_⟩
    rintro r hr r' ⟨⟩
    exact follows_report hw hpc hr

theorem reported_counter (hw : Reported m w) (hside : ¬e.OfRead)
    (h : Timed.step m w e = some t) : Reported m t := by
  have hread := sameRead h hside
  refine ⟨?_, ?_, ?_, ?_, ?_, ?_, ?_⟩
  · simp only [Timed.Made, hread.reader, hread.loaded, hread.timeLastRef]
    exact hw.temp
  · rw [hread.reports, hread.reader, hread.timeLastImpulseReturned]
    exact hw.previous
  · simp only [Timed.Made, hread.reader, hread.timeLastImpulseReturned, hread.loaded,
      hread.timeLastRef, hread.reports]
    exact hw.report
  · rw [hread.reports, hread.reader, hread.timeLastRef]
    exact hw.aligned
  · rw [hread.returned, hread.reports]
    exact hw.readings
  · rw [hread.reports]
    exact hw.stamps
  · rw [hread.reports]
    exact hw.intervals

theorem reported_kept (hw : Reported m w) (hkept : Kept w t) : Reported m t := by
  refine ⟨fun temp htemp => ?_, ?_, fun _ _ _ _ _ h => ?_, fun r hr hpos hzeroed => ?_,
    fun rds hrds rd hrd => ?_, ?_, ?_⟩
  · rcases hkept.phase with hphase | ⟨-, hnone⟩
    · rw [hkept.temp] at htemp
      rw [Timed.Made, hkept.loaded, hphase]
      exact hw.temp temp htemp
    · rw [hnone] at htemp
      cases htemp
  · rw [hkept.reports, hkept.timeLastImpulseReturned]
    exact fun r hr _ => hw.previous r hr hkept.reporting.1
  · exact absurd (by rw [h]; trivial) hkept.reporting.2
  · rw [hkept.reports] at hr
    rcases hkept.phase with hphase | ⟨hzero, -⟩
    · rw [hphase]
      exact hw.aligned r hr hpos fun h => hzeroed (hkept.zeroed h)
    · exact absurd hzero hzeroed
  · rw [hkept.reports]
    rcases hkept.returned rds hrds with hrds | rfl
    · exact hw.readings rds hrds rd hrd
    · cases hrd
  · rw [hkept.reports]
    exact hw.stamps
  · rw [hkept.reports]
    exact hw.intervals

theorem reported_read (hblocking : m.blocking = true) (hclocks : Clocks m w)
    (hw : Reported m w) (hside : e.OfRead) (h : Timed.step m w e = some t) : Reported m t := by
  cases reads hblocking h hside with
  | load _ hpc ht =>
    subst ht
    have hbefore : ¬w.run.reader.Reporting ∧ ¬w.run.reader.Zeroed := by
      rw [hpc]
      exact ⟨id, id⟩
    exact ⟨fun _ h => (by cases h), fun r hr _ => hw.previous r hr hbefore.1,
      fun _ _ _ _ _ h => (by cases h), fun r hr hpos _ => hw.aligned r hr hpos hbefore.2,
      hw.readings, hw.stamps, hw.intervals⟩
  | loadMs tImp tImpNeg req _ hpc ht =>
    subst ht
    refine ⟨?_, ?_, fun _ _ _ _ _ h => (by cases h), ?_, hw.readings, hw.stamps, hw.intervals⟩
    · rintro temp ⟨⟩
      refine ⟨fun s hs => ?_, Timespec.phase_addMs _ _⟩
      -- the milliseconds stand for the clock at the stamp
      obtain ⟨hcurrent, rfl⟩ := Option.ite_some_none_eq_some.mp hs
      have hstands := hclocks.msLastImpulse.2
      rw [hcurrent] at hstands
      exact hstands
    · exact fun r hr _ => hw.previous r hr (by rw [hpc]; exact id)
    · exact fun r hr hpos hzeroed => hw.aligned r hr hpos (by rw [hpc]; exact hzeroed)
  | finish tImp tImpNeg temp htemp _ hzeroed hreader htime href hreturned hbooks =>
    obtain ⟨-, hloaded, hreports⟩ := hbooks
    have hbefore : ¬w.run.reader.Reporting := by
      intro hreporting
      cases hpc : w.run.reader <;> rw [hpc] at htemp hreporting <;> cases htemp <;> cases hreporting
    have hmade := hw.temp temp htemp
    refine ⟨?_, ?_, ?_, ?_, ?_, ?_, ?_⟩
    · rw [hreader]
      exact fun _ h => by cases h
    · rw [hreader]
      exact fun _ _ h => absurd trivial h
    · simp only [Timed.Made, hreader, htime, hloaded, href, hreports]
      rintro _ _ _ _ _ ⟨⟩
      exact ⟨rfl, hmade, fun r hr => by rw [hw.previous r hr hbefore], rfl⟩
    · rw [hreports, href, hreader]
      exact fun r hr hpos hz => hw.aligned r hr hpos fun h => hz (hzeroed.mp h)
    · rw [hreturned, hreports]
      exact hw.readings
    · rw [hreports]
      exact hw.stamps
    · rw [hreports]
      exact hw.intervals
  | report tImp tImpNeg req t1 t2 hpc ht => exact reported_report hw hpc ht
  | kept hkept => exact reported_kept hw hkept

end Reported

/-! ## Which event was stamped -/

/-- Clock and impulse are the same event. -/
def Paired (stamp impulse : Option Timespec) : Prop := ∃ t, stamp = some t ∧ impulse = some t

/-- The stamp that a call waits for or has loaded is that of the latest impulse in its
count. -/
structure Matched (w : Timed) : Prop where
  stored : w.run.counter.Stored → w.msClock = w.clock
  counted : w.msCounted = true → w.counted = some w.msClock
  awaits : w.run.reader.Awaits → w.included = some w.msClock
  dated : w.run.reader.Dated → Paired w.loaded w.included
  reports : ∀ r ∈ w.reports, 0 < r.tImp → Paired r.stamp r.impulse

section Matched
variable {m : MeterS0} {w t : Timed} {e : Event}

theorem matched_initial (now : Timespec) : Matched (Timed.initial now) where
  stored := fun h => h.elim
  counted := fun h => by cases h
  awaits := fun h => h.elim
  dated := fun h => h.elim
  reports := fun _ h => by cases h

theorem matched_counter (hblocking : m.blocking = true) (hw : Matched w) (he : Punctual w e)
    (hside : ¬e.OfRead) (h : Timed.step m w e = some t) : Matched t := by
  have hread := sameRead h hside
  have hdated : t.run.reader.Dated → Paired t.loaded t.included := by
    rw [hread.reader, hread.loaded, hread.included]
    exact hw.dated
  have hreports : ∀ r ∈ t.reports, 0 < r.tImp → Paired r.stamp r.impulse := by
    rw [hread.reports]
    exact hw.reports
  have hawaits : t.msClock = w.msClock → t.run.reader.Awaits → t.included = some t.msClock := by
    intro hclock
    rw [hread.reader, hread.included, hclock]
    exact hw.awaits
  cases counts hblocking h hside with
  | stamp now ht =>
    subst ht
    exact ⟨fun h => h.elim, hw.counted, hawaits rfl, hdated, hreports⟩
  | store ms hpc ht =>
    subst ht
    -- no call waits for a stamp
    simp only [Punctual, hpc] at he
    exact ⟨fun _ => rfl, fun h => (by cases h), fun h => absurd h he, hdated, hreports⟩
  | count hstored _ hdone _ ht =>
    have hclock : t.msClock = w.msClock := by rw [ht]
    refine ⟨fun h => absurd h hdone, fun _ => ?_, hawaits hclock, hdated, hreports⟩
    rw [hclock, ht, hw.stored hstored]
  | quiet _ hquiet =>
    refine ⟨fun h => ?_, ?_, hawaits hquiet.msClock, hdated, hreports⟩
    · rw [hquiet.msClock, hquiet.clock]
      exact hw.stored (hquiet.stored h)
    · rw [hquiet.msCounted, hquiet.counted, hquiet.msClock]
      exact hw.counted

theorem matched_read (hblocking : m.blocking = true) (hw : Matched w) (he : Punctual w e)
    (hside : e.OfRead) (h : Timed.step m w e = some t) : Matched t := by
  have hsame := sameCounter h hside
  have hstored : t.run.counter.Stored → t.msClock = t.clock := by
    rw [hsame.counter, hsame.msClock, hsame.clock]
    exact hw.stored
  have hcounted : t.msCounted = true → t.counted = some t.msClock := by
    rw [hsame.msCounted, hsame.counted, hsame.msClock]
    exact hw.counted
  cases reads hblocking h hside with
  | load hevent hpc ht =>
    subst ht hevent
    simp only [Punctual, hpc] at he
    exact ⟨hstored, hcounted, fun hpos => hw.counted (he hpos), fun h => h.elim, hw.reports⟩
  | loadMs tImp tImpNeg req hevent hpc ht =>
    subst ht hevent
    simp only [Punctual, hpc] at he
    refine ⟨hstored, hcounted, fun h => h.elim, fun hpos => ?_, hw.reports⟩
    exact ⟨w.msClock, if_pos (he hpos), hw.awaits (by rw [hpc]; exact hpos)⟩
  | finish tImp tImpNeg temp _ hdated _ hreader _ _ _ hbooks =>
    obtain ⟨hincluded, hloaded, hreports⟩ := hbooks
    refine ⟨hstored, hcounted, ?_, ?_, ?_⟩
    · rw [hreader]
      exact fun h => h.elim
    · rw [hreader, hloaded, hincluded]
      exact fun hpos => hw.dated (hdated.mpr hpos)
    · rw [hreports]
      exact hw.reports
  | report tImp tImpNeg req t1 t2 hpc ht =>
    subst ht
    refine ⟨hstored, hcounted, fun h => h.elim, fun h => h.elim, fun r hr hpos => ?_⟩
    rcases List.mem_append.mp hr with hr | hr
    · exact hw.reports r hr hpos
    · obtain rfl := List.mem_singleton.mp hr
      exact hw.dated (by rw [hpc]; exact hpos)
  | kept hkept =>
    refine ⟨hstored, hcounted, fun h => ?_, ?_, ?_⟩
    · rw [hkept.included, hsame.msClock]
      exact hw.awaits (hkept.awaits h)
    · rw [hkept.loaded, hkept.included]
      exact fun h => hw.dated (hkept.dated h)
    · rw [hkept.reports]
      exact hw.reports

end Matched

/-! ## Runs -/

section Runs
variable {m : MeterS0}

structure TimedInv (m : MeterS0) (w : Timed) : Prop where
  clocks : Clocks m w
  reported : Reported m w

theorem timedInv_step (hlong : 32 ≤ m.longBits) (hblocking : m.blocking = true) {w t : Timed}
    {e : Event} (hw : TimedInv m w) (he : e.ValidClock) (h : Timed.step m w e = some t) :
    TimedInv m t := by
  refine ⟨clocks_step hlong hblocking hw.clocks he h, ?_⟩
  by_cases hside : e.OfRead
  · exact reported_read hblocking hw.clocks hw.reported hside h
  · exact reported_counter hw.reported hside h

/-- Whatever was stamped, the time returned is the time of the stamp. -/
theorem reported_run (hlong : 32 ≤ m.longBits) (hblocking : m.blocking = true) {now : Timespec}
    (hnow : now.Valid) {es : List Event} {w : Timed} (hclock : ∀ e ∈ es, e.ValidClock)
    (hrun : (Timed.machine m now).run (Timed.initial now) es = some w) : Reported m w := by
  have hinitial : TimedInv m (Timed.initial now) := ⟨clocks_initial hnow, reported_initial now⟩
  exact (EventMachine.Machine.run_induction_of_forall hrun hclock hinitial
    fun _ _ _ hw he h => timedInv_step hlong hblocking hw he h).reported

theorem matched_run (hblocking : m.blocking = true) {now : Timespec} {es : List Event} {w : Timed}
    (hes : (Timed.machine m now).EachStep Punctual (Timed.initial now) es)
    (hrun : (Timed.machine m now).run (Timed.initial now) es = some w) : Matched w := by
  have hstep : ∀ s e t, Matched s → Punctual s e → (Timed.machine m now).step s e = some t →
      Matched t := by
    intro s e t hs he h
    by_cases hside : e.OfRead
    · exact matched_read hblocking hs he hside h
    · exact matched_counter hblocking hs he hside h
  exact EventMachine.Machine.run_invariant hstep (matched_initial now) hes hrun

/-- The times of the stamps are those of the impulses. -/
theorem timesBelong_of_matched {w : Timed} (hreported : Reported m w) (hmatched : Matched w) :
    TimesBelong m w where
  readings := hreported.readings
  times := by
    intro r hr hpos
    obtain ⟨t, hstamp, himpulse⟩ := hmatched.reports r hr hpos
    exact ⟨t, himpulse, hreported.stamps r hr t hstamp⟩
  intervals := by
    refine hreported.intervals.imp_of_mem_imp fun r r' hr hr' hfollows hpos hpos' => ?_
    obtain ⟨t, hstamp, himpulse⟩ := hmatched.reports r hr hpos
    obtain ⟨t', hstamp', himpulse'⟩ := hmatched.reports r' hr' hpos'
    rw [himpulse, himpulse', ← hstamp, ← hstamp']
    exact hfollows hpos hpos'

/-- A time of one event is not that of another, a millisecond away. -/
theorem not_timesBelong {w : Timed} (hreported : Reported m w) {r : Report} (hr : r ∈ w.reports)
    (hpos : 0 < r.tImp) {s i : Timespec} (hs : s ∈ r.stamp) (hi : i ∈ r.impulse)
    (hfar : 1000000 ≤ |s.ns - i.ns|) : ¬TimesBelong m w := by
  intro hw
  obtain ⟨hle, hlt⟩ := hreported.stamps r hr s hs
  obtain ⟨t, ht, hle', hlt'⟩ := hw.times r hr hpos
  obtain rfl : i = t := Option.some.inj (hi.symm.trans ht)
  rcases abs_cases (s.ns - i.ns) with ⟨habs, -⟩ | ⟨habs, -⟩ <;> omega

/-- **Timestamps belong to counted impulses**, in every state of every run in which
`read` loads no other stamp than that of the latest impulse it counts; and where it
loads the stamp of an event a millisecond away from that impulse, they do not. -/
theorem times_belong (hlong : 32 ≤ m.longBits) (hblocking : m.blocking = true) {now : Timespec}
    (hnow : now.Valid) {es : List Event} {w : Timed} (hclock : ∀ e ∈ es, e.ValidClock)
    (hrun : (Timed.machine m now).run (Timed.initial now) es = some w) :
    ((Timed.machine m now).EachStep Punctual (Timed.initial now) es → TimesBelong m w) ∧
      ∀ r ∈ w.reports, 0 < r.tImp → ∀ s ∈ r.stamp, ∀ i ∈ r.impulse,
        1000000 ≤ |s.ns - i.ns| → ¬TimesBelong m w := by
  have hreported := reported_run hlong hblocking hnow hclock hrun
  constructor
  · intro hes
    exact timesBelong_of_matched hreported (matched_run hblocking hes hrun)
  · intro r hr hpos s hs i hi hfar
    exact not_timesBelong hreported hr hpos hs hi hfar

instance : ∀ e : Event, Decidable e.ValidClock
  | .stamp now | .clock now => inferInstanceAs (Decidable now.Valid)
  | .status _ | .impulse | .dirStatus _ | .counter | .read _ | .reader => isTrue trivial

instance : ∀ p : ReadPc, Decidable p.Awaits
  | .loadNeg _ | .test _ _ | .subImp _ _ | .subNeg _ _ | .clock _ _ | .addRef _ _ _
  | .loadMs _ _ _ => inferInstanceAs (Decidable (0 < _))
  | .idle | .loadImp | .checkMs _ _ _ _ | .shiftRef _ _ _ _ | .subMs _ _ _ _
  | .report _ _ _ _ _ => isFalse id

instance (w : Timed) : ∀ e, Decidable (Punctual w e)
  | .counter =>
    match h : w.run.counter with
    | .stamped _ => decidable_of_iff (¬w.run.reader.Awaits) (by simp only [Punctual, h])
    | .start | .loop | .arrived | .check | .dir _ | .count _ _ | .store _ =>
      isTrue (by simp only [Punctual, h])
  | .reader =>
    match h : w.run.reader with
    | .loadImp =>
      decidable_of_iff (0 < w.run.impulses → w.msCounted = true) (by simp only [Punctual, h])
    | .loadMs tImp _ _ =>
      decidable_of_iff (0 < tImp → w.msRef = .current) (by simp only [Punctual, h])
    | .idle | .loadNeg _ | .test _ _ | .subImp _ _ | .subNeg _ _ | .clock _ _
    | .addRef _ _ _ | .checkMs _ _ _ _ | .shiftRef _ _ _ _ | .subMs _ _ _ _
    | .report _ _ _ _ _ => isTrue (by simp only [Punctual, h])
  | .stamp _ | .clock _ | .status _ | .impulse | .dirStatus _ | .read _ => isTrue trivial

/-- A meter that waits for its input. -/
def waiting : MeterS0 := ⟨true, false, false, 1000, 64⟩

/-- The input is set when its event has been stamped. -/
def impulseRun (now : Timespec) : List Event :=
  [.impulse, .stamp now, .counter, .status 1, .counter]

/-- The input is not set any more when its event has been stamped. -/
def bounceRun (now : Timespec) : List Event := [.impulse, .stamp now, .counter, .status 0]

/-- A call up to its clock. -/
def countRun (now : Timespec) : List Event :=
  [.read 4, .reader, .reader, .reader, .reader, .reader, .clock now]

/-- The rest of the call. -/
def timeRun : List Event := [.reader, .reader, .reader, .reader]

/-- Three calls: one impulse, another one 0.3 ms later, and two. -/
def threeCalls : List Event :=
  .status 0 :: impulseRun ⟨0, 999800000⟩ ++ countRun ⟨1, 0⟩ ++ timeRun ++
    impulseRun ⟨1, 100000⟩ ++ countRun ⟨1, 200000⟩ ++ timeRun ++
    impulseRun ⟨1, 250000000⟩ ++ impulseRun ⟨1, 500000000⟩ ++ countRun ⟨2, 0⟩ ++ timeRun

theorem times_belong_threeCalls :
    ∃ w, (Timed.machine waiting ⟨0, 0⟩).run (Timed.initial ⟨0, 0⟩) threeCalls = some w ∧
      w.run.returned = [[reading impulse ⟨0, 999000000⟩ 1],
        [reading power ⟨1, 0⟩ 3600000, reading impulse ⟨1, 0⟩ 1],
        [reading power ⟨1, 500000000⟩ 14400, reading impulse ⟨1, 500000000⟩ 2]] ∧
      TimesBelong waiting w := by
  obtain ⟨w, hrun, hreturned⟩ : ∃ w,
      (Timed.machine waiting ⟨0, 0⟩).run (Timed.initial ⟨0, 0⟩) threeCalls = some w ∧
        w.run.returned = [[reading impulse ⟨0, 999000000⟩ 1],
          [reading power ⟨1, 0⟩ 3600000, reading impulse ⟨1, 0⟩ 1],
          [reading power ⟨1, 500000000⟩ 14400, reading impulse ⟨1, 500000000⟩ 2]] :=
    EventMachine.Machine.exists_run_of_any (by decide +kernel)
  exact ⟨w, hrun, hreturned,
    (times_belong (by decide) rfl (by decide) (by decide +kernel) hrun).1 (by decide +kernel)⟩

/-- An impulse, and a bounce before it is read. -/
def bounced : List Event :=
  .status 0 :: impulseRun ⟨0, 100000000⟩ ++ bounceRun ⟨0, 500000000⟩ ++ countRun ⟨1, 0⟩ ++ timeRun

/-- An impulse, and another one that is stamped when the first has been counted. -/
def overtaken : List Event :=
  .status 0 :: impulseRun ⟨0, 100000000⟩ ++ countRun ⟨1, 0⟩ ++
    [.impulse, .stamp ⟨1, 200000000⟩, .counter] ++ timeRun

/-- A reading of one impulse at 100 ms has the time of a bounce, or of an impulse that
it does not count. -/
theorem times_not_belong :
    (∃ w, (Timed.machine waiting ⟨0, 0⟩).run (Timed.initial ⟨0, 0⟩) bounced = some w ∧
      w.counted = some ⟨0, 100000000⟩ ∧
      w.run.returned = [[reading impulse ⟨0, 500000000⟩ 1]] ∧ ¬TimesBelong waiting w) ∧
    ∃ w, (Timed.machine waiting ⟨0, 0⟩).run (Timed.initial ⟨0, 0⟩) overtaken = some w ∧
      w.counted = some ⟨0, 100000000⟩ ∧
      w.run.returned = [[reading impulse ⟨1, 200000000⟩ 1]] ∧ ¬TimesBelong waiting w := by
  have hnot : ∀ {w : Timed}, (∃ r ∈ w.reports, 0 < r.tImp ∧ ∀ t ∈ r.impulse, ¬r.time.SameMs t) →
      ¬TimesBelong waiting w := by
    rintro w ⟨r, hr, hpos, hdiffer⟩ hw
    obtain ⟨t, ht, hsame⟩ := hw.times r hr hpos
    exact hdiffer t ht hsame
  constructor
  · obtain ⟨w, hrun, hcounted, hreturned, hw⟩ : ∃ w,
        (Timed.machine waiting ⟨0, 0⟩).run (Timed.initial ⟨0, 0⟩) bounced = some w ∧
          w.counted = some ⟨0, 100000000⟩ ∧
          w.run.returned = [[reading impulse ⟨0, 500000000⟩ 1]] ∧
          ∃ r ∈ w.reports, 0 < r.tImp ∧ ∀ t ∈ r.impulse, ¬r.time.SameMs t :=
      EventMachine.Machine.exists_run_of_any (by decide +kernel)
    exact ⟨w, hrun, hcounted, hreturned, hnot hw⟩
  · obtain ⟨w, hrun, hcounted, hreturned, hw⟩ : ∃ w,
        (Timed.machine waiting ⟨0, 0⟩).run (Timed.initial ⟨0, 0⟩) overtaken = some w ∧
          w.counted = some ⟨0, 100000000⟩ ∧
          w.run.returned = [[reading impulse ⟨1, 200000000⟩ 1]] ∧
          ∃ r ∈ w.reports, 0 < r.tImp ∧ ∀ t ∈ r.impulse, ¬r.time.SameMs t :=
      EventMachine.Machine.exists_run_of_any (by decide +kernel)
    exact ⟨w, hrun, hcounted, hreturned, hnot hw⟩

end Runs

end VzLogger.MeterS0
