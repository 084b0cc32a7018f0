import VzLogger.Lib.Calendar
import VzLogger.Lib.EventMachine

/-! # Daylight saving time on the Pico

`VzPicoSys::isDST` computes the limits of the summer time of a year and keeps them until
the next year.  What it compares with the limits, and with the end of the year, is not
the time it is asked about but `sysRefTime`, the time at which the Pico was started.

So `limits_eq` says that the limits are right, and `truthful_iff` that the answers are
right in the runs where the start lies in the summer time whenever the present does.
The C library is taken to work in UTC, and `tzOffset` is that of MET.
-/
namespace VzLogger.Pico.Dst
open Calendar

/-- The members of `VzPicoSys`. -/
structure VzPicoSys where
  curYear : Int
  dstOn : Int
  dstOff : Int
  endOfYear : Int
  deriving DecidableEq, Repr

/-- Seconds that MET is ahead of UTC. -/
def tzOffset : Int := 3600

/-- Make it Sunday and calculate again. -/
def sunday (t : Int) : Int × Tm :=
  let tm := localtime t
  mktime { tm with mday := tm.mday + (7 - tm.wday) }

/-- The limits for the year of `now`. -/
def limits (now : Int) : VzPicoSys :=
  let tm := localtime now
  let curYear := tm.year
  let tm := { tm with mon := 2, mday := 31 - 7, hour := 2 - tzOffset / 3600, min := 0, sec := 0 }
  let dstOn := (mktime tm).1
  let (dstOn, tm) := sunday dstOn
  let tm := { tm with mon := 9, mday := 31 - 7 }
  let dstOff := (mktime tm).1
  let (dstOff, tm) := sunday dstOff
  let tm := { tm with mon := 0, mday := 1, hour := 0, year := curYear + 1 }
  let endOfYear := (mktime tm).1
  ⟨curYear, dstOn, dstOff, endOfYear⟩

def isDST (s : VzPicoSys) (sysRefTime now : Int) : VzPicoSys × Bool :=
  let s := if s.curYear = 0 ∨ s.endOfYear ≤ sysRefTime then limits now else s
  (s, s.dstOn < sysRefTime && sysRefTime < s.dstOff)

/-! ## Summer time -/

/-- The last Sunday of March, 01:00 UTC. -/
def summerBegin (y : Int) : Int := seconds (lastSunday y 2) 1 0 0

/-- The last Sunday of October, 01:00 UTC. -/
def summerEnd (y : Int) : Int := seconds (lastSunday y 9) 1 0 0

/-- The year of a time. -/
def year (t : Int) : Int := yearOf (t / 86400)

/-- Whether there is summer time at a UTC time. -/
def SummerTime (utc : Int) : Prop := summerBegin (year utc) ≤ utc ∧ utc < summerEnd (year utc)

instance (utc : Int) : Decidable (SummerTime utc) := by unfold SummerTime; infer_instance

/-! ## The limits -/

section
variable {y : Int} {m : Nat}

/-- A time at 01:00 has the fields it was made from. -/
theorem localtime_one (hm : m < 12) (mday : Int) (hlo : 1 ≤ mday)
    (hhi : mday ≤ (monthLengths (isLeap y)).getD m 0) :
    localtime (seconds (dayOf y m mday) 1 0 0) =
      ⟨0, 0, 1, mday, m, y - 1900, weekday (dayOf y m mday)⟩ :=
  localtime_seconds hm hlo hhi (by decide) (by decide) (by decide)

/-- The time of fields within a month. -/
theorem timeOf_fields (hm : m < 12) (mday hour min sec wday : Int) :
    timeOf ⟨sec, min, hour, mday, m, y - 1900, wday⟩ = seconds (dayOf y m mday) hour min sec := by
  have hmod : ((m : Int) % 12).toNat = m := by omega
  have hyear : y - 1900 + 1900 + (m : Int) / 12 = y := by omega
  simp only [timeOf, hmod, hyear]

/-- From 01:00 on the 24th the Sunday found is the last of a month of 31 days. -/
theorem sunday_eq (hm : m < 12) (hlen : (monthLengths (isLeap y)).getD m 0 = 31) :
    ∃ mday wday, sunday (seconds (dayOf y m 24) 1 0 0) =
      (seconds (lastSunday y m) 1 0 0, ⟨0, 0, 1, mday, m, y - 1900, wday⟩) := by
  have hlast : dayOf y m (24 + (7 - weekday (dayOf y m 24))) = lastSunday y m := lastSunday_eq hlen
  have hrange : 0 ≤ weekday (dayOf y m 24) ∧ weekday (dayOf y m 24) < 7 := by
    unfold weekday
    omega
  have hfields := localtime_one hm (24 + (7 - weekday (dayOf y m 24))) (by omega)
    (by rw [hlen]; omega)
  refine ⟨24 + (7 - weekday (dayOf y m 24)), weekday (lastSunday y m), ?_⟩
  unfold sunday mktime
  rw [localtime_one hm 24 (by decide) (by rw [hlen]; decide)]
  dsimp only
  rw [timeOf_fields hm, hfields, hlast]

theorem march_length (leap : Bool) : (monthLengths leap).getD 2 0 = 31 := by cases leap <;> rfl

theorem october_length (leap : Bool) : (monthLengths leap).getD 9 0 = 31 := by cases leap <;> rfl

/-- **The limits are those of the year of `now`.** -/
theorem limits_eq (now : Int) :
    limits now = ⟨year now - 1900, summerBegin (year now), summerEnd (year now),
      seconds (yearStart (year now + 1)) 0 0 0⟩ := by
  generalize hY : year now = Y
  have hyear : (localtime now).year = Y - 1900 := by rw [← hY]; rfl
  have hmarch (wday : Int) : timeOf ⟨0, 0, 1, 24, 2, Y - 1900, wday⟩ =
      seconds (dayOf Y 2 24) 1 0 0 := timeOf_fields (by decide) 24 1 0 0 wday
  have hoctober (wday : Int) : timeOf ⟨0, 0, 1, 24, 9, Y - 1900, wday⟩ =
      seconds (dayOf Y 9 24) 1 0 0 := timeOf_fields (by decide) 24 1 0 0 wday
  have hend (wday : Int) : timeOf ⟨0, 0, 0, 1, 0, Y - 1900 + 1, wday⟩ =
      seconds (yearStart (Y + 1)) 0 0 0 := by
    have h := timeOf_fields (y := Y + 1) (m := 0) (by decide) 1 0 0 0 wday
    have hfirst : dayOf (Y + 1) 0 1 = yearStart (Y + 1) := by simp [dayOf, monthStart]
    rw [hfirst, show Y + 1 - 1900 = Y - 1900 + 1 by omega] at h
    exact h
  obtain ⟨_, _, hon⟩ := sunday_eq (y := Y) (m := 2) (by decide) (march_length _)
  obtain ⟨_, _, hoff⟩ := sunday_eq (y := Y) (m := 9) (by decide) (october_length _)
  unfold limits tzOffset mktime
  norm_num only [hyear, hmarch, hon, hoctober, hoff, hend]
  rfl

end

/-! ## Runs -/

/-- The answers given so far, each with the UTC time that was asked about; `last` is the
last `now`. -/
structure World where
  sys : VzPicoSys
  last : Option Int
  answers : List (Int × Bool)

/-- A call of `isDST`. -/
structure Event where
  now : Int
  sysRefTime : Int

namespace World

/-- The times do not go back, and the start is not later than them. -/
def step (w : World) (e : Event) : Option World :=
  if (∀ l ∈ w.last, l ≤ e.now) ∧ e.sysRefTime ≤ e.now then
    let (sys, answer) := isDST w.sys e.sysRefTime e.now
    some ⟨sys, some e.now, w.answers ++ [(e.now - tzOffset, answer)]⟩
  else none

def initial : World := ⟨⟨0, 0, 0, 0⟩, none, []⟩

def machine : EventMachine.Machine World Event := ⟨initial, step⟩

/-- Each answer tells whether there was summer time. -/
def Truthful (w : World) : Prop := ∀ p ∈ w.answers, p.2 = true ↔ SummerTime p.1

/-- The year whose limits a call uses: it is that of `now` in the first call, and when
the start has reached the end of the year before. -/
def limitYear (w : World) (e : Event) : Int :=
  if w.sys.curYear = 0 ∨ w.sys.endOfYear ≤ e.sysRefTime then year e.now else w.sys.curYear + 1900

/-- The start lies in the summer time of that year, behind its first second, exactly if
the time asked about lies in the summer time of its own year. -/
def SameSeason (w : World) (e : Event) : Prop :=
  (summerBegin (w.limitYear e) < e.sysRefTime ∧ e.sysRefTime < summerEnd (w.limitYear e)) ↔
    SummerTime (e.now - tzOffset)

/-- The limits kept are those of their year. -/
def Limits (w : World) : Prop :=
  w.sys.curYear ≠ 0 →
    w.sys.dstOn = summerBegin (w.sys.curYear + 1900) ∧ w.sys.dstOff = summerEnd (w.sys.curYear + 1900)

variable {w : World} {e : Event}

/-- **One call** compares the start with the limits of `limitYear`, and keeps them. -/
theorem isDST_spec (h : w.Limits) :
    ((isDST w.sys e.sysRefTime e.now).2 = true ↔
      summerBegin (w.limitYear e) < e.sysRefTime ∧ e.sysRefTime < summerEnd (w.limitYear e)) ∧
    ∀ last answers, Limits ⟨(isDST w.sys e.sysRefTime e.now).1, last, answers⟩ := by
  unfold isDST limitYear
  by_cases hnew : w.sys.curYear = 0 ∨ w.sys.endOfYear ≤ e.sysRefTime
  · simp only [if_pos hnew, limits_eq]
    refine ⟨by simp, fun _ _ _ => ?_⟩
    dsimp only
    rw [Int.sub_add_cancel]
    exact ⟨rfl, rfl⟩
  · simp only [if_neg hnew]
    have hyear : w.sys.curYear ≠ 0 := fun h => hnew (Or.inl h)
    obtain ⟨hon, hoff⟩ := h hyear
    refine ⟨by simp [hon, hoff], fun _ _ => h⟩

/-- A step adds an answer, which is right exactly if the two times share their season. -/
theorem step_spec (h : w.Limits) {w' : World} (hstep : w.step e = some w') :
    w'.Limits ∧ (w'.Truthful ↔ w.Truthful ∧ w.SameSeason e) := by
  obtain ⟨hanswer, hlimits⟩ := isDST_spec (e := e) h
  simp only [step, Option.ite_none_right_eq_some, Option.some.injEq] at hstep
  obtain ⟨-, rfl⟩ := hstep
  refine ⟨hlimits _ _, ?_⟩
  unfold Truthful SameSeason
  rw [← hanswer]
  simp [or_imp, forall_and]

/-- **Every answer is right exactly in the runs whose starts share the season of the
times asked about.** -/
theorem truthful_iff (es : List Event) :
    machine.Throughout Truthful initial es ↔ machine.EachStep SameSeason initial es := by
  have hP : ∀ (w : World) (_ : List Event), w.Truthful ∧ w.Limits → w.Truthful := fun w _ h => h.1
  have hkeep : ∀ (w : World) e (_ : List Event) (w' : World), w.Truthful ∧ w.Limits → w.SameSeason e →
      machine.step w e = some w' → w'.Truthful ∧ w'.Limits := by
    intro w e _ w' h hsame hstep
    obtain ⟨hlimits, htruthful⟩ := step_spec h.2 hstep
    exact ⟨htruthful.mpr ⟨h.1, hsame⟩, hlimits⟩
  have hbreak : ∀ (w : World) e (_ : List Event) (w' : World), w.Truthful ∧ w.Limits → ¬w.SameSeason e →
      machine.step w e = some w' → ¬w'.Truthful := by
    intro w e _ w' h hnot hstep htruthful
    exact hnot ((step_spec h.2 hstep).2.mp htruthful).2
  have hinitial : initial.Truthful ∧ initial.Limits :=
    ⟨fun p hp => (List.not_mem_nil hp).elim, fun hne => absurd rfl hne⟩
  exact EventMachine.Machine.throughout_iff_eachStep hP hkeep hbreak hinitial

/-- Started on 1 January 2024, and asked on 1 July: no summer time. -/
theorem not_truthful_july :
    SummerTime 1719792000 ∧
      ¬machine.Throughout Truthful initial [⟨1719792000 + tzOffset, 1704067200⟩] := by
  refine ⟨by decide +kernel, ?_⟩
  rintro ⟨-, hrest⟩
  have hanswer := hrest _ rfl (1719792000, false) (by decide +kernel)
  exact absurd (hanswer.mpr (by decide +kernel)) (by decide)

end World
end VzLogger.Pico.Dst
