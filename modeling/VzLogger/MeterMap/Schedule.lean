import VzLogger.Lib.Loop
import Mathlib.Algebra.Ring.Int.Defs
import Mathlib.Data.Int.Order.Basic
import Mathlib.Tactic.Linarith
import Mathlib.Tactic.Ring

/-! # When a meter is due next

Before it reads, `MeterMap::read` moves the time that the meter is due on by whole
intervals, until it has caught up with the clock.  The interval comes from the
constructor of the meter, which also admits none (-1) and any other number that is
not positive.  The loop for the end of an aggregation period is the same, but asks
for a positive step.  Times are integers without bounds.
-/
namespace VzLogger.MeterMap

/-- What `OptionList::lookup` and the conversion to `int` throw. -/
inductive OptionError where
  | notFound
  | invalidType
  deriving DecidableEq

/-- The interval that `Meter::Meter` sets. -/
def interval (option : Except OptionError Int) (allowInterval : Bool) : Except OptionError Int :=
  match option with
  | .error .notFound => .ok (-1)  -- indicates unknown interval
  | .error e => .error e
  | .ok i => if 0 < i ∧ !allowInterval then .ok 0 else .ok i

/-- A time that is moved on, and how often the clock was asked. -/
structure Advance where
  due : Int
  calls : Nat

/-- `due += step`. -/
def Advance.next (step : Int) (s : Advance) : Option Advance := some ⟨s.due + step, s.calls + 1⟩

/-- `due < time(NULL)`; `time k` is what the clock shows at the call `k`. -/
def Advance.behind (time : Nat → Int) (s : Advance) : Bool := s.due < time s.calls

/-- The loop, for at most so many rounds. -/
def advance (goOn : Bool) (time : Nat → Int) (step : Int) (rounds : Nat) (due : Int) :
    Option Int :=
  (Loop.doWhile (fun s => s.behind time && goOn) (Advance.next step) rounds ⟨due, 0⟩).map
    Advance.due

/-- `do nextDue += interval; while (nextDue < time(NULL))`. -/
def nextDue (time : Nat → Int) (interval : Int) (rounds : Nat) (due : Int) : Option Int :=
  advance true time interval rounds due

/-- `do aggIntEnd += aggtime; while ((aggIntEnd < time(NULL)) && (aggtime > 0))`. -/
def aggIntEnd (time : Nat → Int) (aggtime : Int) (rounds : Nat) : Option Int :=
  advance (0 < aggtime) time aggtime rounds (time 0)

/-! ## What the loop does -/

section Loop
variable {goOn : Bool} {time : Nat → Int} {step due new : Int} {rounds : Nat}

/-- The times that the loop came to up to here were behind the clock. -/
structure Passed (time : Nat → Int) (step due : Int) (s : Advance) : Prop where
  calls : 0 < s.calls
  steps : s.due = due + (s.calls : Int) * step
  behind : ∀ j : Nat, 0 < j → j < s.calls → due + j * step < time j

/-- The loop exits at the first time that is not behind the clock, if it is to go on
as long as that. -/
theorem advance_first (h : advance goOn time step rounds due = some new) :
    ∃ k : Nat, 0 < k ∧ new = due + k * step ∧ (goOn = true → time k ≤ new) ∧
      ∀ j : Nat, 0 < j → j < k → due + j * step < time j := by
  obtain ⟨s, hs, rfl⟩ := Option.map_eq_some_iff.mp h
  have hkeep : ∀ s t : Advance, Passed time step due s → (s.behind time && goOn) = true →
      s.next step = some t → Passed time step due t := by
    rintro s t hs hcond ht
    obtain rfl := Option.some.inj ht
    refine ⟨Nat.succ_pos _, ?_, ?_⟩
    · show s.due + step = due + ((s.calls + 1 : Nat) : Int) * step
      rw [hs.steps]
      push_cast
      ring
    · intro j hj hlt
      rcases Nat.lt_succ_iff_lt_or_eq.mp hlt with hlt | rfl
      · exact hs.behind j hj hlt
      · have hbehind := (Bool.and_eq_true_iff.mp hcond).1
        simp only [Advance.behind, decide_eq_true_eq] at hbehind
        rw [← hs.steps]
        exact hbehind
  have hfirst : Passed time step due ⟨due + step, 1⟩ := by
    refine ⟨Nat.one_pos, by simp, ?_⟩
    intro j hj hlt
    have hlt : j < 1 := hlt
    omega
  obtain ⟨hpassed, hexit⟩ := Loop.run_invariant hkeep hfirst hs
  refine ⟨s.calls, hpassed.calls, hpassed.steps, ?_, hpassed.behind⟩
  intro hgoOn
  simpa [Advance.behind, hgoOn] using hexit

/-- The loop ends if it goes on with a positive step only, and the clock does not
show more than some time. -/
theorem exists_advance {latest : Int} (htime : ∀ k, time k ≤ latest)
    (hgoOn : goOn = true → 0 < step) (due : Int) :
    ∃ rounds new, advance goOn time step rounds due = some new := by
  have hstep : ∀ s : Advance, True → (s.behind time && goOn) = true →
      ∃ t, s.next step = some t ∧ True ∧ (latest - t.due).toNat < (latest - s.due).toNat := by
    intro s _ hcond
    obtain ⟨hbehind, hgo⟩ := Bool.and_eq_true_iff.mp hcond
    have hpos := hgoOn hgo
    have hle := htime s.calls
    simp only [Advance.behind, decide_eq_true_eq] at hbehind
    refine ⟨_, rfl, trivial, ?_⟩
    show (latest - (s.due + step)).toNat < (latest - s.due).toNat
    omega
  obtain ⟨s, hs, -⟩ := Loop.exists_run (s := (⟨due + step, 1⟩ : Advance)) _ hstep trivial
    (Nat.le_refl _)
  exact ⟨_, s.due, by rw [advance, Loop.doWhile, Advance.next, Option.bind_some, hs]; rfl⟩

/-- A step that is not positive never catches up. -/
theorem advance_eq_none {now : Int} (hstep : step ≤ 0) (hbehind : due + step < now)
    (rounds : Nat) : advance true (fun _ => now) step rounds due = none := by
  have hstuck : Loop.run (fun s : Advance => s.behind (fun _ => now) && true) (Advance.next step)
      rounds ⟨due + step, 1⟩ = none := by
    apply Loop.run_eq_none (fun s => s.due < now)
    · intro s hs
      simpa [Advance.behind] using hs
    · intro s t hs ht
      obtain rfl := Option.some.inj ht
      show s.due + step < now
      omega
    · exact hbehind
  rw [advance, Loop.doWhile, Advance.next, Option.bind_some, hstuck]
  rfl

/-- One round is enough where the first time is not behind the clock. -/
theorem advance_of_le {now : Int} (h : now ≤ due + step) :
    advance goOn (fun _ => now) step 0 due = some (due + step) := by
  have hrun : Loop.run (fun s => s.behind (fun _ => now) && goOn) (Advance.next step) 0
      ⟨due + step, 1⟩ = some ⟨due + step, 1⟩ :=
    Loop.run_of_not (by simp [Advance.behind, h]) 0
  exact congrArg (Option.map Advance.due) hrun

/-- The end of an aggregation period is found with every `aggtime`. -/
theorem exists_aggIntEnd {latest : Int} (htime : ∀ k, time k ≤ latest) (aggtime : Int) :
    ∃ rounds new, aggIntEnd time aggtime rounds = some new :=
  exists_advance htime of_decide_eq_true (time 0)

end Loop

/-! ## The schedule -/

/-- A new due time: not before now, the first such one, and a whole number of
intervals after the old one. -/
structure Scheduled (interval due now new : Int) : Prop where
  notBefore : now ≤ new
  multiple : interval ∣ new - due
  first : ∃ k : Nat, 0 < k ∧ new = due + k * interval ∧
    ∀ j : Nat, 0 < j → j < k → due + j * interval < now

/-- The loop terminates, and what it leaves is the new due time. -/
def Reschedules (interval due now : Int) : Prop :=
  ∃ rounds new, nextDue (fun _ => now) interval rounds due = some new ∧
    Scheduled interval due now new

theorem scheduled_of_nextDue {interval due now new : Int} {rounds : Nat}
    (h : nextDue (fun _ => now) interval rounds due = some new) :
    Scheduled interval due now new := by
  obtain ⟨k, hk, hnew, hle, hfirst⟩ := advance_first h
  refine ⟨hle rfl, ⟨k, ?_⟩, k, hk, hnew, hfirst⟩
  rw [hnew]
  ring

theorem not_reschedules {interval due now : Int} (hinterval : interval ≤ 0)
    (hbehind : due + interval < now) : ¬Reschedules interval due now := by
  rintro ⟨rounds, new, hnew, -⟩
  rw [nextDue, advance_eq_none hinterval hbehind] at hnew
  cases hnew

/-- The interval of a meter is positive if it is set so and the protocol allows it. -/
theorem interval_pos_iff {option : Except OptionError Int} {allowInterval : Bool} {i : Int}
    (h : interval option allowInterval = .ok i) :
    0 < i ↔ (∃ n, option = .ok n ∧ 0 < n) ∧ allowInterval = true := by
  match option with
  | .error .notFound =>
    obtain rfl : -1 = i := Except.ok.inj h
    simp
  | .error .invalidType => cases h
  | .ok n =>
    have hset : (∃ m, (Except.ok n : Except OptionError Int) = .ok m ∧ 0 < m) ↔ 0 < n := by
      constructor
      · rintro ⟨m, hm, hpos⟩
        rw [Except.ok.inj hm]
        exact hpos
      · exact fun hpos => ⟨n, rfl, hpos⟩
    rw [hset]
    simp only [interval] at h
    split at h
    · rename_i hforbidden
      obtain rfl := Except.ok.inj h
      simpa using fun _ => hforbidden.2
    · rename_i hallowed
      obtain rfl := Except.ok.inj h
      simpa using hallowed

/-- **When the loop terminates**: it finds the new due time exactly if the interval
is set to a positive number and the protocol allows it, or one step is enough. -/
theorem reschedules_iff {option : Except OptionError Int} {allowInterval : Bool} {i : Int}
    (hmeter : interval option allowInterval = .ok i) (due now : Int) :
    Reschedules i due now ↔
      ((∃ n, option = .ok n ∧ 0 < n) ∧ allowInterval = true) ∨ now ≤ due + i := by
  rw [← interval_pos_iff hmeter]
  constructor
  · intro hdone
    by_contra hnot
    rw [not_or, not_lt, not_le] at hnot
    exact not_reschedules hnot.1 hnot.2 hdone
  · rintro (hpos | hle)
    · obtain ⟨rounds, new, hnew⟩ :=
        exists_advance (fun _ => Int.le_refl now) (fun _ : true = true => hpos) due
      exact ⟨rounds, new, hnew, scheduled_of_nextDue hnew⟩
    · have hnew : advance true (fun _ => now) i 0 due = some (due + i) := advance_of_le hle
      exact ⟨0, due + i, hnew, scheduled_of_nextDue hnew⟩

/-- Ten seconds, 35 seconds late. -/
theorem reschedules_iff_late :
    interval (.ok 10) true = .ok 10 ∧ Reschedules 10 100 135 ∧
      nextDue (fun _ => 135) 10 3 100 = some 140 := by
  have hmeter : interval (.ok 10) true = .ok 10 := rfl
  exact ⟨hmeter, (reschedules_iff hmeter 100 135).mpr (.inl ⟨⟨10, rfl, by decide⟩, rfl⟩), by decide⟩

/-- Without an interval the meter is due from its start on, and its first read does
not return; nor does one a second late, if the protocol does not allow the interval
that is set. -/
theorem unset_never_reschedules :
    (interval (.error .notFound) true = .ok (-1) ∧ ¬Reschedules (-1) (100 + -1) 100 ∧
      ∀ rounds, nextDue (fun _ => 100) (-1) rounds (100 + -1) = none) ∧
    (interval (.ok 10) false = .ok 0 ∧ ¬Reschedules 0 (100 + 0) 101) := by
  constructor
  · exact ⟨rfl, not_reschedules (by decide) (by decide), advance_eq_none (by decide) (by decide)⟩
  · exact ⟨rfl, not_reschedules (by decide) (by decide)⟩

end VzLogger.MeterMap
