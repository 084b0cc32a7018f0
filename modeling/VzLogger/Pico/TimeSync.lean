import VzLogger.Lib.CString
import VzLogger.Lib.EventMachine
import Mathlib.Algebra.Order.Group.Abs
import Mathlib.Algebra.Order.Ring.Int
import Mathlib.Tactic.Linarith

/-! # The time reference of the Pico

The clock of the Pico counts the seconds since it was started; `VzPicoWifi` keeps the
UTC time of the start (`sysRefTS`), which `init` takes from a first NTP query and
`syncTime` corrects after later ones by the difference of two differences.

`time_t` has 64 bits, `long` 32.  A `World` keeps the books of the synchronisations: by
how much the reference and the clock were off the NTP time when the last clock was read,
and what the reference was before and after a failed one.

A later synchronisation is off by exactly as much as the one before it
(`syncTime_error`), so what counts is the time that passes between the two clock reads
of `init`.
-/
namespace VzLogger.Pico.TimeSync

/-- The members of `VzPicoWifi`.  `lastUtc` and `lastTimeSync` are not set by the
constructor. -/
structure Wifi where
  sysRefTS : Int
  lastUtc : Int
  lastTimeSync : Int
  /-- `ntp` is not `NULL` -/
  ntp : Bool

structure World where
  wifi : Wifi
  clock : Int
  /-- how far each successful synchronisation was off -/
  errors : List Int
  /-- the reference before and after each failed one -/
  failures : List (Int × Int)

/-- What an `unsigned long` holds. -/
def toUnsignedLong (z : Int) : Int := z % 2 ^ 32

/-- What a `long` holds; it is as wide as an `int`. -/
def toLong (z : Int) : Int := CString.toInt z

namespace Wifi

/-- `init()` with the outcome of `enable()`, of `queryTime()`, and of the two reads of
the clock. -/
def init (w : Wifi) (enabled : Bool) (utc : Nat) (time₀ time₁ : Int) : Wifi :=
  if enabled then
    let w := { w with ntp := true }
    if utc ≠ 0 then { w with sysRefTS := utc - time₀, lastUtc := utc, lastTimeSync := time₁ }
    else w
  else w

/-- `syncTime()` with the outcome of `queryTime()` and of the read of the clock. -/
def syncTime (w : Wifi) (utc : Nat) (now : Int) : Wifi :=
  if utc = 0 then w
  else
    let deltaUtc := toUnsignedLong (utc - w.lastUtc)
    let deltaT := toUnsignedLong (now - w.lastTimeSync)
    let timeDiff := toLong (deltaUtc - deltaT)
    let w := if timeDiff ≠ 0 then { w with sysRefTS := w.sysRefTS + timeDiff } else w
    { w with lastUtc := utc, lastTimeSync := now }

end Wifi

/-- What the environment decides: whether the WiFi comes up, the time that NTP returns
(0 where it does not), and the clock at each read. -/
inductive Event where
  | init (enabled : Bool) (utc : Nat) (time₀ time₁ : Int)
  | syncTime (utc : Nat) (now : Int)

namespace World

/-- A synchronisation that leaves `wifi`, with the last read of the clock at `now`. -/
def synced (w : World) (wifi : Wifi) (utc : Nat) (now : Int) : World :=
  if utc = 0 then
    { w with wifi := wifi, clock := now, failures := w.failures ++ [(w.wifi.sysRefTS, wifi.sysRefTS)] }
  else
    { w with wifi := wifi, clock := now, errors := w.errors ++ [wifi.sysRefTS + now - utc] }

/-- The clock does not go back, and NTP times have 32 bits.  Without an `Ntp` a
synchronisation has no result. -/
def step (w : World) : Event → Option World
  | .init enabled utc time₀ time₁ =>
    if w.clock ≤ time₀ ∧ time₀ ≤ time₁ ∧ utc < 2 ^ 32 then
      some (w.synced (w.wifi.init enabled utc time₀ time₁) (if enabled then utc else 0) time₁)
    else none
  | .syncTime utc now =>
    if w.wifi.ntp = true ∧ w.clock ≤ now ∧ utc < 2 ^ 32 then
      some (w.synced (w.wifi.syncTime utc now) utc now)
    else none

/-- After the constructor; the two members that are not set hold anything. -/
def initial (lastUtc lastTimeSync : Int) : World where
  wifi := ⟨0, lastUtc, lastTimeSync, false⟩
  clock := 0
  errors := []
  failures := []

def machine (lastUtc lastTimeSync : Int) : EventMachine.Machine World Event :=
  ⟨initial lastUtc lastTimeSync, step⟩

/-- Every successful synchronisation has left the reference within `tick` of the NTP
time, and every failed one as it was. -/
def Synchronised (tick : Int) (w : World) : Prop :=
  (∀ e ∈ w.errors, |e| ≤ tick) ∧ ∀ p ∈ w.failures, p.1 = p.2

/-- The difference of the two differences, as it is without a limit on `long`. -/
def drift (w : World) (utc : Nat) (now : Int) : Int :=
  (utc - w.wifi.lastUtc) - (now - w.wifi.lastTimeSync)

/-- No more than `tick` passes between the two reads of `init`.  The correction fits
into a `long`; or, when no synchronisation has succeeded before, the two members that
are not set differ by the multiple of 2^32 it wraps by, up to `tick`. -/
def Exact (tick : Int) (w : World) : Event → Prop
  | .init enabled utc time₀ time₁ => enabled = true → utc ≠ 0 → time₁ - time₀ ≤ tick
  | .syncTime utc now =>
    utc ≠ 0 →
      if w.errors = [] then
        |w.wifi.lastTimeSync - w.wifi.lastUtc - (w.drift utc now - toLong (w.drift utc now))| ≤ tick
      else -2 ^ 31 ≤ w.drift utc now ∧ w.drift utc now < 2 ^ 31

end World

/-! ## One synchronisation -/

/-- By how much the reference is off at the last synchronisation. -/
def Wifi.error (w : Wifi) : Int := w.sysRefTS + w.lastTimeSync - w.lastUtc

/-- Unsigned differences, subtracted and read as a `long`. -/
theorem toLong_sub (a b : Int) :
    toLong (toUnsignedLong a - toUnsignedLong b) = toLong (a - b) := by
  have hmod : (a % 2 ^ 32 - b % 2 ^ 32) % ((2 ^ 32 : Nat) : Int) =
      (a - b) % ((2 ^ 32 : Nat) : Int) := by
    push_cast
    exact (Int.sub_emod a b (2 ^ 32)).symm
  unfold toLong toUnsignedLong CString.toInt
  rw [← Int.emod_bmod, hmod, Int.emod_bmod]

theorem toLong_of_mem {z : Int} (hlo : -2 ^ 31 ≤ z) (hhi : z < 2 ^ 31) : toLong z = z :=
  CString.toInt_of_mem hlo hhi

/-- A `long` is off by a multiple of 2^32. -/
theorem toLong_eq (z : Int) : ∃ m, z - toLong z = 2 ^ 32 * m := by
  have hmod := Int.bmod_emod (x := z) (m := 2 ^ 32)
  obtain ⟨m, hm⟩ := Int.emod_eq_emod_iff_emod_sub_eq_zero.mp hmod.symm |> Int.dvd_of_emod_eq_zero
  exact ⟨m, hm⟩

namespace Wifi
variable (w : Wifi) {utc : Nat}

/-- What `init` is off by is the time between its two reads of the clock. -/
theorem init_error (hutc : utc ≠ 0) (time₀ time₁ : Int) :
    (w.init true utc time₀ time₁).error = time₁ - time₀ ∧
      (w.init true utc time₀ time₁).lastUtc = utc ∧
      (w.init true utc time₀ time₁).lastTimeSync = time₁ := by
  unfold init error
  rw [if_pos rfl, if_pos hutc]
  refine ⟨?_, rfl, rfl⟩
  dsimp only
  omega

/-- **What a later synchronisation is off by is what the one before it was off by**,
and what the correction loses in a `long`. -/
theorem syncTime_error (hutc : utc ≠ 0) (now : Int) :
    (w.syncTime utc now).error = w.error -
        ((utc - w.lastUtc) - (now - w.lastTimeSync) -
          toLong ((utc - w.lastUtc) - (now - w.lastTimeSync))) ∧
      (w.syncTime utc now).lastUtc = utc ∧ (w.syncTime utc now).lastTimeSync = now := by
  unfold syncTime error
  rw [if_neg hutc]
  dsimp only
  rw [toLong_sub]
  generalize toLong ((utc - w.lastUtc) - (now - w.lastTimeSync)) = timeDiff
  by_cases h : timeDiff = 0
  · rw [if_neg (by simpa using h)]
    refine ⟨?_, rfl, rfl⟩
    omega
  · rw [if_pos h]
    refine ⟨?_, rfl, rfl⟩
    dsimp only
    omega

/-- A failed query leaves everything but `ntp` as it was. -/
theorem init_failed (enabled : Bool) (time₀ time₁ : Int) :
    (w.init enabled 0 time₀ time₁).sysRefTS = w.sysRefTS ∧
      (w.init enabled 0 time₀ time₁).error = w.error := by
  cases enabled <;> exact ⟨rfl, rfl⟩

end Wifi

/-! ## Runs -/

namespace World
variable {tick : Int} {w : World}

/-- The books are good; the reference is not set, or off by no more than `tick`. -/
structure Inv (tick : Int) (w : World) : Prop where
  good : Synchronised tick w
  unset : w.errors = [] → w.wifi.sysRefTS = 0
  close : w.errors ≠ [] → |w.wifi.error| ≤ tick

/-- A synchronisation that fails and leaves the reference. -/
theorem Inv.failed (h : Inv tick w) {wifi : Wifi} (href : wifi.sysRefTS = w.wifi.sysRefTS)
    (herror : wifi.error = w.wifi.error) (now : Int) : Inv tick (w.synced wifi 0 now) := by
  refine ⟨⟨h.good.1, ?_⟩, fun hnil => href.trans (h.unset hnil), fun hne => ?_⟩
  · intro p hp
    rcases List.mem_append.mp hp with hp | hp
    · exact h.good.2 p hp
    · obtain rfl := List.mem_singleton.mp hp
      exact href.symm
  · change |wifi.error| ≤ tick
    rw [herror]
    exact h.close hne

/-- A synchronisation that succeeds is as good as the error it leaves. -/
theorem synced_iff (h : Inv tick w) {wifi : Wifi} {utc : Nat} (hutc : utc ≠ 0) {now : Int}
    (hlast : wifi.lastUtc = utc) (hnow : wifi.lastTimeSync = now) :
    (|wifi.error| ≤ tick → Inv tick (w.synced wifi utc now)) ∧
      (Synchronised tick (w.synced wifi utc now) → |wifi.error| ≤ tick) := by
  have hbook : (w.synced wifi utc now) =
      { w with wifi := wifi, clock := now, errors := w.errors ++ [wifi.error] } := by
    rw [synced, if_neg hutc, Wifi.error, hlast, hnow]
  rw [hbook]
  constructor
  · intro herror
    refine ⟨⟨?_, h.good.2⟩, fun hnil => ?_, fun _ => herror⟩
    · intro e he
      rcases List.mem_append.mp he with he | he
      · exact h.good.1 e he
      · obtain rfl := List.mem_singleton.mp he
        exact herror
    · exact absurd hnil (List.append_ne_nil_of_right_ne_nil _ (List.cons_ne_nil _ _))
  · intro hgood
    exact hgood.1 _ (List.mem_append_right _ List.mem_cons_self)

/-- What `syncTime` is off by is within `tick` exactly when the step is exact. -/
theorem syncTime_close_iff (htick : tick < 2 ^ 31) (h : Inv tick w) {utc : Nat} (hutc : utc ≠ 0)
    (now : Int) :
    |(w.wifi.syncTime utc now).error| ≤ tick ↔ Exact tick w (.syncTime utc now) := by
  have herror := (w.wifi.syncTime_error hutc now).1
  change _ = w.wifi.error - (w.drift utc now - toLong (w.drift utc now)) at herror
  rw [herror]
  simp only [Exact, hutc, ne_eq, not_false_eq_true, true_implies]
  by_cases hnil : w.errors = []
  · rw [if_pos hnil, Wifi.error, h.unset hnil, zero_add]
  · rw [if_neg hnil]
    have hclose := abs_le.mp (h.close hnil)
    constructor
    · intro hbound
      obtain ⟨m, hm⟩ := toLong_eq (w.drift utc now)
      have hlo := CString.neg_le_toInt (w.drift utc now)
      have hhi := CString.toInt_lt (w.drift utc now)
      rw [hm] at hbound
      -- a multiple of 2^32 that is less than 2^32
      have hzero : m = 0 := by
        have := abs_le.mp hbound
        omega
      subst hzero
      change -2 ^ 31 ≤ toLong (w.drift utc now) at hlo
      change toLong (w.drift utc now) < 2 ^ 31 at hhi
      omega
    · rintro ⟨hlo, hhi⟩
      rw [toLong_of_mem hlo hhi, sub_self, sub_zero]
      exact h.close hnil

/-- What `init` is off by is within `tick` exactly when the step is exact. -/
theorem init_close_iff {utc : Nat} (hutc : utc ≠ 0) {time₀ time₁ : Int} (htime : time₀ ≤ time₁) :
    |(w.wifi.init true utc time₀ time₁).error| ≤ tick ↔
      Exact tick w (.init true utc time₀ time₁) := by
  rw [(w.wifi.init_error hutc time₀ time₁).1, abs_of_nonneg (sub_nonneg.mpr htime)]
  simp [Exact, hutc]

/-- What a step makes of the books. -/
theorem step_inv_iff (htick : tick < 2 ^ 31) (h : Inv tick w) {e : Event} {w' : World}
    (hstep : w.step e = some w') :
    (Exact tick w e → Inv tick w') ∧ (Synchronised tick w' → Exact tick w e) := by
  cases e with
  | init enabled utc time₀ time₁ =>
    simp only [step, Option.ite_none_right_eq_some, Option.some.injEq] at hstep
    obtain ⟨⟨-, htime, -⟩, rfl⟩ := hstep
    by_cases hfail : enabled = false ∨ utc = 0
    · have hsame : w.wifi.init enabled utc time₀ time₁ = w.wifi.init enabled 0 time₀ time₁ := by
        rcases hfail with rfl | rfl <;> rfl
      have hzero : (if enabled = true then utc else 0) = 0 := by
        rcases hfail with rfl | rfl <;> simp
      have hexact : Exact tick w (.init enabled utc time₀ time₁) := by
        intro henabled hutc
        rcases hfail with rfl | rfl
        · cases henabled
        · exact absurd rfl hutc
      obtain ⟨href, herror⟩ := w.wifi.init_failed enabled time₀ time₁
      rw [hsame, hzero]
      exact ⟨fun _ => h.failed href herror time₁, fun _ => hexact⟩
    · push Not at hfail
      obtain ⟨henabled, hutc⟩ := hfail
      obtain rfl : enabled = true := by simpa using henabled
      rw [if_pos rfl]
      obtain ⟨-, hlast, hnow⟩ := w.wifi.init_error hutc time₀ time₁
      have hsynced := synced_iff h hutc hlast hnow
      rw [init_close_iff hutc htime] at hsynced
      exact hsynced
  | syncTime utc now =>
    simp only [step, Option.ite_none_right_eq_some, Option.some.injEq] at hstep
    obtain ⟨-, rfl⟩ := hstep
    by_cases hutc : utc = 0
    · subst hutc
      exact ⟨fun _ => h.failed rfl rfl now, fun _ hutc => absurd rfl hutc⟩
    · obtain ⟨-, hlast, hnow⟩ := w.wifi.syncTime_error hutc now
      have hsynced := synced_iff h hutc hlast hnow
      rw [syncTime_close_iff htick h hutc] at hsynced
      exact hsynced

/-- **The reference is within `tick` of the NTP time after every synchronisation exactly
in the runs where each of them is exact.** -/
theorem synchronised_iff (htick : tick < 2 ^ 31) (lastUtc lastTimeSync : Int) (es : List Event) :
    (machine lastUtc lastTimeSync).Throughout (Synchronised tick) (initial lastUtc lastTimeSync) es ↔
      (machine lastUtc lastTimeSync).EachStep (Exact tick) (initial lastUtc lastTimeSync) es := by
  have hP : ∀ w (_ : List Event), Inv tick w → Synchronised tick w := fun w _ h => h.good
  have hkeep : ∀ w e (_ : List Event) w', Inv tick w → Exact tick w e →
      (machine lastUtc lastTimeSync).step w e = some w' → Inv tick w' := by
    intro w e _ w' h hexact hstep
    exact (step_inv_iff htick h hstep).1 hexact
  have hbreak : ∀ w e (_ : List Event) w', Inv tick w → ¬Exact tick w e →
      (machine lastUtc lastTimeSync).step w e = some w' → ¬Synchronised tick w' := by
    intro w e _ w' h hnot hstep hgood
    exact hnot ((step_inv_iff htick h hstep).2 hgood)
  have hinitial : Inv tick (initial lastUtc lastTimeSync) := by
    refine ⟨⟨?_, ?_⟩, fun _ => rfl, fun hne => absurd rfl hne⟩
    · intro e he
      cases he
    · intro p hp
      cases hp
  exact EventMachine.Machine.throughout_iff_eachStep hP hkeep hbreak hinitial

/-- An hour after a start with one tick between the two reads. -/
theorem synchronised_iff_hour :
    (1 : Int) < 2 ^ 31 ∧
      ((machine 0 0).Throughout (Synchronised 1) (initial 0 0)
          [.init true 1700000000 7 8, .syncTime 1700003600 3608] ↔
        (machine 0 0).EachStep (Exact 1) (initial 0 0)
          [.init true 1700000000 7 8, .syncTime 1700003600 3608]) :=
  ⟨by decide, synchronised_iff (by decide) 0 0 _⟩

/-- Two seconds between the two reads of `init`: the next synchronisation is off by two
seconds as well. -/
theorem synchronised_late :
    ((machine 0 0).run (initial 0 0)
        [.init true 1700000000 7 9, .syncTime 1700003600 3609]).map World.errors = some [2, 2] ∧
      ¬(machine 0 0).Throughout (Synchronised 1) (initial 0 0)
        [.init true 1700000000 7 9, .syncTime 1700003600 3609] := by
  refine ⟨by decide +kernel, ?_⟩
  rintro ⟨-, hrest⟩
  obtain ⟨⟨hgood, -⟩, -⟩ := hrest _ rfl
  have htwo := hgood 2 (by decide +kernel)
  norm_num at htwo

end World

end VzLogger.Pico.TimeSync
