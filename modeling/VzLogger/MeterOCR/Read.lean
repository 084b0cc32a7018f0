import VzLogger.MeterOCR.Impulses
import VzLogger.Reading
import Mathlib.Data.List.ReduceOption

/-! # Reading images

`MeterOCR::read` has the recognizers fill a map from the identifiers to what they made
of the image, and returns the values in it, or in impulses mode the impulses since the
last image, each with its least confidence where that has an identifier of its own.
The map is kept for the next image, unless a value of it was not recognised.
-/
namespace VzLogger.MeterOCR
open CMath CString

/-- What was recognised under an identifier; a value that is a NaN is `none`. -/
structure Reads where
  value : Option Rat
  confId : List Char
  minConf : Rat
  deriving DecidableEq

/-- `DBL_MAX`. -/
def dblMax : Rat := (2 ^ 53 - 1) * 2 ^ 971

/-- `Reads()`. -/
def Reads.initial : Reads := ⟨some 0, [], dblMax⟩

/-- `std::map<std::string, Reads>`, in the order of the keys. -/
abbrev ReadsMap := List (List Char × Reads)

/-- `reads[id]`, which adds what is not there. -/
def ReadsMap.at (reads : ReadsMap) (id : List Char) : Reads :=
  (reads.lookup id).getD Reads.initial

/-- The options, the length of the vector of readings, which is not empty, and what
`lrint` makes of a number that is too large and of a NaN. -/
structure Config where
  impulses : Int
  maxReads : Nat
  room : 0 < maxReads
  lrintBeyond : Rat → Int
  lrintNaN : Int

/-- An image, by what the recognizers make of it, and the clock at each reading. -/
structure Image where
  readings : ReadsMap
  clock : Nat → Timeval

/-- `calcImpulses` where the old value may be a NaN. -/
def impulsesSince (cfg : Config) (value : Rat) : Option Rat → Int
  | some oldValue => calcImpulses cfg.lrintBeyond cfg.impulses value oldValue
  | none => detectWrap cfg.impulses (toInt cfg.lrintNaN)

/-- The reading of a confidence, and those after it. -/
def returnConf (cfg : Config) (clock : Nat → Timeval) (i : Nat) (r : Reads)
    (rest : Nat → List Reading × Bool) : List Reading × Bool :=
  if r.confId = [] then rest i
  else
    let rd : Reading := ⟨false, r.minConf, clock i, .string r.confId⟩
    if cfg.maxReads ≤ i + 1 then ([rd], false) else ((rest (i + 1)).1.cons rd, (rest (i + 1)).2)

/-- The loop over the map: the readings, and whether there was a NaN. -/
def returnReadings (cfg : Config) (last : ReadsMap) (clock : Nat → Timeval) :
    Nat → ReadsMap → List Reading × Bool
  | _, [] => ([], false)
  | i, (id, r) :: readings =>
    let rest := fun i => returnReadings cfg last clock i readings
    match r.value with
    | some v =>
      let value : Rat := if cfg.impulses ≠ 0 then impulsesSince cfg v (last.at id).value else v
      let rd : Reading := ⟨false, value, clock i, .string id⟩
      if cfg.maxReads ≤ i + 1 then ([rd], false)
      else
        let (rds, wasNAN) := returnConf cfg clock (i + 1) r rest
        (rd :: rds, wasNAN)
    | none => ((returnConf cfg clock i r rest).1, true)

/-- `MeterOCR::read` of an image: the readings, and `_last_reads`.  The first time there
are no impulses. -/
def read (cfg : Config) (lastReads : Option ReadsMap) (image : Image) :
    List Reading × Option ReadsMap :=
  if cfg.maxReads < 1 then ([], lastReads)
  else
    let (rds, wasNAN) :=
      if cfg.impulses ≠ 0 ∧ lastReads = none then ([], false)
      else returnReadings cfg (lastReads.getD []) image.clock 0 image.readings
    (rds, if wasNAN then none else some image.readings)

/-! ## Runs -/

/-- The meter, and all it has returned. -/
structure State where
  lastReads : Option ReadsMap
  returned : List Reading

/-- The meter reads one image after the other. -/
def machine (cfg : Config) : EventMachine.Machine State Image where
  init := ⟨none, []⟩
  step s image :=
    let (rds, lastReads) := read cfg s.lastReads image
    some ⟨lastReads, s.returned ++ rds⟩

/-- An image of a meter with one identifier, which the confidence does not share. -/
structure Shot (id : List Char) where
  value : Option Rat
  confId : List Char
  confId_ne : confId ≠ id
  minConf : Rat
  clock : Nat → Timeval

def Shot.reads {id : List Char} (shot : Shot id) : Reads := ⟨shot.value, shot.confId, shot.minConf⟩

def Shot.image {id : List Char} (shot : Shot id) : Image := ⟨[(id, shot.reads)], shot.clock⟩

/-- The sum of the values returned under an identifier. -/
def total (id : List Char) (rds : List Reading) : Rat :=
  ((rds.filter fun rd => rd.identifier = .string id).map Reading.value).sum

/-- The impulses returned are, up to whole turns and half an impulse, the movement
between the first and the last value that was recognised. -/
def Telescopes (impulses : Int) (values : List (Option Rat)) (returned : Rat) : Prop :=
  ∀ first last, values.reduceOption.head? = some first → values.reduceOption.getLast? = some last →
    Dial.dist (impulses : Rat) (returned - (last - first) * impulses) ≤ 1 / 2

/-! ### What gets lost -/

/-- What gets lost of the movement to a value, after another one and some failures: the
rounding error where there was none, and all of it otherwise.  After two failures in a
row, the second of which is kept for a value, there are the impulses of a NaN, and so
after a first image that failed. -/
def loss (cfg : Config) : Option Rat → Nat → Rat → Rat
  | none, failures, _ => if failures % 2 = 1 then -(toInt cfg.lrintNaN : Rat) else 0
  | some oldValue, 0, value =>
    (value - oldValue) * cfg.impulses -
      toInt (lrint cfg.lrintBeyond ((value - oldValue) * cfg.impulses))
  | some oldValue, failures + 1, value =>
    (value - oldValue) * cfg.impulses - if failures % 2 = 1 then toInt cfg.lrintNaN else 0

/-- All that gets lost, from the last value and the failures since. -/
def missed (cfg : Config) : Option Rat → Nat → List (Option Rat) → Rat
  | _, _, [] => 0
  | oldValue, failures, none :: values => missed cfg oldValue (failures + 1) values
  | oldValue, failures, some value :: values =>
    loss cfg oldValue failures value + missed cfg (some value) 0 values

/-! ### One image -/

/-- The value kept, if one is. -/
def kept : Option Rat → Nat → Option (Option Rat)
  | none, failures => if failures % 2 = 1 then some none else none
  | some value, 0 => some (some value)
  | some _, failures + 1 => if failures % 2 = 1 then some none else none

section
variable {cfg : Config} {id : List Char}

/-- What the map of the last image says under the identifier. -/
def view (id : List Char) (lastReads : Option ReadsMap) : Option (Option Rat) :=
  lastReads.map fun reads => (reads.at id).value

theorem total_nil : total id [] = 0 := rfl

theorem total_append (rds rds' : List Reading) :
    total id (rds ++ rds') = total id rds + total id rds' := by
  rw [total, List.filter_append, List.map_append, List.sum_append, ← total, ← total]

theorem total_cons_self (rd : Reading) (rds : List Reading) (h : rd.identifier = .string id) :
    total id (rd :: rds) = rd.value + total id rds := by
  simp [total, h]

theorem total_cons_ne (rd : Reading) (rds : List Reading) (h : rd.identifier ≠ .string id) :
    total id (rd :: rds) = total id rds := by
  simp [total, h]

theorem at_single (r : Reads) : ReadsMap.at [(id, r)] id = r := by
  simp [ReadsMap.at]

/-- There is room for a reading. -/
theorem read_eq (cfg : Config) (lastReads : Option ReadsMap) (image : Image) :
    read cfg lastReads image =
      let (rds, wasNAN) :=
        if cfg.impulses ≠ 0 ∧ lastReads = none then ([], false)
        else returnReadings cfg (lastReads.getD []) image.clock 0 image.readings
      (rds, if wasNAN then none else some image.readings) :=
  if_neg (not_lt.mpr cfg.room)

/-- A confidence is no impulse. -/
theorem returnConf_shot (cfg : Config) (shot : Shot id) (i : Nat) :
    total id (returnConf cfg shot.clock i shot.reads fun _ => ([], false)).1 = 0 ∧
      (returnConf cfg shot.clock i shot.reads fun _ => ([], false)).2 = false := by
  have hne : ReadingIdentifier.string shot.confId ≠ .string id :=
    fun h => shot.confId_ne (ReadingIdentifier.string.inj h)
  unfold returnConf
  split
  · exact ⟨rfl, rfl⟩
  · split
    · exact ⟨total_cons_ne _ _ hne, rfl⟩
    · exact ⟨total_cons_ne _ _ hne, rfl⟩

/-- An image without a value: nothing is returned, and the map is dropped, unless
there was none before. -/
theorem read_failed (hI : cfg.impulses ≠ 0) {shot : Shot id} (hfail : shot.value = none)
    (lastReads : Option ReadsMap) :
    total id (read cfg lastReads shot.image).1 = 0 ∧
      view id (read cfg lastReads shot.image).2 =
        if (view id lastReads).isNone then some none else none := by
  have hvalue : shot.reads.value = none := hfail
  cases lastReads with
  | none => simp [read_eq, hI, total_nil, view, Shot.image, at_single, hvalue]
  | some last =>
    have hconf := returnConf_shot cfg shot 0
    simp [read_eq, Shot.image, returnReadings, hvalue, view, hconf.1]

/-- An image with a value: the impulses since the one kept, which it replaces. -/
theorem read_recognised (hI : cfg.impulses ≠ 0) {shot : Shot id} {v : Rat}
    (hvalue : shot.value = some v) (lastReads : Option ReadsMap) :
    total id (read cfg lastReads shot.image).1 =
        (view id lastReads).elim 0 (fun old => (impulsesSince cfg v old : Rat)) ∧
      view id (read cfg lastReads shot.image).2 = some (some v) := by
  have hvalue : shot.reads.value = some v := hvalue
  cases lastReads with
  | none => simp [read_eq, hI, total_nil, view, Shot.image, at_single, hvalue]
  | some last =>
    obtain ⟨hconf, hflag⟩ := returnConf_shot cfg shot 1
    by_cases hfull : cfg.maxReads ≤ 1
    · simp [read_eq, Shot.image, returnReadings, hvalue, view, hI, hfull, at_single,
        total_cons_self, total_nil]
    · simp [read_eq, Shot.image, returnReadings, hvalue, view, hI, hfull, at_single, total_cons_self,
        hconf, hflag]

theorem kept_failed (oldValue : Option Rat) (failures : Nat) :
    (if (kept oldValue failures).isNone then some none else none) =
      kept oldValue (failures + 1) := by
  have hmod : (failures + 1) % 2 = 1 ↔ ¬failures % 2 = 1 := by omega
  cases oldValue with
  | none => by_cases h : failures % 2 = 1 <;> simp [kept, hmod, h]
  | some value =>
    cases failures with
    | zero => simp [kept]
    | succ failures =>
      have hmod : (failures + 1) % 2 = 1 ↔ ¬failures % 2 = 1 := by omega
      by_cases h : failures % 2 = 1 <;> simp [kept, hmod, h]

/-! ### Whole runs -/

theorem detectWrap_cast (impulses imp : Int) :
    ∃ n : Int, (detectWrap impulses imp : Rat) = imp + impulses * n := by
  obtain ⟨n, hn⟩ := (detectWrap_modEq impulses imp).symm.dvd
  refine ⟨n, ?_⟩
  have hn : detectWrap impulses imp = imp + impulses * n := by omega
  exact_mod_cast hn

/-- How far the needle goes, image by image. -/
def movement (impulses : Int) : Option Rat → List (Option Rat) → Rat
  | _, [] => 0
  | oldValue, none :: values => movement impulses oldValue values
  | none, some value :: values => movement impulses (some value) values
  | some oldValue, some value :: values =>
    (value - oldValue) * impulses + movement impulses (some value) values

theorem movement_some (impulses : Int) (oldValue : Rat) (values : List (Option Rat)) :
    movement impulses (some oldValue) values =
      (values.reduceOption.getLast?.getD oldValue - oldValue) * impulses := by
  induction values generalizing oldValue with
  | nil => simp [movement]
  | cons image values ih =>
    cases image with
    | none =>
      rw [movement, ih, List.reduceOption_cons_of_none]
    | some value =>
      rw [movement, ih, List.reduceOption_cons_of_some, List.getLast?_cons, Option.getD_some]
      ring

theorem movement_none {impulses : Int} {values : List (Option Rat)} {first last : Rat}
    (hfirst : values.reduceOption.head? = some first)
    (hlast : values.reduceOption.getLast? = some last) :
    movement impulses none values = (last - first) * impulses := by
  induction values with
  | nil => simp at hfirst
  | cons image values ih =>
    cases image with
    | none =>
      rw [List.reduceOption_cons_of_none] at hfirst hlast
      rw [movement]
      exact ih hfirst hlast
    | some value =>
      rw [List.reduceOption_cons_of_some] at hfirst hlast
      rw [List.head?_cons] at hfirst
      obtain rfl := Option.some.inj hfirst
      rw [List.getLast?_cons] at hlast
      rw [movement, movement_some, Option.some.inj hlast]

/-- The impulses returned for a value are the movement to it without what gets lost. -/
theorem elim_kept (cfg : Config) (oldValue : Option Rat) (failures : Nat) (value : Rat) :
    ∃ n : Int, (kept oldValue failures).elim 0 (fun old => (impulsesSince cfg value old : Rat)) =
      oldValue.elim 0 (fun old => (value - old) * cfg.impulses) -
        loss cfg oldValue failures value + cfg.impulses * n := by
  obtain ⟨n, hn⟩ := detectWrap_cast cfg.impulses (toInt cfg.lrintNaN)
  cases oldValue with
  | none =>
    by_cases h : failures % 2 = 1
    · refine ⟨n, ?_⟩
      simp [kept, loss, h, impulsesSince, hn]
    · refine ⟨0, ?_⟩
      simp [kept, loss, h]
  | some oldValue =>
    cases failures with
    | zero =>
      obtain ⟨n, hn⟩ := detectWrap_cast cfg.impulses
        (toInt (lrint cfg.lrintBeyond ((value - oldValue) * cfg.impulses)))
      refine ⟨n, ?_⟩
      simp [kept, loss, impulsesSince, calcImpulses, hn]
    | succ failures =>
      by_cases h : failures % 2 = 1
      · refine ⟨n, ?_⟩
        simp [kept, loss, h, impulsesSince, hn]
      · refine ⟨0, ?_⟩
        simp [kept, loss, h]

theorem movement_recognised (impulses : Int) (oldValue : Option Rat) (value : Rat)
    (values : List (Option Rat)) :
    movement impulses oldValue (some value :: values) =
      oldValue.elim 0 (fun old => (value - old) * impulses) +
        movement impulses (some value) values := by
  cases oldValue with
  | none => rw [movement, Option.elim_none, zero_add]
  | some oldValue => rw [movement, Option.elim_some]

theorem machine_step (s : State) (image : Image) : (machine cfg).step s image =
    some ⟨(read cfg s.lastReads image).2, s.returned ++ (read cfg s.lastReads image).1⟩ := rfl

/-- **The run lemma.**  What a run returns is the movement without what gets lost, up
to whole turns. -/
theorem run_total (hI : cfg.impulses ≠ 0) {shots : List (Shot id)} {s t : State}
    {oldValue : Option Rat} {failures : Nat} (hs : view id s.lastReads = kept oldValue failures)
    (hrun : (machine cfg).run s (shots.map Shot.image) = some t) :
    ∃ n : Int, total id t.returned = total id s.returned +
      movement cfg.impulses oldValue (shots.map Shot.value) -
      missed cfg oldValue failures (shots.map Shot.value) + cfg.impulses * n := by
  induction shots generalizing s oldValue failures with
  | nil =>
    obtain rfl : s = t := Option.some.inj hrun
    exact ⟨0, by simp [movement, missed]⟩
  | cons shot shots ih =>
    rw [List.map_cons] at hrun ⊢
    obtain ⟨u, hstep, hrun⟩ := EventMachine.Machine.run_cons.mp hrun
    rw [machine_step] at hstep
    obtain rfl := Option.some.inj hstep
    cases hvalue : shot.value with
    | none =>
      obtain ⟨hzero, hview⟩ := read_failed hI hvalue s.lastReads
      rw [hs, kept_failed] at hview
      obtain ⟨n, hn⟩ := ih hview hrun
      refine ⟨n, ?_⟩
      rw [total_append, hzero] at hn
      rw [hn, movement, missed]
      ring
    | some value =>
      obtain ⟨himpulses, hview⟩ := read_recognised hI hvalue s.lastReads
      obtain ⟨m, hm⟩ := elim_kept cfg oldValue failures value
      obtain ⟨n, hn⟩ := ih (show _ = kept (some value) 0 from hview) hrun
      refine ⟨m + n, ?_⟩
      rw [total_append, himpulses, hs, hm] at hn
      rw [hn, movement_recognised, missed]
      push_cast
      ring

theorem missed_eq_zero {values : List (Option Rat)} (h : values.reduceOption = [])
    (oldValue : Option Rat) (failures : Nat) : missed cfg oldValue failures values = 0 := by
  induction values generalizing failures with
  | nil => rfl
  | cons image values ih =>
    cases image with
    | none =>
      rw [List.reduceOption_cons_of_none] at h
      rw [missed]
      exact ih h (failures + 1)
    | some value =>
      rw [List.reduceOption_cons_of_some] at h
      cases h

/-- **When the impulses of a run are its movement**: exactly if what gets lost comes to
no more than half an impulse on the dial. -/
theorem telescopes_iff (h10 : 10 ≤ cfg.impulses) {shots : List (Shot id)} {t : State}
    (hrun : (machine cfg).run (machine cfg).init (shots.map Shot.image) = some t) :
    Telescopes cfg.impulses (shots.map Shot.value) (total id t.returned) ↔
      Dial.dist (cfg.impulses : Rat) (missed cfg none 0 (shots.map Shot.value)) ≤ 1 / 2 := by
  have hI : (0 : Rat) < cfg.impulses := by
    have : 0 < cfg.impulses := by omega
    exact_mod_cast this
  have hkept : view id (machine cfg).init.lastReads = kept none 0 := rfl
  obtain ⟨n, hn⟩ := run_total (by omega) hkept hrun
  have hinit : total id (machine cfg).init.returned = 0 := rfl
  cases hvalues : (shots.map Shot.value).reduceOption with
  | nil =>
    rw [missed_eq_zero hvalues]
    refine iff_of_true ?_ ?_
    · intro first last hfirst
      rw [hvalues] at hfirst
      cases hfirst
    · refine (Dial.dist_le_iff hI).mpr ⟨0, ?_⟩
      norm_num
  | cons first values =>
    have hfirst : (shots.map Shot.value).reduceOption.head? = some first := by rw [hvalues]; rfl
    obtain ⟨last, hlast⟩ : ∃ last, (shots.map Shot.value).reduceOption.getLast? = some last := by
      rw [hvalues, List.getLast?_cons]
      exact ⟨_, rfl⟩
    have hdiff : total id t.returned - (last - first) * cfg.impulses =
        -missed cfg none 0 (shots.map Shot.value) + cfg.impulses * n := by
      rw [hn, hinit, movement_none hfirst hlast]
      ring
    have hdist : Dial.dist (cfg.impulses : Rat)
        (total id t.returned - (last - first) * cfg.impulses) ≤ 1 / 2 ↔
        Dial.dist (cfg.impulses : Rat) (missed cfg none 0 (shots.map Shot.value)) ≤ 1 / 2 := by
      rw [hdiff, Dial.dist_le_add_mul hI, Dial.dist_le_neg hI]
    rw [← hdist]
    constructor
    · exact fun h => h first last hfirst hlast
    · intro h first' last' hfirst' hlast'
      rw [hfirst] at hfirst'
      rw [hlast] at hlast'
      obtain rfl := Option.some.inj hfirst'
      obtain rfl := Option.some.inj hlast'
      exact h

end

/-- Ten impulses for a unit, and room for one reading. -/
def tenths : Config := ⟨10, 1, by decide, fun _ => -2 ^ 63, -2 ^ 63⟩

/-- An image without a confidence, at time zero. -/
def plainShot (value : Option Rat) : Shot ['w'] := ⟨value, [], by decide, 0, fun _ => ⟨0, 0⟩⟩

/-- Three tenths forward, and eight, which are two back. -/
theorem telescopes_tenths :
    ∃ t, (machine tenths).run (machine tenths).init
        (([some 0, some (3 / 10), some (11 / 10)].map plainShot).map Shot.image) = some t ∧
      Telescopes 10 (([some 0, some (3 / 10), some (11 / 10)].map plainShot).map Shot.value)
        (total ['w'] t.returned) := by
  refine ⟨_, rfl, (telescopes_iff (show 10 ≤ tenths.impulses by decide) rfl).mpr ?_⟩
  exact (Dial.dist_le_iff (by decide +kernel)).mpr ⟨0, by decide +kernel⟩

/-- Two movements of less than half an impulse are lost though together they are most
of one, and a movement of five impulses is lost to a failure. -/
theorem not_telescopes :
    (∃ t, (machine tenths).run (machine tenths).init
        (([some 0, some (1 / 25), some (2 / 25)].map plainShot).map Shot.image) = some t ∧
      ¬Telescopes 10 [some 0, some (1 / 25), some (2 / 25)] (total ['w'] t.returned)) ∧
    ∃ t, (machine tenths).run (machine tenths).init
        (([some 0, none, some (1 / 2)].map plainShot).map Shot.image) = some t ∧
      ¬Telescopes 10 [some 0, none, some (1 / 2)] (total ['w'] t.returned) := by
  refine ⟨⟨_, rfl, fun h => ?_⟩, ⟨_, rfl, fun h => ?_⟩⟩
  · have hdist := h 0 (2 / 25) rfl rfl
    revert hdist
    decide +kernel
  · have hdist := h 0 (1 / 2) rfl rfl
    revert hdist
    decide +kernel

end VzLogger.MeterOCR
