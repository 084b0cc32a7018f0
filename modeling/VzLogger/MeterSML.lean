import VzLogger.Reading
import VzLogger.Lib.Slots
import Mathlib.Algebra.Order.Field.Rat

/-! # The SML meter

`MeterSML::read` walks over the messages of a parsed SML file and, in each list
response, over the linked list of its entries.  The parsed tree is that of libsml:
every pointer of it that may be `NULL` is an `Option`, and what libsml makes of a
value as a `double` belongs to the value.  A step through a null pointer, or beyond
the end of an octet string, has no result.

The receipt of the file from the meter is left out.
-/
namespace VzLogger

/-- `SML_TYPE_OCTET_STRING`. -/
def smlTypeOctetString : UInt8 := 0x00

/-- `sml_value`. -/
structure SmlValue where
  type : UInt8
  /-- `sml_value_to_double` -/
  toDouble : Rat

/-- `sml_time`. -/
structure SmlTime where
  timestamp : Option Nat

/-- `sml_list`, without what is not read. -/
structure SmlEntry where
  objName : Option (List UInt8)
  valTime : Option SmlTime
  scaler : Option Int
  value : Option SmlValue

/-- `sml_message_body`. -/
inductive SmlMessage where
  /-- `SML_MESSAGE_GET_LIST_RESPONSE` -/
  | getListResponse (valList : List SmlEntry)
  | other

/-- `sml_file`. -/
structure SmlFile where
  messages : List SmlMessage

/-- The member that `read` uses. -/
structure MeterSML where
  useLocalTime : Bool

namespace MeterSML

/-- The code in the first six bytes of a name. -/
def obisOf : List UInt8 → Option Obis
  | a :: b :: c :: d :: e :: f :: _ => some ⟨a, b, c, d, e, f⟩
  | _ => none

/-- The time of a reading: that of the entry, or the local time. -/
def timeOf (meter : MeterSML) (now : Timeval) (entry : SmlEntry) : Option Timeval :=
  match meter.useLocalTime, entry.valTime with
  | false, some valTime => valTime.timestamp.map fun (timestamp : Nat) => ⟨timestamp, 0⟩
  | _, _ => some now

/-- `_parse`: the reading, and whether there is one. -/
def parse (meter : MeterSML) (now : Timeval) (entry : SmlEntry) (rd : Reading) :
    Option (Reading × Bool) :=
  let scaler := entry.scaler.getD 1
  (entry.objName.bind obisOf).bind fun obis =>
    match entry.value with
    | some value =>
      if obis.isValid then
        if value.type = smlTypeOctetString then some (rd, false)
        else
          (meter.timeOf now entry).map fun time =>
            ({ rd with value := value.toDouble * 10 ^ scaler, identifier := .obis obis, time }, true)
      else some (rd, false)
    | none => some (rd, false)

/-- The caller's vector, and the number of readings. -/
structure State (n : Nat) where
  rds : Vector Reading n
  m : Nat

/-- `for (; m < n && entry != NULL;)`; `now` is the clock, read for each reading. -/
def readEntries {n : Nat} (meter : MeterSML) (now : Nat → Timeval) :
    List SmlEntry → State n → Option (State n)
  | [], s => some s
  | entry :: entries, s =>
    if h : s.m < n then
      (meter.parse (now s.m) entry s.rds[s.m]).bind fun (rd, success) =>
        readEntries meter now entries ⟨s.rds.set s.m rd, if success then s.m + 1 else s.m⟩
    else some s

/-- One message. -/
def readMessage {n : Nat} (meter : MeterSML) (now : Nat → Timeval) (s : State n) :
    SmlMessage → Option (State n)
  | .getListResponse valList => meter.readEntries now valList s
  | .other => some s

/-- `MeterSML::read`, from the parsed file on. -/
def read {n : Nat} (meter : MeterSML) (now : Nat → Timeval) (file : SmlFile)
    (rds : Vector Reading n) : Option (State n) :=
  file.messages.foldlM (meter.readMessage now) ⟨rds, 0⟩

/-- The readings that a state counts, as identifier and value. -/
def State.readings {n : Nat} (s : State n) : List (ReadingIdentifier × Rat) :=
  (Slots.filled s.rds s.m).map fun rd => (rd.identifier, rd.value)

end MeterSML

/-! ## What a file says -/

namespace SmlMessage

/-- The entries of a list response. -/
def entries : SmlMessage → List SmlEntry
  | getListResponse valList => valList
  | other => []

end SmlMessage

/-- The entries of a file, in order. -/
def SmlFile.entries (file : SmlFile) : List SmlEntry := file.messages.flatMap SmlMessage.entries

namespace SmlEntry

/-- The name of an entry, if it is an OBIS code. -/
def obis (entry : SmlEntry) : Option Obis :=
  (entry.objName.bind MeterSML.obisOf).filter Obis.isValid

/-- The value of an entry, if it is a number. -/
def number (entry : SmlEntry) : Option Rat :=
  (entry.value.filter fun value => value.type ≠ smlTypeOctetString).map SmlValue.toDouble

/-- The power of ten that an entry scales its value with; it is optional. -/
def power (entry : SmlEntry) : Int := entry.scaler.getD 0

/-- What an entry with a name and a number denotes. -/
def denoted (entry : SmlEntry) : Option (ReadingIdentifier × Rat) :=
  entry.obis.bind fun obis => entry.number.map fun raw => (.obis obis, raw * 10 ^ entry.power)

end SmlEntry

namespace MeterSML

/-- Nothing is missing of the entry that the meter relies on: a name of six bytes, and
where it makes a reading, the time and, unless the value is zero, the scaler. -/
structure Complete (meter : MeterSML) (entry : SmlEntry) : Prop where
  name : (entry.objName.bind obisOf).isSome = true
  time : entry.denoted.isSome = true → meter.useLocalTime = false →
    ∀ valTime ∈ entry.valTime, valTime.timestamp.isSome = true
  scaler : entry.obis.isSome = true → ∀ raw ∈ entry.number, raw ≠ 0 → entry.scaler.isSome = true

/-- The entries looked at until there are `k` readings. -/
def visited : List SmlEntry → Nat → List SmlEntry
  | [], _ => []
  | entry :: entries, k =>
    if k = 0 then []
    else entry :: visited entries (if entry.denoted.isSome then k - 1 else k)

/-! ## One entry -/

variable {meter : MeterSML} {now : Timeval} {entry : SmlEntry}

/-- An entry without a name of six bytes is read beyond its end. -/
theorem parse_of_nameless (hname : entry.objName.bind obisOf = none) (rd : Reading) :
    meter.parse now entry rd = none := by
  rw [parse, hname]
  rfl

/-- An entry that denotes nothing makes no reading. -/
theorem parse_of_none {obis : Obis} (hname : entry.objName.bind obisOf = some obis)
    (h : entry.denoted = none) (rd : Reading) : meter.parse now entry rd = some (rd, false) := by
  simp only [SmlEntry.denoted, SmlEntry.obis, SmlEntry.number, hname, Option.filter_some] at h
  rw [parse, hname, Option.bind_some]
  cases hvalue : entry.value with
  | none => rfl
  | some value =>
    rw [hvalue, Option.filter_some] at h
    by_cases hvalid : obis.isValid = true
    · by_cases htype : value.type = smlTypeOctetString
      · simp [hvalid, htype]
      · simp [hvalid, htype] at h
    · simp [hvalid]

/-- An entry that denotes something makes a reading of it, with the power that the meter
takes for a missing scaler. -/
theorem parse_of_some {x : ReadingIdentifier × Rat} (h : entry.denoted = some x) (rd : Reading) :
    ∃ obis raw, entry.obis = some obis ∧ entry.number = some raw ∧
      x = (.obis obis, raw * 10 ^ entry.power) ∧
      meter.parse now entry rd = (meter.timeOf now entry).map fun time =>
        ({ rd with
            value := raw * 10 ^ entry.scaler.getD 1
            identifier := .obis obis
            time }, true) := by
  obtain ⟨obis, hobis, h⟩ := Option.bind_eq_some_iff.mp h
  obtain ⟨raw, hraw, rfl⟩ := Option.map_eq_some_iff.mp h
  refine ⟨obis, raw, hobis, hraw, rfl, ?_⟩
  obtain ⟨hname, hvalid⟩ := Option.filter_eq_some_iff.mp hobis
  obtain ⟨value, hvalue, rfl⟩ := Option.map_eq_some_iff.mp hraw
  obtain ⟨hvalue, htype⟩ := Option.filter_eq_some_iff.mp hvalue
  rw [parse, hname, hvalue]
  simp [hvalid, of_decide_eq_true htype]

/-! ## The loops -/

section
variable {n : Nat} (meter : MeterSML) (now : Nat → Timeval)

theorem readEntries_of_le {s : State n} (hs : n ≤ s.m) (entries : List SmlEntry) :
    meter.readEntries now entries s = some s := by
  cases entries with
  | nil => rfl
  | cons entry entries => rw [readEntries, dif_neg (by omega)]

variable {meter now} in
theorem readEntries_nameless {entry : SmlEntry} (hname : entry.objName.bind obisOf = none)
    {s : State n} (hs : s.m < n) (entries : List SmlEntry) :
    meter.readEntries now (entry :: entries) s = none := by
  rw [readEntries, dif_pos hs, parse_of_nameless hname]
  rfl

variable {meter now} in
theorem readEntries_of_none {entry : SmlEntry} (hname : (entry.objName.bind obisOf).isSome = true)
    (h : entry.denoted = none) {s : State n} (hs : s.m < n) (entries : List SmlEntry) :
    meter.readEntries now (entry :: entries) s = meter.readEntries now entries s := by
  obtain ⟨obis, hobis⟩ := Option.isSome_iff_exists.mp hname
  rw [readEntries, dif_pos hs, parse_of_none hobis h, Option.bind_some]
  simp

/-- A reading is added, if its time can be told. -/
theorem readEntries_of_some {entry : SmlEntry} {x : ReadingIdentifier × Rat}
    (h : entry.denoted = some x) {s : State n} (hs : s.m < n) (entries : List SmlEntry) :
    ∃ obis raw, entry.obis = some obis ∧ entry.number = some raw ∧
      x = (.obis obis, raw * 10 ^ entry.power) ∧
      (meter.timeOf (now s.m) entry = none → meter.readEntries now (entry :: entries) s = none) ∧
      ((meter.timeOf (now s.m) entry).isSome = true → ∃ t : State n, t.m = s.m + 1 ∧
        t.readings = s.readings ++ [(.obis obis, raw * 10 ^ entry.scaler.getD 1)] ∧
        meter.readEntries now (entry :: entries) s = meter.readEntries now entries t) := by
  obtain ⟨obis, raw, hobis, hraw, hx, hparse⟩ := parse_of_some h s.rds[s.m]
  refine ⟨obis, raw, hobis, hraw, hx, fun htime => ?_, fun htime => ?_⟩
  · rw [readEntries, dif_pos hs, hparse, htime]
    rfl
  · obtain ⟨time, htime⟩ := Option.isSome_iff_exists.mp htime
    rw [htime, Option.map_some] at hparse
    let rd : Reading := { s.rds[s.m] with
      value := raw * 10 ^ entry.scaler.getD 1
      identifier := .obis obis
      time }
    refine ⟨⟨s.rds.set s.m rd, s.m + 1⟩, rfl, ?_, ?_⟩
    · simp only [State.readings, Slots.filled_set hs, List.map_append, List.map_singleton, rd]
    · rw [readEntries, dif_pos hs, hparse]
      rfl

/-- What counts already is not touched. -/
theorem readings_prefix (entries : List SmlEntry) {s t : State n}
    (h : meter.readEntries now entries s = some t) : s.readings <+: t.readings := by
  induction entries generalizing s with
  | nil =>
    obtain rfl := Option.some.inj h
    exact List.prefix_rfl
  | cons entry entries ih =>
    by_cases hs : s.m < n
    · cases hname : entry.objName.bind obisOf with
      | none =>
        rw [readEntries_nameless hname hs] at h
        cases h
      | some obis =>
        cases hdenoted : entry.denoted with
        | none =>
          rw [readEntries_of_none (by rw [hname]; rfl) hdenoted hs] at h
          exact ih h
        | some x =>
          obtain ⟨obis, raw, -, -, -, hfault, hadd⟩ :=
            readEntries_of_some meter now hdenoted hs entries
          cases htime : meter.timeOf (now s.m) entry with
          | none =>
            rw [hfault htime] at h
            cases h
          | some time =>
            obtain ⟨u, -, hreadings, hu⟩ := hadd (by rw [htime]; rfl)
            rw [hu] at h
            exact List.IsPrefix.trans ⟨_, hreadings.symm⟩ (ih h)
    · rw [readEntries_of_le meter now (by omega)] at h
      obtain rfl := Option.some.inj h
      exact List.prefix_rfl

/-- Two lists one after the other are read as one. -/
theorem readEntries_append (entries rest : List SmlEntry) (s : State n) :
    meter.readEntries now (entries ++ rest) s =
      (meter.readEntries now entries s).bind (meter.readEntries now rest) := by
  induction entries generalizing s with
  | nil => rfl
  | cons entry entries ih =>
    by_cases hs : s.m < n
    · simp only [List.cons_append, readEntries, dif_pos hs, ih, Option.bind_assoc]
    · rw [readEntries_of_le meter now (by omega), readEntries_of_le meter now (by omega),
        Option.bind_some, readEntries_of_le meter now (by omega)]

theorem readMessages_eq (messages : List SmlMessage) (s : State n) :
    messages.foldlM (meter.readMessage now) s =
      meter.readEntries now (messages.flatMap SmlMessage.entries) s := by
  induction messages generalizing s with
  | nil => rfl
  | cons message messages ih =>
    rw [List.flatMap_cons, readEntries_append, List.foldlM_cons]
    cases message with
    | getListResponse valList => exact congrArg _ (funext ih)
    | other => exact ih s

/-- The messages do not matter, only the entries. -/
theorem read_eq (file : SmlFile) (rds : Vector Reading n) :
    meter.read now file rds = meter.readEntries now file.entries ⟨rds, 0⟩ :=
  readMessages_eq meter now file.messages ⟨rds, 0⟩

end

/-! ## When the readings are what the file says -/

theorem timeOf_isSome_iff (meter : MeterSML) (now : Timeval) (entry : SmlEntry) :
    (meter.timeOf now entry).isSome = true ↔
      (meter.useLocalTime = false → ∀ valTime ∈ entry.valTime, valTime.timestamp.isSome = true) := by
  unfold timeOf
  cases meter.useLocalTime with
  | true => simp
  | false =>
    cases entry.valTime with
    | none => simp
    | some valTime =>
      show (valTime.timestamp.map _).isSome = true ↔ _
      rw [Option.isSome_map]
      simp

/-- What the meter returns is what the file says, cut at the size of the vector. -/
def Faithful (file : SmlFile) {n : Nat} (result : Option (State n)) : Prop :=
  ∃ t, result = some t ∧ t.readings = (file.entries.filterMap SmlEntry.denoted).take n

/-- Scaling with the wrong power shows, unless the value is zero. -/
theorem scaled_eq_iff (raw : Rat) (scaler : Option Int) :
    raw * 10 ^ scaler.getD 1 = raw * 10 ^ scaler.getD 0 ↔ (raw ≠ 0 → scaler.isSome = true) := by
  cases scaler with
  | some k => simp
  | none =>
    simp only [Option.getD_none, zpow_one, zpow_zero, mul_one, Option.isSome_none]
    constructor
    · intro h hraw
      have h10 : (10 : Rat) = 1 := mul_left_cancel₀ hraw (by rw [h, mul_one])
      norm_num at h10
    · intro h
      have hraw : raw = 0 := by_contra fun hne => by simpa using h hne
      rw [hraw, zero_mul]

/-- What an entry that makes a reading has to have. -/
theorem complete_iff {meter : MeterSML} {entry : SmlEntry} (now : Timeval) {obis : Obis} {raw : Rat}
    (hobis : entry.obis = some obis) (hraw : entry.number = some raw) :
    meter.Complete entry ↔ (meter.timeOf now entry).isSome = true ∧
      raw * 10 ^ entry.scaler.getD 1 = raw * 10 ^ entry.power := by
  have hdenoted : entry.denoted.isSome = true := by
    rw [SmlEntry.denoted, hobis, hraw]
    rfl
  have hname : (entry.objName.bind obisOf).isSome = true := by
    rw [(Option.filter_eq_some_iff.mp hobis).1]
    rfl
  rw [timeOf_isSome_iff, SmlEntry.power, scaled_eq_iff]
  constructor
  · rintro ⟨-, htime, hscaler⟩
    exact ⟨htime hdenoted, hscaler (by rw [hobis]; rfl) raw hraw⟩
  · rintro ⟨htime, hscaler⟩
    refine ⟨hname, fun _ => htime, fun _ x hx => ?_⟩
    obtain rfl : raw = x := Option.some.inj (hraw.symm.trans hx)
    exact hscaler

/-- A name of six bytes is relied on. -/
theorem not_complete_of_nameless (meter : MeterSML) {entry : SmlEntry}
    (hname : entry.objName.bind obisOf = none) : ¬meter.Complete entry := by
  rintro ⟨h, -, -⟩
  rw [hname] at h
  cases h

/-- Where nothing is denoted, nothing can be missing. -/
theorem complete_of_denoted_none (meter : MeterSML) {entry : SmlEntry}
    (hname : (entry.objName.bind obisOf).isSome = true) (hdenoted : entry.denoted = none) :
    meter.Complete entry := by
  refine ⟨hname, by rw [hdenoted]; simp, fun hobis raw hraw => ?_⟩
  obtain ⟨obis, hobis⟩ := Option.isSome_iff_exists.mp hobis
  rw [SmlEntry.denoted, hobis, Option.bind_some, Option.mem_def.mp hraw] at hdenoted
  cases hdenoted

/-- **The loop over the entries.** -/
theorem readEntries_iff {n : Nat} (meter : MeterSML) (now : Nat → Timeval)
    (entries : List SmlEntry) (s : State n) :
    (∃ t, meter.readEntries now entries s = some t ∧
      t.readings = s.readings ++ (entries.filterMap SmlEntry.denoted).take (n - s.m)) ↔
      ∀ entry ∈ visited entries (n - s.m), meter.Complete entry := by
  induction entries generalizing s with
  | nil => simp [readEntries, visited]
  | cons entry entries ih =>
    by_cases hs : s.m < n
    · obtain ⟨k, hk⟩ : ∃ k, n - s.m = k + 1 := ⟨n - s.m - 1, by omega⟩
      cases hname : entry.objName.bind obisOf with
      | none =>
        have hnot := not_complete_of_nameless meter hname
        rw [readEntries_nameless hname hs]
        simp [visited, hk, hnot]
      | some obis =>
        cases hdenoted : entry.denoted with
        | none =>
          have hsome : (entry.objName.bind obisOf).isSome = true := by rw [hname]; rfl
          have hcomplete := complete_of_denoted_none meter hsome hdenoted
          rw [readEntries_of_none hsome hdenoted hs]
          simp only [List.filterMap_cons, hdenoted, ih s]
          simp [visited, hk, hdenoted, hcomplete]
        | some x =>
          obtain ⟨obis, raw, hobis, hraw, rfl, hfault, hadd⟩ :=
            readEntries_of_some meter now hdenoted hs entries
          have hvisited : visited (entry :: entries) (n - s.m) = entry :: visited entries k := by
            simp [visited, hk, hdenoted]
          rw [hvisited, List.forall_mem_cons, complete_iff (now s.m) hobis hraw]
          cases htime : meter.timeOf (now s.m) entry with
          | none =>
            rw [hfault htime]
            simp
          | some time =>
            obtain ⟨u, hu, hreadings, hrun⟩ := hadd (by rw [htime]; rfl)
            have ih := ih u
            rw [show n - u.m = k by omega, hreadings] at ih
            rw [hrun, ← ih, hk, List.filterMap_cons_some hdenoted, List.take_succ_cons]
            constructor
            · rintro ⟨t, ht, hout⟩
              -- the reading that was added is still there
              obtain ⟨out, hprefix⟩ := readings_prefix meter now entries ht
              have hcons := hprefix.trans hout
              rw [hreadings, List.append_assoc, List.append_cancel_left_eq,
                List.singleton_append] at hcons
              obtain ⟨hx, hrest⟩ := List.cons.inj hcons
              have hvalue := (Prod.mk.inj hx).2
              refine ⟨⟨rfl, hvalue⟩, t, ht, ?_⟩
              rw [hout, ← hvalue, List.append_assoc, List.singleton_append]
            · rintro ⟨⟨-, hvalue⟩, t, ht, hout⟩
              refine ⟨t, ht, ?_⟩
              rw [hout, hvalue, List.append_assoc, List.singleton_append]
    · rw [readEntries_of_le meter now (by omega)]
      simp [visited, show n - s.m = 0 by omega]

/-- **When the readings are those of the file.** -/
theorem read_faithful_iff {n : Nat} (meter : MeterSML) (now : Nat → Timeval) (file : SmlFile)
    (rds : Vector Reading n) :
    Faithful file (meter.read now file rds) ↔ ∀ entry ∈ visited file.entries n, meter.Complete entry := by
  have h := readEntries_iff meter now file.entries (⟨rds, 0⟩ : State n)
  simp only [State.readings, Slots.filled_zero, List.map_nil, List.nil_append, Nat.sub_zero] at h
  rw [Faithful, read_eq, ← h]
  rfl

/-- An active power of 5 W without a scaler. -/
def powerEntry : SmlEntry := ⟨some [1, 0, 1, 7, 0, 255], none, none, some ⟨0x52, 5⟩⟩

/-- It is read as 50 W. -/
theorem read_without_scaler :
    powerEntry.denoted = some (.obis ⟨1, 0, 1, 7, 0, 255⟩, 5) ∧
    ((⟨true⟩ : MeterSML).read (fun _ => ⟨0, 0⟩) ⟨[.getListResponse [powerEntry]]⟩
      (Vector.replicate 1 (.tick 0))).map State.readings = some [(.obis ⟨1, 0, 1, 7, 0, 255⟩, 50)] ∧
    ¬Faithful ⟨[.getListResponse [powerEntry]]⟩ ((⟨true⟩ : MeterSML).read (fun _ => ⟨0, 0⟩)
      ⟨[.getListResponse [powerEntry]]⟩ (Vector.replicate 1 (.tick 0))) := by
  have hdenoted : powerEntry.denoted = some (.obis ⟨1, 0, 1, 7, 0, 255⟩, 5) := by decide +kernel
  have hread : ((⟨true⟩ : MeterSML).read (fun _ => ⟨0, 0⟩) ⟨[.getListResponse [powerEntry]]⟩
      (Vector.replicate 1 (.tick 0))).map State.readings =
        some [(.obis ⟨1, 0, 1, 7, 0, 255⟩, 50)] := by decide +kernel
  refine ⟨hdenoted, hread, ?_⟩
  rintro ⟨t, ht, hreadings⟩
  rw [ht, Option.map_some, hreadings] at hread
  revert hread
  decide +kernel

end MeterSML
end VzLogger
