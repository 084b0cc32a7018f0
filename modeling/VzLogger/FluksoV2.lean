import VzLogger.ReadingId

/-! # FluksoV2: configured and produced identifiers

`MeterFluksoV2::read` splits a line into a time and, for each sensor, its number
and two values, and gives each value the identifier of its sensor and type: the
number plus one, negative for consumption.  `ChannelIdentifier::parse` reads the
type of a configured identifier in the same way.  `reading_id_parse`, which the
configuration uses, ignores it: every sensor text configures the power of its
sensor, and any word passes for a type.
-/
namespace VzLogger.FluksoV2
open CString

/-- A value of a line, with the sensor and the type it belongs to. -/
structure Sample where
  sensor : Int
  type : SensorType
  reading : Reading

/-- The loop of `MeterFluksoV2::read` over the tokens after the time.  A line that
ends within a group of three hands `NULL` to `atoi`. -/
def readLoop (longBits : Nat) (time : Timeval) : List (List Char) → Option (List Sample)
  | [] => some []
  | sensor :: consumption :: power :: rest =>
    let channel := atoi longBits sensor + 1
    let rd1 : Reading := ⟨false, atoi longBits consumption, time, .channel (-channel)⟩
    let rd2 : Reading := ⟨false, atoi longBits power, time, .channel channel⟩
    (readLoop longBits time rest).map fun rds =>
      ⟨atoi longBits sensor, .consumption, rd1⟩ :: ⟨atoi longBits sensor, .power, rd2⟩ :: rds
  | _ => none

/-- `MeterFluksoV2::read` on a line, into a vector of `n` readings. -/
def read (longBits n : Nat) (line : List Char) : Option (List Sample) :=
  match tokens " \t".toList line with
  | [] => none
  | timeStr :: rest =>
    match readLoop longBits ⟨strtol longBits timeStr, 0⟩ rest with
    | none => none
    | some rds => if rds.length ≤ n then some rds else none

/-- An identifier that the meter attaches to the values of a sensor. -/
def Attached (longBits k : Nat) (type : SensorType) (id : ReadingIdentifier) : Prop :=
  ∃ n line rds, read longBits n line = some rds ∧
    ∃ smp ∈ rds, smp.sensor = k ∧ smp.type = type ∧ smp.reading.identifier = id

/-- An identifier is equal to those that the meter attaches to one sensor and type,
and to no other; in a line whose sensor numbers are not negative, it selects the
samples of that sensor and type. -/
structure MatchesExactly (longBits : Nat) (id : ReadingIdentifier) (k : Nat) (type : SensorType) :
    Prop where
  identifiers : ∀ id', id.compare id' = true ↔ Attached longBits k type id'
  samples : ∀ n line rds, read longBits n line = some rds →
    ∀ smp ∈ rds, 0 ≤ smp.sensor → smp.sensor + 1 < 2 ^ 31 →
      (id.compare smp.reading.identifier = true ↔ smp.sensor = k ∧ smp.type = type)

/-- A text configures the identifier of one sensor and type. -/
def Configures (longBits : Nat) (string : List Char) (k : Nat) (type : SensorType) : Prop :=
  ∃ id, readingIdParse longBits .fluksov2 string = .ok id ∧ MatchesExactly longBits id k type

/-- `reading_id_parse` and `ChannelIdentifier::parse` accept a text with the same
result, or both reject it. -/
def ParsesAlike (longBits : Nat) (string : List Char) : Prop :=
  (readingIdParse longBits .fluksov2 string).toOption =
    (ChannelIdentifier.parse longBits string).toOption.map .channel

/-- No text of the sensor format has another type than power, up to the
consumption of the number that is read as -1. -/
def OnlyPower (longBits : Nat) (string : List Char) : Prop :=
  ∀ channel type, sscanf longBits sensorFormat string = [.int channel, .text type] →
    type = "power".toList ∨ type = "consumption".toList ∧ channel = -1

/-! ## What the meter emits -/

/-- A sample carries the encoded identifier of its sensor and type. -/
structure Sample.Tagged (smp : Sample) : Prop where
  sensor : -2 ^ 31 ≤ smp.sensor
  identifier : smp.reading.identifier = .channel (smp.type.encode (smp.sensor + 1))

theorem tagged_of_mem_readLoop {longBits : Nat} {time : Timeval} {toks : List (List Char)}
    {rds : List Sample} (h : readLoop longBits time toks = some rds) : ∀ smp ∈ rds, smp.Tagged := by
  induction toks using readLoop.induct longBits time generalizing rds with
  | case1 =>
    obtain rfl := Option.some.inj h
    simp
  | case2 sensor consumption power rest ih =>
    rw [readLoop] at h
    obtain ⟨rds', hrest, rfl⟩ := Option.map_eq_some_iff.mp h
    intro smp hsmp
    rcases List.mem_cons.mp hsmp with rfl | hsmp
    · exact ⟨neg_le_atoi longBits sensor, rfl⟩
    rcases List.mem_cons.mp hsmp with rfl | hsmp
    · exact ⟨neg_le_atoi longBits sensor, rfl⟩
    exact ih hrest smp hsmp
  | case3 toks hnil hcons =>
    rw [readLoop] at h
    · cases h
    · exact hnil
    · exact hcons

theorem tagged_of_mem_read {longBits n : Nat} {line : List Char} {rds : List Sample}
    (h : read longBits n line = some rds) : ∀ smp ∈ rds, smp.Tagged := by
  unfold read at h
  split at h
  · cases h
  · split at h
    · cases h
    · rename_i hloop
      split at h
      · obtain rfl := Option.some.inj h
        exact tagged_of_mem_readLoop hloop
      · cases h

/-- The signs keep sensors and types apart. -/
theorem encode_inj {i j : Int} (hi : 0 < i) (hj : 0 < j) (s t : SensorType) :
    s.encode i = t.encode j ↔ i = j ∧ s = t := by
  cases s <;> cases t <;> simp [SensorType.encode] <;> omega

/-- A line with one sensor. -/
def lineOf (k : Nat) : List Char := '0' :: ' ' :: (Decimal.ofNat k ++ ' ' :: ['0', ' ', '0'])

theorem tokens_lineOf (k : Nat) :
    tokens " \t".toList (lineOf k) = [['0'], Decimal.ofNat k, ['0'], ['0']] := by
  have hdigits : ∀ c ∈ Decimal.ofNat k, decide (c ∈ " \t".toList) = false := by
    intro c hc
    have hspace := isSpace_of_isDigit (Decimal.isDigit_of_mem_ofNat hc)
    rw [decide_eq_false_iff_not]
    intro hmem
    rcases List.mem_cons.mp hmem with rfl | hmem
    · cases hspace
    · rw [List.mem_singleton.mp hmem] at hspace
      cases hspace
  have hzero : ∀ c ∈ ['0'], decide (c ∈ " \t".toList) = false := by
    intro c hc
    rw [List.mem_singleton.mp hc]
    decide
  have hspace : decide (' ' ∈ " \t".toList) = true := by decide
  show List.splitOnP _ (['0'] ++ ' ' :: (Decimal.ofNat k ++ ' ' :: (['0'] ++ ' ' :: ['0']))) = _
  rw [List.splitOnP_append_cons_of_forall_mem hzero ' ' hspace,
    List.splitOnP_append_cons_of_forall_mem hdigits ' ' hspace,
    List.splitOnP_append_cons_of_forall_mem hzero ' ' hspace, List.splitOnP_eq_singleton hzero]

/-- The meter emits both types of every sensor number. -/
theorem read_lineOf {longBits : Nat} (hbits : 32 ≤ longBits) {k : Nat} (hk : k < 2 ^ 31)
    (type : SensorType) :
    ∃ rds, read longBits 2 (lineOf k) = some rds ∧
      ∃ smp ∈ rds, smp.sensor = k ∧ smp.type = type := by
  refine ⟨_, by rw [read, tokens_lineOf]; rfl, ?_⟩
  cases type with
  | consumption => exact ⟨_, List.mem_cons_self, atoi_ofNat hbits hk, rfl⟩
  | power => exact ⟨_, List.mem_cons_of_mem _ List.mem_cons_self, atoi_ofNat hbits hk, rfl⟩

/-- The encoded identifier of a sensor and type matches exactly their samples. -/
theorem matchesExactly_encode {longBits : Nat} (hbits : 32 ≤ longBits) {k : Nat} (hk : k < 2 ^ 31)
    (type : SensorType) :
    MatchesExactly longBits (.channel (type.encode (k + 1))) k type where
  identifiers id' := by
    rw [ReadingIdentifier.compare_iff]
    constructor
    · rintro rfl
      obtain ⟨rds, hread, smp, hsmp, hsensor, htype⟩ := read_lineOf hbits hk type
      refine ⟨2, _, rds, hread, smp, hsmp, hsensor, htype, ?_⟩
      rw [(tagged_of_mem_read hread smp hsmp).identifier, hsensor, htype]
    · rintro ⟨n, line, rds, hread, smp, hsmp, hsensor, htype, hid⟩
      rw [← hid, (tagged_of_mem_read hread smp hsmp).identifier, hsensor, htype]
  samples n line rds hread smp hsmp hlo hhi := by
    rw [ReadingIdentifier.compare_iff, (tagged_of_mem_read hread smp hsmp).identifier,
      ReadingIdentifier.channel.injEq, encode_inj (by omega) (by omega)]
    constructor
    · rintro ⟨hk, rfl⟩
      exact ⟨by omega, rfl⟩
    · rintro ⟨hk, rfl⟩
      exact ⟨by omega, rfl⟩

/-! ## The agreement -/

/-- A sensor text configures what it says exactly if it says power. -/
theorem configures_sensorText_iff {longBits : Nat} (hbits : 32 ≤ longBits) {k : Nat}
    (hk : k + 1 < 2 ^ 31) (type : SensorType) :
    Configures longBits (sensorText k type) k type ↔ type = .power := by
  have hparse := readingIdParse_sensorText hbits (show k < 2 ^ 32 by omega) type
  rw [toInt_of_mem (by omega) (by omega)] at hparse
  constructor
  · rintro ⟨id, hid, hmatch⟩
    rw [hparse] at hid
    obtain rfl := Except.ok.inj hid
    cases type with
    | power => rfl
    | consumption =>
      -- the configured identifier is that of the power
      obtain ⟨rds, hread, smp, hsmp, hsensor, htype⟩ :=
        read_lineOf hbits (show k < 2 ^ 31 by omega) .consumption
      have hpower := (matchesExactly_encode hbits (show k < 2 ^ 31 by omega) .power).samples 2 _ rds
        hread smp hsmp (by omega) (by omega)
      have hcons := hmatch.samples 2 _ rds hread smp hsmp (by omega) (by omega)
      have h := hpower.mp (hcons.mpr ⟨hsensor, htype⟩)
      rw [htype] at h
      cases h.2
  · rintro rfl
    exact ⟨_, hparse, matchesExactly_encode hbits (show k < 2 ^ 31 by omega) .power⟩

theorem parsesAlike_of_sscanf {longBits : Nat} {string type : List Char} {channel : Int}
    (h : sscanf longBits sensorFormat string = [.int channel, .text type]) :
    ParsesAlike longBits string ↔
      type = "power".toList ∨ type = "consumption".toList ∧ channel = -1 := by
  have hid : readingIdParse longBits .fluksov2 string = .ok (.channel (channel + 1)) := by
    simp only [readingIdParse, h]
  rw [ParsesAlike, hid]
  by_cases hpower : type = "power".toList
  · subst hpower
    rw [ChannelIdentifier.parse_power h]
    exact ⟨fun _ => Or.inl rfl, fun _ => rfl⟩
  · rw [or_iff_right hpower]
    by_cases hcons : type = "consumption".toList
    · subst hcons
      rw [ChannelIdentifier.parse_consumption h]
      simp only [Except.toOption, Option.map_some, Option.some.injEq,
        ReadingIdentifier.channel.injEq, true_and]
      omega
    · have hparse : ChannelIdentifier.parse longBits string = .error "Invalid channel type" := by
        rw [ChannelIdentifier.parse, h]
        exact (if_neg hcons).trans (if_pos hpower)
      rw [hparse]
      exact iff_of_false (by simp [Except.toOption]) fun h => hcons h.1

/-- The two parsers agree exactly on the texts that have no other type than power. -/
theorem parsesAlike_iff (longBits : Nat) (string : List Char) :
    ParsesAlike longBits string ↔ OnlyPower longBits string := by
  by_cases hscan : ∃ channel type,
      sscanf longBits sensorFormat string = [.int channel, .text type]
  · obtain ⟨channel, type, h⟩ := hscan
    rw [parsesAlike_of_sscanf h]
    constructor
    · intro hpower channel' type' h'
      rw [h] at h'
      simp only [List.cons.injEq, Value.int.injEq, Value.text.injEq, and_true] at h'
      obtain ⟨rfl, rfl⟩ := h'
      exact hpower
    · exact fun hpower => hpower channel type h
  · -- without both conversions neither parser gives an identifier
    have hid : (readingIdParse longBits .fluksov2 string).toOption = none := by
      simp only [readingIdParse]
      split
      · rename_i h
        exact absurd ⟨_, _, h⟩ hscan
      · rfl
    have hparse : (ChannelIdentifier.parse longBits string).toOption = none := by
      unfold ChannelIdentifier.parse
      split
      · rename_i h
        exact absurd ⟨_, _, h⟩ hscan
      · rfl
    rw [ParsesAlike, hid, hparse]
    exact ⟨fun _ channel type h => absurd ⟨channel, type, h⟩ hscan, fun _ => rfl⟩

/-- What the meter emits is parsed back from its text. -/
theorem parse_unparse_of_mem_read {longBits n : Nat} (hbits : 32 ≤ longBits) {line : List Char}
    {rds : List Sample} (hread : read longBits n line = some rds) {smp : Sample} (hsmp : smp ∈ rds)
    (hhi : smp.sensor + 1 < 2 ^ 31) {channel : Int}
    (hid : smp.reading.identifier = .channel channel) :
    ChannelIdentifier.parse longBits (ChannelIdentifier.unparse maxIdentifierLen channel) =
      .ok channel := by
  obtain ⟨hlo, htag⟩ := tagged_of_mem_read hread smp hsmp
  rw [htag] at hid
  obtain rfl := ReadingIdentifier.channel.inj hid
  apply ChannelIdentifier.parse_unparse_of_lt hbits
  cases smp.type <;> simp only [SensorType.encode] <;> omega

/-- **Where the identifiers agree.**  A sensor text configures its own sensor and
type only if that is the power; the two parsers agree only on texts without
another type; and the printed identifiers of the meter always parse back. -/
theorem identifiers_agree_iff {longBits : Nat} (hbits : 32 ≤ longBits) :
    (∀ k type, k + 1 < 2 ^ 31 →
      (Configures longBits (sensorText k type) k type ↔ type = .power)) ∧
    (∀ string, ParsesAlike longBits string ↔ OnlyPower longBits string) ∧
    (∀ n line rds, read longBits n line = some rds → ∀ smp ∈ rds, smp.sensor + 1 < 2 ^ 31 →
      ∀ channel, smp.reading.identifier = .channel channel →
        ChannelIdentifier.parse longBits (ChannelIdentifier.unparse maxIdentifierLen channel) =
          .ok channel) :=
  ⟨fun _ type hk => configures_sensorText_iff hbits hk type, parsesAlike_iff longBits,
    fun _ _ _ hread _ hsmp hhi _ hid => parse_unparse_of_mem_read hbits hread hsmp hhi hid⟩

/-- Sensor 0, its power and its consumption, on a machine with 64-bit `long`. -/
theorem identifiers_agree_iff_zero :
    Configures 64 "sensor0/power".toList 0 .power ∧
      ¬Configures 64 "sensor0/consumption".toList 0 .consumption ∧
      ParsesAlike 64 "sensor".toList ∧
      ChannelIdentifier.parse 64 (ChannelIdentifier.unparse maxIdentifierLen (-1)) = .ok (-1) := by
  obtain ⟨hconf, hparse, hround⟩ := identifiers_agree_iff (show 32 ≤ 64 by decide)
  refine ⟨(hconf 0 .power (by decide)).mpr rfl, ?_, (hparse _).mpr ?_, ?_⟩
  · exact fun h => SensorType.noConfusion ((hconf 0 .consumption (by decide)).mp h)
  · intro channel type h
    cases h
  · exact hround 2 (lineOf 0) _ rfl _ List.mem_cons_self (by decide) _ rfl

/-- `sensor0/consumption` configures the identifier that the meter gives to the
power of sensor 0, and a misspelt type is accepted. -/
theorem consumption_configured_as_power :
    ¬Configures 64 "sensor0/consumption".toList 0 .consumption ∧
      Configures 64 "sensor0/consumption".toList 0 .power ∧
      ¬ParsesAlike 64 "sensor0/consumption".toList ∧ ¬ParsesAlike 64 "sensor0/powr".toList := by
  have hscan : sscanf 64 sensorFormat "sensor0/consumption".toList =
      [.int 0, .text "consumption".toList] := by decide +kernel
  have hscan' : sscanf 64 sensorFormat "sensor0/powr".toList = [.int 0, .text "powr".toList] := by
    decide +kernel
  refine ⟨?_, ⟨.channel 1, rfl,
    matchesExactly_encode (show 32 ≤ 64 by decide) (show 0 < 2 ^ 31 by decide) .power⟩, ?_, ?_⟩
  · exact fun h => SensorType.noConfusion
      ((configures_sensorText_iff (show 32 ≤ 64 by decide) (show 0 + 1 < 2 ^ 31 by decide)
        .consumption).mp h)
  · rw [parsesAlike_of_sscanf hscan]
    decide
  · rw [parsesAlike_of_sscanf hscan']
    decide

end VzLogger.FluksoV2
