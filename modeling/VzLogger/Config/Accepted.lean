import VzLogger.Config.Parse
import VzLogger.Lib.Outcome
import VzLogger.Mqtt.Topics

/-! # What becomes of a document

`config_parse` ends with an exception, or with a configuration that the rest of the program
can rely on: meters and channels are numbered in the order in which they come, so that no two
have one name, an identifier is one of the meter's protocol, an interval is one that the
protocol takes.

It does so for every document of the right shape.  Of another one it may follow a null
pointer or use a key as a format, and a message may print what is not there.
-/
namespace VzLogger.Config
open Outcome OptionList

/-! ## The shape of a document -/

/-- A member without a value is named in the message of an exception, which is a format. -/
def NullsNamed (ms : List (String × Value)) : Prop := ∀ m ∈ ms, m.2 = .null → '%' ∉ m.1.toList

/-- The message about a channel prints its `uuid` from the 30th character on. -/
def ChannelShaped : Value → Prop
  | .object ms => NullsNamed ms ∧ ∀ s, ("uuid", .string s) ∈ ms → 30 ≤ (getString s).length
  | _ => False

def MeterShaped : Value → Prop
  | .object ms => NullsNamed ms ∧
      (∀ vs, ("channels", .array vs) ∈ ms → ∀ v ∈ vs, ChannelShaped v) ∧
      ∀ cs, ("channel", .object cs) ∈ ms → ChannelShaped (.object cs)
  | _ => False

/-- No member is without a value: the message about one that is ignored prints it. -/
def Valued (ms : List (String × Value)) : Prop := ∀ m ∈ ms, m.2 ≠ .null

def Shaped : Value → Prop
  | .object ms => Valued ms ∧ (∀ v, ("local", v) ∈ ms → ∃ ls, v = .object ls ∧ Valued ls) ∧
      (∀ ls, ("mqtt", .object ls) ∈ ms → Valued ls) ∧
      ∀ key vs, key = "sensors" ∨ key = "meters" → (key, .array vs) ∈ ms → ∀ v ∈ vs, MeterShaped v
  | .null => True
  | _ => False

/-- The protocols' constructors end, with an exception if need be. -/
def Environment.Constructs (env : Environment) : Prop :=
  ∀ protocol found, env.construct protocol found ≠ .error .undefined

/-- An error that is an exception, with constructors that end and a document of the shape. -/
def Safe (constructs shape : Prop) (e : Error) : Prop := constructs → shape → e ≠ .undefined

section rules
variable {constructs shape : Prop} {α : Type} {P : α → Prop}

theorem meets_fail {reason : String} (h : '%' ∉ reason.toList) :
    Meets (Safe constructs shape) P (fail reason) :=
  fun _ _ => raise_ne_undefined (fun t => by simp) h

theorem meets_orDefault {x : Except Error α} {d : α} (h : Meets (Safe constructs shape) P x) (hd : P d) :
    Meets (Safe constructs shape) P (orDefault d x) := by
  match x with
  | .ok a => exact h
  | .error (.optionNotFound _) => exact hd
  | .error (.invalidType _) | .error (.failed _) | .error .undefined => exact h

theorem meets_lookup {options : List Opt} {key : String} (h : '%' ∉ key.toList) :
    Meets (Safe constructs shape) (fun _ => True) (lookup options key) := by
  rw [lookup]
  split
  · exact True.intro
  · exact fun _ _ => raise_ne_undefined (fun t => by simp) (by simp [h])

theorem meets_lookupString {options : List Opt} {key : String} (h : '%' ∉ key.toList) :
    Meets (Safe constructs shape) (fun _ => True) (lookupString options key) := by
  apply (meets_lookup h).bind
  rintro (_ | _) - <;>
    first | exact True.intro | exact fun _ _ => raise_ne_undefined (fun t => by simp) (by decide)

theorem meets_lookupInt {options : List Opt} {key : String} (h : '%' ∉ key.toList) :
    Meets (Safe constructs shape) (fun _ => True) (lookupInt options key) := by
  apply (meets_lookup h).bind
  rintro (_ | _) - <;>
    first | exact True.intro | exact fun _ _ => raise_ne_undefined (fun t => by simp) (by decide)

theorem meets_lookupBool {options : List Opt} {key : String} (h : '%' ∉ key.toList) :
    Meets (Safe constructs shape) (fun _ => True) (lookupBool options key) := by
  apply (meets_lookup h).bind
  rintro (_ | _) - <;>
    first | exact True.intro | exact fun _ _ => raise_ne_undefined (fun t => by simp) (by decide)

theorem meets_newOpt {m : String × Value} (h : shape → m.2 = .null → '%' ∉ m.1.toList) :
    Meets (Safe constructs shape) (fun _ => True) (Opt.new m.1 m.2) := by
  cases hnew : Opt.new m.1 m.2 with
  | ok o => exact True.intro
  | error e =>
    intro _ hshape he
    rw [he] at hnew
    exact Opt.new_ne_undefined (h hshape) hnew

end rules

/-! ## Channels -/

/-- What the rest of the program relies on of a channel, and, if the document has its shape,
what the message about it relies on. -/
structure Channel.Sound (env : Environment) (shape : Prop) (protocol : MeterProtocol)
    (ch : Channel) : Prop where
  identifier : ∃ text, readingIdParse env.longBits protocol text = .ok ch.identifier
  uuid : shape → 30 ≤ ch.uuid.text.length
  api : ch.apiProtocol ≠ []

section channels
variable {env : Environment} {protocol : MeterProtocol} {constructs shape : Prop}

theorem meets_newChannel {id : Nat} {options : List Opt} {api : List Char} {uuid : Uuid}
    {identifier : ReadingIdentifier} :
    Meets (Safe constructs shape)
      (fun ch => ch.id = id ∧ ch.apiProtocol = api ∧ ch.uuid = uuid ∧ ch.identifier = identifier)
      (Channel.new id options api uuid identifier) := by
  have haggmode : Meets (Safe constructs shape) (fun _ => True)
      (orDefault .none ((lookupString options "aggmode").bind aggmodeOf)) := by
    apply meets_orDefault _ True.intro
    apply (meets_lookupString (by decide)).bind
    intro s _
    rw [aggmodeOf]
    split_ifs
    · exact True.intro
    · exact True.intro
    · exact True.intro
    · exact True.intro
    · exact meets_fail (by decide)
  have hduplicates : Meets (Safe constructs shape) (fun _ => True)
      (orDefault ⟨0, Int.le_refl 0⟩ ((lookupInt options "duplicates").bind duplicatesOf)) := by
    apply meets_orDefault _ True.intro
    apply (meets_lookupInt (by decide)).bind
    intro i _
    rw [duplicatesOf]
    split_ifs
    · exact True.intro
    · exact meets_fail (by decide)
  apply haggmode.bind
  intro aggmode _
  apply hduplicates.bind
  intro duplicates _
  exact ⟨rfl, rfl, rfl, rfl⟩

/-- The `uuid` is one of the members'. -/
def ChannelMembers.Of (ms : List (String × Value)) (c : ChannelMembers) : Prop :=
  ∀ uuid, c.uuid = some uuid → ∃ s, ("uuid", .string s) ∈ ms ∧ uuid = getString s

theorem meets_addToChannel {ms : List (String × Value)} (hnulls : shape → NullsNamed ms)
    {c : ChannelMembers} (hc : c.Of ms) {m : String × Value} (hm : m ∈ ms) :
    Meets (Safe constructs shape) (ChannelMembers.Of ms) (c.add m) := by
  unfold ChannelMembers.add
  split
  case h_1 s =>
    intro uuid huuid
    exact ⟨s, hm, (Option.some.inj huuid).symm⟩
  case h_2 => exact hc
  case h_3 => exact hc
  case h_4 key value _ _ _ =>
    exact (meets_newOpt fun hshape => hnulls hshape (key, value) hm).map fun o _ => hc

theorem meets_uuidOf {uuid : Option (List Char)} :
    Meets (Safe constructs shape) (fun u => uuid = some u.text) (uuidOf uuid) := by
  unfold uuidOf
  split
  · exact meets_fail (by decide)
  · split_ifs
    · exact rfl
    · exact meets_fail (by decide)

theorem meets_identifierOf {idStr : Option (List Char)} :
    Meets (Safe constructs shape) (fun id => ∃ text, readingIdParse env.longBits protocol text = .ok id)
      (identifierOf env protocol idStr) := by
  unfold identifierOf
  split
  case h_1 id hid => exact ⟨_, hid⟩
  case h_2 => exact meets_fail (by decide)

theorem meets_channel {id : Nat} {c : ChannelMembers}
    (huuid : shape → ∀ uuid, c.uuid = some uuid → 30 ≤ uuid.length) :
    Meets (Safe constructs shape) (fun ch => ch.id = id ∧ ch.Sound env shape protocol)
      (c.channel env protocol id) := by
  apply meets_uuidOf.bind
  intro uuid hu
  apply meets_identifierOf.bind
  intro identifier hid
  apply meets_newChannel.imp
  rintro ch ⟨rfl, hapi, rfl, rfl⟩
  have hlen : shape → 30 ≤ ch.uuid.text.length := fun hshape => huuid hshape _ hu
  have hapi' : ch.apiProtocol ≠ [] := by
    rw [hapi]
    split_ifs with hempty
    · decide
    · exact hempty
  exact ⟨rfl, hid, hlen, hapi'⟩

theorem meets_configParseChannel {id : Nat} {v : Value} (h : shape → ChannelShaped v) :
    Meets (Safe constructs shape) (fun ch => ch.id = id ∧ ch.Sound env shape protocol)
      (configParseChannel env protocol id v) := by
  cases v with
  | object ms =>
    have hempty : ChannelMembers.empty.Of ms := fun uuid huuid => by cases huuid
    apply (Meets.foldlM hempty fun c hc m hm =>
      meets_addToChannel (fun hshape => (h hshape).1) hc hm).bind
    intro c hc
    apply meets_channel
    intro hshape uuid huuid
    obtain ⟨s, hs, rfl⟩ := hc uuid huuid
    exact (h hshape).2 s hs
  | _ => exact fun _ hshape => (h hshape).elim

/-- The channels of a meter are numbered from `id` on. -/
theorem meets_configParseChannels {id : Nat} {vs : List Value}
    (h : shape → ∀ v ∈ vs, ChannelShaped v) :
    Meets (Safe constructs shape)
      (fun chs => chs.map Channel.id = List.range' id chs.length ∧
        ∀ ch ∈ chs, ch.Sound env shape protocol)
      (configParseChannels env protocol id vs) := by
  induction vs generalizing id with
  | nil => exact ⟨rfl, fun ch hch => by cases hch⟩
  | cons v vs ih =>
    apply (meets_configParseChannel fun hshape => h hshape v List.mem_cons_self).bind
    rintro ch ⟨rfl, hch⟩
    apply (ih fun hshape w hw => h hshape w (List.mem_cons_of_mem v hw)).bind
    rintro chs ⟨hids, hchs⟩
    refine ⟨?_, List.forall_mem_cons.mpr ⟨hch, hchs⟩⟩
    rw [List.map_cons, hids, List.length_cons, List.range'_succ]

end channels

/-! ## Meters -/

/-- What the rest of the program relies on of the meters and their channels. -/
structure Mappings.Sound (env : Environment) (shape : Prop) (s : Mappings) : Prop where
  meters : s.maps.map (fun map => map.meter.id) = List.range s.meterInstances
  channels : (s.maps.flatMap MeterMap.channels).map Channel.id = List.range s.channelInstances
  supported : ∀ map ∈ s.maps, env.supports map.meter.protocol = true ∧
    map.meter.protocol ∈ protocols.map Prod.fst
  sound : ∀ map ∈ s.maps, ∀ ch ∈ map.channels, ch.Sound env shape map.meter.protocol

theorem meterLookupProtocol_mem {env : Environment} {name : List Char} {protocol : MeterProtocol}
    (h : meterLookupProtocol env name = some protocol) :
    env.supports protocol = true ∧ protocol ∈ protocols.map Prod.fst := by
  rw [meterLookupProtocol, Option.map_eq_some_iff] at h
  obtain ⟨it, hit, rfl⟩ := h
  have hmem := List.mem_filter.mp (List.mem_of_find?_eq_some hit)
  exact ⟨hmem.2, List.mem_map_of_mem hmem.1⟩

section meters
variable {env : Environment} {constructs shape : Prop}

theorem meets_newMeter (hconstruct : constructs → env.Constructs) {id : Nat}
    {options : List Opt} :
    Meets (Safe constructs shape)
      (fun m => m.id = id ∧ env.supports m.protocol = true ∧
        m.protocol ∈ protocols.map Prod.fst)
      (Meter.new env id options) := by
  have hprotocol : Meets (Safe constructs shape)
      (fun p => env.supports p = true ∧ p ∈ protocols.map Prod.fst)
      ((lookupString options "protocol").bind (protocolOf env)) := by
    apply (meets_lookupString (by decide)).bind
    intro name _
    unfold protocolOf
    split
    case h_1 protocol hlookup => exact meterLookupProtocol_mem hlookup
    case h_2 => exact meets_fail (by decide)
  have hint : ∀ key d, '%' ∉ String.toList key →
      Meets (Safe constructs shape) (fun _ => True) (orDefault d (lookupInt options key)) :=
    fun key d hkey => meets_orDefault (meets_lookupInt hkey) True.intro
  have hbool : ∀ key d, '%' ∉ String.toList key →
      Meets (Safe constructs shape) (fun _ => True) (orDefault d (lookupBool options key)) :=
    fun key d hkey => meets_orDefault (meets_lookupBool hkey) True.intro
  apply hprotocol.bind
  intro protocol hp
  apply (hint "interval" (-1) (by decide)).bind
  intro interval _
  apply (hint "aggtime" (-1) (by decide)).bind
  intro aggtime _
  apply (hbool "aggfixedinterval" false (by decide)).bind
  intro aggFixedInterval _
  have hallow : Meets (Safe constructs shape) (fun _ => True) (env.construct protocol (find options)) := by
    cases hx : env.construct protocol (find options) with
    | ok b => exact True.intro
    | error e =>
      intro hconstructs _ he
      rw [he] at hx
      exact hconstruct hconstructs protocol _ hx
  apply hallow.bind
  intro allowInterval _
  apply (hbool "enabled" false (by decide)).bind
  intro enable _
  apply (hbool "allowskip" false (by decide)).bind
  intro skip _
  exact ⟨rfl, hp⟩

/-- The channels are among those of the members. -/
def MeterMembers.Of (ms : List (String × Value)) (m : MeterMembers) : Prop :=
  ∀ v ∈ m.channels, (∃ vs, ("channels", .array vs) ∈ ms ∧ v ∈ vs) ∨
    ∃ cs, ("channel", .object cs) ∈ ms ∧ v = .object cs

theorem meets_addToMeter {ms : List (String × Value)} (hnulls : shape → NullsNamed ms)
    {m : MeterMembers} (h : m.Of ms) {e : String × Value} (he : e ∈ ms) :
    Meets (Safe constructs shape) (MeterMembers.Of ms) (m.add e) := by
  unfold MeterMembers.add
  split
  case h_1 vs =>
    intro v hv
    rcases List.mem_append.mp hv with hv | hv
    · exact h v hv
    · exact .inl ⟨vs, he, hv⟩
  case h_2 cs =>
    intro v hv
    rcases List.mem_append.mp hv with hv | hv
    · exact h v hv
    · exact .inr ⟨cs, he, List.mem_singleton.mp hv⟩
  case h_3 key value _ _ =>
    exact (meets_newOpt fun hshape => hnulls hshape (key, value) he).map fun o _ => h

/-- A meter more, with the numbers that come next. -/
theorem Mappings.Sound.concat {s : Mappings} (h : s.Sound env shape) {meter : Meter}
    {channels : List Channel} (hid : meter.id = s.meterInstances)
    (hsupported : env.supports meter.protocol = true ∧ meter.protocol ∈ protocols.map Prod.fst)
    (hids : channels.map Channel.id = List.range' s.channelInstances channels.length)
    (hsound : ∀ ch ∈ channels, ch.Sound env shape meter.protocol) :
    Mappings.Sound env shape ⟨s.meterInstances + 1, s.channelInstances + channels.length,
      s.maps ++ [⟨meter, channels⟩]⟩ where
  meters := by
    rw [List.map_append, h.meters, List.range_succ, List.map_singleton, hid]
  channels := by
    have hnew : List.range' s.channelInstances channels.length =
        List.range' (0 + 1 * s.channelInstances) channels.length := by
      rw [Nat.one_mul, Nat.zero_add]
    rw [List.flatMap_append, List.map_append, h.channels, List.flatMap_singleton, hids, hnew,
      List.range_eq_range', List.range_eq_range', List.range'_append]
  supported := by
    intro map hmap
    rcases List.mem_append.mp hmap with hmap | hmap
    · exact h.supported map hmap
    · rw [List.mem_singleton.mp hmap]
      exact hsupported
  sound := by
    intro map hmap
    rcases List.mem_append.mp hmap with hmap | hmap
    · exact h.sound map hmap
    · rw [List.mem_singleton.mp hmap]
      exact hsound

theorem meets_configParseMeter (hconstruct : constructs → env.Constructs) {s : Mappings}
    {v : Value} (h : shape → MeterShaped v) :
    Meets (Safe constructs shape) (fun t => s.Sound env shape → t.Sound env shape)
      (configParseMeter env s v) := by
  cases v with
  | object ms =>
    have hempty : MeterMembers.empty.Of ms := fun v hv => by cases hv
    apply (Meets.foldlM hempty fun m hm e he =>
      meets_addToMeter (fun hshape => (h hshape).1) hm he).bind
    intro m hm
    apply (meets_newMeter hconstruct).bind
    rintro meter ⟨hid, hsupported⟩
    have hshaped : shape → ∀ v ∈ m.channels, ChannelShaped v := by
      intro hshape v hv
      rcases hm v hv with ⟨vs, hvs, hv⟩ | ⟨cs, hcs, rfl⟩
      · exact (h hshape).2.1 vs hvs v hv
      · exact (h hshape).2.2 cs hcs
    apply (meets_configParseChannels hshaped).bind
    rintro channels ⟨hids, hsound⟩ hs
    exact hs.concat hid hsupported hids hsound
  | _ => exact fun _ hshape => (h hshape).elim

end meters

/-! ## The document -/

/-- What the rest of the program relies on. -/
structure ConfigOptions.Sound (env : Environment) (shape : Prop) (s : ConfigOptions) : Prop where
  buffer : s.localIF.bufferLength ≠ 0
  pds : s.pds ≠ some []
  client : ∀ o, s.mqttClient = some o → o.isConfigured = true ∧ 0 ≤ o.qos ∧ o.qos ≤ 2
  mappings : s.mappings.Sound env shape

theorem Local.add_bufferLength {l : Local} (h : l.bufferLength ≠ 0) (m : String × Value) :
    (l.add m).bufferLength ≠ 0 := by
  unfold Local.add
  split
  case h_4 i =>
    dsimp only
    split_ifs with hzero
    · decide
    · exact hzero
  all_goals exact h

theorem Local.foldl_bufferLength {l : Local} (h : l.bufferLength ≠ 0)
    (ms : List (String × Value)) : (ms.foldl Local.add l).bufferLength ≠ 0 := by
  induction ms generalizing l with
  | nil => exact h
  | cons m ms ih => exact ih (Local.add_bufferLength h m)

theorem meets_pushUrl {constructs shape : Prop} (v : Value) :
    Meets (Safe constructs shape) (fun _ => True) (pushUrl v) := by
  unfold pushUrl
  split
  · split
    · exact True.intro
    · exact meets_fail (by decide)
    · exact meets_fail (by decide)
  · exact meets_fail (by decide)

theorem mqttClientOf_spec {env : Environment} {ms : List (String × Value)} {o : Mqtt.Options}
    (h : mqttClientOf env ms = some o) : o.isConfigured = true ∧ 0 ≤ o.qos ∧ o.qos ≤ 2 := by
  unfold mqttClientOf at h
  dsimp only at h
  split_ifs at h with hup
  obtain rfl := Option.some.inj h
  exact ⟨((Bool.and_eq_true _ _).mp hup).2, Mqtt.Options.ofEntries_qos _⟩

section document
variable {env : Environment} {constructs shape : Prop}

theorem meets_add (hconstruct : constructs → env.Constructs) {ms : List (String × Value)}
    (h : shape → Shaped (.object ms)) {s : ConfigOptions} {m : String × Value} (hm : m ∈ ms) :
    Meets (Safe constructs shape) (fun t => s.Sound env shape → t.Sound env shape)
      (s.add env m) := by
  have hmaps : ∀ key vs, m = (key, .array vs) → key = "sensors" ∨ key = "meters" →
      Meets (Safe constructs shape) (fun t : ConfigOptions => s.Sound env shape → t.Sound env shape)
        ((vs.foldlM (configParseMeter env) s.mappings).map fun m => { s with mappings := m }) := by
    rintro key vs rfl hkey
    have hloop : Meets (Safe constructs shape)
        (fun t => s.mappings.Sound env shape → t.Sound env shape)
        (vs.foldlM (configParseMeter env) s.mappings) := by
      apply Meets.foldlM (fun hs => hs)
      intro t ht v hv
      apply (meets_configParseMeter hconstruct fun hshape =>
        (h hshape).2.2.2 key vs hkey hm v hv).imp
      intro u hu hs
      exact hu (ht hs)
    apply hloop.map
    intro t ht hs
    exact ⟨hs.buffer, hs.pds, hs.client, ht hs.mappings⟩
  unfold ConfigOptions.add
  split
  case h_1 b =>
    split_ifs
    · exact id
    · exact meets_fail (by decide)
  case h_5 ls =>
    intro hs
    exact ⟨Local.foldl_bufferLength hs.buffer ls, hs.pds, hs.client, hs.mappings⟩
  case h_6 v hv =>
    -- the null pointer of a value that is no object
    intro _ hshape
    obtain ⟨ls, rfl, -⟩ := (h hshape).2.1 v hm
    exact absurd rfl (hv ls)
  case h_7 vs => exact hmaps "sensors" vs rfl (.inl rfl)
  case h_8 vs => exact hmaps "meters" vs rfl (.inr rfl)
  case h_9 vs =>
    split_ifs with hpush
    · have hlen : 0 < vs.length := by simpa using (Bool.and_eq_true _ _).mp hpush |>.2
      apply (Meets.mapM fun v _ => meets_pushUrl v).map
      rintro urls ⟨hurls, -⟩ hs
      refine ⟨hs.buffer, ?_, hs.client, hs.mappings⟩
      intro hnil
      rw [← hurls, Option.some.inj hnil] at hlen
      cases hlen
    · exact id
  case h_10 cs =>
    split_ifs
    · exact fun hs => ⟨hs.buffer, hs.pds, fun o ho => mqttClientOf_spec ho, hs.mappings⟩
    · exact id
  all_goals exact fun hs => ⟨hs.buffer, hs.pds, hs.client, hs.mappings⟩

theorem sound_initial : ConfigOptions.initial.Sound env shape where
  buffer := by decide
  pds := by decide
  client := by
    intro o ho
    cases ho
  mappings := ⟨rfl, rfl, fun _ h => absurd h List.not_mem_nil, fun _ h => absurd h List.not_mem_nil⟩

theorem meets_configParse (hconstruct : constructs → env.Constructs) {s : ConfigOptions}
    {doc : Option Value} (h : shape → ∀ v, doc = some v → Shaped v) :
    Meets (Safe constructs shape) (fun t => s.Sound env shape → t.Sound env shape)
      (configParse env s doc) := by
  match doc with
  | none | some .null => exact meets_fail (by decide)
  | some (.object ms) =>
    apply Meets.foldlM (fun hs => hs)
    intro t ht m hm
    apply (meets_add hconstruct (fun hshape => h hshape _ rfl) hm).imp
    intro u hu hs
    exact hu (ht hs)
  | some (.boolean _) | some (.double _) | some (.int _) | some (.array _) | some (.string _) =>
    exact fun _ hshape => (h hshape _ rfl).elim

/-- A document of the right shape is refused with an exception, if it is refused. -/
theorem configParse_ne_undefined (hconstruct : env.Constructs) (s : ConfigOptions)
    {doc : Option Value} (h : ∀ v, doc = some v → Shaped v) :
    configParse env s doc ≠ .error .undefined := by
  intro hundefined
  have hsafe : Safe True True .undefined :=
    (meets_configParse (fun _ => hconstruct) fun _ => h).error_of hundefined
  exact hsafe True.intro True.intro rfl

/-- Channels that are numbered have names of their own. -/
theorem Mappings.Sound.nodup_names {s : Mappings} (h : s.Sound env shape) :
    ((s.maps.flatMap MeterMap.channels).map fun ch => Mqtt.channelName ch.id).Nodup := by
  have hnames : (s.maps.flatMap MeterMap.channels).map (fun ch => Mqtt.channelName ch.id) =
      (List.range s.channelInstances).map Mqtt.channelName := by
    rw [← h.channels, List.map_map]
    rfl
  rw [hnames]
  exact List.Nodup.map (fun _ _ => Mqtt.channelName_injective) List.nodup_range

end document

/-- **What becomes of a document.**  A configuration that is accepted is sound, whatever the
document is, and no two of its channels have one name.  A document of the right shape, with
protocols whose constructors end, is never undefined: it is accepted, or refused with an
exception. -/
theorem configParse_sound (env : Environment) (doc : Option Value) :
    (∀ s, configParse env .initial doc = .ok s →
      s.Sound env (∀ v, doc = some v → Shaped v) ∧
      ((s.mappings.maps.flatMap MeterMap.channels).map fun ch => Mqtt.channelName ch.id).Nodup) ∧
    (env.Constructs → (∀ v, doc = some v → Shaped v) →
      configParse env .initial doc ≠ .error .undefined) := by
  constructor
  · intro s hs
    have hsound : s.Sound env (∀ v, doc = some v → Shaped v) :=
      (meets_configParse (fun h : False => h.elim) fun h => h).ok_of hs sound_initial
    exact ⟨hsound, hsound.mappings.nodup_names⟩
  · intro hconstruct hshaped
    exact configParse_ne_undefined hconstruct .initial hshaped

def sampleChannel : Value :=
  .object [("uuid", .string "fde8f1d0-c5d0-11e0-856e-f9e4360ced10".toList),
    ("identifier", .string "Power".toList)]

def sampleMeter : Value :=
  .object [("protocol", .string "s0".toList), ("enabled", .boolean true),
    ("channels", .array [sampleChannel])]

/-- A document with one meter and its channel. -/
def sampleDocument : Value := .object [("retry", .int 30), ("meters", .array [sampleMeter])]

/-- A build without libmosquitto, whose protocols take every option. -/
def sampleEnvironment : Environment := ⟨64, fun _ => true, fun _ _ => .ok true, fun _ => false⟩

theorem shaped_sampleDocument : Shaped sampleDocument := by
  have hlen : 30 ≤ (getString "fde8f1d0-c5d0-11e0-856e-f9e4360ced10".toList).length := by decide
  have hchannel : ChannelShaped sampleChannel := by
    refine ⟨by simp [NullsNamed], fun s hs => ?_⟩
    obtain rfl : s = "fde8f1d0-c5d0-11e0-856e-f9e4360ced10".toList := by simpa using hs
    exact hlen
  have hmeter : MeterShaped sampleMeter := by
    refine ⟨by simp [NullsNamed], fun vs hvs => ?_, by simp⟩
    obtain rfl : vs = [sampleChannel] := by simpa using hvs
    exact List.forall_mem_singleton.mpr hchannel
  refine ⟨by simp [Valued], by simp, by simp, fun key vs _ hvs => ?_⟩
  obtain ⟨-, rfl⟩ : key = "meters" ∧ vs = [sampleMeter] := by simpa using hvs
  exact List.forall_mem_singleton.mpr hmeter

/-- The sample is accepted, it is sound with all that its shape gives, and so is not
undefined. -/
theorem configParse_sound_sample :
    (∃ s, configParse sampleEnvironment .initial (some sampleDocument) = .ok s ∧
      s.Sound sampleEnvironment True ∧ s.mappings.channelInstances = 1) ∧
    configParse sampleEnvironment .initial (some sampleDocument) ≠ .error .undefined := by
  obtain ⟨hsound, hdefined⟩ := configParse_sound sampleEnvironment (some sampleDocument)
  have hshaped : ∀ v, some sampleDocument = some v → Shaped v := by
    intro v hv
    rw [← Option.some.inj hv]
    exact shaped_sampleDocument
  rw [eq_true hshaped] at hsound
  have hok : (configParse sampleEnvironment .initial (some sampleDocument)).toOption.map
      (fun s => s.mappings.channelInstances) = some 1 := by rfl
  refine ⟨?_, hdefined (fun _ _ h => by cases h) hshaped⟩
  match hs : configParse sampleEnvironment .initial (some sampleDocument) with
  | .ok s =>
    rw [hs] at hok
    exact ⟨s, rfl, (hsound s hs).1, Option.some.inj hok⟩
  | .error e =>
    rw [hs] at hok
    cases hok

/-- Without the shape it may be undefined: a `local` that is no object. -/
example (env : Environment) :
    configParse env .initial (some (.object [("local", .int 5)])) = .error .undefined := rfl

end VzLogger.Config
