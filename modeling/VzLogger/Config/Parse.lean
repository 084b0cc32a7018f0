import VzLogger.Config.Options
import VzLogger.ReadingId
import VzLogger.Uuid
import VzLogger.Buffer
import VzLogger.Mqtt.Model

/-! # Reading the configuration

`config_parse` makes the program's settings, meters and channels of a JSON document: it
walks over the members of the document, and for every meter and every channel over theirs.
A member with a key or a type that it does not know is reported and ignored, or is an
option of the meter or the channel.

What a meter's protocol makes of the options is a parameter, as far as a `Meter` asks for
it; so are libmosquitto, and what the build supports.  The messages are left out, and with
them what they make of their arguments: which ones are printed depends on the verbosity.
-/
namespace VzLogger.Config
open OptionList

structure Environment where
  longBits : Nat
  /-- the protocols that are compiled in -/
  supports : MeterProtocol → Bool
  /-- the protocol's constructor, by what it finds for each key; the result is
  `allowInterval` -/
  construct : MeterProtocol → (String → Option OptionValue) → Except Error Bool
  /-- libmosquitto is there, and takes the client -/
  mosquitto : Mqtt.Options → Bool

/-! ## Channels -/

structure Channel where
  id : Nat
  options : List Opt
  identifier : ReadingIdentifier
  uuid : Uuid
  apiProtocol : List Char
  aggmode : AggMode
  duplicates : Int
  duplicates_nonneg : 0 ≤ duplicates

/-- `strcasecmp`, for equality. -/
def sameText (s t : List Char) : Bool := s.map Char.toLower == t.map Char.toLower

def aggmodeOf (s : List Char) : Except Error AggMode :=
  if sameText s "max".toList then .ok .max
  else if sameText s "avg".toList then .ok .avg
  else if sameText s "sum".toList then .ok .sum
  else if sameText s "none".toList then .ok .none
  else fail "Aggmode unknown."

/-- What a channel allows of `duplicates`. -/
def duplicatesOf (i : Int) : Except Error { i : Int // 0 ≤ i } :=
  if h : 0 ≤ i then .ok ⟨i, h⟩ else fail "duplicates < 0 not allowed"

def Channel.new (id : Nat) (options : List Opt) (apiProtocol : List Char) (uuid : Uuid)
    (identifier : ReadingIdentifier) : Except Error Channel := do
  let aggmode ← orDefault .none ((lookupString options "aggmode").bind aggmodeOf)
  let duplicates ← orDefault ⟨0, Int.le_refl 0⟩ ((lookupInt options "duplicates").bind duplicatesOf)
  .ok ⟨id, options, identifier, uuid, apiProtocol, aggmode, duplicates.1, duplicates.2⟩

/-- What `config_parse_channel` keeps of the members. -/
structure ChannelMembers where
  uuid : Option (List Char)
  idStr : Option (List Char)
  apiProtocol : List Char
  options : List Opt

namespace ChannelMembers

def empty : ChannelMembers := ⟨none, none, [], []⟩

def add (c : ChannelMembers) : String × Value → Except Error ChannelMembers
  | ("uuid", .string s) => .ok { c with uuid := some (getString s) }
  | ("identifier", .string s) => .ok { c with idStr := some (getString s) }
  | ("api", .string s) => .ok { c with apiProtocol := getString s }
  -- also an `uuid` that is no string: it is missed below
  | (key, value) => (Opt.new key value).map fun o => { c with options := c.options ++ [o] }

end ChannelMembers

/-- `config_validate_uuid`, and the exceptions. -/
def uuidOf : Option (List Char) → Except Error Uuid
  | none => fail "Missing UUID"
  | some uuid => if h : configValidateUuid uuid = true then .ok ⟨uuid, h⟩ else fail "Invalid UUID."

/-- The identifier, for the protocol of the meter. -/
def identifierOf (env : Environment) (protocol : MeterProtocol) (idStr : Option (List Char)) :
    Except Error ReadingIdentifier :=
  match readingIdParse env.longBits protocol (idStr.getD "NilIdentifier".toList) with
  | .ok id => .ok id
  | .error _ => fail "Invalid reader."

/-- `config_parse_channel`, behind the loop over the members. -/
def ChannelMembers.channel (env : Environment) (protocol : MeterProtocol) (id : Nat)
    (c : ChannelMembers) : Except Error Channel := do
  let uuid ← uuidOf c.uuid
  let identifier ← identifierOf env protocol c.idStr
  let api := if c.apiProtocol = [] then "volkszaehler".toList else c.apiProtocol
  Channel.new id c.options api uuid identifier

def configParseChannel (env : Environment) (protocol : MeterProtocol) (id : Nat) :
    Value → Except Error Channel
  | .object ms => do
    let c ← ms.foldlM ChannelMembers.add .empty
    c.channel env protocol id
  | _ => .error .undefined

/-! ## Meters -/

structure Meter where
  id : Nat
  protocol : MeterProtocol
  /-- the protocol takes an interval -/
  allowInterval : Bool
  interval : Int
  aggtime : Int
  aggFixedInterval : Bool
  enable : Bool
  skip : Bool
  interval_allowed : 0 < interval → allowInterval = true

/-- The table of `meter_get_protocols`, where all of it is compiled in. -/
def protocols : List (MeterProtocol × List Char) :=
  [(.file, "file".toList), (.exec, "exec".toList), (.random, "random".toList),
    (.fluksov2, "fluksov2".toList), (.s0, "s0".toList), (.d0, "d0".toList), (.sml, "sml".toList),
    (.ocr, "ocr".toList), (.w1therm, "w1therm".toList), (.oms, "oms".toList)]

def meterLookupProtocol (env : Environment) (name : List Char) : Option MeterProtocol :=
  ((protocols.filter fun it => env.supports it.1).find? fun it => sameText it.2 name).map Prod.fst

def protocolOf (env : Environment) (name : List Char) : Except Error MeterProtocol :=
  match meterLookupProtocol env name with
  | some protocol => .ok protocol
  | none => fail "Protocol not found."

/-- An interval that the protocol does not take is set to zero. -/
def intervalFor (allowInterval : Bool) (interval : Int) :
    { i : Int // 0 < i → allowInterval = true } :=
  if h : 0 < interval ∧ allowInterval = false then ⟨0, fun h0 => absurd h0 (Int.lt_irrefl 0)⟩
  else ⟨interval, fun hpos => by simpa [hpos] using h⟩

def Meter.new (env : Environment) (id : Nat) (options : List Opt) :
    Except Error Meter := do
  -- the only option without a default
  let protocol ← (lookupString options "protocol").bind (protocolOf env)
  let interval ← orDefault (-1) (lookupInt options "interval")
  let aggtime ← orDefault (-1) (lookupInt options "aggtime")
  let aggFixedInterval ← orDefault false (lookupBool options "aggfixedinterval")
  let allowInterval ← env.construct protocol (find options)
  let enable ← orDefault false (lookupBool options "enabled")
  let skip ← orDefault false (lookupBool options "allowskip")
  let interval := intervalFor allowInterval interval
  .ok ⟨id, protocol, allowInterval, interval.1, aggtime, aggFixedInterval, enable, skip,
    interval.2⟩

structure MeterMap where
  meter : Meter
  channels : List Channel

/-- The meters, and how many meters and channels there have been. -/
structure Mappings where
  meterInstances : Nat
  channelInstances : Nat
  maps : List MeterMap

/-- What `config_parse_meter` keeps of the members. -/
structure MeterMembers where
  channels : List Value
  options : List Opt

namespace MeterMembers

def empty : MeterMembers := ⟨[], []⟩

def add (m : MeterMembers) : String × Value → Except Error MeterMembers
  | ("channels", .array vs) => .ok { m with channels := m.channels ++ vs }
  | ("channel", .object ms) => .ok { m with channels := m.channels ++ [.object ms] }
  -- what is no channel, with whatever name, is an option of the meter
  | (key, value) => (Opt.new key value).map fun o => { m with options := m.options ++ [o] }

end MeterMembers

/-- The channels of a meter, with the numbers from `id` on. -/
def configParseChannels (env : Environment) (protocol : MeterProtocol) :
    Nat → List Value → Except Error (List Channel)
  | _, [] => .ok []
  | id, v :: vs => do
    let ch ← configParseChannel env protocol id v
    let chs ← configParseChannels env protocol (id + 1) vs
    .ok (ch :: chs)

/-- `config_parse_meter`, behind the loop over the members. -/
def MeterMembers.addTo (env : Environment) (s : Mappings) (m : MeterMembers) :
    Except Error Mappings := do
  let meter ← Meter.new env s.meterInstances m.options
  let channels ← configParseChannels env meter.protocol s.channelInstances m.channels
  .ok ⟨s.meterInstances + 1, s.channelInstances + channels.length,
    s.maps ++ [⟨meter, channels⟩]⟩

def configParseMeter (env : Environment) (s : Mappings) : Value → Except Error Mappings
  | .object ms => do
    let m ← ms.foldlM MeterMembers.add .empty
    m.addTo env s
  | _ => .error .undefined

/-! ## The document -/

/-- The settings of the local interface. -/
structure Local where
  enabled : Bool
  port : Int
  cometTimeout : Int
  bufferLength : Int
  channelIndex : Bool

namespace Local

def initial : Local := ⟨false, 8080, 30, -1, false⟩

/-- A buffer of length 0 makes no sense. -/
def add (l : Local) : String × Value → Local
  | ("enabled", .boolean b) => { l with enabled := b }
  | ("port", .int i) => { l with port := getInt i }
  | ("timeout", .int i) => { l with cometTimeout := getInt i }
  | ("buffer", .int i) => { l with bufferLength := if getInt i = 0 then -1 else getInt i }
  | ("index", .boolean b) => { l with channelIndex := b }
  | _ => l

end Local

/-- An element of `push`. -/
def pushUrl : Value → Except Error (List Char)
  | .object ms =>
    match ms.lookup "url" with
    | some (.string url) => .ok (getString url)
    | some _ => fail "config: push url no string"
    | none => fail "config: push url not found"
  | _ => fail "config: push array element not an object"

/-- The member as `MqttClient` sees it. -/
def mqttEntry (m : String × Value) : String × Mqtt.JsonValue :=
  match m with
  | (key, .boolean b) => (key, .boolean b)
  | (key, .int i) => (key, .int (getInt i))
  | (key, .string s) => (key, .string (getString s))
  | (key, _) => (key, .other)

/-- `new MqttClient`; a client that is not configured is deleted again. -/
def mqttClientOf (env : Environment) (ms : List (String × Value)) : Option Mqtt.Options :=
  let o := Mqtt.Options.ofEntries (ms.map mqttEntry)
  if env.mosquitto o && o.isConfigured then some o else none

/-- The settings that the document and the command line make, the client, and the meters. -/
structure ConfigOptions where
  config : List Char
  log : List Char
  retryPause : Int
  verbosity : Int
  localIF : Local
  foreground : Bool
  doRegistration : Bool
  timeMachine : Bool
  /-- the middlewares of the `PushDataServer` -/
  pds : Option (List (List Char))
  mqttClient : Option Mqtt.Options
  mappings : Mappings

namespace ConfigOptions

/-- The constructor, of an object with static storage. -/
def initial : ConfigOptions :=
  ⟨"/etc/vzlogger.conf".toList, [], 15, 0, .initial, false, false, false, none, none, ⟨0, 0, []⟩⟩

def add (env : Environment) (s : ConfigOptions) : String × Value → Except Error ConfigOptions
  | ("daemon", .boolean b) =>
    if b then .ok s
    else fail ("\"daemon\" option is not supported anymore, " ++
      "you probably want to use -f instead.")
  | ("log", .string t) => .ok { s with log := getString t }
  | ("retry", .int i) => .ok { s with retryPause := getInt i }
  | ("verbosity", .int i) => .ok { s with verbosity := getInt i }
  | ("local", .object ms) => .ok { s with localIF := ms.foldl Local.add s.localIF }
  -- the name alone decides here: the loop over the members follows a null pointer
  | ("local", _) => .error .undefined
  | ("sensors", .array vs) | ("meters", .array vs) =>
    (vs.foldlM (configParseMeter env) s.mappings).map fun m => { s with mappings := m }
  | ("push", .array vs) =>
    if s.pds.isNone && vs.length > 0 then
      (vs.mapM pushUrl).map fun urls => { s with pds := some urls }
    else .ok s
  | ("mqtt", .object ms) =>
    if s.mqttClient.isNone then .ok { s with mqttClient := mqttClientOf env ms } else .ok s
  | ("i_have_a_time_machine", .boolean b) => .ok { s with timeMachine := b }
  -- reported and ignored
  | _ => .ok s

end ConfigOptions

/-- `config_parse`, from the document on; `none` is the null pointer of json-c. -/
def configParse (env : Environment) (s : ConfigOptions) : Option Value → Except Error ConfigOptions
  | none | some .null =>
    fail "configuration file incomplete, missing closing braces/parens?"
  | some (.object ms) => ms.foldlM (ConfigOptions.add env) s
  | some _ => .error .undefined

end VzLogger.Config
