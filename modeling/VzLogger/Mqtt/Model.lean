import VzLogger.Lib.EventMachine
import VzLogger.ReadingId
import VzLogger.Lib.Decimal

/-! # The MQTT client

Every reading that a channel gets is published under `<topic>/<channel>/raw`, and what its
buffer holds after the aggregation under `<topic>/<channel>/agg`.  Under `<topic>/<channel>/`
the channel's identifier and its uuid are announced, with every reading until one of the two
goes out.

`publish` is called by the reading threads, one for each meter.  It holds a mutex for the
table of the channels and the announcements, but not for the reading.
-/
namespace VzLogger.Mqtt

/-! ## The configuration -/

/-- A value of the configuration, by the type that json-c gives it. -/
inductive JsonValue where
  | boolean (b : Bool)
  | int (i : Int)
  | string (s : List Char)
  | other

structure Options where
  enabled : Bool
  host : List Char
  port : Int
  retain : Bool
  rawAndAgg : Bool
  topic : List Char
  qos : Int
  timestamp : Bool

namespace Options

def default : Options := ⟨false, [], 0, false, false, [], 0, false⟩

/-- An entry of the section; one with another key or type is ignored. -/
def set (o : Options) (key : String) (value : JsonValue) : Options :=
  match key, value with
  | "enabled", .boolean b => { o with enabled := b }
  | "retain", .boolean b => { o with retain := b }
  | "rawAndAgg", .boolean b => { o with rawAndAgg := b }
  | "port", .int i => { o with port := i }
  | "host", .string s => { o with host := s }
  | "topic", .string s => { o with topic := s }
  | "qos", .int qos => if 0 ≤ qos ∧ qos ≤ 2 then { o with qos := qos } else o
  | "timestamp", .boolean b => { o with timestamp := b }
  | _, _ => o

/-- The entries in their order, then the slash behind the topic. -/
def ofEntries (entries : List (String × JsonValue)) : Options :=
  let o := entries.foldl (fun o e => o.set e.1 e.2) default
  { o with topic := if o.topic = [] then "vzlogger/".toList else o.topic ++ ['/'] }

def isConfigured (o : Options) : Bool := o.enabled && o.port != 0 && !o.host.isEmpty

theorem set_qos {o : Options} (h : 0 ≤ o.qos ∧ o.qos ≤ 2) (key : String) (value : JsonValue) :
    0 ≤ (o.set key value).qos ∧ (o.set key value).qos ≤ 2 := by
  unfold set
  split
  case h_7 qos =>
    split
    · assumption
    · exact h
  all_goals exact h

/-- Whatever the section holds, the quality of service is one that there is. -/
theorem ofEntries_qos (entries : List (String × JsonValue)) :
    0 ≤ (ofEntries entries).qos ∧ (ofEntries entries).qos ≤ 2 := by
  suffices hfold : ∀ o : Options, 0 ≤ o.qos ∧ o.qos ≤ 2 →
      0 ≤ (entries.foldl (fun o e => o.set e.1 e.2) o).qos ∧
        (entries.foldl (fun o e => o.set e.1 e.2) o).qos ≤ 2 from
    hfold default (by decide)
  induction entries with
  | nil => exact fun o h => h
  | cons e entries ih => exact fun o h => ih _ (set_qos h e.1 e.2)

end Options

/-! ## Channels -/

/-- What the client uses of a channel. -/
structure Channel where
  identifier : ReadingIdentifier
  uuid : List Char
  /-- the buffer's mode is not `NONE` -/
  aggregates : Bool

/-- `Channel::name`, by the number of the instance. -/
def channelName (n : Nat) : List Char := "chn".toList ++ Decimal.ofNat n

/-- `ReadingIdentifier::unparse` into 200 characters, if it returns anything but zero. -/
def unparse (rid : ReadingIdentifier) : Option (List Char) :=
  match rid with
  | .obis obis => some (obis.unparse 200).1
  | .string [] => none
  | .string s => some (s.take 199)
  | .channel channel => some (ChannelIdentifier.unparse 200 channel)
  | .nil => some "NilIdentifier".toList

structure ChannelEntry where
  announced : Bool
  sendRaw : Bool
  sendAgg : Bool
  fullTopicRaw : List Char
  fullTopicAgg : List Char
  announceName : List Char
  announceValues : List (List Char × List Char)

/-- `generateNames`, in a new entry. -/
def generateNames (topic name : List Char) (ch : Channel) : ChannelEntry :=
  let full := topic ++ name ++ ['/']
  { announced := false
    sendRaw := true
    sendAgg := ch.aggregates
    fullTopicRaw := full ++ "raw".toList
    fullTopicAgg := full ++ "agg".toList
    announceName := full
    announceValues :=
      ((unparse ch.identifier).toList.map fun id => ("id".toList, id)) ++
        if ch.uuid = [] then [] else [("uuid".toList, ch.uuid)] }

/-- The entry that `publish` makes for a channel it does not know. -/
def newEntry (o : Options) (name : List Char) (ch : Channel) : ChannelEntry :=
  let entry := generateNames o.topic name ch
  if entry.sendAgg && !o.rawAndAgg then { entry with sendRaw := false } else entry

/-! ## Publishing -/

/-- A call of `mosquitto_publish`, and whether it succeeds. -/
structure Message where
  topic : List Char
  payload : List Char
  qos : Int
  retain : Bool
  success : Bool
  deriving DecidableEq

/-- The configuration, the channels by the number of their instance and the meters they
belong to, and the text that json-c makes of a double. -/
structure Setup (M : Type) where
  options : Options
  channel : Nat → Channel
  meter : Nat → M
  jsonDouble : Rat → List Char

end Mqtt

open Mqtt

/-- The client, once its session is made.  A reading thread that has left the mutex holds the
topic and the payload of the reading. -/
structure Mqtt (M : Type) where
  chMap : List Char → Option ChannelEntry
  pending : M → Option (List Char × List Char)
  log : List Message

namespace Mqtt

/-- A call of `publish`, with the results of the announcements. -/
structure Call where
  channel : Nat
  reading : Reading
  aggregate : Bool
  results : List Bool

inductive Event (M : Type) where
  | publish (call : Call)
  /-- the reading goes out -/
  | send (m : M) (success : Bool)

variable {M : Type} [DecidableEq M] (c : Setup M)

def initial : Mqtt M := ⟨fun _ => none, fun _ => none, []⟩

/-- The value, or an object with the time and the value. -/
def payload (rds : Reading) : List Char :=
  if c.options.timestamp then
    "\x7b \"timestamp\": ".toList ++ Decimal.ofInt rds.timeMs ++ ", \"value\": ".toList ++
      c.jsonDouble rds.value ++ " \x7d".toList
  else Decimal.ofRat 6 rds.value

def mosquittoPublish (topic payload : List Char) (success : Bool) : Message :=
  ⟨topic, payload, c.options.qos, c.options.retain, success⟩

/-- The announcements of an entry, which need as many results. -/
def announce (entry : ChannelEntry) (results : List Bool) : Option (ChannelEntry × List Message) :=
  if !entry.announced && !entry.announceValues.isEmpty then
    if results.length = entry.announceValues.length then
      some ({ entry with announced := results.any id },
        entry.announceValues.zipWith
          (fun v success => mosquittoPublish c (entry.announceName ++ v.1) v.2 success) results)
    else none
  else if results = [] then some (entry, []) else none

/-- `publish` up to the reading. -/
def publish (w : Mqtt M) (call : Call) : Option (Mqtt M) :=
  let name := channelName call.channel
  let entry := (w.chMap name).getD (newEntry c.options name (c.channel call.channel))
  (announce c entry call.results).map fun (entry, announcements) =>
    let topic := if call.aggregate then entry.fullTopicAgg else entry.fullTopicRaw
    { chMap := Function.update w.chMap name (some entry)
      pending := Function.update w.pending (c.meter call.channel)
        (if (entry.sendAgg && call.aggregate) || (entry.sendRaw && !call.aggregate) then
          some (topic, payload c call.reading)
        else none)
      log := w.log ++ announcements }

def step (w : Mqtt M) : Event M → Option (Mqtt M)
  | .publish call =>
    match w.pending (c.meter call.channel) with
    | none => w.publish c call
    | some _ => none
  | .send m success =>
    (w.pending m).map fun (topic, payload) =>
      { w with
        pending := Function.update w.pending m none
        log := w.log ++ [mosquittoPublish c topic payload success] }

def machine : EventMachine.Machine (Mqtt M) (Event M) := ⟨initial, step c⟩

end Mqtt
end VzLogger
