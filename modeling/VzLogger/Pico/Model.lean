import VzLogger.LwipIF.Model
import VzLogger.Lib.CString

/-! # The main loop on the Pico

One thread reads all meters, sends their data, asks for the responses and puts the
WiFi to sleep.  Its passes run over the lwIP connections of `LwipIF`: a call of
`sendData()` or `checkResponse()` on a channel is a run of the steps of its
connection, from `idle` back to `idle`, and the callbacks of any connection may come
between any two steps while the WiFi is on, though not while a meter is read.

Clocks, the outcome of bringing the WiFi up, and exceptions are part of the event.
Beside the program's state a `World` keeps the books of the present pass: the turns
of the meters, and whether the WiFi was switched off.
-/
namespace VzLogger.Pico

/-- A channel: the connection of its API, and its number there. -/
structure Channel where
  server : Nat
  number : Nat
  /-- the `volkszaehler` API; another one is never busy -/
  volkszaehler : Bool
  deriving DecidableEq

/-- `MeterMap`: a meter with its channels. -/
structure Meter where
  enabled : Bool
  channels : List Channel
  deriving DecidableEq

structure Config where
  meters : List Meter
  wifiStopTime : Nat
  sendDataInterval : Nat
  lowCPUfactor : Nat
  servers : Nat → LwipIF.Config

/-- Where the main loop stands; `rest` are the meters still to come. -/
inductive Pc where
  | asleep
  | read (rest : List Meter)
  | reading (m : Meter) (rest : List Meter)
  | send (rest : List Meter)
  /-- the meter has data, and it is time to send it -/
  | enable (m : Meter) (rest : List Meter)
  /-- `sendData()`, with the channels still to come -/
  | sending (m : Meter) (chs : List Channel) (rest : List Meter)
  /-- the API object of a channel is under construction -/
  | connect (m : Meter) (c : Channel) (chs : List Channel) (rest : List Meter)
  | isBusy (m : Meter) (chs : List Channel) (rest : List Meter)
  | checkResponse (m : Meter) (chs : List Channel) (rest : List Meter)
  /-- `isBusy()` again, after the check -/
  | stillBusy (m : Meter) (chs : List Channel) (rest : List Meter)
  /-- all meters are done, or an exception was caught -/
  | passed
  deriving DecidableEq

/-- What became of a meter that sends or is busy. -/
inductive Turn where
  | sent (m : Meter)
  /-- the API of channel `c` was still busy after the check -/
  | waiting (m : Meter) (c : Channel)
  /-- no API was busy any more after the check -/
  | answered (m : Meter)
  /-- the WiFi could not be connected, and is switched off again -/
  | offline
  deriving DecidableEq

structure World where
  servers : Nat → LwipIF.World
  /-- the channels that have an API object -/
  created : List Channel
  pc : Pc
  isSendingData : Bool
  wasSendingData : Bool
  sendDataComplete : Int
  nextSend : Int
  nextDue : Int
  /-- the variable of the loop -/
  clockSpeedIsDefault : Bool
  /-- the speed that the processor runs at -/
  cpuSpeedDefault : Bool
  wifiInitialized : Bool
  turns : List Turn
  disabled : Bool

inductive Event where
  /-- a new pass -/
  | pass (now : Int)
  /-- `isDueIn()` of the next meter -/
  | isDueIn (due : Int)
  | readDone
  /-- a step of the loop that nothing outside decides -/
  | advance
  /-- `isConnected()` and, where the link is not up, `enable()` -/
  | wifi (linkUp init connects : Bool)
  /-- the constructor of an API; `first` if its connection was never made before -/
  | create (first : Bool)
  /-- `send()` of another API, with what it leaves in the buffer -/
  | sendOther (buf : Buffer)
  /-- a step of a connection, or of a channel's buffer -/
  | server (s : Nat) (e : LwipIF.Event)
  | exception
  /-- what follows the two loops, up to the end of the nap -/
  | nap (now : Int)

namespace World

/-- The start of the main loop: the WiFi is up, no API has been made. -/
def initial (cfg : Config) (now : Int) : World where
  servers s := LwipIF.World.initial (cfg.servers s)
  created := []
  pc := .asleep
  isSendingData := false
  wasSendingData := false
  sendDataComplete := now
  nextSend := 0
  nextDue := 0
  clockSpeedIsDefault := true
  cpuSpeedDefault := true
  wifiInitialized := true
  turns := []
  disabled := false

def goto (w : World) (pc : Pc) : World := { w with pc := pc }

def setServer (w : World) (s : Nat) (c : LwipIF.World) : World :=
  { w with servers := Function.update w.servers s c }

def setCpuSpeedDefault (w : World) : World :=
  if w.clockSpeedIsDefault then w
  else { w with clockSpeedIsDefault := true, cpuSpeedDefault := true }

/-- The buffer of a channel. -/
def buffer (w : World) (c : Channel) : Buffer := ((w.servers c.server).channels c.number).buf

/-- `Channel::isBusy`, with `Volkszaehler::isBusy`. -/
def isBusy (w : World) (c : Channel) : Bool :=
  c ∈ w.created && c.volkszaehler &&
    (w.servers c.server).conn.state ≠ .ready && (w.servers c.server).conn.state ≠ .init

/-- `MeterMap::readyToSend`. -/
def readyToSend (w : World) (m : Meter) : Bool :=
  m.enabled && m.channels.any fun c => !(w.buffer c).isEmpty

/-- `VzPicoWifi::disable`. -/
def disable (w : World) : World :=
  if w.wifiInitialized then { w with wifiInitialized := false, disabled := true } else w

/-- `VzPicoWifi::enable`: `cyw43_arch_init` succeeds or not, then one of the attempts
to connect does or none. -/
def enable (w : World) (init connects : Bool) : World × Bool :=
  if !w.wifiInitialized && !init then (w, false)
  else if connects then ({ w with wifiInitialized := true }, true)
  else ({ w with wifiInitialized := true }.disable, false)

/-- The head of the loop. -/
def pass (cfg : Config) (w : World) (now : Int) : World :=
  { w with
    wasSendingData := w.isSendingData
    isSendingData := false
    nextSend := CString.toInt (w.sendDataComplete + cfg.sendDataInterval - now)
    nextDue := 0
    clockSpeedIsDefault := w.cpuSpeedDefault
    turns := []
    disabled := false
    pc := .read cfg.meters }

def isDueIn (w : World) (due : Int) (m : Meter) (rest : List Meter) : World :=
  if due ≤ 0 then w.setCpuSpeedDefault.goto (.reading m rest)
  else if w.nextDue = 0 ∨ due < w.nextDue then { w with nextDue := due, pc := .read rest }
  else w.goto (.read rest)

/-- The WiFi has to be up before a meter sends. -/
def wifi (w : World) (linkUp init connects : Bool) (m : Meter) (rest : List Meter) : World :=
  if w.wifiInitialized && linkUp then w.goto (.sending m m.channels rest)
  else
    let (t, wifiConnected) := w.enable init connects
    if wifiConnected then t.goto (.sending m m.channels rest)
    else if !w.wifiInitialized && !init then t.goto (.send rest)
    else { t with turns := t.turns ++ [.offline], pc := .send rest }

/-- The meter has sent its data. -/
def sent (w : World) (rest : List Meter) : World :=
  { w with isSendingData := true, pc := .send rest }

/-- `isSendingData = it->isBusy()`. -/
def checked (w : World) (busy : Bool) (rest : List Meter) : World :=
  { w with isSendingData := busy, pc := .send rest }

/-- A line in the books. -/
def note (w : World) (turn : Turn) : World := { w with turns := w.turns ++ [turn] }

/-- The turn of a meter in the second loop. -/
def turn (w : World) (m : Meter) (rest : List Meter) : World :=
  if w.readyToSend m ∧ w.nextSend ≤ 0 then w.setCpuSpeedDefault.goto (.enable m rest)
  else if m.enabled then w.goto (.isBusy m m.channels rest)
  else w.goto (.send rest)

def advance (cfg : Config) (w : World) : Option World :=
  match w.pc with
  | .read [] => some (w.goto (.send cfg.meters))
  | .send [] => some (w.goto .passed)
  | .send (m :: rest) => some (w.turn m rest)
  | .sending m [] rest => some ((w.note (.sent m)).sent rest)
  | .isBusy _ [] rest => some (w.goto (.send rest))
  | .isBusy m (c :: chs) rest =>
    some (w.goto (if w.isBusy c then .checkResponse m m.channels rest else .isBusy m chs rest))
  | .checkResponse m [] rest => some (w.goto (.stillBusy m m.channels rest))
  | .checkResponse m (c :: chs) rest =>
    -- a channel without API, or with another one, has nothing to check
    if c ∈ w.created ∧ c.volkszaehler then none else some (w.goto (.checkResponse m chs rest))
  | .stillBusy m [] rest => some ((w.note (.answered m)).checked false rest)
  | .stillBusy m (c :: chs) rest =>
    some (if w.isBusy c then (w.note (.waiting m c)).checked true rest
      else w.goto (.stillBusy m chs rest))
  | _ => none

/-- The channel whose API the loop is about to call, or calls. -/
def current (w : World) : Option Channel :=
  match w.pc with
  | .sending _ (c :: _) _ => some c
  | .connect _ c _ _ => some c
  | .checkResponse _ (c :: _) _ => some c
  | _ => none

/-- Who takes a step of a connection: lwIP, the reading of a meter, or the call of
the loop for the current channel. -/
def admits (w : World) (s : Nat) : LwipIF.Event → Bool
  | .dnsFound _ _ | .connected _ | .poll | .err | .recv _ _ | .close =>
    w.wifiInitialized && match w.pc with
      | .reading _ _ => false
      | _ => true
  | .reader n (.push _) =>
    match w.pc with
    | .reading m _ => m.enabled && m.channels.any fun c => c.server = s ∧ c.number = n
    | _ => false
  | .reader n _ =>
    match w.pc with
    | .sending _ (c :: _) _ => c.server = s ∧ c.number = n ∧ (w.servers s).pc = .idle
    | _ => false
  | .send n _ _ =>
    match w.pc with
    | .sending _ (c :: _) _ => c.server = s ∧ c.number = n ∧ c.volkszaehler ∧ c ∈ w.created
    | _ => false
  | .check n =>
    match w.pc with
    | .checkResponse _ (c :: _) _ => c.server = s ∧ c.number = n ∧ c.volkszaehler ∧ c ∈ w.created
    | _ => false
  | _ => w.current.any fun c => c.server = s

/-- Whether an event belongs to a call of the loop. -/
def inCall : LwipIF.Event → Bool
  | .dnsFound _ _ | .connected _ | .poll | .err | .recv _ _ | .close | .reader _ _ => false
  | _ => true

/-- A call on the current channel has returned. -/
def returned (w : World) : World :=
  match w.pc with
  | .connect m c chs rest =>
    { w with created := c :: w.created, pc := .sending m (c :: chs) rest }
  | .sending m (_ :: chs) rest => w.goto (.sending m chs rest)
  | .checkResponse m (_ :: chs) rest => w.goto (.checkResponse m chs rest)
  | _ => w

def server (cfg : Config) (w : World) (s : Nat) (e : LwipIF.Event) : Option World :=
  if w.admits s e then
    match LwipIF.World.step (cfg.servers s) (w.servers s) e with
    | none => none
    | some t =>
      let w := w.setServer s t
      some (if inCall e ∧ t.pc = .idle then w.returned else w)
  else none

/-- `Channel::sendData` makes the API of a channel that has none; the constructor
connects if nobody has. -/
def create (w : World) (first : Bool) : Option World :=
  match w.pc with
  | .sending m (c :: chs) rest =>
    if c ∈ w.created then none
    else if c.volkszaehler ∧ first then
      some ((w.setServer c.server ((w.servers c.server).goto .reconnect)).goto
        (.connect m c chs rest))
    else some { w with created := c :: w.created }
  | _ => none

def sendOther (w : World) (buf : Buffer) : Option World :=
  match w.pc with
  | .sending m (c :: chs) rest =>
    if c ∈ w.created ∧ ¬c.volkszaehler then
      let server := w.servers c.server
      let channel := { server.channels c.number with buf := buf }
      some ((w.setServer c.server (server.setChannel c.number channel)).goto (.sending m chs rest))
    else none
  | _ => none

/-- The exception ends both loops; a call that it comes from is over. -/
def exception (w : World) : Option World :=
  match w.pc with
  | .reading _ _ => some (w.goto .passed)
  | .sending _ (c :: _) _ | .connect _ c _ _ | .checkResponse _ (c :: _) _ =>
    some ((w.setServer c.server ((w.servers c.server).goto .idle)).goto .passed)
  | _ => none

/-- What the loop does about the WiFi once the meters are done. -/
def wifiOff (cfg : Config) (w : World) : World :=
  if w.clockSpeedIsDefault && w.wifiInitialized && !w.isSendingData && 0 < cfg.wifiStopTime &&
      (cfg.wifiStopTime < w.nextDue % 2 ^ 32 || 0 < cfg.sendDataInterval) then w.disable
  else w

/-- The data of the last pass is through. -/
def complete (w : World) (now : Int) : World :=
  if w.clockSpeedIsDefault && w.wifiInitialized && w.wasSendingData && !w.isSendingData then
    { w with sendDataComplete := now }
  else w

/-- The processor slows down.  The factor 1, which leaves the speed as it is, counts as slow too. -/
def setCpuSpeedLow (cfg : Config) (w : World) : World :=
  if w.clockSpeedIsDefault && !w.wifiInitialized && 0 < cfg.lowCPUfactor then
    { w with cpuSpeedDefault := false }
  else w

def nap (cfg : Config) (w : World) (now : Int) : World :=
  (((w.complete now).wifiOff cfg).setCpuSpeedLow cfg).goto .asleep

def step (cfg : Config) (w : World) : Event → Option World
  | .pass now => if w.pc = .asleep then some (w.pass cfg now) else none
  | .isDueIn due =>
    match w.pc with
    | .read (m :: rest) => some (w.isDueIn due m rest)
    | _ => none
  | .readDone =>
    match w.pc with
    | .reading _ rest => some (w.goto (.read rest))
    | _ => none
  | .advance => w.advance cfg
  | .wifi linkUp init connects =>
    match w.pc with
    | .enable m rest => some (w.wifi linkUp init connects m rest)
    | _ => none
  | .create first => w.create first
  | .sendOther buf => w.sendOther buf
  | .server s e => w.server cfg s e
  | .exception => w.exception
  | .nap now => if w.pc = .passed then some (w.nap cfg now) else none

/-- The main loop as a machine, started at a time. -/
def machine (cfg : Config) (now : Int) : EventMachine.Machine World Event :=
  ⟨initial cfg now, step cfg⟩

end World
end VzLogger.Pico
