import VzLogger.LwipIF.Response
import VzLogger.ReadingThread
import VzLogger.Volkszaehler.Body
import VzLogger.Lib.EventMachine
import Mathlib.Logic.Function.Basic

/-! # Channels over one lwIP connection

On the Pico several channels share one `LwipIF`: the connection with its state,
the name of the channel that posted last, and the data received last.  The main
loop runs `send()` and `checkResponse()` of one channel after the other; the lwIP
callbacks may come between any two of their steps.

A step of the main loop is a piece of its code between two accesses to the shared
state, or under the lwIP lock.  Whatever lwIP decides is part of the event.  What
it promises is a guard: the connect callback comes once for each connect, a write
succeeds and data arrives only on an established connection, and no callback
comes for a connection that is gone.

Beside the program's state a `World` keeps the books: the requests written, those
of them written on the present connection that no data has arrived for
(`outstanding`), the one that the data in `LwipIF` answers (`source`), and what was
removed from the queues.
-/
namespace VzLogger.LwipIF

/-- `VZ_SRV_INIT` to `VZ_SRV_RETRY`, as far as a client takes them. -/
inductive SrvState where
  | init | dns | connecting | ready | sending | replied | retry
  deriving DecidableEq, Repr

/-- `ERR_OK`, `ERR_MEM`, and the other codes of `err_t`. -/
inductive Err where
  | ok | mem | other
  deriving DecidableEq, Repr

/-- What lwIP has made of `pcb`; `closed` is `NULL`. -/
inductive Link where
  | closed | opened | connecting | established
  deriving DecidableEq, Repr

/-- The members of `LwipIF`.  Channels are named by their number. -/
structure Connection where
  state : SrvState
  channel : Option Nat
  data : List Char
  link : Link

/-- A channel with its API object; `response` is the last payload it received. -/
structure Channel where
  buf : Buffer
  vz : Volkszaehler
  response : Option (List Char)

/-- Where the main loop stands. -/
inductive Pc where
  | idle
  /-- `send()` found the connection in its initial state -/
  | reconnect
  /-- `connect()` waits for the resolver -/
  | resolve
  /-- `send()` found the connection ready -/
  | ready (c : Nat)
  /-- `outputData` is written -/
  | post (c : Nat)
  /-- `postRequest` has taken the connection -/
  | write (c : Nat)
  /-- `sendData` has returned -/
  | written (c : Nat) (err : Err)
  /-- `postRequest` has returned -/
  | posted (c : Nat) (state : SrvState)
  | check (c : Nat)
  /-- the response is processed, the state not yet set -/
  | finish
  deriving DecidableEq

/-- A request: its channel, its body, and the queue it was made from. -/
structure Request where
  channel : Nat
  body : List Char
  values : List Reading

/-- Values taken off the queue of a channel: the request that the response
belonged to, the status and the payload that were processed, and the values. -/
structure Removal where
  channel : Nat
  request : Option Nat
  httpCode : Int
  reply : Volkszaehler.JsonReply
  values : List Reading

structure World where
  conn : Connection
  channels : Nat → Channel
  pc : Pc
  requests : List Request
  outstanding : List Nat
  source : Option Nat
  removals : List Removal

/-- What `dns_gethostbyname` returns; a cached address is connected to at once. -/
inductive Lookup where
  | cached (connect : Err)
  | inProgress
  | failed

inductive Event where
  | reader (c : Nat) (e : ReaderEvent)
  /-- `send()` of a channel, with the two timeout tests -/
  | send (c : Nat) (connectTimedOut sendTimedOut : Bool)
  | reconnect (lookup : Lookup)
  /-- `connect()` sees that the resolver is done -/
  | resolved
  | apiJsonTuples
  | postRequest
  | sendData (write output : Err)
  | sent
  | posted
  /-- the main loop asks a channel for its response -/
  | check (c : Nat)
  | checkResponse
  | finish
  /-- `vz_altcp_dns_found` -/
  | dnsFound (found : Bool) (connect : Err)
  /-- `vz_altcp_connected` -/
  | connected (err : Err)
  /-- `vz_altcp_poll` -/
  | poll
  /-- `vz_altcp_err` -/
  | err
  /-- `vz_altcp_recv` with data, part of the reply to a request -/
  | recv (request : Nat) (segment : List Char)
  /-- `vz_altcp_recv` without: the peer has closed -/
  | close

/-- What does not change: the `duplicates` of each channel, its aggregation mode,
and the JSON parser. -/
structure Config where
  duplicates : Nat → Int
  aggmode : Nat → AggMode
  tokener : List Char → Volkszaehler.JsonReply

namespace World

/-- A new connection, shared by new channels. -/
def initial (cfg : Config) : World where
  conn := ⟨.init, none, [], .closed⟩
  channels c := ⟨Buffer.initial (cfg.aggmode c), Volkszaehler.initial, none⟩
  pc := .idle
  requests := []
  outstanding := []
  source := none
  removals := []

def setState (w : World) (state : SrvState) : World :=
  { w with conn := { w.conn with state := state } }

def setLink (w : World) (link : Link) : World :=
  { w with conn := { w.conn with link := link } }

def setChannel (w : World) (c : Nat) (ch : Channel) : World :=
  { w with channels := Function.update w.channels c ch }

def goto (w : World) (pc : Pc) : World := { w with pc := pc }

/-- The connection is gone, and with it the replies to come. -/
def drop (w : World) : World := { w.setLink .closed with outstanding := [] }

/-- `vz_altcp_dns_found` with an address, `altcp_connect` returning `connect`. -/
def connect (w : World) (connect : Err) : World :=
  if connect = .ok then (w.setState .connecting).setLink .connecting else w.setState .init

/-- What is in `data` as a C string. -/
def cString (s : List Char) : List Char := s.takeWhile (· ≠ '\x00')

/-- `vz_altcp_recv` with data. -/
def recv (w : World) (request : Nat) (segment : List Char) : World :=
  let w := if segment = [] then w
    else { w with conn := { w.conn with data := cString segment }, source := some request }
  { w.setState .replied with outstanding := w.outstanding.erase request }

/-- `send()` up to its first access to something else. -/
def send (w : World) (c : Nat) (connectTimedOut sendTimedOut : Bool) : World :=
  let state := w.conn.state
  let state := if state = .connecting ∧ connectTimedOut then .init else state
  let state := if state = .sending ∧ sendTimedOut then .init else state
  if state = .connecting ∨ state = .sending then w
  else if state = .init then w.goto .reconnect
  else if state = .ready then w.goto (.ready c)
  else w.goto (.check c)

/-- `reconnect()`. -/
def reconnect (w : World) (lookup : Lookup) : World :=
  let w := (w.drop.setLink .opened).setState .dns
  match lookup with
  | .cached err => (w.connect err).goto .idle
  | .inProgress => w.goto .resolve
  | .failed => (w.setState .init).goto .idle

/-- The buffer test of `send()`, and `api_json_tuples`. -/
def apiJsonTuples (cfg : Config) (w : World) (c : Nat) : World :=
  let ch := w.channels c
  if ch.buf.isEmpty then w.goto .idle
  else
    let (vz, buf) := Volkszaehler.apiJsonTuples (cfg.duplicates c) ch.vz ch.buf
    let w := w.setChannel c { ch with vz := vz, buf := buf }
    if vz.outputData = "null".toList then w.goto .idle else w.goto (.post c)

/-- `postRequest` up to the request's text. -/
def postRequest (w : World) (c : Nat) : World :=
  if w.conn.state ≠ .ready then w.goto (.posted c w.conn.state)
  else { w with conn := { w.conn with channel := some c }, pc := .write c }

/-- `sendData`: `altcp_write` returns `write`, `altcp_output` then `output`. -/
def sendData (w : World) (c : Nat) (write output : Err) : World :=
  if write = .ok then
    { w.setState .sending with
      requests := w.requests ++ [⟨c, (w.channels c).vz.outputData, (w.channels c).vz.values⟩]
      outstanding := w.outstanding ++ [w.requests.length]
      pc := .written c output }
  else w.goto (.written c write)

/-- The rest of `postRequest`. -/
def sent (w : World) (c : Nat) (err : Err) : World :=
  let w := match err with
    | .mem => w.setState .retry
    | .ok => w
    | .other => w.setState .init
  w.goto (.posted c w.conn.state)

/-- `send()` after `postRequest`. -/
def posted (w : World) (c : Nat) (state : SrvState) : World :=
  if state = .retry then (w.setState .ready).goto .idle
  else if w.conn.state ≠ .init ∧ w.conn.state ≠ .sending ∧ w.conn.state ≠ .replied then
    (w.setState .init).goto .idle
  else w.goto (.check c)

/-- The response is taken over and processed. -/
def process (cfg : Config) (w : World) (c : Nat) (scanned : Scanned) : World :=
  let ch := w.channels c
  let response := scanned.payload.orElse fun _ => ch.response
  let reply := (response.map cfg.tokener).getD .error
  let vz := Volkszaehler.processResponse scanned.httpCode 0 reply ch.vz
  let removed := ch.vz.values.take (ch.vz.values.length - vz.values.length)
  let w := { w.setChannel c { ch with vz := vz, response := response } with pc := .finish }
  if removed = [] then w
  else { w with removals := w.removals ++ [⟨c, w.source, scanned.httpCode, reply, removed⟩] }

/-- `checkResponse()`; there is no result where the scan of the headers has none. -/
def checkResponse (cfg : Config) (w : World) (c : Nat) : Option World :=
  if w.conn.state ≠ .replied then some (w.goto .idle)
  else if w.conn.channel ≠ some c then some (w.goto .idle)
  else if w.conn.data = [] then some ((w.setState .init).goto .idle)
  else (scan w.conn.data).map (w.process cfg c)

def step (cfg : Config) (w : World) : Event → Option World
  | .reader c e =>
    match (w.channels c).buf.readerStep e with
    | none => none
    | some buf => some (w.setChannel c { w.channels c with buf := buf })
  | .send c connectTimedOut sendTimedOut =>
    if w.pc = .idle then some (w.send c connectTimedOut sendTimedOut) else none
  | .reconnect lookup => if w.pc = .reconnect then some (w.reconnect lookup) else none
  | .resolved => if w.pc = .resolve ∧ w.conn.state ≠ .dns then some (w.goto .idle) else none
  | .apiJsonTuples =>
    match w.pc with
    | .ready c => some (w.apiJsonTuples cfg c)
    | _ => none
  | .postRequest =>
    match w.pc with
    | .post c => some (w.postRequest c)
    | _ => none
  | .sendData write output =>
    match w.pc with
    | .write c =>
      if write = .ok ∧ w.conn.link ≠ .established then none else some (w.sendData c write output)
    | _ => none
  | .sent =>
    match w.pc with
    | .written c err => some (w.sent c err)
    | _ => none
  | .posted =>
    match w.pc with
    | .posted c state => some (w.posted c state)
    | _ => none
  | .check c => if w.pc = .idle then some (w.goto (.check c)) else none
  | .checkResponse =>
    match w.pc with
    | .check c => w.checkResponse cfg c
    | _ => none
  | .finish => if w.pc = .finish then some ((w.setState .ready).goto .idle) else none
  | .dnsFound found connect =>
    if w.pc = .resolve ∧ w.conn.link = .opened then
      some (if found then w.connect connect else w.setState .init)
    else none
  | .connected err =>
    if w.conn.link = .connecting then
      some (if err = .ok then (w.setState .ready).setLink .established else w.setState .init)
    else none
  | .poll =>
    if w.conn.link = .closed then none
    else some (if w.conn.state = .connecting ∨ w.conn.state = .sending then w.setState .init else w)
  | .err => if w.conn.link = .closed then none else some (w.drop.setState .init)
  | .recv request segment =>
    if w.conn.link = .established then some (w.recv request segment) else none
  | .close => if w.conn.link = .established then some (w.drop.setState .init) else none

/-- What `send()` does first: wait, reconnect, go on to post, or ask for the response. -/
theorem send_cases (w : World) (c : Nat) (connectTimedOut sendTimedOut : Bool) :
    w.send c connectTimedOut sendTimedOut = w ∨
      w.send c connectTimedOut sendTimedOut = w.goto .reconnect ∨
      (w.conn.state = .ready ∧ w.send c connectTimedOut sendTimedOut = w.goto (.ready c)) ∨
      w.send c connectTimedOut sendTimedOut = w.goto (.check c) := by
  unfold send
  cases w.conn.state <;> cases connectTimedOut <;> cases sendTimedOut <;> simp

/-- The channels and their connection as a machine. -/
def machine (cfg : Config) : EventMachine.Machine World Event := ⟨initial cfg, step cfg⟩

end World
end VzLogger.LwipIF
