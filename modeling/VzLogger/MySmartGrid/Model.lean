import VzLogger.Buffer
import VzLogger.Lib.CString
import VzLogger.Lib.Json

/-! # The MySmartGrid interface

`vz::api::MySmartGrid::send` and the requests it builds.  A sensor channel moves
the readings of the buffer to a queue, takes the first counter it meets for the
baseline, and reports every later one as a difference to it.  The queue is
emptied when the request is acknowledged, and kept for the next call otherwise.

The progress of the report (`_first_ts`, `_first_counter`) is recorded while the
request is built.  A failed request takes none of it back: the next one leaves
out what it finds to be reported, and its answer empties the queue.  And a first
counter of 0 is no baseline, so a report that starts at 0 is counted from the
first positive counter on.
-/
namespace VzLogger

/-- `chn_type_device` and `chn_type_sensor`. -/
inductive ChannelType where
  | device
  | sensor
  deriving DecidableEq, Repr

/-- The members set by the constructor. -/
structure MySmartGrid where
  secretKey : List Char
  interval : Int
  channelType : ChannelType
  scaler : Nat

namespace MySmartGrid

/-- `_first_ts`, `_first_counter` and `_last_counter`. -/
structure Progress where
  firstTs : Int
  firstCounter : Int
  lastCounter : Int
  deriving DecidableEq

/-- The members that calls change. -/
structure Volatil where
  values : List Reading
  progress : Progress

/-- The JSON objects that are sent. -/
inductive Body where
  | registration (key : List Char)
  | heartbeat
  | measurements (tuples : List (Int × Int))
  deriving DecidableEq

/-- A request, and how it was answered. -/
structure Request where
  body : Body
  curlCode : Int
  httpCode : Int

/-- `curl_code == CURLE_OK && http_code == 200`. -/
def success (curlCode httpCode : Int) : Prop := curlCode = 0 ∧ httpCode = 200

instance (curlCode httpCode : Int) : Decidable (success curlCode httpCode) :=
  inferInstanceAs (Decidable (_ ∧ _))

/-- `_json_object_heartbeat`, `_json_object_registration` and the object of
`_json_object_measurements`. -/
def Body.json : Body → Json.Value
  | .registration key => .obj [("key".toList, .str key)]
  | .heartbeat => .obj [
      ("memtotal".toList, .num 128), ("version".toList, .str "1.0.0".toList),
      ("memcached".toList, .num 128), ("membuffers".toList, .num 12),
      ("memfree".toList, .num 1), ("uptime".toList, .num 1), ("reset".toList, .num 1)]
  | .measurements tuples =>
    .obj [("measurements".toList, .arr (tuples.map fun t => .arr [.num t.1, .num t.2]))]

/-- The measurements a body reports. -/
def Body.tuples : Body → List (Int × Int)
  | .measurements tuples => tuples
  | _ => []

variable (msg : MySmartGrid)

/-- `(long)(it->value() * _scaler)`. -/
def counter (r : Reading) : Int := (r.value * msg.scaler).num.tdiv (r.value * msg.scaler).den

/-- The loop over the buffer: readings newer than the last one taken. -/
def taken (timestamp : Int) : List (Node Reading) → List Reading
  | [] => []
  | it :: rest =>
    if timestamp < it.val.time.tvSec then it.val :: taken it.val.time.tvSec rest
    else taken timestamp rest

/-- The queue after the loop over the buffer. -/
def queued (values : List Reading) (buf : Buffer) : List Reading :=
  let timestamp := ((values.getLast?).map fun r => r.time.tvSec).getD 0
  values ++ taken timestamp buf.sent.nodes

/-- Mark every reading, and clean. -/
def emptied (buf : Buffer) : Buffer := (buf.markFirst buf.sent.nodes.length).clean

/-- The loop over the queue that builds the tuples.  `json_object_new_int` takes
32 bits. -/
def build : Progress → List Reading → Progress × List (Int × Int)
  | p, [] => (p, [])
  | p, r :: rest =>
    let timestamp := r.time.tvSec
    let value := msg.counter r
    if p.firstCounter < 1 then
      build { p with firstCounter := value, lastCounter := value } rest
    else if p.firstTs < timestamp then
      let d := build { p with firstTs := timestamp, lastCounter := value } rest
      (d.1, (CString.toInt timestamp, CString.toInt (value - p.firstCounter)) :: d.2)
    else build p rest

/-- There is nothing to report yet. -/
def Nothing (p : Progress) (queue : List Reading) : Prop :=
  queue.length < 1 ∨ (queue.length < 2 ∧ p.firstCounter = 0)

instance (p : Progress) (queue : List Reading) : Decidable (Nothing p queue) :=
  inferInstanceAs (Decidable (_ ∨ _))

/-- `_json_object_measurements`. -/
def jsonObjectMeasurements (v : Volatil) (buf : Buffer) : Volatil × Buffer × Option Body :=
  let queue := queued v.values buf
  if Nothing v.progress queue then (⟨queue, v.progress⟩, emptied buf, none)
  else
    let d := msg.build v.progress queue
    (⟨queue, d.1⟩, emptied buf, some (.measurements d.2))

/-- `_apiDevice`. -/
def apiDevice (now : Int) (v : Volatil) (buf : Buffer) : Volatil × Buffer × Option Body :=
  (⟨v.values, { v.progress with firstTs := now }⟩, emptied buf,
    some (if 0 < v.progress.firstTs then .heartbeat else .registration msg.secretKey))

/-- The object to send, by the type of the channel. -/
def jsonObject (now : Int) (v : Volatil) (buf : Buffer) : Volatil × Buffer × Option Body :=
  match msg.channelType with
  | .device => msg.apiDevice now v buf
  | .sensor => msg.jsonObjectMeasurements v buf

/-- `send` waits for the interval since the last reading it reported. -/
def Waits (now : Int) (p : Progress) : Prop := 0 < p.firstTs ∧ now - p.firstTs < msg.interval

instance (now : Int) (p : Progress) : Decidable (msg.Waits now p) :=
  inferInstanceAs (Decidable (_ ∧ _))

/-- The queue and the buffer after the answer. -/
def settle (curlCode httpCode : Int) (v : Volatil) (buf : Buffer) : Volatil × Buffer :=
  if success curlCode httpCode then ({ v with values := [] }, buf) else (v, buf.undelete)

/-- `send`, and the request it leaves, if it sends one. -/
def send (now curlCode httpCode : Int) (v : Volatil) (buf : Buffer) :
    Volatil × Buffer × Option Request :=
  if msg.Waits now v.progress then (v, buf, none)
  else
    match msg.jsonObject now v buf with
    | (v, buf, none) => (v, buf, none)
    | (v, buf, some body) =>
      let settled := settle curlCode httpCode v buf
      (settled.1, settled.2, some ⟨body, curlCode, httpCode⟩)

/-! ## What the pieces do -/

/-- The tuple of a reading. -/
def tuple (first : Int) (r : Reading) : Int × Int :=
  (CString.toInt r.time.tvSec, CString.toInt (msg.counter r - first))

section Loops
variable {msg}

@[simp] theorem emptied_nodes (buf : Buffer) : (emptied buf).sent.nodes = [] := by
  rw [emptied, Buffer.clean_nodes, Buffer.markFirst_nodes, List.take_length, List.drop_length,
    List.append_nil, Buffer.live_map_markDelete]

/-- Readings in the order of their times are all taken. -/
theorem taken_of_sorted {timestamp : Int} {l : List (Node Reading)}
    (h : (timestamp :: l.map (fun it => it.val.time.tvSec)).Pairwise (· < ·)) :
    taken timestamp l = l.map Node.val := by
  induction l generalizing timestamp with
  | nil => rfl
  | cons it rest ih =>
    rw [List.map_cons] at h
    have hlt : timestamp < it.val.time.tvSec := List.rel_of_pairwise_cons h List.mem_cons_self
    rw [taken, if_pos hlt, ih (List.pairwise_cons.mp h).2, List.map_cons]

/-- A recorded baseline stays. -/
theorem build_firstCounter {p : Progress} (h : 1 ≤ p.firstCounter) (l : List Reading) :
    (msg.build p l).1.firstCounter = p.firstCounter := by
  induction l generalizing p with
  | nil => rfl
  | cons r rest ih =>
    rw [build, if_neg (by omega)]
    split
    · exact ih h
    · exact ih h

/-- With a baseline, readings newer than what was reported are all reported. -/
theorem build_tuples {p : Progress} {l : List Reading} (h : 1 ≤ p.firstCounter)
    (hl : (p.firstTs :: l.map (fun r => r.time.tvSec)).Pairwise (· < ·)) :
    (msg.build p l).2 = l.map (msg.tuple p.firstCounter) := by
  induction l generalizing p with
  | nil => rfl
  | cons r rest ih =>
    rw [List.map_cons] at hl
    have hlt : p.firstTs < r.time.tvSec := List.rel_of_pairwise_cons hl List.mem_cons_self
    rw [build, if_neg (by omega), if_pos hlt, List.map_cons]
    have hrest := ih (p := { p with firstTs := r.time.tvSec, lastCounter := msg.counter r }) h
      (List.pairwise_cons.mp hl).2
    exact congrArg (_ :: ·) hrest

/-- `_first_ts` is the time of the last reading that was reported. -/
theorem build_firstTs (p : Progress) (l : List Reading) :
    ((msg.build p l).2 = [] ∧ (msg.build p l).1.firstTs = p.firstTs) ∨
      ∃ r ∈ l, r.time.tvSec = (msg.build p l).1.firstTs := by
  induction l generalizing p with
  | nil => exact Or.inl ⟨rfl, rfl⟩
  | cons r rest ih =>
    rw [build]
    dsimp only
    split
    · refine (ih { p with firstCounter := msg.counter r, lastCounter := msg.counter r }).imp id ?_
      rintro ⟨s, hs, hts⟩
      exact ⟨s, List.mem_cons_of_mem _ hs, hts⟩
    · split
      · right
        rcases ih { p with firstTs := r.time.tvSec, lastCounter := msg.counter r } with
          ⟨-, hts⟩ | ⟨s, hs, hts⟩
        · exact ⟨r, List.mem_cons_self, hts.symm⟩
        · exact ⟨s, List.mem_cons_of_mem _ hs, hts⟩
      · refine (ih p).imp id ?_
        rintro ⟨s, hs, hts⟩
        exact ⟨s, List.mem_cons_of_mem _ hs, hts⟩

/-- Without a baseline, a positive counter is one, and there has to be a reading
after it. -/
theorem build_of_no_baseline {p : Progress} {l : List Reading} (hp : p.firstCounter < 1)
    (hl : (l.dropWhile fun r => msg.counter r < 1).length ≤ 1) : (msg.build p l).2 = [] := by
  induction l generalizing p with
  | nil => rfl
  | cons r rest ih =>
    rw [build, if_pos hp]
    by_cases hr : msg.counter r < 1
    · rw [List.dropWhile_cons_of_pos (by simpa using hr)] at hl
      exact ih hr hl
    · rw [List.dropWhile_cons_of_neg (by simpa using hr), List.length_cons] at hl
      obtain rfl : rest = [] := List.length_eq_zero_iff.mp (by omega)
      rfl

end Loops

end MySmartGrid
end VzLogger
