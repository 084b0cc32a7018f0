import VzLogger.DrainLoop

/-! # The InfluxDB interface

`vz::api::InfluxDB::send` in pieces, one for each critical section of the channel
buffer: the limit on the buffer (`deltaDelete`, `trim`), the loop that builds the
request (`built`, `build`), and what follows the answer (`settle`).  The members
that no call changes are the parameters of the model; a call only changes the
filter state.
-/
namespace VzLogger

/-- The members set by the constructor, with the options of the channel. -/
structure InfluxDB where
  uuid : List Char
  duplicates : Int
  measurementName : List Char
  sendUuid : Bool
  tags : List Char
  maxBatchInserts : Int
  maxBufferSize : Int

/-- An `INSERT` of some lines, and how the server answered it. -/
structure InfluxDB.Request where
  lines : List (Node Reading)
  requestBody : List Char
  curlCode : Int
  httpCode : Int

/-- `curl_code == CURLE_OK && http_code >= 200 && http_code < 300`. -/
def InfluxDB.success (curlCode httpCode : Int) : Prop :=
  curlCode = 0 ∧ 200 ≤ httpCode ∧ httpCode < 300

instance (curlCode httpCode : Int) : Decidable (InfluxDB.success curlCode httpCode) :=
  inferInstanceAs (Decidable (_ ∧ _ ∧ _))

namespace InfluxDB
variable (db : InfluxDB)

/-- `(unsigned)_max_buffer_size`. -/
def bufferLimit : Nat := (db.maxBufferSize % 2 ^ 32).toNat

/-- How many readings a buffer of some size has to lose.  The difference is an
`unsigned int`. -/
def deltaDelete (size : Nat) : Nat := (((size : Int) - db.bufferLimit) % 2 ^ 32).toNat

/-- Delete items if the buffer grows too large. -/
def trim (buf : Buffer) : Buffer :=
  if db.bufferLimit < buf.sent.nodes.length then
    (buf.markFirst (db.deltaDelete buf.sent.nodes.length)).clean
  else buf

/-- A reading must not be older than the last one taken. -/
def accept : FilterState → Reading → Option FilterState :=
  FilterState.accept (fun last timestamp => last ≤ timestamp) db.duplicates

/-- `request_body_lines >= _max_batch_inserts`. -/
def full (requestBodyLines : Nat) : Bool := db.maxBatchInserts ≤ requestBodyLines

/-- The loop over the buffer. -/
def built (filter : FilterState) (buf : Buffer) : Drained :=
  drainLoop db.accept db.full filter 0 buf.sent.nodes

/-- The buffer after the loop: what it visited is marked deleted. -/
def build (filter : FilterState) (buf : Buffer) : Buffer :=
  buf.markFirst (db.built filter buf).reached

/-- One line of the request body. -/
def line (r : Reading) : List Char :=
  db.measurementName
    ++ (if db.sendUuid then ",uuid=".toList ++ db.uuid else [])
    ++ (if db.tags.isEmpty then [] else ",".toList ++ db.tags)
    ++ " value=".toList ++ Decimal.ofRat 6 r.value
    ++ " ".toList ++ Decimal.ofInt r.timeMs ++ "\n".toList

/-- The request body. -/
def requestBody (lines : List (Node Reading)) : List Char :=
  lines.flatMap fun it => db.line it.val

/-- The buffer after the answer. -/
def settle (curlCode httpCode : Int) (buf : Buffer) : Buffer :=
  if success curlCode httpCode then buf.clean else buf.undelete

/-- `send` without another thread: the filter state, the buffer and the request
it leaves, if it sends one. -/
def send (curlCode httpCode : Int) (filter : FilterState) (buf : Buffer) :
    FilterState × Buffer × Option Request :=
  let buf := db.trim buf
  let d := db.built filter buf
  let buf := db.build filter buf
  if d.taken.isEmpty then (d.filter, buf, none)
  else
    (d.filter, settle curlCode httpCode buf,
      some ⟨d.taken, db.requestBody d.taken, curlCode, httpCode⟩)

/-- An interface of the default options. -/
def defaults : InfluxDB where
  uuid := "u".toList
  duplicates := 0
  measurementName := "vzlogger".toList
  sendUuid := true
  tags := []
  maxBatchInserts := 4500
  maxBufferSize := 450000

/-! ## What the pieces do -/

/-- How many readings the limit takes off a buffer of some size. -/
def surplus (size : Nat) : Nat := if db.bufferLimit < size then db.deltaDelete size else 0

/-- The limit takes readings off the front. -/
theorem trim_nodes (db : InfluxDB) {buf : Buffer}
    (h : ∀ it ∈ buf.sent.nodes, it.val.deleted = false) :
    (db.trim buf).sent.nodes = buf.sent.nodes.drop (db.surplus buf.sent.nodes.length) := by
  unfold trim surplus
  split
  · exact Buffer.clean_markFirst_nodes h _
  · rfl

@[simp] theorem trim_next (buf : Buffer) : (db.trim buf).sent.next = buf.sent.next := by
  unfold trim
  split <;> rfl

theorem settle_failed {curlCode httpCode : Int} (h : ¬success curlCode httpCode) (buf : Buffer) :
    settle curlCode httpCode buf = buf.undelete := if_neg h

theorem settle_success {curlCode httpCode : Int} (h : success curlCode httpCode) (buf : Buffer) :
    settle curlCode httpCode buf = buf.clean := if_pos h

theorem full_zero {db : InfluxDB} (h : 0 < db.maxBatchInserts) : db.full 0 = false := by
  simpa [full] using h

/-- A limit of no lines stops the loop before the first reading. -/
theorem built_of_full {db : InfluxDB} (h : db.maxBatchInserts ≤ 0) (filter : FilterState)
    (buf : Buffer) : db.built filter buf = ⟨filter, [], 0⟩ := by
  unfold built
  cases buf.sent.nodes with
  | nil => rfl
  | cons it rest => exact drainLoop.cons_full (by simpa [full] using h)

end InfluxDB
end VzLogger
