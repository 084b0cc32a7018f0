import VzLogger.DrainLoop
import VzLogger.Lib.Json

/-! # The Volkszaehler interface

The members of `vz::api::Volkszaehler` that its upload uses, and the functions
that read and change them.  `api_json_tuples` is three pieces: the loop under the
buffer lock (`drain`), the `clean` of the buffer, and the text of the request
body (`format`).
-/
namespace VzLogger

/-- `MAX_CHUNK_SIZE`. -/
def maxChunkSize : Nat := 64

/-- The members of `vz::api::Volkszaehler`. -/
structure Volkszaehler where
  outputData : List Char
  values : List Reading
  filter : FilterState

namespace Volkszaehler

/-- As constructed. -/
def initial : Volkszaehler := ⟨[], [], FilterState.initial⟩

/-- A reading must be newer than the last one taken. -/
def accept (duplicates : Int) : FilterState → Reading → Option FilterState :=
  FilterState.accept (fun last timestamp => last < timestamp) duplicates

/-- The drain loop; it never stops early. -/
def drained (duplicates : Int) (vz : Volkszaehler) (buf : Buffer) : Drained :=
  drainLoop (accept duplicates) (fun _ => false) vz.filter 0 buf.sent.nodes

/-- The critical section of `api_json_tuples`: the readings the filter lets pass
are appended to `_values`, all are marked deleted. -/
def drain (duplicates : Int) (vz : Volkszaehler) (buf : Buffer) : Volkszaehler × Buffer :=
  let d := drained duplicates vz buf
  ({ vz with values := vz.values ++ d.taken.map Node.val, filter := d.filter },
    buf.markFirst d.reached)

/-- `[time_ms,value]`. -/
def tuple (r : Reading) : List Char :=
  "[".toList ++ Decimal.ofInt r.timeMs ++ ",".toList ++ Decimal.ofRat 6 r.value ++ "]".toList

/-- The loop that appends the tuples; `size` is `_values.size()`. -/
def formatLoop (size : Nat) : List Reading → Nat → List Char → List Char
  | [], _, outputData => outputData
  | r :: rest, nrTuples, outputData =>
    let outputData := outputData ++ tuple r
    let nrTuples := nrTuples + 1
    let outputData := if nrTuples < size then outputData ++ ",".toList else outputData
    if maxChunkSize ≤ nrTuples then outputData else formatLoop size rest nrTuples outputData

/-- The request body for a queue. -/
def body (values : List Reading) : List Char :=
  formatLoop values.length values 0 "[".toList ++ "]".toList

/-- The rest of `api_json_tuples`: an empty queue leaves `outputData` alone. -/
def format (vz : Volkszaehler) : Volkszaehler :=
  if vz.values.length < 1 then vz else { vz with outputData := body vz.values }

/-- `api_json_tuples`. -/
def apiJsonTuples (duplicates : Int) (vz : Volkszaehler) (buf : Buffer) : Volkszaehler × Buffer :=
  let (vz, buf) := drain duplicates vz buf
  (format vz, buf.clean)

/-- What json-c makes of a response: an error, a document without an exception,
or an exception with its type and message as far as it has them. -/
inductive JsonReply where
  | error
  | missing
  | exception (type message : Option (List Char))

/-- `std::string::find`, as a position. -/
def find (needle : List Char) : List Char → Option Nat
  | [] => if needle = [] then some 0 else none
  | c :: s => if needle.isPrefixOf (c :: s) then some 0 else (find needle s).map (· + 1)

/-- The duplicate-entry test of `api_parse_exception`.  `find` is taken as a truth
value: only a text found at position 0 counts as false. -/
def isDuplicateEntry : JsonReply → Bool
  | .error => false
  | .missing => false
  | .exception type message =>
    type.getD [] = "UniqueConstraintViolationException".toList &&
      find "Duplicate entry".toList (message.getD []) ≠ some 0

/-- `api_parse_exception`, without the text it writes for the log. -/
def apiParseException (reply : JsonReply) (vz : Volkszaehler) : Volkszaehler :=
  if isDuplicateEntry reply then { vz with values := vz.values.tail } else vz

/-- `processResponse`.  `errCode = 0` is `CURLE_OK`. -/
def processResponse (httpCode errCode : Int) (reply : JsonReply) (vz : Volkszaehler) :
    Volkszaehler :=
  if errCode = 0 ∧ httpCode = 200 then
    if vz.values.length ≤ maxChunkSize then { vz with values := [] }
    else { vz with values := vz.values.drop maxChunkSize }
  else if errCode ≠ 0 then vz
  else apiParseException reply vz

/-! ## What the functions do -/

theorem drain_values (duplicates : Int) (vz : Volkszaehler) (buf : Buffer) :
    (drain duplicates vz buf).1.values =
      vz.values ++ (drained duplicates vz buf).taken.map Node.val := rfl

/-- The loop visits, and marks, the whole buffer. -/
theorem drain_nodes (duplicates : Int) (vz : Volkszaehler) (buf : Buffer) :
    (drain duplicates vz buf).2.sent.nodes =
      buf.sent.nodes.map (fun it => ⟨it.addr, it.val.markDelete⟩) := by
  have h : (drained duplicates vz buf).reached = buf.sent.nodes.length :=
    drainLoop.reached_of_never_full (fun _ => rfl) _ _ _
  simp [drain, h]

/-- After the drain, the queue is empty only if it was and every reading in the
buffer was suppressed. -/
theorem drain_values_ne_nil_iff (duplicates : Int) (vz : Volkszaehler) (buf : Buffer) :
    (drain duplicates vz buf).1.values ≠ [] ↔
      vz.values ≠ [] ∨ ∃ it ∈ buf.sent.nodes, accept duplicates vz.filter it.val ≠ none := by
  have htaken : (drained duplicates vz buf).taken ≠ [] ↔
      ∃ it ∈ buf.sent.nodes, accept duplicates vz.filter it.val ≠ none :=
    drainLoop.taken_ne_nil_iff rfl vz.filter buf.sent.nodes
  rw [← htaken, drain_values]
  simp only [ne_eq, List.append_eq_nil_iff, List.map_eq_nil_iff]
  tauto

@[simp] theorem format_values (vz : Volkszaehler) : (format vz).values = vz.values := by
  unfold format
  split <;> rfl

theorem format_outputData {vz : Volkszaehler} (h : vz.values ≠ []) :
    (format vz).outputData = body vz.values := by
  unfold format
  rw [if_neg]
  have := List.length_pos_of_ne_nil h
  omega

theorem format_of_nil {vz : Volkszaehler} (h : vz.values = []) : format vz = vz := by
  simp [format, h]

/-- A successful call removes the first chunk of the queue. -/
theorem processResponse_ok (reply : JsonReply) (vz : Volkszaehler) :
    (processResponse 200 0 reply vz).values = vz.values.drop maxChunkSize := by
  unfold processResponse
  rw [if_pos ⟨rfl, rfl⟩]
  split
  · rename_i h
    exact (List.drop_eq_nil_of_le h).symm
  · rfl

/-- A call that fails leaves the queue alone, up to the duplicate-entry rule. -/
theorem processResponse_failed {httpCode errCode : Int} (h : ¬(errCode = 0 ∧ httpCode = 200))
    {reply : JsonReply} (hreply : isDuplicateEntry reply = false) (vz : Volkszaehler) :
    processResponse httpCode errCode reply vz = vz := by
  unfold processResponse
  rw [if_neg h]
  split
  · rfl
  · simp [apiParseException, hreply]

@[simp] theorem processResponse_outputData (httpCode errCode : Int) (reply : JsonReply)
    (vz : Volkszaehler) :
    (processResponse httpCode errCode reply vz).outputData = vz.outputData := by
  unfold processResponse apiParseException
  repeat' split
  all_goals rfl

end Volkszaehler
end VzLogger
