import VzLogger.Volkszaehler.Model
import VzLogger.Lib.CHeap
import Mathlib.Data.List.Infix

/-! # The response of the middleware

`response` is a member: the write callback grows it while curl delivers a
response, `processResponse` hands it to json-c and frees it.  Neither resets it,
so the pointer and the size outlive the call.  An error response may remove the
first value of the queue; `api_parse_exception` decides that on two texts.
-/
namespace VzLogger.Volkszaehler

/-! ## The buffer of the response -/

/-- `CURLresponse`. -/
structure CURLresponse where
  data : CHeap.Ptr
  size : Nat
  deriving DecidableEq

/-- As the constructor sets it. -/
def CURLresponse.initial : CURLresponse := ⟨none, 0⟩

/-- What curl does in a call: the pieces it delivers, and the outcome. -/
structure Delivery where
  pieces : List (List Char)
  errCode : Int
  httpCode : Int

/-- The interface with its response, and the heap.  `parsed` keeps, for each call
of `api_parse_exception`, what the call's response was and what the function was
given. -/
structure Session where
  vz : Volkszaehler
  response : CURLresponse
  heap : CHeap
  parsed : List (List Char × List Char)

namespace Session

def initial : Session := ⟨Volkszaehler.initial, CURLresponse.initial, CHeap.empty, []⟩

/-- `curl_custom_write_callback`; `none` where the program's behaviour is undefined. -/
def curlCustomWriteCallback (junk : Char) (s : CURLresponse × CHeap) (ptr : List Char) :
    Option (CURLresponse × CHeap) := do
  let (response, heap) := s
  let realsize := ptr.length
  let (heap, data) ← heap.realloc junk response.data (response.size + realsize + 1)
  let heap ← heap.write data response.size ptr
  let size := response.size + realsize
  let heap ← heap.write data size ['\x00']
  return (⟨some data, size⟩, heap)

/-- The request of a call of `send()`, and `processResponse`.  `jsonc` is what
json-c makes of a text. -/
def send (junk : Char) (jsonc : List Char → JsonReply) (s : Session) (c : Delivery) :
    Option Session := do
  let (response, heap) ← c.pieces.foldlM (curlCustomWriteCallback junk) (s.response, s.heap)
  if c.errCode = 0 ∧ c.httpCode ≠ 200 then
    let given ← heap.read response.data response.size
    let heap ← heap.free response.data
    return ⟨processResponse c.httpCode c.errCode (jsonc given) s.vz, response, heap,
      s.parsed ++ [(c.pieces.flatten, given)]⟩
  else
    let heap ← heap.free response.data
    return ⟨processResponse c.httpCode c.errCode .missing s.vz, response, heap, s.parsed⟩

/-- Calls of `send()` one after the other. -/
def sends (junk : Char) (jsonc : List Char → JsonReply) (s : Session) (calls : List Delivery) :
    Option Session :=
  calls.foldlM (send junk jsonc) s

/-- The response holds what the call has received. -/
inductive Holds : CURLresponse × CHeap → List Char → Prop where
  | nothing {heap : CHeap} : Holds (CURLresponse.initial, heap) []
  | block {p : Nat} {heap : CHeap} {received : List Char}
      (h : heap.block p = some (received ++ ['\x00'])) :
      Holds (⟨some p, received.length⟩, heap) received

/-- The response points to a freed block. -/
def Dangling (s : CURLresponse × CHeap) : Prop := ∃ p, s.1.data = some p ∧ s.2.block p = none

section
variable (junk : Char)

/-- A block one longer than what it is to hold. -/
theorem exists_realloc {s : CURLresponse × CHeap} {received : List Char} (h : Holds s received)
    (n : Nat) : ∃ heap data junks, s.2.realloc junk s.1.data (s.1.size + n + 1) =
      some (heap, data) ∧ s.1.size = received.length ∧ junks.length = n + 1 ∧
        heap.block data = some (received ++ junks) := by
  cases h with
  | @nothing heap =>
    obtain ⟨heap', data, hrealloc, hblock⟩ := CHeap.realloc_null junk heap (0 + n + 1)
    exact ⟨heap', data, _, hrealloc, rfl, by simp, hblock⟩
  | @block p heap received hp =>
    have hlen : (received ++ ['\x00']).length ≤ received.length + n + 1 := by simp
    obtain ⟨heap', data, hrealloc, hblock⟩ := CHeap.realloc_grow junk hp hlen
    rw [List.append_assoc] at hblock
    refine ⟨heap', data, _, hrealloc, rfl, ?_, hblock⟩
    simp only [List.length_append, List.length_replicate, List.length_singleton]
    omega

/-- A piece is appended to what the response holds. -/
theorem holds_curlCustomWriteCallback {s : CURLresponse × CHeap} {received : List Char}
    (h : Holds s received) (ptr : List Char) :
    ∃ t, curlCustomWriteCallback junk s ptr = some t ∧ Holds t (received ++ ptr) ∧
      t.1.data ≠ none := by
  obtain ⟨response, heap⟩ := s
  obtain ⟨heap₁, data, junks, hrealloc, hsize, hjunks, hblock₁⟩ := exists_realloc junk h ptr.length
  dsimp only at hrealloc hsize
  -- `memcpy`, then the terminating NUL
  have hcopy : (received ++ junks).take response.size ++ ptr ++
      (received ++ junks).drop (response.size + ptr.length) =
        received ++ ptr ++ junks.drop ptr.length := by
    rw [hsize, List.take_left, List.drop_length_add_append]
  obtain ⟨heap₂, hwrite₁, hblock₂⟩ := CHeap.write_of_block hblock₁ response.size ptr
    (by rw [List.length_append]; omega)
  rw [hcopy] at hblock₂
  have hnul : (received ++ ptr ++ junks.drop ptr.length).take (response.size + ptr.length) ++
      ['\x00'] ++ (received ++ ptr ++ junks.drop ptr.length).drop
        (response.size + ptr.length + 1) = received ++ ptr ++ ['\x00'] := by
    have hlen : response.size + ptr.length = (received ++ ptr).length := by simp [hsize]
    have hdrop : (received ++ ptr ++ junks.drop ptr.length).drop ((received ++ ptr).length + 1) =
        [] := by
      refine List.drop_eq_nil_of_le ?_
      rw [List.length_append, List.length_drop]
      omega
    rw [hlen, List.take_left, hdrop, List.append_nil]
  obtain ⟨heap₃, hwrite₂, hblock₃⟩ := CHeap.write_of_block hblock₂ (response.size + ptr.length)
    ['\x00'] (by simp only [List.length_append, List.length_drop, List.length_singleton]; omega)
  rw [List.length_singleton, hnul] at hblock₃
  refine ⟨(⟨some data, response.size + ptr.length⟩, heap₃), ?_, ?_, by simp⟩
  · simp only [curlCustomWriteCallback, hrealloc, hwrite₁, hwrite₂, Option.bind_eq_bind,
      Option.bind_some, Option.pure_def]
  · rw [hsize, ← List.length_append]
    exact .block hblock₃

/-- All pieces of a call end up in the response, one after the other. -/
theorem holds_foldlM {s : CURLresponse × CHeap} {received : List Char} (h : Holds s received)
    (pieces : List (List Char)) :
    ∃ t, pieces.foldlM (curlCustomWriteCallback junk) s = some t ∧
      Holds t (received ++ pieces.flatten) ∧ (pieces ≠ [] → t.1.data ≠ none) := by
  induction pieces generalizing s received with
  | nil => exact ⟨s, rfl, by simpa using h, by simp⟩
  | cons ptr pieces ih =>
    obtain ⟨u, hu, hholds, hdata⟩ := holds_curlCustomWriteCallback junk h ptr
    obtain ⟨t, ht, hholds', hdata'⟩ := ih hholds
    refine ⟨t, ?_, by simpa using hholds', fun _ => ?_⟩
    · rw [List.foldlM_cons, hu]
      exact ht
    · cases pieces with
      | nil =>
        obtain rfl := Option.some.inj ht
        exact hdata
      | cons => exact hdata' (List.cons_ne_nil _ _)

/-- What the response holds is what a reader of it is given. -/
theorem Holds.read {s : CURLresponse × CHeap} {received : List Char} (h : Holds s received) :
    s.2.read s.1.data s.1.size = some received := by
  cases h with
  | nothing => rfl
  | @block p heap received hp =>
    have hlen : received.length ≤ (received ++ ['\x00']).length := by simp
    exact (CHeap.read_of_block hp hlen).trans (by rw [List.take_left])

/-- It can be freed, and the response still points to it. -/
theorem Holds.free {s : CURLresponse × CHeap} {received : List Char} (h : Holds s received) :
    ∃ heap, s.2.free s.1.data = some heap ∧ (s.1.data ≠ none → Dangling (s.1, heap)) := by
  cases h with
  | @nothing heap => exact ⟨heap, rfl, fun hne => absurd rfl hne⟩
  | @block p heap received hp =>
    exact ⟨_, CHeap.free_of_block hp, fun _ => ⟨p, rfl, CHeap.block_set_none heap p⟩⟩

variable (jsonc : List Char → JsonReply)

/-- A call that starts with an empty response: what is parsed is what the call
delivered, and the response is left empty or dangling. -/
theorem send_of_initial {s : Session} (hs : s.response = CURLresponse.initial) (c : Delivery) :
    ∃ t, send junk jsonc s c = some t ∧
      t.parsed = s.parsed ++
        (if c.errCode = 0 ∧ c.httpCode ≠ 200 then [(c.pieces.flatten, c.pieces.flatten)] else []) ∧
      (c.pieces = [] → t.response = CURLresponse.initial) ∧
      (c.pieces ≠ [] → Dangling (t.response, t.heap)) := by
  obtain ⟨⟨response, heap⟩, hfold, hholds, hdata⟩ := holds_foldlM junk
    (hs ▸ Holds.nothing : Holds (s.response, s.heap) []) c.pieces
  obtain ⟨heap', hfree, hdangling⟩ := hholds.free
  have hread := hholds.read
  dsimp only at hfree hread hdata
  have hempty : c.pieces = [] → response = CURLresponse.initial := by
    intro hnil
    rw [hnil] at hfold
    rw [← hs, (Prod.mk.inj (Option.some.inj hfold)).1]
  by_cases hparse : c.errCode = 0 ∧ c.httpCode ≠ 200
  · rw [List.nil_append] at hread
    refine ⟨⟨processResponse c.httpCode c.errCode (jsonc c.pieces.flatten) s.vz, response, heap',
      s.parsed ++ [(c.pieces.flatten, c.pieces.flatten)]⟩, ?_, by rw [if_pos hparse], hempty,
      fun hne => hdangling (hdata hne)⟩
    simp only [send, hfold, if_pos hparse, hread, hfree, Option.bind_eq_bind, Option.bind_some,
      Option.pure_def]
  · refine ⟨⟨processResponse c.httpCode c.errCode .missing s.vz, response, heap', s.parsed⟩, ?_,
      by rw [if_neg hparse, List.append_nil], hempty, fun hne => hdangling (hdata hne)⟩
    simp only [send, hfold, if_neg hparse, hfree, Option.bind_eq_bind, Option.bind_some,
      Option.pure_def]

/-- A call that starts with a dangling response uses the freed block. -/
theorem send_of_dangling {s : Session} (hs : Dangling (s.response, s.heap)) (c : Delivery) :
    send junk jsonc s c = none := by
  obtain ⟨p, hdata, hblock⟩ := hs
  dsimp only at hdata hblock
  cases hpieces : c.pieces with
  | nil =>
    have hread : ∀ size, s.heap.read (some p) size = none := fun size => by
      simp only [CHeap.read, hblock, Option.bind_none]
    simp only [send, hpieces, List.foldlM_nil, Option.pure_def, Option.bind_eq_bind,
      Option.bind_some, hdata, hread, CHeap.free_of_freed hblock, Option.bind_none, ite_self]
  | cons ptr pieces =>
    simp only [send, hpieces, List.foldlM_cons, curlCustomWriteCallback, hdata,
      CHeap.realloc_of_freed junk hblock, Option.bind_eq_bind, Option.bind_none]

/-- **When the buffer is used correctly.**  In a run of calls no freed pointer is
used, and `api_parse_exception` is always given the response of its own call,
exactly if no call but the last received any of its response. -/
theorem sends_safe_iff (calls : List Delivery) :
    (∃ t, sends junk jsonc initial calls = some t ∧ ∀ p ∈ t.parsed, p.2 = p.1) ↔
      ∀ c ∈ calls.dropLast, c.pieces = [] := by
  suffices hrun : ∀ s : Session, s.response = CURLresponse.initial →
      (∀ p ∈ s.parsed, p.2 = p.1) →
        ((∃ t, sends junk jsonc s calls = some t ∧ ∀ p ∈ t.parsed, p.2 = p.1) ↔
          ∀ c ∈ calls.dropLast, c.pieces = []) from hrun initial rfl (by simp [initial])
  induction calls with
  | nil => exact fun s _ hparsed => ⟨by simp, fun _ => ⟨s, rfl, hparsed⟩⟩
  | cons c calls ih =>
    intro s hs hparsed
    obtain ⟨t, hsend, hparsed', hempty, hdangling⟩ := send_of_initial junk jsonc hs c
    have hown : ∀ p ∈ t.parsed, p.2 = p.1 := by
      rw [hparsed']
      intro p hp
      rcases List.mem_append.mp hp with hp | hp
      · exact hparsed p hp
      · split at hp
        · rw [List.mem_singleton.mp hp]
        · cases hp
    have hrun : sends junk jsonc s (c :: calls) = sends junk jsonc t calls := by
      rw [sends, List.foldlM_cons, hsend]
      rfl
    rw [hrun]
    cases calls with
    | nil => exact ⟨by simp, fun _ => ⟨t, rfl, hown⟩⟩
    | cons d calls =>
      rw [List.dropLast_cons_cons, List.forall_mem_cons]
      by_cases hpieces : c.pieces = []
      · rw [ih t (hempty hpieces) hown]
        exact ⟨fun h => ⟨hpieces, h⟩, And.right⟩
      · have hnone : sends junk jsonc t (d :: calls) = none := by
          rw [sends, List.foldlM_cons, send_of_dangling junk jsonc (hdangling hpieces)]
          rfl
        rw [hnone]
        exact ⟨by simp, fun h => absurd h.1 hpieces⟩

/-- The destructor frees the response once more. -/
def destroy (s : Session) : Option CHeap := s.heap.free s.response.data

/-- So the life of an interface is without a fault only if it received no response at all. -/
theorem destroy_safe_iff (calls : List Delivery) :
    (∃ t, sends junk jsonc initial calls = some t ∧ (destroy t).isSome) ↔
      ∀ c ∈ calls, c.pieces = [] := by
  suffices hrun : ∀ s : Session, s.response = CURLresponse.initial →
      ((∃ t, sends junk jsonc s calls = some t ∧ (destroy t).isSome) ↔
        ∀ c ∈ calls, c.pieces = []) from hrun initial rfl
  induction calls with
  | nil =>
    intro s hs
    exact ⟨by simp, fun _ => ⟨s, rfl, by simp [destroy, hs, CURLresponse.initial, CHeap.free]⟩⟩
  | cons c calls ih =>
    intro s hs
    obtain ⟨t, hsend, -, hempty, hdangling⟩ := send_of_initial junk jsonc hs c
    have hrun : sends junk jsonc s (c :: calls) = sends junk jsonc t calls := by
      rw [sends, List.foldlM_cons, hsend]
      rfl
    rw [hrun, List.forall_mem_cons]
    by_cases hpieces : c.pieces = []
    · rw [ih t (hempty hpieces)]
      exact ⟨fun h => ⟨hpieces, h⟩, And.right⟩
    · refine ⟨?_, fun h => absurd h.1 hpieces⟩
      rintro ⟨u, hu, hfree⟩
      cases calls with
      | nil =>
        obtain rfl := Option.some.inj hu
        obtain ⟨p, hdata, hblock⟩ := hdangling hpieces
        dsimp only at hdata hblock
        rw [destroy, hdata, CHeap.free_of_freed hblock] at hfree
        cases hfree
      | cons d calls =>
        rw [sends, List.foldlM_cons, send_of_dangling junk jsonc (hdangling hpieces)] at hu
        cases hu

end

/-- Two calls that both receive a response: the second one reallocates the block
that the first has freed. -/
theorem sends_not_safe :
    ¬∀ calls : List Delivery, ∃ t, sends '\x00' (fun _ => .error) initial calls = some t ∧
      ∀ p ∈ t.parsed, p.2 = p.1 := by
  intro h
  obtain ⟨t, ht, -⟩ := h [⟨["busy".toList], 0, 500⟩, ⟨["busy".toList], 0, 500⟩]
  have hfault : sends '\x00' (fun _ => .error) initial
      [⟨["busy".toList], 0, 500⟩, ⟨["busy".toList], 0, 500⟩] = none := rfl
  rw [hfault] at ht
  cases ht

end Session

/-! ## The duplicate-entry rule -/

/-- The type of the exception for a value that the middleware already has. -/
def uniqueViolation : List Char := "UniqueConstraintViolationException".toList

/-- What its message says. -/
def duplicateEntry : List Char := "Duplicate entry".toList

/-- What an exception is meant to do to the queue: one for a duplicate entry
removes the first value. -/
def afterException (type message : List Char) (values : List Reading) : List Reading :=
  if type = uniqueViolation ∧ duplicateEntry <:+: message then values.tail else values

theorem find_eq_some_zero_iff (needle s : List Char) : find needle s = some 0 ↔ needle <+: s := by
  cases s with
  | nil => simp [find]
  | cons c s =>
    rw [find, ← List.isPrefixOf_iff_prefix]
    split
    · next h => simp [h]
    · next h => simp [h]

theorem isDuplicateEntry_exception (type message : List Char) :
    isDuplicateEntry (.exception (some type) (some message)) = true ↔
      type = uniqueViolation ∧ ¬duplicateEntry <+: message := by
  rw [← find_eq_some_zero_iff]
  simp only [isDuplicateEntry, Option.getD_some, Bool.and_eq_true, decide_eq_true_eq]
  exact Iff.rfl

/-- **When an exception does what it is meant to.**  The code takes the position
of the text for a truth value. -/
theorem processResponse_exception_iff {httpCode : Int} (herror : httpCode ≠ 200)
    (type message : List Char) (vz : Volkszaehler) :
    (processResponse httpCode 0 (.exception (some type) (some message)) vz).values =
        afterException type message vz.values ↔
      type ≠ uniqueViolation ∨ vz.values = [] ∨
        (duplicateEntry <:+: message ∧ ¬duplicateEntry <+: message) := by
  have hvalues : (processResponse httpCode 0 (.exception (some type) (some message)) vz).values =
      if type = uniqueViolation ∧ ¬duplicateEntry <+: message then vz.values.tail
      else vz.values := by
    unfold processResponse
    rw [if_neg fun h => herror h.2, if_neg (by simp)]
    simp only [apiParseException, isDuplicateEntry_exception]
    split <;> rfl
  rw [hvalues, afterException]
  have htail : vz.values.tail = vz.values ↔ vz.values = [] := by
    cases vz.values with
    | nil => simp
    | cons r rest => simp
  have hinfix : duplicateEntry <+: message → duplicateEntry <:+: message := List.IsPrefix.isInfix
  by_cases htype : type = uniqueViolation
  · by_cases hstart : duplicateEntry <+: message
    · rw [if_neg fun h => h.2 hstart, if_pos ⟨htype, hinfix hstart⟩, eq_comm, htail]
      tauto
    · by_cases hinside : duplicateEntry <:+: message
      · rw [if_pos ⟨htype, hstart⟩, if_pos ⟨htype, hinside⟩]
        tauto
      · rw [if_pos ⟨htype, hstart⟩, if_neg fun h => hinside h.2, htail]
        tauto
  · rw [if_neg fun h => htype h.1, if_neg fun h => htype h.1]
    tauto

/-- A message that goes on before the text. -/
theorem processResponse_exception_inside :
    (processResponse 500 0 (.exception (some uniqueViolation)
        (some "SQLSTATE: Duplicate entry".toList)) ⟨[], [.tick 1, .tick 2], .initial⟩).values =
      afterException uniqueViolation "SQLSTATE: Duplicate entry".toList [.tick 1, .tick 2] :=
  (processResponse_exception_iff (by decide) _ _ _).mpr
    (.inr (.inr ⟨⟨"SQLSTATE: ".toList, [], rfl⟩, by decide⟩))

/-- Another violation loses a value, and a duplicate entry that the message starts
with stays in the queue. -/
theorem processResponse_exception_wrong :
    (processResponse 500 0 (.exception (some uniqueViolation) (some "Deadlock found".toList))
        ⟨[], [.tick 1], .initial⟩).values ≠
      afterException uniqueViolation "Deadlock found".toList [.tick 1] ∧
    (processResponse 500 0 (.exception (some uniqueViolation) (some duplicateEntry))
        ⟨[], [.tick 1], .initial⟩).values ≠
      afterException uniqueViolation duplicateEntry [.tick 1] := by
  decide +kernel

end VzLogger.Volkszaehler
