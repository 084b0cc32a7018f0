import VzLogger.Volkszaehler.Body
import VzLogger.Lib.EventMachine

/-! # Uploads of a channel, with its reading thread

One channel of the curl build: the reading thread pushes readings into the
buffer and cleans it, the logging thread runs `send()`, call after call.  The
steps of `send()` are its critical sections and its request; between any two of
them the reading thread may run.

Beside the program's state, an `Upload` keeps the books: the readings the filter
let pass, the readings removed from the queue, and one record for each request
and for each finished call.
-/
namespace VzLogger.Volkszaehler

/-- Where `send()` stands. -/
inductive SendPc where
  | idle
  /-- the buffer was seen non-empty -/
  | checked
  /-- the readings are in the queue; the state at the drain is kept for the books -/
  | drained (vz : Volkszaehler) (buf : Buffer)
  | posted (body : List Char)

/-- A request: its body, the queue in the call that posted it, and what that call
found when it drained the buffer. -/
structure Post where
  body : List Char
  values : List Reading
  vz : Volkszaehler
  buf : Buffer

/-- A call whose request was answered: the body, the outcome, and the queue
before and after the answer was processed. -/
structure Call where
  body : List Char
  httpCode : Int
  errCode : Int
  before : List Reading
  after : List Reading

/-- What the answer took off the front of the queue. -/
def Call.removed (c : Call) : List Reading := c.before.take (c.before.length - c.after.length)

structure Upload where
  buf : Buffer
  vz : Volkszaehler
  pc : SendPc
  accepted : List Reading
  removed : List Reading
  posts : List Post
  calls : List Call

inductive UploadEvent where
  | push (rd : Reading)
  /-- the reading thread's `clean` -/
  | clean
  | send
  | drain
  /-- the rest of `api_json_tuples`, and the request, if there is a curl session -/
  | post (session : Bool)
  | respond (httpCode errCode : Int) (reply : JsonReply)

namespace Upload

/-- A new channel, aggregation mode `none`. -/
def initial : Upload :=
  ⟨Buffer.initial .none, Volkszaehler.initial, .idle, [], [], [], []⟩

def step (duplicates : Int) (w : Upload) : UploadEvent → Option Upload
  | .push rd => some { w with buf := w.buf.push rd }
  | .clean => some { w with buf := w.buf.clean }
  | .send =>
    match w.pc with
    | .idle => some (if w.buf.isEmpty then w else { w with pc := .checked })
    | _ => none
  | .drain =>
    match w.pc with
    | .checked =>
      some { w with
        vz := (Volkszaehler.drain duplicates w.vz w.buf).1
        buf := (Volkszaehler.drain duplicates w.vz w.buf).2
        pc := .drained w.vz w.buf
        accepted := w.accepted ++ (drained duplicates w.vz w.buf).taken.map Node.val }
    | _ => none
  | .post session =>
    match w.pc with
    | .drained vz buf =>
      let w := { w with buf := w.buf.clean, vz := format w.vz, pc := .idle }
      if w.vz.outputData = "null".toList ∨ session = false then some w
      else some { w with
        pc := .posted w.vz.outputData
        posts := w.posts ++ [⟨w.vz.outputData, w.vz.values, vz, buf⟩] }
    | _ => none
  | .respond httpCode errCode reply =>
    match w.pc with
    | .posted body =>
      let vz := processResponse httpCode errCode reply w.vz
      let call : Call := ⟨body, httpCode, errCode, w.vz.values, vz.values⟩
      some { w with
        vz := vz
        pc := .idle
        removed := w.removed ++ call.removed
        calls := w.calls ++ [call] }
    | _ => none

/-- The channel as a machine. -/
def machine (duplicates : Int) : EventMachine.Machine Upload UploadEvent :=
  ⟨initial, step duplicates⟩

/-! ## What was let pass -/

/-- An answer takes readings off the front of the queue, if any. -/
theorem processResponse_suffix (httpCode errCode : Int) (reply : JsonReply) (vz : Volkszaehler) :
    (processResponse httpCode errCode reply vz).values <:+ vz.values := by
  unfold processResponse apiParseException
  split_ifs
  · exact List.nil_suffix
  · exact List.drop_suffix _ _
  · exact List.suffix_rfl
  · exact List.tail_suffix _
  · exact List.suffix_rfl

/-- The readings that the filter let pass were removed from the queue, or are in it. -/
def Booked (w : Upload) : Prop := w.accepted = w.removed ++ w.vz.values

theorem booked_step {duplicates : Int} {w t : Upload} {e : UploadEvent} (hw : Booked w)
    (h : step duplicates w e = some t) : Booked t := by
  unfold Booked at *
  cases e with
  | push rd | clean =>
    obtain rfl := Option.some.inj h
    exact hw
  | send =>
    simp only [step] at h
    split at h
    · obtain rfl := Option.some.inj h
      split
      · exact hw
      · exact hw
    · cases h
  | drain =>
    simp only [step] at h
    split at h
    · obtain rfl := Option.some.inj h
      simp only [drain_values, hw, List.append_assoc]
    · cases h
  | post session =>
    simp only [step] at h
    split at h
    · split at h
      · obtain rfl := Option.some.inj h
        simpa using hw
      · obtain rfl := Option.some.inj h
        simpa using hw
    · cases h
  | respond httpCode errCode reply =>
    simp only [step] at h
    split at h
    · obtain rfl := Option.some.inj h
      obtain ⟨front, hfront⟩ := processResponse_suffix httpCode errCode reply w.vz
      have hremoved : w.vz.values.take (w.vz.values.length -
          (processResponse httpCode errCode reply w.vz).values.length) = front := by
        rw [← hfront, List.length_append, Nat.add_sub_cancel, List.take_left]
      simp only [Call.removed]
      rw [hremoved, List.append_assoc, hfront, hw]
    · cases h

/-! ## Fresh bodies -/

/-- The body lists the first chunk of the queue as it stands in that very call. -/
def Fresh (p : Post) : Prop := Lists p.body (chunk p.values)

/-- The drain found something to send: values in the queue, or a reading in the
buffer that the filter lets pass. -/
def Feeds (duplicates : Int) (vz : Volkszaehler) (buf : Buffer) : Prop :=
  vz.values ≠ [] ∨ ∃ it ∈ buf.sent.nodes, accept duplicates vz.filter it.val ≠ none

/-- `outputData` has never been written, or is the body of some non-empty queue. -/
def Stale (vz : Volkszaehler) : Prop :=
  vz.outputData = [] ∨ ∃ values, values ≠ [] ∧ vz.outputData = body values

/-- A stale text lists at least one reading, or is no list at all. -/
theorem Stale.not_lists_nil {vz : Volkszaehler} (h : Stale vz) : ¬Lists vz.outputData [] := by
  rcases h with h | ⟨values, hne, h⟩
  · rw [h]
    exact not_lists_empty []
  · rw [h]
    exact not_lists_body_nil hne

theorem stale_format {vz : Volkszaehler} (h : Stale vz) : Stale (format vz) := by
  by_cases hv : vz.values = []
  · rw [format_of_nil hv]
    exact h
  · exact Or.inr ⟨vz.values, hv, format_outputData hv⟩

/-- What the books and the stale member say about bodies. -/
structure FreshInv (duplicates : Int) (w : Upload) : Prop where
  stale : Stale w.vz
  drained : ∀ vz buf, w.pc = .drained vz buf → (w.vz.values ≠ [] ↔ Feeds duplicates vz buf)
  posts : ∀ p ∈ w.posts, Fresh p ↔ Feeds duplicates p.vz p.buf

theorem freshInv_initial (duplicates : Int) : FreshInv duplicates initial where
  stale := Or.inl rfl
  drained := by
    intro vz buf h
    cases h
  posts := by simp [initial]

theorem freshInv_step {duplicates : Int} {w t : Upload} {e : UploadEvent}
    (hw : FreshInv duplicates w) (h : step duplicates w e = some t) : FreshInv duplicates t := by
  obtain ⟨hstale, hdrained, hposts⟩ := hw
  cases e with
  | push rd =>
    obtain rfl := Option.some.inj h
    exact ⟨hstale, hdrained, hposts⟩
  | clean =>
    obtain rfl := Option.some.inj h
    exact ⟨hstale, hdrained, hposts⟩
  | send =>
    simp only [step] at h
    split at h
    · obtain rfl := Option.some.inj h
      split
      · exact ⟨hstale, hdrained, hposts⟩
      · exact ⟨hstale, by simp, hposts⟩
    · cases h
  | drain =>
    simp only [step] at h
    split at h
    · obtain rfl := Option.some.inj h
      -- the books remember the queue and the buffer that the drain has found
      refine ⟨hstale, ?_, hposts⟩
      intro vz buf hpc
      obtain ⟨rfl, rfl⟩ := SendPc.drained.inj hpc
      exact drain_values_ne_nil_iff duplicates w.vz w.buf
    · cases h
  | post session =>
    simp only [step] at h
    split at h
    · rename_i vz buf hpc
      have hfed := hdrained vz buf hpc
      have hstale' := stale_format hstale
      split at h
      · obtain rfl := Option.some.inj h
        exact ⟨hstale', by simp, hposts⟩
      · obtain rfl := Option.some.inj h
        refine ⟨hstale', by simp, ?_⟩
        intro p hp
        rcases List.mem_append.mp hp with hp | hp
        · exact hposts p hp
        · obtain rfl := List.mem_singleton.mp hp
          rw [← hfed, Fresh, format_values]
          constructor
          · -- an empty queue leaves an older text in place
            intro hbody hv
            rw [hv] at hbody
            exact hstale'.not_lists_nil hbody
          · intro hv
            rw [format_outputData hv]
            exact lists_body hv
    · cases h
  | respond httpCode errCode reply =>
    simp only [step] at h
    split at h
    · obtain rfl := Option.some.inj h
      refine ⟨?_, by simp, hposts⟩
      rw [Stale, processResponse_outputData]
      exact hstale
    · cases h

/-- **When a body is fresh.**  In every run, a request lists the first chunk of
the queue of its own call exactly if that call's drain found something to send. -/
theorem posts_fresh_iff (duplicates : Int) {es : List UploadEvent} {w : Upload}
    (hrun : (machine duplicates).run initial es = some w) :
    ∀ p ∈ w.posts, Fresh p ↔ Feeds duplicates p.vz p.buf :=
  (EventMachine.Machine.run_induction hrun (freshInv_initial duplicates)
    fun _ _ _ hw hstep => freshInv_step hw hstep).posts

/-- A call of `send()` whose request is answered with status 200. -/
def sendOk : List UploadEvent := [.send, .drain, .post true, .respond 200 0 .missing]

theorem posts_fresh_iff_tick : ∃ w, (machine 0).run initial (.push (.tick 1) :: sendOk) = some w ∧
    w.posts ≠ [] ∧ ∀ p ∈ w.posts, Fresh p ↔ Feeds 0 p.vz p.buf :=
  ⟨_, rfl, by simp, posts_fresh_iff 0
    (rfl : (machine 0).run initial (.push (.tick 1) :: sendOk) = some _)⟩

/-- With `duplicates` 60, a second reading of the same value is suppressed: the
next call finds nothing to send, and posts the body that was acknowledged. -/
theorem acknowledged_body_posted_again :
    ∃ w, (machine 60).run initial (.push (.tick 1) :: sendOk ++
        [.push (.tick 2), .send, .drain, .post true]) = some w ∧
      ∃ p ∈ w.posts, p.values = [] ∧ p.body = body [.tick 1] ∧ ¬Fresh p := by
  refine ⟨_, rfl, ⟨body [.tick 1], [], _, _⟩, List.mem_append_right _ (List.mem_singleton_self _),
    rfl, rfl, ?_⟩
  exact not_lists_body_nil (by simp)

end Upload
end VzLogger.Volkszaehler
