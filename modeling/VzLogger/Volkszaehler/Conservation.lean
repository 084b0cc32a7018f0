import VzLogger.Volkszaehler.Upload

/-! # No reading is lost or repeated between the queue and the middleware

The queue `_values` is filled by the drain and emptied by the answers.  In every
run in which no error response is taken for a duplicate entry, what the filter
let pass is what the answers removed, followed by what is still queued; and an
answer removes values only if its status is 200, and then exactly those that the
body of its own call lists.
-/
namespace VzLogger.Volkszaehler

/-- The request was answered with status 200. -/
def Call.Ok (c : Call) : Prop := c.errCode = 0 ∧ c.httpCode = 200

/-- What an answered call did to the queue: it took values off the front, only
after status 200 and only values its body lists. -/
structure Call.Settled (c : Call) : Prop where
  front : c.before = c.removed ++ c.after
  listed : c.removed ≠ [] → c.Ok ∧ Lists c.body c.removed
  failed : ¬c.Ok → c.after = c.before

/-- An answer that leaves the queue alone removes nothing. -/
theorem Call.settled_of_untouched {c : Call} (hafter : c.after = c.before) : c.Settled := by
  have hremoved : c.removed = [] := by simp [Call.removed, hafter]
  refine ⟨?_, fun hne => absurd hremoved hne, fun _ => hafter⟩
  rw [hremoved, hafter, List.nil_append]

theorem Call.settled_of_ok {c : Call} (h : c.Ok) (hafter : c.after = c.before.drop maxChunkSize)
    (hlists : c.before ≠ [] → Lists c.body (chunk c.before)) : c.Settled := by
  have hremoved : c.removed = chunk c.before := by
    rw [Call.removed, hafter, chunk, List.length_drop, List.take_eq_take_iff]
    omega
  refine ⟨?_, ?_, fun hn => absurd h hn⟩
  · rw [hremoved, hafter, chunk, List.take_append_drop]
  · rw [hremoved]
    intro hne
    exact ⟨h, hlists fun hnil => hne (by rw [hnil]; rfl)⟩

namespace Upload

/-- No error response is recognised as a duplicate-entry exception. -/
def NoDuplicateEntry : UploadEvent → Prop
  | .respond _ _ reply => isDuplicateEntry reply = false
  | _ => True

/-- The books agree with the queue. -/
structure Accounts (w : Upload) : Prop where
  accepted : w.accepted = w.removed ++ w.vz.values
  removed : w.removed = (w.calls.map Call.removed).flatten
  posted : ∀ body, w.pc = .posted body → w.vz.values ≠ [] → Lists body (chunk w.vz.values)
  calls : ∀ c ∈ w.calls, c.Settled

theorem accounts_initial : Accounts initial where
  accepted := rfl
  removed := rfl
  posted := by
    intro body h
    cases h
  calls := by simp [initial]

theorem accounts_step {duplicates : Int} {w t : Upload} {e : UploadEvent} (hw : Accounts w)
    (he : NoDuplicateEntry e) (h : step duplicates w e = some t) : Accounts t := by
  have hbooked : t.accepted = t.removed ++ t.vz.values := booked_step hw.accepted h
  obtain ⟨haccepted, hremoved, hposted, hcalls⟩ := hw
  cases e with
  | push rd | clean =>
    obtain rfl := Option.some.inj h
    exact ⟨hbooked, hremoved, hposted, hcalls⟩
  | send =>
    simp only [step] at h
    split at h
    · obtain rfl := Option.some.inj h
      split
      · exact ⟨haccepted, hremoved, hposted, hcalls⟩
      · exact ⟨haccepted, hremoved, by simp, hcalls⟩
    · cases h
  | drain =>
    simp only [step] at h
    split at h
    · obtain rfl := Option.some.inj h
      exact ⟨hbooked, hremoved, by simp, hcalls⟩
    · cases h
  | post session =>
    simp only [step] at h
    split at h
    · split at h
      · obtain rfl := Option.some.inj h
        exact ⟨hbooked, hremoved, by simp, hcalls⟩
      · obtain rfl := Option.some.inj h
        refine ⟨hbooked, hremoved, ?_, hcalls⟩
        intro body hpc hne
        obtain rfl := SendPc.posted.inj hpc
        rw [format_values] at hne ⊢
        rw [format_outputData hne]
        exact lists_body hne
    · cases h
  | respond httpCode errCode reply =>
    simp only [step] at h
    split at h
    · rename_i body hpc
      obtain rfl := Option.some.inj h
      -- the queue is as it was when the body was posted
      have hlists := hposted body hpc
      have hcall : Call.Settled ⟨body, httpCode, errCode, w.vz.values,
          (processResponse httpCode errCode reply w.vz).values⟩ := by
        by_cases hok : errCode = 0 ∧ httpCode = 200
        · obtain ⟨rfl, rfl⟩ := hok
          exact Call.settled_of_ok ⟨rfl, rfl⟩ (processResponse_ok reply w.vz) hlists
        · refine Call.settled_of_untouched ?_
          rw [processResponse_failed hok he]
      refine ⟨hbooked, ?_, by simp, ?_⟩
      · simp [hremoved]
      · intro c hc
        rcases List.mem_append.mp hc with hc | hc
        · exact hcalls c hc
        · rw [List.mem_singleton.mp hc]
          exact hcall
    · cases h

/-- **Conservation.**  In every run without duplicate-entry responses, the
readings the filter let pass are those removed from the queue followed by those
in it; and every answered call removed what it should. -/
theorem accepted_eq_removed_append_values (duplicates : Int) {es : List UploadEvent} {w : Upload}
    (hrun : (machine duplicates).run initial es = some w) (hes : ∀ e ∈ es, NoDuplicateEntry e) :
    w.accepted = w.removed ++ w.vz.values ∧
      w.removed = (w.calls.map Call.removed).flatten ∧ ∀ c ∈ w.calls, c.Settled := by
  have hw : Accounts w := EventMachine.Machine.run_induction_of_forall hrun hes accounts_initial
    fun _ _ _ hs he hst => accounts_step hs he hst
  exact ⟨hw.accepted, hw.removed, hw.calls⟩

/-- A reading acknowledged, and one whose request failed. -/
def tickRun : List UploadEvent :=
  .push (.tick 1) :: sendOk ++
    [.push (.tick 2), .send, .drain, .push (.tick 3), .post true, .respond 500 0 .error]

theorem accepted_eq_removed_append_values_tick :
    ∃ w, (machine 0).run initial tickRun = some w ∧
      w.removed = [.tick 1] ∧ w.vz.values = [.tick 2] ∧ w.accepted = w.removed ++ w.vz.values ∧
      w.removed = (w.calls.map Call.removed).flatten ∧ ∀ c ∈ w.calls, c.Settled := by
  obtain ⟨w, hw, hremoved, hvalues⟩ : ∃ w, (machine 0).run initial tickRun = some w ∧
      w.removed = [.tick 1] ∧ w.vz.values = [.tick 2] :=
    EventMachine.Machine.exists_run_of_any (by decide +kernel)
  have hes : ∀ e ∈ tickRun, NoDuplicateEntry e := by
    simp only [tickRun, sendOk, List.cons_append, List.nil_append, List.forall_mem_cons]
    refine ⟨trivial, trivial, trivial, trivial, rfl, trivial, trivial, trivial, trivial, trivial,
      rfl, by simp⟩
  exact ⟨w, hw, hremoved, hvalues, accepted_eq_removed_append_values 0 hw hes⟩

end Upload
end VzLogger.Volkszaehler
