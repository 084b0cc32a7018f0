import VzLogger.InfluxDB.Model
import VzLogger.Lib.EventMachine

/-! # Failed requests

A channel with the InfluxDB interface, whole operations one after another, any
outcome.  The times of the pushed readings do not decrease, and the duplicates
option is off.

A reading is accounted for while it is in the buffer without a mark, or once it
was a line of an accepted request, or was dropped by the limit on the buffer.  A
call that fails takes back the marks, but not `_last_timestamp`: the next call
that finds readings older than it ignores and marks them, and they are lost
unless that call fails as well.
-/
namespace VzLogger.InfluxDB

/-- The channel, and the books: every pushed reading with its place, the
requests, and the readings dropped by the limit. -/
structure Retry where
  buf : Buffer
  filter : FilterState
  pushed : List (Node Reading)
  requests : List Request
  dropped : List (Node Reading)

inductive RetryEvent where
  | push (rd : Reading)
  /-- one call, with the outcome of its request; `none` if there is no curl
  handle and the call throws -/
  | send (outcome : Option (Int × Int))

namespace Retry

/-- A new channel, aggregation mode `none`. -/
def initial : Retry := ⟨Buffer.initial .none, FilterState.initial, [], [], []⟩

/-- The state after a call. -/
def sent (db : InfluxDB) (w : Retry) (curlCode httpCode : Int) : Retry :=
  let (filter, buf, request) := db.send curlCode httpCode w.filter w.buf
  { w with
    buf := buf
    filter := filter
    requests := w.requests ++ request.toList
    dropped := w.dropped ++ w.buf.sent.nodes.take (db.surplus w.buf.sent.nodes.length) }

/-- Every reading is constructed without a mark. -/
def step (db : InfluxDB) (w : Retry) : RetryEvent → Option Retry
  | .push rd =>
    if rd.deleted then none
    else some { w with buf := w.buf.push rd, pushed := w.pushed ++ [⟨w.buf.sent.next, rd⟩] }
  | .send none => some w
  | .send (some (curlCode, httpCode)) => some (sent db w curlCode httpCode)

/-- The channel as a machine. -/
def machine (db : InfluxDB) : EventMachine.Machine Retry RetryEvent := ⟨initial, step db⟩

/-- A line of an accepted request, or dropped by the limit. -/
def Gone (w : Retry) (p : Node Reading) : Prop :=
  (∃ q ∈ w.requests, success q.curlCode q.httpCode ∧ p ∈ q.lines) ∨ p ∈ w.dropped

/-- Nothing is lost. -/
def Accounted (w : Retry) : Prop :=
  ∀ p ∈ w.pushed, p ∈ Buffer.live w.buf.sent.nodes ∨ Gone w p

instance (w : Retry) (p : Node Reading) : Decidable (Gone w p) :=
  inferInstanceAs (Decidable (_ ∨ _))

instance (w : Retry) : Decidable (Accounted w) :=
  inferInstanceAs (Decidable (∀ p ∈ w.pushed, _))

/-- A call does no harm: it may not send at all, or what the limit leaves in the
buffer is not older than the last timestamp, or there is something to send and
the request fails. -/
def Harmless (db : InfluxDB) (w : Retry) : RetryEvent → Prop
  | .send (some (curlCode, httpCode)) =>
    db.maxBatchInserts ≤ 0 ∨
    (∀ it ∈ (db.trim w.buf).sent.nodes, w.filter.lastTimestamp ≤ it.val.timeMs) ∨
    ((∃ it ∈ (db.trim w.buf).sent.nodes, w.filter.lastTimestamp ≤ it.val.timeMs) ∧
      ¬success curlCode httpCode)
  | _ => True

/-- The times of the readings still to be pushed. -/
def pushedTimes (es : List RetryEvent) : List Int :=
  es.filterMap fun
    | .push rd => some rd.timeMs
    | .send _ => none

/-- While nothing is lost the buffer has no marks, is sorted by time, and holds
readings that were pushed and are not gone. -/
structure Inv (w : Retry) (es : List RetryEvent) : Prop where
  undeleted : ∀ it ∈ w.buf.sent.nodes, it.val.deleted = false
  sorted : (w.buf.sent.nodes.map (fun it => it.val.timeMs) ++ pushedTimes es).Pairwise (· ≤ ·)
  accounted : Accounted w
  pushed : ∀ it ∈ w.buf.sent.nodes, it ∈ w.pushed
  present : ∀ it ∈ w.buf.sent.nodes, ¬Gone w it
  older : ∀ it, Gone w it → it.addr < w.buf.sent.next

theorem inv_initial {es : List RetryEvent} (h : (pushedTimes es).Pairwise (· ≤ ·)) :
    Inv initial es where
  undeleted := by simp [initial, Buffer.initial]
  sorted := by simpa [initial, Buffer.initial] using h
  accounted := by simp [Accounted, initial]
  pushed := by simp [initial, Buffer.initial]
  present := by simp [initial, Buffer.initial]
  older := by simp [Gone, initial]

theorem inv_push {w : Retry} {rd : Reading} {es : List RetryEvent} (hrd : rd.deleted = false)
    (hw : Inv w (.push rd :: es)) :
    Inv { w with buf := w.buf.push rd, pushed := w.pushed ++ [⟨w.buf.sent.next, rd⟩] } es where
  undeleted := Buffer.forall_push (·.deleted = false) hw.undeleted hrd
  sorted := by
    have h := hw.sorted
    simpa [pushedTimes] using h
  accounted := by
    intro p hp
    rw [Buffer.push_nodes, Buffer.live_append, List.mem_append]
    rcases List.mem_append.mp hp with hp | hp
    · exact (hw.accounted p hp).imp_left Or.inl
    · refine Or.inl (Or.inr (Buffer.mem_live.mpr ⟨hp, ?_⟩))
      rw [List.mem_singleton.mp hp]
      exact hrd
  pushed := by
    intro it hit
    exact List.mem_append.mpr ((List.mem_append.mp hit).imp_left (hw.pushed it))
  present := by
    intro it hit hgone
    rcases List.mem_append.mp hit with hit | hit
    · exact hw.present it hit hgone
    · have hlt := hw.older it hgone
      rw [List.mem_singleton.mp hit] at hlt
      exact absurd hlt (Nat.lt_irrefl _)
  older := fun it hgone => Nat.lt_succ_of_lt (hw.older it hgone)

/-! ## What a call does -/

/-- Sorted by time, and nothing older than the last timestamp. -/
structure InOrder (filter : FilterState) (l : List (Node Reading)) : Prop where
  newer : ∀ it ∈ l, filter.lastTimestamp ≤ it.val.timeMs
  sorted : (l.map (fun it => it.val.timeMs)).Pairwise (· ≤ ·)

section Call
variable {db : InfluxDB} {w : Retry} {curlCode httpCode : Int}

/-- The readings gone after a call. -/
theorem gone_sent {p : Node Reading} : Gone (sent db w curlCode httpCode) p ↔
    Gone w p ∨ p ∈ w.buf.sent.nodes.take (db.surplus w.buf.sent.nodes.length) ∨
      (success curlCode httpCode ∧ p ∈ (db.built w.filter (db.trim w.buf)).taken) := by
  simp only [Gone, sent, send, List.mem_append]
  split
  · rename_i hnil
    rw [List.isEmpty_iff.mp hnil]
    simp only [Option.toList_none, List.not_mem_nil, or_false, and_false]
    exact or_assoc.symm
  · simp only [Option.toList_some, List.mem_singleton]
    constructor
    · rintro (⟨q, hq | rfl, hok, hp⟩ | hp)
      · exact Or.inl (Or.inl ⟨q, hq, hok, hp⟩)
      · exact Or.inr (Or.inr ⟨hok, hp⟩)
      · exact hp.elim (fun hp => Or.inl (Or.inr hp)) fun hp => Or.inr (Or.inl hp)
    · rintro ((⟨q, hq, hok, hp⟩ | hp) | hp | ⟨hok, hp⟩)
      · exact Or.inl ⟨q, Or.inl hq, hok, hp⟩
      · exact Or.inr (Or.inl hp)
      · exact Or.inr (Or.inr hp)
      · exact Or.inl ⟨_, Or.inr rfl, hok, hp⟩

/-- The buffer after a call: nothing sent, or sent and accepted, or sent in vain. -/
theorem sent_nodes (curlCode httpCode : Int)
    (h : ∀ it ∈ (db.trim w.buf).sent.nodes, it.val.deleted = false) :
    let d := db.built w.filter (db.trim w.buf)
    (sent db w curlCode httpCode).buf.sent.nodes =
      if d.taken = [] then ((db.trim w.buf).markFirst d.reached).sent.nodes
      else if success curlCode httpCode then (db.trim w.buf).sent.nodes.drop d.reached
      else (db.trim w.buf).sent.nodes := by
  intro d
  by_cases hnil : d.taken = []
  · have : (db.built w.filter (db.trim w.buf)).taken.isEmpty = true := List.isEmpty_iff.mpr hnil
    rw [if_pos hnil, sent, send]
    simp only [this, if_true]
    rfl
  · have : (db.built w.filter (db.trim w.buf)).taken.isEmpty = false := by simpa using hnil
    rw [if_neg hnil, sent, send]
    simp only [this, Bool.false_eq_true, if_false]
    by_cases hok : success curlCode httpCode
    · rw [if_pos hok, settle_success hok]
      exact Buffer.clean_markFirst_nodes h _
    · rw [if_neg hok, settle_failed hok]
      exact Buffer.undelete_markFirst_nodes h _

theorem sent_next : (sent db w curlCode httpCode).buf.sent.next = w.buf.sent.next := by
  unfold sent send settle
  dsimp only
  split
  · exact trim_next db w.buf
  · split <;> exact trim_next db w.buf

/-- The loop takes all it visits while no reading is older than the last
timestamp. -/
theorem taken_of_inOrder (hdup : db.duplicates = 0) {filter : FilterState} {buf : Buffer}
    (h : InOrder filter buf.sent.nodes) :
    (db.built filter buf).taken = buf.sent.nodes.take (db.built filter buf).reached := by
  refine drainLoop.taken_eq_take (fun f it rest hgood => ?_) 0 h
  obtain ⟨hle, hsorted⟩ := hgood
  refine ⟨{ f with lastTimestamp := it.val.timeMs }, ?_, ?_, ?_⟩
  · rw [accept, hdup, FilterState.accept_zero]
    simpa using hle it List.mem_cons_self
  · intro n hn
    exact (List.pairwise_cons.mp hsorted).1 _ (List.mem_map_of_mem hn)
  · exact (List.pairwise_cons.mp hsorted).2

/-- Something is taken exactly if some reading is not older than the last
timestamp. -/
theorem taken_ne_nil_iff (hdup : db.duplicates = 0) (hbatch : 0 < db.maxBatchInserts)
    {filter : FilterState} {buf : Buffer} : (db.built filter buf).taken ≠ [] ↔
      ∃ it ∈ buf.sent.nodes, filter.lastTimestamp ≤ it.val.timeMs := by
  rw [built, drainLoop.taken_ne_nil_iff (full_zero hbatch)]
  refine exists_congr fun it => and_congr_right fun _ => ?_
  rw [accept, hdup, FilterState.accept_zero]
  simp

/-- A harmless call takes readings off the front of the buffer, which are gone
then, and leaves the others. -/
theorem sent_of_harmless (hdup : db.duplicates = 0)
    (hundeleted : ∀ it ∈ w.buf.sent.nodes, it.val.deleted = false)
    (hsorted : (w.buf.sent.nodes.map (fun it => it.val.timeMs)).Pairwise (· ≤ ·))
    (h : Harmless db w (.send (some (curlCode, httpCode)))) :
    ∃ n, (sent db w curlCode httpCode).buf.sent.nodes = w.buf.sent.nodes.drop n ∧
      ∀ p, Gone (sent db w curlCode httpCode) p ↔ Gone w p ∨ p ∈ w.buf.sent.nodes.take n := by
  have htrim := trim_nodes db hundeleted
  have hundeleted' : ∀ it ∈ (db.trim w.buf).sent.nodes, it.val.deleted = false := by
    rw [htrim]
    exact fun it hit => hundeleted it (List.mem_of_mem_drop hit)
  have hsorted' : ((db.trim w.buf).sent.nodes.map (fun it => it.val.timeMs)).Pairwise (· ≤ ·) := by
    rw [htrim, List.map_drop]
    exact hsorted.sublist (List.drop_sublist _ _)
  have hnodes := sent_nodes curlCode httpCode hundeleted'
  -- nothing accepted, and the buffer as the limit left it
  have hkept (hn : (sent db w curlCode httpCode).buf.sent.nodes = (db.trim w.buf).sent.nodes)
      (hg : success curlCode httpCode → (db.built w.filter (db.trim w.buf)).taken = []) :
      ∃ n, (sent db w curlCode httpCode).buf.sent.nodes = w.buf.sent.nodes.drop n ∧
        ∀ p, Gone (sent db w curlCode httpCode) p ↔ Gone w p ∨ p ∈ w.buf.sent.nodes.take n := by
    refine ⟨_, hn.trans htrim, fun p => ?_⟩
    rw [gone_sent]
    refine or_congr_right (or_iff_left ?_)
    rintro ⟨hok, hp⟩
    rw [hg hok] at hp
    cases hp
  by_cases hnil : (db.built w.filter (db.trim w.buf)).taken = []
  · refine hkept ?_ fun _ => hnil
    rw [hnodes, if_pos hnil, Buffer.markFirst_nodes]
    have htake : (db.trim w.buf).sent.nodes.take
        (db.built w.filter (db.trim w.buf)).reached = [] := by
      by_cases hbatch : db.maxBatchInserts ≤ 0
      · rw [built_of_full hbatch, List.take_zero]
      · rcases h with h | h | ⟨h, -⟩
        · exact absurd h hbatch
        · rw [← taken_of_inOrder hdup ⟨h, hsorted'⟩]
          exact hnil
        · exact absurd hnil ((taken_ne_nil_iff hdup (by omega)).mpr h)
    have hsplit := List.take_append_drop (db.built w.filter (db.trim w.buf)).reached
      (db.trim w.buf).sent.nodes
    rw [htake] at hsplit ⊢
    exact hsplit
  · by_cases hok : success curlCode httpCode
    · have hle : ∀ it ∈ (db.trim w.buf).sent.nodes, w.filter.lastTimestamp ≤ it.val.timeMs := by
        rcases h with h | h | ⟨-, h⟩
        · exact absurd (by rw [built_of_full h]) hnil
        · exact h
        · exact absurd hok h
      have htaken := taken_of_inOrder hdup ⟨hle, hsorted'⟩
      refine ⟨db.surplus w.buf.sent.nodes.length +
        (db.built w.filter (db.trim w.buf)).reached, ?_, fun p => ?_⟩
      · rw [hnodes, if_neg hnil, if_pos hok, htrim, List.drop_drop]
      · rw [gone_sent, htaken, htrim, List.take_add, List.mem_append]
        simp only [hok, true_and]
    · refine hkept ?_ fun h => absurd h hok
      rw [hnodes, if_neg hnil, if_neg hok]

/-- Any other call loses the first reading in the buffer. -/
theorem sent_of_not_harmless (hdup : db.duplicates = 0)
    (hundeleted : ∀ it ∈ w.buf.sent.nodes, it.val.deleted = false)
    (hsorted : (w.buf.sent.nodes.map (fun it => it.val.timeMs)).Pairwise (· ≤ ·))
    (h : ¬Harmless db w (.send (some (curlCode, httpCode)))) :
    ∃ p ∈ w.buf.sent.nodes, p ∉ Buffer.live (sent db w curlCode httpCode).buf.sent.nodes ∧
      (Gone (sent db w curlCode httpCode) p → Gone w p) := by
  have htrim := trim_nodes db hundeleted
  have hundeleted' : ∀ it ∈ (db.trim w.buf).sent.nodes, it.val.deleted = false := by
    rw [htrim]
    exact fun it hit => hundeleted it (List.mem_of_mem_drop hit)
  have hnodes := sent_nodes curlCode httpCode hundeleted'
  simp only [Harmless, not_or, not_and, not_not, not_le, not_forall] at h
  obtain ⟨hbatch, ⟨it, hit, hold⟩, hok⟩ := h
  obtain ⟨p, rest, hl⟩ := List.exists_cons_of_ne_nil (List.ne_nil_of_mem hit)
  have hp : p ∈ w.buf.sent.nodes := List.mem_of_mem_drop (htrim ▸ hl ▸ List.mem_cons_self)
  have hnodup : (p :: rest).Nodup := hl ▸ List.Nodup.of_map _ (db.trim w.buf).sent.nodup
  have hrest : p ∉ rest := (List.nodup_cons.mp hnodup).1
  -- the first reading is as old, so the loop ignores and marks it
  have hpold : p.val.timeMs < w.filter.lastTimestamp := by
    rw [htrim] at hl
    have hs : ((p :: rest).map (fun it => it.val.timeMs)).Pairwise (· ≤ ·) := by
      rw [← hl, List.map_drop]
      exact hsorted.sublist (List.drop_sublist _ _)
    rw [htrim, hl] at hit
    rcases List.mem_cons.mp hit with rfl | hit
    · exact hold
    · exact lt_of_le_of_lt ((List.pairwise_cons.mp hs).1 _ (List.mem_map_of_mem hit)) hold
  have hignored : db.accept w.filter p.val = none := by
    rw [accept, hdup, FilterState.accept_zero]
    simpa using hpold
  let d := drainLoop db.accept db.full w.filter 0 rest
  have hbuilt : db.built w.filter (db.trim w.buf) = ⟨d.filter, d.taken, d.reached + 1⟩ := by
    rw [built, hl, drainLoop.cons_ignored (full_zero hbatch) hignored]
  have hmarked : p ∉ (db.trim w.buf).sent.nodes.drop
      (db.built w.filter (db.trim w.buf)).reached := by
    rw [hbuilt, hl, List.drop_succ_cons]
    exact fun hp => hrest (List.mem_of_mem_drop hp)
  refine ⟨p, hp, ?_, ?_⟩
  · intro hlive
    have hlive := Buffer.mem_live.mp hlive
    rw [hnodes] at hlive
    split at hlive
    · rcases List.mem_append.mp hlive.1 with hm | hm
      · obtain ⟨n, -, rfl⟩ := List.mem_map.mp hm
        cases hlive.2
      · exact hmarked hm
    · rename_i htaken
      rw [if_pos (hok ((taken_ne_nil_iff hdup hbatch).mp htaken))] at hlive
      exact hmarked hlive.1
  · rw [gone_sent]
    rintro (hgone | hdropped | ⟨-, htaken⟩)
    · exact hgone
    · have hdisj := List.disjoint_take_drop (List.Nodup.of_map _ w.buf.sent.nodup)
        (Nat.le_refl (db.surplus w.buf.sent.nodes.length))
      exact absurd (htrim ▸ hl ▸ List.mem_cons_self) (hdisj hdropped)
    · rw [hbuilt] at htaken
      exact absurd (List.mem_of_mem_take ((drainLoop.taken_sublist _ _ _).subset htaken)) hrest

end Call

/-! ## Runs -/

/-- A harmless call takes the first readings off the list, and these are gone. -/
theorem inv_sent {db : InfluxDB} (hdup : db.duplicates = 0) {w : Retry} {curlCode httpCode : Int}
    {es : List RetryEvent} (hw : Inv w (.send (some (curlCode, httpCode)) :: es))
    (he : Harmless db w (.send (some (curlCode, httpCode)))) :
    Inv (sent db w curlCode httpCode) es := by
  have hsorted := List.pairwise_append.mp hw.sorted
  obtain ⟨n, hnodes, hgone⟩ := sent_of_harmless hdup hw.undeleted hsorted.1 he
  have hsub : ∀ it ∈ (sent db w curlCode httpCode).buf.sent.nodes, it ∈ w.buf.sent.nodes := by
    rw [hnodes]
    exact fun it => List.mem_of_mem_drop
  refine ⟨fun it hit => hw.undeleted it (hsub it hit), ?_, ?_,
    fun it hit => hw.pushed it (hsub it hit), ?_, ?_⟩
  · rw [hnodes, List.map_drop]
    exact hw.sorted.sublist ((List.drop_sublist _ _).append_right _)
  · intro p hp
    rcases hw.accounted p hp with hlive | hg
    · -- a reading that was there is taken or stays
      have hmem := (Buffer.mem_live.mp hlive).1
      rw [← List.take_append_drop n w.buf.sent.nodes] at hmem
      rcases List.mem_append.mp hmem with htake | hdrop
      · exact Or.inr ((hgone p).mpr (Or.inr htake))
      · exact Or.inl (Buffer.mem_live.mpr ⟨hnodes ▸ hdrop, (Buffer.mem_live.mp hlive).2⟩)
    · exact Or.inr ((hgone p).mpr (Or.inl hg))
  · intro it hit hg
    rcases (hgone it).mp hg with hg | htake
    · exact hw.present it (hsub it hit) hg
    · have hnodup := List.Nodup.of_map _ w.buf.sent.nodup
      have hdisj := List.disjoint_take_drop hnodup (Nat.le_refl n)
      exact hdisj htake (hnodes ▸ hit)
  · intro it hg
    rw [sent_next]
    rcases (hgone it).mp hg with hg | htake
    · exact hw.older it hg
    · exact w.buf.sent.fresh it (List.mem_of_mem_take htake)

theorem inv_step {db : InfluxDB} (hdup : db.duplicates = 0) {w t : Retry} {e : RetryEvent}
    {es : List RetryEvent} (hw : Inv w (e :: es)) (he : Harmless db w e)
    (h : step db w e = some t) : Inv t es := by
  cases e with
  | push rd =>
    obtain ⟨hrd, h⟩ := Option.ite_none_left_eq_some.mp h
    obtain rfl := Option.some.inj h
    exact inv_push (by simpa using hrd) hw
  | send outcome =>
    match outcome with
    | none =>
      obtain rfl := Option.some.inj h
      exact ⟨hw.undeleted, hw.sorted, hw.accounted, hw.pushed, hw.present, hw.older⟩
    | some (curlCode, httpCode) =>
      obtain rfl := Option.some.inj h
      exact inv_sent hdup hw he

/-- **When nothing is lost.**  In a run with times that do not decrease, every
reading stays accounted for exactly if every call is harmless. -/
theorem accounted_iff_harmless (db : InfluxDB) (hdup : db.duplicates = 0) (es : List RetryEvent)
    (hes : (pushedTimes es).Pairwise (· ≤ ·)) :
    (machine db).Throughout Accounted initial es ↔
      (machine db).EachStep (Harmless db) initial es := by
  have hP : ∀ w es, Inv w es → Accounted w := fun _ _ hw => hw.accounted
  have hkeep : ∀ w e es t, Inv w (e :: es) → Harmless db w e → (machine db).step w e = some t →
      Inv t es := fun _ _ _ _ hw he h => inv_step hdup hw he h
  have hbreak : ∀ w e es t, Inv w (e :: es) → ¬Harmless db w e → (machine db).step w e = some t →
      ¬Accounted t := by
    intro w e es t hw he h
    match e with
    | .push rd => exact absurd trivial he
    | .send none => exact absurd trivial he
    | .send (some (curlCode, httpCode)) =>
      obtain rfl := Option.some.inj h
      obtain ⟨p, hp, hlive, hgone⟩ :=
        sent_of_not_harmless hdup hw.undeleted (List.pairwise_append.mp hw.sorted).1 he
      intro hacc
      rcases hacc p (hw.pushed p hp) with h | h
      · exact hlive h
      · exact hw.present p hp (hgone h)
  exact EventMachine.Machine.throughout_iff_eachStep hP hkeep hbreak (inv_initial hes)

/-- A request for two readings fails, the next one is accepted. -/
def failedThenAccepted : List RetryEvent :=
  [.push (.tick 1), .push (.tick 2), .send (some (0, 500)), .send (some (0, 204))]

theorem accounted_iff_harmless_defaults :
    (machine defaults).Throughout Accounted initial failedThenAccepted ↔
      (machine defaults).EachStep (Harmless defaults) initial failedThenAccepted :=
  accounted_iff_harmless defaults rfl failedThenAccepted (by decide)

/-- The accepted request holds the second reading only, and the first one is gone. -/
theorem failedThenAccepted_loses :
    ∃ w, (machine defaults).run initial failedThenAccepted = some w ∧
      ⟨0, .tick 1⟩ ∈ w.pushed ∧ ¬Accounted w := by
  exact EventMachine.Machine.exists_run_of_any (by decide +kernel)

end Retry
end VzLogger.InfluxDB
