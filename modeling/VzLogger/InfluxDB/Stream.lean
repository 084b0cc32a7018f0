import VzLogger.InfluxDB.Retry

/-! # The stream of requests

The same channel with any duplicates setting, and readings pushed in any order of
their times.  Taken over all requests, the timestamps of the lines never go back;
no request grows beyond its limit, and none repeats a line of an accepted one.

A call marks what it visits.  The marks go with the answer, except where there was
nothing to send: then they stay, on readings at the front of the buffer that the
filter ignores, and goes on ignoring until it takes another one.
-/
namespace VzLogger.InfluxDB.Retry

/-! ## What is to hold -/

/-- The timestamps of all lines, in the order sent. -/
def timestamps (w : Retry) : List Int :=
  w.requests.flatMap fun q => q.lines.map fun it => it.val.timeMs

/-- What the next call does not come to: it stops when its request is full. -/
def unreached (db : InfluxDB) (w : Retry) : List (Node Reading) :=
  (db.trim w.buf).sent.nodes.drop (db.built w.filter (db.trim w.buf)).reached

/-- A request does not share a line with another one. -/
def Apart (q q' : Request) : Prop := ∀ it ∈ q.lines, ∀ n ∈ q'.lines, n.addr ≠ it.addr

structure RequestStream (db : InfluxDB) (w : Retry) : Prop where
  posted : ∀ q ∈ w.requests, q.requestBody = db.requestBody q.lines
  nondecreasing : (timestamps w).Pairwise (· ≤ ·)
  bounded : ∀ q ∈ w.requests, (q.lines.length : Int) ≤ db.maxBatchInserts
  acknowledged : w.requests.Pairwise fun q q' => success q.curlCode q.httpCode → Apart q q'
  unreached : ∀ outcome t, step db w (.send (some outcome)) = some t →
    ∀ it ∈ unreached db w, it ∈ t.buf.sent.nodes ∧ it.val.deleted = false

/-! ## What a call does -/

/-- Behind some readings that the filter ignores, none has a mark. -/
def MarksIgnored (db : InfluxDB) (filter : FilterState) (l : List (Node Reading)) : Prop :=
  ∃ old new, l = old ++ new ∧ (∀ it ∈ old, db.accept filter it.val = none) ∧
    ∀ it ∈ new, it.val.deleted = false

section Call
variable {db : InfluxDB} {w t : Retry} {curlCode httpCode : Int}

theorem marksIgnored_of_undeleted {filter : FilterState} {l : List (Node Reading)}
    (h : ∀ it ∈ l, it.val.deleted = false) : MarksIgnored db filter l :=
  ⟨[], l, rfl, by simp, h⟩

theorem MarksIgnored.trim {filter : FilterState} {buf : Buffer}
    (h : MarksIgnored db filter buf.sent.nodes) :
    MarksIgnored db filter (db.trim buf).sent.nodes := by
  unfold InfluxDB.trim
  split
  · exact marksIgnored_of_undeleted (Buffer.clean_undeleted _)
  · exact h

/-- What is not reached has no mark. -/
theorem MarksIgnored.undeleted_drop (hbatch : 0 < db.maxBatchInserts) {filter : FilterState}
    {buf : Buffer} (h : MarksIgnored db filter buf.sent.nodes) :
    ∀ it ∈ buf.sent.nodes.drop (db.built filter buf).reached, it.val.deleted = false := by
  obtain ⟨old, new, hnodes, hold, hnew⟩ := h
  intro it hit
  have hreached := drainLoop.append_ignored (full_zero hbatch) hold new
  rw [built, hnodes, hreached, List.drop_length_add_append] at hit
  exact hnew it (List.mem_of_mem_drop hit)

/-- The limit only takes readings away. -/
theorem trim_sublist (db : InfluxDB) (buf : Buffer) :
    (db.trim buf).sent.nodes.Sublist buf.sent.nodes := by
  unfold InfluxDB.trim
  split
  · rw [Buffer.clean_nodes, Buffer.markFirst_nodes, Buffer.live_append, Buffer.live_map_markDelete,
      List.nil_append]
    exact (List.filter_sublist).trans (List.drop_sublist _ _)
  · exact List.Sublist.refl _

/-- A call that takes nothing, one whose request is accepted, and one whose request
fails. -/
inductive Call (db : InfluxDB) (w : Retry) (curlCode httpCode : Int) (t : Retry) : Prop
  | nothing (htaken : (db.built w.filter (db.trim w.buf)).taken = [])
      (hfilter : t.filter = w.filter) (hrequests : t.requests = w.requests)
      (hbuf : t.buf = db.build w.filter (db.trim w.buf))
  | accepted (hok : success curlCode httpCode)
      (hfilter : t.filter = (db.built w.filter (db.trim w.buf)).filter)
      (hrequests : t.requests = w.requests ++ [⟨(db.built w.filter (db.trim w.buf)).taken,
        db.requestBody (db.built w.filter (db.trim w.buf)).taken, curlCode, httpCode⟩])
      (hbuf : t.buf = (db.build w.filter (db.trim w.buf)).clean)
  | failed (hfail : ¬success curlCode httpCode)
      (hfilter : t.filter = (db.built w.filter (db.trim w.buf)).filter)
      (hrequests : t.requests = w.requests ++ [⟨(db.built w.filter (db.trim w.buf)).taken,
        db.requestBody (db.built w.filter (db.trim w.buf)).taken, curlCode, httpCode⟩])
      (hbuf : t.buf = (db.build w.filter (db.trim w.buf)).undelete)

theorem call_sent (db : InfluxDB) (w : Retry) (curlCode httpCode : Int) :
    Call db w curlCode httpCode (sent db w curlCode httpCode) := by
  by_cases htaken : (db.built w.filter (db.trim w.buf)).taken = []
  · have hempty := List.isEmpty_iff.mpr htaken
    refine .nothing htaken ?_ ?_ ?_
    · simp only [sent, send, hempty, if_true]
      exact drainLoop.filter_of_taken_eq_nil htaken
    · simp [sent, send, hempty]
    · simp [sent, send, hempty]
  · have hempty : (db.built w.filter (db.trim w.buf)).taken.isEmpty = false := by simpa using htaken
    by_cases hok : success curlCode httpCode
    · refine .accepted hok ?_ ?_ ?_
      · simp [sent, send, hempty]
      · simp only [sent, send, hempty, Bool.false_eq_true, if_false, Option.toList_some]
      · simp [sent, send, hempty, settle_success hok]
    · refine .failed hok ?_ ?_ ?_
      · simp [sent, send, hempty]
      · simp only [sent, send, hempty, Bool.false_eq_true, if_false, Option.toList_some]
      · simp [sent, send, hempty, settle_failed hok]

/-- What was not reached is still in the buffer, without a mark. -/
theorem Call.keeps_unreached (hbatch : 0 < db.maxBatchInserts)
    (hmarks : MarksIgnored db w.filter w.buf.sent.nodes) (h : Call db w curlCode httpCode t) :
    ∀ it ∈ unreached db w, it ∈ t.buf.sent.nodes ∧ it.val.deleted = false := by
  intro it hit
  have hundeleted : it.val.deleted = false := hmarks.trim.undeleted_drop hbatch it hit
  have hbuilt : it ∈ (db.build w.filter (db.trim w.buf)).sent.nodes := by
    rw [build, Buffer.markFirst_nodes]
    exact List.mem_append_right _ hit
  refine ⟨?_, hundeleted⟩
  cases h with
  | nothing htaken hfilter hrequests hbuf =>
    rw [hbuf]
    exact hbuilt
  | accepted hok hfilter hrequests hbuf =>
    rw [hbuf, Buffer.clean_nodes]
    exact Buffer.mem_live.mpr ⟨hbuilt, hundeleted⟩
  | failed hfail hfilter hrequests hbuf =>
    rw [hbuf, Buffer.undelete_nodes]
    refine List.mem_map.mpr ⟨it, hbuilt, ?_⟩
    rw [Reading.reset_of_undeleted hundeleted]

/-- The marks that a call leaves are on readings that the filter ignores. -/
theorem Call.marksIgnored (hbatch : 0 < db.maxBatchInserts)
    (hmarks : MarksIgnored db w.filter w.buf.sent.nodes) (h : Call db w curlCode httpCode t) :
    MarksIgnored db t.filter t.buf.sent.nodes := by
  cases h with
  | nothing htaken hfilter hrequests hbuf =>
    -- the loop ignored all of the buffer, and ignores it next time
    have hignored : ∀ it ∈ (db.trim w.buf).sent.nodes, db.accept w.filter it.val = none := by
      intro it hit
      by_contra hne
      exact (drainLoop.taken_ne_nil_iff (full_zero hbatch) _ _).mpr ⟨it, hit, hne⟩ htaken
    rw [hbuf, hfilter, build, Buffer.markFirst_nodes]
    refine ⟨_, _, rfl, ?_, hmarks.trim.undeleted_drop hbatch⟩
    intro it hit
    obtain ⟨n, hn, rfl⟩ := List.mem_map.mp hit
    exact FilterState.accept_markDelete_eq_none (hignored n (List.mem_of_mem_take hn))
  | accepted hok hfilter hrequests hbuf =>
    rw [hbuf]
    exact marksIgnored_of_undeleted (Buffer.clean_undeleted _)
  | failed hfail hfilter hrequests hbuf =>
    rw [hbuf, Buffer.undelete_nodes]
    apply marksIgnored_of_undeleted
    intro it hit
    obtain ⟨n, -, rfl⟩ := List.mem_map.mp hit
    rfl

/-- The nodes after a call are nodes that were there before. -/
theorem Call.addr (h : Call db w curlCode httpCode t) :
    ∀ it ∈ t.buf.sent.nodes, ∃ n ∈ w.buf.sent.nodes, n.addr = it.addr := by
  have hbuild : ∀ it ∈ (db.build w.filter (db.trim w.buf)).sent.nodes,
      ∃ n ∈ w.buf.sent.nodes, n.addr = it.addr := by
    intro it hit
    rw [build, Buffer.markFirst_nodes] at hit
    rcases List.mem_append.mp hit with hit | hit
    · obtain ⟨n, hn, rfl⟩ := List.mem_map.mp hit
      exact ⟨n, (trim_sublist db w.buf).subset (List.mem_of_mem_take hn), rfl⟩
    · exact ⟨it, (trim_sublist db w.buf).subset (List.mem_of_mem_drop hit), rfl⟩
  intro it hit
  cases h with
  | nothing htaken hfilter hrequests hbuf =>
    rw [hbuf] at hit
    exact hbuild it hit
  | accepted hok hfilter hrequests hbuf =>
    rw [hbuf, Buffer.clean_nodes] at hit
    exact hbuild it (Buffer.mem_live.mp hit).1
  | failed hfail hfilter hrequests hbuf =>
    rw [hbuf, Buffer.undelete_nodes] at hit
    obtain ⟨n, hn, rfl⟩ := List.mem_map.mp hit
    exact hbuild n hn

/-- The lines of an accepted request are not in the buffer any more. -/
theorem addr_ne_of_clean (it n : Node Reading)
    (hit : it ∈ (db.built w.filter (db.trim w.buf)).taken)
    (hn : n ∈ (db.build w.filter (db.trim w.buf)).clean.sent.nodes) : n.addr ≠ it.addr := by
  have htake : it ∈ (db.trim w.buf).sent.nodes.take
      (db.built w.filter (db.trim w.buf)).reached :=
    (drainLoop.taken_sublist _ _ _).subset hit
  rw [Buffer.clean_nodes, build, Buffer.markFirst_nodes, Buffer.live_append,
    Buffer.live_map_markDelete, List.nil_append] at hn
  have hdrop := (Buffer.mem_live.mp hn).1
  intro haddr
  obtain rfl := NodeList.eq_of_addr _ (List.mem_of_mem_drop hdrop) (List.mem_of_mem_take htake) haddr
  exact List.disjoint_take_drop (List.Nodup.of_map _ (db.trim w.buf).sent.nodup)
    (Nat.le_refl _) htake hdrop

end Call

/-! ## Runs -/

/-- The newest line is as old as the last timestamp, and the lines of the accepted
requests are no longer in the buffer. -/
structure StreamInv (db : InfluxDB) (w : Retry) : Prop where
  posted : ∀ q ∈ w.requests, q.requestBody = db.requestBody q.lines
  nondecreasing : (timestamps w).Pairwise (· ≤ ·)
  newest : ∀ t ∈ timestamps w, t ≤ w.filter.lastTimestamp
  bounded : ∀ q ∈ w.requests, (q.lines.length : Int) ≤ db.maxBatchInserts
  acknowledged : w.requests.Pairwise fun q q' => success q.curlCode q.httpCode → Apart q q'
  removed : ∀ q ∈ w.requests, success q.curlCode q.httpCode → ∀ it ∈ q.lines,
    it.addr < w.buf.sent.next ∧ ∀ n ∈ w.buf.sent.nodes, n.addr ≠ it.addr
  marks : MarksIgnored db w.filter w.buf.sent.nodes

section Runs
variable {db : InfluxDB} {w t : Retry}

theorem streamInv_initial (db : InfluxDB) : StreamInv db initial where
  posted := by simp [initial]
  nondecreasing := List.Pairwise.nil
  newest := by simp [timestamps, initial]
  bounded := by simp [initial]
  acknowledged := List.Pairwise.nil
  removed := by simp [initial]
  marks := marksIgnored_of_undeleted (by simp [initial, Buffer.initial])

theorem streamInv_push (hw : StreamInv db w) {rd : Reading} (hrd : rd.deleted = false) :
    StreamInv db { w with
      buf := w.buf.push rd, pushed := w.pushed ++ [⟨w.buf.sent.next, rd⟩] } where
  posted := hw.posted
  nondecreasing := hw.nondecreasing
  newest := hw.newest
  bounded := hw.bounded
  acknowledged := hw.acknowledged
  removed := by
    intro q hq hok it hit
    obtain ⟨hlt, hne⟩ := hw.removed q hq hok it hit
    refine ⟨Nat.lt_succ_of_lt hlt, fun n hn => ?_⟩
    rcases List.mem_append.mp hn with hn | hn
    · exact hne n hn
    · rw [List.mem_singleton.mp hn]
      exact Nat.ne_of_gt hlt
  marks := by
    obtain ⟨old, new, hnodes, hold, hnew⟩ := hw.marks
    refine ⟨old, new ++ [⟨w.buf.sent.next, rd⟩], ?_, hold, ?_⟩
    · rw [Buffer.push_nodes, hnodes, List.append_assoc]
    · intro it hit
      rcases List.mem_append.mp hit with hit | hit
      · exact hnew it hit
      · rw [List.mem_singleton.mp hit]
        exact hrd

/-- The loop takes readings in order, and not older than the last timestamp. -/
theorem isNewer_le : IsNewer fun last timestamp : Int => decide (last ≤ timestamp) where
  of_lt h := decide_eq_true (Int.le_of_lt h)
  le h := of_decide_eq_true h

/-- A request more: its lines follow the others, and none of them was accepted before. -/
theorem streamInv_request (hbatch : 0 < db.maxBatchInserts) (hw : StreamInv db w)
    {curlCode httpCode : Int} (h : Call db w curlCode httpCode t)
    (hnext : t.buf.sent.next = w.buf.sent.next)
    (hfilter : t.filter = (db.built w.filter (db.trim w.buf)).filter)
    (hrequests : t.requests = w.requests ++ [⟨(db.built w.filter (db.trim w.buf)).taken,
      db.requestBody (db.built w.filter (db.trim w.buf)).taken, curlCode, httpCode⟩])
    (hremoved : success curlCode httpCode → ∀ it ∈ (db.built w.filter (db.trim w.buf)).taken,
      ∀ n ∈ t.buf.sent.nodes, n.addr ≠ it.addr) : StreamInv db t := by
  obtain ⟨hlast, hle⟩ := le_lastTimestamp isNewer_le db.duplicates db.full w.filter 0
    (db.trim w.buf).sent.nodes
  obtain ⟨hge, hsorted⟩ := taken_pairwise isNewer_le db.duplicates db.full w.filter 0
    (db.trim w.buf).sent.nodes
  have htaken : ∀ it ∈ (db.built w.filter (db.trim w.buf)).taken, it ∈ w.buf.sent.nodes :=
    fun it hit => (trim_sublist db w.buf).subset
      (List.mem_of_mem_take ((drainLoop.taken_sublist _ _ _).subset hit))
  have htimes : timestamps t = timestamps w ++
      (db.built w.filter (db.trim w.buf)).taken.map fun it => it.val.timeMs := by
    simp [timestamps, hrequests]
  constructor
  · rw [hrequests]
    intro q hq
    rcases List.mem_append.mp hq with hq | hq
    · exact hw.posted q hq
    · rw [List.mem_singleton.mp hq]
  · rw [htimes]
    refine List.pairwise_append.mpr ⟨hw.nondecreasing, hsorted, ?_⟩
    intro s hs s' hs'
    obtain ⟨it, hit, rfl⟩ := List.mem_map.mp hs'
    exact (hw.newest s hs).trans (hge it hit)
  · rw [htimes, hfilter]
    intro s hs
    rcases List.mem_append.mp hs with hs | hs
    · exact (hw.newest s hs).trans hlast
    · obtain ⟨it, hit, rfl⟩ := List.mem_map.mp hs
      exact hle it hit
  · rw [hrequests]
    intro q hq
    rcases List.mem_append.mp hq with hq | hq
    · exact hw.bounded q hq
    · obtain rfl := List.mem_singleton.mp hq
      have hfull : db.full db.maxBatchInserts.toNat = true := by
        simp only [full, decide_eq_true_eq]
        omega
      have hlength : 0 + (drainLoop db.accept db.full w.filter 0
          (db.trim w.buf).sent.nodes).taken.length ≤ db.maxBatchInserts.toNat :=
        drainLoop.length_taken_le hfull w.filter (Nat.zero_le _) (db.trim w.buf).sent.nodes
      dsimp only [built]
      omega
  · rw [hrequests]
    refine List.pairwise_append.mpr ⟨hw.acknowledged, List.pairwise_singleton _ _, ?_⟩
    intro q hq q' hq' hok it hit n hn
    obtain rfl := List.mem_singleton.mp hq'
    exact (hw.removed q hq hok it hit).2 n (htaken n hn)
  · rw [hrequests, hnext]
    intro q hq hok it hit
    rcases List.mem_append.mp hq with hq | hq
    · obtain ⟨hlt, hne⟩ := hw.removed q hq hok it hit
      refine ⟨hlt, fun n hn => ?_⟩
      obtain ⟨m, hm, haddr⟩ := h.addr n hn
      rw [← haddr]
      exact hne m hm
    · obtain rfl := List.mem_singleton.mp hq
      exact ⟨w.buf.sent.fresh it (htaken it hit), hremoved hok it hit⟩
  · exact h.marksIgnored hbatch hw.marks

theorem streamInv_sent (hbatch : 0 < db.maxBatchInserts) (hw : StreamInv db w)
    (curlCode httpCode : Int) : StreamInv db (sent db w curlCode httpCode) := by
  have hcall := call_sent db w curlCode httpCode
  have hnext : (sent db w curlCode httpCode).buf.sent.next = w.buf.sent.next := sent_next
  generalize sent db w curlCode httpCode = t at hcall hnext
  have h := hcall
  cases hcall with
  | nothing htaken hfilter hrequests hbuf =>
    have htimes : timestamps t = timestamps w := by rw [timestamps, hrequests]; rfl
    refine ⟨?_, ?_, ?_, ?_, ?_, ?_, h.marksIgnored hbatch hw.marks⟩
    · rw [hrequests]
      exact hw.posted
    · rw [htimes]
      exact hw.nondecreasing
    · rw [htimes, hfilter]
      exact hw.newest
    · rw [hrequests]
      exact hw.bounded
    · rw [hrequests]
      exact hw.acknowledged
    · rw [hrequests, hnext]
      intro q hq hok it hit
      obtain ⟨hlt, hne⟩ := hw.removed q hq hok it hit
      refine ⟨hlt, fun n hn => ?_⟩
      obtain ⟨m, hm, haddr⟩ := h.addr n hn
      rw [← haddr]
      exact hne m hm
  | accepted hok hfilter hrequests hbuf =>
    refine streamInv_request hbatch hw h hnext hfilter hrequests ?_
    rw [hbuf]
    exact fun _ it hit n hn => addr_ne_of_clean it n hit hn
  | failed hfail hfilter hrequests hbuf =>
    exact streamInv_request hbatch hw h hnext hfilter hrequests fun hok => absurd hok hfail

theorem streamInv_step (hbatch : 0 < db.maxBatchInserts) {e : RetryEvent} (hw : StreamInv db w)
    (h : step db w e = some t) : StreamInv db t := by
  match e with
  | .push rd =>
    obtain ⟨hrd, h⟩ := Option.ite_none_left_eq_some.mp h
    obtain rfl := Option.some.inj h
    exact streamInv_push hw (by simpa using hrd)
  | .send none =>
    obtain rfl := Option.some.inj h
    exact hw
  | .send (some (curlCode, httpCode)) =>
    obtain rfl := Option.some.inj h
    exact streamInv_sent hbatch hw curlCode httpCode

/-- **The stream of requests**, in every state of every run. -/
theorem request_stream {db : InfluxDB} (hbatch : 0 < db.maxBatchInserts) {es : List RetryEvent}
    {w : Retry} (hrun : (machine db).run initial es = some w) : RequestStream db w := by
  have hw : StreamInv db w := EventMachine.Machine.run_induction hrun (streamInv_initial db)
    fun _ _ _ hs hstep => streamInv_step hbatch hs hstep
  refine ⟨hw.posted, hw.nondecreasing, hw.bounded, hw.acknowledged, ?_⟩
  rintro ⟨curlCode, httpCode⟩ t ht
  obtain rfl := Option.some.inj ht
  exact (call_sent db w curlCode httpCode).keeps_unreached hbatch hw.marks

/-- One line a request: three readings out of order, of which the first is sent twice. -/
def oneByOne : List RetryEvent :=
  [.push (.tick 2), .push (.tick 1), .push (.tick 3), .send (some (0, 500)), .send (some (0, 204)),
    .send (some (0, 204))]

theorem request_stream_oneByOne :
    ∃ w, (machine { defaults with maxBatchInserts := 1 }).run initial oneByOne = some w ∧
      timestamps w = [2000, 2000, 3000] ∧ w.buf.isEmpty = true ∧
      RequestStream { defaults with maxBatchInserts := 1 } w := by
  obtain ⟨w, hw, htimes, hempty⟩ : ∃ w,
      (machine { defaults with maxBatchInserts := 1 }).run initial oneByOne = some w ∧
        timestamps w = [2000, 2000, 3000] ∧ w.buf.isEmpty = true :=
    EventMachine.Machine.exists_run_of_any (by decide +kernel)
  exact ⟨w, hw, htimes, hempty, request_stream (by decide) hw⟩

end Runs
end VzLogger.InfluxDB.Retry
