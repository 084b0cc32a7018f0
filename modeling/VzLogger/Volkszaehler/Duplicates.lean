import VzLogger.Volkszaehler.Upload
import VzLogger.Aggregation.Integral

/-! # What the duplicates option leaves out

With the option a reading is suppressed if it repeats the last one forwarded and
comes less than `duplicates` seconds after it.  The filter runs inside the drain
loop, call after call; its state lives in two members.  What it forwards is a
function of the readings alone, however they are spread over the calls, and says
the same about the signal as all of them.
-/
namespace VzLogger.Volkszaehler

open AvgEvent (signal)
open StepSignal (Thins hold)

/-- The option is on, and as milliseconds it fits into an `int`. -/
structure DuplicatesOption (duplicates : Int) : Prop where
  pos : 0 < duplicates
  fits : duplicates * 1000 < 2 ^ 31

/-- The filter over a list of readings: its last state, and what it forwards. -/
def forward (duplicates : Int) : FilterState → List Reading → FilterState × List Reading
  | f, [] => (f, [])
  | f, r :: rs =>
    match accept duplicates f r with
    | some g => ((forward duplicates g rs).1, r :: (forward duplicates g rs).2)
    | none => forward duplicates f rs

/-- What a new interface forwards of a list of readings. -/
def forwarded (duplicates : Int) (rs : List Reading) : List Reading :=
  (forward duplicates FilterState.initial rs).2

/-- A reading that a new interface does not forward after those in `rs`. -/
def Suppressed (duplicates : Int) (rs : List Reading) (r : Reading) : Prop :=
  forwarded duplicates (rs ++ [r]) = forwarded duplicates rs

section
variable {duplicates : Int}

theorem forward_append (f : FilterState) (rs qs : List Reading) :
    forward duplicates f (rs ++ qs) =
      ((forward duplicates (forward duplicates f rs).1 qs).1,
        (forward duplicates f rs).2 ++ (forward duplicates (forward duplicates f rs).1 qs).2) := by
  induction rs generalizing f with
  | nil => rfl
  | cons r rs ih =>
    rw [List.cons_append, forward, forward]
    cases accept duplicates f r with
    | none => exact ih f
    | some g => simp only [ih g, List.cons_append]

/-- The drain loop is the filter over the readings in the buffer. -/
theorem drainLoop_eq_forward (duplicates : Int) (f : FilterState) (lines : Nat)
    (l : List (Node Reading)) :
    ((drainLoop (accept duplicates) (fun _ => false) f lines l).filter,
        (drainLoop (accept duplicates) (fun _ => false) f lines l).taken.map Node.val) =
      forward duplicates f (l.map Node.val) := by
  induction l generalizing f lines with
  | nil => rfl
  | cons it rest ih =>
    rw [List.map_cons, forward]
    cases h : accept duplicates f it.val with
    | none =>
      rw [drainLoop.cons_ignored rfl h]
      exact ih f lines
    | some g =>
      rw [drainLoop.cons_taken rfl h]
      simp only [← ih g (lines + 1), List.map_cons]

/-! ## The filter with the option on -/

/-- A newer reading is suppressed only if it repeats the last one sent and the
time is not over. -/
theorem accept_of_newer (hd : 0 < duplicates) {f : FilterState} {r : Reading}
    (hr : f.lastTimestamp < r.timeMs) :
    accept duplicates f r = some ⟨r.timeMs, some r⟩ ∨
      accept duplicates f r = none ∧ ∃ sent, f.lastReadingSent = some sent ∧
        r.value = sent.value ∧ r.timeMs < f.lastTimestamp + duplicates * 1000 := by
  have hne : duplicates ≠ 0 := by omega
  simp only [accept, FilterState.accept, hr, decide_true, ↓reduceIte, hne]
  cases hsent : f.lastReadingSent with
  | none => exact .inl rfl
  | some sent =>
    dsimp only
    split
    · exact .inl rfl
    · next h =>
      rw [not_or, not_not] at h
      exact .inr ⟨rfl, sent, rfl, h.2, by omega⟩

/-- The last reading sent is the last one forwarded, and its time is the last one taken. -/
structure Tracks (f : FilterState) (out : List Reading) : Prop where
  sent : f.lastReadingSent = out.getLast?
  timestamp : f.lastTimestamp = (out.getLast?.map Reading.timeMs).getD 0

theorem tracks_initial : Tracks FilterState.initial [] := ⟨rfl, rfl⟩

theorem Tracks.append {f : FilterState} {out : List Reading} (hd : 0 < duplicates)
    (h : Tracks f out) {rs : List Reading} (hnewer : ∀ r ∈ rs, f.lastTimestamp < r.timeMs)
    (hrs : (rs.map Reading.timeMs).Pairwise (· < ·)) :
    Tracks (forward duplicates f rs).1 (out ++ (forward duplicates f rs).2) := by
  induction rs generalizing f out with
  | nil => simpa [forward] using h
  | cons r rs ih =>
    obtain ⟨hr, hnewer⟩ := List.forall_mem_cons.mp hnewer
    obtain ⟨hlt, hrs⟩ := List.pairwise_cons.mp hrs
    rw [forward]
    rcases accept_of_newer hd hr with haccept | ⟨haccept, -⟩
    · rw [haccept]
      have htracks : Tracks ⟨r.timeMs, some r⟩ (out ++ [r]) := ⟨by simp, by simp⟩
      have := ih htracks (fun q hq => hlt _ (List.mem_map_of_mem hq)) hrs
      rwa [List.append_assoc] at this
    · rw [haccept]
      exact ih h hnewer hrs

/-- The forwarded readings are the signal without repetitions. -/
theorem thins_forward (hd : 0 < duplicates) {f : FilterState} {v : ℝ}
    (hv : ∀ sent, f.lastReadingSent = some sent → v = sent.value) {rs : List Reading}
    (hnewer : ∀ r ∈ rs, f.lastTimestamp < r.timeMs)
    (hrs : (rs.map Reading.timeMs).Pairwise (· < ·)) :
    Thins v (signal rs) (signal (forward duplicates f rs).2) := by
  induction rs generalizing f v with
  | nil => exact Thins.nil
  | cons r rs ih =>
    obtain ⟨hr, hnewer⟩ := List.forall_mem_cons.mp hnewer
    obtain ⟨hlt, hrs⟩ := List.pairwise_cons.mp hrs
    rw [forward]
    rcases accept_of_newer hd hr with haccept | ⟨haccept, sent, hsent, hvalue, -⟩
    · rw [haccept]
      refine Thins.keep (ih ?_ (fun q hq => hlt _ (List.mem_map_of_mem hq)) hrs)
      rintro sent hsent
      obtain rfl := Option.some.inj hsent
      rfl
    · rw [haccept]
      refine Thins.drop ?_ (ih hv hnewer hrs)
      show (r.value : ℝ) = v
      rw [hv sent hsent, hvalue]

theorem forward_sublist (f : FilterState) (rs : List Reading) :
    (forward duplicates f rs).2.Sublist rs := by
  induction rs generalizing f with
  | nil => exact List.Sublist.refl _
  | cons r rs ih =>
    rw [forward]
    cases accept duplicates f r with
    | none => exact (ih f).cons r
    | some g => exact (ih g).cons_cons r

/-- A suppressed reading repeats the last one forwarded, within the time. -/
theorem Suppressed.repeats (hd : 0 < duplicates) {rs : List Reading} {r : Reading}
    (h : Suppressed duplicates rs r) (hpos : ∀ q ∈ rs ++ [r], 0 < q.timeMs)
    (hrs : ((rs ++ [r]).map Reading.timeMs).Pairwise (· < ·)) :
    ∃ sent, (forwarded duplicates rs).getLast? = some sent ∧ r.value = sent.value ∧
      sent.timeMs < r.timeMs ∧ r.timeMs < sent.timeMs + duplicates * 1000 := by
  rw [List.map_append, List.pairwise_append] at hrs
  obtain ⟨hrs, -, hlater⟩ := hrs
  have htracks : Tracks (forward duplicates FilterState.initial rs).1 (forwarded duplicates rs) :=
    tracks_initial.append hd (fun q hq => hpos q (List.mem_append_left _ hq)) hrs
  have hlast : ∀ sent, (forwarded duplicates rs).getLast? = some sent → sent.timeMs < r.timeMs := by
    intro sent hsent
    have hmem := (forward_sublist _ _).subset (List.mem_of_getLast? hsent)
    exact hlater _ (List.mem_map_of_mem hmem) _ (by simp)
  have hnewer : (forward duplicates FilterState.initial rs).1.lastTimestamp < r.timeMs := by
    rw [htracks.timestamp]
    cases hsent : (forwarded duplicates rs).getLast? with
    | none => exact hpos r (by simp)
    | some sent => exact hlast sent hsent
  rw [Suppressed, forwarded, forward_append] at h
  rcases accept_of_newer hd hnewer with haccept | ⟨-, sent, hsent, hvalue, htime⟩
  · rw [forward, haccept] at h
    simp [forwarded, forward] at h
  · rw [htracks.sent] at hsent
    rw [htracks.timestamp, hsent] at htime
    exact ⟨sent, hsent, hvalue, hlast sent hsent, htime⟩

/-- **The filter preserves the signal.** -/
theorem hold_forwarded (hd : 0 < duplicates) {rs : List Reading} (hpos : ∀ r ∈ rs, 0 < r.timeMs)
    (hrs : (rs.map Reading.timeMs).Pairwise (· < ·)) (t : ℝ) :
    hold (signal (forwarded duplicates rs)) t = hold (signal rs) t := by
  have hthins : Thins 0 (signal rs) (signal (forwarded duplicates rs)) :=
    thins_forward hd (fun sent hsent => by cases hsent) hpos hrs
  exact hthins.foldl_eq (AvgEvent.ordered_signal hrs) t

end

/-! ## Calls over a run -/

namespace Upload

/-- The readings an event pushes. -/
def pushed : UploadEvent → List Reading
  | .push rd => [rd]
  | _ => []

/-- The readings in the buffer that no call has taken out yet. -/
def waiting (w : Upload) : List Reading := (Buffer.live w.buf.sent.nodes).map Node.val

/-- A reading comes into the buffer without the mark. -/
def PushesUnmarked : UploadEvent → Prop
  | .push rd => rd.deleted = false
  | _ => True

/-- All but the waiting readings went through the filter, one after the other. -/
structure Filtered (duplicates : Int) (w : Upload) (readings : List Reading) : Prop where
  split : ∃ full, readings = full ++ w.waiting ∧
    forward duplicates FilterState.initial full = (w.vz.filter, w.accepted)
  unmarked : (∀ vz buf, w.pc ≠ .drained vz buf) → ∀ it ∈ w.buf.sent.nodes, it.val.deleted = false

theorem filtered_initial (duplicates : Int) : Filtered duplicates initial [] where
  split := ⟨[], rfl, rfl⟩
  unmarked := by
    intro _ it hit
    cases hit

/-- A step that leaves the filter and the waiting readings alone. -/
theorem Filtered.of_eq {duplicates : Int} {w t : Upload} {readings : List Reading}
    (hw : Filtered duplicates w readings) (hwaiting : t.waiting = w.waiting)
    (hfilter : t.vz.filter = w.vz.filter) (haccepted : t.accepted = w.accepted)
    (hunmarked : (∀ vz buf, t.pc ≠ .drained vz buf) →
      ∀ it ∈ t.buf.sent.nodes, it.val.deleted = false) :
    Filtered duplicates t (readings ++ []) := by
  obtain ⟨full, hsplit, hforward⟩ := hw.split
  refine ⟨⟨full, ?_, ?_⟩, hunmarked⟩
  · rw [List.append_nil, hsplit, hwaiting]
  · rw [hforward, hfilter, haccepted]

@[simp] theorem format_filter (vz : Volkszaehler) : (format vz).filter = vz.filter := by
  unfold format
  split <;> rfl

@[simp] theorem processResponse_filter (httpCode errCode : Int) (reply : JsonReply)
    (vz : Volkszaehler) : (processResponse httpCode errCode reply vz).filter = vz.filter := by
  unfold processResponse apiParseException
  repeat' split
  all_goals rfl

theorem waiting_clean (w : Upload) : ({ w with buf := w.buf.clean } : Upload).waiting =
    w.waiting := by
  simp only [waiting, Buffer.clean_nodes, Buffer.live_live]

theorem filtered_step {duplicates : Int} {w t : Upload} {e : UploadEvent} {readings : List Reading}
    (hw : Filtered duplicates w readings) (he : PushesUnmarked e)
    (h : step duplicates w e = some t) : Filtered duplicates t (readings ++ pushed e) := by
  cases e with
  | push rd =>
    obtain rfl := Option.some.inj h
    obtain ⟨full, hsplit, hforward⟩ := hw.split
    refine ⟨⟨full, ?_, hforward⟩, fun hpc =>
      Buffer.forall_push (fun r => r.deleted = false) (hw.unmarked hpc) he⟩
    simp only [waiting, Buffer.live_push he, List.map_append, List.map_cons, List.map_nil, pushed]
    rw [← List.append_assoc]
    exact congrArg (· ++ [rd]) hsplit
  | clean =>
    obtain rfl := Option.some.inj h
    exact hw.of_eq (waiting_clean w) rfl rfl fun _ => Buffer.clean_undeleted _
  | send =>
    simp only [step] at h
    split at h
    · next hpc =>
      obtain rfl := Option.some.inj h
      have hunmarked := hw.unmarked (by simp [hpc])
      split
      · exact hw.of_eq rfl rfl rfl fun _ => hunmarked
      · exact hw.of_eq rfl rfl rfl fun _ => hunmarked
    · cases h
  | drain =>
    simp only [step] at h
    split at h
    · next hpc =>
      obtain rfl := Option.some.inj h
      obtain ⟨full, hsplit, hforward⟩ := hw.split
      have hnodes : w.waiting = w.buf.sent.nodes.map Node.val := by
        rw [waiting, Buffer.live_of_undeleted (hw.unmarked (by simp [hpc]))]
      have hdrain := drainLoop_eq_forward duplicates w.vz.filter 0 w.buf.sent.nodes
      rw [← hnodes] at hdrain
      -- the loop has marked every reading
      refine ⟨⟨full ++ w.waiting, ?_, ?_⟩, fun hne => absurd rfl (hne _ _)⟩
      · simp only [waiting, drain_nodes, Buffer.live_map_markDelete, pushed, List.map_nil,
          List.append_nil]
        exact hsplit
      · rw [forward_append, hforward, ← hdrain]
        rfl
    · cases h
  | post session =>
    simp only [step] at h
    split at h
    · have hkeep : ∀ u : Upload, u.buf = w.buf.clean → u.vz = format w.vz →
          u.accepted = w.accepted → Filtered duplicates u (readings ++ []) := by
        rintro ⟨buf, vz, pc, accepted, removed, posts, calls⟩ rfl rfl rfl
        exact hw.of_eq (waiting_clean w) (format_filter w.vz) rfl
          fun _ => Buffer.clean_undeleted _
      split at h
      · obtain rfl := Option.some.inj h
        exact hkeep _ rfl rfl rfl
      · obtain rfl := Option.some.inj h
        exact hkeep _ rfl rfl rfl
    · cases h
  | respond httpCode errCode reply =>
    simp only [step] at h
    split at h
    · next hpc =>
      obtain rfl := Option.some.inj h
      exact hw.of_eq rfl (processResponse_filter ..) rfl fun _ => hw.unmarked (by simp [hpc])
    · cases h

/-- **The duplicates option preserves the signal.**  In every run, the stream
appended to `_values`, which is what has been removed from there and what is there still, is
what the filter makes of the readings taken out of the buffer, in whatever calls that was: a
part of them with increasing times, without the readings that repeat the last one forwarded
within the time, and with the same signal. -/
theorem duplicates_preserve_signal {duplicates : Int} (hd : DuplicatesOption duplicates)
    {es : List UploadEvent} {w : Upload} (hrun : (machine duplicates).run initial es = some w)
    (hunmarked : ∀ e ∈ es, PushesUnmarked e) (hpos : ∀ r ∈ es.flatMap pushed, 0 < r.timeMs)
    (hincreasing : ((es.flatMap pushed).map Reading.timeMs).Pairwise (· < ·)) :
    w.accepted = w.removed ++ w.vz.values ∧
    ∃ full, es.flatMap pushed = full ++ w.waiting ∧ w.accepted = forwarded duplicates full ∧
      w.accepted.Sublist full ∧ (w.accepted.map Reading.timeMs).Pairwise (· < ·) ∧
      (∀ pre r post, full = pre ++ r :: post → Suppressed duplicates pre r →
        ∃ sent, (forwarded duplicates pre).getLast? = some sent ∧ r.value = sent.value ∧
          sent.timeMs < r.timeMs ∧ r.timeMs < sent.timeMs + duplicates * 1000) ∧
      ∀ t, hold (signal w.accepted) t = hold (signal full) t := by
  have hw : Filtered duplicates w (es.flatMap pushed) :=
    EventMachine.Machine.run_history pushed hrun hunmarked (filtered_initial duplicates)
      fun _ _ _ _ hw he hstep => filtered_step hw he hstep
  obtain ⟨full, hsplit, hforward⟩ := hw.split
  have haccepted : w.accepted = forwarded duplicates full := by rw [forwarded, hforward]
  rw [hsplit, List.map_append] at hincreasing
  have hfull := (List.pairwise_append.mp hincreasing).1
  have hpos' : ∀ r ∈ full, 0 < r.timeMs := fun r hr =>
    hpos r (by rw [hsplit]; exact List.mem_append_left _ hr)
  have hsublist : (forwarded duplicates full).Sublist full := forward_sublist _ _
  have hbooked : w.Booked :=
    EventMachine.Machine.run_induction hrun rfl fun _ _ _ hs hstep => booked_step hs hstep
  refine ⟨hbooked, full, hsplit, haccepted, haccepted ▸ hsublist, ?_, ?_, ?_⟩
  · rw [haccepted]
    exact hfull.sublist (hsublist.map _)
  · rintro pre r post rfl hsuppressed
    have hpre : pre ++ r :: post = pre ++ [r] ++ post := by simp
    rw [hpre] at hpos' hfull
    rw [List.map_append] at hfull
    exact hsuppressed.repeats hd.pos (fun q hq => hpos' q (List.mem_append_left _ hq))
      (List.pairwise_append.mp hfull).1
  · rw [haccepted]
    exact hold_forwarded hd.pos hpos' hfull

/-- Two readings of one value, taken out by two calls. -/
def repeatedRun : List UploadEvent :=
  .push (.tick 1) :: sendOk ++ .push (.tick 2) :: [.send, .drain, .post true]

theorem duplicates_preserve_signal_tick :
    ∃ w, (machine 60).run initial repeatedRun = some w ∧ w.accepted = [.tick 1] ∧
      w.accepted = w.removed ++ w.vz.values ∧
      ∃ full, repeatedRun.flatMap pushed = full ++ w.waiting ∧ w.accepted = forwarded 60 full ∧
        w.accepted.Sublist full ∧ (w.accepted.map Reading.timeMs).Pairwise (· < ·) ∧
        (∀ pre r post, full = pre ++ r :: post → Suppressed 60 pre r →
          ∃ sent, (forwarded 60 pre).getLast? = some sent ∧ r.value = sent.value ∧
            sent.timeMs < r.timeMs ∧ r.timeMs < sent.timeMs + 60 * 1000) ∧
        ∀ t, hold (signal w.accepted) t = hold (signal full) t := by
  obtain ⟨w, hw, haccepted⟩ : ∃ w, (machine 60).run initial repeatedRun = some w ∧
      w.accepted = [.tick 1] := EventMachine.Machine.exists_run_of_any (by decide +kernel)
  have hunmarked : ∀ e ∈ repeatedRun, PushesUnmarked e := by
    simp only [repeatedRun, sendOk, List.cons_append, List.nil_append, List.forall_mem_cons]
    exact ⟨rfl, trivial, trivial, trivial, trivial, rfl, trivial, trivial, trivial, by simp⟩
  exact ⟨w, hw, haccepted, duplicates_preserve_signal ⟨by decide, by decide⟩ hw hunmarked
    (by decide) (by decide)⟩

end Upload
end VzLogger.Volkszaehler
