import VzLogger.MySmartGrid.Model
import VzLogger.Lib.EventMachine
import Mathlib.Data.List.Chain

/-! # Failed requests of a sensor channel

A sensor channel, whole operations one after another, any outcome.  The times of
the pushed readings are positive and increase, and the counters are not negative.

Report by report, a reading is on its way until a request with it is
acknowledged.  The acknowledged tuples are the readings after the first one, with
the differences of their counters to its, as long as no reading is in the queue
of two requests, the first counter is positive, and the numbers fit into 32 bits.
-/
namespace VzLogger.MySmartGrid

/-- The channel, and the books: the pushed readings and the requests. -/
structure Sensor where
  buf : Buffer
  vol : Volatil
  pushed : List Reading
  requests : List Request

inductive SensorEvent where
  | push (rd : Reading)
  /-- one call, the time it is made, and the outcome of its request -/
  | send (now curlCode httpCode : Int)

/-- Acknowledged. -/
def Request.Ok (q : Request) : Prop := success q.curlCode q.httpCode

instance (q : Request) : Decidable q.Ok := inferInstanceAs (Decidable (success _ _))

namespace Sensor
variable (msg : MySmartGrid)

/-- A new channel, aggregation mode `none`. -/
def initial : Sensor := ⟨Buffer.initial .none, ⟨[], 0, 0, 0⟩, [], []⟩

/-- The readings that wait to be acknowledged. -/
def waiting (w : Sensor) : List Reading := w.vol.values ++ w.buf.sent.nodes.map Node.val

/-- The next reading: a later one, at a positive time, the counter not
negative. -/
structure Next (w : Sensor) (rd : Reading) : Prop where
  positive : 0 < rd.time.tvSec
  later : ∀ r ∈ w.pushed, r.time.tvSec < rd.time.tvSec
  counter : 0 ≤ msg.counter rd

instance (w : Sensor) (rd : Reading) : Decidable (Next msg w rd) :=
  decidable_of_iff
    (0 < rd.time.tvSec ∧ (∀ r ∈ w.pushed, r.time.tvSec < rd.time.tvSec) ∧ 0 ≤ msg.counter rd)
    ⟨fun ⟨h1, h2, h3⟩ => ⟨h1, h2, h3⟩, fun ⟨h1, h2, h3⟩ => ⟨h1, h2, h3⟩⟩

/-- The state after a call. -/
def sent (w : Sensor) (now curlCode httpCode : Int) : Sensor :=
  let (vol, buf, request) := msg.send now curlCode httpCode w.vol w.buf
  { w with vol := vol, buf := buf, requests := w.requests ++ request.toList }

def step (w : Sensor) : SensorEvent → Option Sensor
  | .push rd =>
    if Next msg w rd then some { w with buf := w.buf.push rd, pushed := w.pushed ++ [rd] }
    else none
  | .send now curlCode httpCode => some (sent msg w now curlCode httpCode)

/-- The channel as a machine. -/
def machine : EventMachine.Machine Sensor SensorEvent := ⟨initial, step msg⟩

/-- The tuples of the acknowledged requests. -/
def acknowledged (requests : List Request) : List (Int × Int) :=
  (requests.filter fun q => q.Ok).flatMap fun q => q.body.tuples

/-- What the readings mean: the times after the first one, with the counter since
then. -/
def report : List Reading → List (Int × Int)
  | [] => []
  | first :: rest => rest.map fun r => (r.time.tvSec, msg.counter r - msg.counter first)

/-- A request that follows a failed one has all its tuples. -/
def Retried (requests : List Request) : Prop :=
  requests.IsChain fun q next => ¬q.Ok → q.body.tuples ⊆ next.body.tuples

/-- Every reading after the first one is reported at most once and in order, and
none is left out. -/
structure Delivered (w : Sensor) : Prop where
  acknowledged : acknowledged w.requests <+: report msg w.pushed
  retried : Retried w.requests

instance (requests : List Request) : Decidable (Retried requests) :=
  inferInstanceAs (Decidable (List.IsChain _ requests))

/-- The call sends a request. -/
def Posts (w : Sensor) (now : Int) : Prop :=
  ¬msg.Waits now w.vol.progress ∧ ¬Nothing w.vol.progress w.waiting

instance (w : Sensor) (now : Int) : Decidable (Posts msg w now) :=
  inferInstanceAs (Decidable (_ ∧ _))

/-- A time and a difference that `json_object_new_int` takes. -/
def Fits (first r : Reading) : Prop :=
  (-2 ^ 31 ≤ r.time.tvSec ∧ r.time.tvSec < 2 ^ 31) ∧
    -2 ^ 31 ≤ msg.counter r - msg.counter first ∧ msg.counter r - msg.counter first < 2 ^ 31

instance (first r : Reading) : Decidable (Fits msg first r) :=
  inferInstanceAs (Decidable (_ ∧ _))

/-- The first counter of the channel is positive. -/
def Baseline (w : Sensor) : Prop := ∀ first ∈ w.pushed.head?, 1 ≤ msg.counter first

instance (w : Sensor) : Decidable (Baseline msg w) :=
  inferInstanceAs (Decidable (∀ first ∈ w.pushed.head?, _))

/-- A request does no harm: none of the readings that wait was reported by a
failed request, and, if it is acknowledged, the first counter is positive and the
numbers fit, or there is no positive counter with a reading after it yet. -/
def Harmless (w : Sensor) : SensorEvent → Prop
  | .push _ => True
  | .send now curlCode httpCode =>
    Posts msg w now →
      (∀ r ∈ w.waiting, w.vol.progress.firstTs < r.time.tvSec) ∧
      (success curlCode httpCode →
        (Baseline msg w ∧ ∀ first ∈ w.pushed.head?, ∀ r ∈ w.waiting, Fits msg first r) ∨
        (w.vol.progress.firstCounter = 0 ∧
          (w.waiting.dropWhile fun r => msg.counter r < 1).length ≤ 1))

instance (w : Sensor) : ∀ e, Decidable (Harmless msg w e)
  | .push _ => isTrue trivial
  | .send _ _ _ => inferInstanceAs (Decidable (_ → _))

/-- A reading in the queue is not newer than what was reported: no later request
reports it. -/
def Stale (w : Sensor) : Prop := ∃ r ∈ w.vol.values, r.time.tvSec ≤ w.vol.progress.firstTs

/-- While requests do no harm: the pushed readings are the acknowledged ones
(`gone`) and those that wait, and the progress fits to them. -/
structure Inv (w : Sensor) (gone : List Reading) : Prop where
  pushed : w.pushed = gone ++ w.waiting
  sorted : (0 :: w.pushed.map (fun r => r.time.tvSec)).Pairwise (· < ·)
  acknowledged : Sensor.acknowledged w.requests = if Baseline msg w then report msg gone else []
  unset : w.pushed = [] → w.vol.progress.firstCounter = 0
  baseline : Baseline msg w → ∀ first ∈ w.pushed.head?,
    (w.vol.progress.firstCounter = 0 ∧ gone = []) ∨
      (w.vol.progress.firstCounter = msg.counter first ∧ (gone = [] → Stale w))
  retried : Retried w.requests
  failed : ∀ q ∈ w.requests.getLast?, ¬q.Ok → q.body.tuples ≠ [] → Stale w

variable {msg}

theorem inv_initial : Inv msg initial [] where
  pushed := rfl
  sorted := List.pairwise_singleton _ _
  acknowledged := by split <;> rfl
  unset := fun _ => rfl
  baseline := fun _ first h => by cases h
  retried := List.IsChain.nil
  failed := fun q h => by cases h

/-! ## The report -/

theorem report_append {l : List Reading} (hl : l ≠ []) (m : List Reading) :
    report msg (l ++ m) = report msg l ++
      m.map fun r => (r.time.tvSec, msg.counter r - msg.counter (l.head hl)) := by
  cases l with
  | nil => exact absurd rfl hl
  | cons first rest => exact List.map_append

theorem report_prefix (l m : List Reading) : report msg l <+: report msg (l ++ m) := by
  by_cases hl : l = []
  · rw [hl]
    exact List.nil_prefix
  · rw [report_append hl]
    exact List.prefix_append _ _

theorem acknowledged_append (requests : List Request) (q : Request) :
    acknowledged (requests ++ [q]) =
      acknowledged requests ++ if q.Ok then q.body.tuples else [] := by
  unfold acknowledged
  by_cases h : q.Ok <;> simp [List.filter_append, h]

/-- What the invariant says of the books. -/
theorem Inv.delivered {w : Sensor} {gone : List Reading} (hw : Inv msg w gone) :
    Delivered msg w := by
  refine ⟨?_, hw.retried⟩
  rw [hw.acknowledged, hw.pushed]
  split
  · exact report_prefix gone w.waiting
  · exact List.nil_prefix

/-! ## The steps -/

theorem inv_push {w : Sensor} {rd : Reading} {gone : List Reading} (hrd : Next msg w rd)
    (hw : Inv msg w gone) :
    Inv msg { w with buf := w.buf.push rd, pushed := w.pushed ++ [rd] } gone := by
  by_cases hne : w.pushed = []
  · -- the first reading: nothing was sent
    obtain ⟨hgone, hwaiting⟩ := List.append_eq_nil_iff.mp (hw.pushed.symm.trans hne)
    have hack : Sensor.acknowledged w.requests = [] := by
      rw [hw.acknowledged, hgone]
      split <;> rfl
    refine ⟨?_, ?_, ?_, ?_, ?_, hw.retried, hw.failed⟩
    · simp [waiting, hw.pushed]
    · simpa [hne] using hrd.positive
    · rw [hack, hgone]
      split <;> rfl
    · simp
    · exact fun _ _ _ => Or.inl ⟨hw.unset hne, hgone⟩
  · have hhead : (w.pushed ++ [rd]).head? = w.pushed.head? := List.head?_append_of_ne_nil _ hne
    have hbase : Baseline msg { w with buf := w.buf.push rd, pushed := w.pushed ++ [rd] } ↔
        Baseline msg w := by
      unfold Baseline
      rw [hhead]
    refine ⟨?_, ?_, ?_, ?_, ?_, hw.retried, hw.failed⟩
    · simp [waiting, hw.pushed]
    · rw [List.map_append, ← List.cons_append, List.pairwise_append]
      refine ⟨hw.sorted, List.pairwise_singleton _ _, ?_⟩
      intro t ht u hu
      obtain rfl : u = rd.time.tvSec := by simpa using hu
      rcases List.mem_cons.mp ht with rfl | ht
      · exact hrd.positive
      · obtain ⟨r, hr, rfl⟩ := List.mem_map.mp ht
        exact hrd.later r hr
    · rw [hw.acknowledged]
      exact if_congr hbase.symm rfl rfl
    · simp
    · intro hb first hfirst
      rw [hhead] at hfirst
      exact hw.baseline (hbase.mp hb) first hfirst

/-- The loop over the buffer takes every reading. -/
theorem queued_eq_waiting {w : Sensor} {gone : List Reading} (hw : Inv msg w gone) :
    queued w.vol.values w.buf = w.waiting := by
  have hsorted : (0 :: w.waiting.map (fun r => r.time.tvSec)).Pairwise (· < ·) := by
    have h := hw.sorted
    rw [hw.pushed, List.map_append] at h
    exact h.sublist (List.Sublist.cons_cons _ (List.sublist_append_right _ _))
  unfold queued
  refine congrArg (w.vol.values ++ ·) (taken_of_sorted ?_)
  have hnodes : (w.buf.sent.nodes.map Node.val).map (fun r => r.time.tvSec) =
      w.buf.sent.nodes.map (fun it => it.val.time.tvSec) := List.map_map
  rw [waiting, List.map_append, hnodes] at hsorted
  -- the loop takes what is later than the last reading of the queue
  rcases List.eq_nil_or_concat w.vol.values with hnil | ⟨l, r, hlr⟩
  · simpa [hnil] using hsorted
  · rw [hlr] at hsorted ⊢
    simp only [List.concat_eq_append, List.getLast?_concat, Option.map_some, Option.getD_some]
    refine hsorted.sublist ?_
    simp

section Request
variable {w : Sensor} {gone : List Reading}

theorem fresh_sorted (hw : Inv msg w gone)
    (hfresh : ∀ r ∈ w.waiting, w.vol.progress.firstTs < r.time.tvSec) :
    (w.vol.progress.firstTs :: w.waiting.map (fun r => r.time.tvSec)).Pairwise (· < ·) := by
  have h := hw.sorted
  rw [hw.pushed, List.map_append] at h
  refine List.pairwise_cons.mpr ⟨?_, ?_⟩
  · intro t ht
    obtain ⟨r, hr, rfl⟩ := List.mem_map.mp ht
    exact hfresh r hr
  · exact (List.pairwise_append.mp (List.pairwise_cons.mp h).2).2.1

theorem not_stale (hfresh : ∀ r ∈ w.waiting, w.vol.progress.firstTs < r.time.tvSec) :
    ¬Stale w := by
  rintro ⟨r, hr, hle⟩
  have hlt := hfresh r (List.mem_append_left _ hr)
  omega

/-- The readings of a request: the first one of all is not reported. -/
def news (gone waiting : List Reading) : List Reading :=
  if gone = [] then waiting.tail else waiting

/-- The request of a channel with a positive first counter reports what is new,
as differences to it. -/
theorem build_of_baseline (hw : Inv msg w gone) (hb : Baseline msg w)
    (hfresh : ∀ r ∈ w.waiting, w.vol.progress.firstTs < r.time.tvSec)
    {first : Reading} (hfirst : first ∈ w.pushed.head?) :
    (msg.build w.vol.progress w.waiting).1.firstCounter = msg.counter first ∧
      (msg.build w.vol.progress w.waiting).2 =
        (news gone w.waiting).map (msg.tuple (msg.counter first)) := by
  have hsorted := fresh_sorted hw hfresh
  have hpos : 1 ≤ msg.counter first := hb first hfirst
  rcases hw.baseline hb first hfirst with ⟨hzero, rfl⟩ | ⟨hcounter, hstale⟩
  · -- the first reading sets the baseline
    have hpushed : w.pushed = w.waiting := hw.pushed
    obtain ⟨rest, hrest⟩ := List.head?_eq_some_iff.mp hfirst
    rw [← hpushed, hrest] at hsorted ⊢
    rw [build, if_pos (by omega)]
    refine ⟨build_firstCounter hpos rest, build_tuples hpos ?_⟩
    exact hsorted.sublist (List.Sublist.cons_cons _ (List.sublist_cons_self _ _))
  · have hgone : gone ≠ [] := fun h => not_stale hfresh (hstale h)
    have hp : 1 ≤ w.vol.progress.firstCounter := by omega
    rw [build_firstCounter hp, build_tuples hp hsorted, hcounter, news, if_neg hgone]
    exact ⟨rfl, rfl⟩

/-- What is new is the rest of the report. -/
theorem report_append_news (hw : Inv msg w gone) {first : Reading}
    (hfirst : first ∈ w.pushed.head?) :
    report msg w.pushed = report msg gone ++
      (news gone w.waiting).map fun r => (r.time.tvSec, msg.counter r - msg.counter first) := by
  have hpushed := hw.pushed
  by_cases hgone : gone = []
  · rw [hgone, List.nil_append] at hpushed
    obtain ⟨rest, hrest⟩ := List.head?_eq_some_iff.mp hfirst
    rw [news, if_pos hgone, ← hpushed, hrest, hgone]
    rfl
  · have hhead : gone.head hgone = first := by
      rw [hpushed, List.head?_append_of_ne_nil _ hgone, List.head?_eq_some_head hgone] at hfirst
      exact Option.some.inj hfirst
    rw [hpushed, report_append hgone, hhead, news, if_neg hgone]

theorem tuple_of_fits {first r : Reading} (h : Fits msg first r) :
    msg.tuple (msg.counter first) r = (r.time.tvSec, msg.counter r - msg.counter first) := by
  obtain ⟨⟨hlo, hhi⟩, hlo', hhi'⟩ := h
  rw [tuple, CString.toInt_of_mem hlo hhi, CString.toInt_of_mem hlo' hhi']

/-- No request before this one failed with something to report. -/
theorem retried_append (hw : Inv msg w gone)
    (hfresh : ∀ r ∈ w.waiting, w.vol.progress.firstTs < r.time.tvSec) (q : Request) :
    Retried (w.requests ++ [q]) := by
  refine List.isChain_append.mpr ⟨hw.retried, List.isChain_singleton q, ?_⟩
  intro p hp next hnext hfailed
  have hnil : p.body.tuples = [] := by
    by_contra hne
    exact not_stale hfresh (hw.failed p hp hfailed hne)
  rw [hnil]
  exact List.nil_subset _

/-- A call without a request moves the buffer to the queue. -/
theorem inv_moved (hw : Inv msg w gone) :
    Inv msg { w with vol := ⟨w.waiting, w.vol.progress⟩, buf := emptied w.buf } gone := by
  have hstale : Stale w →
      Stale { w with vol := ⟨w.waiting, w.vol.progress⟩, buf := emptied w.buf } := by
    rintro ⟨r, hr, hle⟩
    exact ⟨r, List.mem_append_left _ hr, hle⟩
  refine ⟨?_, hw.sorted, hw.acknowledged, hw.unset, ?_, hw.retried, ?_⟩
  · simpa [waiting] using hw.pushed
  · intro hb first hfirst
    exact (hw.baseline hb first hfirst).imp id (And.imp id fun h hgone => hstale (h hgone))
  · intro q hq hfailed hne
    exact hstale (hw.failed q hq hfailed hne)

/-- A failed request leaves the readings in the queue, reported. -/
theorem inv_failed (hw : Inv msg w gone)
    (hfresh : ∀ r ∈ w.waiting, w.vol.progress.firstTs < r.time.tvSec)
    (hsome : ¬Nothing w.vol.progress w.waiting) {q : Request} (hq : ¬q.Ok)
    (hbody : q.body.tuples = (msg.build w.vol.progress w.waiting).2) :
    Inv msg { w with
      vol := ⟨w.waiting, (msg.build w.vol.progress w.waiting).1⟩
      buf := (emptied w.buf).undelete
      requests := w.requests ++ [q] } gone := by
  have hreported : (msg.build w.vol.progress w.waiting).2 ≠ [] →
      ∃ r ∈ w.waiting, r.time.tvSec ≤ (msg.build w.vol.progress w.waiting).1.firstTs := by
    intro hne
    rcases @build_firstTs msg w.vol.progress w.waiting with ⟨hnil, -⟩ | ⟨r, hr, hts⟩
    · exact absurd hnil hne
    · exact ⟨r, hr, hts.le⟩
  refine ⟨?_, hw.sorted, ?_, ?_, ?_, retried_append hw hfresh q, ?_⟩
  · simpa [waiting] using hw.pushed
  · rw [acknowledged_append, if_neg hq, List.append_nil]
    exact hw.acknowledged
  · intro hnil
    have hwaiting := (List.append_eq_nil_iff.mp (hw.pushed.symm.trans hnil)).2
    exact absurd (Or.inl (by simp [hwaiting])) hsome
  · intro hb first hfirst
    obtain ⟨hcounter, htuples⟩ := build_of_baseline hw hb hfresh hfirst
    refine Or.inr ⟨hcounter, fun hgone => hreported ?_⟩
    -- nothing was acknowledged: the request had a reading after the first one
    rw [htuples, news, if_pos hgone]
    intro hnil
    have hlen : w.waiting.length < 2 := by
      have := congrArg List.length (List.map_eq_nil_iff.mp hnil)
      rw [List.length_tail, List.length_nil] at this
      omega
    rcases hw.baseline hb first hfirst with ⟨hzero, -⟩ | ⟨-, hstale⟩
    · exact hsome (Or.inr ⟨hlen, hzero⟩)
    · exact not_stale hfresh (hstale hgone)
  · intro p hp _ hne
    rw [List.getLast?_concat] at hp
    obtain rfl : q = p := Option.some.inj hp
    exact hreported (hbody ▸ hne)

/-- A positive first counter and no reading after it: there is no request. -/
theorem nothing_of_baseline (hw : Inv msg w gone) (hb : Baseline msg w)
    (hzero : w.vol.progress.firstCounter = 0)
    (hlen : (w.waiting.dropWhile fun r => msg.counter r < 1).length ≤ 1) :
    Nothing w.vol.progress w.waiting := by
  cases hwaiting : w.waiting with
  | nil => exact Or.inl Nat.zero_lt_one
  | cons r rest =>
    have hpushed := hw.pushed
    have hfirst : w.pushed.head? = some r := by
      by_cases hgone : gone = []
      · rw [hpushed, hgone, hwaiting]
        rfl
      · -- then the baseline is set
        obtain ⟨first, hfirst⟩ : ∃ first, first ∈ w.pushed.head? :=
          ⟨_, List.head?_eq_some_head (by rw [hpushed]; simp [hgone])⟩
        have hpos : 1 ≤ msg.counter first := hb first hfirst
        rcases hw.baseline hb first hfirst with ⟨-, h⟩ | ⟨h, -⟩
        · exact absurd h hgone
        · omega
    have hpos : 1 ≤ msg.counter r := hb r hfirst
    rw [hwaiting, List.dropWhile_cons_of_neg (by simpa using hpos)] at hlen
    exact Or.inr ⟨Nat.lt_succ_of_le hlen, hzero⟩

/-- An acknowledged request takes all that waits off the queue. -/
theorem inv_succeeded (hw : Inv msg w gone)
    (hfresh : ∀ r ∈ w.waiting, w.vol.progress.firstTs < r.time.tvSec)
    (hsome : ¬Nothing w.vol.progress w.waiting)
    (hsafe : (Baseline msg w ∧ ∀ first ∈ w.pushed.head?, ∀ r ∈ w.waiting, Fits msg first r) ∨
      (w.vol.progress.firstCounter = 0 ∧
        (w.waiting.dropWhile fun r => msg.counter r < 1).length ≤ 1))
    {q : Request} (hq : q.Ok)
    (hbody : q.body.tuples = (msg.build w.vol.progress w.waiting).2) :
    Inv msg { w with
      vol := ⟨[], (msg.build w.vol.progress w.waiting).1⟩
      buf := emptied w.buf
      requests := w.requests ++ [q] } w.pushed := by
  have hne : w.pushed ≠ [] := by
    intro hnil
    have hwaiting := (List.append_eq_nil_iff.mp (hw.pushed.symm.trans hnil)).2
    exact hsome (Or.inl (by simp [hwaiting]))
  refine ⟨?_, hw.sorted, ?_, fun hnil => absurd hnil hne, ?_, retried_append hw hfresh q, ?_⟩
  · simp [waiting]
  · rw [acknowledged_append, if_pos hq, hbody, hw.acknowledged]
    by_cases hb : Baseline msg w
    · obtain ⟨first, hfirst⟩ : ∃ first, first ∈ w.pushed.head? :=
        ⟨_, List.head?_eq_some_head hne⟩
      have hfits : ∀ r ∈ w.waiting, Fits msg first r := by
        rcases hsafe with ⟨-, hfits⟩ | ⟨hzero, hlen⟩
        · exact hfits first hfirst
        · exact absurd (nothing_of_baseline hw hb hzero hlen) hsome
      -- what the request reports comes after what was acknowledged before
      rw [if_pos hb, (build_of_baseline hw hb hfresh hfirst).2]
      refine Eq.trans ?_ (if_pos hb).symm
      rw [report_append_news hw hfirst]
      refine congrArg (report msg gone ++ ·) (List.map_congr_left fun r hr => ?_)
      refine tuple_of_fits (hfits r ?_)
      unfold news at hr
      split at hr
      · exact List.mem_of_mem_tail hr
      · exact hr
    · -- without a baseline the request reports nothing
      rcases hsafe with ⟨hb', -⟩ | ⟨hzero, hlen⟩
      · exact absurd hb' hb
      · rw [build_of_no_baseline (by omega) hlen, if_neg hb, List.append_nil]
        exact (if_neg hb).symm
  · intro hb first hfirst
    exact Or.inr ⟨(build_of_baseline hw hb hfresh hfirst).1, fun hnil => absurd hnil hne⟩
  · intro p hp hfailed
    rw [List.getLast?_concat] at hp
    obtain rfl : q = p := Option.some.inj hp
    exact absurd hq hfailed

end Request

/-! ## A call -/

section Call
variable {w : Sensor} {gone : List Reading} {now curlCode httpCode : Int}

theorem sent_of_waits (h : msg.Waits now w.vol.progress) :
    sent msg w now curlCode httpCode = w := by
  simp only [sent, send, if_pos h, Option.toList_none, List.append_nil]

theorem sent_of_nothing (hsensor : msg.channelType = .sensor) (hw : Inv msg w gone)
    (hwaits : ¬msg.Waits now w.vol.progress) (h : Nothing w.vol.progress w.waiting) :
    sent msg w now curlCode httpCode =
      { w with vol := ⟨w.waiting, w.vol.progress⟩, buf := emptied w.buf } := by
  simp only [sent, send, if_neg hwaits, jsonObject, hsensor, jsonObjectMeasurements,
    queued_eq_waiting hw, if_pos h, Option.toList_none, List.append_nil]

theorem sent_of_posts (hsensor : msg.channelType = .sensor) (hw : Inv msg w gone)
    (h : Posts msg w now) :
    sent msg w now curlCode httpCode =
      let settled := settle curlCode httpCode
        ⟨w.waiting, (msg.build w.vol.progress w.waiting).1⟩ (emptied w.buf)
      { w with
        vol := settled.1
        buf := settled.2
        requests := w.requests ++
          [⟨.measurements (msg.build w.vol.progress w.waiting).2, curlCode, httpCode⟩] } := by
  simp only [sent, send, if_neg h.1, jsonObject, hsensor, jsonObjectMeasurements,
    queued_eq_waiting hw, if_neg h.2, Option.toList_some]

/-- A harmless call keeps the invariant. -/
theorem inv_sent (hsensor : msg.channelType = .sensor) (hw : Inv msg w gone)
    (h : Harmless msg w (.send now curlCode httpCode)) :
    ∃ gone', Inv msg (sent msg w now curlCode httpCode) gone' := by
  by_cases hwaits : msg.Waits now w.vol.progress
  · rw [sent_of_waits hwaits]
    exact ⟨gone, hw⟩
  by_cases hnothing : Nothing w.vol.progress w.waiting
  · rw [sent_of_nothing hsensor hw hwaits hnothing]
    exact ⟨gone, inv_moved hw⟩
  obtain ⟨hfresh, hsafe⟩ := h ⟨hwaits, hnothing⟩
  rw [sent_of_posts hsensor hw ⟨hwaits, hnothing⟩]
  by_cases hok : success curlCode httpCode
  · simp only [settle, if_pos hok]
    exact ⟨w.pushed, inv_succeeded hw hfresh hnothing (hsafe hok) hok rfl⟩
  · simp only [settle, if_neg hok]
    exact ⟨gone, inv_failed hw hfresh hnothing hok rfl⟩

end Call

/-- One step. -/
theorem inv_step (hsensor : msg.channelType = .sensor) {w t : Sensor} {e : SensorEvent}
    (hw : ∃ gone, Inv msg w gone) (he : Harmless msg w e) (h : step msg w e = some t) :
    ∃ gone, Inv msg t gone := by
  obtain ⟨gone, hw⟩ := hw
  cases e with
  | push rd =>
    obtain ⟨hrd, rfl⟩ := Option.ite_some_none_eq_some.mp h
    exact ⟨gone, inv_push hrd hw⟩
  | send now curlCode httpCode =>
    obtain rfl := Option.some.inj h
    exact inv_sent hsensor hw he

/-- **Readings are delivered once and in order.**  In every run whose requests do
no harm, the acknowledged tuples are the readings after the first one, from the
front, and a failed request is contained in the next one. -/
theorem delivered_of_harmless (hsensor : msg.channelType = .sensor) {es : List SensorEvent}
    {w : Sensor} (hes : (machine msg).EachStep (Harmless msg) initial es)
    (hrun : (machine msg).run initial es = some w) : Delivered msg w := by
  have hstep : ∀ s e t, (∃ gone, Inv msg s gone) → Harmless msg s e →
      (machine msg).step s e = some t → ∃ gone, Inv msg t gone :=
    fun _ _ _ => inv_step hsensor
  obtain ⟨gone, hw⟩ := EventMachine.Machine.run_invariant hstep ⟨[], inv_initial⟩ hes hrun
  exact hw.delivered

/-- A sensor without an interval. -/
def sensor : MySmartGrid := ⟨"k".toList, 0, .sensor, 1⟩

/-- The value of a counter at some second. -/
def counted (second : Int) (value : Rat) : Reading := ⟨false, value, ⟨second, 0⟩, .nil⟩

/-- Two requests, both acknowledged. -/
theorem delivered_of_harmless_acknowledged :
    ∃ w, (machine sensor).run initial [.push (counted 1 5), .push (counted 2 7), .send 100 0 200,
      .push (counted 3 9), .send 200 0 200] = some w ∧
      acknowledged w.requests = [(2, 2), (3, 4)] ∧ Delivered sensor w := by
  obtain ⟨w, hrun, hack⟩ : ∃ w, (machine sensor).run initial [.push (counted 1 5),
      .push (counted 2 7), .send 100 0 200, .push (counted 3 9), .send 200 0 200] = some w ∧
      acknowledged w.requests = [(2, 2), (3, 4)] :=
    EventMachine.Machine.exists_run_of_any (by decide +kernel)
  exact ⟨w, hrun, hack, delivered_of_harmless rfl (by decide +kernel) hrun⟩

/-- The tuple of a failed request is not in the next one, and it is lost: the
reports go on with the reading after it. -/
theorem failed_tuple_lost :
    ∃ w, (machine sensor).run initial [.push (counted 1 5), .push (counted 2 7), .send 100 0 500,
      .send 200 0 200, .push (counted 3 9), .send 300 0 200] = some w ∧
      ¬acknowledged w.requests <+: report sensor w.pushed ∧ ¬Retried w.requests :=
  EventMachine.Machine.exists_run_of_any (by decide +kernel)

end Sensor
end VzLogger.MySmartGrid
