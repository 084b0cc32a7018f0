import VzLogger.InfluxDB.Model
import VzLogger.ReadingThread
import VzLogger.Lib.EventMachine

/-! # A call against the reading thread

`InfluxDB::send` step by step, one critical section of the buffer at a time; the
reading thread may run between any two of them, and while the request is under
way.  The marks of the loop are only meant for the time of the request.  To the
reading thread they are no different from the marks of an aggregation: its
`clean` erases the readings, and `undelete` comes too late for them.
-/
namespace VzLogger.InfluxDB

/-- Where `send()` stands. -/
inductive SendPc where
  | idle
  /-- the buffer was found too big -/
  | tooBig
  | deltaDelete (n : Nat)
  /-- the surplus is marked deleted -/
  | marked
  /-- the limit has been seen to -/
  | ready
  /-- the request is under way; `visited` are the readings the loop marked
  deleted, as they were before -/
  | posted (visited : List (Node Reading))

structure Interleaved where
  buf : Buffer
  filter : FilterState
  pc : SendPc

inductive InterleavedEvent where
  | reader (e : ReaderEvent)
  /-- `buf->size() > _max_buffer_size` -/
  | size
  | delta
  | mark
  | clean
  | build
  | respond (curlCode httpCode : Int)

namespace Interleaved

/-- A new channel. -/
def initial (aggmode : AggMode) : Interleaved :=
  ⟨Buffer.initial aggmode, FilterState.initial, .idle⟩

def step (db : InfluxDB) (w : Interleaved) : InterleavedEvent → Option Interleaved
  | .reader e => (w.buf.readerStep e).map fun buf => { w with buf := buf }
  | .size =>
    match w.pc with
    | .idle =>
      some { w with pc := if db.bufferLimit < w.buf.sent.nodes.length then .tooBig else .ready }
    | _ => none
  | .delta =>
    match w.pc with
    | .tooBig => some { w with pc := .deltaDelete (db.deltaDelete w.buf.sent.nodes.length) }
    | _ => none
  | .mark =>
    match w.pc with
    | .deltaDelete n => some { w with buf := w.buf.markFirst n, pc := .marked }
    | _ => none
  | .clean =>
    match w.pc with
    | .marked => some { w with buf := w.buf.clean, pc := .ready }
    | _ => none
  | .build =>
    match w.pc with
    | .ready =>
      let d := db.built w.filter w.buf
      some ⟨db.build w.filter w.buf, d.filter,
        if d.taken.isEmpty then .idle else .posted (w.buf.sent.nodes.take d.reached)⟩
    | _ => none
  | .respond curlCode httpCode =>
    match w.pc with
    | .posted _ => some { w with buf := settle curlCode httpCode w.buf, pc := .idle }
    | _ => none

/-- The two threads as a machine. -/
def machine (db : InfluxDB) (aggmode : AggMode) :
    EventMachine.Machine Interleaved InterleavedEvent := ⟨initial aggmode, step db⟩

/-! ## While the request is under way -/

/-- Every visited reading is in the buffer, without a mark. -/
def Restored (visited : List (Node Reading)) (buf : Buffer) : Prop :=
  ∀ p ∈ visited, ⟨p.addr, p.val.reset⟩ ∈ buf.sent.nodes

/-- A visited reading lies where the loop left it. -/
def Waiting (p : Node Reading) (w : Interleaved) : Prop :=
  ⟨p.addr, p.val.markDelete⟩ ∈ w.buf.sent.nodes

/-- Nothing is at the address of a visited reading. -/
structure Erased (p : Node Reading) (w : Interleaved) : Prop where
  old : p.addr < w.buf.sent.next
  absent : ∀ it ∈ w.buf.sent.nodes, it.addr ≠ p.addr

section Reader
variable {db : InfluxDB} {w t : Interleaved} {r : ReaderEvent} {p : Node Reading}

theorem step_reader (h : step db w (.reader r) = some t) :
    w.buf.readerStep r = some t.buf ∧ t.pc = w.pc := by
  obtain ⟨buf, hbuf, rfl⟩ := Option.map_eq_some_iff.mp h
  exact ⟨hbuf, rfl⟩

theorem waiting_step (hw : Waiting p w) (hr : r ≠ .clean) (h : step db w (.reader r) = some t) :
    Waiting p t :=
  Buffer.mem_readerStep hr (step_reader h).1 hw rfl

theorem dead_step (hw : w.buf.Dead p.addr) (h : step db w (.reader r) = some t) :
    t.buf.Dead p.addr :=
  Buffer.dead_readerStep hw (step_reader h).1

theorem erased_step (hw : Erased p w) (h : step db w (.reader r) = some t) : Erased p t := by
  obtain ⟨hnext, haddr⟩ := Buffer.addr_readerStep (step_reader h).1
  refine ⟨lt_of_lt_of_le hw.old hnext, fun it hit heq => ?_⟩
  obtain ⟨n, hn, hna, -⟩ := haddr it hit (heq ▸ hw.old)
  exact hw.absent n hn (hna.trans heq)

theorem erased_clean (hw : w.buf.Dead p.addr) (h : step db w (.reader .clean) = some t) :
    Erased p t := by
  obtain rfl := Option.some.inj h
  refine ⟨hw.old, fun it hit heq => ?_⟩
  have hlive := Buffer.mem_live.mp hit
  rw [hw.deleted it hlive.1 heq] at hlive
  exact absurd hlive.2 (by decide)

end Reader

/-- What the reading thread keeps while it runs alone. -/
theorem run_readers {db : InfluxDB} {aggmode : AggMode} {Inv : Interleaved → Prop}
    {window : List ReaderEvent} {v t : Interleaved}
    (hrun : (machine db aggmode).run v (window.map .reader) = some t) (hv : Inv v)
    (hstep : ∀ w t, ∀ r ∈ window, Inv w → step db w (.reader r) = some t → Inv t) : Inv t := by
  have hes : ∀ e ∈ window.map InterleavedEvent.reader, ∃ r ∈ window, e = .reader r := by
    intro e he
    obtain ⟨r, hr, rfl⟩ := List.mem_map.mp he
    exact ⟨r, hr, rfl⟩
  refine EventMachine.Machine.run_induction_of_forall hrun hes hv ?_
  rintro w _ t hw ⟨r, hr, rfl⟩ hst
  exact hstep w t r hr hw hst

/-- The loop of a call that posts a request visits some readings, and marks them. -/
theorem build_posted {db : InfluxDB} {w v : Interleaved} {visited : List (Node Reading)}
    (h : step db w .build = some v) (hpc : v.pc = .posted visited) :
    visited ≠ [] ∧ ∀ p ∈ visited, Waiting p v ∧ v.buf.Dead p.addr := by
  simp only [step] at h
  split at h
  · obtain rfl := Option.some.inj h
    dsimp only at hpc
    split at hpc
    · cases hpc
    · rename_i htaken
      obtain rfl := SendPc.posted.inj hpc
      constructor
      · intro hnil
        have hsub : (db.built w.filter w.buf).taken.Sublist
            (w.buf.sent.nodes.take (db.built w.filter w.buf).reached) :=
          drainLoop.taken_sublist w.filter 0 w.buf.sent.nodes
        rw [hnil, List.sublist_nil] at hsub
        exact htaken (List.isEmpty_iff.mpr hsub)
      · intro p hp
        exact ⟨List.mem_append_left _ (List.mem_map.mpr ⟨p, hp, rfl⟩), Buffer.dead_of_mem_take hp⟩
  · cases h

/-- **When the marks are taken back.**  Whatever ran before the loop: after a
failed request, every reading the loop marked is again in the buffer, as it was
and without a mark, exactly if no `clean` of the reading thread ran while the
request was under way. -/
theorem restored_iff_not_cleaned (db : InfluxDB) (aggmode : AggMode)
    {w v t u : Interleaved} {visited : List (Node Reading)} {window : List ReaderEvent}
    {curlCode httpCode : Int}
    (hbuild : (machine db aggmode).step w .build = some v) (hposted : v.pc = .posted visited)
    (hwindow : (machine db aggmode).run v (window.map .reader) = some t)
    (hrespond : (machine db aggmode).step t (.respond curlCode httpCode) = some u)
    (hfailed : ¬success curlCode httpCode) :
    Restored visited u.buf ↔ ReaderEvent.clean ∉ window := by
  obtain ⟨hne, hmarked⟩ := build_posted hbuild hposted
  have hu : u.buf = t.buf.undelete := by
    simp only [machine, step] at hrespond
    split at hrespond
    · obtain rfl := Option.some.inj hrespond
      exact settle_failed hfailed _
    · cases hrespond
  constructor
  · intro hrestored hclean
    obtain ⟨pre, post, rfl⟩ := List.append_of_mem hclean
    obtain ⟨p, hp⟩ := List.exists_mem_of_ne_nil _ hne
    rw [List.map_append, List.map_cons, EventMachine.Machine.run_append] at hwindow
    obtain ⟨x, hpre, hpost⟩ := hwindow
    obtain ⟨y, hstep, hpost⟩ := EventMachine.Machine.run_cons.mp hpost
    -- the marked reading is erased by the `clean`, and its address is not used again
    have hx : x.buf.Dead p.addr := run_readers hpre (hmarked p hp).2 fun _ _ _ _ => dead_step
    have hy : step db x (.reader .clean) = some y := hstep
    have ht : Erased p t := run_readers hpost (erased_clean hx hy) fun _ _ _ _ => erased_step
    have hmem := hrestored p hp
    rw [hu, Buffer.undelete_nodes] at hmem
    obtain ⟨n, hn, heq⟩ := List.mem_map.mp hmem
    exact ht.absent n hn (Node.mk.inj heq).1
  · intro hclean p hp
    have ht : Waiting p t := run_readers hwindow (hmarked p hp).1 fun _ _ r hr hw =>
      waiting_step hw fun h => hclean (h ▸ hr)
    rw [hu, Buffer.undelete_nodes]
    exact List.mem_map.mpr ⟨_, ht, rfl⟩

theorem restored_iff_not_cleaned_push : ∃ w v t u,
    (machine defaults .none).run (initial .none) [.reader (.push (.tick 1)), .size] = some w ∧
      (machine defaults .none).step w .build = some v ∧ v.pc = .posted [⟨0, .tick 1⟩] ∧
      (machine defaults .none).run v ([.push (.tick 2)].map .reader) = some t ∧
      (machine defaults .none).step t (.respond 0 500) = some u ∧
      (Restored [⟨0, .tick 1⟩] u.buf ↔ ReaderEvent.clean ∉ [.push (.tick 2)]) := by
  obtain ⟨w, v, t, u, hrun, hbuild, hposted, hwindow, hrespond⟩ : ∃ w v t u,
      (machine defaults .none).run (initial .none) [.reader (.push (.tick 1)), .size] = some w ∧
      (machine defaults .none).step w .build = some v ∧ v.pc = .posted [⟨0, .tick 1⟩] ∧
      (machine defaults .none).run v ([.push (.tick 2)].map .reader) = some t ∧
      (machine defaults .none).step t (.respond 0 500) = some u :=
    ⟨_, _, _, _, rfl, rfl, rfl, rfl, rfl⟩
  exact ⟨w, v, t, u, hrun, hbuild, hposted, hwindow, hrespond,
    restored_iff_not_cleaned defaults .none hbuild hposted hwindow hrespond (by decide)⟩

/-- A `clean` of the reading thread during a failing request: the reading is gone. -/
theorem cleaned_under_way_loses : ∃ w v t u,
    (machine defaults .none).run (initial .none) [.reader (.push (.tick 1)), .size] = some w ∧
      (machine defaults .none).step w .build = some v ∧ v.pc = .posted [⟨0, .tick 1⟩] ∧
      (machine defaults .none).run v ([.clean].map .reader) = some t ∧
      (machine defaults .none).step t (.respond 0 500) = some u ∧
      u.buf.sent.nodes = [] ∧ ¬Restored [⟨0, .tick 1⟩] u.buf := by
  refine ⟨_, _, _, _, rfl, rfl, rfl, rfl, rfl, rfl, ?_⟩
  intro h
  exact absurd (h _ (List.mem_singleton_self _)) (List.not_mem_nil)

end Interleaved
end VzLogger.InfluxDB
