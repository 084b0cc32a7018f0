import VzLogger.Buffer

/-! # The reading thread

What the reading thread of a meter does to the buffer of a channel, one critical
section a step: it pushes readings, and `MeterMap::sendData` aggregates and
cleans.  `Buffer::aggregate` is two steps, its pass and its own `clean`, and no
step at all in mode `none`.
-/
namespace VzLogger

inductive ReaderEvent where
  | push (rd : Reading)
  | aggregatePass (aggtime : Int) (aggFixedInterval : Bool)
  | clean
  deriving DecidableEq

namespace Buffer

/-- The buffer after a step of the reading thread.  Every reading is constructed
without a mark. -/
def readerStep (b : Buffer) : ReaderEvent → Option Buffer
  | .push rd => if rd.deleted then none else some (b.push rd)
  | .aggregatePass aggtime aggFixedInterval =>
    if b.aggmode = .none then none else some (b.aggregatePass aggtime aggFixedInterval)
  | .clean => some b.clean

theorem readerStep_push {b t : Buffer} {rd : Reading} (h : b.readerStep (.push rd) = some t) :
    rd.deleted = false ∧ t = b.push rd := by
  simp only [readerStep] at h
  split at h
  · cases h
  · rename_i hrd
    exact ⟨by simpa using hrd, (Option.some.inj h).symm⟩

/-- A marked reading stays as it is until a `clean`. -/
theorem mem_readerStep {b t : Buffer} {e : ReaderEvent} (he : e ≠ .clean)
    (h : b.readerStep e = some t) {it : Node Reading} (hit : it ∈ b.sent.nodes)
    (hdel : it.val.deleted = true) : it ∈ t.sent.nodes := by
  cases e with
  | push rd =>
    obtain ⟨-, rfl⟩ := readerStep_push h
    exact List.mem_append_left _ hit
  | aggregatePass aggtime aggFixedInterval =>
    simp only [readerStep] at h
    split at h
    · cases h
    · obtain rfl := Option.some.inj h
      obtain ⟨f, hf, hdf⟩ := inPlace_aggregatePass aggtime aggFixedInterval b
      rw [hf, NodeList.mapNodes_nodes]
      exact List.mem_map.mpr ⟨it, hit, by rw [hdf it hdel]⟩
  | clean => exact absurd rfl he

/-- What is at an address after a step was there before, marked if it was
marked; a pushed reading has a new address. -/
theorem addr_readerStep {b t : Buffer} {e : ReaderEvent} (h : b.readerStep e = some t) :
    b.sent.next ≤ t.sent.next ∧ ∀ it ∈ t.sent.nodes, it.addr < b.sent.next →
      ∃ n ∈ b.sent.nodes, n.addr = it.addr ∧ (n.val.deleted = true → it.val.deleted = true) := by
  cases e with
  | push rd =>
    obtain ⟨-, rfl⟩ := readerStep_push h
    refine ⟨Nat.le_succ _, fun it hit hlt => ?_⟩
    rcases List.mem_append.mp hit with hit | hit
    · exact ⟨it, hit, rfl, id⟩
    · -- the pushed reading is at `next`, which was not given out before
      rw [List.mem_singleton.mp hit] at hlt
      exact absurd hlt (Nat.lt_irrefl _)
  | aggregatePass aggtime aggFixedInterval =>
    simp only [readerStep] at h
    split at h
    · cases h
    · obtain rfl := Option.some.inj h
      obtain ⟨f, hf, hdf⟩ := inPlace_aggregatePass aggtime aggFixedInterval b
      rw [hf]
      refine ⟨Nat.le_refl _, fun it hit _ => ?_⟩
      obtain ⟨n, hn, rfl⟩ := List.mem_map.mp hit
      exact ⟨n, hn, rfl, fun hd => by rw [hdf n hd]; exact hd⟩
  | clean =>
    obtain rfl := Option.some.inj h
    exact ⟨Nat.le_refl _, fun it hit _ => ⟨it, (mem_live.mp hit).1, rfl, id⟩⟩

/-- Whatever is at an address that was once given out is marked deleted. -/
structure Dead (b : Buffer) (addr : Nat) : Prop where
  old : addr < b.sent.next
  deleted : ∀ it ∈ b.sent.nodes, it.addr = addr → it.val.deleted = true

theorem dead_readerStep {b t : Buffer} {e : ReaderEvent} {addr : Nat} (hb : b.Dead addr)
    (h : b.readerStep e = some t) : t.Dead addr := by
  obtain ⟨hnext, haddr⟩ := addr_readerStep h
  refine ⟨lt_of_lt_of_le hb.old hnext, fun it hit heq => ?_⟩
  obtain ⟨n, hn, hna, hdel⟩ := haddr it hit (heq ▸ hb.old)
  exact hdel (hb.deleted n hn (hna.trans heq))

theorem dead_markFirst {b : Buffer} {addr : Nat} (hb : b.Dead addr) (k : Nat) :
    (b.markFirst k).Dead addr := by
  refine ⟨hb.old, fun it hit heq => ?_⟩
  rcases List.mem_append.mp hit with hit | hit
  · obtain ⟨n, -, rfl⟩ := List.mem_map.mp hit
    rfl
  · exact hb.deleted it (List.mem_of_mem_drop hit) heq

/-- What the first `k` marks hit is dead. -/
theorem dead_of_mem_take {b : Buffer} {k : Nat} {it : Node Reading}
    (hit : it ∈ b.sent.nodes.take k) : (b.markFirst k).Dead it.addr := by
  have hmark : ⟨it.addr, it.val.markDelete⟩ ∈ (b.markFirst k).sent.nodes :=
    List.mem_append_left _ (List.mem_map.mpr ⟨it, hit, rfl⟩)
  refine ⟨b.sent.fresh it (List.mem_of_mem_take hit), fun n hn heq => ?_⟩
  rw [(b.markFirst k).sent.eq_of_addr hn hmark heq]
  rfl

end Buffer
end VzLogger
