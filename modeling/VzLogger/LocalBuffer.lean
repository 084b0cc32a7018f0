import VzLogger.Buffer
import VzLogger.Lib.CString
import VzLogger.Lib.EventMachine

/-! # The buffer of the local interface

`MeterMap::sendData` copies what is in a channel's buffer to the list that the
local HTTP interface serves, in each cycle, before it wakes up the interface that
drains the buffer.  Nothing records what was copied: an element that is still
there in the next cycle, and not marked deleted, is copied again.

The reading thread goes through its cycle step by step (`Pc`), and element by element
through the copy, which does not lock the buffer: between any two steps the channel's
interface may mark, erase or take back readings, also the one that the copy stands at.  A
request may shrink the list, but not while the copy holds the mutex of the list.

Beside the program's state a `World` keeps the books: the elements that were appended, what
the end of a copy left in the buffer (`left`), and what a copy found marked (`skipped`).
-/
namespace VzLogger

/-- A time and a value. -/
structure ChannelData where
  t : Int
  v : Rat
  deriving DecidableEq

namespace LocalBuffer

/-- Where the reading thread stands. -/
inductive Pc where
  | reading
  | passed
  | aggregated
  | cleaned
  | shrunk
  /-- in the loop of `add_ch_to_localbuffer`, before its test -/
  | copy (it : Option Nat)
  /-- before `++it` -/
  | advance (it : Nat)
  /-- the iterator was used although its element had been erased -/
  | astray
  deriving DecidableEq

/-- Whether `add_ch_to_localbuffer` holds the mutex of the list. -/
def Pc.copying : Pc → Bool
  | .copy _ | .advance _ | .astray => true
  | _ => false

/-- The channel and its list, and the books. -/
structure World where
  buf : Buffer
  localbuffer : List ChannelData
  pc : Pc
  appended : List (Node Reading)
  left : List (Node Reading)
  skipped : List Nat

inductive Event where
  | push (rd : Reading)
  /-- the critical section of `aggregate` -/
  | aggregatePass
  /-- the `clean` at its end -/
  | aggregateClean
  | clean
  | shrink (nowMs : Int)
  | add
  /-- a statement of `add_ch_to_localbuffer` -/
  | statement
  /-- the interface marks the first readings -/
  | apiMark (k : Nat)
  | apiClean
  /-- the interface takes back the marks of the first readings -/
  | apiUndelete (k : Nat)
  /-- a request to the local interface -/
  | request (nowMs : Int)
  deriving DecidableEq

/-- The options of the meter, and `buffer_length`. -/
structure Config where
  aggmode : AggMode
  aggtime : Int
  aggFixedInterval : Bool
  bufferLength : Int

variable (cfg : Config)

/-- `minT`: now - time to keep in buffer.  The product is an `int`. -/
def minT (nowMs : Int) : Int := nowMs - CString.toInt (1000 * cfg.bufferLength)

/-- `shrink_localbuffer`: remove old data, if the buffer is time based. -/
def shrinkLocalbuffer (nowMs : Int) (l : List ChannelData) : List ChannelData :=
  if 0 ≤ cfg.bufferLength then l.dropWhile (fun d => d.t < minT cfg nowMs) else l

/-- What `add_ch_to_localbuffer` makes of a reading. -/
def channelData (it : Node Reading) : ChannelData := ⟨it.val.timeMs, it.val.value⟩

/-- The end of `add_ch_to_localbuffer`: the oldest items are removed if the buffer is size
based. -/
def keepNewest (l : List ChannelData) : List ChannelData :=
  if cfg.bufferLength < 0 then l.drop (l.length - (-cfg.bufferLength).toNat) else l

/-- `add_ch_to_localbuffer`, with a buffer that stays as it is: all not-deleted items are
appended. -/
def addChToLocalbuffer (buf : Buffer) (l : List ChannelData) : List ChannelData :=
  let l := l ++ (Buffer.live buf.sent.nodes).map channelData
  if cfg.bufferLength < 0 then l.drop (l.length - (-cfg.bufferLength).toNat) else l

/-- An element without its mark. -/
def unmarked (it : Node Reading) : Node Reading := ⟨it.addr, it.val.reset⟩

def initial : World := ⟨Buffer.initial cfg.aggmode, [], .reading, [], [], []⟩

namespace World

/-- The body of the loop. -/
def visit (w : World) (it : Node Reading) : World :=
  if it.val.deleted then { w with pc := .advance it.addr, skipped := w.skipped ++ [it.addr] }
  else
    { w with
      localbuffer := w.localbuffer ++ [channelData it]
      pc := .advance it.addr
      appended := w.appended ++ [it] }

/-- A statement of `add_ch_to_localbuffer`. -/
def statement (w : World) : Option World :=
  match w.pc with
  | .copy none =>
    some { w with
      localbuffer := keepNewest cfg w.localbuffer
      pc := .reading
      left := w.left ++ w.buf.sent.nodes.map unmarked }
  | .copy (some a) =>
    match w.buf.sent.find a with
    | some it => some (w.visit it)
    | none => some { w with pc := .astray }
  | .advance a =>
    match w.buf.sent.find a with
    | some _ => some { w with pc := .copy (w.buf.sent.after a) }
    | none => some { w with pc := .astray }
  | _ => none

end World

/-- A new reading is constructed without a mark; mode `none` aggregates nothing. -/
def step (w : World) : Event → Option World
  | .push rd =>
    if w.pc = .reading ∧ rd.deleted = false then some { w with buf := w.buf.push rd } else none
  | .aggregatePass =>
    if w.pc = .reading then
      some { w with
        buf := if w.buf.aggmode = .none then w.buf
          else w.buf.aggregatePass cfg.aggtime cfg.aggFixedInterval
        pc := .passed }
    else none
  | .aggregateClean =>
    if w.pc = .passed then
      some { w with
        buf := if w.buf.aggmode = .none then w.buf else w.buf.clean
        pc := .aggregated }
    else none
  | .clean =>
    if w.pc = .aggregated then some { w with buf := w.buf.clean, pc := .cleaned } else none
  | .shrink nowMs =>
    if w.pc = .cleaned then
      some { w with localbuffer := shrinkLocalbuffer cfg nowMs w.localbuffer, pc := .shrunk }
    else none
  | .add => if w.pc = .shrunk then some { w with pc := .copy w.buf.sent.first } else none
  | .statement => w.statement cfg
  | .apiMark k => some { w with buf := w.buf.markFirst k }
  | .apiClean => some { w with buf := w.buf.clean }
  | .apiUndelete k =>
    some { w with buf := { w.buf with sent := w.buf.sent.mapFirst k Reading.reset } }
  | .request nowMs =>
    if w.pc.copying = false then
      some { w with localbuffer := shrinkLocalbuffer cfg nowMs w.localbuffer }
    else none

/-- The channel as a machine. -/
def machine : EventMachine.Machine World Event := ⟨initial cfg, step cfg⟩

/-- The list serves the last part of what was appended, and no element was appended twice. -/
structure Once (w : World) : Prop where
  found : w.pc ≠ .astray
  served : w.localbuffer <:+ w.appended.map channelData
  nodup : w.appended.Nodup

/-- The copy finds the element that it stands at; and the element is marked, or it is new: the
end of no earlier copy left it in the buffer with its present time and value. -/
def Fresh (w : World) : Event → Prop
  | .statement =>
    match w.pc with
    | .copy (some a) => ∃ it ∈ w.buf.sent.nodes, it.addr = a ∧
        (it.val.deleted = false → it ∉ w.left)
    | .advance a => ∃ it ∈ w.buf.sent.nodes, it.addr = a
    | _ => True
  | _ => True

/-- No mark is taken back that a copy has come across. -/
def Kept (w : World) : Event → Prop
  | .apiUndelete k => ∀ it ∈ w.buf.sent.nodes.take k, it.addr ∉ w.skipped
  | _ => True

/-! ## The list -/

section list
variable {cfg}

theorem shrinkLocalbuffer_suffix (nowMs : Int) (l : List ChannelData) :
    shrinkLocalbuffer cfg nowMs l <:+ l := by
  unfold shrinkLocalbuffer
  split
  · exact List.dropWhile_suffix _
  · exact List.suffix_rfl

theorem keepNewest_suffix (l : List ChannelData) : keepNewest cfg l <:+ l := by
  unfold keepNewest
  split
  · exact List.drop_suffix _ _
  · exact List.suffix_rfl

theorem addChToLocalbuffer_eq (buf : Buffer) (l : List ChannelData) :
    addChToLocalbuffer cfg buf l =
      keepNewest cfg (l ++ (Buffer.live buf.sent.nodes).map channelData) := rfl

theorem addChToLocalbuffer_suffix (buf : Buffer) (l : List ChannelData) :
    addChToLocalbuffer cfg buf l <:+ l ++ (Buffer.live buf.sent.nodes).map channelData := by
  rw [addChToLocalbuffer_eq]
  exact keepNewest_suffix _

end list

/-! ## One step -/

/-- What happens to the buffer outside of the copy: nothing, a push, changes in place of what is
not marked, or erasures. -/
inductive Changes (b : Buffer) : Buffer → Prop where
  | refl : Changes b b
  | push (rd : Reading) (h : rd.deleted = false) : Changes b (b.push rd)
  | inPlace (c : Buffer) (h : Buffer.InPlace b.sent c.sent) : Changes b c
  | clean : Changes b b.clean

/-- A step outside of the copy. -/
structure Elsewhere (w t : World) : Prop where
  pc : w.pc.copying = false ∧ t.pc.copying = false
  buf : Changes w.buf t.buf
  books : t.appended = w.appended ∧ t.left = w.left ∧ t.skipped = w.skipped
  list : t.localbuffer = w.localbuffer ∨
    ∃ nowMs, t.localbuffer = shrinkLocalbuffer cfg nowMs w.localbuffer

/-- What the interface does to the buffer. -/
inductive Drains (b : Buffer) : Event → Buffer → Prop where
  | mark (k : Nat) : Drains b (.apiMark k) (b.markFirst k)
  | clean : Drains b .apiClean b.clean
  | undelete (k : Nat) :
    Drains b (.apiUndelete k) { b with sent := b.sent.mapFirst k Reading.reset }

/-- What a step does: it goes on in the cycle outside of the copy, begins the copy or goes on
with it, or it is one of the interface. -/
theorem step_cases {w t : World} {e : Event} (h : step cfg w e = some t) :
    Elsewhere cfg w t ∨ (w.pc = .shrunk ∧ t = { w with pc := .copy w.buf.sent.first }) ∨
    (e = .statement ∧ w.statement cfg = some t) ∨
    ∃ b, Drains w.buf e b ∧ t = { w with buf := b } := by
  cases e with
  | push rd =>
    obtain ⟨⟨hpc, hrd⟩, rfl⟩ := Option.ite_some_none_eq_some.mp h
    exact .inl ⟨by simp [hpc, Pc.copying], .push rd hrd, ⟨rfl, rfl, rfl⟩, .inl rfl⟩
  | aggregatePass =>
    obtain ⟨hpc, rfl⟩ := Option.ite_some_none_eq_some.mp h
    refine .inl ⟨by simp [hpc, Pc.copying], ?_, ⟨rfl, rfl, rfl⟩, .inl rfl⟩
    dsimp only
    split
    · exact .refl
    · exact .inPlace _ (Buffer.inPlace_aggregatePass _ _ _)
  | aggregateClean =>
    obtain ⟨hpc, rfl⟩ := Option.ite_some_none_eq_some.mp h
    refine .inl ⟨by simp [hpc, Pc.copying], ?_, ⟨rfl, rfl, rfl⟩, .inl rfl⟩
    dsimp only
    split
    · exact .refl
    · exact .clean
  | clean =>
    obtain ⟨hpc, rfl⟩ := Option.ite_some_none_eq_some.mp h
    exact .inl ⟨by simp [hpc, Pc.copying], .clean, ⟨rfl, rfl, rfl⟩, .inl rfl⟩
  | shrink nowMs =>
    obtain ⟨hpc, rfl⟩ := Option.ite_some_none_eq_some.mp h
    exact .inl ⟨by simp [hpc, Pc.copying], .refl, ⟨rfl, rfl, rfl⟩, .inr ⟨nowMs, rfl⟩⟩
  | request nowMs =>
    obtain ⟨hpc, rfl⟩ := Option.ite_some_none_eq_some.mp h
    exact .inl ⟨⟨hpc, hpc⟩, .refl, ⟨rfl, rfl, rfl⟩, .inr ⟨nowMs, rfl⟩⟩
  | add =>
    obtain ⟨hpc, rfl⟩ := Option.ite_some_none_eq_some.mp h
    exact .inr (.inl ⟨hpc, rfl⟩)
  | statement => exact .inr (.inr (.inl ⟨rfl, h⟩))
  | apiMark k =>
    obtain rfl := Option.some.inj h
    exact .inr (.inr (.inr ⟨_, .mark k, rfl⟩))
  | apiClean =>
    obtain rfl := Option.some.inj h
    exact .inr (.inr (.inr ⟨_, .clean, rfl⟩))
  | apiUndelete k =>
    obtain rfl := Option.some.inj h
    exact .inr (.inr (.inr ⟨_, .undelete k, rfl⟩))

/-- The statements of the copy, where the iterator is good. -/
theorem statement_cases {w t : World} (h : w.statement cfg = some t) (hfresh : Fresh w .statement) :
    (w.pc = .copy none ∧ t = { w with
      localbuffer := keepNewest cfg w.localbuffer
      pc := .reading
      left := w.left ++ w.buf.sent.nodes.map unmarked }) ∨
    (∃ it ∈ w.buf.sent.nodes, w.pc = .copy (some it.addr) ∧
      (it.val.deleted = false → it ∉ w.left) ∧ t = w.visit it) ∨
    ∃ it ∈ w.buf.sent.nodes, w.pc = .advance it.addr ∧
      t = { w with pc := .copy (w.buf.sent.after it.addr) } := by
  unfold World.statement at h
  split at h
  · rename_i hpc
    exact .inl ⟨hpc, (Option.some.inj h).symm⟩
  · rename_i a hpc
    simp only [Fresh, hpc] at hfresh
    obtain ⟨it, hit, rfl, hnew⟩ := hfresh
    rw [NodeList.find_eq_some_iff.mpr ⟨hit, rfl⟩] at h
    exact .inr (.inl ⟨it, hit, hpc, hnew, (Option.some.inj h).symm⟩)
  · rename_i a hpc
    simp only [Fresh, hpc] at hfresh
    obtain ⟨it, hit, rfl⟩ := hfresh
    rw [NodeList.find_eq_some_iff.mpr ⟨hit, rfl⟩] at h
    exact .inr (.inr ⟨it, hit, hpc, (Option.some.inj h).symm⟩)
  · cases h

/-! ## What happens to an element -/

section buffer
variable {b c : Buffer}

theorem unmarked_of_undeleted {it : Node Reading} (h : it.val.deleted = false) :
    unmarked it = it := by
  rw [unmarked, Reading.reset_of_undeleted h]

/-- Outside of the copy an element that was there keeps its mark, and the others are new. -/
theorem Changes.spec (h : Changes b c) (hb : b.sent.Ordered) :
    c.sent.Ordered ∧ b.sent.next ≤ c.sent.next ∧ ∀ n ∈ c.sent.nodes, n.addr < b.sent.next →
      ∃ m ∈ b.sent.nodes, m.addr = n.addr ∧ (m.val.deleted = true → n.val.deleted = true) := by
  cases h with
  | refl => exact ⟨hb, Nat.le_refl _, fun n hn _ => ⟨n, hn, rfl, id⟩⟩
  | push rd hrd =>
    refine ⟨hb.pushBack rd, Nat.le_succ _, fun n hn hlt => ?_⟩
    rcases List.mem_append.mp hn with hn | hn
    · exact ⟨n, hn, rfl, id⟩
    · rw [List.mem_singleton.mp hn] at hlt
      exact absurd hlt (Nat.lt_irrefl _)
  | inPlace c h =>
    obtain ⟨g, hc, hg⟩ := h
    rw [hc]
    refine ⟨hb.sublist (by rw [NodeList.mapNodes_addrs]), Nat.le_refl _, fun n hn _ => ?_⟩
    obtain ⟨m, hm, rfl⟩ := List.mem_map.mp hn
    refine ⟨m, hm, rfl, fun hdeleted => ?_⟩
    show (g m).deleted = true
    rw [hg m hdeleted]
    exact hdeleted
  | clean =>
    exact ⟨hb.sublist (List.filter_sublist.map _), Nat.le_refl _,
      fun n hn _ => ⟨n, (Buffer.mem_live.mp hn).1, rfl, id⟩⟩

/-- The interface changes marks only. -/
theorem Drains.spec {e : Event} (h : Drains b e c) (hb : b.sent.Ordered) :
    c.sent.Ordered ∧ c.sent.next = b.sent.next ∧ ∀ n ∈ c.sent.nodes,
      ∃ m ∈ b.sent.nodes, m.addr = n.addr ∧ unmarked n = unmarked m := by
  cases h with
  | mark k =>
    refine ⟨hb.sublist (by rw [Buffer.markFirst, NodeList.mapFirst_addrs]), rfl, fun n hn => ?_⟩
    obtain ⟨m, hm, haddr, rfl | ⟨-, rfl⟩⟩ := NodeList.mem_mapFirst hn
    · exact ⟨n, hm, rfl, rfl⟩
    · exact ⟨m, hm, rfl, rfl⟩
  | clean =>
    exact ⟨hb.sublist (List.filter_sublist.map _), rfl,
      fun n hn => ⟨n, (Buffer.mem_live.mp hn).1, rfl, rfl⟩⟩
  | undelete k =>
    refine ⟨hb.sublist (by rw [NodeList.mapFirst_addrs]), rfl, fun n hn => ?_⟩
    obtain ⟨m, hm, haddr, rfl | ⟨-, rfl⟩⟩ := NodeList.mem_mapFirst hn
    · exact ⟨n, hm, rfl, rfl⟩
    · exact ⟨m, hm, rfl, rfl⟩

/-- Only what is taken back loses its mark. -/
theorem Drains.deleted {e : Event} (h : Drains b e c) {n : Node Reading} (hn : n ∈ c.sent.nodes) :
    ∃ m ∈ b.sent.nodes, m.addr = n.addr ∧ (m.val.deleted = true → n.val.deleted = true ∨
      ∃ k, e = .apiUndelete k ∧ m ∈ b.sent.nodes.take k) := by
  cases h with
  | mark k =>
    obtain ⟨m, hm, haddr, rfl | ⟨-, rfl⟩⟩ := NodeList.mem_mapFirst hn
    · exact ⟨n, hm, rfl, .inl⟩
    · exact ⟨m, hm, rfl, fun _ => .inl rfl⟩
  | clean => exact ⟨n, (Buffer.mem_live.mp hn).1, rfl, .inl⟩
  | undelete k =>
    obtain ⟨m, hm, haddr, rfl | ⟨htake, rfl⟩⟩ := NodeList.mem_mapFirst hn
    · exact ⟨n, hm, rfl, .inl⟩
    · exact ⟨m, hm, rfl, fun _ => .inr ⟨k, rfl, htake⟩⟩

end buffer

/-! ## What has been copied -/

/-- The copy that is under way is past the address. -/
def Behind : Pc → Nat → Prop
  | .copy it, a => ∀ b ∈ it, a < b
  | .advance b, a => a ≤ b
  | _, _ => False

theorem not_behind {pc : Pc} (h : pc.copying = false) (a : Nat) : ¬Behind pc a := by
  cases pc <;> first | exact id | cases h

/-- An element that was appended and is still in the buffer was left there by an earlier copy,
or the copy that is under way has been there. -/
structure Inv (w : World) : Prop where
  once : Once w
  ordered : w.buf.sent.Ordered
  old : ∀ it ∈ w.appended, it.addr < w.buf.sent.next
  copied : ∀ it ∈ w.appended, ∀ n ∈ w.buf.sent.nodes, n.addr = it.addr →
    it ∈ w.left ∨ Behind w.pc it.addr ∧ unmarked n = it

theorem inv_initial : Inv (initial cfg) where
  once := ⟨nofun, List.suffix_rfl, List.nodup_nil⟩
  ordered := NodeList.ordered_empty
  old := fun _ h => absurd h List.not_mem_nil
  copied := fun _ h => absurd h List.not_mem_nil

section step
variable {cfg} {w t : World}

theorem Inv.elsewhere (hw : Inv w) (h : Elsewhere cfg w t) : Inv t := by
  obtain ⟨happended, hleft, -⟩ := h.books
  obtain ⟨hordered, hnext, hnodes⟩ := h.buf.spec hw.ordered
  refine ⟨⟨?_, ?_, ?_⟩, hordered, ?_, ?_⟩
  · intro hastray
    have hpc := h.pc.2
    rw [hastray] at hpc
    cases hpc
  · rw [happended]
    rcases h.list with hlist | ⟨nowMs, hlist⟩
    · rw [hlist]
      exact hw.once.served
    · rw [hlist]
      exact (shrinkLocalbuffer_suffix nowMs _).trans hw.once.served
  · rw [happended]
    exact hw.once.nodup
  · rw [happended]
    exact fun it hit => Nat.lt_of_lt_of_le (hw.old it hit) hnext
  · rw [happended, hleft]
    intro it hit n hn haddr
    obtain ⟨m, hm, hmn, -⟩ := hnodes n hn (haddr ▸ hw.old it hit)
    rcases hw.copied it hit m hm (hmn.trans haddr) with h' | ⟨hbehind, -⟩
    · exact .inl h'
    · exact absurd hbehind (not_behind h.pc.1 _)

theorem Inv.begins (hw : Inv w) (hpc : w.pc = .shrunk) :
    Inv { w with pc := .copy w.buf.sent.first } where
  once := ⟨nofun, hw.once.served, hw.once.nodup⟩
  ordered := hw.ordered
  old := hw.old
  copied it hit n hn haddr := by
    rcases hw.copied it hit n hn haddr with h | ⟨hbehind, -⟩
    · exact .inl h
    · exact absurd hbehind (not_behind (by rw [hpc]; rfl) _)

theorem Inv.drains (hw : Inv w) {e : Event} {b : Buffer} (h : Drains w.buf e b) :
    Inv { w with buf := b } := by
  obtain ⟨hordered, hnext, hnodes⟩ := h.spec hw.ordered
  refine ⟨⟨hw.once.found, hw.once.served, hw.once.nodup⟩, hordered, ?_, ?_⟩
  · show ∀ it ∈ w.appended, it.addr < b.sent.next
    rw [hnext]
    exact hw.old
  · intro it hit n hn haddr
    obtain ⟨m, hm, hmn, hunmarked⟩ := hnodes n hn
    rcases hw.copied it hit m hm (hmn.trans haddr) with h' | ⟨hbehind, hit'⟩
    · exact .inl h'
    · exact .inr ⟨hbehind, hunmarked.trans hit'⟩

/-- The end of a copy: what it appended and is still there is left behind. -/
theorem Inv.ends (hw : Inv w) : Inv { w with
    localbuffer := keepNewest cfg w.localbuffer
    pc := .reading
    left := w.left ++ w.buf.sent.nodes.map unmarked } where
  once := ⟨nofun, (keepNewest_suffix _).trans hw.once.served, hw.once.nodup⟩
  ordered := hw.ordered
  old := hw.old
  copied it hit n hn haddr := by
    refine .inl (List.mem_append.mpr ?_)
    rcases hw.copied it hit n hn haddr with h | ⟨-, hunmarked⟩
    · exact .inl h
    · exact .inr (List.mem_map.mpr ⟨n, hn, hunmarked⟩)

theorem Inv.advances (hw : Inv w) {it : Node Reading} (hit : it ∈ w.buf.sent.nodes)
    (hpc : w.pc = .advance it.addr) :
    Inv { w with pc := .copy (w.buf.sent.after it.addr) } where
  once := ⟨nofun, hw.once.served, hw.once.nodup⟩
  ordered := hw.ordered
  old := hw.old
  copied x hx n hn haddr := by
    rcases hw.copied x hx n hn haddr with h | ⟨hbehind, hunmarked⟩
    · exact .inl h
    · rw [hpc] at hbehind
      refine .inr ⟨fun b hb => ?_, hunmarked⟩
      exact Nat.lt_of_le_of_lt hbehind ((hw.ordered.after_spec hit).1 b hb)

/-- **An element that is new has not been appended.** -/
theorem Inv.not_appended (hw : Inv w) {it : Node Reading} (hit : it ∈ w.buf.sent.nodes)
    (hpc : w.pc = .copy (some it.addr)) (hnew : it ∉ w.left) : it ∉ w.appended := by
  intro happended
  rcases hw.copied it happended it hit rfl with h | ⟨hbehind, -⟩
  · exact hnew h
  · rw [hpc] at hbehind
    exact Nat.lt_irrefl _ (hbehind it.addr rfl)

theorem Inv.visits (hw : Inv w) {it : Node Reading} (hit : it ∈ w.buf.sent.nodes)
    (hpc : w.pc = .copy (some it.addr)) (hnew : it.val.deleted = false → it ∉ w.left) :
    Inv (w.visit it) := by
  have hbehind : ∀ {a}, Behind w.pc a → a ≤ it.addr := by
    intro a ha
    rw [hpc] at ha
    exact Nat.le_of_lt (ha it.addr rfl)
  unfold World.visit
  split
  · exact ⟨⟨nofun, hw.once.served, hw.once.nodup⟩, hw.ordered, hw.old, fun x hx n hn haddr =>
      (hw.copied x hx n hn haddr).imp_right fun h => ⟨hbehind h.1, h.2⟩⟩
  · rename_i hdeleted
    have hlive : it.val.deleted = false := by simpa using hdeleted
    refine ⟨⟨nofun, ?_, ?_⟩, hw.ordered, ?_, ?_⟩
    · rw [List.map_append]
      obtain ⟨pre, hpre⟩ := hw.once.served
      exact ⟨pre, by rw [← hpre, List.append_assoc]; rfl⟩
    · refine List.nodup_append.mpr ⟨hw.once.nodup, List.nodup_singleton _, ?_⟩
      rintro x hx y hy rfl
      rw [List.mem_singleton.mp hy] at hx
      exact hw.not_appended hit hpc (hnew hlive) hx
    · intro x hx
      rcases List.mem_append.mp hx with hx | hx
      · exact hw.old x hx
      · rw [List.mem_singleton.mp hx]
        exact w.buf.sent.fresh it hit
    · intro x hx n hn haddr
      rcases List.mem_append.mp hx with hx | hx
      · exact (hw.copied x hx n hn haddr).imp_right fun h => ⟨hbehind h.1, h.2⟩
      · obtain rfl := List.mem_singleton.mp hx
        rw [w.buf.sent.eq_of_addr hn hit haddr]
        exact .inr ⟨Nat.le_refl _, unmarked_of_undeleted hlive⟩

theorem inv_step {e : Event} (hw : Inv w) (hfresh : Fresh w e) (h : step cfg w e = some t) :
    Inv t := by
  rcases step_cases cfg h with helse | ⟨hpc, rfl⟩ | ⟨rfl, hstatement⟩ | ⟨b, hdrains, rfl⟩
  · exact hw.elsewhere helse
  · exact hw.begins hpc
  · rcases statement_cases cfg hstatement hfresh with ⟨-, rfl⟩ | ⟨it, hit, hpc, hnew, rfl⟩ |
      ⟨it, hit, hpc, rfl⟩
    · exact hw.ends
    · exact hw.visits hit hpc hnew
    · exact hw.advances hit hpc
  · exact hw.drains hdrains

/-! ## What was left behind -/

/-- What a copy left in the buffer it has appended, or found marked; and what it found marked
stays so. -/
structure Books (w : World) : Prop where
  old : ∀ a ∈ w.skipped, a < w.buf.sent.next
  skipped : ∀ n ∈ w.buf.sent.nodes, n.addr ∈ w.skipped → n.val.deleted = true
  left : ∀ it ∈ w.left, it ∈ w.appended ∨ it.addr ∈ w.skipped
  behind : ∀ n ∈ w.buf.sent.nodes, Behind w.pc n.addr →
    unmarked n ∈ w.appended ∨ n.addr ∈ w.skipped

theorem books_initial : Books (initial cfg) where
  old := fun _ h => absurd h List.not_mem_nil
  skipped := fun _ h => absurd h List.not_mem_nil
  left := fun _ h => absurd h List.not_mem_nil
  behind := fun _ h => absurd h List.not_mem_nil

theorem Books.elsewhere (hw : Books w) (hordered : w.buf.sent.Ordered) (h : Elsewhere cfg w t) :
    Books t := by
  obtain ⟨happended, hleft, hskipped⟩ := h.books
  obtain ⟨-, hnext, hnodes⟩ := h.buf.spec hordered
  refine ⟨?_, ?_, ?_, fun n _ hbehind => absurd hbehind (not_behind h.pc.2 _)⟩
  · rw [hskipped]
    exact fun a ha => Nat.lt_of_lt_of_le (hw.old a ha) hnext
  · rw [hskipped]
    intro n hn ha
    obtain ⟨m, hm, haddr, hdeleted⟩ := hnodes n hn (hw.old _ ha)
    exact hdeleted (hw.skipped m hm (haddr ▸ ha))
  · rw [happended, hleft, hskipped]
    exact hw.left

theorem Books.drains (hw : Books w) (hordered : w.buf.sent.Ordered) {e : Event} {b : Buffer}
    (h : Drains w.buf e b) (hkept : Kept w e) : Books { w with buf := b } := by
  obtain ⟨-, hnext, hnodes⟩ := h.spec hordered
  refine ⟨?_, ?_, hw.left, ?_⟩
  · show ∀ a ∈ w.skipped, a < b.sent.next
    rw [hnext]
    exact hw.old
  · intro n hn ha
    obtain ⟨m, hm, haddr, hdeleted⟩ := h.deleted hn
    rcases hdeleted (hw.skipped m hm (haddr ▸ ha)) with hd | ⟨k, rfl, htake⟩
    · exact hd
    · exact absurd (haddr ▸ ha) (hkept m htake)
  · intro n hn hbehind
    obtain ⟨m, hm, haddr, hunmarked⟩ := hnodes n hn
    have hm' := hw.behind m hm (haddr ▸ hbehind)
    rwa [← hunmarked, haddr] at hm'

theorem Books.visits (hw : Books w) {it : Node Reading} (hit : it ∈ w.buf.sent.nodes)
    (hpc : w.pc = .copy (some it.addr)) : Books (w.visit it) := by
  have hcases : ∀ n ∈ w.buf.sent.nodes, n.addr ≤ it.addr → n = it ∨ Behind w.pc n.addr := by
    intro n hn hle
    rcases Nat.lt_or_eq_of_le hle with hlt | heq
    · rw [hpc]
      refine .inr fun b hb => ?_
      rw [← Option.some.inj hb]
      exact hlt
    · exact .inl (w.buf.sent.eq_of_addr hn hit heq)
  unfold World.visit
  split
  · rename_i hdeleted
    refine ⟨?_, ?_, ?_, ?_⟩
    · intro a ha
      rcases List.mem_append.mp ha with ha | ha
      · exact hw.old a ha
      · rw [List.mem_singleton.mp ha]
        exact w.buf.sent.fresh it hit
    · intro n hn ha
      rcases List.mem_append.mp ha with ha | ha
      · exact hw.skipped n hn ha
      · rw [w.buf.sent.eq_of_addr hn hit (List.mem_singleton.mp ha)]
        exact hdeleted
    · exact fun x hx => (hw.left x hx).imp_right (List.mem_append_left _)
    · intro n hn hle
      rcases hcases n hn hle with rfl | hbehind
      · exact .inr (List.mem_append_right _ List.mem_cons_self)
      · exact (hw.behind n hn hbehind).imp_right (List.mem_append_left _)
  · rename_i hdeleted
    refine ⟨hw.old, hw.skipped, ?_, ?_⟩
    · exact fun x hx => (hw.left x hx).imp_left (List.mem_append_left _)
    · intro n hn hle
      rcases hcases n hn hle with rfl | hbehind
      · rw [unmarked_of_undeleted (by simpa using hdeleted)]
        exact .inl (List.mem_append_right _ List.mem_cons_self)
      · exact (hw.behind n hn hbehind).imp_left (List.mem_append_left _)

theorem books_step {e : Event} (hw : Books w) (hinv : Inv w) (hkept : Kept w e) (hfresh : Fresh w e)
    (h : step cfg w e = some t) : Books t := by
  rcases step_cases cfg h with helse | ⟨hpc, rfl⟩ | ⟨rfl, hstatement⟩ | ⟨b, hdrains, rfl⟩
  · exact hw.elsewhere hinv.ordered helse
  · exact ⟨hw.old, hw.skipped, hw.left, fun n hn hbehind =>
      absurd hbehind (hinv.ordered.not_before_first hn)⟩
  · rcases statement_cases cfg hstatement hfresh with ⟨hpc, rfl⟩ | ⟨it, hit, hpc, -, rfl⟩ |
      ⟨it, hit, hpc, rfl⟩
    · refine ⟨hw.old, hw.skipped, ?_, fun n _ hbehind => hbehind.elim⟩
      intro x hx
      rcases List.mem_append.mp hx with hx | hx
      · exact hw.left x hx
      · obtain ⟨n, hn, rfl⟩ := List.mem_map.mp hx
        exact hw.behind n hn (by rw [hpc]; nofun)
    · exact hw.visits hit hpc
    · refine ⟨hw.old, hw.skipped, hw.left, fun n hn hbehind => hw.behind n hn ?_⟩
      rw [hpc]
      exact (hinv.ordered.after_spec hit).2 n hn hbehind
  · exact hw.drains hinv.ordered hdrains hkept

/-- **A copy that does not find what it should** loses its way, or appends an element again. -/
theorem not_once_of_not_fresh {e : Event} (hw : Books w) (hfresh : ¬Fresh w e)
    (h : step cfg w e = some t) : ¬Once t := by
  cases e with
  | statement =>
    change w.statement cfg = some t at h
    unfold Fresh at hfresh
    dsimp only at hfresh
    unfold World.statement at h
    split at hfresh
    · rename_i a hpc
      rw [hpc] at h
      cases hfind : w.buf.sent.find a with
      | none =>
        simp only [hfind] at h
        obtain rfl := Option.some.inj h
        exact fun honce => honce.found rfl
      | some it =>
        obtain ⟨hit, haddr⟩ := NodeList.find_eq_some_iff.mp hfind
        simp only [hfind] at h
        obtain rfl := Option.some.inj h
        obtain ⟨hlive, hleft⟩ : it.val.deleted = false ∧ it ∈ w.left := by
          by_contra hcontra
          exact hfresh ⟨it, hit, haddr, fun hlive hmem => hcontra ⟨hlive, hmem⟩⟩
        rcases hw.left it hleft with happended | hskipped
        · intro honce
          have hnodup := honce.nodup
          rw [World.visit, if_neg (by simp [hlive])] at hnodup
          exact (List.nodup_append.mp hnodup).2.2 it happended it List.mem_cons_self rfl
        · have hdeleted := hw.skipped it hit hskipped
          rw [hlive] at hdeleted
          cases hdeleted
    · rename_i a hpc
      rw [hpc] at h
      cases hfind : w.buf.sent.find a with
      | none =>
        simp only [hfind] at h
        obtain rfl := Option.some.inj h
        exact fun honce => honce.found rfl
      | some it =>
        obtain ⟨hit, haddr⟩ := NodeList.find_eq_some_iff.mp hfind
        exact absurd ⟨it, hit, haddr⟩ hfresh
    · exact absurd trivial hfresh
  | _ => exact absurd trivial hfresh

end step

/-- **When nothing is copied twice.**  In every run whose copies find each element there, and
find it marked or new, no element is appended twice.  In a run that takes back no mark that a
copy has come across, nothing less will do. -/
theorem once_iff_fresh (cfg : Config) (es : List Event) :
    ((machine cfg).EachStep Fresh (initial cfg) es →
      (machine cfg).Throughout Once (initial cfg) es) ∧
    ((machine cfg).EachStep Kept (initial cfg) es →
      (machine cfg).Throughout Once (initial cfg) es →
        (machine cfg).EachStep Fresh (initial cfg) es) := by
  constructor
  · exact EventMachine.Machine.throughout_of_eachStep (fun _ hw => hw.once)
      (fun _ _ _ hw he h => inv_step hw he h) (inv_initial cfg)
  · refine EventMachine.Machine.eachStep_of_throughout (I := fun w => Inv w ∧ Books w)
      (fun w e t hw hkept hfresh h => ?_) (fun w e t hw _ hfresh h => ?_)
      ⟨inv_initial cfg, books_initial⟩
    · exact ⟨inv_step hw.1 hfresh h, books_step hw.2 hw.1 hkept hfresh h⟩
    · exact not_once_of_not_fresh hw.2 hfresh h

/-- One cycle with one element in the buffer. -/
def cycle : List Event :=
  [.aggregatePass, .aggregateClean, .clean, .shrink 0, .add, .statement, .statement, .statement]

/-- A reading that nobody drains is appended in two cycles. -/
theorem undrained_appended_twice : ∃ w,
    (machine ⟨.none, -1, false, -10⟩).run (initial ⟨.none, -1, false, -10⟩)
      (.push (.tick 1) :: cycle ++ cycle) = some w ∧
    w.appended = [⟨0, .tick 1⟩, ⟨0, .tick 1⟩] ∧ w.localbuffer = [⟨1000, 1⟩, ⟨1000, 1⟩] ∧
    ¬Once w := by
  obtain ⟨w, hrun, happended, hlist⟩ : ∃ w,
      (machine ⟨.none, -1, false, -10⟩).run (initial ⟨.none, -1, false, -10⟩)
        (.push (.tick 1) :: cycle ++ cycle) = some w ∧
      w.appended = [⟨0, .tick 1⟩, ⟨0, .tick 1⟩] ∧ w.localbuffer = [⟨1000, 1⟩, ⟨1000, 1⟩] :=
    EventMachine.Machine.exists_run_of_any (by decide +kernel)
  refine ⟨w, hrun, happended, hlist, fun honce => ?_⟩
  have hnodup := honce.nodup
  rw [happended] at hnodup
  exact absurd hnodup (by decide)

end LocalBuffer
end VzLogger
