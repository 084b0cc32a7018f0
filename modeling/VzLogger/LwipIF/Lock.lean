import VzLogger.LwipIF.Model

/-! # The lwIP lock

Calls into lwIP from the main loop stand between `cyw43_arch_lwip_begin` and
`cyw43_arch_lwip_end`.  Every path through `connect`, `reconnect`, `sendData` and
`initServer` is followed here with what lwIP decides on it, for any number of `LwipIF`
objects that share the lock.  A call of `connect` that waits for the resolver ends in a
step of its own; the callbacks, which run under lwIP's own lock, come in between.

A `World` keeps the books of the calls that have come back: the depth of the lock before
and after each.  Two paths of `connect` leave the lock taken, that with a cached address
and that without a pcb, and no other path does (`balanced_iff`).
-/
namespace VzLogger.LwipIF.Lock

/-- `VZ_SRV_INIT` to `VZ_SRV_SERVER`. -/
inductive SrvState where
  | init | dns | connecting | ready | sending | replied | retry | server
  deriving DecidableEq, Repr

/-- The members of `LwipIF`: whether there are pcbs, and the state. -/
structure Connection where
  pcb : Bool
  serverPcb : Bool
  state : SrvState
  deriving DecidableEq

structure World where
  conns : Nat → Connection
  /-- calls of `cyw43_arch_lwip_begin` less those of `cyw43_arch_lwip_end` -/
  depth : Int
  /-- the object whose `connect` waits for the resolver, and the depth before the call -/
  waiting : Option (Nat × Int)
  /-- the depth before and after each call that has come back -/
  calls : List (Int × Int)

/-- How a call goes on. -/
inductive Ret where
  | returned
  /-- with a `VZException` -/
  | thrown
  | waiting
  deriving DecidableEq

inductive Event where
  /-- `connect()`, `alloc` telling whether a pcb could be allocated -/
  | connect (i : Nat) (alloc : Bool) (lookup : Lookup)
  | reconnect (i : Nat) (alloc : Bool) (lookup : Lookup)
  /-- `connect()` sees that the resolver is done -/
  | resolved
  /-- what `altcp_output` returns is handed on -/
  | sendData (i : Nat) (write : Err)
  | initServer (i : Nat) (bind : Err) (listen : Bool)
  /-- `vz_altcp_dns_found` -/
  | dnsFound (i : Nat) (found : Bool) (connect : Err)
  /-- `vz_altcp_connected` -/
  | connected (i : Nat) (err : Err)
  /-- `vz_altcp_poll` -/
  | poll (i : Nat)
  /-- `vz_altcp_err` -/
  | err (i : Nat)
  /-- `vz_altcp_recv` with data; what a server answers is a `sendData` -/
  | recv (i : Nat)
  /-- `vz_altcp_recv` without: the peer has closed -/
  | close (i : Nat)
  /-- `vz_altcp_accept`, with a client or without -/
  | accept (i : Nat) (client : Bool)

namespace World

def lwipBegin (w : World) : World := { w with depth := w.depth + 1 }

def lwipEnd (w : World) : World := { w with depth := w.depth - 1 }

def setConn (w : World) (i : Nat) (c : Connection) : World :=
  { w with conns := Function.update w.conns i c }

def setState (w : World) (i : Nat) (state : SrvState) : World :=
  w.setConn i { w.conns i with state := state }

def setPcb (w : World) (i : Nat) (pcb : Bool) : World := w.setConn i { w.conns i with pcb := pcb }

/-- `initPCB()` on a new pcb; it throws where there is none. -/
def initPCB (w : World) (i : Nat) (alloc : Bool) : Option World :=
  if (w.conns i).pcb then some w
  else if alloc then some (w.setPcb i true)
  else none

/-- `deletePCB()`: a connection that cannot be closed is aborted. -/
def deletePCB (w : World) (i : Nat) : World := w.setPcb i false

/-- `vz_altcp_dns_found`, with an address or without, `altcp_connect` returning `connect`. -/
def dnsFound (w : World) (i : Nat) (found : Bool) (connect : Err) : World :=
  if found then
    let w := w.setState i .connecting
    if connect = .ok then w else w.setState i .init
  else w.setState i .init

def connect (w : World) (i : Nat) (alloc : Bool) (lookup : Lookup) : World × Ret :=
  let w := w.lwipBegin
  match w.initPCB i alloc with
  | none => (w, .thrown)
  | some w =>
    let w := w.setState i .dns
    match lookup with
    | .cached connect => (w.dnsFound i true connect, .returned)
    | .failed => (w.lwipEnd.setState i .init, .returned)
    | .inProgress => (w.lwipEnd, .waiting)

def reconnect (w : World) (i : Nat) (alloc : Bool) (lookup : Lookup) : World × Ret :=
  (w.lwipBegin.deletePCB i).lwipEnd.connect i alloc lookup

/-- `sendData()`, `altcp_write` returning `write`. -/
def sendData (w : World) (i : Nat) (write : Err) : World × Ret :=
  let w := w.lwipBegin
  let w := if write = .ok ∧ (w.conns i).state ≠ .server then w.setState i .sending else w
  (w.lwipEnd, .returned)

/-- `initServer()`: `altcp_bind` returns `bind`, and `altcp_listen_with_backlog` gives a
pcb or not. -/
def initServer (w : World) (i : Nat) (bind : Err) (listen : Bool) : World × Ret :=
  let w := w.lwipBegin
  if bind ≠ .ok then (w.lwipEnd, .thrown)
  else
    let w := w.setConn i { w.conns i with serverPcb := listen }
    if listen then (w.lwipEnd, .returned) else (w.lwipEnd, .thrown)

/-- The call has come back; `before` is the depth it began with. -/
def back (w : World) (before : Int) : World :=
  { w with calls := w.calls ++ [(before, w.depth)] }

/-- A call on the object `i` from `w`. -/
def call (w : World) (i : Nat) : World × Ret → World
  | (w', .waiting) => { w' with waiting := some (i, w.depth) }
  | (w', .returned) => w'.back w.depth
  | (w', .thrown) => w'.back w.depth

/-- The pcbs are there, nobody waits, and no call has been made. -/
def initial (conns : Nat → Connection) : World := ⟨conns, 0, none, []⟩

/-- One step.  The main loop calls nothing while it waits; what a server sends, it sends
from a callback. -/
def step (w : World) : Event → Option World
  | .connect i alloc lookup =>
    if w.waiting = none then some (w.call i (w.connect i alloc lookup)) else none
  | .reconnect i alloc lookup =>
    if w.waiting = none then some (w.call i (w.reconnect i alloc lookup)) else none
  | .resolved =>
    match w.waiting with
    | some (i, before) =>
      if (w.conns i).state ≠ .dns then some ({ w with waiting := none }.back before) else none
    | none => none
  | .sendData i write => some (w.call i (w.sendData i write))
  | .initServer i bind listen =>
    if w.waiting = none then some (w.call i (w.initServer i bind listen)) else none
  | .dnsFound i found connect => some (w.dnsFound i found connect)
  | .connected i err => some (w.setState i (if err = .ok then .ready else .init))
  | .poll i =>
    some (if (w.conns i).state = .connecting ∨ (w.conns i).state = .sending then w.setState i .init
      else w)
  | .err i => some ((w.setState i .init).setPcb i false)
  | .recv i => some (if (w.conns i).state = .server then w else w.setState i .replied)
  | .close i => some ((w.deletePCB i).setState i .init)
  | .accept i client =>
    some (if client then (w.setPcb i true).setState i .server else w.deletePCB i)

def machine (conns : Nat → Connection) : EventMachine.Machine World Event := ⟨initial conns, step⟩

/-- Every call that has come back left the lock as it was. -/
def Balanced (w : World) : Prop := ∀ p ∈ w.calls, p.1 = p.2

end World

/-- The address is known at once. -/
def cached : Lookup → Bool
  | .cached _ => true
  | .inProgress => false
  | .failed => false

/-- A connection is made over a pcb, and the address has to be looked up. -/
def Covered (w : World) : Event → Prop
  | .connect i alloc lookup => ((w.conns i).pcb = true ∨ alloc = true) ∧ cached lookup = false
  | .reconnect _ alloc lookup => alloc = true ∧ cached lookup = false
  | _ => True

namespace World
variable (w : World) (i : Nat)

/-! ## What the calls do to the lock -/

/-- Two worlds with the same lock and the same books. -/
def Same (w w' : World) : Prop :=
  w'.depth = w.depth ∧ w'.waiting = w.waiting ∧ w'.calls = w.calls

theorem same_setConn (c : Connection) : Same w (w.setConn i c) := ⟨rfl, rfl, rfl⟩

theorem same_setState (state : SrvState) : Same w (w.setState i state) := ⟨rfl, rfl, rfl⟩

theorem same_setPcb (pcb : Bool) : Same w (w.setPcb i pcb) := ⟨rfl, rfl, rfl⟩

theorem Same.refl : Same w w := ⟨rfl, rfl, rfl⟩

theorem Same.trans {u v w : World} (huv : Same u v) (hvw : Same v w) : Same u w :=
  ⟨hvw.1.trans huv.1, hvw.2.1.trans huv.2.1, hvw.2.2.trans huv.2.2⟩

theorem same_dnsFound (found : Bool) (connect : Err) : Same w (w.dnsFound i found connect) := by
  cases found with
  | false => exact same_setState w i .init
  | true =>
    cases connect <;> exact (same_setState w i .connecting).trans ⟨rfl, rfl, rfl⟩

/-- What a call leaves the lock at: `n` levels more than it found. -/
structure Leaves (w : World) (r : World × Ret) (n : Int) : Prop where
  depth : r.1.depth = w.depth + n
  waiting : r.1.waiting = w.waiting
  calls : r.1.calls = w.calls
  /-- a call that waits has given the lock back -/
  waits : r.2 = .waiting → n = 0

theorem leaves_end {r : Ret} {w' : World} (h : Same w.lwipBegin w') :
    Leaves w (w'.lwipEnd, r) 0 := by
  obtain ⟨hdepth, hwaiting, hcalls⟩ := h
  refine ⟨?_, hwaiting, hcalls, fun _ => rfl⟩
  change w'.depth - 1 = w.depth + 0
  rw [hdepth]
  simp [lwipBegin]

theorem leaves_taken {r : Ret} {w' : World} (h : Same w.lwipBegin w') (hr : r ≠ .waiting) :
    Leaves w (w', r) 1 := ⟨h.1, h.2.1, h.2.2, fun hw => absurd hw hr⟩

theorem sendData_leaves (write : Err) : Leaves w (w.sendData i write) 0 := by
  unfold sendData
  dsimp only
  split
  · exact leaves_end w (same_setState _ i _)
  · exact leaves_end w (Same.refl _)

theorem initServer_leaves (bind : Err) (listen : Bool) :
    Leaves w (w.initServer i bind listen) 0 := by
  unfold initServer
  dsimp only
  split
  · exact leaves_end w (Same.refl _)
  · split
    · exact leaves_end w (same_setConn _ i _)
    · exact leaves_end w (same_setConn _ i _)

/-- There is a pcb then, or there is none to be had. -/
theorem initPCB_cases (alloc : Bool) :
    (((w.conns i).pcb = true ∨ alloc = true) ∧ ∃ w', w.initPCB i alloc = some w' ∧ Same w w') ∨
      (¬((w.conns i).pcb = true ∨ alloc = true) ∧ w.initPCB i alloc = none) := by
  unfold initPCB
  by_cases hpcb : (w.conns i).pcb = true
  · rw [if_pos hpcb]
    exact Or.inl ⟨Or.inl hpcb, w, rfl, Same.refl w⟩
  · rw [if_neg hpcb]
    cases alloc with
    | true => exact Or.inl ⟨Or.inr rfl, _, rfl, same_setPcb w i true⟩
    | false => exact Or.inr ⟨by simp [hpcb], rfl⟩

/-- `connect` over a pcb gives the lock back unless the address is cached. -/
theorem connect_leaves (alloc : Bool) (lookup : Lookup) :
    Leaves w (w.connect i alloc lookup)
      (if ((w.conns i).pcb = true ∨ alloc = true) ∧ cached lookup = false then 0 else 1) := by
  unfold connect
  dsimp only
  have hcases := w.lwipBegin.initPCB_cases i alloc
  rcases hcases with ⟨hpcb, w', hinit, hsame⟩ | ⟨hpcb, hinit⟩
  · have hdns := hsame.trans (same_setState w' i .dns)
    rw [hinit]
    cases lookup with
    | cached connect =>
      rw [if_neg fun h => by cases h.2]
      exact leaves_taken w (hdns.trans (same_dnsFound _ i true connect)) (by decide)
    | inProgress =>
      rw [if_pos ⟨hpcb, rfl⟩]
      exact leaves_end w hdns
    | failed =>
      rw [if_pos ⟨hpcb, rfl⟩]
      exact leaves_end w (hdns.trans (same_setState _ i .init))
  · rw [hinit, if_neg fun h => hpcb h.1]
    exact leaves_taken w (Same.refl _) (by decide)

/-- `reconnect` has to allocate, as it deletes the pcb there was. -/
theorem reconnect_leaves (alloc : Bool) (lookup : Lookup) :
    Leaves w (w.reconnect i alloc lookup)
      (if alloc = true ∧ cached lookup = false then 0 else 1) := by
  have hconnect := (w.lwipBegin.deletePCB i).lwipEnd.connect_leaves i alloc lookup
  have hpcb : ((w.lwipBegin.deletePCB i).lwipEnd.conns i).pcb = false := by
    simp [deletePCB, setPcb, setConn, lwipEnd]
  have hdepth : (w.lwipBegin.deletePCB i).lwipEnd.depth = w.depth :=
    Int.add_sub_cancel w.depth 1
  simp only [hpcb, Bool.false_eq_true, false_or] at hconnect
  refine ⟨?_, hconnect.waiting, hconnect.calls, hconnect.waits⟩
  rw [← hdepth]
  exact hconnect.depth

/-! ## Runs -/

/-- The books are balanced, and the call that waits has given the lock back. -/
structure Inv (w : World) : Prop where
  balanced : w.Balanced
  waits : ∀ i before, w.waiting = some (i, before) → w.depth = before

theorem Inv.same {w w' : World} (h : Inv w) (hsame : Same w w') : Inv w' := by
  obtain ⟨hdepth, hwaiting, hcalls⟩ := hsame
  refine ⟨?_, ?_⟩
  · rw [Balanced, hcalls]
    exact h.balanced
  · rw [hwaiting, hdepth]
    exact h.waits

variable {w i}

theorem Leaves.back {r : World × Ret} {n : Int} (h : Leaves w r n) (hr : r.2 ≠ .waiting) :
    w.call i r = r.1.back w.depth := by
  obtain ⟨w', ret⟩ := r
  cases ret with
  | returned => rfl
  | thrown => rfl
  | waiting => exact absurd rfl hr

/-- A call that leaves the lock as it was keeps the books balanced. -/
theorem Leaves.inv {r : World × Ret} (hinv : Inv w) (hidle : w.waiting = none ∨ r.2 ≠ .waiting)
    (h : Leaves w r 0) : Inv (w.call i r) := by
  have hdepth : r.1.depth = w.depth := h.depth.trans (Int.add_zero _)
  by_cases hr : r.2 = .waiting
  · obtain ⟨w', ret⟩ := r
    subst hr
    refine ⟨?_, ?_⟩
    · intro p hp
      exact hinv.balanced p (h.calls ▸ hp)
    · rintro j before hwait
      obtain ⟨-, rfl⟩ := Prod.mk.inj (Option.some.inj hwait)
      exact hdepth
  · rw [h.back hr]
    refine ⟨?_, ?_⟩
    · intro p hp
      rcases List.mem_append.mp hp with hp | hp
      · exact hinv.balanced p (h.calls ▸ hp)
      · obtain rfl := List.mem_singleton.mp hp
        exact hdepth.symm
    · intro j before hwait
      exact hdepth.trans (hinv.waits j before (h.waiting ▸ hwait))

/-- A call that leaves the lock taken shows in the books. -/
theorem Leaves.unbalanced {r : World × Ret} (h : Leaves w r 1) : ¬(w.call i r).Balanced := by
  have hr : r.2 ≠ .waiting := fun hr => absurd (h.waits hr) (by decide)
  rw [h.back hr]
  intro hbalanced
  have hpair := hbalanced (w.depth, r.1.depth) (List.mem_append_right _ List.mem_cons_self)
  have hdepth := h.depth
  simp only at hpair
  omega

theorem inv_step {e : Event} {w' : World} (hinv : Inv w) (hcovered : Covered w e)
    (hstep : w.step e = some w') : Inv w' := by
  cases e with
  | connect i alloc lookup =>
    have hleaves := w.connect_leaves i alloc lookup
    simp only [Covered] at hcovered
    rw [if_pos hcovered] at hleaves
    simp only [step, Option.ite_none_right_eq_some, Option.some.injEq] at hstep
    obtain ⟨hidle, rfl⟩ := hstep
    exact hleaves.inv hinv (Or.inl hidle)
  | reconnect i alloc lookup =>
    have hleaves := w.reconnect_leaves i alloc lookup
    simp only [Covered] at hcovered
    rw [if_pos hcovered] at hleaves
    simp only [step, Option.ite_none_right_eq_some, Option.some.injEq] at hstep
    obtain ⟨hidle, rfl⟩ := hstep
    exact hleaves.inv hinv (Or.inl hidle)
  | resolved =>
    unfold step at hstep
    cases hwait : w.waiting with
    | none => simp [hwait] at hstep
    | some p =>
      obtain ⟨i, before⟩ := p
      simp only [hwait, Option.ite_none_right_eq_some, Option.some.injEq] at hstep
      obtain ⟨-, rfl⟩ := hstep
      refine ⟨?_, fun j b hb => by cases hb⟩
      intro p hp
      rcases List.mem_append.mp hp with hp | hp
      · exact hinv.balanced p hp
      · obtain rfl := List.mem_singleton.mp hp
        exact (hinv.waits i before hwait).symm
  | sendData i write =>
    obtain rfl := Option.some.inj hstep
    exact (w.sendData_leaves i write).inv hinv (Or.inr (by rintro ⟨⟩))
  | initServer i bind listen =>
    simp only [step, Option.ite_none_right_eq_some, Option.some.injEq] at hstep
    obtain ⟨hidle, rfl⟩ := hstep
    exact (w.initServer_leaves i bind listen).inv hinv (Or.inl hidle)
  | dnsFound i found connect =>
    obtain rfl := Option.some.inj hstep
    exact hinv.same (w.same_dnsFound i found connect)
  | connected i err =>
    obtain rfl := Option.some.inj hstep
    exact hinv.same (w.same_setState i _)
  | poll i =>
    obtain rfl := Option.some.inj hstep
    split
    · exact hinv.same (w.same_setState i _)
    · exact hinv
  | err i =>
    obtain rfl := Option.some.inj hstep
    exact hinv.same ((w.same_setState i .init).trans (same_setPcb _ i false))
  | recv i =>
    obtain rfl := Option.some.inj hstep
    split
    · exact hinv
    · exact hinv.same (w.same_setState i _)
  | close i =>
    obtain rfl := Option.some.inj hstep
    exact hinv.same ((w.same_setPcb i false).trans (same_setState _ i .init))
  | accept i client =>
    obtain rfl := Option.some.inj hstep
    cases client with
    | true => exact hinv.same ((w.same_setPcb i true).trans (same_setState _ i .server))
    | false => exact hinv.same (w.same_setPcb i false)

theorem step_unbalanced {e : Event} {w' : World} (hnot : ¬Covered w e)
    (hstep : w.step e = some w') : ¬w'.Balanced := by
  cases e with
  | connect i alloc lookup =>
    have hleaves := w.connect_leaves i alloc lookup
    simp only [Covered] at hnot
    rw [if_neg hnot] at hleaves
    simp only [step, Option.ite_none_right_eq_some, Option.some.injEq] at hstep
    obtain ⟨-, rfl⟩ := hstep
    exact hleaves.unbalanced
  | reconnect i alloc lookup =>
    have hleaves := w.reconnect_leaves i alloc lookup
    simp only [Covered] at hnot
    rw [if_neg hnot] at hleaves
    simp only [step, Option.ite_none_right_eq_some, Option.some.injEq] at hstep
    obtain ⟨-, rfl⟩ := hstep
    exact hleaves.unbalanced
  | _ => exact absurd trivial hnot

/-- **The lock is balanced after every call exactly in the runs where each call of
`connect` has a pcb and an address that is not cached.** -/
theorem balanced_iff (conns : Nat → Connection) (es : List Event) :
    (machine conns).Throughout Balanced (initial conns) es ↔
      (machine conns).EachStep Covered (initial conns) es := by
  have hP : ∀ w (_ : List Event), Inv w → w.Balanced := fun w _ hinv => hinv.balanced
  have hkeep : ∀ w e (_ : List Event) w', Inv w → Covered w e →
      (machine conns).step w e = some w' → Inv w' := by
    intro w e _ w' hinv hcovered hstep
    exact inv_step hinv hcovered hstep
  have hbreak : ∀ w e (_ : List Event) w', Inv w → ¬Covered w e →
      (machine conns).step w e = some w' → ¬w'.Balanced := by
    intro w e _ w' _ hnot hstep
    exact step_unbalanced hnot hstep
  have hinitial : Inv (initial conns) :=
    ⟨fun p hp => (List.not_mem_nil hp).elim, fun i before h => nomatch h⟩
  exact EventMachine.Machine.throughout_iff_eachStep hP hkeep hbreak hinitial

/-- The second connection to a host: its address is cached by then. -/
theorem unbalanced_cached :
    ¬(machine fun _ => ⟨true, false, .init⟩).Throughout Balanced
      (initial fun _ => ⟨true, false, .init⟩) [.connect 0 true (.cached .ok)] := by
  rintro ⟨-, hrest⟩
  have hbalanced := hrest _ rfl (0, 1) (List.mem_cons_self ..)
  exact absurd hbalanced (by decide)

end World
end VzLogger.LwipIF.Lock
