import VzLogger.Lib.EventMachine
import VzLogger.Lib.Sync
import Mathlib.Data.List.AList

/-! # Sessions shared by key

`CurlSessionProvider` hands out one curl session for each key.  The map of the
sessions has a mutex, and every entry has another one, which the holder of the
session keeps locked until it returns it.

`get_easy_session` and `return_session` are programs of one statement each step,
run by any number of threads.  A thread returns only what it was given, and
`curl_easy_init` returns a handle.  `assert(0 == pthread_mutex_lock(..))` takes
the mutex: this is the build with assertions, which is the default one.

What a thread has of a session is its `phase`: nothing, the locked entry, or the
entry in use.  A statement changes one entry and one phase (`Effect`), and the
entry agrees with the phases of all threads (`Agrees`).
-/
namespace VzLogger

/-- An entry of the map; `eh` is the address of the handle. -/
structure CurlUsage (T : Type) where
  eh : Nat
  inUse : Bool
  mutex : Sync.Mutex T

/-- Where a thread is: in `get_easy_session` (`get`) or `return_session` (`ret`),
before the statement that the name says. -/
inductive CurlSessionProvider.Pc where
  | idle
  | getLock (key : List Char)
  | getFind (key : List Char)
  | getUnlock (key : List Char)
  /-- the loop of `pthread_mutex_timedlock` -/
  | getWait (key : List Char)
  | getAssert (key : List Char)
  | getSet (key : List Char)
  | getHandle (key : List Char)
  /-- `curl_easy_init` -/
  | getInit (key : List Char)
  | getInsert (key : List Char) (eh : Nat)
  | getDone (key : List Char) (eh : Nat)
  | retLock (key : List Char) (eh : Nat)
  | retFind (key : List Char) (eh : Nat)
  | retAssert (key : List Char) (eh : Nat)
  | retClear (key : List Char)
  | retUnlock (key : List Char)
  | retDone (key : List Char)
  /-- an assertion failed -/
  | assertion
  /-- an entry that is not there, or a mutex that the thread does not hold -/
  | fault
  deriving DecidableEq

/-- The provider and its threads, and the books: the handles of the sessions a
thread holds, all sessions given so far, and the keys that sessions were created
for. -/
structure CurlSessionProvider (T : Type) where
  map : AList fun _ : List Char => CurlUsage T
  mapMutex : Sync.Mutex T
  pc : T → CurlSessionProvider.Pc
  held : T → List Char → Option Nat
  gave : List (List Char × Nat)
  created : List (List Char)

/-- Calls and steps of the threads. -/
inductive SessionEvent (T : Type) where
  | getEasySession (t : T) (key : List Char)
  | returnSession (t : T) (key : List Char)
  /-- `curl_easy_init` returns -/
  | init (t : T) (eh : Nat)
  | step (t : T)

/-- The thread that moves. -/
def SessionEvent.thread {T : Type} : SessionEvent T → T
  | .getEasySession t _ | .returnSession t _ | .init t _ | .step t => t

namespace CurlSessionProvider
variable {T : Type}

def initial : CurlSessionProvider T :=
  ⟨∅, .free, fun _ => .idle, fun _ _ => none, [], []⟩

variable [DecidableEq T]

/-- The thread goes on to a statement. -/
def goto (w : CurlSessionProvider T) (t : T) (pc : Pc) : CurlSessionProvider T :=
  { w with pc := Function.update w.pc t pc }

/-- The thread returns from `get_easy_session`. -/
def give (w : CurlSessionProvider T) (t : T) (key : List Char) (eh : Nat) :
    CurlSessionProvider T :=
  { w with
    held := Function.update w.held t (Function.update (w.held t) key (some eh))
    gave := w.gave ++ [(key, eh)] }.goto t .idle

/-- A statement about an entry. -/
def withEntry (w : CurlSessionProvider T) (t : T) (key : List Char)
    (f : CurlUsage T → Option (CurlSessionProvider T)) : Option (CurlSessionProvider T) :=
  match w.map.lookup key with
  | none => some (w.goto t .fault)
  | some cur => f cur

/-- `pthread_mutex_unlock(&_map_mutex)`. -/
def unlockMap (w : CurlSessionProvider T) (t : T)
    (k : CurlSessionProvider T → CurlSessionProvider T) : Option (CurlSessionProvider T) :=
  match w.mapMutex.unlock t with
  | none => some (w.goto t .fault)
  | some m => some (k { w with mapMutex := m })

/-- `insert`, which leaves an entry that is there alone. -/
def insertNew (map : AList fun _ : List Char => CurlUsage T) (key : List Char)
    (cu : CurlUsage T) : AList fun _ : List Char => CurlUsage T :=
  if key ∈ map then map else map.insert key cu

/-- The statement that a thread is at. -/
def exec (w : CurlSessionProvider T) (t : T) : Option (CurlSessionProvider T) :=
  match w.pc t with
  | .getLock key => (w.mapMutex.lock t).map fun m => { w with mapMutex := m }.goto t (.getFind key)
  | .getFind key => some (w.goto t (if key ∈ w.map then .getUnlock key else .getInit key))
  | .getUnlock key => w.unlockMap t fun w => w.goto t (.getWait key)
  | .getWait key =>
    w.withEntry t key fun cur =>
      (cur.mutex.lock t).map fun m =>
        { w with map := w.map.insert key { cur with mutex := m } }.goto t (.getAssert key)
  | .getAssert key =>
    w.withEntry t key fun cur => some (w.goto t (if cur.inUse then .assertion else .getSet key))
  | .getSet key =>
    w.withEntry t key fun cur =>
      some ({ w with map := w.map.insert key { cur with inUse := true } }.goto t (.getHandle key))
  | .getHandle key => w.withEntry t key fun cur => some (w.give t key cur.eh)
  | .getInsert key eh =>
    -- the new entry is copied into the map with its mutex locked
    some ({ w with
      map := insertNew w.map key ⟨eh, true, ⟨some t⟩⟩
      created := w.created ++ [key] }.goto t (.getDone key eh))
  | .getDone key eh => w.unlockMap t fun w => w.give t key eh
  | .retLock key eh =>
    (w.mapMutex.lock t).map fun m => { w with mapMutex := m }.goto t (.retFind key eh)
  | .retFind key eh =>
    -- `operator[]`
    some ({ w with map := insertNew w.map key ⟨0, false, .free⟩ }.goto t (.retAssert key eh))
  | .retAssert key eh =>
    w.withEntry t key fun cu => some (w.goto t (if eh = cu.eh then .retClear key else .assertion))
  | .retClear key =>
    w.withEntry t key fun cu =>
      some ({ w with map := w.map.insert key { cu with inUse := false } }.goto t (.retUnlock key))
  | .retUnlock key =>
    w.withEntry t key fun cu =>
      match cu.mutex.unlock t with
      | none => some (w.goto t .fault)
      | some m =>
        some ({ w with map := w.map.insert key { cu with mutex := m } }.goto t (.retDone key))
  | .retDone _ => w.unlockMap t fun w => w.goto t .idle
  | .idle | .getInit _ | .assertion | .fault => none

def step (w : CurlSessionProvider T) : SessionEvent T → Option (CurlSessionProvider T)
  | .getEasySession t key =>
    match w.pc t with
    | .idle => some (w.goto t (.getLock key))
    | _ => none
  | .returnSession t key =>
    match w.pc t, w.held t key with
    | .idle, some eh =>
      some ({ w with
        held := Function.update w.held t (Function.update (w.held t) key none) }.goto t
          (.retLock key eh))
    | _, _ => none
  | .init t eh =>
    match w.pc t with
    | .getInit key => if eh = 0 then none else some (w.goto t (.getInsert key eh))
    | _ => none
  | .step t => w.exec t

/-- The provider as a machine. -/
def machine : EventMachine.Machine (CurlSessionProvider T) (SessionEvent T) := ⟨initial, step⟩

/-! ## Phases -/

/-- What a thread has of a session: nothing, the mutex of its entry, or the
session. -/
inductive Phase where
  | out
  | locked
  | inUse
  deriving DecidableEq

/-- Something of one session, nothing of the others. -/
def only (key : List Char) (p : Phase) (k : List Char) : Phase := if k = key then p else .out

/-- What a thread has on its way through a call. -/
def Pc.phase : Pc → List Char → Phase
  | .getAssert key | .getSet key | .retUnlock key => only key .locked
  | .getHandle key | .getDone key _ | .retLock key _ | .retFind key _ | .retAssert key _
  | .retClear key => only key .inUse
  | _ => fun _ => .out

omit [DecidableEq T] in
/-- What a thread has, on its way or given to it. -/
def phase (w : CurlSessionProvider T) (t : T) (key : List Char) : Phase :=
  if w.held t key = none then (w.pc t).phase key else .inUse

/-- The thread has the session of a key. -/
def Holds (w : CurlSessionProvider T) (t : T) (key : List Char) : Prop := w.phase t key = .inUse

/-- One thread's phase for one key changes. -/
def setPhase (f : T → List Char → Phase) (t : T) (key : List Char) (p : Phase) :
    T → List Char → Phase := Function.update f t (Function.update (f t) key p)

theorem setPhase_self (f : T → List Char → Phase) (t : T) (key : List Char) (p : Phase) :
    (fun u => setPhase f t key p u key) = Function.update (fun u => f u key) t p := by
  funext u
  by_cases hu : u = t
  · subst hu
    simp [setPhase]
  · simp [setPhase, Function.update_of_ne hu]

theorem setPhase_of_ne (f : T → List Char → Phase) (t u : T) {key k : List Char} (h : k ≠ key)
    (p : Phase) : setPhase f t key p u k = f u k := by
  by_cases hu : u = t
  · subst hu
    simp [setPhase, Function.update_of_ne h]
  · simp [setPhase, Function.update_of_ne hu]

/-- The entry agrees with the phases of the threads: its mutex is held by the one
thread that has something of the session, and it is in use while that thread has
the session. -/
structure Agrees (cur : CurlUsage T) (phase : T → Phase) : Prop where
  owner : ∀ t, cur.mutex.owner = some t ↔ phase t ≠ .out
  inUse : cur.inUse = true ↔ ∃ t, phase t = .inUse

/-- What a statement does to an entry, and to what the thread has of it. -/
inductive Change (t : T) : CurlUsage T → Phase → CurlUsage T → Phase → Prop where
  | lock (eh : Nat) (inUse : Bool) :
    Change t ⟨eh, inUse, .free⟩ .out ⟨eh, inUse, ⟨some t⟩⟩ .locked
  | use (eh : Nat) (inUse : Bool) (mutex : Sync.Mutex T) :
    Change t ⟨eh, inUse, mutex⟩ .locked ⟨eh, true, mutex⟩ .inUse
  | clear (eh : Nat) (inUse : Bool) (mutex : Sync.Mutex T) :
    Change t ⟨eh, inUse, mutex⟩ .inUse ⟨eh, false, mutex⟩ .locked
  | unlock (eh : Nat) (inUse : Bool) (mutex : Sync.Mutex T) :
    Change t ⟨eh, inUse, mutex⟩ .locked ⟨eh, inUse, .free⟩ .out

section Agree
variable {t : T} {cur cur' : CurlUsage T} {phase : T → Phase} {old new : Phase}

omit [DecidableEq T] in
/-- A thread that has something is alone with it. -/
theorem Agrees.alone (h : Agrees cur phase) (ht : phase t ≠ .out) {u : T} (hu : u ≠ t) :
    phase u = .out := by
  by_contra hne
  exact hu (Option.some.inj (((h.owner u).mpr hne).symm.trans ((h.owner t).mpr ht)))

omit [DecidableEq T] in
/-- While a thread has only locked the entry, it is not in use. -/
theorem Agrees.not_inUse (h : Agrees cur phase) (ht : phase t = .locked) : cur.inUse = false := by
  by_contra hne
  obtain ⟨u, hu⟩ := h.inUse.mp (by simpa using hne)
  by_cases hut : u = t
  · rw [hut, ht] at hu
    cases hu
  · rw [h.alone (by rw [ht]; simp) hut] at hu
    cases hu

omit [DecidableEq T] in
/-- An entry that at most one thread has something of. -/
theorem agrees_of_others (hothers : ∀ u, u ≠ t → phase u = .out)
    (howner : cur.mutex.owner = if phase t = .out then none else some t)
    (hinUse : cur.inUse = true ↔ phase t = .inUse) : Agrees cur phase where
  owner := by
    intro u
    rw [howner]
    by_cases hu : u = t
    · subst hu
      split <;> simp_all
    · rw [hothers u hu]
      split <;> simp [Ne.symm hu]
  inUse := by
    rw [hinUse]
    refine ⟨fun h => ⟨t, h⟩, fun ⟨u, hu⟩ => ?_⟩
    by_cases hut : u = t
    · exact hut ▸ hu
    · rw [hothers u hut] at hu
      cases hu

/-- The entry and the phases change together. -/
theorem Agrees.change (h : Agrees cur phase) (hold : phase t = old)
    (hc : Change t cur old cur' new) : Agrees cur' (Function.update phase t new) := by
  have hothers : ∀ u, u ≠ t → phase u = .out := by
    intro u hu
    cases hc with
    | lock eh inUse =>
      -- the mutex is free
      by_contra hne
      have howner := (h.owner u).mpr hne
      cases howner
    | use eh inUse mutex | clear eh inUse mutex | unlock eh inUse mutex =>
      exact h.alone (by rw [hold]; simp) hu
  refine agrees_of_others (t := t) (fun u hu => ?_) ?_ ?_
  · rw [Function.update_of_ne hu]
    exact hothers u hu
  · rw [Function.update_self]
    cases hc with
    | lock eh inUse | unlock eh inUse mutex => rfl
    | use eh inUse mutex | clear eh inUse mutex => exact (h.owner t).mpr (by rw [hold]; simp)
  · rw [Function.update_self]
    cases hc with
    | lock eh inUse =>
      have hfree : inUse = false := by
        by_contra hne
        obtain ⟨u, hu⟩ := h.inUse.mp (by simpa using hne)
        by_cases hut : u = t
        · rw [hut, hold] at hu
          cases hu
        · rw [hothers u hut] at hu
          cases hu
      simp [hfree]
    | use eh inUse mutex | clear eh inUse mutex => simp
    | unlock eh inUse mutex =>
      have hfree : inUse = false := h.not_inUse hold
      simp [hfree]

end Agree

/-- **What a step does.**  It leaves the entries and the phases alone, or changes
one entry and one phase, or creates a session. -/
inductive Effect (t : T) (w v : CurlSessionProvider T) : Prop where
  | quiet (hmap : v.map = w.map) (hphase : v.phase = w.phase)
  | change (key : List Char) (cur cur' : CurlUsage T) (old new : Phase)
    (hcur : w.map.lookup key = some cur) (hmap : v.map = w.map.insert key cur')
    (hold : w.phase t key = old) (hphase : v.phase = setPhase w.phase t key new)
    (hc : Change t cur old cur' new)
  | create (key : List Char) (eh : Nat) (howner : w.mapMutex.owner = some t)
    (habsent : key ∉ w.map) (heh : eh ≠ 0)
    (hmap : v.map = w.map.insert key ⟨eh, true, ⟨some t⟩⟩)
    (hphase : v.phase = setPhase w.phase t key .inUse)

/-! ## The invariant -/

/-- Statements under the lock of the map. -/
def Inside : Pc → Prop
  | .getFind _ | .getUnlock _ | .getInit _ | .getInsert _ _ | .getDone _ _ | .retFind _ _
  | .retAssert _ _ | .retClear _ | .retUnlock _ | .retDone _ => True
  | _ => False

/-- The key has an entry with this handle. -/
def Given (map : AList fun _ : List Char => CurlUsage T) (key : List Char) (eh : Nat) : Prop :=
  ∃ cur, map.lookup key = some cur ∧ cur.eh = eh

/-- What a thread knows about the map. -/
def Knows (map : AList fun _ : List Char => CurlUsage T) : Pc → Prop
  | .getUnlock key | .getWait key | .getAssert key | .getSet key | .getHandle key
  | .retClear key | .retUnlock key => key ∈ map
  | .getInit key => key ∉ map
  | .getInsert key eh => key ∉ map ∧ eh ≠ 0
  | .getDone key eh | .retLock key eh | .retFind key eh | .retAssert key eh => Given map key eh
  | .assertion | .fault => False
  | _ => True

/-- The threads in the map hold its lock and know what they have tested; what is
given is in the map; and every entry has a handle and agrees with the phases. -/
structure Inv (w : CurlSessionProvider T) : Prop where
  guards : Sync.Guards Inside w.mapMutex.owner w.pc
  exclusive : ∀ t key, w.held t key ≠ none → (w.pc t).phase key = .out
  knows : ∀ t, Knows w.map (w.pc t)
  entries : ∀ key cur, w.map.lookup key = some cur →
    cur.eh ≠ 0 ∧ Agrees cur fun t => w.phase t key
  absent : ∀ key, key ∉ w.map → ∀ t, w.phase t key = .out
  held : ∀ t key eh, w.held t key = some eh → Given w.map key eh
  gave : ∀ g ∈ w.gave, Given w.map g.1 g.2
  created : w.created.Nodup ∧ ∀ key ∈ w.created, key ∈ w.map

omit [DecidableEq T] in
theorem inv_initial : Inv (initial : CurlSessionProvider T) where
  guards := fun t h => h.elim
  exclusive := fun t key h => absurd rfl h
  knows := fun t => trivial
  entries := fun key cur h => by cases h
  absent := fun key h t => rfl
  held := fun t key eh h => by cases h
  gave := fun g h => by cases h
  created := ⟨List.nodup_nil, fun key h => by cases h⟩

section Effects
variable {w v : CurlSessionProvider T} {t : T}

omit [DecidableEq T] in
theorem Change.eh_eq {cur cur' : CurlUsage T} {old new : Phase} (h : Change t cur old cur' new) :
    cur'.eh = cur.eh := by
  cases h <;> rfl

omit [DecidableEq T] in
theorem given_of_mem {map : AList fun _ : List Char => CurlUsage T} {key : List Char}
    (h : key ∈ map) : ∃ eh, Given map key eh := by
  obtain ⟨cur, hcur⟩ := Option.isSome_iff_exists.mp (AList.lookup_isSome.mpr h)
  exact ⟨cur.eh, cur, hcur, rfl⟩

omit [DecidableEq T] in
theorem Given.mem {map : AList fun _ : List Char => CurlUsage T} {key : List Char} {eh : Nat}
    (h : Given map key eh) : key ∈ map := by
  obtain ⟨cur, hcur, -⟩ := h
  exact AList.lookup_isSome.mp (Option.isSome_iff_exists.mpr ⟨cur, hcur⟩)

/-- Handles stay. -/
theorem Effect.given (he : Effect t w v) {key : List Char} {eh : Nat} (h : Given w.map key eh) :
    Given v.map key eh := by
  cases he with
  | quiet hmap hphase => rwa [hmap]
  | change k cur cur' old new hcur hmap hold hphase hc =>
    rw [hmap]
    by_cases hk : key = k
    · subst hk
      obtain ⟨c, hc', rfl⟩ := h
      obtain rfl : cur = c := Option.some.inj (hcur.symm.trans hc')
      exact ⟨cur', AList.lookup_insert _, hc.eh_eq⟩
    · obtain ⟨c, hc', rfl⟩ := h
      exact ⟨c, (AList.lookup_insert_ne hk).trans hc', rfl⟩
  | create k e howner habsent heh hmap hphase =>
    rw [hmap]
    have hk : key ≠ k := fun hk => habsent (hk ▸ h.mem)
    obtain ⟨c, hc', rfl⟩ := h
    exact ⟨c, (AList.lookup_insert_ne hk).trans hc', rfl⟩

/-- The entries still agree with the phases. -/
theorem Effect.entries (hw : Inv w) (he : Effect t w v) (key : List Char) (cur : CurlUsage T)
    (hcur : v.map.lookup key = some cur) : cur.eh ≠ 0 ∧ Agrees cur fun u => v.phase u key := by
  cases he with
  | quiet hmap hphase =>
    rw [hphase]
    exact hw.entries key cur (hmap ▸ hcur)
  | change k c c' old new hc hmap hold hphase hchange =>
    rw [hmap] at hcur
    rw [hphase]
    by_cases hk : key = k
    · -- the entry that the statement is about
      subst hk
      rw [AList.lookup_insert] at hcur
      obtain rfl := Option.some.inj hcur
      obtain ⟨heh, hagrees⟩ := hw.entries key c hc
      rw [setPhase_self]
      exact ⟨hchange.eh_eq ▸ heh, hagrees.change hold hchange⟩
    · rw [AList.lookup_insert_ne hk] at hcur
      simp only [setPhase_of_ne _ _ _ hk]
      exact hw.entries key cur hcur
  | create k e howner habsent heh hmap hphase =>
    rw [hmap] at hcur
    rw [hphase]
    by_cases hk : key = k
    · -- nobody else has anything of the new session
      subst hk
      rw [AList.lookup_insert] at hcur
      obtain rfl := Option.some.inj hcur
      rw [setPhase_self]
      refine ⟨heh, agrees_of_others (t := t) (fun u hu => ?_) ?_ ?_⟩
      · rw [Function.update_of_ne hu]
        exact hw.absent key habsent u
      · rw [Function.update_self]
        rfl
      · simp
    · rw [AList.lookup_insert_ne hk] at hcur
      simp only [setPhase_of_ne _ _ _ hk]
      exact hw.entries key cur hcur

/-- Nobody has anything of a session that is not there. -/
theorem Effect.absent (hw : Inv w) (he : Effect t w v) (key : List Char) (hkey : key ∉ v.map)
    (u : T) : v.phase u key = .out := by
  cases he with
  | quiet hmap hphase =>
    rw [hphase]
    exact hw.absent key (hmap ▸ hkey) u
  | change k c c' old new hc hmap hold hphase hchange =>
    rw [hmap, AList.mem_insert, not_or] at hkey
    rw [hphase, setPhase_of_ne _ _ _ hkey.1]
    exact hw.absent key hkey.2 u
  | create k e howner habsent heh hmap hphase =>
    rw [hmap, AList.mem_insert, not_or] at hkey
    rw [hphase, setPhase_of_ne _ _ _ hkey.1]
    exact hw.absent key hkey.2 u

/-- What another thread knows stays true. -/
theorem Effect.knows (hw : Inv w) (he : Effect t w v) {u : T} (hu : u ≠ t) :
    Knows v.map (w.pc u) := by
  have hknows := hw.knows u
  have hmem : ∀ key, key ∈ w.map → key ∈ v.map := by
    intro key hkey
    obtain ⟨eh, hgiven⟩ := given_of_mem hkey
    exact (he.given hgiven).mem
  -- no session is created behind the back of a thread that holds the lock
  have hstay : Inside (w.pc u) → ∀ key, key ∉ w.map → key ∉ v.map := by
    intro hin key hkey
    cases he with
    | quiet hmap hphase => rwa [hmap]
    | change k c c' old new hc hmap hold hphase hchange =>
      rw [hmap, AList.mem_insert, not_or]
      refine ⟨fun hk => hkey (hk ▸ ?_), hkey⟩
      exact AList.lookup_isSome.mp (Option.isSome_iff_exists.mpr ⟨c, hc⟩)
    | create k e howner habsent heh hmap hphase =>
      exact absurd hin (hw.guards.alone howner hu)
  cases hpc : w.pc u with
  | getInit key =>
    rw [hpc] at hknows hstay
    exact hstay trivial key hknows
  | getInsert key eh =>
    rw [hpc] at hknows hstay
    exact ⟨hstay trivial key hknows.1, hknows.2⟩
  | getUnlock key | getWait key | getAssert key | getSet key | getHandle key | retClear key
  | retUnlock key =>
    rw [hpc] at hknows
    exact hmem key hknows
  | getDone key eh | retLock key eh | retFind key eh | retAssert key eh =>
    rw [hpc] at hknows
    exact he.given hknows
  | idle | getLock key | getFind key | retDone key => trivial
  | assertion | fault =>
    rw [hpc] at hknows
    exact hknows

/-- What a step does to the rest: the thread goes on to `p`. -/
structure Move (t : T) (p : Pc) (w v : CurlSessionProvider T) : Prop where
  pc : v.pc = Function.update w.pc t p
  owner : v.mapMutex.owner = w.mapMutex.owner ∨ w.mapMutex.owner = none ∨
    w.mapMutex.owner = some t
  inside : Inside p → v.mapMutex.owner = some t
  knows : Knows v.map p
  other : ∀ u, u ≠ t → v.held u = w.held u
  exclusive : ∀ key, v.held t key ≠ none → p.phase key = .out
  held : ∀ key eh, v.held t key = some eh → Given v.map key eh
  gave : ∀ g ∈ v.gave, Given v.map g.1 g.2
  created : v.created.Nodup ∧ ∀ key ∈ v.created, key ∈ v.map

theorem inv_move {p : Pc} (hw : Inv w) (he : Effect t w v) (hm : Move t p w v) : Inv v where
  guards := by
    rw [hm.pc]
    exact hw.guards.update hm.owner hm.inside
  exclusive := by
    intro u key hu
    rw [hm.pc]
    by_cases hut : u = t
    · subst hut
      rw [Function.update_self]
      exact hm.exclusive key hu
    · rw [Function.update_of_ne hut]
      rw [hm.other u hut] at hu
      exact hw.exclusive u key hu
  knows := by
    intro u
    rw [hm.pc]
    by_cases hut : u = t
    · subst hut
      rw [Function.update_self]
      exact hm.knows
    · rw [Function.update_of_ne hut]
      exact he.knows hw hut
  entries := he.entries hw
  absent := he.absent hw
  held := by
    intro u key eh hu
    by_cases hut : u = t
    · subst hut
      exact hm.held key eh hu
    · rw [hm.other u hut] at hu
      exact he.given (hw.held u key eh hu)
  gave := hm.gave
  created := hm.created

omit [DecidableEq T] in
@[simp] theorem only_self (key : List Char) (p : Phase) : only key p key = p := if_pos rfl

omit [DecidableEq T] in
theorem only_of_ne {key k : List Char} (h : k ≠ key) (p : Phase) : only key p k = .out := if_neg h

omit [DecidableEq T] in
/-- A thread on its way with a session does not have it already. -/
theorem held_eq_none (hw : Inv w) {key : List Char} (h : (w.pc t).phase key ≠ .out) :
    w.held t key = none := by
  by_contra hne
  exact h (hw.exclusive t key hne)

omit [DecidableEq T] in
/-- A thread that does not have a session may be on its way with it. -/
theorem exclusive_of_none {p : Pc} {key : List Char} {new : Phase} (hnone : v.held t key = none)
    (hnew : p.phase = only key new) (k : List Char) (hk : v.held t k ≠ none) :
    p.phase k = .out := by
  rw [hnew]
  apply only_of_ne
  rintro rfl
  exact hk hnone

/-- A thread that does not have the session goes on to a statement where it has
something else of it. -/
theorem phase_of_pc {p : Pc} {key : List Char} {new : Phase} (hheld : v.held = w.held)
    (hpc : v.pc = Function.update w.pc t p) (hnone : w.held t key = none)
    (hold : ∀ k, k ≠ key → (w.pc t).phase k = .out) (hnew : p.phase = only key new) :
    v.phase = setPhase w.phase t key new := by
  funext u k
  unfold phase
  rw [hheld, hpc]
  by_cases hu : u = t
  · subst hu
    rw [Function.update_self, hnew]
    by_cases hk : k = key
    · subst hk
      rw [if_pos hnone, only_self]
      exact ((congrFun (setPhase_self _ u k new) u).trans (Function.update_self _ _ _)).symm
    · rw [setPhase_of_ne _ _ _ hk, only_of_ne hk, hold k hk]
  · rw [Function.update_of_ne hu, setPhase, Function.update_of_ne hu]

/-- A statement that leaves the map and the books alone. -/
theorem spec_quiet (hw : Inv w) {p : Pc} (hmap : v.map = w.map)
    (hbooks : v.held = w.held ∧ v.gave = w.gave ∧ v.created = w.created)
    (hpc : v.pc = Function.update w.pc t p) (hphase : p.phase = (w.pc t).phase)
    (howner : v.mapMutex.owner = w.mapMutex.owner ∨ w.mapMutex.owner = none ∨
      w.mapMutex.owner = some t)
    (hinside : Inside p → v.mapMutex.owner = some t) (hknows : Knows w.map p) :
    Inv v ∧ Effect t w v := by
  obtain ⟨hheld, hgave, hcreated⟩ := hbooks
  have he : Effect t w v := by
    refine .quiet hmap (funext fun u => funext fun key => ?_)
    unfold phase
    rw [hheld, hpc]
    by_cases hu : u = t
    · rw [hu, Function.update_self, hphase]
    · rw [Function.update_of_ne hu]
  refine ⟨inv_move (p := p) hw he ?_, he⟩
  exact {
    pc := hpc
    owner := howner
    inside := hinside
    knows := hmap ▸ hknows
    other := fun u _ => by rw [hheld]
    exclusive := fun key hkey => by
      rw [hheld] at hkey
      rw [hphase]
      exact hw.exclusive t key hkey
    held := fun key eh hkey => by
      rw [hheld] at hkey
      exact he.given (hw.held t key eh hkey)
    gave := fun g hg => by
      rw [hgave] at hg
      exact he.given (hw.gave g hg)
    created := by
      rw [hcreated, hmap]
      exact hw.created }

/-- A statement that only goes on. -/
theorem spec_goto (hw : Inv w) {p : Pc} (hphase : p.phase = (w.pc t).phase)
    (hinside : Inside p → w.mapMutex.owner = some t) (hknows : Knows w.map p) :
    Inv (w.goto t p) ∧ Effect t w (w.goto t p) :=
  spec_quiet hw rfl ⟨rfl, rfl, rfl⟩ rfl hphase (Or.inl rfl) hinside hknows

/-- The map is locked. -/
theorem spec_lockMap (hw : Inv w) {m : Sync.Mutex T} (hm : w.mapMutex.lock t = some m) {p : Pc}
    (hphase : p.phase = (w.pc t).phase) (hknows : Knows w.map p) :
    Inv ({ w with mapMutex := m }.goto t p) ∧
      Effect t w ({ w with mapMutex := m }.goto t p) := by
  obtain ⟨hfree, rfl⟩ := Sync.Mutex.lock_eq_some.mp hm
  exact spec_quiet hw rfl ⟨rfl, rfl, rfl⟩ rfl hphase (Or.inr (Or.inl hfree)) (fun _ => rfl) hknows

/-- The map is unlocked. -/
theorem spec_unlockMap (hw : Inv w) (howner : w.mapMutex.owner = some t) {p : Pc}
    (hphase : p.phase = (w.pc t).phase) (hout : ¬Inside p) (hknows : Knows w.map p) :
    Inv ({ w with mapMutex := .free }.goto t p) ∧
      Effect t w ({ w with mapMutex := .free }.goto t p) :=
  spec_quiet hw rfl ⟨rfl, rfl, rfl⟩ rfl hphase (Or.inr (Or.inr howner))
    (fun hin => absurd hin hout) hknows

/-- A statement that changes an entry. -/
theorem spec_change (hw : Inv w) {key : List Char} {cur cur' : CurlUsage T} {old new : Phase}
    {p : Pc} (hcur : w.map.lookup key = some cur) (hc : Change t cur old cur' new)
    (hnone : w.held t key = none) (hold : (w.pc t).phase = only key old)
    (hnew : p.phase = only key new) (hinside : Inside p → w.mapMutex.owner = some t)
    (hknows : Knows (w.map.insert key cur') p) :
    Inv ({ w with map := w.map.insert key cur' }.goto t p) ∧
      Effect t w ({ w with map := w.map.insert key cur' }.goto t p) := by
  have hphase : ({ w with map := w.map.insert key cur' }.goto t p).phase =
      setPhase w.phase t key new :=
    phase_of_pc rfl rfl hnone (fun k hk => by rw [hold, only_of_ne hk]) hnew
  have he : Effect t w ({ w with map := w.map.insert key cur' }.goto t p) :=
    .change key cur cur' old new hcur rfl (by rw [phase, if_pos hnone, hold, only_self]) hphase hc
  refine ⟨inv_move (p := p) hw he ?_, he⟩
  exact {
    pc := rfl
    owner := Or.inl rfl
    inside := hinside
    knows := hknows
    other := fun u _ => rfl
    exclusive := exclusive_of_none hnone hnew
    held := fun k eh hk => he.given (hw.held t k eh hk)
    gave := fun g hg => he.given (hw.gave g hg)
    created := ⟨hw.created.1, fun k hk => AList.mem_insert _ |>.mpr (Or.inr (hw.created.2 k hk))⟩ }

/-- The end of `get_easy_session`. -/
theorem spec_give (hw : Inv w) {key : List Char} {eh : Nat} {m : Sync.Mutex T}
    (hphase : (w.pc t).phase = only key .inUse) (hgiven : Given w.map key eh)
    (howner : m.owner = w.mapMutex.owner ∨ w.mapMutex.owner = none ∨
      w.mapMutex.owner = some t) :
    Inv ({ w with mapMutex := m }.give t key eh) ∧
      Effect t w ({ w with mapMutex := m }.give t key eh) := by
  have hheld : ∀ k, k ≠ key →
      (Function.update w.held t (Function.update (w.held t) key (some eh))) t k = w.held t k := by
    intro k hk
    rw [Function.update_self, Function.update_of_ne hk]
  have he : Effect t w ({ w with mapMutex := m }.give t key eh) := by
    refine .quiet rfl (funext fun u => funext fun k => ?_)
    unfold phase give goto
    by_cases hu : u = t
    · subst hu
      by_cases hk : k = key
      · subst hk
        have hnone : w.held u k = none := held_eq_none hw (by rw [hphase, only_self]; simp)
        simp [hnone, hphase]
      · simp only [hheld k hk, Function.update_self, hphase, only_of_ne hk]
        rfl
    · simp only [Function.update_of_ne hu]
  refine ⟨inv_move (p := .idle) hw he ?_, he⟩
  exact {
    pc := rfl
    owner := howner
    inside := False.elim
    knows := trivial
    other := fun u hu => Function.update_of_ne hu _ _
    exclusive := fun k _ => rfl
    held := fun k e hk => by
      by_cases hkk : k = key
      · subst hkk
        have hk' : some eh = some e := by simpa [give, goto] using hk
        obtain rfl := Option.some.inj hk'
        exact hgiven
      · exact hw.held t k e ((hheld k hkk).symm.trans hk)
    gave := fun g hg => by
      rcases List.mem_append.mp hg with hg | hg
      · exact hw.gave g hg
      · rw [List.mem_singleton.mp hg]
        exact hgiven
    created := hw.created }

/-- A session is created. -/
theorem spec_create (hw : Inv w) {key : List Char} {eh : Nat} (hpc : w.pc t = .getInsert key eh)
    (hv : v = { w with
      map := w.map.insert key ⟨eh, true, ⟨some t⟩⟩
      created := w.created ++ [key] }.goto t (.getDone key eh)) : Inv v ∧ Effect t w v := by
  have hknows := hw.knows t
  rw [hpc] at hknows
  obtain ⟨habsent, heh⟩ := hknows
  have howner : w.mapMutex.owner = some t := hw.guards t (by rw [hpc]; trivial)
  have hnone : w.held t key = none := by
    by_contra hne
    have hout := hw.absent key habsent t
    rw [phase, if_neg hne] at hout
    cases hout
  have hphase : v.phase = setPhase w.phase t key .inUse :=
    phase_of_pc (p := .getDone key eh) (by rw [hv]; rfl) (by rw [hv]; rfl) hnone
      (fun k _ => by rw [hpc]; rfl) rfl
  have he : Effect t w v := .create key eh howner habsent heh (by rw [hv]; rfl) hphase
  refine ⟨inv_move (p := .getDone key eh) hw he ?_, he⟩
  subst hv
  exact {
    pc := rfl
    owner := Or.inl rfl
    inside := fun _ => howner
    knows := ⟨_, AList.lookup_insert _, rfl⟩
    other := fun u _ => rfl
    exclusive := exclusive_of_none hnone rfl
    held := fun k e hk => he.given (hw.held t k e hk)
    gave := fun g hg => he.given (hw.gave g hg)
    created := by
      refine ⟨List.nodup_append.mpr ⟨hw.created.1, List.nodup_singleton _, ?_⟩, fun k hk => ?_⟩
      · intro k hk l hl
        rw [List.mem_singleton.mp hl]
        rintro rfl
        exact habsent (hw.created.2 k hk)
      · rcases List.mem_append.mp hk with hk | hk
        · exact (AList.mem_insert _).mpr (Or.inr (hw.created.2 k hk))
        · exact (AList.mem_insert _).mpr (Or.inl (List.mem_singleton.mp hk)) }

/-- A thread starts to return a session it was given. -/
theorem spec_return (hw : Inv w) {key : List Char} {eh : Nat} (hpc : w.pc t = .idle)
    (hheld : w.held t key = some eh)
    (hv : v = { w with
      held := Function.update w.held t (Function.update (w.held t) key none) }.goto t
        (.retLock key eh)) : Inv v ∧ Effect t w v := by
  have hother : ∀ k, k ≠ key → v.held t k = w.held t k := by
    intro k hk
    subst hv
    simp [goto, Function.update_of_ne hk]
  have hnone : v.held t key = none := by
    subst hv
    simp [goto]
  have he : Effect t w v := by
    refine .quiet (by rw [hv]; rfl) (funext fun u => funext fun k => ?_)
    by_cases hu : u = t
    · subst hu
      unfold phase
      by_cases hk : k = key
      · subst hk
        rw [if_pos hnone, hheld, hv]
        simp [goto, Pc.phase]
      · rw [hother k hk, hpc, hv]
        simp [goto, Pc.phase, only_of_ne hk]
    · subst hv
      simp only [phase, goto, Function.update_of_ne hu]
  refine ⟨inv_move (p := .retLock key eh) hw he ?_, he⟩
  exact {
    pc := by rw [hv]; rfl
    owner := Or.inl (by rw [hv]; rfl)
    inside := False.elim
    knows := by
      rw [hv]
      exact hw.held t key eh hheld
    other := fun u hu => by
      rw [hv]
      exact Function.update_of_ne hu _ _
    exclusive := exclusive_of_none hnone rfl
    held := fun k e hk => by
      by_cases hkk : k = key
      · rw [hkk, hnone] at hk
        cases hk
      · rw [hother k hkk] at hk
        exact he.given (hw.held t k e hk)
    gave := fun g hg => by
      rw [hv] at hg
      exact he.given (hw.gave g hg)
    created := by
      rw [hv]
      exact hw.created }

end Effects

section Exec
variable {w v : CurlSessionProvider T} {t : T}

/-- A statement about an entry that is there. -/
theorem withEntry_of_mem {key : List Char} (h : key ∈ w.map) :
    ∃ cur, w.map.lookup key = some cur ∧
      ∀ f : CurlUsage T → Option (CurlSessionProvider T), w.withEntry t key f = f cur := by
  obtain ⟨eh, cur, hcur, -⟩ := given_of_mem h
  refine ⟨cur, hcur, fun f => ?_⟩
  rw [withEntry, hcur]

/-- The holder unlocks the map. -/
theorem unlockMap_of_owner (h : w.mapMutex.owner = some t)
    (k : CurlSessionProvider T → CurlSessionProvider T) :
    w.unlockMap t k = some (k { w with mapMutex := .free }) := by
  rw [unlockMap, Sync.Mutex.unlock, if_pos h]

/-- **One statement.**  It keeps the invariant, and changes what `Effect` says. -/
theorem exec_spec (hw : Inv w) (h : w.exec t = some v) : Inv v ∧ Effect t w v := by
  have hknows := hw.knows t
  have howner := hw.guards t
  unfold exec at h
  cases hpc : w.pc t with
  | idle | getInit key | assertion | fault => simp [hpc] at h
  | getLock key =>
    rw [hpc] at h
    obtain ⟨m, hm, rfl⟩ := Option.map_eq_some_iff.mp h
    exact spec_lockMap hw hm (by rw [hpc]; rfl) trivial
  | retLock key eh =>
    rw [hpc] at h hknows
    obtain ⟨m, hm, rfl⟩ := Option.map_eq_some_iff.mp h
    exact spec_lockMap hw hm (by rw [hpc]; rfl) hknows
  | getFind key =>
    rw [hpc] at h howner
    obtain rfl := Option.some.inj h
    split
    · exact spec_goto hw (by rw [hpc]; rfl) howner ‹_›
    · exact spec_goto hw (by rw [hpc]; rfl) howner ‹_›
  | getUnlock key =>
    rw [hpc] at h howner hknows
    obtain rfl := Option.some.inj ((unlockMap_of_owner (howner trivial) _).symm.trans h)
    exact spec_unlockMap hw (howner trivial) (by rw [hpc]; rfl) id hknows
  | retDone key =>
    rw [hpc] at h howner
    obtain rfl := Option.some.inj ((unlockMap_of_owner (howner trivial) _).symm.trans h)
    exact spec_unlockMap hw (howner trivial) (by rw [hpc]; rfl) id trivial
  | getWait key =>
    rw [hpc] at h hknows
    obtain ⟨cur, hcur, hentry⟩ := withEntry_of_mem hknows
    obtain ⟨m, hm, rfl⟩ := Option.map_eq_some_iff.mp ((hentry _).symm.trans h)
    obtain ⟨hfree, rfl⟩ := Sync.Mutex.lock_eq_some.mp hm
    -- the mutex was free, so nobody has anything of the session
    have hnone : w.held t key = none := by
      by_contra hne
      have hout : w.phase t key ≠ .out := by
        rw [phase, if_neg hne]
        simp
      have hlocked := ((hw.entries key cur hcur).2.owner t).mpr hout
      rw [hfree] at hlocked
      cases hlocked
    obtain ⟨eh, inUse, ⟨owner⟩⟩ := cur
    obtain rfl : owner = none := hfree
    exact spec_change hw hcur (.lock eh inUse) hnone
      (by rw [hpc]; funext k; unfold only; split <;> rfl) rfl False.elim
      ((AList.mem_insert _).mpr (Or.inl rfl))
  | getAssert key =>
    rw [hpc] at h hknows
    obtain ⟨cur, hcur, hentry⟩ := withEntry_of_mem hknows
    obtain rfl := Option.some.inj ((hentry _).symm.trans h)
    have hfree : cur.inUse = false := (hw.entries key cur hcur).2.not_inUse (t := t) (by
      rw [phase, if_pos (held_eq_none hw (by rw [hpc]; simp [Pc.phase])), hpc]
      exact only_self _ _)
    rw [hfree]
    exact spec_goto hw (by rw [hpc]; rfl) False.elim hknows
  | getSet key =>
    rw [hpc] at h hknows
    obtain ⟨cur, hcur, hentry⟩ := withEntry_of_mem hknows
    obtain rfl := Option.some.inj ((hentry _).symm.trans h)
    exact spec_change hw hcur (.use cur.eh cur.inUse cur.mutex)
      (held_eq_none hw (by rw [hpc]; simp [Pc.phase])) (by rw [hpc]; rfl) rfl False.elim
      ((AList.mem_insert _).mpr (Or.inl rfl))
  | getHandle key =>
    rw [hpc] at h hknows
    obtain ⟨cur, hcur, hentry⟩ := withEntry_of_mem hknows
    obtain rfl := Option.some.inj ((hentry _).symm.trans h)
    exact spec_give (m := w.mapMutex) hw (by rw [hpc]; rfl) ⟨cur, hcur, rfl⟩ (Or.inl rfl)
  | getInsert key eh =>
    rw [hpc] at h hknows
    obtain rfl := Option.some.inj h
    exact spec_create hw hpc (by rw [insertNew, if_neg hknows.1])
  | getDone key eh =>
    rw [hpc] at h howner hknows
    obtain rfl := Option.some.inj ((unlockMap_of_owner (howner trivial) _).symm.trans h)
    exact spec_give (m := .free) hw (by rw [hpc]; rfl) hknows (Or.inr (Or.inr (howner trivial)))
  | retFind key eh =>
    rw [hpc] at h howner hknows
    obtain rfl := Option.some.inj h
    exact spec_quiet (p := .retAssert key eh) hw (if_pos hknows.mem) ⟨rfl, rfl, rfl⟩ rfl
      (by rw [hpc]; rfl) (Or.inl rfl) howner hknows
  | retAssert key eh =>
    rw [hpc] at h howner hknows
    obtain ⟨cu, hcu, hentry⟩ := withEntry_of_mem hknows.mem
    obtain rfl := Option.some.inj ((hentry _).symm.trans h)
    obtain ⟨c, hc, rfl⟩ := hknows
    obtain rfl : cu = c := Option.some.inj (hcu.symm.trans hc)
    rw [if_pos rfl]
    exact spec_goto hw (by rw [hpc]; rfl) howner (Given.mem ⟨cu, hcu, rfl⟩)
  | retClear key =>
    rw [hpc] at h howner hknows
    obtain ⟨cu, hcu, hentry⟩ := withEntry_of_mem hknows
    obtain rfl := Option.some.inj ((hentry _).symm.trans h)
    exact spec_change hw hcu (.clear cu.eh cu.inUse cu.mutex)
      (held_eq_none hw (by rw [hpc]; simp [Pc.phase])) (by rw [hpc]; rfl) rfl howner
      ((AList.mem_insert _).mpr (Or.inl rfl))
  | retUnlock key =>
    rw [hpc] at h howner hknows
    obtain ⟨cu, hcu, hentry⟩ := withEntry_of_mem hknows
    have hnone : w.held t key = none := held_eq_none hw (by rw [hpc]; simp [Pc.phase])
    have hlocked : cu.mutex.owner = some t := by
      refine ((hw.entries key cu hcu).2.owner t).mpr ?_
      rw [phase, if_pos hnone, hpc]
      simp [Pc.phase]
    have h := (hentry _).symm.trans h
    rw [Sync.Mutex.unlock, if_pos hlocked] at h
    obtain rfl := Option.some.inj h
    exact spec_change hw hcu (.unlock cu.eh cu.inUse cu.mutex) hnone (by rw [hpc]; rfl)
      (by funext k; unfold only; split <;> rfl) howner trivial

end Exec

/-- One step, of any kind. -/
theorem step_spec {w v : CurlSessionProvider T} {e : SessionEvent T} (hw : Inv w)
    (h : step w e = some v) : Inv v ∧ Effect e.thread w v := by
  cases e with
  | getEasySession t key =>
    simp only [step] at h
    split at h
    · rename_i hpc
      obtain rfl := Option.some.inj h
      exact spec_goto hw (by rw [hpc]; rfl) False.elim trivial
    · cases h
  | returnSession t key =>
    simp only [step] at h
    split at h
    · rename_i eh hpc hheld
      exact spec_return hw hpc hheld (Option.some.inj h).symm
    · cases h
  | init t eh =>
    have hknows := hw.knows t
    have howner := hw.guards t
    simp only [step] at h
    split at h
    · rename_i key hpc
      rw [hpc] at hknows howner
      split at h
      · cases h
      · obtain rfl := Option.some.inj h
        exact spec_goto hw (by rw [hpc]; rfl) howner ⟨hknows, ‹_›⟩
    · cases h
  | step t => exact exec_spec hw h

/-! ## Mutual exclusion -/

/-- The entry of the key is in use. -/
def InUse (w : CurlSessionProvider T) (key : List Char) : Prop :=
  ∃ cur, w.map.lookup key = some cur ∧ cur.inUse = true

/-- At most one thread has the session of a key, and all that had it had the same
handle; an entry in use is locked by that thread; a session is created once for a
key, and no assertion fails. -/
structure Safe (w : CurlSessionProvider T) : Prop where
  exclusive : ∀ key t u, Holds w t key → Holds w u key → t = u
  handle : ∀ key eh eh', (key, eh) ∈ w.gave → (key, eh') ∈ w.gave → eh = eh'
  locked : ∀ key cur, w.map.lookup key = some cur → cur.inUse = true →
    ∃ t, cur.mutex.owner = some t ∧ Holds w t key
  unique : w.map.keys.Nodup ∧ w.created.Nodup
  asserted : ∀ t, w.pc t ≠ .assertion ∧ w.pc t ≠ .fault

omit [DecidableEq T] in
theorem Inv.safe {w : CurlSessionProvider T} (hw : Inv w) : Safe w where
  exclusive := by
    intro key t u ht hu
    by_contra hne
    have hkey : key ∈ w.map := by
      by_contra habsent
      have hout := hw.absent key habsent t
      rw [(ht : w.phase t key = .inUse)] at hout
      cases hout
    obtain ⟨eh, cur, hcur, -⟩ := given_of_mem hkey
    have hout := (hw.entries key cur hcur).2.alone (t := u)
      (by rw [(hu : w.phase u key = .inUse)]; simp) hne
    rw [(ht : w.phase t key = .inUse)] at hout
    cases hout
  handle := by
    intro key eh eh' h h'
    obtain ⟨cur, hcur, rfl⟩ := hw.gave _ h
    obtain ⟨cur', hcur', rfl⟩ := hw.gave _ h'
    rw [Option.some.inj (hcur.symm.trans hcur')]
  locked := by
    intro key cur hcur hinUse
    obtain ⟨-, hagrees⟩ := hw.entries key cur hcur
    obtain ⟨t, ht⟩ := hagrees.inUse.mp hinUse
    exact ⟨t, (hagrees.owner t).mpr (by rw [ht]; simp), ht⟩
  unique := ⟨w.map.keys_nodup, hw.created.1⟩
  asserted := by
    intro t
    have hknows := hw.knows t
    constructor <;> intro hpc <;> rw [hpc] at hknows <;> exact hknows

/-- Only the thread that has the session clears the flag. -/
theorem Effect.clears {w v : CurlSessionProvider T} {t : T} (he : Effect t w v)
    {key : List Char} (h : InUse w key) (hv : ¬InUse v key) : Holds w t key := by
  obtain ⟨cur, hcur, hinUse⟩ := h
  cases he with
  | quiet hmap hphase => exact absurd ⟨cur, hmap ▸ hcur, hinUse⟩ hv
  | change k c c' old new hc hmap hold hphase hchange =>
    by_cases hk : key = k
    · subst hk
      obtain rfl : cur = c := Option.some.inj (hcur.symm.trans hc)
      have hcleared : c'.inUse ≠ true := fun hin =>
        hv ⟨c', by rw [hmap, AList.lookup_insert], hin⟩
      cases hchange with
      | lock eh inUse | unlock eh inUse mutex => exact absurd hinUse hcleared
      | use eh inUse mutex => exact absurd rfl hcleared
      | clear eh inUse mutex => exact hold
    · exact absurd ⟨cur, by rw [hmap, AList.lookup_insert_ne hk, hcur], hinUse⟩ hv
  | create k e howner habsent heh hmap hphase =>
    have hk : key ≠ k := by
      rintro rfl
      exact habsent (Given.mem ⟨cur, hcur, rfl⟩)
    exact absurd ⟨cur, by rw [hmap, AList.lookup_insert_ne hk, hcur], hinUse⟩ hv

/-- **Mutual exclusion.**  In every state of every run at most one thread has the
session of a key, with the key's handle, the flags and mutexes of the entries say
so, no assertion fails, and a step clears a flag only for the thread that has the
session. -/
theorem mutual_exclusion {es : List (SessionEvent T)} {w : CurlSessionProvider T}
    (hrun : machine.run initial es = some w) :
    Safe w ∧ ∀ e v, step w e = some v → ∀ key, InUse w key → ¬InUse v key →
      Holds w e.thread key := by
  have hw : Inv w := EventMachine.Machine.run_induction hrun inv_initial
    fun _ _ _ hs h => (step_spec hs h).1
  exact ⟨hw.safe, fun e v h key hin hout => (step_spec hw h).2.clears hin hout⟩

/-- One thread creates the session; another one waits for it and gets it when it
is returned. -/
def handOver : List (SessionEvent Nat) :=
  [.getEasySession 0 ['k'], .step 0, .step 0, .init 0 7, .step 0, .step 0,
    .getEasySession 1 ['k'], .step 1, .step 1, .step 1,
    .returnSession 0 ['k'], .step 0, .step 0, .step 0, .step 0, .step 0, .step 0,
    .step 1, .step 1, .step 1, .step 1]

theorem mutual_exclusion_handOver :
    ∃ w, machine.run initial handOver = some w ∧ w.held 1 ['k'] = some 7 ∧ Safe w := by
  obtain ⟨w, hrun, hheld⟩ : ∃ w, machine.run initial handOver = some w ∧
      w.held 1 ['k'] = some 7 :=
    EventMachine.Machine.exists_run_of_any (by decide +kernel)
  exact ⟨w, hrun, hheld, (mutual_exclusion hrun).1⟩

end CurlSessionProvider
end VzLogger
