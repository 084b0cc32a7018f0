import Mathlib.Logic.Function.Basic

/-! # Mutexes and condition variables

A mutex records the thread that holds it.  A monitor is a mutex with one
condition variable: a thread that waits gives the mutex up, is woken by a
broadcast, a timeout or for no reason, and then has to take the mutex again.

Every operation is one atomic step of one thread and has no result where the
thread has to wait, or where the operation is not defined: only the holder of a
mutex unlocks it or waits.
-/
namespace Sync
variable {T : Type}

/-- A mutex, and the thread that holds it. -/
structure Mutex (T : Type) where
  owner : Option T
  deriving DecidableEq

namespace Mutex

/-- A mutex nobody holds. -/
def free : Mutex T := ⟨none⟩

def lock (m : Mutex T) (t : T) : Option (Mutex T) :=
  if m.owner = none then some ⟨some t⟩ else none

def unlock [DecidableEq T] (m : Mutex T) (t : T) : Option (Mutex T) :=
  if m.owner = some t then some free else none

theorem lock_eq_some {m n : Mutex T} {t : T} :
    m.lock t = some n ↔ m.owner = none ∧ n = ⟨some t⟩ := by
  unfold lock
  split <;> simp_all [eq_comm]

end Mutex

/-! ## What a mutex guards

Threads with program counters of a type `Pc`; `inside` says at which of them a
thread is in the critical section of a mutex. -/

section Guards
variable {Pc : Type} {inside : Pc → Prop} {o o' : Option T} {pc : T → Pc}

/-- A thread in the critical section holds the mutex. -/
def Guards (inside : Pc → Prop) (o : Option T) (pc : T → Pc) : Prop :=
  ∀ t, inside (pc t) → o = some t

/-- Only the holder is in the critical section. -/
theorem Guards.alone (h : Guards inside o pc) {t u : T} (ht : o = some t) (hu : u ≠ t) :
    ¬inside (pc u) := fun hin => hu (Option.some.inj ((h u hin).symm.trans ht))

variable [DecidableEq T] {t : T} {p : Pc}

/-- A thread moves: it takes a free mutex, gives it up, or leaves it as it is. -/
theorem Guards.update (h : Guards inside o pc) (ho : o' = o ∨ o = none ∨ o = some t)
    (hp : inside p → o' = some t) : Guards inside o' (Function.update pc t p) := by
  intro u hu
  by_cases hut : u = t
  · rw [hut, Function.update_self] at hu
    rw [hut]
    exact hp hu
  · rw [Function.update_of_ne hut] at hu
    have hou := h u hu
    rcases ho with rfl | ho | ho
    · exact hou
    · rw [ho] at hou
      cases hou
    · exact absurd hu (h.alone ho hut)

/-- **The critical-section rule.**  `Good` says what a thread in the critical
section knows about the guarded data.  The holder may change the data. -/
theorem Guards.forall_update {D : Type} {Good : D → Pc → Prop} {d d' : D}
    (h : Guards inside o pc) (hout : ∀ d p, ¬inside p → Good d p) (hgood : ∀ u, Good d (pc u))
    (hd : d' = d ∨ o = some t) (hp : Good d' p) : ∀ u, Good d' (Function.update pc t p u) := by
  intro u
  by_cases hut : u = t
  · rw [hut, Function.update_self]
    exact hp
  · rw [Function.update_of_ne hut]
    rcases hd with rfl | ho
    · exact hgood u
    · exact hout d' _ (h.alone ho hut)

end Guards

/-- Where a thread is with respect to the condition variable. -/
inductive Place where
  | outside
  /-- blocked in the wait -/
  | waiting
  /-- woken, and about to take the mutex -/
  | woken
  deriving DecidableEq, Repr

/-- A mutex with a condition variable.  The thread that holds the mutex does not
wait. -/
structure Monitor (T : Type) where
  mutex : Mutex T
  place : T → Place
  awake : ∀ t, mutex.owner = some t → place t = .outside

namespace Monitor

/-- `pthread_cond_broadcast`. -/
def broadcast (m : Monitor T) : Monitor T where
  mutex := m.mutex
  place t := if m.place t = .waiting then .woken else m.place t
  awake := by
    intro t ht
    rw [m.awake t ht]
    rfl

theorem broadcast_place_ne_waiting (m : Monitor T) (t : T) :
    m.broadcast.place t ≠ .waiting := by
  unfold broadcast
  dsimp only
  split
  · simp
  · assumption

/-- Nobody is in the monitor. -/
def initial : Monitor T := ⟨.free, fun _ => .outside, fun _ _ => rfl⟩

variable [DecidableEq T]

/-- The thread takes the mutex, coming from a given place. -/
def enter (from_ : Place) (m : Monitor T) (t : T) : Option (Monitor T) :=
  if m.mutex.owner = none ∧ m.place t = from_ then
    some {
      mutex := ⟨some t⟩
      place := Function.update m.place t .outside
      awake := by
        intro u hu
        obtain rfl : t = u := Option.some.inj hu
        exact Function.update_self _ _ _ }
  else none

/-- `pthread_mutex_lock`. -/
def lock (m : Monitor T) (t : T) : Option (Monitor T) := m.enter .outside t

/-- The end of a wait: the mutex is taken again. -/
def relock (m : Monitor T) (t : T) : Option (Monitor T) := m.enter .woken t

/-- The holder leaves the mutex, for a given place. -/
def leave (p : Place) (m : Monitor T) (t : T) : Option (Monitor T) :=
  if m.mutex.owner = some t then
    some {
      mutex := .free
      place := Function.update m.place t p
      awake := fun _ hu => by cases hu }
  else none

/-- `pthread_mutex_unlock`. -/
def unlock (m : Monitor T) (t : T) : Option (Monitor T) := m.leave .outside t

/-- The start of a wait. -/
def wait (m : Monitor T) (t : T) : Option (Monitor T) := m.leave .waiting t

/-- A wait ends by itself: a timeout, or a spurious wake-up. -/
def wake (m : Monitor T) (t : T) : Option (Monitor T) :=
  if h : m.place t = .waiting then
    some { m with
      place := Function.update m.place t .woken
      awake := by
        intro u hu
        have hut : u ≠ t := by
          rintro rfl
          rw [m.awake u hu] at h
          cases h
        rw [Function.update_of_ne hut]
        exact m.awake u hu }
  else none

/-! ## What the operations do -/

section Lemmas
variable {m n : Monitor T} {t : T} {p : Place}

/-- What taking the mutex needs and leaves. -/
theorem of_enter (h : m.enter p t = some n) :
    m.mutex.owner = none ∧ m.place t = p ∧ n.mutex.owner = some t ∧
      ∀ u, u ≠ t → n.place u = m.place u := by
  unfold enter at h
  split at h
  · rename_i hm
    obtain rfl := Option.some.inj h
    exact ⟨hm.1, hm.2, rfl, fun u hu => Function.update_of_ne hu _ _⟩
  · cases h

/-- What leaving the mutex needs and leaves. -/
theorem of_leave (h : m.leave p t = some n) :
    m.mutex.owner = some t ∧ n.mutex.owner = none ∧ n.place t = p ∧
      ∀ u, u ≠ t → n.place u = m.place u := by
  unfold leave at h
  split at h
  · rename_i hm
    obtain rfl := Option.some.inj h
    exact ⟨hm, rfl, Function.update_self _ _ _, fun u hu => Function.update_of_ne hu _ _⟩
  · cases h

/-- What a wake-up needs and leaves. -/
theorem of_wake (h : m.wake t = some n) :
    m.place t = .waiting ∧ n.mutex = m.mutex ∧ n.place t = .woken ∧
      ∀ u, u ≠ t → n.place u = m.place u := by
  unfold wake at h
  split at h
  · rename_i hm
    obtain rfl := Option.some.inj h
    exact ⟨hm, rfl, Function.update_self _ _ _, fun u hu => Function.update_of_ne hu _ _⟩
  · cases h

end Lemmas
end Monitor
end Sync
