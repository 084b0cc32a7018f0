import VzLogger.Lib.CString
import VzLogger.Lib.EventMachine
import VzLogger.Lib.Json
import VzLogger.Lib.Sync
import Mathlib.Data.List.AList

/-! # The push data list

`PushDataList` collects the readings of all meters for the push server.  `add`
and `waitForData` are programs of one statement each step, run by any number of
threads; the map is guarded by `_map_mutex`, and the consumers wait at `_cond`,
up to a timeout.

`assert(0 == pthread_mutex_lock(..))` takes the mutex: this is the build with
assertions, which is the default one.

`generateJson` makes the JSON object of a map that was handed out, popping its
queues; the map is deleted afterwards.  The text of the object is json-c's.
-/
namespace VzLogger

/-- `DataTuple`: a time in milliseconds and a value. -/
abbrev DataTuple := Int × Rat

/-- `DataMap`: a queue of tuples for each uuid. -/
abbrev DataMap := AList fun _ : List Char => List DataTuple

namespace DataMap

/-- The queue of a uuid. -/
def tuples (map : DataMap) (uuid : List Char) : List DataTuple := (map.lookup uuid).getD []

/-- `operator[](uuid).push(tuple)`. -/
def push (map : DataMap) (uuid : List Char) (tuple : DataTuple) : DataMap :=
  map.insert uuid (map.tuples uuid ++ [tuple])

theorem tuples_push (map : DataMap) (uuid uuid' : List Char) (tuple : DataTuple) :
    (map.push uuid tuple).tuples uuid' =
      map.tuples uuid' ++ if uuid = uuid' then [tuple] else [] := by
  by_cases h : uuid = uuid'
  · subst h
    rw [if_pos rfl, tuples, push, AList.lookup_insert, Option.getD_some]
  · rw [if_neg h, List.append_nil, tuples, push, AList.lookup_insert_ne (Ne.symm h)]
    rfl

end DataMap

/-- Where a thread is.  In `add` and `waitForData` it is before the statement
that the name says. -/
inductive PushDataList.Pc where
  | idle
  | addLock (uuid : List Char) (tuple : DataTuple)
  | addCreate (uuid : List Char) (tuple : DataTuple)
  | addPush (uuid : List Char) (tuple : DataTuple)
  | addBroadcast
  | addUnlock
  | waitLock
  | waitTest (rc : Int)
  | waitBlock
  /-- in `pthread_cond_timedwait` -/
  | waits
  | waitTake (rc : Int)
  | waitClear (toRet : Option DataMap)
  | waitUnlock (toRet : Option DataMap)
  /-- a null pointer was followed -/
  | fault

/-- The list and its threads, and the books: the tuples in the order they were
added, and the maps in the order they were handed out. -/
structure PushDataList (T : Type) where
  monitor : Sync.Monitor T
  next : Option DataMap
  pc : T → PushDataList.Pc
  added : List (List Char × DataTuple)
  handedOut : List DataMap

/-- Calls and steps of the threads. -/
inductive PushDataEvent (T : Type) where
  | add (t : T) (uuid : List Char) (timeMs : Int) (value : Rat)
  | waitForData (t : T)
  | step (t : T)
  /-- a timeout, or a spurious wake-up -/
  | wake (t : T)
  /-- `pthread_cond_timedwait` returns -/
  | timedwait (t : T) (rc : Int)

namespace PushDataList
variable {T : Type} [DecidableEq T]

def initial : PushDataList T := ⟨.initial, none, fun _ => .idle, [], []⟩

/-- The thread goes on to a statement. -/
def goto (w : PushDataList T) (t : T) (pc : Pc) : PushDataList T :=
  { w with pc := Function.update w.pc t pc }

/-- There is no map, or it is empty. -/
def noData (next : Option DataMap) : Bool := next.all fun map => map.entries.isEmpty

/-- The statement of `add` or `waitForData` that a thread is at. -/
def exec (w : PushDataList T) (t : T) : Option (PushDataList T) :=
  match w.pc t with
  | .addLock uuid tuple =>
    (w.monitor.lock t).map fun m => { w with monitor := m }.goto t (.addCreate uuid tuple)
  | .addCreate uuid tuple =>
    some ({ w with next := some (w.next.getD ∅) }.goto t (.addPush uuid tuple))
  | .addPush uuid tuple =>
    match w.next with
    | none => some (w.goto t .fault)
    | some map =>
      some ({ w with
        next := some (map.push uuid tuple)
        added := w.added ++ [(uuid, tuple)] }.goto t .addBroadcast)
  | .addBroadcast => some ({ w with monitor := w.monitor.broadcast }.goto t .addUnlock)
  | .addUnlock => (w.monitor.unlock t).map fun m => { w with monitor := m }.goto t .idle
  | .waitLock => (w.monitor.lock t).map fun m => { w with monitor := m }.goto t (.waitTest 0)
  | .waitTest rc =>
    some (w.goto t (if noData w.next = true ∧ rc = 0 then .waitBlock else .waitTake rc))
  | .waitBlock => (w.monitor.wait t).map fun m => { w with monitor := m }.goto t .waits
  | .waitTake rc => some (w.goto t (if rc = 0 then .waitClear w.next else .waitUnlock none))
  | .waitClear toRet =>
    -- the ownership of the map changes to the caller
    some ({ w with next := none, handedOut := w.handedOut ++ toRet.toList }.goto t
      (.waitUnlock toRet))
  | .waitUnlock _ => (w.monitor.unlock t).map fun m => { w with monitor := m }.goto t .idle
  | .idle | .waits | .fault => none

def step (w : PushDataList T) : PushDataEvent T → Option (PushDataList T)
  | .add t uuid timeMs value =>
    match w.pc t with
    | .idle => some (w.goto t (.addLock uuid (timeMs, value)))
    | _ => none
  | .waitForData t =>
    match w.pc t with
    | .idle => some (w.goto t .waitLock)
    | _ => none
  | .step t => w.exec t
  | .wake t => (w.monitor.wake t).map fun m => { w with monitor := m }
  | .timedwait t rc =>
    match w.pc t with
    | .waits => (w.monitor.relock t).map fun m => { w with monitor := m }.goto t (.waitTest rc)
    | _ => none

/-- The list as a machine. -/
def machine : EventMachine.Machine (PushDataList T) (PushDataEvent T) := ⟨initial, step⟩

/-- The tuples of a uuid in the list. -/
def pending (next : Option DataMap) (uuid : List Char) : List DataTuple :=
  next.elim [] fun map => map.tuples uuid

/-- The tuples handed out for a uuid, map by map. -/
def handedOutFor (handedOut : List DataMap) (uuid : List Char) : List DataTuple :=
  handedOut.flatMap fun map => map.tuples uuid

/-- The tuples added for a uuid. -/
def addedFor (added : List (List Char × DataTuple)) (uuid : List Char) : List DataTuple :=
  (added.filter fun a => a.1 = uuid).map Prod.snd

/-- What was handed out for a uuid, and then what is pending, is what was added. -/
def Conserved (w : PushDataList T) : Prop :=
  ∀ uuid, handedOutFor w.handedOut uuid ++ pending w.next uuid = addedFor w.added uuid

theorem pending_create (next : Option DataMap) (uuid : List Char) :
    pending (some (next.getD ∅)) uuid = pending next uuid := by
  cases next <;> rfl

theorem pending_push (map : DataMap) (uuid uuid' : List Char) (tuple : DataTuple) :
    pending (some (map.push uuid tuple)) uuid' =
      pending (some map) uuid' ++ if uuid = uuid' then [tuple] else [] :=
  map.tuples_push uuid uuid' tuple

theorem addedFor_append (added : List (List Char × DataTuple)) (uuid uuid' : List Char)
    (tuple : DataTuple) :
    addedFor (added ++ [(uuid, tuple)]) uuid' =
      addedFor added uuid' ++ if uuid = uuid' then [tuple] else [] := by
  unfold addedFor
  by_cases h : uuid = uuid' <;> simp [List.filter_append, h]

theorem handedOutFor_append (handedOut : List DataMap) (toRet : Option DataMap)
    (uuid : List Char) :
    handedOutFor (handedOut ++ toRet.toList) uuid =
      handedOutFor handedOut uuid ++ pending toRet uuid := by
  unfold handedOutFor
  cases toRet <;> simp [pending]

/-! ## The invariant -/

/-- Statements under the lock. -/
def Inside : Pc → Prop
  | .idle | .addLock _ _ | .waitLock | .waits => False
  | _ => True

/-- What a thread under the lock knows about the map. -/
def Knows (next : Option DataMap) : Pc → Prop
  | .addPush _ _ => next ≠ none
  | .waitTake rc => rc = 0 → noData next = false
  | .waitClear toRet => next = toRet ∧ noData toRet = false
  | .fault => False
  | _ => True

theorem knows_of_outside (next : Option DataMap) (pc : Pc) (h : ¬Inside pc) : Knows next pc := by
  cases pc <;> simp_all [Inside, Knows]

/-- The threads under the lock hold it, they know about the map what they have
tested, nothing is lost, and no map is handed out without data. -/
structure Inv (w : PushDataList T) : Prop where
  guards : Sync.Guards Inside w.monitor.mutex.owner w.pc
  knows : ∀ t, Knows w.next (w.pc t)
  conserved : Conserved w
  data : ∀ map ∈ w.handedOut, map.entries ≠ []

omit [DecidableEq T] in
theorem inv_initial : Inv (initial : PushDataList T) where
  guards := fun t h => h.elim
  knows := fun t => trivial
  conserved := fun uuid => rfl
  data := fun map h => by cases h

section Steps
variable {w v : PushDataList T} {t : T} {pc : Pc}

/-- A step that leaves the books alone. -/
theorem inv_goto (hw : Inv w) (hpc : v.pc = Function.update w.pc t pc)
    (howner : v.monitor.mutex.owner = w.monitor.mutex.owner ∨
      w.monitor.mutex.owner = none ∨ w.monitor.mutex.owner = some t)
    (hinside : Inside pc → v.monitor.mutex.owner = some t)
    (hnext : v.next = w.next ∨ w.monitor.mutex.owner = some t)
    (hknows : Knows v.next pc) (hconserved : Conserved v)
    (hdata : ∀ map ∈ v.handedOut, map.entries ≠ []) : Inv v where
  guards := by
    rw [hpc]
    exact hw.guards.update howner hinside
  knows := by
    rw [hpc]
    exact hw.guards.forall_update knows_of_outside hw.knows hnext hknows
  conserved := hconserved
  data := hdata

theorem inv_enter (hw : Inv w) {m : Sync.Monitor T} {p : Sync.Place}
    (h : w.monitor.enter p t = some m) (hpc : Knows w.next pc) :
    Inv ({ w with monitor := m }.goto t pc) := by
  obtain ⟨hfree, -, howner, -⟩ := Sync.Monitor.of_enter h
  exact inv_goto hw rfl (Or.inr (Or.inl hfree)) (fun _ => howner) (Or.inl rfl) hpc
    hw.conserved hw.data

theorem inv_leave (hw : Inv w) {m : Sync.Monitor T} {p : Sync.Place}
    (h : w.monitor.leave p t = some m) (hpc : ¬Inside pc) :
    Inv ({ w with monitor := m }.goto t pc) := by
  obtain ⟨howner, -, -, -⟩ := Sync.Monitor.of_leave h
  exact inv_goto hw rfl (Or.inr (Or.inr howner)) (fun hin => absurd hin hpc) (Or.inl rfl)
    (knows_of_outside _ _ hpc) hw.conserved hw.data

/-- A statement under the lock that leaves the map alone. -/
theorem inv_inside (hw : Inv w) (h : Inside (w.pc t)) (hpc : Knows w.next pc) :
    Inv (w.goto t pc) :=
  inv_goto hw rfl (Or.inl rfl) (fun _ => hw.guards t h) (Or.inl rfl) hpc hw.conserved hw.data

theorem inv_exec (hw : Inv w) (h : w.exec t = some v) : Inv v := by
  have hknows := hw.knows t
  have howner := hw.guards t
  unfold exec at h
  cases hpc : w.pc t with
  | idle | waits | fault => simp [hpc] at h
  | addLock uuid tuple | waitLock =>
    rw [hpc] at h
    obtain ⟨m, hm, rfl⟩ := Option.map_eq_some_iff.mp h
    exact inv_enter hw hm trivial
  | addUnlock | waitBlock | waitUnlock toRet =>
    rw [hpc] at h
    obtain ⟨m, hm, rfl⟩ := Option.map_eq_some_iff.mp h
    exact inv_leave hw hm id
  | addCreate uuid tuple =>
    rw [hpc] at h howner
    obtain rfl := Option.some.inj h
    refine inv_goto hw rfl (Or.inl rfl) howner (Or.inr (howner trivial))
      (Option.some_ne_none _) (fun uuid' => ?_) hw.data
    exact (congrArg _ (pending_create w.next uuid')).trans (hw.conserved uuid')
  | addPush uuid tuple =>
    rw [hpc] at h howner hknows
    cases hnext : w.next with
    | none => exact absurd hnext hknows
    | some map =>
      rw [hnext] at h
      obtain rfl := Option.some.inj h
      refine inv_goto hw rfl (Or.inl rfl) howner (Or.inr (howner trivial)) trivial
        (fun uuid' => ?_) hw.data
      -- the tuple goes to the end of the queue and to the end of the books
      have hcons := hw.conserved uuid'
      rw [hnext] at hcons
      calc handedOutFor w.handedOut uuid' ++ pending (some (map.push uuid tuple)) uuid'
          = handedOutFor w.handedOut uuid' ++ pending (some map) uuid' ++
              (if uuid = uuid' then [tuple] else []) := by
            rw [pending_push, List.append_assoc]
        _ = addedFor (w.added ++ [(uuid, tuple)]) uuid' := by rw [hcons, addedFor_append]
  | addBroadcast =>
    rw [hpc] at h howner
    obtain rfl := Option.some.inj h
    exact inv_goto hw rfl (Or.inl rfl) howner (Or.inl rfl) trivial hw.conserved hw.data
  | waitTest rc =>
    -- the loop ends with data, or with an error
    rw [hpc] at h
    obtain rfl := Option.some.inj h
    refine inv_inside hw (by rw [hpc]; trivial) ?_
    split
    · trivial
    · rename_i hne
      intro hrc
      by_contra hd
      exact hne ⟨by simpa using hd, hrc⟩
  | waitTake rc =>
    rw [hpc] at h hknows
    obtain rfl := Option.some.inj h
    refine inv_inside hw (by rw [hpc]; trivial) ?_
    split
    · exact ⟨rfl, hknows ‹_›⟩
    · trivial
  | waitClear toRet =>
    rw [hpc] at h howner hknows
    obtain ⟨hnext, hdata⟩ := hknows
    obtain rfl := Option.some.inj h
    refine inv_goto hw rfl (Or.inl rfl) howner (Or.inr (howner trivial)) trivial
      (fun uuid' => ?_) ?_
    · have hcons := hw.conserved uuid'
      rw [hnext] at hcons
      exact (List.append_nil _).trans ((handedOutFor_append _ _ _).trans hcons)
    · intro map hmap
      rcases List.mem_append.mp hmap with hmap | hmap
      · exact hw.data map hmap
      · rw [Option.mem_toList] at hmap
        rw [hmap] at hdata
        simpa [noData] using hdata

end Steps

theorem inv_step {w v : PushDataList T} {e : PushDataEvent T} (hw : Inv w)
    (h : step w e = some v) : Inv v := by
  cases e with
  | add t uuid timeMs value =>
    simp only [step] at h
    split at h
    · obtain rfl := Option.some.inj h
      exact inv_goto hw rfl (Or.inl rfl) False.elim (Or.inl rfl) trivial hw.conserved hw.data
    · cases h
  | waitForData t =>
    simp only [step] at h
    split at h
    · obtain rfl := Option.some.inj h
      exact inv_goto hw rfl (Or.inl rfl) False.elim (Or.inl rfl) trivial hw.conserved hw.data
    · cases h
  | step t => exact inv_exec hw h
  | wake t =>
    -- the thread is woken without the mutex, which it has to take again
    obtain ⟨m, hm, rfl⟩ := Option.map_eq_some_iff.mp h
    obtain ⟨-, hmutex, -, -⟩ := Sync.Monitor.of_wake hm
    exact ⟨by rw [hmutex]; exact hw.guards, hw.knows, hw.conserved, hw.data⟩
  | timedwait t rc =>
    simp only [step] at h
    split at h
    · obtain ⟨m, hm, rfl⟩ := Option.map_eq_some_iff.mp h
      exact inv_enter hw hm trivial
    · cases h

end PushDataList

/-! ## The JSON object of a map -/

namespace PushDataServer

def tupleJson (tuple : DataTuple) : Json.Value := .arr [.num tuple.1, .num tuple.2]

/-- The loop that pops the tuples of a queue. -/
def drainQueue : List DataTuple → List Json.Value
  | [] => []
  | tuple :: queue => tupleJson tuple :: drainQueue queue

/-- The object of one entry. -/
def entryJson (entry : Sigma fun _ : List Char => List DataTuple) : Json.Value :=
  .obj [("uuid".toList, .str (CString.cStr entry.1)), ("tuples".toList, .arr (drainQueue entry.2))]

/-- `generateJson` of a map whose entries are visited in some order. -/
def generateJson (dataMap : List (Sigma fun _ : List Char => List DataTuple)) : Json.Value :=
  .obj [("data".toList, .arr (dataMap.map entryJson))]

/-! What the object says to its reader. -/

def readTuple : Json.Value → Option DataTuple
  | .arr [.num timeMs, .num value] => if timeMs.den = 1 then some (timeMs.num, value) else none
  | _ => none

def readGroup : Json.Value → Option (List Char × List DataTuple)
  | .obj [(k, .str uuid), (k', .arr tuples)] =>
    if k = "uuid".toList ∧ k' = "tuples".toList then
      (tuples.mapM readTuple).map fun tuples => (uuid, tuples)
    else none
  | _ => none

/-- The tuples of an object, grouped by uuid. -/
def readJson : Json.Value → Option (List (List Char × List DataTuple))
  | .obj [(k, .arr groups)] => if k = "data".toList then groups.mapM readGroup else none
  | _ => none

theorem mapM_eq_some_map {α β γ : Type} {f : β → Option γ} {g : α → β} {k : α → γ}
    (h : ∀ a, f (g a) = some (k a)) (l : List α) : (l.map g).mapM f = some (l.map k) := by
  induction l with
  | nil => rfl
  | cons a l ih => simp [List.mapM_cons, h, ih]

theorem drainQueue_eq_map (queue : List DataTuple) : drainQueue queue = queue.map tupleJson := by
  induction queue with
  | nil => rfl
  | cons tuple queue ih => rw [drainQueue, ih, List.map_cons]

theorem readTuple_tupleJson (tuple : DataTuple) : readTuple (tupleJson tuple) = some tuple := by
  simp [readTuple, tupleJson]

theorem readGroup_entryJson (entry : Sigma fun _ : List Char => List DataTuple) :
    readGroup (entryJson entry) = some (CString.cStr entry.1, entry.2) := by
  have h := mapM_eq_some_map (k := id) readTuple_tupleJson entry.2
  simp [readGroup, entryJson, drainQueue_eq_map, h]

/-- The object has a group for each entry. -/
theorem readJson_generateJson (dataMap : List (Sigma fun _ : List Char => List DataTuple)) :
    readJson (generateJson dataMap) =
      some (dataMap.map fun entry => (CString.cStr entry.1, entry.2)) := by
  simp only [readJson, generateJson, if_true]
  exact mapM_eq_some_map readGroup_entryJson dataMap

/-- The entries of a map, by uuid. -/
theorem entries_eq_keys (map : DataMap) :
    (map.entries.map fun entry => (CString.cStr entry.1, entry.2)) =
      map.keys.map fun uuid => (CString.cStr uuid, map.tuples uuid) := by
  rw [AList.keys, List.keys, List.map_map]
  refine List.map_congr_left fun entry hentry => ?_
  have hlookup : map.lookup entry.1 = some entry.2 := AList.mem_lookup_iff.mpr hentry
  simp [DataMap.tuples, hlookup]

end PushDataServer

namespace PushDataList
variable {T : Type} [DecidableEq T]

/-- **Every tuple is delivered once.**  In every run, for every uuid, the maps
handed out so far and the pending tuples are what was added; and the object of a
map handed out, whatever the order of its entries, has one group for each of its
uuids with all its tuples in order. -/
theorem delivered_once {es : List (PushDataEvent T)} {w : PushDataList T}
    (hrun : machine.run initial es = some w) :
    Conserved w ∧
      ∀ map ∈ w.handedOut, ∀ order : List (Sigma fun _ : List Char => List DataTuple),
        order.Perm map.entries →
          ∃ groups, PushDataServer.readJson (PushDataServer.generateJson order) = some groups ∧
            groups.Perm (map.keys.map fun uuid => (CString.cStr uuid, map.tuples uuid)) ∧
            map.keys.Nodup := by
  have hw : Inv w :=
    EventMachine.Machine.run_induction hrun inv_initial fun _ _ _ hs h => inv_step hs h
  refine ⟨hw.conserved, fun map _ order horder => ?_⟩
  refine ⟨_, PushDataServer.readJson_generateJson order, ?_, map.keys_nodup⟩
  rw [← PushDataServer.entries_eq_keys]
  exact horder.map _

/-- An `add` of one thread while another one waits; the wait times out all the
same, and the next call gets the tuple, with a second one. -/
def timeoutWithAdd : List (PushDataEvent Nat) :=
  [.waitForData 1, .step 1, .step 1, .step 1,
    .add 0 ['u'] 1 5, .step 0, .step 0, .step 0, .step 0, .step 0,
    .timedwait 1 110, .step 1, .step 1, .step 1,
    .add 0 ['u'] 2 6, .step 0, .step 0, .step 0, .step 0, .step 0,
    .waitForData 1, .step 1, .step 1, .step 1, .step 1, .step 1]

theorem delivered_once_timeout :
    ∃ w, machine.run initial timeoutWithAdd = some w ∧
      handedOutFor w.handedOut ['u'] = [(1, 5), (2, 6)] ∧ Conserved w := by
  obtain ⟨w, hrun, hout⟩ : ∃ w, machine.run initial timeoutWithAdd = some w ∧
      handedOutFor w.handedOut ['u'] = [(1, 5), (2, 6)] :=
    EventMachine.Machine.exists_run_of_any (by decide +kernel)
  exact ⟨w, hrun, hout, (delivered_once hrun).1⟩

end PushDataList
end VzLogger
