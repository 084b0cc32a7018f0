import VzLogger.Lib.EventMachine
import Mathlib.Algebra.Group.Nat.Defs

/-! # The NTP query of the Pico

`Ntp::queryTime` resolves the name of the server, sends a request and polls until a
callback has cleared `request_sent`.  Callbacks come between any two of its steps: the
resolver's, one for each datagram received, and the alarm's.  Whatever the network does is
part of the event.

Beside the program's state a `World` keeps the books: which query each pending lookup, each
alarm and each request belongs to, and what has arrived for the present query.

While the resolver is at work `request_sent` is not set yet, and the loop is left at once;
and a reply to an older query is as good as one to the present.  Where neither happens,
every query is answered truthfully (`truthful_of_careful`).
-/
namespace VzLogger.Pico.NtpQuery

def ntpPort : Nat := 123

def ntpMsgLen : Nat := 48

/-- Seconds between 1 Jan 1900 and 1 Jan 1970. -/
def ntpDelta : Nat := 2208988800

/-- `NTP_RESEND_TIME`, in seconds. -/
def ntpResendTime : Nat := 10

def ntpOverallTimeout : Nat := 60

/-- The members of `Ntp`. -/
structure Ntp where
  requestSent : Bool
  theTime : Nat
  /-- `none` where it is not positive -/
  resendAlarm : Option Nat
  serverAddress : Nat

/-- What `ntp_recv` looks at; `seconds` are the four bytes from the 40th on. -/
structure Datagram where
  addr : Nat
  port : Nat
  totLen : Nat
  mode : Nat
  stratum : Nat
  seconds : Nat

/-- The test of `ntp_recv`. -/
def Datagram.valid (d : Datagram) (serverAddress : Nat) : Bool :=
  d.addr = serverAddress && d.port = ntpPort && d.totLen = ntpMsgLen && d.mode = 4 && d.stratum ≠ 0

/-- The time of a reply, in a `uint32_t`. -/
def Datagram.epoch (d : Datagram) : Nat := (d.seconds + 2 ^ 32 - ntpDelta) % 2 ^ 32

/-- Where `queryTime` stands. -/
inductive Pc where
  | idle
  /-- `theTime` is reset -/
  | check
  /-- the alarm is set -/
  | lookup
  /-- the address was cached -/
  | request
  /-- the lookup could not be started -/
  | refused
  /-- in front of the loop -/
  | start
  | loop (startTime : Nat)
  /-- behind the loop -/
  | left (startTime : Nat)
  | done
  deriving DecidableEq

/-- A pending alarm, and the query that set it. -/
structure Alarm where
  id : Nat
  query : Nat
  due : Nat
  deriving DecidableEq

/-- What has come for a query: the times of the valid replies to its own request, of these
those that came before the timeout, whether there was an error, an invalid reply or the
timeout, and whether it was the timeout. -/
structure Query where
  number : Nat
  own : List Nat
  inTime : List Nat
  failed : Bool
  timedOut : Bool

/-- What a query returned. -/
structure Answer where
  query : Query
  result : Nat

structure World where
  ntp : Ntp
  pc : Pc
  clock : Nat
  /-- the queries whose lookups are pending -/
  lookups : List Nat
  alarms : List Alarm
  nextAlarm : Nat
  /-- the query of each request sent -/
  requests : List Nat
  query : Query
  answers : List Answer

/-- What `dns_gethostbyname` returns. -/
inductive Lookup where
  | cached (addr : Nat)
  | inProgress
  | failed

inductive Event where
  | queryTime
  /-- the test of `request_sent`, and whether the alarm could be set -/
  | check (alarm : Bool)
  | lookup (lookup : Lookup)
  | request
  | refused
  | start
  /-- the test of the loop, and the sleep -/
  | poll
  /-- the test behind the loop -/
  | finish
  | ret
  /-- `ntp_dns_found` for the lookup of a query -/
  | dnsFound (query : Nat) (addr : Option Nat)
  /-- `ntp_recv`, with the request that the datagram answers -/
  | recv (request : Option Nat) (d : Datagram)
  /-- `ntp_failed_handler` -/
  | alarm (a : Alarm)
  | second

namespace World

/-- `result()`, with a time or without; the alarm is cancelled. -/
def result (w : World) (time : Option Nat) : World where
  ntp := { w.ntp with theTime := time.getD w.ntp.theTime, resendAlarm := none, requestSent := false }
  pc := w.pc
  clock := w.clock
  lookups := w.lookups
  alarms := w.alarms.filter fun a => w.ntp.resendAlarm ≠ some a.id
  nextAlarm := w.nextAlarm
  requests := w.requests
  query := w.query
  answers := w.answers

/-- `request()` for a query. -/
def request (w : World) (query : Nat) : World :=
  { w with ntp := { w.ntp with requestSent := true }, requests := w.requests ++ [query] }

def goto (w : World) (pc : Pc) : World := { w with pc := pc }

/-- An error, an invalid reply or the timeout. -/
def fail (w : World) (timeout : Bool) : World :=
  { w with query := { w.query with failed := true, timedOut := w.query.timedOut || timeout } }

/-- A valid reply to the query's own request. -/
def replied (w : World) (time : Nat) : World :=
  let q := w.query
  { w with query := { q with own := q.own ++ [time], inTime := if q.timedOut then q.inTime else q.inTime ++ [time] } }

def answer (w : World) (result : Nat) : World :=
  { w with pc := .idle, answers := w.answers ++ [⟨w.query, result⟩] }

/-- The datagram answers the request of the present query. -/
def Own (w : World) (request : Option Nat) : Prop :=
  w.pc ≠ .idle ∧ ∃ i ∈ request, w.requests[i]? = some w.query.number

instance (w : World) (request : Option Nat) : Decidable (w.Own request) := by
  unfold Own
  infer_instance

def setAddress (w : World) (addr : Nat) : World :=
  { w with ntp := { w.ntp with serverAddress := addr } }

/-- `theTime = 0`, for a new query. -/
def begin_ (w : World) : World :=
  { w with ntp := { w.ntp with theTime := 0 }, pc := .check, query := ⟨w.query.number + 1, [], [], false, false⟩ }

/-- The alarm of a query. -/
def addAlarm (w : World) (alarm : Bool) : World :=
  if alarm then
    { w with
      ntp := { w.ntp with resendAlarm := some w.nextAlarm }
      alarms := w.alarms ++ [⟨w.nextAlarm, w.query.number, w.clock + ntpResendTime⟩]
      nextAlarm := w.nextAlarm + 1 }
  else { w with ntp := { w.ntp with resendAlarm := none } }

def dnsFound (w : World) (query : Nat) (addr : Option Nat) : World :=
  let w := { w with lookups := w.lookups.erase query }
  match addr with
  | some addr => (w.setAddress addr).request query
  | none =>
    let w := if w.pc ≠ .idle ∧ query = w.query.number then w.fail false else w
    w.result none

def recv (w : World) (request : Option Nat) (d : Datagram) : World :=
  if d.valid w.ntp.serverAddress then
    let w := if w.Own request then w.replied d.epoch else w
    w.result (some d.epoch)
  else
    let w := if w.pc ≠ .idle then w.fail false else w
    w.result none

def alarm (w : World) (a : Alarm) : World :=
  let w := { w with alarms := w.alarms.erase a }
  let w := if w.pc ≠ .idle ∧ a.query = w.query.number then w.fail true else w
  w.result none

def step (w : World) : Event → Option World
  | .queryTime => if w.pc = .idle then some w.begin_ else none
  | .check alarm =>
    if w.pc = .check then
      some (if w.ntp.requestSent then w.goto .start else (w.addAlarm alarm).goto .lookup)
    else none
  | .lookup lookup =>
    if w.pc = .lookup then
      match lookup with
      | .cached addr => some ((w.setAddress addr).goto .request)
      | .inProgress => some { w with lookups := w.lookups ++ [w.query.number], pc := .start }
      | .failed => some (w.goto .refused)
    else none
  | .request => if w.pc = .request then some ((w.request w.query.number).goto .start) else none
  | .refused => if w.pc = .refused then some (((w.fail false).result none).answer 0) else none
  | .start => if w.pc = .start then some (w.goto (.loop w.clock)) else none
  | .poll =>
    match w.pc with
    | .loop startTime =>
      if w.ntp.requestSent = true ∧ w.clock - startTime < ntpOverallTimeout then some w
      else some (w.goto (.left startTime))
    | _ => none
  | .finish =>
    match w.pc with
    | .left startTime =>
      if w.ntp.requestSent then
        let w := if ntpOverallTimeout ≤ w.clock - startTime then w.fail true else w
        some ((w.result none).goto .done)
      else some (w.goto .done)
    | _ => none
  | .ret => if w.pc = .done then some (w.answer w.ntp.theTime) else none
  | .dnsFound query addr => if query ∈ w.lookups then some (w.dnsFound query addr) else none
  | .recv request d => some (w.recv request d)
  | .alarm a => if a ∈ w.alarms ∧ a.due ≤ w.clock then some (w.alarm a) else none
  | .second => some { w with clock := w.clock + 1 }

def initial (resendAlarm : Option Nat) (serverAddress : Nat) : World where
  ntp := ⟨false, 0, resendAlarm, serverAddress⟩
  pc := .idle
  clock := 0
  lookups := []
  alarms := []
  nextAlarm := 1
  requests := []
  query := ⟨0, [], [], false, false⟩
  answers := []

def machine (resendAlarm : Option Nat) (serverAddress : Nat) : EventMachine.Machine World Event :=
  ⟨initial resendAlarm serverAddress, step⟩

end World

/-- The result is the time of a valid reply to the query's own request; or it is 0, there
was an error, an invalid reply or the timeout, and no such reply before the timeout. -/
def Answer.Truthful (a : Answer) : Prop :=
  a.result ∈ a.query.own ∨ (a.result = 0 ∧ a.query.failed = true ∧ a.query.inTime = [])

namespace World

def Truthful (w : World) : Prop := ∀ a ∈ w.answers, a.Truthful

/-- The loop is not tested while the lookup of its query is pending; and a valid datagram
that comes during a query is a reply to its own request. -/
def Careful (w : World) : Event → Prop
  | .poll => w.query.number ∉ w.lookups
  | .recv request d => d.valid w.ntp.serverAddress = true → w.pc ≠ .idle → w.Own request
  | _ => True

instance (w : World) : ∀ e, Decidable (w.Careful e)
  | .poll => inferInstanceAs (Decidable (w.query.number ∉ w.lookups))
  | .recv request d =>
    inferInstanceAs (Decidable (d.valid w.ntp.serverAddress = true → w.pc ≠ .idle → w.Own request))
  | .queryTime | .check _ | .lookup _ | .request | .refused | .start | .finish | .ret
  | .dnsFound _ _ | .alarm _ | .second => inferInstanceAs (Decidable True)

/-! ## The invariant -/

end World

namespace Pc

/-- The query has not sent its request, nor left that to the resolver. -/
def Unsent (pc : Pc) : Prop := pc = .check ∨ pc = .lookup ∨ pc = .request ∨ pc = .refused

/-- In front of the end of the loop. -/
def Waiting (pc : Pc) : Prop := pc = .start ∨ ∃ startTime, pc = .loop startTime

/-- The query only waits, or has done so. -/
def Posted (pc : Pc) : Prop := pc.Waiting ∨ (∃ startTime, pc = .left startTime) ∨ pc = .done

theorem Posted.running {pc : Pc} (h : pc.Posted) : pc ≠ .idle := by
  rintro rfl
  rcases h with (h | ⟨s, h⟩) | ⟨s, h⟩ | h <;> cases h

theorem Unsent.running {pc : Pc} (h : pc.Unsent) : pc ≠ .idle := by
  rintro rfl
  rcases h with h | h | h | h <;> cases h

theorem Unsent.not_waiting {pc : Pc} (h : pc.Unsent) : ¬pc.Waiting := by
  rintro (rfl | ⟨s, rfl⟩) <;> rcases h with h | h | h | h <;> cases h

theorem Unsent.not_posted {pc : Pc} (h : pc.Unsent) : ¬pc.Posted := by
  rintro (hw | ⟨s, rfl⟩ | rfl)
  · exact h.not_waiting hw
  · rcases h with h | h | h | h <;> cases h
  · rcases h with h | h | h | h <;> cases h

theorem idle_not_waiting : ¬Pc.idle.Waiting := by
  rintro (h | ⟨s, h⟩) <;> cases h

theorem left_not_waiting (startTime : Nat) : ¬(Pc.left startTime).Waiting := by
  rintro (h | ⟨s, h⟩) <;> cases h

theorem done_not_waiting : ¬Pc.done.Waiting := by
  rintro (h | ⟨s, h⟩) <;> cases h

end Pc

namespace World
variable {w w' : World}

/-- The query has an outcome, and its alarm is cancelled. -/
def Closed (w : World) : Prop := w.alarms = [] ∧ (w.query.failed = true ∨ w.query.own ≠ [])

/-- What careful runs keep: alarms, lookups and requests under way are those of the
present query, and a query that has nothing under way is closed. -/
structure Inv (w : World) : Prop where
  alarms : ∀ a ∈ w.alarms, a.query = w.query.number ∧ w.ntp.resendAlarm = some a.id
  unset : w.pc = .idle ∨ w.pc = .check → w.alarms = []
  time : w.pc ≠ .idle → w.ntp.theTime ∈ w.query.own ∨ (w.ntp.theTime = 0 ∧ w.query.own = [])
  inTime : w.query.own = [] → w.query.inTime = []
  requests : ∀ q ∈ w.requests, q ≤ w.query.number
  fresh : w.pc.Unsent → w.query.number ∉ w.requests ∧ w.query.own = []
  lookups : w.lookups = [] ∨ (w.lookups = [w.query.number] ∧ w.pc.Waiting)
  sent : w.ntp.requestSent = true → w.lookups = [] ∧
    (w.pc.Waiting ∨ ∃ s, w.pc = .left s ∧ ntpOverallTimeout ≤ w.clock - s)
  closed : w.pc.Posted → w.ntp.requestSent = false → w.lookups = [] → w.Closed
  truthful : w.Truthful

namespace Inv

/-- Only in front of the end of the loop there is a lookup. -/
theorem lookups_nil (h : Inv w) (hpc : ¬w.pc.Waiting) : w.lookups = [] := by
  rcases h.lookups with hnil | ⟨-, hwaiting⟩
  · exact hnil
  · exact absurd hwaiting hpc

/-- Only up to the end of the loop there is something sent. -/
theorem unsent (h : Inv w) (hpc : ¬w.pc.Waiting) (hleft : ∀ s, w.pc ≠ .left s) :
    w.ntp.requestSent = false := by
  by_contra hsent
  rcases (h.sent (Bool.not_eq_false _ ▸ hsent)).2 with hwaiting | ⟨s, hs, -⟩
  · exact hpc hwaiting
  · exact hleft s hs

/-! ### The callbacks -/

/-- `result()` cancels the only alarm there is. -/
theorem result_alarms (h : Inv w) (time : Option Nat) : (w.result time).alarms = [] := by
  apply List.filter_eq_nil_iff.mpr
  intro a ha
  simp [(h.alarms a ha).2]

theorem fail (h : Inv w) (timeout : Bool) : Inv (w.fail timeout) :=
  ⟨h.alarms, h.unset, h.time, h.inTime, h.requests, h.fresh, h.lookups, h.sent,
    fun hpc hsent hlookups => ⟨(h.closed hpc hsent hlookups).1, Or.inl rfl⟩, h.truthful⟩

/-- A result without a time, for a query that has failed, or while there is none. -/
theorem result_none (h : Inv w) (hfailed : w.pc ≠ .idle → w.query.failed = true) :
    Inv (w.result none) where
  alarms a ha := by
    rw [h.result_alarms] at ha
    cases ha
  unset _ := h.result_alarms none
  time := h.time
  inTime := h.inTime
  requests := h.requests
  fresh := h.fresh
  lookups := h.lookups
  sent hsent := by cases hsent
  closed hpc _ _ := ⟨h.result_alarms none, Or.inl (hfailed hpc.running)⟩
  truthful := h.truthful

/-- A time that comes while there is no query. -/
theorem result_idle (h : Inv w) (hidle : w.pc = .idle) (time : Nat) :
    Inv (w.result (some time)) where
  alarms a ha := by
    rw [h.result_alarms] at ha
    cases ha
  unset _ := h.result_alarms _
  time hpc := absurd hidle hpc
  inTime := h.inTime
  requests := h.requests
  fresh := h.fresh
  lookups := h.lookups
  sent hsent := by cases hsent
  closed hpc _ _ := absurd hidle hpc.running
  truthful := h.truthful

/-- A valid reply to the query's own request. -/
theorem result_own (h : Inv w) (hsent : ¬w.pc.Unsent) (time : Nat) :
    Inv ((w.replied time).result (some time)) where
  alarms a ha := by
    change a ∈ (w.result (some time)).alarms at ha
    rw [h.result_alarms] at ha
    cases ha
  unset _ := h.result_alarms (some time)
  time _ := Or.inl (List.mem_append_right _ List.mem_cons_self)
  inTime hnil := absurd hnil (List.append_ne_nil_of_right_ne_nil _ (List.cons_ne_nil _ _))
  requests := h.requests
  fresh hpc := absurd hpc hsent
  lookups := h.lookups
  sent hsent := by cases hsent
  closed _ _ _ := ⟨h.result_alarms (some time),
    Or.inr (List.append_ne_nil_of_right_ne_nil _ (List.cons_ne_nil _ _))⟩
  truthful := h.truthful

theorem recv (h : Inv w) {request : Option Nat} {d : Datagram}
    (hcareful : Careful w (.recv request d)) : Inv (w.recv request d) := by
  unfold World.recv
  by_cases hvalid : d.valid w.ntp.serverAddress = true
  · rw [if_pos hvalid]
    by_cases hidle : w.pc = .idle
    · rw [if_neg fun hown => hown.1 hidle]
      exact h.result_idle hidle _
    · have hown := hcareful hvalid hidle
      rw [if_pos hown]
      obtain ⟨-, i, -, hi⟩ := hown
      exact h.result_own (fun hunsent => (h.fresh hunsent).1 (List.mem_of_getElem? hi)) _
  · rw [if_neg hvalid]
    by_cases hidle : w.pc = .idle
    · rw [if_neg (not_not_intro hidle)]
      exact h.result_none fun hpc => absurd hidle hpc
    · rw [if_pos hidle]
      exact (h.fail false).result_none fun _ => rfl

/-- The only alarm there can be is that of the query. -/
theorem alarm (h : Inv w) {a : Alarm} (ha : a ∈ w.alarms) : Inv (w.alarm a) := by
  have hrunning : w.pc ≠ .idle := by
    intro hidle
    rw [h.unset (Or.inl hidle)] at ha
    cases ha
  have herase : Inv { w with alarms := w.alarms.erase a } := by
    refine ⟨fun b hb => h.alarms b (List.mem_of_mem_erase hb), fun hpc => ?_, h.time,
      h.inTime, h.requests, h.fresh, h.lookups, h.sent,
      fun hpc hsent hlookups => ?_, h.truthful⟩
    · rw [h.unset hpc] at ha
      cases ha
    · rw [(h.closed hpc hsent hlookups).1] at ha
      cases ha
  unfold World.alarm
  dsimp only
  rw [if_pos ⟨hrunning, (h.alarms a ha).1⟩]
  exact (herase.fail true).result_none fun _ => rfl

/-- The only lookup there can be is that of the query, which waits for it. -/
theorem dnsFound (h : Inv w) {query : Nat} (hquery : query ∈ w.lookups) (addr : Option Nat) :
    Inv (w.dnsFound query addr) := by
  obtain ⟨hlookups, hwaiting⟩ : w.lookups = [w.query.number] ∧ w.pc.Waiting := by
    rcases h.lookups with hnil | hone
    · rw [hnil] at hquery
      cases hquery
    · exact hone
  obtain rfl : query = w.query.number := by simpa [hlookups] using hquery
  have hrunning := Pc.Posted.running (Or.inl hwaiting)
  have herase : w.lookups.erase w.query.number = [] := by simp [hlookups]
  have hunsent : ¬w.pc.Unsent := fun hunsent => hunsent.not_waiting hwaiting
  unfold World.dnsFound
  rw [herase]
  cases addr with
  | some addr =>
    refine ⟨h.alarms, h.unset, h.time, h.inTime, ?_, fun hpc => absurd hpc hunsent, Or.inl rfl,
      fun _ => ⟨rfl, Or.inl hwaiting⟩, fun _ hsent => (by cases hsent), h.truthful⟩
    intro q hq
    rcases List.mem_append.mp hq with hq | hq
    · exact h.requests q hq
    · exact Nat.le_of_eq (List.mem_singleton.mp hq)
  | none =>
    dsimp only
    rw [if_pos ⟨hrunning, rfl⟩]
    have halarms := h.result_alarms none
    refine ⟨fun a ha => ?_, fun _ => halarms, h.time, h.inTime, h.requests, h.fresh, Or.inl rfl,
      fun hsent => (by cases hsent), fun _ _ _ => ⟨halarms, Or.inl rfl⟩, h.truthful⟩
    change a ∈ (w.result none).alarms at ha
    rw [halarms] at ha
    cases ha

/-! ### The steps of the query -/

/-- A query starts with nothing under way. -/
theorem begin_ (h : Inv w) (hpc : w.pc = .idle) : Inv w.begin_ := by
  have hwaiting : ¬w.pc.Waiting := hpc ▸ Pc.idle_not_waiting
  have hleft : ∀ s, w.pc ≠ .left s := by
    intro s
    rw [hpc]
    exact Pc.noConfusion
  have halarms := h.unset (Or.inl hpc)
  refine ⟨fun a ha => ?_, fun _ => halarms, fun _ => Or.inr ⟨rfl, rfl⟩, fun _ => rfl,
    fun q hq => Nat.le_succ_of_le (h.requests q hq), fun _ => ⟨fun hmem => ?_, rfl⟩,
    Or.inl (h.lookups_nil hwaiting), fun hsent => ?_, fun hposted => ?_, h.truthful⟩
  · change a ∈ w.alarms at ha
    rw [halarms] at ha
    cases ha
  · have := h.requests _ hmem
    exact absurd this (Nat.not_succ_le_self _)
  · rw [show w.begin_.ntp.requestSent = false from h.unsent hwaiting hleft] at hsent
    cases hsent
  · exact absurd hposted (Pc.Unsent.not_posted (Or.inl rfl))

/-- Before its request is sent a query has no lookup pending and nothing sent. -/
theorem quiet (h : Inv w) (hpc : w.pc.Unsent) : w.lookups = [] ∧ w.ntp.requestSent = false := by
  refine ⟨h.lookups_nil hpc.not_waiting, h.unsent hpc.not_waiting ?_⟩
  intro s hs
  exact hpc.not_posted (Or.inr (Or.inl ⟨s, hs⟩))

/-- From one place in front of the request to another. -/
theorem goto_unsent (h : Inv w) (hpc : w.pc.Unsent) {pc : Pc} (hpc' : pc.Unsent)
    (hcheck : pc ≠ .check) : Inv (w.goto pc) := by
  obtain ⟨hlookups, hsent⟩ := h.quiet hpc
  refine ⟨h.alarms, fun hp => ?_, fun _ => h.time hpc.running, h.inTime, h.requests,
    fun _ => h.fresh hpc, Or.inl hlookups, fun hs => ?_, fun hposted => ?_, h.truthful⟩
  · rcases hp with hp | hp
    · exact absurd hp hpc'.running
    · exact absurd hp hcheck
  · rw [show (w.goto pc).ntp.requestSent = false from hsent] at hs
    cases hs
  · exact absurd hposted hpc'.not_posted

/-- The alarm of the query is the only one. -/
theorem check (h : Inv w) (hpc : w.pc = .check) (alarm : Bool) :
    Inv ((w.addAlarm alarm).goto .lookup) := by
  have hunsent : w.pc.Unsent := Or.inl hpc
  have halarms := h.unset (Or.inr hpc)
  have hlookup : Inv (w.goto .lookup) :=
    h.goto_unsent hunsent (Or.inr (Or.inl rfl)) (by decide)
  unfold addAlarm
  cases alarm with
  | true =>
    refine ⟨fun a ha => ?_, fun hp => ?_, hlookup.time, hlookup.inTime, hlookup.requests,
      hlookup.fresh, hlookup.lookups, hlookup.sent, fun hposted => ?_, hlookup.truthful⟩
    · change a ∈ w.alarms ++ _ at ha
      rw [halarms] at ha
      obtain rfl := List.mem_singleton.mp ha
      exact ⟨rfl, rfl⟩
    · rcases hp with hp | hp <;> cases hp
    · exact absurd hposted (Pc.Unsent.not_posted (Or.inr (Or.inl rfl)))
  | false =>
    refine ⟨fun a ha => ?_, fun _ => halarms, hlookup.time, hlookup.inTime, hlookup.requests,
      hlookup.fresh, hlookup.lookups, hlookup.sent, hlookup.closed, hlookup.truthful⟩
    change a ∈ w.alarms at ha
    rw [halarms] at ha
    cases ha

/-- The lookup is left to the resolver, or the request is sent. -/
theorem posted (h : Inv w) (hpc : w.pc.Unsent) :
    Inv { w with lookups := w.lookups ++ [w.query.number], pc := .start } ∧
      Inv ((w.request w.query.number).goto .start) := by
  obtain ⟨hlookups, hsent⟩ := h.quiet hpc
  have hstart : Pc.start.Waiting := Or.inl rfl
  have hset : ∀ p : Prop, Pc.start = .idle ∨ Pc.start = .check → p := by
    rintro p (hp | hp) <;> cases hp
  have hunsent : ∀ p : Prop, Pc.start.Unsent → p := by
    rintro p (hp | hp | hp | hp) <;> cases hp
  refine ⟨⟨h.alarms, hset _, fun _ => h.time hpc.running, h.inTime, h.requests, hunsent _,
    Or.inr ⟨?_, hstart⟩, fun hs => ?_, fun _ _ hnil => ?_, h.truthful⟩,
    h.alarms, hset _, fun _ => h.time hpc.running, h.inTime, fun q hq => ?_, hunsent _,
    Or.inl hlookups, fun _ => ⟨hlookups, Or.inl hstart⟩, fun _ hs => (by cases hs), h.truthful⟩
  · rw [hlookups, List.nil_append]
  · rw [hsent] at hs
    cases hs
  · exact absurd hnil (List.append_ne_nil_of_right_ne_nil _ (List.cons_ne_nil _ _))
  · rcases List.mem_append.mp hq with hq | hq
    · exact h.requests q hq
    · exact Nat.le_of_eq (List.mem_singleton.mp hq)

/-- On from a place behind the request. -/
theorem goto_posted (h : Inv w) (hpc : w.pc.Posted) {pc : Pc} (hpc' : pc.Posted)
    (hlookups : w.lookups = [] ∨ pc.Waiting)
    (hsent : w.ntp.requestSent = true →
      pc.Waiting ∨ ∃ s, pc = .left s ∧ ntpOverallTimeout ≤ w.clock - s) : Inv (w.goto pc) := by
  refine ⟨h.alarms, fun hp => ?_, fun _ => h.time hpc.running, h.inTime, h.requests,
    fun hunsent => ?_, ?_, fun hs => ⟨(h.sent hs).1, hsent hs⟩, fun _ => h.closed hpc, h.truthful⟩
  · change pc = .idle ∨ pc = .check at hp
    rcases hp with rfl | rfl
    · exact absurd rfl hpc'.running
    · rcases hpc' with (hp | ⟨s, hp⟩) | ⟨s, hp⟩ | hp <;> cases hp
  · exact absurd hpc' hunsent.not_posted
  · rcases h.lookups with hnil | ⟨hone, -⟩
    · exact Or.inl hnil
    · rcases hlookups with hnil | hwaiting
      · exact Or.inl hnil
      · exact Or.inr ⟨hone, hwaiting⟩

/-- A closed query with nothing under way returns the truth. -/
theorem answer (h : Inv w) (hlookups : w.lookups = [])
    (hsent : w.ntp.requestSent = false) (halarms : w.alarms = []) {result : Nat}
    (htruthful : Answer.Truthful ⟨w.query, result⟩) : Inv (w.answer result) := by
  refine ⟨h.alarms, fun _ => halarms, fun hp => absurd rfl hp, h.inTime, h.requests,
    fun hp => absurd rfl hp.running, Or.inl hlookups, fun hs => ?_,
    fun hp => absurd rfl hp.running, fun a ha => ?_⟩
  · rw [show (w.answer result).ntp.requestSent = false from hsent] at hs
    cases hs
  · rcases List.mem_append.mp ha with ha | ha
    · exact h.truthful a ha
    · obtain rfl := List.mem_singleton.mp ha
      exact htruthful

theorem step_lookup (h : Inv w) {lookup : Lookup} (hstep : w.step (.lookup lookup) = some w') :
    Inv w' := by
  simp only [step, Option.ite_none_right_eq_some] at hstep
  obtain ⟨hpc, hstep⟩ := hstep
  have hunsent : w.pc.Unsent := Or.inr (Or.inl hpc)
  cases lookup with
  | cached addr =>
    obtain rfl := Option.some.inj hstep
    have hgoto : Inv (w.goto .request) :=
      h.goto_unsent hunsent (Or.inr (Or.inr (Or.inl rfl))) (by decide)
    exact ⟨hgoto.alarms, hgoto.unset, hgoto.time, hgoto.inTime, hgoto.requests, hgoto.fresh,
      hgoto.lookups, hgoto.sent, hgoto.closed, hgoto.truthful⟩
  | inProgress =>
    obtain rfl := Option.some.inj hstep
    exact (h.posted hunsent).1
  | failed =>
    obtain rfl := Option.some.inj hstep
    exact h.goto_unsent hunsent (Or.inr (Or.inr (Or.inr rfl))) (by decide)

/-- A lookup that cannot be started ends the query with an error. -/
theorem step_refused (h : Inv w) (hstep : w.step .refused = some w') : Inv w' := by
  simp only [step, Option.ite_none_right_eq_some, Option.some.injEq] at hstep
  obtain ⟨hpc, rfl⟩ := hstep
  have hunsent : w.pc.Unsent := Or.inr (Or.inr (Or.inr hpc))
  have hfail := h.fail false
  have hresult := hfail.result_none fun _ => rfl
  exact hresult.answer (h.quiet hunsent).1 rfl (hfail.result_alarms none)
    (Or.inr ⟨rfl, rfl, h.inTime (h.fresh hunsent).2⟩)

/-- The loop is left with the answer there, or at the timeout. -/
theorem step_poll (h : Inv w) (hcareful : w.query.number ∉ w.lookups)
    (hstep : w.step .poll = some w') : Inv w' := by
  simp only [step] at hstep
  split at hstep
  · rename_i startTime hpc
    split at hstep
    · obtain rfl := Option.some.inj hstep
      exact h
    · rename_i hleave
      obtain rfl := Option.some.inj hstep
      have hlookups : w.lookups = [] := by
        rcases h.lookups with hnil | ⟨hone, -⟩
        · exact hnil
        · exact absurd (hone ▸ List.mem_cons_self) hcareful
      exact h.goto_posted (Or.inl (Or.inr ⟨_, hpc⟩)) (Or.inr (Or.inl ⟨_, rfl⟩)) (Or.inl hlookups)
        fun hsent => Or.inr ⟨_, rfl, Nat.not_lt.mp fun hlt => hleave ⟨hsent, hlt⟩⟩
  · cases hstep

/-- A request that is still out behind the loop has timed out. -/
theorem step_finish (h : Inv w) (hstep : w.step .finish = some w') : Inv w' := by
  simp only [step] at hstep
  split at hstep
  · rename_i startTime hpc
    have hwaiting : ¬w.pc.Waiting := hpc ▸ Pc.left_not_waiting startTime
    have hposted : w.pc.Posted := Or.inr (Or.inl ⟨_, hpc⟩)
    have hdone : Pc.done.Posted := Or.inr (Or.inr rfl)
    have hlookups := h.lookups_nil hwaiting
    split at hstep
    · rename_i hsent
      have htimeout : ntpOverallTimeout ≤ w.clock - startTime := by
        rcases (h.sent hsent).2 with hw | ⟨s, hs, htimeout⟩
        · exact absurd hw hwaiting
        · rwa [Pc.left.inj (hpc.symm.trans hs)]
      rw [if_pos htimeout] at hstep
      obtain rfl := Option.some.inj hstep
      exact ((h.fail true).result_none fun _ => rfl).goto_posted hposted hdone (Or.inl hlookups)
        fun hs => (by cases hs)
    · rename_i hsent
      obtain rfl := Option.some.inj hstep
      exact h.goto_posted hposted hdone (Or.inl hlookups) fun hs => absurd hs hsent
  · cases hstep

/-- A query that returns is closed. -/
theorem step_ret (h : Inv w) (hstep : w.step .ret = some w') : Inv w' := by
  simp only [step, Option.ite_none_right_eq_some, Option.some.injEq] at hstep
  obtain ⟨hpc, rfl⟩ := hstep
  have hposted : w.pc.Posted := Or.inr (Or.inr hpc)
  have hwaiting : ¬w.pc.Waiting := hpc ▸ Pc.done_not_waiting
  have hleft : ∀ s, w.pc ≠ .left s := by
    intro s
    rw [hpc]
    exact Pc.noConfusion
  have hlookups := h.lookups_nil hwaiting
  have hsent := h.unsent hwaiting hleft
  obtain ⟨halarms, hclosed⟩ := h.closed hposted hsent hlookups
  apply h.answer hlookups hsent halarms
  rcases h.time hposted.running with hown | ⟨hzero, hnil⟩
  · exact Or.inl hown
  · exact Or.inr ⟨hzero, hclosed.resolve_right fun hne => hne hnil, h.inTime hnil⟩

/-- Time goes by. -/
theorem step_second (h : Inv w) : Inv { w with clock := w.clock + 1 } := by
  refine ⟨h.alarms, h.unset, h.time, h.inTime, h.requests, h.fresh, h.lookups, fun hs => ?_,
    h.closed, h.truthful⟩
  obtain ⟨hlookups, hw | ⟨s, hpc, htimeout⟩⟩ := h.sent hs
  · exact ⟨hlookups, Or.inl hw⟩
  · exact ⟨hlookups, Or.inr ⟨s, hpc, Nat.le_trans htimeout (Nat.sub_le_sub_right (Nat.le_succ _) s)⟩⟩

end Inv

/-- **Careful steps keep the invariant.** -/
theorem inv_step {e : Event} (h : Inv w) (hcareful : Careful w e) (hstep : w.step e = some w') :
    Inv w' := by
  cases e with
  | queryTime =>
    simp only [step, Option.ite_none_right_eq_some, Option.some.injEq] at hstep
    obtain ⟨hpc, rfl⟩ := hstep
    exact h.begin_ hpc
  | check alarm =>
    simp only [step, Option.ite_none_right_eq_some, Option.some.injEq] at hstep
    obtain ⟨hpc, rfl⟩ := hstep
    rw [(h.quiet (Or.inl hpc)).2]
    exact h.check hpc alarm
  | lookup lookup => exact h.step_lookup hstep
  | request =>
    simp only [step, Option.ite_none_right_eq_some, Option.some.injEq] at hstep
    obtain ⟨hpc, rfl⟩ := hstep
    exact (h.posted (Or.inr (Or.inr (Or.inl hpc)))).2
  | refused => exact h.step_refused hstep
  | start =>
    simp only [step, Option.ite_none_right_eq_some, Option.some.injEq] at hstep
    obtain ⟨hpc, rfl⟩ := hstep
    have hwaiting : (Pc.loop w.clock).Waiting := Or.inr ⟨_, rfl⟩
    exact h.goto_posted (Or.inl (Or.inl hpc)) (Or.inl hwaiting) (Or.inr hwaiting)
      fun _ => Or.inl hwaiting
  | poll => exact h.step_poll hcareful hstep
  | finish => exact h.step_finish hstep
  | ret => exact h.step_ret hstep
  | dnsFound query addr =>
    simp only [step, Option.ite_none_right_eq_some, Option.some.injEq] at hstep
    obtain ⟨hquery, rfl⟩ := hstep
    exact h.dnsFound hquery addr
  | recv request d =>
    obtain rfl := Option.some.inj hstep
    exact h.recv hcareful
  | alarm a =>
    simp only [step, Option.ite_none_right_eq_some, Option.some.injEq] at hstep
    obtain ⟨⟨ha, -⟩, rfl⟩ := hstep
    exact h.alarm ha
  | second =>
    obtain rfl := Option.some.inj hstep
    exact h.step_second

theorem inv_initial (resendAlarm : Option Nat) (serverAddress : Nat) :
    Inv (initial resendAlarm serverAddress) where
  alarms a ha := by cases ha
  unset _ := rfl
  time hpc := absurd rfl hpc
  inTime _ := rfl
  requests q hq := by cases hq
  fresh hpc := absurd rfl hpc.running
  lookups := Or.inl rfl
  sent hsent := by cases hsent
  closed hpc := absurd rfl hpc.running
  truthful a ha := by cases ha

/-- **In a careful run every query is answered truthfully.** -/
theorem truthful_of_careful (resendAlarm : Option Nat) (serverAddress : Nat) {es : List Event}
    (hcareful : (machine resendAlarm serverAddress).EachStep Careful
      (initial resendAlarm serverAddress) es) :
    (machine resendAlarm serverAddress).Throughout Truthful
      (initial resendAlarm serverAddress) es := by
  have hP : ∀ w, Inv w → Truthful w := fun w h => h.truthful
  have hkeep : ∀ s e t, Inv s → Careful s e → (machine resendAlarm serverAddress).step s e = some t →
      Inv t := by
    intro s e t hs hC hstep
    exact inv_step hs hC hstep
  have hinitial := inv_initial resendAlarm serverAddress
  exact EventMachine.Machine.throughout_of_eachStep hP hkeep hinitial hcareful

/-- A query with a cached address, and the reply to it. -/
theorem truthful_of_careful_reply :
    ((machine none 1).run (initial none 1)
        [.queryTime, .check true, .lookup (.cached 7), .request, .start, .poll, .second,
          .recv (some 0) ⟨7, 123, 48, 4, 2, 3900000000⟩, .poll, .finish, .ret]).map
        (fun w => w.answers.map Answer.result) = some [1691011200] ∧
      (machine none 1).Throughout Truthful (initial none 1)
        [.queryTime, .check true, .lookup (.cached 7), .request, .start, .poll, .second,
          .recv (some 0) ⟨7, 123, 48, 4, 2, 3900000000⟩, .poll, .finish, .ret] :=
  ⟨by decide +kernel, truthful_of_careful none 1 (by decide +kernel)⟩

/-- The resolver is at work: the query returns 0 at once. -/
theorem not_truthful_lookup :
    ∃ w, (machine none 1).run (initial none 1)
        [.queryTime, .check true, .lookup .inProgress, .start, .poll, .finish, .ret] = some w ∧
      w.clock = 0 ∧ w.alarms ≠ [] ∧ ¬w.Truthful := by
  refine ⟨_, rfl, rfl, List.cons_ne_nil _ _, ?_⟩
  intro htruthful
  rcases htruthful _ (List.mem_cons_self ..) with hown | ⟨-, hfailed, -⟩
  · cases hown
  · cases hfailed

end World
end VzLogger.Pico.NtpQuery
