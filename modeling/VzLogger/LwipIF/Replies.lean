import VzLogger.LwipIF.Model

/-! # Which reply removes which values

A channel takes values off its queue when it processes a response.  Nothing in
the data says which request it answers: the connection only remembers the channel
that posted last.  As long as every reply comes in one piece (`Orderly`), at most one
request is outstanding at any time, no channel prepares another one meanwhile, and
the channel that processes a response is the one whose request it answers, with
the queue the request was made from (`Held`).

`vz_altcp_recv` puts no pieces together: a reply that comes in two, or to a request that
lwIP has queued although `altcp_output` failed, is taken for the answer to another
channel's request.  A response that reports a duplicate entry removes a value without
status 200.
-/
namespace VzLogger.LwipIF
open Volkszaehler

namespace World

/-- The request that a removal's response belonged to. -/
def requestOf (w : World) (r : Removal) : Option Request := r.request.bind (w.requests[·]?)

/-- The removal is due to a status-200 reply to a request of its own channel, and
removed exactly the values that the request lists. -/
def Acknowledged (w : World) (r : Removal) : Prop :=
  ∃ q, w.requestOf r = some q ∧ q.channel = r.channel ∧ r.httpCode = 200 ∧ Lists q.body r.values

/-- A request stays what it is when more are written. -/
theorem Acknowledged.mono {w t : World} (h : w.requests <+: t.requests) {r : Removal}
    (hr : w.Acknowledged r) : t.Acknowledged r := by
  obtain ⟨q, hq, hrest⟩ := hr
  obtain ⟨i, hi, hiq⟩ := Option.bind_eq_some_iff.mp hq
  obtain ⟨more, hmore⟩ := h
  refine ⟨q, Option.bind_eq_some_iff.mpr ⟨i, hi, ?_⟩, hrest⟩
  obtain ⟨hlt, -⟩ := List.getElem?_eq_some_iff.mp hiq
  rw [← hmore, List.getElem?_append_left hlt]
  exact hiq

/-- The request of a removal has been written before. -/
theorem Acknowledged.request_ne {w : World} {r : Removal} (hr : w.Acknowledged r) :
    r.request ≠ some w.requests.length := by
  intro heq
  have hnone : w.requestOf r = none := by simp [requestOf, heq]
  obtain ⟨q, hq, -⟩ := hr
  rw [hnone] at hq
  cases hq

/-- What channel `c` takes the response for: its payload, or the last one the channel has
received. -/
def replyTo (cfg : Config) (w : World) (c : Nat) (scanned : Scanned) : JsonReply :=
  ((scanned.payload.orElse fun _ => (w.channels c).response).map cfg.tokener).getD .error

/-- The response that channel `c` is about to process has another status than 200, and it
reports a duplicate entry. -/
def ReportsDuplicate (cfg : Config) (w : World) (c : Nat) : Prop :=
  match scan w.conn.data with
  | some scanned => scanned.httpCode ≠ 200 ∧ isDuplicateEntry (w.replyTo cfg c scanned) = true
  | none => False

/-- A reply comes in one piece, and once; `altcp_output` does not report `ERR_MEM` for a
request that `altcp_write` has taken; and the middleware reports no duplicate entry. -/
def Orderly (cfg : Config) (w : World) : Event → Prop
  | .recv request segment => request ∈ w.outstanding ∧ segment ≠ []
  | .sendData write output => write = .ok → output ≠ .mem
  | .checkResponse =>
    match w.pc with
    | .check c => w.conn.state = .replied → w.conn.channel = some c → ¬w.ReportsDuplicate cfg c
    | _ => True
  | _ => True

/-! ## Where no reply is under way -/

/-- Between the test for `VZ_SRV_READY` and the write, and on the way back to it. -/
def Quiet : Pc → Prop
  | .ready _ | .post _ | .write _ | .written _ .mem | .posted _ .retry => True
  | _ => False

/-- What the states say about outstanding requests. -/
structure Control (w : World) : Prop where
  quiet : Quiet w.pc → w.outstanding = [] ∧ w.conn.state ≠ .replied
  ready : w.conn.state = .ready → w.outstanding = []
  retry : w.conn.state = .retry → w.outstanding = []
  replied : w.conn.state = .replied → w.outstanding = []
  finish : w.pc = .finish → w.outstanding = []
  link : w.outstanding ≠ [] → w.conn.link = .established

theorem control_initial (cfg : Config) : Control (initial cfg) where
  quiet := nofun
  ready := nofun
  retry := nofun
  replied := nofun
  finish := nofun
  link h := absurd rfl h

/-- No request is outstanding, and the state is not `VZ_SRV_REPLIED`. -/
theorem control_of_none {w : World} (hnone : w.outstanding = [])
    (hstate : w.conn.state ≠ .replied) : Control w where
  quiet _ := ⟨hnone, hstate⟩
  ready _ := hnone
  retry _ := hnone
  replied _ := hnone
  finish _ := hnone
  link h := absurd hnone h

/-- A step to a place where a reply may be under way. -/
theorem Control.goto {w : World} (hw : Control w) {pc : Pc} (hquiet : ¬Quiet pc)
    (hfinish : pc ≠ .finish) : Control (w.goto pc) where
  quiet h := absurd h hquiet
  ready := hw.ready
  retry := hw.retry
  replied := hw.replied
  finish h := absurd h hfinish
  link := hw.link

/-- `VZ_SRV_INIT` says nothing. -/
theorem Control.setState_init {w : World} (hw : Control w) : Control (w.setState .init) where
  quiet h := ⟨(hw.quiet h).1, nofun⟩
  ready := nofun
  retry := nofun
  replied := nofun
  finish := hw.finish
  link := hw.link

theorem Control.none_of_link {w : World} (hw : Control w) (hlink : w.conn.link ≠ .established) :
    w.outstanding = [] := by
  by_contra h
  exact hlink (hw.link h)

theorem control_connect {w : World} (hw : Control w) (hlink : w.conn.link ≠ .established)
    (err : Err) : Control (w.connect err) := by
  have hnone := hw.none_of_link hlink
  unfold connect
  split
  · exact control_of_none hnone nofun
  · exact hw.setState_init

/-! ## The books -/

/-- The response to request `i`, if it arrives now, is taken to the channel that
posted it, with the queue it was made from; and none has been processed. -/
def Held (w : World) (i : Nat) : Prop :=
  ∃ q, w.requests[i]? = some q ∧ w.conn.channel = some q.channel ∧
    (w.channels q.channel).vz.values = q.values ∧ ∀ r ∈ w.removals, r.request ≠ some i

/-- On the way from `api_json_tuples` to the write: the text is that of the queue,
and the connection takes the name of the channel. -/
structure Prepared (w : World) : Prop where
  channel : ∀ c, w.pc = .write c → w.conn.channel = some c
  body : ∀ c, w.pc = .post c ∨ w.pc = .write c → (w.channels c).vz.values ≠ [] →
    (w.channels c).vz.outputData = Volkszaehler.body (w.channels c).vz.values

/-- Elsewhere there is nothing to prepare. -/
theorem prepared_of {w : World} (h : ∀ c, w.pc ≠ .post c ∧ w.pc ≠ .write c) : Prepared w where
  channel c hc := absurd hc (h c).2
  body c hc := by
    rcases hc with hc | hc
    · exact absurd hc (h c).1
    · exact absurd hc (h c).2

structure Inv (w : World) : Prop where
  control : Control w
  outstanding : ∀ i ∈ w.outstanding, w.outstanding = [i] ∧ w.Held i
  replied : w.conn.state = .replied → w.pc ≠ .finish → ∃ i, w.source = some i ∧ w.Held i
  prepared : Prepared w
  requests : ∀ q ∈ w.requests, q.values ≠ [] → Lists q.body (chunk q.values)
  removals : ∀ r ∈ w.removals, w.Acknowledged r
  once : (w.removals.map Removal.request).Nodup

theorem inv_initial (cfg : Config) : Inv (initial cfg) where
  control := control_initial cfg
  outstanding := nofun
  replied := nofun
  prepared := prepared_of fun _ => ⟨nofun, nofun⟩
  requests := nofun
  removals := nofun
  once := List.nodup_nil

/-- A step that touches no queue, no request and no response. -/
structure Frame (w t : World) : Prop where
  requests : t.requests = w.requests
  removals : t.removals = w.removals
  source : t.source = w.source
  channel : t.conn.channel = w.conn.channel
  vz : ∀ c, (t.channels c).vz = (w.channels c).vz
  outstanding : t.outstanding = [] ∨ t.outstanding = w.outstanding
  replied : t.conn.state = .replied →
    w.conn.state = .replied ∧ (w.pc = .finish → t.pc = .finish)
  pc : ∀ c, t.pc = .post c ∨ t.pc = .write c → t.pc = w.pc

namespace Frame

theorem refl (w : World) : Frame w w :=
  ⟨rfl, rfl, rfl, rfl, fun _ => rfl, Or.inr rfl, fun h => ⟨h, id⟩, fun _ _ => rfl⟩

theorem trans {w t u : World} (h : Frame w t) (h' : Frame t u) : Frame w u where
  requests := h'.requests.trans h.requests
  removals := h'.removals.trans h.removals
  source := h'.source.trans h.source
  channel := h'.channel.trans h.channel
  vz c := (h'.vz c).trans (h.vz c)
  outstanding := by
    rcases h'.outstanding with hu | hu
    · exact Or.inl hu
    · rw [hu]
      exact h.outstanding
  replied hu := by
    obtain ⟨ht, hpc'⟩ := h'.replied hu
    obtain ⟨hw, hpc⟩ := h.replied ht
    exact ⟨hw, fun hf => hpc' (hpc hf)⟩
  pc c hu := by
    have hut := h'.pc c hu
    exact hut.trans (h.pc c (hut ▸ hu))

theorem goto (w : World) {pc : Pc} (hfinish : w.pc = .finish → w.conn.state ≠ .replied)
    (hpc : ∀ c, pc ≠ .post c ∧ pc ≠ .write c) : Frame w (w.goto pc) :=
  ⟨rfl, rfl, rfl, rfl, fun _ => rfl, Or.inr rfl, fun h => ⟨h, fun hf => absurd h (hfinish hf)⟩,
    fun c h => by
      rcases h with h | h
      · exact absurd h (hpc c).1
      · exact absurd h (hpc c).2⟩

theorem setState (w : World) {state : SrvState} (h : state ≠ .replied) :
    Frame w (w.setState state) :=
  ⟨rfl, rfl, rfl, rfl, fun _ => rfl, Or.inr rfl, fun ht => absurd ht h, fun _ _ => rfl⟩

theorem setLink (w : World) (link : Link) : Frame w (w.setLink link) :=
  ⟨rfl, rfl, rfl, rfl, fun _ => rfl, Or.inr rfl, fun h => ⟨h, id⟩, fun _ _ => rfl⟩

theorem drop (w : World) : Frame w w.drop :=
  ⟨rfl, rfl, rfl, rfl, fun _ => rfl, Or.inl rfl, fun h => ⟨h, id⟩, fun _ _ => rfl⟩

theorem connect (w : World) (err : Err) : Frame w (w.connect err) := by
  unfold World.connect
  split
  · exact (setState w (show SrvState.connecting ≠ .replied from nofun)).trans (setLink _ _)
  · exact setState w nofun

/-- A channel whose API object stays as it is. -/
theorem setChannel (w : World) {c : Nat} {ch : Channel} (h : ch.vz = (w.channels c).vz) :
    Frame w (w.setChannel c ch) where
  requests := rfl
  removals := rfl
  source := rfl
  channel := rfl
  vz d := by
    by_cases hd : d = c
    · subst hd
      simpa [World.setChannel] using h
    · simp [World.setChannel, hd]
  outstanding := Or.inr rfl
  replied h := ⟨h, id⟩
  pc _ _ := rfl

end Frame

theorem Held.frame {w t : World} (h : Frame w t) {i : Nat} (hw : w.Held i) : t.Held i := by
  obtain ⟨q, hq, hchannel, hvalues, hfresh⟩ := hw
  refine ⟨q, ?_, ?_, ?_, ?_⟩
  · rw [h.requests]
    exact hq
  · rw [h.channel]
    exact hchannel
  · rw [h.vz]
    exact hvalues
  · rw [h.removals]
    exact hfresh

theorem Inv.frame {w t : World} (hw : Inv w) (h : Frame w t) (hcontrol : Control t) : Inv t where
  control := hcontrol
  outstanding i hi := by
    rcases h.outstanding with hnone | hsame
    · rw [hnone] at hi
      cases hi
    · rw [hsame] at hi ⊢
      exact ⟨(hw.outstanding i hi).1, (hw.outstanding i hi).2.frame h⟩
  replied hstate hpc := by
    obtain ⟨hrep, hfinish⟩ := h.replied hstate
    obtain ⟨i, hi, hheld⟩ := hw.replied hrep fun hf => hpc (hfinish hf)
    exact ⟨i, h.source.trans hi, hheld.frame h⟩
  prepared := by
    refine ⟨fun c hc => ?_, fun c hc => ?_⟩
    · rw [h.channel]
      exact hw.prepared.channel c ((h.pc c (Or.inr hc)).symm.trans hc)
    · rw [h.vz]
      have hsame := h.pc c hc
      exact hw.prepared.body c (hsame ▸ hc)
  requests := by
    rw [h.requests]
    exact hw.requests
  removals := by
    rw [h.removals]
    exact fun r hr => (hw.removals r hr).mono ⟨[], by rw [List.append_nil, h.requests]⟩
  once := by
    rw [h.removals]
    exact hw.once

/-! ## The steps that touch them -/

/-- What a processed response takes off the queue, but for a duplicate entry: the first chunk
after status 200, nothing otherwise. -/
theorem removed_processResponse {httpCode : Int} {reply : JsonReply}
    (h : httpCode ≠ 200 → isDuplicateEntry reply = false) (vz : Volkszaehler) :
    let removed := vz.values.take
      (vz.values.length - (processResponse httpCode 0 reply vz).values.length)
    removed = [] ∨ httpCode = 200 ∧ removed = chunk vz.values := by
  intro removed
  by_cases hok : httpCode = 200
  · -- the chunk that was sent is erased
    refine Or.inr ⟨hok, ?_⟩
    subst hok
    simp only [removed, processResponse_ok, chunk, List.length_drop]
    rw [List.take_eq_take_iff]
    omega
  · left
    have hsame : processResponse httpCode 0 reply vz = vz :=
      processResponse_failed (fun hcode => hok hcode.2) (h hok) vz
    simp [removed, hsame]

/-- A step, with nothing under way, that leaves the books alone. -/
theorem Inv.of_none {w t : World} (hw : Inv w) (hrequests : t.requests = w.requests)
    (hremovals : t.removals = w.removals) (hnone : t.outstanding = [])
    (hstate : t.conn.state ≠ .replied) (hprepared : Prepared t) : Inv t where
  control := control_of_none hnone hstate
  outstanding i hi := by
    rw [hnone] at hi
    cases hi
  replied h := absurd h hstate
  prepared := hprepared
  requests := by
    rw [hrequests]
    exact hw.requests
  removals := by
    rw [hremovals]
    exact fun r hr => (hw.removals r hr).mono ⟨[], by rw [List.append_nil, hrequests]⟩
  once := by
    rw [hremovals]
    exact hw.once

theorem inv_apiJsonTuples {cfg : Config} {w : World} {c : Nat} (hw : Inv w)
    (hpc : w.pc = .ready c) : Inv (w.apiJsonTuples cfg c) := by
  obtain ⟨hnone, hstate⟩ := hw.control.quiet (by rw [hpc]; trivial)
  unfold apiJsonTuples
  simp only
  split
  · exact hw.of_none rfl rfl hnone hstate (prepared_of fun _ => ⟨nofun, nofun⟩)
  · split
    · exact hw.of_none rfl rfl hnone hstate (prepared_of fun _ => ⟨nofun, nofun⟩)
    · refine hw.of_none rfl rfl hnone hstate ⟨nofun, fun d hd => ?_⟩
      rcases hd with hd | hd
      · obtain rfl := Pc.post.inj hd
        simp only [goto, setChannel, Function.update_self]
        rw [apiJsonTuples_values]
        exact apiJsonTuples_outputData
      · cases hd

theorem inv_postRequest {w : World} {c : Nat} (hw : Inv w) (hpc : w.pc = .post c) :
    Inv (w.postRequest c) := by
  obtain ⟨hnone, hstate⟩ := hw.control.quiet (by rw [hpc]; trivial)
  unfold postRequest
  split
  · exact hw.of_none rfl rfl hnone hstate (prepared_of fun _ => ⟨nofun, nofun⟩)
  · refine hw.of_none rfl rfl hnone hstate ⟨fun d hd => ?_, fun d hd => ?_⟩
    · obtain rfl := Pc.write.inj hd
      rfl
    · rcases hd with hd | hd
      · cases hd
      · obtain rfl := Pc.write.inj hd
        exact hw.prepared.body c (Or.inl hpc)

/-- The request that is written lists the queue of its channel. -/
theorem inv_sendData {w : World} {c : Nat} {write output : Err} (hw : Inv w) (hpc : w.pc = .write c)
    (hlink : ¬(write = .ok ∧ w.conn.link ≠ .established)) (houtput : write = .ok → output ≠ .mem) :
    Inv (w.sendData c write output) := by
  obtain ⟨hnone, hstate⟩ := hw.control.quiet (by rw [hpc]; trivial)
  unfold sendData
  split
  · rename_i hok
    have hfresh : ∀ r ∈ w.removals, r.request ≠ some w.requests.length :=
      fun r hr => (hw.removals r hr).request_ne
    have hquiet : ¬Quiet (.written c output) := by
      cases output with
      | mem => exact absurd rfl (houtput hok)
      | ok | other => exact id
    refine ⟨⟨fun h => absurd h hquiet, nofun, nofun, nofun, nofun, fun _ => ?_⟩, ?_, nofun,
      prepared_of fun _ => ⟨nofun, nofun⟩, ?_, ?_, hw.once⟩
    · by_contra h
      exact hlink ⟨hok, h⟩
    · intro i hi
      rw [hnone, List.nil_append] at hi ⊢
      obtain rfl := List.mem_singleton.mp hi
      exact ⟨rfl, _, List.getElem?_concat_length, hw.prepared.channel c hpc, rfl, hfresh⟩
    · intro q hq hne
      rcases List.mem_append.mp hq with hq | hq
      · exact hw.requests q hq hne
      · obtain rfl := List.mem_singleton.mp hq
        show Lists (w.channels c).vz.outputData _
        rw [hw.prepared.body c (Or.inr hpc) hne]
        exact lists_body hne
    · exact fun r hr => (hw.removals r hr).mono (List.prefix_append _ _)
  · exact hw.of_none rfl rfl hnone hstate (prepared_of fun _ => ⟨nofun, nofun⟩)

/-- What a processed response removes is what the request that it answers lists. -/
theorem acknowledged_of_process {w : World} {i : Nat} {q : Request} (hq : w.requests[i]? = some q)
    (hlists : q.values ≠ [] → Lists q.body (chunk q.values)) {vz : Volkszaehler}
    (hvalues : vz.values = q.values) {httpCode : Int} {reply : JsonReply}
    (hreply : httpCode ≠ 200 → isDuplicateEntry reply = false)
    (hne : vz.values.take
      (vz.values.length - (processResponse httpCode 0 reply vz).values.length) ≠ []) :
    w.Acknowledged ⟨q.channel, some i, httpCode, reply, vz.values.take
      (vz.values.length - (processResponse httpCode 0 reply vz).values.length)⟩ := by
  have hqne : q.values ≠ [] := by
    intro h
    rw [hvalues, h, List.take_nil] at hne
    exact hne rfl
  rcases removed_processResponse hreply vz with hnil | ⟨hok, hchunk⟩
  · exact absurd hnil hne
  · refine ⟨q, hq, rfl, hok, ?_⟩
    show Lists q.body (List.take _ _)
    rw [hchunk, hvalues]
    exact hlists hqne

/-- A step to the end of `checkResponse`. -/
theorem Inv.of_finish {w t : World} (hw : Inv w) (hpc : t.pc = .finish) (hnone : t.outstanding = [])
    (hrequests : t.requests = w.requests) (hremovals : ∀ r ∈ t.removals, t.Acknowledged r)
    (honce : (t.removals.map Removal.request).Nodup) : Inv t where
  control := ⟨fun h => (by rw [hpc] at h; exact h.elim), fun _ => hnone, fun _ => hnone,
    fun _ => hnone, fun _ => hnone, fun h => absurd hnone h⟩
  outstanding i hi := by
    rw [hnone] at hi
    cases hi
  replied _ h := absurd hpc h
  prepared := prepared_of fun _ => by rw [hpc]; exact ⟨nofun, nofun⟩
  requests := by
    rw [hrequests]
    exact hw.requests
  removals := hremovals
  once := honce

/-- A response is processed by the channel whose request it answers. -/
theorem inv_process {cfg : Config} {w : World} {c : Nat} {scanned : Scanned} (hw : Inv w)
    (hpc : w.pc = .check c) (hstate : w.conn.state = .replied)
    (hchannel : w.conn.channel = some c)
    (hreply : scanned.httpCode ≠ 200 → isDuplicateEntry (w.replyTo cfg c scanned) = false) :
    Inv (w.process cfg c scanned) := by
  have hnone := hw.control.replied hstate
  obtain ⟨i, hsource, q, hq, hqc, hvalues, hfresh⟩ := hw.replied hstate (by rw [hpc]; nofun)
  obtain rfl : q.channel = c := Option.some.inj (hqc.symm.trans hchannel)
  have hmono : ∀ t : World, t.requests = w.requests → ∀ r ∈ w.removals, t.Acknowledged r :=
    fun t ht r hr => (hw.removals r hr).mono ⟨[], by rw [List.append_nil, ht]⟩
  unfold process
  simp only
  split
  · exact hw.of_finish rfl hnone rfl (hmono _ rfl) hw.once
  · rename_i hne
    refine hw.of_finish rfl hnone rfl (fun r hr => ?_) ?_
    · rcases List.mem_append.mp hr with hr | hr
      · exact hmono _ rfl r hr
      · obtain rfl := List.mem_singleton.mp hr
        have hacknowledged := acknowledged_of_process hq (hw.requests q (List.mem_of_getElem? hq))
          hvalues hreply hne
        rw [← hsource] at hacknowledged
        exact hacknowledged.mono ⟨[], List.append_nil _⟩
    · rw [List.map_append, List.nodup_append]
      refine ⟨hw.once, List.nodup_singleton _, fun a ha b hb => ?_⟩
      obtain ⟨r, hr, rfl⟩ := List.mem_map.mp ha
      obtain rfl := List.mem_singleton.mp hb
      show r.request ≠ w.source
      rw [hsource]
      exact hfresh r hr

theorem inv_recv {w : World} {request : Nat} {segment : List Char} (hw : Inv w)
    (hrequest : request ∈ w.outstanding) (hsegment : segment ≠ []) :
    Inv (w.recv request segment) := by
  -- the reply is to the only request under way, and the channel still holds its values
  obtain ⟨hsingle, q, hq, hchannel, hvalues, hfresh⟩ := hw.outstanding request hrequest
  have hnone : w.outstanding.erase request = [] := by rw [hsingle, List.erase_cons_head]
  have hquiet : ¬Quiet w.pc := fun h => by
    rw [(hw.control.quiet h).1] at hrequest
    cases hrequest
  have hfinish : w.pc ≠ .finish := fun h => by
    rw [hw.control.finish h] at hrequest
    cases hrequest
  have hpc : ∀ c, w.pc ≠ .post c ∧ w.pc ≠ .write c :=
    fun c => ⟨fun h => hquiet (by rw [h]; trivial), fun h => hquiet (by rw [h]; trivial)⟩
  unfold recv
  simp only [if_neg hsegment]
  exact {
    control := ⟨fun h => absurd h hquiet, nofun, nofun, fun _ => hnone, fun h => absurd h hfinish,
      fun h => absurd hnone h⟩
    outstanding := fun i hi => by
      rw [hnone] at hi
      cases hi
    replied := fun _ _ => ⟨request, rfl, q, hq, hchannel, hvalues, hfresh⟩
    prepared := prepared_of hpc
    requests := hw.requests
    removals := fun r hr => (hw.removals r hr).mono ⟨[], List.append_nil _⟩
    once := hw.once }

/-! ## All steps -/

/-- A step to a place where a reply may be under way. -/
theorem Inv.goto {w : World} (hw : Inv w) {pc : Pc} (hpc : w.pc ≠ .finish) (hquiet : ¬Quiet pc)
    (hfinish : pc ≠ .finish) : Inv (w.goto pc) :=
  hw.frame (Frame.goto w (fun h => absurd h hpc) fun _ =>
    ⟨fun h => hquiet (by rw [h]; trivial), fun h => hquiet (by rw [h]; trivial)⟩)
    (hw.control.goto hquiet hfinish)

theorem Inv.setState_init {w : World} (hw : Inv w) : Inv (w.setState .init) :=
  hw.frame (Frame.setState w nofun) hw.control.setState_init

theorem Inv.drop {w : World} (hw : Inv w) : Inv (w.drop.setState .init) :=
  hw.frame ((Frame.drop w).trans (Frame.setState _ nofun)) (control_of_none rfl nofun)

theorem Inv.connect {w : World} (hw : Inv w) (hlink : w.conn.link ≠ .established) (err : Err) :
    Inv (w.connect err) :=
  hw.frame (Frame.connect w err) (control_connect hw.control hlink err)

theorem inv_send {w : World} (hw : Inv w) (hpc : w.pc = .idle) (c : Nat)
    (connectTimedOut sendTimedOut : Bool) : Inv (w.send c connectTimedOut sendTimedOut) := by
  have hfinish : w.pc ≠ .finish := by rw [hpc]; nofun
  rcases send_cases w c connectTimedOut sendTimedOut with h | h | ⟨hready, h⟩ | h
  · rw [h]
    exact hw
  · rw [h]
    exact hw.goto hfinish id nofun
  · -- a connection that is ready has no request outstanding
    rw [h]
    exact hw.of_none rfl rfl (hw.control.ready hready) (by rw [goto, hready]; nofun)
      (prepared_of fun _ => ⟨nofun, nofun⟩)
  · rw [h]
    exact hw.goto hfinish id nofun

theorem inv_reconnect {w : World} (hw : Inv w) (hpc : w.pc = .reconnect) (lookup : Lookup) :
    Inv (w.reconnect lookup) := by
  have hdns : Inv ((w.drop.setLink .opened).setState .dns) :=
    hw.frame (((Frame.drop w).trans (Frame.setLink _ _)).trans (Frame.setState _ nofun))
      (control_of_none rfl nofun)
  have hfinish : ∀ t : World, t.pc = w.pc → t.pc ≠ .finish := by
    intro t ht
    rw [ht, hpc]
    nofun
  unfold reconnect
  cases lookup with
  | cached err =>
    refine (hdns.connect nofun err).goto (hfinish _ ?_) id nofun
    unfold World.connect
    split <;> rfl
  | inProgress => exact hdns.goto (hfinish _ rfl) id nofun
  | failed => exact hdns.setState_init.goto (hfinish _ rfl) id nofun

theorem inv_sent {w : World} {c : Nat} {err : Err} (hw : Inv w) (hpc : w.pc = .written c err) :
    Inv (w.sent c err) := by
  have hfinish : w.pc ≠ .finish := by rw [hpc]; nofun
  unfold sent
  cases err with
  | mem =>
    obtain ⟨hnone, -⟩ := hw.control.quiet (by rw [hpc]; trivial)
    exact hw.of_none rfl rfl hnone nofun (prepared_of fun _ => ⟨nofun, nofun⟩)
  | ok =>
    by_cases hretry : w.conn.state = .retry
    · have hstate : w.conn.state ≠ .replied := by rw [hretry]; nofun
      exact hw.of_none rfl rfl (hw.control.retry hretry) hstate
        (prepared_of fun _ => ⟨nofun, nofun⟩)
    · refine hw.goto hfinish (fun h => ?_) nofun
      cases hstate : w.conn.state <;> rw [hstate] at h hretry <;> first | exact h | exact hretry rfl
  | other => exact hw.setState_init.goto hfinish id nofun

theorem inv_posted {w : World} {c : Nat} {state : SrvState} (hw : Inv w)
    (hpc : w.pc = .posted c state) : Inv (w.posted c state) := by
  have hfinish : w.pc ≠ .finish := by rw [hpc]; nofun
  unfold posted
  split
  · rename_i hretry
    obtain ⟨hnone, -⟩ := hw.control.quiet (by rw [hpc, hretry]; trivial)
    exact hw.of_none rfl rfl hnone nofun (prepared_of fun _ => ⟨nofun, nofun⟩)
  · split
    · exact hw.setState_init.goto hfinish id nofun
    · exact hw.goto hfinish id nofun

theorem inv_checkResponse {cfg : Config} {w t : World} {c : Nat} (hw : Inv w)
    (hpc : w.pc = .check c)
    (hreply : w.conn.state = .replied → w.conn.channel = some c → ¬w.ReportsDuplicate cfg c)
    (h : w.checkResponse cfg c = some t) : Inv t := by
  have hfinish : w.pc ≠ .finish := by rw [hpc]; nofun
  unfold checkResponse at h
  split at h
  · obtain rfl := Option.some.inj h
    exact hw.goto hfinish id nofun
  · rename_i hstate
    split at h
    · obtain rfl := Option.some.inj h
      exact hw.goto hfinish id nofun
    · rename_i hchannel
      split at h
      · obtain rfl := Option.some.inj h
        exact hw.setState_init.goto hfinish id nofun
      · obtain ⟨scanned, hscan, rfl⟩ := Option.map_eq_some_iff.mp h
        have hnone := hreply (not_not.mp hstate) (not_not.mp hchannel)
        rw [ReportsDuplicate, hscan] at hnone
        exact inv_process hw hpc (not_not.mp hstate) (not_not.mp hchannel) (by simpa using hnone)

theorem inv_step {cfg : Config} {w t : World} {e : Event} (hw : Inv w) (he : w.Orderly cfg e)
    (h : step cfg w e = some t) : Inv t := by
  cases e with
  | reader c e =>
    simp only [step] at h
    split at h
    · cases h
    · obtain rfl := Option.some.inj h
      exact hw.frame (Frame.setChannel w rfl) ⟨hw.control.quiet, hw.control.ready, hw.control.retry,
        hw.control.replied, hw.control.finish, hw.control.link⟩
  | send c connectTimedOut sendTimedOut =>
    obtain ⟨hpc, rfl⟩ := Option.ite_some_none_eq_some.mp h
    exact inv_send hw hpc c connectTimedOut sendTimedOut
  | reconnect lookup =>
    obtain ⟨hpc, rfl⟩ := Option.ite_some_none_eq_some.mp h
    exact inv_reconnect hw hpc lookup
  | resolved =>
    obtain ⟨hpc, rfl⟩ := Option.ite_some_none_eq_some.mp h
    exact hw.goto (by rw [hpc.1]; nofun) id nofun
  | apiJsonTuples =>
    simp only [step] at h
    split at h
    · rename_i hpc
      obtain rfl := Option.some.inj h
      exact inv_apiJsonTuples hw hpc
    · cases h
  | postRequest =>
    simp only [step] at h
    split at h
    · rename_i hpc
      obtain rfl := Option.some.inj h
      exact inv_postRequest hw hpc
    · cases h
  | sendData write output =>
    simp only [step] at h
    split at h
    · rename_i hpc
      split at h
      · cases h
      · rename_i hlink
        obtain rfl := Option.some.inj h
        exact inv_sendData hw hpc hlink he
    · cases h
  | sent =>
    simp only [step] at h
    split at h
    · rename_i hpc
      obtain rfl := Option.some.inj h
      exact inv_sent hw hpc
    · cases h
  | posted =>
    simp only [step] at h
    split at h
    · rename_i hpc
      obtain rfl := Option.some.inj h
      exact inv_posted hw hpc
    · cases h
  | check c =>
    obtain ⟨hpc, rfl⟩ := Option.ite_some_none_eq_some.mp h
    exact hw.goto (by rw [hpc]; nofun) id nofun
  | checkResponse =>
    simp only [step] at h
    split at h
    · rename_i hpc
      simp only [Orderly, hpc] at he
      exact inv_checkResponse hw hpc he h
    · cases h
  | finish =>
    obtain ⟨hpc, rfl⟩ := Option.ite_some_none_eq_some.mp h
    exact hw.of_none rfl rfl (hw.control.finish hpc) nofun (prepared_of fun _ => ⟨nofun, nofun⟩)
  | dnsFound found connect =>
    obtain ⟨hpc, rfl⟩ := Option.ite_some_none_eq_some.mp h
    split
    · exact hw.connect (by rw [hpc.2]; nofun) connect
    · exact hw.setState_init
  | connected err =>
    obtain ⟨hlink, rfl⟩ := Option.ite_some_none_eq_some.mp h
    split
    · have hnone := hw.control.none_of_link (by rw [hlink]; nofun)
      exact hw.frame ((Frame.setState w (show SrvState.ready ≠ .replied from nofun)).trans
        (Frame.setLink _ _)) (control_of_none hnone nofun)
    · exact hw.setState_init
  | poll =>
    obtain ⟨-, h⟩ := Option.ite_none_left_eq_some.mp h
    obtain rfl := Option.some.inj h
    split
    · exact hw.setState_init
    · exact hw
  | err =>
    obtain ⟨-, h⟩ := Option.ite_none_left_eq_some.mp h
    obtain rfl := Option.some.inj h
    exact hw.drop
  | recv request segment =>
    obtain ⟨-, rfl⟩ := Option.ite_some_none_eq_some.mp h
    exact inv_recv hw he.1 he.2
  | close =>
    obtain ⟨-, rfl⟩ := Option.ite_some_none_eq_some.mp h
    exact hw.drop

/-- `\x7b"exception":\x7b"type":…,"message":…\x7d\x7d` -/
def duplicateText : List Char :=
  ("\x7b\"exception\":\x7b\"type\":\"UniqueConstraintViolationException\"," ++
    "\"message\":\"SQLSTATE: Duplicate entry\"\x7d\x7d").toList

/-- Channels that send every value; the parser knows the JSON texts of the runs. -/
def plain : Config where
  duplicates _ := 0
  aggmode _ := .none
  tokener text :=
    if text = duplicateText then
      .exception (some "UniqueConstraintViolationException".toList)
        (some "SQLSTATE: Duplicate entry".toList)
    else if text = "\x7b\x7d".toList then .missing
    else .error

/-- The headers of a successful reply. -/
def okHeaders : List Char := HttpReply.text ⟨200, "OK".toList, [], []⟩

/-- The payload of a successful reply. -/
def okPayload : List Char := "\x7b\x7d".toList

def connectRun : List Event :=
  [.send 0 false false, .reconnect .inProgress, .dnsFound true .ok, .resolved, .connected .ok]

/-- A channel posts the reading of a second. -/
def postRun (c : Nat) (second : Int) (output : Err) : List Event :=
  [.reader c (.push (.tick second)), .send c false false, .apiJsonTuples, .postRequest,
    .sendData .ok output, .sent, .posted]

/-- A channel that waits for its response. -/
def waitRun (c : Nat) (second : Int) : List Event := postRun c second .ok ++ [.checkResponse]

instance (cfg : Config) (w : World) (c : Nat) : Decidable (w.ReportsDuplicate cfg c) := by
  unfold ReportsDuplicate
  split <;> infer_instance

instance (cfg : Config) (w : World) (e : Event) : Decidable (w.Orderly cfg e) := by
  cases e <;> unfold Orderly <;> dsimp only <;> first | infer_instance | (split <;> infer_instance)

end World
end VzLogger.LwipIF
