import VzLogger.Pico.Model
import VzLogger.LwipIF.Replies

/-! # When the WiFi stays up for a request in flight

`isSendingData` is to keep the WiFi up while a request waits for its answer.  Each
meter that sends or is busy writes the flag in its turn, so that the last of them
decides, whatever the others are waiting for.
-/
namespace VzLogger.Pico
namespace World

/-- The API of some channel is busy. -/
def InFlight (cfg : Config) (w : World) : Prop := ∃ m ∈ cfg.meters, ∃ c ∈ m.channels, w.isBusy c

/-- If a request is in flight at the end of a pass, `isSendingData` is set, and the
WiFi is not switched off in this pass. -/
def KeepsWifi (cfg : Config) (w : World) : Prop :=
  w.pc = .passed → w.InFlight cfg →
    w.isSendingData = true ∧ ∀ now t, w.step cfg (.nap now) = some t → t.disabled = false

/-- The meter sent in this turn, or the API of one of its channels was still busy after the
check. -/
def Busy : Turn → Prop
  | .sent _ | .waiting _ _ => True
  | .answered _ | .offline => False

/-- The last of these turns was one of a meter that sent, or was still busy after
its check. -/
def LastBusy (turns : List Turn) : Prop := ∃ turn ∈ turns.getLast?, Busy turn

/-- If a request is in flight at the end of a pass, the last turn left its meter
busy, and no attempt to connect the WiFi failed. -/
def LastTurnBusy (cfg : Config) (w : World) : Prop :=
  w.pc = .passed → w.InFlight cfg → LastBusy w.turns ∧ .offline ∉ w.turns

/-! ### What a step does to the flag and the books -/

/-- The flag and the books are as they were. -/
structure SameBooks (w t : World) : Prop where
  isSendingData : t.isSendingData = w.isSendingData
  turns : t.turns = w.turns
  disabled : t.disabled = w.disabled

namespace SameBooks

theorem refl (w : World) : SameBooks w w := ⟨rfl, rfl, rfl⟩

theorem trans {w t u : World} (h : SameBooks w t) (h' : SameBooks t u) : SameBooks w u where
  isSendingData := h'.isSendingData.trans h.isSendingData
  turns := h'.turns.trans h.turns
  disabled := h'.disabled.trans h.disabled

theorem goto (w : World) (pc : Pc) : SameBooks w (w.goto pc) := ⟨rfl, rfl, rfl⟩

theorem setServer (w : World) (s : Nat) (c : LwipIF.World) : SameBooks w (w.setServer s c) :=
  ⟨rfl, rfl, rfl⟩

theorem setCpuSpeedDefault (w : World) : SameBooks w w.setCpuSpeedDefault := by
  unfold World.setCpuSpeedDefault
  split
  · exact refl w
  · exact ⟨rfl, rfl, rfl⟩

theorem returned (w : World) : SameBooks w w.returned := by
  unfold World.returned
  split
  · exact ⟨rfl, rfl, rfl⟩
  · exact goto w _
  · exact goto w _
  · exact refl w

end SameBooks

/-- A step within a pass: the flag and the books stay, or a meter has had its turn. -/
inductive Progress (w t : World) : Prop where
  | same (h : SameBooks w t)
  | turn (turn : Turn) (hturn : turn ≠ .offline) (hturns : t.turns = w.turns ++ [turn])
      (hflag : t.isSendingData = true ↔ Busy turn)
      (hdisabled : t.disabled = w.disabled)
  | offline (hturns : t.turns = w.turns ++ [.offline]) (hdisabled : t.disabled = true)

/-- Bringing the WiFi up; where no attempt to connect succeeds, it is switched off. -/
theorem enable_cases (w : World) (init connects : Bool) :
    (SameBooks w (w.enable init connects).1 ∧
        ((w.enable init connects).2 = true ∨ (!w.wifiInitialized && !init) = true)) ∨
      ((w.enable init connects).2 = false ∧ (!w.wifiInitialized && !init) = false ∧
        (w.enable init connects).1.turns = w.turns ∧
        (w.enable init connects).1.disabled = true) := by
  unfold enable
  by_cases hoff : (!w.wifiInitialized && !init) = true
  · rw [if_pos hoff]
    exact Or.inl ⟨SameBooks.refl w, Or.inr hoff⟩
  · rw [if_neg hoff]
    cases connects with
    | true => exact Or.inl ⟨⟨rfl, rfl, rfl⟩, Or.inl rfl⟩
    | false => exact Or.inr ⟨rfl, by simpa using hoff, rfl, rfl⟩

theorem progress_wifi (w : World) (linkUp init connects : Bool) (m : Meter) (rest : List Meter) :
    Progress w (w.wifi linkUp init connects m rest) := by
  unfold wifi
  split
  · exact .same (SameBooks.goto w _)
  · rcases enable_cases w init connects with ⟨hsame, hup⟩ | ⟨hdown, hinit, hturns, hdisabled⟩
    · rcases hup with hup | hinit
      · simp only [hup, if_true]
        exact .same (hsame.trans (SameBooks.goto _ _))
      · simp only [hinit, if_true]
        split <;> exact .same (hsame.trans (SameBooks.goto _ _))
    · simp only [hdown, hinit, Bool.false_eq_true, if_false]
      exact .offline (by rw [hturns]) hdisabled

theorem progress_sent (w : World) (m : Meter) (rest : List Meter) :
    Progress w ((w.note (.sent m)).sent rest) :=
  .turn (.sent m) nofun rfl (iff_of_true rfl trivial) rfl

theorem progress_waiting (w : World) (m : Meter) (c : Channel) (rest : List Meter) :
    Progress w ((w.note (.waiting m c)).checked true rest) :=
  .turn (.waiting m c) nofun rfl (iff_of_true rfl trivial) rfl

theorem progress_answered (w : World) (m : Meter) (rest : List Meter) :
    Progress w ((w.note (.answered m)).checked false rest) :=
  .turn (.answered m) nofun rfl (iff_of_false Bool.noConfusion id) rfl

theorem progress_isDueIn (w : World) (due : Int) (m : Meter) (rest : List Meter) :
    Progress w (w.isDueIn due m rest) := by
  refine .same ?_
  unfold isDueIn
  split
  · exact (SameBooks.setCpuSpeedDefault w).trans (SameBooks.goto _ _)
  · split
    · exact ⟨rfl, rfl, rfl⟩
    · exact SameBooks.goto w _

theorem progress_turn (w : World) (m : Meter) (rest : List Meter) :
    Progress w (w.turn m rest) := by
  refine .same ?_
  unfold turn
  split
  · exact (SameBooks.setCpuSpeedDefault w).trans (SameBooks.goto _ _)
  · split <;> exact SameBooks.goto w _

theorem progress_advance {cfg : Config} {w t : World} (h : w.advance cfg = some t) :
    Progress w t := by
  unfold advance at h
  cases hpc : w.pc with
  | read rest =>
    rw [hpc] at h
    cases rest with
    | nil =>
      obtain rfl := Option.some.inj h
      exact .same (SameBooks.goto w _)
    | cons m rest => cases h
  | send rest =>
    rw [hpc] at h
    cases rest with
    | nil =>
      obtain rfl := Option.some.inj h
      exact .same (SameBooks.goto w _)
    | cons m rest =>
      obtain rfl := Option.some.inj h
      exact progress_turn w m rest
  | sending m chs rest =>
    rw [hpc] at h
    cases chs with
    | nil =>
      obtain rfl := Option.some.inj h
      exact progress_sent w m rest
    | cons c chs => cases h
  | isBusy m chs rest =>
    rw [hpc] at h
    cases chs with
    | nil =>
      obtain rfl := Option.some.inj h
      exact .same (SameBooks.goto w _)
    | cons c chs =>
      obtain rfl := Option.some.inj h
      exact .same (SameBooks.goto w _)
  | checkResponse m chs rest =>
    rw [hpc] at h
    cases chs with
    | nil =>
      obtain rfl := Option.some.inj h
      exact .same (SameBooks.goto w _)
    | cons c chs =>
      obtain ⟨-, h⟩ := Option.ite_none_left_eq_some.mp h
      obtain rfl := Option.some.inj h
      exact .same (SameBooks.goto w _)
  | stillBusy m chs rest =>
    rw [hpc] at h
    cases chs with
    | nil =>
      obtain rfl := Option.some.inj h
      exact progress_answered w m rest
    | cons c chs =>
      obtain rfl := Option.some.inj h
      split
      · exact progress_waiting w m c rest
      · exact .same (SameBooks.goto w _)
  | _ =>
    rw [hpc] at h
    cases h

/-- A step of a connection; between two passes it leaves the loop asleep. -/
theorem server_cases {cfg : Config} {w t : World} {s : Nat} {e : LwipIF.Event}
    (h : w.server cfg s e = some t) : SameBooks w t ∧ (w.pc = .asleep → t.pc = .asleep) := by
  simp only [server] at h
  split at h
  · split at h
    · cases h
    · rename_i c _
      obtain rfl := Option.some.inj h
      have hset := SameBooks.setServer w s c
      split
      · exact ⟨hset.trans (SameBooks.returned _), fun hpc => by simp [returned, setServer, hpc]⟩
      · exact ⟨hset, fun hpc => hpc⟩
  · cases h

theorem sameBooks_create {w t : World} {first : Bool} (h : w.create first = some t) :
    SameBooks w t := by
  simp only [create] at h
  split at h
  · obtain ⟨-, h⟩ := Option.ite_none_left_eq_some.mp h
    split at h
    · obtain rfl := Option.some.inj h
      exact (SameBooks.setServer w _ _).trans (SameBooks.goto _ _)
    · obtain rfl := Option.some.inj h
      exact ⟨rfl, rfl, rfl⟩
  · cases h

theorem sameBooks_sendOther {w t : World} {buf : Buffer} (h : w.sendOther buf = some t) :
    SameBooks w t := by
  simp only [sendOther] at h
  split at h
  · obtain ⟨-, rfl⟩ := Option.ite_some_none_eq_some.mp h
    exact (SameBooks.setServer w _ _).trans (SameBooks.goto _ _)
  · cases h

theorem sameBooks_exception {w t : World} (h : w.exception = some t) : SameBooks w t := by
  unfold exception at h
  cases hpc : w.pc with
  | reading m rest =>
    rw [hpc] at h
    obtain rfl := Option.some.inj h
    exact SameBooks.goto w _
  | connect m c chs rest =>
    rw [hpc] at h
    obtain rfl := Option.some.inj h
    exact (SameBooks.setServer w _ _).trans (SameBooks.goto _ _)
  | sending m chs rest | checkResponse m chs rest =>
    rw [hpc] at h
    cases chs with
    | nil => cases h
    | cons c chs =>
      obtain rfl := Option.some.inj h
      exact (SameBooks.setServer w _ _).trans (SameBooks.goto _ _)
  | _ =>
    rw [hpc] at h
    cases h

/-- A step starts a pass, or leaves the loop asleep, or belongs to a pass. -/
theorem step_cases {cfg : Config} {w t : World} {e : Event} (h : w.step cfg e = some t) :
    (∃ now, t = w.pass cfg now) ∨ t.pc = .asleep ∨ (w.pc ≠ .asleep ∧ Progress w t) := by
  by_cases hpc : w.pc = .asleep
  · cases e with
    | pass now =>
      obtain ⟨-, rfl⟩ := Option.ite_some_none_eq_some.mp h
      exact Or.inl ⟨now, rfl⟩
    | server s e => exact Or.inr (Or.inl ((server_cases h).2 hpc))
    | _ => simp [step, advance, create, sendOther, exception, hpc] at h
  · right
    cases e with
    | pass now =>
      obtain ⟨hasleep, -⟩ := Option.ite_some_none_eq_some.mp h
      exact absurd hasleep hpc
    | nap now =>
      obtain ⟨-, rfl⟩ := Option.ite_some_none_eq_some.mp h
      exact Or.inl rfl
    | isDueIn due =>
      simp only [step] at h
      split at h
      · obtain rfl := Option.some.inj h
        exact Or.inr ⟨hpc, progress_isDueIn w due _ _⟩
      · cases h
    | readDone =>
      simp only [step] at h
      split at h
      · obtain rfl := Option.some.inj h
        exact Or.inr ⟨hpc, .same (SameBooks.goto w _)⟩
      · cases h
    | wifi linkUp init connects =>
      simp only [step] at h
      split at h
      · obtain rfl := Option.some.inj h
        exact Or.inr ⟨hpc, progress_wifi w linkUp init connects _ _⟩
      · cases h
    | advance => exact Or.inr ⟨hpc, progress_advance h⟩
    | create first => exact Or.inr ⟨hpc, .same (sameBooks_create h)⟩
    | sendOther buf => exact Or.inr ⟨hpc, .same (sameBooks_sendOther h)⟩
    | server s e => exact Or.inr ⟨hpc, .same (server_cases h).1⟩
    | exception => exact Or.inr ⟨hpc, .same (sameBooks_exception h)⟩

/-! ### The flag and the last turn -/

/-- Within a pass, the WiFi was switched off by a failing attempt to connect only,
and without one `isSendingData` is what the last turn made it. -/
structure Books (w : World) : Prop where
  disabled : w.disabled = true ↔ .offline ∈ w.turns
  isSendingData : .offline ∉ w.turns → (w.isSendingData = true ↔ LastBusy w.turns)

theorem Books.progress {w t : World} (hw : Books w) (h : Progress w t) : Books t := by
  cases h with
  | same h =>
    constructor
    · rw [h.disabled, h.turns]
      exact hw.disabled
    · rw [h.turns, h.isSendingData]
      exact hw.isSendingData
  | turn turn hturn hturns hflag hdisabled =>
    have hmem : .offline ∈ t.turns ↔ .offline ∈ w.turns := by
      rw [hturns, List.mem_append, List.mem_singleton]
      exact or_iff_left fun h => hturn h.symm
    constructor
    · rw [hdisabled, hmem]
      exact hw.disabled
    · intro _
      rw [hflag, hturns, LastBusy, List.getLast?_concat]
      exact ⟨fun hbusy => ⟨turn, rfl, hbusy⟩, fun ⟨_, hlast, hbusy⟩ => Option.some.inj hlast ▸ hbusy⟩
  | offline hturns hdisabled =>
    have hmem : .offline ∈ t.turns := by
      rw [hturns]
      exact List.mem_append_right _ (List.mem_singleton.mpr rfl)
    exact ⟨iff_of_true hdisabled hmem, fun hnot => absurd hmem hnot⟩

theorem books_of_run {cfg : Config} {now : Int} {es : List Event} {w : World}
    (h : (machine cfg now).run (initial cfg now) es = some w) (hpc : w.pc ≠ .asleep) :
    Books w := by
  have hstep : ∀ s e t, (s.pc ≠ .asleep → Books s) → (machine cfg now).step s e = some t →
      t.pc ≠ .asleep → Books t := by
    intro s e t hs hst ht
    rcases step_cases hst with ⟨start, rfl⟩ | hasleep | ⟨hawake, hprogress⟩
    · exact ⟨by simp [pass], by simp [pass, LastBusy]⟩
    · exact absurd hasleep ht
    · exact (hs hawake).progress hprogress
  exact EventMachine.Machine.run_induction h (fun hasleep => absurd rfl hasleep) hstep hpc

/-- After the loops `isSendingData` keeps the WiFi up. -/
theorem disabled_nap {cfg : Config} {w t : World} {now : Int} (hflag : w.isSendingData = true)
    (h : w.step cfg (.nap now) = some t) : t.disabled = w.disabled := by
  obtain ⟨-, rfl⟩ := Option.ite_some_none_eq_some.mp h
  have hcomplete : w.complete now = w := by simp [complete, hflag]
  have hwifi : w.wifiOff cfg = w := by simp [wifiOff, hflag]
  simp only [nap, hcomplete, hwifi, goto, setCpuSpeedLow]
  split <;> rfl

/-- In every run, the WiFi is kept up for a request in flight at the end of a pass
exactly if the last meter that sent or was busy in this pass had sent, or was still
busy after its check, and no attempt to connect the WiFi failed. -/
theorem keepsWifi_iff {cfg : Config} {now : Int} {es : List Event} {w : World}
    (h : (machine cfg now).run (initial cfg now) es = some w) :
    w.KeepsWifi cfg ↔ w.LastTurnBusy cfg := by
  constructor
  · intro hkeeps hpc hflight
    have hbooks := books_of_run h (by simp [hpc])
    obtain ⟨hflag, hnap⟩ := hkeeps hpc hflight
    have hstep : w.step cfg (.nap now) = some (w.nap cfg now) := if_pos hpc
    have hdisabled : w.disabled = false := by
      rw [← disabled_nap hflag hstep]
      exact hnap now _ hstep
    have hoffline : .offline ∉ w.turns := fun hmem => by
      simp [hbooks.disabled.mpr hmem] at hdisabled
    exact ⟨(hbooks.isSendingData hoffline).mp hflag, hoffline⟩
  · intro hlast hpc hflight
    have hbooks := books_of_run h (by simp [hpc])
    obtain ⟨hlast, hoffline⟩ := hlast hpc hflight
    have hflag := (hbooks.isSendingData hoffline).mpr hlast
    refine ⟨hflag, fun now t ht => ?_⟩
    rw [disabled_nap hflag ht]
    exact Bool.eq_false_iff.mpr fun hdisabled => hoffline (hbooks.disabled.mp hdisabled)

/-! ### Two meters with a middleware each -/

/-- The only channel of a meter. -/
def own (s : Nat) : Channel := ⟨s, 0, true⟩

/-- Data is sent every five minutes. -/
def twoMeters : Config where
  meters := [⟨true, [own 0]⟩, ⟨true, [own 1]⟩]
  wifiStopTime := 60
  sendDataInterval := 300
  lowCPUfactor := 20
  servers _ := LwipIF.World.plain

/-- A meter is due, and is read. -/
def readRun (s : Nat) : List Event :=
  [.isDueIn 0, .server s (.reader 0 (.push (.tick 1))), .readDone]

/-- The turn of a meter whose API has not been made yet. -/
def connectRun (s : Nat) : List Event :=
  [.advance, .wifi true true true, .create true, .server s (.reconnect .inProgress),
    .server s (.dnsFound true .ok), .server s .resolved, .server s (.send 0 false false), .advance]

/-- The turn of a meter that posts. -/
def postRun (s : Nat) : List Event :=
  [.advance, .wifi true true true, .server s (.send 0 false false), .server s .apiJsonTuples,
    .server s .postRequest, .server s (.sendData .ok .ok), .server s .sent, .server s .posted,
    .server s .checkResponse, .advance]

/-- The turn of a meter that waits for its answer. -/
def waitRun (s : Nat) : List Event :=
  [.advance, .advance, .server s (.check 0), .server s .checkResponse, .advance, .advance]

/-- The turn of a meter whose answer has come. -/
def answerRun (s : Nat) : List Event :=
  [.advance, .advance, .server s (.check 0), .server s .checkResponse, .server s .finish, .advance,
    .advance, .advance]

/-- A pass with given turns, up to its end. -/
def passRun (now : Int) (reads turns : List Event) : List Event :=
  .pass now :: reads ++ .advance :: turns ++ [.advance]

/-- Both meters connect, then both post. -/
def bothPost : List Event :=
  passRun 300 (readRun 0 ++ readRun 1) (connectRun 0 ++ connectRun 1) ++
    [.nap 300, .server 0 (.connected .ok), .server 1 (.connected .ok)] ++
    passRun 301 [.isDueIn 100, .isDueIn 100] (postRun 0 ++ postRun 1) ++ [.nap 301]

/-- Then both wait for their answers. -/
def bothWait : List Event :=
  bothPost ++ passRun 302 [.isDueIn 99, .isDueIn 99] (waitRun 0 ++ waitRun 1)

/-- Then the second gets its answer first. -/
def secondAnswered : List Event :=
  bothPost ++ .server 1 (.recv 0 (LwipIF.World.okHeaders ++ LwipIF.World.okPayload)) ::
    passRun 302 [.isDueIn 99, .isDueIn 99] (waitRun 0 ++ answerRun 1)

instance (cfg : Config) (w : World) : Decidable (w.InFlight cfg) := by
  unfold InFlight
  infer_instance

instance : DecidablePred Busy := fun turn => by cases turn <;> unfold Busy <;> infer_instance

instance (turns : List Turn) : Decidable (LastBusy turns) := by
  unfold LastBusy
  infer_instance

theorem keepsWifi_bothWait :
    ∃ w, (machine twoMeters 0).run (initial twoMeters 0) bothWait = some w ∧ w.pc = .passed ∧
      w.InFlight twoMeters ∧ w.KeepsWifi twoMeters := by
  obtain ⟨w, hw, hpc, hflight, hlast⟩ : ∃ w,
      (machine twoMeters 0).run (initial twoMeters 0) bothWait = some w ∧ w.pc = .passed ∧
        w.InFlight twoMeters ∧ LastBusy w.turns ∧ .offline ∉ w.turns :=
    EventMachine.Machine.exists_run_of_any (by decide +kernel)
  exact ⟨w, hw, hpc, hflight, (keepsWifi_iff hw).mpr fun _ _ => hlast⟩

/-- The first meter waits, the second has just got its answer: the flag is down, and
the WiFi goes off. -/
theorem not_keepsWifi :
    ∃ w, (machine twoMeters 0).run (initial twoMeters 0) secondAnswered = some w ∧
      w.InFlight twoMeters ∧ ¬w.KeepsWifi twoMeters ∧
      ∃ t, w.step twoMeters (.nap 302) = some t ∧ t.InFlight twoMeters ∧
        t.wifiInitialized = false ∧ t.disabled = true := by
  obtain ⟨w, hw, hpc, hflight, hflag, hnap⟩ : ∃ w,
      (machine twoMeters 0).run (initial twoMeters 0) secondAnswered = some w ∧ w.pc = .passed ∧
        w.InFlight twoMeters ∧ w.isSendingData = false ∧
        (w.nap twoMeters 302).InFlight twoMeters ∧
        (w.nap twoMeters 302).wifiInitialized = false ∧
        (w.nap twoMeters 302).disabled = true :=
    EventMachine.Machine.exists_run_of_any (by decide +kernel)
  refine ⟨w, hw, hflight, fun hkeeps => ?_, _, if_pos hpc, hnap⟩
  rw [(hkeeps hpc hflight).1] at hflag
  cases hflag

end World
end VzLogger.Pico
