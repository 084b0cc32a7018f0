import VzLogger.Pico.Wifi

/-! # Power on the Pico

Between two passes the main loop may slow the processor down, but the WiFi does not work at
lower speeds, and some meters do not either.  The loop decides from a variable of its own, set
at the head of a pass.
-/
namespace VzLogger.Pico

/-- A meter is read, or its data is sent. -/
def Pc.works : Pc → Bool
  | .reading _ _ | .enable _ _ | .sending _ _ _ | .connect _ _ _ _ => true
  | _ => false

/-- The API of a channel sends, or is made. -/
def Pc.calls : Pc → Bool
  | .sending _ _ _ | .connect _ _ _ _ => true
  | _ => false

/-- The loop is within a pass. -/
def Pc.awake : Pc → Bool
  | .asleep => false
  | _ => true

namespace World

/-- What there is power for. -/
structure Powered (cfg : Config) (w : World) : Prop where
  wifi : w.wifiInitialized = true → w.cpuSpeedDefault = true
  works : w.pc.works = true → w.cpuSpeedDefault = true
  calls : w.pc.calls = true → w.wifiInitialized = true
  /-- without a factor the processor is never slowed down -/
  factor : cfg.lowCPUfactor = 0 → w.cpuSpeedDefault = true
  /-- without a stop time the WiFi goes down only where it cannot be connected -/
  stays : cfg.wifiStopTime = 0 → w.disabled = true → .offline ∈ w.turns

/-- The invariant: the variable of the loop tells the speed of the processor. -/
structure PowerInv (cfg : Config) (w : World) : Prop extends Powered cfg w where
  seen : w.pc ≠ .asleep → w.clockSpeedIsDefault = w.cpuSpeedDefault

variable {cfg : Config} {w t : World}

theorem powerInv_initial (now : Int) : PowerInv cfg (initial cfg now) where
  wifi _ := rfl
  works _ := rfl
  calls h := by cases h
  factor _ := rfl
  stays _ h := by cases h
  seen h := absurd rfl h

theorem ne_asleep {pc : Pc} (hpc : w.pc = pc) (hawake : pc.awake = true) : w.pc ≠ .asleep := by
  intro hasleep
  rw [← hpc, hasleep] at hawake
  cases hawake

/-- The speed and the WiFi are as they were. -/
structure SamePower (w t : World) : Prop where
  wifi : t.wifiInitialized = w.wifiInitialized
  cpu : t.cpuSpeedDefault = w.cpuSpeedDefault
  clock : t.clockSpeedIsDefault = w.clockSpeedIsDefault
  disabled : t.disabled = w.disabled
  turns : ∃ more, t.turns = w.turns ++ more

theorem SamePower.goto (w : World) (pc : Pc) : SamePower w (w.goto pc) :=
  ⟨rfl, rfl, rfl, rfl, [], (List.append_nil _).symm⟩

/-- The loop moves on. -/
theorem PowerInv.moves (hw : PowerInv cfg w) (hsame : SamePower w t)
    (hworks : t.pc.works = true → w.cpuSpeedDefault = true)
    (hcalls : t.pc.calls = true → w.wifiInitialized = true) (hpc : w.pc ≠ .asleep) :
    PowerInv cfg t where
  wifi h := by
    rw [hsame.cpu]
    exact hw.wifi (hsame.wifi ▸ h)
  works h := by
    rw [hsame.cpu]
    exact hworks h
  calls h := by
    rw [hsame.wifi]
    exact hcalls h
  factor h := by
    rw [hsame.cpu]
    exact hw.factor h
  stays h hdisabled := by
    obtain ⟨more, hturns⟩ := hsame.turns
    rw [hturns]
    exact List.mem_append_left _ (hw.stays h (hsame.disabled ▸ hdisabled))
  seen _ := by
    rw [hsame.clock, hsame.cpu]
    exact hw.seen hpc

/-- To a place where nothing is read or sent. -/
theorem PowerInv.rests (hw : PowerInv cfg w) (hsame : SamePower w t) (hworks : t.pc.works = false)
    (hcalls : t.pc.calls = false) (hpc : w.pc ≠ .asleep) : PowerInv cfg t :=
  hw.moves hsame (fun h => by rw [hworks] at h; cases h) (fun h => by rw [hcalls] at h; cases h) hpc

/-- The processor runs at full speed after this, whatever it did before. -/
theorem PowerInv.setCpuSpeedDefault (hw : PowerInv cfg w) (hpc : w.pc ≠ .asleep) :
    PowerInv cfg w.setCpuSpeedDefault ∧ w.setCpuSpeedDefault.cpuSpeedDefault = true ∧
      w.setCpuSpeedDefault.pc = w.pc := by
  unfold World.setCpuSpeedDefault
  split
  · rename_i hclock
    exact ⟨hw, (hw.seen hpc).symm.trans hclock, rfl⟩
  · exact ⟨⟨⟨fun _ => rfl, fun _ => rfl, hw.calls, fun _ => rfl, hw.stays⟩, fun _ => rfl⟩, rfl, rfl⟩

theorem PowerInv.isDueIn (hw : PowerInv cfg w) (hpc : w.pc ≠ .asleep) (due : Int) (m : Meter)
    (rest : List Meter) : PowerInv cfg (w.isDueIn due m rest) := by
  unfold World.isDueIn
  split
  · obtain ⟨hfull, hcpu, hsame⟩ := hw.setCpuSpeedDefault hpc
    exact hfull.moves (SamePower.goto _ _) (fun _ => hcpu) (fun h => by cases h) (hsame ▸ hpc)
  · split
    · exact hw.rests ⟨rfl, rfl, rfl, rfl, [], (List.append_nil _).symm⟩ rfl rfl hpc
    · exact hw.rests (SamePower.goto _ _) rfl rfl hpc

theorem PowerInv.turn (hw : PowerInv cfg w) (hpc : w.pc ≠ .asleep) (m : Meter)
    (rest : List Meter) : PowerInv cfg (w.turn m rest) := by
  unfold World.turn
  split
  · obtain ⟨hfull, hcpu, hsame⟩ := hw.setCpuSpeedDefault hpc
    exact hfull.moves (SamePower.goto _ _) (fun _ => hcpu) (fun h => by cases h) (hsame ▸ hpc)
  · split
    · exact hw.rests (SamePower.goto _ _) rfl rfl hpc
    · exact hw.rests (SamePower.goto _ _) rfl rfl hpc

theorem PowerInv.advance (hw : PowerInv cfg w) (ht : w.advance cfg = some t) : PowerInv cfg t := by
  have hawake : w.pc ≠ .asleep := by
    intro hpc
    rw [World.advance, hpc] at ht
    cases ht
  unfold World.advance at ht
  split at ht
  · obtain rfl := Option.some.inj ht
    exact hw.rests (SamePower.goto _ _) rfl rfl hawake
  · obtain rfl := Option.some.inj ht
    exact hw.rests (SamePower.goto _ _) rfl rfl hawake
  · obtain rfl := Option.some.inj ht
    exact hw.turn hawake _ _
  · obtain rfl := Option.some.inj ht
    exact hw.rests ⟨rfl, rfl, rfl, rfl, _, rfl⟩ rfl rfl hawake
  · obtain rfl := Option.some.inj ht
    exact hw.rests (SamePower.goto _ _) rfl rfl hawake
  · obtain rfl := Option.some.inj ht
    split
    · exact hw.rests (SamePower.goto _ _) rfl rfl hawake
    · exact hw.rests (SamePower.goto _ _) rfl rfl hawake
  · obtain rfl := Option.some.inj ht
    exact hw.rests (SamePower.goto _ _) rfl rfl hawake
  · split at ht
    · cases ht
    · obtain rfl := Option.some.inj ht
      exact hw.rests (SamePower.goto _ _) rfl rfl hawake
  · obtain rfl := Option.some.inj ht
    exact hw.rests ⟨rfl, rfl, rfl, rfl, _, rfl⟩ rfl rfl hawake
  · obtain rfl := Option.some.inj ht
    split
    · exact hw.rests ⟨rfl, rfl, rfl, rfl, _, rfl⟩ rfl rfl hawake
    · exact hw.rests (SamePower.goto _ _) rfl rfl hawake
  · cases ht

/-- The WiFi is up before a meter sends, and switched off again where that fails. -/
theorem PowerInv.wifiUp (hw : PowerInv cfg w) {m : Meter} {rest : List Meter}
    (hpc : w.pc = .enable m rest) (linkUp init connects : Bool) :
    PowerInv cfg (w.wifi linkUp init connects m rest) := by
  have hcpu : w.cpuSpeedDefault = true := hw.works (by rw [hpc]; rfl)
  have hawake : w.pc ≠ .asleep := ne_asleep hpc rfl
  have hclock : w.clockSpeedIsDefault = true := (hw.seen hawake).trans hcpu
  unfold World.wifi
  split
  · rename_i hup
    exact hw.moves (SamePower.goto _ _) (fun _ => hcpu)
      (fun _ => (Bool.and_eq_true_iff.mp hup).1) hawake
  · unfold enable
    cases hinit : !w.wifiInitialized && !init with
    | true =>
      simp only [if_true, Bool.false_eq_true, if_false]
      exact hw.rests (SamePower.goto _ _) rfl rfl hawake
    | false =>
      cases connects with
      | true =>
        exact ⟨⟨fun _ => hcpu, fun _ => hcpu, fun _ => rfl, hw.factor, hw.stays⟩,
          fun _ => hclock.trans hcpu.symm⟩
      | false =>
        refine ⟨⟨fun _ => hcpu, fun _ => hcpu, fun h => (by cases h), hw.factor, fun _ _ => ?_⟩,
          fun _ => hclock.trans hcpu.symm⟩
        exact List.mem_append_right _ (List.mem_singleton_self _)

/-- A call on the current channel has returned. -/
theorem PowerInv.returned (hw : PowerInv cfg w) : PowerInv cfg w.returned := by
  unfold World.returned
  split
  · rename_i hpc
    exact hw.moves ⟨rfl, rfl, rfl, rfl, [], (List.append_nil _).symm⟩
      (fun _ => hw.works (by rw [hpc]; rfl)) (fun _ => hw.calls (by rw [hpc]; rfl))
      (ne_asleep hpc rfl)
  · rename_i hpc
    exact hw.moves (SamePower.goto _ _) (fun _ => hw.works (by rw [hpc]; rfl))
      (fun _ => hw.calls (by rw [hpc]; rfl)) (ne_asleep hpc rfl)
  · rename_i hpc
    exact hw.rests (SamePower.goto _ _) rfl rfl (ne_asleep hpc rfl)
  · exact hw

/-- What happens on a connection does not change the power. -/
theorem PowerInv.setServer (hw : PowerInv cfg w) (s : Nat) (c : LwipIF.World) :
    PowerInv cfg (w.setServer s c) :=
  ⟨⟨hw.wifi, hw.works, hw.calls, hw.factor, hw.stays⟩, hw.seen⟩

theorem PowerInv.server (hw : PowerInv cfg w) {s : Nat} {e : LwipIF.Event}
    (ht : w.server cfg s e = some t) : PowerInv cfg t := by
  unfold World.server at ht
  split at ht
  · split at ht
    · cases ht
    · obtain rfl := Option.some.inj ht
      split
      · exact (hw.setServer s _).returned
      · exact hw.setServer s _
  · cases ht

theorem PowerInv.create (hw : PowerInv cfg w) {first : Bool} (ht : w.create first = some t) :
    PowerInv cfg t := by
  unfold World.create at ht
  split at ht
  · rename_i m c chs rest hpc
    have hcpu : w.cpuSpeedDefault = true := hw.works (by rw [hpc]; rfl)
    have hup : w.wifiInitialized = true := hw.calls (by rw [hpc]; rfl)
    have hawake : w.pc ≠ .asleep := ne_asleep hpc rfl
    split at ht
    · cases ht
    · split at ht
      · obtain rfl := Option.some.inj ht
        exact hw.moves ⟨rfl, rfl, rfl, rfl, [], (List.append_nil _).symm⟩ (fun _ => hcpu)
          (fun _ => hup) hawake
      · obtain rfl := Option.some.inj ht
        exact hw.moves ⟨rfl, rfl, rfl, rfl, [], (List.append_nil _).symm⟩ (fun _ => hcpu)
          (fun _ => hup) hawake
  · cases ht

theorem PowerInv.sendOther (hw : PowerInv cfg w) {buf : Buffer} (ht : w.sendOther buf = some t) :
    PowerInv cfg t := by
  unfold World.sendOther at ht
  split at ht
  · rename_i m c chs rest hpc
    split at ht
    · obtain rfl := Option.some.inj ht
      exact (hw.setServer _ _).moves (SamePower.goto _ _)
        (fun _ => hw.works (by rw [hpc]; rfl)) (fun _ => hw.calls (by rw [hpc]; rfl))
        (fun h => by rw [World.setServer, hpc] at h; cases h)
    · cases ht
  · cases ht

theorem PowerInv.exception (hw : PowerInv cfg w) (ht : w.exception = some t) : PowerInv cfg t := by
  unfold World.exception at ht
  split at ht
  case h_5 => cases ht
  all_goals
    rename_i hpc
    obtain rfl := Option.some.inj ht
    exact hw.rests ⟨rfl, rfl, rfl, rfl, [], (List.append_nil _).symm⟩ rfl rfl (ne_asleep hpc rfl)

theorem PowerInv.complete (hw : PowerInv cfg w) (now : Int) : PowerInv cfg (w.complete now) := by
  unfold World.complete
  split
  · exact ⟨⟨hw.wifi, hw.works, hw.calls, hw.factor, hw.stays⟩, hw.seen⟩
  · exact hw

/-- The WiFi goes down only with a stop time. -/
theorem PowerInv.wifiOff (hw : PowerInv cfg w) (hpc : w.pc = .passed) :
    PowerInv cfg (w.wifiOff cfg) := by
  unfold World.wifiOff
  split
  · rename_i hoff
    have hstop : 0 < cfg.wifiStopTime := by
      simp only [Bool.and_eq_true, decide_eq_true_eq] at hoff
      exact hoff.1.2
    unfold disable
    split
    · refine ⟨⟨fun h => (by cases h), hw.works, ?_, hw.factor, ?_⟩, hw.seen⟩
      · intro hcalls
        rw [hpc] at hcalls
        cases hcalls
      · intro hzero
        omega
    · exact hw
  · exact hw

/-- The WiFi is off before the processor is slowed down. -/
theorem PowerInv.setCpuSpeedLow (hw : PowerInv cfg w) :
    PowerInv cfg ((w.setCpuSpeedLow cfg).goto .asleep) := by
  unfold World.setCpuSpeedLow
  split
  · rename_i hlow
    obtain ⟨hdown, hfactor⟩ := Bool.and_eq_true_iff.mp hlow
    have hoff : w.wifiInitialized = false := by
      simpa using (Bool.and_eq_true_iff.mp hdown).2
    refine ⟨⟨?_, fun h => (by cases h), fun h => (by cases h), ?_, hw.stays⟩, fun h => absurd rfl h⟩
    · intro hup
      rw [goto, hoff] at hup
      cases hup
    · intro hzero
      rw [hzero] at hfactor
      cases hfactor
  · exact ⟨⟨hw.wifi, fun h => (by cases h), fun h => (by cases h), hw.factor, hw.stays⟩,
      fun h => absurd rfl h⟩

theorem complete_pc (w : World) (now : Int) : (w.complete now).pc = w.pc := by
  unfold World.complete
  split <;> rfl

theorem PowerInv.nap (hw : PowerInv cfg w) (hpc : w.pc = .passed) (now : Int) :
    PowerInv cfg (w.nap cfg now) :=
  have hpassed : (w.complete now).pc = .passed := (complete_pc w now).trans hpc
  ((hw.complete now).wifiOff hpassed).setCpuSpeedLow

theorem PowerInv.pass (hw : PowerInv cfg w) (now : Int) : PowerInv cfg (w.pass cfg now) where
  wifi := hw.wifi
  works h := by cases h
  calls h := by cases h
  factor := hw.factor
  stays _ h := by cases h
  seen _ := rfl

theorem PowerInv.step (hw : PowerInv cfg w) {e : Event} (ht : w.step cfg e = some t) :
    PowerInv cfg t := by
  cases e with
  | pass now =>
    obtain ⟨-, ht⟩ := Option.ite_none_right_eq_some.mp ht
    obtain rfl := Option.some.inj ht
    exact hw.pass now
  | isDueIn due =>
    simp only [World.step] at ht
    split at ht
    · rename_i hpc
      obtain rfl := Option.some.inj ht
      exact hw.isDueIn (ne_asleep hpc rfl) _ _ _
    · cases ht
  | readDone =>
    simp only [World.step] at ht
    split at ht
    · rename_i hpc
      obtain rfl := Option.some.inj ht
      exact hw.rests (SamePower.goto _ _) rfl rfl (ne_asleep hpc rfl)
    · cases ht
  | advance => exact hw.advance ht
  | wifi linkUp init connects =>
    simp only [World.step] at ht
    split at ht
    · rename_i hpc
      obtain rfl := Option.some.inj ht
      exact hw.wifiUp hpc _ _ _
    · cases ht
  | create first => exact hw.create ht
  | sendOther buf => exact hw.sendOther ht
  | server s e => exact hw.server ht
  | exception => exact hw.exception ht
  | nap now =>
    obtain ⟨hpc, ht⟩ := Option.ite_none_right_eq_some.mp ht
    obtain rfl := Option.some.inj ht
    exact hw.nap hpc now

/-- **There is power for what the loop does.**  In every state of every run: where the WiFi is on,
a meter is read, or its data is sent, the processor runs at full speed; the API of a channel is
called only with the WiFi on; without a factor the processor is never slowed down; and without a
stop time the WiFi goes down in a pass only where it could not be connected. -/
theorem powered {now : Int} {es : List Event}
    (hrun : (machine cfg now).run (initial cfg now) es = some w) : Powered cfg w :=
  have hinv : PowerInv cfg w :=
    EventMachine.Machine.run_induction hrun (powerInv_initial now) fun _ _ _ hw ht => hw.step ht
  hinv.toPowered

/-- After a pass without work the processor is slow; a meter that is due is read at full speed. -/
theorem powered_due :
    let cfg : Config :=
      { meters := [⟨true, []⟩], wifiStopTime := 60, sendDataInterval := 0, lowCPUfactor := 4
        servers := fun _ => ⟨fun _ => 0, fun _ => .none, fun _ => .missing⟩ }
    let idle : List Event :=
      [.pass 0, .isDueIn 100, .advance, .advance, .advance, .advance, .nap 0]
    (∃ w, (machine cfg 0).run (initial cfg 0) idle = some w ∧ w.cpuSpeedDefault = false) ∧
      ∃ w, (machine cfg 0).run (initial cfg 0) (idle ++ [.pass 100, .isDueIn 0]) = some w ∧
        w.pc.works = true ∧ w.cpuSpeedDefault = true := by
  intro cfg idle
  refine ⟨EventMachine.Machine.exists_run_of_any (by decide), ?_⟩
  have hex : ∃ w, (machine cfg 0).run (initial cfg 0) (idle ++ [.pass 100, .isDueIn 0]) = some w ∧
      w.pc.works = true := EventMachine.Machine.exists_run_of_any (by decide)
  obtain ⟨w, hrun, hworks⟩ := hex
  exact ⟨w, hrun, hworks, (powered hrun).works hworks⟩

end World
end VzLogger.Pico
