import VzLogger.MeterS0.Model
import Mathlib.Tactic.Linarith

/-! # No impulse is lost or counted twice

For every interleaving of the counter thread with the loads and subtractions of
`read`, the impulses returned, those the running call has taken off the counter,
and those still in the counter are the increments made.  Without blocking, the
increments are the rising edges of the valid states: there is one interface that does
not block, and what it returns is the level of a pin.

The counter does not wrap while fewer than `2 ^ 32` impulses are pending.
-/
namespace VzLogger.MeterS0

/-! ## Edges -/

/-- From low to high. -/
def risingEdges (states : List Int) : Nat :=
  (states.zip states.tail).countP fun p => p.1 = 0 ∧ p.2 ≠ 0

/-- The valid states among those sampled. -/
def valid (samples : List Int) : List Int := samples.filter fun state => 0 ≤ state

theorem risingEdges_append {l : List Int} {last : Int} (h : l.getLast? = some last) (s : Int) :
    risingEdges (l ++ [s]) = risingEdges l + if last = 0 ∧ s ≠ 0 then 1 else 0 := by
  induction l with
  | nil => cases h
  | cons a l ih =>
    cases l with
    | nil =>
      obtain rfl : a = last := Option.some.inj h
      by_cases hs : a = 0 ∧ s ≠ 0 <;> simp [risingEdges, hs]
    | cons b l =>
      have hl : (b :: l).getLast? = some last := by simpa using h
      have hcons (l' : List Int) :
          risingEdges (a :: b :: l') = risingEdges (b :: l') + if a = 0 ∧ b ≠ 0 then 1 else 0 := by
        simp only [risingEdges, List.tail_cons, List.zip_cons_cons, List.countP_cons,
          decide_eq_true_eq]
      rw [List.cons_append, List.cons_append, hcons, hcons, ← List.cons_append, ih hl]
      omega

theorem valid_append (samples : List Int) (s : Int) :
    valid (samples ++ [s]) = if 0 ≤ s then valid samples ++ [s] else valid samples := by
  by_cases hs : 0 ≤ s <;> simp [valid, List.filter_append, hs]

/-- The levels of a pin. -/
theorem exists_hwifMmapStatus_iff {state : Int} :
    (∃ gpiopin gpio, hwifMmapStatus gpiopin gpio = state) ↔ state = 0 ∨ state = 1 := by
  constructor
  · rintro ⟨gpiopin, gpio, rfl⟩
    unfold hwifMmapStatus
    split
    · exact Or.inr rfl
    · exact Or.inl rfl
  · rintro (rfl | rfl)
    · exact ⟨0, 0, rfl⟩
    · exact ⟨0, 1, rfl⟩

/-- What a meter that does not block samples is a level of its pin. -/
def Event.Sampled (m : MeterS0) : Event → Prop
  | .status state => m.blocking = false → ∃ gpiopin gpio, hwifMmapStatus gpiopin gpio = state
  | _ => True

instance (m : MeterS0) : ∀ e : Event, Decidable (e.Sampled m)
  | .status state =>
    decidable_of_iff (m.blocking = false → state = 0 ∨ state = 1)
      (forall_congr' fun _ => exists_hwifMmapStatus_iff.symm)
  | .impulse | .stamp _ | .dirStatus _ | .counter | .read _ | .clock _ | .reader => isTrue trivial

/-! ## The counters -/

theorem inc32_of_lt {a : Nat} (h : a + 1 < 2 ^ 32) : inc32 a = a + 1 := Nat.mod_eq_of_lt h

theorem sub32_of_le {a t : Nat} (ht : t ≤ a) (ha : a < 2 ^ 32) : sub32 a t = a - t := by
  unfold sub32
  omega

/-- The impulses returned under a name. -/
def impulsesIn (name : List Char) (returned : List (List Reading)) : Rat :=
  ((returned.flatten.filter fun r => r.identifier = .string name).map Reading.value).sum

theorem impulsesIn_append (name : List Char) (returned : List (List Reading))
    (rds : List Reading) :
    impulsesIn name (returned ++ [rds]) = impulsesIn name returned + impulsesIn name [rds] := by
  simp [impulsesIn, List.filter_append]

variable {m : MeterS0}

/-- The readings of one direction count its impulses, and nothing else. -/
theorem impulsesIn_readings (name : List Char) {own powerName : List Char} (first : Bool)
    (tImp : Nat) (req : Timespec) (t1 t2 : Rat) (hpower : powerName ≠ name) :
    impulsesIn name [m.readings first own powerName tImp req t1 t2] =
      if own = name then (tImp : Rat) else 0 := by
  unfold readings
  split
  · cases first <;> by_cases hown : own = name <;> simp [impulsesIn, reading, hpower, hown]
  · rename_i hzero
    have htImp : tImp = 0 := by
      by_contra hne
      exact hzero (Or.inr (Nat.pos_of_ne_zero hne))
    simp [impulsesIn, htImp]

theorem readings_length (first : Bool) (own powerName : List Char) (tImp : Nat)
    (req : Timespec) (t1 t2 : Rat) :
    (m.readings first own powerName tImp req t1 t2).length ≤ 2 := by
  unfold readings
  split
  · cases first <;> simp
  · simp

theorem impulsesIn_rds (name : List Char) (first : Bool) (tImp tImpNeg : Nat) (req : Timespec)
    (t1 t2 : Rat) (hpower : power ≠ name) (hpowerNeg : powerNeg ≠ name) :
    impulsesIn name [m.rds first tImp tImpNeg req t1 t2] =
      (if impulse = name then (tImp : Rat) else 0)
        + if impulseNeg = name then (tImpNeg : Rat) else 0 := by
  have happend (l l' : List Reading) :
      impulsesIn name [l ++ l'] = impulsesIn name [l] + impulsesIn name [l'] := by
    simp [impulsesIn, List.filter_append]
  rw [rds, happend, impulsesIn_readings name first tImp req t1 t2 hpower,
    impulsesIn_readings name first tImpNeg req t1 t2 hpowerNeg]

/-! ## The invariant -/

/-- What the running call has taken off the counters. -/
def ReadPc.inRead : ReadPc → Nat
  | .subNeg t _ | .clock t _ | .addRef t _ _ | .loadMs t _ _ | .checkMs t _ _ _
  | .shiftRef t _ _ _ | .subMs t _ _ _ | .report t _ _ _ _ => t
  | _ => 0

def ReadPc.inReadNeg : ReadPc → Nat
  | .clock _ t | .addRef _ t _ | .loadMs _ t _ | .checkMs _ t _ _
  | .shiftRef _ t _ _ | .subMs _ t _ _ | .report _ t _ _ _ => t
  | _ => 0

/-- What it has loaded and is about to take off. -/
def ReadPc.loaded : ReadPc → Nat
  | .loadNeg t | .test t _ | .subImp t _ => t
  | _ => 0

def ReadPc.loadedNeg : ReadPc → Nat
  | .test _ t | .subImp _ t | .subNeg _ t => t
  | _ => 0

/-- An edge that is not counted yet. -/
def CounterPc.inFlight : CounterPc → Nat
  | .dir _ | .count _ _ => 1
  | _ => 0

/-- The last valid state, given the variable `last_state`. -/
def CounterPc.last (lastState : Int) : CounterPc → Int
  | .dir (some state) | .count _ (some state) | .store state => state
  | _ => lastState

/-- The counter thread handles an event of a blocking interface. -/
def CounterPc.AtEvent : CounterPc → Prop
  | .arrived | .stamped _ | .check => True
  | _ => False

/-- Each direction is accounted for, and what is loaded is in the counter. -/
structure Inv (m : MeterS0) (w : Run) : Prop where
  pos : impulsesIn impulse w.returned + w.reader.inRead + w.impulses = w.incs
  neg : impulsesIn impulseNeg w.returned + w.reader.inReadNeg + w.impulsesNeg = w.incsNeg
  bounded : w.impulses < 2 ^ 32 ∧ w.impulsesNeg < 2 ^ 32
  loaded : w.reader.loaded ≤ w.impulses ∧ w.reader.loadedNeg ≤ w.impulsesNeg
  edges : m.blocking = false →
    w.incs + w.incsNeg + w.counter.inFlight = risingEdges (valid w.samples)
  last : m.blocking = false → w.counter ≠ .start →
    (valid w.samples).getLast? = some (w.counter.last w.lastState)
  start : w.counter = .start → w.samples = []
  mode : w.counter.AtEvent → m.blocking = true
  returns : ∀ rds ∈ w.returned, rds.length ≤ 4

theorem inv_initial (now : Timespec) : Inv m (initial now) where
  pos := by simp [initial, impulsesIn, ReadPc.inRead]
  neg := by simp [initial, impulsesIn, ReadPc.inReadNeg]
  bounded := by simp [initial]
  loaded := ⟨Nat.le_refl _, Nat.le_refl _⟩
  edges := fun _ => rfl
  last := fun _ h => absurd rfl h
  start := fun _ => rfl
  mode := fun h => h.elim
  returns := by simp [initial]

/-! ## The steps of `read` -/

section Reader
variable {w v : Run}

/-- A step that takes nothing off the counters. -/
theorem inv_move (hw : Inv m w) (lastRead lastRef impulseReturned : Timespec) (ms : Nat)
    {p : ReadPc} (hpos : p.inRead = w.reader.inRead) (hneg : p.inReadNeg = w.reader.inReadNeg)
    (hloaded : p.loaded ≤ w.impulses ∧ p.loadedNeg ≤ w.impulsesNeg) :
    Inv m { w with
      timeLastRead := lastRead
      timeLastRef := lastRef
      msLastImpulse := ms
      timeLastImpulseReturned := impulseReturned
      reader := p } :=
  { hw with
    pos := by
      rw [← hw.pos, ← hpos]
    neg := by
      rw [← hw.neg, ← hneg]
    loaded := hloaded }

/-- A step after the subtractions. -/
theorem inv_finish (hw : Inv m w) {tImp tImpNeg ms : Nat} {req temp : Timespec}
    (hpos : w.reader.inRead = tImp) (hneg : w.reader.inReadNeg = tImpNeg) :
    Inv m (finish { w with msLastImpulse := ms } tImp tImpNeg req temp) :=
  inv_move hw req w.timeLastRef temp ms hpos.symm hneg.symm ⟨Nat.zero_le _, Nat.zero_le _⟩

/-- **A call returns what it has taken off.** -/
theorem inv_report (hw : Inv m w) {tImp tImpNeg : Nat} {req : Timespec} {t1 t2 : Rat}
    (hpc : w.reader = .report tImp tImpNeg req t1 t2) :
    let rds := m.rds w.firstImpulse tImp tImpNeg req t1 t2
    Inv m { w with
      firstImpulse := w.firstImpulse && rds.isEmpty
      returned := w.returned ++ [rds]
      reader := .idle } := by
  intro rds
  have hpos := hw.pos
  have hneg := hw.neg
  rw [hpc] at hpos hneg
  have hrds : impulsesIn impulse [rds] = tImp := by
    rw [impulsesIn_rds _ _ _ _ _ _ _ (by decide) (by decide), if_pos rfl, if_neg (by decide),
      add_zero]
  have hrdsNeg : impulsesIn impulseNeg [rds] = tImpNeg := by
    rw [impulsesIn_rds _ _ _ _ _ _ _ (by decide) (by decide), if_pos rfl, if_neg (by decide),
      zero_add]
  exact { hw with
    pos := by
      rw [← hpos, impulsesIn_append, hrds]
      simp [ReadPc.inRead]
    neg := by
      rw [← hneg, impulsesIn_append, hrdsNeg]
      simp [ReadPc.inReadNeg]
    loaded := ⟨Nat.zero_le _, Nat.zero_le _⟩
    returns := by
      intro l hl
      rcases List.mem_append.mp hl with hl | hl
      · exact hw.returns l hl
      · rw [List.mem_singleton.mp hl]
        have h1 := readings_length (m := m) w.firstImpulse impulse power tImp req t1 t2
        have h2 := readings_length (m := m) w.firstImpulse impulseNeg powerNeg tImpNeg req t1 t2
        rw [show rds = _ ++ _ from rfl, List.length_append]
        omega }

theorem inv_readerStep (hw : Inv m w) (h : m.readerStep w = some v) : Inv m v := by
  obtain ⟨hloaded, hloadedNeg⟩ := hw.loaded
  obtain ⟨himpulses, himpulsesNeg⟩ := hw.bounded
  have hpos := hw.pos
  have hneg := hw.neg
  unfold readerStep at h
  cases hpc : w.reader with
  | idle | clock t tn => simp [hpc] at h
  | loadImp =>
    rw [hpc] at h
    obtain rfl := Option.some.inj h
    exact inv_move hw _ _ _ _ (by rw [hpc]; rfl) (by rw [hpc]; rfl)
      ⟨Nat.le_refl _, Nat.zero_le _⟩
  | loadNeg t =>
    rw [hpc] at h hloaded
    obtain rfl := Option.some.inj h
    exact inv_move hw _ _ _ _ (by rw [hpc]; rfl) (by rw [hpc]; rfl) ⟨hloaded, Nat.le_refl _⟩
  | test t tn =>
    rw [hpc] at h hloaded hloadedNeg
    obtain rfl := Option.some.inj h
    by_cases hsome : 0 < t ∨ 0 < tn
    · rw [if_pos hsome]
      exact inv_move hw _ _ _ _ (by rw [hpc]; rfl) (by rw [hpc]; rfl) ⟨hloaded, hloadedNeg⟩
    · rw [if_neg hsome]
      -- nothing was loaded: it may be dropped and loaded again
      obtain ⟨rfl, rfl⟩ : t = 0 ∧ tn = 0 := by omega
      split
      · exact inv_move hw _ _ _ _ (by rw [hpc]; rfl) (by rw [hpc]; rfl)
          ⟨Nat.zero_le _, Nat.zero_le _⟩
      · exact inv_move hw _ _ _ _ (by rw [hpc]; rfl) (by rw [hpc]; rfl)
          ⟨Nat.zero_le _, Nat.zero_le _⟩
  | subImp t tn =>
    rw [hpc] at h hloaded hloadedNeg hpos hneg
    obtain rfl := Option.some.inj h
    -- only this thread takes off the counter: it still holds what was loaded
    have hsub : sub32 w.impulses t = w.impulses - t := sub32_of_le hloaded himpulses
    exact { hw with
      pos := by
        rw [← hpos]
        simp only [ReadPc.inRead, hsub, Nat.cast_sub (show t ≤ w.impulses from hloaded)]
        ring
      neg := hneg
      bounded := ⟨by rw [hsub]; exact (Nat.sub_le _ _).trans_lt himpulses, himpulsesNeg⟩
      loaded := ⟨Nat.zero_le _, hloadedNeg⟩ }
  | subNeg t tn =>
    rw [hpc] at h hloadedNeg hpos hneg
    obtain rfl := Option.some.inj h
    have hsub : sub32 w.impulsesNeg tn = w.impulsesNeg - tn := sub32_of_le hloadedNeg himpulsesNeg
    exact { hw with
      pos := hpos
      neg := by
        rw [← hneg]
        simp only [ReadPc.inReadNeg, hsub, Nat.cast_sub (show tn ≤ w.impulsesNeg from hloadedNeg)]
        ring
      bounded := ⟨himpulses, by rw [hsub]; exact (Nat.sub_le _ _).trans_lt himpulsesNeg⟩
      loaded := ⟨Nat.zero_le _, Nat.zero_le _⟩ }
  | addRef t tn req | loadMs t tn req | shiftRef t tn req temp =>
    rw [hpc] at h
    obtain rfl := Option.some.inj h
    exact inv_move hw _ _ _ _ (by rw [hpc]; rfl) (by rw [hpc]; rfl)
      ⟨Nat.zero_le _, Nat.zero_le _⟩
  | checkMs t tn req temp =>
    rw [hpc] at h
    dsimp only at h
    split at h
    · obtain rfl := Option.some.inj h
      exact inv_move hw _ _ _ _ (by rw [hpc]; rfl) (by rw [hpc]; rfl)
        ⟨Nat.zero_le _, Nat.zero_le _⟩
    · obtain rfl := Option.some.inj h
      exact inv_finish hw (by rw [hpc]; rfl) (by rw [hpc]; rfl)
  | subMs t tn req temp =>
    rw [hpc] at h
    obtain rfl := Option.some.inj h
    exact inv_finish hw (by rw [hpc]; rfl) (by rw [hpc]; rfl)
  | report t tn req t1 t2 =>
    rw [hpc] at h
    obtain rfl := Option.some.inj h
    exact inv_report hw hpc

end Reader

/-! ## The steps of the counter thread -/

section Counter
variable {w v : Run}

/-- A step that counts nothing, in a blocking meter. -/
theorem inv_blocking (hw : Inv m w) (hblocking : m.blocking = true) {p : CounterPc} (ms : Nat)
    (hp : p ≠ .start) : Inv m { w with msLastImpulse := ms, counter := p } :=
  { hw with
    edges := fun h => by rw [hblocking] at h; cases h
    last := fun h => by rw [hblocking] at h; cases h
    start := fun h => absurd h hp
    mode := fun _ => hblocking }

/-- The step from a pending edge to its count, or from its count to the next
state. -/
theorem inv_edge (hw : Inv m w) {p : CounterPc} (hstart : w.counter ≠ .start) (hp : p ≠ .start)
    (hflight : p.inFlight = w.counter.inFlight)
    (hlast : p.last w.lastState = w.counter.last w.lastState)
    (hmode : ¬p.AtEvent) : Inv m { w with counter := p } :=
  { hw with
    edges := fun h => by rw [← hw.edges h, ← hflight]
    last := fun h _ => by rw [hw.last h hstart, ← hlast]
    start := fun h => absurd h hp
    mode := fun h => absurd h hmode }

theorem edge_ne (state : Option Int) : m.edge state ≠ .start ∧ ¬(m.edge state).AtEvent := by
  unfold edge
  split <;> simp [CounterPc.AtEvent]

@[simp] theorem edge_inFlight (state : Option Int) : (m.edge state).inFlight = 1 := by
  unfold edge
  split <;> rfl

@[simp] theorem edge_last (state lastState : Int) :
    (m.edge (some state)).last lastState = state := by
  unfold edge
  split <;> rfl

/-- Where a sample leads: to an edge that is not counted yet if a valid state is
high after a low one, and the last valid state is known there. -/
theorem sample_spec (lastState state : Int) {p : CounterPc}
    (hp : p = if 0 ≤ state ∧ state ≠ lastState then
        if lastState = 0 then m.edge (some state) else .store state
      else .loop) :
    (p ≠ .start ∧ ¬p.AtEvent) ∧
      p.inFlight = (if 0 ≤ state ∧ lastState = 0 ∧ state ≠ 0 then 1 else 0) ∧
      p.last lastState = if 0 ≤ state then state else lastState := by
  subst hp
  by_cases hnew : 0 ≤ state ∧ state ≠ lastState
  · rw [if_pos hnew, if_pos hnew.1]
    by_cases hlow : lastState = 0
    · rw [if_pos hlow, if_pos ⟨hnew.1, hlow, fun h0 => hnew.2 (h0.trans hlow.symm)⟩]
      exact ⟨edge_ne _, edge_inFlight _, edge_last _ _⟩
    · -- the input has gone low, or from one high state to another
      rw [if_neg hlow, if_neg fun h => hlow h.2.1]
      exact ⟨⟨by simp, id⟩, rfl, rfl⟩
  · rw [if_neg hnew, if_neg fun h => hnew ⟨h.1, fun hsame => h.2.2 (hsame.trans h.2.1)⟩]
    refine ⟨⟨by simp, id⟩, rfl, ?_⟩
    split
    · rename_i hvalid
      by_contra hsame
      exact hnew ⟨hvalid, Ne.symm hsame⟩
    · rfl

/-- **A sample.**  The counter thread takes a valid state that differs from the
last one, and an edge if that one was low. -/
theorem inv_sample (hw : Inv m w) (hpc : w.counter = .loop) (state : Int) :
    Inv m { w with
      samples := w.samples ++ [state]
      counter :=
        if 0 ≤ state ∧ state ≠ w.lastState then
          if w.lastState = 0 then m.edge (some state) else .store state
        else .loop } := by
  have hedges := hw.edges
  have hlast := hw.last
  rw [hpc] at hedges hlast
  obtain ⟨⟨hstart, hevent⟩, hflight, hstate⟩ :=
    sample_spec (m := m) w.lastState state rfl
  refine { hw with
    edges := fun h => ?_
    last := fun h _ => ?_
    start := fun h => absurd h hstart
    mode := fun h => absurd h hevent }
  · have hl : (valid w.samples).getLast? = some w.lastState := hlast h (by simp)
    have he : w.incs + w.incsNeg + 0 = risingEdges (valid w.samples) := hedges h
    rw [hflight, valid_append]
    by_cases hvalid : 0 ≤ state
    · rw [if_pos hvalid, risingEdges_append hl, ← he]
      simp [hvalid]
    · rw [if_neg hvalid, ← he]
      exact congrArg _ (if_neg fun hrise => hvalid hrise.1)
  · have hl : (valid w.samples).getLast? = some w.lastState := hlast h (by simp)
    rw [hstate, valid_append]
    by_cases hvalid : 0 ≤ state
    · rw [if_pos hvalid, if_pos hvalid, List.getLast?_concat]
    · rw [if_neg hvalid, if_neg hvalid, hl]

theorem inv_statusStep (hw : Inv m w) {state : Int} (hstate : Event.Sampled m (.status state))
    (h : m.statusStep w state = some v) : Inv m v := by
  unfold statusStep at h
  cases hpc : w.counter with
  | arrived | stamped ms | dir s | count neg s | store s => simp [hpc] at h
  | start =>
    rw [hpc] at h
    obtain rfl := Option.some.inj h
    have hsamples := hw.start hpc
    have hedges := hw.edges
    rw [hpc, hsamples] at hedges
    refine { hw with edges := fun h => ?_, last := fun h _ => ?_, start := ?_, mode := ?_ }
    · -- one state has no edge
      have h0 : risingEdges (valid ([] ++ [state])) = 0 := by
        rw [valid_append]
        split <;> rfl
      rw [hsamples, h0]
      exact hedges h
    · -- the first state is valid
      have h0 : 0 ≤ state := by
        rcases exists_hwifMmapStatus_iff.mp (hstate h) with rfl | rfl <;> decide
      rw [hsamples, valid_append, if_pos h0]
      simp [CounterPc.last, h0]
    · simp
    · exact fun h => h.elim
  | loop =>
    rw [hpc] at h
    dsimp only at h
    split at h
    · cases h
    · obtain rfl := Option.some.inj h
      exact inv_sample hw hpc state
  | check =>
    rw [hpc] at h
    obtain rfl := Option.some.inj h
    refine inv_blocking hw (hw.mode (by rw [hpc]; trivial)) w.msLastImpulse ?_
    split
    · exact (edge_ne none).1
    · simp

theorem next_ne (state : Option Int) :
    CounterPc.next state ≠ .start ∧ ¬(CounterPc.next state).AtEvent := by
  cases state <;> simp [CounterPc.next, CounterPc.AtEvent]

/-- An increment of either counter: the pending edge is counted. -/
theorem inv_count (hw : Inv m w) {neg : Bool} {state : Option Int}
    (hpc : w.counter = .count neg state) {impulses impulsesNeg incs incsNeg : Nat}
    (hpos : (impulses : Rat) - w.impulses = incs - w.incs)
    (hneg : (impulsesNeg : Rat) - w.impulsesNeg = incsNeg - w.incsNeg)
    (hmono : w.impulses ≤ impulses ∧ w.impulsesNeg ≤ impulsesNeg)
    (hbounded : impulses < 2 ^ 32 ∧ impulsesNeg < 2 ^ 32)
    (hone : incs + incsNeg = w.incs + w.incsNeg + 1) :
    Inv m { w with
      impulses := impulses
      impulsesNeg := impulsesNeg
      incs := incs
      incsNeg := incsNeg
      counter := .next state } := by
  obtain ⟨hstart, hevent⟩ := next_ne state
  obtain ⟨hloaded, hloadedNeg⟩ := hw.loaded
  have hedges := hw.edges
  have hlast := hw.last
  rw [hpc] at hedges hlast
  exact { hw with
    pos := by
      rw [show (incs : Rat) = impulses - w.impulses + w.incs by linarith, ← hw.pos]
      ring
    neg := by
      rw [show (incsNeg : Rat) = impulsesNeg - w.impulsesNeg + w.incsNeg by linarith, ← hw.neg]
      ring
    bounded := hbounded
    loaded := ⟨hloaded.trans hmono.1, hloadedNeg.trans hmono.2⟩
    edges := fun h => by
      rw [← hedges h, hone]
      cases state <;> rfl
    last := fun h _ => by
      rw [hlast h (by simp)]
      cases state <;> rfl
    start := fun h => absurd h hstart
    mode := fun h => absurd h hevent }

theorem inv_counterStep (hw : Inv m w) (h : counterStep w = some v)
    (hroom : ∀ state, (w.counter = .count false state → w.impulses + 1 < 2 ^ 32) ∧
      (w.counter = .count true state → w.impulsesNeg + 1 < 2 ^ 32)) : Inv m v := by
  obtain ⟨himpulses, himpulsesNeg⟩ := hw.bounded
  unfold counterStep at h
  cases hpc : w.counter with
  | start | loop | arrived | check | dir s => simp [hpc] at h
  | stamped ms =>
    rw [hpc] at h
    obtain rfl := Option.some.inj h
    exact inv_blocking hw (hw.mode (by rw [hpc]; trivial)) ms (by simp)
  | count neg state =>
    rw [hpc] at h
    cases neg with
    | true =>
      obtain rfl := Option.some.inj h
      have hroom : w.impulsesNeg + 1 < 2 ^ 32 := (hroom state).2 hpc
      rw [inc32_of_lt hroom]
      exact inv_count hw hpc (by ring) (by push_cast; ring) ⟨Nat.le_refl _, Nat.le_succ _⟩
        ⟨himpulses, hroom⟩ (by omega)
    | false =>
      obtain rfl := Option.some.inj h
      have hroom : w.impulses + 1 < 2 ^ 32 := (hroom state).1 hpc
      rw [inc32_of_lt hroom]
      exact inv_count hw hpc (by push_cast; ring) (by ring) ⟨Nat.le_succ _, Nat.le_refl _⟩
        ⟨hroom, himpulsesNeg⟩ (by omega)
  | store state =>
    rw [hpc] at h
    obtain rfl := Option.some.inj h
    have hedges := hw.edges
    have hlast := hw.last
    rw [hpc] at hedges hlast
    exact { hw with
      edges := hedges
      last := fun h _ => hlast h (by simp)
      start := fun h => by cases h
      mode := fun h => h.elim }

end Counter

/-! ## Runs -/

/-- An increment leaves fewer than `2 ^ 32` impulses in its counter. -/
def CounterPc.Room (w : Run) : CounterPc → Prop
  | .count true _ => w.impulsesNeg + 1 < 2 ^ 32
  | .count false _ => w.impulses + 1 < 2 ^ 32
  | _ => True

/-- The counters have room for the step. -/
def Room (w : Run) : Event → Prop
  | .counter => w.counter.Room w
  | _ => True

instance (w : Run) : ∀ pc, Decidable (CounterPc.Room w pc)
  | .count true _ => inferInstanceAs (Decidable (_ < _))
  | .count false _ => inferInstanceAs (Decidable (_ < _))
  | .start | .loop | .arrived | .stamped _ | .check | .dir _ | .store _ => isTrue trivial

instance (w : Run) : ∀ e, Decidable (Room w e)
  | .counter => inferInstanceAs (Decidable (w.counter.Room w))
  | .status _ | .impulse | .stamp _ | .dirStatus _ | .read _ | .clock _ | .reader =>
    isTrue trivial

/-- The counters have room for the step, and a sample is a level of the pin. -/
def Admitted (m : MeterS0) (w : Run) (e : Event) : Prop := Room w e ∧ e.Sampled m

instance (w : Run) (e : Event) : Decidable (Admitted m w e) := inferInstanceAs (Decidable (_ ∧ _))

theorem inv_step {w v : Run} {e : Event} (hw : Inv m w) (he : Admitted m w e)
    (h : m.step w e = some v) : Inv m v := by
  obtain ⟨he, hsampled⟩ := he
  cases e with
  | status state => exact inv_statusStep hw hsampled h
  | impulse =>
    obtain ⟨hpc, rfl⟩ := Option.ite_some_none_eq_some.mp h
    exact inv_blocking hw hpc.2 w.msLastImpulse (by simp)
  | stamp now =>
    obtain ⟨hpc, rfl⟩ := Option.ite_some_none_eq_some.mp h
    exact inv_blocking hw (hw.mode (by rw [hpc]; trivial)) w.msLastImpulse (by simp)
  | dirStatus state =>
    simp only [step] at h
    split at h
    · rename_i next hpc
      obtain rfl := Option.some.inj h
      exact inv_edge hw (by rw [hpc]; simp) (by simp) (by rw [hpc]; rfl)
        (by rw [hpc]; cases next <;> rfl) id
    · cases h
  | counter =>
    have hroom : w.counter.Room w := he
    refine inv_counterStep hw h fun state => ⟨fun hpc => ?_, fun hpc => ?_⟩
    · rw [hpc] at hroom
      exact hroom
    · rw [hpc] at hroom
      exact hroom
  | read n =>
    simp only [step] at h
    split at h
    · rename_i hpc
      split at h
      · -- no room for four readings: the call returns none
        obtain rfl := Option.some.inj h
        exact { hw with
          pos := by rw [← hw.pos, impulsesIn_append]; simp [impulsesIn]
          neg := by rw [← hw.neg, impulsesIn_append]; simp [impulsesIn]
          returns := by
            intro l hl
            rcases List.mem_append.mp hl with hl | hl
            · exact hw.returns l hl
            · rw [List.mem_singleton.mp hl]
              exact Nat.zero_le _ }
      · obtain rfl := Option.some.inj h
        exact inv_move hw _ _ _ _ (by rw [hpc]; rfl) (by rw [hpc]; rfl)
          ⟨Nat.zero_le _, Nat.zero_le _⟩
    · cases h
  | clock now =>
    simp only [step, clockStep] at h
    split at h
    · rename_i t tn hpc
      split at h
      · obtain rfl := Option.some.inj h
        exact inv_move hw _ _ _ _ (by rw [hpc]; rfl) (by rw [hpc]; rfl)
          ⟨Nat.zero_le _, Nat.zero_le _⟩
      · obtain rfl := Option.some.inj h
        exact inv_move hw _ _ _ _ (by rw [hpc]; rfl) (by rw [hpc]; rfl)
          ⟨Nat.zero_le _, Nat.zero_le _⟩
    · cases h
  | reader => exact inv_readerStep hw h

/-- What was returned, what the running call holds and what is pending make up the
increments, in each direction; without blocking these are the rising edges of the
valid states, up to one that is about to be counted; what is subtracted is there; and a
call returns at most four readings. -/
structure Conserved (m : MeterS0) (w : Run) : Prop where
  pos : impulsesIn impulse w.returned + w.reader.inRead + w.impulses = w.incs
  neg : impulsesIn impulseNeg w.returned + w.reader.inReadNeg + w.impulsesNeg = w.incsNeg
  edges : m.blocking = false →
    w.incs + w.incsNeg + w.counter.inFlight = risingEdges (valid w.samples)
  subtrahend : ∀ t tn, (w.reader = .subImp t tn → t ≤ w.impulses) ∧
    (w.reader = .subNeg t tn → tn ≤ w.impulsesNeg)
  returns : ∀ rds ∈ w.returned, rds.length ≤ 4

/-- **Impulses are conserved.**  In every state of every run in which the counters
have room for their increments and the samples are levels of the pin. -/
theorem conserved (now : Timespec) {es : List Event} {w : Run}
    (hes : (m.machine now).EachStep (Admitted m) (initial now) es)
    (hrun : (m.machine now).run (initial now) es = some w) : Conserved m w := by
  have hstep : ∀ s e t, Inv m s → Admitted m s e → (m.machine now).step s e = some t → Inv m t :=
    fun _ _ _ => inv_step
  have hw : Inv m w :=
    EventMachine.Machine.run_invariant hstep (inv_initial now) hes hrun
  obtain ⟨hloaded, hloadedNeg⟩ := hw.loaded
  refine ⟨hw.pos, hw.neg, hw.edges, fun t tn => ⟨fun hpc => ?_, fun hpc => ?_⟩, hw.returns⟩
  · rw [hpc] at hloaded
    exact hloaded
  · rw [hpc] at hloadedNeg
    exact hloadedNeg

/-- A meter that samples its input. -/
def sampled : MeterS0 := ⟨false, false, false, 1000, 64⟩

/-- One edge, and a call that returns it while a second one comes in. -/
theorem conserved_twoEdges :
    ∃ w, (sampled.machine ⟨0, 0⟩).run (initial ⟨0, 0⟩)
        [.status 0, .status 1, .counter, .counter, .read 4, .reader, .status 0, .counter,
          .status 1, .counter, .reader, .reader, .reader, .reader, .clock ⟨1, 0⟩, .reader] =
        some w ∧ impulsesIn impulse w.returned = 1 ∧ w.impulses = 1 ∧ Conserved sampled w := by
  obtain ⟨w, hrun, hw⟩ : ∃ w, (sampled.machine ⟨0, 0⟩).run (initial ⟨0, 0⟩)
        [.status 0, .status 1, .counter, .counter, .read 4, .reader, .status 0, .counter,
          .status 1, .counter, .reader, .reader, .reader, .reader, .clock ⟨1, 0⟩, .reader] =
        some w ∧ (impulsesIn impulse w.returned = 1 ∧ w.impulses = 1) :=
    EventMachine.Machine.exists_run_of_any (by decide +kernel)
  exact ⟨w, hrun, hw.1, hw.2, conserved ⟨0, 0⟩ (by decide +kernel) hrun⟩

end VzLogger.MeterS0
