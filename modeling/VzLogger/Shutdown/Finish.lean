import VzLogger.Shutdown.Channel

/-! # When a meter can be stopped

A reading thread that has to lock the buffer of a dead logging thread stays in this state,
whatever the threads do.  In every other state that can be reached, the reading thread comes
to a safe point, and from there the main thread ends one thread after the other.
-/
namespace VzLogger.Shutdown

variable (c : Setup)

/-! ## The invariant -/

section Run
variable {c} {s t : Shutdown} {k : Nat}

structure Inv (c : Setup) (s : Shutdown) : Prop where
  placed : ∀ k, Placed (s.chan k)
  chan : ∀ k, WakeUp.Inv (s.chan k)
  inner : ∀ k, (s.chan k).reader ≠ .read → s.reader = .push k ∨ s.reader = .send k
  channel : ∀ k, s.reader = .push k ∨ s.reader = .send k → k < c.channels
  cancel : ∀ k, s.main = .cancelChannel k → k < c.channels
  join : ∀ k, s.main = .joinChannel k → k < c.channels ∧ s.cancelled k = true
  joinReader : s.main = .joinReader → s.readerCancelled = true
  closed : s.main = .close ∨ s.main = .finished → s.reader = .ended

theorem inv_initial : Inv c initial where
  placed _ := placed_initial
  chan _ := WakeUp.inv_initial
  inner _ h := absurd rfl h
  channel _ h := by rcases h with h | h <;> cases h
  cancel _ h := by cases h
  join _ h := by cases h
  joinReader h := by cases h
  closed h := by rcases h with h | h <;> cases h

/-- A channel makes a step. -/
theorem inv_chan (hs : Inv c s) (dead : Nat → Bool) {w : WakeUp} {reader : ReaderAt}
    (hplaced : Placed w) (hchan : WakeUp.Inv w)
    (hinner : w.reader ≠ .read → reader = .push k ∨ reader = .send k)
    (hother : ∀ j, j ≠ k → (s.chan j).reader ≠ .read → reader = .push j ∨ reader = .send j)
    (hchannel : ∀ j, reader = .push j ∨ reader = .send j → j < c.channels)
    (hclosed : s.reader = .ended → reader = .ended) :
    Inv c { s with chan := Function.update s.chan k w, reader, dead } := by
  refine ⟨fun j => ?_, fun j => ?_, fun j => ?_, hchannel, hs.cancel, hs.join, hs.joinReader,
    fun h => hclosed (hs.closed h)⟩
  all_goals
    by_cases hj : j = k
    · subst hj
      simp only [Function.update_self]
      assumption
    · simp only [Function.update_of_ne hj]
      first
        | exact hs.placed j
        | exact hs.chan j
        | exact hother j hj

/-- The reading thread goes elsewhere, with no channel in its hands. -/
theorem inv_goto (hs : Inv c s) {reader : ReaderAt} (b : Bool)
    (hread : ∀ k, (s.chan k).reader = .read)
    (hne : ∀ k, reader ≠ .push k ∧ reader ≠ .send k) (hended : s.reader ≠ .ended) :
    Inv c { s with reader, firstReading := b } where
  placed := hs.placed
  chan := hs.chan
  inner k h := absurd (hread k) h
  channel k h := by
    rcases h with h | h
    · exact absurd h (hne k).1
    · exact absurd h (hne k).2
  cancel := hs.cancel
  join := hs.join
  joinReader := hs.joinReader
  closed h := absurd (hs.closed h) hended

/-- Nothing of a channel is under way. -/
theorem read_of_reader (hs : Inv c s) (h : ∀ k, s.reader ≠ .push k ∧ s.reader ≠ .send k) (k : Nat) :
    (s.chan k).reader = .read := by
  by_contra hne
  rcases hs.inner k hne with hk | hk
  · exact (h k).1 hk
  · exact (h k).2 hk

theorem within_eq_some {e : WakeUpEvent} {reader : ReaderAt} (h : s.within k e reader = some t) :
    ∃ w, WakeUp.step (s.chan k) e = some w ∧
      t = { s with chan := Function.update s.chan k w, reader } := by
  obtain ⟨w, hw, rfl⟩ := Option.map_eq_some_iff.mp h
  exact ⟨w, hw, rfl⟩

/-- The reading thread goes on in channel `k`, from elsewhere or from within. -/
theorem inv_within (hs : Inv c s) {e : WakeUpEvent} {reader : ReaderAt} (hk : k < c.channels)
    (hreader : reader = .push k ∨ reader = .send k) (hended : s.reader ≠ .ended)
    (hother : ∀ j, j ≠ k → (s.chan j).reader = .read) (h : s.within k e reader = some t) :
    Inv c t := by
  obtain ⟨w, hw, rfl⟩ := within_eq_some h
  refine inv_chan hs s.dead (placed_step (hs.placed k) hw) (WakeUp.inv_step (hs.chan k) hw)
    (fun _ => hreader) (fun j hj hne => absurd (hother j hj) hne) ?_ (fun h => absurd h hended)
  intro j hj
  rcases hreader with rfl | rfl <;> rcases hj with hj | hj <;> cases hj <;> exact hk

theorem inv_sendFrom (hs : Inv c s) (hread : ∀ j, (s.chan j).reader = .read)
    (hended : s.reader ≠ .ended) (h : sendFrom c s k = some t) : Inv c t := by
  unfold sendFrom at h
  split at h
  · rename_i hk
    exact inv_within hs hk (.inr rfl) hended (fun j _ => hread j) h
  · obtain rfl := Option.some.inj h
    exact inv_goto hs s.firstReading hread (fun _ => ⟨nofun, nofun⟩) hended

/-- Only the channel at hand is under way. -/
theorem read_of_ne (hs : Inv c s) (hk : s.reader = .push k ∨ s.reader = .send k) {j : Nat}
    (hj : j ≠ k) : (s.chan j).reader = .read := by
  by_contra hne
  have := hs.inner j hne
  rcases hk with hk | hk <;> rw [hk] at this <;> rcases this with h | h <;> cases h <;>
    exact hj rfl

theorem inv_readerStep (hs : Inv c s) {e : ReaderEvent} (h : readerStep c s e = some t) :
    Inv c t := by
  cases e with
  | go =>
    obtain ⟨-, h⟩ := Option.ite_none_left_eq_some.mp h
    cases hr : s.reader with
    | top | loop | sleep =>
      rw [hr] at h
      obtain rfl := Option.some.inj h
      refine inv_goto hs _ (read_of_reader hs (by simp [hr])) ?_ (by simp [hr])
      intro j
      try split
      all_goals exact ⟨nofun, nofun⟩
    | _ =>
      rw [hr] at h
      cases h
  | readings =>
    obtain ⟨hr, rfl⟩ := Option.ite_some_none_eq_some.mp h
    exact inv_goto hs _ (read_of_reader hs (by simp [hr])) (fun _ => ⟨nofun, nofun⟩) (by simp [hr])
  | throws =>
    obtain ⟨⟨hr, -⟩, rfl⟩ := Option.ite_some_none_eq_some.mp h
    exact inv_goto hs _ (read_of_reader hs (by simp [hr])) (fun _ => ⟨nofun, nofun⟩) (by simp [hr])
  | push k =>
    obtain ⟨⟨hr, hk⟩, h⟩ := Option.ite_none_right_eq_some.mp h
    exact inv_within hs hk (.inl rfl) (by simp [hr])
      (fun j _ => read_of_reader hs (by simp [hr]) j) h
  | again =>
    obtain ⟨⟨hr, -⟩, rfl⟩ := Option.ite_some_none_eq_some.mp h
    exact inv_goto hs _ (read_of_reader hs (by simp [hr])) (fun _ => ⟨nofun, nofun⟩) (by simp [hr])
  | publish =>
    obtain ⟨hr, h⟩ := Option.ite_none_right_eq_some.mp h
    exact inv_sendFrom hs (read_of_reader hs (by simp [hr])) (by simp [hr]) h
  | aggregate =>
    cases hr : s.reader with
    | send k =>
      simp only [readerStep, hr] at h
      exact inv_within hs (hs.channel k (.inr hr)) (.inr rfl) (by simp [hr])
        (fun j hj => read_of_ne hs (.inr hr) hj) h
    | _ => simp [readerStep, hr] at h
  | statement =>
    cases hr : s.reader with
    | push k =>
      simp only [readerStep, hr] at h
      exact inv_within hs (hs.channel k (.inl hr)) (.inl rfl) (by simp [hr])
        (fun j hj => read_of_ne hs (.inl hr) hj) h
    | send k =>
      simp only [readerStep, hr] at h
      exact inv_within hs (hs.channel k (.inr hr)) (.inr rfl) (by simp [hr])
        (fun j hj => read_of_ne hs (.inr hr) hj) h
    | _ => simp [readerStep, hr] at h
  | next =>
    cases hr : s.reader with
    | push k =>
      simp only [readerStep, hr] at h
      obtain ⟨hread, rfl⟩ := Option.ite_some_none_eq_some.mp h
      refine inv_goto hs _ (fun j => ?_) (fun _ => ⟨nofun, nofun⟩) (by simp [hr])
      by_cases hj : j = k
      · exact hj ▸ hread
      · exact read_of_ne hs (.inl hr) hj
    | send k =>
      simp only [readerStep, hr] at h
      obtain ⟨hread, h⟩ := Option.ite_none_right_eq_some.mp h
      refine inv_sendFrom hs (fun j => ?_) (by simp [hr]) h
      by_cases hj : j = k
      · exact hj ▸ hread
      · exact read_of_ne hs (.inr hr) hj
    | _ => simp [readerStep, hr] at h
  | dies =>
    obtain ⟨⟨-, hsafe⟩, rfl⟩ := Option.ite_some_none_eq_some.mp h
    have hne : ∀ k, s.reader ≠ .push k ∧ s.reader ≠ .send k := by
      intro k
      constructor <;> intro hr <;> rw [hr] at hsafe <;> cases hsafe
    refine inv_goto hs _ (read_of_reader hs hne) (fun _ => ⟨nofun, nofun⟩) ?_
    intro hr
    rw [hr] at hsafe
    cases hsafe

theorem cancelFrom_eq {k j : Nat} (h : cancelFrom c k = .cancelChannel j) : j < c.channels := by
  unfold cancelFrom at h
  split at h
  · cases h
    assumption
  · cases h

theorem cancelFrom_ne (c : Setup) (k : Nat) : (∀ j, cancelFrom c k ≠ .joinChannel j) ∧
    cancelFrom c k ≠ .joinReader ∧ ¬ (cancelFrom c k = .close ∨ cancelFrom c k = .finished) := by
  unfold cancelFrom
  split <;> simp

/-- The main thread goes on to the next channel. -/
theorem inv_cancelFrom (hs : Inv c s) (k : Nat) : Inv c { s with main := cancelFrom c k } where
  placed := hs.placed
  chan := hs.chan
  inner := hs.inner
  channel := hs.channel
  cancel _ h := cancelFrom_eq h
  join j h := absurd h ((cancelFrom_ne c k).1 j)
  joinReader h := absurd h (cancelFrom_ne c k).2.1
  closed h := absurd h (cancelFrom_ne c k).2.2

theorem inv_mainStep (hs : Inv c s) (h : mainStep c s = some t) : Inv c t := by
  unfold mainStep at h
  cases hm : s.main with
  | running | finished =>
    rw [hm] at h
    cases h
  | cancelChannel k =>
    rw [hm] at h
    obtain rfl := Option.some.inj h
    refine { hs with cancel := nofun, join := ?_, joinReader := nofun, closed := ?_ }
    · rintro j hj
      cases hj
      exact ⟨hs.cancel k hm, Function.update_self _ _ _⟩
    · rintro (h | h) <;> cases h
  | joinChannel k =>
    rw [hm] at h
    obtain ⟨-, rfl⟩ := Option.ite_some_none_eq_some.mp h
    exact inv_cancelFrom hs (k + 1)
  | cancelReader =>
    rw [hm] at h
    obtain rfl := Option.some.inj h
    refine { hs with cancel := nofun, join := nofun, joinReader := fun _ => rfl, closed := ?_ }
    rintro (h | h) <;> cases h
  | joinReader =>
    rw [hm] at h
    obtain ⟨hended, rfl⟩ := Option.ite_some_none_eq_some.mp h
    exact { hs with cancel := nofun, join := nofun, joinReader := nofun, closed := fun _ => hended }
  | close =>
    rw [hm] at h
    obtain rfl := Option.some.inj h
    exact { hs with
      cancel := nofun, join := nofun, joinReader := nofun, closed := fun _ => hs.closed (.inl hm) }

theorem inv_step {e : Event} (hs : Inv c s) (h : step c s e = some t) : Inv c t := by
  cases e with
  | quit =>
    obtain ⟨-, rfl⟩ := Option.ite_some_none_eq_some.mp h
    exact inv_cancelFrom hs 0
  | main => exact inv_mainStep hs h
  | reader e => exact inv_readerStep hs h
  | logger k e =>
    obtain ⟨-, h⟩ := Option.ite_none_right_eq_some.mp h
    obtain ⟨w, hw, rfl⟩ := within_eq_some h
    refine inv_chan hs s.dead (placed_step (hs.placed k) hw)
      (WakeUp.inv_step (hs.chan k) hw) ?_ (fun j _ => hs.inner j) hs.channel id
    rw [reader_of_logger hw]
    exact hs.inner k
  | loggerDies k =>
    obtain ⟨-, h⟩ := Option.ite_none_right_eq_some.mp h
    obtain ⟨w, hw, rfl⟩ := Option.map_eq_some_iff.mp h
    rcases loggerDies_cases hw with rfl | hstep
    · exact inv_chan hs _ (hs.placed k) (hs.chan k) (hs.inner k) (fun j _ => hs.inner j) hs.channel id
    · have hstep : WakeUp.step (s.chan k) LoggerEvent.step.inner = some w := hstep
      refine inv_chan hs _ (placed_step (hs.placed k) hstep) (WakeUp.inv_step (hs.chan k) hstep)
        ?_ (fun j _ => hs.inner j) hs.channel id
      rw [reader_of_logger hstep]
      exact hs.inner k

/-! ## A doomed meter stays doomed -/

/-- What the reading thread does leaves the mutex of a thread that ended where it is. -/
theorem owner_of_within (hs : Inv c s) {e : WakeUpEvent} (he : e = .push ∨ e = .sendData ∨
    e = .aggregate ∨ e = .step .reading) {j : Nat} {reader : ReaderAt}
    (h : s.within j e reader = some t)
    (howner : (s.chan k).monitor.mutex.owner = some .logging) :
    (t.chan k).monitor.mutex.owner = some .logging := by
  obtain ⟨w, hw, rfl⟩ := within_eq_some h
  by_cases hj : k = j
  · subst hj
    simp only [Function.update_self]
    rcases he with rfl | rfl | rfl | rfl
    · obtain ⟨-, rfl⟩ := Option.ite_some_none_eq_some.mp hw
      exact howner
    · obtain ⟨-, rfl⟩ := Option.ite_some_none_eq_some.mp hw
      exact howner
    · obtain ⟨-, rfl⟩ := Option.ite_some_none_eq_some.mp hw
      exact howner
    · exact (owner_of_reader (hs.chan k) hw howner).2
  · simpa only [Function.update_of_ne hj] using howner

theorem dead_of_within {e : WakeUpEvent} {j : Nat} {reader : ReaderAt}
    (h : s.within j e reader = some t) : t.dead = s.dead := by
  obtain ⟨w, -, rfl⟩ := within_eq_some h
  rfl

/-- The reading thread leaves the dead alone. -/
theorem orphan_readerStep (hs : Inv c s) (ho : Orphan c s k) {e : ReaderEvent}
    (h : readerStep c s e = some t) : Orphan c t k := by
  obtain ⟨hk, hdead, howner⟩ := ho
  have hwithin : ∀ {e : WakeUpEvent} {j : Nat} {reader : ReaderAt}, (e = .push ∨ e = .sendData ∨
      e = .aggregate ∨ e = .step .reading) → s.within j e reader = some t → Orphan c t k :=
    fun he h => ⟨hk, by rw [dead_of_within h]; exact hdead, owner_of_within hs he h howner⟩
  have hsend : ∀ {j : Nat}, sendFrom c s j = some t → Orphan c t k := by
    intro j h
    unfold sendFrom at h
    split at h
    · exact hwithin (by simp) h
    · obtain rfl := Option.some.inj h
      exact ⟨hk, hdead, howner⟩
  cases e with
  | go =>
    obtain ⟨-, h⟩ := Option.ite_none_left_eq_some.mp h
    cases hr : s.reader with
    | top | loop | sleep =>
      rw [hr] at h
      obtain rfl := Option.some.inj h
      exact ⟨hk, hdead, howner⟩
    | _ =>
      rw [hr] at h
      cases h
  | readings | throws | again | dies =>
    obtain ⟨-, rfl⟩ := Option.ite_some_none_eq_some.mp h
    exact ⟨hk, hdead, howner⟩
  | push j => exact hwithin (by simp) (Option.ite_none_right_eq_some.mp h).2
  | publish => exact hsend (Option.ite_none_right_eq_some.mp h).2
  | aggregate =>
    cases hr : s.reader with
    | send j =>
      simp only [readerStep, hr] at h
      exact hwithin (by simp) h
    | _ => simp [readerStep, hr] at h
  | statement =>
    cases hr : s.reader with
    | push j | send j =>
      simp only [readerStep, hr] at h
      exact hwithin (by simp) h
    | _ => simp [readerStep, hr] at h
  | next =>
    cases hr : s.reader with
    | push j =>
      simp only [readerStep, hr] at h
      obtain ⟨-, rfl⟩ := Option.ite_some_none_eq_some.mp h
      exact ⟨hk, hdead, howner⟩
    | send j =>
      simp only [readerStep, hr] at h
      exact hsend (Option.ite_none_right_eq_some.mp h).2
    | _ => simp [readerStep, hr] at h

/-- In `sendData`, the channels to come are locked. -/
theorem mustLock_sendFrom {j : Nat} (hjk : j ≤ k) (hk : k < c.channels)
    (h : sendFrom c s j = some t) : MustLock c t k := by
  rw [sendFrom, if_pos (Nat.lt_of_le_of_lt hjk hk)] at h
  obtain ⟨w, hw, rfl⟩ := within_eq_some h
  obtain ⟨-, rfl⟩ := Option.ite_some_none_eq_some.mp hw
  rcases Nat.lt_or_eq_of_le hjk with hlt | rfl
  · exact .inl hlt
  · refine .inr ⟨rfl, ?_⟩
    simp

theorem mustLock_readerStep (hs : Inv c s) (ho : Orphan c s k) (hm : MustLock c s k)
    {e : ReaderEvent} (h : readerStep c s e = some t) : MustLock c t k := by
  obtain ⟨hk, -, howner⟩ := ho
  unfold MustLock at hm
  cases e with
  | go =>
    obtain ⟨-, h⟩ := Option.ite_none_left_eq_some.mp h
    cases hr : s.reader with
    | top | loop | sleep =>
      rw [hr] at hm
      exact hm.elim
    | _ =>
      rw [hr] at h
      cases h
  | readings =>
    obtain ⟨hr, rfl⟩ := Option.ite_some_none_eq_some.mp h
    rw [hr] at hm
    exact hm.1
  | throws =>
    obtain ⟨⟨hr, hthrows⟩, -⟩ := Option.ite_some_none_eq_some.mp h
    rw [hr] at hm
    rw [hm.2.1] at hthrows
    cases hthrows
  | push j =>
    obtain ⟨⟨hr, -⟩, h⟩ := Option.ite_none_right_eq_some.mp h
    obtain ⟨w, -, rfl⟩ := within_eq_some h
    rw [hr] at hm
    exact .inr hm
  | again =>
    obtain ⟨⟨hr, hagg⟩, -⟩ := Option.ite_some_none_eq_some.mp h
    rw [hr] at hm
    have hm : c.aggtime = false := hm
    rw [hm] at hagg
    cases hagg
  | publish => exact mustLock_sendFrom (Nat.zero_le k) hk (Option.ite_none_right_eq_some.mp h).2
  | aggregate =>
    cases hr : s.reader with
    | send j =>
      simp only [readerStep, hr] at h
      obtain ⟨w, hw, rfl⟩ := within_eq_some h
      obtain ⟨-, rfl⟩ := Option.ite_some_none_eq_some.mp hw
      rw [hr] at hm
      refine hm.imp id ?_
      rintro ⟨rfl, -⟩
      exact ⟨rfl, by simp⟩
    | _ => simp [readerStep, hr] at h
  | statement =>
    cases hr : s.reader with
    | push j =>
      simp only [readerStep, hr] at h
      obtain ⟨w, hw, rfl⟩ := within_eq_some h
      rw [hr] at hm
      refine hm.imp ?_ id
      rintro ⟨rfl, -⟩
      refine ⟨rfl, ?_⟩
      simp only [Function.update_self]
      exact (owner_of_reader (hs.chan j) hw howner).1
    | send j =>
      simp only [readerStep, hr] at h
      obtain ⟨w, hw, rfl⟩ := within_eq_some h
      rw [hr] at hm
      refine hm.imp id ?_
      rintro ⟨rfl, -⟩
      refine ⟨rfl, ?_⟩
      simp only [Function.update_self]
      exact (owner_of_reader (hs.chan j) hw howner).1
    | _ => simp [readerStep, hr] at h
  | next =>
    cases hr : s.reader with
    | push j =>
      simp only [readerStep, hr] at h
      obtain ⟨hread, rfl⟩ := Option.ite_some_none_eq_some.mp h
      rw [hr] at hm
      rcases hm with ⟨rfl, hne⟩ | hagg
      · exact absurd hread hne
      · exact hagg
    | send j =>
      simp only [readerStep, hr] at h
      obtain ⟨hread, h⟩ := Option.ite_none_right_eq_some.mp h
      rw [hr] at hm
      rcases hm with hlt | ⟨rfl, hne⟩
      · exact mustLock_sendFrom hlt hk h
      · exact absurd hread hne
    | _ => simp [readerStep, hr] at h
  | dies =>
    obtain ⟨⟨-, hsafe⟩, -⟩ := Option.ite_some_none_eq_some.mp h
    cases hr : s.reader with
    | query =>
      rw [hr] at hm hsafe
      have hsafe : c.readSafe = true := hsafe
      rw [hm.2.2] at hsafe
      cases hsafe
    | top | loop | sleep =>
      rw [hr] at hm
      exact hm.elim
    | _ =>
      rw [hr] at hsafe
      cases hsafe

/-- The reading thread and the channels that it sees are the same. -/
theorem mustLock_congr (hr : t.reader = s.reader)
    (hchan : (t.chan k).reader = (s.chan k).reader) : MustLock c t k ↔ MustLock c s k := by
  unfold MustLock
  rw [hr, hchan]

/-- The main thread leaves the others where they are. -/
theorem mainStep_frame (h : mainStep c s = some t) :
    t.chan = s.chan ∧ t.dead = s.dead ∧ t.reader = s.reader := by
  unfold mainStep at h
  cases hm : s.main with
  | running | finished =>
    rw [hm] at h
    cases h
  | cancelChannel k | cancelReader | close =>
    rw [hm] at h
    obtain rfl := Option.some.inj h
    exact ⟨rfl, rfl, rfl⟩
  | joinChannel k | joinReader =>
    rw [hm] at h
    obtain ⟨-, rfl⟩ := Option.ite_some_none_eq_some.mp h
    exact ⟨rfl, rfl, rfl⟩

theorem doomed_step (hs : Inv c s) (hd : Doomed c s) {e : Event} (h : step c s e = some t) :
    Doomed c t := by
  obtain ⟨k, ⟨hk, hdead, howner⟩, hm⟩ := hd
  cases e with
  | quit =>
    obtain ⟨-, rfl⟩ := Option.ite_some_none_eq_some.mp h
    exact ⟨k, ⟨hk, hdead, howner⟩, hm⟩
  | main =>
    obtain ⟨hchan, hdead', hr⟩ := mainStep_frame h
    exact ⟨k, ⟨hk, hdead' ▸ hdead, hchan ▸ howner⟩, (mustLock_congr hr (by rw [hchan])).mpr hm⟩
  | reader e => exact ⟨k, orphan_readerStep hs ⟨hk, hdead, howner⟩ h,
      mustLock_readerStep hs ⟨hk, hdead, howner⟩ hm h⟩
  | logger j e =>
    obtain ⟨⟨-, halive⟩, h⟩ := Option.ite_none_right_eq_some.mp h
    obtain ⟨w, hw, rfl⟩ := within_eq_some h
    have hkj : k ≠ j := by
      rintro rfl
      rw [hdead] at halive
      cases halive
    have hsame : Function.update s.chan j w k = s.chan k := Function.update_of_ne hkj _ _
    refine ⟨k, ⟨hk, hdead, ?_⟩, ?_⟩
    · simpa only [hsame] using howner
    · refine (mustLock_congr (s := s) ?_ ?_).mpr hm
      · rfl
      · simp only [hsame]
  | loggerDies j =>
    obtain ⟨⟨-, halive, -⟩, h⟩ := Option.ite_none_right_eq_some.mp h
    obtain ⟨w, hw, rfl⟩ := Option.map_eq_some_iff.mp h
    have hkj : k ≠ j := by
      rintro rfl
      rw [hdead] at halive
      cases halive
    have hsame : Function.update s.chan j w k = s.chan k := Function.update_of_ne hkj _ _
    refine ⟨k, ⟨hk, ?_, ?_⟩, ?_⟩
    · simp only [Function.update_of_ne hkj, hdead]
    · simpa only [hsame] using howner
    · refine (mustLock_congr (s := s) ?_ ?_).mpr hm
      · rfl
      · simp only [hsame]

/-! ## A meter that is not doomed can be stopped -/

/-- What a channel does by itself, the meter does. -/
theorem lift {D : WakeUpEvent → Prop} {P : WakeUp → Prop} (hk : k < c.channels)
    (hD : ∀ e, D e → s.dead k = false ∧ ByLogger e ∨
      e = .step .reading ∧ (s.reader = .push k ∨ s.reader = .send k))
    (h : WakeUp.machine.CanReach D P (s.chan k)) :
    (machine c).CanReach (fun _ => True)
      (fun t => ∃ w, P w ∧ t = { s with chan := Function.update s.chan k w }) s := by
  have hself : { s with chan := Function.update s.chan k (s.chan k) } = s := by
    rw [Function.update_eq_self]
  have hlift := h.embed (N := machine c) (F := fun _ => True)
    (Q := fun t => ∃ w, P w ∧ t = { s with chan := Function.update s.chan k w })
    (fun w => { s with chan := Function.update s.chan k w }) ?_ fun w hw => ⟨w, hw, rfl⟩
  · rwa [hself] at hlift
  · intro w e v he hst
    have hst : WakeUp.step w e = some v := hst
    have hwithin : ∀ reader, within { s with chan := Function.update s.chan k w } k e reader =
        some { s with chan := Function.update s.chan k v, reader } := by
      intro reader
      simp only [within, Function.update_self, hst, Option.map_some, Function.update_idem]
    rcases hD e he with ⟨halive, rfl | rfl⟩ | ⟨rfl, hr | hr⟩
    · exact ⟨.logger k .wake, trivial, (if_pos ⟨hk, halive⟩).trans (hwithin s.reader)⟩
    · exact ⟨.logger k .step, trivial, (if_pos ⟨hk, halive⟩).trans (hwithin s.reader)⟩
    · refine ⟨.reader .statement, trivial, ?_⟩
      have := hwithin (.push k)
      simp only [machine, step, readerStep, hr]
      simpa only [← hr] using this
    · refine ⟨.reader .statement, trivial, ?_⟩
      have := hwithin (.send k)
      simp only [machine, step, readerStep, hr]
      simpa only [← hr] using this

/-- The reading thread comes to the end of its work on a channel that is no orphan. -/
theorem finish_channel (hs : Inv c s) (hr : s.reader = .push k ∨ s.reader = .send k)
    (ho : ¬ Orphan c s k) :
    (machine c).CanReach (fun _ => True) (fun t => Inv c t ∧ t.reader = s.reader ∧
      (∀ j, (t.chan j).reader = .read) ∧ ∀ j, Orphan c t j → j ≠ k ∧ Orphan c s j) s := by
  have hk := hs.channel k hr
  have hfree : s.dead k = false ∨ (s.chan k).monitor.mutex.owner ≠ some .logging := by
    by_cases hd : s.dead k = true
    · exact .inr fun howner => ho ⟨hk, hd, howner⟩
    · exact .inl (by simpa using hd)
  have hlift := lift hk ?_ (finishes (hs.placed k) (hs.chan k) hfree)
  · refine (hlift.keeps hs fun _ _ _ hs _ hst => inv_step hs hst).mono (fun _ => id) ?_
    rintro t ⟨⟨w, ⟨hread, hfree⟩, rfl⟩, ht⟩
    refine ⟨ht, rfl, fun j => ?_, ?_⟩
    · by_cases hj : j = k
      · subst hj
        simpa only [Function.update_self] using hread
      · simpa only [Function.update_of_ne hj] using read_of_ne hs hr hj
    · rintro j ⟨hjn, hdead, howner⟩
      by_cases hj : j = k
      · subst hj
        simp only [Function.update_self] at howner
        rcases hfree with h | h
        · rw [h] at hdead
          cases hdead
        · exact absurd howner h
      · simp only [Function.update_of_ne hj] at howner
        exact ⟨hj, hjn, hdead, howner⟩
  · rintro e (⟨halive, he⟩ | rfl)
    · exact .inl ⟨halive, he⟩
    · exact .inr ⟨rfl, hr⟩

/-- The loop of `sendData` goes on, whoever holds the mutexes. -/
theorem exists_sendFrom (hread : ∀ j, (s.chan j).reader = .read) (k : Nat) :
    ∃ u, sendFrom c s k = some u ∧ (∀ j, Orphan c u j → Orphan c s j) ∧
      u.reader = if k < c.channels then .send k else .top := by
  unfold sendFrom
  by_cases hk : k < c.channels
  · rw [if_pos hk, if_pos hk]
    have hst : WakeUp.step (s.chan k) .sendData = some { s.chan k with reader := .haveNewValues } :=
      if_pos (hread k)
    refine ⟨_, by rw [within, hst]; rfl, ?_, rfl⟩
    rintro j ⟨hj, hdead, howner⟩
    refine ⟨hj, hdead, ?_⟩
    by_cases hjk : j = k
    · subst hjk
      simpa only [Function.update_self] using howner
    · simpa only [Function.update_of_ne hjk] using howner
  · rw [if_neg hk, if_neg hk]
    exact ⟨_, rfl, fun _ => id, rfl⟩

/-- Without orphans ahead, `sendData` returns. -/
theorem reach_top {m : Nat} (hm : c.channels - k ≤ m) (hs : Inv c s)
    (hread : ∀ j, (s.chan j).reader = .read) (ho : ∀ j, k ≤ j → ¬ Orphan c s j) {e : Event}
    (he : step c s e = sendFrom c s k) :
    (machine c).CanReach (fun _ => True) (fun t => Inv c t ∧ t.reader = .top) s := by
  obtain ⟨u, hu, horphan, hreader⟩ := exists_sendFrom (c := c) hread k
  have hst : (machine c).step s e = some u := he.trans hu
  have hinv := inv_step hs hst
  induction m generalizing k s e u with
  | zero =>
    rw [if_neg (by omega)] at hreader
    exact .once trivial hst ⟨hinv, hreader⟩
  | succ m ih =>
    by_cases hk : k < c.channels
    · rw [if_pos hk] at hreader
      refine .step trivial hst ?_
      refine (finish_channel hinv (.inr hreader) fun h => ho k (Nat.le_refl k) (horphan k h)).trans ?_
      rintro t ⟨ht, htr, htread, htorphan⟩
      have hnext : step c t (.reader .next) = sendFrom c t (k + 1) := by
        simp [step, readerStep, htr.trans hreader, htread]
      obtain ⟨v, hv, hvo, hvr⟩ := exists_sendFrom (c := c) htread (k + 1)
      refine ih (by omega) ht htread ?_ hnext v hv hvo hvr (hnext.trans hv)
        (inv_step ht (hnext.trans hv))
      intro j hj hjo
      exact ho j (by omega) (horphan j (htorphan j hjo).2)
    · rw [if_neg hk] at hreader
      exact .once trivial hst ⟨hinv, hreader⟩

/-- The reading thread holds no mutex, and a cancellation can end it. -/
def Parked (c : Setup) (s : Shutdown) : Prop :=
  s.reader = .ended ∨ safePoint c s.reader = true ∨ s.reader = .query ∧ c.readThrows = true

theorem parked_of_top (h : s.reader = .top) : Parked c s := .inr (.inl (by rw [h]; rfl))

theorem reach_step {P : Shutdown → Prop} {e : Event} (hst : step c s e = some t)
    (h : (machine c).CanReach (fun _ => True) P t) :
    (machine c).CanReach (fun _ => True) P s :=
  EventMachine.Machine.CanReach.step (e := e) trivial hst h

/-- From the loop over the readings. -/
theorem parks_deliver (hs : Inv c s) (hr : s.reader = .deliver)
    (ho : c.aggtime = false → ∀ j, ¬ Orphan c s j) :
    (machine c).CanReach (fun _ => True) (fun t => Inv c t ∧ Parked c t) s := by
  cases hagg : c.aggtime with
  | true =>
    have hst : step c s (.reader .again) = some { s with reader := .loop } :=
      if_pos ⟨hr, hagg⟩
    exact reach_step hst (.here ⟨inv_step hs hst, .inr (.inl rfl)⟩)
  | false =>
    have hst : step c s (.reader .publish) = sendFrom c s 0 := if_pos hr
    exact (reach_top (Nat.le_refl _) hs (read_of_reader hs (by simp [hr]))
      (fun j _ => ho hagg j) hst).mono (fun _ => id) fun t ht => ⟨ht.1, parked_of_top ht.2⟩

/-- **The reading thread comes to a safe point**, if no orphan is ahead of it. -/
theorem parks (hs : Inv c s) (hd : ¬ Doomed c s) :
    (machine c).CanReach (fun _ => True) (fun t => Inv c t ∧ Parked c t) s := by
  have hfree : ∀ k, MustLock c s k → ¬ Orphan c s k := fun k hm ho => hd ⟨k, ho, hm⟩
  cases hr : s.reader with
  | top | loop | sleep => exact .here ⟨hs, .inr (.inl (by rw [hr]; rfl))⟩
  | ended => exact .here ⟨hs, .inl hr⟩
  | query =>
    by_cases hleave : c.readSafe = true ∨ c.readThrows = true
    · refine .here ⟨hs, ?_⟩
      rcases hleave with h | h
      · exact .inr (.inl (by rw [hr]; exact h))
      · exact .inr (.inr ⟨hr, h⟩)
    · have hst : step c s (.reader .readings) = some { s with reader := .deliver } :=
        if_pos hr
      refine reach_step hst (parks_deliver (inv_step hs hst) rfl fun hagg j hj => ?_)
      refine hfree j ?_ hj
      simp only [MustLock, hr]
      simpa [hagg, and_comm] using hleave
  | deliver =>
    refine parks_deliver hs hr fun hagg j => hfree j ?_
    simp only [MustLock, hr]
    exact hagg
  | push k =>
    have hnext : ∀ t, Inv c t → t.reader = .push k → (t.chan k).reader = .read →
        (c.aggtime = false → ∀ j, ¬ Orphan c t j) →
        (machine c).CanReach (fun _ => True) (fun t => Inv c t ∧ Parked c t) t := by
      intro t ht htr htread hto
      have hst : step c t (.reader .next) = some { t with reader := .deliver } := by
        simp [step, readerStep, htr, htread]
      exact reach_step hst (parks_deliver (inv_step ht hst) rfl hto)
    have hall : c.aggtime = false → ∀ j, ¬ Orphan c s j := by
      intro hagg j
      refine hfree j ?_
      simp only [MustLock, hr]
      exact .inr hagg
    by_cases hread : (s.chan k).reader = .read
    · exact hnext s hs hr hread hall
    · have hk : ¬ Orphan c s k := by
        refine hfree k ?_
        simp only [MustLock, hr]
        exact .inl ⟨trivial, hread⟩
      refine (finish_channel hs (.inl hr) hk).trans ?_
      rintro t ⟨ht, htr, htread, hto⟩
      exact hnext t ht (htr.trans hr) (htread k) fun hagg j hj => hall hagg j (hto j hj).2
  | send k =>
    have hnext : ∀ t, Inv c t → t.reader = .send k → (∀ j, (t.chan j).reader = .read) →
        (∀ j, k + 1 ≤ j → ¬ Orphan c t j) →
        (machine c).CanReach (fun _ => True) (fun t => Inv c t ∧ Parked c t) t := by
      intro t ht htr htread hto
      have hst : step c t (.reader .next) = sendFrom c t (k + 1) := by
        simp [step, readerStep, htr, htread]
      exact (reach_top (Nat.le_refl _) ht htread hto hst).mono (fun _ => id)
        fun t ht => ⟨ht.1, parked_of_top ht.2⟩
    have hlater : ∀ j, k + 1 ≤ j → ¬ Orphan c s j := by
      intro j hj
      refine hfree j ?_
      simp only [MustLock, hr]
      exact .inl hj
    by_cases hread : (s.chan k).reader = .read
    · refine hnext s hs hr (fun j => ?_) hlater
      by_cases hj : j = k
      · exact hj ▸ hread
      · exact read_of_ne hs (.inr hr) hj
    · have hk : ¬ Orphan c s k := by
        refine hfree k ?_
        simp only [MustLock, hr]
        exact .inr ⟨trivial, hread⟩
      refine (finish_channel hs (.inr hr) hk).trans ?_
      rintro t ⟨ht, htr, htread, hto⟩
      exact hnext t ht (htr.trans hr) htread fun j hj ho => hlater j hj (hto j ho).2

/-- Statements of the main thread that are left. -/
def left (c : Setup) : MainPc → Nat
  | .running => 2 * c.channels + 5
  | .cancelChannel k => 2 * (c.channels - k) + 4
  | .joinChannel k => 2 * (c.channels - k) + 3
  | .cancelReader => 3
  | .joinReader => 2
  | .close => 1
  | .finished => 0

theorem left_cancelFrom (c : Setup) (k : Nat) :
    left c (cancelFrom c k) ≤ max (2 * (c.channels - k) + 4) 3 := by
  unfold cancelFrom
  split
  · exact Nat.le_max_left _ _
  · exact Nat.le_max_right _ _

/-- The main thread makes a step by itself. -/
theorem nearer {e : Event} (hs : Inv c s) (hst : step c s e = some t)
    (hr : t.reader = s.reader) (hp : Parked c s) (hlt : left c t.main < left c s.main) :
    (machine c).CanReach (fun _ => True)
      (fun t => (Inv c t ∧ Parked c t) ∧ left c t.main < left c s.main) s := by
  refine reach_step hst (.here ⟨⟨inv_step hs hst, ?_⟩, hlt⟩)
  unfold Parked at hp ⊢
  rwa [hr]

/-- **With the reading thread at a safe point, `cancel` returns.** -/
theorem finish_of_parked (hs : Inv c s) (hp : Parked c s) : CanFinish c s := by
  have hreach := EventMachine.Machine.canReach_of_rank (M := machine c) (D := fun _ => True)
    (P := fun t => t.main = .finished) (I := fun t => Inv c t ∧ Parked c t)
    (fun t => left c t.main) ?_ ⟨hs, hp⟩
  · obtain ⟨es, u, hrun, -, hu⟩ := hreach
    exact ⟨es, u, hrun, hu⟩
  · rintro s ⟨hs, hp⟩ hne
    cases hm : s.main with
    | finished => exact absurd hm hne
    | running =>
      have hst : step c s .quit = some { s with main := cancelFrom c 0 } := if_pos hm
      rw [← hm]
      refine nearer hs hst rfl hp ?_
      have hle := left_cancelFrom c 0
      have hrunning : left c .running = 2 * c.channels + 5 := rfl
      rw [hm, hrunning]
      exact Nat.lt_of_le_of_lt hle (by omega)
    | cancelChannel k =>
      have hst : step c s .main = some
          { s with cancelled := Function.update s.cancelled k true, main := .joinChannel k } := by
        simp [step, mainStep, hm]
      rw [← hm]
      exact nearer hs hst rfl hp (by simp [hm, left])
    | cancelReader =>
      have hst : step c s .main = some { s with readerCancelled := true, main := .joinReader } := by
        simp [step, mainStep, hm]
      rw [← hm]
      exact nearer hs hst rfl hp (by simp [hm, left])
    | close =>
      have hst : step c s .main = some { s with main := .finished } := by
        simp [step, mainStep, hm]
      rw [← hm]
      exact nearer hs hst rfl hp (by simp [hm, left])
    | joinChannel k =>
      obtain ⟨hk, hcancelled⟩ := hs.join k hm
      have hjoin : ∀ t, Inv c t → Parked c t → t.main = .joinChannel k → t.dead k = true →
          (machine c).CanReach (fun _ => True)
            (fun u => (Inv c u ∧ Parked c u) ∧ left c u.main < left c (.joinChannel k)) t := by
        intro t ht htp htm hdead
        have hst : step c t .main = some { t with main := cancelFrom c (k + 1) } := by
          simp [step, mainStep, htm, hdead]
        rw [← htm]
        refine nearer ht hst rfl htp ?_
        have hle := left_cancelFrom c (k + 1)
        have hjoining : left c (.joinChannel k) = 2 * (c.channels - k) + 3 := rfl
        rw [htm, hjoining]
        exact Nat.lt_of_le_of_lt hle (by omega)
      cases hdead : s.dead k with
      | true => exact hjoin s hs hp hm hdead
      | false =>
        -- the logging thread comes to a point where the cancellation ends it
        have hread : (s.chan k).reader = .read := by
          refine read_of_reader hs (fun j => ?_) k
          rcases hp with h | h | ⟨h, -⟩
          · simp [h]
          · constructor <;> intro hr <;> rw [hr] at h <;> cases h
          · simp [h]
        have howner : (s.chan k).monitor.mutex.owner ≠ some .reading := by
          intro howner
          have := (hs.placed k).reading howner
          rw [hread] at this
          exact this
        have hlift := lift hk (fun e he => .inl ⟨hdead, he⟩)
          (mortal (hs.placed k) (hs.chan k) howner)
        refine (hlift.keeps hs fun _ _ _ hs _ hst => inv_step hs hst).trans ?_
        rintro t ⟨⟨w, ⟨v, hv⟩, rfl⟩, ht⟩
        have hst : step c { s with chan := Function.update s.chan k w } (.loggerDies k) = some
            { s with chan := Function.update (Function.update s.chan k w) k v,
                     dead := Function.update s.dead k true } := by
          simp only [step, Function.update_self, hk, hdead, hcancelled, and_self, if_pos, hv,
            Option.map_some]
        exact reach_step hst (hjoin _ (inv_step ht hst) hp hm (Function.update_self _ _ _))
    | joinReader =>
      have hjoin : ∀ t, Inv c t → Parked c t → t.main = .joinReader → t.reader = .ended →
          (machine c).CanReach (fun _ => True)
            (fun u => (Inv c u ∧ Parked c u) ∧ left c u.main < left c .joinReader) t := by
        intro t ht htp htm hended
        have hst : step c t .main = some { t with main := .close } := by
          simp [step, mainStep, htm, hended]
        rw [← htm]
        exact nearer ht hst rfl htp (by simp [htm, left])
      rcases hp with h | h | ⟨h, hthrows⟩
      · exact hjoin s hs (.inl h) hm h
      · have hst : step c s (.reader .dies) = some { s with reader := .ended } :=
          if_pos ⟨hs.joinReader hm, h⟩
        exact reach_step hst (hjoin _ (inv_step hs hst) (.inl rfl) hm rfl)
      · have hst : step c s (.reader .throws) = some { s with reader := .ended } :=
          if_pos ⟨h, hthrows⟩
        exact reach_step hst (hjoin _ (inv_step hs hst) (.inl rfl) hm rfl)

/-- `cancel` waits for the reading thread, and that one for a mutex that nobody gives up. -/
def Hung (c : Setup) (s : Shutdown) : Prop := Inv c s ∧ Doomed c s

theorem hung_step {e : Event} (hs : Hung c s) (h : step c s e = some t) : Hung c t :=
  ⟨inv_step hs.1 h, doomed_step hs.1 hs.2 h⟩

end Run

/-- **When a meter can be stopped**: whatever has happened so far, `cancel` can still
return exactly if the reading thread does not have to lock the buffer of a channel whose
logging thread ended with the mutex. -/
theorem canFinish_iff_not_doomed {es : List Event} {s : Shutdown}
    (hrun : (machine c).run initial es = some s) : CanFinish c s ↔ ¬ Doomed c s := by
  have hs : Inv c s :=
    EventMachine.Machine.run_induction hrun inv_initial fun _ _ _ hs h => inv_step hs h
  constructor
  · rintro ⟨fs, u, hrun, hu⟩ hd
    have hhung : Hung c u := EventMachine.Machine.run_induction hrun ⟨hs, hd⟩ fun _ _ _ => hung_step
    obtain ⟨hinv, k, -, hm⟩ := hhung
    have hended := hinv.closed (.inr hu)
    rw [MustLock, hended] at hm
    exact hm
  · intro hd
    obtain ⟨fs, t, hrun, -, ht, hp⟩ := parks hs hd
    obtain ⟨gs, u, hrun', hu⟩ := finish_of_parked ht hp
    exact ⟨fs ++ gs, u, EventMachine.Machine.run_append.mpr ⟨t, hrun, hrun'⟩, hu⟩

/-- The logging thread waits for data and is cancelled there; then a reading comes in. -/
def stoppedWhileWaiting : List Event :=
  [.logger 0 .step, .logger 0 .step, .logger 0 .step, .reader .go, .reader .go,
    .quit, .main, .logger 0 .wake, .loggerDies 0, .reader .readings, .reader (.push 0), .main]

theorem canFinish_iff_not_doomed_waiting :
    ∃ s, (machine ⟨1, false, false, true, true⟩).run initial stoppedWhileWaiting = some s ∧
      s.main = .cancelReader ∧ ¬ CanFinish ⟨1, false, false, true, true⟩ s := by
  obtain ⟨s, hrun, hm, hr, hpc, hdead, howner⟩ :
      ∃ s, (machine ⟨1, false, false, true, true⟩).run initial stoppedWhileWaiting = some s ∧
        (s.main = .cancelReader ∧ s.reader = .push 0 ∧ (s.chan 0).reader = .pushLock ∧
          s.dead 0 = true ∧ (s.chan 0).monitor.mutex.owner = some .logging) :=
    EventMachine.Machine.exists_run_of_any (by decide +kernel)
  refine ⟨s, hrun, hm, fun h => (canFinish_iff_not_doomed _ hrun).mp h
    ⟨0, ⟨by decide, hdead, howner⟩, ?_⟩⟩
  rw [MustLock, hr]
  exact .inr rfl

end VzLogger.Shutdown
