import VzLogger.Log.Complete
import VzLogger.Lib.CanReach

/-! # The log and its mutex

The main loop holds `m_log` while it closes and opens the log file.  If `openLogfile` then
has something to say, because the verbosity admits `log_debug` or because `fopen` fails, it
calls `print`, which waits for `m_log`: for ever, and every other thread that prints waits
with it.  In every other state each call of `print` can return.
-/
namespace VzLogger.Log
variable {T : Type} {c : Setup T}

/-- The main thread waits for a mutex that it holds, or will do so. -/
def Doomed (c : Setup T) : Pc → Prop
  | .stdoutLock _ after | .fileLock _ after => after.Nested
  | .closeFile | .reopenFile | .reopenDump _ => c.debug = true
  | _ => False

/-- What the process does by itself. -/
def Goes : Event T → Prop
  | .step _ | .fopen _ => True
  | _ => False

theorem inside_of_doomed {p : Pc} (h : Doomed c p) : Inside p := by
  cases p <;> trivial

/-- A call of `print` by a thread that is not the main thread. -/
theorem waits_of_outside {p : Pc} (hmain : ¬ MainOnly p) (hin : ¬ Inside p) (hidle : p ≠ .idle) :
    ∃ m, p = .stdoutLock m .idle ∨ p = .fileLock m .idle := by
  cases p with
  | stdoutLock m after => exact ⟨m, .inl (by rw [not_not.mp hmain])⟩
  | fileLock m after => exact ⟨m, .inr (by rw [not_not.mp hmain])⟩
  | idle => exact absurd rfl hidle
  | stdoutUnlock | writeHeading | writeText | writeNewline | fileUnlock => exact absurd trivial hin
  | _ => exact absurd trivial hmain

variable [DecidableEq T] {w v : Log T} {t : T}

theorem goto_pc_self (p : Pc) : (w.goto t p).pc t = p := Function.update_self ..

theorem goto_pc_of_ne {u : T} (h : u ≠ t) (p : Pc) : (w.goto t p).pc u = w.pc u :=
  Function.update_of_ne h ..

/-! ## No way out -/

/-- The main thread does not leave its statements. -/
theorem doomed_exec (hw : Inv c w) (hd : Doomed c (w.pc c.main))
    (hexec : exec c w c.main = some v) : Doomed c (v.pc c.main) := by
  have hafter : ∀ p, w.lock c.main p ≠ some v :=
    fun p hlock => after_of_lock hw hlock (inside_of_doomed hd)
  unfold exec at hexec
  cases hpc : w.pc c.main <;> rw [hpc] at hexec hd <;> try exact hd.elim
  case stdoutLock => exact absurd hexec (hafter _)
  case fileLock => exact absurd hexec (hafter _)
  case closeFile =>
    obtain rfl := Option.some.inj hexec
    rw [goto_pc_self]
    exact hd
  case reopenFile => cases hexec
  case reopenDump f =>
    obtain rfl := Option.some.inj hexec
    have hdebug : c.debug = true := hd
    rw [goto_pc_self, if_pos hdebug]
    unfold printPc
    split <;> trivial

/-- The main thread does not leave its statements, whatever happens. -/
theorem doomed_step {e : Event T} (hw : Inv c w) (hd : Doomed c (w.pc c.main))
    (hstep : step c w e = some v) : Doomed c (v.pc c.main) := by
  unfold step at hstep
  split at hstep
  · cases hstep
  cases e with
  | print u m =>
    simp only [stepRunning] at hstep
    split at hstep
    · rename_i hpc
      obtain rfl := Option.some.inj hstep
      have hu : c.main ≠ u := by
        rintro rfl
        rw [hpc] at hd
        exact hd
      rwa [goto_pc_of_ne hu]
    · cases hstep
  | openLogfile ok | consoleOnly | reopen =>
    simp only [stepRunning] at hstep
    split at hstep
    · rename_i hpc _
      rw [hpc] at hd
      exact hd.elim
    · cases hstep
  | fopen ok =>
    simp only [stepRunning] at hstep
    split at hstep
    · rename_i hpc
      rw [hpc] at hd
      split at hstep <;> obtain rfl := Option.some.inj hstep
      · rw [goto_pc_self]
        exact hd
      · rw [goto_pc_self]
        unfold printPc
        split <;> trivial
    · cases hstep
  | rotate =>
    obtain rfl := Option.some.inj hstep
    exact hd
  | step u =>
    by_cases hu : c.main = u
    · subst hu
      exact doomed_exec hw hd hstep
    · obtain ⟨p, hmoves⟩ := exec_moves hw hstep
      rwa [hmoves.pc, Function.update_of_ne hu]

/-- Nor does a thread that waits, since the main thread holds the mutex. -/
theorem waiting_step {e : Event T} (hw : Inv c w) (hd : Doomed c (w.pc c.main)) (ht : t ≠ c.main)
    (hidle : w.pc t ≠ .idle) (hstep : step c w e = some v) : v.pc t ≠ .idle := by
  have howner : w.mutex.owner = some c.main := hw.guards _ (inside_of_doomed hd)
  have hin : ¬ Inside (w.pc t) := fun h =>
    ht (Option.some.inj ((hw.guards t h).symm.trans howner))
  obtain ⟨m, hpc⟩ := waits_of_outside (fun h => ht (hw.main t h)) hin hidle
  unfold step at hstep
  split at hstep
  · cases hstep
  cases e with
  | print u m =>
    simp only [stepRunning] at hstep
    split at hstep
    · rename_i hu
      obtain rfl := Option.some.inj hstep
      have hut : t ≠ u := by
        rintro rfl
        exact hidle hu
      rwa [goto_pc_of_ne hut]
    · cases hstep
  | openLogfile ok | consoleOnly | reopen =>
    simp only [stepRunning] at hstep
    split at hstep
    · rename_i hmain _
      rw [hmain] at hd
      exact hd.elim
    · cases hstep
  | fopen ok =>
    simp only [stepRunning] at hstep
    obtain ⟨-, hfopen, -⟩ := w.fopen_frame
    split at hstep
    · split at hstep <;> obtain rfl := Option.some.inj hstep
      · rwa [goto_pc_of_ne ht, hfopen]
      · rwa [goto_pc_of_ne ht]
    · cases hstep
  | rotate =>
    obtain rfl := Option.some.inj hstep
    exact hidle
  | step u =>
    by_cases hut : t = u
    · subst hut
      have hlock : ∀ p, w.lock t p = none := by
        intro p
        have hheld : ¬ w.mutex.owner = none := by simp [howner]
        rw [lock, Sync.Mutex.lock, if_neg hheld]
        rfl
      simp only [stepRunning, exec] at hstep
      rcases hpc with hpc | hpc <;> rw [hpc] at hstep <;> simp [hlock] at hstep
    · obtain ⟨p, hmoves⟩ := exec_moves hw hstep
      rwa [hmoves.pc, Function.update_of_ne hut]

/-- The main thread waits for itself, and another thread for the main thread. -/
def Stuck (c : Setup T) (t : T) (w : Log T) : Prop :=
  Inv c w ∧ Doomed c (w.pc c.main) ∧ w.pc t ≠ .idle

theorem stuck_step {e : Event T} (ht : t ≠ c.main) (h : Stuck c t w)
    (hstep : step c w e = some v) : Stuck c t v := by
  obtain ⟨hw, hd, hidle⟩ := h
  exact ⟨step_inv hw hstep, doomed_step hw hd hstep, waiting_step hw hd ht hidle hstep⟩

/-! ## The way out -/

/-- How many statements a thread is away from the end of its section, at most. -/
def rank : Pc → Nat
  | .stdoutLock .. => 7
  | .stdoutUnlock .. => 6
  | .fileLock .. | .closeFile => 5
  | .writeHeading .. | .reopenFile => 4
  | .writeText .. | .reopenDump _ | .openDump _ => 3
  | .writeNewline .. | .openUnlock | .reopenUnlock => 2
  | .fileUnlock _ => 1
  | _ => 0

/-- A thread has come nearer to the end of its section, or the main thread is at the end. -/
structure Nearer (c : Setup T) (w v : Log T) (t : T) (p : Pc) : Prop where
  pc : v.pc = Function.update w.pc t p
  doomed : ¬ Doomed c p
  owner : v.mutex.owner = none ∨ v.mutex.owner = some t
  rank : rank p < rank (w.pc t) ∨ t = c.main ∧ v.mutex.owner = none

theorem nearer_unlock {p : Pc} (howner : w.mutex.owner = some t)
    (hrank : rank p < rank (w.pc t) ∨ t = c.main) (hd : ¬ Doomed c p) :
    ∃ v, w.unlock t p = some v ∧ Nearer c w v t p := by
  refine ⟨{ w with mutex := .free }.goto t p, ?_, rfl, hd, .inl rfl, hrank.imp_right (⟨·, rfl⟩)⟩
  rw [unlock, Sync.Mutex.unlock, if_pos howner]
  rfl

/-- The file gets its start, and the mutex stays. -/
theorem nearer_dump {p : Pc} (f : Nat) (howner : w.mutex.owner = some t)
    (hrank : rank p < rank (w.pc t)) (hd : ¬ Doomed c p) :
    Nearer c w ((w.dump f).goto t p) t p := by
  obtain ⟨hmutex, hpc, -⟩ := w.dump_frame f
  refine ⟨?_, hd, .inr ?_, .inl hrank⟩
  · change Function.update (w.dump f).pc t p = _
    rw [hpc]
  · change (w.dump f).mutex.owner = _
    rw [hmutex, howner]

theorem ne_idle_of_nested {after : After} (h : after.Nested) : after ≠ .idle := by
  rintro rfl
  exact h

theorem padded_ne_nil (m : Message) : m.padded ≠ [] := by
  intro h
  have hlen := congrArg List.length h
  simp only [Message.padded, List.length_append, List.length_replicate, List.length_nil] at hlen
  omega

/-- The thread that holds the mutex can go on. -/
theorem owner_nearer (hw : Inv c w) (hd : ¬ Doomed c (w.pc c.main))
    (howner : w.mutex.owner = some t) :
    ∃ e v p, Goes e ∧ stepRunning c w e = some v ∧ Nearer c w v t p := by
  have hin : Inside (w.pc t) := hw.holder t howner
  have hmain : MainOnly (w.pc t) → t = c.main := hw.main t
  obtain ⟨part, hbooks, hpart, -⟩ := hw.books
  have hpart := hpart t
  -- a statement of the thread itself
  have hgo : ∀ v p, exec c w t = some v → Nearer c w v t p →
      ∃ e v p, Goes e ∧ stepRunning c w e = some v ∧ Nearer c w v t p :=
    fun v p hexec hv => ⟨.step t, v, p, trivial, hexec, hv⟩
  cases hpc : w.pc t <;> rw [hpc] at hin hmain hpart <;> try exact hin.elim
  case stdoutLock m after =>
    obtain rfl := hmain (ne_idle_of_nested hin)
    rw [hpc] at hd
    exact absurd hin hd
  case stdoutUnlock m after =>
    obtain ⟨v, hv, hnear⟩ := nearer_unlock (c := c) (p := .fileLock m after) howner
      (.inl (by simp [hpc, rank])) hpart.1
    exact hgo v _ (by rw [exec, hpc]; exact hv) hnear
  case fileLock m after =>
    obtain rfl := hmain (ne_idle_of_nested hin)
    rw [hpc] at hd
    exact absurd hin hd
  case writeHeading m after =>
    cases hfd : w.logfd with
    | some f =>
      refine hgo _ (.writeText m after) (by rw [exec, hpc]; simp only [hfd]; rfl) ?_
      exact ⟨rfl, id, .inr howner, .inl (by simp [hpc, rank])⟩
    | none =>
      cases hs : w.startBuf with
      | some s =>
        refine hgo _ (.fileUnlock after) (by rw [exec, hpc]; simp only [hfd, hs]; rfl) ?_
        exact ⟨rfl, id, .inr howner, .inl (by simp [hpc, rank])⟩
      | none =>
        refine hgo _ (.fileUnlock after) (by rw [exec, hpc]; simp only [hfd, hs]; rfl) ?_
        exact ⟨rfl, id, .inr howner, .inl (by simp [hpc, rank])⟩
  case writeText m after =>
    obtain ⟨-, rfl⟩ := hpart
    obtain ⟨f, hfd⟩ := Option.ne_none_iff_exists'.mp (hbooks.begun (padded_ne_nil m))
    refine hgo _ (.writeNewline m after) (by rw [exec, hpc]; simp only [hfd]; rfl) ?_
    exact ⟨rfl, id, .inr howner, .inl (by simp [hpc, rank])⟩
  case writeNewline m after =>
    obtain ⟨-, rfl⟩ := hpart
    obtain ⟨f, hfd⟩ := Option.ne_none_iff_exists'.mp
      (hbooks.begun (List.append_ne_nil_of_left_ne_nil (padded_ne_nil m) _))
    refine hgo _ (.fileUnlock after) (by rw [exec, hpc]; simp only [hfd]; rfl) ?_
    exact ⟨rfl, id, .inr howner, .inl (by simp [hpc, rank])⟩
  case fileUnlock after =>
    have hafter : rank after.pc = 0 ∧ ¬ Doomed c after.pc := by
      cases after with
      | idle | exit => exact ⟨rfl, id⟩
      | reopenExit | reopenUnlock => exact absurd trivial hpart.1
    obtain ⟨v, hv, hnear⟩ := nearer_unlock (c := c) (p := after.pc) howner
      (.inl (by rw [hafter.1, hpc]; exact Nat.one_pos)) hafter.2
    exact hgo v _ (by rw [exec, hpc]; exact hv) hnear
  case openDump f =>
    refine hgo _ .openUnlock (by rw [exec, hpc]) ?_
    exact nearer_dump f howner (by simp [hpc, rank]) id
  case openUnlock =>
    have hpd : ¬ Doomed c (if c.debug then printPc c c.opened .idle else .idle) := by
      unfold printPc
      split
      · split <;> exact id
      · exact id
    obtain ⟨v, hv, hnear⟩ := nearer_unlock (c := c) howner (.inr (hmain trivial)) hpd
    exact hgo v _ (by rw [exec, hpc]; exact hv) hnear
  case closeFile =>
    obtain rfl := hmain trivial
    rw [hpc] at hd
    refine hgo _ .reopenFile (by rw [exec, hpc]) ?_
    exact ⟨rfl, hd, .inr howner, .inl (by simp [hpc, rank])⟩
  case reopenFile =>
    obtain rfl := hmain trivial
    rw [hpc] at hd
    obtain ⟨hmutex, hfopen, -⟩ := w.fopen_frame
    refine ⟨.fopen true, w.fopen.2.goto c.main (.reopenDump w.fopen.1), .reopenDump w.fopen.1,
      trivial, ?_, ?_, hd, .inr ?_, .inl ?_⟩
    · simp only [stepRunning, hpc]
      rfl
    · change Function.update w.fopen.2.pc _ _ = _
      rw [hfopen]
    · change w.fopen.2.mutex.owner = _
      rw [hmutex, howner]
    · simp [hpc, rank]
  case reopenDump f =>
    obtain rfl := hmain trivial
    rw [hpc] at hd
    have hdebug : c.debug = false := Bool.eq_false_iff.mpr hd
    refine hgo ((w.dump f).goto c.main .reopenUnlock) .reopenUnlock ?_ ?_
    · rw [exec, hpc]
      simp only [hdebug, if_false, Bool.false_eq_true]
    · exact nearer_dump f howner (by simp [hpc, rank]) id
  case reopenUnlock =>
    obtain ⟨v, hv, hnear⟩ := nearer_unlock (c := c) (p := .idle) howner
      (.inl (by simp [hpc, rank])) id
    exact hgo v _ (by rw [exec, hpc]; exact hv) hnear

/-- A thread that waits takes the mutex when it is free. -/
theorem free_nearer (hw : Inv c w) (ht : t ≠ c.main) (hidle : w.pc t ≠ .idle)
    (hfree : w.mutex.owner = none) :
    ∃ e v p, Goes e ∧ stepRunning c w e = some v ∧ Nearer c w v t p := by
  have hlock : ∀ p, w.lock t p = some ({ w with mutex := ⟨some t⟩ }.goto t p) := by
    intro p
    rw [lock, Sync.Mutex.lock, if_pos hfree]
    rfl
  have hin : ¬ Inside (w.pc t) := fun h => absurd (hfree.symm.trans (hw.guards t h)) nofun
  obtain ⟨m, hpc | hpc⟩ := waits_of_outside (fun h => ht (hw.main t h)) hin hidle
  · refine ⟨.step t, _, .stdoutUnlock m .idle, trivial,
      by rw [stepRunning, exec, hpc]; exact hlock _, ?_⟩
    exact ⟨rfl, id, .inr rfl, .inl (by simp [hpc, rank])⟩
  · refine ⟨.step t, _, .writeHeading m .idle, trivial,
      by rw [stepRunning, exec, hpc]; exact hlock _, ?_⟩
    exact ⟨rfl, id, .inr rfl, .inl (by simp [hpc, rank])⟩

/-- How far a thread is from the end of `print`: the holder of the mutex comes first. -/
def distance (t : T) (w : Log T) : Nat :=
  rank (w.pc t) +
    match w.mutex.owner with
    | some u => if u = t then 0 else 8 + rank (w.pc u)
    | none => 0

/-- The holder of the mutex, or the thread itself, brings its end nearer. -/
theorem distance_lt {u : T} {p : Pc} (h : Nearer c w v u p) (ht : t ≠ c.main)
    (hu : w.mutex.owner = some u ∨ u = t ∧ w.mutex.owner = none) :
    distance t v < distance t w := by
  have hv : v.pc u = p := by rw [h.pc, Function.update_self]
  by_cases hut : u = t
  · subst hut
    have hlt : rank p < rank (w.pc u) := h.rank.resolve_right fun hm => ht hm.1
    have hw0 : distance u w = rank (w.pc u) := by
      rcases hu with hu | ⟨-, hu⟩ <;> simp [distance, hu]
    have hv0 : distance u v = rank p := by
      rcases h.owner with ho | ho <;> simp [distance, ho, hv]
    rwa [hw0, hv0]
  · have hpc : v.pc t = w.pc t := by rw [h.pc, Function.update_of_ne (Ne.symm hut)]
    have hu : w.mutex.owner = some u := hu.resolve_right fun hn => hut hn.1
    have hw0 : distance t w = rank (w.pc t) + (8 + rank (w.pc u)) := by simp [distance, hu, hut]
    rcases h.owner with ho | ho
    · have hv0 : distance t v = rank (w.pc t) := by simp [distance, ho, hpc]
      omega
    · have hlt : rank p < rank (w.pc u) :=
        h.rank.resolve_right fun hm => absurd (ho.symm.trans hm.2) nofun
      have hv0 : distance t v = rank (w.pc t) + (8 + rank p) := by simp [distance, ho, hut, hv, hpc]
      omega

/-- **Who can print.**  A call of `print` by a thread that is not the main thread can return, or
the process can end, exactly if the main thread does not wait for itself. -/
theorem canPrint_iff {es : List (Event T)} (hrun : (machine c).run (initial : Log T) es = some w)
    (ht : t ≠ c.main) (hidle : w.pc t ≠ .idle) :
    (machine c).CanReach Goes (fun v => v.pc t = .idle ∨ v.pc c.main = .exited) w ↔
      ¬ Doomed c (w.pc c.main) := by
  have hw := run_inv hrun
  constructor
  · rintro ⟨fs, v, hrun', -, hv⟩ hd
    have hstuck : Stuck c t v := EventMachine.Machine.run_induction hrun' ⟨hw, hd, hidle⟩
      fun _ _ _ => stuck_step ht
    obtain ⟨-, hd, hidle⟩ := hstuck
    rcases hv with hv | hv
    · exact hidle hv
    · rw [hv] at hd
      exact hd
  · intro hd
    refine EventMachine.Machine.canReach_of_rank
      (I := fun w => Inv c w ∧ ¬ Doomed c (w.pc c.main)) (distance t) ?_ ⟨hw, hd⟩
    rintro w ⟨hw, hd⟩ hnot
    obtain ⟨hidle, hexit⟩ := not_or.mp hnot
    have hnear : ∃ u, (w.mutex.owner = some u ∨ u = t ∧ w.mutex.owner = none) ∧
        ∃ e v p, Goes e ∧ stepRunning c w e = some v ∧ Nearer c w v u p := by
      cases ho : w.mutex.owner with
      | some u => exact ⟨u, .inl rfl, owner_nearer hw hd ho⟩
      | none => exact ⟨t, .inr ⟨rfl, rfl⟩, free_nearer hw ht hidle ho⟩
    obtain ⟨u, hu, e, v, p, hgoes, hrunning, hnear⟩ := hnear
    have hstep : step c w e = some v := by
      unfold step
      split
      · rename_i hpc
        exact absurd hpc hexit
      · exact hrunning
    refine .once hgoes hstep ⟨⟨step_inv hw hstep, ?_⟩, distance_lt hnear ht hu⟩
    rw [hnear.pc]
    by_cases hm : c.main = u
    · rw [hm, Function.update_self]
      exact hnear.doomed
    · rwa [Function.update_of_ne hm]

/-- With the verbosity of `log_debug`, `SIGUSR1` is the end: the log file is closed, and a
thread that prints now waits for ever. -/
theorem canPrint_iff_debug :
    let m : Message := ⟨[], ['a'], by simp, by simp⟩
    let c : Setup Bool := ⟨true, true, true, true, m, m⟩
    ∃ es w, (machine c).run initial es = some w ∧ w.logfd = none ∧
      ¬ (machine c).CanReach Goes (fun v => v.pc false = .idle ∨ v.pc true = .exited) w := by
  intro m c
  have hex : ∃ w, (machine c).run initial ([.openLogfile true] ++ .replicate 8 (.step true) ++
      [.reopen] ++ .replicate 2 (.step true) ++ [.print false m]) = some w ∧
      w.logfd = none ∧ w.pc false ≠ .idle ∧ w.pc true = .reopenFile :=
    EventMachine.Machine.exists_run_of_any (by decide)
  obtain ⟨w, hrun, hfd, hidle, hpc⟩ := hex
  refine ⟨_, w, hrun, hfd, fun hcan => ?_⟩
  have hdoomed := (canPrint_iff (t := false) hrun nofun hidle).mp hcan
  change ¬ Doomed c (w.pc true) at hdoomed
  rw [hpc] at hdoomed
  exact hdoomed rfl

end VzLogger.Log
