import VzLogger.Log.Model

/-! # What the log files hold

The lines of two threads are never mixed, since each is written under `m_log`.  The files,
one behind the other, hold all messages in order exactly if every message that came before
the file was opened fits into the buffer of `print` with its newline and a terminating zero.
-/
namespace VzLogger.Log

/-! ## The start buffer -/

theorem cStr_append {s t : List Char} (h : '\x00' ∉ s) :
    CString.cStr (s ++ t) = s ++ CString.cStr t := by
  unfold CString.cStr
  rw [List.takeWhile_append_of_pos]
  intro c hc
  simpa using ne_of_mem_of_not_mem hc h

namespace Message

theorem padded_ne (m : Message) : '\x00' ∉ m.padded := by
  unfold padded
  simp [m.heading_ne]

theorem line_ne (m : Message) : '\x00' ∉ m.line := by
  unfold line
  simp [m.padded_ne, m.text_ne]

theorem startLine_of_fits {m : Message} (h : m.Fits) : m.startLine = m.line :=
  if_pos (Nat.lt_succ_of_le h)

/-- Of a message that does not fit, a part of its line is left, and nothing of the rest. -/
theorem cStr_startLine {m : Message} (h : ¬ m.Fits) (rest : List Char) :
    CString.cStr (m.startLine ++ rest) = (m.padded ++ m.text).take 499 := by
  have hlen : 499 ≤ (m.padded ++ m.text).length := Nat.lt_of_not_le h
  have hne : '\x00' ∉ (m.padded ++ m.text).take 499 := fun hmem => by
    have := List.mem_of_mem_take hmem
    simp [m.padded_ne, m.text_ne] at this
  rw [startLine, if_neg (Nat.not_lt.mpr hlen), List.append_assoc, cStr_append hne]
  simp [CString.cStr]

end Message

/-- The start of the log, as `openLogfile` writes it, is complete exactly if every message
fits. -/
theorem cStr_startLines_iff (ms : List Message) :
    CString.cStr (ms.flatMap Message.startLine) = ms.flatMap Message.line ↔ ∀ m ∈ ms, m.Fits := by
  induction ms with
  | nil => simp [CString.cStr]
  | cons m ms ih =>
    rw [List.flatMap_cons, List.flatMap_cons, List.forall_mem_cons, ← ih]
    by_cases hm : m.Fits
    · rw [Message.startLine_of_fits hm, cStr_append m.line_ne, List.append_cancel_left_eq]
      exact (and_iff_right hm).symm
    · have hcut := Message.cStr_startLine hm (ms.flatMap Message.startLine)
      constructor
      · intro h
        -- what is left is shorter than the line of this message alone
        have hlen := congrArg List.length (h.symm.trans hcut)
        rw [Message.line, List.length_append, List.length_append, List.length_singleton] at hlen
        have hle := List.length_take_le' 499 (m.padded ++ m.text)
        omega
      · rintro ⟨h, -⟩
        exact absurd h hm

/-! ## The invariant -/

/-- `print` is called with the mutex held. -/
def After.Nested : After → Prop
  | .reopenExit | .reopenUnlock => True
  | .idle | .exit => False

/-- Statements under `m_log`.  In `openLogfile`, called with the mutex held, `print` waits for
it in vain. -/
def Inside : Pc → Prop
  | .stdoutLock _ after | .fileLock _ after => after.Nested
  | .stdoutUnlock .. | .writeHeading .. | .writeText .. | .writeNewline .. | .fileUnlock .. => True
  | .openDump .. | .openUnlock | .closeFile | .reopenFile | .reopenDump .. | .reopenUnlock => True
  | _ => False

/-- What a thread under `m_log` knows about the line that is not complete yet. -/
def Part (part : List Char) : Pc → Prop
  | .stdoutLock _ after | .fileLock _ after => after.Nested → part = []
  | .stdoutUnlock _ after | .writeHeading _ after => ¬ after.Nested ∧ part = []
  | .writeText m after => ¬ after.Nested ∧ part = m.padded
  | .writeNewline m after => ¬ after.Nested ∧ part = m.padded ++ m.text
  | .fileUnlock after => ¬ after.Nested ∧ part = []
  | .openDump .. | .openUnlock | .closeFile | .reopenFile | .reopenDump .. | .reopenUnlock =>
    part = []
  | _ => True

/-- The file that a thread has opened. -/
def opens : Pc → Option Nat
  | .openLock f | .openDump f | .reopenDump f => some f
  | _ => none

/-- Statements with the log file closed. -/
def Closed : Pc → Prop
  | .reopenFile | .reopenDump _ => True
  | _ => False

/-- Statements of the main loop on `SIGUSR1`. -/
def Reopening : Pc → Prop
  | .reopenLock | .closeFile | .reopenFile | .reopenDump _ => True
  | _ => False

/-- Statements of the main thread with the log file closed, or in vain. -/
def Shut : Pc → Prop
  | .reopenFile | .reopenDump _ => True
  | .stdoutLock _ after | .fileLock _ after => after.Nested
  | _ => False

/-- Statements of the main thread alone. -/
def MainOnly : Pc → Prop
  | .idle => False
  | .stdoutLock _ after | .stdoutUnlock _ after | .fileLock _ after => after ≠ .idle
  | .writeHeading _ after | .writeText _ after | .writeNewline _ after => after ≠ .idle
  | .fileUnlock after => after ≠ .idle
  | _ => True

variable {T : Type}

/-- The data that the threads share, with the beginning of the line that is being written. -/
structure Books (w : Log T) (part : List Char) : Prop where
  path : ∀ f, w.path = some f → f + 1 = w.files.length
  logfd : ∀ f, w.logfd = some f → f + 1 = w.files.length
  start : ∀ s, w.startBuf = some s → w.logfd = none ∧ s = w.early.flatMap Message.startLine ∧
    w.files.flatten = [] ∧ w.late = [] ∧ part = []
  content : w.startBuf = none → w.files.flatten =
    CString.cStr (w.early.flatMap Message.startLine) ++ (w.late.flatMap Message.line ++ part)
  begun : part ≠ [] → w.logfd ≠ none

structure Inv (c : Setup T) (w : Log T) : Prop where
  guards : Sync.Guards Inside w.mutex.owner w.pc
  holder : ∀ t, w.mutex.owner = some t → Inside (w.pc t)
  main : ∀ t, MainOnly (w.pc t) → t = c.main
  opening : ∀ t f, opens (w.pc t) = some f → f + 1 = w.files.length
  closed : ∀ t, Closed (w.pc t) → w.logfd = none
  reopening : ∀ t, Reopening (w.pc t) → w.startBuf = none
  shut : c.logfile = true → w.startBuf = none → w.logfd = none →
    w.mutex.owner = some c.main ∧ Shut (w.pc c.main)
  lost : c.logfile = true → w.lost = []
  books : ∃ part, Books w part ∧ (∀ t, Part part (w.pc t)) ∧ (w.mutex.owner = none → part = [])

theorem part_of_outside (part : List Char) (p : Pc) (h : ¬ Inside p) : Part part p := by
  cases p <;> first | trivial | exact absurd trivial h | exact fun ha => absurd ha h

theorem mainOnly_of_opens {p : Pc} {f : Nat} (h : opens p = some f) : MainOnly p := by
  cases p <;> trivial

theorem mainOnly_of_reopening {p : Pc} (h : Reopening p) : MainOnly p := by
  cases p <;> trivial

theorem reopening_of_closed {p : Pc} (h : Closed p) : Reopening p := by
  cases p <;> trivial

theorem inv_initial (c : Setup T) : Inv c (initial : Log T) where
  guards _ h := h.elim
  holder := nofun
  main _ h := h.elim
  opening _ _ h := by cases h
  closed _ h := h.elim
  reopening _ h := h.elim
  shut := nofun
  lost _ := rfl
  books := ⟨[], ⟨nofun, nofun, fun _ h => by cases h; exact ⟨rfl, rfl, rfl, rfl, rfl⟩, nofun,
      fun h => absurd rfl h⟩,
    fun _ => trivial, fun _ => rfl⟩

/-! ## What happens to the data -/

section Data
variable {w : Log T} {part s : List Char} {f : Nat}

theorem flatten_modify {files : List (List Char)} (h : f + 1 = files.length) :
    (files.modify f (· ++ s)).flatten = files.flatten ++ s := by
  induction files generalizing f with
  | nil => cases h
  | cons a files ih =>
    cases f with
    | zero =>
      obtain rfl : files = [] := List.eq_nil_of_length_eq_zero (by simpa using h.symm)
      simp
    | succ f =>
      rw [List.modify_succ_cons, List.flatten_cons, List.flatten_cons, List.append_assoc,
        ih (Nat.succ.inj h)]

/-- The log file is open only if the start buffer is gone. -/
theorem Books.startBuf_none (h : Books w part) (hfd : w.logfd = some f) : w.startBuf = none := by
  cases hs : w.startBuf with
  | none => rfl
  | some s =>
    have hnone := (h.start s hs).1
    rw [hfd] at hnone
    cases hnone

/-- Where the threads are does not matter for the data. -/
theorem Books.move (h : Books w part) (mutex : Sync.Mutex T) (pc : T → Pc) (lost : List Message) :
    Books { w with mutex, pc, lost } part := ⟨h.path, h.logfd, h.start, h.content, h.begun⟩

/-- A part of a line is written. -/
theorem Books.append (h : Books w part) (hfd : w.logfd = some f) :
    Books (w.append f s) (part ++ s) := by
  have hnone := h.startBuf_none hfd
  have hlen : (w.append f s).files.length = w.files.length := List.length_modify ..
  refine ⟨?_, ?_, ?_, ?_, fun _ h => absurd (hfd.symm.trans h) nofun⟩
  · intro g hg
    rw [hlen]
    exact h.path g hg
  · intro g hg
    rw [hlen]
    exact h.logfd g hg
  · intro s hs
    exact absurd (hnone.symm.trans hs) nofun
  · intro _
    change (w.files.modify f (· ++ s)).flatten = _
    rw [flatten_modify (h.logfd f hfd), h.content hnone]
    simp only [Log.append, List.append_assoc]

/-- The line is complete. -/
theorem Books.late {m : Message} (h : Books w m.line) :
    w.startBuf = none → Books { w with late := w.late ++ [m] } [] := by
  intro hnone
  refine ⟨h.path, h.logfd, fun s hs => absurd (hnone.symm.trans hs) nofun, fun _ => ?_,
    fun h => absurd rfl h⟩
  rw [h.content hnone]
  simp

/-- A message goes into the start buffer. -/
theorem Books.sputn {m : Message} (h : Books w part) (hs : w.startBuf = some s) :
    Books { w with startBuf := some (s ++ m.startLine), early := w.early ++ [m] } part := by
  obtain ⟨hfd, rfl, hfiles, hlate, hpart⟩ := h.start s hs
  refine ⟨h.path, h.logfd, ?_, nofun, h.begun⟩
  rintro _ ⟨rfl⟩
  exact ⟨hfd, by simp, hfiles, hlate, hpart⟩

theorem fopen_frame (w : Log T) : w.fopen.2.mutex = w.mutex ∧ w.fopen.2.pc = w.pc ∧
    w.fopen.2.logfd = w.logfd ∧ w.fopen.2.startBuf = w.startBuf ∧ w.fopen.2.lost = w.lost := by
  unfold Log.fopen
  split <;> exact ⟨rfl, rfl, rfl, rfl, rfl⟩

theorem dump_frame (w : Log T) (f : Nat) : (w.dump f).mutex = w.mutex ∧ (w.dump f).pc = w.pc ∧
    (w.dump f).files.length = w.files.length ∧ (w.dump f).startBuf = none ∧
    (w.dump f).logfd = some f ∧ (w.dump f).lost = w.lost := by
  unfold Log.dump
  cases hs : w.startBuf with
  | none => exact ⟨rfl, rfl, rfl, rfl, rfl, rfl⟩
  | some s => exact ⟨rfl, rfl, List.length_modify .., rfl, rfl, rfl⟩

/-- A file is opened while there is no log file. -/
theorem Books.fopen (h : Books w part) (hfd : w.logfd = none) :
    Books w.fopen.2 part ∧ w.fopen.1 + 1 = w.fopen.2.files.length := by
  unfold Log.fopen
  cases hp : w.path with
  | some f => exact ⟨h, h.path f hp⟩
  | none =>
    refine ⟨⟨?_, ?_, ?_, ?_, h.begun⟩, by simp⟩
    · rintro f ⟨rfl⟩
      simp
    · intro f hf
      exact absurd (hfd.symm.trans hf) nofun
    · intro s hs
      obtain ⟨hnone, hs, hfiles, hlate, hpart⟩ := h.start s hs
      exact ⟨hnone, hs, by simpa using hfiles, hlate, hpart⟩
    · intro hs
      simpa using h.content hs

/-- The file becomes the log file, with the contents of the start buffer. -/
theorem Books.dump (h : Books w part) (hf : f + 1 = w.files.length) : Books (w.dump f) part := by
  unfold Log.dump
  cases hs : w.startBuf with
  | none =>
    refine ⟨h.path, ?_, nofun, fun _ => h.content hs, nofun⟩
    rintro _ ⟨rfl⟩
    exact hf
  | some s =>
    obtain ⟨-, rfl, hfiles, hlate, hpart⟩ := h.start s hs
    have hlen : ∀ s, (w.append f s).files.length = w.files.length := fun _ => List.length_modify ..
    refine ⟨?_, ?_, nofun, fun _ => ?_, nofun⟩
    · intro g hg
      rw [hlen]
      exact h.path g hg
    · rintro _ ⟨rfl⟩
      rw [hlen]
      exact hf
    · change (w.files.modify f (· ++ CString.cStr _)).flatten = _
      rw [flatten_modify hf, hfiles]
      simp [Log.append, hlate, hpart]

end Data

/-! ## The moves -/

section Step
variable [DecidableEq T] {c : Setup T} {w v : Log T} {t : T} {p : Pc}

/-- One thread moves on.  Only the main thread opens and closes files; what the others know
of the line begun changes only if the thread holds the mutex. -/
structure Moves (c : Setup T) (w v : Log T) (t : T) (p : Pc) : Prop where
  pc : v.pc = Function.update w.pc t p
  owner : v.mutex.owner = w.mutex.owner ∨
    w.mutex.owner = none ∧ v.mutex.owner = some t ∨ w.mutex.owner = some t ∧ v.mutex.owner = none
  inside : Inside p ↔ v.mutex.owner = some t
  main : MainOnly p → t = c.main
  length : v.files.length = w.files.length ∨ t = c.main
  opens : ∀ f, Log.opens p = some f → f + 1 = v.files.length
  logfd : v.logfd = w.logfd ∨ t = c.main
  closed : Closed p → v.logfd = none
  startBuf : w.startBuf = none → v.startBuf = none
  reopening : Reopening p → v.startBuf = none
  shut : v.startBuf = none → v.logfd = none →
    w.startBuf = none ∧ w.logfd = none ∧
      (Shut (w.pc t) → w.mutex.owner = some t → v.mutex.owner = some t ∧ Shut p) ∨
    t = c.main ∧ v.mutex.owner = some t ∧ Shut p
  lost : c.logfile = true → v.lost = w.lost
  books : ∀ part, Books w part → Part part (w.pc t) → (w.mutex.owner = none → part = []) →
    ∃ part', Books v part' ∧ Part part' p ∧ (v.mutex.owner = none → part' = []) ∧
      (part' = part ∨ w.mutex.owner = some t)

theorem Moves.inv (h : Moves c w v t p) (hw : Inv c w) : Inv c v := by
  obtain ⟨part, hbooks, hpart, hfree⟩ := hw.books
  obtain ⟨part', hbooks', hp, hfree', hsame⟩ := h.books part hbooks (hpart t) hfree
  have hcases : ∀ u, v.pc u = p ∧ u = t ∨ v.pc u = w.pc u ∧ u ≠ t := by
    intro u
    rw [h.pc]
    by_cases hu : u = t
    · exact .inl ⟨by rw [hu, Function.update_self], hu⟩
    · exact .inr ⟨Function.update_of_ne hu _ _, hu⟩
  -- a thread other than `t` that is at a statement of the main thread is the main thread
  have hother : ∀ u, u ≠ t → MainOnly (w.pc u) → t ≠ c.main :=
    fun u hu hm ht => hu ((hw.main u hm).trans ht.symm)
  refine ⟨?_, ?_, ?_, ?_, ?_, ?_, ?_, ?_, part', hbooks', ?_, hfree'⟩
  · rw [h.pc]
    exact hw.guards.update (h.owner.imp_right (Or.imp And.left And.left)) h.inside.mp
  · intro u hu
    rcases hcases u with ⟨hpc, rfl⟩ | ⟨hpc, hne⟩
    · rw [hpc]
      exact h.inside.mpr hu
    · rw [hpc]
      rcases h.owner with ho | ⟨-, ho⟩ | ⟨-, ho⟩
      · exact hw.holder u (ho.symm.trans hu)
      · exact absurd (Option.some.inj (hu.symm.trans ho)) hne
      · exact absurd (hu.symm.trans ho) nofun
  · intro u hu
    rcases hcases u with ⟨hpc, rfl⟩ | ⟨hpc, -⟩
    · exact h.main (hpc ▸ hu)
    · exact hw.main u (hpc ▸ hu)
  · intro u f hu
    rcases hcases u with ⟨hpc, rfl⟩ | ⟨hpc, hne⟩
    · exact h.opens f (hpc ▸ hu)
    · rw [hpc] at hu
      rw [h.length.resolve_right (hother u hne (mainOnly_of_opens hu))]
      exact hw.opening u f hu
  · intro u hu
    rcases hcases u with ⟨hpc, rfl⟩ | ⟨hpc, hne⟩
    · exact h.closed (hpc ▸ hu)
    · rw [hpc] at hu
      rw [h.logfd.resolve_right (hother u hne (mainOnly_of_reopening (reopening_of_closed hu)))]
      exact hw.closed u hu
  · intro u hu
    rcases hcases u with ⟨hpc, rfl⟩ | ⟨hpc, -⟩
    · exact h.reopening (hpc ▸ hu)
    · exact h.startBuf (hw.reopening u (hpc ▸ hu))
  · intro hlog hstart hfd
    rcases h.shut hstart hfd with ⟨hstart, hfd, hkeep⟩ | ⟨rfl, howner, hp⟩
    · obtain ⟨howner, hshut⟩ := hw.shut hlog hstart hfd
      rcases hcases c.main with ⟨hpc, ht⟩ | ⟨hpc, hne⟩
      · rw [ht] at hshut howner ⊢
        rw [← ht, hpc, ht]
        exact hkeep hshut howner
      · rw [hpc]
        refine ⟨?_, hshut⟩
        rcases h.owner with ho | ⟨ho, -⟩ | ⟨ho, -⟩
        · exact ho.trans howner
        · exact absurd (ho.symm.trans howner) nofun
        · exact absurd (Option.some.inj (howner.symm.trans ho)) hne
    · rw [h.pc, Function.update_self]
      exact ⟨howner, hp⟩
  · intro hlog
    rw [h.lost hlog]
    exact hw.lost hlog
  · rw [h.pc]
    exact hw.guards.forall_update part_of_outside hpart hsame hp


/-- A thread moves out of the critical section, or outside of it. -/
theorem Moves.of_outside {mutex : Sync.Mutex T} (hin : ¬ Inside p) (hmain : MainOnly p → t = c.main)
    (hopens : Log.opens p = none) (hreopening : ¬ Reopening p)
    (howner : mutex = w.mutex ∧ w.mutex.owner ≠ some t ∨
      w.mutex.owner = some t ∧ mutex.owner = none)
    (hpart : ∀ part, Part part (w.pc t) → mutex.owner = none →
      (w.mutex.owner = none → part = []) → part = []) (hshut : ¬ Shut (w.pc t)) :
    Moves c w ({ w with mutex }.goto t p) t p where
  pc := rfl
  owner := by
    rcases howner with ⟨rfl, -⟩ | ⟨ho, ho'⟩
    · exact .inl rfl
    · exact .inr (.inr ⟨ho, ho'⟩)
  inside := by
    refine iff_of_false hin fun h => ?_
    rcases howner with ⟨rfl, hne⟩ | ⟨-, ho'⟩
    · exact hne h
    · exact absurd (ho'.symm.trans h) nofun
  main := hmain
  length := .inl rfl
  opens f hf := absurd (hopens.symm.trans hf) nofun
  logfd := .inl rfl
  closed h := absurd (reopening_of_closed h) hreopening
  startBuf h := h
  reopening h := absurd h hreopening
  shut hstart hfd := .inl ⟨hstart, hfd, fun h => absurd h hshut⟩
  lost _ := rfl
  books part hb hp hfree :=
    ⟨part, hb.move .., part_of_outside part p hin, fun h => hpart part hp h hfree, .inl rfl⟩

omit [DecidableEq T] in
/-- The start of `print`. -/
theorem printPc_outside (m : Message) (after : After) :
    (Inside (printPc c m after) ↔ after.Nested) ∧ (MainOnly (printPc c m after) ↔ after ≠ .idle) ∧
      Log.opens (printPc c m after) = none ∧ ¬ Reopening (printPc c m after) := by
  unfold printPc
  split <;> exact ⟨Iff.rfl, Iff.rfl, rfl, id⟩

/-- A thread calls `print` without the mutex. -/
theorem moves_print (m : Message) (after : After) (hw : Inv c w) (hin : ¬ Inside (w.pc t))
    (hshut : ¬ Shut (w.pc t)) (hafter : ¬ after.Nested) (hmain : after ≠ .idle → t = c.main) :
    Moves c w (w.goto t (printPc c m after)) t (printPc c m after) := by
  obtain ⟨hin', hmain', hopens, hreopening⟩ := printPc_outside (c := c) m after
  exact .of_outside (fun h => hafter (hin'.mp h)) (fun h => hmain (hmain'.mp h)) hopens hreopening
    (.inl ⟨rfl, fun ho => hin (hw.holder t ho)⟩) (fun _ _ h hfree => hfree h) hshut

/-- A thread takes the mutex. -/
theorem moves_lock (hlock : w.lock t p = some v) (hin : Inside p) (hmain : MainOnly p → t = c.main)
    (hopens : ∀ f, opens p = some f → f + 1 = w.files.length) (hclosed : ¬ Closed p)
    (hreopening : Reopening p → w.startBuf = none) (hpart : Part [] p) : Moves c w v t p := by
  unfold lock at hlock
  obtain ⟨mutex, hmutex, rfl⟩ := Option.map_eq_some_iff.mp hlock
  obtain ⟨hfree, rfl⟩ := Sync.Mutex.lock_eq_some.mp hmutex
  refine ⟨rfl, .inr (.inl ⟨hfree, rfl⟩), iff_of_true hin rfl, hmain, .inl rfl, hopens, .inl rfl,
    fun h => absurd h hclosed, id, hreopening, fun hstart hfd => .inl ⟨hstart, hfd, ?_⟩,
    fun _ => rfl, ?_⟩
  · intro _ ho
    exact absurd (hfree.symm.trans ho) nofun
  · intro part hb _ hpartfree
    obtain rfl := hpartfree hfree
    exact ⟨[], hb.move .., hpart, fun _ => rfl, .inl rfl⟩

/-- A thread gives the mutex up, with no line begun. -/
theorem moves_unlock (hunlock : w.unlock t p = some v) (hin : ¬ Inside p)
    (hmain : MainOnly p → t = c.main) (hopens : Log.opens p = none) (hreopening : ¬ Reopening p)
    (hshut : ¬ Shut (w.pc t)) (hpart : ∀ part, Part part (w.pc t) → part = []) :
    Moves c w v t p := by
  unfold unlock Sync.Mutex.unlock at hunlock
  obtain ⟨mutex, hmutex, rfl⟩ := Option.map_eq_some_iff.mp hunlock
  split at hmutex
  · rename_i howner
    obtain rfl := Option.some.inj hmutex
    exact .of_outside hin hmain hopens hreopening (.inr ⟨howner, rfl⟩)
      (fun part hp _ _ => hpart part hp) hshut
  · cases hmutex

/-- The thread that holds the mutex moves on. -/
theorem Moves.of_owner (howner : w.mutex.owner = some t) (hpc : v.pc = Function.update w.pc t p)
    (hmutex : v.mutex = w.mutex) (hin : Inside p) (hmain : MainOnly p → t = c.main)
    (hlength : v.files.length = w.files.length) (hlogfd : v.logfd = w.logfd ∨ t = c.main)
    (hopens : Log.opens p = none) (hclosed : Closed p → v.logfd = none)
    (hstart : w.startBuf = none → v.startBuf = none) (hreopening : Reopening p → v.startBuf = none)
    (hshut : v.startBuf = none → v.logfd = none →
      w.startBuf = none ∧ w.logfd = none ∧ ¬ Shut (w.pc t) ∨ t = c.main ∧ Shut p)
    (hlost : c.logfile = true → v.lost = w.lost)
    (hbooks : ∀ part, Books w part → Part part (w.pc t) →
      ∃ part', Books v part' ∧ Part part' p) :
    Moves c w v t p where
  pc := hpc
  owner := .inl (by rw [hmutex])
  inside := iff_of_true hin (by rw [hmutex, howner])
  main := hmain
  length := .inl hlength
  opens f hf := by rw [hopens] at hf; cases hf
  logfd := hlogfd
  closed := hclosed
  startBuf := hstart
  reopening := hreopening
  shut hstart hfd := by
    rcases hshut hstart hfd with ⟨hstart, hfd, hnot⟩ | ⟨ht, hp⟩
    · exact .inl ⟨hstart, hfd, fun h => absurd h hnot⟩
    · exact .inr ⟨ht, by rw [hmutex, howner], hp⟩
  lost := hlost
  books part hb hp _ := by
    obtain ⟨part', hb', hp'⟩ := hbooks part hb hp
    refine ⟨part', hb', hp', fun hfree => ?_, .inr howner⟩
    rw [hmutex, howner] at hfree
    cases hfree

/-- A part of a line is written by the thread that holds the mutex. -/
theorem moves_append {f : Nat} {s : List Char} (howner : w.mutex.owner = some t)
    (hfd : w.logfd = some f) (hin : Inside p) (hmain : MainOnly p → t = c.main)
    (hopens : Log.opens p = none) (hreopening : ¬ Reopening p)
    (hpart : ∀ part, Part part (w.pc t) → Part (part ++ s) p) :
    Moves c w ((w.append f s).goto t p) t p := by
  refine .of_owner howner rfl rfl hin hmain (List.length_modify ..) (.inl rfl) hopens
    (fun h => absurd (reopening_of_closed h) hreopening) id (fun h => absurd h hreopening)
    (fun _ h => absurd (hfd.symm.trans h) nofun) (fun _ => rfl) fun part hb hp => ?_
  exact ⟨part ++ s, (hb.append hfd).move .., hpart part hp⟩

/-- What follows a call of `print` that took the mutex. -/
theorem after_outside (after : After) (h : ¬ after.Nested) :
    ¬ Inside after.pc ∧ (MainOnly after.pc → after ≠ .idle) ∧ Log.opens after.pc = none ∧
      ¬ Reopening after.pc := by
  cases after with
  | idle => exact ⟨id, fun h => h.elim, rfl, id⟩
  | exit => exact ⟨id, nofun, rfl, id⟩
  | reopenExit | reopenUnlock => exact absurd trivial h

/-- A thread that waits for the mutex and gets it did not hold it. -/
theorem after_of_lock (hw : Inv c w) (hlock : w.lock t p = some v) : ¬ Inside (w.pc t) := by
  intro hin
  unfold lock at hlock
  obtain ⟨mutex, hmutex, -⟩ := Option.map_eq_some_iff.mp hlock
  have howner := hw.guards t hin
  rw [(Sync.Mutex.lock_eq_some.mp hmutex).1] at howner
  cases howner

/-- `fprintf` of the start buffer, and the new log file. -/
theorem moves_dump {f : Nat} (howner : w.mutex.owner = some t) (hf : f + 1 = w.files.length)
    (ht : t = c.main) (hin : Inside p) (hopens : Log.opens p = none) (hreopening : ¬ Reopening p)
    (hpart : ∀ part, Part part (w.pc t) → Part part p) :
    Moves c w ((w.dump f).goto t p) t p := by
  obtain ⟨hmutex, hpc, hlen, hstart, hlogfd, hlost⟩ := w.dump_frame f
  refine .of_owner howner ?_ hmutex hin (fun _ => ht) hlen (.inr ht) hopens
    (fun h => absurd (reopening_of_closed h) hreopening) (fun _ => hstart)
    (fun h => absurd h hreopening) (fun _ h => absurd (hlogfd.symm.trans h) nofun)
    (fun _ => hlost) fun part hb hp => ?_
  · change Function.update (w.dump f).pc t p = _
    rw [hpc]
  · exact ⟨part, (hb.dump hf).move .., hpart part hp⟩

/-- A statement is a move. -/
theorem exec_moves (hw : Inv c w) (hexec : exec c w t = some v) : ∃ p, Moves c w v t p := by
  have howner : Inside (w.pc t) → w.mutex.owner = some t := hw.guards t
  have hmain : MainOnly (w.pc t) → t = c.main := hw.main t
  have hopening := hw.opening t
  have hreopening := hw.reopening t
  obtain ⟨part, -, hpart, -⟩ := hw.books
  have hpart := hpart t
  unfold exec at hexec
  cases hpc : w.pc t <;> rw [hpc] at hexec howner hmain hopening hreopening hpart <;>
    dsimp only at hexec
  case idle | exited | reopenFile => cases hexec
  case stdoutLock m after =>
    have hafter : ¬ after.Nested := fun h => after_of_lock hw hexec (hpc ▸ h)
    exact ⟨_, moves_lock hexec trivial hmain nofun id nofun ⟨hafter, rfl⟩⟩
  case stdoutUnlock m after =>
    refine ⟨_, moves_unlock hexec hpart.1 hmain rfl id (hpc ▸ id) fun part hp => ?_⟩
    rw [hpc] at hp
    exact hp.2
  case fileLock m after =>
    have hafter : ¬ after.Nested := fun h => after_of_lock hw hexec (hpc ▸ h)
    exact ⟨_, moves_lock hexec trivial hmain nofun id nofun ⟨hafter, rfl⟩⟩
  case writeHeading m after =>
    have hown := howner trivial
    have hshut : ¬ Shut (w.pc t) := hpc ▸ id
    split at hexec
    case h_1 hfd =>
      obtain rfl := Option.some.inj hexec
      refine ⟨.writeText m after, ?_⟩
      refine moves_append hown hfd trivial hmain rfl id fun part hp => ?_
      rw [hpc] at hp
      obtain ⟨hafter, rfl⟩ := hp
      exact ⟨hafter, rfl⟩
    case h_2 hs =>
      obtain rfl := Option.some.inj hexec
      refine ⟨.fileUnlock after, ?_⟩
      refine .of_owner hown rfl rfl trivial hmain rfl (.inl rfl) rfl nofun
        (fun hnone => absurd (hs.symm.trans hnone) nofun) nofun nofun (fun _ => rfl)
        fun part hb hp => ?_
      rw [hpc] at hp
      exact ⟨part, (hb.sputn hs).move .., hp⟩
    case h_3 hfd hs =>
      obtain rfl := Option.some.inj hexec
      refine ⟨.fileUnlock after, ?_⟩
      refine .of_owner hown rfl rfl trivial hmain rfl (.inl rfl) rfl nofun id nofun
        (fun _ _ => .inl ⟨hs, hfd, hshut⟩) (fun hlog => ?_) fun part hb hp => ?_
      · -- with a log file, only the main thread is under `m_log` now, and it does not print
        obtain ⟨hmainown, hmainpc⟩ := hw.shut hlog hs hfd
        obtain rfl := Option.some.inj (hown.symm.trans hmainown)
        exact absurd hmainpc hshut
      · rw [hpc] at hp
        exact ⟨part, hb.move .., hp⟩
  case writeText m after =>
    obtain ⟨f, hfd, rfl⟩ := Option.map_eq_some_iff.mp hexec
    refine ⟨.writeNewline m after, ?_⟩
    refine moves_append (howner trivial) hfd trivial hmain rfl id fun part hp => ?_
    rw [hpc] at hp
    obtain ⟨hafter, rfl⟩ := hp
    exact ⟨hafter, rfl⟩
  case writeNewline m after =>
    obtain ⟨f, hfd, rfl⟩ := Option.map_eq_some_iff.mp hexec
    refine ⟨.fileUnlock after, ?_⟩
    refine .of_owner (howner trivial) rfl rfl trivial hmain (List.length_modify ..) (.inl rfl) rfl
      nofun id nofun (fun _ h => absurd (hfd.symm.trans h) nofun) (fun _ => rfl)
      fun part hb hp => ?_
    rw [hpc] at hp
    obtain ⟨hafter, rfl⟩ := hp
    have hline : Books (w.append f ['\n']) m.line := hb.append hfd
    exact ⟨[], (hline.late (hb.startBuf_none hfd)).move .., hafter, rfl⟩
  case fileUnlock after =>
    obtain ⟨hin', hmain', hopens, hreopening⟩ := after_outside after hpart.1
    refine ⟨_, moves_unlock hexec hin' (fun h => hmain (hmain' h)) hopens hreopening (hpc ▸ id)
      fun part hp => ?_⟩
    rw [hpc] at hp
    exact hp.2
  case openLock f =>
    exact ⟨_, moves_lock hexec trivial hmain hopening id nofun rfl⟩
  case openDump f =>
    obtain rfl := Option.some.inj hexec
    refine ⟨.openUnlock, ?_⟩
    refine moves_dump (howner trivial) (hopening f rfl) (hmain trivial) trivial rfl id
      fun part hp => ?_
    rw [hpc] at hp
    exact hp
  case openUnlock =>
    have hnothing : ∀ part, Part part (w.pc t) → part = [] := fun part hp => by
      rw [hpc] at hp
      exact hp
    split at hexec
    · obtain ⟨hin', -, hopens, hreopening⟩ := printPc_outside (c := c) c.opened .idle
      exact ⟨_, moves_unlock hexec (fun h => hin'.mp h) (fun _ => hmain trivial) hopens hreopening
        (hpc ▸ id) hnothing⟩
    · exact ⟨_, moves_unlock hexec id nofun rfl id (hpc ▸ id) hnothing⟩
  case reopenLock =>
    exact ⟨_, moves_lock hexec trivial hmain nofun id hreopening rfl⟩
  case closeFile =>
    obtain rfl := Option.some.inj hexec
    refine ⟨.reopenFile, ?_⟩
    refine .of_owner (howner trivial) rfl rfl trivial hmain rfl (.inr (hmain trivial)) rfl
      (fun _ => rfl) id hreopening (fun _ _ => .inr ⟨hmain trivial, trivial⟩) (fun _ => rfl)
      fun part hb hp => ?_
    rw [hpc] at hp
    obtain rfl := hp
    have hstart := hreopening trivial
    exact ⟨[], ⟨hb.path, nofun, fun s hs => absurd (hstart.symm.trans hs) nofun, hb.content,
      fun h => absurd rfl h⟩, rfl⟩
  case reopenDump f =>
    obtain rfl := Option.some.inj hexec
    split
    · obtain ⟨hin', -, hopens, hreopening⟩ := printPc_outside (c := c) c.opened .reopenUnlock
      refine ⟨_, moves_dump (howner trivial) (hopening f rfl) (hmain trivial) (hin'.mpr trivial) hopens
        hreopening fun part hp => ?_⟩
      rw [hpc] at hp
      unfold printPc
      split <;> exact fun _ => hp
    · refine ⟨.reopenUnlock, ?_⟩
      refine moves_dump (howner trivial) (hopening f rfl) (hmain trivial) trivial rfl id
        fun part hp => ?_
      rw [hpc] at hp
      exact hp
  case reopenUnlock =>
    refine ⟨_, moves_unlock hexec id nofun rfl id (hpc ▸ id) fun part hp => ?_⟩
    rw [hpc] at hp
    exact hp

/-- The main thread has no log file and opens one. -/
theorem moves_fopen (p : Nat → Pc) (hw : Inv c w) (hfd : w.logfd = none)
    (hin : Inside (p w.fopen.1) ↔ Inside (w.pc c.main))
    (hopens : ∀ f, Log.opens (p f) = some f)
    (hreopening : Reopening (p w.fopen.1) → w.startBuf = none)
    (hshut : w.startBuf = none → Shut (p w.fopen.1))
    (hpart : ∀ part, Part part (w.pc c.main) → Part part (p w.fopen.1)) :
    Moves c w (w.fopen.2.goto c.main (p w.fopen.1)) c.main (p w.fopen.1) := by
  obtain ⟨hmutex, hpc, hlogfd, hstart, hlost⟩ := w.fopen_frame
  have hlen : w.fopen.1 + 1 = w.fopen.2.files.length := by
    obtain ⟨part, hb, -, -⟩ := hw.books
    exact (hb.fopen hfd).2
  refine ⟨?_, .inl (congrArg _ hmutex), ?_, fun _ => rfl, .inr rfl, ?_, .inl hlogfd, ?_, ?_, ?_, ?_,
    fun _ => hlost, ?_⟩
  · change Function.update w.fopen.2.pc _ _ = _
    rw [hpc]
  · change _ ↔ w.fopen.2.mutex.owner = _
    rw [hmutex, hin]
    exact ⟨hw.guards _, hw.holder _⟩
  · intro f hf
    obtain rfl := Option.some.inj ((hopens _).symm.trans hf)
    exact hlen
  · intro _
    exact hlogfd.trans hfd
  · intro h
    exact hstart.trans h
  · intro h
    exact hstart.trans (hreopening h)
  · intro hnone _
    have hnone := hstart.symm.trans hnone
    exact .inl ⟨hnone, hfd, fun _ ho => ⟨(congrArg _ hmutex).trans ho, hshut hnone⟩⟩
  · intro part hb hp hfree
    refine ⟨part, (hb.fopen hfd).1.move .., hpart part hp, fun h => ?_, .inl rfl⟩
    exact hfree ((congrArg _ hmutex).symm.trans h)

/-- An event keeps the invariant. -/
theorem step_inv {e : Event T} (hw : Inv c w) (hstep : step c w e = some v) : Inv c v := by
  unfold step at hstep
  split at hstep
  · cases hstep
  obtain ⟨part, hbooks, hpart, hfree⟩ := hw.books
  cases e with
  | print t m =>
    simp only [stepRunning] at hstep
    split at hstep
    · rename_i hpc
      obtain rfl := Option.some.inj hstep
      exact (moves_print m .idle hw (hpc ▸ id) (hpc ▸ id) id fun h => absurd rfl h).inv hw
    · cases hstep
  | openLogfile ok =>
    simp only [stepRunning] at hstep
    split at hstep
    · rename_i s hlog hpc hs
      split at hstep <;> obtain rfl := Option.some.inj hstep
      · refine (moves_fopen .openLock hw (hbooks.start s hs).1 ?_ (fun _ => rfl) nofun
          (fun hnone => absurd (hs.symm.trans hnone) nofun) fun _ _ => trivial).inv hw
        rw [hpc]
        exact Iff.rfl
      · exact (moves_print c.failed .exit hw (hpc ▸ id) (hpc ▸ id) id fun _ => rfl).inv hw
    · cases hstep
  | consoleOnly =>
    simp only [stepRunning] at hstep
    split at hstep
    · rename_i s hlog hpc hs
      obtain rfl := Option.some.inj hstep
      obtain ⟨hfd, -, hfiles, hlate, rfl⟩ := hbooks.start s hs
      refine ⟨hw.guards, hw.holder, hw.main, hw.opening, hw.closed, fun _ _ => rfl,
        fun h => absurd (hlog.symm.trans h) nofun, hw.lost, [], ?_, hpart, fun _ => rfl⟩
      exact ⟨hbooks.path, hbooks.logfd, nofun, fun _ => by simp [hfiles, hlate, CString.cStr],
        hbooks.begun⟩
    · cases hstep
  | reopen =>
    simp only [stepRunning] at hstep
    split at hstep
    · rename_i f hpc hfd
      obtain rfl := Option.some.inj hstep
      refine Moves.inv (t := c.main) (p := .reopenLock) ?_ hw
      have hout : w.mutex.owner ≠ some c.main := fun h => by
        have hin := hw.holder _ h
        rw [hpc] at hin
        exact hin
      refine ⟨rfl, .inl rfl, iff_of_false id hout, fun _ => rfl, .inl rfl, nofun, .inl rfl, nofun,
        id, fun _ => hbooks.startBuf_none hfd, fun _ h => absurd (hfd.symm.trans h) nofun,
        fun _ => rfl, fun part hb _ hfree => ?_⟩
      exact ⟨part, hb.move .., trivial, hfree, .inl rfl⟩
    · cases hstep
  | fopen ok =>
    simp only [stepRunning] at hstep
    split at hstep
    · rename_i hpc
      have hfd := hw.closed c.main (hpc ▸ trivial)
      have hstart := hw.reopening c.main (hpc ▸ trivial)
      split at hstep <;> obtain rfl := Option.some.inj hstep
      · refine (moves_fopen .reopenDump hw hfd ?_ (fun _ => rfl) (fun _ => hstart)
          (fun _ => trivial) fun part hp => ?_).inv hw
        · rw [hpc]
          exact Iff.rfl
        · rw [hpc] at hp
          exact hp
      · obtain ⟨hin, -, hopens, hreopening⟩ := printPc_outside (c := c) c.failed .reopenExit
        have hshut : Shut (printPc c c.failed .reopenExit) := by
          unfold printPc
          split <;> trivial
        refine Moves.inv (t := c.main) (p := printPc c c.failed .reopenExit) ?_ hw
        refine .of_owner (hw.guards _ (hpc ▸ trivial)) rfl rfl (hin.mpr trivial) (fun _ => rfl) rfl
          (.inl rfl) hopens (fun _ => hfd) id (fun _ => hstart) (fun _ _ => .inr ⟨rfl, hshut⟩)
          (fun _ => rfl) fun part hb hp => ?_
        refine ⟨part, hb.move .., ?_⟩
        rw [hpc] at hp
        unfold printPc
        split <;> exact fun _ => hp
    · cases hstep
  | rotate =>
    obtain rfl := Option.some.inj hstep
    refine ⟨hw.guards, hw.holder, hw.main, hw.opening, hw.closed, hw.reopening, hw.shut, hw.lost,
      part, ?_, hpart, hfree⟩
    exact ⟨nofun, hbooks.logfd, hbooks.start, hbooks.content, hbooks.begun⟩
  | step t =>
    obtain ⟨p, hmoves⟩ := exec_moves hw hstep
    exact hmoves.inv hw

/-- **The invariant of the log.** -/
theorem run_inv {es : List (Event T)} (hrun : (machine c).run (initial : Log T) es = some w) :
    Inv c w :=
  EventMachine.Machine.run_induction hrun (inv_initial c) fun _ _ _ => step_inv

/-- **The log is complete.**  With a log file, no message is lost.  When no line is being
written, the files hold the messages, each in a line of its own, in the order in which `m_log`
was taken for them, exactly if the messages from before the file was opened fit into the buffer
of `print`: one that does not takes what comes after it, up to the opening, out of the file. -/
theorem files_complete_iff {es : List (Event T)} (hlog : c.logfile = true)
    (hrun : (machine c).run (initial : Log T) es = some w) (hopen : w.startBuf = none)
    (hfree : w.mutex.owner = none) :
    w.lost = [] ∧
      (w.files.flatten = (w.early ++ w.late).flatMap Message.line ↔ ∀ m ∈ w.early, m.Fits) := by
  have hw := run_inv hrun
  obtain ⟨part, hbooks, -, hpart⟩ := hw.books
  refine ⟨hw.lost hlog, ?_⟩
  rw [hbooks.content hopen, hpart hfree, List.append_nil, List.flatMap_append,
    List.append_cancel_right_eq]
  exact cStr_startLines_iff w.early

end Step

/-- The main thread prints, opens the log file, has it closed and opened again after it was
moved away, and prints again. -/
theorem files_complete_iff_reopened :
    let m : Message := ⟨[], ['a'], by simp, by simp⟩
    let c : Setup Unit := ⟨(), true, true, false, m, m⟩
    ∃ es w, (machine c).run initial es = some w ∧ w.files.length = 2 ∧
      w.files.flatten = (w.early ++ w.late).flatMap Message.line := by
  intro m c
  have hex : ∃ w, (machine c).run initial ([.print () m] ++ .replicate 3 (.step ()) ++
      [.openLogfile true] ++ .replicate 3 (.step ()) ++ [.rotate, .reopen] ++
      .replicate 2 (.step ()) ++ [.fopen true] ++ .replicate 2 (.step ()) ++ [.print () m] ++
      .replicate 5 (.step ())) = some w ∧
      w.files.length = 2 ∧ w.startBuf = none ∧ w.mutex.owner = none ∧ ∀ m ∈ w.early, m.Fits :=
    EventMachine.Machine.exists_run_of_any (by decide)
  obtain ⟨w, hrun, hlen, hopen, hfree, hfits⟩ := hex
  exact ⟨_, w, hrun, hlen, (files_complete_iff rfl hrun hopen hfree).2.mpr hfits⟩

end VzLogger.Log
