import VzLogger.Lib.EventMachine
import VzLogger.Lib.Rotation

/-! # The log file on the Pico

`printv` writes a line to the log file, unless the clock speed is low.  When the file has
more than `rotateSize` characters it is rotated before.  In an interrupt the line is queued,
and the next call outside of interrupts writes the queue first.

An interrupt may come between any two statements of `printv`.  Only messages that pass the
verbosity are printed here.
-/
namespace VzLogger.Pico

/-- The arguments of `printv`, with what `getTimeString` gives once the time is known, and
what `vfprintf` makes of the format. -/
structure LogMessage where
  time : Option (List Char)
  level : Int
  id : Option (List Char)
  text : List Char

namespace LogMessage

def levelStr : List Char := "AEWWIIDDDDDFFFFF".toList

def prefixText (m : LogMessage) (inIRQ : Bool) : List Char :=
  let level := if m.level < 0 ∨ 15 < m.level then 5 else m.level
  match m.time, m.id with
  | none, _ => "** ".toList
  | some time, none => time
  | some time, some id =>
    time ++ ('[' :: id ++ "] ".toList ++ levelStr.getD level.toNat ' ' ::
      (if inIRQ then ['i'] else []) ++ [' ']).take 9

/-- `"%-24s"`, or `"%s"` while the time is not known. -/
def padded (m : LogMessage) (inIRQ : Bool) : List Char :=
  let s := m.prefixText inIRQ
  if m.time.isSome then s ++ List.replicate (24 - s.length) ' ' else s

/-- A line outside of interrupts. -/
def line (m : LogMessage) : List Char := m.padded false ++ m.text ++ ['\n']

/-- A line in an interrupt, from a buffer of 512 characters. -/
def queuedLine (m : LogMessage) : List Char :=
  let buf := m.padded true
  buf ++ m.text.take (512 - 1 - buf.length - 1) ++ ['\n']

end LogMessage

namespace Logger

def rotateSize : Nat := 1000000
def rotateMaxInst : Nat := 10

/-- `printv`, before the statement that the name says; `i` messages of the queue are written. -/
inductive Pc where
  | idle
  | flush (line : List Char) (i : Nat)
  | clear (line : List Char) (i : Nat)
  | write (line : List Char)
  deriving DecidableEq

inductive Event where
  | init
  | clockSpeed (default : Bool)
  | print (m : LogMessage)
  | irq (m : LogMessage)
  | step

end Logger

open Logger Rotation

/-- The logger and its files, the log file being number 0.  The books: the texts of the files
that are removed, the lines that are written, the number of rotations, and of the lines from
interrupts those that are queued, and those that are written. -/
structure Logger where
  files : Files Char
  fsInitialized : Bool
  clockSpeedIsDefault : Bool
  queuedMsgs : List (List Char)
  pc : Pc
  removed : List Char
  written : List (List Char)
  rotations : Nat
  accepted : List (List Char)
  fromIrq : List (List Char)

namespace Logger

/-- At the start, with the files of former runs. -/
def initial (files : Files Char) : Logger where
  files
  fsInitialized := false
  clockSpeedIsDefault := true
  queuedMsgs := []
  pc := .idle
  removed := []
  written := []
  rotations := 0
  accepted := []
  fromIrq := []

/-- Whether a line goes to the file at all. -/
def logs (w : Logger) : Bool := w.fsInitialized && w.clockSpeedIsDefault

/-- The rotation, if the log file is there and too large. -/
def rotate (w : Logger) : Logger :=
  match w.files 0 with
  | some s =>
    if rotateSize < s.length then
      { w with
        files := w.files.rotate rotateMaxInst
        removed := w.removed ++ w.files.text rotateMaxInst
        rotations := w.rotations + 1 }
    else w
  | none => w

/-- `fprintf` to the log file. -/
def fprintf (w : Logger) (s : List Char) : Logger :=
  { w with files := w.files.append 0 s, written := w.written ++ [s] }

def step (w : Logger) : Event → Option Logger
  | .init => if w.pc = .idle then some { w with fsInitialized := true } else none
  | .clockSpeed default =>
    if w.pc = .idle then some { w with clockSpeedIsDefault := default } else none
  | .print m =>
    if w.pc = .idle then
      -- `fopen(logfilePath, "a+")` makes the file if it is not there
      some (if w.logs then { w.rotate with
        files := w.rotate.files.append 0 [], pc := .flush m.line 0 } else w)
    else none
  | .irq m =>
    some (if w.logs then { w with
      queuedMsgs := w.queuedMsgs ++ [m.queuedLine]
      accepted := w.accepted ++ [m.queuedLine] } else w)
  | .step =>
    match w.pc with
    | .idle => none
    | .flush line i =>
      match w.queuedMsgs[i]? with
      | some s =>
        -- the message is the format: a conversion in it has no argument
        if '%' ∈ s then none
        else some { w.fprintf s with fromIrq := w.fromIrq ++ [s], pc := .flush line (i + 1) }
      | none => some { w with pc := .clear line i }
    | .clear line _ => some { w with queuedMsgs := [], pc := .write line }
    | .write line => some { w.fprintf line with pc := .idle }

def machine (files : Files Char) : EventMachine.Machine Logger Event := ⟨initial files, step⟩

/-! ## What the files hold -/

/-- The texts of all files, the oldest first. -/
def allText (files : Files Char) : List Char := files.texts 0 (rotateMaxInst + 1)

variable {files : Files Char} {w v : Logger} {e : Event}

/-- A step rotates the files, writes to the log file, or leaves the files alone. -/
inductive Touches (w v : Logger) : Prop where
  | none (hfiles : v.files = w.files) (hremoved : v.removed = w.removed)
      (hwritten : v.written = w.written) (hrotations : v.rotations = w.rotations)
  | opens (hfiles : v.files = w.rotate.files.append 0 []) (hremoved : v.removed = w.rotate.removed)
      (hwritten : v.written = w.rotate.written) (hrotations : v.rotations = w.rotate.rotations)
  | writes (s : List Char) (hfiles : v.files = (w.fprintf s).files) (hremoved : v.removed = w.removed)
      (hwritten : v.written = (w.fprintf s).written) (hrotations : v.rotations = w.rotations)

theorem step_touches (h : step w e = some v) : Touches w v := by
  cases e with
  | init | clockSpeed default =>
    obtain ⟨-, rfl⟩ := Option.ite_some_none_eq_some.mp h
    exact .none rfl rfl rfl rfl
  | print m =>
    obtain ⟨-, rfl⟩ := Option.ite_some_none_eq_some.mp h
    split
    · exact .opens rfl rfl rfl rfl
    · exact .none rfl rfl rfl rfl
  | irq m =>
    obtain rfl := Option.some.inj h
    split <;> exact .none rfl rfl rfl rfl
  | step =>
    simp only [step] at h
    split at h
    · cases h
    · split at h
      · obtain ⟨-, h⟩ := Option.ite_none_left_eq_some.mp h
        obtain rfl := Option.some.inj h
        exact .writes _ rfl rfl rfl rfl
      · obtain rfl := Option.some.inj h
        exact .none rfl rfl rfl rfl
    · obtain rfl := Option.some.inj h
      exact .none rfl rfl rfl rfl
    · obtain rfl := Option.some.inj h
      exact .writes _ rfl rfl rfl rfl

/-- A file that was rotated in this run has more than `rotateSize` characters. -/
def Big (files : Files Char) (i : Nat) : Prop := ∃ s, files i = some s ∧ rotateSize < s.length

/-- The books of the files.  As long as there were no more than `rotateMaxInst` rotations, what
is removed and what is older than the first of them is what the files held at the start. -/
structure Books (files₀ : Files Char) (w : Logger) : Prop where
  contents : w.removed ++ allText w.files = allText files₀ ++ w.written.flatten
  big : ∀ i, 0 < i → i ≤ w.rotations → i ≤ rotateMaxInst → Big w.files i
  old : ∀ k, w.rotations + k = rotateMaxInst →
    w.removed ++ w.files.texts (w.rotations + 1) k = files₀.texts 1 rotateMaxInst

theorem books_initial (files : Files Char) : Books files (initial files) where
  contents := (List.append_nil _).symm
  big i hi hle := absurd (Nat.lt_of_lt_of_le hi hle) (Nat.lt_irrefl 0)
  old k hk := by
    obtain rfl : k = rotateMaxInst := by simpa [initial] using hk
    rfl

theorem Books.rotate {files₀ : Files Char} (h : Books files₀ w) : Books files₀ w.rotate := by
  unfold Logger.rotate
  split
  · rename_i s hs
    split
    · rename_i hsize
      have hn : 0 < rotateMaxInst := by decide
      refine ⟨?_, ?_, ?_⟩
      · change (w.removed ++ _) ++ _ = _
        rw [List.append_assoc, allText, Files.texts_rotate hn]
        exact h.contents
      · intro i hi hle hmax
        obtain ⟨i, rfl⟩ := Nat.exists_eq_add_of_lt hi
        rw [Nat.zero_add] at hle hmax ⊢
        change ∃ s, w.files.rotate rotateMaxInst (i + 1) = some s ∧ _
        rw [Files.rotate_apply hn, if_neg (Nat.succ_ne_zero i), if_pos hmax, Nat.add_sub_cancel]
        cases i with
        | zero => exact ⟨s, hs, hsize⟩
        | succ i =>
          exact h.big (i + 1) (Nat.succ_pos i) (Nat.le_of_succ_le_succ hle) (Nat.le_of_succ_le hmax)
      · intro k hk
        change w.rotations + 1 + k = _ at hk
        have hold := h.old (k + 1) (by omega)
        rw [Files.texts_succ, ← List.append_assoc, hk] at hold
        rw [← hold]
        congr 1
        refine Files.texts_congr fun j hj => ?_
        change (w.files.rotate rotateMaxInst).text (w.rotations + 1 + 1 + j) = _
        rw [Nat.add_right_comm _ 1 j, Files.text_rotate hn (by omega)]
    · exact h
  · exact h

theorem Books.write {files₀ : Files Char} (h : Books files₀ w) (s : List Char) :
    Books files₀ (w.fprintf s) where
  contents := by
    change w.removed ++ (w.files.append 0 s).texts 0 (rotateMaxInst + 1) =
      _ ++ (w.written ++ [s]).flatten
    rw [Files.texts_append, ← List.append_assoc, List.flatten_append, ← List.append_assoc]
    simp only [List.flatten_singleton]
    exact congrArg (· ++ s) h.contents
  big i hi hle hmax := by
    obtain ⟨t, ht, hsize⟩ := h.big i hi hle hmax
    exact ⟨t, (Function.update_of_ne (Nat.ne_of_gt hi) ..).trans ht, hsize⟩
  old k hk := by
    rw [← h.old k hk]
    congr 1
    exact Files.texts_congr fun j _ => Files.text_append_of_ne (by omega) s

/-- The books speak about the files, and no more. -/
theorem Books.congr {files₀ : Files Char} (h : Books files₀ w) (hfiles : v.files = w.files)
    (hremoved : v.removed = w.removed) (hwritten : v.written = w.written)
    (hrotations : v.rotations = w.rotations) : Books files₀ v where
  contents := by
    rw [hremoved, hfiles, hwritten]
    exact h.contents
  big := by
    rw [hfiles, hrotations]
    exact h.big
  old := by
    rw [hfiles, hremoved, hrotations]
    exact h.old

/-- Opening the file for appending changes no text. -/
theorem Books.opens {files₀ : Files Char} (h : Books files₀ w) :
    Books files₀ { w with files := w.files.append 0 [] } where
  contents := by
    rw [allText, Files.texts_append, List.append_nil]
    exact h.contents
  big i hi hle hmax := by
    obtain ⟨t, ht, hsize⟩ := h.big i hi hle hmax
    exact ⟨t, (Function.update_of_ne (Nat.ne_of_gt hi) ..).trans ht, hsize⟩
  old k hk := by
    rw [← h.old k hk]
    congr 1
    exact Files.texts_congr fun j _ => Files.text_append_of_ne (by omega) []

theorem books_step {files₀ : Files Char} (hw : Books files₀ w) (h : step w e = some v) :
    Books files₀ v := by
  cases step_touches h with
  | none hfiles hremoved hwritten hrotations => exact hw.congr hfiles hremoved hwritten hrotations
  | opens hfiles hremoved hwritten hrotations =>
    exact hw.rotate.opens.congr hfiles hremoved hwritten hrotations
  | writes s hfiles hremoved hwritten hrotations =>
    exact (hw.write s).congr hfiles hremoved hwritten hrotations

theorem length_texts_le (files : Files Char) :
    (files.texts 1 rotateMaxInst).length ≤ (allText files).length := by
  rw [allText, Files.texts_succ_newest, List.length_append]
  exact Nat.le_add_right _ _

/-- **The log is kept.**  The files, from the oldest to the newest, and before them what was
removed, hold what they held at the start and then the lines in the order in which they were
written.  Nothing written in this run is removed unless `rotateMaxInst` files with more than
`rotateSize` characters each are left. -/
theorem log_kept {es : List Event} (hrun : (machine files).run (initial files) es = some w) :
    w.removed ++ allText w.files = allText files ++ w.written.flatten ∧
      ((allText files).length < w.removed.length →
        ∀ i, 0 < i → i ≤ rotateMaxInst → Big w.files i) := by
  have hw : Books files w := EventMachine.Machine.run_induction hrun (books_initial files)
    fun _ _ _ => books_step
  refine ⟨hw.contents, fun hlt i hi hmax => hw.big i hi ?_ hmax⟩
  by_contra hfew
  have hold := congrArg List.length (hw.old (rotateMaxInst - w.rotations) (by omega))
  rw [List.length_append] at hold
  have hle := length_texts_le files
  omega

/-- A line, on a file system with a log file and an instance of a former run. -/
theorem log_kept_former :
    let files : Files Char := fun i => if i ≤ 1 then some ['z'] else none
    ∃ w, (machine files).run (initial files) [.init, .print ⟨none, 5, none, ['a']⟩, .step, .step,
        .step] = some w ∧
      w.removed ++ allText w.files = "zz** a\n".toList := by
  intro files
  have hex : ∃ w, (machine files).run (initial files) [.init, .print ⟨none, 5, none, ['a']⟩, .step,
      .step, .step] = some w ∧ allText files ++ w.written.flatten = "zz** a\n".toList :=
    EventMachine.Machine.exists_run_of_any (by decide)
  obtain ⟨w, hrun, hall⟩ := hex
  exact ⟨w, hrun, (log_kept hrun).1.trans hall⟩

/-! ## The messages of interrupts -/

/-- The messages in the queue that are still to be written. -/
def waiting (w : Logger) : List (List Char) :=
  match w.pc with
  | .idle | .write _ => w.queuedMsgs
  | .flush _ i => w.queuedMsgs.drop i
  | .clear .. => []

/-- A message comes between the loop over the queue and `clear()`. -/
def Quiet (w : Logger) : Event → Prop
  | .irq _ => w.logs = true → ∀ line i, w.pc ≠ .clear line i
  | _ => True

/-- A loop over the queue stays in it. -/
def Within (w : Logger) : Prop := ∀ line i, w.pc = .flush line i → i ≤ w.queuedMsgs.length

/-- What a step does to the messages of interrupts: it moves them on, takes one in, or takes
one in too late. -/
inductive Accounts (w v : Logger) (e : Event) : Prop where
  | moves (hquiet : Quiet w e) (haccepted : v.accepted = w.accepted)
      (hwaiting : v.fromIrq ++ v.waiting = w.fromIrq ++ w.waiting)
  | takes (s : List Char) (hquiet : Quiet w e) (haccepted : v.accepted = w.accepted ++ [s])
      (hwaiting : v.fromIrq ++ v.waiting = w.fromIrq ++ w.waiting ++ [s])
  | late (s : List Char) (hlate : ¬ Quiet w e) (haccepted : v.accepted = w.accepted ++ [s])
      (hwaiting : v.fromIrq ++ v.waiting = w.fromIrq ++ w.waiting)

theorem irq_accounts (hw : Within w) (m : LogMessage) (hlogs : w.logs = true) :
    Accounts w { w with
      queuedMsgs := w.queuedMsgs ++ [m.queuedLine]
      accepted := w.accepted ++ [m.queuedLine] } (.irq m) := by
  cases hpc : w.pc with
  | idle | write line =>
    refine .takes m.queuedLine (fun _ line i => by simp [hpc]) rfl ?_
    simp [waiting, hpc]
  | flush line i =>
    refine .takes m.queuedLine (fun _ line i => by simp [hpc]) rfl ?_
    simp [waiting, hpc, List.drop_append_of_le_length (hw line i hpc)]
  | clear line i =>
    refine .late m.queuedLine (fun hquiet => hquiet hlogs line i hpc) rfl ?_
    simp [waiting, hpc]

theorem step_accounts (hw : Within w) (h : step w e = some v) : Accounts w v e ∧ Within v := by
  cases e with
  | init | clockSpeed default =>
    obtain ⟨hpc, rfl⟩ := Option.ite_some_none_eq_some.mp h
    refine ⟨.moves trivial rfl (by simp [waiting, hpc]), ?_⟩
    simp [Within, hpc]
  | print m =>
    obtain ⟨hpc, rfl⟩ := Option.ite_some_none_eq_some.mp h
    split
    · have hrotate : w.rotate.accepted = w.accepted ∧ w.rotate.fromIrq = w.fromIrq ∧
          w.rotate.queuedMsgs = w.queuedMsgs := by
        unfold Logger.rotate
        split
        · split <;> exact ⟨rfl, rfl, rfl⟩
        · exact ⟨rfl, rfl, rfl⟩
      obtain ⟨haccepted, hfromIrq, hqueue⟩ := hrotate
      refine ⟨.moves trivial haccepted ?_, ?_⟩
      · simp [waiting, hpc, hfromIrq, hqueue]
      · rintro line i ⟨rfl, rfl⟩
        exact Nat.zero_le _
    · exact ⟨.moves trivial rfl rfl, hw⟩
  | irq m =>
    obtain rfl := Option.some.inj h
    split
    · rename_i hlogs
      refine ⟨irq_accounts hw m hlogs, fun line i hpc => ?_⟩
      rw [List.length_append]
      exact Nat.le_add_right_of_le (hw line i hpc)
    · rename_i hlogs
      exact ⟨.moves (fun hl => absurd hl hlogs) rfl rfl, hw⟩
  | step =>
    simp only [step] at h
    split at h
    · cases h
    · rename_i line i hpc
      split at h
      · rename_i s hs
        obtain ⟨-, h⟩ := Option.ite_none_left_eq_some.mp h
        obtain rfl := Option.some.inj h
        obtain ⟨hlt, hget⟩ := List.getElem?_eq_some_iff.mp hs
        refine ⟨.moves trivial rfl ?_, ?_⟩
        · have hdrop := List.drop_eq_getElem_cons hlt
          rw [hget] at hdrop
          simp [waiting, hpc, hdrop, fprintf]
        · rintro _ _ ⟨rfl, rfl⟩
          exact hlt
      · rename_i hs
        obtain rfl := Option.some.inj h
        have hdrop := List.drop_eq_nil_of_le (List.getElem?_eq_none_iff.mp hs)
        exact ⟨.moves trivial rfl (by simp [waiting, hpc, hdrop]), nofun⟩
    · rename_i hpc
      obtain rfl := Option.some.inj h
      exact ⟨.moves trivial rfl (by simp [waiting, hpc]), nofun⟩
    · rename_i hpc
      obtain rfl := Option.some.inj h
      exact ⟨.moves trivial rfl (by simp [waiting, hpc, fprintf]), nofun⟩

/-- Every message that was queued is written or waits to be, in order. -/
def Kept (w : Logger) : Prop := Within w ∧ w.accepted = w.fromIrq ++ w.waiting

/-- Some are not. -/
def Lost (w : Logger) : Prop :=
  Within w ∧ (w.fromIrq ++ w.waiting).length < w.accepted.length

theorem not_lost_of_kept (h : Kept w) : ¬ Lost w := by
  rintro ⟨-, hlt⟩
  rw [h.2] at hlt
  exact Nat.lt_irrefl _ hlt

theorem kept_step (hw : Kept w) (hquiet : Quiet w e) (h : step w e = some v) : Kept v := by
  obtain ⟨hacc, hwithin⟩ := step_accounts hw.1 h
  refine ⟨hwithin, ?_⟩
  cases hacc with
  | moves _ haccepted hwaiting => rw [haccepted, hwaiting, hw.2]
  | takes s _ haccepted hwaiting => rw [haccepted, hwaiting, hw.2]
  | late s hlate => exact absurd hquiet hlate

theorem lost_of_late (hw : Kept w) (hlate : ¬ Quiet w e) (h : step w e = some v) : Lost v := by
  obtain ⟨hacc, hwithin⟩ := step_accounts hw.1 h
  refine ⟨hwithin, ?_⟩
  cases hacc with
  | moves hquiet => exact absurd hquiet hlate
  | takes s hquiet => exact absurd hquiet hlate
  | late s _ haccepted hwaiting =>
    rw [haccepted, hwaiting, hw.2]
    simp

theorem lost_step (hw : Lost w) (h : step w e = some v) : Lost v := by
  obtain ⟨hacc, hwithin⟩ := step_accounts hw.1 h
  refine ⟨hwithin, ?_⟩
  have hlt := hw.2
  cases hacc with
  | moves _ haccepted hwaiting => rwa [haccepted, hwaiting]
  | takes s _ haccepted hwaiting =>
    rw [haccepted, hwaiting]
    simp only [List.length_append, List.length_singleton] at hlt ⊢
    omega
  | late s _ haccepted hwaiting =>
    rw [haccepted, hwaiting]
    simp only [List.length_append, List.length_singleton] at hlt ⊢
    omega

/-- **The queue of interrupts.**  Every message that an interrupt queues is written, once and
in order, or waits to be, exactly if none comes when the loop over the queue is done and the
queue is not cleared yet. -/
theorem irq_kept_iff {es : List Event} (hrun : (machine files).run (initial files) es = some w) :
    w.accepted = w.fromIrq ++ w.waiting ↔ (machine files).EachStep Quiet (initial files) es := by
  have hinit : Kept (initial files) := ⟨nofun, rfl⟩
  have hwithin : Within w := EventMachine.Machine.run_induction hrun hinit.1
    fun _ _ _ hw h => (step_accounts hw h).2
  rw [← EventMachine.Machine.final_iff_eachStep (P := Kept) (Q := Lost)
    (fun _ => not_lost_of_kept) (fun _ _ _ => kept_step) (fun _ _ _ => lost_of_late)
    (fun _ _ _ => lost_step) hrun hinit]
  exact (and_iff_right hwithin).symm

/-- A message of an interrupt that comes in front of `clear()` is never written. -/
theorem irq_kept_iff_late :
    let m : LogMessage := ⟨none, 5, none, ['a']⟩
    ∃ es w, (machine fun _ => none).run (initial fun _ => none) es = some w ∧ w.pc = .idle ∧
      w.accepted = [m.queuedLine] ∧ w.fromIrq ++ w.waiting = [] ∧
      ¬ (machine fun _ => none).EachStep Quiet (initial fun _ => none) es := by
  intro m
  have hex : ∃ w, (machine fun _ => none).run (initial fun _ => none)
      [.init, .print m, .step, .irq m, .step, .step] = some w ∧
      w.pc = .idle ∧ w.accepted = [m.queuedLine] ∧ w.fromIrq ++ w.waiting = [] :=
    EventMachine.Machine.exists_run_of_any (by decide)
  obtain ⟨w, hrun, hpc, haccepted, hnone⟩ := hex
  refine ⟨_, w, hrun, hpc, haccepted, hnone, fun hquiet => ?_⟩
  have hkept := (irq_kept_iff hrun).mpr hquiet
  rw [haccepted, hnone] at hkept
  cases hkept

end Logger
end VzLogger.Pico
