import VzLogger.Lib.EventMachine
import VzLogger.Lib.Sync
import VzLogger.Lib.CString

/-! # The log

`print` is called by every thread.  It writes a line to the console and to the log file,
each under `m_log`; before the log file is opened, the line goes into `gStartLogBuf`,
whose contents `openLogfile` puts at the beginning of the file.  With `SIGUSR1` the main
loop closes the file and opens it again, all under `m_log`, so that the old file can be
moved out of the way.

The level of a message is compared before anything else; only messages that pass are
printed here.
-/
namespace VzLogger.Log

/-! ## Lines -/

/-- A message: its heading, whatever `strftime` and `snprintf` leave in `prefix`, and what
`vfprintf` makes of the format and the arguments. -/
structure Message where
  heading : List Char
  text : List Char
  heading_ne : '\x00' ∉ heading
  text_ne : '\x00' ∉ text
  deriving DecidableEq

namespace Message

/-- `%-24s`. -/
def padded (m : Message) : List Char :=
  m.heading ++ List.replicate (24 - m.heading.length) ' '

/-- The line in the log file. -/
def line (m : Message) : List Char := m.padded ++ m.text ++ ['\n']

/-- What `print` appends to `gStartLogBuf`, from a buffer of 500 characters: what does not
fit is cut off, and then the terminating zero is taken for a part of the line. -/
def startLine (m : Message) : List Char :=
  let s := m.padded ++ m.text
  if s.length < 499 then s ++ ['\n'] else s.take 499 ++ ['\x00']

/-- The line and a terminating zero fit into the buffer. -/
def Fits (m : Message) : Prop := (m.padded ++ m.text).length ≤ 498

instance (m : Message) : Decidable m.Fits := inferInstanceAs (Decidable (_ ≤ _))

end Message

/-! ## Threads -/

/-- What a thread does when `print` returns. -/
inductive After where
  | idle
  | exit
  /-- `exit` and `m_log.unlock()` in the main loop, which holds the mutex all the time -/
  | reopenExit
  | reopenUnlock
  deriving DecidableEq

/-- A thread, before the statement that the name says. -/
inductive Pc where
  | idle
  | stdoutLock (m : Message) (after : After)
  | stdoutUnlock (m : Message) (after : After)
  | fileLock (m : Message) (after : After)
  | writeHeading (m : Message) (after : After)
  | writeText (m : Message) (after : After)
  | writeNewline (m : Message) (after : After)
  | fileUnlock (after : After)
  /-- `openLogfile()`, with the file that `fopen` gave -/
  | openLock (f : Nat)
  | openDump (f : Nat)
  | openUnlock
  /-- the main loop, on `SIGUSR1` -/
  | reopenLock
  | closeFile
  | reopenFile
  | reopenDump (f : Nat)
  | reopenUnlock
  | exited
  deriving DecidableEq

/-- The main thread, whether a log file is configured, whether the process runs in the
background, whether the verbosity admits `log_debug`, and the two messages of `openLogfile`. -/
structure Setup (T : Type) where
  main : T
  logfile : Bool
  background : Bool
  debug : Bool
  opened : Message
  failed : Message

end Log

open Log

/-- The process, and the log files in the order of their creation, which are named by their
number.  `path` is the file that the name in the options leads to.  The books: the messages
in the start buffer, those in the files, and those that came while there was neither. -/
structure Log (T : Type) where
  mutex : Sync.Mutex T
  startBuf : Option (List Char)
  logfd : Option Nat
  path : Option Nat
  files : List (List Char)
  pc : T → Pc
  early : List Message
  late : List Message
  lost : List Message

namespace Log

inductive Event (T : Type) where
  | print (t : T) (m : Message)
  /-- `openLogfile` at the start, and whether `fopen` succeeds -/
  | openLogfile (fopen : Bool)
  /-- no log file is configured: the start buffer is deleted -/
  | consoleOnly
  /-- `SIGUSR1` -/
  | reopen
  /-- `fopen` in the main loop -/
  | fopen (ok : Bool)
  /-- the log file is renamed -/
  | rotate
  | step (t : T)

variable {T : Type} [DecidableEq T] (c : Setup T)

def initial : Log T := ⟨.free, some [], none, none, [], fun _ => .idle, [], [], []⟩

def goto (w : Log T) (t : T) (pc : Pc) : Log T := { w with pc := Function.update w.pc t pc }

/-- Where `print` starts. -/
def printPc (m : Message) (after : After) : Pc :=
  if c.background then .fileLock m after else .stdoutLock m after

def After.pc : After → Pc
  | .idle => .idle
  | .exit | .reopenExit => .exited
  | .reopenUnlock => .reopenUnlock

def lock (w : Log T) (t : T) (pc : Pc) : Option (Log T) :=
  (w.mutex.lock t).map fun mutex => { w with mutex }.goto t pc

def unlock (w : Log T) (t : T) (pc : Pc) : Option (Log T) :=
  (w.mutex.unlock t).map fun mutex => { w with mutex }.goto t pc

/-- A write to a file. -/
def append (w : Log T) (f : Nat) (s : List Char) : Log T :=
  { w with files := w.files.modify f (· ++ s) }

/-- `fopen(name, "a")`. -/
def fopen (w : Log T) : Nat × Log T :=
  match w.path with
  | some f => (f, w)
  | none => (w.files.length, { w with path := some w.files.length, files := w.files ++ [[]] })

/-- The start buffer goes into the file, as a C string, and the file is the log file. -/
def dump (w : Log T) (f : Nat) : Log T :=
  match w.startBuf with
  | some s => { w.append f (CString.cStr s) with startBuf := none, logfd := some f }
  | none => { w with logfd := some f }

/-- The statement a thread is at. -/
def exec (w : Log T) (t : T) : Option (Log T) :=
  match w.pc t with
  | .idle | .exited | .reopenFile => none
  | .stdoutLock m after => w.lock t (.stdoutUnlock m after)
  | .stdoutUnlock m after => w.unlock t (.fileLock m after)
  | .fileLock m after => w.lock t (.writeHeading m after)
  | .writeHeading m after =>
    match w.logfd, w.startBuf with
    | some f, _ => some ((w.append f m.padded).goto t (.writeText m after))
    | none, some s =>
      some ({ w with startBuf := some (s ++ m.startLine), early := w.early ++ [m] }.goto t
        (.fileUnlock after))
    | none, none => some ({ w with lost := w.lost ++ [m] }.goto t (.fileUnlock after))
  | .writeText m after =>
    w.logfd.map fun f => (w.append f m.text).goto t (.writeNewline m after)
  | .writeNewline m after =>
    w.logfd.map fun f =>
      { w.append f ['\n'] with late := w.late ++ [m] }.goto t (.fileUnlock after)
  | .fileUnlock after => w.unlock t after.pc
  | .openLock f => w.lock t (.openDump f)
  | .openDump f => some ((w.dump f).goto t .openUnlock)
  | .openUnlock => w.unlock t (if c.debug then printPc c c.opened .idle else .idle)
  | .reopenLock => w.lock t .closeFile
  | .closeFile => some ({ w with logfd := none }.goto t .reopenFile)
  | .reopenDump f =>
    some ((w.dump f).goto t
      (if c.debug then printPc c c.opened .reopenUnlock else .reopenUnlock))
  | .reopenUnlock => w.unlock t .idle

/-- An event of the process while it runs. -/
def stepRunning (w : Log T) : Event T → Option (Log T)
  | .print t m =>
    match w.pc t with
    | .idle => some (w.goto t (printPc c m .idle))
    | _ => none
  | .openLogfile ok =>
    match c.logfile, w.pc c.main, w.startBuf with
    | true, .idle, some _ =>
      if ok then
        let (f, w) := w.fopen
        some (w.goto c.main (.openLock f))
      else some (w.goto c.main (printPc c c.failed .exit))
    | _, _, _ => none
  | .consoleOnly =>
    match c.logfile, w.pc c.main, w.startBuf with
    | false, .idle, some _ => some { w with startBuf := none, early := [] }
    | _, _, _ => none
  | .reopen =>
    match w.pc c.main, w.logfd with
    | .idle, some _ => some (w.goto c.main .reopenLock)
    | _, _ => none
  | .fopen ok =>
    match w.pc c.main with
    | .reopenFile =>
      if ok then
        let (f, w) := w.fopen
        some (w.goto c.main (.reopenDump f))
      else some (w.goto c.main (printPc c c.failed .reopenExit))
    | _ => none
  | .rotate => some { w with path := none }
  | .step t => exec c w t

/-- The process is at its end when the main thread calls `exit`. -/
def step (w : Log T) (e : Event T) : Option (Log T) :=
  match w.pc c.main with
  | .exited => none
  | _ => stepRunning c w e

def machine : EventMachine.Machine (Log T) (Event T) := ⟨initial, step c⟩

end Log
end VzLogger
