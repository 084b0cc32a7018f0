import VzLogger.Obis
import Mathlib.Data.Rat.Defs

/-! # Readings

A reading is a value taken at a time under an identifier, and a mark that says it
is deleted.  Values are exact rationals.  A time is a `timeval`; `timeMs` is its
truncation to milliseconds, which the program computes in `double`, exactly for
every time within the range of a 64-bit millisecond count it can meet.
-/
namespace VzLogger

/-- `struct timeval`. -/
structure Timeval where
  tvSec : Int
  tvUsec : Int
  deriving DecidableEq, Repr

/-- The identifier classes derived from `ReadingIdentifier`. -/
inductive ReadingIdentifier where
  | obis (obis : Obis)
  | string (string : List Char)
  | channel (channel : Int)
  | nil
  deriving DecidableEq, Repr

structure Reading where
  deleted : Bool
  value : Rat
  time : Timeval
  identifier : ReadingIdentifier
  deriving DecidableEq

namespace Reading

/-- The time in milliseconds, truncated towards zero. -/
def timeMs (r : Reading) : Int := (r.time.tvSec * 1000000 + r.time.tvUsec).tdiv 1000

def markDelete (r : Reading) : Reading := { r with deleted := true }

/-- Take the mark away. -/
def reset (r : Reading) : Reading := { r with deleted := false }

def setValue (r : Reading) (v : Rat) : Reading := { r with value := v }

def setTime (r : Reading) (t : Timeval) : Reading := { r with time := t }

@[simp] theorem markDelete_deleted (r : Reading) : r.markDelete.deleted = true := rfl
@[simp] theorem setValue_deleted (r : Reading) (v : Rat) : (r.setValue v).deleted = r.deleted := rfl
@[simp] theorem setValue_value (r : Reading) (v : Rat) : (r.setValue v).value = v := rfl
@[simp] theorem setTime_deleted (r : Reading) (t : Timeval) :
    (r.setTime t).deleted = r.deleted := rfl
theorem reset_of_undeleted {r : Reading} (h : r.deleted = false) : r.reset = r := by
  cases r
  simp_all [reset]

theorem reset_markDelete {r : Reading} (h : r.deleted = false) : r.markDelete.reset = r := by
  cases r
  simp_all [reset, markDelete]

/-- The reading of value 1 at second `i`. -/
def tick (i : Int) : Reading := ⟨false, 1, ⟨i, 0⟩, .nil⟩

/-- A time of whole seconds. -/
theorem setTime_timeMs (r : Reading) (s : Int) : (r.setTime ⟨s, 0⟩).timeMs = s * 1000 := by
  simp only [timeMs, setTime, Int.add_zero]
  rw [show s * 1000000 = s * 1000 * 1000 by ring]
  exact Int.mul_tdiv_cancel _ (by decide)

end Reading
end VzLogger
