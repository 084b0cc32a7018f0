import VzLogger.Lib.CString
import Mathlib.Data.List.Nodup

/-! # Options

A configuration is JSON, as json-c reads it: a value knows its type, a member of an object
comes at most once.  A member that a meter or a channel does not read itself becomes an
`Option`, and those who want it look it up by its key.

What goes wrong is an exception, or it is undefined: the null pointer of a value that is no
object is followed, or a text from the configuration is the format of a message.
-/
namespace VzLogger.Config

/-- A value of json-c. -/
inductive Value where
  | null
  | boolean (b : Bool)
  | double (x : Rat)
  | int (i : Int)
  | object (ms : List (String × Value))
  | array (vs : List Value)
  | string (s : List Char)

/-- `json_object_get_int`, which keeps to the range of an `int`. -/
def getInt (i : Int) : Int := max (-2147483648) (min i 2147483647)

/-- `json_object_get_string`, up to the first null character. -/
def getString (s : List Char) : List Char := s.takeWhile (· ≠ '\x00')

/-! ## Exceptions -/

inductive Error where
  /-- `OptionNotFoundException` -/
  | optionNotFound (reason : List Char)
  /-- `InvalidTypeException` -/
  | invalidType (reason : List Char)
  /-- `VZException` -/
  | failed (reason : List Char)
  | undefined
  deriving DecidableEq, Repr

/-- What `vsnprintf` makes of a format without arguments; `none` where it wants one. -/
def format : List Char → Option (List Char)
  | [] => some []
  | '%' :: '%' :: s => (format s).map ('%' :: ·)
  | '%' :: _ => none
  | c :: s => (format s).map (c :: ·)

/-- The reason of an exception is a format, and cut to what the buffer holds. -/
def raise (exception : List Char → Error) (reason : List Char) : Error :=
  match format reason with
  | some text => exception (text.take 510)
  | none => .undefined

/-- `throw vz::VZException`. -/
def fail {α : Type} (reason : String) : Except Error α :=
  .error (raise .failed reason.toList)

/-- A text without a percent sign is its own format. -/
theorem format_plain {s : List Char} (h : '%' ∉ s) : format s = some s := by
  induction s with
  | nil => rfl
  | cons c s ih =>
    obtain ⟨hc, hs⟩ := not_or.mp (mt List.mem_cons.mpr h)
    rw [format, ih hs]
    · rfl
    · intro s' hcontra
      exact absurd hcontra.symm hc
    · intro hcontra
      exact absurd hcontra.symm hc

/-- The only way in which a reason is no exception. -/
theorem raise_ne_undefined {exception : List Char → Error} (hne : ∀ t, exception t ≠ .undefined)
    {reason : List Char} (h : '%' ∉ reason) : raise exception reason ≠ .undefined := by
  rw [raise, format_plain h]
  exact hne _

/-! ## Option -/

/-- What an `Option` holds: the union `value`, or `_value_string`. -/
inductive OptionValue where
  | boolean (b : Bool)
  | double (x : Rat)
  | int (i : Int)
  | object (ms : List (String × Value))
  | array (vs : List Value)
  | string (s : List Char)

structure Opt where
  key : String
  value : OptionValue

/-- The constructor for a member of the configuration. -/
def Opt.new (key : String) : Value → Except Error Opt
  | .string s => .ok ⟨key, .string (getString s)⟩
  | .int i => .ok ⟨key, .int (getInt i)⟩
  | .boolean b => .ok ⟨key, .boolean b⟩
  | .double x => .ok ⟨key, .double x⟩
  | .object ms => .ok ⟨key, .object ms⟩
  | .array vs => .ok ⟨key, .array vs⟩
  | .null => fail ("Option::Option not a valid type " ++ key ++ " 0")

theorem Opt.new_key {key : String} {value : Value} {option : Opt}
    (h : Opt.new key value = .ok option) : option.key = key := by
  cases value with
  | null => cases h
  | _ =>
    obtain rfl := Except.ok.inj h
    rfl

theorem Opt.new_ne_undefined {key : String} {value : Value}
    (h : value = .null → '%' ∉ key.toList) :
    Opt.new key value ≠ .error .undefined := by
  cases value with
  | null =>
    have hreason : '%' ∉ ("Option::Option not a valid type " ++ key ++ " 0").toList := by
      simp [h rfl]
    intro hcontra
    exact raise_ne_undefined (fun t => by simp) hreason (Except.error.inj hcontra)
  | _ =>
    intro hcontra
    cases hcontra

namespace OptionValue

/-- `operator const char *`. -/
def asString : OptionValue → Except Error (List Char)
  | .string s => .ok s
  | _ => .error (raise .invalidType "not a string".toList)

/-- `operator int`. -/
def asInt : OptionValue → Except Error Int
  | .int i => .ok i
  | _ => .error (raise .invalidType "Invalid type".toList)

/-- `operator bool`. -/
def asBool : OptionValue → Except Error Bool
  | .boolean b => .ok b
  | _ => .error (raise .invalidType "Invalid type".toList)

end OptionValue

/-! ## OptionList -/

namespace OptionList

/-- The first option with the key. -/
def find (options : List Opt) (key : String) : Option OptionValue :=
  (options.find? fun it => it.key = key).map Opt.value

def lookup (options : List Opt) (key : String) : Except Error OptionValue :=
  match find options key with
  | some value => .ok value
  | none => .error (raise .optionNotFound ("Option '" ++ key ++ "' not found").toList)

def lookupString (options : List Opt) (key : String) : Except Error (List Char) :=
  (lookup options key).bind OptionValue.asString

def lookupInt (options : List Opt) (key : String) : Except Error Int :=
  (lookup options key).bind OptionValue.asInt

def lookupBool (options : List Opt) (key : String) : Except Error Bool :=
  (lookup options key).bind OptionValue.asBool

/-- `catch (vz::OptionNotFoundException &)` with a default. -/
def orDefault {α : Type} (default : α) : Except Error α → Except Error α
  | .error (.optionNotFound _) => .ok default
  | x => x

/-- With one option for a key, a lookup finds whatever option has it. -/
theorem find_eq_some_iff {options : List Opt}
    (hdistinct : (options.map Opt.key).Nodup) {key : String} {value : OptionValue} :
    find options key = some value ↔ ⟨key, value⟩ ∈ options := by
  rw [find, Option.map_eq_some_iff]
  constructor
  · rintro ⟨option, hfind, rfl⟩
    obtain rfl : option.key = key := by simpa using List.find?_some hfind
    exact List.mem_of_find?_eq_some hfind
  · intro hmem
    cases hfind : options.find? fun it => it.key = key with
    | none =>
      rw [List.find?_eq_none] at hfind
      exact absurd (hfind _ hmem) (by simp)
    | some option =>
      have hkey : option.key = key := by simpa using List.find?_some hfind
      have hsame := List.inj_on_of_nodup_map hdistinct (List.mem_of_find?_eq_some hfind) hmem hkey
      exact ⟨option, rfl, congrArg Opt.value hsame⟩

/-- Options in another order answer every lookup alike. -/
theorem find_perm {options others : List Opt} (h : options.Perm others)
    (hdistinct : (options.map Opt.key).Nodup) : find options = find others := by
  funext key
  apply Option.ext
  intro value
  have hdistinct' := (h.map Opt.key).nodup hdistinct
  rw [find_eq_some_iff hdistinct, find_eq_some_iff hdistinct', h.mem_iff]

end OptionList
end VzLogger.Config
