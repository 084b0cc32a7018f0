import VzLogger.Reading
import VzLogger.Lib.CString

/-! # Identifiers as text

`reading_id_parse` makes the identifier of a channel from its configuration, by
the protocol of the meter; `ReadingIdentifier::compare` decides whether a reading
belongs to a channel.  `ChannelIdentifier` also has a parser and a printer of its
own.  An `int` is an integer here; a sensor number so large that adding one
overflows is not modelled.
-/
namespace VzLogger
open CString

inductive MeterProtocol where
  | none | file | exec | random | s0 | d0 | sml | fluksov2 | ocr | w1therm | oms | onboardTemp
  | emonlib | hcsr04 | w1tGpio | selfmon | genericAdc
  deriving DecidableEq, Repr

/-- `MAX_IDENTIFIER_LEN`. -/
def maxIdentifierLen : Nat := 255

/-- How a FluksoV2 identifier starts. -/
def sensorWord : List Char := "sensor".toList

/-- `sensor%u/%12s`. -/
def sensorFormat : List Directive :=
  literal sensorWord ++ [.number false true, .char '/', .word 12]

/-- `reading_id_parse`.  The code that looks at the type of a FluksoV2 sensor is
compiled out. -/
def readingIdParse (longBits : Nat) (protocol : MeterProtocol) (string : List Char) :
    Except String ReadingIdentifier :=
  match protocol with
  | .d0 | .sml | .oms =>
    match Obis.ofText string with
    | some obis => .ok (.obis obis)
    | Option.none => .error "Parse ObisString failed."
  | .fluksov2 =>
    match sscanf longBits sensorFormat string with
    | [.int channel, .text _] => .ok (.channel (channel + 1))
    | _ => .error "meter-fluksov4 failed"
  | .file | .exec | .s0 | .ocr | .w1therm | .emonlib | .hcsr04 | .w1tGpio | .selfmon =>
    .ok (.string string)
  | .none | .random | .onboardTemp | .genericAdc => .ok .nil

/-- `ReadingIdentifier::compare`. -/
def ReadingIdentifier.compare (lhs rhs : ReadingIdentifier) : Bool :=
  match lhs with
  | .obis lhsx =>
    match rhs with
    | .obis rhsx => lhsx == rhsx
    | _ => false
  | .string lhsx =>
    match rhs with
    | .string rhsx => lhsx == rhsx
    | _ => false
  | .channel lhsx =>
    match rhs with
    | .channel rhsx => lhsx == rhsx
    | _ => false
  | .nil =>
    match rhs with
    | .nil => true
    | _ => false

/-- Two identifiers compare equal only if they are of one class and hold the same. -/
theorem ReadingIdentifier.compare_iff (lhs rhs : ReadingIdentifier) :
    lhs.compare rhs = true ↔ lhs = rhs := by
  cases lhs <;> cases rhs <;> simp [ReadingIdentifier.compare]

namespace ChannelIdentifier

/-- `ChannelIdentifier::parse`; the result is `_channel`. -/
def parse (longBits : Nat) (string : List Char) : Except String Int :=
  match sscanf longBits sensorFormat string with
  | [.int channel, .text type] =>
    -- one more, to distinguish between +0 and -0
    let channel := channel + 1
    if type = "consumption".toList then .ok (channel * -1)
    else if type ≠ "power".toList then .error "Invalid channel type"
    else .ok channel
  | _ => .error "Failed to parse channel identifier"

theorem parse_consumption {longBits : Nat} {string : List Char} {channel : Int}
    (h : sscanf longBits sensorFormat string = [.int channel, .text "consumption".toList]) :
    parse longBits string = .ok (-(channel + 1)) := by
  rw [parse, h]
  exact (if_pos rfl).trans (congrArg Except.ok (Int.mul_neg_one _))

theorem parse_power {longBits : Nat} {string : List Char} {channel : Int}
    (h : sscanf longBits sensorFormat string = [.int channel, .text "power".toList]) :
    parse longBits string = .ok (channel + 1) := by
  have hne : "power".toList ≠ "consumption".toList := by decide
  rw [parse, h]
  exact (if_neg hne).trans (if_neg (by simp))

/-- `ChannelIdentifier::unparse`: the text in a buffer of `n` characters. -/
def unparse (n : Nat) (channel : Int) : List Char :=
  let type := if 0 < channel then "power".toList else "consumption".toList
  let number := (((channel.natAbs : Int) - 1) % 2 ^ 32).toNat
  (sensorWord ++ (Decimal.ofNat number ++ '/' :: type)).take (n - 1)

end ChannelIdentifier

/-! ## Sensor texts -/

/-- What a FluksoV2 sensor measures. -/
inductive SensorType where
  | consumption
  | power
  deriving DecidableEq

namespace SensorType

/-- The type's word in a sensor text. -/
def text : SensorType → List Char
  | consumption => "consumption".toList
  | power => "power".toList

/-- The sign encoding: consumption is negative. -/
def encode : SensorType → Int → Int
  | consumption, channel => -channel
  | power, channel => channel

theorem text_ne_nil (type : SensorType) : type.text ≠ [] := by cases type <;> decide

theorem isSpace_text (type : SensorType) : ∀ c ∈ type.text, isSpace c = false := by
  have h : type.text.all (fun c => !isSpace c) = true := by cases type <;> decide
  simpa using h

theorem length_text (type : SensorType) : type.text.length ≤ 12 := by cases type <;> decide

end SensorType

/-- `sensor<n>/<type>`. -/
def sensorText (n : Nat) (type : SensorType) : List Char :=
  sensorWord ++ (Decimal.ofNat n ++ '/' :: type.text)

section
variable {longBits : Nat} (hbits : 32 ≤ longBits) {n : Nat} (hn : n < 2 ^ 32) (type : SensorType)
include hbits hn

theorem sscanf_sensorText :
    sscanf longBits sensorFormat (sensorText n type) = [.int (toInt n), .text type.text] := by
  have hslash : ∀ c ∈ ('/' :: type.text).head?, c.isDigit = false := by simp
  rw [sensorFormat, sensorText, sscanf_literal, sscanf_unsigned hbits hn _ hslash, sscanf_char,
    sscanf_word type.text_ne_nil type.isSpace_text type.length_text]

/-- The configuration ignores the type of a sensor text. -/
theorem readingIdParse_sensorText :
    readingIdParse longBits .fluksov2 (sensorText n type) = .ok (.channel (toInt n + 1)) := by
  simp only [readingIdParse, sscanf_sensorText hbits hn]

end

namespace ChannelIdentifier

theorem parse_of_sscanf {longBits : Nat} {string : List Char} {channel : Int} {type : SensorType}
    (h : sscanf longBits sensorFormat string = [.int channel, .text type.text]) :
    parse longBits string = .ok (type.encode (channel + 1)) := by
  cases type with
  | consumption => exact parse_consumption h
  | power => exact parse_power h

/-- The parser of `ChannelIdentifier` encodes the type of a sensor text in the sign. -/
theorem parse_sensorText {longBits : Nat} (hbits : 32 ≤ longBits) {n : Nat} (hn : n < 2 ^ 32)
    (type : SensorType) :
    parse longBits (sensorText n type) = .ok (type.encode (toInt n + 1)) :=
  parse_of_sscanf (sscanf_sensorText hbits hn type)

/-- A sensor text fits into the buffer of an identifier. -/
theorem length_sensorText {n : Nat} (hn : n < 2 ^ 32) (type : SensorType) :
    (sensorText n type).length ≤ maxIdentifierLen - 1 := by
  have hdigits : (Decimal.ofNat n).length ≤ 10 :=
    (Nat.length_toDigits_le_iff (by decide) (by decide)).mpr (by omega)
  have hword : sensorWord.length = 6 := by decide
  have htype := type.length_text
  simp only [sensorText, maxIdentifierLen, List.length_append, List.length_cons]
  omega

/-- The number a sensor text shows for an identifier, read as an `int`. -/
theorem toInt_shown {channel : Int} (h : channel.natAbs < 2 ^ 31) :
    toInt ((((channel.natAbs : Int) - 1) % 2 ^ 32).toNat : Int) = (channel.natAbs : Int) - 1 := by
  rcases Nat.eq_zero_or_pos channel.natAbs with h0 | hpos
  · -- `_channel` is 0: the text shows 4294967295
    rw [h0]
    decide
  · have hmod : ((channel.natAbs : Int) - 1) % 2 ^ 32 = (channel.natAbs : Int) - 1 := by omega
    rw [hmod, Int.toNat_of_nonneg (by omega)]
    exact toInt_of_mem (by omega) (by omega)

/-- `parse` undoes `unparse`. -/
theorem parse_unparse_of_lt {longBits : Nat} (hbits : 32 ≤ longBits) {channel : Int}
    (h : channel.natAbs < 2 ^ 31) :
    parse longBits (unparse maxIdentifierLen channel) = .ok channel := by
  have hn : (((channel.natAbs : Int) - 1) % 2 ^ 32).toNat < 2 ^ 32 := by omega
  obtain ⟨type, htype, hencode⟩ : ∃ type : SensorType,
      (if 0 < channel then "power".toList else "consumption".toList) = type.text ∧
        type.encode channel.natAbs = channel := by
    by_cases hpos : 0 < channel
    · exact ⟨.power, if_pos hpos, by show (channel.natAbs : Int) = channel; omega⟩
    · exact ⟨.consumption, if_neg hpos, by show -(channel.natAbs : Int) = channel; omega⟩
  have hshow : unparse maxIdentifierLen channel =
      sensorText (((channel.natAbs : Int) - 1) % 2 ^ 32).toNat type := by
    rw [unparse, htype]
    exact List.take_of_length_le (length_sensorText hn type)
  rw [hshow, parse_sensorText hbits hn, toInt_shown h, Int.sub_add_cancel, hencode]

end ChannelIdentifier
end VzLogger
