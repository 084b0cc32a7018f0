import VzLogger.Lib.Hex

/-! # Options in hexadecimal

The constructors of `MeterD0` and `MeterSML` decode the options `pullseq` and `ackseq`
with three copies of one loop: two characters are copied into an array of three, which
`strtol` reads as a string.  One of the copies ends the string; the other two leave the
third character, and what lies behind the array, as it was.

`decoded_iff` says what may lie there without harm.
-/
namespace VzLogger.HexOption
open CString

/-- `char hs[3]`, which is not initialized, and the memory behind it. -/
structure Scratch where
  hs : Vector Char 3
  behind : List Char

namespace Scratch

/-- `strncpy(hs, src, 2)`: a shorter string is padded with NULs. -/
def strncpy (s : Scratch) (src : List Char) : Scratch :=
  { s with hs := #v[(cStr src).getD 0 '\x00', (cStr src).getD 1 '\x00', s.hs[2]] }

/-- `hs[2] = 0`. -/
def terminate (s : Scratch) : Scratch := { s with hs := s.hs.set 2 '\x00' }

/-- The string that starts at `hs`. -/
def text (s : Scratch) : List Char := cStr (s.hs.toList ++ s.behind)

/-- The hexadecimal digits that lie behind the first two characters. -/
def digits (s : Scratch) : List Char := (s.hs[2] :: s.behind).takeWhile isHexDigit

end Scratch

/-- `hx[0] = strtol(hs, NULL, 16)`. -/
def hexByte (longBits : Nat) (s : Scratch) : UInt8 := UInt8.ofInt (strtolHex longBits s.text)

/-- The loop from the index `i` on, with the array as each round finds it, and what it
does with it before the copy. -/
def hexLoop (longBits : Nat) (prepare : Scratch → Scratch) (stale : Nat → Scratch) :
    Nat → List Char → List UInt8
  | _, [] => []
  | i, [c] => [hexByte longBits ((prepare (stale i)).strncpy [c])]
  | i, c :: d :: hex =>
    hexByte longBits ((prepare (stale i)).strncpy (c :: d :: hex)) ::
      hexLoop longBits prepare stale (i + 2) hex

/-- `pullseq` in `MeterD0::MeterD0`: `_pull`. -/
def meterD0Pullseq (longBits : Nat) (stale : Nat → Scratch) (hex : List Char) : List UInt8 :=
  hexLoop longBits Scratch.terminate stale 0 hex

/-- `ackseq` in `MeterD0::MeterD0`: `_auto_ack` and `_ack`. -/
def meterD0Ackseq (longBits : Nat) (stale : Nat → Scratch) (hex : List Char) :
    Bool × List UInt8 :=
  if hex = "auto".toList then (true, []) else (false, hexLoop longBits id stale 0 hex)

/-- `pullseq` in `MeterSML::MeterSML`: `_pull`. -/
def meterSMLPullseq (longBits : Nat) (stale : Nat → Scratch) (hex : List Char) : List UInt8 :=
  hexLoop longBits id stale 0 hex

/-- A number gives the byte of its first two digits: its last two digits have the same
value; or it is too large for a `long`, and the byte is `ff`. -/
def Harmless (longBits : Nat) (number : List Char) : Prop :=
  if hexToNat number < 2 ^ (longBits - 1) then
    hexToNat (Window.lastOf 2 number) = hexToNat (number.take 2)
  else hexToNat (number.take 2) = 255

/-- The digits from `hs` on are harmless in every round. -/
def AllHarmless (longBits : Nat) (stale : Nat → Scratch) (hex : List Char) : Prop :=
  ∀ k, 2 * k < hex.length →
    Harmless longBits ((hex.drop (2 * k)).take 2 ++ (stale (2 * k)).digits)

/-! ## One round -/

section
variable {longBits : Nat} {h l : Char} {x y : Nat}

theorem isHexDigit_of_eq {c : Char} {n : Nat} (h : hexDigit c = some n) : isHexDigit c = true := by
  rw [isHexDigit, h]
  rfl

theorem cStr_cons {c : Char} (hc : isHexDigit c = true) (s : List Char) :
    cStr (c :: s) = c :: cStr s :=
  List.takeWhile_cons_of_pos (decide_eq_true (isHexDigit_ne hc).2.2.2)

/-- The string that a round hands to `strtol`. -/
theorem text_strncpy (hh : isHexDigit h = true) (hl : isHexDigit l = true) (s : Scratch)
    (hex : List Char) :
    (s.strncpy (h :: l :: hex)).text = h :: l :: cStr (s.hs[2] :: s.behind) := by
  have harray : (s.strncpy (h :: l :: hex)).hs.toList = [h, l, s.hs[2]] := by
    rw [Scratch.strncpy, cStr_cons hh, cStr_cons hl]
    rfl
  rw [Scratch.text, harray]
  change cStr (h :: l :: s.hs[2] :: s.behind) = _
  rw [cStr_cons hh, cStr_cons hl]

theorem takeWhile_cStr (s : List Char) :
    (cStr s).takeWhile isHexDigit = s.takeWhile isHexDigit := by
  rw [cStr, List.takeWhile_takeWhile]
  congr 1
  funext c
  cases hc : isHexDigit c with
  | false => simp
  | true => simp [(isHexDigit_ne hc).2.2.2]

/-- The low byte of a number, as far as `long` holds it. -/
theorem toNat_ofInt_clampLong (hlong : 32 ≤ longBits) (n : Nat) :
    (UInt8.ofInt (clampLong longBits n)).toNat =
      if n < 2 ^ (longBits - 1) then n % 256 else 255 := by
  obtain ⟨m, hm, hpos⟩ : ∃ m, 2 ^ (longBits - 1) = 256 * m ∧ 0 < m := by
    refine ⟨2 ^ (longBits - 9), ?_, Nat.two_pow_pos _⟩
    rw [show longBits - 1 = 8 + (longBits - 9) by omega, pow_add]
    rfl
  have hm' : (2 : Int) ^ (longBits - 1) = (256 * m : Nat) := by exact_mod_cast hm
  rw [clampLong, hm', hm, UInt8.ofInt, UInt8.toNat_ofNat']
  split <;> omega

/-- **One round** gives the byte of its pair exactly if the digits behind are harmless. -/
theorem hexByte_strncpy (hlong : 32 ≤ longBits) (hh : hexDigit h = some x)
    (hl : hexDigit l = some y) (s : Scratch) (hex : List Char) :
    hexByte longBits (s.strncpy (h :: l :: hex)) = UInt8.ofNat (x * 16 + y) ↔
      Harmless longBits (h :: l :: s.digits) := by
  have hbyte : x * 16 + y < 256 := by
    have := hexDigit_lt hh
    have := hexDigit_lt hl
    omega
  have hlen : 2 ≤ (h :: l :: s.digits).length := Nat.le_add_left 2 _
  rw [hexByte, text_strncpy (isHexDigit_of_eq hh) (isHexDigit_of_eq hl),
    strtolHex_pair (isHexDigit_of_eq hh) (isHexDigit_of_eq hl), takeWhile_cStr, ← Scratch.digits,
    ← UInt8.toNat_inj, toNat_ofInt_clampLong hlong, UInt8.toNat_ofNat', Nat.mod_eq_of_lt hbyte,
    hexToNat_mod hlen, Harmless, List.take_succ_cons, List.take_succ_cons, List.take_zero,
    hexToNat_pair hh hl]
  split
  · rfl
  · exact eq_comm

/-- Nothing behind the pair is harmless. -/
theorem harmless_pair (hlong : 32 ≤ longBits) (h l : Char) : Harmless longBits [h, l] := by
  have hfits : hexToNat [h, l] < 2 ^ (longBits - 1) := by
    have hlt : hexToNat [h, l] < 2 ^ 8 := hexToNat_lt [h, l]
    have hpow : 2 ^ 8 ≤ 2 ^ (longBits - 1) := Nat.pow_le_pow_right (by decide) (by omega)
    omega
  rw [Harmless, if_pos hfits]
  rfl

end

/-- An array that is terminated ends the number. -/
theorem digits_terminate (s : Scratch) : s.terminate.digits = [] := by
  have hnul : s.terminate.hs[2] = '\x00' := by simp [Scratch.terminate]
  rw [Scratch.digits, hnul]
  exact List.takeWhile_cons_of_neg (by decide)

/-! ## The loop -/

section
variable {longBits : Nat} {bytes : List UInt8} {hex : List Char}

theorem hexText_ne_auto (hhex : HexText bytes hex) : hex ≠ "auto".toList := by
  rintro rfl
  have hu : hexDigit 'u' = none := by decide
  cases hhex with
  | cons _ hl _ => cases hu.symm.trans hl

/-- **The loop** decodes a text exactly if the digits from `hs` on are harmless in every
round. -/
theorem hexLoop_iff (hlong : 32 ≤ longBits) (hhex : HexText bytes hex)
    (prepare : Scratch → Scratch) (stale : Nat → Scratch) (i : Nat) :
    hexLoop longBits prepare stale i hex = bytes ↔
      ∀ k, 2 * k < hex.length →
        Harmless longBits ((hex.drop (2 * k)).take 2 ++ (prepare (stale (i + 2 * k))).digits) := by
  induction hhex generalizing i with
  | nil =>
    refine iff_of_true rfl ?_
    intro k hk
    cases hk
  | @cons h l x y bytes hex hh hl _ ih =>
    rw [hexLoop, List.cons.injEq, hexByte_strncpy hlong hh hl, ih]
    constructor
    · rintro ⟨hfirst, hrest⟩ k hk
      cases k with
      | zero => exact hfirst
      | succ k =>
        have hround := hrest k (by simp only [List.length_cons] at hk; omega)
        rw [Nat.add_assoc, Nat.add_comm 2] at hround
        exact hround
    · intro hall
      refine ⟨hall 0 (Nat.succ_pos _), ?_⟩
      intro k hk
      have hround := hall (k + 1) (by simp only [List.length_cons]; omega)
      rw [Nat.add_assoc, Nat.add_comm 2]
      exact hround

/-- A loop that terminates the array decodes every text. -/
theorem hexLoop_terminate (hlong : 32 ≤ longBits) (hhex : HexText bytes hex)
    (stale : Nat → Scratch) (i : Nat) :
    hexLoop longBits Scratch.terminate stale i hex = bytes := by
  induction hhex generalizing i with
  | nil => rfl
  | cons hh hl _ ih =>
    have hbyte := hexByte_strncpy hlong hh hl (stale i).terminate
    rw [digits_terminate] at hbyte
    rw [hexLoop, (hbyte _).mpr (harmless_pair hlong _ _), ih]

/-- A loop that does not prepare the array. -/
theorem hexLoop_id_iff (hlong : 32 ≤ longBits) (hhex : HexText bytes hex)
    (stale : Nat → Scratch) :
    hexLoop longBits id stale 0 hex = bytes ↔ AllHarmless longBits stale hex := by
  have hloop := hexLoop_iff hlong hhex id stale 0
  simp only [Nat.zero_add, id] at hloop
  exact hloop

theorem meterD0Ackseq_eq_iff (hlong : 32 ≤ longBits) (hhex : HexText bytes hex)
    (stale : Nat → Scratch) :
    meterD0Ackseq longBits stale hex = (false, bytes) ↔ AllHarmless longBits stale hex := by
  rw [meterD0Ackseq, if_neg (hexText_ne_auto hhex), Prod.mk.injEq,
    hexLoop_id_iff hlong hhex]
  exact and_iff_right rfl

theorem meterSMLPullseq_eq_iff (hlong : 32 ≤ longBits) (hhex : HexText bytes hex)
    (stale : Nat → Scratch) :
    meterSMLPullseq longBits stale hex = bytes ↔ AllHarmless longBits stale hex :=
  hexLoop_id_iff hlong hhex stale

/-- **When the decoders yield the bytes**: the one that ends its string always; the two
others exactly if the digits behind theirs are harmless. -/
theorem decoded_iff (hlong : 32 ≤ longBits) (hhex : HexText bytes hex)
    (pull ack sml : Nat → Scratch) :
    (meterD0Pullseq longBits pull hex = bytes ∧ meterD0Ackseq longBits ack hex = (false, bytes) ∧
        meterSMLPullseq longBits sml hex = bytes) ↔
      AllHarmless longBits ack hex ∧ AllHarmless longBits sml hex := by
  have hpull : meterD0Pullseq longBits pull hex = bytes := hexLoop_terminate hlong hhex pull 0
  rw [meterD0Ackseq_eq_iff hlong hhex, meterSMLPullseq_eq_iff hlong hhex]
  exact and_iff_right hpull

/-- The byte 255, in digits of either case, over arrays that go on with a `z`. -/
theorem decoded_iff_ff :
    (meterD0Pullseq 64 (fun _ => ⟨#v['x', 'y', 'z'], ['0']⟩) ['f', 'F'] = [255] ∧
        meterD0Ackseq 64 (fun _ => ⟨#v['x', 'y', 'z'], ['0']⟩) ['f', 'F'] = (false, [255]) ∧
        meterSMLPullseq 64 (fun _ => ⟨#v['x', 'y', 'z'], ['0']⟩) ['f', 'F'] = [255]) ↔
      AllHarmless 64 (fun _ => ⟨#v['x', 'y', 'z'], ['0']⟩) ['f', 'F'] ∧
        AllHarmless 64 (fun _ => ⟨#v['x', 'y', 'z'], ['0']⟩) ['f', 'F'] :=
  decoded_iff (by decide) (show HexText [UInt8.ofNat (15 * 16 + 15)] ['f', 'F'] from
    .cons (by decide) (by decide) .nil) _ _ _

/-- An `f` behind the digits of 65 makes it 31. -/
theorem not_decoded_digit :
    HexText [65] ['4', '1'] ∧
      meterD0Pullseq 64 (fun _ => ⟨#v['x', 'y', 'f'], ['\x00']⟩) ['4', '1'] = [65] ∧
      meterD0Ackseq 64 (fun _ => ⟨#v['x', 'y', 'f'], ['\x00']⟩) ['4', '1'] = (false, [31]) ∧
      meterSMLPullseq 64 (fun _ => ⟨#v['x', 'y', 'f'], ['\x00']⟩) ['4', '1'] = [31] := by
  refine ⟨?_, by decide +kernel, by decide +kernel, by decide +kernel⟩
  exact (.cons (by decide) (by decide) .nil : HexText [UInt8.ofNat (4 * 16 + 1)] ['4', '1'])

/-- What `pullseq` of a D0 meter can be set to is every byte string. -/
theorem exists_pullseq (hlong : 32 ≤ longBits) (bytes : List UInt8) :
    ∃ hex, ∀ stale, meterD0Pullseq longBits stale hex = bytes := by
  obtain ⟨hex, hhex⟩ := exists_text bytes
  refine ⟨hex, ?_⟩
  intro stale
  exact hexLoop_terminate hlong hhex stale 0

/-- On digits in pairs the three agree, where what lies behind is harmless. -/
theorem decoders_agree (hlong : 32 ≤ longBits) {n : Nat} (hlen : hex.length = 2 * n)
    (hdigits : ∀ c ∈ hex, isHexDigit c = true) (pull : Nat → Scratch) {ack sml : Nat → Scratch}
    (hack : AllHarmless longBits ack hex) (hsml : AllHarmless longBits sml hex) :
    meterD0Ackseq longBits ack hex = (false, meterD0Pullseq longBits pull hex) ∧
      meterSMLPullseq longBits sml hex = meterD0Pullseq longBits pull hex := by
  obtain ⟨bytes, hhex⟩ := exists_bytes hlen hdigits
  rw [meterD0Pullseq, hexLoop_terminate hlong hhex, (meterD0Ackseq_eq_iff hlong hhex ack).mpr hack,
    (meterSMLPullseq_eq_iff hlong hhex sml).mpr hsml]
  exact ⟨rfl, rfl⟩

end

end VzLogger.HexOption
