import VzLogger.MeterOCR.Read
import VzLogger.Lib.Hysteresis

/-! # The binary recognizer

`RecognizerBinary` signals an impulse when the red in its box goes from dark to bright:
it cuts the box out of the image, filters it, takes the mean of the pixels, and
switches with hysteresis.  Cutting out and filtering are the image library's, and
parameters here.
-/
namespace VzLogger.MeterOCR
open CString

/-- What the recognizer uses of the image library: `pixRasterop` into a new image, from
a corner on and of a size, `pixMultMatrixColor` with the kernel, and `pixGetPixel`,
which leaves 0 where there is no pixel. -/
structure Leptonica (Pix : Type) where
  rasterop : Pix → (x y w h : Int) → Pix
  multMatrixColor : Pix → Pix
  getPixel : Pix → (x y : Int) → UInt32

/-- A box, with coordinates that are `int`s. -/
structure BoundingBox where
  identifier : List Char
  x1 : Int
  y1 : Int
  x2 : Int
  y2 : Int
  x1_lt : x1 < 2 ^ 31
  y1_lt : y1 < 2 ^ 31
  x2_ge : -2 ^ 31 ≤ x2
  y2_ge : -2 ^ 31 ≤ y2

namespace BoundingBox
variable (b : BoundingBox)

/-- `_min_x`: the least of `INT_MAX` and the boxes, of which there is one. -/
def minX : Int := min (2 ^ 31 - 1) b.x1
def minY : Int := min (2 ^ 31 - 1) b.y1
def maxX : Int := max (-2 ^ 31) b.x2
def maxY : Int := max (-2 ^ 31) b.y2

/-- `w`, at least one. -/
def width : Int := if b.x2 - b.x1 ≤ 0 then 1 else b.x2 - b.x1
def height : Int := if b.y2 - b.y1 ≤ 0 then 1 else b.y2 - b.y1

end BoundingBox

/-- `for (int i = lo; i < hi; ++i)`, adding up. -/
def sumFrom (lo hi : Int) (f : Int → Nat) : Nat :=
  ((List.range (hi - lo).toNat).map fun i => f (lo + i)).sum

/-- `c >> 24`. -/
def red (c : UInt32) : Nat := (c >>> 24).toNat

/-- `_EDGE_HIGH` and `_EDGE_LOW`. -/
def edgeHigh : Nat := 70
def edgeLow : Nat := 30

/-- `reads[id].value = value`. -/
def ReadsMap.setValue (id : List Char) (value : Rat) : ReadsMap → ReadsMap
  | [] => [(id, { Reads.initial with value := some value })]
  | (k, r) :: reads =>
    if k = id then (k, { r with value := some value }) :: reads
    else if id < k then (id, { Reads.initial with value := some value }) :: (k, r) :: reads
    else (k, r) :: ReadsMap.setValue id value reads

section
variable {Pix : Type} (lept : Leptonica Pix) (longBits : Nat) (b : BoundingBox)

/-- The box, cut out and filtered, on an image moved by `dX` and `dY`. -/
def scanned (image : Pix) (dX dY : Int) : Pix :=
  lept.multMatrixColor
    (lept.rasterop image (b.minX + dX) (b.minY + dY) (b.maxX - b.minX) (b.maxY - b.minY))

/-- The sum over the box, of the pixel at its corner: not of that at `x` and `y`. -/
def sumBox (image : Pix) : Nat :=
  let cx := b.x1 - b.minX
  let cy := b.y1 - b.minY
  sumFrom cy b.height fun _ => sumFrom cx b.width fun _ => red (lept.getPixel image cx cy)

/-- `val /= (w * h)`, of `unsigned long`s; there is no result of a division by zero. -/
def average (image : Pix) : Option Nat :=
  let area := (toInt (b.width * b.height) % 2 ^ longBits).toNat
  if area = 0 then none else some (sumBox lept b image % 2 ^ longBits / area)

/-- `RecognizerBinary::recognize`: the readings, and `_last_state`. -/
def recognize (lastState : Bool) (image : Pix) (dX dY : Int) (readings : ReadsMap) :
    Option (ReadsMap × Bool) :=
  (average lept longBits b (scanned lept b image dX dY)).map fun val =>
    let newState :=
      if !lastState then (if edgeHigh < val then true else lastState)  -- edge low->high?
      else if val < edgeLow then false else lastState  -- edge high->low?
    if newState != lastState && newState then (readings.setValue b.identifier 1, newState)
    else (readings, newState)

end

/-! ## Runs -/

/-- The state of the recognizer, and the map it has filled for each image. -/
structure BinaryState where
  lastState : Bool
  readings : List ReadsMap

/-- An image, and what the detection of its position makes of it. -/
structure Frame (Pix : Type) where
  image : Pix
  dX : Int
  dY : Int

/-- A meter with this recognizer alone. -/
def binaryMachine {Pix : Type} (lept : Leptonica Pix) (longBits : Nat) (b : BoundingBox) :
    EventMachine.Machine BinaryState (Frame Pix) where
  init := ⟨false, []⟩
  step s frame :=
    (recognize lept longBits b s.lastState frame.image frame.dX frame.dY []).map
      fun (reads, lastState) => ⟨lastState, s.readings ++ [reads]⟩

/-- The impulses signalled: the maps with a value of 1. -/
def impulses (b : BoundingBox) (s : BinaryState) : Nat :=
  s.readings.countP fun reads => (reads.lookup b.identifier).any fun r => r.value = some 1

section
variable {Pix : Type} (lept : Leptonica Pix) (b : BoundingBox)

/-- The red of the pixel at the corner of the box. -/
def cornerRed (frame : Frame Pix) : Nat :=
  red (lept.getPixel (scanned lept b frame.image frame.dX frame.dY) 0 0)

/-- The mean red of all pixels of the box. -/
def meanRed (frame : Frame Pix) : Rat :=
  (sumFrom 0 b.height fun y => sumFrom 0 b.width fun x =>
    red (lept.getPixel (scanned lept b frame.image frame.dX frame.dY) x y) : Nat) /
      (b.width * b.height)

end

/-- The area is an `int`, and the sum an `unsigned long`. -/
structure BoundingBox.Fits (b : BoundingBox) (longBits : Nat) : Prop where
  area : b.width * b.height < 2 ^ 31
  sum : b.width * b.height * 255 < 2 ^ longBits

/-! ### One image -/

theorem red_le (c : UInt32) : red c ≤ 255 := by
  have hlt := c.toNat_lt
  have hshift : (c >>> 24).toNat = c.toNat / 2 ^ 24 := by
    rw [UInt32.toNat_shiftRight, Nat.shiftRight_eq_div_pow]
    rfl
  rw [red, hshift]
  omega

theorem sumFrom_const (lo hi : Int) (c : Nat) :
    sumFrom lo hi (fun _ => c) = (hi - lo).toNat * c := by
  simp [sumFrom]

namespace BoundingBox

theorem one_le_width (b : BoundingBox) : 1 ≤ b.width := by
  unfold width
  split <;> omega

theorem one_le_height (b : BoundingBox) : 1 ≤ b.height := by
  unfold height
  split <;> omega

/-- The box is cut out at its corner. -/
theorem corner (b : BoundingBox) : b.x1 - b.minX = 0 ∧ b.y1 - b.minY = 0 := by
  have hx := b.x1_lt
  have hy := b.y1_lt
  unfold minX minY
  omega

end BoundingBox

section
variable {Pix : Type} (lept : Leptonica Pix) {longBits : Nat} {b : BoundingBox}

/-- The mean of one pixel is that pixel. -/
theorem average_eq (hfits : b.Fits longBits) (image : Pix) :
    average lept longBits b image = some (red (lept.getPixel image 0 0)) := by
  obtain ⟨harea, hsum⟩ := hfits
  obtain ⟨w, hw⟩ := Int.eq_ofNat_of_zero_le (show 0 ≤ b.width by have := b.one_le_width; omega)
  obtain ⟨h, hh⟩ := Int.eq_ofNat_of_zero_le (show 0 ≤ b.height by have := b.one_le_height; omega)
  have hw1 : 1 ≤ w := by have := b.one_le_width; omega
  have hh1 : 1 ≤ h := by have := b.one_le_height; omega
  obtain ⟨hcx, hcy⟩ := b.corner
  rw [hw, hh] at harea hsum
  have hpos : 0 < w * h := Nat.mul_pos hw1 hh1
  have harea : w * h < 2 ^ 31 := by exact_mod_cast harea
  have hsum : w * h * 255 < 2 ^ longBits := by exact_mod_cast hsum
  have hred := red_le (lept.getPixel image 0 0)
  have htotal : sumBox lept b image = w * h * red (lept.getPixel image 0 0) := by
    simp only [sumBox, hcx, hcy, sumFrom_const, hw, hh, Int.sub_zero, Int.toNat_natCast]
    ring
  have htotal_lt : w * h * red (lept.getPixel image 0 0) < 2 ^ longBits :=
    lt_of_le_of_lt (Nat.mul_le_mul_left _ hred) hsum
  have hint : (toInt (b.width * b.height) % 2 ^ longBits).toNat = w * h := by
    have hcast : b.width * b.height = ((w * h : Nat) : Int) := by rw [hw, hh, Nat.cast_mul]
    rw [hcast, toInt_of_mem (by omega) (by omega)]
    have hmod : ((w * h : Nat) : Int) % 2 ^ longBits = ((w * h % 2 ^ longBits : Nat) : Int) := by
      push_cast
      rfl
    rw [hmod, Int.toNat_natCast, Nat.mod_eq_of_lt (by omega)]
  simp only [average, hint]
  rw [if_neg (by omega), htotal, Nat.mod_eq_of_lt htotal_lt, Nat.mul_div_cancel_left _ hpos]

/-- Values of a byte and rationals switch alike. -/
theorem switch_natCast (low high : Nat) (on : Bool) (x : Nat) :
    Hysteresis.switch (low : Rat) high on x = Hysteresis.switch low high on x := by
  simp [Hysteresis.switch]

/-- What is signalled for an image. -/
theorem recognize_eq (hfits : b.Fits longBits) (lastState : Bool) (frame : Frame Pix) :
    ∃ reads, recognize lept longBits b lastState frame.image frame.dX frame.dY [] =
        some (reads, Hysteresis.switch (edgeLow : Rat) edgeHigh lastState (cornerRed lept b frame)) ∧
      ((reads.lookup b.identifier).any (fun r => r.value = some 1) =
        (!lastState && Hysteresis.switch (edgeLow : Rat) edgeHigh lastState
          (cornerRed lept b frame))) := by
  have haverage : average lept longBits b (scanned lept b frame.image frame.dX frame.dY) =
      some (cornerRed lept b frame) := average_eq lept hfits _
  rw [recognize, haverage, switch_natCast, Option.map_some]
  generalize cornerRed lept b frame = val
  cases lastState with
  | true =>
    refine ⟨[], ?_, by simp⟩
    by_cases hlow : val < edgeLow <;> simp [Hysteresis.switch, hlow]
  | false =>
    by_cases hhigh : edgeHigh < val
    · refine ⟨ReadsMap.setValue b.identifier 1 [], ?_, ?_⟩
      · simp [Hysteresis.switch, hhigh]
      · simp [ReadsMap.setValue, Hysteresis.switch, hhigh]
    · refine ⟨[], ?_, ?_⟩
      · simp [Hysteresis.switch, hhigh]
      · simp [Hysteresis.switch, hhigh]

/-- **What the recognizer counts**: the edges of the pixel at the corner. -/
theorem run_impulses (hfits : b.Fits longBits) (frames : List (Frame Pix)) (s : BinaryState) :
    ∃ t, (binaryMachine lept longBits b).run s frames = some t ∧
      impulses b t = impulses b s + Hysteresis.edges (edgeLow : Rat) edgeHigh s.lastState
        (frames.map fun frame => (cornerRed lept b frame : Rat)) := by
  induction frames generalizing s with
  | nil => exact ⟨s, rfl, rfl⟩
  | cons frame frames ih =>
    obtain ⟨reads, hrecognize, hsignal⟩ := recognize_eq lept hfits s.lastState frame
    obtain ⟨t, hrun, himpulses⟩ := ih ⟨_, s.readings ++ [reads]⟩
    refine ⟨t, EventMachine.Machine.run_cons.mpr ⟨_, ?_, hrun⟩, ?_⟩
    · show (recognize _ _ _ _ _ _ _ _).map _ = _
      rw [hrecognize]
      rfl
    · rw [himpulses, List.map_cons, Hysteresis.edges, ← hsignal]
      simp only [impulses, List.countP_append, List.countP_singleton]
      omega

/-- **When the impulses are the rising edges of the mean**: in every run, from any
state, whose images switch by the pixel at the corner as they do by the mean. -/
theorem impulses_eq_edges (hfits : b.Fits longBits) (frames : List (Frame Pix)) (s : BinaryState)
    (halike : Hysteresis.Alike (edgeLow : Rat) edgeHigh s.lastState
      (frames.map fun frame => (cornerRed lept b frame : Rat)) (frames.map (meanRed lept b))) :
    ∃ t, (binaryMachine lept longBits b).run s frames = some t ∧
      impulses b t = impulses b s +
        Hysteresis.edges (edgeLow : Rat) edgeHigh s.lastState (frames.map (meanRed lept b)) := by
  obtain ⟨t, hrun, himpulses⟩ := run_impulses lept hfits frames s
  exact ⟨t, hrun, by rw [himpulses, halike.edges_eq]⟩

end

/-- Images by their pixels, with the default kernel, which amplifies the red. -/
def byPixel : Leptonica (Int → Int → UInt32) where
  rasterop image x y w h := fun i j =>
    if 0 ≤ i ∧ i < w ∧ 0 ≤ j ∧ j < h then image (x + i) (y + j) else 0
  multMatrixColor image := fun i j =>
    let c := image i j
    let green := ((c >>> 16) &&& 0xff).toNat
    let blue := ((c >>> 8) &&& 0xff).toNat
    UInt32.ofNat (min 255 (2 * red c - green - blue)) <<< 24
  getPixel image := image

/-- Two pixels side by side. -/
def pairBox : BoundingBox := ⟨['i'], 0, 0, 2, 1, by decide, by decide, by decide, by decide⟩

/-- A dark pixel at the corner of the box, or a red one, and the same elsewhere. -/
def twoPixels (corner other : Bool) : Frame (Int → Int → UInt32) :=
  ⟨fun x _ => if (if x = 0 then corner else other) then 0xff000000 else 0, 0, 0⟩

/-- Dark, red, dark, red. -/
theorem impulses_eq_edges_blink :
    ∃ t, (binaryMachine byPixel 64 pairBox).run (binaryMachine byPixel 64 pairBox).init
        [twoPixels false false, twoPixels true true, twoPixels false false,
          twoPixels true true] = some t ∧
      impulses pairBox t = 2 := by
  obtain ⟨t, hrun, himpulses⟩ := impulses_eq_edges byPixel
    (show pairBox.Fits 64 by constructor <;> decide)
    [twoPixels false false, twoPixels true true, twoPixels false false, twoPixels true true]
    (binaryMachine byPixel 64 pairBox).init
    ⟨by decide +kernel, by decide +kernel, by decide +kernel, by decide +kernel, trivial⟩
  refine ⟨t, hrun, himpulses.trans ?_⟩
  decide +kernel

/-- A red pixel beside a dark corner: the mean rises and no impulse is signalled. -/
theorem impulses_ne_edges :
    ∃ t, (binaryMachine byPixel 64 pairBox).run (binaryMachine byPixel 64 pairBox).init
        [twoPixels false false, twoPixels false true] = some t ∧ impulses pairBox t = 0 ∧
      Hysteresis.edges (edgeLow : Rat) edgeHigh false
        ([twoPixels false false, twoPixels false true].map (meanRed byPixel pairBox)) = 1 := by
  refine ⟨_, rfl, ?_, ?_⟩
  · decide +kernel
  · decide +kernel

end VzLogger.MeterOCR
