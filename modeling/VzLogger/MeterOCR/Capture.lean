import VzLogger.Lib.CMath
import Mathlib.Tactic.NormNum

/-! # Capturing frames

A frame comes as pairs of pixels: two lumas share a pair of chromas between them.  The
first frame is converted as a whole, and of the later ones the window that holds the
boxes, with pointers for the luma and the two chromas that move on column by column and
line by line.  Addresses count bytes from the start of the frame, and pixels from that
of the image; every step of the arithmetic rounds to a `double`.
-/
namespace VzLogger.MeterOCR
open CMath

/-- Four bytes of the image. -/
structure Pixel where
  alpha : UInt8
  blue : UInt8
  green : UInt8
  red : UInt8
  deriving DecidableEq, Repr

/-- `CLIP`, as a byte. -/
def clip (x : Rat) : UInt8 :=
  if 0xff ≤ x then 0xff else if x ≤ 0 then 0 else UInt8.ofNat (trunc x).toNat

/-- A factor, rounded as its literal is, times a chroma. -/
def chroma (factor : Rat) (c : UInt8) : Rat := toDouble (toDouble factor * (c.toNat - 128))

/-- The pixel of a luma and its chromas. -/
def rgba (y u v : UInt8) : Pixel where
  alpha := 0
  blue := clip (toDouble (y.toNat + chroma (1772 / 1000) u))
  green := clip
    (toDouble (toDouble (y.toNat - chroma (344 / 1000) u) - chroma (714 / 1000) v))
  red := clip (toDouble (y.toNat + chroma (1402 / 1000) v))

/-- A pixel whose green is 124 in exact arithmetic. -/
example : (rgba 0 0 16).green = 123 := by decide +kernel

/-! ## The conversion -/

/-- The pointers, and the image. -/
structure Pointers where
  py : Int
  pu : Int
  pv : Int
  tmp : Int
  dst : Int → Pixel

/-- One column: the luma moves on every time, the chromas every second time. -/
def Pointers.column (src : Int → UInt8) (p : Pointers) (column : Nat) : Pointers where
  py := p.py + 2
  pu := if column % 2 = 1 then p.pu + 4 else p.pu
  pv := if column % 2 = 1 then p.pv + 4 else p.pv
  tmp := p.tmp + 1
  dst := Function.update p.dst p.tmp (rgba (src p.py) (src p.pu) (src p.pv))

/-- One line, and the skip of the rest of the stride. -/
def Pointers.line (src : Int → UInt8) (strideS strideD width : Int) (p : Pointers) : Pointers :=
  let q := (List.range width.toNat).foldl (Pointers.column src) p
  let skipPerLineS := strideS - width
  let skipPerLineD := strideD - width
  { q with
    py := q.py + 2 * skipPerLineS
    pu := q.pu + 2 * skipPerLineS
    pv := q.pv + 2 * skipPerLineS
    tmp := q.tmp + skipPerLineD }

/-- `YUV422toRGBA888`.  Its assertions, that numbers are 0 modulo 1, always hold. -/
def yuv422toRGBA888 (strideS strideD sX sY width height : Int) (src : Int → UInt8)
    (dst : Int → Pixel) : Int → Pixel :=
  let ssrc := 2 * (strideS * sY + sX)
  let p : Pointers := ⟨ssrc, ssrc + 1, ssrc + 3, strideD * sY + sX, dst⟩
  ((List.range height.toNat).foldl (fun p _ => p.line src strideS strideD width) p).dst

/-- A window of the frame. -/
structure Window where
  x : Int
  y : Int
  width : Int
  height : Int
  deriving DecidableEq, Repr

/-- The window for boxes within these corners, cut to the size of the frame. -/
def captureWindow (capX capY minX minY maxX maxY : Int) : Window :=
  let maxX := if capX < maxX then capX else maxX
  let maxY := if capY < maxY then capY else maxY
  let minX := if minX < 0 then 0 else minX
  let minY := if minY < 0 then 0 else minY
  let minX := if maxX < minX then maxX else minX
  let minY := if maxY < minY then maxY else minY
  ⟨minX, minY, maxX - minX, maxY - minY⟩

/-- The conversion of the first frame. -/
def convertFull (capX capY : Int) : (Int → UInt8) → (Int → Pixel) → Int → Pixel :=
  yuv422toRGBA888 capX capX 0 0 capX capY

/-- The conversion of the window. -/
def convertWindow (capX : Int) (win : Window) : (Int → UInt8) → (Int → Pixel) → Int → Pixel :=
  yuv422toRGBA888 capX capX win.x win.y win.width win.height

/-- Of every frame, the window's pixels are those of the full conversion. -/
def Agrees (capX capY : Int) (win : Window) : Prop :=
  ∀ src dst dst', ∀ l c : Nat, (l : Int) < win.height → (c : Int) < win.width →
    convertWindow capX win src dst (capX * (win.y + l) + (win.x + c)) =
      convertFull capX capY src dst' (capX * (win.y + l) + (win.x + c))

/-- The window starts with a pair of pixels, and each of its lines does if the frame's
lines do; with an odd number of pixels in a line, it starts in the first line. -/
structure Window.Aligned (win : Window) (capX : Int) : Prop where
  start : win.x % 2 = 0
  lines : win.height ≤ 1 ∨ win.width % 2 = capX % 2
  first : capX % 2 = 1 → win.y = 0

/-! ## Where the pointers are -/

/-- A run over some columns. -/
theorem columns_spec (src : Int → UInt8) (p : Pointers) (k : Nat) :
    let q := (List.range k).foldl (Pointers.column src) p
    (q.py = p.py + 2 * k ∧ q.pu = p.pu + 4 * (k / 2 : Nat) ∧ q.pv = p.pv + 4 * (k / 2 : Nat) ∧
      q.tmp = p.tmp + k) ∧
    (∀ c < k, q.dst (p.tmp + c) = rgba (src (p.py + 2 * c)) (src (p.pu + 4 * (c / 2 : Nat)))
      (src (p.pv + 4 * (c / 2 : Nat)))) ∧
    ∀ i, i < p.tmp → q.dst i = p.dst i := by
  induction k with
  | zero => simp
  | succ k ih =>
    obtain ⟨⟨hpy, hpu, hpv, htmp⟩, hpixels, hbefore⟩ := ih
    rw [List.range_succ, List.foldl_append, List.foldl_cons, List.foldl_nil]
    refine ⟨⟨?_, ?_, ?_, ?_⟩, ?_, ?_⟩
    · simp only [Pointers.column, hpy]
      omega
    · simp only [Pointers.column, hpu]
      split <;> omega
    · simp only [Pointers.column, hpv]
      split <;> omega
    · simp only [Pointers.column, htmp]
      omega
    · intro c hc
      rcases Nat.lt_succ_iff_lt_or_eq.mp hc with hlt | rfl
      · have hne : p.tmp + c ≠ p.tmp + k := by omega
        simp only [Pointers.column, htmp]
        rw [Function.update_of_ne hne]
        exact hpixels c hlt
      · simp only [Pointers.column, htmp, hpy, hpu, hpv, Function.update_self]
    · intro i hi
      have hne : i ≠ p.tmp + k := by omega
      simp only [Pointers.column, htmp]
      rw [Function.update_of_ne hne]
      exact hbefore i hi

/-- How far the chromas move on in a line. -/
def chromaStep (stride : Int) (w : Nat) : Int := 4 * (w / 2 : Nat) + 2 * (stride - w)

/-- A run over some lines, which do not overlap in the image. -/
theorem lines_spec (src : Int → UInt8) (strideS : Int) {strideD : Int} {w : Nat}
    (hw : (w : Int) ≤ strideD) (p : Pointers) (k : Nat) :
    let q := (List.range k).foldl (fun p _ => p.line src strideS strideD w) p
    (q.py = p.py + 2 * strideS * k ∧ q.pu = p.pu + chromaStep strideS w * k ∧
      q.pv = p.pv + chromaStep strideS w * k ∧ q.tmp = p.tmp + strideD * k) ∧
    ∀ l < k, ∀ c < w, q.dst (p.tmp + strideD * l + c) =
      rgba (src (p.py + 2 * strideS * l + 2 * c))
        (src (p.pu + chromaStep strideS w * l + 4 * (c / 2 : Nat)))
        (src (p.pv + chromaStep strideS w * l + 4 * (c / 2 : Nat))) := by
  induction k with
  | zero => simp
  | succ k ih =>
    obtain ⟨⟨hpy, hpu, hpv, htmp⟩, hpixels⟩ := ih
    rw [List.range_succ, List.foldl_append, List.foldl_cons, List.foldl_nil]
    generalize (List.range k).foldl (fun p _ => p.line src strideS strideD w) p = q at *
    obtain ⟨⟨hpy', hpu', hpv', htmp'⟩, hpixels', hbefore'⟩ := columns_spec src q w
    refine ⟨⟨?_, ?_, ?_, ?_⟩, ?_⟩
    · simp only [Pointers.line, Int.toNat_natCast, hpy', hpy]
      push_cast
      ring
    · simp only [Pointers.line, Int.toNat_natCast, hpu', hpu, chromaStep]
      push_cast
      ring
    · simp only [Pointers.line, Int.toNat_natCast, hpv', hpv, chromaStep]
      push_cast
      ring
    · simp only [Pointers.line, Int.toNat_natCast, htmp', htmp]
      push_cast
      ring
    · intro l hl c hc
      simp only [Pointers.line, Int.toNat_natCast]
      rcases Nat.lt_succ_iff_lt_or_eq.mp hl with hlt | rfl
      · rw [hbefore', hpixels l hlt c hc]
        have hle : strideD * (l + 1) ≤ strideD * k :=
          mul_le_mul_of_nonneg_left (by exact_mod_cast hlt) (by omega)
        rw [htmp]
        linarith
      · rw [← htmp, hpixels' c hc, hpy, hpu, hpv]

/-- The address of the luma of a pixel of a window, and those of its chromas. -/
def lumaAt (stride : Int) (win : Window) (l c : Nat) : Int :=
  2 * (stride * (win.y + l) + (win.x + c))

def chromaAt (stride : Int) (win : Window) (l c : Nat) : Int :=
  2 * (stride * win.y + win.x) + 1 + chromaStep stride win.width.toNat * l + 4 * (c / 2 : Nat)

/-- **What the conversion does** with a window. -/
theorem convertWindow_apply {stride : Int} {win : Window} (hwidth : win.width ≤ stride)
    (src : Int → UInt8) (dst : Int → Pixel) {l c : Nat} (hl : (l : Int) < win.height)
    (hc : (c : Int) < win.width) :
    convertWindow stride win src dst (stride * (win.y + l) + (win.x + c)) =
      rgba (src (lumaAt stride win l c)) (src (chromaAt stride win l c))
        (src (chromaAt stride win l c + 2)) := by
  have hw : ((win.width.toNat : Nat) : Int) = win.width := Int.toNat_of_nonneg (by omega)
  have hle : ((win.width.toNat : Nat) : Int) ≤ stride := by omega
  let start : Pointers := ⟨2 * (stride * win.y + win.x), 2 * (stride * win.y + win.x) + 1,
    2 * (stride * win.y + win.x) + 3, stride * win.y + win.x, dst⟩
  obtain ⟨-, hpixels⟩ := lines_spec src stride hle start win.height.toNat
  have hpixel := hpixels l (by omega) c (by omega)
  have hindex : stride * (win.y + l) + (win.x + c) = start.tmp + stride * l + c := by
    simp only [start]
    ring
  have hluma : start.py + 2 * stride * l + 2 * c = lumaAt stride win l c := by
    simp only [start, lumaAt]
    ring
  have hchroma : start.pv + chromaStep stride win.width.toNat * l + 4 * (c / 2 : Nat) =
      chromaAt stride win l c + 2 := by
    simp only [start, chromaAt]
    ring
  rw [hluma, hchroma, hw] at hpixel
  rw [hindex]
  exact hpixel

/-! ## The agreement -/

/-- The frame as its own window. -/
def wholeFrame (capX capY : Int) : Window := ⟨0, 0, capX, capY⟩

/-- The blue of a pixel tells a high chroma from a middle one. -/
theorem blue_ne (v v' : UInt8) : rgba 128 255 v ≠ rgba 128 128 v' := by
  intro h
  have hblue := congrArg Pixel.blue h
  revert hblue
  simp only [rgba]
  decide +kernel

/-- A window with pixels, inside the frame. -/
structure Window.Inside (win : Window) (capX capY : Int) : Prop where
  x_nonneg : 0 ≤ win.x
  y_nonneg : 0 ≤ win.y
  width_pos : 0 < win.width
  height_pos : 0 < win.height
  right : win.x + win.width ≤ capX
  bottom : win.y + win.height ≤ capY

section
variable {capX capY : Int} {win : Window}

/-- How far the chromas of a pixel of the window are from those of the frame. -/
def chromaGap (capX : Int) (win : Window) (l c : Nat) : Int :=
  2 * win.x + 4 * (c / 2 : Nat) - 4 * ((win.x + c) / 2) + 2 * (capX % 2) * (win.y + l) -
    2 * (win.width % 2) * l

theorem chromaStep_eq {stride width : Int} (h : 0 ≤ width) :
    chromaStep stride width.toNat = 2 * stride - 2 * (width % 2) := by
  unfold chromaStep
  omega

/-- The conversions agree on a pixel of all frames if the chromas come from one place. -/
theorem agrees_iff_gap (hin : win.Inside capX capY) : Agrees capX capY win ↔
    ∀ l c : Nat, (l : Int) < win.height → (c : Int) < win.width → chromaGap capX win l c = 0 := by
  obtain ⟨hx, hy, hwidth, hheight, hright, hbottom⟩ := hin
  obtain ⟨x, hx⟩ := Int.eq_ofNat_of_zero_le hx
  obtain ⟨y, hy⟩ := Int.eq_ofNat_of_zero_le hy
  have hwhole : chromaStep capX (wholeFrame capX capY).width.toNat = 2 * capX - 2 * (capX % 2) :=
    chromaStep_eq (show (0 : Int) ≤ capX by omega)
  have hstep : chromaStep capX win.width.toNat = 2 * capX - 2 * (win.width % 2) :=
    chromaStep_eq (by omega)
  have hfull : ∀ src dst, ∀ l c : Nat, (l : Int) < win.height → (c : Int) < win.width →
      convertFull capX capY src dst (capX * (win.y + l) + (win.x + c)) =
        rgba (src (lumaAt capX win l c)) (src (chromaAt capX win l c - chromaGap capX win l c))
          (src (chromaAt capX win l c - chromaGap capX win l c + 2)) := by
    intro src dst l c hl hc
    have h := convertWindow_apply (show (wholeFrame capX capY).width ≤ capX from le_refl _) src dst
      (show ((y + l : Nat) : Int) < capY by omega) (show ((x + c : Nat) : Int) < capX by omega)
    have hindex : capX * (win.y + l) + (win.x + c) =
        capX * ((wholeFrame capX capY).y + (y + l : Nat)) +
          ((wholeFrame capX capY).x + (x + c : Nat)) := by
      simp only [wholeFrame, hx, hy]
      push_cast
      ring
    have hluma : lumaAt capX (wholeFrame capX capY) (y + l) (x + c) = lumaAt capX win l c := by
      simp only [lumaAt, hindex]
    have hchroma : chromaAt capX (wholeFrame capX capY) (y + l) (x + c) =
        chromaAt capX win l c - chromaGap capX win l c := by
      rw [chromaAt, chromaAt, chromaGap, hwhole, hstep, hx, hy]
      simp only [wholeFrame]
      push_cast
      ring
    rw [hluma, hchroma] at h
    rw [hindex]
    exact h
  have hwindow := fun src dst (l c : Nat) hl hc =>
    convertWindow_apply (l := l) (c := c) (show win.width ≤ capX by omega) src dst hl hc
  constructor
  · intro hagrees l c hl hc
    by_contra hgap
    -- a frame that is grey but for the chroma that the full conversion takes
    let src : Int → UInt8 := fun i =>
      if i = chromaAt capX win l c - chromaGap capX win l c then 255 else 128
    have h := hagrees src (fun _ => ⟨0, 0, 0, 0⟩) (fun _ => ⟨0, 0, 0, 0⟩) l c hl hc
    rw [hwindow _ _ _ _ hl hc, hfull _ _ _ _ hl hc] at h
    have hluma : src (lumaAt capX win l c) = 128 := by
      refine if_neg ?_
      rw [lumaAt, chromaAt, chromaGap, hstep]
      intro heq
      have hodd : 2 * (capX * win.y + win.x + capX * l + c - (capX * win.y + win.x +
          (capX - win.width % 2) * l + 2 * ((win.x + c) / 2) - win.x -
            capX % 2 * (win.y + l) + win.width % 2 * l)) = 1 := by
        linarith
      omega
    have hown : src (chromaAt capX win l c) = 128 := if_neg (by omega)
    have hother : src (chromaAt capX win l c - chromaGap capX win l c) = 255 := if_pos rfl
    rw [hluma, hown, hother] at h
    exact blue_ne _ _ h.symm
  · intro hgap src dst dst' l c hl hc
    rw [hwindow _ _ _ _ hl hc, hfull _ _ _ _ hl hc, hgap l c hl hc, Int.sub_zero]

/-- The gap is none exactly in aligned windows. -/
theorem gap_iff_aligned (hin : win.Inside capX capY) :
    (∀ l c : Nat, (l : Int) < win.height → (c : Int) < win.width → chromaGap capX win l c = 0) ↔
      win.Aligned capX := by
  obtain ⟨hx, hy, hwidth, hheight, -, -⟩ := hin
  have hcap : capX % 2 = 0 ∨ capX % 2 = 1 := Int.emod_two_eq capX
  have hwin : win.width % 2 = 0 ∨ win.width % 2 = 1 := Int.emod_two_eq win.width
  constructor
  · intro hgap
    -- the first pixel of the first line, and that of the second
    have hfirst := hgap 0 0 hheight hwidth
    have hsecond : 1 < win.height → _ := fun h => hgap 1 0 h hwidth
    simp only [chromaGap] at hfirst hsecond
    refine ⟨?_, ?_, ?_⟩
    · rcases hcap with hcap | hcap <;> rw [hcap] at hfirst <;> omega
    · by_cases hone : win.height ≤ 1
      · exact .inl hone
      · have hsecond := hsecond (by omega)
        refine .inr ?_
        rcases hcap with hcap | hcap <;> rw [hcap] at hfirst hsecond ⊢ <;>
          rcases hwin with hwin | hwin <;> rw [hwin] at hsecond ⊢ <;> omega
    · intro hodd
      rw [hodd] at hfirst
      omega
  · rintro ⟨hstart, hlines, hfirst⟩ l c hl hc
    have hpair : 2 * win.x + 4 * (c / 2 : Nat) - 4 * ((win.x + c) / 2) = 0 := by omega
    rw [chromaGap, hpair]
    rcases hlines with hone | hsame
    · obtain rfl : l = 0 := by omega
      rcases hcap with hcap | hcap
      · rw [hcap]
        ring
      · rw [hfirst hcap]
        ring
    · rcases hcap with hcap | hcap
      · rw [hsame, hcap]
        ring
      · rw [hsame, hcap, hfirst hcap]
        ring

end

/-- One direction: what is cut to the size of the frame is inside it, or empty. -/
theorem cut_inside (cap lo hi : Int) {lo' hi' : Int} (hhi : hi' = if cap < hi then cap else hi)
    (hlo : lo' = if hi' < (if lo < 0 then 0 else lo) then hi' else if lo < 0 then 0 else lo) :
    hi' - lo' = 0 ∨ 0 ≤ lo' ∧ 0 < hi' - lo' ∧ hi' ≤ cap := by
  split at hhi <;> split_ifs at hlo <;> omega

/-- Whatever the boxes are, the window is inside the frame or without pixels. -/
theorem captureWindow_inside (capX capY minX minY maxX maxY : Int) :
    let win := captureWindow capX capY minX minY maxX maxY
    win.width = 0 ∨ win.height = 0 ∨ win.Inside capX capY := by
  intro win
  rcases cut_inside capX minX maxX rfl rfl with hwidth | ⟨hx, hwidth, hright⟩
  · exact .inl hwidth
  rcases cut_inside capY minY maxY rfl rfl with hheight | ⟨hy, hheight, hbottom⟩
  · exact .inr (.inl hheight)
  refine .inr (.inr ⟨hx, hy, hwidth, hheight, ?_, ?_⟩)
  · exact (add_sub_cancel _ _).trans_le hright
  · exact (add_sub_cancel _ _).trans_le hbottom

/-- **Where the conversions agree**: on windows without pixels, and on aligned ones. -/
theorem captureWindow_agrees_iff (capX capY minX minY maxX maxY : Int) :
    let win := captureWindow capX capY minX minY maxX maxY
    Agrees capX capY win ↔ win.width = 0 ∨ win.height = 0 ∨ win.Aligned capX := by
  intro win
  rcases captureWindow_inside capX capY minX minY maxX maxY with hwidth | hheight | hin
  · refine iff_of_true ?_ (.inl hwidth)
    intro src dst dst' l c hl hc
    exact absurd hc (by rw [hwidth]; omega)
  · refine iff_of_true ?_ (.inr (.inl hheight))
    intro src dst dst' l c hl hc
    exact absurd hl (by rw [hheight]; omega)
  · rw [agrees_iff_gap hin, gap_iff_aligned hin]
    constructor
    · exact fun h => .inr (.inr h)
    · rintro (hwidth | hheight | haligned)
      · exact absurd hwidth hin.width_pos.ne'
      · exact absurd hheight hin.height_pos.ne'
      · exact haligned

/-- A window that starts with the second pixel of a pair takes the wrong chromas. -/
theorem captureWindow_odd : captureWindow 320 240 1 0 3 1 = ⟨1, 0, 2, 1⟩ ∧
    ¬Agrees 320 240 (captureWindow 320 240 1 0 3 1) := by
  have hwin : captureWindow 320 240 1 0 3 1 = ⟨1, 0, 2, 1⟩ := by decide
  refine ⟨hwin, ?_⟩
  rw [hwin, agrees_iff_gap (by constructor <;> decide)]
  intro hgap
  exact absurd (hgap 0 0 (by decide) (by decide)) (by decide)

end VzLogger.MeterOCR
