import Mathlib.Tactic.Ring
import Rovio.VideoPhone.Scaling

/-! The window of a video on the LCD. -/
namespace Rovio.VideoPhone

inductive Rotate where
  | normal | left | right | mirror | flip | r180
  deriving DecidableEq

structure VideoSize where
  usWidth : UInt16
  usHeight : UInt16
  deriving DecidableEq

structure VideoPoint where
  sLeft : Int16
  sTop : Int16
  deriving DecidableEq

/-- The fields of a window for one of the two dimensions: the scaled image, the part of it that
is clipped and where on the LCD this is put. -/
structure Dimension where
  usScaling : UInt16
  sClipped : Int16
  usClipped : UInt16
  sDisplay : Int16
  deriving DecidableEq

structure VideoWindow where
  tSourceSize : VideoSize
  across : Dimension
  down : Dimension
  eRotate : Rotate
  bAutoCenterClippedWindow : Bool
  deriving DecidableEq

structure Lcm where
  bIsLcmConfigured : Bool
  tLcmSize : VideoSize

/-- Conversions to SHORT and to USHORT. -/
def short (n : Int) : Int16 := Int16.ofInt n
def ushort (n : Int) : UInt16 := UInt16.ofNat (n % 65536).toNat

/-- A position left of or above the LCD moves into the clipped part. -/
def Dimension.cutLow (d : Dimension) : Dimension :=
  if d.sDisplay.toInt < 0 then
    let sClipped := short (d.sClipped.toInt - d.sDisplay.toInt)
    let usClipped := ushort (d.usClipped.toNat + d.sDisplay.toInt)
    if sClipped.toInt < 0 ∨ usClipped.toNat > d.usScaling.toNat then
      { d with sDisplay := 0, sClipped := 0, usClipped := 0 }
    else { d with sDisplay := 0, sClipped := sClipped, usClipped := usClipped }
  else d

/-- What is right of or below the LCD is cut off. -/
def Dimension.cutHigh (usLcm : UInt16) (d : Dimension) : Dimension :=
  if d.sDisplay.toInt + d.usClipped.toNat > usLcm.toNat then
    if d.sDisplay.toInt > usLcm.toNat then { d with sDisplay := 0, usClipped := 0 }
    else
      let usClipped := ushort (usLcm.toNat - d.sDisplay.toInt)
      if usClipped.toNat > d.usScaling.toNat then { d with sClipped := 0, usClipped := 0 }
      else { d with usClipped := usClipped }
  else d

def Dimension.cut (usLcm : UInt16) (d : Dimension) : Dimension := d.cutLow.cutHigh usLcm

def vdAdjustLCM (v : Lcm) (w : VideoWindow) : VideoWindow :=
  if v.bIsLcmConfigured then
    { w with
      across := w.across.cut v.tLcmSize.usWidth
      down := w.down.cut v.tLcmSize.usHeight }
  else w

/-- The source size as it is displayed. -/
def rotatedSize (eRotate : Rotate) (tSourceSize : VideoSize) : VideoSize :=
  if eRotate = .left ∨ eRotate = .right then ⟨tSourceSize.usHeight, tSourceSize.usWidth⟩
  else tSourceSize

/-- Step 2 of the adjustment: a size of the source's proportions that covers the clipped size. -/
def coveringSize (tSourceSize tScalingSize : VideoSize) : VideoSize :=
  let uHeight := tScalingSize.usWidth.toNat * tSourceSize.usHeight.toNat /
    tSourceSize.usWidth.toNat
  let usHeight := if uHeight > tScalingSize.usHeight.toNat then ushort uHeight
    else tScalingSize.usHeight
  let uWidth := usHeight.toNat * tSourceSize.usWidth.toNat / tSourceSize.usHeight.toNat
  let usWidth := if uWidth > tScalingSize.usWidth.toNat then ushort uWidth
    else tScalingSize.usWidth
  ⟨usWidth, usHeight⟩

/-- Step 3: the next size that the scaler can make, if it is not above the source. -/
def scalerSize (tSourceSize tScalingSize : VideoSize) : Option VideoSize :=
  let usWidth := ushort
    (EvaluateScalingSize tSourceSize.usWidth.toUInt32 tScalingSize.usWidth.toUInt32 255 16)
  let usHeight := ushort
    (EvaluateScalingSize tSourceSize.usHeight.toUInt32 tScalingSize.usHeight.toUInt32 255 16)
  if usWidth = 0 ∨ usHeight = 0 then none
  else if usWidth.toNat > tSourceSize.usWidth.toNat ∨
      usHeight.toNat > tSourceSize.usHeight.toNat then some tSourceSize
  else some ⟨usWidth, usHeight⟩

def scalingSize (tSourceSize tClippedSize : VideoSize) : Option VideoSize :=
  scalerSize tSourceSize (coveringSize tSourceSize tClippedSize)

/-- Half of a difference, as a SHORT. -/
def halfOf (n : Int) : Int16 := short ((short n).toInt.tdiv 2)

/-- Steps 4 and 5: the clipped part is in the middle of the scaled image. -/
def Dimension.centre (usScaling : UInt16) (d : Dimension) : Dimension :=
  let usClipped := if d.usClipped.toNat > usScaling.toNat then usScaling else d.usClipped
  { d with
    usScaling := usScaling
    usClipped := usClipped
    sClipped := halfOf (usScaling.toNat - usClipped.toNat) }

def vdAdjustWindow (v : Lcm) (w : VideoWindow) : Bool × VideoWindow :=
  if w.tSourceSize.usWidth = 0 ∨ w.tSourceSize.usHeight = 0 then (true, w)
  else if w.bAutoCenterClippedWindow = false then (true, vdAdjustLCM v w)
  else
    match scalingSize (rotatedSize w.eRotate w.tSourceSize)
        ⟨w.across.usClipped, w.down.usClipped⟩ with
    | none => (false, w)
    | some tScalingSize =>
      (true, vdAdjustLCM v { w with
        across := w.across.centre tScalingSize.usWidth
        down := w.down.centre tScalingSize.usHeight })

/-- A window is put back when it could not be adjusted. -/
def adjusted (v : Lcm) (pWindow changed : VideoWindow) : Bool × VideoWindow :=
  match vdAdjustWindow v changed with
  | (true, w) => (true, w)
  | (false, _) => (false, pWindow)

def vdSetWindowEx (v : Lcm) (pWindow : VideoWindow) (tScalingSize : VideoSize)
    (tClippedPoint : VideoPoint) (tClippedSize : VideoSize) (tDisplayPos : VideoPoint)
    (eRotate : Rotate) : Bool × VideoWindow :=
  adjusted v pWindow { pWindow with
    across := ⟨tScalingSize.usWidth, tClippedPoint.sLeft, tClippedSize.usWidth,
      tDisplayPos.sLeft⟩
    down := ⟨tScalingSize.usHeight, tClippedPoint.sTop, tClippedSize.usHeight,
      tDisplayPos.sTop⟩
    eRotate := eRotate
    bAutoCenterClippedWindow := false }

def vdSetWindow (v : Lcm) (pWindow : VideoWindow) (tClippedSize : VideoSize)
    (tDisplayPos : VideoPoint) (eRotate : Rotate) : Bool × VideoWindow :=
  adjusted v pWindow { pWindow with
    across := ⟨0, 0, tClippedSize.usWidth, tDisplayPos.sLeft⟩
    down := ⟨0, 0, tClippedSize.usHeight, tDisplayPos.sTop⟩
    eRotate := eRotate
    bAutoCenterClippedWindow := true }

def vdSetSourceVideoSize (v : Lcm) (pWindow : VideoWindow) (tSourceSize : VideoSize) :
    Bool × VideoWindow :=
  adjusted v pWindow { pWindow with tSourceSize := tSourceSize }

section Words

theorem short_toInt (n : Int) : (short n).toInt = (n + 32768) % 65536 - 32768 := by
  unfold short
  rw [Int16.toInt_ofInt]
  show Int.bmod n 65536 = _
  unfold Int.bmod
  dsimp only
  split <;> omega

theorem ushort_toNat (n : Int) : ((ushort n).toNat : Int) = n % 65536 := by
  unfold ushort
  rw [UInt16.toNat_ofNat']
  omega

theorem short_range (n : Int16) : -32768 ≤ n.toInt ∧ n.toInt < 32768 :=
  ⟨n.le_toInt, n.toInt_lt⟩

theorem ushort_range (n : UInt16) : n.toNat < 65536 := n.toNat_lt

theorem ushort_of_word (n : UInt16) : ushort n.toNat = n := by
  apply UInt16.toNat_inj.mp
  have number := ushort_toNat n.toNat
  have range := ushort_range n
  omega

theorem halfOf_word {n : Int} (small : 0 ≤ n ∧ n < 32768) : (halfOf n).toInt = n / 2 := by
  unfold halfOf
  have whole : (short n).toInt = n := by
    rw [short_toInt]
    omega
  rw [short_toInt, whole, Int.tdiv_eq_ediv_of_nonneg small.1]
  omega

end Words

section Cut
variable {d : Dimension} {usLcm : UInt16}

/-- The clipped part lies in the scaled image. -/
def Dimension.InImage (d : Dimension) : Prop :=
  0 ≤ d.sClipped.toInt ∧ d.sClipped.toInt + d.usClipped.toNat ≤ d.usScaling.toNat

/-- The clipped part is displayed on the LCD. -/
def Dimension.OnLcm (usLcm : UInt16) (d : Dimension) : Prop :=
  0 ≤ d.sDisplay.toInt ∧ d.sDisplay.toInt + d.usClipped.toNat ≤ usLcm.toNat

theorem cutLow_scaling : d.cutLow.usScaling = d.usScaling := by
  unfold Dimension.cutLow
  dsimp only
  split
  · split <;> rfl
  · rfl

theorem cutHigh_scaling : (d.cutHigh usLcm).usScaling = d.usScaling := by
  unfold Dimension.cutHigh
  dsimp only
  split
  · split
    · rfl
    · split <;> rfl
  · rfl

theorem cut_scaling : (d.cut usLcm).usScaling = d.usScaling := by
  unfold Dimension.cut
  rw [cutHigh_scaling, cutLow_scaling]

theorem cutLow_display : 0 ≤ d.cutLow.sDisplay.toInt := by
  unfold Dimension.cutLow
  dsimp only
  split
  · split
    · exact Int.le_refl 0
    · exact Int.le_refl 0
  · omega

theorem cutLow_inImage (small : d.usScaling.toNat < 32768) (inImage : d.InImage) :
    d.cutLow.InImage := by
  obtain ⟨start, stop⟩ := inImage
  have position := short_range d.sDisplay
  unfold Dimension.cutLow
  dsimp only
  split
  · have moved := short_toInt (d.sClipped.toInt - d.sDisplay.toInt)
    have left := ushort_toNat (d.usClipped.toNat + d.sDisplay.toInt)
    split
    · simp only [Dimension.InImage, Int16.toInt_zero, UInt16.toNat_zero]
      omega
    · dsimp only [Dimension.InImage]
      omega
  · exact ⟨start, stop⟩

theorem cutHigh_onLcm (start : 0 ≤ d.sDisplay.toInt) : (d.cutHigh usLcm).OnLcm usLcm := by
  have size := ushort_range usLcm
  unfold Dimension.cutHigh
  dsimp only
  split
  · split
    · simp only [Dimension.OnLcm, Int16.toInt_zero, UInt16.toNat_zero]
      omega
    · have left := ushort_toNat (usLcm.toNat - d.sDisplay.toInt)
      split
      · simp only [Dimension.OnLcm, UInt16.toNat_zero]
        omega
      · dsimp only [Dimension.OnLcm]
        omega
  · exact ⟨start, by omega⟩

theorem cutHigh_inImage (start : 0 ≤ d.sDisplay.toInt) (inImage : d.InImage) :
    (d.cutHigh usLcm).InImage := by
  obtain ⟨offset, stop⟩ := inImage
  have size := ushort_range usLcm
  unfold Dimension.cutHigh
  dsimp only
  split
  · split
    · simp only [Dimension.InImage, UInt16.toNat_zero]
      omega
    · have left := ushort_toNat (usLcm.toNat - d.sDisplay.toInt)
      split
      · simp only [Dimension.InImage, Int16.toInt_zero, UInt16.toNat_zero]
        omega
      · dsimp only [Dimension.InImage]
        omega
  · exact ⟨offset, stop⟩

theorem cut_onLcm : (d.cut usLcm).OnLcm usLcm := cutHigh_onLcm cutLow_display

theorem cut_inImage (small : d.usScaling.toNat < 32768) (inImage : d.InImage) :
    (d.cut usLcm).InImage :=
  cutHigh_inImage cutLow_display (cutLow_inImage small inImage)

/-- What is on the LCD is not cut. -/
theorem cut_of_onLcm (onLcm : d.OnLcm usLcm) : d.cut usLcm = d := by
  obtain ⟨start, stop⟩ := onLcm
  have low : d.cutLow = d := by
    unfold Dimension.cutLow
    rw [if_neg (by omega)]
  unfold Dimension.cut
  rw [low]
  unfold Dimension.cutHigh
  rw [if_neg (by omega)]

/-- The middle of an image that is not too large is inside it. -/
theorem centre_inImage {usScaling : UInt16} (small : usScaling.toNat < 32768) :
    (d.centre usScaling).InImage := by
  unfold Dimension.centre Dimension.InImage
  dsimp only
  split
  · rw [halfOf_word (by omega)]
    omega
  · rw [halfOf_word (by omega)]
    omega

end Cut

/-- Both rectangles are where they have to be, and the scaled image is not above the source. -/
structure Contained (v : Lcm) (w : VideoWindow) : Prop where
  acrossImage : w.across.InImage
  downImage : w.down.InImage
  acrossLcm : w.across.OnLcm v.tLcmSize.usWidth
  downLcm : w.down.OnLcm v.tLcmSize.usHeight
  width : w.across.usScaling.toNat ≤ (rotatedSize w.eRotate w.tSourceSize).usWidth.toNat
  height : w.down.usScaling.toNat ≤ (rotatedSize w.eRotate w.tSourceSize).usHeight.toNat

/-- Both sides of a source are neither 0 nor too large. -/
def VideoSize.Usual (s : VideoSize) : Prop :=
  (0 < s.usWidth.toNat ∧ s.usWidth.toNat < 32768) ∧
    (0 < s.usHeight.toNat ∧ s.usHeight.toNat < 32768)

theorem rotated_usual {s : VideoSize} (usual : s.Usual) (eRotate : Rotate) :
    (rotatedSize eRotate s).Usual := by
  unfold rotatedSize
  split
  · exact ⟨usual.2, usual.1⟩
  · exact usual

theorem scalerSize_le {source wanted size : VideoSize}
    (found : scalerSize source wanted = some size) :
    size.usWidth.toNat ≤ source.usWidth.toNat ∧ size.usHeight.toNat ≤ source.usHeight.toNat := by
  unfold scalerSize at found
  dsimp only at found
  split at found
  · cases found
  · split at found
    · cases found
      exact ⟨Nat.le_refl _, Nat.le_refl _⟩
    · rename_i fits
      cases found
      dsimp only
      omega

section Adjusted
variable {v : Lcm} {w : VideoWindow}

/-- A source that has not been seen yet, or is empty. -/
def VideoSize.Empty (s : VideoSize) : Prop := s.usWidth = 0 ∨ s.usHeight = 0

/-- The clipped size that a window asks for. -/
def VideoWindow.clippedSize (w : VideoWindow) : VideoSize :=
  ⟨w.across.usClipped, w.down.usClipped⟩

/-- The source size as the window displays it. -/
def VideoWindow.source (w : VideoWindow) : VideoSize := rotatedSize w.eRotate w.tSourceSize

def VideoWindow.centred (w : VideoWindow) (tScalingSize : VideoSize) : VideoWindow :=
  { w with
    across := w.across.centre tScalingSize.usWidth
    down := w.down.centre tScalingSize.usHeight }

theorem adjust_empty (empty : w.tSourceSize.Empty) : vdAdjustWindow v w = (true, w) :=
  if_pos empty

theorem adjust_fixed (seen : ¬ w.tSourceSize.Empty)
    (fixed : w.bAutoCenterClippedWindow = false) :
    vdAdjustWindow v w = (true, vdAdjustLCM v w) := by
  unfold vdAdjustWindow
  exact (if_neg seen).trans (if_pos fixed)

theorem adjust_none (seen : ¬ w.tSourceSize.Empty) (auto : w.bAutoCenterClippedWindow = true)
    (lost : scalingSize w.source w.clippedSize = none) : vdAdjustWindow v w = (false, w) := by
  unfold VideoWindow.source VideoWindow.clippedSize at lost
  unfold vdAdjustWindow
  apply (if_neg seen).trans
  rw [auto, if_neg (by decide), lost]

theorem adjust_some {size : VideoSize} (seen : ¬ w.tSourceSize.Empty)
    (auto : w.bAutoCenterClippedWindow = true)
    (found : scalingSize w.source w.clippedSize = some size) :
    vdAdjustWindow v w = (true, vdAdjustLCM v (w.centred size)) := by
  unfold VideoWindow.source VideoWindow.clippedSize at found
  unfold vdAdjustWindow
  apply (if_neg seen).trans
  rw [auto, if_neg (by decide), found]
  unfold VideoWindow.centred
  rw [auto]

theorem adjusted_empty {changed : VideoWindow} (empty : changed.tSourceSize.Empty) :
    adjusted v w changed = (true, changed) := by
  unfold adjusted
  rw [adjust_empty empty]

theorem usual_seen {s : VideoSize} (usual : s.Usual) : ¬ s.Empty := by
  obtain ⟨⟨width, _⟩, height, _⟩ := usual
  rintro (zero | zero)
  · rw [zero] at width
    exact Nat.lt_irrefl 0 width
  · rw [zero] at height
    exact Nat.lt_irrefl 0 height

theorem centred_contained {size : VideoSize} (configured : v.bIsLcmConfigured = true)
    (usual : w.tSourceSize.Usual) (found : scalingSize w.source w.clippedSize = some size) :
    Contained v (vdAdjustLCM v (w.centred size)) := by
  obtain ⟨⟨_, width⟩, _, height⟩ := rotated_usual usual w.eRotate
  obtain ⟨notWider, notHigher⟩ := scalerSize_le found
  have across : size.usWidth.toNat < 32768 := Nat.lt_of_le_of_lt notWider width
  have down : size.usHeight.toNat < 32768 := Nat.lt_of_le_of_lt notHigher height
  unfold vdAdjustLCM
  rw [if_pos configured]
  constructor
  · exact cut_inImage across (centre_inImage across)
  · exact cut_inImage down (centre_inImage down)
  · exact cut_onLcm
  · exact cut_onLcm
  · dsimp only
    rw [cut_scaling]
    exact notWider
  · dsimp only
    rw [cut_scaling]
    exact notHigher

/-- What a call leaves: the rectangles where they have to be, or the window as before. -/
def Settled (v : Lcm) (before : VideoWindow) : Bool × VideoWindow → Prop
  | (true, after) => Contained v after
  | (false, after) => after = before

theorem adjusted_settled {changed : VideoWindow} (configured : v.bIsLcmConfigured = true)
    (usual : changed.tSourceSize.Usual) (auto : changed.bAutoCenterClippedWindow = true) :
    Settled v w (adjusted v w changed) := by
  unfold adjusted
  cases found : scalingSize changed.source changed.clippedSize with
  | none =>
    rw [adjust_none (usual_seen usual) auto found]
    rfl
  | some size =>
    rw [adjust_some (usual_seen usual) auto found]
    exact centred_contained configured usual found

end Adjusted

/-- With the LCD configured and a source whose sides are from 1 to 32767, a window that is centred
automatically is contained after every call that succeeds, and as before after every other. While
the source has a side 0 a request is only stored. -/
theorem window_contained (v : Lcm) (configured : v.bIsLcmConfigured = true) (w : VideoWindow) :
    (∀ tClippedSize tDisplayPos eRotate, w.tSourceSize.Usual →
        Settled v w (vdSetWindow v w tClippedSize tDisplayPos eRotate)) ∧
      (∀ tSourceSize : VideoSize, w.bAutoCenterClippedWindow = true → tSourceSize.Usual →
        Settled v w (vdSetSourceVideoSize v w tSourceSize)) ∧
      (∀ tClippedSize tDisplayPos eRotate, w.tSourceSize.Empty →
        vdSetWindow v w tClippedSize tDisplayPos eRotate =
          (true, ⟨w.tSourceSize, ⟨0, 0, tClippedSize.usWidth, tDisplayPos.sLeft⟩,
            ⟨0, 0, tClippedSize.usHeight, tDisplayPos.sTop⟩, eRotate, true⟩)) ∧
      ∀ tSourceSize : VideoSize, tSourceSize.Empty →
        vdSetSourceVideoSize v w tSourceSize = (true, { w with tSourceSize := tSourceSize }) := by
  refine ⟨?_, ?_, ?_, ?_⟩
  · intro tClippedSize tDisplayPos eRotate usual
    exact adjusted_settled configured usual rfl
  · intro tSourceSize auto usual
    exact adjusted_settled configured usual auto
  · intro tClippedSize tDisplayPos eRotate empty
    exact adjusted_empty empty
  · intro tSourceSize empty
    exact adjusted_empty empty

def idleWindow : VideoWindow := ⟨⟨0, 0⟩, ⟨0, 0, 0, 0⟩, ⟨0, 0, 0, 0⟩, .normal, true⟩

theorem window_contained_quarter :
    Settled ⟨true, ⟨320, 240⟩⟩ { idleWindow with tSourceSize := ⟨640, 480⟩ }
      (vdSetWindow ⟨true, ⟨320, 240⟩⟩ { idleWindow with tSourceSize := ⟨640, 480⟩ } ⟨320, 240⟩
        ⟨-10, 0⟩ .normal) :=
  (window_contained ⟨true, ⟨320, 240⟩⟩ rfl { idleWindow with tSourceSize := ⟨640, 480⟩ }).1
    ⟨320, 240⟩ ⟨-10, 0⟩ .normal ⟨by decide, by decide⟩

/-- Before a source is seen the clipped part is not in the image, which is empty. -/
theorem unseen_not_contained :
    vdSetWindow ⟨true, ⟨320, 240⟩⟩ idleWindow ⟨100, 100⟩ ⟨0, 0⟩ .normal =
        (true, ⟨⟨0, 0⟩, ⟨0, 0, 100, 0⟩, ⟨0, 0, 100, 0⟩, .normal, true⟩) ∧
      ¬ Contained ⟨true, ⟨320, 240⟩⟩
        ⟨⟨0, 0⟩, ⟨0, 0, 100, 0⟩, ⟨0, 0, 100, 0⟩, .normal, true⟩ := by
  refine ⟨by decide, ?_⟩
  intro contained
  exact absurd contained.acrossImage.2 (by decide)

end Rovio.VideoPhone
