import Rovio.VideoPhone.Window

/-! The size of the source is set again for every picture. -/
namespace Rovio.VideoPhone

section Visible

/-- How much of a dimension is left of or above the LCD. -/
def nearCut (position : Int) : Int := if position < 0 then -position else 0

/-- Where a part of `clipped`, put in the middle of an image of `scaling`, starts after the cut. -/
def movedOffset (scaling clipped : Nat) (position : Int) : Int :=
  (short ((halfOf (scaling - clipped)).toInt + nearCut position)).toInt

/-- The cut leaves nothing, as the 16-bit words have it. -/
def CutOff (scaling clipped : Nat) (position : Int) : Prop :=
  position < 0 ∧ (movedOffset scaling clipped position < 0 ∨
    (clipped + position) % 65536 > scaling)

instance (scaling clipped : Nat) (position : Int) : Decidable (CutOff scaling clipped position) :=
  inferInstanceAs (Decidable (_ ∧ _))

/-- The size that is seen on an LCD of `lcm`. -/
def visibleSize (scaling clipped : Nat) (position : Int) (lcm : Nat) : Nat :=
  if CutOff scaling clipped position then 0
  else min ((clipped - nearCut position) % 65536).toNat (lcm - max position 0).toNat

/-- The place in the scaled image at which it starts. -/
def visibleOffset (scaling clipped : Nat) (position : Int) : Int :=
  if CutOff scaling clipped position then 0 else movedOffset scaling clipped position

/-- What is seen is the middle of the scaled image. -/
def Middle (scaling clipped : Nat) (position : Int) (lcm : Nat) : Prop :=
  visibleOffset scaling clipped position =
    (halfOf (scaling - visibleSize scaling clipped position lcm)).toInt

variable {d : Dimension} {usScaling usLcm : UInt16}

theorem centre_clipped :
    (d.centre usScaling).usClipped.toNat = min d.usClipped.toNat usScaling.toNat := by
  unfold Dimension.centre
  dsimp only
  split <;> omega

theorem centre_offset :
    (d.centre usScaling).sClipped =
      halfOf (usScaling.toNat - (d.centre usScaling).usClipped.toNat) := rfl

/-- The cut at the far edge only takes from the size. -/
theorem cutHigh_clipped (start : 0 ≤ d.sDisplay.toInt)
    (fits : d.usClipped.toNat ≤ d.usScaling.toNat) :
    (d.cutHigh usLcm).usClipped.toNat =
        min d.usClipped.toNat (usLcm.toNat - d.sDisplay.toInt).toNat ∧
      (d.cutHigh usLcm).sClipped = d.sClipped := by
  have size := ushort_range usLcm
  have left := ushort_toNat (usLcm.toNat - d.sDisplay.toInt)
  unfold Dimension.cutHigh
  dsimp only
  split
  · split
    · refine ⟨?_, rfl⟩
      rw [UInt16.toNat_zero]
      omega
    · rw [if_neg (by omega)]
      refine ⟨?_, rfl⟩
      dsimp only
      omega
  · refine ⟨?_, rfl⟩
    omega

theorem cutLow_clipped (middle : d.sClipped = halfOf (d.usScaling.toNat - d.usClipped.toNat)) :
    d.cutLow.usClipped.toNat =
        (if CutOff d.usScaling.toNat d.usClipped.toNat d.sDisplay.toInt then 0
          else ((d.usClipped.toNat - nearCut d.sDisplay.toInt) % 65536).toNat) ∧
      d.cutLow.sClipped.toInt =
        visibleOffset d.usScaling.toNat d.usClipped.toNat d.sDisplay.toInt ∧
      d.cutLow.sDisplay.toInt = max d.sDisplay.toInt 0 := by
  have size := ushort_range d.usClipped
  have left := ushort_toNat (d.usClipped.toNat + d.sDisplay.toInt)
  unfold Dimension.cutLow visibleOffset
  dsimp only
  by_cases before : d.sDisplay.toInt < 0
  · have near : nearCut d.sDisplay.toInt = -d.sDisplay.toInt := if_pos before
    have moved : movedOffset d.usScaling.toNat d.usClipped.toNat d.sDisplay.toInt =
        (short (d.sClipped.toInt - d.sDisplay.toInt)).toInt := by
      unfold movedOffset
      rw [near, middle, ← Int.sub_eq_add_neg]
    have cut : CutOff d.usScaling.toNat d.usClipped.toNat d.sDisplay.toInt ↔
        (short (d.sClipped.toInt - d.sDisplay.toInt)).toInt < 0 ∨
          (ushort (d.usClipped.toNat + d.sDisplay.toInt)).toNat > d.usScaling.toNat := by
      unfold CutOff
      rw [moved]
      omega
    rw [if_pos before, near]
    by_cases off : CutOff d.usScaling.toNat d.usClipped.toNat d.sDisplay.toInt
    · rw [if_pos (cut.mp off), if_pos off, if_pos off]
      refine ⟨rfl, rfl, ?_⟩
      show (0 : Int) = _
      omega
    · rw [if_neg (fun code => off (cut.mpr code)), if_neg off, if_neg off]
      refine ⟨?_, moved.symm, ?_⟩
      · dsimp only
        omega
      · show (0 : Int) = _
        omega
  · have near : nearCut d.sDisplay.toInt = 0 := if_neg before
    have off : ¬ CutOff d.usScaling.toNat d.usClipped.toNat d.sDisplay.toInt :=
      fun cut => before cut.1
    have moved : movedOffset d.usScaling.toNat d.usClipped.toNat d.sDisplay.toInt =
        d.sClipped.toInt := by
      have range := short_range d.sClipped
      unfold movedOffset
      rw [near, ← middle, short_toInt]
      omega
    rw [if_neg before, near, if_neg off, if_neg off]
    exact ⟨by omega, moved.symm, by omega⟩

theorem cutLow_fits (fits : d.usClipped.toNat ≤ d.usScaling.toNat) :
    d.cutLow.usClipped.toNat ≤ d.usScaling.toNat := by
  unfold Dimension.cutLow
  dsimp only
  split
  · split
    · exact Nat.zero_le _
    · dsimp only
      omega
  · exact fits

theorem cut_fits (fits : d.usClipped.toNat ≤ d.usScaling.toNat) :
    (d.cut usLcm).usClipped.toNat ≤ d.usScaling.toNat := by
  have low : d.cutLow.usClipped.toNat ≤ d.cutLow.usScaling.toNat := by
    rw [cutLow_scaling]
    exact cutLow_fits fits
  unfold Dimension.cut
  rw [(@cutHigh_clipped _ usLcm cutLow_display low).1]
  exact Nat.le_trans (Nat.min_le_left _ _) (cutLow_fits fits)

theorem centre_fits : (d.centre usScaling).usClipped.toNat ≤ usScaling.toNat := by
  rw [centre_clipped]
  exact Nat.min_le_right _ _

/-- What of a centred part is left on the LCD, and where it starts in the image. -/
theorem cut_centre :
    ((d.centre usScaling).cut usLcm).usClipped.toNat =
        visibleSize usScaling.toNat (min d.usClipped.toNat usScaling.toNat) d.sDisplay.toInt
          usLcm.toNat ∧
      ((d.centre usScaling).cut usLcm).sClipped.toInt =
        visibleOffset usScaling.toNat (min d.usClipped.toNat usScaling.toNat)
          d.sDisplay.toInt := by
  obtain ⟨size, offset, position⟩ := cutLow_clipped (@centre_offset d usScaling)
  have fits : (d.centre usScaling).cutLow.usClipped.toNat ≤
      (d.centre usScaling).cutLow.usScaling.toNat := by
    rw [cutLow_scaling]
    exact cutLow_fits centre_fits
  obtain ⟨last, same⟩ := @cutHigh_clipped _ usLcm cutLow_display fits
  have scaled : (d.centre usScaling).usScaling = usScaling := rfl
  have placed : (d.centre usScaling).sDisplay = d.sDisplay := rfl
  unfold Dimension.cut
  rw [last, same, size, offset, position, centre_clipped, scaled, placed]
  refine ⟨?_, rfl⟩
  unfold visibleSize
  split
  · exact Nat.zero_min _
  · rfl

/-- A part that fits is only put in the middle. -/
theorem centre_of_fits (scaled : d.usScaling = usScaling)
    (fits : d.usClipped.toNat ≤ usScaling.toNat) :
    d.centre usScaling =
      { d with sClipped := halfOf (usScaling.toNat - d.usClipped.toNat) } := by
  unfold Dimension.centre
  dsimp only
  rw [if_neg (Nat.not_lt.mpr fits), scaled]

/-- What was cut is centred again, but not cut again. -/
theorem cut_again :
    (((d.centre usScaling).cut usLcm).centre usScaling).cut usLcm =
      { (d.centre usScaling).cut usLcm with
        sClipped := halfOf (usScaling.toNat -
          ((d.centre usScaling).cut usLcm).usClipped.toNat) } := by
  have onLcm := @cut_onLcm (d.centre usScaling) usLcm
  have scaled : ((d.centre usScaling).cut usLcm).usScaling = usScaling := cut_scaling
  rw [centre_of_fits scaled (cut_fits centre_fits)]
  exact cut_of_onLcm onLcm

theorem cut_again_iff :
    (((d.centre usScaling).cut usLcm).centre usScaling).cut usLcm = (d.centre usScaling).cut usLcm ↔
      Middle usScaling.toNat (min d.usClipped.toNat usScaling.toNat) d.sDisplay.toInt
        usLcm.toNat := by
  obtain ⟨size, offset⟩ := @cut_centre d usScaling usLcm
  unfold Middle
  rw [cut_again, ← size, ← offset, Int16.toInt_inj]
  constructor
  · intro same
    exact (congrArg Dimension.sClipped same).symm
  · intro middle
    rw [← middle]

theorem centre_again : (d.centre usScaling).centre usScaling = d.centre usScaling := by
  have scaled : (d.centre usScaling).usScaling = usScaling := rfl
  rw [centre_of_fits scaled centre_fits, ← centre_offset]

end Visible

section Again
variable {v : Lcm} {w : VideoWindow} {size again : VideoSize}

/-- The clipped size that a window has after it was adjusted. -/
def VideoWindow.leftSize (v : Lcm) (w : VideoWindow) (size : VideoSize) : VideoSize :=
  let width := min w.across.usClipped.toNat size.usWidth.toNat
  let height := min w.down.usClipped.toNat size.usHeight.toNat
  if v.bIsLcmConfigured then
    ⟨ushort (visibleSize size.usWidth.toNat width w.across.sDisplay.toInt
      v.tLcmSize.usWidth.toNat),
      ushort (visibleSize size.usHeight.toNat height w.down.sDisplay.toInt
        v.tLcmSize.usHeight.toNat)⟩
  else ⟨ushort width, ushort height⟩

/-- The LCD leaves the middle of the image. -/
def VideoWindow.LeavesMiddle (v : Lcm) (w : VideoWindow) (size : VideoSize) : Prop :=
  v.bIsLcmConfigured = true →
    Middle size.usWidth.toNat (min w.across.usClipped.toNat size.usWidth.toNat)
        w.across.sDisplay.toInt v.tLcmSize.usWidth.toNat ∧
      Middle size.usHeight.toNat (min w.down.usClipped.toNat size.usHeight.toNat)
        w.down.sDisplay.toInt v.tLcmSize.usHeight.toNat

/-- The window and the source for which a second call changes nothing: the window is not centred
automatically, the source is empty, no scaled size is found for it, or none for the size that the
LCD leaves; else for both it is the same, and the LCD leaves the middle. -/
def Steady (v : Lcm) (w : VideoWindow) (tSourceSize : VideoSize) : Prop :=
  w.bAutoCenterClippedWindow = true → ¬ tSourceSize.Empty →
    ∀ size, scalingSize (rotatedSize w.eRotate tSourceSize) w.clippedSize = some size →
      ∀ again, scalingSize (rotatedSize w.eRotate tSourceSize) (w.leftSize v size) = some again →
        again = size ∧ w.LeavesMiddle v size

theorem centred_leftSize : (vdAdjustLCM v (w.centred size)).clippedSize = w.leftSize v size := by
  unfold vdAdjustLCM VideoWindow.leftSize VideoWindow.clippedSize VideoWindow.centred
  dsimp only
  split
  · rw [← (@cut_centre w.across size.usWidth v.tLcmSize.usWidth).1,
      ← (@cut_centre w.down size.usHeight v.tLcmSize.usHeight).1, ushort_of_word, ushort_of_word]
  · rw [← (@centre_clipped w.across size.usWidth), ← (@centre_clipped w.down size.usHeight),
      ushort_of_word, ushort_of_word]

theorem adjust_scaling :
    (vdAdjustLCM v (w.centred size)).across.usScaling = size.usWidth ∧
      (vdAdjustLCM v (w.centred size)).down.usScaling = size.usHeight := by
  unfold vdAdjustLCM
  split
  · exact ⟨cut_scaling, cut_scaling⟩
  · exact ⟨rfl, rfl⟩

theorem adjust_again_iff :
    vdAdjustLCM v ((vdAdjustLCM v (w.centred size)).centred size) =
        vdAdjustLCM v (w.centred size) ↔ w.LeavesMiddle v size := by
  unfold VideoWindow.LeavesMiddle
  rw [← cut_again_iff, ← cut_again_iff]
  unfold vdAdjustLCM VideoWindow.centred
  dsimp only
  split
  · rw [VideoWindow.mk.injEq]
    constructor
    · rintro ⟨_, across, down, _⟩ _
      exact ⟨across, down⟩
    · intro middle
      obtain ⟨across, down⟩ := middle ‹_›
      exact ⟨rfl, across, down, rfl, rfl⟩
  · constructor
    · intro _ configured
      exact absurd configured ‹_›
    · intro _
      dsimp only
      rw [centre_again, centre_again]

theorem vdAdjustLCM_keeps :
    (vdAdjustLCM v w).tSourceSize = w.tSourceSize ∧ (vdAdjustLCM v w).eRotate = w.eRotate ∧
      (vdAdjustLCM v w).bAutoCenterClippedWindow = w.bAutoCenterClippedWindow := by
  unfold vdAdjustLCM
  split
  · exact ⟨rfl, rfl, rfl⟩
  · exact ⟨rfl, rfl, rfl⟩

theorem vdAdjustLCM_again : vdAdjustLCM v (vdAdjustLCM v w) = vdAdjustLCM v w := by
  unfold vdAdjustLCM
  split
  · dsimp only
    rw [cut_of_onLcm cut_onLcm, cut_of_onLcm cut_onLcm]
  · rfl

end Again

/-- What the second call of two with one source size leaves. -/
theorem second_call {v : Lcm} {w : VideoWindow} {tSourceSize : VideoSize}
    (same : w.tSourceSize = tSourceSize) :
    vdSetSourceVideoSize v w tSourceSize = adjusted v w w := by
  unfold vdSetSourceVideoSize
  rw [← same]

theorem adjusted_true {v : Lcm} {before changed after : VideoWindow}
    (found : vdAdjustWindow v changed = (true, after)) : (adjusted v before changed).2 = after := by
  unfold adjusted
  rw [found]

theorem adjusted_false {v : Lcm} {before changed after : VideoWindow}
    (found : vdAdjustWindow v changed = (false, after)) :
    (adjusted v before changed).2 = before := by
  unfold adjusted
  rw [found]

/-- A second adjustment of a window that was centred. -/
theorem centred_twice {v : Lcm} {w after : VideoWindow} {size : VideoSize}
    (seen : ¬ w.tSourceSize.Empty) (auto : w.bAutoCenterClippedWindow = true)
    (first : vdAdjustLCM v (w.centred size) = after) :
    (adjusted v after after).2 = after ↔
      ∀ again, scalingSize w.source (w.leftSize v size) = some again →
        again = size ∧ w.LeavesMiddle v size := by
  obtain ⟨source, rotate, kept⟩ := @vdAdjustLCM_keeps v (w.centred size)
  have left := @centred_leftSize v w size
  obtain ⟨width, height⟩ := @adjust_scaling v w size
  have middle := @adjust_again_iff v w size
  rw [first] at source rotate kept left width height middle
  have same : after.source = w.source := by
    unfold VideoWindow.source
    rw [source, rotate]
    rfl
  have seenAgain : ¬ after.tSourceSize.Empty := by
    rw [source]
    exact seen
  have autoAgain : after.bAutoCenterClippedWindow = true := kept.trans auto
  rw [← left, ← same]
  cases found : scalingSize after.source after.clippedSize with
  | none =>
    rw [adjusted_false (adjust_none seenAgain autoAgain found)]
    exact iff_of_true rfl (by rintro _ ⟨⟩)
  | some again =>
    rw [adjusted_true (adjust_some seenAgain autoAgain found)]
    constructor
    · rintro unchanged _ ⟨⟩
      have widthAgain := (@adjust_scaling v after again).1
      have heightAgain := (@adjust_scaling v after again).2
      rw [unchanged, width] at widthAgain
      rw [unchanged, height] at heightAgain
      have equal : again = size := by
        cases again
        cases size
        cases widthAgain
        cases heightAgain
        rfl
      rw [equal] at unchanged
      exact ⟨equal, middle.mp unchanged⟩
    · intro steady
      obtain ⟨rfl, leaves⟩ := steady again rfl
      exact middle.mpr leaves

/-- Two calls with one source size leave the window that one leaves, just when the window is
steady. -/
theorem source_twice_iff (v : Lcm) (w : VideoWindow) (tSourceSize : VideoSize) :
    (vdSetSourceVideoSize v (vdSetSourceVideoSize v w tSourceSize).2 tSourceSize).2 =
        (vdSetSourceVideoSize v w tSourceSize).2 ↔
      Steady v w tSourceSize := by
  unfold Steady
  have first : vdSetSourceVideoSize v w tSourceSize =
      adjusted v w { w with tSourceSize := tSourceSize } := rfl
  by_cases empty : tSourceSize.Empty
  · rw [first, adjusted_empty empty, second_call rfl, adjusted_empty empty]
    exact iff_of_true rfl (fun _ seen => absurd empty seen)
  · cases auto : w.bAutoCenterClippedWindow with
    | false =>
      have one := @adjust_fixed v { w with tSourceSize := tSourceSize } empty auto
      obtain ⟨source, _, kept⟩ := @vdAdjustLCM_keeps v { w with tSourceSize := tSourceSize }
      have seen : ¬ (vdAdjustLCM v { w with tSourceSize := tSourceSize }).tSourceSize.Empty := by
        rw [source]
        exact empty
      rw [first, adjusted_true one, second_call source,
        adjusted_true (adjust_fixed seen (kept.trans auto)), vdAdjustLCM_again]
      exact iff_of_true rfl (by rintro ⟨⟩)
    | true =>
      cases found : scalingSize (rotatedSize w.eRotate tSourceSize) w.clippedSize with
      | none =>
        have one := @adjust_none v { w with tSourceSize := tSourceSize } empty auto found
        rw [first, adjusted_false one, first, adjusted_false one]
        exact iff_of_true rfl (by rintro _ _ _ ⟨⟩)
      | some size =>
        have one := @adjust_some v { w with tSourceSize := tSourceSize } size empty auto found
        have source : (vdAdjustLCM v
            (VideoWindow.centred { w with tSourceSize := tSourceSize } size)).tSourceSize =
            tSourceSize := vdAdjustLCM_keeps.1
        have twice := @centred_twice v { w with tSourceSize := tSourceSize } _ size empty auto rfl
        rw [first, adjusted_true one, second_call source, twice]
        constructor
        · rintro steady _ _ _ ⟨⟩
          exact steady
        · intro steady
          exact steady rfl empty size rfl

/-- A window of 100 by 100 that is set 10 pixels left of the LCD. -/
def overEdge : VideoWindow :=
  (vdSetWindow ⟨true, ⟨320, 240⟩⟩ idleWindow ⟨100, 100⟩ ⟨-10, 0⟩ .normal).2

/-- The first picture of 100 by 100 is seen from its column 10 on, the second from column 5. -/
theorem picture_moves :
    (vdSetSourceVideoSize ⟨true, ⟨320, 240⟩⟩ overEdge ⟨100, 100⟩).2.across =
        ⟨100, 10, 90, 0⟩ ∧
      (vdSetSourceVideoSize ⟨true, ⟨320, 240⟩⟩
        (vdSetSourceVideoSize ⟨true, ⟨320, 240⟩⟩ overEdge ⟨100, 100⟩).2 ⟨100, 100⟩).2.across =
        ⟨100, 5, 90, 0⟩ ∧
      (vdSetSourceVideoSize ⟨true, ⟨320, 240⟩⟩
        (vdSetSourceVideoSize ⟨true, ⟨320, 240⟩⟩ overEdge ⟨100, 100⟩).2 ⟨100, 100⟩).2 ≠
        (vdSetSourceVideoSize ⟨true, ⟨320, 240⟩⟩ overEdge ⟨100, 100⟩).2 := by
  decide +kernel

theorem nearCut_cases (position : Int) :
    nearCut position = -position ∧ position < 0 ∨ nearCut position = 0 ∧ 0 ≤ position := by
  unfold nearCut
  split <;> omega

/-- For sizes below 32768 the cuts are those of the numbers, without the words. -/
theorem visible_usual {scaling clipped lcm : Nat} {position : Int} (fits : clipped ≤ scaling)
    (small : scaling < 32768) (word : -32768 ≤ position) :
    visibleSize scaling clipped position lcm =
        min (clipped - nearCut position).toNat (lcm - max position 0).toNat ∧
      visibleOffset scaling clipped position =
        if nearCut position ≤ clipped then (scaling - clipped : Int) / 2 + nearCut position
        else 0 := by
  have half := @halfOf_word (scaling - clipped) (by omega)
  have near := nearCut_cases position
  have moved : movedOffset scaling clipped position =
      ((scaling - clipped : Int) / 2 + nearCut position + 32768) % 65536 - 32768 := by
    unfold movedOffset
    rw [short_toInt, half]
  unfold visibleSize visibleOffset
  by_cases off : CutOff scaling clipped position
  · have beyond : clipped < nearCut position := by
      obtain ⟨before, cut⟩ := off
      omega
    rw [if_pos off, if_pos off, if_neg (by omega)]
    exact ⟨by omega, rfl⟩
  · have inside : nearCut position ≤ clipped := by
      unfold CutOff at off
      omega
    rw [if_neg off, if_neg off, if_pos inside, moved]
    exact ⟨by omega, by omega⟩

/-- So an image below 32768 keeps its middle when the LCD takes as much from one edge as from the
other, but for half a pixel. -/
theorem middle_usual {scaling clipped lcm : Nat} {position : Int} (fits : clipped ≤ scaling)
    (small : scaling < 32768) (word : -32768 ≤ position) (seen : nearCut position ≤ clipped) :
    Middle scaling clipped position lcm ↔
      (scaling - clipped : Int) / 2 + nearCut position =
        (scaling - min (clipped - nearCut position) (max (lcm - max position 0) 0)) / 2 := by
  obtain ⟨size, offset⟩ := @visible_usual scaling clipped lcm position fits small word
  unfold Middle
  have near := nearCut_cases position
  rw [offset, if_pos seen, size, halfOf_word (by omega)]
  have same : (min (clipped - nearCut position).toNat (lcm - max position 0).toNat : Nat) =
      min (clipped - nearCut position) (max (lcm - max position 0) 0) := by
    omega
  rw [same]

/-- What lies on the LCD is seen whole, in the middle. -/
theorem visible_onLcm {scaling clipped lcm : Nat} {position : Int} (start : 0 ≤ position)
    (stop : position + clipped ≤ lcm) (word : clipped < 65536) :
    visibleSize scaling clipped position lcm = clipped ∧
      Middle scaling clipped position lcm := by
  have near : nearCut position = 0 := if_neg (by omega)
  have seen : ¬ CutOff scaling clipped position := fun cut => absurd cut.1 (by omega)
  have range := short_range (halfOf (scaling - clipped))
  have size : visibleSize scaling clipped position lcm = clipped := by
    unfold visibleSize
    rw [if_neg seen, near]
    omega
  refine ⟨size, ?_⟩
  unfold Middle visibleOffset movedOffset
  rw [size, if_neg seen, near, short_toInt]
  omega

/-- A size that is not above the source's is not scaled above it. -/
theorem evaluate_up {old wanted : UInt16} (some : 0 < old.toNat)
    (fits : wanted.toNat ≤ old.toNat) :
    EvaluateScalingSize old.toUInt32 wanted.toUInt32 255 16 = 0 ∨
      wanted.toNat ≤ EvaluateScalingSize old.toUInt32 wanted.toUInt32 255 16 ∧
        EvaluateScalingSize old.toUInt32 wanted.toUInt32 255 16 ≤ old.toNat := by
  have word := ushort_range old
  have outcome := @search_first old.toNat wanted.toNat 255 16 16 0
  rw [roundWord_start (by omega)] at outcome
  have result : EvaluateScalingSize old.toUInt32 wanted.toUInt32 255 16 =
      searchSize (nextSize 16) old.toNat 255 16 wanted.toNat := rfl
  rw [result]
  rcases outcome with ⟨j, _, bound, hit, before, found⟩ | ⟨_, none⟩
  · have here : roundWord wanted.toNat 16 j = wanted.toNat + j :=
      roundWord_size (if_pos (by decide)) (by omega)
    rw [found, here]
    rcases Nat.eq_zero_or_pos (wanted.toNat + j) with zero | positive
    · exact .inl zero
    · refine .inr ⟨by omega, ?_⟩
      by_contra above
      have itself : roundWord wanted.toNat 16 (old.toNat - wanted.toNat) = old.toNat := by
        apply roundWord_size _ (by omega)
        unfold roundSize
        rw [if_pos (by decide)]
        omega
      apply before (old.toNat - wanted.toNat) (Nat.zero_le _) (by omega)
      rw [itself]
      have whole : old.toNat.gcd old.toNat % 65536 = old.toNat := by
        rw [Nat.gcd_self]
        exact Nat.mod_eq_of_lt word
      have one : old.toNat / (old.toNat.gcd old.toNat % 65536) ≤ 255 := by
        rw [whole, Nat.div_self some]
        decide
      exact ⟨by omega, one, one⟩
  · exact .inl none

theorem larger_word {n : Nat} {m limit : UInt16} (number : n ≤ limit.toNat)
    (word : m.toNat ≤ limit.toNat) :
    m.toNat ≤ (if n > m.toNat then ushort n else m).toNat ∧
      (if n > m.toNat then ushort n else m).toNat ≤ limit.toNat := by
  have range := ushort_range limit
  have whole := ushort_toNat n
  split <;> omega

/-- Of a size that is not above the source. -/
theorem coveringSize_between {source clipped : VideoSize}
    (width : clipped.usWidth.toNat ≤ source.usWidth.toNat)
    (height : clipped.usHeight.toNat ≤ source.usHeight.toNat) :
    (clipped.usWidth.toNat ≤ (coveringSize source clipped).usWidth.toNat ∧
        (coveringSize source clipped).usWidth.toNat ≤ source.usWidth.toNat) ∧
      clipped.usHeight.toNat ≤ (coveringSize source clipped).usHeight.toNat ∧
        (coveringSize source clipped).usHeight.toNat ≤ source.usHeight.toNat := by
  have first : clipped.usWidth.toNat * source.usHeight.toNat / source.usWidth.toNat ≤
      source.usHeight.toNat :=
    Nat.div_le_of_le_mul (Nat.mul_le_mul_right _ width)
  have tall := larger_word first height
  have second : (coveringSize source clipped).usHeight.toNat * source.usWidth.toNat /
      source.usHeight.toNat ≤ source.usWidth.toNat :=
    Nat.div_le_of_le_mul (Nat.mul_le_mul_right _ tall.2)
  exact ⟨larger_word second width, tall⟩

/-- A clipped size that is not above the source is not above the scaled size. -/
theorem scalingSize_covers {source clipped size : VideoSize} (seen : ¬ source.Empty)
    (width : clipped.usWidth.toNat ≤ source.usWidth.toNat)
    (height : clipped.usHeight.toNat ≤ source.usHeight.toNat)
    (found : scalingSize source clipped = some size) :
    clipped.usWidth.toNat ≤ size.usWidth.toNat ∧
      clipped.usHeight.toNat ≤ size.usHeight.toNat := by
  have someWidth : 0 < source.usWidth.toNat := by
    apply Nat.pos_of_ne_zero
    exact fun zero => seen (.inl (UInt16.toNat_inj.mp zero))
  have someHeight : 0 < source.usHeight.toNat := by
    apply Nat.pos_of_ne_zero
    exact fun zero => seen (.inr (UInt16.toNat_inj.mp zero))
  obtain ⟨⟨wide, narrow⟩, tall, low⟩ := coveringSize_between width height
  unfold scalingSize scalerSize at found
  dsimp only at found
  split at found
  · cases found
  · rename_i nonzero
    split at found
    · cases found
      exact ⟨width, height⟩
    · cases found
      have wideWord := ushort_toNat (EvaluateScalingSize source.usWidth.toUInt32
        (coveringSize source clipped).usWidth.toUInt32 255 16)
      have tallWord := ushort_toNat (EvaluateScalingSize source.usHeight.toUInt32
        (coveringSize source clipped).usHeight.toUInt32 255 16)
      have rangeWidth := ushort_range source.usWidth
      have rangeHeight := ushort_range source.usHeight
      obtain ⟨widthSome, heightSome⟩ := not_or.mp nonzero
      dsimp only
      constructor
      · rcases evaluate_up someWidth narrow with zero | ⟨up, down⟩
        · rw [zero] at widthSome
          exact absurd rfl widthSome
        · omega
      · rcases evaluate_up someHeight low with zero | ⟨up, down⟩
        · rw [zero] at heightSome
          exact absurd rfl heightSome
        · omega

theorem rotated_empty {s : VideoSize} (eRotate : Rotate) :
    (rotatedSize eRotate s).Empty ↔ s.Empty := by
  unfold rotatedSize VideoSize.Empty
  split
  · exact Or.comm
  · exact Iff.rfl

/-- So a window that is not above its source and lies on the LCD is steady. -/
theorem steady_onLcm {v : Lcm} {w : VideoWindow} {tSourceSize : VideoSize}
    (width : w.across.usClipped.toNat ≤ (rotatedSize w.eRotate tSourceSize).usWidth.toNat)
    (height : w.down.usClipped.toNat ≤ (rotatedSize w.eRotate tSourceSize).usHeight.toNat)
    (across : w.across.OnLcm v.tLcmSize.usWidth) (down : w.down.OnLcm v.tLcmSize.usHeight) :
    Steady v w tSourceSize := by
  intro _ seen size found again foundAgain
  have shown : ¬ (rotatedSize w.eRotate tSourceSize).Empty :=
    fun empty => seen ((rotated_empty w.eRotate).mp empty)
  obtain ⟨wide, tall⟩ := scalingSize_covers shown width height found
  have wholeWidth : min w.across.usClipped.toNat size.usWidth.toNat = w.across.usClipped.toNat :=
    Nat.min_eq_left wide
  have wholeHeight : min w.down.usClipped.toNat size.usHeight.toNat = w.down.usClipped.toNat :=
    Nat.min_eq_left tall
  obtain ⟨seenWidth, middleWidth⟩ := @visible_onLcm size.usWidth.toNat _ _ _ across.1 across.2
    (ushort_range w.across.usClipped)
  obtain ⟨seenHeight, middleHeight⟩ := @visible_onLcm size.usHeight.toNat _ _ _ down.1 down.2
    (ushort_range w.down.usClipped)
  have left : w.leftSize v size = w.clippedSize := by
    unfold VideoWindow.leftSize VideoWindow.clippedSize
    dsimp only
    rw [wholeWidth, wholeHeight, seenWidth, seenHeight, ushort_of_word, ushort_of_word]
    split <;> rfl
  rw [left, found] at foundAgain
  cases foundAgain
  refine ⟨rfl, fun _ => ?_⟩
  rw [wholeWidth, wholeHeight]
  exact ⟨middleWidth, middleHeight⟩

end Rovio.VideoPhone
