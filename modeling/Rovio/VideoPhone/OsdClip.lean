import Mathlib.Tactic.Linarith
import Rovio.VideoPhone.Osd

/-! The OSD after drawing a block of pixels: the block, clipped to the screen. -/
namespace Rovio.VideoPhone

/-- Where an address of the screen is in the rectangle, as the number of the pixel in the data. -/
def OsdRect.index (r : OsdRect) (x y : Int) : Int := (y - r.nTop) * r.nWidth + (x - r.nLeft)

/-- The number of the pixel at an address. -/
def OsdRect.pixelAt (s : OsdScreen) (r : OsdRect) (a : Int) : Int :=
  r.index (a / s.uPixelWidth % s.width) (a / s.uPixelWidth / s.width)

/-- An address on the screen, in the columns of the rectangle and not above it. -/
structure Shown (s : OsdScreen) (r : OsdRect) (a : Int) : Prop where
  inside : 0 ≤ a ∧ a < s.uPixelWidth * (s.width * s.height)
  column : r.nLeft ≤ a / s.uPixelWidth % s.width ∧
    a / s.uPixelWidth % s.width < r.nLeft + r.nWidth
  row : r.nTop ≤ a / s.uPixelWidth / s.width

instance (s : OsdScreen) (r : OsdRect) (a : Int) : Decidable (Shown s r a) :=
  decidable_of_iff (_ ∧ _ ∧ _) ⟨fun all => ⟨all.1, all.2.1, all.2.2⟩,
    fun shown => ⟨shown.inside, shown.column, shown.row⟩⟩

/-- The screen with the first `k` pixels of the data, clipped to it. -/
def painted (s : OsdScreen) (r : OsdRect) (data : List UInt8) (memory : Memory) (k : Int) :
    Memory :=
  fun a =>
    if Shown s r a ∧ r.pixelAt s a < k then
      data.getD (r.pixelAt s a * s.uPixelWidth + a % s.uPixelWidth).toNat 0
    else memory a

section Pixels
variable {s : OsdScreen} {r : OsdRect}

theorem pixelWidth_positive : 0 < (s.uPixelWidth : Int) := by
  unfold OsdScreen.uPixelWidth vlcmGetOSDColorWidth
  split <;> decide

/-- A byte of a pixel of the screen: its column, its row and its place in the pixel. -/
theorem address_parts {a x y i : Int} (column : 0 ≤ x ∧ x < s.width)
    (byte : 0 ≤ i ∧ i < s.uPixelWidth) (here : a = (x + y * s.width) * s.uPixelWidth + i) :
    a / s.uPixelWidth % s.width = x ∧ a / s.uPixelWidth / s.width = y ∧ a % s.uPixelWidth = i := by
  have width : 0 < s.width := by omega
  have pixel : a / s.uPixelWidth = x + y * s.width ∧ a % s.uPixelWidth = i := by
    apply (Int.ediv_emod_unique pixelWidth_positive).mpr
    refine ⟨?_, byte⟩
    rw [here]
    ring
  have place : (x + y * s.width) / s.width = y ∧ (x + y * s.width) % s.width = x := by
    apply (Int.ediv_emod_unique width).mpr
    refine ⟨?_, column⟩
    ring
  rw [pixel.1]
  exact ⟨place.2, place.1, pixel.2⟩

/-- And every address has such parts. -/
theorem address_whole (s : OsdScreen) (a : Int) :
    a = (a / s.uPixelWidth % s.width + a / s.uPixelWidth / s.width * s.width) * s.uPixelWidth +
      a % s.uPixelWidth := by
  have pixel := Int.mul_ediv_add_emod a s.uPixelWidth
  have place := Int.mul_ediv_add_emod (a / s.uPixelWidth) s.width
  calc a = s.uPixelWidth * (a / s.uPixelWidth) + a % s.uPixelWidth := pixel.symm
    _ = s.uPixelWidth * (s.width * (a / s.uPixelWidth / s.width) +
          a / s.uPixelWidth % s.width) + a % s.uPixelWidth := by rw [place]
    _ = _ := by ring

/-- An address is on the screen just when its row is. -/
theorem address_inside (width : 0 < s.width) (a : Int) :
    0 ≤ a ∧ a < s.uPixelWidth * (s.width * s.height) ↔
      0 ≤ a / s.uPixelWidth / s.width ∧ a / s.uPixelWidth / s.width < s.height := by
  have pixels := @pixelWidth_positive s
  have same : s.uPixelWidth * (s.width * s.height) = s.height * (s.uPixelWidth * s.width) := by
    ring
  rw [Int.ediv_ediv_of_nonneg (Int.le_of_lt pixels),
    Int.ediv_nonneg_iff_of_pos (Int.mul_pos pixels width),
    Int.ediv_lt_iff_lt_mul (Int.mul_pos pixels width), same]

theorem getD_slice {l : List UInt8} {start n i : Nat} (inside : i < n) :
    ((l.drop start).take n).getD i 0 = l.getD (start + i) 0 := by
  simp only [List.getD_eq_getElem?_getD, List.getElem?_take, List.getElem?_drop, if_pos inside]

/-- The pixel that a round has. -/
theorem index_unique {k x y : Int} (column : r.nLeft ≤ x ∧ x < r.nLeft + r.nWidth)
    (here : r.index x y = k) :
    x = r.nLeft + k % r.nWidth ∧ y = r.nTop + k / r.nWidth := by
  have parts : k / r.nWidth = y - r.nTop ∧ k % r.nWidth = x - r.nLeft := by
    apply (Int.ediv_emod_unique (by omega)).mpr
    refine ⟨?_, by omega, by omega⟩
    rw [← here]
    unfold OsdRect.index
    ring
  omega

theorem index_of {k : Int} :
    r.index (r.nLeft + k % r.nWidth) (r.nTop + k / r.nWidth) = k := by
  have whole := Int.mul_ediv_add_emod k r.nWidth
  unfold OsdRect.index
  linarith

/-- The copy before the pixel `k`. -/
def cursorAt (s : OsdScreen) (r : OsdRect) (data : List UInt8) (memory : Memory) (k : Int) :
    OsdCursor where
  nX := r.nLeft + k % r.nWidth
  nY := r.nTop + k / r.nWidth
  pucOSDBuffer := (r.nLeft + k % r.nWidth + (r.nTop + k / r.nWidth) * s.width) * s.uPixelWidth
  memory := painted s r data memory k

variable {data : List UInt8} {memory : Memory} {k : Nat}

/-- Only at the addresses of its pixel does a round make a difference. -/
theorem painted_still {a : Int} (other : ¬ (Shown s r a ∧ r.pixelAt s a = k)) :
    painted s r data memory (k + 1) a = painted s r data memory k a := by
  unfold painted
  by_cases before : Shown s r a ∧ r.pixelAt s a < k
  · rw [if_pos before, if_pos ⟨before.1, by omega⟩]
  · rw [if_neg before, if_neg]
    rintro ⟨shown, bound⟩
    have not_before : ¬ r.pixelAt s a < k := fun less => before ⟨shown, less⟩
    have not_here : ¬ r.pixelAt s a = k := fun here => other ⟨shown, here⟩
    omega

theorem shown_width {a : Int} (shown : Shown s r a) : 0 < s.width := by
  have inside := shown.inside
  have positive : 0 ≤ s.width := Int.natCast_nonneg _
  by_contra none
  have zero : s.width = 0 := by omega
  rw [zero, Int.zero_mul, Int.mul_zero] at inside
  omega

/-- The addresses of the pixel `k` on the screen. -/
theorem pixel_place {a : Int} (shown : Shown s r a) (here : r.pixelAt s a = k) :
    (0 ≤ r.nLeft + (k : Int) % r.nWidth ∧ r.nLeft + (k : Int) % r.nWidth < s.width ∧
        0 ≤ r.nTop + (k : Int) / r.nWidth ∧ r.nTop + (k : Int) / r.nWidth < s.height) ∧
      a = (cursorAt s r data memory k).pucOSDBuffer + a % s.uPixelWidth := by
  have width := shown_width shown
  obtain ⟨column, row⟩ := index_unique shown.column here
  have rows := (address_inside width a).mp shown.inside
  have low := Int.emod_nonneg (a / s.uPixelWidth) (Int.ne_of_gt width)
  have high := Int.emod_lt_of_pos (a / s.uPixelWidth) width
  have whole := address_whole s a
  rw [column] at low high whole
  rw [row] at rows whole
  exact ⟨⟨low, high, rows.1, rows.2⟩, whole⟩

/-- A round draws its pixel where it is on the screen. -/
theorem poke_painted (positive : 0 < r.nWidth)
    (present : (k + 1) * s.uPixelWidth ≤ data.length)
    (onScreen : 0 ≤ r.nLeft + (k : Int) % r.nWidth ∧ r.nLeft + (k : Int) % r.nWidth < s.width ∧
      0 ≤ r.nTop + (k : Int) / r.nWidth ∧ r.nTop + (k : Int) / r.nWidth < s.height) :
    poke (painted s r data memory k) (cursorAt s r data memory k).pucOSDBuffer
        ((data.drop (k * s.uPixelWidth)).take s.uPixelWidth) =
      painted s r data memory (k + 1) := by
  have size : ((data.drop (k * s.uPixelWidth)).take s.uPixelWidth).length = s.uPixelWidth := by
    rw [List.length_take, List.length_drop, Nat.min_eq_left]
    rw [Nat.add_mul, Nat.one_mul] at present
    omega
  obtain ⟨left, right, top, bottom⟩ := onScreen
  funext a
  unfold poke
  rw [size]
  by_cases range : (cursorAt s r data memory k).pucOSDBuffer ≤ a ∧
      a < (cursorAt s r data memory k).pucOSDBuffer + s.uPixelWidth
  · rw [if_pos range]
    have byte : 0 ≤ a - (cursorAt s r data memory k).pucOSDBuffer ∧
        a - (cursorAt s r data memory k).pucOSDBuffer < s.uPixelWidth := by omega
    obtain ⟨column, row, place⟩ := @address_parts s a (r.nLeft + k % r.nWidth)
      (r.nTop + k / r.nWidth) (a - (cursorAt s r data memory k).pucOSDBuffer) ⟨left, right⟩ byte
      (by unfold cursorAt; ring)
    have here : r.pixelAt s a = k := by
      unfold OsdRect.pixelAt
      rw [column, row]
      exact index_of
    have before := Int.emod_nonneg (k : Int) (Int.ne_of_gt positive)
    have after := Int.emod_lt_of_pos (k : Int) positive
    have rows := Int.ediv_nonneg (Int.natCast_nonneg k) (Int.le_of_lt positive)
    have shown : Shown s r a := by
      constructor
      · apply (address_inside (by omega) a).mpr
        rw [row]
        exact ⟨top, bottom⟩
      · rw [column]
        omega
      · rw [row]
        omega
    unfold painted
    rw [if_pos ⟨shown, by omega⟩, here, place]
    obtain ⟨i, offset⟩ := Int.eq_ofNat_of_zero_le byte.1
    rw [offset] at byte ⊢
    rw [Int.toNat_natCast, getD_slice (by omega)]
    apply congrArg (fun i => data.getD i 0)
    omega
  · rw [if_neg range]
    apply (painted_still _).symm
    rintro ⟨shown, here⟩
    have whole := (@pixel_place s r data memory k a shown here).2
    have low := Int.emod_nonneg a (Int.ne_of_gt (@pixelWidth_positive s))
    have high := Int.emod_lt_of_pos a (@pixelWidth_positive s)
    omega

/-- A round off the screen draws nothing. -/
theorem painted_hidden
    (hidden : ¬ (0 ≤ r.nLeft + (k : Int) % r.nWidth ∧ r.nLeft + (k : Int) % r.nWidth < s.width ∧
      0 ≤ r.nTop + (k : Int) / r.nWidth ∧ r.nTop + (k : Int) / r.nWidth < s.height)) :
    painted s r data memory (k + 1) = painted s r data memory k := by
  funext a
  apply painted_still
  rintro ⟨shown, here⟩
  exact hidden (@pixel_place s r data memory k a shown here).1

theorem next_pixel {w k : Int} (positive : 0 < w) :
    (w ≤ k % w + 1 → (k + 1) / w = k / w + 1 ∧ (k + 1) % w = 0) ∧
      (¬ w ≤ k % w + 1 → (k + 1) / w = k / w ∧ (k + 1) % w = k % w + 1) := by
  have low := Int.emod_nonneg k (Int.ne_of_gt positive)
  have high := Int.emod_lt_of_pos k positive
  have whole := Int.mul_ediv_add_emod k w
  constructor
  · intro last
    apply (Int.ediv_emod_unique positive).mpr
    rw [Int.mul_add]
    omega
  · intro more
    apply (Int.ediv_emod_unique positive).mpr
    omega

theorem copyPixel_painted (positive : 0 < r.nWidth)
    (present : (k + 1) * s.uPixelWidth ≤ data.length) :
    copyPixel s r (r.nLeft + r.nWidth) ((data.drop (k * s.uPixelWidth)).take s.uPixelWidth)
        (cursorAt s r data memory k) =
      cursorAt s r data memory (k + 1) := by
  have drawn : (if 0 ≤ r.nLeft + (k : Int) % r.nWidth ∧ r.nLeft + (k : Int) % r.nWidth < s.width ∧
        0 ≤ r.nTop + (k : Int) / r.nWidth ∧ r.nTop + (k : Int) / r.nWidth < s.height then
      poke (painted s r data memory k) (cursorAt s r data memory k).pucOSDBuffer
        ((data.drop (k * s.uPixelWidth)).take s.uPixelWidth)
      else painted s r data memory k) = painted s r data memory (k + 1) := by
    split
    case isTrue onScreen => exact poke_painted positive present onScreen
    case isFalse hidden => exact (painted_hidden hidden).symm
  obtain ⟨wrap, same⟩ := @next_pixel r.nWidth k positive
  unfold copyPixel
  simp only [show (cursorAt s r data memory k).nX = r.nLeft + (k : Int) % r.nWidth from rfl,
    show (cursorAt s r data memory k).nY = r.nTop + (k : Int) / r.nWidth from rfl,
    show (cursorAt s r data memory k).memory = painted s r data memory k from rfl, drawn]
  by_cases last : r.nWidth ≤ (k : Int) % r.nWidth + 1
  · obtain ⟨row, column⟩ := wrap last
    rw [if_pos (by omega)]
    unfold cursorAt
    rw [row, column]
    simp only [OsdCursor.mk.injEq, and_true]
    have full : (k : Int) % r.nWidth = r.nWidth - 1 := by
      have high := Int.emod_lt_of_pos (k : Int) positive
      omega
    refine ⟨by omega, by omega, ?_⟩
    rw [full]
    ring
  · obtain ⟨row, column⟩ := same last
    rw [if_neg (by omega)]
    unfold cursorAt
    rw [row, column]
    simp only [OsdCursor.mk.injEq, and_true]
    refine ⟨by omega, trivial, ?_⟩
    ring

theorem copyPixels_painted (positive : 0 < r.nWidth) (rounds : Nat)
    (present : (k + rounds) * s.uPixelWidth ≤ data.length) :
    copyPixels s r (r.nLeft + r.nWidth) rounds
        ((data.drop (k * s.uPixelWidth)).take (rounds * s.uPixelWidth))
        (cursorAt s r data memory k) =
      cursorAt s r data memory (k + rounds : Nat) := by
  induction rounds generalizing k with
  | zero => rfl
  | succ rounds ih =>
    have sum : k + (rounds + 1) = k + 1 + rounds := by omega
    rw [sum] at present ⊢
    have enough : (k + 1) * s.uPixelWidth ≤ data.length :=
      Nat.le_trans (Nat.mul_le_mul_right _ (Nat.le_add_right _ rounds)) present
    have pixel : ((data.drop (k * s.uPixelWidth)).take ((rounds + 1) * s.uPixelWidth)).take
        s.uPixelWidth = (data.drop (k * s.uPixelWidth)).take s.uPixelWidth := by
      rw [List.take_take, Nat.min_eq_left]
      exact Nat.le_mul_of_pos_left _ (Nat.succ_pos rounds)
    have others : ((data.drop (k * s.uPixelWidth)).take ((rounds + 1) * s.uPixelWidth)).drop
        s.uPixelWidth = (data.drop ((k + 1) * s.uPixelWidth)).take (rounds * s.uPixelWidth) := by
      rw [List.drop_take, List.drop_drop, Nat.add_mul k, Nat.add_mul rounds, Nat.one_mul,
        Nat.add_sub_cancel]
    rw [copyPixels, pixel, others, copyPixel_painted positive enough]
    exact ih present

/-- A piece of the data of whole pixels. -/
theorem COPY_OSD_DATA_painted (positive : 0 < r.nWidth) (rounds : Nat)
    (present : (k + rounds) * s.uPixelWidth ≤ data.length) :
    COPY_OSD_DATA s r (r.nLeft + r.nWidth)
        ((data.drop (k * s.uPixelWidth)).take (rounds * s.uPixelWidth))
        (cursorAt s r data memory k) =
      cursorAt s r data memory (k + rounds : Nat) := by
  have pixels : 0 < s.uPixelWidth := Int.natCast_pos.mp pixelWidth_positive
  have size : ((data.drop (k * s.uPixelWidth)).take (rounds * s.uPixelWidth)).length =
      rounds * s.uPixelWidth := by
    rw [List.length_take, List.length_drop, Nat.min_eq_left]
    rw [Nat.add_mul] at present
    omega
  have number : (rounds * s.uPixelWidth + s.uPixelWidth - 1) / s.uPixelWidth = rounds := by
    rw [Nat.add_sub_assoc pixels, Nat.mul_comm, Nat.mul_add_div pixels,
      Nat.div_eq_of_lt (Nat.sub_lt pixels Nat.one_pos), Nat.add_zero]
  unfold COPY_OSD_DATA
  rw [size, number]
  exact copyPixels_painted positive rounds present

end Pixels

end Rovio.VideoPhone
