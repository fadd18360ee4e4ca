import Rovio.VideoPhone.OsdClip

/-! What a write to the OSD leaves on the screen, against the clipped picture. -/
namespace Rovio.VideoPhone

/-- An address on the screen and in the rectangle. -/
structure Visible (s : OsdScreen) (r : OsdRect) (a : Int) : Prop where
  inside : 0 ≤ a ∧ a < s.uPixelWidth * (s.width * s.height)
  column : r.nLeft ≤ a / s.uPixelWidth % s.width ∧
    a / s.uPixelWidth % s.width < r.nLeft + r.nWidth
  row : r.nTop ≤ a / s.uPixelWidth / s.width ∧
    a / s.uPixelWidth / s.width < r.nTop + r.nHeight

instance (s : OsdScreen) (r : OsdRect) (a : Int) : Decidable (Visible s r a) :=
  decidable_of_iff (_ ∧ _ ∧ _) ⟨fun all => ⟨all.1, all.2.1, all.2.2⟩,
    fun visible => ⟨visible.inside, visible.column, visible.row⟩⟩

/-- The picture that a write is meant to leave: the rectangle, clipped to the screen, has the
data, and all else is as it was. -/
def clipped (s : OsdScreen) (r : OsdRect) (data : List UInt8) (memory : Memory) : Memory :=
  fun a =>
    if Visible s r a then data.getD (r.pixelAt s a * s.uPixelWidth + a % s.uPixelWidth).toNat 0
    else memory a

section Writing
variable {s : OsdScreen} {r : OsdRect} {data : List UInt8} {memory : Memory}

theorem index_bound (positive : 0 < r.nWidth) {x y : Int}
    (column : r.nLeft ≤ x ∧ x < r.nLeft + r.nWidth) :
    (r.index x y < r.nWidth * r.nHeight ↔ y < r.nTop + r.nHeight) ∧
      (0 ≤ r.index x y ↔ r.nTop ≤ y) := by
  obtain ⟨-, row⟩ := index_unique column (rfl : r.index x y = r.index x y)
  constructor
  · rw [Int.mul_comm, ← Int.ediv_lt_iff_lt_mul positive]
    omega
  · rw [← Int.ediv_nonneg_iff_of_pos positive]
    omega

theorem visible_iff (positive : 0 < r.nWidth) {a : Int} :
    Visible s r a ↔ Shown s r a ∧ r.pixelAt s a < r.nWidth * r.nHeight := by
  constructor
  · intro visible
    exact ⟨⟨visible.inside, visible.column, visible.row.1⟩,
      (index_bound positive visible.column).1.mpr visible.row.2⟩
  · rintro ⟨shown, bound⟩
    exact ⟨shown.inside, shown.column, shown.row, (index_bound positive shown.column).1.mp bound⟩

/-- All the pixels of the rectangle. -/
theorem painted_all (positive : 0 < r.nWidth) :
    painted s r data memory (r.nWidth * r.nHeight) = clipped s r data memory := by
  funext a
  unfold painted clipped
  by_cases visible : Visible s r a
  · rw [if_pos visible, if_pos ((visible_iff positive).mp visible)]
  · rw [if_neg visible, if_neg (fun shown => visible ((visible_iff positive).mpr shown))]

/-- And none of them. -/
theorem painted_none (positive : 0 < r.nWidth) : painted s r data memory 0 = memory := by
  funext a
  unfold painted
  rw [if_neg]
  rintro ⟨shown, before⟩
  have first := (index_bound positive shown.column).2.mpr shown.row
  exact absurd before (Int.not_lt.mpr first)

theorem startCursor_cursorAt (positive : 0 < r.nWidth) (fresh : Memory) :
    startCursor s r fresh = cursorAt s r data (copyOld s fresh) (0 : Nat) := by
  unfold startCursor cursorAt
  rw [Int.natCast_zero, Int.zero_emod, Int.zero_ediv, painted_none positive, Int.add_zero,
    Int.add_zero]

/-- A FIFO block ends at the end of a pixel, and so does what the first has of the data. -/
theorem pixels_of_block :
    128 / s.uPixelWidth * s.uPixelWidth = 128 ∧ 96 / s.uPixelWidth * s.uPixelWidth = 96 := by
  unfold OsdScreen.uPixelWidth vlcmGetOSDColorWidth
  split <;> decide

/-- A block of the stream is whole pixels of the data, or all that is left of it. -/
theorem block_pixels {length pixels k : Nat}
    (whole : length / s.uPixelWidth * s.uPixelWidth = length)
    (size : data.length = pixels * s.uPixelWidth) (within : k ≤ pixels) :
    let rounds := min (length / s.uPixelWidth) (pixels - k)
    (data.drop (k * s.uPixelWidth)).take length =
        (data.drop (k * s.uPixelWidth)).take (rounds * s.uPixelWidth) ∧
      (data.drop (k * s.uPixelWidth)).drop length =
        data.drop ((k + rounds) * s.uPixelWidth) := by
  have rest : (data.drop (k * s.uPixelWidth)).length = (pixels - k) * s.uPixelWidth := by
    rw [List.length_drop, size, Nat.sub_mul]
  intro rounds
  by_cases full : length / s.uPixelWidth ≤ pixels - k
  · have block : rounds = length / s.uPixelWidth := Nat.min_eq_left full
    rw [block, Nat.add_mul, whole, List.drop_drop]
    exact ⟨rfl, rfl⟩
  · have block : rounds = pixels - k := Nat.min_eq_right (Nat.le_of_not_le full)
    have short : (pixels - k) * s.uPixelWidth ≤ length := by
      rw [← whole]
      exact Nat.mul_le_mul_right _ (Nat.le_of_not_le full)
    rw [block, Nat.add_sub_of_le within]
    constructor
    · rw [List.take_of_length_le, List.take_of_length_le]
      · rw [rest]
      · rw [rest]
        exact short
    · rw [List.drop_of_length_le, List.drop_of_length_le]
      · rw [size]
      · rw [rest]
        exact short

theorem copyBlocks_painted (positive : 0 < r.nWidth) {pixels k : Nat}
    (size : data.length = pixels * s.uPixelWidth) (within : k ≤ pixels) :
    copyBlocks s r (r.nLeft + r.nWidth) (data.drop (k * s.uPixelWidth))
        (cursorAt s r data memory k) =
      cursorAt s r data memory pixels := by
  have wide : 0 < s.uPixelWidth := Int.natCast_pos.mp pixelWidth_positive
  generalize left : pixels - k = rest
  induction rest using Nat.strongRecOn generalizing k with
  | ind rest ih =>
    unfold copyBlocks
    rw [List.length_drop, size, ← Nat.sub_mul, left]
    by_cases more : 0 < rest
    · rw [if_pos (Nat.mul_pos more wide)]
      have block := @pixels_of_block s
      obtain ⟨taken, dropped⟩ := block_pixels block.1 size within
      have some : 0 < 128 / s.uPixelWidth := by
        apply Nat.pos_of_ne_zero
        intro none
        rw [none, Nat.zero_mul] at block
        cases block.1
      rw [show HIC_FIFO_LEN = 128 from rfl, taken, dropped, COPY_OSD_DATA_painted positive]
      · exact ih _ (by omega) (by omega) rfl
      · rw [size]
        exact Nat.mul_le_mul_right _ (by omega)
    · have all : k = pixels := by omega
      rw [if_neg, all]
      rw [Nat.eq_zero_of_not_pos more, Nat.zero_mul]
      exact Nat.lt_irrefl 0

end Writing

/-- The edges of the rectangle are INTs. -/
structure OsdRect.Edges (r : OsdRect) : Prop where
  left : -2147483648 ≤ r.nLeft
  right : r.nLeft + r.nWidth < 2147483648

theorem int32_of_int {n : Int} (low : -2147483648 ≤ n) (high : n < 2147483648) : int32 n = n := by
  unfold int32
  omega

/-- The data has the pixels of the rectangle. -/
theorem pixels_count {s : OsdScreen} {r : OsdRect} {data : List UInt8}
    (tall : 0 < r.nHeight) (positive : 0 < r.nWidth)
    (size : data.length = r.nWidth * r.nHeight * s.uPixelWidth) :
    ∃ pixels : Nat, (pixels : Int) = r.nWidth * r.nHeight ∧ data.length =
    pixels * s.uPixelWidth := by
  obtain ⟨pixels, count⟩ := Int.eq_ofNat_of_zero_le (Int.le_of_lt (Int.mul_pos positive tall))
  refine ⟨pixels, count.symm, ?_⟩
  rw [count] at size
  exact_mod_cast size

theorem wb702WriteOSD_clipped {s : OsdScreen} {r : OsdRect} {data : List UInt8}
    (configured : s.bConfigured = true) (free : s.bFree = true) (tall : 0 < r.nHeight)
    (positive : 0 < r.nWidth) (edges : r.Edges)
    (size : data.length = r.nWidth * r.nHeight * s.uPixelWidth) (fresh : Memory) :
    wb702WriteOSD s fresh r data = some (clipped s r data (copyOld s fresh)) := by
  obtain ⟨pixels, count, length⟩ := pixels_count tall positive size
  have drawn := @COPY_OSD_DATA_painted s r data (copyOld s fresh) 0 positive pixels
    (by rw [Nat.zero_add, length])
  rw [Nat.zero_mul, List.drop_zero, ← length, List.take_length, Nat.zero_add] at drawn
  unfold wb702WriteOSD
  rw [configured, free, if_neg (by decide), if_neg (by decide),
    int32_of_int (by have left := edges.left; omega) edges.right,
    startCursor_cursorAt positive fresh, drawn, cursorAt, count, painted_all positive]

end Rovio.VideoPhone
