import Rovio.VideoPhone.OsdWrite

/-! The command that draws on the OSD: what comes after the first block of the FIFO is written
without a look at the height of the screen if the rectangle is as wide as it. -/
namespace Rovio.VideoPhone

open Hic (word wordAt)

/-! ### The message -/

/-- The four numbers of the command. -/
structure OsdPlace where
  nLeft : Int16
  nTop : Int16
  nWidth : UInt16
  nHeight : UInt16

def OsdPlace.rect (p : OsdPlace) : OsdRect where
  nLeft := p.nLeft.toInt
  nTop := p.nTop.toInt
  nWidth := p.nWidth.toNat
  nHeight := p.nHeight.toNat

def ushortBytes (n : UInt16) : List UInt8 := [n.toUInt8, (n >>> 8).toUInt8]

/-- A parameter of two bytes. -/
def ushortParam (n : UInt16) : List UInt8 := word 2 ++ ushortBytes n

/-- The parameters, with some of the bytes of the last one. -/
def osdMessage (p : OsdPlace) (uParamLen : Nat) (piece : List UInt8) : List UInt8 :=
  word 5 ++ (ushortParam p.nLeft.toUInt16 ++ (ushortParam p.nTop.toUInt16 ++
    (ushortParam p.nWidth ++ (ushortParam p.nHeight ++ (word uParamLen ++ piece)))))

/-- The bytes of the command. -/
def osdStream (p : OsdPlace) (data : List UInt8) : List UInt8 := osdMessage p data.length data

theorem ushortAt_bytes (n : UInt16) (rest : List UInt8) :
    ushortAt (ushortBytes n ++ rest) = n := by
  have low : n.toUInt8.toNat < 2 ^ 8 := n.toUInt8.toNat_lt
  have high : (n >>> 8).toUInt8.toNat = n.toNat / 256 := by
    have bound := n.toNat_lt
    have shifted : (n >>> 8).toNat = n.toNat / 256 := Nat.shiftRight_eq_div_pow n.toNat 8
    rw [UInt16.toNat_toUInt8, shifted]
    omega
  apply UInt16.toNat_inj.mp
  change (UInt16.ofNat ((n >>> 8).toUInt8.toNat <<< 8 ||| n.toUInt8.toNat)).toNat = _
  rw [← Nat.shiftLeft_add_eq_or_of_lt low, high, UInt16.toNat_ofNat', UInt16.toNat_toUInt8,
    Nat.shiftLeft_eq]
  have bound := n.toNat_lt
  omega

theorem readParams_step {pcBuffer rest : List UInt8} {pc n : Nat} (count : Nat)
    (here : pcBuffer.drop pc = word n ++ rest) (fits : n < 2 ^ 32) :
    Hic.readParams pcBuffer (count + 1) pc =
      ⟨n, pc + 4, min n rest.length⟩ ::
        Hic.readParams pcBuffer count (pc + 4 + min n rest.length) := by
  have size : pcBuffer.length - pc = 4 + rest.length := by
    rw [← List.length_drop, here, List.length_append]
    rfl
  have left : pcBuffer.length - (pc + 4) = rest.length := by omega
  have value : wordAt pcBuffer pc = n := by
    rw [Hic.wordAt_drop, here, Hic.wordAt_word fits]
  rw [Hic.readParams, if_neg (by omega), value, left]

theorem readParams_ushort {pcBuffer rest : List UInt8} {pc : Nat} {n : UInt16} (count : Nat)
    (here : pcBuffer.drop pc = ushortParam n ++ rest) :
    Hic.readParams pcBuffer (count + 1) pc =
      ⟨2, pc + 4, 2⟩ :: Hic.readParams pcBuffer count (pc + 6) := by
  have split : pcBuffer.drop pc = word 2 ++ (ushortBytes n ++ rest) := by
    rw [here, ushortParam, List.append_assoc]
  have both : min 2 (ushortBytes n ++ rest).length = 2 := by
    apply Nat.min_eq_left
    rw [List.length_append]
    exact Nat.le_add_right 2 rest.length
  rw [readParams_step count split (by decide), both]

section Message
variable {p : OsdPlace} {n : Nat} {piece : List UInt8}

theorem readCmd45_osdMessage (fits : n < 2 ^ 32) :
    Hic.readCmd45 (osdMessage p n piece) 5 =
      [⟨2, 8, 2⟩, ⟨2, 14, 2⟩, ⟨2, 20, 2⟩, ⟨2, 26, 2⟩, ⟨n, 32, min n piece.length⟩] := by
  have enough : ¬ 4 > (osdMessage p n piece).length := by
    simp [osdMessage, word]
  have number : wordAt (osdMessage p n piece) 0 = 5 := Hic.wordAt_word (by decide) _
  have last : (osdMessage p n piece).drop 28 = word n ++ piece := rfl
  rw [Hic.readCmd45, if_neg enough, number, if_neg (by decide),
    readParams_ushort (n := p.nLeft.toUInt16) 4 rfl,
    readParams_ushort (n := p.nTop.toUInt16) 3 rfl, readParams_ushort (n := p.nWidth) 2 rfl,
    readParams_ushort (n := p.nHeight) 1 rfl, readParams_step 0 last fits]
  rfl

theorem osdRect_osdMessage :
    osdRect (osdMessage p n piece) ⟨2, 8, 2⟩ ⟨2, 14, 2⟩ ⟨2, 20, 2⟩ ⟨2, 26, 2⟩ = p.rect := by
  have left : ushortAt ((osdMessage p n piece).drop 8) = p.nLeft.toUInt16 := ushortAt_bytes _ _
  have top : ushortAt ((osdMessage p n piece).drop 14) = p.nTop.toUInt16 := ushortAt_bytes _ _
  have width : ushortAt ((osdMessage p n piece).drop 20) = p.nWidth := ushortAt_bytes _ _
  have height : ushortAt ((osdMessage p n piece).drop 26) = p.nHeight := ushortAt_bytes _ _
  unfold osdRect OsdPlace.rect
  rw [left, top, width, height]
  rfl

theorem content_osdMessage :
    (⟨n, 32, min n piece.length⟩ : Hic.Slice).content (osdMessage p n piece) = piece.take n := by
  have data : (osdMessage p n piece).drop 32 = piece := rfl
  unfold Hic.Slice.content
  rw [data]
  simp only [List.take_eq_take_iff]
  omega

theorem length_osdMessage : (osdMessage p n piece).length = 32 + piece.length := by
  simp [osdMessage, ushortParam, ushortBytes, word]
  omega

theorem take_osdMessage (length : Nat) :
    (osdMessage p n piece).take (32 + length) = osdMessage p n (piece.take length) := by
  change (osdMessage p n [] ++ piece).take ((osdMessage p n []).length + length) = _
  rw [List.take_length_add_append]
  rfl

theorem drop_osdMessage (length : Nat) :
    (osdMessage p n piece).drop (32 + length) = piece.drop length := by
  change (osdMessage p n [] ++ piece).drop ((osdMessage p n []).length + length) = _
  rw [List.drop_length_add_append]

end Message

section Command
variable {s : OsdScreen} {p : OsdPlace} {data : List UInt8} {fresh : Memory}

/-- The copy after the first block. -/
def firstBlock (s : OsdScreen) (p : OsdPlace) (data : List UInt8) (fresh : Memory) : OsdCursor :=
  COPY_OSD_DATA s p.rect (p.rect.nLeft + p.rect.nWidth) (data.take 96)
    (startCursor s p.rect fresh)

/-- The data goes straight to the buffer. -/
structure Direct (s : OsdScreen) (r : OsdRect) (uDataLen : Nat) : Prop where
  left : r.nLeft = 0
  width : r.nWidth = s.width
  more : 96 < uDataLen

theorem cmd18_09_WriteOSD_osdStream (configured : s.bConfigured = true) (free : s.bFree = true)
    (fits : data.length < 2 ^ 32) :
    let first := firstBlock s p data fresh
    (Direct s p.rect data.length → cmd18_09_WriteOSD s fresh (osdStream p data) =
        some (poke first.memory first.pucOSDBuffer (data.drop 96))) ∧
      (¬ Direct s p.rect data.length → cmd18_09_WriteOSD s fresh (osdStream p data) =
        some (copyBlocks s p.rect (p.rect.nLeft + p.rect.nWidth) (data.drop 96) first).memory) := by
  have size : (osdStream p data).length = 32 + data.length := length_osdMessage
  have block : (if HIC_FIFO_LEN < 32 + data.length then HIC_FIFO_LEN else 32 + data.length) =
      32 + min 96 data.length := by
    unfold HIC_FIFO_LEN
    split <;> omega
  have taken : (osdStream p data).take (32 + min 96 data.length) =
      osdMessage p data.length (data.take 96) := by
    unfold osdStream
    rw [take_osdMessage, List.take_eq_take_iff.mpr]
    omega
  have dropped : (osdStream p data).drop (32 + min 96 data.length) = data.drop 96 := by
    unfold osdStream
    rw [drop_osdMessage]
    by_cases short : data.length ≤ 96
    · rw [Nat.min_eq_right short, List.drop_length, List.drop_of_length_le short]
    · rw [Nat.min_eq_left (Nat.le_of_not_le short)]
  have content : (data.take 96).take data.length = data.take 96 := by
    apply List.take_of_length_le
    rw [List.length_take]
    omega
  intro first
  have run : cmd18_09_WriteOSD s fresh (osdStream p data) =
      if p.rect.nLeft = 0 ∧ p.rect.nWidth = s.width ∧
          32 + min 96 data.length < 32 + data.length then
        some (poke first.memory first.pucOSDBuffer (data.drop 96))
      else some (copyBlocks s p.rect (p.rect.nLeft + p.rect.nWidth) (data.drop 96)
        first).memory := by
    unfold cmd18_09_WriteOSD
    simp only [configured, free, size, block, taken, dropped, readCmd45_osdMessage fits,
      content_osdMessage, osdRect_osdMessage, content, Bool.true_eq_false, if_false]
    rfl
  rw [run]
  constructor
  · intro direct
    rw [if_pos]
    have more := direct.more
    exact ⟨direct.left, direct.width, by omega⟩
  · intro rows
    rw [if_neg]
    rintro ⟨left, width, more⟩
    exact rows ⟨left, width, by omega⟩

variable {pixels : Nat}

theorem firstBlock_painted (positive : 0 < p.rect.nWidth)
    (size : data.length = pixels * s.uPixelWidth) :
    firstBlock s p data fresh = cursorAt s p.rect data (copyOld s fresh)
        (min (96 / s.uPixelWidth) pixels : Nat) ∧
      data.drop 96 = data.drop (min (96 / s.uPixelWidth) pixels * s.uPixelWidth) := by
  have block := block_pixels (k := 0) pixels_of_block.2 size (Nat.zero_le pixels)
  rw [Nat.zero_mul, List.drop_zero, Nat.sub_zero] at block
  have drawn := @COPY_OSD_DATA_painted s p.rect data (copyOld s fresh) 0 positive
    (min (96 / s.uPixelWidth) pixels)
    (by rw [size]; exact Nat.mul_le_mul_right _ (by omega))
  rw [Nat.zero_mul, List.drop_zero, Nat.zero_add] at drawn
  constructor
  · rw [firstBlock, startCursor_cursorAt positive fresh, block.1]
    exact drawn
  · rw [block.2, Nat.zero_add]

/-- Row by row the command leaves the clipped picture. -/
theorem cmd18_09_WriteOSD_rows (configured : s.bConfigured = true) (free : s.bFree = true)
    (fits : data.length < 2 ^ 32) (tall : 0 < p.rect.nHeight) (positive : 0 < p.rect.nWidth)
    (size : data.length = p.rect.nWidth * p.rect.nHeight * s.uPixelWidth)
    (rows : ¬ Direct s p.rect data.length) :
    cmd18_09_WriteOSD s fresh (osdStream p data) =
      some (clipped s p.rect data (copyOld s fresh)) := by
  obtain ⟨pixels, count, length⟩ := pixels_count tall positive size
  obtain ⟨first, rest⟩ := @firstBlock_painted s p data fresh pixels positive length
  rw [(cmd18_09_WriteOSD_osdStream configured free fits).2 rows, first, rest,
    copyBlocks_painted positive length (Nat.min_le_right _ _), cursorAt, count,
    painted_all positive]

end Command

/-! ### The data that goes straight to the buffer -/

section Straight
variable {s : OsdScreen} {r : OsdRect} {data : List UInt8} {memory : Memory}

/-- A rectangle of whole rows: the pixels stand one after another. -/
theorem pixelAt_rows (left : r.nLeft = 0) (width : r.nWidth = s.width) (a : Int) :
    r.pixelAt s a = a / s.uPixelWidth - r.nTop * s.width := by
  have whole := Int.mul_ediv_add_emod (a / s.uPixelWidth) s.width
  unfold OsdRect.pixelAt OsdRect.index
  rw [left, width]
  linarith

theorem byte_rows (left : r.nLeft = 0) (width : r.nWidth = s.width) (a : Int) :
    r.pixelAt s a * s.uPixelWidth + a % s.uPixelWidth =
      a - r.nTop * s.width * s.uPixelWidth := by
  have whole := Int.mul_ediv_add_emod a s.uPixelWidth
  rw [pixelAt_rows left width]
  linarith

theorem cursor_rows (left : r.nLeft = 0) (width : r.nWidth = s.width) (k : Int) :
    (cursorAt s r data memory k).pucOSDBuffer = (k + r.nTop * s.width) * s.uPixelWidth := by
  have whole := Int.mul_ediv_add_emod k s.width
  unfold cursorAt
  rw [left, width]
  calc (0 + k % s.width + (r.nTop + k / s.width) * s.width) * s.uPixelWidth
      = (s.width * (k / s.width) + k % s.width + r.nTop * s.width) * s.uPixelWidth := by ring
    _ = _ := by rw [whole]

/-- The addresses that the pixels from `k` to `pixels` are written to. -/
theorem straight_range (left : r.nLeft = 0) (width : r.nWidth = s.width) {k pixels : Int}
    {a : Int} :
    (k + r.nTop * s.width) * s.uPixelWidth ≤ a ∧
        a < (k + r.nTop * s.width) * s.uPixelWidth + (pixels - k) * s.uPixelWidth ↔
      k ≤ r.pixelAt s a ∧ r.pixelAt s a < pixels := by
  have wide := @pixelWidth_positive s
  have last : (k + r.nTop * s.width) * s.uPixelWidth + (pixels - k) * s.uPixelWidth =
      (pixels + r.nTop * s.width) * s.uPixelWidth := by ring
  rw [last, ← Int.le_ediv_iff_mul_le wide, ← Int.ediv_lt_iff_lt_mul wide, pixelAt_rows left width]
  omega

variable {k pixels : Nat}

theorem poke_straight (left : r.nLeft = 0) (width : r.nWidth = s.width) (within : k ≤ pixels)
    (size : data.length = pixels * s.uPixelWidth) (a : Int) :
    poke (painted s r data memory k) (cursorAt s r data memory k).pucOSDBuffer
        (data.drop (k * s.uPixelWidth)) a =
      if k ≤ r.pixelAt s a ∧ r.pixelAt s a < pixels then
        data.getD (r.pixelAt s a * s.uPixelWidth + a % s.uPixelWidth).toNat 0
      else painted s r data memory k a := by
  have length : ((data.drop (k * s.uPixelWidth)).length : Int) =
      ((pixels : Int) - k) * s.uPixelWidth := by
    rw [List.length_drop, size, ← Nat.sub_mul, Nat.cast_mul, Nat.cast_sub within]
  have range := @straight_range s r left width k pixels a
  unfold poke
  rw [length, cursor_rows left width]
  by_cases here : k ≤ r.pixelAt s a ∧ r.pixelAt s a < pixels
  · obtain ⟨low, high⟩ := range.mpr here
    rw [if_pos ⟨low, high⟩, if_pos here, byte_rows left width]
    obtain ⟨i, offset⟩ := Int.eq_ofNat_of_zero_le (Int.sub_nonneg.mpr low)
    have place : a - r.nTop * s.width * s.uPixelWidth = (k * s.uPixelWidth + i : Nat) := by
      rw [Nat.cast_add, Nat.cast_mul, ← offset]
      ring
    rw [offset, place, Int.toNat_natCast, Int.toNat_natCast, List.getD_eq_getElem?_getD,
      List.getElem?_drop, List.getD_eq_getElem?_getD]
  · rw [if_neg (fun inside => here (range.mp inside)), if_neg here]

theorem pixels_of_inside (a : Int) :
    0 ≤ a ∧ a < s.uPixelWidth * (s.width * s.height) ↔
      0 ≤ a / s.uPixelWidth ∧ a / s.uPixelWidth < s.width * s.height := by
  have wide := @pixelWidth_positive s
  rw [Int.ediv_nonneg_iff_of_pos wide, Int.ediv_lt_iff_lt_mul wide,
    Int.mul_comm (s.width * s.height)]

/-- All that goes straight to the buffer is on the screen. -/
structure OnScreen (s : OsdScreen) (r : OsdRect) (k : Int) : Prop where
  above : 0 ≤ k + r.nTop * s.width
  below : r.nTop + r.nHeight ≤ s.height

theorem poke_clipped (positive : 0 < r.nWidth) (left : r.nLeft = 0) (width : r.nWidth = s.width)
    (within : k ≤ pixels) (count : (pixels : Int) = r.nWidth * r.nHeight)
    (size : data.length = pixels * s.uPixelWidth) (onScreen : OnScreen s r k) :
    poke (painted s r data memory k) (cursorAt s r data memory k).pucOSDBuffer
        (data.drop (k * s.uPixelWidth)) =
      clipped s r data memory := by
  funext a
  rw [poke_straight left width within size]
  unfold painted clipped
  have low := Int.emod_nonneg (a / s.uPixelWidth) (by omega : s.width ≠ 0)
  have high := Int.emod_lt_of_pos (a / s.uPixelWidth) (by omega : 0 < s.width)
  by_cases here : k ≤ r.pixelAt s a ∧ r.pixelAt s a < pixels
  · have inside : 0 ≤ a ∧ a < s.uPixelWidth * (s.width * s.height) := by
      have last : r.nTop * s.width + pixels ≤ s.width * s.height := by
        rw [count, width, Int.mul_comm, ← Int.mul_add]
        exact Int.mul_le_mul_of_nonneg_left onScreen.below (by omega)
      have first := onScreen.above
      rw [pixelAt_rows left width] at here
      apply (pixels_of_inside a).mpr
      omega
    have column : r.nLeft ≤ a / s.uPixelWidth % s.width ∧
        a / s.uPixelWidth % s.width < r.nLeft + r.nWidth := by omega
    have row : r.nTop ≤ a / s.uPixelWidth / s.width :=
      (index_bound positive column).2.mp (Int.le_trans (Int.natCast_nonneg k) here.1)
    have visible : Visible s r a :=
      (visible_iff positive).mpr ⟨⟨inside, column, row⟩, by rw [← count]; exact here.2⟩
    rw [if_pos here, if_pos visible]
  · rw [if_neg here]
    by_cases visible : Visible s r a
    · obtain ⟨shown, before⟩ := (visible_iff positive).mp visible
      rw [if_pos visible, if_pos ⟨shown, by omega⟩]
    · rw [if_neg visible, if_neg]
      rintro ⟨shown, before⟩
      exact visible ((visible_iff positive).mpr ⟨shown, by omega⟩)

/-- A byte that goes to an address off the screen. -/
theorem poke_outside (left : r.nLeft = 0) (width : r.nWidth = s.width) (positive : 0 < s.width)
    (more : k < pixels) (count : (pixels : Int) = r.nWidth * r.nHeight)
    (size : data.length = pixels * s.uPixelWidth) (outside : ¬ OnScreen s r k) :
    ∃ a i, ¬ (0 ≤ a ∧ a < s.uPixelWidth * (s.width * s.height)) ∧ i < data.length ∧
      poke (painted s r data memory k) (cursorAt s r data memory k).pucOSDBuffer
        (data.drop (k * s.uPixelWidth)) a = data.getD i 0 := by
  have wide := @pixelWidth_positive s
  -- the first or the last of the pixels
  have bad : ∃ j : Nat, k ≤ j ∧ j < pixels ∧ ¬ (0 ≤ j + r.nTop * s.width ∧
      j + r.nTop * s.width < s.width * s.height) := by
    by_cases above : 0 ≤ k + r.nTop * s.width
    · refine ⟨pixels - 1, by omega, by omega, ?_⟩
      rintro ⟨-, below⟩
      apply outside
      refine ⟨above, ?_⟩
      have last : s.width * (r.nTop + r.nHeight) ≤ s.width * s.height := by
        rw [Int.mul_add, Int.mul_comm s.width, ← width, ← count, width]
        omega
      exact Int.le_of_mul_le_mul_left last positive
    · exact ⟨k, Nat.le_refl k, more, fun inside => above inside.1⟩
  obtain ⟨j, low, high, off⟩ := bad
  have pixel : (j + r.nTop * s.width) * s.uPixelWidth / s.uPixelWidth =
      j + r.nTop * s.width := Int.mul_ediv_cancel _ (Int.ne_of_gt wide)
  have here : r.pixelAt s ((j + r.nTop * s.width) * s.uPixelWidth) = j := by
    rw [pixelAt_rows left width, pixel]
    omega
  refine ⟨(j + r.nTop * s.width) * s.uPixelWidth, j * s.uPixelWidth, ?_, ?_, ?_⟩
  · intro inside
    apply off
    rw [← pixel]
    exact (pixels_of_inside _).mp inside
  · rw [size]
    exact Nat.mul_lt_mul_of_pos_right high (Int.natCast_pos.mp wide)
  · rw [poke_straight left width (Nat.le_of_lt more) size, here, if_pos (by omega),
      Int.mul_emod_left, Int.add_zero]
    rfl

end Straight

/-! ### The command -/

section Run
variable {s : OsdScreen} {p : OsdPlace} {data : List UInt8} {fresh : Memory} {pixels : Nat}

/-- There are more pixels than the first block has. -/
theorem first_pixels (more : 96 < pixels * s.uPixelWidth) : 96 / s.uPixelWidth < pixels := by
  rw [← (@pixels_of_block s).2] at more
  exact Nat.lt_of_mul_lt_mul_right more

theorem cmd18_09_WriteOSD_straight (configured : s.bConfigured = true) (free : s.bFree = true)
    (fits : data.length < 2 ^ 32) (positive : 0 < p.rect.nWidth)
    (size : data.length = pixels * s.uPixelWidth) (direct : Direct s p.rect data.length) :
    cmd18_09_WriteOSD s fresh (osdStream p data) =
      some (poke (painted s p.rect data (copyOld s fresh) (96 / s.uPixelWidth : Nat))
        (cursorAt s p.rect data (copyOld s fresh) (96 / s.uPixelWidth : Nat)).pucOSDBuffer
        (data.drop (96 / s.uPixelWidth * s.uPixelWidth))) := by
  obtain ⟨first, rest⟩ := @firstBlock_painted s p data fresh pixels positive size
  have more := direct.more
  rw [size] at more
  rw [(cmd18_09_WriteOSD_osdStream configured free fits).1 direct, first, rest,
    Nat.min_eq_left (Nat.le_of_lt (first_pixels more))]
  rfl

theorem cmd18_09_WriteOSD_clipped (configured : s.bConfigured = true) (free : s.bFree = true)
    (fits : data.length < 2 ^ 32) (positive : 0 < p.rect.nWidth) (tall : 0 < p.rect.nHeight)
    (size : data.length = p.rect.nWidth * p.rect.nHeight * s.uPixelWidth)
    (holds : Direct s p.rect data.length → OnScreen s p.rect (96 / s.uPixelWidth : Nat)) :
    cmd18_09_WriteOSD s fresh (osdStream p data) =
      some (clipped s p.rect data (copyOld s fresh)) := by
  by_cases direct : Direct s p.rect data.length
  · obtain ⟨pixels, count, length⟩ := pixels_count tall positive size
    have more := direct.more
    rw [length] at more
    rw [cmd18_09_WriteOSD_straight configured free fits positive length direct,
      poke_clipped positive direct.left direct.width (Nat.le_of_lt (first_pixels more)) count
        length (holds direct)]
  · exact cmd18_09_WriteOSD_rows configured free fits tall positive size direct

end Run

/-- Whatever the buffers and the data have, the command leaves the clipped picture. -/
def Clips (s : OsdScreen) (p : OsdPlace) : Prop :=
  ∀ (aucData fresh : Memory) (data : List UInt8),
    data.length = p.rect.nWidth * p.rect.nHeight * s.uPixelWidth →
    let now := { s with aucData }
    cmd18_09_WriteOSD now fresh (osdStream p data) =
      some (clipped now p.rect data (copyOld now fresh))

theorem onScreen_of_clips {s : OsdScreen} {p : OsdPlace} (configured : s.bConfigured = true)
    (free : s.bFree = true) (positive : 0 < p.rect.nWidth) (tall : 0 < p.rect.nHeight)
    (few : 32 + p.rect.nWidth * p.rect.nHeight * s.uPixelWidth < 16777216)
    (clips : Clips s p) (left : p.rect.nLeft = 0) (width : p.rect.nWidth = s.width)
    (more : 96 < p.rect.nWidth * p.rect.nHeight * s.uPixelWidth) :
    OnScreen s p.rect (96 / s.uPixelWidth : Nat) := by
  obtain ⟨pixels, count⟩ :=
    Int.eq_ofNat_of_zero_le (Int.le_of_lt (Int.mul_pos positive tall))
  have large : 96 < pixels * s.uPixelWidth := by
    rw [count] at more
    exact_mod_cast more
  by_contra outside
  -- ones are drawn over zeros
  let data : List UInt8 := List.replicate (pixels * s.uPixelWidth) 1
  let zeros : Memory := fun _ => 0
  let now : OsdScreen := { s with aucData := zeros }
  have length : data.length = pixels * s.uPixelWidth := List.length_replicate
  have size : (data.length : Int) = p.rect.nWidth * p.rect.nHeight * s.uPixelWidth := by
    rw [length, count, Nat.cast_mul]
  have fits : data.length < 2 ^ 32 := by omega
  have wide : 0 < s.width := by omega
  have picture := clips zeros zeros data size
  have run := @cmd18_09_WriteOSD_straight now p data zeros pixels configured free fits positive
    length ⟨left, width, by rw [length]; exact large⟩
  obtain ⟨a, i, off, inside, drawn⟩ := @poke_outside now p.rect data (copyOld now zeros)
    (96 / s.uPixelWidth) pixels left width wide (first_pixels large) count.symm length
    (fun onScreen => outside ⟨onScreen.above, onScreen.below⟩)
  have same := (congrFun (Option.some.inj (run.symm.trans picture)) a).symm.trans drawn
  have zero : clipped now p.rect data (copyOld now zeros) a = 0 := by
    unfold clipped
    rw [if_neg (fun visible => off visible.inside)]
    unfold copyOld
    split <;> rfl
  have one : data.getD i 0 = 1 := by
    rw [List.getD_eq_getElem?_getD, List.getElem?_replicate, if_pos (by omega)]
    rfl
  rw [zero, one] at same
  cases same

/-- An application's write leaves the clipped picture, and so does the command unless the
rectangle is as wide as the screen and what follows the first block is not all on it. -/
theorem osd_write_clipped_iff (s : OsdScreen) (configured : s.bConfigured = true)
    (free : s.bFree = true) :
    (∀ (r : OsdRect) (data : List UInt8) (fresh : Memory), 0 < r.nWidth → 0 < r.nHeight →
      r.Edges → data.length = r.nWidth * r.nHeight * s.uPixelWidth →
        wb702WriteOSD s fresh r data = some (clipped s r data (copyOld s fresh))) ∧
      ∀ p : OsdPlace, 0 < p.rect.nWidth → 0 < p.rect.nHeight →
        32 + p.rect.nWidth * p.rect.nHeight * s.uPixelWidth < 16777216 →
        (Clips s p ↔ (p.rect.nLeft = 0 → p.rect.nWidth = s.width →
          96 < p.rect.nWidth * p.rect.nHeight * s.uPixelWidth →
            OnScreen s p.rect (96 / s.uPixelWidth : Nat))) := by
  constructor
  · intro r data fresh positive tall edges size
    exact wb702WriteOSD_clipped configured free tall positive edges size fresh
  · intro p positive tall few
    constructor
    · intro clips left width more
      exact onScreen_of_clips configured free positive tall few clips left width more
    · intro holds aucData fresh data size
      have fits : data.length < 2 ^ 32 := by omega
      intro now
      apply @cmd18_09_WriteOSD_clipped now p data fresh configured free fits positive tall size
      intro direct
      have more := direct.more
      have onScreen := holds direct.left direct.width (by omega)
      exact ⟨onScreen.above, onScreen.below⟩

/-- A screen of 16 by 2 pixels of four bytes. -/
def smallScreen : OsdScreen := ⟨true, true, 16, 2, .rgb888, fun _ => 0⟩

theorem osd_write_clipped_small :
    Clips smallScreen ⟨0, 0, 16, 2⟩ :=
  ((osd_write_clipped_iff smallScreen rfl rfl).2 ⟨0, 0, 16, 2⟩ (by decide) (by decide)
    (by decide)).mpr fun _ _ _ => ⟨by decide, by decide⟩

/-- Three rows on a screen of two: the last is written past the end of the buffer. -/
theorem third_row_outside :
    ∃ data : List UInt8, data.length = 16 * 3 * 4 ∧
      (cmd18_09_WriteOSD smallScreen (fun _ => 0) (osdStream ⟨0, 0, 16, 3⟩ data)).map
        (fun memory => memory 128) = some 1 ∧
      clipped smallScreen (⟨0, 0, 16, 3⟩ : OsdPlace).rect data
        (copyOld smallScreen fun _ => 0) 128 = 0 := by
  refine ⟨List.replicate 192 1, List.length_replicate, ?_, by decide +kernel⟩
  decide +kernel

end Rovio.VideoPhone
