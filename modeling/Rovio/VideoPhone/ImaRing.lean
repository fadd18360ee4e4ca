import Rovio.Kit.Cuts

/-! The captured audio, collected for the IMA ADPCM encoder. -/
namespace Rovio.VideoPhone

/-- 1017 samples; what `imaadpcmSamplePerBlock` says, or `vauInit` stops. -/
def OPT_AUDIO_IMA_SOURCE_SIZE : Nat := 1017 * 2

/-- The ring buffer, the blocks given to `imaadpcmBlockEnc`, and the number of buffers asked for. -/
structure ImaRing where
  uLength : Nat
  aucRingBuffer : List UInt8
  encoded : List (List UInt8)
  asked : Nat

/-- The ring buffer is full; without a buffer for the packet its contents are lost. -/
def ImaRing.encode (bufEncAudioNew : Nat → Bool) (s : ImaRing) : ImaRing :=
  { s with
    uLength := 0
    encoded :=
      if bufEncAudioNew s.asked then s.encoded ++ [s.aucRingBuffer.take OPT_AUDIO_IMA_SOURCE_SIZE]
      else s.encoded
    asked := s.asked + 1 }

/-- `memcpy` to the ring buffer. -/
def ImaRing.copy (s : ImaRing) (bytes : List UInt8) : ImaRing :=
  { s with
    uLength := s.uLength + bytes.length
    aucRingBuffer := s.aucRingBuffer.take s.uLength ++ bytes ++
      s.aucRingBuffer.drop (s.uLength + bytes.length) }

/-- `uLenThis` before the end of the block is looked at. -/
def ImaRing.room (s : ImaRing) : Nat := OPT_AUDIO_IMA_SOURCE_SIZE - s.uLength

/-- The check for a full ring buffer. -/
def ImaRing.checked (bufEncAudioNew : Nat → Bool) (s : ImaRing) : ImaRing :=
  if s.room = 0 then s.encode bufEncAudioNew else s

theorem checked_room (bufEncAudioNew : Nat → Bool) (s : ImaRing) :
    0 < (s.checked bufEncAudioNew).room := by
  unfold ImaRing.checked
  split
  · exact Nat.succ_pos 2033
  · omega

/-- `uLenThis` for a block of which `left` bytes are left. -/
def ImaRing.piece (s : ImaRing) (left : Nat) : Nat := if s.room > left then left else s.room

theorem piece_bounds {s : ImaRing} {left : Nat} (room : 0 < s.room) (some : 0 < left) :
    0 < s.piece left ∧ s.piece left ≤ left ∧ s.piece left ≤ s.room := by
  unfold ImaRing.piece
  split <;> omega

/-- `__vauRecord_IMA_ADPCM`; `aucPCM` is what is left of the block behind `uLen`. -/
def vauRecord_IMA_ADPCM (bufEncAudioNew : Nat → Bool) (s : ImaRing) (aucPCM : List UInt8) :
    ImaRing :=
  if 0 < aucPCM.length then
    let s := s.checked bufEncAudioNew
    let uLenThis := s.piece aucPCM.length
    vauRecord_IMA_ADPCM bufEncAudioNew (s.copy (aucPCM.take uLenThis)) (aucPCM.drop uLenThis)
  else s
termination_by aucPCM.length
decreasing_by
  rename_i before some
  have piece := (piece_bounds (checked_room bufEncAudioNew before) some).1
  rw [List.length_drop]
  exact Nat.sub_lt some piece

/-- The blocks that are captured, one after the other. -/
def vauRecordAll (bufEncAudioNew : Nat → Bool) (s : ImaRing) (blocks : List (List UInt8)) :
    ImaRing :=
  blocks.foldl (vauRecord_IMA_ADPCM bufEncAudioNew) s

/-- Nothing has been captured; the ring buffer has any contents. -/
def imaStart (aucRingBuffer : List UInt8) : ImaRing := ⟨0, aucRingBuffer, [], 0⟩

/-- The blocks given to the encoder and the bytes in the ring buffer are the captured stream. -/
structure Collected (s : ImaRing) (stream : List UInt8) : Prop where
  ring : s.aucRingBuffer.length = OPT_AUDIO_IMA_SOURCE_SIZE
  room : s.uLength ≤ OPT_AUDIO_IMA_SOURCE_SIZE
  size : ∀ b ∈ s.encoded, b.length = OPT_AUDIO_IMA_SOURCE_SIZE
  bytes : s.encoded.flatten ++ s.aucRingBuffer.take s.uLength = stream
  lazy : stream ≠ [] → 0 < s.uLength

section Collecting
variable {bufEncAudioNew : Nat → Bool} {s : ImaRing} {stream : List UInt8}

theorem checked_bytes (available : ∀ n, bufEncAudioNew n = true) (collected : Collected s stream) :
    let t := s.checked bufEncAudioNew
    t.aucRingBuffer.length = OPT_AUDIO_IMA_SOURCE_SIZE ∧ t.uLength ≤ OPT_AUDIO_IMA_SOURCE_SIZE ∧
      (∀ b ∈ t.encoded, b.length = OPT_AUDIO_IMA_SOURCE_SIZE) ∧
      t.encoded.flatten ++ t.aucRingBuffer.take t.uLength = stream := by
  have room := collected.room
  unfold ImaRing.checked
  split
  · rename_i full
    have all : s.uLength = OPT_AUDIO_IMA_SOURCE_SIZE := by
      unfold ImaRing.room at full
      omega
    have whole : s.aucRingBuffer.take OPT_AUDIO_IMA_SOURCE_SIZE = s.aucRingBuffer := by
      rw [← collected.ring, List.take_length]
    have bytes := collected.bytes
    rw [all, whole] at bytes
    unfold ImaRing.encode
    rw [available, if_pos rfl, whole]
    refine ⟨collected.ring, Nat.zero_le _, ?_, ?_⟩
    · intro b member
      rcases List.mem_append.mp member with old | new
      · exact collected.size b old
      · rw [List.mem_singleton.mp new]
        exact collected.ring
    · rw [List.flatten_append, List.flatten_singleton, List.take_zero, List.append_nil]
      exact bytes
  · exact ⟨collected.ring, room, collected.size, collected.bytes⟩

/-- A piece that has room in the ring buffer. -/
theorem copy_collected {piece : List UInt8} (some : 0 < piece.length)
    (ring : s.aucRingBuffer.length = OPT_AUDIO_IMA_SOURCE_SIZE)
    (room : s.uLength + piece.length ≤ OPT_AUDIO_IMA_SOURCE_SIZE)
    (size : ∀ b ∈ s.encoded, b.length = OPT_AUDIO_IMA_SOURCE_SIZE)
    (bytes : s.encoded.flatten ++ s.aucRingBuffer.take s.uLength = stream) :
    Collected (s.copy piece) (stream ++ piece) where
  ring := by
    unfold ImaRing.copy
    dsimp only
    rw [List.length_append, List.length_append, List.length_take, List.length_drop, ring]
    omega
  room := room
  size := size
  bytes := by
    have front : (s.aucRingBuffer.take s.uLength ++ piece).length = s.uLength + piece.length := by
      rw [List.length_append, List.length_take, ring]
      omega
    unfold ImaRing.copy
    dsimp only
    rw [← front, List.take_left, ← List.append_assoc, bytes]
  lazy _ := by
    unfold ImaRing.copy
    dsimp only
    omega

/-- A captured block. -/
theorem record_collected (available : ∀ n, bufEncAudioNew n = true) (aucPCM : List UInt8)
    (collected : Collected s stream) :
    Collected (vauRecord_IMA_ADPCM bufEncAudioNew s aucPCM) (stream ++ aucPCM) := by
  fun_induction vauRecord_IMA_ADPCM bufEncAudioNew s aucPCM generalizing stream with
  | case1 s aucPCM some t uLenThis =>
    rename_i ih
    obtain ⟨ring, room, size, bytes⟩ := checked_bytes available collected
    have piece := piece_bounds (checked_room bufEncAudioNew s) some
    have length : (aucPCM.take uLenThis).length = uLenThis := by
      rw [List.length_take, Nat.min_eq_left piece.2.1]
    have fits : t.uLength + uLenThis ≤ OPT_AUDIO_IMA_SOURCE_SIZE := by
      have bound : uLenThis ≤ OPT_AUDIO_IMA_SOURCE_SIZE - t.uLength := piece.2.2
      exact Nat.add_le_of_le_sub' room bound
    have copied := @copy_collected t stream (aucPCM.take uLenThis) (by rw [length]; exact piece.1)
      ring (by rw [length]; exact fits) size bytes
    have rest := ih copied
    rw [List.append_assoc, List.take_append_drop] at rest
    exact rest
  | case2 s aucPCM none =>
    have empty : aucPCM = [] := List.eq_nil_of_length_eq_zero (by omega)
    rw [empty, List.append_nil]
    exact collected

theorem recordAll_collected (available : ∀ n, bufEncAudioNew n = true)
    (blocks : List (List UInt8)) (collected : Collected s stream) :
    Collected (vauRecordAll bufEncAudioNew s blocks) (stream ++ blocks.flatten) := by
  induction blocks generalizing s stream with
  | nil =>
    rw [List.flatten_nil, List.append_nil]
    exact collected
  | cons block blocks ih =>
    rw [List.flatten_cons, ← List.append_assoc]
    exact ih (record_collected available block collected)

/-- The number of blocks given to the encoder: a full ring buffer waits for the next byte. -/
theorem encoded_length (collected : Collected s stream) :
    s.encoded.length = (stream.length - 1) / OPT_AUDIO_IMA_SOURCE_SIZE := by
  have total : stream.length = s.encoded.length * OPT_AUDIO_IMA_SOURCE_SIZE + s.uLength := by
    rw [← collected.bytes, List.length_append, List.length_take, collected.ring,
      Nat.min_eq_left collected.room, List.length_flatten,
      List.map_congr_left (g := fun _ => OPT_AUDIO_IMA_SOURCE_SIZE) collected.size,
      List.map_const', List.sum_replicate_nat]
  have room := collected.room
  have size : 0 < OPT_AUDIO_IMA_SOURCE_SIZE := Nat.succ_pos 2033
  by_cases empty : stream = []
  · rw [empty] at total ⊢
    have none : s.encoded.length * OPT_AUDIO_IMA_SOURCE_SIZE = 0 := by
      rw [List.length_nil] at total
      omega
    rw [List.length_nil, Nat.zero_sub, Nat.zero_div]
    exact (Nat.mul_eq_zero.mp none).resolve_right (by decide)
  · have lazy := collected.lazy empty
    rw [total, Nat.add_sub_assoc lazy, Nat.mul_comm, Nat.mul_add_div size,
      Nat.div_eq_of_lt (by omega), Nat.add_zero]

end Collecting

/-- While there are buffers for the packets, the encoder is given the parts of the captured stream
of the encoder's size, one after the other; the last of them once another byte has come. -/
theorem ima_blocks_slices (bufEncAudioNew : Nat → Bool) (aucRingBuffer : List UInt8)
    (blocks : List (List UInt8)) (whole : aucRingBuffer.length = OPT_AUDIO_IMA_SOURCE_SIZE)
    (available : ∀ n, bufEncAudioNew n = true) :
    (vauRecordAll bufEncAudioNew (imaStart aucRingBuffer) blocks).encoded =
      (List.range ((blocks.flatten.length - 1) / OPT_AUDIO_IMA_SOURCE_SIZE)).map fun k =>
        Kit.slice blocks.flatten (k * OPT_AUDIO_IMA_SOURCE_SIZE)
          ((k + 1) * OPT_AUDIO_IMA_SOURCE_SIZE) := by
  have start : Collected (imaStart aucRingBuffer) [] :=
    ⟨whole, Nat.zero_le _, List.forall_mem_nil _, rfl, fun some => absurd rfl some⟩
  have collected := recordAll_collected available blocks start
  rw [List.nil_append] at collected
  rw [← encoded_length collected]
  have slices := Kit.blocks_eq_slices ((vauRecordAll bufEncAudioNew (imaStart aucRingBuffer)
    blocks).aucRingBuffer.take (vauRecordAll bufEncAudioNew (imaStart aucRingBuffer)
      blocks).uLength) collected.size
  rw [collected.bytes] at slices
  exact slices

theorem ima_blocks_slices_two :
    (vauRecordAll (fun _ => true) (imaStart (List.replicate OPT_AUDIO_IMA_SOURCE_SIZE 0))
      [List.replicate 2000 7, List.replicate 36 8]).encoded =
        [List.replicate 2000 7 ++ List.replicate 34 8] := by
  have slices := ima_blocks_slices (fun _ => true) (List.replicate OPT_AUDIO_IMA_SOURCE_SIZE 0)
    [List.replicate 2000 7, List.replicate 36 8] List.length_replicate (fun _ => rfl)
  rw [slices]
  decide +kernel

end Rovio.VideoPhone
