import Mathlib.Data.List.Basic

/-! The frames that the MPEG-4 splitter hands to the decoder. -/
namespace Rovio.VideoPhone

/-- The byte at a place after `pc`. -/
def byteAt (pc : List UInt8) (n : Nat) : UInt8 := pc.getD n 0

/-- MP4_VISUAL_OBJECT_SEQUENCE_START_CODE with the start code of the visual object. -/
def isSequence (pc : List UInt8) : Bool :=
  byteAt pc 2 = 0x01 && byteAt pc 3 = 0xB0 && byteAt pc 5 = 0x00 && byteAt pc 6 = 0x00 &&
    byteAt pc 7 = 0x01 && byteAt pc 8 = 0xB5

/-- MP4_VIDEO_OBJECT_PLANE_START_CODE. -/
def isPlane (pc : List UInt8) : Bool := byteAt pc 2 = 0x01 && byteAt pc 3 = 0xB6

def isH263 (pc : List UInt8) : Bool := byteAt pc 2 &&& 0xF0 ≠ 0

/-- One round of the loop: whether it breaks, and `bHeader` after it. -/
def checkCode (bHeader : Bool) (pc : List UInt8) : Bool × Bool :=
  if byteAt pc 0 = 0x00 && byteAt pc 1 = 0x00 then
    if isSequence pc then (true, true)
    else if isPlane pc then
      if bHeader then (isH263 pc, false) else (true, bHeader)
    else (isH263 pc, bHeader)
  else (false, bHeader)

/-- The bytes in the buffer; `check` is the offset of `pcCheckPointer`. -/
structure Splitter where
  bHeader : Bool
  buffer : List UInt8
  szMaxLength : Nat
  check : Nat
  deriving DecidableEq

def Splitter.init (szMaxLength : Nat) : Splitter := ⟨true, [], szMaxLength, 0⟩

def Splitter.delData (s : Splitter) (szLength : Nat) : Splitter :=
  let szLength := if szLength > s.buffer.length then s.buffer.length else szLength
  { s with buffer := s.buffer.drop szLength, check := s.check - szLength }

/-- The loop, with `left` rounds up to `pcEnd`: whether it breaks, the place and `bHeader`. -/
def scanFrom (buffer : List UInt8) : Nat → Bool → Nat → Bool × Nat × Bool
  | 0, bHeader, pc => (false, pc, bHeader)
  | left + 1, bHeader, pc =>
    let (found, bHeader) := checkCode bHeader (buffer.drop pc)
    if found then (true, pc, bHeader) else scanFrom buffer left bHeader (pc + 1)

def Splitter.getFrame (s : Splitter) : Splitter × Nat :=
  if s.buffer.length > 10 then
    let pcEnd := s.buffer.length - 10
    let (found, pc, bHeader) := scanFrom s.buffer (pcEnd - s.check) s.bHeader s.check
    if found then ({ s with bHeader := bHeader, check := pc + 2 }, pc)
    else ({ s with bHeader := bHeader, check := pc }, 0)
  else (s, 0)

def Splitter.addData (s : Splitter) (cpcBuffer : List UInt8) : Splitter :=
  if cpcBuffer.length > s.szMaxLength then s
  else
    let s :=
      if s.buffer.length + cpcBuffer.length > s.szMaxLength then
        s.delData (s.buffer.length + cpcBuffer.length - s.szMaxLength)
      else s
    { s with buffer := s.buffer ++ cpcBuffer }

theorem getFrame_buffer (s : Splitter) : s.getFrame.1.buffer = s.buffer := by
  unfold Splitter.getFrame
  dsimp only
  split
  · split <;> rfl
  · rfl

theorem getFrame_short {s : Splitter} (some : 0 < s.getFrame.2) : 10 < s.buffer.length := by
  unfold Splitter.getFrame at some
  split at some
  · assumption
  · exact absurd some (Nat.lt_irrefl 0)

theorem delData_buffer (s : Splitter) (n : Nat) : (s.delData n).buffer = s.buffer.drop n := by
  unfold Splitter.delData
  dsimp only
  split
  · rw [List.drop_length, List.drop_eq_nil_of_le (by omega)]
  · rfl

/-- The loop of `vmp4decPrepare`, with the frames handed to the decoder. -/
def decodeFrames (s : Splitter) : Splitter × List (List UInt8) :=
  if 0 < s.getFrame.2 then
    let szLen := s.getFrame.2
    let frame := s.getFrame.1.buffer.take szLen
    let (s', frames) := decodeFrames (s.getFrame.1.delData szLen)
    (s', frame :: frames)
  else (s.getFrame.1, [])
termination_by s.buffer.length
decreasing_by
  have long := getFrame_short ‹0 < s.getFrame.2›
  rw [delData_buffer, getFrame_buffer, List.length_drop]
  omega

def vmp4decPrepare (s : Splitter) (bitstream : List UInt8) : Splitter × List (List UInt8) :=
  decodeFrames (s.addData bitstream)

/-- The calls for the pieces of a stream, one after the other. -/
def prepareAll (s : Splitter) : List (List UInt8) → Splitter × List (List UInt8)
  | [] => (s, [])
  | chunk :: rest =>
    let (s', frames) := vmp4decPrepare s chunk
    let (s'', more) := prepareAll s' rest
    (s'', frames ++ more)

end Rovio.VideoPhone
