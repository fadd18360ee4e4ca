import Mathlib.Tactic.Ring
import Rovio.Hic.Framing

/-! Drawing on the OSD, from a command of the host and from an application. -/
namespace Rovio.VideoPhone

inductive OsdColor where
  | yuv422 | yCbCr422 | rgb888 | rgb666 | rgb565 | rgb444low | rgb444high | rgb332
  deriving DecidableEq

def vlcmGetOSDColorWidth : OsdColor → Nat
  | .rgb332 => 1
  | .yuv422 | .yCbCr422 | .rgb565 | .rgb444low | .rgb444high => 2
  | .rgb888 | .rgb666 => 4

/-- Bytes by their address; the new OSD buffer begins at 0. -/
abbrev Memory := Int → UInt8

/-- `memcpy` to an address. -/
def poke (memory : Memory) (a : Int) (bytes : List UInt8) : Memory := fun x =>
  if a ≤ x ∧ x < a + bytes.length then bytes.getD (x - a).toNat 0 else memory x

/-- What the LCD module tells; `bFree`: a new OSD buffer is there. -/
structure OsdScreen where
  bConfigured : Bool
  bFree : Bool
  usScreenWidth : UInt16
  usScreenHeight : UInt16
  eOsdColor : OsdColor
  aucData : Memory

def OsdScreen.width (s : OsdScreen) : Int := s.usScreenWidth.toNat
def OsdScreen.height (s : OsdScreen) : Int := s.usScreenHeight.toNat
def OsdScreen.uPixelWidth (s : OsdScreen) : Nat := vlcmGetOSDColorWidth s.eOsdColor

structure OsdRect where
  nLeft : Int
  nTop : Int
  nWidth : Int
  nHeight : Int

/-- The state of the copy. -/
structure OsdCursor where
  nX : Int
  nY : Int
  pucOSDBuffer : Int
  memory : Memory

/-- A round of COPY_OSD_DATA. -/
def copyPixel (s : OsdScreen) (r : OsdRect) (nRight : Int) (pixel : List UInt8) (c : OsdCursor) :
    OsdCursor :=
  let memory :=
    if 0 ≤ c.nX ∧ c.nX < s.width ∧ 0 ≤ c.nY ∧ c.nY < s.height then
      poke c.memory c.pucOSDBuffer pixel
    else c.memory
  let nX := c.nX + 1
  let pucOSDBuffer := c.pucOSDBuffer + s.uPixelWidth
  if nX ≥ nRight then
    ⟨r.nLeft, c.nY + 1, pucOSDBuffer + (s.width - r.nWidth) * s.uPixelWidth, memory⟩
  else ⟨nX, c.nY, pucOSDBuffer, memory⟩

def copyPixels (s : OsdScreen) (r : OsdRect) (nRight : Int) :
    Nat → List UInt8 → OsdCursor → OsdCursor
  | 0, _, c => c
  | rounds + 1, bytes, c =>
    copyPixels s r nRight rounds (bytes.drop s.uPixelWidth)
      (copyPixel s r nRight (bytes.take s.uPixelWidth) c)

def COPY_OSD_DATA (s : OsdScreen) (r : OsdRect) (nRight : Int) (bytes : List UInt8)
    (c : OsdCursor) : OsdCursor :=
  copyPixels s r nRight ((bytes.length + s.uPixelWidth - 1) / s.uPixelWidth) bytes c

/-- The old contents of the screen are copied to the new buffer. -/
def copyOld (s : OsdScreen) (fresh : Memory) : Memory := fun a =>
  if 0 ≤ a ∧ a < s.uPixelWidth * (s.width * s.height) then s.aucData a else fresh a

def startCursor (s : OsdScreen) (r : OsdRect) (fresh : Memory) : OsdCursor :=
  ⟨r.nLeft, r.nTop, (r.nLeft + r.nTop * s.width) * s.uPixelWidth, copyOld s fresh⟩

/-- An INT. -/
def int32 (n : Int) : Int := (n + 2147483648) % 4294967296 - 2147483648

/-- The new OSD buffer, unless the call fails. -/
def wb702WriteOSD (s : OsdScreen) (fresh : Memory) (r : OsdRect) (cpucData : List UInt8) :
    Option Memory :=
  if s.bConfigured = false then none
  else if s.bFree = false then none
  else some (COPY_OSD_DATA s r (int32 (r.nLeft + r.nWidth)) cpucData
    (startCursor s r fresh)).memory

def HIC_FIFO_LEN : Nat := 128

/-- The blocks of the FIFO that follow the first. -/
def copyBlocks (s : OsdScreen) (r : OsdRect) (nRight : Int) (stream : List UInt8)
    (c : OsdCursor) : OsdCursor :=
  if 0 < stream.length then
    copyBlocks s r nRight (stream.drop HIC_FIFO_LEN)
      (COPY_OSD_DATA s r nRight (stream.take HIC_FIFO_LEN) c)
  else c
termination_by stream.length
decreasing_by
  rw [List.length_drop]
  unfold HIC_FIFO_LEN
  omega

/-- `UCHAR_2_USHORT`. -/
def ushortAt (pc : List UInt8) : UInt16 :=
  UInt16.ofNat ((pc.getD 1 0).toNat <<< 8 ||| (pc.getD 0 0).toNat)

/-- The rectangle that the parameters in the first block give. -/
def osdRect (fifo : List UInt8) (left top width height : Hic.Slice) : OsdRect where
  nLeft := (ushortAt (fifo.drop left.pcParam)).toInt16.toInt
  nTop := (ushortAt (fifo.drop top.pcParam)).toInt16.toInt
  nWidth := (ushortAt (fifo.drop width.pcParam)).toNat
  nHeight := (ushortAt (fifo.drop height.pcParam)).toNat

/-- The command, with all the bytes that the host sends for it. -/
def cmd18_09_WriteOSD (s : OsdScreen) (fresh : Memory) (stream : List UInt8) : Option Memory :=
  if s.bConfigured = false then none
  else
    let uLength := stream.length
    let uLength_OK := if HIC_FIFO_LEN < uLength then HIC_FIFO_LEN else uLength
    let pucFIFO := stream.take uLength_OK
    match Hic.readCmd45 pucFIFO 5 with
    | [left, top, width, height, data] =>
      if s.bFree = false then none
      else
        let r := osdRect pucFIFO left top width height
        let nRight := r.nLeft + r.nWidth
        let first := COPY_OSD_DATA s r nRight (data.content pucFIFO) (startCursor s r fresh)
        if r.nLeft = 0 ∧ r.nWidth = s.width ∧ uLength_OK < uLength then
          some (poke first.memory first.pucOSDBuffer (stream.drop uLength_OK))
        else some (copyBlocks s r nRight (stream.drop uLength_OK) first).memory
    | _ => none

end Rovio.VideoPhone
