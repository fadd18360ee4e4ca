import Rovio.VideoPhone.Osd

/-! Patterns sent to the OSD buffer, piece by piece. -/
namespace Rovio.VideoPhone

/-- What a call of `wb702OldSndOSDPattern` is given. -/
structure SndPattern where
  cpucBuffer : List UInt8
  uBufferLength : UInt32
  whole : cpucBuffer.length = uBufferLength.toNat
  uAddress : UInt32
  /-- `vlcmIsConfigured ()` -/
  bConfigured : Bool

structure Wb_Tx_t where
  mediatype : Int32
  txlen : Int32
  txbuf : List UInt8

/-- OLDWB702SNDPATTERN of `wb_ioctl`; `uSize` is the size of the buffer. -/
def oldSndPattern (uSize : UInt32) (bConfigured : Bool) (parg : Wb_Tx_t) (aucData : Memory) :
    Bool × Memory :=
  if parg.txlen ≤ 0 then (false, aucData)
  else
    let uLength := parg.txlen.toUInt32
    let uAddress := parg.mediatype.toUInt32
    if bConfigured = false then (false, aucData)
    else if uAddress + uLength ≤ uSize then
      (true, poke aucData 0 (parg.txbuf.take uLength.toNat))
    else (true, aucData)

def wb702OldSndOSDPattern (uSize : UInt32) (p : SndPattern) (aucData : Memory) : Int × Memory :=
  let var : Wb_Tx_t := ⟨p.uAddress.toInt32, p.uBufferLength.toInt32, p.cpucBuffer⟩
  let (ret, aucData) := oldSndPattern uSize p.bConfigured var aucData
  if ret then (0, aucData) else (-1, aucData)

/-- The piece has its place in the buffer. -/
def SndPattern.Inside (uSize : UInt32) (p : SndPattern) : Prop :=
  p.uAddress.toNat + p.uBufferLength.toNat ≤ uSize.toNat

instance (uSize : UInt32) (p : SndPattern) : Decidable (p.Inside uSize) :=
  inferInstanceAs (Decidable (_ ≤ _))

/-- A write is accepted only inside of the buffer, and then stored at its address; else nothing
is written. -/
structure Stored (uSize : UInt32) (p : SndPattern) (aucData : Memory) : Prop where
  accepted : (wb702OldSndOSDPattern uSize p aucData).1 = 0 →
    p.Inside uSize ∧
      (wb702OldSndOSDPattern uSize p aucData).2 = poke aucData p.uAddress.toNat p.cpucBuffer
  rejected : (wb702OldSndOSDPattern uSize p aucData).1 ≠ 0 →
    (wb702OldSndOSDPattern uSize p aucData).2 = aucData

/-- All of a write but its bytes. -/
structure PatternShape where
  uBufferLength : UInt32
  uAddress : UInt32
  bConfigured : Bool

def SndPattern.shape (p : SndPattern) : PatternShape := ⟨p.uBufferLength, p.uAddress, p.bConfigured⟩

/-- The call fails. -/
def PatternShape.Fails (w : PatternShape) : Prop :=
  w.uBufferLength.toInt32 ≤ 0 ∨ w.bConfigured = false

instance (w : PatternShape) : Decidable w.Fails :=
  inferInstanceAs (Decidable (_ ∨ _))

section Writing
variable {uSize : UInt32} {p : SndPattern} {aucData : Memory}

end Writing

/-- The writes of the shapes, all of their bytes the same. -/
def filled (b : UInt8) (w : PatternShape) : SndPattern where
  cpucBuffer := List.replicate w.uBufferLength.toNat b
  uBufferLength := w.uBufferLength
  whole := List.length_replicate
  uAddress := w.uAddress
  bConfigured := w.bConfigured

end Rovio.VideoPhone
