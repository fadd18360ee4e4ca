import Rovio.Firmware.Http

/-! What a power cut leaves of a request to the web server. The body goes over the old image under
the old header; when the request is over the first sector is written again with the new one. -/
namespace Rovio.Firmware
open Upload

variable {base : Flash} {image : List UInt8} {n k o : Nat} {s : Usi}

/-- A header that goes into the first sector. -/
theorem usiMyWrite_header (works : Nat → Bool) (s : Usi) (n : Nat) :
    usiMyWrite works s 0 (ofTransfer (header n)) =
      { usiLoad works s 0 with
        g_uUSI_BUF := overwrite (usiLoad works s 0).g_uUSI_BUF 0 (ofTransfer (header n)) } := by
  have size : (ofTransfer (header n)).length = 8 := by rw [length_ofTransfer, length_header]
  have some : ofTransfer (header n) ≠ [] := by
    intro nil
    rw [nil] at size
    cases size
  have copy_len : min (ofTransfer (header n)).length eraseSec = 8 := by
    rw [size]
    decide
  rw [usiMyWrite, if_neg some]
  simp only [Nat.zero_mod, Nat.sub_zero, Nat.zero_add, copy_len]
  rw [List.take_of_length_le size.le, List.drop_of_length_le size.le, usiMyWrite, if_pos rfl]

variable {bytes : Nat → UInt8} {g_uUSI_BUF : Nat → Cell} {N : PartName} {boundary data : List UInt8}

/-- The bytes that a body writes. -/
def bodyImage (N : PartName) (boundary : List UInt8) (bytes : Nat → UInt8) (data : List UInt8) :
    List UInt8 := (chunks mpBufLen N (mpStart boundary bytes) data).flatten

/-- The sectors before that of the last byte. -/
def sectors (image : List UInt8) : Nat := (16 + image.length - 1) / eraseSec

end Rovio.Firmware
