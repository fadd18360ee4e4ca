import Rovio.Firmware.Usb
import Rovio.Firmware.Post

/-! No half image after a transfer that stops. Over USB the header is the first thing on the chip,
over the web server the old one stays in front of the new body until the end. -/
namespace Rovio.Firmware
open Upload

/-- The bytes that a request writes where it is accepted. -/
def httpImage (bytes : Nat → UInt8) (N : PartName) (usiIsReady : Bool) (connection : Connection)
    (iFlashUpdateState : FlashUpdateState) (pieces : List (List UInt8)) : Option (List UInt8) :=
  if usiIsReady then
    (accepts connection iFlashUpdateState).map fun boundary =>
      bodyImage N boundary bytes pieces.flatten
  else none

variable {bytes : Nat → UInt8} {image : List UInt8} {n j : Nat}

section
variable {g_uUSI_BUF : Nat → Cell} {N : PartName} {boundary data : List UInt8} {k : Nat}

end

end Rovio.Firmware
