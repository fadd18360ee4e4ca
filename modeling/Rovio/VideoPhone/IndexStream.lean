import Mathlib.Order.Basic
import Rovio.VideoPhone.IndexSearch

/-! For which streams the index checker is right, however they are cut into buffers. -/
namespace Rovio.VideoPhone

/-! ### An equals sign at the end of a buffer -/

section Dangling
variable {buf : Nat → UInt8} {p : Nat} {mark : UInt8}

end Dangling

section Round
variable {c : IndexChecker} {p : Nat}

end Round

end Rovio.VideoPhone
