import Rovio.Firmware.Cut
import Rovio.Upload.Exclusion

/-! The image that the first bytes of the flash declare, and whether it is there as a whole. -/
namespace Rovio.Firmware

/-- The length that the header declares, in the machine's byte order. -/
def declared (f : Flash) : Option Nat :=
  if (f 0).byte = 87 ∧ (f 1).byte = 66 ∧ (f 2).byte = 0x5A ∧ (f 3).byte = 0xA5 then
    some ((f 4).byte.toNat + 256 * (f 5).byte.toNat + 65536 * (f 6).byte.toNat +
      16777216 * (f 7).byte.toNat)
  else none

/-- All of the image is what was there before, or it is the transfer's under the transfer's
header. -/
def Whole (f : Flash) (n : Nat) : Prop :=
  (∀ a, 16 ≤ a → a < n → (f a).origin = .previous) ∨
    (∀ i < 8, (f i).origin = .transfer) ∧ ∀ a, 16 ≤ a → a < n → (f a).origin = .transfer

def ofTransfer (bytes : List UInt8) : List Cell := bytes.map fun byte => ⟨byte, .transfer⟩

@[simp] theorem length_ofTransfer (bytes : List UInt8) : (ofTransfer bytes).length = bytes.length :=
  List.length_map _

theorem flatten_ofTransfer (chunks : List (List UInt8)) :
    (chunks.map ofTransfer).flatten = ofTransfer chunks.flatten := by
  rw [ofTransfer, List.map_flatten]
  rfl

theorem ofTransfer_origin {bytes : List UInt8} {i : Nat} (hi : i < (ofTransfer bytes).length) :
    (ofTransfer bytes)[i].origin = .transfer := by
  simp [ofTransfer]

theorem length_header (n : Nat) : (Upload.header n).length = 8 := rfl

/-- The header of a transfer stands at the start. -/
def Headed (f : Flash) (n : Nat) : Prop :=
  ∀ i (hi : i < (ofTransfer (Upload.header n)).length), f i = (ofTransfer (Upload.header n))[i]

variable {f : Flash} {n : Nat}

theorem Headed.origin (h : Headed f n) : ∀ i < 8, (f i).origin = .transfer := by
  intro i hi
  have inside : i < (ofTransfer (Upload.header n)).length := by
    rwa [length_ofTransfer, length_header]
  rw [h i inside]
  exact ofTransfer_origin inside

theorem Headed.declared (h : Headed f n) : declared f = some (n % 2 ^ 32) := by
  have size : (ofTransfer (Upload.header n)).length = 8 := by
    rw [length_ofTransfer, length_header]
  have bytes := fun i hi => congrArg Cell.byte (h i (by rw [size]; exact hi))
  unfold Firmware.declared
  rw [bytes 0 (by omega), bytes 1 (by omega), bytes 2 (by omega), bytes 3 (by omega),
    bytes 4 (by omega), bytes 5 (by omega), bytes 6 (by omega), bytes 7 (by omega)]
  simp only [ofTransfer, Upload.header, List.range, List.range.loop, List.map_cons, List.map_nil,
    List.cons_append, List.nil_append, List.getElem_cons_zero, List.getElem_cons_succ,
    and_self, if_true, UInt8.toNat_ofNat', Option.some.injEq]
  omega

/-- The flash with a transfer's header and the bytes behind it. -/
def imaged (base : Flash) (n : Nat) (image : List UInt8) : Flash :=
  overwrite (overwrite base 0 (ofTransfer (Upload.header n))) 16 (ofTransfer image)

section
variable {base : Flash} {image : List UInt8}

theorem imaged_headed : Headed (imaged base n image) n := by
  intro i hi
  have small := hi
  rw [length_ofTransfer, length_header] at small
  have inside := @overwrite_inside base 0 i _ hi
  rw [Nat.zero_add] at inside
  rw [imaged, overwrite_outside (.inl (by omega)), inside]

theorem imaged_between {a : Nat} (low : 8 ≤ a) (high : a < 16) :
    imaged base n image a = base a := by
  rw [imaged, overwrite_outside (.inl high), overwrite_outside (.inr ?_)]
  rw [length_ofTransfer, length_header]
  exact low

theorem imaged_image {i : Nat} (hi : i < (ofTransfer image).length) :
    imaged base n image (16 + i) = (ofTransfer image)[i] := overwrite_inside hi

variable {k o : Nat} {s : Usi}

/-- The header is written first. -/
theorem Fresh.header (h : Fresh o base s) :
    Writing k o (imaged base n image) base 16
      (usiMyWrite (before k) s 0 (ofTransfer (Upload.header n))) := by
  have started : Writing k o (imaged base n image) base (0 + (ofTransfer (Upload.header n)).length)
      (usiMyWrite (before k) s 0 (ofTransfer (Upload.header n))) := by
    refine h.write nofun (by decide) nofun fun i hi => ?_
    rw [Nat.zero_add]
    exact imaged_headed i hi
  rw [length_ofTransfer, length_header, Nat.zero_add] at started
  exact started.skip (by decide) (by decide) fun a low high => imaged_between low high

/-- The writes of the bytes behind the header. -/
theorem Writing.body (h : Writing k o (imaged base n image) base 16 s) {chunks : List (List Cell)}
    (flat : chunks.flatten = ofTransfer image) :
    Writing k o (imaged base n image) base (16 + image.length)
      (runCalls (before k) s (consecutive 16 chunks)) := by
  have written : Writing k o (imaged base n image) base (16 + chunks.flatten.length) _ :=
    h.writes fun i hi => by
      simp only [flat]
      exact imaged_image (flat ▸ hi)
  rwa [flat, length_ofTransfer] at written

end

/-! ### After a cut -/

variable {want base : Flash} {j : Nat}

theorem programmed_page (two : 2 ≤ j) : 256 ≤ programmed j := by
  unfold programmed eraseSec
  omega

theorem cutFlash_programmed {a : Nat} (inside : a < programmed j) :
    cutFlash want base j a = want a :=
  if_pos inside

theorem Headed.cut (h : Headed want n) (two : 2 ≤ j) : Headed (cutFlash want base j) n := by
  intro i hi
  have page := programmed_page two
  have small := hi
  rw [length_ofTransfer, length_header] at small
  rw [cutFlash_programmed (by omega)]
  exact h i hi

end Rovio.Firmware
