import Mathlib.Data.BitVec

/-! A word of 32 bits cut into bytes and put together again, the low byte first. -/
namespace Kit

def byteOf (a : BitVec 32) (shift : Nat) : BitVec 8 := (a >>> shift).truncate 8

def leBytes (a : BitVec 32) : List UInt8 :=
  [⟨byteOf a 0⟩, ⟨byteOf a 8⟩, ⟨byteOf a 16⟩, ⟨byteOf a 24⟩]

def leWord (b0 b1 b2 b3 : UInt8) : BitVec 32 :=
  let wide (b : UInt8) : BitVec 32 := b.toBitVec.setWidth 32
  (wide b3 <<< 24) ||| (wide b2 <<< 16) ||| (wide b1 <<< 8) ||| wide b0

@[simp] theorem length_leBytes (a : BitVec 32) : (leBytes a).length = 4 := rfl

/-- A byte moved to its place is seen through its window. -/
theorem wide_window (b : BitVec 8) (shift i : Nat) (small : i < 32) :
    ((b.setWidth 32) <<< shift).getLsbD i =
      (decide (shift ≤ i ∧ i < shift + 8) && b.getLsbD (i - shift)) := by
  simp only [BitVec.getLsbD_shiftLeft, BitVec.getLsbD_setWidth]
  rcases Nat.lt_or_ge i shift with before | from_
  · simp [before, show ¬ shift ≤ i by omega]
  · have fits : i - shift < 32 := by omega
    rcases Nat.lt_or_ge i (shift + 8) with inside | past
    · simp [small, from_, fits, inside]
    · have high : b.getLsbD (i - shift) = false := BitVec.getLsbD_of_ge _ _ (by omega)
      simp [high]

/-- A byte in its place has the bits of the word there. -/
theorem byte_in_place (a : BitVec 32) (shift i : Nat) (small : i < 32) :
    (((byteOf a shift).setWidth 32) <<< shift).getLsbD i =
      (decide (shift ≤ i ∧ i < shift + 8) && a.getLsbD i) := by
  rw [wide_window _ _ _ small]
  by_cases window : shift ≤ i ∧ i < shift + 8
  · have index : shift + (i - shift) = i := by omega
    have fits : i - shift < 8 := by omega
    simp [byteOf, window, index, fits]
  · simp [window]

theorem leWord_leBytes (a : BitVec 32) :
    leWord ⟨byteOf a 0⟩ ⟨byteOf a 8⟩ ⟨byteOf a 16⟩ ⟨byteOf a 24⟩ = a := by
  have low : (byteOf a 0).setWidth 32 = (byteOf a 0).setWidth 32 <<< 0 :=
    (BitVec.shiftLeft_zero _).symm
  apply BitVec.eq_of_getLsbD_eq
  intro i small
  simp only [leWord]
  rw [low]
  simp only [BitVec.getLsbD_or, byte_in_place _ _ _ small]
  cases bit : a.getLsbD i with
  | false => simp
  | true =>
    simp only [Bool.and_true, ← Bool.decide_or, decide_eq_true_eq]
    omega

theorem leBytes_leWord (b0 b1 b2 b3 : UInt8) :
    leBytes (leWord b0 b1 b2 b3) = [b0, b1, b2, b3] := by
  have low : b0.toBitVec.setWidth 32 = b0.toBitVec.setWidth 32 <<< 0 :=
    (BitVec.shiftLeft_zero _).symm
  have byte : ∀ (shift : Nat) (b : UInt8),
      (∀ j < 8, (leWord b0 b1 b2 b3).getLsbD (shift + j) = b.toBitVec.getLsbD j) →
        (⟨byteOf (leWord b0 b1 b2 b3) shift⟩ : UInt8) = b := by
    intro shift b same
    refine congrArg UInt8.ofBitVec (BitVec.eq_of_getLsbD_eq fun j small => ?_)
    rw [byteOf, BitVec.truncate_eq_setWidth, BitVec.getLsbD_setWidth, BitVec.getLsbD_ushiftRight,
      same j small]
    simp [small]
  rw [leBytes, byte 0 b0, byte 8 b1, byte 16 b2, byte 24 b3]
  all_goals
    intro j small
    have here : ∀ k, decide (k ≤ k + j ∧ k + j < k + 8) = true := fun k => by simp; omega
    have other : ∀ k k', k + 8 ≤ k' ∨ k' + 8 ≤ k → decide (k' ≤ k + j ∧ k + j < k' + 8) = false :=
      fun k k' apart => by simp; omega
    simp only [leWord]
    rw [low]
    simp (disch := omega) only [BitVec.getLsbD_or, wide_window, here, other,
      Nat.add_sub_cancel_left, Bool.true_and, Bool.false_and, Bool.or_false, Bool.false_or]

end Kit
