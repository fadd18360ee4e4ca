import Mathlib.Data.BitVec
import Mathlib.Tactic.IntervalCases
import Rovio.Kit.Bytes
import Rovio.Kit.Parity

/-! `correct_data` of ecc.c, and what it makes of one or two flipped bits. The code of an area is
computed by the controller: the parities of its lines and columns. -/
namespace Rovio.Nand
open Kit

inductive EccStatus where
  | noErr
  | correct
  | uncorrect
deriving DecidableEq

/-- The word that the bytes of a code are put together to. -/
def eccWord (u2KPageSize : Bool) (d1 d2 d3 : BitVec 8) : BitVec 32 :=
  let d := (d1.setWidth 32 <<< 16) + (d2.setWidth 32 <<< 8) + d3.setWidth 32
  if u2KPageSize then d + ((d3.setWidth 32 &&& 3#32) <<< 24) else d

/-- The loops that gather every second bit of `d`, with the mask that comes next. -/
def markBits {w : Nat} (d : BitVec 32) :
    Nat → BitVec 32 → BitVec w → BitVec w → BitVec w × BitVec 32
  | 0, l, _, add => (add, l)
  | count + 1, l, a, add =>
    markBits d count (l >>> 2) (a >>> 1) (if d &&& l ≠ 0 then add ||| a else add)

/-- `_fmi_ECC_CORRECT`. -/
def eccCorrect (u2KPageSize : Bool) : BitVec 32 := if u2KPageSize then 0x01555554 else 0x00555554

/-- `correct_data` from the two codes on, with their difference. -/
def correctWord (u2KPageSize : Bool) (d : BitVec 32) (data : Nat → BitVec 8) :
    EccStatus × (Nat → BitVec 8) :=
  if d = 0 then (.noErr, data)
  else if (d ^^^ (d >>> 1)) &&& eccCorrect u2KPageSize = eccCorrect u2KPageSize then
    let (add, l) :=
      if u2KPageSize then markBits (w := 32) d 9 0x02000000 0x100 0
      else markBits d 8 0x00800000 0x80 0
    let (bit, _) := markBits (w := 8) d 3 l 0x04 0
    (.correct, Function.update data add.toNat (data add.toNat ^^^ (1#8 <<< bit.toNat)))
  else (.uncorrect, data)

def correctData (u2KPageSize : Bool) (data : Nat → BitVec 8) (ecc1 ecc2 ecc3 : BitVec 8)
    (ecc : BitVec 32) : EccStatus × (Nat → BitVec 8) :=
  correctWord u2KPageSize
    (eccWord u2KPageSize (ecc1 ^^^ (ecc >>> 8).truncate 8) (ecc2 ^^^ ecc.truncate 8)
      (ecc3 ^^^ (ecc >>> 16).truncate 8)) data

/-! ### The code of the controller -/

/-- The bits of an area, those of byte `i` from `8 * i` on. -/
def dataBit (data : Nat → BitVec 8) (q : Nat) : Bool := (data (q / 8)).getLsbD (q % 8)

def flipBit (data : Nat → BitVec 8) (p : Nat) : Nat → BitVec 8 :=
  Function.update data (p / 8) (data (p / 8) ^^^ (1#8 <<< (p % 8)))

/-- The address of a bit has 9 or 8 bits for the byte and 3 for the bit in it. -/
def addressBits (u2KPageSize : Bool) : Nat := if u2KPageSize then 12 else 11

/-- Where the register has the bit `j` of the word: CP5 to CP0 and LP17, LP16 in its third byte,
LP15 to LP08 in its second, LP07 to LP00 in its first. -/
def lineAt (j : Nat) : Nat := if j < 8 then j + 16 else j - 8

/-- What REG_SMECC holds for an area: for each bit of the address the parity of the data bits with
it set, and of those with it clear. -/
structure EccUnit (u2KPageSize : Bool) where
  smecc : (Nat → BitVec 8) → BitVec 32
  set : ∀ data k, k < addressBits u2KPageSize → (smecc data).getLsbD (lineAt (2 * k + 3)) =
    parity (2 ^ addressBits u2KPageSize) fun q => dataBit data q && q.testBit k
  clear : ∀ data k, k < addressBits u2KPageSize → (smecc data).getLsbD (lineAt (2 * k + 2)) =
    parity (2 ^ addressBits u2KPageSize) fun q => dataBit data q && !q.testBit k

/-- `correct_data` with the bytes of a stored code. -/
def correctStored (u2KPageSize : Bool) (data : Nat → BitVec 8) (stored ecc : BitVec 32) :
    EccStatus × (Nat → BitVec 8) :=
  correctData u2KPageSize data ((stored >>> 8).truncate 8) (stored.truncate 8)
    ((stored >>> 16).truncate 8) ecc

/-! ### The word -/

variable {u2KPageSize : Bool} {x : BitVec 32} {j k : Nat}

/-- The bytes of a word of the register, put together. -/
def gathered (u2KPageSize : Bool) (x : BitVec 32) : BitVec 32 :=
  eccWord u2KPageSize ((x >>> 8).truncate 8) (x.truncate 8) ((x >>> 16).truncate 8)

theorem add_eq_or {a b : BitVec 32} (apart : ∀ i < 32, (a.getLsbD i && b.getLsbD i) = false) :
    a + b = a ||| b := by
  apply BitVec.add_eq_or_of_and_eq_zero
  apply BitVec.eq_of_getLsbD_eq
  intro i small
  rw [BitVec.getLsbD_and, apart i small, BitVec.getLsbD_zero]

/-- The bytes do not overlap. -/
theorem eccWord_bit (d1 d2 d3 : BitVec 8) {j : Nat} (small : j < 32) :
    (eccWord u2KPageSize d1 d2 d3).getLsbD j =
      ((decide (16 ≤ j ∧ j < 24) && d1.getLsbD (j - 16)) ||
        (decide (8 ≤ j ∧ j < 16) && d2.getLsbD (j - 8)) ||
        (decide (j < 8) && d3.getLsbD j) ||
        (u2KPageSize && (decide (24 ≤ j ∧ j < 26) && d3.getLsbD (j - 24)))) := by
  have low (i : Nat) (small : i < 32) : (d3.setWidth 32).getLsbD i =
      (decide (i < 8) && d3.getLsbD i) := by
    have window := wide_window d3 0 i small
    rw [BitVec.shiftLeft_zero] at window
    simpa using window
  have top (i : Nat) (small : i < 32) : ((d3.setWidth 32 &&& 3#32) <<< 24).getLsbD i =
      (decide (24 ≤ i ∧ i < 26) && d3.getLsbD (i - 24)) := by
    rw [BitVec.getLsbD_shiftLeft, BitVec.getLsbD_and, BitVec.getLsbD_setWidth]
    rcases Nat.lt_or_ge i 24 with below | above
    · simp [show ¬ 24 ≤ i by omega, below]
    · obtain ⟨m, rfl⟩ := Nat.exists_eq_add_of_le above
      rw [Nat.add_sub_cancel_left]
      have three : (3#32).getLsbD m = decide (m < 2) := by
        have few : m < 8 := by omega
        interval_cases m <;> rfl
      rw [three]
      rcases Nat.lt_or_ge m 2 with low | high
      · simp [small, low, show 24 + m < 26 by omega, show m < 32 by omega]
      · simp [show ¬ m < 2 by omega, show ¬ 24 + m < 26 by omega]
  have two : (d1.setWidth 32 <<< 16) + (d2.setWidth 32 <<< 8) =
      (d1.setWidth 32 <<< 16) ||| (d2.setWidth 32 <<< 8) := by
    apply add_eq_or
    intro i small
    rw [wide_window _ _ _ small, wide_window _ _ _ small]
    rcases Nat.lt_or_ge i 16 with below | above
    · simp [show ¬ 16 ≤ i by omega]
    · simp [show ¬ i < 16 by omega]
  have three : (d1.setWidth 32 <<< 16) + (d2.setWidth 32 <<< 8) + d3.setWidth 32 =
      ((d1.setWidth 32 <<< 16) ||| (d2.setWidth 32 <<< 8)) ||| d3.setWidth 32 := by
    rw [two]
    apply add_eq_or
    intro i small
    rw [BitVec.getLsbD_or, wide_window _ _ _ small, wide_window _ _ _ small, low i small]
    rcases Nat.lt_or_ge i 8 with below | above
    · simp [show ¬ 8 ≤ i by omega, show ¬ 16 ≤ i by omega]
    · simp [show ¬ i < 8 by omega]
  have bits (i : Nat) (small : i < 32) :
      ((d1.setWidth 32 <<< 16) + (d2.setWidth 32 <<< 8) + d3.setWidth 32).getLsbD i =
        ((decide (16 ≤ i ∧ i < 24) && d1.getLsbD (i - 16)) ||
          (decide (8 ≤ i ∧ i < 16) && d2.getLsbD (i - 8)) || (decide (i < 8) && d3.getLsbD i)) := by
    rw [three, BitVec.getLsbD_or, BitVec.getLsbD_or, wide_window _ _ _ small,
      wide_window _ _ _ small, low i small]
  cases u2KPageSize with
  | false => simpa [eccWord] using bits j small
  | true =>
    have four : (d1.setWidth 32 <<< 16) + (d2.setWidth 32 <<< 8) + d3.setWidth 32 +
        ((d3.setWidth 32 &&& 3#32) <<< 24) =
        ((d1.setWidth 32 <<< 16) + (d2.setWidth 32 <<< 8) + d3.setWidth 32) |||
          ((d3.setWidth 32 &&& 3#32) <<< 24) := by
      apply add_eq_or
      intro i small
      rw [bits i small, top i small]
      rcases Nat.lt_or_ge i 24 with below | above
      · simp [show ¬ 24 ≤ i by omega]
      · simp [show ¬ i < 8 by omega, show ¬ i < 16 by omega, show ¬ i < 24 by omega]
    simp only [eccWord, if_true]
    rw [four, BitVec.getLsbD_or, bits j small, top j small, Bool.true_and]

/-- Bit `j` of the word is the one of the register at its line. -/
theorem gathered_bit (inside : j < 24 ∨ u2KPageSize = true ∧ j < 26) :
    (gathered u2KPageSize x).getLsbD j = x.getLsbD (lineAt j) := by
  have small : j < 32 := by omega
  rw [gathered, eccWord_bit _ _ _ small, lineAt]
  simp only [BitVec.truncate_eq_setWidth, BitVec.getLsbD_setWidth, BitVec.getLsbD_ushiftRight]
  rcases Nat.lt_or_ge j 8 with first | high
  · simp [first, show ¬ 8 ≤ j by omega, show ¬ 16 ≤ j by omega, show ¬ 24 ≤ j by omega,
      Nat.add_comm]
  rcases Nat.lt_or_ge j 16 with second | high
  · have index : j - 8 < 8 := by omega
    simp [second, high, index, show ¬ j < 8 by omega,
      show ¬ 16 ≤ j by omega, show ¬ 24 ≤ j by omega]
  rcases Nat.lt_or_ge j 24 with third | high
  · have index : j - 16 < 8 := by omega
    have line : 8 + (j - 16) = j - 8 := by omega
    simp [third, high, index, line, show ¬ j < 8 by omega, show ¬ j < 16 by omega,
      show ¬ 24 ≤ j by omega]
  · obtain ⟨large, last⟩ := inside.resolve_left (Nat.not_lt_of_le high)
    have index : j - 24 < 8 := by omega
    have line : 16 + (j - 24) = j - 8 := by omega
    simp [large, last, high, index, line, show ¬ j < 8 by omega, show ¬ j < 16 by omega,
      show ¬ j < 24 by omega]

theorem correctStored_eq (data : Nat → BitVec 8) (stored ecc : BitVec 32) :
    correctStored u2KPageSize data stored ecc =
      correctWord u2KPageSize (gathered u2KPageSize (stored ^^^ ecc)) data := by
  have byte (n : Nat) : ((stored >>> n).truncate 8 ^^^ (ecc >>> n).truncate 8 : BitVec 8) =
      ((stored ^^^ ecc) >>> n).truncate 8 := by
    rw [BitVec.ushiftRight_xor_distrib]
    exact BitVec.setWidth_xor.symm
  have first : (stored.truncate 8 ^^^ ecc.truncate 8 : BitVec 8) = (stored ^^^ ecc).truncate 8 :=
    BitVec.setWidth_xor.symm
  rw [correctStored, correctData, byte, byte, first]
  rfl

/-! ### The address -/

theorem twoPow_shift {w n m : Nat} (below : n + m < w) :
    BitVec.twoPow w (n + m) >>> m = BitVec.twoPow w n := by
  apply BitVec.eq_of_getLsbD_eq
  intro i small
  rw [BitVec.getLsbD_ushiftRight, BitVec.getLsbD_twoPow, BitVec.getLsbD_twoPow,
    decide_eq_true below, decide_eq_true (Nat.lt_of_le_of_lt (Nat.le_add_right n m) below)]
  simp only [Bool.true_and, decide_eq_decide]
  omega

/-- One turn of a loop. -/
theorem marked_bit {w : Nat} {d : BitVec 32} {n c : Nat} {add : BitVec w} (room : n < 32)
    (wide : c < w) (j : Nat) :
    (if d &&& BitVec.twoPow 32 n ≠ 0 then add ||| BitVec.twoPow w c else add).getLsbD j =
      (add.getLsbD j || (decide (j = c) && d.getLsbD n)) := by
  rw [BitVec.and_twoPow]
  cases bit : d.getLsbD n with
  | false => simp
  | true =>
    have one : BitVec.twoPow 32 n ≠ 0 := by
      intro zero
      have same := congrArg (BitVec.getLsbD · n) zero
      simp [room] at same
    rw [if_pos rfl, if_pos one, BitVec.getLsbD_or, BitVec.getLsbD_twoPow, decide_eq_true wide,
      Bool.true_and, Bool.and_true, decide_eq_decide.mpr (eq_comm (a := c))]

/-- The loops start with bit `2 * (c + low) + 3` of the word and gather `c + 1` bits. -/
theorem markBits_bits {w : Nat} (d : BitVec 32) (c low : Nat) (add : BitVec w)
    (room : 2 * (c + low) + 3 < 32) (wide : c < w) :
    (markBits d (c + 1) (BitVec.twoPow 32 (2 * (c + low) + 3)) (BitVec.twoPow w c) add).2 =
        BitVec.twoPow 32 (2 * low + 1) ∧
      ∀ j, (markBits d (c + 1) (BitVec.twoPow 32 (2 * (c + low) + 3))
          (BitVec.twoPow w c) add).1.getLsbD j =
        (add.getLsbD j || (decide (j ≤ c) && d.getLsbD (2 * (j + low) + 3))) := by
  induction c generalizing add with
  | zero =>
    have next : BitVec.twoPow 32 (2 * (0 + low) + 3) >>> 2 = BitVec.twoPow 32 (2 * low + 1) := by
      have index : 2 * (0 + low) + 3 = 2 * low + 1 + 2 := by omega
      rw [index]
      exact twoPow_shift (by omega)
    refine ⟨next, fun j => (marked_bit room wide j).trans ?_⟩
    rcases Nat.eq_zero_or_pos j with rfl | pos
    · rfl
    · simp [show j ≠ 0 by omega]
  | succ c ih =>
    have next : BitVec.twoPow 32 (2 * (c + 1 + low) + 3) >>> 2 =
        BitVec.twoPow 32 (2 * (c + low) + 3) := by
      have index : 2 * (c + 1 + low) + 3 = 2 * (c + low) + 3 + 2 := by omega
      rw [index]
      exact twoPow_shift (by omega)
    rw [markBits, next, twoPow_shift wide]
    obtain ⟨l, bits⟩ := ih _ (by omega) (Nat.lt_of_succ_lt wide)
    refine ⟨l, fun j => ?_⟩
    rw [bits j, marked_bit room wide j]
    rcases Nat.lt_trichotomy j (c + 1) with below | rfl | above
    · simp [show j ≠ c + 1 by omega, show j ≤ c by omega, show j ≤ c + 1 by omega]
    · simp
    · simp [show j ≠ c + 1 by omega, show ¬ j ≤ c by omega, show ¬ j ≤ c + 1 by omega]

/-! ### What the test sees -/

theorem eccCorrect_bit : ∀ u2KPageSize, ∀ j < 32, (eccCorrect u2KPageSize).getLsbD j =
    decide (2 ≤ j ∧ j % 2 = 0 ∧ j < 2 * addressBits u2KPageSize + 2) := by
  decide

/-- Of each pair of lines exactly one differs. -/
theorem paired_iff {d : BitVec 32} :
    (d ^^^ (d >>> 1)) &&& eccCorrect u2KPageSize = eccCorrect u2KPageSize ↔
      ∀ k < addressBits u2KPageSize, (d.getLsbD (2 * k + 2) ^^ d.getLsbD (2 * k + 3)) = true := by
  have few : addressBits u2KPageSize ≤ 12 := by cases u2KPageSize <;> decide
  have next (j : Nat) : (d ^^^ (d >>> 1)).getLsbD j = (d.getLsbD j ^^ d.getLsbD (j + 1)) := by
    rw [BitVec.getLsbD_xor, BitVec.getLsbD_ushiftRight, Nat.add_comm]
  constructor
  · intro same k below
    have bit := congrArg (BitVec.getLsbD · (2 * k + 2)) same
    have inside : (eccCorrect u2KPageSize).getLsbD (2 * k + 2) = true := by
      rw [eccCorrect_bit _ _ (by omega), decide_eq_true (by omega)]
    simp only [BitVec.getLsbD_and, inside, Bool.and_true, next] at bit
    exact bit
  · intro pairs
    apply BitVec.eq_of_getLsbD_eq
    intro j small
    rw [BitVec.getLsbD_and]
    cases inside : (eccCorrect u2KPageSize).getLsbD j with
    | false => exact Bool.and_false _
    | true =>
      rw [eccCorrect_bit _ _ small, decide_eq_true_eq] at inside
      have index : 2 * (j / 2 - 1) + 2 = j := by omega
      have pair := pairs (j / 2 - 1) (by omega)
      rw [show 2 * (j / 2 - 1) + 3 = 2 * (j / 2 - 1) + 2 + 1 from rfl, index] at pair
      rw [next, pair]
      rfl

theorem correctWord_uncorrect {d : BitVec 32} {data : Nat → BitVec 8} (differs : d ≠ 0)
    (below : k < addressBits u2KPageSize)
    (pair : d.getLsbD (2 * k + 2) = d.getLsbD (2 * k + 3)) :
    correctWord u2KPageSize d data = (.uncorrect, data) := by
  have fails : ¬ (d ^^^ (d >>> 1)) &&& eccCorrect u2KPageSize = eccCorrect u2KPageSize := by
    intro passes
    have one := paired_iff.mp passes k below
    rw [pair, Bool.xor_self] at one
    cases one
  rw [correctWord, if_neg differs, if_neg fails]

section
variable {d : BitVec 32} {p c : Nat}

/-- What the first loop gathers is the byte, and what the second gathers is the bit in it. -/
theorem markBits_byte (few : c ≤ 8) (inside : p < 2 ^ (c + 4))
    (set : ∀ k < c + 4, d.getLsbD (2 * k + 3) = p.testBit k) :
    (markBits (w := 32) d (c + 1) (BitVec.twoPow 32 (2 * (c + 3) + 3)) (BitVec.twoPow 32 c) 0).2 =
        BitVec.twoPow 32 (2 * 3 + 1) ∧
      (markBits (w := 32) d (c + 1) (BitVec.twoPow 32 (2 * (c + 3) + 3))
        (BitVec.twoPow 32 c) 0).1.toNat = p / 8 := by
  obtain ⟨l, bits⟩ := markBits_bits (w := 32) d c 3 0 (by omega) (by omega)
  refine ⟨l, Nat.eq_of_testBit_eq fun j => ?_⟩
  rw [BitVec.testBit_toNat, bits j, show p / 8 = p / 2 ^ 3 from rfl, Nat.testBit_div_two_pow]
  rcases Nat.lt_or_ge c j with above | below
  · have high : p.testBit (j + 3) = false :=
      Nat.testBit_lt_two_pow (Nat.lt_of_lt_of_le inside (Nat.pow_le_pow_right Nat.two_pos
        (by omega)))
    simp [high, above]
  · rw [decide_eq_true below, set (j + 3) (by omega)]
    simp

theorem markBits_bit (set : ∀ k < 3, d.getLsbD (2 * k + 3) = p.testBit k) :
    (markBits (w := 8) d 3 (BitVec.twoPow 32 (2 * 3 + 1)) 0x04 0).1.toNat = p % 8 := by
  obtain ⟨-, bits⟩ := markBits_bits (w := 8) d 2 0 0 (by omega) (by omega)
  refine Nat.eq_of_testBit_eq fun j => ?_
  rw [BitVec.testBit_toNat, show p % 8 = p % 2 ^ 3 from rfl, Nat.testBit_mod_two_pow]
  refine (bits j).trans ?_
  rcases Nat.lt_or_ge j 3 with below | above
  · rw [decide_eq_true (show j ≤ 2 by omega), decide_eq_true below, ← set j below]
    simp
  · rw [decide_eq_false (by omega), decide_eq_false (by omega)]
    simp

/-- The address in the lines is that of the flipped bit. -/
theorem correctWord_correct (data : Nat → BitVec 8)
    (inside : p < 2 ^ addressBits u2KPageSize)
    (set : ∀ k < addressBits u2KPageSize, d.getLsbD (2 * k + 3) = p.testBit k)
    (clear : ∀ k < addressBits u2KPageSize, d.getLsbD (2 * k + 2) = !p.testBit k) :
    correctWord u2KPageSize d data = (.correct, flipBit data p) := by
  have three : 3 < addressBits u2KPageSize := by cases u2KPageSize <;> decide
  have passes : (d ^^^ (d >>> 1)) &&& eccCorrect u2KPageSize = eccCorrect u2KPageSize := by
    apply paired_iff.mpr
    intro k below
    rw [set k below, clear k below]
    cases p.testBit k <;> rfl
  have differs : d ≠ 0 := by
    intro zero
    have none (j : Nat) : d.getLsbD j = false := by
      rw [zero]
      exact BitVec.getLsbD_zero
    have first := set 0 (by omega)
    have second := clear 0 (by omega)
    rw [none] at first second
    rw [← first] at second
    cases second
  have bit := markBits_bit fun k below => set k (by omega)
  rw [correctWord, if_neg differs, if_pos passes]
  cases u2KPageSize with
  | true =>
    obtain ⟨l, byte⟩ := markBits_byte (c := 8) (Nat.le_refl _) inside set
    have loop : markBits (w := 32) d 9 0x02000000 0x100 0 =
        markBits (w := 32) d (8 + 1) (BitVec.twoPow 32 (2 * (8 + 3) + 3)) (BitVec.twoPow 32 8) 0 :=
      rfl
    simp only [if_true, loop]
    rw [l, byte, bit]
    rfl
  | false =>
    obtain ⟨l, byte⟩ := markBits_byte (c := 7) (by omega) inside set
    have loop : markBits (w := 32) d 8 0x00800000 0x80 0 =
        markBits (w := 32) d (7 + 1) (BitVec.twoPow 32 (2 * (7 + 3) + 3)) (BitVec.twoPow 32 7) 0 :=
      rfl
    simp only [Bool.false_eq_true, if_false, loop]
    rw [l, byte, bit]
    rfl

end

/-! ### Flipped bits -/

section
variable {data : Nat → BitVec 8} {p q : Nat} {stored : BitVec 32}

theorem dataBit_flip (data : Nat → BitVec 8) (p q : Nat) :
    dataBit (flipBit data p) q = (dataBit data q ^^ decide (q = p)) := by
  unfold dataBit flipBit
  rcases eq_or_ne (q / 8) (p / 8) with same | other
  · rw [same, Function.update_self, BitVec.getLsbD_xor]
    congr 1
    have small : q % 8 < 8 := Nat.mod_lt _ (by decide)
    rw [BitVec.getLsbD_shiftLeft, decide_eq_true small, Bool.true_and]
    rcases eq_or_ne q p with rfl | differ
    · simp
    · rw [decide_eq_false differ]
      rcases Nat.lt_or_ge (q % 8) (p % 8) with below | above
      · simp [below]
      · have bit : q % 8 - p % 8 ≠ 0 := by omega
        simp [bit]
  · have differ : q ≠ p := by
      rintro rfl
      exact other rfl
    rw [Function.update_of_ne other, decide_eq_false differ, Bool.xor_false]

theorem flipBit_flipBit (data : Nat → BitVec 8) (p : Nat) : flipBit (flipBit data p) p = data := by
  unfold flipBit
  rw [Function.update_self, Function.update_idem, BitVec.xor_assoc, BitVec.xor_self,
    BitVec.xor_zero, Function.update_eq_self]

/-- The lines of a flipped bit change. -/
theorem EccUnit.flip (unit : EccUnit u2KPageSize) (data : Nat → BitVec 8)
    (inside : p < 2 ^ addressBits u2KPageSize) (below : k < addressBits u2KPageSize) :
    (unit.smecc (flipBit data p)).getLsbD (lineAt (2 * k + 3)) =
        ((unit.smecc data).getLsbD (lineAt (2 * k + 3)) ^^ p.testBit k) ∧
      (unit.smecc (flipBit data p)).getLsbD (lineAt (2 * k + 2)) =
        ((unit.smecc data).getLsbD (lineAt (2 * k + 2)) ^^ !p.testBit k) := by
  have bits : dataBit (flipBit data p) = fun q => dataBit data q ^^ decide (q = p) :=
    funext (dataBit_flip data p)
  rw [unit.set _ k below, unit.clear _ k below, unit.set _ k below, unit.clear _ k below, bits]
  exact ⟨parity_flip inside _ _, parity_flip inside _ fun q => !q.testBit k⟩

theorem line_inside (below : k < addressBits u2KPageSize) {j : Nat}
    (pair : j = 2 * k + 2 ∨ j = 2 * k + 3) : j < 24 ∨ u2KPageSize = true ∧ j < 26 := by
  cases u2KPageSize with
  | true =>
    have few : k < 12 := below
    exact .inr ⟨rfl, by omega⟩
  | false =>
    have few : k < 11 := below
    exact .inl (by omega)

theorem correct_flipped (unit : EccUnit u2KPageSize)
    (inside : p < 2 ^ addressBits u2KPageSize) :
    correctStored u2KPageSize (flipBit data p) (unit.smecc data) (unit.smecc (flipBit data p)) =
      (.correct, data) := by
  rw [correctStored_eq, correctWord_correct (flipBit data p) inside, flipBit_flipBit]
  · intro k below
    rw [gathered_bit (line_inside below (.inr rfl)), BitVec.getLsbD_xor,
      (unit.flip data inside below).1, ← Bool.xor_assoc, Bool.xor_self, Bool.false_xor]
  · intro k below
    rw [gathered_bit (line_inside below (.inl rfl)), BitVec.getLsbD_xor,
      (unit.flip data inside below).2, ← Bool.xor_assoc, Bool.xor_self, Bool.false_xor]

/-- Of each pair both lines change, or none. -/
theorem uncorrect_flipped (unit : EccUnit u2KPageSize)
    (first : p < 2 ^ addressBits u2KPageSize) (second : q < 2 ^ addressBits u2KPageSize)
    (other : p ≠ q) :
    correctStored u2KPageSize (flipBit (flipBit data p) q) (unit.smecc data)
      (unit.smecc (flipBit (flipBit data p) q)) = (.uncorrect, flipBit (flipBit data p) q) := by
  have set (k : Nat) (below : k < addressBits u2KPageSize) :
      (gathered u2KPageSize (unit.smecc data ^^^ unit.smecc (flipBit (flipBit data p) q))).getLsbD
        (2 * k + 3) = (p.testBit k ^^ q.testBit k) := by
    rw [gathered_bit (line_inside below (.inr rfl)), BitVec.getLsbD_xor,
      (unit.flip _ second below).1, (unit.flip _ first below).1, Bool.xor_assoc, ← Bool.xor_assoc,
      Bool.xor_self, Bool.false_xor]
  have clear (k : Nat) (below : k < addressBits u2KPageSize) :
      (gathered u2KPageSize (unit.smecc data ^^^ unit.smecc (flipBit (flipBit data p) q))).getLsbD
        (2 * k + 2) = (p.testBit k ^^ q.testBit k) := by
    rw [gathered_bit (line_inside below (.inl rfl)), BitVec.getLsbD_xor,
      (unit.flip _ second below).2, (unit.flip _ first below).2, Bool.xor_assoc, ← Bool.xor_assoc,
      Bool.xor_self, Bool.false_xor]
    cases p.testBit k <;> cases q.testBit k <;> rfl
  rw [correctStored_eq]
  have some : 0 < addressBits u2KPageSize := by cases u2KPageSize <;> decide
  apply correctWord_uncorrect _ some
  · rw [set 0 some, clear 0 some]
  · intro zero
    apply other
    apply Nat.eq_of_testBit_eq
    intro k
    rcases Nat.lt_or_ge k (addressBits u2KPageSize) with below | above
    · have line := set k below
      rw [zero] at line
      have same : (p.testBit k ^^ q.testBit k) = false := line.symm.trans BitVec.getLsbD_zero
      exact bne_eq_false_iff_eq.mp same
    · have high {r : Nat} (inside : r < 2 ^ addressBits u2KPageSize) : r.testBit k = false :=
        Nat.testBit_lt_two_pow (Nat.lt_of_lt_of_le inside
          (Nat.pow_le_pow_right Nat.two_pos above))
      rw [high first, high second]

/-- A bit of the stored code is in one of two bytes that have a pair each. -/
theorem uncorrect_stored (stored : BitVec 32) (data : Nat → BitVec 8) {e : Nat} (inside : e < 24) :
    correctStored u2KPageSize data (stored ^^^ BitVec.twoPow 32 e) stored = (.uncorrect, data) := by
  have flipped : stored ^^^ BitVec.twoPow 32 e ^^^ stored = BitVec.twoPow 32 e := by
    rw [BitVec.xor_comm stored, BitVec.xor_assoc, BitVec.xor_self, BitVec.xor_zero]
  have line {j : Nat} (few : j < 24) : (gathered u2KPageSize (BitVec.twoPow 32 e)).getLsbD j =
      decide (e = lineAt j) := by
    rw [gathered_bit (.inl few), BitVec.getLsbD_twoPow, decide_eq_true (by omega), Bool.true_and]
  have differs : gathered u2KPageSize (BitVec.twoPow 32 e) ≠ 0 := by
    intro zero
    obtain ⟨j, few, there⟩ : ∃ j < 24, e = lineAt j := by
      rcases Nat.lt_or_ge e 16 with low | high
      · exact ⟨e + 8, by omega, by unfold lineAt; split <;> omega⟩
      · exact ⟨e - 16, by omega, by unfold lineAt; split <;> omega⟩
    have bit := line few
    rw [zero, decide_eq_true there] at bit
    exact Bool.false_ne_true (BitVec.getLsbD_zero.symm.trans bit)
  rw [correctStored_eq, flipped]
  rcases Nat.lt_or_ge e 16 with low | high
  · have columns : lineAt (2 * 0 + 2) = 18 ∧ lineAt (2 * 0 + 3) = 19 := ⟨rfl, rfl⟩
    apply correctWord_uncorrect differs (k := 0) (by cases u2KPageSize <;> decide)
    rw [line (by decide), line (by decide), decide_eq_false (by omega), decide_eq_false (by omega)]
  · have lines : lineAt (2 * 3 + 2) = 0 ∧ lineAt (2 * 3 + 3) = 1 := ⟨rfl, rfl⟩
    apply correctWord_uncorrect differs (k := 3) (by cases u2KPageSize <;> decide)
    rw [line (by decide), line (by decide), decide_eq_false (by omega), decide_eq_false (by omega)]

/-- One flipped bit of the data is corrected, two are reported, and a flipped bit of the stored
code is reported too and leaves the data alone. -/
theorem page_ecc (unit : EccUnit u2KPageSize) (data : Nat → BitVec 8) :
    (∀ p < 2 ^ addressBits u2KPageSize,
      correctStored u2KPageSize (flipBit data p) (unit.smecc data)
        (unit.smecc (flipBit data p)) = (.correct, data)) ∧
    (∀ p < 2 ^ addressBits u2KPageSize, ∀ q < 2 ^ addressBits u2KPageSize, p ≠ q →
      correctStored u2KPageSize (flipBit (flipBit data p) q) (unit.smecc data)
        (unit.smecc (flipBit (flipBit data p) q)) = (.uncorrect, flipBit (flipBit data p) q)) ∧
    ∀ e < 24, correctStored u2KPageSize data (unit.smecc data ^^^ BitVec.twoPow 32 e)
      (unit.smecc data) = (.uncorrect, data) :=
  ⟨fun _ inside => correct_flipped unit inside,
    fun _ first _ second other => uncorrect_flipped unit first second other,
    fun _ inside => uncorrect_stored _ data inside⟩

end

/-! ### A unit -/

/-- The parity that bit `r` of the register has. -/
def linePairs (u2KPageSize : Bool) (data : Nat → BitVec 8) (r : Nat) : Bool :=
  let j := if r < 18 then r + 8 else r - 16
  parity (2 ^ addressBits u2KPageSize) fun q =>
    dataBit data q && (q.testBit ((j - 2) / 2) == decide (j % 2 = 1))

def lineCode (u2KPageSize : Bool) (data : Nat → BitVec 8) : BitVec 32 :=
  (BitVec.ofBoolListLE ((List.range 24).map (linePairs u2KPageSize data))).setWidth 32

theorem lineCode_bit (data : Nat → BitVec 8) {r : Nat} (inside : r < 24) :
    (lineCode u2KPageSize data).getLsbD r = linePairs u2KPageSize data r := by
  rw [lineCode, BitVec.getLsbD_setWidth, decide_eq_true (by omega), Bool.true_and,
    BitVec.getLsbD_ofBoolListLE, List.getD_eq_getElem?_getD, List.getElem?_map,
    List.getElem?_range inside]
  rfl

theorem lineCode_line (data : Nat → BitVec 8) (low : 2 ≤ j) (high : j < 26) :
    (lineCode u2KPageSize data).getLsbD (lineAt j) =
      parity (2 ^ addressBits u2KPageSize) fun q =>
        dataBit data q && (q.testBit ((j - 2) / 2) == decide (j % 2 = 1)) := by
  have inside : lineAt j < 24 := by
    unfold lineAt
    split <;> omega
  have back : (if lineAt j < 18 then lineAt j + 8 else lineAt j - 16) = j := by
    unfold lineAt
    split <;> split <;> omega
  rw [lineCode_bit data inside, linePairs, back]

def lineUnit (u2KPageSize : Bool) : EccUnit u2KPageSize where
  smecc := lineCode u2KPageSize
  set data k below := by
    have few : addressBits u2KPageSize ≤ 12 := by cases u2KPageSize <;> decide
    have bit : (2 * k + 3 - 2) / 2 = k := by omega
    rw [lineCode_line data (by omega) (by omega), bit, decide_eq_true (by omega)]
    simp
  clear data k below := by
    have few : addressBits u2KPageSize ≤ 12 := by cases u2KPageSize <;> decide
    have bit : (2 * k + 2 - 2) / 2 = k := by omega
    rw [lineCode_line data (by omega) (by omega), bit, decide_eq_false (by omega)]
    simp

/-- An area of zeros with bit 0 of its stored code flipped. -/
theorem stored_bit_reported :
    correctStored true (fun _ => 0)
      ((lineUnit true).smecc (fun _ => 0) ^^^ BitVec.twoPow 32 0)
      ((lineUnit true).smecc fun _ => 0) = (.uncorrect, fun _ => 0) :=
  uncorrect_stored _ _ (by decide)

end Rovio.Nand
