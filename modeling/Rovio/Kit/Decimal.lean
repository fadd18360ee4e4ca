import Mathlib.Data.List.Basic

/-! Decimal texts of integers, and the numbers that are read when such a text has been cut off. -/
namespace Kit

def decimalText : Int → List Char
  | .ofNat n => Nat.toDigits 10 n
  | .negSucc n => '-' :: Nat.toDigits 10 (n + 1)

/-- The number that a sign and digits stand for; without digits it is zero. -/
def decimalValue : List Char → Int
  | '-' :: ds => -(Nat.ofDigitChars 10 ds 0 : Nat)
  | ds => (Nat.ofDigitChars 10 ds 0 : Nat)

/-- Digits, with a minus sign before them or not. -/
def IsDecimal (t : List Char) : Prop :=
  ∃ ds, (t = ds ∨ t = '-' :: ds) ∧ ∀ c ∈ ds, c.isDigit

theorem toDigits_isDigit {n : Nat} {c : Char} (member : c ∈ Nat.toDigits 10 n) : c.isDigit :=
  Nat.isDigit_of_mem_toDigits (by decide) (by decide) member

theorem decimalValue_digits {ds : List Char} (digits : ∀ c ∈ ds, c.isDigit) :
    decimalValue ds = (Nat.ofDigitChars 10 ds 0 : Nat) := by
  unfold decimalValue
  split
  · rename_i rest
    exact absurd (digits '-' (by simp)) (by decide)
  · rfl

@[simp] theorem decimalValue_minus (ds : List Char) :
    decimalValue ('-' :: ds) = -(Nat.ofDigitChars 10 ds 0 : Nat) := rfl

theorem decimalValue_text (n : Int) : decimalValue (decimalText n) = n := by
  cases n with
  | ofNat n =>
    rw [decimalText, decimalValue_digits fun c here => toDigits_isDigit here,
      Nat.ofDigitChars_ten_toDigits]
    rfl
  | negSucc n =>
    rw [decimalText, decimalValue_minus, Nat.ofDigitChars_ten_toDigits]
    rfl

theorem decimalText_length_pos (n : Int) : 0 < (decimalText n).length := by
  cases n with
  | ofNat n => exact Nat.length_toDigits_pos
  | negSucc n => exact Nat.succ_pos _

/-- Ten digits and a sign are enough for a word. -/
theorem decimalText_length_le {n : Int} (low : -10000000000 < n) (high : n < 10000000000) :
    (decimalText n).length ≤ 11 := by
  cases n with
  | ofNat n =>
    have digits := (Nat.length_toDigits_le_iff (n := n) (b := 10) (k := 10) (by decide)
      (by decide)).mpr (by simp only [Int.ofNat_eq_natCast] at high; omega)
    exact Nat.le_succ_of_le digits
  | negSucc n =>
    have digits := (Nat.length_toDigits_le_iff (n := n + 1) (b := 10) (k := 10) (by decide)
      (by decide)).mpr (by omega)
    exact Nat.succ_le_succ digits

theorem decimalText_plain {n : Int} {c : Char} (member : c ∈ decimalText n) :
    c.isDigit ∨ c = '-' := by
  cases n with
  | ofNat n => exact .inl (toDigits_isDigit member)
  | negSucc n =>
    rcases List.mem_cons.mp member with sign | digit
    · exact .inr sign
    · exact .inl (toDigits_isDigit digit)

end Kit
