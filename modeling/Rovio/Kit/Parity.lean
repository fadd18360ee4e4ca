import Mathlib.Logic.Basic
import Mathlib.Data.Bool.Basic

/-! Parities of sets of positions. The parity over the positions with one bit of the address set,
and over those with it clear, for each bit of the address, tell where a single bit has changed. -/
namespace Kit

/-- Whether the number of positions below `n` in the set is odd. -/
def parity : Nat → (Nat → Bool) → Bool
  | 0, _ => false
  | n + 1, f => f n ^^ parity n f

variable {n p : Nat} {f g : Nat → Bool}

theorem parity_none : parity n (fun _ => false) = false := by
  induction n with
  | zero => rfl
  | succ n ih => rw [parity, ih, Bool.xor_false]

theorem parity_congr (same : ∀ q < n, f q = g q) : parity n f = parity n g := by
  induction n with
  | zero => rfl
  | succ n ih =>
    rw [parity, parity, same n (Nat.lt_succ_self n),
      ih fun q below => same q (Nat.lt_succ_of_lt below)]

theorem parity_xor : parity n (fun q => f q ^^ g q) = (parity n f ^^ parity n g) := by
  induction n with
  | zero => rfl
  | succ n ih =>
    rw [parity, parity, parity, ih]
    cases f n <;> cases g n <;> cases parity n f <;> cases parity n g <;> rfl

theorem parity_single (below : p < n) (f : Nat → Bool) :
    parity n (fun q => decide (q = p) && f q) = f p := by
  induction n with
  | zero => cases below
  | succ n ih =>
    rw [parity]
    rcases Nat.lt_succ_iff_lt_or_eq.mp below with before | rfl
    · rw [ih before, decide_eq_false (Nat.ne_of_gt before), Bool.false_and, Bool.false_xor]
    · have rest : parity p (fun q => decide (q = p) && f q) = false := by
        rw [← parity_none (n := p)]
        apply parity_congr
        intro q small
        rw [decide_eq_false (Nat.ne_of_lt small), Bool.false_and]
      rw [rest, decide_eq_true rfl, Bool.true_and, Bool.xor_false]

/-- A change at one position. -/
theorem parity_flip (below : p < n) (f lines : Nat → Bool) :
    parity n (fun q => (f q ^^ decide (q = p)) && lines q) =
      (parity n (fun q => f q && lines q) ^^ lines p) := by
  have parts : (fun q => (f q ^^ decide (q = p)) && lines q) =
      fun q => (f q && lines q) ^^ (decide (q = p) && lines q) := by
    funext q
    exact Bool.and_xor_distrib_right ..
  rw [parts, parity_xor, parity_single below]

end Kit
