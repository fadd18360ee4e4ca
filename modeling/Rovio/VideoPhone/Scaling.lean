import Mathlib.Data.Nat.GCD.Basic
import Mathlib.Order.WellFounded

/-! The search for a size that the scaler can make. -/
namespace Rovio.VideoPhone

/-- `__gcd`. -/
def gcd (a b : Nat) : Nat :=
  if a = 0 then b
  else if b = 0 then a
  else if a > b then gcd (a % b) b
  else gcd a (b % a)
termination_by a + b
decreasing_by
  · have := Nat.mod_lt a (Nat.pos_of_ne_zero ‹b ≠ 0›)
    omega
  · have := Nat.mod_lt b (Nat.pos_of_ne_zero ‹a ≠ 0›)
    omega

/-- `__IsScalingOK`; the divisor is kept in 16 bits. -/
def IsScalingOK (uOldSize uNewSize uMaxScalingFactor : Nat) : Bool :=
  let usGCD := gcd uOldSize uNewSize % 65536
  if usGCD = 0 then false
  else decide (uOldSize / usGCD ≤ uMaxScalingFactor) &&
    decide (uNewSize / usGCD ≤ uMaxScalingFactor)

/-- The loop that makes `i` more rounds after the next, with `next` for `++` or `--`. -/
def searchSize (next : Nat → Nat) (uOldSize uMaxScalingFactor : Nat) : Nat → Nat → Nat
  | i, uNewSize =>
    if IsScalingOK uOldSize uNewSize uMaxScalingFactor then uNewSize
    else
      match i with
      | 0 => 0
      | i + 1 => searchSize next uOldSize uMaxScalingFactor i (next uNewSize)

def increment (n : Nat) : Nat := (n + 1) % 4294967296
def decrement (n : Nat) : Nat := (n + 4294967295) % 4294967296

def EvaluateScalingSize (uOldSize uNewSize uMaxScalingFactor : UInt32) (nTolerance : Int32) :
    Nat :=
  let next := if 0 ≤ nTolerance.toInt then increment else decrement
  searchSize next uOldSize.toNat uMaxScalingFactor.toNat nTolerance.toInt.natAbs uNewSize.toNat

theorem gcd_eq (a b : Nat) : gcd a b = Nat.gcd a b := by
  fun_induction gcd a b with
  | case1 b => exact (Nat.gcd_zero_left b).symm
  | case2 a _ => exact (Nat.gcd_zero_right a).symm
  | case3 a b _ _ _ ih =>
    rw [ih, ← Nat.gcd_rec]
    exact Nat.gcd_comm b a
  | case4 a b _ _ _ ih =>
    rw [ih, Nat.gcd_comm a (b % a)]
    exact (Nat.gcd_rec a b).symm

/-- A size is scaled to another by a reduced fraction whose parts are not above `most`. -/
def Scalable (old new most : Nat) : Prop :=
  ∃ p q, 0 < p ∧ 0 < q ∧ p.Coprime q ∧ p ≤ most ∧ q ≤ most ∧ new * q = old * p

/-- The sizes that may be returned: in the direction and within the distance of the tolerance. -/
structure Reachable (old target most : Nat) (tolerance : Int) (s : Nat) : Prop where
  size : 0 < s ∧ s < 4294967296
  upward : 0 ≤ tolerance → target ≤ s
  downward : tolerance < 0 → s ≤ target
  near : ((s : Int) - target).natAbs ≤ tolerance.natAbs
  scalable : Scalable old s most

/-- The nearest of the sizes that may be returned, or 0 where there is none. -/
def IsNearest (old target most : Nat) (tolerance : Int) (result : Nat) : Prop :=
  (Reachable old target most tolerance result ∧
      ∀ s, Reachable old target most tolerance s →
        ((result : Int) - target).natAbs ≤ ((s : Int) - target).natAbs) ∨
    (result = 0 ∧ ∀ s, ¬ Reachable old target most tolerance s)

section Fraction
variable {old new most : Nat}

/-- The reduced fraction is that of the sizes over their greatest common divisor. -/
theorem scalable_iff (some : 0 < old) (positive : 0 < new) :
    Scalable old new most ↔ old / old.gcd new ≤ most ∧ new / old.gcd new ≤ most := by
  have divisor : 0 < old.gcd new := Nat.gcd_pos_of_pos_left new some
  have coprime := Nat.coprime_div_gcd_div_gcd divisor
  have oldWhole := Nat.div_mul_cancel (Nat.gcd_dvd_left old new)
  have newWhole := Nat.div_mul_cancel (Nat.gcd_dvd_right old new)
  constructor
  · rintro ⟨p, q, _, _, reduced, numerator, denominator, same⟩
    have cross : new / old.gcd new * q = old / old.gcd new * p := by
      apply Nat.eq_of_mul_eq_mul_right divisor
      rw [Nat.mul_right_comm, newWhole, Nat.mul_right_comm, oldWhole]
      exact same
    have isDenominator : old / old.gcd new ∣ q := by
      apply coprime.dvd_of_dvd_mul_left
      exact ⟨p, cross⟩
    have isNumerator : new / old.gcd new ∣ p := by
      apply coprime.symm.dvd_of_dvd_mul_left
      exact ⟨q, cross.symm⟩
    exact ⟨Nat.le_trans (Nat.le_of_dvd ‹_› isDenominator) denominator,
      Nat.le_trans (Nat.le_of_dvd ‹_› isNumerator) numerator⟩
  · rintro ⟨denominator, numerator⟩
    refine ⟨new / old.gcd new, old / old.gcd new, ?_, ?_, coprime.symm, numerator, denominator, ?_⟩
    · exact Nat.div_pos (Nat.gcd_le_right old positive) divisor
    · exact Nat.div_pos (Nat.gcd_le_left new some) divisor
    · rw [← Nat.mul_div_assoc _ (Nat.gcd_dvd_left old new),
        ← Nat.mul_div_assoc _ (Nat.gcd_dvd_right old new), Nat.mul_comm]

theorem scalable_some (scalable : Scalable old new most) (positive : 0 < new) : 0 < old := by
  obtain ⟨p, q, _, denominator, _, _, _, same⟩ := scalable
  have product : 0 < old * p := by
    rw [← same]
    exact Nat.mul_pos positive denominator
  exact Nat.pos_of_mul_pos_right product

/-- What 16 bits keep of the greatest common divisor is enough to reduce the fraction. -/
structure Kept (old new most : Nat) : Prop where
  divisor : old.gcd new % 65536 ≠ 0
  denominator : old / (old.gcd new % 65536) ≤ most
  numerator : new / (old.gcd new % 65536) ≤ most

theorem ok_iff : IsScalingOK old new most = true ↔ Kept old new most := by
  unfold IsScalingOK
  rw [gcd_eq]
  dsimp only
  split
  · constructor
    · rintro ⟨⟩
    · intro kept
      exact absurd ‹_› kept.divisor
  · rw [Bool.and_eq_true, decide_eq_true_iff, decide_eq_true_iff]
    constructor
    · rintro ⟨denominator, numerator⟩
      exact ⟨‹_›, denominator, numerator⟩
    · intro kept
      exact ⟨kept.denominator, kept.numerator⟩

/-- A size that passes the test can be made: the divisor that is kept is not above the right
one. -/
theorem Kept.scalable (kept : Kept old new most) (some : 0 < old) (positive : 0 < new) :
    Scalable old new most := by
  have less : old.gcd new % 65536 ≤ old.gcd new := Nat.mod_le _ _
  have divisor : 0 < old.gcd new % 65536 := Nat.pos_of_ne_zero kept.divisor
  apply (scalable_iff some positive).mpr
  exact ⟨Nat.le_trans (Nat.div_le_div_left less divisor) kept.denominator,
    Nat.le_trans (Nat.div_le_div_left less divisor) kept.numerator⟩

/-- A divisor below 65536 is kept whole. -/
theorem kept_of_small (small : old.gcd new < 65536) (some : 0 < old) (positive : 0 < new)
    (scalable : Scalable old new most) : Kept old new most := by
  have divisor : 0 < old.gcd new := Nat.gcd_pos_of_pos_left new some
  obtain ⟨denominator, numerator⟩ := (scalable_iff some positive).mp scalable
  have whole : old.gcd new % 65536 = old.gcd new := Nat.mod_eq_of_lt small
  constructor
  · omega
  · rw [whole]
    exact denominator
  · rw [whole]
    exact numerator

theorem not_kept_zero : ¬ Kept 0 0 most := fun kept => kept.divisor rfl

end Fraction

section Search
variable {old target most : Nat} {tolerance : Int}

/-- The size of the `k`-th round, as the source has it and without a bound. -/
def roundSize (target : Nat) (tolerance : Int) (k : Nat) : Int :=
  if 0 ≤ tolerance then target + k else target - k

def roundWord (target : Nat) (tolerance : Int) (k : Nat) : Nat :=
  (roundSize target tolerance k % 4294967296).toNat

def nextSize (tolerance : Int) : Nat → Nat := if 0 ≤ tolerance then increment else decrement

theorem nextSize_word (k : Nat) :
    nextSize tolerance (roundWord target tolerance k) = roundWord target tolerance (k + 1) := by
  unfold nextSize roundWord roundSize
  split
  · unfold increment
    omega
  · unfold decrement
    omega

/-- The loop returns the first size that passes the test. -/
theorem search_first (i k : Nat) :
    (∃ j, k ≤ j ∧ j ≤ k + i ∧ Kept old (roundWord target tolerance j) most ∧
        (∀ m, k ≤ m → m < j → ¬ Kept old (roundWord target tolerance m) most) ∧
        searchSize (nextSize tolerance) old most i (roundWord target tolerance k) =
          roundWord target tolerance j) ∨
      ((∀ j, k ≤ j → j ≤ k + i → ¬ Kept old (roundWord target tolerance j) most) ∧
        searchSize (nextSize tolerance) old most i (roundWord target tolerance k) = 0) := by
  induction i generalizing k with
  | zero =>
    unfold searchSize
    cases here : IsScalingOK old (roundWord target tolerance k) most with
    | true => exact .inl ⟨k, Nat.le_refl k, Nat.le_refl k, ok_iff.mp here, by omega, rfl⟩
    | false =>
      right
      refine ⟨?_, rfl⟩
      intro j late early
      have same : j = k := by omega
      rw [same, ← ok_iff, here]
      exact Bool.false_ne_true
  | succ i ih =>
    unfold searchSize
    cases here : IsScalingOK old (roundWord target tolerance k) most with
    | true => exact .inl ⟨k, Nat.le_refl k, by omega, ok_iff.mp here, by omega, rfl⟩
    | false =>
      have passed : ∀ m, k ≤ m → m < k + 1 → ¬ Kept old (roundWord target tolerance m) most := by
        intro m late early
        have same : m = k := by omega
        rw [same, ← ok_iff, here]
        exact Bool.false_ne_true
      dsimp only
      rw [if_neg Bool.false_ne_true, nextSize_word]
      rcases ih (k + 1) with ⟨j, late, early, ok, before, result⟩ | ⟨never, result⟩
      · refine .inl ⟨j, by omega, by omega, ok, ?_, result⟩
        intro m from_k to_j
        rcases Nat.lt_or_ge m (k + 1) with first | later
        · exact passed m from_k first
        · exact before m later to_j
      · refine .inr ⟨?_, result⟩
        intro j late early
        rcases Nat.lt_or_ge j (k + 1) with first | later
        · exact passed j late first
        · exact never j later (by omega)

theorem roundWord_size {k : Nat} {s : Nat} (size : roundSize target tolerance k = s)
    (word : s < 4294967296) : roundWord target tolerance k = s := by
  unfold roundWord
  rw [size]
  omega

theorem roundSize_distance {k s : Nat} (size : roundSize target tolerance k = s) :
    ((s : Int) - target).natAbs = k := by
  unfold roundSize at size
  split at size <;> omega

theorem reachable_iff {s : Nat} :
    Reachable old target most tolerance s ↔ 0 < s ∧ s < 4294967296 ∧ Scalable old s most ∧
      ∃ k, k ≤ tolerance.natAbs ∧ roundSize target tolerance k = s := by
  constructor
  · rintro ⟨⟨positive, word⟩, upward, downward, near, scalable⟩
    refine ⟨positive, word, scalable, ((s : Int) - target).natAbs, near, ?_⟩
    unfold roundSize
    split
    · have := upward ‹_›
      omega
    · have := downward (by omega)
      omega
  · rintro ⟨positive, word, scalable, k, near, size⟩
    refine ⟨⟨positive, word⟩, ?_, ?_, ?_, scalable⟩
    · intro up
      unfold roundSize at size
      rw [if_pos up] at size
      omega
    · intro down
      unfold roundSize at size
      rw [if_neg (by omega)] at size
      omega
    · rw [roundSize_distance size]
      exact near

/-- The rounds before one that is inside 32 bits are inside too, and only the first can have the
size 0. -/
theorem roundSize_before {j k s : Nat} (size : roundSize target tolerance k = s) (positive : 0 < s)
    (word : s < 4294967296) (target_word : target < 4294967296) (early : j < k) :
    ∃ t : Nat, roundSize target tolerance j = t ∧ t < 4294967296 ∧ (t = 0 → target = 0) := by
  unfold roundSize at *
  split at size
  · refine ⟨target + j, ?_, by omega, by omega⟩
    rw [if_pos ‹_›]
    omega
  · refine ⟨target - j, ?_, by omega, by omega⟩
    rw [if_neg ‹_›]
    omega

/-- A size outside 32 bits comes after one that is 0. -/
theorem roundSize_wrapped {k : Nat} (target_word : target < 4294967296)
    (outside : ¬ (0 ≤ roundSize target tolerance k ∧ roundSize target tolerance k < 4294967296)) :
    ∃ j, j ≤ k ∧ roundWord target tolerance j = 0 := by
  unfold roundWord roundSize at *
  split at outside
  · exact ⟨4294967296 - target, by omega, by omega⟩
  · exact ⟨target, by omega, by omega⟩

/-- When the search is right. Where some size may be returned, 16 bits have to keep enough of the
divisor for the nearest of them, and the search must not end at once with the target 0. Where
none may be, no other size passes the test before the search ends, be it one past the end of the
32 bits or one for the source size 0. -/
structure Sound (old target most : Nat) (tolerance : Int) : Prop where
  passes : ∀ s, Reachable old target most tolerance s →
    (∀ t, Reachable old target most tolerance t →
      ((s : Int) - target).natAbs ≤ ((t : Int) - target).natAbs) →
    Kept old s most ∧ (target = 0 → ¬ Kept old 0 most)
  ends : (∀ s, ¬ Reachable old target most tolerance s) →
    Kept old 0 most ∨ ∀ k, k ≤ tolerance.natAbs → roundWord target tolerance k ≠ 0 →
      ¬ Kept old (roundWord target tolerance k) most

/-- Of two sizes that may be returned, as near to the target, both are the same. -/
theorem nearest_unique {s t : Nat} (first : Reachable old target most tolerance s)
    (second : Reachable old target most tolerance t)
    (same : ((s : Int) - target).natAbs = ((t : Int) - target).natAbs) : s = t := by
  rcases Int.lt_or_le tolerance 0 with down | up
  · have := first.downward down
    have := second.downward down
    omega
  · have := first.upward up
    have := second.upward up
    omega

theorem nearest_exists (any : ∃ s, Reachable old target most tolerance s) :
    ∃ s, Reachable old target most tolerance s ∧
      ∀ t, Reachable old target most tolerance t →
        ((s : Int) - target).natAbs ≤ ((t : Int) - target).natAbs := by
  obtain ⟨s, reachable, least⟩ := WellFounded.has_min
    (measure fun s : Nat => ((s : Int) - target).natAbs).wf
    {s | Reachable old target most tolerance s} any
  exact ⟨s, reachable, fun t other => Nat.le_of_not_lt (least t other)⟩

theorem roundWord_start (target_word : target < 4294967296) :
    roundWord target tolerance 0 = target := by
  apply roundWord_size _ target_word
  unfold roundSize
  split <;> omega

/-- A size that is passed on the way to one that may be returned, and is not such a size itself,
does not pass the test, but for the target 0. -/
theorem passed_before {j k s : Nat} (target_word : target < 4294967296)
    (reachable : Reachable old target most tolerance s)
    (size : roundSize target tolerance k = s) (bound : k ≤ tolerance.natAbs) (early : j < k)
    (nearest : ∀ t, Reachable old target most tolerance t →
      ((s : Int) - target).natAbs ≤ ((t : Int) - target).natAbs)
    (start : target = 0 → ¬ Kept old 0 most) :
    ¬ Kept old (roundWord target tolerance j) most := by
  obtain ⟨positive, word⟩ := reachable.size
  have some : 0 < old := scalable_some reachable.scalable positive
  obtain ⟨t, here, inside, zero⟩ := roundSize_before size positive word target_word early
  rw [roundWord_size here inside]
  intro kept
  rcases Nat.eq_zero_or_pos t with rfl | later
  · exact start (zero rfl) kept
  · have other : Reachable old target most tolerance t :=
      reachable_iff.mpr ⟨later, inside, kept.scalable some later, j, by omega, here⟩
    have least := nearest t other
    rw [roundSize_distance size, roundSize_distance here] at least
    omega

/-- Where no size may be returned, one that passes the test and is not 0 comes after the end of
the 32 bits, or the source size is 0. -/
theorem wrapped_hit {k : Nat} (target_word : target < 4294967296)
    (none : ∀ s, ¬ Reachable old target most tolerance s) (bound : k ≤ tolerance.natAbs)
    (other : roundWord target tolerance k ≠ 0)
    (kept : Kept old (roundWord target tolerance k) most) (some : 0 < old) :
    ∃ j, j < k ∧ roundWord target tolerance j = 0 := by
  by_cases inside :
      0 ≤ roundSize target tolerance k ∧ roundSize target tolerance k < 4294967296
  · obtain ⟨s, size⟩ := Int.eq_ofNat_of_zero_le inside.1
    have word : s < 4294967296 := by omega
    rw [roundWord_size size word] at other kept
    have positive : 0 < s := Nat.pos_of_ne_zero other
    exact absurd (reachable_iff.mpr ⟨positive, word, kept.scalable some positive, k, bound, size⟩)
      (none s)
  · obtain ⟨j, early, zero⟩ := roundSize_wrapped target_word inside
    refine ⟨j, Nat.lt_of_le_of_ne early ?_, zero⟩
    rintro rfl
    exact other zero

theorem search_sound (target_word : target < 4294967296) (sound : Sound old target most tolerance) :
    IsNearest old target most tolerance
      (searchSize (nextSize tolerance) old most tolerance.natAbs target) := by
  have outcome := @search_first old target most tolerance tolerance.natAbs 0
  rw [roundWord_start target_word] at outcome
  by_cases any : ∃ s, Reachable old target most tolerance s
  · left
    obtain ⟨s, reachable, nearest⟩ := nearest_exists any
    obtain ⟨kept, start⟩ := sound.passes s reachable nearest
    obtain ⟨_, word, _, k, bound, size⟩ := reachable_iff.mp reachable
    have here := roundWord_size size word
    rcases outcome with ⟨j, _, _, hit, before, result⟩ | ⟨never, _⟩
    · have same : j = k := by
        rcases Nat.lt_trichotomy j k with early | same | late
        · exact absurd hit
            (passed_before target_word reachable size bound early nearest start)
        · exact same
        · rw [← here] at kept
          exact absurd kept (before k (Nat.zero_le k) late)
      rw [result, same, here]
      exact ⟨reachable, nearest⟩
    · rw [← here] at kept
      exact absurd kept (never k (Nat.zero_le k) (by omega))
  · right
    have none : ∀ s, ¬ Reachable old target most tolerance s := not_exists.mp any
    refine ⟨?_, none⟩
    rcases outcome with ⟨j, _, bound, hit, before, result⟩ | ⟨_, result⟩
    · rw [result]
      by_contra other
      rcases sound.ends none with zero | never
      · rcases Nat.eq_zero_or_pos old with rfl | some
        · exact not_kept_zero zero
        · obtain ⟨m, early, word⟩ := wrapped_hit target_word none (by omega) other hit some
          apply before m (Nat.zero_le m) early
          rw [word]
          exact zero
      · exact never j (by omega) other hit
    · exact result

theorem sound_of_search (target_word : target < 4294967296)
    (right : IsNearest old target most tolerance
      (searchSize (nextSize tolerance) old most tolerance.natAbs target)) :
    Sound old target most tolerance := by
  have outcome := @search_first old target most tolerance tolerance.natAbs 0
  rw [roundWord_start target_word] at outcome
  constructor
  · intro s reachable nearest
    rcases right with ⟨found, least⟩ | ⟨_, none⟩
    · have same := nearest_unique found reachable
        (Nat.le_antisymm (least s reachable) (nearest _ found))
      rw [same] at outcome
      have positive := reachable.size.1
      rcases outcome with ⟨j, _, _, hit, before, result⟩ | ⟨_, result⟩
      · rw [← result] at hit
        refine ⟨hit, ?_⟩
        intro zero kept
        have start : roundWord target tolerance 0 = 0 := by
          rw [roundWord_start target_word]
          exact zero
        rcases Nat.eq_zero_or_pos j with rfl | later
        · omega
        · apply before 0 (Nat.le_refl 0) later
          rw [start]
          exact kept
      · omega
    · exact absurd reachable (none s)
  · intro none
    rcases right with ⟨found, _⟩ | ⟨zero, _⟩
    · exact absurd found (none _)
    · rw [zero] at outcome
      rcases outcome with ⟨j, _, _, hit, _, result⟩ | ⟨never, _⟩
      · rw [← result] at hit
        exact .inl hit
      · exact .inr (fun k bound _ => never k (Nat.zero_le k) (by omega))

end Search

/-- The nearest of the sizes that may be returned is returned just when the conditions above
hold. -/
theorem scaling_nearest_iff (uOldSize uNewSize uMaxScalingFactor : UInt32) (nTolerance : Int32) :
    IsNearest uOldSize.toNat uNewSize.toNat uMaxScalingFactor.toNat nTolerance.toInt
        (EvaluateScalingSize uOldSize uNewSize uMaxScalingFactor nTolerance) ↔
      Sound uOldSize.toNat uNewSize.toNat uMaxScalingFactor.toNat nTolerance.toInt :=
  ⟨sound_of_search uNewSize.toNat_lt, search_sound uNewSize.toNat_lt⟩

/-- A size of 65536 is not scaled to itself: 16 bits keep nothing of the divisor. -/
theorem same_size_rejected :
    EvaluateScalingSize 65536 65536 255 0 = 0 ∧
      ¬ IsNearest 65536 65536 255 0 (EvaluateScalingSize 65536 65536 255 0) := by
  have rejected : IsScalingOK 65536 65536 255 = false := by
    unfold IsScalingOK
    rw [gcd_eq]
    decide
  have failed : EvaluateScalingSize 65536 65536 255 0 = 0 := by
    show (if IsScalingOK 65536 65536 255 = true then 65536 else 0) = 0
    rw [rejected]
    decide
  refine ⟨failed, ?_⟩
  rw [failed]
  have itself : Reachable 65536 65536 255 0 65536 := by
    refine ⟨by decide, by decide, by decide, by decide, 1, 1, ?_⟩
    decide
  rintro (⟨found, _⟩ | ⟨_, none⟩)
  · exact absurd found.size.1 (by decide)
  · exact none 65536 itself

/-- With sizes of 16 bits, as the callers have them, an enlarging search is right. -/
theorem scaling_of_words {uOldSize uNewSize uMaxScalingFactor : UInt32} {nTolerance : Int32}
    (source : 0 < uOldSize.toNat ∧ uOldSize.toNat < 65536) (target : 0 < uNewSize.toNat)
    (up : 0 ≤ nTolerance.toInt) (room : uNewSize.toNat + nTolerance.toInt < 4294967296) :
    IsNearest uOldSize.toNat uNewSize.toNat uMaxScalingFactor.toNat nTolerance.toInt
      (EvaluateScalingSize uOldSize uNewSize uMaxScalingFactor nTolerance) := by
  have small : ∀ s, uOldSize.toNat.gcd s < 65536 :=
    fun s => Nat.lt_of_le_of_lt (Nat.gcd_le_left s source.1) source.2
  apply search_sound uNewSize.toNat_lt
  constructor
  · intro s reachable _
    exact ⟨kept_of_small (small s) source.1 reachable.size.1 reachable.scalable, by omega⟩
  · intro none
    right
    intro k bound other kept
    obtain ⟨j, early, zero⟩ := wrapped_hit uNewSize.toNat_lt none bound other kept source.1
    unfold roundWord roundSize at zero
    rw [if_pos up] at zero
    omega

end Rovio.VideoPhone
