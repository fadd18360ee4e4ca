import Mathlib.Data.List.Sort

/-! A list that is cut at places. -/
namespace Kit

variable {α : Type}

/-- The part of a list from one place to another. -/
def slice (whole : List α) (a b : Nat) : List α := (whole.take b).drop a

/-- The parts of a list between the place `a` and the places that follow. -/
def cutAt (whole : List α) : Nat → List Nat → List (List α)
  | _, [] => []
  | a, q :: qs => slice whole a q :: cutAt whole q qs

theorem slice_length {whole : List α} {a b : Nat} (inside : b ≤ whole.length) :
    (slice whole a b).length = b - a := by
  unfold slice
  rw [List.length_drop, List.length_take, Nat.min_eq_left inside]

/-- What is cut off at the end comes last. -/
theorem cutAt_concat (whole : List α) (a : Nat) (qs : List Nat) (q : Nat) :
    cutAt whole a (qs ++ [q]) = cutAt whole a qs ++ [slice whole (qs.getLastD a) q] := by
  induction qs generalizing a with
  | nil => rfl
  | cons p ps ih =>
    rw [List.cons_append, cutAt, ih, List.getLastD_cons]
    rfl

/-- The parts tell the places. -/
theorem cutAt_inj {whole : List α} {a : Nat} {qs ps : List Nat}
    (rising : (a :: qs).Pairwise (· < ·)) (rising' : (a :: ps).Pairwise (· < ·))
    (inside : ∀ q ∈ qs, q ≤ whole.length) (inside' : ∀ p ∈ ps, p ≤ whole.length)
    (same : cutAt whole a qs = cutAt whole a ps) : qs = ps := by
  induction qs generalizing a ps with
  | nil =>
    cases ps with
    | nil => rfl
    | cons p ps => cases same
  | cons q qs ih =>
    cases ps with
    | nil => cases same
    | cons p ps =>
      obtain ⟨first, others⟩ := List.cons.inj same
      obtain ⟨above, rest⟩ := List.pairwise_cons.mp rising
      obtain ⟨above', rest'⟩ := List.pairwise_cons.mp rising'
      obtain ⟨here, later⟩ := List.forall_mem_cons.mp inside
      obtain ⟨here', later'⟩ := List.forall_mem_cons.mp inside'
      have lengths := congrArg List.length first
      rw [slice_length here, slice_length here'] at lengths
      have less := above q List.mem_cons_self
      have less' := above' p List.mem_cons_self
      have head : q = p := by omega
      cases head
      rw [ih rest rest' later later' others]

/-- Blocks of one size are the parts of the list that they are the beginning of. -/
theorem blocks_eq_slices {blocks : List (List α)} {n : Nat} (rest : List α)
    (size : ∀ b ∈ blocks, b.length = n) :
    blocks = (List.range blocks.length).map fun k =>
      slice (blocks.flatten ++ rest) (k * n) ((k + 1) * n) := by
  induction blocks with
  | nil => rfl
  | cons b blocks ih =>
    obtain ⟨first, others⟩ := List.forall_mem_cons.mp size
    have shifted : ∀ k, slice ((b :: blocks).flatten ++ rest) ((k + 1) * n) ((k + 1 + 1) * n) =
        slice (blocks.flatten ++ rest) (k * n) ((k + 1) * n) := by
      intro k
      unfold slice
      rw [List.flatten_cons, List.append_assoc, Nat.add_mul (k + 1), Nat.add_mul k, Nat.one_mul,
        List.drop_take, List.drop_take, Nat.add_sub_cancel_left, Nat.add_sub_cancel_left,
        Nat.add_comm (k * n), ← List.drop_drop, ← first, List.drop_left]
    rw [List.length_cons, List.range_succ_eq_map, List.map_cons, List.map_map]
    refine List.cons_eq_cons.mpr ⟨?_, ?_⟩
    · unfold slice
      rw [Nat.zero_mul, List.drop_zero, Nat.zero_add, Nat.one_mul, List.flatten_cons,
        List.append_assoc, ← first, List.take_left]
    · exact (ih others).trans (List.map_congr_left fun k _ => (shifted k).symm)

end Kit
