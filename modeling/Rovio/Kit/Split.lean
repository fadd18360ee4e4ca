import Mathlib.Data.List.Infix
import Mathlib.Data.List.Basic

/-! Splitting a list at every occurrence of a separator, scanned from the left.
A found separator is skipped, so the pieces joined again give the list, and no
piece contains the separator. -/
namespace Kit

universe u
variable {α : Type u}

def consHead (a : α) : List (List α) → List (List α)
  | [] => [[a]]
  | piece :: pieces => (a :: piece) :: pieces

theorem consHead_head (a : α) (piece : List α) (pieces : List (List α)) :
    consHead a (piece :: pieces) = (a :: piece) :: pieces := rfl

theorem intercalate_consHead (sep : List α) (a : α) {pieces : List (List α)} (some : pieces ≠ []) :
    sep.intercalate (consHead a pieces) = a :: sep.intercalate pieces := by
  cases pieces with
  | nil => exact absurd rfl some
  | cons piece rest =>
    cases rest with
    | nil => simp [consHead]
    | cons next more => simp [consHead, List.intercalate_cons_cons]

/-- A text without `a` occurs on one side of an `a` or on the other. -/
theorem infix_append_cons {d v w : List α} {a : α} (without : a ∉ d) (inside : d <:+: v ++ a :: w) :
    d <:+: v ∨ d <:+: w := by
  obtain ⟨x, y, whole⟩ := inside
  rw [List.append_assoc] at whole
  rcases List.append_eq_append_iff.mp whole with ⟨mid, rfl, rest⟩ | ⟨mid, rfl, rest⟩
  · rcases List.append_eq_append_iff.mp rest with ⟨more, rfl, _⟩ | ⟨more, rfl, tail⟩
    · exact .inl ⟨x, more, by simp⟩
    · cases more with
      | nil => exact .inl ⟨x, [], by simp⟩
      | cons b more =>
        cases tail
        exact absurd (by simp) without
  · cases mid with
    | nil =>
      cases d with
      | nil => exact .inl List.nil_infix
      | cons b d =>
        cases rest
        exact absurd (by simp) without
    | cons b mid =>
      cases rest
      exact .inr ⟨mid, y, by simp⟩

theorem snoc_suffix_snoc {x p : List α} {a b : α} :
    x ++ [a] <:+ p ++ [b] ↔ a = b ∧ x <:+ p := by
  rw [← List.reverse_prefix, ← @List.reverse_prefix _ x]
  simp [List.cons_prefix_cons]

variable [DecidableEq α]

/-- The pieces of the list behind its first `skip` elements. -/
def splitGo (sep : List α) : Nat → List α → List (List α)
  | _, [] => [[]]
  | skip + 1, _ :: rest => splitGo sep skip rest
  | 0, a :: rest =>
    if sep.isPrefixOf (a :: rest) then [] :: splitGo sep (sep.length - 1) rest
    else consHead a (splitGo sep 0 rest)

def splitList (sep l : List α) : List (List α) := splitGo sep 0 l

theorem splitGo_ne_nil (sep : List α) (skip : Nat) (l : List α) : splitGo sep skip l ≠ [] := by
  induction l generalizing skip with
  | nil => simp [splitGo]
  | cons a rest ih =>
    cases skip with
    | succ skip => exact ih skip
    | zero =>
      unfold splitGo
      split
      · simp
      · cases splitGo sep 0 rest <;> simp [consHead]

theorem intercalate_splitGo {sep : List α} (sepSome : sep ≠ []) (skip : Nat) (l : List α) :
    sep.intercalate (splitGo sep skip l) = l.drop skip := by
  induction l generalizing skip with
  | nil => simp [splitGo]
  | cons a rest ih =>
    cases skip with
    | succ skip => exact ih skip
    | zero =>
      unfold splitGo
      split
      · rename_i found
        obtain ⟨tail, whole⟩ := List.isPrefixOf_iff_prefix.mp found
        obtain ⟨b, sepTail, rfl⟩ := List.exists_cons_of_ne_nil sepSome
        obtain ⟨piece, more, pieces⟩ := List.exists_cons_of_ne_nil
          (splitGo_ne_nil (b :: sepTail) ((b :: sepTail).length - 1) rest)
        have joined := ih ((b :: sepTail).length - 1)
        rw [pieces] at joined ⊢
        rw [List.intercalate_cons_cons, joined, List.nil_append, List.drop_zero, ← whole]
        simp only [List.cons_append, List.cons.injEq] at whole
        simp [← whole.2]
      · rw [intercalate_consHead sep a (splitGo_ne_nil sep 0 rest), ih 0]
        rfl

/-- The pieces of a list, joined by the separator, give the list. -/
theorem intercalate_splitList {sep : List α} (sepSome : sep ≠ []) (l : List α) :
    sep.intercalate (splitList sep l) = l :=
  intercalate_splitGo sepSome 0 l

theorem splitGo_head_prefix (sep : List α) (l : List α) :
    ∃ piece pieces, splitGo sep 0 l = piece :: pieces ∧ piece <+: l := by
  induction l with
  | nil => exact ⟨[], [], rfl, List.nil_prefix⟩
  | cons a rest ih =>
    obtain ⟨piece, pieces, split, front⟩ := ih
    unfold splitGo
    split
    · exact ⟨[], _, rfl, List.nil_prefix⟩
    · rw [split]
      exact ⟨a :: piece, pieces, rfl, List.cons_prefix_cons.mpr ⟨rfl, front⟩⟩

theorem splitGo_clean {sep : List α} (sepSome : sep ≠ []) (skip : Nat) (l : List α) :
    ∀ piece ∈ splitGo sep skip l, ¬ sep <:+: piece := by
  induction l generalizing skip with
  | nil =>
    intro piece mem
    rw [splitGo, List.mem_singleton] at mem
    rw [mem, List.infix_nil]
    exact sepSome
  | cons a rest ih =>
    cases skip with
    | succ skip => exact ih skip
    | zero =>
      intro piece mem
      unfold splitGo at mem
      split at mem
      · rcases List.mem_cons.mp mem with rfl | mem
        · rw [List.infix_nil]
          exact sepSome
        · exact ih _ piece mem
      · rename_i notHere
        obtain ⟨head, pieces, split, front⟩ := splitGo_head_prefix sep rest
        rw [split, consHead_head] at mem
        rcases List.mem_cons.mp mem with rfl | mem
        · rintro inside
          rcases List.infix_cons_iff.mp inside with here | later
          · have whole : a :: head <+: a :: rest := List.cons_prefix_cons.mpr ⟨rfl, front⟩
            exact notHere (List.isPrefixOf_iff_prefix.mpr (here.trans whole))
          · exact ih 0 head (split ▸ List.mem_cons_self) later
        · exact ih 0 piece (split ▸ List.mem_cons_of_mem _ mem)

theorem splitList_clean {sep : List α} (sepSome : sep ≠ []) (l : List α) :
    ∀ piece ∈ splitList sep l, ¬ sep <:+: piece :=
  splitGo_clean sepSome 0 l

end Kit
