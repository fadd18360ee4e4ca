import Mathlib.Data.List.Basic
import Rovio.Kit.Effect

/-! Routines that move a cursor over a buffer, writing cells or reading them. `Writes`
and `Reads` say what a routine puts at the cursor and what it makes of what is there;
a routine is put together from parts with one rule for each. -/
namespace Kit

universe u

/-- A buffer and a position in it. -/
structure Place (β : Type u) where
  buff : Nat → β
  pos : Nat

abbrev Wire (β α : Type u) := Effect (Place β) α

variable {β : Type u} {α γ : Type u}

def store (buff : Nat → β) (pos : Nat) (xs : List β) : Nat → β := fun i =>
  if i < pos then buff i else xs[i - pos]?.getD (buff i)

/-- The cells from the position on are these. -/
def Holds (buff : Nat → β) (pos : Nat) (xs : List β) : Prop :=
  ∀ i x, xs[i]? = some x → buff (pos + i) = x

theorem holds_store (buff : Nat → β) (pos : Nat) (xs : List β) :
    Holds (store buff pos xs) pos xs := by
  intro i x here
  rw [store, if_neg (by omega), Nat.add_sub_cancel_left, here]
  rfl

/-- Cells outside of what is stored stay as they are. -/
theorem store_outside {buff : Nat → β} {pos i : Nat} {xs : List β}
    (outside : i < pos ∨ pos + xs.length ≤ i) : store buff pos xs i = buff i := by
  unfold store
  split
  · rfl
  · rw [List.getElem?_eq_none (by omega)]
    rfl

theorem store_append (buff : Nat → β) (pos : Nat) (xs ys : List β) :
    store (store buff pos xs) (pos + xs.length) ys = store buff pos (xs ++ ys) := by
  funext i
  unfold store
  rcases Nat.lt_or_ge i (pos + xs.length) with left | right
  · rw [if_pos left, List.getElem?_append]
    split
    · rfl
    · rw [if_pos (by omega)]
  · have index : i - pos - xs.length = i - (pos + xs.length) := by omega
    have past : xs[i - pos]? = none := List.getElem?_eq_none (by omega)
    rw [if_neg (by omega), if_neg (by omega), if_neg (by omega),
      List.getElem?_append_right (by omega), index, past]
    rfl

theorem holds_append {buff : Nat → β} {pos : Nat} {xs ys : List β} :
    Holds buff pos (xs ++ ys) ↔ Holds buff pos xs ∧ Holds buff (pos + xs.length) ys := by
  constructor
  · intro holds
    refine ⟨fun i x here => holds i x ?_, fun i x here => ?_⟩
    · have small : i < xs.length := (List.getElem?_eq_some_iff.mp here).1
      rwa [List.getElem?_append_left small]
    · rw [Nat.add_assoc]
      apply holds
      rwa [List.getElem?_append_right (by omega), Nat.add_sub_cancel_left]
  · rintro ⟨left, right⟩ i x here
    rcases Nat.lt_or_ge i xs.length with small | large
    · exact left i x (by rwa [List.getElem?_append_left small] at here)
    · rw [List.getElem?_append_right large] at here
      have cell := right (i - xs.length) x here
      rwa [show pos + xs.length + (i - xs.length) = pos + i by omega] at cell

/-! ### Routines -/

/-- The routine writes these cells, and nothing else, and hands on the value. -/
def Writes (m : Wire β α) (cells : List β) (a : α) : Prop :=
  ∀ buff pos, m ⟨buff, pos⟩ = some (a, ⟨store buff pos cells, pos + cells.length⟩)

/-- Where these cells stand within the first `size` ones, the routine reads them, and nothing
else, and makes the value of them. -/
def Reads (size : Nat) (m : Wire β α) (cells : List β) (a : α) : Prop :=
  ∀ buff pos, Holds buff pos cells → pos + cells.length ≤ size →
    m ⟨buff, pos⟩ = some (a, ⟨buff, pos + cells.length⟩)

theorem Writes.done (a : α) : Writes (pure a : Wire β α) [] a := by
  intro buff pos
  rw [pure_run, show store buff pos [] = buff from funext fun i => store_outside (by simp; omega)]
  rfl

theorem Reads.done (size : Nat) (a : α) : Reads size (pure a : Wire β α) [] a :=
  fun _ _ _ _ => rfl

theorem Writes.bind {m : Wire β α} {f : α → Wire β γ} {xs ys : List β} {a : α} {c : γ}
    (first : Writes m xs a) (rest : Writes (f a) ys c) : Writes (m >>= f) (xs ++ ys) c := by
  intro buff pos
  rw [bind_of_run (first buff pos), rest, store_append, List.length_append, Nat.add_assoc]

theorem Writes.last {m : Wire β α} {xs : List β} {a : α} (f : α → γ) (only : Writes m xs a) :
    Writes (m >>= fun a => pure (f a)) xs (f a) := by
  intro buff pos
  rw [bind_of_run (only buff pos)]
  rfl

theorem Reads.bind {size : Nat} {m : Wire β α} {f : α → Wire β γ} {xs ys : List β} {a : α} {c : γ}
    (first : Reads size m xs a) (rest : Reads size (f a) ys c) :
    Reads size (m >>= f) (xs ++ ys) c := by
  intro buff pos holds fits
  rw [List.length_append, ← Nat.add_assoc] at fits
  obtain ⟨left, right⟩ := holds_append.mp holds
  rw [bind_of_run (first buff pos left (by omega)), rest buff _ right fits, List.length_append,
    Nat.add_assoc]

theorem Reads.last {size : Nat} {m : Wire β α} {xs : List β} {a : α} (f : α → γ)
    (only : Reads size m xs a) : Reads size (m >>= fun a => pure (f a)) xs (f a) := by
  intro buff pos holds fits
  rw [bind_of_run (only buff pos holds fits)]
  rfl

/-- The cursor behind a part is not the one the part ends at but its start and a length. -/
def advanceBy (length : α → Nat) (m : Wire β α) : Wire β α := fun p =>
  (m p).map fun (a, p') => (a, ⟨p'.buff, p.pos + length a⟩)

theorem Writes.advanceBy {m : Wire β α} {xs : List β} {a : α} {length : α → Nat}
    (writes : Writes m xs a) (fits : length a = xs.length) :
    Writes (Kit.advanceBy length m) xs a := by
  intro buff pos
  rw [Kit.advanceBy, writes buff pos, ← fits]
  rfl

theorem Reads.advanceBy {size : Nat} {m : Wire β α} {xs : List β} {a : α} {length : α → Nat}
    (reads : Reads size m xs a) (same : length a = xs.length) :
    Reads size (Kit.advanceBy length m) xs a := by
  intro buff pos holds fits
  rw [Kit.advanceBy, reads buff pos holds fits, ← same]
  rfl

end Kit
