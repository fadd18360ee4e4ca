import Mathlib.Data.List.Nodup
import Mathlib.Logic.Function.Basic

/-! Singly linked lists in a memory of nodes, with a pointer to the first node and one to the
last. An address is a number, and `none` the null pointer. -/
namespace Kit

universe u
variable {α : Type u}

structure Linked (α : Type u) where
  value : Nat → α
  next : Nat → Option Nat
  head : Option Nat
  tail : Option Nat

/-- The nodes met from here on. -/
def Chain (next : Nat → Option Nat) : Option Nat → List Nat → Prop
  | p, [] => p = none
  | p, q :: rest => p = some q ∧ Chain next (next q) rest

namespace Linked

structure Holds (l : Linked α) (ps : List Nat) : Prop where
  chain : Chain l.next l.head ps
  last : l.tail = ps.getLast?
  once : ps.Nodup

def values (l : Linked α) (ps : List Nat) : List α := ps.map l.value

/-- A new node behind the last one. -/
def append (l : Linked α) (p : Nat) (v : α) : Linked α where
  value := Function.update l.value p v
  next := match l.tail with
    | none => Function.update l.next p none
    | some q => Function.update (Function.update l.next p none) q (some p)
  head := if l.head = none then some p else l.head
  tail := some p

variable {l : Linked α} {ps : List Nat} {p q : Nat}

/-- The last node gets a successor. -/
theorem Chain.extend {next : Nat → Option Nat} {start : Option Nat} {ps : List Nat} {q p : Nat}
    (chain : Chain next start (ps ++ [q])) (once : (ps ++ [q]).Nodup) (new : p ∉ ps ++ [q]) :
    Chain (Function.update (Function.update next p none) q (some p)) start (ps ++ [q] ++ [p]) := by
  induction ps generalizing start with
  | nil =>
    have apart : p ≠ q := by simpa using new
    refine ⟨chain.1, ?_⟩
    rw [Function.update_self]
    refine ⟨rfl, ?_⟩
    simp [Chain, apart]
  | cons r rest ih =>
    simp only [List.cons_append, List.nodup_cons, List.mem_cons, not_or] at once new
    obtain ⟨here, behind⟩ := chain
    refine ⟨here, ?_⟩
    have other : r ≠ q := by
      rintro rfl
      exact once.1 (by simp)
    rw [Function.update_of_ne other, Function.update_of_ne (Ne.symm new.1)]
    exact ih behind once.2 new.2

theorem append_holds (holds : l.Holds ps) (new : p ∉ ps) (v : α) :
    (l.append p v).Holds (ps ++ [p]) := by
  have once : (ps ++ [p]).Nodup := by
    rw [List.nodup_append]
    refine ⟨holds.once, List.nodup_singleton p, fun q mem r same => ?_⟩
    rw [List.mem_singleton.mp same]
    rintro rfl
    exact new mem
  have last : (l.append p v).tail = (ps ++ [p]).getLast? := by
    rw [List.getLast?_concat]
    rfl
  refine ⟨?_, last, once⟩
  have tail := holds.last
  rcases List.eq_nil_or_concat ps with rfl | ⟨front, q, rfl⟩
  · have head : l.head = none := holds.chain
    simp [append, Chain, head, tail]
  · rw [List.concat_eq_append] at holds new tail ⊢
    rw [List.getLast?_concat] at tail
    have head : l.head ≠ none := by
      intro none
      have chain := holds.chain
      rw [none] at chain
      cases front with
      | nil => cases chain.1
      | cons r rest => cases chain.1
    simp only [append, tail, if_neg head]
    exact Chain.extend holds.chain holds.once new

/-- The first node is taken out, as one who leaves the pointer to the last node alone does. -/
def drop (l : Linked α) (p : Nat) : Linked α := { l with head := l.next p }

/-- The pointer to the last node of an empty list is cleared. -/
def settle (l : Linked α) : Linked α := if l.head = none then { l with tail := none } else l

theorem settle_holds (chain : Chain l.next l.head ps) (last : ps ≠ [] → l.tail = ps.getLast?)
    (once : ps.Nodup) : l.settle.Holds ps := by
  unfold settle
  cases ps with
  | nil =>
    have none : l.head = none := chain
    rw [if_pos none]
    exact ⟨chain, rfl, once⟩
  | cons q rest =>
    have some : l.head ≠ none := by
      rw [chain.1]
      intro h
      cases h
    rw [if_neg some]
    exact ⟨chain, last (List.cons_ne_nil q rest), once⟩

theorem Holds.empty_iff (holds : l.Holds ps) : l.head = none ↔ l.tail = none := by
  rw [holds.last, List.getLast?_eq_none_iff]
  cases ps with
  | nil => exact iff_of_true holds.chain rfl
  | cons q rest =>
    rw [holds.chain.1]
    simp

end Linked

end Kit
