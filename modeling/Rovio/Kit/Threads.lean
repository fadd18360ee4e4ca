import Mathlib

/-! Threads as a list of places in the code. What the threads hold together is the total
of a measure of the places; a step of one thread changes it by that thread's part. -/
namespace Kit

universe u
variable {P : Type u} {f : P → Nat} {threads : List P} {i : Nat} {p q : P}

def total (f : P → Nat) (threads : List P) : Nat := (threads.map f).sum

@[simp] theorem total_nil : total f [] = 0 := rfl

@[simp] theorem total_cons : total f (p :: threads) = f p + total f threads := rfl

theorem total_set (here : threads[i]? = some p) :
    total f (threads.set i q) + f p = total f threads + f q := by
  induction threads generalizing i with
  | nil => cases here
  | cons r rest ih =>
    cases i with
    | zero =>
      obtain rfl : r = p := Option.some.inj here
      simp only [List.set_cons_zero, total_cons]
      omega
    | succ i =>
      have rest := ih here
      simp only [List.set_cons_succ, total_cons]
      omega

/-- The part of one thread. -/
theorem part_le_total (here : threads[i]? = some p) : f p ≤ total f threads := by
  induction threads generalizing i with
  | nil => cases here
  | cons r rest ih =>
    cases i with
    | zero =>
      obtain rfl : r = p := Option.some.inj here
      exact Nat.le_add_right _ _
    | succ i => exact Nat.le_add_left_of_le (ih here)

theorem total_replicate (n : Nat) : total f (List.replicate n p) = n * f p := by
  simp [total]

/-- Where every thread starts at a place that holds nothing. -/
theorem total_idle (n : Nat) (holds : f p = 0) : total f (List.replicate n p) = 0 := by
  rw [total_replicate, holds, Nat.mul_zero]

theorem total_map {Q : Type u} {g : Q → P} {threads : List Q} :
    total f (threads.map g) = total (fun q => f (g q)) threads := by
  simp [total, Function.comp_def]

theorem total_congr {g : P → Nat} (same : ∀ p ∈ threads, f p = g p) :
    total f threads = total g threads := by
  unfold total
  rw [List.map_congr_left same]

theorem total_eq_zero : total f threads = 0 ↔ ∀ p ∈ threads, f p = 0 := by
  simp [total, List.sum_eq_zero_iff]

/-- A property of every place survives a step of one thread to a place that has it. -/
theorem forall_set {K : P → Prop} (all : ∀ p ∈ threads, K p) (here : K q) :
    ∀ p ∈ threads.set i q, K p := by
  intro p hp
  rcases List.mem_or_eq_of_mem_set hp with hp | rfl
  · exact all p hp
  · exact here

end Kit
