import Mathlib.Algebra.GroupWithZero.Nat
import Mathlib.Data.List.Basic

/-! A transfer cut into calls, up to the first call that fails. What holds of the calls made so far
and when a call succeeds is found call by call; then it holds of the transfer, however it is cut. -/
namespace Kit

universe u v
variable {S : Type u} {A : Type v}

def calls (call : S → A → Bool × S) : S → List A → Bool × S
  | s, [] => (true, s)
  | s, a :: as => if (call s a).1 = true then calls call (call s a).2 as else call s a

/-- A call moves `size a` units, those at which `free` says so, and `Holds` speaks of the calls that
have been made. -/
def Transfers (call : S → A → Bool × S) (size : A → Nat) (free : Nat → Prop) (total : Nat)
    (Holds : S → List A → Prop) : Prop :=
  ∀ s done a, Holds s done → (done.map size).sum + size a ≤ total →
    ((call s a).1 = true ↔
      ∀ j, (done.map size).sum ≤ j → j < (done.map size).sum + size a → free j) ∧
    ((call s a).1 = true → Holds (call s a).2 (done ++ [a]))

theorem calls_spec {call : S → A → Bool × S} {size : A → Nat} {free : Nat → Prop} {total : Nat}
    {Holds : S → List A → Prop} (transfers : Transfers call size free total Holds) (as : List A)
    {s : S} {done : List A} (before : Holds s done)
    (fits : (done.map size).sum + (as.map size).sum ≤ total) :
    ((calls call s as).1 = true ↔
      ∀ j, (done.map size).sum ≤ j → j < (done.map size).sum + (as.map size).sum → free j) ∧
    ((calls call s as).1 = true → Holds (calls call s as).2 (done ++ as)) := by
  induction as generalizing s done with
  | nil =>
    rw [List.append_nil]
    exact ⟨⟨fun _ j low high => absurd high (Nat.not_lt.mpr low), fun _ => rfl⟩, fun _ => before⟩
  | cons a as ih =>
    rw [List.map_cons, List.sum_cons] at fits ⊢
    obtain ⟨success, after⟩ := transfers s done a before (by omega)
    have sum : ((done ++ [a]).map size).sum = (done.map size).sum + size a := by
      rw [List.map_append, List.sum_append, List.map_singleton, List.sum_singleton]
    unfold calls
    split
    · rename_i ok
      obtain ⟨rest, holds⟩ := ih (after ok) (by rw [sum]; omega)
      rw [sum] at rest
      rw [List.append_assoc] at holds
      refine ⟨rest.trans ⟨fun later j low high => ?_, fun all j low high => ?_⟩, holds⟩
      · rcases Nat.lt_or_ge j ((done.map size).sum + size a) with first | second
        · exact success.mp ok j low first
        · exact later j second (by omega)
      · exact all j (by omega) (by omega)
    · rename_i failed
      refine ⟨⟨fun ok => absurd ok failed, fun all => absurd (success.mpr ?_) failed⟩,
        fun ok => absurd ok failed⟩
      intro j low high
      exact all j low (by omega)

/-- The calls of a whole transfer. -/
theorem calls_whole {call : S → A → Bool × S} {size : A → Nat} {free : Nat → Prop} {total : Nat}
    {Holds : S → List A → Prop} (transfers : Transfers call size free total Holds) (as : List A)
    {s : S} (start : Holds s []) (fits : (as.map size).sum ≤ total) :
    ((calls call s as).1 = true ↔ ∀ j < (as.map size).sum, free j) ∧
    ((calls call s as).1 = true → Holds (calls call s as).2 as) := by
  obtain ⟨success, holds⟩ := calls_spec transfers as start (by
    rw [List.map_nil, List.sum_nil, Nat.zero_add]
    exact fits)
  rw [List.map_nil, List.sum_nil, Nat.zero_add] at success
  exact ⟨success.trans ⟨fun all j high => all j (Nat.zero_le j) high,
    fun all j _ high => all j high⟩, holds⟩

end Kit
