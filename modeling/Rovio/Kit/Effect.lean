import Mathlib.Logic.Basic

/-! Programs over a state that may also stop for good, as a stateful function
into an optional result. A guarded program is the program where a condition on
the state it starts from is met, and stops elsewhere: what holds of the guarded
program holds of the runs whose steps all meet the condition. -/
namespace Kit

universe u
variable {σ α β : Type u}

abbrev Effect (σ α : Type u) := StateT σ Option α

theorem bind_run (x : Effect σ α) (f : α → Effect σ β) (s : σ) :
    (x >>= f) s = (x s).bind fun r => f r.1 r.2 := rfl

theorem bind_of_run {x : Effect σ α} {s s' : σ} {a : α} (h : x s = some (a, s'))
    (f : α → Effect σ β) : (x >>= f) s = f a s' := by
  rw [bind_run, h]
  rfl

theorem bind_some {x : Effect σ α} {f : α → Effect σ β} {s : σ} {r : β × σ} :
    (x >>= f) s = some r ↔ ∃ a s', x s = some (a, s') ∧ f a s' = some r := by
  rw [bind_run, Option.bind_eq_some_iff]
  constructor
  · rintro ⟨⟨a, s'⟩, first, rest⟩
    exact ⟨a, s', first, rest⟩
  · rintro ⟨a, s', first, rest⟩
    exact ⟨(a, s'), first, rest⟩

theorem pure_run (a : α) (s : σ) : (pure a : Effect σ α) s = some (a, s) := rfl

theorem ite_run (c : Prop) [Decidable c] (x y : Effect σ α) (s : σ) :
    (if c then x else y) s = if c then x s else y s := by
  split <;> rfl

open Classical in
noncomputable def guarded (ok : σ → Prop) (x : Effect σ α) : Effect σ α :=
  fun s => if ok s then x s else none

end Kit
