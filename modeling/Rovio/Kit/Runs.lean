import Mathlib.Logic.Basic
import Mathlib.Data.List.Basic

/-! Labelled runs of a transition relation. A step may be refused or may have
several outcomes, so the relation is the primary notion; a total function is
used through its graph. Every prefix of a run is a run, hence a statement about
the end of every run is a statement about every state reached. -/
namespace Kit

universe u v
variable {S : Type u} {I : Type v}

/-- From `s` the inputs, taken in order, can lead to `t`. -/
inductive Run (R : S → I → S → Prop) : S → List I → S → Prop where
  | nil (s : S) : Run R s [] s
  | cons {s r t : S} {i : I} {is : List I} : R s i r → Run R r is t → Run R s (i :: is) t

/-- The steps of `R` taken where the condition holds of the state before and the input. -/
def Guarded (ok : S → I → Prop) (R : S → I → S → Prop) (s : S) (i : I) (t : S) : Prop :=
  ok s i ∧ R s i t

/-- The graph of a total step function. -/
def graph (f : S → I → S) (s : S) (i : I) (t : S) : Prop := t = f s i

namespace Run

variable {R R' : S → I → S → Prop}

theorem invariant (Inv : S → Prop) (keeps : ∀ s i t, Inv s → R s i t → Inv t)
    {s t : S} {is : List I} (run : Run R s is t) (init : Inv s) : Inv t := by
  induction run with
  | nil => exact init
  | cons step _ ih => exact ih (keeps _ _ _ init step)

theorem mono (sub : ∀ s i t, R s i t → R' s i t) {s t : S} {is : List I}
    (run : Run R s is t) : Run R' s is t := by
  induction run with
  | nil => exact .nil _
  | cons step _ ih => exact .cons (sub _ _ _ step) ih

/-- A reflexive and transitive relation kept by each step relates both ends of a run. The
invariant is what the steps may assume. -/
theorem relates (Inv : S → Prop) (T : S → S → Prop) (refl : ∀ s, T s s)
    (trans : ∀ a b c, T a b → T b c → T a c)
    (keeps : ∀ s i t, Inv s → R s i t → Inv t)
    (step : ∀ s i t, Inv s → R s i t → T s t)
    {s t : S} {is : List I} (run : Run R s is t) (init : Inv s) : T s t := by
  induction run with
  | nil => exact refl _
  | cons h _ ih => exact trans _ _ _ (step _ _ _ init h) (ih (keeps _ _ _ init h))

theorem append {s r t : S} {is js : List I} (left : Run R s is r) (right : Run R r js t) :
    Run R s (is ++ js) t := by
  induction left with
  | nil => exact right
  | cons step _ ih => exact .cons step (ih right)

/-- A run over a concatenation passes through a state between the two parts. -/
theorem split {s t : S} {is js : List I} (run : Run R s (is ++ js) t) :
    ∃ r, Run R s is r ∧ Run R r js t := by
  induction is generalizing s with
  | nil => exact ⟨s, .nil s, run⟩
  | cons i is ih =>
    cases run with
    | cons step rest =>
      obtain ⟨r, left, right⟩ := ih rest
      exact ⟨r, .cons step left, right⟩

/-- The fold of a partial step function is a run. -/
theorem of_foldlM {f : S → I → Option S} (sound : ∀ s i t, f s i = some t → R s i t)
    {s t : S} {is : List I} (fold : is.foldlM f s = some t) : Run R s is t := by
  induction is generalizing s with
  | nil =>
    cases fold
    exact .nil _
  | cons i is ih =>
    rw [List.foldlM_cons] at fold
    cases step : f s i with
    | none =>
      rw [step] at fold
      cases fold
    | some r =>
      rw [step] at fold
      exact .cons (sound s i r step) (ih fold)

theorem of_guarded_foldlM {f : S → I → Option S} {ok : S → I → Prop} [∀ s i, Decidable (ok s i)]
    {s t : S} {is : List I}
    (fold : is.foldlM (fun s i => if ok s i then f s i else none) s = some t) :
    Run (Guarded ok fun s i t => f s i = some t) s is t :=
  of_foldlM (fun _ _ _ => Option.ite_none_right_eq_some.mp) fold

end Run

end Kit
