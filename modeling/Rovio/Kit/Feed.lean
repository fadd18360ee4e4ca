import Mathlib.Data.List.Basic

/-! Machines that are fed item by item and may stop. -/
namespace Kit

universe u v
variable {S : Type u} {A : Type v} {step : S → A → S × Bool} {s t : S} {l r : List A}

/-- The state in the end, and whether the machine would take more. -/
def feed (step : S → A → S × Bool) : S → List A → S × Bool
  | s, [] => (s, true)
  | s, a :: rest => if (step s a).2 then feed step (step s a).1 rest else step s a

/-- Fed in two parts, a machine does what it does with the whole. -/
theorem feed_append (s : S) (l r : List A) : feed step s (l ++ r) =
    if (feed step s l).2 then feed step (feed step s l).1 r else feed step s l := by
  induction l generalizing s with
  | nil => rfl
  | cons a rest ih =>
    rw [List.cons_append, feed, feed]
    split
    · exact ih _
    · rfl

theorem feed_more (more : feed step s l = (t, true)) :
    feed step s (l ++ r) = feed step t r := by
  rw [feed_append, more, if_pos rfl]

theorem feed_stopped (stopped : feed step s l = (t, false)) :
    feed step s (l ++ r) = (t, false) := by
  rw [feed_append, stopped, if_neg Bool.false_ne_true]

end Kit
