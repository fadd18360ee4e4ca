import Mathlib.Data.List.Basic

/-! A log of writes to cells. What counts for a cell is the last write to it. -/
namespace Kit

universe u v
variable {K : Type u} {V : Type v} [DecidableEq K]

def lastWrite (k : K) (log : List (K × V)) : Option V :=
  ((log.filter fun write => write.1 = k).getLast?).map Prod.snd

theorem lastWrite_append (k k' : K) (v : V) (log : List (K × V)) :
    lastWrite k (log ++ [(k', v)]) = if k' = k then some v else lastWrite k log := by
  by_cases same : k' = k <;> simp [lastWrite, same]

@[simp] theorem lastWrite_self (k : K) (v : V) (log : List (K × V)) :
    lastWrite k (log ++ [(k, v)]) = some v := by
  rw [lastWrite_append, if_pos rfl]

theorem lastWrite_other {k k' : K} (other : k' ≠ k) (v : V) (log : List (K × V)) :
    lastWrite k (log ++ [(k', v)]) = lastWrite k log := by
  rw [lastWrite_append, if_neg other]

end Kit
