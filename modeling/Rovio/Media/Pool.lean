import Mathlib

/-! A memory pool: the list of free blocks behind its header, and a reference count in each
block. -/
namespace Rovio.Media

structure Pool where
  free : List Nat
  ref_count : Nat → Nat

def initMemoryPool (count : Nat) : Pool := ⟨List.range count, fun _ => 0⟩

def Pool.new (pool : Pool) : Option (Nat × Pool) :=
  match pool.free with
  | [] => none
  | b :: free => some (b, ⟨free, Function.update pool.ref_count b 1⟩)

/-- A reference to a free block stops the program. -/
def Pool.decRef (pool : Pool) (b : Nat) : Option Pool :=
  match pool.ref_count b with
  | 0 => none
  | n + 1 => some ⟨if n = 0 then pool.free ++ [b] else pool.free,
    Function.update pool.ref_count b n⟩

def Pool.addRef (pool : Pool) (b : Nat) : Pool :=
  { pool with ref_count := Function.update pool.ref_count b (pool.ref_count b + 1) }

variable {pool pool' : Pool} {b c : Nat}

/-- Each of the pool's blocks is in one place, the free list among them, and has as many references
as its holders say: none just where it is in no other place. -/
structure Pool.Counts (pool : Pool) (count : Nat) (places refs : Nat → Nat) : Prop where
  counted : ∀ b, pool.ref_count b = refs b
  once : ∀ b, pool.free.count b + places b = if b < count then 1 else 0
  both : ∀ b, refs b = 0 ↔ places b = 0

theorem counts_init (count : Nat) :
    (initMemoryPool count).Counts count (fun _ => 0) (fun _ => 0) where
  counted := fun _ => rfl
  once := fun b => by
    change (List.range count).count b + 0 = _
    rw [Nat.add_zero, List.nodup_range.count]
    simp only [List.mem_range]
  both := fun _ => Iff.rfl

theorem new_eq_some : pool.new = some (b, pool') ↔
    pool.free = b :: pool'.free ∧ pool'.ref_count = Function.update pool.ref_count b 1 := by
  unfold Pool.new
  obtain ⟨free', ref_count'⟩ := pool'
  cases pool.free with
  | nil => simp
  | cons c free =>
    simp only [Option.some.injEq, Prod.mk.injEq, Pool.mk.injEq, List.cons.injEq]
    constructor
    · rintro ⟨rfl, rfl, rfl⟩
      exact ⟨⟨rfl, rfl⟩, rfl⟩
    · rintro ⟨⟨rfl, rfl⟩, rfl⟩
      exact ⟨rfl, rfl, rfl⟩

theorem new_eq_none : pool.new = none ↔ pool.free = [] := by
  unfold Pool.new
  cases pool.free <;> simp

section
variable {count : Nat} {places refs places' refs' : Nat → Nat}

theorem Pool.Counts.le_one (counts : pool.Counts count places refs) (b : Nat) :
    pool.free.count b + places b ≤ 1 := by
  rw [counts.once b]
  split
  · exact Nat.le_refl 1
  · exact Nat.zero_le 1

theorem Pool.Counts.new (counts : pool.Counts count places refs)
    (taken : pool.new = some (b, pool')) (place : places' b = places b + 1)
    (ref : refs' b = refs b + 1)
    (others : ∀ c, c ≠ b → places' c = places c ∧ refs' c = refs c) :
    pool'.Counts count places' refs' := by
  obtain ⟨free, ref_count⟩ := new_eq_some.mp taken
  have shorter : pool.free.count b = pool'.free.count b + 1 := by
    rw [free, List.count_cons_self]
  have unheld : refs b = 0 := by
    have bound := counts.le_one b
    apply (counts.both b).mpr
    omega
  constructor
  · intro c
    rw [ref_count]
    rcases eq_or_ne c b with rfl | other
    · rw [Function.update_self, ref, unheld]
    · rw [Function.update_of_ne other, counts.counted, (others c other).2]
  · intro c
    rw [← counts.once c]
    rcases eq_or_ne c b with rfl | other
    · omega
    · rw [free, List.count_cons_of_ne other.symm, (others c other).1]
  · intro c
    rcases eq_or_ne c b with rfl | other
    · omega
    · rw [(others c other).1, (others c other).2]
      exact counts.both c

/-- The last reference goes, and the block with it. -/
theorem Pool.Counts.decRef (counts : pool.Counts count places refs) (ref : refs b = 1)
    (place : places b = places' b + 1) (ref' : refs' b = 0)
    (others : ∀ c, c ≠ b → places' c = places c ∧ refs' c = refs c) :
    ∃ pool', pool.decRef b = some pool' ∧ pool'.free = pool.free ++ [b] ∧
      pool'.Counts count places' refs' := by
  have one : pool.ref_count b = 0 + 1 := (counts.counted b).trans ref
  have bound := counts.le_one b
  refine ⟨⟨pool.free ++ [b], Function.update pool.ref_count b 0⟩, ?_, rfl, ?_, ?_, ?_⟩
  · simp only [Pool.decRef, one, if_true]
  · intro c
    change Function.update pool.ref_count b 0 c = refs' c
    rcases eq_or_ne c b with rfl | other
    · rw [Function.update_self, ref']
    · rw [Function.update_of_ne other, counts.counted, (others c other).2]
  · intro c
    change (pool.free ++ [b]).count c + places' c = _
    rw [← counts.once c, List.count_append]
    rcases eq_or_ne c b with rfl | other
    · rw [List.count_singleton_self]
      omega
    · rw [(others c other).1, List.count_singleton]
      simp only [beq_iff_eq, other.symm, if_false]
      rfl
  · intro c
    rcases eq_or_ne c b with rfl | other
    · omega
    · rw [(others c other).1, (others c other).2]
      exact counts.both c

theorem Pool.Counts.addRef (counts : pool.Counts count places refs) (held : refs b ≠ 0)
    (ref : refs' b = refs b + 1) (others : ∀ c, c ≠ b → refs' c = refs c) :
    (pool.addRef b).Counts count places refs' where
  counted := by
    intro c
    change Function.update pool.ref_count b (pool.ref_count b + 1) c = refs' c
    rcases eq_or_ne c b with rfl | other
    · rw [Function.update_self, ref, counts.counted c]
    · rw [Function.update_of_ne other, counts.counted c, others c other]
  once := counts.once
  both := by
    intro c
    rw [← counts.both c]
    rcases eq_or_ne c b with rfl | other
    · omega
    · rw [others c other]

theorem Pool.Counts.decRef_held (counts : pool.Counts count places refs)
    (ref : refs b = refs' b + 1) (held : refs' b ≠ 0) (others : ∀ c, c ≠ b → refs' c = refs c) :
    ∃ pool', pool.decRef b = some pool' ∧ pool'.Counts count places refs' := by
  have more : pool.ref_count b = refs' b + 1 := (counts.counted b).trans ref
  refine ⟨⟨pool.free, Function.update pool.ref_count b (refs' b)⟩, ?_, ?_, counts.once, ?_⟩
  · simp only [Pool.decRef, more, held, if_false]
  · intro c
    change Function.update pool.ref_count b (refs' b) c = refs' c
    rcases eq_or_ne c b with rfl | other
    · rw [Function.update_self]
    · rw [Function.update_of_ne other, counts.counted c, others c other]
  · intro c
    rw [← counts.both c]
    rcases eq_or_ne c b with rfl | other
    · omega
    · rw [others c other]

end

end Rovio.Media
