import Mathlib.Data.List.Basic

/-! Operations issued one after the other to a device that reports an outcome for
each. The report may depend on how many operations went before. A driver that
minds the reports stops behind the first failure; one that ignores them goes on
to the end. -/
namespace Kit

universe u v
variable {Op : Type u} {Out : Type v}

structure Event (Op : Type u) (Out : Type v) where
  op : Op
  out : Out

/-- The events of a driver that ignores every report, from the n-th operation on. -/
def attempts (report : Nat → Op → Out) (n : Nat) : List Op → List (Event Op Out)
  | [] => []
  | op :: ops => ⟨op, report n op⟩ :: attempts report (n + 1) ops

/-- What is left of the events when the driver stops behind the first failure. -/
def upToFailure (ok : Out → Bool) : List (Event Op Out) → List (Event Op Out)
  | [] => []
  | e :: es => if ok e.out then e :: upToFailure ok es else [e]

variable (report : Nat → Op → Out) (n : Nat) {ok : Out → Bool}

@[simp] theorem attempts_nil : attempts report n [] = [] := rfl

@[simp] theorem length_attempts (ops : List Op) : (attempts report n ops).length = ops.length := by
  induction ops generalizing n with
  | nil => rfl
  | cons op ops ih => simp [attempts, ih]

theorem attempts_append (xs ys : List Op) :
    attempts report n (xs ++ ys) = attempts report n xs ++ attempts report (n + xs.length) ys := by
  induction xs generalizing n with
  | nil => rfl
  | cons op xs ih =>
    simp only [List.cons_append, attempts, ih, List.length_cons]
    rw [Nat.add_assoc, Nat.add_comm 1]

theorem map_op_attempts (ops : List Op) : (attempts report n ops).map Event.op = ops := by
  induction ops generalizing n with
  | nil => rfl
  | cons op ops ih => simp [attempts, ih]

theorem getElem?_attempts (ops : List Op) (i : Nat) :
    (attempts report n ops)[i]? = ops[i]?.map fun op => ⟨op, report (n + i) op⟩ := by
  induction ops generalizing n i with
  | nil => rfl
  | cons op ops ih =>
    cases i with
    | zero => rfl
    | succ i =>
      simp only [attempts, List.getElem?_cons_succ, ih]
      rw [Nat.add_assoc, Nat.add_comm 1]

variable {report n} in
theorem mem_attempts {ops : List Op} {e : Event Op Out} (mem : e ∈ attempts report n ops) :
    e.op ∈ ops := by
  rw [← map_op_attempts report n ops]
  exact List.mem_map_of_mem mem

theorem upToFailure_front (es : List (Event Op Out)) : upToFailure ok es <+: es := by
  induction es with
  | nil => exact List.prefix_refl _
  | cons e es ih =>
    unfold upToFailure
    split
    · exact (List.prefix_cons_inj e).mpr ih
    · exact ⟨es, rfl⟩

theorem mem_upToFailure {es : List (Event Op Out)} {e : Event Op Out}
    (mem : e ∈ upToFailure ok es) : e ∈ es :=
  (upToFailure_front es).subset mem

theorem upToFailure_of_ok {es : List (Event Op Out)} (fine : ∀ e ∈ es, ok e.out) :
    upToFailure ok es = es := by
  induction es with
  | nil => rfl
  | cons e es ih =>
    have head := fine e (by simp)
    have tail := ih fun x hx => fine x (by simp [hx])
    rw [upToFailure, if_pos head, tail]

theorem upToFailure_failed {es : List (Event Op Out)} (bad : ∃ e ∈ es, ¬ ok e.out) :
    ∃ e ∈ upToFailure ok es, ¬ ok e.out := by
  obtain ⟨x, mem, failed⟩ := bad
  induction es with
  | nil => cases mem
  | cons e es ih =>
    unfold upToFailure
    split
    · rename_i head
      rcases List.mem_cons.mp mem with rfl | later
      · exact absurd head failed
      · obtain ⟨y, hy, fy⟩ := ih later
        exact ⟨y, by simp [hy], fy⟩
    · rename_i head
      exact ⟨e, by simp, head⟩

/-! ### Scripts

A script marks the operations whose failure the driver minds. -/

structure Step (Op : Type u) where
  op : Op
  must : Bool

/-- The first operation of the script that the driver minds and that fails. -/
def firstFailure (report : Nat → Op → Out) (ok : Out → Bool) (n : Nat) : List (Step Op) → Option Nat
  | [] => none
  | st :: sts =>
    if st.must && !ok (report n st.op) then some 0
    else (firstFailure report ok (n + 1) sts).map (· + 1)

variable {report n}

theorem firstFailure_append (xs ys : List (Step Op)) :
    firstFailure report ok n (xs ++ ys) =
      match firstFailure report ok n xs with
      | some i => some i
      | none => (firstFailure report ok (n + xs.length) ys).map (· + xs.length) := by
  induction xs generalizing n with
  | nil => simp [firstFailure]
  | cons st xs ih =>
    rw [List.cons_append, firstFailure, firstFailure]
    split
    · rfl
    · rw [ih, List.length_cons, Nat.add_assoc n, Nat.add_comm 1]
      cases firstFailure report ok (n + 1) xs with
      | some i => rfl
      | none =>
        cases firstFailure report ok (n + (xs.length + 1)) ys with
        | none => rfl
        | some j => simp [Nat.add_assoc]

theorem firstFailure_may {sts : List (Step Op)} (free : ∀ st ∈ sts, st.must = false) :
    firstFailure report ok n sts = none := by
  induction sts generalizing n with
  | nil => rfl
  | cons st sts ih =>
    have head := free st (by simp)
    have tail := ih (n := n + 1) fun x hx => free x (by simp [hx])
    simp [firstFailure, head, tail]

theorem firstFailure_sound (sound : ∀ n op, ok (report n op)) (sts : List (Step Op)) :
    firstFailure report ok n sts = none := by
  induction sts generalizing n with
  | nil => rfl
  | cons st sts ih => simp [firstFailure, sound n st.op, ih]

/-- Where every failure is minded, the first one is where the events are cut off. -/
theorem firstFailure_must (ops : List Op) :
    firstFailure report ok n (ops.map fun op => ⟨op, true⟩) = none ↔
      ∀ e ∈ attempts report n ops, ok e.out := by
  induction ops generalizing n with
  | nil => simp [firstFailure]
  | cons op ops ih =>
    cases head : ok (report n op) with
    | true => simpa [firstFailure, attempts, head] using ih
    | false => simp [firstFailure, attempts, head]

theorem length_upToFailure {ops : List Op} {i : Nat}
    (first : firstFailure report ok n (ops.map fun op => ⟨op, true⟩) = some i) :
    (upToFailure ok (attempts report n ops)).length = i + 1 := by
  induction ops generalizing n i with
  | nil => cases first
  | cons op ops ih =>
    cases head : ok (report n op) with
    | true =>
      simp only [List.map_cons, firstFailure, head, Bool.not_true, Bool.and_false,
        Bool.false_eq_true, if_false, Option.map_eq_some_iff] at first
      obtain ⟨j, later, rfl⟩ := first
      simp [attempts, upToFailure, head, ih later]
    | false =>
      have : i = 0 := by simpa [firstFailure, head] using first.symm
      simp [attempts, upToFailure, head, this]

end Kit
