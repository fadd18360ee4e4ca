import Rovio.Kit.Buffer

/-! A queue in a buffer that is used in a circle. The items stand from the head up to the tail;
one place stays free, so that a full queue is not taken for an empty one. -/
namespace Kit

universe u
variable {A : Type u} {buf after : List A} {size head tail : Nat}

/-- The place behind `p`. -/
def nextOne (size p : Nat) : Nat := if size ≤ p + 1 then 0 else p + 1

/-- The items from the head up to the tail. -/
def window (buf : List A) (head tail : Nat) : List A :=
  if head ≤ tail then (buf.take tail).drop head else buf.drop head ++ buf.take tail

/-- A queue that refuses what comes when it is full. -/
def offer (capacity : Nat) (queue : List A) (x : A) : List A :=
  if queue.length < capacity then queue ++ [x] else queue

theorem nextOne_lt (inside : tail < size) : nextOne size tail < size := by
  unfold nextOne
  split <;> omega

theorem window_self (buf : List A) (p : Nat) : window buf p p = [] := by
  rw [window, if_pos (Nat.le_refl p)]
  exact List.drop_take_self

theorem window_length (headIn : head < buf.length) (tailIn : tail < buf.length) :
    (window buf head tail).length =
      if head ≤ tail then tail - head else tail + buf.length - head := by
  unfold window
  split
  · rw [List.length_drop, List.length_take_of_le (Nat.le_of_lt tailIn)]
  · rw [List.length_append, List.length_drop, List.length_take_of_le (Nat.le_of_lt tailIn)]
    omega

/-- The free place is the last one exactly when the queue is full. -/
theorem window_room (headIn : head < buf.length) (tailIn : tail < buf.length) :
    nextOne buf.length tail ≠ head ↔ (window buf head tail).length < buf.length - 1 := by
  rw [window_length headIn tailIn]
  unfold nextOne
  split <;> split <;> omega

theorem window_put {x : A} (headIn : head < buf.length) (room : nextOne buf.length tail ≠ head)
    (stored : put buf tail [x] = some after) :
    window after head (nextOne buf.length tail) = window buf head tail ++ [x] := by
  have tailIn : tail + 1 ≤ buf.length := put_room stored
  have front : after.take (tail + 1) = buf.take tail ++ [x] := put_take stored
  have size : (buf.take tail).length = tail := List.length_take_of_le (by omega)
  unfold window
  by_cases order : head ≤ tail
  · have append : (after.take (tail + 1)).drop head = (buf.take tail).drop head ++ [x] := by
      rw [front, List.drop_append_of_le_length (by omega)]
    rw [if_pos order, ← append]
    by_cases last : buf.length ≤ tail + 1
    · -- the last place of the buffer is taken, and the tail goes round
      have next : nextOne buf.length tail = 0 := if_pos last
      rw [next] at room ⊢
      rw [if_neg (by omega), List.take_zero, List.append_nil, List.take_of_length_le (by
        rw [put_length stored]; omega)]
    · have next : nextOne buf.length tail = tail + 1 := if_neg last
      rw [next, if_pos (by omega)]
  · have next : nextOne buf.length tail = tail + 1 := if_neg (by omega)
    rw [next] at room ⊢
    rw [if_neg order, if_neg (by omega), put_drop stored (by rw [List.length_singleton]; omega),
      front, List.append_assoc]

/-- The items are read in one piece, or in two around the end of the buffer. -/
theorem fetch_window (order : head ≤ tail) (tailIn : tail < buf.length) :
    fetch buf head (tail - head) = some (window buf head tail) := by
  rw [fetch, if_pos (by omega), window, if_pos order, List.drop_take]

theorem fetch_round (order : tail < head) (headIn : head < buf.length) :
    ∃ first second, fetch buf head (buf.length - head) = some first ∧
      fetch buf 0 tail = some second ∧ first ++ second = window buf head tail := by
  refine ⟨buf.drop head, buf.take tail, ?_, ?_, ?_⟩
  · rw [fetch, if_pos (by omega), List.take_of_length_le (Nat.le_of_eq List.length_drop)]
  · rw [fetch, if_pos (by omega), List.drop_zero]
  · rw [window, if_neg (by omega)]

/-- The first item of a queue that is not empty. -/
theorem window_cons (some : head ≠ tail) (headIn : head < buf.length)
    (tailIn : tail < buf.length) : ∃ x, buf[head]? = .some x ∧
      window buf head tail = x :: window buf (nextOne buf.length head) tail := by
  refine ⟨buf[head], List.getElem?_eq_getElem headIn, ?_⟩
  by_cases order : head ≤ tail
  · have next : nextOne buf.length head = head + 1 := if_neg (by omega)
    have inside : head < (buf.take tail).length := by
      rw [List.length_take]
      omega
    rw [window, window, next, if_pos order, if_pos (by omega), List.drop_eq_getElem_cons inside,
      List.getElem_take]
  · rw [window, if_neg order, List.drop_eq_getElem_cons headIn, List.cons_append]
    congr 1
    by_cases last : buf.length ≤ head + 1
    · have next : nextOne buf.length head = 0 := if_pos last
      rw [window, next, if_pos (Nat.zero_le tail), List.drop_of_length_le last, List.nil_append,
        List.drop_zero]
    · have next : nextOne buf.length head = head + 1 := if_neg last
      rw [window, next, if_neg (by omega)]

/-- The last items, as many as there is room for. -/
def latest (capacity : Nat) (queue : List A) : List A := queue.drop (queue.length - capacity)

theorem latest_append (capacity : Nat) (queue : List A) (x : A) :
    latest capacity (latest capacity queue ++ [x]) = latest capacity (queue ++ [x]) := by
  unfold latest
  have split : (queue.drop (queue.length - capacity) ++ [x]) =
      (queue ++ [x]).drop (queue.length - capacity) := by
    rw [List.drop_append_of_le_length (Nat.sub_le ..)]
  rw [split, List.drop_drop]
  congr 1
  simp only [List.length_drop, List.length_append, List.length_singleton]
  omega

theorem latest_map {B : Type u} (f : A → B) (capacity : Nat) (queue : List A) :
    (latest capacity queue).map f = latest capacity (queue.map f) := by
  simp only [latest, List.map_drop, List.length_map]

theorem latest_short {capacity : Nat} {queue : List A} (short : queue.length ≤ capacity) :
    latest capacity queue = queue := by
  rw [latest, Nat.sub_eq_zero_of_le short, List.drop_zero]

/-- Counting on is going round. -/
theorem nextOne_mod (pos : 0 < size) (j : Nat) : nextOne size (j % size) = (j + 1) % size := by
  have inside := Nat.mod_lt j pos
  rw [← Nat.mod_add_mod, nextOne]
  split
  · rw [show j % size + 1 = size by omega, Nat.mod_self]
  · exact (Nat.mod_eq_of_lt (by omega)).symm

theorem nextOne_ne (more : 1 < size) (p : Nat) : nextOne size p ≠ p := by
  unfold nextOne
  split <;> omega

/-- An item is put behind the others, and the oldest makes room where there is none. -/
theorem window_push {x : A} (headIn : head < buf.length) (more : 1 < buf.length)
    (stored : put buf tail [x] = some after) :
    window after (if head = nextOne buf.length tail then nextOne buf.length head else head)
        (nextOne buf.length tail) =
      latest (buf.length - 1) (window buf head tail ++ [x]) := by
  have tailIn : tail < buf.length := put_room stored
  have bound : (window buf head tail).length ≤ buf.length - 1 := by
    rw [window_length headIn tailIn]
    split <;> omega
  by_cases full : head = nextOne buf.length tail
  · have some : head ≠ tail := full ▸ nextOne_ne more tail
    obtain ⟨y, -, first⟩ := window_cons some headIn tailIn
    have all : ¬ (window buf head tail).length < buf.length - 1 :=
      fun room => (window_room headIn tailIn).mpr room full.symm
    have room : nextOne buf.length tail ≠ nextOne buf.length head :=
      full ▸ (nextOne_ne more head).symm
    rw [if_pos full, window_put (nextOne_lt headIn) room stored, first, latest]
    rw [first, List.length_cons] at all bound
    have drop : (y :: window buf (nextOne buf.length head) tail ++ [x]).length -
        (buf.length - 1) = 1 := by
      simp only [List.length_append, List.length_cons, List.length_nil]
      omega
    rw [drop]
    rfl
  · have room := (window_room headIn tailIn).mp (Ne.symm full)
    rw [if_neg full, window_put headIn (Ne.symm full) stored, latest_short]
    rw [List.length_append, List.length_singleton]
    omega

end Kit
