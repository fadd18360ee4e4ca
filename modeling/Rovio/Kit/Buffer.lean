import Mathlib.Data.List.Basic

/-! Buffers of a fixed size. A store of consecutive items either lies inside the buffer or is none,
so a program that yields something has stored nothing outside. -/
namespace Kit

universe u
variable {A : Type u} {buf after items : List A} {offset n : Nat}

def put (buf : List A) (offset : Nat) (items : List A) : Option (List A) :=
  if offset + items.length ≤ buf.length then
    some (buf.take offset ++ (items ++ buf.drop (offset + items.length)))
  else none

/-- The `size` items from `offset` on. -/
def fetch (buf : List A) (offset size : Nat) : Option (List A) :=
  if offset + size ≤ buf.length then some ((buf.drop offset).take size) else none

theorem put_isSome (room : offset + items.length ≤ buf.length) :
    ∃ after, put buf offset items = some after := ⟨_, if_pos room⟩

theorem put_room (stored : put buf offset items = some after) :
    offset + items.length ≤ buf.length := by
  unfold put at stored
  split at stored
  · assumption
  · cases stored

theorem put_eq (stored : put buf offset items = some after) :
    after = buf.take offset ++ (items ++ buf.drop (offset + items.length)) := by
  have room := put_room stored
  rw [put, if_pos room] at stored
  exact (Option.some.inj stored).symm

theorem put_length (stored : put buf offset items = some after) : after.length = buf.length := by
  have room := put_room stored
  rw [put_eq stored, List.length_append, List.length_append, List.length_take, List.length_drop]
  omega

/-- Up to the end of the store: what was there before it, and the items. -/
theorem put_take (stored : put buf offset items = some after) :
    after.take (offset + items.length) = buf.take offset ++ items := by
  have room := put_room stored
  have front : (buf.take offset ++ items).length = offset + items.length := by
    rw [List.length_append, List.length_take_of_le (by omega)]
  rw [put_eq stored, ← List.append_assoc]
  exact List.take_left' front

/-- Before the store nothing changes. -/
theorem put_take_before (stored : put buf offset items = some after) (before : n ≤ offset) :
    after.take n = buf.take n := by
  have whole := congrArg (List.take n) (put_take stored)
  have room := put_room stored
  rw [List.take_take, Nat.min_eq_left (by omega), List.take_append_of_le_length (by
    rw [List.length_take]; omega), List.take_take, Nat.min_eq_left before] at whole
  exact whole

/-- Behind the store nothing changes. -/
theorem put_drop (stored : put buf offset items = some after) (behind : offset + items.length ≤ n) :
    after.drop n = buf.drop n := by
  have room := put_room stored
  have front : (buf.take offset).length = offset := List.length_take_of_le (by omega)
  rw [put_eq stored, ← List.append_assoc, List.drop_append, List.drop_of_length_le (by
    rw [List.length_append]; omega), List.nil_append, List.length_append, front, List.drop_drop]
  exact congrArg (buf.drop ·) (by omega)

theorem put_get (stored : put buf offset items = some after) {i : Nat} (inside : i < items.length) :
    after[offset + i]? = items[i]? := by
  have room := put_room stored
  have front : (buf.take offset).length = offset := List.length_take_of_le (by omega)
  rw [put_eq stored, List.getElem?_append_right (by omega), front, Nat.add_sub_cancel_left,
    List.getElem?_append_left inside]

/-- The last item before a place is the last one of the items before it. -/
theorem getElem?_pred_take (low : 1 ≤ n) (room : n ≤ buf.length) :
    buf[n - 1]? = (buf.take n).getLast? := by
  rw [List.getLast?_eq_getElem?, List.length_take_of_le room, List.getElem?_take_of_lt (by omega)]

end Kit
