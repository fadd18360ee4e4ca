import Mathlib.Data.List.Basic

/-! A stream that is cut into frames from the front, where the bytes at hand tell how long the
first frame is, or that it is not complete. -/
namespace Kit

universe u
variable {α : Type u}

/-- A frame is not longer than what is there, and more bytes do not change it. -/
structure FrameSize (size : List α → Nat) : Prop where
  within : ∀ l, size l ≤ l.length
  stable : ∀ l more, 0 < size l → size (l ++ more) = size l

variable {size : List α → Nat}

/-- The complete frames and what is left behind them. -/
def cutFrames (size : List α → Nat) (l : List α) : List (List α) × List α :=
  if 0 < size l ∧ 0 < l.length then
    let (frames, rest) := cutFrames size (l.drop (size l))
    (l.take (size l) :: frames, rest)
  else ([], l)
termination_by l.length
decreasing_by
  rw [List.length_drop]
  omega

theorem cutFrames_none {l : List α} (none : size l = 0) : cutFrames size l = ([], l) := by
  rw [cutFrames, if_neg]
  omega

theorem cutFrames_first (framed : FrameSize size) {l : List α} (complete : 0 < size l) :
    cutFrames size l = (l.take (size l) :: (cutFrames size (l.drop (size l))).1,
      (cutFrames size (l.drop (size l))).2) := by
  have within := framed.within l
  rw [cutFrames, if_pos ⟨complete, by omega⟩]

/-- Nothing is lost. -/
theorem cutFrames_flatten (size : List α → Nat) (l : List α) :
    (cutFrames size l).1.flatten ++ (cutFrames size l).2 = l := by
  fun_induction cutFrames size l with
  | case1 l complete frames rest cut ih =>
    rw [cut] at ih
    rw [List.flatten_cons, List.append_assoc, ih, List.take_append_drop]
  | case2 l => rfl

/-- More bytes only give more frames. -/
theorem cutFrames_append (framed : FrameSize size) (l more : List α) :
    cutFrames size (l ++ more) =
      ((cutFrames size l).1 ++ (cutFrames size ((cutFrames size l).2 ++ more)).1,
        (cutFrames size ((cutFrames size l).2 ++ more)).2) := by
  fun_induction cutFrames size l with
  | case1 l complete frames rest cut ih =>
    have within := framed.within l
    have same := framed.stable l more complete.1
    rw [cut] at ih
    rw [cutFrames_first framed (by rw [same]; exact complete.1), same,
      List.take_append_of_le_length within, List.drop_append_of_le_length within, ih]
    rfl
  | case2 l none => rfl

/-- Handed frames and kept bytes that come from a stream. -/
structure Handed (size : List α → Nat) (whole : List α) (handed : List (List α))
    (kept : List α) : Prop where
  bytes : handed.flatten ++ kept = whole
  frames : handed ++ (cutFrames size kept).1 = (cutFrames size whole).1

namespace Handed

variable {whole kept : List α} {handed : List (List α)}

theorem start (size : List α → Nat) : Handed size [] [] [] := ⟨rfl, rfl⟩

theorem rest (h : Handed size whole handed kept) :
    (cutFrames size kept).2 = (cutFrames size whole).2 := by
  have bytes := h.bytes
  have all := cutFrames_flatten size whole
  rw [← cutFrames_flatten size kept, ← List.append_assoc, ← List.flatten_append, h.frames,
    ← all] at bytes
  rw [all] at bytes
  exact List.append_cancel_left (bytes.trans all.symm)

/-- More of the stream has come. -/
theorem add (framed : FrameSize size) (h : Handed size whole handed kept) (more : List α) :
    Handed size (whole ++ more) handed (kept ++ more) where
  bytes := by rw [← List.append_assoc, h.bytes]
  frames := by
    rw [cutFrames_append framed, cutFrames_append framed whole, ← h.frames, h.rest,
      List.append_assoc]

/-- The next frame is handed on. -/
theorem next (framed : FrameSize size) (h : Handed size whole handed kept)
    (complete : 0 < size kept) :
    Handed size whole (handed ++ [kept.take (size kept)]) (kept.drop (size kept)) where
  bytes := by
    rw [List.flatten_append, List.flatten_singleton, List.append_assoc, List.take_append_drop,
      h.bytes]
  frames := by
    rw [← h.frames, cutFrames_first framed complete, List.append_assoc]
    rfl

/-- With no complete frame left, all of them have been handed on. -/
theorem all (h : Handed size whole handed kept) (none : size kept = 0) :
    handed = (cutFrames size whole).1 := by
  rw [← h.frames, cutFrames_none none, List.append_nil]

end Handed

end Kit
