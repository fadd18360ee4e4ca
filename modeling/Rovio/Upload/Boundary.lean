import Rovio.Upload.Ring

/-! The test for the delimiter at the end of the buffered characters. It reads
the buffer from its start, hence it sees the characters only after `MPClean`. -/
namespace Rovio.Upload

def cr : UInt8 := 13
def lf : UInt8 := 10
def dash : UInt8 := 45

def mpTestBoundary (r : Ring) (acBoundary : List UInt8) : Option Nat :=
  if r.pcBufDataEnd < 1 then none
  else
    let pc := r.pcBufDataEnd - 1
    if r.acBuf pc ≠ lf ∧ r.acBuf pc ≠ dash then none
    else if pc < 1 then none
    else
      let pc := pc - 1
      if r.acBuf pc = cr ∧ pc < 1 then none
      else
        let pc := if r.acBuf pc = cr then pc - 1 else pc
        if pc + 1 < acBoundary.length then none
        else
          let pc := pc + 1 - acBoundary.length
          if (List.range acBoundary.length).map (fun i => r.acBuf (pc + i)) = acBoundary then
            if pc < 1 then none
            else if r.acBuf (pc - 1) ≠ dash then none
            else if pc - 1 < 1 then none
            else if r.acBuf (pc - 2) ≠ dash then none
            else some (pc - 2)
          else none

/-- The delimiter: two dashes and the boundary. -/
def delimiter (acBoundary : List UInt8) : List UInt8 := [dash, dash] ++ acBoundary

/-- What may stand behind a delimiter that is recognised. -/
def terminators : List (List UInt8) := [[lf], [dash], [cr, lf], [cr, dash]]

/-- A boundary comes from a header line. -/
structure IsBoundary (acBoundary : List UInt8) : Prop where
  length : acBoundary.length ≤ 127
  no_cr : cr ∉ acBoundary
  no_lf : lf ∉ acBoundary

/-- The characters from the start of the buffer to the data end. -/
def Ring.front (r : Ring) : List UInt8 := (List.range r.pcBufDataEnd).map r.acBuf

theorem front_contents {n : Nat} {r : Ring} (valid : r.Valid n) (zero : r.pcBufDataHeader = 0) :
    r.contents n = r.front := by
  unfold Ring.contents Ring.front places
  rw [zero, Nat.sub_zero, Nat.add_mod_right, Nat.mod_eq_of_lt valid.dataEnd]
  refine List.map_congr_left fun i hi => ?_
  have small := List.mem_range.mp hi
  rw [Nat.zero_add, Nat.mod_eq_of_lt (small.trans valid.dataEnd)]

theorem front_length (r : Ring) : r.front.length = r.pcBufDataEnd := by
  simp [Ring.front]

/-- The end of the front, cut into the dashes, the boundary's place and the rest. -/
theorem front_drop {r : Ring} {q b k : Nat} (size : r.pcBufDataEnd = q + 2 + b + k) :
    r.front.drop q = [r.acBuf q, r.acBuf (q + 1)] ++
      (List.range b).map (fun i => r.acBuf (q + 2 + i)) ++
        (List.range k).map (fun i => r.acBuf (q + 2 + b + i)) := by
  unfold Ring.front
  rw [size, Nat.add_assoc q 2 b, Nat.add_assoc q, List.range_add, List.map_append,
    List.drop_left' (by simp), List.range_add, List.range_add]
  simp [List.range_succ, Function.comp_def, Nat.add_assoc]

/-- What the test has seen when it reports the place of the dashes. -/
theorem mpTestBoundary_sound {r : Ring} {B : List UInt8} {q : Nat}
    (found : mpTestBoundary r B = some q) :
    ∃ t ∈ terminators, r.pcBufDataEnd = q + 2 + B.length + t.length ∧
      r.front.drop q = delimiter B ++ t := by
  unfold mpTestBoundary at found
  simp only [Option.ite_none_left_eq_some, Option.ite_none_right_eq_some, Option.some.injEq]
    at found
  obtain ⟨some, last, two, early, room, bytes, one, dash1, more, dash0, place⟩ := found
  have ends : r.acBuf (r.pcBufDataEnd - 1) = lf ∨ r.acBuf (r.pcBufDataEnd - 1) = dash := by
    by_contra neither
    exact last ⟨fun h => neither (.inl h), fun h => neither (.inr h)⟩
  by_cases mark : r.acBuf (r.pcBufDataEnd - 1 - 1) = cr
  · simp only [mark, true_and, if_true] at early room bytes one dash1 more dash0 place
    have start : r.pcBufDataEnd - 1 - 1 - 1 + 1 - B.length = q + 2 := by omega
    have size : r.pcBufDataEnd = q + 2 + B.length + 2 := by omega
    rw [start] at bytes dash1 dash0
    refine ⟨[cr, r.acBuf (r.pcBufDataEnd - 1)], ?_, size, ?_⟩
    · rcases ends with h | h <;> simp [terminators, h]
    · rw [front_drop size, bytes]
      rw [size] at mark ⊢
      simp_all [delimiter, List.range_succ]
  · simp only [mark, false_and, if_false] at early room bytes one dash1 more dash0 place
    have start : r.pcBufDataEnd - 1 - 1 + 1 - B.length = q + 2 := by omega
    have size : r.pcBufDataEnd = q + 2 + B.length + 1 := by omega
    rw [start] at bytes dash1 dash0
    refine ⟨[r.acBuf (r.pcBufDataEnd - 1)], ?_, size, ?_⟩
    · rcases ends with h | h <;> simp [terminators, h]
    · rw [front_drop size, bytes]
      rw [size] at mark ⊢
      simp_all [delimiter, List.range_succ]

/-- The tests behind the one for the terminator. -/
theorem mpTestBoundary_at {r : Ring} {B : List UInt8} {q : Nat} {pc : Nat}
    (start : pc + 1 = q + 2 + B.length) (dash0 : r.acBuf q = dash) (dash1 : r.acBuf (q + 1) = dash)
    (bytes : (List.range B.length).map (fun i => r.acBuf (q + 2 + i)) = B) :
    (if pc + 1 < B.length then none
      else if (List.range B.length).map (fun i => r.acBuf (pc + 1 - B.length + i)) = B then
        if pc + 1 - B.length < 1 then none
        else if r.acBuf (pc + 1 - B.length - 1) ≠ dash then none
        else if pc + 1 - B.length - 1 < 1 then none
        else if r.acBuf (pc + 1 - B.length - 2) ≠ dash then none
        else some (pc + 1 - B.length - 2)
      else none) = some q := by
  have first : pc + 1 - B.length = q + 2 := by omega
  rw [first, if_neg (by omega), if_pos bytes, if_neg (by omega), if_neg (by simpa using dash1),
    if_neg (by omega), if_neg (by simpa using dash0)]
  rfl

/-- A delimiter at the end is reported, with the place of its dashes. -/
theorem mpTestBoundary_complete {r : Ring} {B : List UInt8} {q : Nat} {t : List UInt8}
    (noCr : cr ∉ B) (ht : t ∈ terminators)
    (size : r.pcBufDataEnd = q + 2 + B.length + t.length)
    (delim : r.front.drop q = delimiter B ++ t) : mpTestBoundary r B = some q := by
  rw [front_drop size] at delim
  obtain ⟨front, back⟩ := List.append_inj delim (by simp [delimiter])
  simp only [delimiter, List.cons_append, List.nil_append, List.cons.injEq] at front
  obtain ⟨dash0, dash1, bytes⟩ := front
  have before : r.acBuf (q + 1 + B.length) ≠ cr := by
    cases hb : B.length with
    | zero =>
      rw [Nat.add_zero, dash1]
      decide
    | succ k =>
      have inB : r.acBuf (q + 2 + k) ∈ B := by
        rw [← bytes]
        exact List.mem_map.mpr ⟨k, List.mem_range.mpr (by omega), rfl⟩
      rw [show q + 1 + (k + 1) = q + 2 + k by omega]
      rintro h
      exact noCr (h ▸ inB)
  have kind : (t.length = 1 ∧ (r.acBuf (q + 2 + B.length) = lf ∨ r.acBuf (q + 2 + B.length) = dash)) ∨
      (t.length = 2 ∧ r.acBuf (q + 2 + B.length) = cr ∧
        (r.acBuf (q + 2 + B.length + 1) = lf ∨ r.acBuf (q + 2 + B.length + 1) = dash)) := by
    simp only [terminators, List.mem_cons, List.not_mem_nil, or_false] at ht
    rcases ht with rfl | rfl | rfl | rfl <;> simp_all [List.range_succ]
  unfold mpTestBoundary
  rcases kind with ⟨one, last⟩ | ⟨two, mark, last⟩
  · have e1 : r.pcBufDataEnd - 1 = q + 2 + B.length := by omega
    have e2 : q + 2 + B.length - 1 = q + 1 + B.length := by omega
    have ends : ¬ (r.acBuf (q + 2 + B.length) ≠ lf ∧ r.acBuf (q + 2 + B.length) ≠ dash) := by
      rcases last with h | h <;> simp [h]
    simp only [e1, e2, ends, before, false_and, if_false]
    rw [if_neg (by omega), if_neg (by omega)]
    exact mpTestBoundary_at (by omega) dash0 dash1 bytes
  · have e1 : r.pcBufDataEnd - 1 = q + 2 + B.length + 1 := by omega
    have e2 : q + 2 + B.length + 1 - 1 = q + 2 + B.length := by omega
    have ends : ¬ (r.acBuf (q + 2 + B.length + 1) ≠ lf ∧ r.acBuf (q + 2 + B.length + 1) ≠ dash) := by
      rcases last with h | h <;> simp [h]
    simp only [e1, e2, ends, mark, true_and, if_false, if_true]
    rw [if_neg (by omega), if_neg (by omega), if_neg (by omega)]
    exact mpTestBoundary_at (by omega) dash0 dash1 bytes

end Rovio.Upload
