import Mathlib.Logic.Basic

/-! Fields of a word, each under a mask of its own. A field that is written reads back, and leaves
alone the fields whose masks share no bit with its mask. -/
namespace Kit

variable {w : Nat}

def field (word mask : BitVec w) : BitVec w := word &&& mask

def setField (word mask value : BitVec w) : BitVec w := word &&& ~~~mask ||| value &&& mask

@[simp] theorem field_setField (word mask value : BitVec w) :
    field (setField word mask value) mask = field value mask := by
  ext i
  by_cases inside : mask[i] <;> simp [field, setField, inside]

theorem field_setField_apart {mask mask' : BitVec w} (word value : BitVec w)
    (apart : mask &&& mask' = 0#w) : field (setField word mask value) mask' = field word mask' := by
  ext i
  have alone : (mask &&& mask')[i] = false := by simp [apart]
  rw [BitVec.getElem_and] at alone
  by_cases inside : mask'[i]
  · have outside : mask[i] = false := by simpa [inside] using alone
    simp [field, setField, outside]
  · simp [field, inside]

/-- A part of a field is written with it. -/
theorem field_setField_within {mask mask' : BitVec w} (word value : BitVec w)
    (within : mask &&& mask' = mask') :
    field (setField word mask value) mask' = field value mask' := by
  ext i
  have both : (mask &&& mask')[i] = mask'[i] := by simp [within]
  rw [BitVec.getElem_and] at both
  by_cases inside : mask'[i]
  · have outside : mask[i] = true := by simpa [inside] using both
    simp [field, setField, outside]
  · simp [field, inside]

/-- Setting the bits of a mask. -/
theorem or_eq_setField (word mask : BitVec w) : word ||| mask = setField word mask mask := by
  ext i
  by_cases inside : mask[i] <;> simp [setField, inside]

/-- Clearing the bits of a mask. -/
theorem and_not_eq_setField (word mask : BitVec w) :
    word &&& ~~~mask = setField word mask 0#w := by
  simp [setField]

@[simp] theorem field_zero (mask : BitVec w) : field 0#w mask = 0#w := by
  simp [field]

@[simp] theorem field_self (mask : BitVec w) : field mask mask = mask := by
  simp [field]

end Kit
