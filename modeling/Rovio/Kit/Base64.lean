import Mathlib.Data.List.Basic

/-! Reading base64: digits of six bits in groups of four, the last one padded with `=`, and line
breaks anywhere. -/
namespace Kit.Base64

def value (c : Char) : Option Nat :=
  if 'A' ≤ c ∧ c ≤ 'Z' then some (c.toNat - 65)
  else if 'a' ≤ c ∧ c ≤ 'z' then some (c.toNat - 97 + 26)
  else if '0' ≤ c ∧ c ≤ '9' then some (c.toNat - 48 + 52)
  else if c = '+' then some 62
  else if c = '/' then some 63
  else none

def byteOne (x y : Nat) : UInt8 := UInt8.ofNat (x * 4 + y / 16)
def byteTwo (y z : Nat) : UInt8 := UInt8.ofNat (y % 16 * 16 + z / 4)
def byteThree (z w : Nat) : UInt8 := UInt8.ofNat (z % 4 * 64 + w)

/-- The last group: one byte for `==`, two for `=`. -/
def padded (a b c : Char) : Option (List UInt8) := do
  let x ← value a
  let y ← value b
  if c = '=' then some [byteOne x y]
  else
    let z ← value c
    some [byteOne x y, byteTwo y z]

def groups : List Char → Option (List UInt8)
  | [] => some []
  | a :: b :: c :: d :: rest =>
    if d = '=' then
      if rest = [] then padded a b c else none
    else do
      let x ← value a
      let y ← value b
      let z ← value c
      let w ← value d
      let tail ← groups rest
      some (byteOne x y :: byteTwo y z :: byteThree z w :: tail)
  | _ => none

def isBreak (c : Char) : Bool := c == '\r' || c == '\n'

def decode (text : List Char) : Option (List UInt8) :=
  groups (text.filter fun c => !isBreak c)

variable {a b c d : Char} {x y z w : Nat}

theorem value_plain (known : value a = some x) : a ≠ '=' ∧ isBreak a = false := by
  constructor
  · rintro rfl
    revert known
    decide +revert
  · cases broken : isBreak a with
    | false => rfl
    | true =>
      rcases Bool.or_eq_true_iff.mp broken with cr | lf
      · rw [eq_of_beq cr] at known
        cases known
      · rw [eq_of_beq lf] at known
        cases known

theorem decode_break (broken : isBreak c = true) (text : List Char) :
    decode (c :: text) = decode text := by
  unfold decode
  rw [List.filter_cons_of_neg (by rw [broken]; decide)]

theorem filter_plain (plain : isBreak c = false) (text : List Char) :
    (c :: text).filter (fun c => !isBreak c) = c :: text.filter fun c => !isBreak c :=
  List.filter_cons_of_pos (by rw [plain]; rfl)

theorem decode_group (one : value a = some x) (two : value b = some y) (three : value c = some z)
    (four : value d = some w) (text : List Char) : decode (a :: b :: c :: d :: text) =
      (decode text).map fun tail =>
        byteOne x y :: byteTwo y z :: byteThree z w :: tail := by
  unfold decode
  rw [filter_plain (value_plain one).2, filter_plain (value_plain two).2,
    filter_plain (value_plain three).2, filter_plain (value_plain four).2, groups,
    if_neg (value_plain four).1, one, two, three, four]
  cases groups (text.filter fun c => !isBreak c) <;> rfl

theorem decode_two (one : value a = some x) (two : value b = some y) (three : value c = some z)
    {text : List Char} (breaks : text.all isBreak = true) :
    decode (a :: b :: c :: '=' :: text) = some [byteOne x y, byteTwo y z] := by
  have nothing : text.filter (fun c => !isBreak c) = [] := by
    apply List.filter_eq_nil_iff.mpr
    intro e mem
    rw [List.all_eq_true.mp breaks e mem]
    decide
  unfold decode
  rw [filter_plain (value_plain one).2, filter_plain (value_plain two).2,
    filter_plain (value_plain three).2, filter_plain (by decide), nothing, groups, if_pos rfl,
    if_pos rfl, padded, one, two]
  show (if c = '=' then _ else _) = _
  rw [if_neg (value_plain three).1, three]
  rfl

theorem decode_one (one : value a = some x) (two : value b = some y)
    {text : List Char} (breaks : text.all isBreak = true) :
    decode (a :: b :: '=' :: '=' :: text) = some [byteOne x y] := by
  have nothing : text.filter (fun c => !isBreak c) = [] := by
    apply List.filter_eq_nil_iff.mpr
    intro e mem
    rw [List.all_eq_true.mp breaks e mem]
    decide
  unfold decode
  rw [filter_plain (value_plain one).2, filter_plain (value_plain two).2,
    filter_plain (by decide), filter_plain (by decide), nothing, groups, if_pos rfl,
    if_pos rfl, padded, one, two]
  rfl

/-! ### Whole groups -/

/-- A group that is not padded. -/
theorem groups_cons (plain : d ≠ '=') {rest : List Char} {bytes : List UInt8}
    (decoded : groups (a :: b :: c :: d :: rest) = some bytes) :
    ∃ front back, front.length = 3 ∧ groups rest = some back ∧ bytes = front ++ back ∧
      ∀ other, groups (a :: b :: c :: d :: other) = (groups other).map (front ++ ·) := by
  rw [groups, if_neg plain] at decoded
  obtain ⟨x, one, decoded⟩ := Option.bind_eq_some_iff.mp decoded
  obtain ⟨y, two, decoded⟩ := Option.bind_eq_some_iff.mp decoded
  obtain ⟨z, three, decoded⟩ := Option.bind_eq_some_iff.mp decoded
  obtain ⟨w, four, decoded⟩ := Option.bind_eq_some_iff.mp decoded
  obtain ⟨tail, behind, decoded⟩ := Option.bind_eq_some_iff.mp decoded
  cases decoded
  refine ⟨[byteOne x y, byteTwo y z, byteThree z w], tail, rfl, behind, rfl, fun other => ?_⟩
  rw [groups, if_neg plain, one, two, three, four]
  cases groups other <;> rfl

theorem padded_length {bytes : List UInt8} (decoded : padded a b c = some bytes) :
    bytes.length ≤ 2 := by
  obtain ⟨x, one, decoded⟩ := Option.bind_eq_some_iff.mp decoded
  obtain ⟨y, two, decoded⟩ := Option.bind_eq_some_iff.mp decoded
  split at decoded
  · cases decoded
    exact Nat.le_succ 1
  · obtain ⟨z, three, decoded⟩ := Option.bind_eq_some_iff.mp decoded
    cases decoded
    exact Nat.le_refl 2

theorem groups_padded {rest : List Char} {bytes : List UInt8}
    (decoded : groups (a :: b :: c :: '=' :: rest) = some bytes) :
    rest = [] ∧ padded a b c = some bytes := by
  rw [groups, if_pos rfl] at decoded
  split at decoded
  · exact ⟨‹_›, decoded⟩
  · cases decoded

/-- Texts of whole groups are decoded one behind the other. -/
theorem groups_append {front back : List Char} {bytes : List UInt8} (whole : front.length % 4 = 0)
    (decoded : groups (front ++ back) = some bytes) :
    ∃ x y, groups front = some x ∧ groups back = some y ∧ bytes = x ++ y := by
  induction front using groups.induct generalizing bytes with
  | case1 => exact ⟨[], bytes, rfl, decoded, rfl⟩
  | case2 a b c =>
    obtain ⟨none, last⟩ := groups_padded decoded
    obtain rfl : back = [] := none
    refine ⟨bytes, [], ?_, rfl, (List.append_nil bytes).symm⟩
    rw [groups, if_pos rfl, if_pos rfl, last]
  | case3 a b c rest some =>
    have none := (groups_padded decoded).1
    exact absurd (List.append_eq_nil_iff.mp none).1 some
  | case4 a b c d rest plain ih =>
    obtain ⟨three, tail, -, behind, rfl, others⟩ := groups_cons plain decoded
    have rest_whole : rest.length % 4 = 0 := by
      simp only [List.length_cons] at whole
      omega
    obtain ⟨x, y, first, second, rfl⟩ := ih rest_whole behind
    refine ⟨three ++ x, y, ?_, second, (List.append_assoc _ _ _).symm⟩
    rw [others, first, Option.map_some]
  | case5 front some none =>
    match front, whole with
    | [], _ => exact (some rfl).elim
    | a :: b :: c :: d :: rest, _ => exact (none a b c d rest rfl).elim

/-- A group is three bytes at most. -/
theorem groups_length {text : List Char} {bytes : List UInt8} (decoded : groups text = some bytes) :
    bytes.length ≤ text.length / 4 * 3 := by
  induction text using groups.induct generalizing bytes with
  | case1 =>
    cases decoded
    exact Nat.le_refl 0
  | case2 a b c =>
    have short := padded_length (groups_padded decoded).2
    have three : [a, b, c, '='].length / 4 * 3 = 3 := by simp
    omega
  | case3 a b c rest some => exact absurd (groups_padded decoded).1 some
  | case4 a b c d rest plain ih =>
    obtain ⟨three, tail, length, behind, rfl, -⟩ := groups_cons plain decoded
    have less := ih behind
    rw [List.length_append, length]
    simp only [List.length_cons]
    omega
  | case5 text some none =>
    match text, decoded with
    | [], _ => exact (some rfl).elim
    | a :: b :: c :: d :: rest, _ => exact (none a b c d rest rfl).elim

end Kit.Base64
