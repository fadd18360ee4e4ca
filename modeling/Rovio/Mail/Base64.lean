import Rovio.Kit.Base64

/-! `EncodeBase64` of the mail client, which the HTTP client uses too. -/
namespace Rovio.Mail
open Kit

def m_base64tab : List Char :=
  "ABCDEFGHIJKLMNOPQRSTUVWXYZabcdefghijklmnopqrstuvwxyz0123456789+/".toList

def base64MaxLine : Nat := 76
def eol : List Char := ['\r', '\n']

/-- `m_base64tab[i]`. -/
def digit (i : Nat) : Char := m_base64tab.getD i '\x00'

def base64BufferSize (iInputSize : Nat) : Nat :=
  let iOutSize := (iInputSize + 2) / 3 * 4
  iOutSize + (eol.length * iOutSize / base64MaxLine + 3)

/-- What is written from here on: the loop over groups of three, and then the switch over the
one or two bytes that are left. -/
def encodeGroups (iLineLen : Nat) : List UInt8 → List Char
  | c1 :: c2 :: c3 :: rest =>
    let group := [digit ((c1.toNat &&& 0xFC) >>> 2),
      digit ((c1.toNat &&& 0x03) <<< 4 ||| (c2.toNat &&& 0xF0) >>> 4),
      digit ((c2.toNat &&& 0x0F) <<< 2 ||| (c3.toNat &&& 0xC0) >>> 6),
      digit (c3.toNat &&& 0x3F)]
    if base64MaxLine - 3 ≤ iLineLen + 4 then group ++ eol ++ encodeGroups 0 rest
    else group ++ encodeGroups (iLineLen + 4) rest
  | [] => eol
  | [c1] =>
    [digit ((c1.toNat &&& 0xFC) >>> 2), digit ((c1.toNat &&& 0x03) <<< 4), '=', '='] ++ eol
  | [c1, c2] =>
    [digit ((c1.toNat &&& 0xFC) >>> 2),
      digit ((c1.toNat &&& 0x03) <<< 4 ||| (c2.toNat &&& 0xF0) >>> 4),
      digit ((c2.toNat &&& 0x0F) <<< 2), '='] ++ eol

/-- All that is written to `pccOutStr`, and `*piOutLen`. -/
structure Encoded where
  pccOutStr : List Char
  piOutLen : Nat

/-- Neither pointer is NULL, and the string is `iInLen` long. -/
def encodeBase64 (pccInStr : List UInt8) (iMaxOutSize : Int) : Option Encoded :=
  if iMaxOutSize ≤ 0 ∨ iMaxOutSize < base64BufferSize pccInStr.length then none
  else
    let written := encodeGroups 0 pccInStr
    some ⟨written ++ ['\x00'], written.length⟩

theorem digit_value {i : Nat} (small : i < 64) : Base64.value (digit i) = some i := by
  have all : ∀ i : Fin 64, Base64.value (digit i) = some i.val := by decide +kernel
  exact all ⟨i, small⟩

theorem high_six (c : UInt8) : (c.toNat &&& 0xFC) >>> 2 = c.toNat / 4 := by
  have all : ∀ n : Fin 256, (n.val &&& 0xFC) >>> 2 = n.val / 4 := by decide +kernel
  exact all ⟨c.toNat, c.toNat_lt⟩

theorem low_two (c : UInt8) : (c.toNat &&& 0x03) <<< 4 = c.toNat % 4 * 16 := by
  have all : ∀ n : Fin 256, (n.val &&& 0x03) <<< 4 = n.val % 4 * 16 := by decide +kernel
  exact all ⟨c.toNat, c.toNat_lt⟩

theorem high_four (c : UInt8) : (c.toNat &&& 0xF0) >>> 4 = c.toNat / 16 := by
  have all : ∀ n : Fin 256, (n.val &&& 0xF0) >>> 4 = n.val / 16 := by decide +kernel
  exact all ⟨c.toNat, c.toNat_lt⟩

theorem low_four (c : UInt8) : (c.toNat &&& 0x0F) <<< 2 = c.toNat % 16 * 4 := by
  have all : ∀ n : Fin 256, (n.val &&& 0x0F) <<< 2 = n.val % 16 * 4 := by decide +kernel
  exact all ⟨c.toNat, c.toNat_lt⟩

theorem high_two (c : UInt8) : (c.toNat &&& 0xC0) >>> 6 = c.toNat / 64 := by
  have all : ∀ n : Fin 256, (n.val &&& 0xC0) >>> 6 = n.val / 64 := by decide +kernel
  exact all ⟨c.toNat, c.toNat_lt⟩

theorem low_six (c : UInt8) : c.toNat &&& 0x3F = c.toNat % 64 := by
  have all : ∀ n : Fin 256, n.val &&& 0x3F = n.val % 64 := by decide +kernel
  exact all ⟨c.toNat, c.toNat_lt⟩

theorem middle_one (c1 c2 : UInt8) : (c1.toNat &&& 0x03) <<< 4 ||| (c2.toNat &&& 0xF0) >>> 4 =
    c1.toNat % 4 * 16 + c2.toNat / 16 := by
  have small : c2.toNat / 16 < 16 := by
    have := c2.toNat_lt
    omega
  have joined := Nat.shiftLeft_add_eq_or_of_lt (i := 4) small (c1.toNat % 4)
  rw [low_two, high_four, ← Nat.shiftLeft_eq (c1.toNat % 4) 4, joined]

theorem middle_two (c2 c3 : UInt8) : (c2.toNat &&& 0x0F) <<< 2 ||| (c3.toNat &&& 0xC0) >>> 6 =
    c2.toNat % 16 * 4 + c3.toNat / 64 := by
  have small : c3.toNat / 64 < 4 := by
    have := c3.toNat_lt
    omega
  have joined := Nat.shiftLeft_add_eq_or_of_lt (i := 2) small (c2.toNat % 16)
  rw [low_four, high_two, ← Nat.shiftLeft_eq (c2.toNat % 16) 2, joined]

theorem byte_back {c : UInt8} {n : Nat} (same : n = c.toNat) : UInt8.ofNat n = c := by
  rw [same]
  exact UInt8.ofNat_toNat

theorem eol_breaks : eol.all Base64.isBreak = true := by decide

theorem decode_eol (text : List Char) : Base64.decode (eol ++ text) = Base64.decode text :=
  (Base64.decode_break rfl _).trans (Base64.decode_break rfl _)

/-- One group of three bytes reads back as these. -/
theorem decode_bytes (c1 c2 c3 : UInt8) (text : List Char) :
    Base64.decode (digit ((c1.toNat &&& 0xFC) >>> 2) ::
      digit ((c1.toNat &&& 0x03) <<< 4 ||| (c2.toNat &&& 0xF0) >>> 4) ::
      digit ((c2.toNat &&& 0x0F) <<< 2 ||| (c3.toNat &&& 0xC0) >>> 6) ::
      digit (c3.toNat &&& 0x3F) :: text) =
    (Base64.decode text).map fun tail => c1 :: c2 :: c3 :: tail := by
  have b1 := c1.toNat_lt
  have b2 := c2.toNat_lt
  have b3 := c3.toNat_lt
  rw [high_six, middle_one, middle_two, low_six]
  refine (Base64.decode_group (digit_value (by omega)) (digit_value (by omega))
    (digit_value (by omega)) (digit_value (by omega)) text).trans ?_
  have one : Base64.byteOne (c1.toNat / 4) (c1.toNat % 4 * 16 + c2.toNat / 16) = c1 :=
    byte_back (by omega)
  have two : Base64.byteTwo (c1.toNat % 4 * 16 + c2.toNat / 16)
      (c2.toNat % 16 * 4 + c3.toNat / 64) = c2 := byte_back (by omega)
  have three : Base64.byteThree (c2.toNat % 16 * 4 + c3.toNat / 64) (c3.toNat % 64) = c3 :=
    byte_back (by omega)
  rw [one, two, three]

theorem decode_last_one (c1 : UInt8) : Base64.decode (encodeGroups 0 [c1]) = some [c1] := by
  have b1 := c1.toNat_lt
  show Base64.decode (digit _ :: digit _ :: '=' :: '=' :: eol) = _
  rw [high_six, low_two]
  refine (Base64.decode_one (digit_value (by omega)) (digit_value (by omega)) eol_breaks).trans ?_
  have one : Base64.byteOne (c1.toNat / 4) (c1.toNat % 4 * 16) = c1 := byte_back (by omega)
  rw [one]

theorem decode_last_two (c1 c2 : UInt8) :
    Base64.decode (encodeGroups 0 [c1, c2]) = some [c1, c2] := by
  have b1 := c1.toNat_lt
  have b2 := c2.toNat_lt
  show Base64.decode (digit _ :: digit _ :: digit _ :: '=' :: eol) = _
  rw [high_six, middle_one, low_four]
  refine (Base64.decode_two (digit_value (by omega)) (digit_value (by omega))
    (digit_value (by omega)) eol_breaks).trans ?_
  have one : Base64.byteOne (c1.toNat / 4) (c1.toNat % 4 * 16 + c2.toNat / 16) = c1 :=
    byte_back (by omega)
  have two : Base64.byteTwo (c1.toNat % 4 * 16 + c2.toNat / 16) (c2.toNat % 16 * 4) = c2 :=
    byte_back (by omega)
  rw [one, two]

theorem decode_encodeGroups (iLineLen : Nat) (bytes : List UInt8) :
    Base64.decode (encodeGroups iLineLen bytes) = some bytes := by
  induction iLineLen, bytes using encodeGroups.induct with
  | case1 iLineLen c1 c2 c3 rest long ih =>
    rw [encodeGroups, if_pos long]
    refine (decode_bytes c1 c2 c3 (eol ++ encodeGroups 0 rest)).trans ?_
    rw [decode_eol, ih]
    rfl
  | case2 iLineLen c1 c2 c3 rest short ih =>
    rw [encodeGroups, if_neg short]
    refine (decode_bytes c1 c2 c3 (encodeGroups (iLineLen + 4) rest)).trans ?_
    rw [ih]
    rfl
  | case3 => exact (decode_eol []).trans rfl
  | case4 _ c1 => exact decode_last_one c1
  | case5 _ c1 c2 => exact decode_last_two c1 c2

/-- Four characters for each group begun, and a line break after every nineteenth full group and
at the end. -/
theorem encodeGroups_length (iLineLen : Nat) (bytes : List UInt8)
    (aligned : iLineLen % 4 = 0) (short : iLineLen < base64MaxLine) :
    (encodeGroups iLineLen bytes).length =
      (bytes.length + 2) / 3 * 4 + 2 * ((iLineLen + bytes.length / 3 * 4) / base64MaxLine) + 2 := by
  induction iLineLen, bytes using encodeGroups.induct with
  | case1 iLineLen c1 c2 c3 rest long ih =>
    rw [encodeGroups, if_pos long]
    have := ih rfl (by decide)
    simp only [eol, List.length_append, List.length_cons, List.length_nil]
    unfold base64MaxLine at *
    omega
  | case2 iLineLen c1 c2 c3 rest more ih =>
    rw [encodeGroups, if_neg more]
    unfold base64MaxLine at *
    have := ih (by omega) (by omega)
    simp only [List.length_append, List.length_cons, List.length_nil]
    omega
  | case3 | case4 | case5 =>
    simp only [encodeGroups, eol, List.length_append, List.length_cons, List.length_nil]
    unfold base64MaxLine at *
    omega

theorem digit_plain (i : Nat) : Base64.isBreak (digit i) = false := by
  rcases Nat.lt_or_ge i 64 with small | large
  · exact (Base64.value_plain (digit_value small)).2
  · have outside : digit i = '\x00' := by
      unfold digit
      rw [List.getD_eq_getElem?_getD, List.getElem?_eq_none large]
      rfl
    rw [outside]
    rfl

/-- Before the last line break there are only those after the full lines. -/
theorem encodeGroups_lines (iLineLen : Nat) (bytes : List UInt8)
    (aligned : iLineLen % 4 = 0) (short : iLineLen < base64MaxLine) :
    ∃ text, encodeGroups iLineLen bytes = text ++ eol ∧
      text.countP Base64.isBreak =
        2 * ((iLineLen + bytes.length / 3 * 4) / base64MaxLine) := by
  induction iLineLen, bytes using encodeGroups.induct with
  | case1 iLineLen c1 c2 c3 rest long ih =>
    obtain ⟨text, written, breaks⟩ := ih rfl (by decide)
    rw [encodeGroups, if_pos long, written]
    refine ⟨_, (List.append_assoc ..).symm, ?_⟩
    have two : eol.countP Base64.isBreak = 2 := by decide
    simp only [List.countP_append, List.countP_cons, List.countP_nil, digit_plain, breaks, two,
      List.length_cons, Bool.false_eq_true, if_false]
    unfold base64MaxLine at *
    omega
  | case2 iLineLen c1 c2 c3 rest more ih =>
    have room : iLineLen + 4 < base64MaxLine := by
      unfold base64MaxLine at *
      omega
    obtain ⟨text, written, breaks⟩ := ih (by omega) room
    rw [encodeGroups, if_neg more, written]
    refine ⟨_, (List.append_assoc ..).symm, ?_⟩
    simp only [List.countP_append, List.countP_cons, List.countP_nil, digit_plain, breaks,
      List.length_cons, Bool.false_eq_true, if_false]
    unfold base64MaxLine at *
    omega
  | case3 =>
    refine ⟨[], rfl, ?_⟩
    unfold base64MaxLine at *
    simp only [List.countP_nil, List.length_nil]
    omega
  | case4 _ c1 | case5 _ c1 c2 =>
    refine ⟨_, rfl, ?_⟩
    have pad : Base64.isBreak '=' = false := rfl
    simp only [List.countP_cons, List.countP_nil, digit_plain, pad, List.length_cons,
      List.length_nil, Bool.false_eq_true, if_false]
    unfold base64MaxLine at *
    omega

/-- EncodeBase64 refuses a buffer only for being smaller than `Base64BufferSize`; else the text
reads back as the bytes and is ended by a NUL, all within that size. -/
theorem base64_round_trip (pccInStr : List UInt8) (iMaxOutSize : Int) :
    match encodeBase64 pccInStr iMaxOutSize with
    | none => iMaxOutSize < base64BufferSize pccInStr.length
    | some encoded =>
      Base64.decode (encoded.pccOutStr.take encoded.piOutLen) = some pccInStr ∧
        encoded.pccOutStr.drop encoded.piOutLen = ['\x00'] ∧
        encoded.pccOutStr.length ≤ base64BufferSize pccInStr.length := by
  unfold encodeBase64
  split
  · rename_i refused
    split at refused
    · rename_i small
      have room : 3 ≤ base64BufferSize pccInStr.length :=
        Nat.le_trans (Nat.le_add_left 3 _) (Nat.le_add_left _ _)
      omega
    · cases refused
  · rename_i encoded taken
    split at taken
    · cases taken
    · cases taken
      dsimp only
      rw [List.take_left, List.drop_left]
      refine ⟨decode_encodeGroups 0 pccInStr, rfl, ?_⟩
      rw [List.length_append, encodeGroups_length 0 pccInStr rfl (by decide)]
      unfold base64BufferSize
      simp only [eol, base64MaxLine, List.length_cons, List.length_nil]
      omega

/-- Nothing in `Base64BufferSize` leaves the range of an int below one and a half gigabytes. -/
theorem base64BufferSize_int {iInputSize : Nat} (fits : iInputSize ≤ 1569000000) :
    base64BufferSize iInputSize < 2147483648 := by
  unfold base64BufferSize
  simp only [eol, base64MaxLine, List.length_cons, List.length_nil]
  omega

end Rovio.Mail
