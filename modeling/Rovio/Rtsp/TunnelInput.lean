import Rovio.Kit.Base64
import Rovio.Kit.Buffer

/-! The input of an RTSP tunnel: base64 text that comes in pieces is decoded for the RTSP server. -/
namespace Rovio.Rtsp

open Kit

/-- The input's part of `RTSP_TUNNEL_T`, and what has been written to the RTSP server. -/
structure TunnelInput where
  acInput : List Char
  szInput : Nat
  written : List UInt8

variable (DecodeBase64 : List Char → List UInt8)

/-- `DecodeBase64` to `acDecode` of 256 bytes, and `write` without the tailing zero. What
`DecodeBase64` puts into the buffer has the length it returns. -/
def TunnelInput.decode (s : TunnelInput) (text : List Char) : Option TunnelInput :=
  let acDecode := DecodeBase64 text
  if acDecode.length ≤ 256 then
    some { s with written := s.written ++ acDecode.take (acDecode.length - 1) }
  else none

/-- `szLen` for a piece of which so many characters are left. -/
def groupsLength (iFillDataLen : Nat) : Nat :=
  let szLen := iFillDataLen / 4 * 4
  if szLen ≥ 256 / 3 * 4 then 256 / 3 * 4 else szLen

theorem groupsLength_bounds {iFillDataLen : Nat} (some : 4 ≤ iFillDataLen) :
    0 < groupsLength iFillDataLen ∧ groupsLength iFillDataLen ≤ iFillDataLen ∧
      groupsLength iFillDataLen % 4 = 0 ∧ groupsLength iFillDataLen ≤ 340 := by
  unfold groupsLength
  dsimp only
  split <;> omega

/-- The loop over the whole groups, with what it leaves of the piece. -/
def decodeGroups (s : TunnelInput) (pcFillData : List Char) : Option (TunnelInput × List Char) :=
  if 4 ≤ pcFillData.length then
    if groupsLength pcFillData.length ≤ 0 then some (s, pcFillData)
    else
      (s.decode DecodeBase64 (pcFillData.take (groupsLength pcFillData.length))).bind fun s =>
        decodeGroups s (pcFillData.drop (groupsLength pcFillData.length))
  else some (s, pcFillData)
termination_by pcFillData.length
decreasing_by
  rw [List.length_drop]
  omega

/-- `szLen` for the group that has been begun. -/
def fillLength (szInput iFillDataLen : Nat) : Nat :=
  let szLen := 4 - szInput
  if szLen > iFillDataLen then iFillDataLen else szLen

theorem fillLength_eq (szInput iFillDataLen : Nat) :
    fillLength szInput iFillDataLen = min iFillDataLen (4 - szInput) := by
  unfold fillLength
  dsimp only
  split <;> omega

/-- Fills up the group that has been begun, with what is left of the piece. -/
def TunnelInput.fill (s : TunnelInput) (pcFillData : List Char) :
    Option (TunnelInput × List Char) :=
  if s.szInput ≠ 0 then
    let szLen := fillLength s.szInput pcFillData.length
    (put s.acInput s.szInput (pcFillData.take szLen)).bind fun acInput =>
      let s := { s with acInput, szInput := s.szInput + szLen }
      if s.szInput ≤ 4 then
        if s.szInput ≥ 4 then
          (s.decode DecodeBase64 (s.acInput.take s.szInput)).map fun s =>
            ({ s with szInput := 0 }, pcFillData.drop szLen)
        else some (s, pcFillData.drop szLen)
      else none
  else some (s, pcFillData)

/-- Keeps the beginning of a group. -/
def TunnelInput.keep (s : TunnelInput) (pcFillData : List Char) : Option TunnelInput :=
  if s.szInput + pcFillData.length < 4 then
    (put s.acInput s.szInput pcFillData).map fun acInput =>
      { s with acInput, szInput := s.szInput + pcFillData.length }
  else none

/-- None when an assertion fails or a buffer is overrun. -/
def rtspTunnelReadData (s : TunnelInput) (pcFillData : List Char) : Option TunnelInput :=
  (s.fill DecodeBase64 pcFillData).bind fun (s, rest) =>
    (decodeGroups DecodeBase64 s rest).bind fun (s, rest) => s.keep rest

/-- The input of a tunnel as `rtspTunnelCreate` leaves it. -/
def rtspTunnelCreate (acInput : List Char) : TunnelInput := ⟨acInput, 0, []⟩

def readPieces (s : TunnelInput) (pieces : List (List Char)) : Option TunnelInput :=
  pieces.foldlM (rtspTunnelReadData DecodeBase64) s

/-- The front of a text that is made of whole groups. -/
def wholeGroups (text : List Char) : List Char := text.take (text.length / 4 * 4)

/-! ### Decoding -/

section Decoding
variable {DecodeBase64}

/-- Each whole group of the text can be decoded. -/
def Decodable (text : List Char) : Prop :=
  ∀ front back, text = front ++ back → front.length % 4 = 0 → ∃ bytes, Base64.groups front =
    some bytes

theorem decodable_of_groups {text : List Char} {bytes : List UInt8}
    (decoded : Base64.groups (wholeGroups text) = some bytes) : Decodable text := by
  rintro front back rfl whole
  have inside : front.length ≤ (front ++ back).length / 4 * 4 := by
    rw [List.length_append]
    omega
  have cut : wholeGroups (front ++ back) =
      front ++ back.take ((front ++ back).length / 4 * 4 - front.length) := by
    rw [wholeGroups, List.take_append, List.take_of_length_le inside]
  rw [cut] at decoded
  obtain ⟨x, -, first, -⟩ := Base64.groups_append whole decoded
  exact ⟨x, first⟩

/-- The groups up to here have been decoded; `kept` are the characters of the next one. -/
structure Fed (done kept : List Char) (s : TunnelInput) : Prop where
  size : s.acInput.length = 4
  groups : done.length % 4 = 0
  written : Base64.groups done = some s.written
  szInput : s.szInput = kept.length
  input : s.acInput.take s.szInput = kept
  short : kept.length < 4

/-- A text of whole groups that follows them, no longer than the decode buffer allows. -/
theorem decode_fed
    (decodes : ∀ text bytes, Base64.groups text = some bytes → DecodeBase64 text = bytes ++ [0])
    {text done front back : List Char} {s : TunnelInput} (decodable : Decodable text)
    (whole : text = done ++ (front ++ back)) (groups : done.length % 4 = 0)
    (written : Base64.groups done = some s.written) (more : front.length % 4 = 0)
    (short : front.length ≤ 340) :
    ∃ bytes, s.decode DecodeBase64 front = some { s with written := s.written ++ bytes } ∧
      Base64.groups (done ++ front) = some (s.written ++ bytes) := by
  obtain ⟨all, decoded⟩ := decodable (done ++ front) back
    (whole.trans (List.append_assoc _ _ _).symm) (by rw [List.length_append]; omega)
  obtain ⟨x, bytes, first, second, rfl⟩ := Base64.groups_append groups decoded
  rw [written] at first
  cases first
  have length := Base64.groups_length second
  refine ⟨bytes, ?_, decoded⟩
  unfold TunnelInput.decode
  rw [decodes front bytes second]
  dsimp only
  rw [List.length_append, List.length_singleton, Nat.add_sub_cancel, List.take_left,
    if_pos (by omega)]

/-- The loop over the groups leaves less than a group. -/
theorem decodeGroups_fed
    (decodes : ∀ text bytes, Base64.groups text = some bytes → DecodeBase64 text = bytes ++ [0])
    {text done piece : List Char} {s : TunnelInput} (decodable : Decodable text)
    (whole : text = done ++ piece) (groups : done.length % 4 = 0)
    (written : Base64.groups done = some s.written) :
    ∃ front rest t, piece = front ++ rest ∧ rest.length < 4 ∧ front.length % 4 = 0 ∧
      decodeGroups DecodeBase64 s piece = some ({ s with written := t }, rest) ∧
      Base64.groups (done ++ front) = some t := by
  fun_induction decodeGroups DecodeBase64 s piece generalizing done with
  | case1 s piece some none => exact absurd (groupsLength_bounds some).1 (Nat.not_lt.mpr none)
  | case2 s piece some _ ih =>
    obtain ⟨-, inside, more, short⟩ := groupsLength_bounds some
    have length : (piece.take (groupsLength piece.length)).length = groupsLength piece.length :=
      List.length_take_of_le inside
    have parts := List.take_append_drop (groupsLength piece.length) piece
    obtain ⟨bytes, decoded, further⟩ := decode_fed decodes decodable (by rw [parts]; exact whole)
      groups written (by rw [length]; exact more) (by rw [length]; exact short)
    rw [decoded, Option.bind_some]
    obtain ⟨front, rest, t, cut, few, even, run, last⟩ :=
      @ih { s with written := s.written ++ bytes }
      (done ++ piece.take (groupsLength piece.length))
      (by rw [List.append_assoc, parts]; exact whole)
      (by rw [List.length_append, length]; omega) further
    refine ⟨piece.take (groupsLength piece.length) ++ front, rest, t, ?_, few, ?_, run, ?_⟩
    · rw [List.append_assoc, ← cut, parts]
    · rw [List.length_append, length]
      omega
    · rw [← List.append_assoc]
      exact last
  | case3 s piece few =>
    refine ⟨[], piece, s.written, rfl, Nat.not_le.mp few, rfl, rfl, ?_⟩
    rw [List.append_nil]
    exact written

/-- The beginning of a group in the buffer. -/
theorem put_kept {buffer kept more after : List Char} (held : buffer.take kept.length = kept)
    (stored : put buffer kept.length more = some after) :
    after.take (kept.length + more.length) = kept ++ more := by
  rw [put_take stored, held]

/-- A piece after which groups may be begun anew. -/
theorem keep_fed {done rest : List Char} {s : TunnelInput} (size : s.acInput.length = 4)
    (groups : done.length % 4 = 0) (written : Base64.groups done = some s.written)
    {kept : List Char} (szInput : s.szInput = kept.length) (input : s.acInput.take s.szInput = kept)
    (short : kept.length + rest.length < 4) :
    ∃ t, s.keep rest = some t ∧ Fed done (kept ++ rest) t := by
  rw [szInput] at input
  obtain ⟨after, stored⟩ := @put_isSome Char s.acInput rest kept.length (by omega)
  refine ⟨{ s with acInput := after, szInput := kept.length + rest.length }, ?_, ?_⟩
  · unfold TunnelInput.keep
    rw [szInput, if_pos short, stored, Option.map_some]
  · have length : (kept ++ rest).length = kept.length + rest.length := List.length_append
    exact ⟨(put_length stored).trans size, groups, written, length.symm, put_kept input stored,
      by rw [length]; exact short⟩

/-- A piece behind whole groups. -/
theorem rest_fed
    (decodes : ∀ text bytes, Base64.groups text = some bytes → DecodeBase64 text = bytes ++ [0])
    {text done piece : List Char} {s : TunnelInput} (decodable : Decodable text)
    (whole : text = done ++ piece) (fed : Fed done [] s) :
    ∃ t done' kept', text = done' ++ kept' ∧ Fed done' kept' t ∧
      (decodeGroups DecodeBase64 s piece).bind (fun (s, rest) => s.keep rest) = some t := by
  obtain ⟨front, rest, bytes, rfl, few, even, run, decoded⟩ :=
    decodeGroups_fed decodes decodable whole fed.groups fed.written
  obtain ⟨t, kept, last⟩ := @keep_fed (done ++ front) rest { s with written := bytes } fed.size
    (by rw [List.length_append]; have := fed.groups; omega) decoded [] fed.szInput fed.input
    (by rw [List.length_nil]; omega)
  refine ⟨t, done ++ front, rest, by rw [whole, List.append_assoc], last, ?_⟩
  rw [run, Option.bind_some]
  exact kept

/-- The group that has been begun is filled up, or all of the piece is used for it. -/
theorem fill_fed
    (decodes : ∀ text bytes, Base64.groups text = some bytes → DecodeBase64 text = bytes ++ [0])
    {text done kept piece : List Char} {s : TunnelInput} (decodable : Decodable text)
    (whole : text = done ++ kept ++ piece) (fed : Fed done kept s) :
    ∃ t rest done' kept', s.fill DecodeBase64 piece = some (t, rest) ∧
      text = done' ++ kept' ++ rest ∧ Fed done' kept' t ∧ (kept' = [] ∨ rest = []) := by
  obtain ⟨size, groups, written, szInput, input, short⟩ := fed
  have fed : Fed done kept s := ⟨size, groups, written, szInput, input, short⟩
  unfold TunnelInput.fill
  rcases Nat.eq_zero_or_pos kept.length with none | some
  · rw [if_neg (fun some => some (szInput.trans none))]
    exact ⟨s, piece, done, kept, rfl, whole, fed, .inl (List.eq_nil_of_length_eq_zero none)⟩
  · rw [if_pos (by omega)]
    rw [szInput] at input ⊢
    dsimp only
    have size_m := fillLength_eq kept.length piece.length
    generalize fillLength kept.length piece.length = m at size_m
    have length : (piece.take m).length = m := by
      rw [List.length_take]
      omega
    obtain ⟨after, stored⟩ := @put_isSome Char s.acInput (piece.take m) kept.length (by omega)
    have held := put_kept input stored
    rw [length] at held
    rw [stored, Option.bind_some]
    rw [if_pos (by omega), held]
    have cut : text = done ++ (kept ++ piece.take m ++ piece.drop m) := by
      rw [whole, List.append_assoc, List.append_assoc, List.take_append_drop]
    split
    · rename_i full
      have group : (kept ++ piece.take m).length = 4 := by
        rw [List.length_append, length]
        omega
      obtain ⟨bytes, run, decoded⟩ := @decode_fed _ decodes text done (kept ++ piece.take m)
        (piece.drop m) { s with acInput := after, szInput := kept.length + m } decodable cut groups
        written (by rw [group]) (by rw [group]; omega)
      rw [run, Option.map_some]
      refine ⟨_, _, done ++ (kept ++ piece.take m), [], rfl, ?_, ?_, .inl rfl⟩
      · rw [cut, List.append_nil]
        simp only [List.append_assoc]
      · refine ⟨(put_length stored).trans size, ?_, decoded, rfl, rfl, Nat.succ_pos 3⟩
        rw [List.length_append, group]
        omega
    · rename_i few
      have all : m = piece.length := by omega
      refine ⟨_, _, done, kept ++ piece.take m, rfl, ?_, ?_, .inr ?_⟩
      · rw [cut]
        simp only [List.append_assoc]
      · refine ⟨(put_length stored).trans size, groups, written, ?_, held, ?_⟩
        · rw [List.length_append, length]
        · rw [List.length_append, length]
          omega
      · rw [all, List.drop_length]

/-- A call. -/
theorem read_fed
    (decodes : ∀ text bytes, Base64.groups text = some bytes → DecodeBase64 text = bytes ++ [0])
    {text done kept piece : List Char} {s : TunnelInput} (decodable : Decodable text)
    (whole : text = done ++ kept ++ piece) (fed : Fed done kept s) :
    ∃ t done' kept', text = done' ++ kept' ∧ Fed done' kept' t ∧
      rtspTunnelReadData DecodeBase64 s piece = some t := by
  obtain ⟨t, rest, done', kept', filled, same, fed', either⟩ := fill_fed decodes decodable whole fed
  unfold rtspTunnelReadData
  rw [filled, Option.bind_some]
  rcases either with rfl | rfl
  · rw [List.append_nil] at same
    exact rest_fed decodes decodable same fed'
  · rw [List.append_nil] at same
    have short := fed'.short
    obtain ⟨u, kept, last⟩ := keep_fed fed'.size fed'.groups fed'.written fed'.szInput fed'.input
      (show kept'.length + ([] : List Char).length < 4 from short)
    have none : decodeGroups DecodeBase64 t [] = some (t, []) := by
      rw [decodeGroups, if_neg (by decide)]
    dsimp only
    rw [none, Option.bind_some]
    rw [List.append_nil] at last
    exact ⟨u, done', kept', same, last, kept⟩

/-- All calls. -/
theorem readPieces_fed
    (decodes : ∀ text bytes, Base64.groups text = some bytes → DecodeBase64 text = bytes ++ [0])
    (pieces : List (List Char)) {text done kept : List Char} {s : TunnelInput}
    (decodable : Decodable text) (whole : text = done ++ kept ++ pieces.flatten)
    (fed : Fed done kept s) :
    ∃ t done' kept', text = done' ++ kept' ∧ Fed done' kept' t ∧
      readPieces DecodeBase64 s pieces = some t := by
  induction pieces generalizing s done kept with
  | nil =>
    rw [List.flatten_nil, List.append_nil] at whole
    exact ⟨s, done, kept, whole, fed, rfl⟩
  | cons piece pieces ih =>
    rw [List.flatten_cons, ← List.append_assoc] at whole
    have front : Decodable (done ++ kept ++ piece) := by
      intro a b cut groups
      exact decodable a (b ++ pieces.flatten) (by rw [whole, cut, List.append_assoc]) groups
    obtain ⟨t, done', kept', same, fed', run⟩ := read_fed decodes front rfl fed
    rw [readPieces, List.foldlM_cons, run]
    exact ih (by rw [whole, same]) fed'

end Decoding

/-- However a text is cut, the RTSP server is sent the decoding of its whole groups, the assertions
hold and no buffer is overrun. -/
theorem tunnel_input_decoded (DecodeBase64 : List Char → List UInt8)
    (decodes : ∀ text bytes, Base64.groups text = some bytes → DecodeBase64 text = bytes ++ [0])
    (acInput : { chars : List Char // chars.length = 4 }) (text : List Char) (bytes : List UInt8)
    (base64 : Base64.groups (wholeGroups text) = some bytes) (pieces : List (List Char))
    (cut : pieces.flatten = text) :
    ∃ t, readPieces DecodeBase64 (rtspTunnelCreate acInput.val) pieces = some t ∧
      t.written = bytes ∧ t.szInput < 4 ∧ t.acInput.length = 4 := by
  have start : Fed [] [] (rtspTunnelCreate acInput.val) :=
    ⟨acInput.property, rfl, rfl, rfl, rfl, Nat.succ_pos 3⟩
  obtain ⟨t, done, kept, same, fed, run⟩ := readPieces_fed decodes pieces
    (decodable_of_groups base64) (by rw [List.nil_append, List.nil_append, cut]) start
  have groups := fed.groups
  have short := fed.short
  have front : wholeGroups text = done := by
    rw [wholeGroups, same, List.length_append,
      show (done.length + kept.length) / 4 * 4 = done.length by omega, List.take_left]
  rw [front, fed.written] at base64
  refine ⟨t, run, Option.some.inj base64, ?_, fed.size⟩
  rw [fed.szInput]
  exact short

theorem tunnel_input_decoded_three : ∃ t,
    readPieces (fun text => ((Base64.groups text).getD []) ++ [0])
      (rtspTunnelCreate ['-', '-', '-', '-'])
      [['T'], ['W', 'F', 'u'], ['T', 'Q', '=', '=', 'x']] = some t ∧
      t.written = [77, 97, 110, 77] ∧ t.szInput < 4 ∧ t.acInput.length = 4 :=
  tunnel_input_decoded _
    (by
      intro text bytes decoded
      rw [decoded, Option.getD_some])
    ⟨['-', '-', '-', '-'], rfl⟩ ['T', 'W', 'F', 'u', 'T', 'Q', '=', '=', 'x'] _
    (by decide) _ rfl

end Rovio.Rtsp
