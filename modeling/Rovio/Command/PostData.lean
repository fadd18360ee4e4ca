import Rovio.Kit.Buffer
import Mathlib.Data.List.Infix

/-! The body of a POST request, collected for the command runner while the server hands it over
piece by piece. -/
namespace Rovio.Command
open Kit

def maxPostLength : Int := 10 * 1024

/-- The variables that the server keeps for a request, and what it says of the connection: the
length that the client declared, an `int`, and the memory that malloc finds. -/
structure PostBuf where
  piPostBufLen : Int
  ppcPostBuf : Option (List UInt8)
  piPostDataLen : Nat

structure Posted where
  contentLength : BitVec 32
  memory : Option (Nat → UInt8)

def PostBuf.start : PostBuf := ⟨0, none, 0⟩

/-- What a request comes to: a text for the command runner, with the caller's parameter, or the
message that there is none. -/
inductive PostAnswer (P : Type) where
  | tooMany
  | ran (pParam : P) (text : List UInt8)
  deriving DecidableEq

/-- The length of the buffer. The sum is the machine's, which wraps. -/
def postBufLen (contentLength : BitVec 32) : Int :=
  let iPostBufLen := (contentLength + 8).toInt
  if iPostBufLen < 8 then 8 else iPostBufLen

def postBegin (c : Posted) (s : PostBuf) : PostBuf :=
  if s.piPostBufLen = 0 then
    let iPostBufLen := postBufLen c.contentLength
    if iPostBufLen < maxPostLength then
      { piPostBufLen := iPostBufLen
        ppcPostBuf := c.memory.map (List.range iPostBufLen.toNat).map
        piPostDataLen := 0 }
    else { s with piPostBufLen := iPostBufLen }
  else s

/-- A piece that does not fit is left out. It comes from a buffer of the server, so the sum does not
wrap. -/
def postAdd (iPostBufLen : Int) (pcPostBuf : List UInt8) (iPostDataLen : Nat)
    (pcFillData : List UInt8) : Option (List UInt8 × Nat) :=
  if (iPostDataLen : Int) + pcFillData.length < iPostBufLen then
    (put pcPostBuf iPostDataLen pcFillData).map (·, iPostDataLen + pcFillData.length)
  else some (pcPostBuf, iPostDataLen)

/-- The zero behind the text, put further forward where there is a line end. -/
def postEnd (pcPostBuf : List UInt8) (iPostDataLen : Nat) : Option (List UInt8 × Nat) := do
  let buf ← put pcPostBuf iPostDataLen [0]
  if iPostDataLen ≥ 1 ∧ buf[iPostDataLen - 1]? = some 10 then
    let buf ← put buf (iPostDataLen - 1) [0]
    if iPostDataLen - 1 ≥ 1 ∧ buf[iPostDataLen - 1 - 1]? = some 13 then
      let buf ← put buf (iPostDataLen - 1 - 1) [0]
      some (buf, iPostDataLen - 1 - 1)
    else some (buf, iPostDataLen - 1)
  else some (buf, iPostDataLen)

variable {P : Type}

/-- None where something is stored outside the buffer. -/
def httpPostDataGet (c : Posted) (pCoParam : Option P) (s : PostBuf) (pcFillData : List UInt8)
    (iIsMoreData : Bool) : Option (PostBuf × Option (PostAnswer P)) :=
  let s := postBegin c s
  match s.ppcPostBuf with
  | none => some (s, if iIsMoreData then none else some .tooMany)
  | some pcPostBuf => do
    let (buf, len) ← postAdd s.piPostBufLen pcPostBuf s.piPostDataLen pcFillData
    if iIsMoreData then some ({ s with ppcPostBuf := some buf, piPostDataLen := len }, none)
    else
      let (buf, len) ← postEnd buf len
      some (.start, pCoParam.map fun pParam => .ran pParam (buf.take len))

/-- The pieces one after another, the last of them the last one of the request. -/
def postPieces (c : Posted) (pCoParam : Option P) :
    PostBuf → List (List UInt8) → Option (PostBuf × Option (PostAnswer P))
  | s, [] => some (s, none)
  | s, [last] => httpPostDataGet c pCoParam s last false
  | s, piece :: rest => do
    let (s, _) ← httpPostDataGet c pCoParam s piece true
    postPieces c pCoParam s rest

inductive Method where
  | get | post | other

/-- What is set up for a connection. -/
inductive ConnInit (P : Type) where
  | postDataFun (pCoParam : Option P)
  | noMemory
  | answered (answer : PostAnswer P)
  | refused

/-- The runner gets the query of a GET at once, and the body of a POST when it is there. -/
def httpConnInit (method : Method) (memory : Bool) (pcQuery : Option (List UInt8)) (pParam : P) :
    ConnInit P :=
  match method with
  | .post => if memory then .postDataFun (some pParam) else .noMemory
  | .get => .answered (.ran pParam (pcQuery.getD []))
  | .other => .refused

/-- A request with the pieces of its body. -/
def httpRequest (c : Posted) (init : ConnInit P) (pieces : List (List UInt8)) :
    Option (PostBuf × Option (PostAnswer P)) :=
  match init with
  | .postDataFun pCoParam => postPieces c pCoParam .start pieces
  | .answered answer => some (.start, some answer)
  | .noMemory => some (.start, none)
  | .refused => some (.start, none)

/-- What a POST comes to for which there was memory at the start. -/
def postAnswer (c : Posted) (pParam : P) (pieces : List (List UInt8)) : Option (PostAnswer P) :=
  (httpRequest c (httpConnInit .post true none pParam) pieces).bind Prod.snd

/-! ### The buffer -/

/-- The buffer has the length noted, and holds so many bytes with room for the zero. -/
structure Holding (s : PostBuf) (buf : List UInt8) : Prop where
  held : s.ppcPostBuf = some buf
  size : (buf.length : Int) = s.piPostBufLen
  room : (s.piPostDataLen : Int) < s.piPostBufLen

variable {c : Posted} {s : PostBuf} {buf piece : List UInt8} {pCoParam : Option P} {len : Nat}

theorem postBufLen_least (contentLength : BitVec 32) : 8 ≤ postBufLen contentLength := by
  unfold postBufLen
  dsimp only
  split <;> omega

/-- A piece is added whole or not at all. -/
theorem postAdd_run (size : (buf.length : Int) = s.piPostBufLen)
    (room : (len : Int) < s.piPostBufLen) :
    ∃ after added, postAdd s.piPostBufLen buf len piece = some (after, len + added.length) ∧
      after.length = buf.length ∧ ((len + added.length : Nat) : Int) < s.piPostBufLen ∧
      after.take (len + added.length) = buf.take len ++ added ∧
      added = if (len : Int) + piece.length < s.piPostBufLen then piece else [] := by
  unfold postAdd
  split
  next fits =>
    obtain ⟨after, stored⟩ : ∃ after, put buf len piece = some after :=
      put_isSome (by omega)
    rw [stored]
    exact ⟨after, piece, rfl, put_length stored, by omega, put_take stored, rfl⟩
  next full => exact ⟨buf, [], rfl, rfl, by simpa using room, by simp, rfl⟩

/-- A text without one line end behind it. -/
def withoutLineEnd (body : List UInt8) : List UInt8 :=
  if [13, 10] <:+ body then body.dropLast.dropLast
  else if [10] <:+ body then body.dropLast
  else body

theorem suffix_singleton {a : UInt8} {l : List UInt8} : [a] <:+ l ↔ l.getLast? = some a := by
  rw [List.getLast?_eq_some_iff]
  constructor
  · rintro ⟨front, rfl⟩
    exact ⟨front, rfl⟩
  · rintro ⟨front, rfl⟩
    exact ⟨front, rfl⟩

theorem suffix_pair {a b : UInt8} {l : List UInt8} :
    [a, b] <:+ l ↔ l.getLast? = some b ∧ l.dropLast.getLast? = some a := by
  constructor
  · rintro ⟨front, rfl⟩
    simp [List.dropLast_append_of_ne_nil]
  · rintro ⟨last, before⟩
    obtain ⟨front, rfl⟩ := List.getLast?_eq_some_iff.mp last
    rw [List.dropLast_concat] at before
    obtain ⟨front, rfl⟩ := List.getLast?_eq_some_iff.mp before
    exact ⟨front, by simp⟩

theorem withoutLineEnd_lf {body : List UInt8} (last : body.getLast? = some 10) :
    withoutLineEnd body =
      if body.dropLast.getLast? = some 13 then body.dropLast.dropLast else body.dropLast := by
  rw [withoutLineEnd]
  by_cases before : body.dropLast.getLast? = some 13
  · rw [if_pos (suffix_pair.mpr ⟨last, before⟩), if_pos before]
  · rw [if_neg fun pair => before (suffix_pair.mp pair).2, if_pos (suffix_singleton.mpr last),
      if_neg before]

theorem withoutLineEnd_none {body : List UInt8} (other : body.getLast? ≠ some 10) :
    withoutLineEnd body = body := by
  rw [withoutLineEnd, if_neg fun pair => other (suffix_pair.mp pair).1,
    if_neg (mt suffix_singleton.mp other)]

/-- What the test before the zero sees. -/
theorem last_seen {after : List UInt8} (same : after.take len = buf.take len)
    (room : len ≤ after.length) (a : UInt8) :
    (len ≥ 1 ∧ after[len - 1]? = some a) ↔ (buf.take len).getLast? = some a := by
  cases len with
  | zero => simp
  | succ n => rw [getElem?_pred_take (Nat.le_add_left 1 n) room, same, and_iff_right (by omega)]

/-- The zero is stored inside the buffer, and before it is the text without a line end. -/
theorem postEnd_run (room : len < buf.length) :
    ∃ after n, postEnd buf len = some (after, n) ∧ after.take n = withoutLineEnd (buf.take len) ∧
      after[n]? = some 0 := by
  have fits : ∀ {b : List UInt8} {k : Nat}, b.length = buf.length → k ≤ len →
      ∃ after, put b k [0] = some after ∧ after.length = buf.length ∧ after[k]? = some 0 ∧
        after.take k = b.take k := by
    intro b k size inside
    obtain ⟨after, stored⟩ : ∃ after, put b k [0] = some after := by
      apply put_isSome
      simp only [List.length_singleton]
      omega
    have zero := put_get stored (Nat.zero_lt_one : 0 < [(0 : UInt8)].length)
    exact ⟨after, stored, (put_length stored).trans size, zero,
      put_take_before stored (Nat.le_refl k)⟩
  obtain ⟨first, stored, size, zero, front⟩ := fits rfl (Nat.le_refl len)
  have seen := last_seen front (by omega) 10
  unfold postEnd
  rw [stored, Option.bind_eq_bind, Option.bind_some]
  by_cases lf : (buf.take len).getLast? = some 10
  · have low := (seen.mpr lf).1
    have short : (buf.take len).dropLast = first.take (len - 1) := by
      rw [← front, List.dropLast_take (by omega)]
    obtain ⟨second, stored', size', zero', front'⟩ := fits size (Nat.sub_le len 1)
    have seen' := last_seen front' (by omega) 13
    rw [if_pos (seen.mpr lf), stored', Option.bind_some, withoutLineEnd_lf lf, short]
    by_cases cr : (first.take (len - 1)).getLast? = some 13
    · have low' := (seen'.mpr cr).1
      obtain ⟨third, stored'', _, zero'', front''⟩ := fits size' (k := len - 1 - 1) (by omega)
      rw [if_pos (seen'.mpr cr), stored'', Option.bind_some, if_pos cr]
      refine ⟨third, len - 1 - 1, rfl, ?_, zero''⟩
      rw [front'', ← front', List.dropLast_take (by omega)]
    · rw [if_neg (mt seen'.mp cr), if_neg cr]
      exact ⟨second, len - 1, rfl, front', zero'⟩
  · rw [if_neg (mt seen.mp lf), withoutLineEnd_none lf]
    exact ⟨first, len, rfl, front, zero⟩

/-! ### The pieces of a request -/

theorem postBegin_holding (held : Holding s buf) : postBegin c s = s := by
  have room := held.room
  rw [postBegin, if_neg (by omega)]

/-- A piece that is not the last one. -/
theorem httpPostDataGet_more (held : Holding s buf) (piece : List UInt8) :
    ∃ s' after added, httpPostDataGet c pCoParam s piece true = some (s', none) ∧
      Holding s' after ∧ s'.piPostBufLen = s.piPostBufLen ∧
      s'.piPostDataLen = s.piPostDataLen + added.length ∧
      after.take s'.piPostDataLen = buf.take s.piPostDataLen ++ added ∧
      added = if (s.piPostDataLen : Int) + piece.length < s.piPostBufLen then piece else [] := by
  obtain ⟨after, added, run, size, room, front, kept⟩ :=
    @postAdd_run s buf piece s.piPostDataLen held.size held.room
  refine ⟨⟨s.piPostBufLen, some after, s.piPostDataLen + added.length⟩, after, added, ?_,
    ⟨rfl, by rw [size, held.size], room⟩, rfl, rfl, front, kept⟩
  unfold httpPostDataGet
  rw [postBegin_holding held]
  simp only [held.held, run, Option.bind_eq_bind, Option.bind_some, if_true]

/-- The last one. -/
theorem httpPostDataGet_last (held : Holding s buf) (piece : List UInt8) :
    ∃ text, httpPostDataGet c pCoParam s piece false =
        some (.start, pCoParam.map (.ran · text)) ∧
      text = withoutLineEnd (buf.take s.piPostDataLen ++
        if (s.piPostDataLen : Int) + piece.length < s.piPostBufLen then piece else []) := by
  obtain ⟨after, added, run, size, room, front, kept⟩ :=
    @postAdd_run s buf piece s.piPostDataLen held.size held.room
  have inside : s.piPostDataLen + added.length < after.length := by
    have whole := held.size
    omega
  obtain ⟨ended, n, done, text, -⟩ := postEnd_run inside
  refine ⟨ended.take n, ?_, ?_⟩
  · unfold httpPostDataGet
    rw [postBegin_holding held]
    simp only [held.held, run, Option.bind_eq_bind, Option.bind_some, done, Bool.false_eq_true,
      if_false]
  · rw [text, front, kept]

/-- From a buffer with bytes in it: whatever follows is stored inside, and all that follows is
kept where it fits. -/
theorem postPieces_holding (held : Holding s buf) {pieces : List (List UInt8)}
    (some : pieces ≠ []) :
    ∃ text, postPieces c pCoParam s pieces = Option.some (.start, pCoParam.map (.ran · text)) ∧
      ((s.piPostDataLen : Int) + pieces.flatten.length < s.piPostBufLen →
        text = withoutLineEnd (buf.take s.piPostDataLen ++ pieces.flatten)) := by
  induction pieces generalizing s buf with
  | nil => exact absurd rfl some
  | cons piece rest ih =>
    cases rest with
    | nil =>
      obtain ⟨text, run, kept⟩ := @httpPostDataGet_last P c s buf pCoParam held piece
      refine ⟨text, run, fun fits => ?_⟩
      rw [List.flatten_singleton] at fits ⊢
      rw [kept, if_pos fits]
    | cons second rest =>
      obtain ⟨s', after, added, run, held', size, len, front, kept⟩ :=
        @httpPostDataGet_more P c s buf pCoParam held piece
      obtain ⟨text, others, whole⟩ := ih held' (List.cons_ne_nil second rest)
      refine ⟨text, ?_, fun fits => ?_⟩
      · rw [postPieces, run, Option.bind_eq_bind, Option.bind_some]
        · exact others
        · rintro ⟨⟩
      · rw [List.flatten_cons, List.length_append] at fits
        rw [if_pos (by omega)] at kept
        rw [List.flatten_cons, ← List.append_assoc, ← kept, ← front]
        apply whole
        rw [size, len, kept]
        omega

/-- Where there is no buffer, the pieces pass and the message follows. -/
theorem postPieces_none {pieces : List (List UInt8)} (none : s.ppcPostBuf = none)
    (begun : postBegin c s = s) (some : pieces ≠ []) :
    postPieces c pCoParam s pieces = Option.some (s, Option.some .tooMany) := by
  have pass : ∀ piece more, httpPostDataGet c pCoParam s piece more =
      Option.some (s, if more then Option.none else Option.some .tooMany) := by
    intro piece more
    unfold httpPostDataGet
    rw [begun]
    simp only [none]
  induction pieces with
  | nil => exact absurd rfl some
  | cons piece rest ih =>
    cases rest with
    | nil => exact pass piece false
    | cons second rest =>
      rw [postPieces, pass, Option.bind_eq_bind, Option.bind_some]
      · exact ih (List.cons_ne_nil second rest)
      · rintro ⟨⟩

theorem postBegin_start (c : Posted) : postBegin c .start =
    if postBufLen c.contentLength < maxPostLength then
      ⟨postBufLen c.contentLength,
        c.memory.map (List.range (postBufLen c.contentLength).toNat).map, 0⟩
    else ⟨postBufLen c.contentLength, none, 0⟩ :=
  if_pos rfl

theorem postBegin_again : postBegin c (postBegin c .start) = postBegin c .start := by
  have least := postBufLen_least c.contentLength
  have started : (postBegin c .start).piPostBufLen = postBufLen c.contentLength := by
    rw [postBegin_start]
    split <;> rfl
  rw [postBegin, if_neg (by omega)]

/-- The first piece makes the buffer. -/
theorem postPieces_start (pieces : List (List UInt8)) (some : pieces ≠ []) :
    postPieces c pCoParam .start pieces = postPieces c pCoParam (postBegin c .start) pieces := by
  have same : ∀ piece more, httpPostDataGet c pCoParam .start piece more =
      httpPostDataGet c pCoParam (postBegin c .start) piece more := by
    intro piece more
    unfold httpPostDataGet
    rw [postBegin_again]
  cases pieces with
  | nil => exact absurd rfl some
  | cons piece rest =>
    cases rest with
    | nil => exact same piece false
    | cons second rest =>
      rw [postPieces, same, ← postPieces]
      all_goals rintro ⟨⟩

/-- The runner gets a text where there is a buffer for the declared length. -/
def Posted.buffered (c : Posted) : Prop :=
  postBufLen c.contentLength < maxPostLength ∧ c.memory.isSome

theorem holding_start (buffered : c.buffered) : ∃ buf, Holding (postBegin c .start) buf ∧
    (postBegin c .start).piPostDataLen = 0 ∧
    (postBegin c .start).piPostBufLen = postBufLen c.contentLength := by
  have least := postBufLen_least c.contentLength
  obtain ⟨small, found⟩ := buffered
  obtain ⟨m, memory⟩ := Option.isSome_iff_exists.mp found
  rw [postBegin_start, if_pos small, memory]
  refine ⟨_, ⟨rfl, ?_, ?_⟩, rfl, rfl⟩
  · rw [List.length_map, List.length_range]
    exact Int.toNat_of_nonneg (by omega)
  · change (0 : Int) < postBufLen c.contentLength
    omega

/-- Nothing is stored outside. Where a buffer was made, the text is that of the body if all of it
fits. -/
theorem postPieces_run {pieces : List (List UInt8)} (some : pieces ≠ []) (pParam : P) :
    (¬ c.buffered ∧ ∃ s, postPieces c (Option.some pParam) .start pieces =
        Option.some (s, Option.some .tooMany)) ∨
      c.buffered ∧ ∃ text, postPieces c (Option.some pParam) .start pieces =
        Option.some (.start, Option.some (.ran pParam text)) ∧
        ((pieces.flatten.length : Int) < postBufLen c.contentLength →
          text = withoutLineEnd pieces.flatten) := by
  rw [postPieces_start pieces some]
  by_cases buffered : c.buffered
  · obtain ⟨buf, held, zero, size⟩ := holding_start buffered
    obtain ⟨text, run, whole⟩ :=
      @postPieces_holding P c _ _ (Option.some pParam) held pieces some
    refine .inr ⟨buffered, text, run, fun fits => ?_⟩
    rw [zero, size] at whole
    exact whole (by simpa using fits)
  · refine .inl ⟨buffered, _, postPieces_none ?_ postBegin_again some⟩
    rw [postBegin_start]
    split
    next small =>
      cases memory : c.memory with
      | none => rfl
      | some m => exact absurd ⟨small, by rw [memory]; rfl⟩ buffered
    · rfl

theorem postBufLen_exact {contentLength : BitVec 32} (low : 0 ≤ contentLength.toInt) :
    postBufLen contentLength =
      if contentLength.toInt < 2147483640 then contentLength.toInt + 8 else 8 := by
  have bound := contentLength.isLt
  have sum : (contentLength + 8).toNat = (contentLength.toNat + 8) % 4294967296 :=
    BitVec.toNat_add _ _
  unfold postBufLen
  dsimp only
  rw [BitVec.toInt_eq_toNat_cond] at low ⊢
  rw [BitVec.toInt_eq_toNat_cond, sum]
  split at low
  · grind
  · omega

/-- Two ways in which a body comes lead to the same answer, and the text, if there is one, is the
body without a line end. -/
def SameText (c : Posted) (pParam : P) (body : List UInt8) : Prop :=
  ∀ pieces pieces' : List (List UInt8), pieces ≠ [] → pieces' ≠ [] →
    pieces.flatten = body → pieces'.flatten = body →
    postAnswer c pParam pieces = postAnswer c pParam pieces' ∧
      ∀ text, postAnswer c pParam pieces = some (.ran pParam text) → text = withoutLineEnd body

theorem postAnswer_fits {pieces : List (List UInt8)} (some : pieces ≠ []) (pParam : P)
    (fits : (pieces.flatten.length : Int) < postBufLen c.contentLength) [Decidable c.buffered] :
    postAnswer c pParam pieces = if c.buffered then
      Option.some (.ran pParam (withoutLineEnd pieces.flatten)) else Option.some .tooMany := by
  change (postPieces c (Option.some pParam) .start pieces).bind Prod.snd = _
  rcases postPieces_run some pParam with ⟨none, s, run⟩ | ⟨buffered, text, run, whole⟩
  · rw [run, if_neg none]
    rfl
  · rw [run, if_pos buffered, whole fits]
    rfl

/-- A piece that is longer than the buffer is left out. -/
theorem postAnswer_dropped {piece : List UInt8} (buffered : c.buffered) (pParam : P)
    (long : postBufLen c.contentLength ≤ piece.length) :
    postAnswer c pParam [piece] = some (.ran pParam []) := by
  obtain ⟨buf, held, zero, size⟩ := holding_start buffered
  obtain ⟨text, run, kept⟩ := @httpPostDataGet_last P c _ _ (some pParam) held piece
  rw [zero, size, if_neg (by omega)] at kept
  have once : postPieces c (some pParam) .start [piece] =
      some (.start, some (.ran pParam text)) :=
    (postPieces_start [piece] (List.cons_ne_nil _ _)).trans run
  change (postPieces c (some pParam) .start [piece]).bind Prod.snd = _
  rw [once, kept]
  rfl

theorem withoutLineEnd_length (body : List UInt8) :
    body.length ≤ (withoutLineEnd body).length + 2 := by
  unfold withoutLineEnd
  split
  · rw [List.length_dropLast, List.length_dropLast]
    omega
  · split
    · rw [List.length_dropLast]
      omega
    · omega

/-- No piece of any body is stored outside the buffer. A body that is not longer than declared
becomes the same text however it is cut, unless the sum with the declared length wraps, which makes
the buffer one of eight bytes, and the body does not fit into that. -/
theorem post_data_text (contentLength : BitVec 32) (pParam : P) (body : List UInt8) :
    (∀ (memory : Option (Nat → UInt8)) (pieces : List (List UInt8)), pieces ≠ [] →
      pieces.flatten = body →
      (httpRequest ⟨contentLength, memory⟩ (httpConnInit .post true none pParam) pieces).isSome) ∧
    (((body.length : Int) ≤ contentLength.toInt →
        ∀ memory : Option (Nat → UInt8), SameText ⟨contentLength, memory⟩ pParam body) ↔
      ¬ (2147483640 ≤ contentLength.toInt ∧ 8 ≤ body.length ∧
        (body.length : Int) ≤ contentLength.toInt)) := by
  constructor
  · intro memory pieces some _
    change (postPieces ⟨contentLength, memory⟩ (Option.some pParam) .start pieces).isSome
    rcases postPieces_run some pParam with ⟨_, s, run⟩ | ⟨_, text, run, _⟩ <;> rw [run] <;> rfl
  constructor
  · rintro same ⟨wraps, long, declared⟩
    have eight : postBufLen contentLength = 8 := by
      rw [postBufLen_exact (by omega), if_neg (by omega)]
    -- as one piece the body is left out as a whole
    have buffered : (Posted.mk contentLength (some fun _ => 0)).buffered :=
      ⟨by rw [eight]; decide, rfl⟩
    have all := (same declared (some fun _ => 0) [body] [body] (by simp) (by simp)
      List.flatten_singleton List.flatten_singleton).2
    have empty := all [] (postAnswer_dropped buffered pParam (by rw [eight]; omega))
    have short := withoutLineEnd_length body
    rw [← empty, List.length_nil] at short
    omega
  · intro condition declared memory pieces pieces' some some' whole whole'
    classical
    have fits : (body.length : Int) < postBufLen contentLength := by
      rw [postBufLen_exact (by omega)]
      split <;> omega
    rw [postAnswer_fits some pParam (by rw [whole]; exact fits),
      postAnswer_fits some' pParam (by rw [whole']; exact fits), whole, whole']
    refine ⟨rfl, fun text ran => ?_⟩
    split at ran
    · cases ran
      rfl
    · cases ran

/-- Ten bytes of which more than two billion are declared: in one piece they are left out, in two
pieces the first one is the text. -/
theorem post_data_wraps :
    ¬ ∀ (contentLength : BitVec 32) (memory : Option (Nat → UInt8)) (body : List UInt8),
      (body.length : Int) ≤ contentLength.toInt →
        SameText ⟨contentLength, memory⟩ () body := by
  intro same
  have pieces := (same 2147483647 (some fun _ => 0) (List.replicate 10 65) (by decide)
    [List.replicate 10 65] [List.replicate 5 65, List.replicate 5 65] (by decide) (by decide)
    (by decide) (by decide)).1
  revert pieces
  decide

end Rovio.Command
