import Rovio.Config.IniValues
import Rovio.Kit.Buffer
import Mathlib.Data.List.Find

/-! The text drawn over the picture: its keywords and what is put in their place. -/
namespace Rovio.VideoPhone

open Kit

inductive InfoKey where
  | time | date | ver
  deriving DecidableEq

/-- `struct tm` as `gmtime_r` leaves it. -/
structure Tm where
  tm_year : Int
  tm_mon : Int
  tm_mday : Int
  tm_hour : Int
  tm_min : Int
  tm_sec : Int

/-- The time at which the n-th value is built, and the text of the revision. -/
structure InfoSource where
  gmtime : Nat → Tm
  g_apcRevision : List Char
  plain : '\x00' ∉ g_apcRevision

/-- `%0*d` -/
def padded (width : Nat) (n : Int) : List Char :=
  if n < 0 then '-' :: List.replicate (width - (decimalText n).length) '0' ++
    (decimalText n).drop 1
  else List.replicate (width - (decimalText n).length) '0' ++ decimalText n

def vinfoBuildDate (tms : Tm) (buflen : Nat) : List Char :=
  let year := tms.tm_year + 1900
  let mon := tms.tm_mon + 1
  Config.Ini.snprintf buflen
    [padded 4 (if year ≤ 9999 ∧ year ≥ 0 then year else 0), ['-'],
      padded 2 (if mon ≤ 12 ∧ mon ≥ 1 then mon else 0), ['-'],
      padded 2 (if tms.tm_mday ≤ 31 ∧ tms.tm_mday ≥ 1 then tms.tm_mday else 0)]

def vinfoBuildTime (tms : Tm) (buflen : Nat) : List Char :=
  Config.Ini.snprintf buflen
    [padded 2 (if tms.tm_hour ≤ 23 ∨ tms.tm_hour ≥ 0 then tms.tm_hour else 0), [':'],
      padded 2 (if tms.tm_min ≤ 59 ∨ tms.tm_min ≥ 0 then tms.tm_min else 0), [':'],
      padded 2 (if tms.tm_sec ≤ 59 ∨ tms.tm_sec ≥ 0 then tms.tm_sec else 0)]

def vinfoBuildVer (g_apcRevision : List Char) (buflen : Nat) : List Char :=
  Config.Ini.snprintf buflen [g_apcRevision]

/-- What the function of a keyword writes to `tmp`. -/
def InfoSource.value (source : InfoSource) (n : Nat) : InfoKey → List Char
  | .time => vinfoBuildTime (source.gmtime n) 128
  | .date => vinfoBuildDate (source.gmtime n) 128
  | .ver => vinfoBuildVer source.g_apcRevision 128

def g_vInfoKeyWord : List (List Char × InfoKey) :=
  [(['t', 'i', 'm', 'e'], .time), (['d', 'a', 't', 'e'], .date), (['v', 'e', 'r'], .ver)]

/-- The text before the first `c` and the text behind it. -/
def strchr (c : Char) : List Char → Option (List Char × List Char)
  | [] => none
  | x :: rest => if x = c then some ([], rest) else (strchr c rest).map fun p => (x :: p.1, p.2)

/-- `finalContent`, `posContent` as an offset, and the number of values built. -/
structure Expansion where
  finalContent : List Char
  posContent : Nat
  built : Nat

/-- `strncpy` of as much of a piece as there is room for; `copylen` is an `int`. -/
def Expansion.copy (s : Expansion) (piece : List Char) : Option Expansion :=
  let copylen : Int := 128 - s.posContent - 1
  let copylen : Int := if copylen > piece.length then piece.length else copylen
  if copylen < 0 then none
  else (put s.finalContent s.posContent (piece.take copylen.toNat)).map fun finalContent =>
    { s with finalContent, posContent := s.posContent + copylen.toNat }

/-- What is done with a group: its keyword's value, or the group itself. -/
def Expansion.group (source : InfoSource) (s : Expansion) (key : List Char) : Option Expansion :=
  match g_vInfoKeyWord.find? (fun word => word.1 == key) with
  | some word =>
    ({ s with built := s.built + 1 } : Expansion).copy (source.value s.built word.2)
  | none => s.copy ('{' :: key ++ ['}'])

theorem strchr_length {c : Char} {text before after : List Char}
    (found : strchr c text = some (before, after)) : after.length < text.length := by
  induction text generalizing before with
  | nil => cases found
  | cons x rest ih =>
    unfold strchr at found
    split at found
    · cases found
      exact Nat.lt_succ_self _
    · obtain ⟨⟨front, back⟩, later, same⟩ := Option.map_eq_some_iff.mp found
      cases same
      exact Nat.lt_succ_of_lt (ih later)

/-- The loop over the groups and the copy of what is left. The `}` that ends the keyword for
`strcmp` is put back in its place. -/
def replaceGroups (source : InfoSource) (s : Expansion) (posBuf : List Char) : Option Expansion :=
  match _opened : strchr '{' posBuf with
  | some (literal, pkeyb) =>
    match _closed : strchr '}' pkeyb with
    | some (key, pkeye) =>
      (s.copy literal).bind fun s => (s.group source key).bind fun s =>
        replaceGroups source s pkeye
    | none => s.copy posBuf
  | none => s.copy posBuf
termination_by posBuf.length
decreasing_by exact Nat.lt_trans (strchr_length _closed) (strchr_length _opened)

/-- A text and what follows its end in a buffer. -/
def strlen (buffer : List Char) : Nat := (buffer.takeWhile (· ≠ '\x00')).length

/-- `vinfoReplaceKeyWord`; `uninitialised` is what `finalContent` holds at its start. None when
something is written outside a buffer. -/
def vinfoReplaceKeyWord (source : InfoSource) (uninitialised pbuf : List Char) (buflen : Nat) :
    Option (List Char) :=
  (replaceGroups source ⟨uninitialised, 0, 0⟩ (pbuf.take (strlen pbuf))).bind fun s =>
    (put s.finalContent s.posContent ['\x00']).bind fun finalContent =>
      let copylen := if strlen finalContent > buflen - 1 then buflen - 1 else strlen finalContent
      (put pbuf 0 (finalContent.take copylen)).bind fun pbuf => put pbuf copylen ['\x00']

/-! ### The keywords of a text -/

/-- The keyword whose group's text this begins with, behind the opening brace. -/
def keywordAt (text : List Char) : Option (List Char × InfoKey) :=
  g_vInfoKeyWord.find? fun word => (word.1 ++ ['}']).isPrefixOf text

/-- Each keyword between braces is replaced by its value. -/
def replaced (value : Nat → InfoKey → List Char) (n : Nat) : List Char → List Char
  | [] => []
  | c :: rest =>
    match if c = '{' then keywordAt rest else none with
    | some word => value n word.2 ++ replaced value (n + 1) (rest.drop (word.1.length + 1))
    | none => c :: replaced value n rest
termination_by text => text.length

/-- Each keyword between braces is replaced by its value, but where a brace has been opened before
it and not been closed. -/
def expanded (value : Nat → InfoKey → List Char) (opened : Bool) (n : Nat) :
    List Char → List Char
  | [] => []
  | c :: rest =>
    match if c = '{' ∧ opened = false then keywordAt rest else none with
    | some word => value n word.2 ++ expanded value false (n + 1) (rest.drop (word.1.length + 1))
    | none => c :: expanded value ((opened || c == '{') && c != '}') n rest
termination_by text => text.length

/-! ### The output buffer -/

/-- `finalContent` holds the first 127 characters of `out`. -/
structure Written (s : Expansion) (out : List Char) : Prop where
  size : s.finalContent.length = 128
  pos : s.posContent = min 127 out.length
  text : s.finalContent.take s.posContent = out.take 127

section Output
variable {s : Expansion} {out : List Char}

theorem Written.built (written : Written s out) (built : Nat) :
    Written { s with built } out := ⟨written.size, written.pos, written.text⟩

/-- There is room for what is copied of a piece. -/
theorem copy_written (written : Written s out) (piece : List Char) :
    ∃ t, s.copy piece = some t ∧ Written t (out ++ piece) ∧ t.built = s.built := by
  have pos := written.pos
  obtain ⟨k, copylen, bound⟩ : ∃ k : Nat,
      (if (128 - s.posContent - 1 : Int) > piece.length then (piece.length : Int)
        else 128 - s.posContent - 1) = k ∧ k = min (127 - s.posContent) piece.length := by
    refine ⟨_, ?_, rfl⟩
    split <;> omega
  have length : (piece.take k).length = k := by
    rw [List.length_take]
    omega
  have room : s.posContent + (piece.take k).length ≤ s.finalContent.length := by
    rw [length, written.size]
    omega
  obtain ⟨final, stored⟩ := put_isSome room
  refine ⟨{ s with finalContent := final, posContent := s.posContent + k }, ?_, ⟨?_, ?_, ?_⟩, rfl⟩
  · unfold Expansion.copy
    dsimp only
    rw [copylen, if_neg (Int.not_lt.mpr (Int.natCast_nonneg k)), Int.toNat_natCast, stored,
      Option.map_some]
  · exact (put_length stored).trans written.size
  · rw [List.length_append]
    dsimp only
    omega
  · have cut : piece.take k = piece.take (127 - out.length) := by
      rw [List.take_eq_take_iff]
      omega
    have front := put_take stored
    rw [length, written.text, cut] at front
    rw [List.take_append]
    exact front

theorem group_written (source : InfoSource) (written : Written s out) (key : List Char) :
    ∃ t, s.group source key = some t ∧
      match g_vInfoKeyWord.find? (fun word => word.1 == key) with
      | some word => Written t (out ++ source.value s.built word.2) ∧ t.built = s.built + 1
      | none => Written t (out ++ ('{' :: key ++ ['}'])) ∧ t.built = s.built := by
  unfold Expansion.group
  split
  · exact copy_written (written.built (s.built + 1)) _
  · exact copy_written written _

end Output

/-! ### The groups -/

theorem strchr_some {c : Char} {text before after : List Char}
    (found : strchr c text = some (before, after)) : text = before ++ c :: after ∧ c ∉ before := by
  induction text generalizing before with
  | nil => cases found
  | cons x rest ih =>
    unfold strchr at found
    split at found
    · rename_i here
      cases found
      rw [here]
      exact ⟨rfl, List.not_mem_nil⟩
    · rename_i other
      obtain ⟨⟨front, back⟩, later, same⟩ := Option.map_eq_some_iff.mp found
      cases same
      obtain ⟨rfl, without⟩ := ih later
      refine ⟨rfl, fun member => ?_⟩
      rcases List.mem_cons.mp member with same | deeper
      · exact other same.symm
      · exact without deeper

theorem strchr_append {c : Char} {before : List Char} (without : c ∉ before) (after : List Char) :
    strchr c (before ++ c :: after) = some (before, after) := by
  induction before with
  | nil => exact if_pos rfl
  | cons x before ih =>
    have other : x ≠ c := fun same => without (same ▸ List.mem_cons_self)
    rw [List.cons_append, strchr, if_neg other,
      ih (fun later => without (List.mem_cons_of_mem x later))]
    rfl

theorem strchr_none {c : Char} {text : List Char} (none : strchr c text = none) : c ∉ text := by
  induction text with
  | nil => exact List.not_mem_nil
  | cons x rest ih =>
    unfold strchr at none
    split at none
    · cases none
    · rename_i other
      intro member
      rcases List.mem_cons.mp member with same | deeper
      · exact other same.symm
      · exact ih (Option.map_eq_none_iff.mp none) deeper

/-- The names of the keywords have no closing brace. -/
theorem keyword_unclosed : ∀ word ∈ g_vInfoKeyWord, '}' ∉ word.1 := by decide

/-- So a name that stands before `}` is the whole of what stands there. -/
theorem keywordAt_group {key : List Char} (without : '}' ∉ key) (rest : List Char) :
    keywordAt (key ++ '}' :: rest) = g_vInfoKeyWord.find? fun word => word.1 == key := by
  apply List.find?_congr
  intro word member
  rw [Bool.eq_iff_iff, List.isPrefixOf_iff_prefix, beq_iff_eq]
  constructor
  · rintro ⟨tail, same⟩
    rw [List.append_assoc] at same
    have cut := strchr_append (keyword_unclosed word member) tail
    rw [show word.1 ++ '}' :: tail = key ++ '}' :: rest from same, strchr_append without] at cut
    exact (Prod.mk.inj (Option.some.inj cut)).1.symm
  · rintro rfl
    exact ⟨rest, List.append_assoc _ _ _⟩

/-- A keyword's name ends with a closing brace. -/
theorem keywordAt_unclosed {text : List Char} (without : '}' ∉ text) : keywordAt text = none := by
  apply List.find?_eq_none.mpr
  intro word _ found
  have start := List.isPrefixOf_iff_prefix.mp found
  exact without (start.subset (List.mem_append_right _ (List.mem_singleton_self _)))

section Expanded
variable {value : Nat → InfoKey → List Char} {n : Nat}

/-- A character that begins no keyword. -/
theorem expanded_cons {c : Char} {opened : Bool} {rest : List Char}
    (plain : c = '{' → opened = false → keywordAt rest = none) :
    expanded value opened n (c :: rest) =
      c :: expanded value ((opened || c == '{') && c != '}') n rest := by
  have none : (if c = '{' ∧ opened = false then keywordAt rest else none) = none := by
    split
    · rename_i both
      exact plain both.1 both.2
    · rfl
  rw [expanded, none]

theorem expanded_keyword {rest : List Char} {word : List Char × InfoKey}
    (found : keywordAt rest = some word) :
    expanded value false n ('{' :: rest) =
      value n word.2 ++ expanded value false (n + 1) (rest.drop (word.1.length + 1)) := by
  rw [expanded, if_pos ⟨rfl, rfl⟩, found]

/-- Text without an opening brace. -/
theorem expanded_literal {literal : List Char} (without : '{' ∉ literal) (rest : List Char) :
    expanded value false n (literal ++ rest) = literal ++ expanded value false n rest := by
  induction literal with
  | nil => rfl
  | cons c literal ih =>
    have other : c ≠ '{' := fun same => without (same ▸ List.mem_cons_self)
    have shut : ((false || c == '{') && c != '}') = false := by
      rw [Bool.false_or, beq_false_of_ne other, Bool.false_and]
    rw [List.cons_append, expanded_cons (fun same => absurd same other), shut,
      ih (fun later => without (List.mem_cons_of_mem c later))]
    rfl

/-- The text of a group that is open, up to its closing brace. -/
theorem expanded_opened {body : List Char} (without : '}' ∉ body) (rest : List Char) :
    expanded value true n (body ++ '}' :: rest) = body ++ '}' :: expanded value false n rest := by
  induction body with
  | nil => exact expanded_cons (fun _ shut => by cases shut)
  | cons c body ih =>
    have other : c ≠ '}' := fun same => without (same ▸ List.mem_cons_self)
    have stays : ((true || c == '{') && c != '}') = true := by
      rw [Bool.true_or, Bool.true_and, bne_iff_ne]
      exact other
    rw [List.cons_append, expanded_cons (fun _ shut => by cases shut), stays,
      ih (fun later => without (List.mem_cons_of_mem c later))]
    rfl

/-- Without a closing brace there is no keyword. -/
theorem expanded_unclosed {text : List Char} (without : '}' ∉ text) (opened : Bool) :
    expanded value opened n text = text := by
  induction text generalizing opened with
  | nil => rw [expanded]
  | cons c rest ih =>
    have later : '}' ∉ rest := fun later => without (List.mem_cons_of_mem c later)
    rw [expanded_cons (fun _ _ => keywordAt_unclosed later), ih later]

/-- A group with its keyword's value, or as it is. -/
theorem expanded_group {key : List Char} (without : '}' ∉ key) (rest : List Char) :
    expanded value false n ('{' :: key ++ '}' :: rest) =
      match g_vInfoKeyWord.find? (fun word => word.1 == key) with
      | some word => value n word.2 ++ expanded value false (n + 1) rest
      | none => '{' :: key ++ ['}'] ++ expanded value false n rest := by
  have at_ := keywordAt_group without rest
  cases found : g_vInfoKeyWord.find? (fun word => word.1 == key) with
  | some word =>
    have same : word.1 = key := by simpa using List.find?_some found
    have behind : (key ++ '}' :: rest).drop (word.1.length + 1) = rest := by
      rw [same, ← List.drop_drop, List.drop_left]
      rfl
    rw [List.cons_append, expanded_keyword (at_.trans found), behind]
  | none =>
    rw [List.cons_append, expanded_cons (fun _ _ => at_.trans found)]
    have opened : ((false || '{' == '{') && '{' != '}') = true := by decide
    rw [opened, expanded_opened without]
    simp

end Expanded

/-! ### The whole text -/

/-- The loop writes the text with its keywords replaced. -/
theorem replaceGroups_written (source : InfoSource) (s : Expansion) (posBuf : List Char)
    {out : List Char} (written : Written s out) :
    ∃ t, replaceGroups source s posBuf = some t ∧
      Written t (out ++ expanded source.value false s.built posBuf) := by
  fun_induction replaceGroups source s posBuf generalizing out with
  | case1 s posBuf literal pkeyb opened key pkeye closed ih =>
    obtain ⟨whole, before⟩ := strchr_some opened
    obtain ⟨group, inside⟩ := strchr_some closed
    obtain ⟨t, copied, first, built⟩ := copy_written written literal
    obtain ⟨u, done, next⟩ := group_written source first key
    rw [copied, Option.bind_some, done, Option.bind_some, whole, group, expanded_literal before,
      ← List.cons_append, expanded_group inside]
    split at next
    all_goals
      obtain ⟨v, run, last⟩ := ih u next.1
      rw [next.2, built, List.append_assoc, List.append_assoc] at last
      exact ⟨v, run, last⟩
  | case2 s posBuf literal pkeyb opened closed =>
    obtain ⟨whole, before⟩ := strchr_some opened
    obtain ⟨t, copied, all, -⟩ := copy_written written posBuf
    have rest : expanded source.value false s.built posBuf = posBuf := by
      rw [whole, expanded_literal before,
        expanded_cons (fun _ _ => keywordAt_unclosed (strchr_none closed)),
        expanded_unclosed (strchr_none closed)]
    rw [rest]
    exact ⟨t, copied, all⟩
  | case3 s posBuf opened =>
    obtain ⟨t, copied, all, -⟩ := copy_written written posBuf
    have rest := @expanded_literal source.value s.built posBuf (strchr_none opened) []
    rw [List.append_nil, expanded, List.append_nil] at rest
    rw [rest]
    exact ⟨t, copied, all⟩

/-! ### The texts have no zero in them -/

theorem mem_padded {width : Nat} {m : Int} {c : Char} (member : c ∈ padded width m) :
    c = '-' ∨ c = '0' ∨ c ∈ decimalText m := by
  unfold padded at member
  split at member
  · rcases List.mem_append.mp member with front | digits
    · rcases List.mem_cons.mp front with sign | zeros
      · exact .inl sign
      · exact .inr (.inl (List.eq_of_mem_replicate zeros))
    · exact .inr (.inr (List.mem_of_mem_drop digits))
  · rcases List.mem_append.mp member with zeros | digits
    · exact .inr (.inl (List.eq_of_mem_replicate zeros))
    · exact .inr (.inr digits)

theorem padded_plain (width : Nat) (m : Int) : '\x00' ∉ padded width m := by
  intro member
  rcases mem_padded member with sign | zero | digits
  · cases sign
  · cases zero
  · rcases decimalText_plain digits with digit | sign
    · cases digit
    · cases sign

/-- What is printed comes from the pieces. -/
theorem snprintf_plain {pieces : List (List Char)} (plain : ∀ piece ∈ pieces, '\x00' ∉ piece)
    (n : Nat) : '\x00' ∉ Config.Ini.snprintf n pieces := by
  intro member
  rw [Config.Ini.snprintf, Config.Ini.vfnprintf_take] at member
  obtain ⟨piece, among, inside⟩ := List.mem_flatten.mp (List.mem_of_mem_take member)
  exact plain piece among inside

theorem value_plain (source : InfoSource) (n : Nat) (key : InfoKey) :
    '\x00' ∉ source.value n key := by
  cases key with
  | time => exact snprintf_plain (by simp [padded_plain]) _
  | date => exact snprintf_plain (by simp [padded_plain]) _
  | ver => exact snprintf_plain (by simp [source.plain]) _

theorem expanded_plain {value : Nat → InfoKey → List Char} (plain : ∀ n key, '\x00' ∉ value n key)
    (opened : Bool) (n : Nat) (text : List Char) (without : '\x00' ∉ text) :
    '\x00' ∉ expanded value opened n text := by
  fun_induction expanded value opened n text with
  | case1 => exact without
  | case2 opened n c rest word found ih =>
    intro member
    rcases List.mem_append.mp member with inside | later
    · exact plain n word.2 inside
    · exact ih (fun behind => without (List.mem_cons_of_mem c (List.mem_of_mem_drop behind))) later
  | case3 opened n c rest none ih =>
    intro member
    rcases List.mem_cons.mp member with same | later
    · exact without (same ▸ List.mem_cons_self)
    · exact ih (fun behind => without (List.mem_cons_of_mem c behind)) later

/-- A text with a zero behind it. -/
theorem strlen_ended {text : List Char} (without : '\x00' ∉ text) (behind : List Char) :
    strlen (text ++ '\x00' :: behind) = text.length := by
  have all : ∀ c ∈ text, decide (c ≠ '\x00') = true := by
    intro c member
    exact decide_eq_true fun same => without (same ▸ member)
  rw [strlen, List.takeWhile_append_of_pos all, List.takeWhile_cons_of_neg (by decide),
    List.append_nil]

/-- The zero behind a text in a buffer. -/
theorem put_end {buffer : List Char} {place : Nat} (inside : place < buffer.length) :
    put buffer place ['\x00'] =
      some (buffer.take place ++ '\x00' :: buffer.drop (place + 1)) :=
  if_pos (Nat.succ_le_of_lt inside)

/-- A caption in its buffer of at least 128 bytes. -/
structure Caption where
  text : List Char
  behind : List Char
  plain : '\x00' ∉ text
  room : 128 ≤ (text ++ '\x00' :: behind).length

/-- The call of `vinfoDrawContent`, with any contents of `finalContent` before it. -/
def Caption.replace (caption : Caption) (source : InfoSource)
    (uninitialised : { chars : List Char // chars.length = 128 }) : Option (List Char) :=
  vinfoReplaceKeyWord source uninitialised.val (caption.text ++ '\x00' :: caption.behind) 128

/-- The caption is shown with the keywords replaced that stand in no open brace group. -/
theorem caption_expanded (caption : Caption) (source : InfoSource)
    (uninitialised : { chars : List Char // chars.length = 128 }) :
    ∃ behind, caption.replace source uninitialised =
      some ((expanded source.value false 0 caption.text).take 127 ++ '\x00' :: behind) := by
  have start : Written ⟨uninitialised.val, 0, 0⟩ [] := ⟨uninitialised.property, rfl, rfl⟩
  obtain ⟨s, run, written⟩ := replaceGroups_written source _ caption.text start
  have plain := expanded_plain (value_plain source) false 0 caption.text caption.plain
  rw [List.nil_append] at written
  generalize expanded source.value false 0 caption.text = out at written plain ⊢
  have shown : '\x00' ∉ out.take 127 := fun member => plain (List.mem_of_mem_take member)
  have short : (out.take 127).length ≤ 127 := List.length_take_le _ _
  have room := caption.room
  obtain ⟨pbuf, stored⟩ := @put_isSome Char (caption.text ++ '\x00' :: caption.behind)
    (out.take 127) 0 (by omega)
  have content : pbuf.take (out.take 127).length = out.take 127 := by
    have front := put_take stored
    rw [Nat.zero_add, List.take_zero, List.nil_append] at front
    exact front
  have inside : s.posContent < s.finalContent.length := by
    rw [written.size, written.pos]
    omega
  refine ⟨pbuf.drop ((out.take 127).length + 1), ?_⟩
  unfold Caption.replace vinfoReplaceKeyWord
  rw [strlen_ended caption.plain, List.take_left, run, Option.bind_some, put_end inside,
    Option.bind_some, written.text]
  dsimp only
  rw [strlen_ended shown, if_neg (by omega), List.take_left, stored, Option.bind_some,
    put_end (by rw [put_length stored]; omega), content]

def midnight : InfoSource := ⟨fun _ => ⟨70, 0, 1, 0, 0, 0⟩, ['1'], by decide⟩

/-- In a second brace the keyword stays as it is. -/
theorem caption_nested : ¬ ∀ (caption : Caption) (source : InfoSource)
    (uninitialised : { chars : List Char // chars.length = 128 }),
    ∃ behind, caption.replace source uninitialised =
      some ((replaced source.value 0 caption.text).take 127 ++ '\x00' :: behind) := by
  intro all
  let caption : Caption :=
    ⟨['{', '{', 't', 'i', 'm', 'e', '}'], List.replicate 120 ' ', by decide, by simp⟩
  obtain ⟨behind, shown⟩ := all caption midnight ⟨List.replicate 128 ' ', List.length_replicate⟩
  have code : (caption.replace midnight ⟨List.replicate 128 ' ', List.length_replicate⟩).map
      (List.take 2) = some ['{', '{'] := by decide +kernel
  have value : replaced midnight.value 0 caption.text =
      ['{', '0', '0', ':', '0', '0', ':', '0', '0'] := by decide +kernel
  rw [shown, value] at code
  cases code

end Rovio.VideoPhone
