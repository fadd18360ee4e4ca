import Rovio.Upload.Update

/-! What the automaton does with the text between two delimiters, and with the
header of a part. Each lemma follows the prefixes of the text: as long as no
prefix ends in a delimiter, the state stays what it is. -/
namespace Rovio.Upload
open Kit

variable {n : Nat} {N : PartName}

def crlf : List UInt8 := [cr, lf]

/-- The text ends in a delimiter that the test recognises. -/
def Hits (B text : List UInt8) : Prop := ∃ t ∈ terminators, delimiter B ++ t <:+ text

theorem dash_ne_cr : dash ≠ cr := by decide

theorem dash_ne_lf : dash ≠ lf := by decide

theorem delimiter_no_cr {B : List UInt8} (boundary : IsBoundary B) : cr ∉ delimiter B := by
  simp only [delimiter, List.mem_append, List.mem_cons, List.not_mem_nil, or_false, not_or]
  exact ⟨⟨dash_ne_cr.symm, dash_ne_cr.symm⟩, boundary.no_cr⟩

theorem delimiter_no_lf {B : List UInt8} (boundary : IsBoundary B) : lf ∉ delimiter B := by
  simp only [delimiter, List.mem_append, List.mem_cons, List.not_mem_nil, or_false, not_or]
  exact ⟨⟨dash_ne_lf.symm, dash_ne_lf.symm⟩, boundary.no_lf⟩

theorem terminators_length {t : List UInt8} (ht : t ∈ terminators) :
    1 ≤ t.length ∧ t.length ≤ 2 := by
  simp only [terminators, List.mem_cons, List.not_mem_nil, or_false] at ht
  rcases ht with rfl | rfl | rfl | rfl <;> decide

theorem Hits.inside {B text : List UInt8} (hits : Hits B text) : delimiter B <:+: text := by
  obtain ⟨t, _, suffix⟩ := hits
  exact (List.prefix_append _ t).isInfix.trans suffix.isInfix

/-- The test on a clean ring answers for the whole text that the ring held the end of. -/
theorem mpTestBoundary_held {r : Ring} {B text : List UInt8} (boundary : IsBoundary B)
    (big : 200 ≤ n) (front : r.front = held (n - 1) text) :
    (mpTestBoundary r B).isSome ↔ Hits B text := by
  constructor
  · intro found
    obtain ⟨q, hq⟩ := Option.isSome_iff_exists.mp found
    obtain ⟨t, ht, _, delim⟩ := mpTestBoundary_sound hq
    refine ⟨t, ht, ?_⟩
    rw [← delim, front]
    exact (List.drop_suffix _ _).trans (held_suffix _ _)
  · rintro ⟨t, ht, suffix⟩
    have small := boundary.length
    have short := terminators_length ht
    obtain ⟨x, whole⟩ := suffix_held (k := n - 1) suffix (by simp [delimiter]; omega)
    rw [← front] at whole
    have size : r.pcBufDataEnd = x.length + 2 + B.length + t.length := by
      rw [← front_length, ← whole]
      simp [delimiter]
      omega
    have delim : r.front.drop x.length = delimiter B ++ t := by
      rw [← whole, List.drop_left]
    rw [mpTestBoundary_complete boundary.no_cr ht size delim]
    rfl

/-- What holds before a text and is kept by each of its characters holds after it. -/
theorem processUpdate_induct {I : List UInt8 → ProcessMultipart → Prop} {text : List UInt8}
    {m : ProcessMultipart} (start : I [] m)
    (step : ∀ p ch m, p ++ [ch] <+: text → I p m → I (p ++ [ch]) (processChar n N m ch)) :
    I text (processUpdate n N m text) := by
  have prefixes : ∀ p, p <+: text → I p (processUpdate n N m p) := by
    intro p
    induction p using List.reverseRecOn with
    | nil => exact fun _ => start
    | append_singleton p ch ih =>
      intro hp
      rw [processUpdate_append]
      exact step p ch _ hp (ih ((List.prefix_append p [ch]).trans hp))
  exact prefixes text (List.prefix_refl text)

/-- No prefix of a body and its delimiter, short of the whole, ends in a delimiter. -/
theorem no_early_hit {B v t p : List UInt8} (boundary : IsBoundary B)
    (clean : ¬ delimiter B <:+: v) (ht : t ∈ terminators)
    (hp : p <+: v ++ crlf ++ delimiter B ++ t) (proper : p ≠ v ++ crlf ++ delimiter B ++ t) :
    ¬ Hits B p := by
  rintro ⟨t', ht', x, rfl⟩
  obtain ⟨z, whole⟩ := hp
  have zSome : z ≠ [] := by
    rintro rfl
    exact proper (by simpa using whole)
  have noCr := delimiter_no_cr boundary
  have split : x ++ (delimiter B ++ (t' ++ z)) = v ++ (cr :: lf :: (delimiter B ++ t)) := by
    simpa [crlf] using whole
  rcases List.append_eq_append_iff.mp split with ⟨mid, rfl, rest⟩ | ⟨mid, rfl, rest⟩
  · -- the delimiter starts in the body: it would lie there or run over the line end
    rcases List.append_eq_append_iff.mp rest with ⟨more, rfl, _⟩ | ⟨more, eq, tail⟩
    · exact clean ⟨x, more, by simp⟩
    · cases more with
      | nil => exact clean ⟨x, [], by simp_all⟩
      | cons b more =>
        obtain ⟨rfl, _⟩ := List.cons.inj tail
        exact noCr (by simp [eq])
  · -- it starts behind the body: only the true delimiter is there, with its own terminator
    cases mid with
    | nil =>
      simp only [delimiter, List.cons_append, List.nil_append, List.cons.injEq] at rest
      exact dash_ne_cr rest.1.symm
    | cons b mid =>
      cases mid with
      | nil =>
        simp only [delimiter, List.cons_append, List.nil_append, List.cons.injEq] at rest
        exact dash_ne_lf rest.2.1.symm
      | cons c mid =>
        simp only [List.cons_append, List.cons.injEq] at rest
        have sizes := congrArg List.length rest.2.2
        have zPos := List.length_pos_iff.mpr zSome
        simp only [List.length_append] at sizes
        have short := terminators_length ht
        have short' := terminators_length ht'
        have empty : mid = [] := List.length_eq_zero_iff.mp (by omega)
        rw [empty, List.nil_append] at rest
        have tails := List.append_cancel_left rest.2.2
        have one : t'.length = 1 := by omega
        simp only [terminators, List.mem_cons, List.not_mem_nil, or_false] at ht ht'
        rcases ht with rfl | rfl | rfl | rfl <;> rcases ht' with rfl | rfl | rfl | rfl <;>
          simp_all [cr, lf, dash]

/-- `m'` is in the given state, its ring holds the end of the text, and nothing was written since
`m`. -/
structure Within (n : Nat) (m m' : ProcessMultipart) (state : MpState) (text : List UInt8) :
    Prop where
  state : m'.iState = state
  ring : Holds n m'.toRing (held (n - 1) text)
  same : SameFlash m m'

theorem SameFlash.refl (m : ProcessMultipart) : SameFlash m m := ⟨rfl, rfl, rfl⟩

theorem Within.start {m : ProcessMultipart} {state : MpState} (hs : m.iState = state)
    (empty : Holds n m.toRing []) : Within n m m state [] :=
  ⟨hs, by simpa [held] using empty, .refl m⟩

theorem held_ne_nil {text : List UInt8} (hn : 1 < n) (some : text ≠ []) :
    held (n - 1) text ≠ [] := by
  have pos := List.length_pos_iff.mpr some
  intro empty
  have size := congrArg List.length empty
  simp only [held, List.length_drop, List.length_nil] at size
  omega

/-- The ring after one more character, and after the clean that may follow. -/
theorem Within.added {m m' : ProcessMultipart} {state : MpState} {text : List UInt8}
    (within : Within n m m' state text) (hn : 1 < n) (ch : UInt8) :
    Holds n (mpAddChar n m'.toRing ch) (held (n - 1) (text ++ [ch])) ∧
    Holds n (mpClean n (mpAddChar n m'.toRing ch)) (held (n - 1) (text ++ [ch])) ∧
    (mpClean n (mpAddChar n m'.toRing ch)).pcBufDataHeader = 0 ∧
    (mpClean n (mpAddChar n m'.toRing ch)).front = held (n - 1) (text ++ [ch]) := by
  have added := within.ring.add hn ch
  exact ⟨added, added.clean (held_ne_nil hn (by simp))⟩

variable {m : ProcessMultipart} {v : List UInt8}

/-- A prefix of a text and its delimiter that ends in a line feed lies within the text. -/
theorem prefix_of_line {B p : List UInt8} (boundary : IsBoundary B)
    (hp : p ++ [lf] <+: v ++ (delimiter B ++ [cr])) : p ++ [lf] <+: v := by
  rcases List.prefix_or_prefix_of_prefix hp (List.prefix_append v _) with short | ⟨w, hw⟩
  · exact short
  · rw [← hw, List.prefix_append_right_inj] at hp
    rcases List.eq_nil_or_concat w with rfl | ⟨w', ch, rfl⟩
    · rw [← hw, List.append_nil]
    · have last : ch = lf := by
        have ends := congrArg List.getLast? hw
        simpa using ends
      have inside : lf ∈ delimiter B ++ [cr] := hp.subset (by simp [last])
      rcases List.mem_append.mp inside with bad | bad
      · exact absurd bad (delimiter_no_lf boundary)
      · exact absurd (List.mem_singleton.mp bad) (by decide)

/-- A text that is passed over up to its delimiter line. -/
theorem ignore_skips (boundary : IsBoundary m.acBoundary) (big : 200 ≤ n)
    (clean : ¬ delimiter m.acBoundary <:+: v) (state : m.iState = .ignore)
    (empty : Holds n m.toRing []) :
    Within n m (processUpdate n N m (v ++ delimiter m.acBoundary ++ crlf)) .header [] := by
  have upTo : Within n m (processUpdate n N m (v ++ (delimiter m.acBoundary ++ [cr])))
      .ignore (v ++ (delimiter m.acBoundary ++ [cr])) := by
    refine processUpdate_induct (I := fun p m' => Within n m m' .ignore p) (.start state empty) ?_
    intro p ch m' hp within
    have same := within.same.trans (processChar_sameFlash (n := n) (N := N)
      (by rw [within.state]; decide) ch)
    obtain ⟨added, cleaned, _, front⟩ := within.added (by omega) ch
    by_cases line : ch = lf
    · subst line
      have miss : ¬ Hits m.acBoundary (p ++ [lf]) := fun hits =>
        clean (hits.inside.trans (prefix_of_line boundary hp).isInfix)
      have none := mt (mpTestBoundary_held boundary big front).mp miss
      rw [← within.same.boundary] at none
      refine ⟨?_, ?_, same⟩
      · simp [processChar, within.state, none]
      · simpa [processChar, within.state, none] using cleaned
    · refine ⟨?_, ?_, same⟩
      · simp [processChar, within.state, line]
      · simpa [processChar, within.state, line] using added
  rw [show v ++ delimiter m.acBoundary ++ crlf = v ++ (delimiter m.acBoundary ++ [cr]) ++ [lf] by
    simp [crlf], processUpdate_append]
  generalize processUpdate n N m (v ++ (delimiter m.acBoundary ++ [cr])) = m' at upTo
  have same := upTo.same.trans (processChar_sameFlash (n := n) (N := N)
    (by rw [upTo.state]; decide) lf)
  obtain ⟨_, _, _, front⟩ := upTo.added (by omega) lf
  have hits : Hits m.acBoundary (v ++ (delimiter m.acBoundary ++ [cr]) ++ [lf]) :=
    ⟨[cr, lf], by simp [terminators], v, by simp⟩
  have found := (mpTestBoundary_held boundary big front).mpr hits
  rw [← upTo.same.boundary] at found
  simp only [processUpdate, List.foldl_cons, List.foldl_nil]
  refine ⟨?_, ?_, same⟩
  · simp [processChar, upTo.state, found]
  · simpa [processChar, upTo.state, found, held] using Holds.clear (by omega)

/-- The header of a part: it ends at its first empty line and holds no delimiter. -/
structure HeaderBlock (B h : List UInt8) : Prop where
  ends : ∃ p, h = p ++ [lf] ∧ ([lf] <:+ p ∨ [lf, cr] <:+ p)
  first : ∀ p, p ++ [lf] <+: h → p ++ [lf] ≠ h → ¬ ([lf] <:+ p ∨ [lf, cr] <:+ p)
  clean : ¬ delimiter B <:+: h

/-- The state within a header, by the end of what was read of it. -/
def headerState (p : List UInt8) : MpState :=
  if [lf] <:+ p then .oneCr else if [lf, cr] <:+ p then .twoLf else .header

/-- The state behind a header, by the name in it. -/
def bodyState (name : Option (List UInt8)) : MpState :=
  match name with
  | some pcName => if pcName = sourceFile then .bodyFile else .bodyParam
  | none => .ignore

theorem headerState_snoc (p : List UInt8) (ch : UInt8) : headerState (p ++ [ch]) =
    if ch = lf then .oneCr else if ch = cr ∧ [lf] <:+ p then .twoLf else .header := by
  have one : [lf] <:+ p ++ [ch] ↔ ch = lf := by
    rw [show [lf] = [] ++ [lf] from rfl, snoc_suffix_snoc]
    simp [eq_comm]
  have two : [lf, cr] <:+ p ++ [ch] ↔ ch = cr ∧ [lf] <:+ p := by
    rw [show [lf, cr] = [lf] ++ [cr] from rfl, snoc_suffix_snoc, eq_comm]
  simp only [headerState, one, two]

/-- A header up to its last line feed. -/
theorem header_within {h : List UInt8} (boundary : IsBoundary m.acBoundary) (big : 200 ≤ n)
    (block : HeaderBlock m.acBoundary h) (state : m.iState = .header)
    (empty : Holds n m.toRing []) {p : List UInt8} (hp : p <+: h) (proper : p ≠ h) :
    Within n m (processUpdate n N m p) (headerState p) p := by
  refine processUpdate_induct (I := fun p m' => Within n m m' (headerState p) p)
    (.start (by simpa [headerState] using state) empty) ?_
  intro q ch m' hq within
  have quiet : m'.iState ≠ .bodyFile := by
    rw [within.state, headerState]
    repeat' split
    all_goals decide
  have same := within.same.trans (processChar_sameFlash (n := n) (N := N) quiet ch)
  obtain ⟨added, cleaned, _, front⟩ := within.added (by omega) ch
  have inside : q ++ [ch] <+: h := hq.trans hp
  have short : q ++ [ch] ≠ h := by
    rintro rfl
    exact proper (hp.eq_of_length (hp.length_le.antisymm hq.length_le))
  have miss : ¬ Hits m.acBoundary (q ++ [ch]) := fun hits =>
    block.clean (hits.inside.trans inside.isInfix)
  have none := mt (mpTestBoundary_held boundary big front).mp miss
  rw [← within.same.boundary] at none
  have notEnd : ch = lf → ¬ ([lf] <:+ q ∨ [lf, cr] <:+ q) := by
    rintro rfl
    exact block.first q inside short
  rw [headerState_snoc]
  by_cases line : ch = lf
  · subst line
    have plain := notEnd rfl
    have here : m'.iState = .header := by
      rw [within.state, headerState, if_neg (fun h => plain (.inl h)),
        if_neg (fun h => plain (.inr h))]
    refine ⟨?_, ?_, same⟩
    · simp [processChar, here, none]
    · simpa [processChar, here, none] using cleaned
  · rw [if_neg line]
    by_cases after : [lf] <:+ q
    · have here : m'.iState = .oneCr := by rw [within.state, headerState, if_pos after]
      refine ⟨?_, ?_, same⟩
      · simp only [processChar, here, headerEnd, line, after, and_true, if_false]
        split <;> rfl
      · have ring : (processChar n N m' ch).toRing = mpAddChar n m'.toRing ch := by
          simp only [processChar, here, headerEnd, line, if_false]
          split <;> rfl
        rw [ring]
        exact added
    · have here : m'.iState = .twoLf ∨ m'.iState = .header := by
        rw [within.state, headerState, if_neg after]
        split <;> simp
      rw [if_neg (fun h => after h.2)]
      refine ⟨?_, ?_, same⟩
      · rcases here with here | here <;> simp [processChar, here, headerEnd, line]
      · have ring : (processChar n N m' ch).toRing = mpAddChar n m'.toRing ch := by
          rcases here with here | here <;> simp [processChar, here, headerEnd, line]
        rw [ring]
        exact added

/-- A header, read to its end, decides the state by the name that the library finds in it, and
empties the buffer. -/
theorem header_reads {h : List UInt8} (boundary : IsBoundary m.acBoundary) (big : 200 ≤ n)
    (block : HeaderBlock m.acBoundary h) (state : m.iState = .header)
    (empty : Holds n m.toRing []) :
    Within n m (processUpdate n N m h) (bodyState (N (held (n - 1) h))) [] ∧
      (processUpdate n N m h).pcBufDataHeader = 0 := by
  obtain ⟨p, rfl, line⟩ := block.ends
  have within := header_within (N := N) boundary big block state empty
    (List.prefix_append p [lf]) (by simp)
  rw [processUpdate_append]
  generalize processUpdate n N m p = m' at within
  have here : m'.iState = .oneCr ∨ m'.iState = .twoLf := by
    rw [within.state, headerState]
    rcases line with one | two
    · rw [if_pos one]
      exact .inl rfl
    · rw [if_pos two]
      split
      · exact .inl rfl
      · exact .inr rfl
  obtain ⟨_, _, header, front⟩ := within.added (by omega) lf
  obtain ⟨boundary', address', flash'⟩ := within.same
  -- the block that the library gets starts at the start of the cleaned buffer
  have window : (mpClean n (mpAddChar n m'.toRing lf)).window = held (n - 1) (p ++ [lf]) :=
    (window_front header).trans front
  have step : processChar n N m' lf = headerEnd n N
      { m' with toRing := mpAddChar n m'.toRing lf } lf := by
    rcases here with here | here <;> simp [processChar, here, show lf ≠ cr by decide]
  simp only [processUpdate, List.foldl_cons, List.foldl_nil]
  have cleared : ∀ r : Ring, Holds n (mpClear r) (held (n - 1) []) := fun r => by
    simpa [held] using Holds.clear (r := r) (by omega)
  rw [step]
  simp only [headerEnd, if_true, window, bodyState]
  cases N (held (n - 1) (p ++ [lf])) with
  | none => exact ⟨⟨rfl, cleared _, ⟨boundary', address', flash'⟩⟩, rfl⟩
  | some pcName =>
    by_cases file : pcName = sourceFile
    · simp only [file, if_true]
      exact ⟨⟨rfl, cleared _, ⟨boundary', address', flash'⟩⟩, rfl⟩
    · simp only [file, if_false]
      exact ⟨⟨rfl, cleared _, ⟨boundary', address', flash'⟩⟩, rfl⟩

/-- The value of another part, up to the delimiter line behind it. -/
theorem param_reads (boundary : IsBoundary m.acBoundary) (big : 200 ≤ n)
    (clean : ¬ delimiter m.acBoundary <:+: v) (state : m.iState = .bodyParam)
    (empty : Holds n m.toRing []) :
    Within n m (processUpdate n N m (v ++ crlf ++ delimiter m.acBoundary ++ crlf))
      .header [] := by
  let text := v ++ crlf ++ delimiter m.acBoundary ++ [cr]
  have whole : v ++ crlf ++ delimiter m.acBoundary ++ crlf = text ++ [lf] := by
    simp [text, crlf]
  have upTo : Within n m (processUpdate n N m text) .bodyParam text := by
    refine processUpdate_induct (I := fun p m' => Within n m m' .bodyParam p) (.start state empty) ?_
    intro p ch m' hp within
    have same := within.same.trans (processChar_sameFlash (n := n) (N := N)
      (by rw [within.state]; decide) ch)
    obtain ⟨_, cleaned, _, front⟩ := within.added (by omega) ch
    have miss : ¬ Hits m.acBoundary (p ++ [ch]) := by
      apply no_early_hit boundary clean (t := crlf) (by simp [terminators, crlf])
      · rw [whole]
        exact hp.trans (List.prefix_append text [lf])
      · rw [whole]
        intro same
        have size := hp.length_le
        rw [same, List.length_append, List.length_singleton] at size
        omega
    have none := Option.not_isSome_iff_eq_none.mp (mt (mpTestBoundary_held boundary big front).mp miss)
    rw [← within.same.boundary] at none
    refine ⟨?_, ?_, same⟩
    · simp [processChar, within.state, bodyParam, none]
    · simpa [processChar, within.state, bodyParam, none] using cleaned
  rw [whole, processUpdate_append]
  generalize processUpdate n N m text = m' at upTo
  have same := upTo.same.trans (processChar_sameFlash (n := n) (N := N)
    (by rw [upTo.state]; decide) lf)
  obtain ⟨_, _, _, front⟩ := upTo.added (by omega) lf
  have hits : Hits m.acBoundary (text ++ [lf]) :=
    ⟨crlf, by simp [terminators, crlf], v ++ crlf, by simp [text, crlf]⟩
  have found := (mpTestBoundary_held boundary big front).mpr hits
  rw [← upTo.same.boundary] at found
  obtain ⟨pc, hpc⟩ := Option.isSome_iff_exists.mp found
  simp only [processUpdate, List.foldl_cons, List.foldl_nil]
  refine ⟨?_, ?_, same⟩
  · simp [processChar, upTo.state, bodyParam, hpc]
  · simpa [processChar, upTo.state, bodyParam, hpc, held] using Holds.clear (by omega)

/-- A part of the form other than the file. -/
structure FormPart where
  header : List UInt8
  value : List UInt8

/-- The part and the delimiter line behind it. -/
def FormPart.bytes (B : List UInt8) (part : FormPart) : List UInt8 :=
  part.header ++ (part.value ++ crlf ++ delimiter B ++ crlf)

structure FormPart.Ok (n : Nat) (N : PartName) (B : List UInt8) (part : FormPart) :
    Prop where
  block : HeaderBlock B part.header
  other : N (held (n - 1) part.header) ≠ some sourceFile
  clean : ¬ delimiter B <:+: part.value

theorem clean_line {B : List UInt8} (boundary : IsBoundary B) (clean : ¬ delimiter B <:+: v) :
    ¬ delimiter B <:+: v ++ crlf := by
  intro inside
  rcases infix_append_cons (delimiter_no_cr boundary) inside with left | right
  · exact clean left
  · have size := right.length_le
    simp [delimiter] at size

theorem Within.trans {a b c : ProcessMultipart} {s : MpState} {text : List UInt8}
    (left : SameFlash a b) (right : Within n b c s text) : Within n a c s text :=
  ⟨right.state, right.ring, left.trans right.same⟩

/-- A part other than the file leads from one header to the next. -/
theorem part_reads {part : FormPart} (boundary : IsBoundary m.acBoundary) (big : 200 ≤ n)
    (ok : part.Ok n N m.acBoundary) (state : m.iState = .header)
    (empty : Holds n m.toRing []) :
    Within n m (processUpdate n N m (part.bytes m.acBoundary)) .header [] := by
  have header := (header_reads (N := N) boundary big ok.block state empty).1
  rw [FormPart.bytes, processUpdate_append]
  generalize processUpdate n N m part.header = m' at header
  have ring : Holds n m'.toRing [] := by simpa [held] using header.ring
  have same := header.same.boundary
  rw [← same] at boundary ⊢
  have clean := ok.clean
  rw [← same] at clean
  have body := header.state
  unfold bodyState at body
  split at body
  · rename_i pcName found
    rw [if_neg (fun h => ok.other (by rw [found, h]))] at body
    exact .trans header.same (param_reads boundary big clean body ring)
  · exact .trans header.same (ignore_skips boundary big (clean_line boundary clean) body ring)

theorem parts_read {parts : List FormPart} (boundary : IsBoundary m.acBoundary) (big : 200 ≤ n)
    (ok : ∀ part ∈ parts, part.Ok n N m.acBoundary) (state : m.iState = .header)
    (empty : Holds n m.toRing []) :
    Within n m (processUpdate n N m (parts.flatMap (FormPart.bytes m.acBoundary)))
      .header [] := by
  induction parts generalizing m with
  | nil => exact .start state empty
  | cons part rest ih =>
    have first := part_reads boundary big (ok part List.mem_cons_self) state empty
    rw [List.flatMap_cons, processUpdate_append]
    generalize processUpdate n N m (part.bytes m.acBoundary) = m' at first
    have same := first.same.boundary
    rw [← same] at boundary ok ⊢
    exact .trans first.same (ih boundary (fun part hp => ok part (List.mem_cons_of_mem _ hp))
      first.state (by simpa [held] using first.ring))

theorem headerEnd_ring (m : ProcessMultipart) (ch : UInt8) :
    ((headerEnd n N m ch).toRing = m.toRing ∨
      ∃ r, (headerEnd n N m ch).toRing = mpClear r) ∧
    ((headerEnd n N m ch).iState = .bodyFile →
      N (mpClean n m.toRing).window = some sourceFile) := by
  unfold headerEnd
  split
  · dsimp only
    split
    · rename_i pcName found
      split
      · rename_i file
        exact ⟨.inr ⟨_, rfl⟩, fun _ => by rw [found, file]⟩
      · exact ⟨.inr ⟨_, rfl⟩, nofun⟩
    · exact ⟨.inr ⟨_, rfl⟩, nofun⟩
  · exact ⟨.inl rfl, nofun⟩

/-- Outside a file body a character leaves the ring with it, cleaned or not, or empty; and a file
body starts only behind a header that the library gives the file's name. -/
theorem processChar_ring {m : ProcessMultipart} (quiet : m.iState ≠ .bodyFile) (ch : UInt8) :
    ((processChar n N m ch).toRing = mpAddChar n m.toRing ch ∨
      (processChar n N m ch).toRing = mpClean n (mpAddChar n m.toRing ch) ∨
      ∃ r, (processChar n N m ch).toRing = mpClear r) ∧
    ((processChar n N m ch).iState = .bodyFile →
      N (mpClean n (mpAddChar n m.toRing ch)).window = some sourceFile) := by
  obtain ⟨ring, file⟩ := headerEnd_ring (n := n) (N := N)
    { m with toRing := mpAddChar n m.toRing ch } ch
  unfold processChar
  cases state : m.iState with
  | bodyFile => exact absurd state quiet
  | ignore =>
    dsimp only
    repeat' split
    · exact ⟨.inr (.inr ⟨_, rfl⟩), nofun⟩
    · exact ⟨.inr (.inl rfl), nofun⟩
    · exact ⟨.inl rfl, nofun⟩
  | header =>
    dsimp only
    repeat' split
    · exact ⟨.inr (.inl rfl), nofun⟩
    · exact ⟨.inr (.inl rfl), nofun⟩
    · exact ⟨.inl rfl, nofun⟩
  | oneCr =>
    dsimp only
    split
    · exact ⟨.inl rfl, nofun⟩
    · rw [← state]
      exact ⟨ring.imp id .inr, file⟩
  | twoLf =>
    dsimp only
    rw [← state]
    exact ⟨ring.imp id .inr, file⟩
  | bodyParam =>
    dsimp only [bodyParam]
    split
    · exact ⟨.inr (.inr ⟨_, rfl⟩), nofun⟩
    · exact ⟨.inr (.inl rfl), nofun⟩

/-- Behind the file nothing more is written unless a piece of the text is again the header of a
file. -/
theorem rest_quiet {rest : List UInt8} (hn : 1 < n) (state : m.iState ≠ .bodyFile)
    (empty : Holds n m.toRing [])
    (other : ∀ block, block <:+: rest → N block ≠ some sourceFile) :
    SameFlash m (processUpdate n N m rest) := by
  refine (processUpdate_induct (I := fun p m' => m'.iState ≠ .bodyFile ∧ SameFlash m m' ∧
    ∃ c, Holds n m'.toRing c ∧ c <:+ p) ⟨state, .refl m, [], empty, List.nil_suffix⟩ ?_).2.1
  rintro p ch m' hp ⟨quiet, same, c, holds, suffix⟩
  obtain ⟨ring, file⟩ := processChar_ring (n := n) (N := N) quiet ch
  have added := holds.push hn ch
  have behind := push_suffix (k := n - 1) suffix ch
  obtain ⟨cleaned, header, front⟩ := added.clean (push_ne_nil _ _ _)
  refine ⟨fun body => ?_, same.trans (processChar_sameFlash quiet ch), ?_⟩
  · have name := file body
    rw [window_front header, front] at name
    exact other _ (behind.isInfix.trans hp.isInfix) name
  · rcases ring with ring | ring | ⟨r, ring⟩
    · exact ⟨_, ring ▸ added, behind⟩
    · exact ⟨_, ring ▸ cleaned, behind⟩
    · exact ⟨[], ring ▸ Holds.clear (by omega), List.nil_suffix⟩

/-- A body up to the content of its file: the first delimiter line, other parts, the header. -/
theorem file_opens {B preamble header : List UInt8} {parts : List FormPart} (flash : Nat → UInt8)
    (boundary : IsBoundary B) (big : 200 ≤ n) (lead : ¬ delimiter B <:+: preamble)
    (ok : ∀ part ∈ parts, part.Ok n N B) (block : HeaderBlock B header)
    (name : N (held (n - 1) header) = some sourceFile) :
    let m := processUpdate n N (mpStart B flash)
      (preamble ++ delimiter B ++ crlf ++ parts.flatMap (FormPart.bytes B) ++ header)
    Within n (mpStart B flash) m .bodyFile [] ∧ m.pcBufDataHeader = 0 := by
  intro m
  have empty : ∀ {m' : ProcessMultipart} {s : MpState}, Within n (mpStart B flash) m' s [] →
      Holds n m'.toRing [] := fun within => by simpa [held] using within.ring
  have opened : Within n (mpStart B flash) (processUpdate n N (mpStart B flash)
      (preamble ++ delimiter B ++ crlf)) .header [] :=
    ignore_skips (m := mpStart B flash) boundary big lead rfl
      (Holds.clear (r := (mpStart B flash).toRing) (by omega))
  simp only [m]
  rw [processUpdate_append, processUpdate_append]
  generalize processUpdate n N (mpStart B flash) (preamble ++ delimiter B ++ crlf) = m1
    at opened
  have same1 : m1.acBoundary = B := opened.same.boundary
  have passed : Within n (mpStart B flash) (processUpdate n N m1
      (parts.flatMap (FormPart.bytes B))) .header [] := by
    have parts := parts_read (m := m1) (N := N)
      (by rwa [same1]) big (by rwa [same1]) opened.state (empty opened)
    rw [same1] at parts
    exact .trans opened.same parts
  generalize processUpdate n N m1 (parts.flatMap (FormPart.bytes B)) = m2 at passed
  have same2 : m2.acBoundary = B := passed.same.boundary
  have read := header_reads (m := m2) (N := N) (by rwa [same2]) big (by rwa [same2])
    passed.state (empty passed)
  rw [name] at read
  exact ⟨.trans passed.same read.1, read.2⟩

end Rovio.Upload
