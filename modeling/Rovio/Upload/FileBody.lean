import Rovio.Upload.Part

/-! The content of the file. It streams through the buffer: whenever the buffer
is full all but the length of a delimiter is written, in whole words, and the
delimiter is looked for at every character. The line end before the delimiter
is not part of what is kept back, so a write that comes while it is in the
buffer can take it along. -/
namespace Rovio.Upload
open Kit

variable {n : Nat} {N : PartName}

theorem usiMyWrite_append (flash : Nat → UInt8) (addr : Nat) (x y : List UInt8) :
    usiMyWrite (usiMyWrite flash addr x) (addr + x.length) y = usiMyWrite flash addr (x ++ y) := by
  funext a
  unfold usiMyWrite
  by_cases low : addr ≤ a
  · by_cases inX : a - addr < x.length
    · rw [if_neg (by omega), if_pos low, if_pos low, List.getElem?_append_left inX]
    · rw [if_pos (by omega), if_pos low, if_pos low, List.getElem?_append_right (by omega),
        show a - (addr + x.length) = a - addr - x.length by omega,
        List.getElem?_eq_none (l := x) (by omega)]
      rfl
  · rw [if_neg (by omega), if_neg low, if_neg low]

theorem usiMyWrite_nil (flash : Nat → UInt8) (addr : Nat) : usiMyWrite flash addr [] = flash := by
  funext a
  simp [usiMyWrite]

/-- What one write of a full buffer takes. -/
def blockLen (n b : Nat) : Nat := (n - 1 - b - 2) / 4 * 4

/-- The bytes written when `k` characters of the file are read, as long as no delimiter is met. -/
def flushed (n b : Nat) : Nat → Nat
  | 0 => 0
  | k + 1 => if k + 1 - flushed n b k = n - 1 then flushed n b k + blockLen n b else flushed n b k

/-- `m` has read `text` of a file since `m₀` and written the first `f` bytes of it. -/
structure InFile (n : Nat) (m₀ m : ProcessMultipart) (text : List UInt8) (f : Nat) : Prop where
  state : m.iState = .bodyFile
  valid : m.Valid n
  zero : m.pcBufDataHeader = 0
  front : m.front = text.drop f
  le : f ≤ text.length
  room : text.length - f + 1 < n
  boundary : m.acBoundary = m₀.acBoundary
  address : m.pfFlashTmpFile = m₀.pfFlashTmpFile + f
  flash : m.flash = usiMyWrite m₀.flash m₀.pfFlashTmpFile (text.take f)

theorem front_add {r : Ring} (ch : UInt8) (room : r.pcBufDataEnd + 1 ≠ n) :
    (mpAddChar n r ch).front = r.front ++ [ch] := by
  unfold Ring.front
  simp only [mpAddChar, if_neg room, List.range_succ, List.map_append, List.map_cons, List.map_nil,
    Function.update_self]
  congr 1
  refine List.map_congr_left fun i hi => ?_
  rw [Function.update_of_ne (Nat.ne_of_lt (List.mem_range.mp hi))]

/-- A buffer whose first characters are given up. -/
theorem contents_forward {r : Ring} {l : Nat} (valid : r.Valid n) (le : l ≤ r.pcBufDataEnd) :
    Ring.contents n { r with pcBufDataHeader := l } = r.front.drop l := by
  have dataEnd := valid.dataEnd
  have count : (r.pcBufDataEnd + n - l) % n = r.pcBufDataEnd - l := by
    rw [Nat.mod_eq_sub_mod (by omega), Nat.mod_eq_of_lt (by omega)]
    omega
  obtain ⟨k, hk⟩ := Nat.exists_eq_add_of_le le
  unfold Ring.contents places Ring.front
  rw [count, hk, List.range_add, List.map_append, List.drop_left' (by simp), List.map_map,
    Nat.add_sub_cancel_left]
  refine List.map_congr_left fun i hi => ?_
  have small := List.mem_range.mp hi
  show r.acBuf ((l + i) % n) = r.acBuf (l + i)
  rw [Nat.mod_eq_of_lt (by omega)]

theorem blockLen_bounds {b : Nat} (hb : b ≤ 127) (big : 200 ≤ n) :
    0 < blockLen n b ∧ blockLen n b + b + 2 ≤ n - 1 ∧ n - 1 ≤ blockLen n b + b + 2 + 3 := by
  unfold blockLen
  omega

/-- A full buffer after its write: the rest of the characters, at the start. -/
theorem mpTestWriteFlash_full {m : ProcessMultipart} (valid : m.Valid n) (big : 200 ≤ n)
    (short : m.acBoundary.length ≤ 127) (zero : m.pcBufDataHeader = 0)
    (full : m.pcBufDataEnd + 1 = n) :
    let m' := mpTestWriteFlash n m
    m'.iState = m.iState ∧ m'.Valid n ∧ m'.pcBufDataHeader = 0 ∧
      m'.front = m.front.drop (blockLen n m.acBoundary.length) ∧
      m'.acBoundary = m.acBoundary ∧
      m'.pfFlashTmpFile = m.pfFlashTmpFile + blockLen n m.acBoundary.length ∧
      m'.flash = usiMyWrite m.flash m.pfFlashTmpFile
        (m.front.take (blockLen n m.acBoundary.length)) := by
  obtain ⟨pos, keep, _⟩ := blockLen_bounds short big
  have iLen : (m.pcBufDataEnd - m.pcBufDataHeader - m.acBoundary.length - 2) / 4 * 4 =
      blockLen n m.acBoundary.length := by
    rw [zero, Nat.sub_zero, blockLen, ← full, Nat.add_sub_cancel]
  have moved : Ring.Valid n { m.toRing with pcBufDataHeader := blockLen n m.acBoundary.length } :=
    ⟨by show blockLen n _ < n; omega, valid.dataEnd⟩
  have apart : m.pcBufDataEnd ≠ blockLen n m.acBoundary.length := by omega
  have clean := mpClean_valid moved (.inl apart)
  have header := mpClean_header moved
  have written : (List.range (blockLen n m.acBoundary.length)).map m.acBuf =
      m.front.take (blockLen n m.acBoundary.length) := by
    rw [Ring.front, ← List.map_take, List.take_range, Nat.min_eq_left (by omega)]
  intro m'
  simp only [m', mpTestWriteFlash, full, if_true, iLen, written]
  refine ⟨trivial, clean, header, ?_, trivial, trivial, trivial⟩
  rw [← front_contents clean header, mpClean_contents moved (.inl apart),
    contents_forward valid (by omega)]

/-- One character of the file that does not complete a delimiter. -/
theorem InFile.step {m₀ m : ProcessMultipart} {text : List UInt8} {f : Nat}
    (boundary : IsBoundary m₀.acBoundary) (big : 200 ≤ n) (inFile : InFile n m₀ m text f)
    (ch : UInt8) (miss : ¬ Hits m₀.acBoundary (text ++ [ch])) :
    InFile n m₀ (processChar n N m ch) (text ++ [ch])
      (if text.length + 1 - f = n - 1 then f + blockLen n m₀.acBoundary.length else f) := by
  have len : m.pcBufDataEnd = text.length - f := by
    rw [← front_length, inFile.front, List.length_drop]
  have room := inFile.room
  have le := inFile.le
  have notLast : m.pcBufDataEnd + 1 ≠ n := by omega
  have valid := mpAddChar_valid inFile.valid ch
  have dataEnd : (mpAddChar n m.toRing ch).pcBufDataEnd = m.pcBufDataEnd + 1 := by
    simp [mpAddChar, notLast]
  have header : (mpAddChar n m.toRing ch).pcBufDataHeader = 0 := by
    simp [mpAddChar, notLast, inFile.zero]
  have front : (mpAddChar n m.toRing ch).front = (text ++ [ch]).drop f := by
    rw [front_add ch notLast, inFile.front, List.drop_append_of_le_length le]
  have none : mpTestBoundary (mpAddChar n m.toRing ch) m.acBoundary = none := by
    rw [← Option.not_isSome_iff_eq_none]
    intro found
    apply miss
    obtain ⟨q, hq⟩ := Option.isSome_iff_exists.mp found
    obtain ⟨t, ht, _, delim⟩ := mpTestBoundary_sound hq
    refine ⟨t, ht, ?_⟩
    rw [← inFile.boundary, ← delim, front]
    exact (List.drop_suffix _ _).trans (List.drop_suffix _ _)
  have step : processChar n N m ch =
      mpTestWriteFlash n { m with toRing := mpAddChar n m.toRing ch } := by
    simp [processChar, inFile.state, bodyFile, none]
  have take : (text ++ [ch]).take f = text.take f := List.take_append_of_le_length le
  rw [step]
  by_cases full : text.length + 1 - f = n - 1
  · obtain ⟨state, valid', zero', front', boundary', address', flash'⟩ :=
      mpTestWriteFlash_full (m := { m with toRing := mpAddChar n m.toRing ch }) valid big
        (by show m.acBoundary.length ≤ 127; rw [inFile.boundary]; exact boundary.length)
        header (by show (mpAddChar n m.toRing ch).pcBufDataEnd + 1 = n; omega)
    have same : m.acBoundary.length = m₀.acBoundary.length := by rw [inFile.boundary]
    have short := boundary.length
    obtain ⟨pos, keep, _⟩ := blockLen_bounds short big
    rw [same] at front' address' flash'
    rw [if_pos full]
    refine ⟨state.trans inFile.state, valid', zero', ?_, ?_, ?_, boundary'.trans inFile.boundary,
      ?_, ?_⟩
    · rw [front', front, List.drop_drop]
    · rw [List.length_append, List.length_singleton]
      omega
    · rw [List.length_append, List.length_singleton]
      omega
    · rw [address', inFile.address, Nat.add_assoc]
    · have size : (text.take f).length = f := by
        rw [List.length_take]
        omega
      rw [flash', front, inFile.flash, inFile.address]
      nth_rewrite 2 [← size]
      rw [usiMyWrite_append, ← take, ← List.take_add]
  · rw [if_neg full, mpTestWriteFlash,
      if_neg (by show (mpAddChar n m.toRing ch).pcBufDataEnd + 1 ≠ n; omega)]
    refine ⟨inFile.state, valid, header, front, ?_, ?_, inFile.boundary, inFile.address, ?_⟩
    · rw [List.length_append]
      omega
    · rw [List.length_append, List.length_singleton]
      omega
    · rw [take]
      exact inFile.flash

/-- A file read so far, none of its prefixes ending in a delimiter. -/
theorem inFile_run {m : ProcessMultipart} {text : List UInt8} (boundary : IsBoundary m.acBoundary)
    (big : 200 ≤ n) (start : InFile n m m [] 0)
    (miss : ∀ p, p <+: text → ¬ Hits m.acBoundary p) :
    InFile n m (processUpdate n N m text) text
      (flushed n m.acBoundary.length text.length) := by
  refine processUpdate_induct
    (I := fun p m' => InFile n m m' p (flushed n m.acBoundary.length p.length)) start ?_
  intro p ch m' hp inFile
  have next := inFile.step (N := N) boundary big ch (miss _ hp)
  rw [List.length_append, List.length_singleton]
  exact next

theorem front_getElem {r : Ring} {i : Nat} {ch : UInt8} (at_i : r.front[i]? = some ch) :
    r.acBuf i = ch := by
  unfold Ring.front at at_i
  rw [List.getElem?_map, Option.map_eq_some_iff] at at_i
  obtain ⟨j, hj, rfl⟩ := at_i
  obtain ⟨_, rfl⟩ := List.getElem?_eq_some_iff.mp hj
  rw [List.getElem_range]

/-- The character that completes the delimiter behind the content, when no more than content was
written before. -/
theorem InFile.ends {m₀ m : ProcessMultipart} {text content t : List UInt8} {f : Nat} {ch : UInt8}
    (boundary : IsBoundary m₀.acBoundary) (hn : 0 < n) (inFile : InFile n m₀ m text f)
    (ht : t ∈ terminators)
    (whole : text ++ [ch] = content ++ crlf ++ delimiter m₀.acBoundary ++ t)
    (within : f ≤ content.length) :
    let m' := processChar n N m ch
    m'.iState = .header ∧ Holds n m'.toRing [] ∧
      m'.pfFlashTmpFile = m₀.pfFlashTmpFile + content.length ∧
      m'.flash = usiMyWrite m₀.flash m₀.pfFlashTmpFile content := by
  have len : m.pcBufDataEnd = text.length - f := by
    rw [← front_length, inFile.front, List.length_drop]
  have room := inFile.room
  have sizes := congrArg List.length whole
  have one := terminators_length ht
  simp only [List.length_append, crlf, delimiter, List.length_cons, List.length_nil] at sizes
  have notLast : m.pcBufDataEnd + 1 ≠ n := by omega
  have front : (mpAddChar n m.toRing ch).front =
      content.drop f ++ (crlf ++ (delimiter m₀.acBoundary ++ t)) := by
    rw [front_add ch notLast, inFile.front, ← List.drop_append_of_le_length inFile.le, whole,
      List.append_assoc, List.append_assoc, List.drop_append_of_le_length within]
  have body : (content.drop f).length = content.length - f := List.length_drop
  have found : mpTestBoundary (mpAddChar n m.toRing ch) m.acBoundary =
      some (content.length - f + 2) := by
    have size : (mpAddChar n m.toRing ch).pcBufDataEnd =
        content.length - f + 2 + 2 + m.acBoundary.length + t.length := by
      rw [← front_length, front, inFile.boundary]
      simp [crlf, delimiter]
      omega
    apply mpTestBoundary_complete (by rw [inFile.boundary]; exact boundary.no_cr) ht size
    rw [front, inFile.boundary, ← body, ← List.drop_drop, List.drop_left]
    rfl
  have atLf : (mpAddChar n m.toRing ch).acBuf (content.length - f + 1) = lf := by
    apply front_getElem
    rw [front, ← body]
    simp [crlf]
  have atCr : (mpAddChar n m.toRing ch).acBuf (content.length - f) = cr := by
    apply front_getElem
    rw [front, ← body]
    simp [crlf]
  have strip : stripLineEnd (mpAddChar n m.toRing ch) (content.length - f + 2) =
      content.length - f := by
    unfold stripLineEnd
    rw [if_pos ⟨by omega, atLf⟩, if_pos ⟨by omega, atCr⟩]
    rfl
  have rest : (List.range (content.length - f)).map (mpAddChar n m.toRing ch).acBuf =
      content.drop f := by
    have size : content.length - f ≤ (mpAddChar n m.toRing ch).pcBufDataEnd := by
      rw [← front_length, front, List.length_append, body]
      omega
    calc (List.range (content.length - f)).map (mpAddChar n m.toRing ch).acBuf
        = (mpAddChar n m.toRing ch).front.take (content.length - f) := by
          rw [Ring.front, ← List.map_take, List.take_range, Nat.min_eq_left size]
      _ = content.drop f := by rw [front, ← body, List.take_left]
  have before : text.take f = content.take f := by
    have := congrArg (List.take f) whole
    rwa [List.take_append_of_le_length inFile.le, List.append_assoc, List.append_assoc,
      List.take_append_of_le_length within] at this
  intro m'
  simp only [m', processChar, inFile.state, bodyFile, found, strip, rest]
  refine ⟨trivial, Holds.clear hn, ?_, ?_⟩
  · rw [inFile.address]
    omega
  · have size : (content.take f).length = f := by
      rw [List.length_take]
      omega
    rw [inFile.flash, inFile.address, before]
    nth_rewrite 2 [← size]
    rw [usiMyWrite_append, List.take_append_drop]

end Rovio.Upload
