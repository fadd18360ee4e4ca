import Rovio.Upload.FileBody

/-! A whole upload. The flash gets the file exactly unless a write of a full
buffer comes between the end of the content and the end of the delimiter and
takes more than the content. -/
namespace Rovio.Upload
open Kit

/-- A body that holds a file: text before the first delimiter, other parts, the file's header and
content, what ends its delimiter, and text behind in which no further file starts. -/
structure UploadBody (N : PartName) where
  acBoundary : List UInt8
  preamble : List UInt8
  parts : List FormPart
  header : List UInt8
  content : List UInt8
  terminator : List UInt8
  rest : List UInt8
  boundary : IsBoundary acBoundary
  lead : ¬ delimiter acBoundary <:+: preamble
  others : ∀ part ∈ parts, part.Ok mpBufLen N acBoundary
  block : HeaderBlock acBoundary header
  name : N (held (mpBufLen - 1) header) = some sourceFile
  clean : ¬ delimiter acBoundary <:+: content
  terminates : terminator ∈ terminators
  last : ∀ block, block <:+: rest → N block ≠ some sourceFile

namespace UploadBody

variable {N : PartName}

/-- The body up to the content of the file. -/
def opening (u : UploadBody N) : List UInt8 :=
  u.preamble ++ delimiter u.acBoundary ++ crlf ++
    u.parts.flatMap (FormPart.bytes u.acBoundary) ++ u.header

/-- The content with its line end and the delimiter. -/
def file (u : UploadBody N) : List UInt8 :=
  u.content ++ crlf ++ delimiter u.acBoundary ++ u.terminator

def bytes (u : UploadBody N) : List UInt8 := u.opening ++ (u.file ++ u.rest)

end UploadBody

/-- Some write of a full buffer, the `m`-th, ends behind the content of length `len` and is made
before the delimiter is complete. -/
def FlushStraddles (n b len term : Nat) : Prop :=
  ∃ m, len < m * blockLen n b ∧ m * blockLen n b + (n - 1 - blockLen n b) < len + 4 + b + term

variable {n : Nat}

/-- The writes so far are whole blocks, the last of them was due, and the rest fits. -/
theorem flushed_blocks {b : Nat} (hb : b ≤ 127) (big : 200 ≤ n) (k : Nat) :
    ∃ m, flushed n b k = m * blockLen n b ∧ flushed n b k ≤ k ∧ k - flushed n b k < n - 1 ∧
      (m ≠ 0 → (m - 1) * blockLen n b + (n - 1) ≤ k) := by
  obtain ⟨pos, keep, _⟩ := blockLen_bounds hb big
  induction k with
  | zero => exact ⟨0, by simp [flushed], by simp [flushed], by simp only [flushed]; omega, by simp⟩
  | succ k ih =>
    obtain ⟨m, blocks, le, room, due⟩ := ih
    unfold flushed
    split
    · rename_i full
      refine ⟨m + 1, ?_, by omega, by omega, fun _ => ?_⟩
      · rw [blocks, Nat.add_mul, Nat.one_mul]
      · rw [Nat.add_sub_cancel, ← blocks]
        omega
    · rename_i notFull
      exact ⟨m, blocks, by omega, by omega, fun some => (due some).trans (Nat.le_succ k)⟩

/-- Too much is written before the last character of the delimiter exactly if a write straddles. -/
theorem flushed_straddles {b : Nat} (hb : b ≤ 127) (big : 200 ≤ n) {len term : Nat} :
    len < flushed n b (len + 3 + b + term) ↔ FlushStraddles n b len term := by
  obtain ⟨pos, keep, _⟩ := blockLen_bounds hb big
  obtain ⟨m, blocks, le, room, due⟩ := flushed_blocks hb big (len + 3 + b + term)
  constructor
  · intro past
    refine ⟨m, by omega, ?_⟩
    have first : m ≠ 0 := by
      rintro rfl
      omega
    have made := due first
    obtain ⟨j, rfl⟩ := Nat.exists_eq_succ_of_ne_zero first
    rw [Nat.succ_eq_add_one, Nat.add_sub_cancel] at made
    rw [Nat.succ_eq_add_one, Nat.add_mul, Nat.one_mul]
    omega
  · rintro ⟨i, past, early⟩
    by_contra under
    have order : m < i := by
      by_contra ge
      have := Nat.mul_le_mul_right (blockLen n b) (Nat.not_lt.mp ge)
      omega
    have next := Nat.mul_le_mul_right (blockLen n b) (Nat.succ_le_of_lt order)
    rw [Nat.succ_eq_add_one, Nat.add_mul, Nat.one_mul] at next
    omega

namespace UploadBody

variable {N : PartName} (u : UploadBody N) (flash : Nat → UInt8)

theorem big : 200 ≤ mpBufLen := by decide

/-- The state in front of the content. -/
theorem opens : let m := processUpdate mpBufLen N (mpStart u.acBoundary flash) u.opening
    InFile mpBufLen m m [] 0 ∧ SameFlash (mpStart u.acBoundary flash) m := by
  intro m
  obtain ⟨within, zero⟩ : Within mpBufLen (mpStart u.acBoundary flash) m .bodyFile [] ∧
      m.pcBufDataHeader = 0 := file_opens flash u.boundary big u.lead u.others u.block u.name
  have empty : m.toRing.front = [] := by
    rw [← front_contents within.ring.valid zero, within.ring.contents]
    simp [held]
  exact ⟨⟨within.state, within.ring.valid, zero, empty, Nat.le_refl _, by decide, rfl, rfl,
    (usiMyWrite_nil _ _).symm⟩, within.same⟩

/-- The file up to the last character of its delimiter. -/
theorem reads : ∃ text ch, u.file = text ++ [ch] ∧
    text.length = u.content.length + 3 + u.acBoundary.length + u.terminator.length ∧
    let m := processUpdate mpBufLen N (mpStart u.acBoundary flash) u.opening
    InFile mpBufLen m (processUpdate mpBufLen N m text) text
      (flushed mpBufLen u.acBoundary.length text.length) := by
  obtain ⟨start, same⟩ := u.opens flash
  have one := terminators_length u.terminates
  obtain ⟨text, ch, whole⟩ : ∃ text ch, u.file = text ++ [ch] := by
    rcases List.eq_nil_or_concat u.file with empty | ⟨text, ch, h⟩
    · have size := congrArg List.length empty
      simp [UploadBody.file, crlf] at size
    · exact ⟨text, ch, by simpa using h⟩
  refine ⟨text, ch, whole, ?_, ?_⟩
  · have size := congrArg List.length whole
    simp [UploadBody.file, crlf, delimiter] at size
    omega
  · intro m
    have boundary : m.acBoundary = u.acBoundary := same.boundary
    have run := @inFile_run _ N _ text (by rw [boundary]; exact u.boundary)
      big start ?_
    · rwa [boundary] at run
    · intro p hp
      have front : p <+: u.file := hp.trans (whole ▸ List.prefix_append text [ch])
      have proper : p ≠ u.file := by
        rintro rfl
        have size := hp.length_le
        rw [whole, List.length_append, List.length_singleton] at size
        omega
      rw [boundary]
      exact no_early_hit u.boundary u.clean u.terminates front proper

/-- No write straddles: the flash gets the content and nothing else. -/
theorem written (fits : ¬ FlushStraddles mpBufLen u.acBoundary.length u.content.length
      u.terminator.length) :
    let m := processUpdate mpBufLen N (mpStart u.acBoundary flash) u.bytes
    m.pfFlashTmpFile = 16 + u.content.length ∧ m.flash = usiMyWrite flash 16 u.content := by
  obtain ⟨text, ch, whole, size, inFile⟩ := u.reads flash
  obtain ⟨_, same⟩ := u.opens flash
  intro m
  simp only [m, UploadBody.bytes]
  rw [processUpdate_append, processUpdate_append, whole, processUpdate_append]
  dsimp only at inFile
  generalize processUpdate mpBufLen N (mpStart u.acBoundary flash) u.opening = m₀ at *
  have boundary : m₀.acBoundary = u.acBoundary := same.boundary
  have little : flushed mpBufLen u.acBoundary.length text.length ≤ u.content.length := by
    rw [size]
    exact Nat.not_lt.mp (mt (flushed_straddles u.boundary.length big).mp fits)
  obtain ⟨state, ring, address, stored⟩ := @InFile.ends _ N _ _ _ _ _ _ ch
    (by rw [boundary]; exact u.boundary) (by decide) inFile u.terminates
    (by rw [boundary]; exact whole.symm) little
  have quiet := rest_quiet (N := N) (by decide)
    (by rw [state]; decide) ring u.last
  refine ⟨quiet.address.trans ?_, quiet.flash.trans ?_⟩
  · rw [address, same.address]
    rfl
  · rw [stored, same.flash, same.address]
    rfl

/-- A write straddles: the file's end in the flash lies behind the content. -/
theorem overrun (straddles : FlushStraddles mpBufLen u.acBoundary.length u.content.length
      u.terminator.length) :
    16 + u.content.length <
      (processUpdate mpBufLen N (mpStart u.acBoundary flash) u.bytes).pfFlashTmpFile := by
  obtain ⟨text, ch, whole, size, inFile⟩ := u.reads flash
  obtain ⟨_, same⟩ := u.opens flash
  have much : u.content.length < flushed mpBufLen u.acBoundary.length text.length := by
    rw [size]
    exact (flushed_straddles u.boundary.length big).mpr straddles
  have address := inFile.address
  rw [same.address] at address
  rw [UploadBody.bytes, whole, processUpdate_append, processUpdate_append, processUpdate_append]
  refine Nat.lt_of_lt_of_le ?_ ((processUpdate_address _ [ch]).trans (processUpdate_address _ u.rest))
  rw [address]
  exact Nat.add_lt_add_left much 16

end UploadBody

/-- For every way the body arrives in pieces, the flash gets the content from address 16 on and
nothing else, and the write address ends behind it, exactly if no write straddles. -/
theorem upload_exact {N : PartName} (u : UploadBody N) (flash : Nat → UInt8)
    (pieces : List (List UInt8)) (whole : pieces.flatten = u.bytes) :
    let m := pieces.foldl (processUpdate mpBufLen N) (mpStart u.acBoundary flash)
    (m.pfFlashTmpFile = 16 + u.content.length ∧ m.flash = usiMyWrite flash 16 u.content) ↔
      ¬ FlushStraddles mpBufLen u.acBoundary.length u.content.length u.terminator.length := by
  intro m
  simp only [m, processUpdate_pieces, whole]
  constructor
  · rintro ⟨address, _⟩ straddles
    exact (u.overrun flash straddles).ne' address
  · exact u.written flash

/-! A form that holds one file under a header of one line, with the boundary `A`. -/

theorem headerBlock_line {B x : List UInt8} (boundary : IsBoundary B) (line : lf ∉ x)
    (clean : ¬ delimiter B <:+: x) : HeaderBlock B (x ++ crlf ++ crlf) := by
  refine ⟨⟨x ++ [cr, lf, cr], by simp [crlf], .inr ⟨x ++ [cr], by simp⟩⟩, ?_,
    clean_line boundary (clean_line boundary clean)⟩
  intro p hp proper
  have whole : x ++ crlf ++ crlf = (x ++ [cr]) ++ [lf, cr, lf] := by simp [crlf]
  have plain : lf ∉ x ++ [cr] := by
    simp only [List.mem_append, List.mem_singleton, not_or]
    exact ⟨line, by decide⟩
  rw [whole] at hp proper
  rcases List.prefix_or_prefix_of_prefix hp (List.prefix_append (x ++ [cr]) _) with front | back
  · exact absurd (front.subset (by simp)) plain
  · obtain ⟨w, hw⟩ := back
    rw [← hw, List.prefix_append_right_inj] at hp
    have short : w = [] ∨ w = [lf] ∨ w = [lf, cr] ∨ w = [lf, cr, lf] := by
      simpa [List.inits] using List.mem_inits _ _ |>.mpr hp
    rcases short with rfl | rfl | rfl | rfl
    · exact absurd (hw ▸ (by simp : lf ∈ p ++ [lf])) (by simpa using plain)
    · have same : p = x ++ [cr] := List.append_cancel_right hw.symm
      rw [same]
      rintro (one | two)
      · exact plain (one.subset (by simp))
      · exact plain (two.subset (by simp))
    · have ends := congrArg List.getLast? hw
      simp [cr, lf] at ends
    · exact absurd hw.symm proper

def lineHeader : List UInt8 := sourceFile ++ crlf ++ crlf

/-- A library that knows one header. -/
def lineName : PartName := fun block => if block = lineHeader then some sourceFile else none

def plainUpload (content : List UInt8) (clean : ¬ delimiter [65] <:+: content) :
    UploadBody lineName where
  acBoundary := [65]
  preamble := []
  parts := []
  header := lineHeader
  content := content
  terminator := crlf
  rest := []
  boundary := ⟨by decide, by decide, by decide⟩
  lead := by decide
  others := by simp
  block := headerBlock_line ⟨by decide, by decide, by decide⟩ (by decide) (by decide)
  name := by
    have all : held (mpBufLen - 1) lineHeader = lineHeader := by
      rw [held, show lineHeader.length - (mpBufLen - 1) = 0 from rfl]
      rfl
    rw [all]
    rfl
  clean := clean
  terminates := by simp [terminators, crlf]
  last block inside := by
    rw [List.infix_nil] at inside
    rw [inside]
    decide

theorem zeros_clean (k : Nat) : ¬ delimiter [65] <:+: List.replicate k 0 := by
  intro inside
  have zero := List.eq_of_mem_replicate (inside.subset (by simp [delimiter] : dash ∈ delimiter [65]))
  exact absurd zero (by decide)

/-- 32763 zeros: the write of the full buffer takes the carriage return behind them. -/
theorem upload_overruns :
    ¬ ((processUpdate mpBufLen lineName (mpStart [65] fun _ => 255)
          (plainUpload (List.replicate 32763 0) (zeros_clean _)).bytes).pfFlashTmpFile =
    16 + 32763 ∧
      (processUpdate mpBufLen lineName (mpStart [65] fun _ => 255)
          (plainUpload (List.replicate 32763 0) (zeros_clean _)).bytes).flash =
        usiMyWrite (fun _ => 255) 16 (List.replicate 32763 0)) := by
  rintro ⟨address, _⟩
  have size : (plainUpload (List.replicate 32763 0) (zeros_clean _)).content.length = 32763 :=
    List.length_replicate
  have straddles : FlushStraddles mpBufLen 1 32763 2 := ⟨1, by decide, by decide⟩
  have past := (plainUpload (List.replicate 32763 0) (zeros_clean _)).overrun (fun _ => 255)
    (by rw [size]; exact straddles)
  rw [size] at past
  exact past.ne' address

theorem upload_exact_short :
    ([(plainUpload (List.replicate 3 0) (zeros_clean 3)).bytes.take 20,
      (plainUpload (List.replicate 3 0) (zeros_clean 3)).bytes.drop 20].foldl
        (processUpdate mpBufLen lineName) (mpStart [65] fun _ => 255)).pfFlashTmpFile = 19 := by
  have straddles : ¬ FlushStraddles mpBufLen 1 3 2 := by
    rintro ⟨m, past, early⟩
    have block : blockLen mpBufLen 1 = 32764 := by decide
    have size : mpBufLen = 32768 := by decide
    rw [block] at past early
    omega
  exact ((upload_exact (plainUpload (List.replicate 3 0) (zeros_clean 3)) (fun _ => 255)
    [_, _] (by simp)).mpr straddles).1

end Rovio.Upload
