import Rovio.Nand.Merge

/-! The marks that an update leaves in the pages of a block. A page is honest when it is erased
wherever its mark leaves a sector to a later write. -/
namespace Rovio.Nand

open Kit

variable {card : Card} {flash : Flash}

/-! ### Marks -/

/-- The bits of the sectors and the two bytes of the flag. -/
def tag (mark : BitVec 32) : BitVec 32 := mark &&& 0x0fffff00#32

theorem tag_and (x y : BitVec 32) : tag (x &&& y) = tag x &&& tag y := by
  unfold tag
  ext i
  simp only [BitVec.getElem_and]
  cases x[i] <;> cases y[i] <;> simp

theorem tag_or (x y : BitVec 32) : tag (x ||| y) = tag x ||| tag y :=
  BitVec.and_or_distrib_right ..

theorem tag_ones (x : BitVec 32) : tag x &&& 0x0fffff00#32 = tag x := by
  unfold tag
  rw [BitVec.and_assoc, BitVec.and_self]

theorem flagBytes_tag (mark : BitVec 32) : flagBytes (tag mark) = flagBytes mark := by
  unfold flagBytes tag
  rw [BitVec.and_assoc]
  rfl

theorem flagBytes_and (x y : BitVec 32) : flagBytes (x &&& y) = flagBytes x &&& flagBytes y := by
  unfold flagBytes
  ext i
  simp only [BitVec.getElem_and]
  cases x[i] <;> cases y[i] <;> simp

theorem bit_tag (mark : BitVec 32) {c : Nat} (small : c < 4) :
    (tag mark).getLsbD (24 + c) = mark.getLsbD (24 + c) := by
  have inside : (0x0fffff00#32).getLsbD (24 + c) = true := by
    obtain rfl | rfl | rfl | rfl : c = 0 ∨ c = 1 ∨ c = 2 ∨ c = 3 := by omega
    all_goals rfl
  rw [tag, BitVec.getLsbD_and, inside, Bool.and_true]

theorem flagBytes_of_tag {x y : BitVec 32} (same : tag x = tag y) : flagBytes x = flagBytes y := by
  rw [← flagBytes_tag x, same, flagBytes_tag]

theorem bit_of_tag {x y : BitVec 32} (same : tag x = tag y) {c : Nat} (small : c < 4) :
    x.getLsbD (24 + c) = y.getLsbD (24 + c) := by
  rw [← bit_tag x small, same, bit_tag y small]

/-- The bits of the sequence number alone. -/
def Sequence (raMark : BitVec 32) : Prop := tag raMark = 0#32

theorem sequence_and (x : BitVec 32) : Sequence (x &&& 0x30000000#32) := by
  rw [Sequence, tag, BitVec.and_assoc]
  exact BitVec.and_zero

theorem sequence_next (mark : BitVec 32) : Sequence (nextRAMark mark) := sequence_and _

theorem sequence_zero : Sequence 0#32 := rfl

theorem Sequence.tag_or {raMark : BitVec 32} (sequence : Sequence raMark) (mark : BitVec 32) :
    tag (raMark ||| mark) = tag mark := by
  rw [Nand.tag_or, sequence, BitVec.zero_or]

/-! ### Honest pages -/

/-- The columns of a page. -/
def Card.columns (card : Card) : Nat := if card.u2KPageSize then 4 else 1

theorem columns_le (card : Card) : card.columns ≤ 4 := by
  unfold Card.columns
  split <;> decide

/-- The mark does not leave the sector to a later write. -/
def Page.holds (card : Card) (page : Page) (c : Nat) : Prop :=
  flagBytes page.mark ≠ 0xffff00#32 ∧
    (card.u2KPageSize = true → page.mark.getLsbD (24 + c) = false)

structure Page.Honest (card : Card) (page : Page) : Prop where
  flag : card.u2KPageSize = true → flagBytes page.mark = 0xffff00#32 ∨
    flagBytes page.mark = 0xfefe00#32 ∨ flagBytes page.mark = 0xfcfc00#32
  blank : ∀ c < card.columns, ¬ page.holds card c → page.data c = blankSector

/-- A page with the flag of a write. -/
structure Page.Used (card : Card) (page : Page) : Prop extends page.Honest card where
  used : flagBytes page.mark = 0xfefe00#32

/-- An honest page that is not marked deleted. -/
structure Page.Live (card : Card) (page : Page) : Prop extends page.Honest card where
  live : flagBytes page.mark ≠ 0xfcfc00#32

/-- No sector of the page and no byte of its flag is programmed. -/
structure Page.Clear (card : Card) (page : Page) : Prop where
  data : ∀ c < card.columns, page.data c = blankSector
  mark : tag page.mark = 0x0fffff00#32

/-- A program that touches neither the sectors nor the flag. -/
structure Page.Quiet (page : Page) : Prop where
  data : ∀ c, page.data c = blankSector
  mark : tag page.mark = 0x0fffff00#32

/-- Pages with the same data under the same flag. -/
structure Page.Same (card : Card) (a b : Page) : Prop where
  data : ∀ c < card.columns, a.data c = b.data c
  mark : tag a.mark = tag b.mark

namespace Page

theorem Same.refl (page : Page) : page.Same card page := ⟨fun _ _ => rfl, rfl⟩

theorem Same.trans {a b c : Page} (left : a.Same card b) (right : b.Same card c) :
    a.Same card c :=
  ⟨fun i small => (left.data i small).trans (right.data i small), left.mark.trans right.mark⟩

theorem Same.program {a b : Page} (same : a.Same card b) (content : Page) :
    (a.program content).Same card (b.program content) := by
  refine ⟨fun c small => ?_, ?_⟩
  · rw [program_data, program_data, same.data c small]
  · rw [program_mark, program_mark, tag_and, tag_and, same.mark]

theorem Quiet.program {content : Page} (quiet : content.Quiet) (page : Page) :
    (page.program content).Same card page := by
  refine ⟨fun c _ => ?_, ?_⟩
  · rw [program_data, quiet.data c, and_blankSector]
  · rw [program_mark, tag_and, quiet.mark, tag_ones]

theorem Clear.program {page : Page} (clear : page.Clear card) (content : Page) :
    (page.program content).Same card content := by
  refine ⟨fun c small => ?_, ?_⟩
  · rw [program_data, clear.data c small, blankSector_and]
  · rw [program_mark, tag_and, clear.mark, BitVec.and_comm, tag_ones]

theorem Same.holds_iff {a b : Page} (same : a.Same card b) {c : Nat} (small : c < card.columns) :
    a.holds card c ↔ b.holds card c := by
  have four : c < 4 := Nat.lt_of_lt_of_le small (columns_le card)
  rw [holds, holds, flagBytes_of_tag same.mark, bit_of_tag same.mark four]

theorem Honest.of_same {a b : Page} (honest : b.Honest card) (same : a.Same card b) :
    a.Honest card where
  flag big := by
    rw [flagBytes_of_tag same.mark]
    exact honest.flag big
  blank c small free := by
    rw [same.data c small]
    exact honest.blank c small (mt (same.holds_iff small).mpr free)

theorem Used.of_same {a b : Page} (used : b.Used card) (same : a.Same card b) : a.Used card where
  toHonest := used.toHonest.of_same same
  used := (flagBytes_of_tag same.mark).trans used.used

theorem Live.of_same {a b : Page} (live : b.Live card) (same : a.Same card b) : a.Live card where
  toHonest := live.toHonest.of_same same
  live := by
    rw [flagBytes_of_tag same.mark]
    exact live.live

theorem Used.live {page : Page} (used : page.Used card) : page.Live card where
  toHonest := used.toHonest
  live := by
    rw [used.used]
    decide

theorem Clear.flag {page : Page} (clear : page.Clear card) :
    flagBytes page.mark = 0xffff00#32 := by
  rw [← flagBytes_tag, clear.mark]
  rfl

theorem Clear.live {page : Page} (clear : page.Clear card) : page.Live card where
  flag _ := .inl clear.flag
  blank c small _ := clear.data c small
  live := by
    rw [clear.flag]
    decide

theorem erased_clear : erased.Clear card := ⟨fun _ _ => rfl, rfl⟩

/-- With all sectors in use, or on a card that has one for each page. -/
theorem used_full {page : Page} (whole : tag page.mark = 0x00fefe00#32) : page.Used card := by
  have flag : flagBytes page.mark = 0xfefe00#32 := by
    rw [← flagBytes_tag, whole]
    rfl
  have marked : ∀ c < card.columns, page.holds card c := by
    intro c small
    refine ⟨by rw [flag]; decide, fun _ => ?_⟩
    have four : c < 4 := Nat.lt_of_lt_of_le small (columns_le card)
    rw [← bit_tag _ four, whole]
    obtain rfl | rfl | rfl | rfl : c = 0 ∨ c = 1 ∨ c = 2 ∨ c = 3 := by omega
    all_goals rfl
  exact ⟨⟨fun _ => .inr (.inl flag), fun c small free => absurd (marked c small) free⟩, flag⟩

/-- A used page takes in what a later write puts into its unused sectors. -/
theorem Honest.program {page content : Page} (honest : page.Honest card)
    (more : content.Used card)
    (flag : flagBytes page.mark = 0xffff00#32 ∨ flagBytes page.mark = 0xfefe00#32) :
    (page.program content).Used card := by
  have used : flagBytes (page.mark &&& content.mark) = 0xfefe00#32 := by
    rw [flagBytes_and, more.used]
    rcases flag with unused | used
    · rw [unused]
      decide
    · rw [used]
      decide
  refine ⟨⟨fun _ => .inr (.inl used), fun c small free => ?_⟩, used⟩
  -- neither of the two holds the sector, or their common mark would
  have apart : ¬ page.holds card c ∧ ¬ content.holds card c := by
    constructor
    · intro held
      refine free ⟨by rw [program_mark, used]; decide, fun big => ?_⟩
      rw [program_mark, BitVec.getLsbD_and, held.2 big, Bool.false_and]
    · intro held
      refine free ⟨by rw [program_mark, used]; decide, fun big => ?_⟩
      rw [program_mark, BitVec.getLsbD_and, held.2 big, Bool.and_false]
  rw [program_data, honest.blank c small apart.1, more.blank c small apart.2, blankSector_and]

end Page

/-! ### One program among quiet ones -/

/-- The programs of a page, at most one of which is not a quiet one. -/
def Takes (ps : List Page) (content : Option Page) : Prop :=
  ∃ xs ys, (∀ p ∈ xs, p.Quiet) ∧ (∀ p ∈ ys, p.Quiet) ∧ ps = xs ++ (content.toList ++ ys)

theorem foldl_quiet {ps : List Page} (quiet : ∀ p ∈ ps, p.Quiet) (page : Page) :
    (ps.foldl Page.program page).Same card page := by
  induction ps generalizing page with
  | nil => exact .refl page
  | cons p ps ih =>
    refine (ih (fun q mem => quiet q (List.mem_cons_of_mem _ mem)) _).trans ?_
    exact (quiet p List.mem_cons_self).program page

theorem foldl_same {ps : List Page} {a b : Page} (same : a.Same card b) :
    (ps.foldl Page.program a).Same card (ps.foldl Page.program b) := by
  induction ps generalizing a b with
  | nil => exact same
  | cons p ps ih => exact ih (same.program p)

namespace Takes

variable {ps : List Page} {content : Option Page}

theorem quiet_front {xs : List Page} (quiet : ∀ p ∈ xs, p.Quiet) (takes : Takes ps content) :
    Takes (xs ++ ps) content := by
  obtain ⟨front, back, quietFront, quietBack, rfl⟩ := takes
  refine ⟨xs ++ front, back, fun p mem => ?_, quietBack, (List.append_assoc ..).symm⟩
  rcases List.mem_append.mp mem with first | second
  · exact quiet p first
  · exact quietFront p second

theorem quiet_back {ys : List Page} (quiet : ∀ p ∈ ys, p.Quiet) (takes : Takes ps content) :
    Takes (ps ++ ys) content := by
  obtain ⟨front, back, quietFront, quietBack, rfl⟩ := takes
  refine ⟨front, back ++ ys, quietFront, fun p mem => ?_, by simp⟩
  rcases List.mem_append.mp mem with first | second
  · exact quietBack p first
  · exact quiet p second

theorem one (page : Page) : Takes [page] (some page) :=
  ⟨[], [], by simp, by simp, rfl⟩

theorem nothing (quiet : ∀ p ∈ ps, p.Quiet) : Takes ps none :=
  ⟨ps, [], quiet, by simp, (List.append_nil ps).symm⟩

/-- What becomes of an erased page. -/
theorem clear_same {page taken : Page} (takes : Takes ps (some taken)) (clear : page.Clear card) :
    (ps.foldl Page.program page).Same card taken := by
  obtain ⟨xs, ys, front, back, rfl⟩ := takes
  rw [List.foldl_append, List.foldl_append]
  have first : (xs.foldl Page.program page).Same card page := foldl_quiet front page
  exact (foldl_quiet back _).trans ((first.program taken).trans (clear.program taken))

theorem live {page : Page} (takes : Takes ps content) (clear : page.Clear card)
    (taken : ∀ p ∈ content, p.Used card) : (ps.foldl Page.program page).Live card := by
  cases content with
  | some content => exact (taken content rfl).live.of_same (takes.clear_same clear)
  | none =>
    obtain ⟨xs, ys, front, back, rfl⟩ := takes
    have quiet : ∀ p ∈ xs ++ ([] ++ ys), p.Quiet := by
      intro p mem
      rcases List.mem_append.mp mem with first | second
      · exact front p first
      · exact back p second
    exact clear.live.of_same (foldl_quiet quiet page)

end Takes

/-! ### What the plans program -/

theorem columnBits_bit {column secCount : Nat} (inside : column + secCount ≤ 4) (c : Nat) :
    (columnBits column secCount).getLsbD c = decide (column ≤ c ∧ c < column + secCount) := by
  induction secCount with
  | zero =>
    simp [columnBits]
  | succ secCount ih =>
    have grow : columnBits column (secCount + 1) =
        columnBits column secCount ||| 1#32 <<< (column + secCount) := by
      simp [columnBits, List.range_succ]
    have bit : (1#32 <<< (column + secCount)).getLsbD c = decide (c = column + secCount) := by
      rw [BitVec.getLsbD_shiftLeft, BitVec.getLsbD_one]
      by_cases here : c = column + secCount
      · simp [here]
        omega
      · simp only [here, decide_false]
        simp
        omega
    rw [grow, BitVec.getLsbD_or, ih (by omega), bit]
    by_cases here : c = column + secCount
    · simp [here]
    · by_cases within : column ≤ c ∧ c < column + secCount
      · simp [within]
        omega
      · simp only [within, here, decide_false, Bool.or_false]
        simp
        omega

section
variable {reg raMark : BitVec 32} {column secCount : Nat}

theorem partMark_flag (sequence : Sequence raMark) :
    flagBytes (partMark reg raMark column secCount) = flagBytes reg := by
  have flag : ∀ i, (0xffff00#32).getLsbD i = true → i < 24 ∧ (0xffffff#32).getLsbD i = true ∧
      (0xcfffffff#32).getLsbD i = true := by
    intro i set
    have small : i < 32 := BitVec.lt_of_getLsbD set
    revert set
    revert i
    decide
  rw [← flagBytes_tag, partMark, BitVec.or_comm, sequence.tag_or, flagBytes_tag]
  unfold flagBytes
  ext i small
  rw [← BitVec.getLsbD_eq_getElem, ← BitVec.getLsbD_eq_getElem]
  simp only [BitVec.getLsbD_and, BitVec.getLsbD_or, BitVec.getLsbD_shiftLeft]
  cases set : (0xffff00#32).getLsbD i with
  | false => simp
  | true =>
    obtain ⟨low, kept, mask⟩ := flag i set
    simp [low, kept, mask]

theorem partMark_bit (sequence : Sequence raMark) (inside : column + secCount ≤ 4) {c : Nat}
    (small : c < 4) :
    (partMark reg raMark column secCount).getLsbD (24 + c) =
      (reg.getLsbD (24 + c) && !decide (column ≤ c ∧ c < column + secCount)) := by
  have masks : (0xffffff#32).getLsbD (24 + c) = false ∧
      (0xcfffffff#32).getLsbD (24 + c) = true := by
    obtain rfl | rfl | rfl | rfl : c = 0 ∨ c = 1 ∨ c = 2 ∨ c = 3 := by omega
    all_goals exact ⟨rfl, rfl⟩
  rw [← bit_tag _ small, partMark, BitVec.or_comm, sequence.tag_or, bit_tag _ small]
  simp only [BitVec.getLsbD_and, BitVec.getLsbD_or, BitVec.getLsbD_shiftLeft, masks,
    BitVec.getLsbD_not, columnBits_bit inside, Bool.and_false, Bool.or_false, Bool.and_true,
    Nat.add_sub_cancel_left]
  have word : 24 + c < 32 ∧ ¬ 24 + c < 24 ∧ c < 32 := by omega
  simp [word]

end

theorem full_used {raMark : BitVec 32} (sequence : Sequence raMark) (data : Nat → Sector)
    (blockAddr : BitVec 16) : Page.Used card ⟨data, raMark ||| 0xc0fefeff#32, blockAddr⟩ :=
  Page.used_full (sequence.tag_or _)

theorem movedContent_used {raMark set : BitVec 32} (sequence : Sequence raMark)
    (apart : tag set = 0#32) {s : Nat} (honest : (flash s).Honest card)
    (used : flagBytes (flash s).mark = 0xfefe00#32) (blockAddr : BitVec 16) :
    (movedContent flash blockAddr raMark set s).Used card := by
  have same : (movedContent flash blockAddr raMark set s).Same card (flash s) := by
    refine ⟨fun _ _ => rfl, ?_⟩
    change tag (raMark ||| (((flash s).mark ||| set) &&& 0xcfffffff#32)) = tag (flash s).mark
    rw [sequence.tag_or, tag_and, tag_or, apart, BitVec.or_zero]
    exact tag_ones _
  exact Page.Used.of_same ⟨honest, used⟩ same

/-- A page to update from, which is an empty one or a used one. -/
theorem sourcePage_used (big : card.u2KPageSize = true) {spage : Option Nat}
    (used : ∀ n ∈ spage, (flash n).Honest card ∧ flagBytes (flash n).mark ≠ 0xffff00#32) :
    (sourcePage flash spage).Used card := by
  cases spage with
  | none =>
    have flag : flagBytes 0xfffefeff#32 = 0xfefe00#32 := by decide
    exact ⟨⟨fun _ => .inr (.inl flag), fun _ _ _ => rfl⟩, flag⟩
  | some n =>
    obtain ⟨honest, other⟩ := used n rfl
    by_cases gone : flagBytes (flash n).mark = 0xfcfc00#32
    · have restored : sourcePage flash (some n) =
          { flash n with mark := ((flash n).mark &&& 0xff0000ff#32) ||| 0xfefe00#32 } := if_pos gone
      rw [restored]
      have flag : flagBytes (((flash n).mark &&& 0xff0000ff#32) ||| 0xfefe00#32) =
          0xfefe00#32 := by
        unfold flagBytes
        rw [BitVec.and_or_distrib_right, BitVec.and_assoc]
        simp
      refine ⟨⟨fun _ => .inr (.inl flag), fun c small free => ?_⟩, flag⟩
      refine honest.blank c small fun held => free ⟨by rw [flag]; decide, fun _ => ?_⟩
      have four : c < 4 := Nat.lt_of_lt_of_le small (columns_le card)
      have masks : (0xff0000ff#32).getLsbD (24 + c) = true ∧
          (0xfefe00#32).getLsbD (24 + c) = false := by
        obtain rfl | rfl | rfl | rfl : c = 0 ∨ c = 1 ∨ c = 2 ∨ c = 3 := by omega
        all_goals exact ⟨rfl, rfl⟩
      rw [BitVec.getLsbD_or, BitVec.getLsbD_and, masks.1, masks.2, Bool.or_false, Bool.and_true]
      exact held.2 big
    · have kept : sourcePage flash (some n) = flash n := if_neg gone
      rw [kept]
      rcases honest.flag big with unused | used | deleted
      · exact absurd unused other
      · exact ⟨honest, used⟩
      · exact absurd deleted gone

theorem updateContent_used (big : card.u2KPageSize = true) {raMark : BitVec 32}
    (sequence : Sequence raMark) {spage : Option Nat} {column secCount : Nat}
    (inside : column + secCount ≤ 4)
    (used : secCount ≠ 4 → ∀ n ∈ spage,
      (flash n).Honest card ∧ flagBytes (flash n).mark ≠ 0xffff00#32)
    (blockAddr : BitVec 16) (buff : Nat → Sector) :
    (updateContent flash blockAddr raMark spage column secCount buff).Used card := by
  unfold updateContent
  split
  case isTrue => exact full_used sequence _ _
  case isFalse part =>
    have source := @sourcePage_used card flash big spage (used part)
    have same := @partMark_flag (sourcePage flash spage).mark raMark column secCount sequence
    have flag := same.trans source.used
    refine ⟨⟨fun _ => .inr (.inl flag), fun c small free => ?_⟩, flag⟩
    · have four : c < 4 := Nat.lt_of_lt_of_le small (columns_le card)
      have bit := @partMark_bit (sourcePage flash spage).mark raMark column secCount sequence
        inside c four
      have set : (partMark (sourcePage flash spage).mark raMark column secCount).getLsbD
          (24 + c) = true := by
        by_contra clear
        refine free ⟨?_, fun _ => Bool.eq_false_iff.mpr clear⟩
        change flagBytes (partMark _ _ _ _) ≠ _
        rw [flag]
        decide
      rw [bit, Bool.and_eq_true, Bool.not_eq_true', decide_eq_false_iff_not] at set
      change storeSectors _ _ _ _ c = blankSector
      rw [storeSectors, if_neg set.2]
      refine source.blank c small fun held => ?_
      rw [held.2 big] at set
      cases set.1

/-- The request takes in a part of a page that the block has not used. -/
def PartlyNew (card : Card) (flash : Flash) (p sector secCount : Nat) : Prop :=
  ∃ s t, s / 4 = t / 4 ∧ (sector ≤ s ∧ s < sector + secCount) ∧
    ¬ (sector ≤ t ∧ t < sector + secCount) ∧
    flagBytes (flash (p * card.uPagePerBlock + s / 4)).mark = 0xffff00#32

theorem roundContent_used (big : card.u2KPageSize = true) {raMark : BitVec 32}
    (sequence : Sequence raMark) {spage : Option Nat} {r count j : Nat} (front : r < 4)
    (used : (∃ t, t / 4 = j ∧ ¬ (r ≤ t ∧ t < r + count)) → ∀ n ∈ spage,
      (flash (n + j)).Honest card ∧ flagBytes (flash (n + j)).mark ≠ 0xffff00#32)
    (blockAddr : BitVec 16) (buff : Nat → Sector) :
    (roundContent flash blockAddr raMark spage r count buff j).Used card := by
  have inside : (if j = 0 then r else 0) + min (4 - if j = 0 then r else 0)
      (count - (4 * j - r)) ≤ 4 := by
    split <;> omega
  refine updateContent_used big sequence inside (fun part n mem => ?_) blockAddr _
  obtain ⟨m, source, rfl⟩ := Option.map_eq_some_iff.mp mem
  refine used ?_ m source
  -- a round of fewer than four sectors leaves the first or the last one of its page out
  by_cases first : j = 0 ∧ 0 < r
  · exact ⟨0, by omega, by omega⟩
  · refine ⟨4 * j + 3, by omega, fun covered => part ?_⟩
    split <;> omega

/-! ### The pages of a new block -/

theorem spare_page_quiet {n m : Nat} {mark : BitVec 32} (apart : tag mark = 0x0fffff00#32)
    {blockAddr : BitVec 16} {p : Page} (mem : p ∈ contents n [.spare m mark blockAddr]) :
    p.Quiet := by
  rw [contents_spare] at mem
  split at mem
  · rw [List.mem_singleton.mp mem]
    exact ⟨fun _ => rfl, apart⟩
  · cases mem

theorem pageZero_page_quiet {n d sector : Nat} {raMark : BitVec 32} (sequence : Sequence raMark)
    {blockAddr : BitVec 16} {p : Page}
    (mem : p ∈ contents n (pageZero card blockAddr d (raMark ||| 0xcfffffff#32) sector)) :
    p.Quiet := by
  have plain : tag (raMark ||| 0xcfffffff#32) = 0x0fffff00#32 := sequence.tag_or _
  unfold pageZero at mem
  split at mem
  · refine spare_page_quiet ?_ mem
    split
    · rw [tag_or, plain]
      decide
    · exact plain
  · cases mem

theorem framed_takes {n d : Nat} {steps : List (Step Op)} {content : Option Page}
    (takes : Takes (contents n (steps.map Step.op)) content) :
    Takes (contents n ((framed d steps).map Step.op)) content := by
  simp only [framed, List.map_append, map_op_may, contents_append]
  exact (takes.quiet_back fun _ => spare_page_quiet (by decide)).quiet_front
    fun _ => spare_page_quiet (by decide)

/-- Every page of the block takes at most one content, which is honest. -/
def Fresh (card : Card) (fb : Nat) (b : Build) : Prop :=
  ∀ i < card.uPagePerBlock, ∃ content,
    Takes (contents (fb * card.uPagePerBlock + i) (b.steps.map Step.op)) content ∧
      ∀ p ∈ content, p.Used card

section
variable {block fb p sector secCount : Nat} {buff : Nat → Sector} {old : Option Nat}

theorem programs512_takes {raMark : BitVec 32} (sequence : Sequence raMark) (n : Nat)
    (blockAddr : BitVec 16) (page count : Nat) (buff : Nat → Sector) :
    ∃ content, Takes (contents n (programs512 blockAddr page count buff
      (raMark ||| 0xc0fefeff#32))) content ∧ ∀ p ∈ content, p.Used card := by
  rw [contents_programs512]
  split
  · refine ⟨_, .one _, fun p mem => ?_⟩
    cases mem
    exact full_used sequence _ _
  · exact ⟨none, .nothing (by simp), by simp⟩

theorem sequence_old (old : Option Nat) (mark : Nat → BitVec 32) :
    Sequence (old.elim 0 fun p => nextRAMark (mark p)) := by
  cases old with
  | none => exact sequence_zero
  | some p => exact sequence_next _

theorem full512_fresh (old : Option Nat) (secCount : Nat) (buff : Nat → Sector) :
    Fresh card fb (full512 card flash block fb old secCount buff) := by
  intro i inside
  obtain ⟨content, takes, used⟩ := @programs512_takes card _
    (sequence_old old (oldMark512 card flash)) (fb * card.uPagePerBlock + i)
    (fmiSMGetBlockAddr block) (fb * card.uPagePerBlock) secCount buff
  refine ⟨content, framed_takes ?_, used⟩
  rw [map_op_must]
  exact takes

theorem new512_fresh : Fresh card fb (new512 card block fb sector secCount buff) := by
  intro i inside
  obtain ⟨content, takes, used⟩ := @programs512_takes card _ sequence_zero
    (fb * card.uPagePerBlock + i) (fmiSMGetBlockAddr block) (fb * card.uPagePerBlock + sector)
    secCount buff
  refine ⟨content, framed_takes ?_, used⟩
  rw [List.map_append, map_op_must, map_op_may, contents_append]
  refine takes.quiet_back fun _ mem => ?_
  exact pageZero_page_quiet sequence_zero mem

theorem move512_fresh : Fresh card fb (move512 card flash block fb p sector secCount buff) := by
  intro i inside
  obtain ⟨content, takes, used⟩ := @programs512_takes card _
    (sequence_next (oldMark512 card flash p)) (fb * card.uPagePerBlock + i)
    (fmiSMGetBlockAddr block) (fb * card.uPagePerBlock) card.uPagePerBlock
    (storeSectors (fun i => (flash (p * card.uPagePerBlock + i)).data 0) sector secCount buff)
  refine ⟨content, framed_takes ?_, used⟩
  rw [List.map_append, map_op_must, map_op_may, contents_append]
  exact takes.quiet_back fun _ => pageZero_page_quiet (sequence_next _)

theorem full2K_fresh (old : Option Nat) (buff : Nat → Sector) :
    Fresh card fb (full2K card flash block fb old buff) := by
  intro i inside
  refine ⟨some ⟨fun c => buff (4 * i + c),
    (old.elim 0 fun p => nextRAMark (firstMark card flash p)) ||| 0xc0fefeff#32,
    fmiSMGetBlockAddr block⟩, framed_takes ?_, ?_⟩
  · rw [map_op_must, contents_pages2K, if_pos (by omega), Nat.add_sub_cancel_left]
    exact .one _
  · rintro _ ⟨⟩
    exact full_used (sequence_old old (firstMark card flash)) _ _

theorem new2K_fresh (big : card.u2KPageSize = true) (some : secCount ≠ 0) :
    Fresh card fb (new2K card flash block fb sector secCount buff) := by
  intro i inside
  have rounds := @rounds_of sector _ some
  have sequence := sequence_zero
  suffices body : ∃ content, Takes (contents (fb * card.uPagePerBlock + i)
      (updateOps flash (fmiSMGetBlockAddr block) 0 none (fb * card.uPagePerBlock + sector / 4)
        (pageRuns (sector % 4) secCount) buff)) content ∧ ∀ p ∈ content, p.Used card by
    obtain ⟨content, takes, used⟩ := body
    refine ⟨content, framed_takes ?_, used⟩
    rw [List.map_append, map_op_must, map_op_may, contents_append]
    refine takes.quiet_front fun _ mem => ?_
    exact pageZero_page_quiet sequence_zero mem
  rw [rounds.at]
  split
  · refine ⟨_, .one _, ?_⟩
    rintro _ ⟨⟩
    exact roundContent_used big sequence (Nat.mod_lt _ (by decide)) (by simp) _ _
  · exact ⟨none, .nothing (by simp), by simp⟩

theorem move2K_fresh (big : card.u2KPageSize = true) (some : secCount ≠ 0)
    (honest : ∀ i < card.uPagePerBlock, (flash (p * card.uPagePerBlock + i)).Honest card)
    (kept : ¬ PartlyNew card flash p sector secCount) :
    Fresh card fb (move2K card flash block fb p sector secCount buff) := by
  intro i inside
  have rounds := @rounds_of sector _ some
  have length := rounds.length
  have sequence := sequence_next (firstMark card flash p)
  have front := @moveOps_at flash (fb * card.uPagePerBlock) (p * card.uPagePerBlock) i 0
    (sector / 4) (fmiSMGetBlockAddr block) (nextRAMark (firstMark card flash p)) 0xc0000000#32
  rw [Nat.add_zero, Nat.add_zero] at front
  have zero : (flash (p * card.uPagePerBlock + i)).mark ||| 0 =
      (flash (p * card.uPagePerBlock + i)).mark := BitVec.or_zero
  have quietZero : ∀ q ∈ contents (fb * card.uPagePerBlock + i)
      (pageZero card (fmiSMGetBlockAddr block) (fb * card.uPagePerBlock)
        (nextRAMark (firstMark card flash p) ||| 0xcfffffff#32) (sector / 4)), q.Quiet :=
    fun _ => pageZero_page_quiet sequence
  have moved (set : BitVec 32) (apart : tag set = 0#32)
      (used : flagBytes (flash (p * card.uPagePerBlock + i)).mark = 0xfefe00#32) :
      ∀ q ∈ Option.some (movedContent flash (fmiSMGetBlockAddr block)
        (nextRAMark (firstMark card flash p)) set (p * card.uPagePerBlock + i)), q.Used card := by
    rintro _ ⟨⟩
    exact movedContent_used sequence apart (honest i inside) used _
  suffices body : ∃ content, Takes (contents (fb * card.uPagePerBlock + i)
      (moveOps flash (fmiSMGetBlockAddr block) (nextRAMark (firstMark card flash p)) 0xc0000000#32
        (p * card.uPagePerBlock) (fb * card.uPagePerBlock) (sector / 4)) ++
      (contents (fb * card.uPagePerBlock + i) (pageZero card (fmiSMGetBlockAddr block)
        (fb * card.uPagePerBlock) (nextRAMark (firstMark card flash p) ||| 0xcfffffff#32)
        (sector / 4)) ++
      (contents (fb * card.uPagePerBlock + i) (updateOps flash (fmiSMGetBlockAddr block)
        (nextRAMark (firstMark card flash p)) (Option.some (p * card.uPagePerBlock + sector / 4))
        (fb * card.uPagePerBlock + sector / 4) (pageRuns (sector % 4) secCount) buff) ++
      contents (fb * card.uPagePerBlock + i) (moveOps flash (fmiSMGetBlockAddr block)
        (nextRAMark (firstMark card flash p)) 0
        (p * card.uPagePerBlock + (sector / 4 + (pageRuns (sector % 4) secCount).length))
        (fb * card.uPagePerBlock + (sector / 4 + (pageRuns (sector % 4) secCount).length))
        (card.uPagePerBlock - (sector / 4 + (pageRuns (sector % 4) secCount).length)))))) content ∧
      ∀ q ∈ content, q.Used card by
    obtain ⟨content, takes, used⟩ := body
    refine ⟨content, framed_takes ?_, used⟩
    simp only [List.map_append, map_op_must, map_op_may, contents_append]
    exact takes
  rw [front, moveOps_at, rounds.at, flagBytes_or, zero]
  generalize pageZeros : contents (fb * card.uPagePerBlock + i) (pageZero card
    (fmiSMGetBlockAddr block) (fb * card.uPagePerBlock)
    (nextRAMark (firstMark card flash p) ||| 0xcfffffff#32) (sector / 4)) = zeros at quietZero ⊢
  generalize (pageRuns (sector % 4) secCount).length = count at length ⊢
  rcases Nat.lt_or_ge i (sector / 4) with before | later
  · rw [if_neg (show ¬ (sector / 4 ≤ i ∧ i < sector / 4 + count) by omega),
      if_neg (show ¬ ((sector / 4 + count ≤ i ∧ _) ∧ _) by omega), List.append_nil,
      List.append_nil]
    by_cases used : flagBytes (flash (p * card.uPagePerBlock + i)).mark = 0xfefe00#32
    · rw [if_pos ⟨by omega, used⟩]
      exact ⟨_, (Takes.one _).quiet_back quietZero, moved _ (by decide) used⟩
    · rw [if_neg (fun both => used both.2), List.nil_append]
      exact ⟨none, .nothing quietZero, by simp⟩
  · rw [if_neg (show ¬ ((0 ≤ i ∧ i < 0 + sector / 4) ∧ _) by omega), List.nil_append]
    rcases Nat.lt_or_ge i (sector / 4 + count) with within | behind
    · rw [if_pos (show sector / 4 ≤ i ∧ i < sector / 4 + count from ⟨later, within⟩),
        if_neg (show ¬ ((sector / 4 + count ≤ i ∧ _) ∧ _) by omega), List.append_nil]
      refine ⟨_, (Takes.one _).quiet_front quietZero, ?_⟩
      rintro _ ⟨⟩
      refine roundContent_used big sequence (Nat.mod_lt _ (by decide)) ?_ _ _
      rintro ⟨t, page, left⟩ n ⟨⟩
      have origin : p * card.uPagePerBlock + sector / 4 + (i - sector / 4) =
          p * card.uPagePerBlock + i := by omega
      rw [origin]
      refine ⟨honest i inside, fun unused => kept ?_⟩
      -- the sector of the page that is left out, and one that is not
      refine ⟨max sector (4 * i), 4 * (sector / 4) + t, by omega, by omega, by omega, ?_⟩
      rwa [show max sector (4 * i) / 4 = i by omega]
    · rw [if_neg (show ¬ (sector / 4 ≤ i ∧ i < sector / 4 + count) by omega), List.nil_append]
      by_cases used : flagBytes (flash (p * card.uPagePerBlock + i)).mark = 0xfefe00#32
      · rw [if_pos ⟨by omega, used⟩]
        exact ⟨_, (Takes.one _).quiet_front quietZero, moved 0 (by decide) used⟩
      · rw [if_neg (fun both => used both.2), List.append_nil]
        exact ⟨none, .nothing quietZero, by simp⟩

/-! ### The pages of a block that is filled -/

/-- Every page of the block stays as it is or becomes a used one. -/
def Topped (card : Card) (flash : Flash) (p : Nat) (ops : List Op) : Prop :=
  ∀ i < card.uPagePerBlock, contents (p * card.uPagePerBlock + i) ops = [] ∨
    ((contents (p * card.uPagePerBlock + i) ops).foldl Page.program
      (flash (p * card.uPagePerBlock + i))).Used card

theorem fill512_topped
    (honest : ∀ i < card.uPagePerBlock, (flash (p * card.uPagePerBlock + i)).Honest card)
    (free : pagesUsed512 flash (p * card.uPagePerBlock + sector) secCount = false) :
    Topped card flash p (fill512 card flash block p sector secCount buff) := by
  intro i inside
  rw [fill512, contents_programs512]
  split
  · rename_i within
    have unused := pagesUsed512_free free (show i - sector < secCount by omega)
    rw [show p * card.uPagePerBlock + sector + (i - sector) = p * card.uPagePerBlock + i by omega]
      at unused
    exact .inr ((honest i inside).program (full_used (sequence_and _) _ _) (.inl unused))
  · exact .inl rfl

theorem fill2K_topped (big : card.u2KPageSize = true) (some : secCount ≠ 0)
    (honest : ∀ i < card.uPagePerBlock, (flash (p * card.uPagePerBlock + i)).Honest card)
    (free : pagesUsed2K flash (p * card.uPagePerBlock + sector / 4)
      (pageRuns (sector % 4) secCount) = false) :
    Topped card flash p (fill2K card flash block p sector secCount buff) := by
  intro i inside
  have rounds := @rounds_of sector _ some
  have length := rounds.length
  rw [fill2K, rounds.at]
  split
  · rename_i within
    have content := @roundContent_used card flash big _
      (sequence_and (firstMark card flash p)) none (sector % 4) secCount (i - sector / 4)
      (Nat.mod_lt _ (by decide)) (by simp) (fmiSMGetBlockAddr block) buff
    -- a sector of the page that the request covers
    have unused := rounds.free free (x := max sector (4 * i) - 4 * (sector / 4)) (by omega)
      (by omega)
    rw [show p * card.uPagePerBlock + sector / 4 + (max sector (4 * i) - 4 * (sector / 4)) / 4 =
      p * card.uPagePerBlock + i by omega] at unused
    refine .inr ((honest i inside).program content ?_)
    rcases (honest i inside).flag big with unmarked | used | gone
    · exact .inl unmarked
    · exact .inr used
    · exact absurd gone unused.1
  · exact .inl rfl

end

end Rovio.Nand
