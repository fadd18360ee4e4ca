import Rovio.Nand.Stored

/-! A script that is carried out without a failure leaves the old data with the new
over it in a block that was erased before. -/
namespace Rovio.Nand

open Kit

variable {card : Card} {flash : Flash} {block fb : Nat}

def plan (card : Card) (flash : Flash) (block fb : Nat) (old : Option Nat) (sector secCount : Nat)
    (buff : Nat → Sector) : Plan :=
  if card.u2KPageSize then plan2K card flash block fb old sector secCount buff
  else plan512 card flash block fb old sector secCount buff

/-! ### Programs of one page -/

/-- The sectors of a page behind all of its programs. -/
def column (c : Nat) (page : Page) (ps : List Page) : Sector := (ps.foldl Page.program page).data c

theorem column_eq (c : Nat) (page : Page) (ps : List Page) :
    column c page ps = ps.foldl (fun x p => x &&& p.data c) (page.data c) := by
  induction ps generalizing page with
  | nil => rfl
  | cons p ps ih => exact ih _

/-- Spare programs among them make no difference. -/
theorem column_quiet {c : Nat} {page : Page} {xs ys : List Page}
    (quiet : ∀ p ∈ xs, p.data c = blankSector) :
    column c page (xs ++ ys) = column c page ys ∧ column c page (ys ++ xs) = column c page ys := by
  have fixed : ∀ x : Sector, xs.foldl (fun x p => x &&& p.data c) x = x := by
    induction xs with
    | nil => exact fun _ => rfl
    | cons p xs ih =>
      intro x
      rw [List.foldl_cons, quiet p (by simp), and_blankSector]
      exact ih (fun q mem => quiet q (by simp [mem])) x
  constructor
  · rw [column_eq, List.foldl_append, fixed, ← column_eq]
  · rw [column_eq, List.foldl_append, fixed, ← column_eq]

theorem spare_quiet {n m c : Nat} {mark : BitVec 32} {blockAddr : BitVec 16} {p : Page}
    (mem : p ∈ contents n [.spare m mark blockAddr]) : p.data c = blankSector := by
  rw [contents_spare] at mem
  split at mem
  · rw [List.mem_singleton.mp mem]
    rfl
  · cases mem

theorem pageZero_quiet {n d c sector : Nat} {mark : BitVec 32} {blockAddr : BitVec 16} {p : Page}
    (mem : p ∈ contents n (pageZero card blockAddr d mark sector)) : p.data c = blankSector := by
  unfold pageZero at mem
  split at mem
  · exact spare_quiet mem
  · cases mem

/-- The status byte has no part in the data. -/
theorem framed_column (c n d : Nat) (page : Page) (steps : List (Step Op)) :
    column c page (contents n ((framed d steps).map Step.op)) =
      column c page (contents n (steps.map Step.op)) := by
  simp only [framed, List.map_append, map_op_may, contents_append]
  rw [(column_quiet fun p => spare_quiet).1, (column_quiet fun p => spare_quiet).2]

theorem column_blank {c : Nat} {page content : Page} (blank : page.data c = blankSector) :
    column c page [content] = content.data c := by
  simp [column, blank, blankSector_and]

theorem flagBytes_or (mark : BitVec 32) : flagBytes (mark ||| 0xc0000000#32) = flagBytes mark := by
  have apart : 0xc0000000#32 &&& 0xffff00#32 = 0#32 := rfl
  unfold flagBytes
  rw [BitVec.and_or_distrib_right, apart, BitVec.or_zero]

theorem moveOps_at (base s i r count : Nat) (blockAddr : BitVec 16) (raMark set : BitVec 32) :
    contents (base + i) (moveOps flash blockAddr raMark set (s + r) (base + r) count) =
      if (r ≤ i ∧ i < r + count) ∧ flagBytes ((flash (s + i)).mark ||| set) = 0xfefe00#32 then
        [movedContent flash blockAddr raMark set (s + i)] else [] := by
  rw [contents_moveOps]
  by_cases later : r ≤ i
  · have origin : s + r + (base + i - (base + r)) = s + i := by omega
    have window : (base + r ≤ base + i ∧ base + i < base + r + count) ↔
      (r ≤ i ∧ i < r + count) := by
      omega
    rw [origin, if_congr (and_congr_left' window) rfl rfl]
  · rw [if_neg (by omega), if_neg (by omega)]

theorem Rounds.at {rsector count : Nat} {runs : List (Nat × Nat)}
    (rounds : Rounds rsector count runs)
    (base i r : Nat) (blockAddr : BitVec 16) (raMark : BitVec 32) (spage : Option Nat)
    (buff : Nat → Sector) :
    Nand.contents (base + i) (updateOps flash blockAddr raMark spage (base + r) runs buff) =
      if r ≤ i ∧ i < r + runs.length then
        [roundContent flash blockAddr raMark spage rsector count buff (i - r)] else [] := by
  have window : (base + r ≤ base + i ∧ base + i < base + r + runs.length) ↔
      (r ≤ i ∧ i < r + runs.length) := by omega
  have number : base + i - (base + r) = i - r := by omega
  rw [rounds.contents, if_congr window rfl rfl, number]

theorem sourcePage_data (flash : Flash) (n : Nat) :
    (sourcePage flash (some n)).data = (flash n).data := by
  by_cases gone : flagBytes (flash n).mark = 0xfcfc00#32
  · simp [sourcePage, gone]
  · simp [sourcePage, gone]

/-! ### Old and new data -/

/-- The data of a block with the request in place. What the request leaves out is that of the
old block; only pages that are not marked used may be dropped on the way. -/
structure Merged (card : Card) (flash : Flash) (old : Option Nat) (sector secCount : Nat)
    (buff new : Nat → Sector) : Prop where
  written : ∀ s, sector ≤ s → s < sector + secCount → new s = buff (s - sector)
  kept : ∀ p, old = some p → ∀ s < card.uSectorPerBlock, ¬ (sector ≤ s ∧ s < sector + secCount) →
    new s = stored card flash p s ∨ card.u2KPageSize ∧ new s = blankSector ∧
      flagBytes (card.pageAt flash p s).mark ≠ 0xfefe00#32
  fresh : old = none → ∀ s < card.uSectorPerBlock, ¬ (sector ≤ s ∧ s < sector + secCount) →
    new s = blankSector

/-- What the script leaves in the sectors of the block. -/
def built (card : Card) (flash : Flash) (fb : Nat) (b : Build) (s : Nat) : Sector :=
  column (card.columnOf s) (card.pageAt flash fb s)
    (contents (fb * card.uPagePerBlock + card.pageOf s) (b.steps.map Step.op))

section
variable (blank : Blank card flash fb)
include blank

theorem cell_blank {s : Nat} (inside : s < card.uSectorPerBlock) :
    (card.pageAt flash fb s).data (card.columnOf s) = blankSector :=
  blank s inside

theorem full512_merged (small2K : card.u2KPageSize = false) (old : Option Nat)
    (buff : Nat → Sector) :
    Merged card flash old 0 card.uSectorPerBlock buff
      (built card flash fb (full512 card flash block fb old card.uSectorPerBlock buff)) where
  written s _ inside := by
    rw [Nat.zero_add] at inside
    have page : card.pageOf s = s := by simp [Card.pageOf, small2K]
    rw [built, full512, framed_column, map_op_must, contents_programs512, page, if_pos (by omega),
      column_blank (cell_blank blank inside), Nat.add_sub_cancel_left, Nat.sub_zero]
  kept _ _ s inside out := absurd ⟨Nat.zero_le s, by omega⟩ out
  fresh _ s inside out := absurd ⟨Nat.zero_le s, by omega⟩ out

theorem new512_merged (small2K : card.u2KPageSize = false) {sector secCount : Nat}
    (fits : sector + secCount ≤ card.uSectorPerBlock) (buff : Nat → Sector) :
    Merged card flash none sector secCount buff
      (built card flash fb (new512 card block fb sector secCount buff)) := by
  have whole : ∀ s < card.uSectorPerBlock,
      built card flash fb (new512 card block fb sector secCount buff) s =
        if sector ≤ s ∧ s < sector + secCount then buff (s - sector) else blankSector := by
    intro s inside
    have page : card.pageOf s = s := by simp [Card.pageOf, small2K]
    have window : (fb * card.uPagePerBlock + sector ≤ fb * card.uPagePerBlock + s ∧
        fb * card.uPagePerBlock + s < fb * card.uPagePerBlock + sector + secCount) ↔
        (sector ≤ s ∧ s < sector + secCount) := by omega
    rw [built, new512, framed_column, List.map_append, map_op_must, map_op_may, contents_append,
      (column_quiet fun p => pageZero_quiet).2, contents_programs512, page,
      if_congr window rfl rfl]
    split
    · rw [column_blank (cell_blank blank inside)]
      change buff _ = buff _
      congr 1
      omega
    · exact cell_blank blank inside
  refine ⟨?_, ?_, ?_⟩
  · intro s front back
    rw [whole s (by omega), if_pos ⟨front, back⟩]
  · rintro p ⟨⟩
  · intro _ s inside out
    rw [whole s inside, if_neg out]

theorem move512_merged (small2K : card.u2KPageSize = false) {sector secCount : Nat}
    (fits : sector + secCount ≤ card.uSectorPerBlock) (p : Nat) (buff : Nat → Sector) :
    Merged card flash (some p) sector secCount buff
      (built card flash fb (move512 card flash block fb p sector secCount buff)) := by
  have whole : ∀ s < card.uSectorPerBlock,
      built card flash fb (move512 card flash block fb p sector secCount buff) s =
        if sector ≤ s ∧ s < sector + secCount then buff (s - sector)
        else stored card flash p s := by
    intro s inside
    have page : card.pageOf s = s := by simp [Card.pageOf, small2K]
    have first : card.columnOf s = 0 := by simp [Card.columnOf, small2K]
    have fine : s < card.uPagePerBlock := by simpa [Card.uSectorPerBlock, small2K] using inside
    rw [built, move512, framed_column, List.map_append, map_op_must, map_op_may, contents_append,
      (column_quiet fun p => pageZero_quiet).2, contents_programs512, page, if_pos (by omega),
      column_blank (cell_blank blank inside), Nat.add_sub_cancel_left]
    rw [stored, Card.pageAt, page, first]
    rfl
  refine ⟨?_, ?_, ?_⟩
  · intro s front back
    rw [whole s (by omega), if_pos ⟨front, back⟩]
  · rintro _ ⟨⟩ s inside out
    rw [whole s inside, if_neg out]
    exact .inl rfl
  · intro none
    cases none

theorem full2K_merged (big2K : card.u2KPageSize = true) (old : Option Nat) (buff : Nat → Sector) :
    Merged card flash old 0 card.uSectorPerBlock buff
      (built card flash fb (full2K card flash block fb old buff)) where
  written s _ inside := by
    rw [Nat.zero_add] at inside
    have page : card.pageOf s = s / 4 := by simp [Card.pageOf, big2K]
    have place : card.columnOf s = s % 4 := by simp [Card.columnOf, big2K]
    have fine : s / 4 < card.uPagePerBlock := page ▸ pageOf_lt inside
    rw [built, full2K, framed_column, map_op_must, contents_pages2K, page, if_pos (by omega),
      column_blank (cell_blank blank inside), Nat.add_sub_cancel_left, place]
    change buff _ = buff _
    congr 1
    omega
  kept _ _ s inside out := absurd ⟨Nat.zero_le s, by omega⟩ out
  fresh _ s inside out := absurd ⟨Nat.zero_le s, by omega⟩ out

theorem new2K_merged (big2K : card.u2KPageSize = true) {sector secCount : Nat} (some : secCount ≠ 0)
    (fits : sector + secCount ≤ card.uSectorPerBlock) (buff : Nat → Sector) :
    Merged card flash none sector secCount buff
      (built card flash fb (new2K card flash block fb sector secCount buff)) := by
  have rounds := @rounds_of sector _ some
  have length := rounds.length
  have whole : ∀ s < card.uSectorPerBlock,
      built card flash fb (new2K card flash block fb sector secCount buff) s =
        if sector ≤ s ∧ s < sector + secCount then buff (s - sector) else blankSector := by
    intro s inside
    have page : card.pageOf s = s / 4 := by simp [Card.pageOf, big2K]
    have place : card.columnOf s = s % 4 := by simp [Card.columnOf, big2K]
    rw [built, new2K, framed_column, List.map_append, map_op_must, map_op_may, contents_append,
      (column_quiet fun p => pageZero_quiet).1, rounds.contents, page]
    split
    · rw [column_blank (cell_blank blank inside), place,
        roundContent_data (Nat.mod_lt _ (by decide)) (Nat.mod_lt _ (by decide))]
      have window : (sector % 4 ≤ 4 * (fb * card.uPagePerBlock + s / 4 -
          (fb * card.uPagePerBlock + sector / 4)) + s % 4 ∧
          4 * (fb * card.uPagePerBlock + s / 4 - (fb * card.uPagePerBlock + sector / 4)) + s % 4 <
            sector % 4 + secCount) ↔ (sector ≤ s ∧ s < sector + secCount) := by omega
      rw [if_congr window rfl rfl]
      split
      · congr 1
        omega
      · rfl
    · rw [if_neg (by omega)]
      exact cell_blank blank inside
  refine ⟨?_, ?_, ?_⟩
  · intro s front back
    rw [whole s (by omega), if_pos ⟨front, back⟩]
  · rintro p ⟨⟩
  · intro _ s inside out
    rw [whole s inside, if_neg out]

theorem move2K_merged (big2K : card.u2KPageSize = true) {sector secCount : Nat}
    (some : secCount ≠ 0)
    (fits : sector + secCount ≤ card.uSectorPerBlock) (p : Nat) (buff : Nat → Sector) :
    Merged card flash (Option.some p) sector secCount buff
      (built card flash fb (move2K card flash block fb p sector secCount buff)) := by
  have rounds := @rounds_of sector _ some
  have length := rounds.length
  have whole : ∀ s < card.uSectorPerBlock,
      built card flash fb (move2K card flash block fb p sector secCount buff) s =
        if sector ≤ s ∧ s < sector + secCount then buff (s - sector)
        else if (sector / 4 ≤ s / 4 ∧ s / 4 < sector / 4 + (pageRuns (sector % 4) secCount).length) ∨
            flagBytes (card.pageAt flash p s).mark = 0xfefe00#32 then stored card flash p s
        else blankSector := by
    intro s inside
    have page : card.pageOf s = s / 4 := by simp [Card.pageOf, big2K]
    have place : card.columnOf s = s % 4 := by simp [Card.columnOf, big2K]
    have fine : s / 4 < card.uPagePerBlock := page ▸ pageOf_lt inside
    have clear := cell_blank blank inside
    have source : stored card flash p s =
      (flash (p * card.uPagePerBlock + s / 4)).data (s % 4) := by
      rw [stored, Card.pageAt, page, place]
    have mark : (card.pageAt flash p s).mark = (flash (p * card.uPagePerBlock + s / 4)).mark := by
      rw [Card.pageAt, page]
    have front := @moveOps_at flash (fb * card.uPagePerBlock) (p * card.uPagePerBlock) (s / 4) 0
      (sector / 4) (fmiSMGetBlockAddr block) (nextRAMark (firstMark card flash p)) 0xc0000000#32
    rw [built, move2K]
    dsimp only
    rw [framed_column, source, mark]
    simp only [List.map_append, map_op_must, map_op_may, contents_append, moveOps_at,
      rounds.at, page]
    rw [Nat.add_zero, Nat.add_zero] at front
    have zero : (flash (p * card.uPagePerBlock + s / 4)).mark ||| 0 =
        (flash (p * card.uPagePerBlock + s / 4)).mark := BitVec.or_zero
    rw [front, flagBytes_or, zero]
    generalize (pageRuns (sector % 4) secCount).length = count at length ⊢
    rcases Nat.lt_or_ge (s / 4) (sector / 4) with before | later
    · rw [if_neg (show ¬ (sector / 4 ≤ s / 4 ∧ s / 4 < sector / 4 + count) by omega),
        if_neg (show ¬ ((sector / 4 + count ≤ s / 4 ∧ _) ∧ _) by omega), List.append_nil,
        List.append_nil, (column_quiet fun p => pageZero_quiet).2,
        if_neg (show ¬ (sector ≤ s ∧ s < sector + secCount) by omega)]
      by_cases used : flagBytes (flash (p * card.uPagePerBlock + s / 4)).mark = 0xfefe00#32
      · rw [if_pos ⟨by omega, used⟩, if_pos (.inr used), column_blank clear, place]
        rfl
      · rw [if_neg (fun both => used both.2), if_neg (by simp [used]; omega)]
        exact clear
    · rw [if_neg (show ¬ ((0 ≤ s / 4 ∧ s / 4 < 0 + sector / 4) ∧ _) by omega), List.nil_append,
        (column_quiet fun p => pageZero_quiet).1]
      rcases Nat.lt_or_ge (s / 4) (sector / 4 + count) with within | behind
      · have origin : p * card.uPagePerBlock + sector / 4 + (s / 4 - sector / 4) =
            p * card.uPagePerBlock + s / 4 := by omega
        have window : (sector % 4 ≤ 4 * (s / 4 - sector / 4) + s % 4 ∧
            4 * (s / 4 - sector / 4) + s % 4 < sector % 4 + secCount) ↔
            (sector ≤ s ∧ s < sector + secCount) := by omega
        rw [if_pos (show sector / 4 ≤ s / 4 ∧ s / 4 < sector / 4 + count from ⟨later, within⟩),
          if_neg (show ¬ ((sector / 4 + count ≤ s / 4 ∧ _) ∧ _) by omega), List.append_nil,
          column_blank clear, place,
          roundContent_data (Nat.mod_lt _ (by decide)) (Nat.mod_lt _ (by decide)),
          if_congr window rfl rfl, Option.map_some, sourcePage_data, origin]
        split
        · congr 1
          omega
        · rw [if_pos (.inl ⟨later, within⟩)]
      · rw [if_neg (show ¬ (sector / 4 ≤ s / 4 ∧ s / 4 < sector / 4 + count) by omega),
          List.nil_append, if_neg (show ¬ (sector ≤ s ∧ s < sector + secCount) by omega)]
        by_cases used : flagBytes (flash (p * card.uPagePerBlock + s / 4)).mark = 0xfefe00#32
        · rw [if_pos ⟨by omega, used⟩, if_pos (.inr used), column_blank clear, place]
          rfl
        · rw [if_neg (fun both => used both.2), if_neg (by simp [used]; omega)]
          exact clear
  refine ⟨?_, ?_, ?_⟩
  · intro s front back
    rw [whole s (by omega), if_pos ⟨front, back⟩]
  · rintro _ ⟨⟩ s inside out
    rw [whole s inside, if_neg out]
    split
    · exact .inl rfl
    · rename_i dropped
      exact .inr ⟨big2K, rfl, fun used => dropped (.inr used)⟩
  · intro none
    cases none

end

/-! ### Both kinds of cards -/

/-- The plans there are. -/
inductive Planned (card : Card) (flash : Flash) (block fb : Nat) :
    Option Nat → Nat → Nat → (Nat → Sector) → Plan → Prop
  | full512 {old : Option Nat} {buff : Nat → Sector} (size : card.u2KPageSize = false) :
      Planned card flash block fb old 0 card.uSectorPerBlock buff
        (.build (full512 card flash block fb old card.uSectorPerBlock buff))
  | new512 {sector secCount : Nat} {buff : Nat → Sector} (size : card.u2KPageSize = false) :
      Planned card flash block fb none sector secCount buff
        (.build (new512 card block fb sector secCount buff))
  | move512 {p sector secCount : Nat} {buff : Nat → Sector} (size : card.u2KPageSize = false) :
      Planned card flash block fb (some p) sector secCount buff
        (.build (move512 card flash block fb p sector secCount buff))
  | fill512 {p sector secCount : Nat} {buff : Nat → Sector} (size : card.u2KPageSize = false)
      (free : pagesUsed512 flash (p * card.uPagePerBlock + sector) secCount = false) :
      Planned card flash block fb (some p) sector secCount buff
        (.fill (fill512 card flash block p sector secCount buff))
  | full2K {old : Option Nat} {buff : Nat → Sector} (size : card.u2KPageSize = true) :
      Planned card flash block fb old 0 card.uSectorPerBlock buff
        (.build (full2K card flash block fb old buff))
  | new2K {sector secCount : Nat} {buff : Nat → Sector} (size : card.u2KPageSize = true) :
      Planned card flash block fb none sector secCount buff
        (.build (new2K card flash block fb sector secCount buff))
  | move2K {p sector secCount : Nat} {buff : Nat → Sector} (size : card.u2KPageSize = true) :
      Planned card flash block fb (some p) sector secCount buff
        (.build (move2K card flash block fb p sector secCount buff))
  | fill2K {p sector secCount : Nat} {buff : Nat → Sector} (size : card.u2KPageSize = true)
      (free : pagesUsed2K flash (p * card.uPagePerBlock + sector / 4)
        (pageRuns (sector % 4) secCount) = false) :
      Planned card flash block fb (some p) sector secCount buff
        (.fill (fill2K card flash block p sector secCount buff))

section
variable {old : Option Nat} {sector secCount : Nat} {buff : Nat → Sector} {b : Build} {ops : List Op}

theorem plan_planned (fits : sector + secCount ≤ card.uSectorPerBlock) :
    Planned card flash block fb old sector secCount buff
      (plan card flash block fb old sector secCount buff) := by
  unfold plan
  cases size : card.u2KPageSize with
  | false =>
    simp only [Bool.false_eq_true, if_false, plan512]
    by_cases whole : secCount = card.uSectorPerBlock
    · obtain rfl : sector = 0 := by omega
      rw [if_pos whole, whole]
      exact .full512 size
    · rw [if_neg whole]
      cases old with
      | none => exact .new512 size
      | some p =>
        dsimp only
        split
        · exact .move512 size
        · rename_i free
          exact .fill512 size (eq_false_of_ne_true free)
  | true =>
    simp only [if_true, plan2K]
    by_cases whole : secCount = card.uSectorPerBlock
    · obtain rfl : sector = 0 := by omega
      rw [if_pos whole, whole]
      exact .full2K size
    · rw [if_neg whole]
      cases old with
      | none => exact .new2K size
      | some p =>
        dsimp only
        split
        · exact .move2K size
        · rename_i free
          exact .fill2K size (eq_false_of_ne_true free)

theorem Planned.merged (planned : Planned card flash block fb old sector secCount buff (.build b))
    (some : secCount ≠ 0) (fits : sector + secCount ≤ card.uSectorPerBlock)
    (blank : Blank card flash fb) :
    Merged card flash old sector secCount buff (built card flash fb b) := by
  cases planned with
  | full512 size => exact full512_merged blank size old buff
  | new512 size => exact new512_merged blank size fits buff
  | move512 size => exact move512_merged blank size fits _ buff
  | full2K size => exact full2K_merged blank size old buff
  | new2K size => exact new2K_merged blank size some fits buff
  | move2K size => exact move2K_merged blank size some fits _ buff

theorem programs512_kept {blockAddr : BitVec 16} {page count : Nat} {mark : BitVec 32} {op : Op}
    (mem : op ∈ programs512 blockAddr page count buff mark) : op.isErase = false := by
  obtain ⟨i, small, rfl⟩ := mem_programs512 mem
  rfl

theorem updateOps_kept {blockAddr : BitVec 16} {raMark : BitVec 32} {runs : List (Nat × Nat)}
    {spage : Option Nat} {dpage : Nat} {op : Op}
    (mem : op ∈ updateOps flash blockAddr raMark spage dpage runs buff) : op.isErase = false := by
  induction runs generalizing spage dpage buff with
  | nil => cases mem
  | cons run rest ih =>
    rcases List.mem_cons.mp mem with rfl | later
    · rw [updateOp_content]
      rfl
    · exact ih later

theorem moveOps_kept {blockAddr : BitVec 16} {raMark set : BitVec 32} {s d count : Nat} {op : Op}
    (mem : op ∈ moveOps flash blockAddr raMark set s d count) : op.isErase = false := by
  induction count generalizing s d with
  | zero => cases mem
  | succ count ih =>
    rw [moveOps] at mem
    split at mem
    · rcases List.mem_cons.mp mem with rfl | later
      · rfl
      · exact ih later
    · exact ih mem

theorem pageZero_kept {blockAddr : BitVec 16} {d : Nat} {mark : BitVec 32} {op : Op}
    (mem : op ∈ pageZero card blockAddr d mark sector) : op.isErase = false := by
  unfold pageZero at mem
  split at mem
  · rw [List.mem_singleton.mp mem]
    rfl
  · cases mem

theorem pages2K_kept {mark : BitVec 32} {d : Nat} {op : Op}
    (mem : op ∈ pages2K card block mark d buff) : op.isErase = false := by
  obtain ⟨i, -, rfl⟩ := List.mem_map.mp mem
  rfl

/-- An operation that programs the block. -/
def Op.programs (card : Card) (b : Nat) (op : Op) : Prop :=
  op.isErase = false ∧ op.block card.uPagePerBlock = b

theorem framed_programs (pos : 0 < card.uPagePerBlock) {steps : List (Step Op)}
    (within : ∀ op ∈ steps.map Step.op, op.programs card fb) {op : Op}
    (mem : op ∈ (framed (fb * card.uPagePerBlock) steps).map Step.op) : op.programs card fb := by
  simp only [framed, List.map_append, map_op_may, List.mem_append, List.mem_singleton] at mem
  rcases mem with rfl | inner | rfl
  · exact ⟨rfl, spare_block pos _ _⟩
  · exact within op inner
  · exact ⟨rfl, spare_block pos _ _⟩

/-- A build programs the new block. -/
theorem Planned.onNew (planned : Planned card flash block fb old sector secCount buff (.build b))
    (some : secCount ≠ 0) (fits : sector + secCount ≤ card.uSectorPerBlock) {op : Op}
    (mem : op ∈ b.steps.map Step.op) : op.programs card fb := by
  have pos : 0 < card.uPagePerBlock := by
    unfold Card.uSectorPerBlock at fits
    split at fits <;> omega
  cases planned with
  | full512 size =>
    refine framed_programs pos (fun op inner => ?_) mem
    rw [map_op_must] at inner
    have whole : card.uSectorPerBlock = card.uPagePerBlock := by simp [Card.uSectorPerBlock, size]
    exact ⟨programs512_kept inner, @programs512_block _ _ _ 0 _ _ _ (by omega) _ inner⟩
  | new512 size =>
    refine framed_programs pos (fun op inner => ?_) mem
    have whole : card.uSectorPerBlock = card.uPagePerBlock := by simp [Card.uSectorPerBlock, size]
    rw [List.map_append, map_op_must, map_op_may, List.mem_append] at inner
    rcases inner with written | zero
    · exact ⟨programs512_kept written, programs512_block (by omega) written⟩
    · exact ⟨pageZero_kept zero, pageZero_block pos zero⟩
  | move512 size =>
    refine framed_programs pos (fun op inner => ?_) mem
    rw [List.map_append, map_op_must, map_op_may, List.mem_append] at inner
    rcases inner with written | zero
    · exact ⟨programs512_kept written, @programs512_block _ _ _ 0 _ _ _ (by omega) _ written⟩
    · exact ⟨pageZero_kept zero, pageZero_block pos zero⟩
  | full2K size =>
    refine framed_programs pos (fun op inner => ?_) mem
    rw [map_op_must] at inner
    exact ⟨pages2K_kept inner, pages2K_block inner⟩
  | new2K size =>
    have length := (@rounds_of sector _ some).length
    have whole : card.uSectorPerBlock = 4 * card.uPagePerBlock := by
      simp [Card.uSectorPerBlock, size]
    refine framed_programs pos (fun op inner => ?_) mem
    rw [List.map_append, map_op_must, map_op_may, List.mem_append] at inner
    rcases inner with zero | written
    · exact ⟨pageZero_kept zero, pageZero_block pos zero⟩
    · exact ⟨updateOps_kept written, updateOps_block (by omega) written⟩
  | move2K size =>
    have length := (@rounds_of sector _ some).length
    have whole : card.uSectorPerBlock = 4 * card.uPagePerBlock := by
      simp [Card.uSectorPerBlock, size]
    refine framed_programs pos (fun op inner => ?_) mem
    simp only [List.map_append, map_op_must, map_op_may, List.mem_append] at inner
    rcases inner with front | zero | written | back
    · exact ⟨moveOps_kept front, @moveOps_block _ _ _ _ _ _ _ _ 0 (by omega) _ front⟩
    · exact ⟨pageZero_kept zero, pageZero_block pos zero⟩
    · exact ⟨updateOps_kept written, updateOps_block (by omega) written⟩
    · exact ⟨moveOps_kept back, moveOps_block (by omega) back⟩

/-! ### Filling unused pages -/

theorem pagesUsed512_free {page count : Nat} (free : pagesUsed512 flash page count = false)
    {i : Nat}
    (small : i < count) : flagBytes (flash (page + i)).mark = 0xffff00#32 := by
  simp only [pagesUsed512, List.any_eq_false, List.mem_range, decide_eq_true_eq, not_not] at free
  exact free i small

theorem Rounds.free {r count page : Nat} {runs : List (Nat × Nat)} (rounds : Rounds r count runs)
    (free : pagesUsed2K flash page runs = false) {x : Nat} (front : r ≤ x) (back : x < r + count) :
    let mark := (flash (page + x / 4)).mark
    flagBytes mark ≠ 0xfcfc00#32 ∧ (flagBytes mark = 0xfefe00#32 → mark.getLsbD (24 + x % 4)) := by
  have here : ∀ {mark : BitVec 32} {c secs y : Nat}, runUsed mark c secs = false → c ≤ y →
      y < c + secs → flagBytes mark ≠ 0xfcfc00#32 ∧
        (flagBytes mark = 0xfefe00#32 → mark.getLsbD (24 + y)) := by
    intro mark c secs y unused low high
    unfold runUsed at unused
    split at unused
    · rename_i kept
      refine ⟨by rw [kept]; decide, fun _ => ?_⟩
      simp only [List.any_eq_false, List.mem_range, Bool.not_eq_true', Bool.not_eq_false] at unused
      have := unused (y - c) (by omega)
      rwa [show c + (y - c) = y by omega] at this
    · rename_i other
      exact ⟨of_decide_eq_false unused, fun kept => absurd kept other⟩
  induction rounds generalizing page x with
  | last some fits =>
    rw [pagesUsed2K, Bool.or_eq_false_iff] at free
    have page0 : x / 4 = 0 := by omega
    have column : x % 4 = x := by omega
    rw [page0, column]
    exact here free.1 front back
  | @more r count rest inside past behind ih =>
    rw [pagesUsed2K, Bool.or_eq_false_iff] at free
    rcases Nat.lt_or_ge x 4 with first | later
    · have page0 : x / 4 = 0 := by omega
      have column : x % 4 = x := by omega
      rw [page0, column]
      exact here free.1 front (by omega)
    · have next := ih free.2 (x := x - 4) (by omega) (by omega)
      have page : page + 1 + (x - 4) / 4 = page + x / 4 := by omega
      have column : (x - 4) % 4 = x % 4 := by omega
      rwa [page, column] at next

/-- What the operations program into a block whose unused sectors they fill. -/
structure Fills (card : Card) (flash : Flash) (p sector secCount : Nat) (buff : Nat → Sector)
    (ops : List Op) : Prop where
  onOld : ∀ op ∈ ops, op.programs card p
  written : ∀ s, sector ≤ s → s < sector + secCount → ∃ content,
    contents (p * card.uPagePerBlock + card.pageOf s) ops = [content] ∧
      content.data (card.columnOf s) = buff (s - sector)
  quiet : ∀ s < card.uSectorPerBlock, ¬ (sector ≤ s ∧ s < sector + secCount) →
    ∀ content ∈ contents (p * card.uPagePerBlock + card.pageOf s) ops,
      content.data (card.columnOf s) = blankSector
  unused : ∀ s, sector ≤ s → s < sector + secCount →
    ¬ inUse card flash p s ∧ ¬ deleted card flash p s

theorem fill512_fills (size : card.u2KPageSize = false) {p : Nat}
    (fits : sector + secCount ≤ card.uSectorPerBlock)
    (free : pagesUsed512 flash (p * card.uPagePerBlock + sector) secCount = false) :
    Fills card flash p sector secCount buff (fill512 card flash block p sector secCount buff) := by
  have whole : card.uSectorPerBlock = card.uPagePerBlock := by simp [Card.uSectorPerBlock, size]
  have page : ∀ s, card.pageOf s = s := fun s => by simp [Card.pageOf, size]
  refine ⟨?_, ?_, ?_, ?_⟩
  · intro op mem
    exact ⟨programs512_kept mem, programs512_block (by omega) mem⟩
  · intro s front back
    rw [fill512, contents_programs512, page, if_pos (by omega)]
    refine ⟨_, rfl, ?_⟩
    change buff _ = buff _
    congr 1
    omega
  · intro s inside out content mem
    rw [fill512, contents_programs512, page, if_neg (by omega)] at mem
    cases mem
  · intro s front back
    have mark := pagesUsed512_free free (show s - sector < secCount by omega)
    rw [show p * card.uPagePerBlock + sector + (s - sector) = p * card.uPagePerBlock + s by omega]
      at mark
    simp [inUse, deleted, size, Card.pageAt, page, mark]

theorem fill2K_fills (size : card.u2KPageSize = true) {p : Nat} (some : secCount ≠ 0)
    (fits : sector + secCount ≤ card.uSectorPerBlock)
    (free : pagesUsed2K flash (p * card.uPagePerBlock + sector / 4)
      (pageRuns (sector % 4) secCount) = false) :
    Fills card flash p sector secCount buff (fill2K card flash block p sector secCount buff) := by
  have whole : card.uSectorPerBlock = 4 * card.uPagePerBlock := by simp [Card.uSectorPerBlock, size]
  have page : ∀ s, card.pageOf s = s / 4 := fun s => by simp [Card.pageOf, size]
  have place : ∀ s, card.columnOf s = s % 4 := fun s => by simp [Card.columnOf, size]
  have rounds := @rounds_of sector _ some
  have length := rounds.length
  have data : ∀ s (content : Page), content ∈ contents (p * card.uPagePerBlock + s / 4)
      (fill2K card flash block p sector secCount buff) → content.data (s % 4) =
        if sector ≤ s ∧ s < sector + secCount then buff (s - sector) else blankSector := by
    intro s content mem
    rw [fill2K, rounds.at] at mem
    split at mem
    · rw [List.mem_singleton.mp mem, roundContent_data (Nat.mod_lt _ (by decide))
        (Nat.mod_lt _ (by decide))]
      have window : (sector % 4 ≤ 4 * (s / 4 - sector / 4) + s % 4 ∧
          4 * (s / 4 - sector / 4) + s % 4 < sector % 4 + secCount) ↔
          (sector ≤ s ∧ s < sector + secCount) := by omega
      rw [if_congr window rfl rfl]
      split
      · congr 1
        omega
      · rfl
    · cases mem
  refine ⟨?_, ?_, ?_, ?_⟩
  · intro op mem
    exact ⟨updateOps_kept mem, updateOps_block (by omega) mem⟩
  · intro s front back
    have single : ∃ content, contents (p * card.uPagePerBlock + s / 4)
        (fill2K card flash block p sector secCount buff) = [content] := by
      rw [fill2K, rounds.at, if_pos (by omega)]
      exact ⟨_, rfl⟩
    obtain ⟨content, only⟩ := single
    have written := data s content (by simp [only])
    rw [if_pos ⟨front, back⟩] at written
    rw [page, place]
    exact ⟨content, only, written⟩
  · intro s inside out content mem
    rw [page] at mem
    rw [place, data s content mem, if_neg out]
  · intro s front back
    have unused := rounds.free free (x := s - 4 * (sector / 4)) (by omega) (by omega)
    rw [show p * card.uPagePerBlock + sector / 4 + (s - 4 * (sector / 4)) / 4 =
      p * card.uPagePerBlock + s / 4 by omega,
      show (s - 4 * (sector / 4)) % 4 = s % 4 by omega] at unused
    constructor
    · simpa [inUse, size, Card.pageAt, page, place] using unused.2
    · simpa [deleted, size, Card.pageAt, page] using unused.1

theorem Planned.fills (planned : Planned card flash block fb old sector secCount buff (.fill ops))
    (some : secCount ≠ 0) (fits : sector + secCount ≤ card.uSectorPerBlock) :
    ∃ p, old = Option.some p ∧ Fills card flash p sector secCount buff ops := by
  cases planned with
  | fill512 size free => exact ⟨_, rfl, fill512_fills size fits free⟩
  | fill2K size free => exact ⟨_, rfl, fill2K_fills size some fits free⟩

end

end Rovio.Nand
