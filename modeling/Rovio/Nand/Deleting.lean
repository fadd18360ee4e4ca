import Rovio.Nand.Carried

/-! What `mark_block_data` and `fmiSMDelete` take away on a card whose operations do not fail: the
counter of deleted pages, which all blocks share, decides when a block goes. -/
namespace Rovio.Nand

open Kit

variable {card : Card} {cells : Cells} {w w' : World} {block sector secCount : Nat}

/-! ### Marks -/

/-- The page as `fmiSM_SetMarkFlag` leaves it. -/
def Page.flagged (page : Page) : Page :=
  page.program (.spare (0xff#8 ++ 0xfc#8 ++ 0xfc#8 ++ 0xff#8) 0xffff#16)

namespace Page

variable {page : Page}

theorem flagged_data (c : Nat) : page.flagged.data c = page.data c := and_blankSector _

theorem flagged_flag : flagBytes page.flagged.mark = flagBytes page.mark &&& 0xfcfc00#32 := by
  rw [flagged, program_mark, flagBytes_and]
  rfl

theorem flagged_bit {c : Nat} (small : c < 4) :
    page.flagged.mark.getLsbD (24 + c) = page.mark.getLsbD (24 + c) := by
  rw [flagged, program_mark, BitVec.getLsbD_and]
  have set : (spare (0xff#8 ++ 0xfc#8 ++ 0xfc#8 ++ 0xff#8) 0xffff#16).mark.getLsbD (24 + c) =
      true := by
    obtain rfl | rfl | rfl | rfl : c = 0 ∨ c = 1 ∨ c = 2 ∨ c = 3 := by omega
    all_goals rfl
  rw [set, Bool.and_true]

theorem Honest.flagged (honest : page.Honest card) : page.flagged.Honest card where
  flag big := by
    rw [flagged_flag]
    rcases honest.flag big with unused | used | gone
    · rw [unused]
      decide
    · rw [used]
      decide
    · rw [gone]
      decide
  blank c small free := by
    rw [flagged_data]
    refine honest.blank c small fun held => free ⟨?_, fun big => ?_⟩
    · rw [flagged_flag]
      intro same
      have bit := congrArg (fun x => x.getLsbD 8) same
      simp at bit
    · rw [flagged_bit (Nat.lt_of_lt_of_le small (columns_le card))]
      exact held.2 big

end Page

/-- What the loop over the pages has done. -/
structure Marked (ssector : Nat) (marks : List Bool) (w w' : World) : Prop where
  zone : w'.smZone = w.smZone
  previous : w'.nPreDelBlock = w.nPreDelBlock
  count : w'.uDelPageOfBlock = w.uDelPageOfBlock + marks.count true
  page : ∀ n, w'.flash n =
    if ssector ≤ n ∧ marks[n - ssector]? = some true then (w.flash n).flagged else w.flash n
  log : ∃ es, w'.log = w.log ++ es ∧ ∀ e ∈ es, e.op.isErase = false

theorem Marked.cons {ssector : Nat} {marks : List Bool} {w₁ w₂ : World} {whole : Bool}
    (rest : Marked (ssector + 1) marks w₁ w₂) (zone : w₁.smZone = w.smZone)
    (previous : w₁.nPreDelBlock = w.nPreDelBlock)
    (count : w₁.uDelPageOfBlock = w.uDelPageOfBlock + if whole then 1 else 0)
    (page : ∀ n, w₁.flash n =
      if n = ssector ∧ whole = true then (w.flash n).flagged else w.flash n)
    (log : ∃ es, w₁.log = w.log ++ es ∧ ∀ e ∈ es, e.op.isErase = false) :
    Marked ssector (whole :: marks) w w₂ where
  zone := rest.zone.trans zone
  previous := rest.previous.trans previous
  count := by
    rw [rest.count, count, List.count_cons]
    cases whole with
    | true => simp; omega
    | false => simp
  page n := by
    rw [rest.page, page]
    rcases Nat.lt_trichotomy n ssector with before | rfl | behind
    · rw [if_neg (by omega), if_neg (by omega), if_neg (by omega)]
    · rw [if_neg (by omega)]
      simp
    · have place : n - ssector = n - (ssector + 1) + 1 := by omega
      rw [if_neg (by omega : ¬ (n = ssector ∧ whole = true)), place, List.getElem?_cons_succ]
      refine if_ctx_congr ?_ (fun _ => rfl) fun _ => rfl
      constructor
      · exact fun here => ⟨by omega, here.2⟩
      · exact fun here => ⟨by omega, here.2⟩
  log := by
    obtain ⟨es, first, quiet⟩ := log
    obtain ⟨fs, second, quiet'⟩ := rest.log
    refine ⟨es ++ fs, by rw [second, first, List.append_assoc], fun e mem => ?_⟩
    rcases List.mem_append.mp mem with here | later
    · exact quiet e here
    · exact quiet' e later

theorem markPages_sound (sound : card.FaultFree) (ssector : Nat) (marks : List Bool) (w : World) :
    ∃ w', markPages card ssector marks w = some ((), w') ∧ Marked ssector marks w w' := by
  induction marks generalizing ssector w with
  | nil => exact ⟨w, rfl, rfl, rfl, rfl, fun n => by simp, [], by simp, by simp⟩
  | cons whole marks ih =>
    cases whole with
    | false =>
      obtain ⟨w', run, rest⟩ := ih (ssector + 1) w
      refine ⟨w', run, rest.cons rfl rfl rfl (fun n => ?_) ⟨[], by simp, by simp⟩⟩
      rw [if_neg (by simp)]
    | true =>
      obtain ⟨w', run, rest⟩ := ih (ssector + 1)
        { w.push card (w.attempts card [.spare ssector (0xff#8 ++ 0xfc#8 ++ 0xfc#8 ++ 0xff#8)
            0xffff#16]) with uDelPageOfBlock := w.uDelPageOfBlock + 1 }
      refine ⟨w', ?_, rest.cons rfl rfl rfl (fun n => ?_) ⟨_, rfl, fun e mem => ?_⟩⟩
      · rw [markPages, ite_run, if_pos rfl, fmiSMSetMarkFlag, bind_of_run (issue_run _ w)]
        exact run
      · dsimp only
        rw [attempts_one, sound, push_flash, replay_cons, replay_nil, Event.apply]
        dsimp only
        by_cases here : n = ssector
        · subst here
          rw [Function.update_self, if_pos ⟨rfl, rfl⟩]
          rfl
        · rw [Function.update_of_ne here, if_neg (fun both => here both.1)]
      · rw [attempts_one, List.mem_singleton] at mem
        rw [mem]
        rfl

/-- The range has all sectors of the page. -/
def Covers (card : Card) (sector secCount i : Nat) : Prop :=
  ∀ s, card.pageOf s = i → sector ≤ s ∧ s < sector + secCount

theorem Covers.page_lt {i : Nat} (covers : Covers card sector secCount i)
    (fits : sector + secCount ≤ card.uSectorPerBlock) : i < card.uPagePerBlock := by
  have first : card.pageOf (if card.u2KPageSize then 4 * i else i) = i := by
    unfold Card.pageOf
    split
    · omega
    · rfl
  have inside := (covers _ first).2
  rw [← first]
  exact pageOf_lt (Nat.lt_of_lt_of_le inside fits)

theorem Rounds.covers {r count : Nat} {runs : List (Nat × Nat)} (rounds : Rounds r count runs)
    {j : Nat} (whole : (runs.map fun run => decide (run.2 = 4))[j]? = some true) :
    r ≤ 4 * j ∧ 4 * j + 4 ≤ r + count := by
  induction rounds generalizing j with
  | @last r count some fits =>
    cases j with
    | zero =>
      have four : count = 4 := by simpa using whole
      omega
    | succ j => simp at whole
  | @more r count rest inside past behind ih =>
    cases j with
    | zero =>
      have four : 4 - r = 4 := by simpa using whole
      omega
    | succ j =>
      rw [List.map_cons, List.getElem?_cons_succ] at whole
      have := ih whole
      omega

theorem pagesToMark_covers (some : 0 < secCount) {j : Nat}
    (whole : (pagesToMark card sector secCount)[j]? = Option.some true) :
    Covers card sector secCount (card.pageOf sector + j) := by
  intro s page
  unfold pagesToMark at whole
  unfold Card.pageOf at page
  cases size : card.u2KPageSize with
  | true =>
    rw [size, if_pos rfl] at whole
    rw [size, if_pos rfl, if_pos rfl] at page
    have := (pageRuns_rounds (Nat.mod_lt sector (by decide : 0 < 4)) some).covers whole
    omega
  | false =>
    rw [size, if_neg Bool.false_ne_true] at whole
    rw [size, if_neg Bool.false_ne_true, if_neg Bool.false_ne_true] at page
    have inside : j < max 1 secCount := by
      by_contra out
      rw [List.getElem?_eq_none (by rw [List.length_replicate]; omega)] at whole
      cases whole
    omega

/-! ### Cells that are only deleted -/

theorem Keeps.forget (keeps : Keeps card cells w) {cells' : Cells}
    (less : ∀ v, cells' v = cells v ∨ cells' v = .deleted) : Keeps card cells' w where
  toConsistent := keeps.toConsistent
  shows l p mapped s inside := by
    rcases less (card.number l s) with same | gone
    · rw [same]
      exact keeps.shows l p mapped s inside
    · rw [gone]
      trivial
  marked l p mapped s inside flag := by
    rcases less (card.number l s) with same | gone
    · rw [same]
      exact keeps.marked l p mapped s inside flag
    · exact gone
  unmapped l none s inside x := by
    rcases less (card.number l s) with same | gone
    · rw [same]
      exact keeps.unmapped l none s inside x
    · rw [gone]
      rintro ⟨⟩

theorem delete_less (cells : Cells) (uSector count v : Nat) :
    cells.delete uSector count v = cells v ∨ cells.delete uSector count v = .deleted := by
  unfold Cells.delete
  split
  · exact .inr rfl
  · exact .inl rfl

/-- Pages of a mapped block are marked whose sectors have been deleted. -/
theorem Keeps.flagged (keeps : Keeps card cells w) {p : Nat} (mapped : w.l2p block = some p)
    (zone : w'.smZone = w.smZone)
    (page : ∀ n, w'.flash n = w.flash n ∨ w'.flash n = (w.flash n).flagged ∧
      ∃ i < card.uPagePerBlock, n = p * card.uPagePerBlock + i ∧
        ∀ s < card.uSectorPerBlock, card.pageOf s = i → cells (card.number block s) = .deleted) :
    Keeps card cells w' := by
  have table : w'.l2p = w.l2p := congrArg Zone.l2pTable zone
  have free : w'.free = w.free := congrArg Zone.freeBlockList zone
  refine ⟨⟨zone ▸ keeps.scanned, free ▸ keeps.nodup, ?_, table ▸ keeps.alone, ?_, ?_⟩, ?_, ?_,
    table ▸ keeps.unmapped⟩
  · rw [table, free]
    exact keeps.apart
  · intro node mem clean i inside
    rw [free] at mem
    rcases page (node.block * card.uPagePerBlock + i) with same | ⟨-, j, within, here, -⟩
    · rw [same]
      exact keeps.clear node mem clean i inside
    · have place := congrArg (· / card.uPagePerBlock) here
      rw [block_of_page inside, block_of_page within] at place
      exact absurd (place ▸ mapped) (keeps.apart block node mem)
  · intro l q here i inside
    rw [table] at here
    have honest := keeps.honest l q here i inside
    rcases page (q * card.uPagePerBlock + i) with same | ⟨marked, -⟩
    · rw [same]
      exact honest
    · rw [marked]
      exact honest.flagged
  · intro l q here s inside
    rw [table] at here
    have same : stored card w'.flash q s = stored card w.flash q s := by
      unfold stored Card.pageAt
      rcases page (q * card.uPagePerBlock + card.pageOf s) with same | ⟨marked, -⟩
      · rw [same]
      · rw [marked, Page.flagged_data]
    rw [same]
    exact keeps.shows l q here s inside
  · intro l q here s inside flag
    rw [table] at here
    rcases page (q * card.uPagePerBlock + card.pageOf s) with same | ⟨-, j, within, place, gone⟩
    · rw [Card.pageAt, same] at flag
      exact keeps.marked l q here s inside flag
    · have block' := congrArg (fun n => n / card.uPagePerBlock) place
      have column := congrArg (fun n => n % card.uPagePerBlock) place
      have small : card.pageOf s < card.uPagePerBlock := pageOf_lt inside
      rw [block_of_page small, block_of_page within] at block'
      rw [Nat.mul_add_mod_self_right, Nat.mul_add_mod_self_right, Nat.mod_eq_of_lt small,
        Nat.mod_eq_of_lt within] at column
      rw [keeps.alone l block p (block' ▸ here) mapped]
      exact gone s inside column

/-- A block of which every sector has been deleted is erased and goes to the list. -/
theorem Keeps.unmap (keeps : Keeps card cells w) {p : Nat} (mapped : w.l2p block = some p)
    (gone : ∀ s < card.uSectorPerBlock, cells (card.number block s) = .deleted)
    (scanned : w'.smZone.isScan) (table : w'.l2p = Function.update w.l2p block none)
    (free : w'.free = w.free ∨ w'.free = w.free ++ [⟨p, false⟩])
    (page : ∀ n, w'.flash n = if n / card.uPagePerBlock = p then .erased else w.flash n) :
    Keeps card cells w' := by
  have left : ∀ l q, w'.l2p l = some q → l ≠ block ∧ w.l2p l = some q ∧ q ≠ p := by
    intro l q here
    rw [table] at here
    by_cases same : l = block
    · rw [same, Function.update_self] at here
      cases here
    · rw [Function.update_of_ne same] at here
      refine ⟨same, here, ?_⟩
      rintro rfl
      exact same (keeps.alone l block q here mapped)
  have listed : ∀ node ∈ w'.free, node ∈ w.free ∨ node = ⟨p, false⟩ := by
    intro node mem
    rcases free with same | same
    · exact .inl (same ▸ mem)
    · rw [same, List.mem_append, List.mem_singleton] at mem
      exact mem
  have kept : ∀ l q, w'.l2p l = some q → ∀ i < card.uPagePerBlock,
      w'.flash (q * card.uPagePerBlock + i) = w.flash (q * card.uPagePerBlock + i) := by
    intro l q here i inside
    rw [page, block_of_page inside, if_neg (left l q here).2.2]
  refine ⟨⟨scanned, ?_, ?_, ?_, ?_, ?_⟩, ?_, ?_, ?_⟩
  · rcases free with same | same
    · rw [same]
      exact keeps.nodup
    · rw [same, List.map_append, List.map_singleton]
      refine keeps.nodup.append (List.nodup_singleton _) fun b mem here => ?_
      obtain ⟨node, inside, rfl⟩ := List.mem_map.mp mem
      exact keeps.apart block node inside (List.mem_singleton.mp here ▸ mapped)
  · intro l node mem here
    obtain ⟨-, before, other⟩ := left l _ here
    rcases listed node mem with inside | rfl
    · exact keeps.apart l node inside before
    · exact other rfl
  · intro l l' q here here'
    exact keeps.alone l l' q (left l q here).2.1 (left l' q here').2.1
  · intro node mem clean i inside
    rw [page, block_of_page inside]
    split
    · exact Page.erased_clear
    · rename_i other
      rcases listed node mem with before | rfl
      · exact keeps.clear node before clean i inside
      · exact absurd rfl other
  · intro l q here i inside
    rw [kept l q here i inside]
    exact keeps.honest l q (left l q here).2.1 i inside
  · intro l q here s inside
    rw [stored_of_page (kept l q here _ (pageOf_lt inside))]
    exact keeps.shows l q (left l q here).2.1 s inside
  · intro l q here s inside flag
    rw [Card.pageAt, kept l q here _ (pageOf_lt inside)] at flag
    exact keeps.marked l q (left l q here).2.1 s inside flag
  · intro l none s inside x
    by_cases same : l = block
    · rw [same, gone s inside]
      rintro ⟨⟩
    · rw [table, Function.update_of_ne same] at none
      exact keeps.unmapped l none s inside x

/-! ### One block -/

/-- A block stays mapped, and is neither erased on the way nor listed as free. -/
structure Stays (w w' : World) (l p : Nat) : Prop where
  mapped : w'.l2p l = some p
  spared : ∃ es, w'.log = w.log ++ es ∧ ∀ e ∈ es, e.op ≠ .erase p
  unlisted : ∀ node ∈ w'.free, node.block ≠ p

/-- Of the mapped blocks only those go of which every sector has been deleted. -/
def OnlyDeleted (card : Card) (cells : Cells) (w w' : World) : Prop :=
  ∀ l p, w.l2p l = some p → Stays w w' l p ∨
    ∀ s < card.uSectorPerBlock, cells (card.number l s) = .deleted

theorem Keeps.stays (keeps : Keeps card cells w') {l p : Nat} (mapped : w'.l2p l = some p)
    (spared : ∃ es, w'.log = w.log ++ es ∧ ∀ e ∈ es, e.op ≠ .erase p) : Stays w w' l p :=
  ⟨mapped, spared, fun node mem same => keeps.apart l node mem (same ▸ mapped)⟩

theorem OnlyDeleted.trans {cells' : Cells} {w'' : World} (first : OnlyDeleted card cells w w')
    (second : OnlyDeleted card cells' w' w'')
    (less : ∀ v, cells' v = cells v ∨ cells' v = .deleted) : OnlyDeleted card cells' w w'' := by
  intro l p mapped
  rcases first l p mapped with stays | gone
  · rcases second l p stays.mapped with stays' | gone
    · obtain ⟨es, log, spared⟩ := stays.spared
      obtain ⟨fs, log', spared'⟩ := stays'.spared
      refine .inl ⟨stays'.mapped, ⟨es ++ fs, by rw [log', log, List.append_assoc], ?_⟩,
        stays'.unlisted⟩
      intro e mem
      rcases List.mem_append.mp mem with here | later
      · exact spared e here
      · exact spared' e later
    · exact .inr gone
  · refine .inr fun s inside => ?_
    rcases less (card.number l s) with same | gone'
    · rw [same]
      exact gone s inside
    · exact gone'

/-- What the counter has for the block when a call starts to mark pages of it. -/
def World.counted (w : World) (p : Nat) : Nat :=
  if w.nPreDelBlock = some p then w.uDelPageOfBlock else 0

/-- The counter makes a call take a block away that has pages left, or another one than its own. -/
def Overcounts (card : Card) (w : World) (block sector secCount : Nat) : Prop :=
  ∃ p, w.l2p block = some p ∧
    if secCount = card.uSectorPerBlock then w.uDelPageOfBlock = card.uPagePerBlock
    else w.counted p + (pagesToMark card sector secCount).count true = card.uPagePerBlock ∧
      ∃ s < card.uSectorPerBlock, flagBytes (card.pageAt w.flash p s).mark ≠ 0xfcfc00#32 ∧
        ¬ Covers card sector secCount (card.pageOf s)

theorem deleteBlock_sound (sound : card.FaultFree) (small : block < l2pTableSize) (p : Nat)
    (w : World) : ∃ status w', deleteBlock card 0 block p w = some (status, w') ∧
      w'.l2p = Function.update w.l2p block none ∧ w'.smZone.isScan = w.smZone.isScan ∧
      (w'.free = w.free ∨ w'.free = w.free ++ [⟨p, false⟩]) ∧
      (∀ n, w'.flash n = if n / card.uPagePerBlock = p then .erased else w.flash n) ∧
      w'.log = w.log ++ [⟨.erase p, .ok⟩] ∧ w'.uDelPageOfBlock = w.uDelPageOfBlock := by
  have erased : w.attempts card [.erase p] = [⟨.erase p, .ok⟩] := by rw [attempts_one, sound]
  have fine : verdict [(⟨.erase p, .ok⟩ : Event)] = .noErr := rfl
  rw [deleteBlock, fmiSMBlockErase, bind_of_run (issue_run _ w), erased, ite_run, fine,
    if_neg (by simp), bind_of_run (setL2P_run small none _), smAddFreeBlock_run]
  split
  · exact ⟨_, _, rfl, rfl, rfl, .inr rfl, fun n => rfl, rfl, rfl⟩
  · exact ⟨_, _, rfl, rfl, rfl, .inl rfl, fun n => rfl, rfl, rfl⟩

/-- A mapped block goes of which every sector has been deleted. -/
theorem Keeps.deleteBlock (keeps : Keeps card cells w) (sound : card.FaultFree)
    (small : block < l2pTableSize) {p : Nat} (mapped : w.l2p block = some p)
    (gone : ∀ s < card.uSectorPerBlock, cells (card.number block s) = .deleted) :
    ∃ status w', Nand.deleteBlock card 0 block p w = some (status, w') ∧ Keeps card cells w' ∧
      OnlyDeleted card cells w w' ∧ w'.uDelPageOfBlock = w.uDelPageOfBlock := by
  obtain ⟨status, w', run, table, scanned, free, page, log, count⟩ := deleteBlock_sound sound small
    p w
  have after := keeps.unmap mapped gone (scanned.trans keeps.scanned) table free page
  refine ⟨status, w', run, after, fun l q here => ?_, count⟩
  by_cases same : l = block
  · exact .inr (same ▸ gone)
  · refine .inl (after.stays ?_ ⟨_, log, fun e mem => ?_⟩)
    · rw [table, Function.update_of_ne same]
      exact here
    · rw [List.mem_singleton.mp mem]
      intro erases
      cases erases
      exact same (keeps.alone l block p here mapped)

/-- The state once the block is the one whose pages are counted. -/
def World.selected (w : World) (p : Nat) : World :=
  if w.nPreDelBlock ≠ some p then { w with nPreDelBlock := some p, uDelPageOfBlock := 0 } else w

section
variable (w : World) (p : Nat)

theorem selected_smZone : (w.selected p).smZone = w.smZone := by
  unfold World.selected
  split <;> rfl

theorem selected_flash : (w.selected p).flash = w.flash := by
  unfold World.selected
  split <;> rfl

theorem selected_log : (w.selected p).log = w.log := by
  unfold World.selected
  split <;> rfl

theorem selected_previous : (w.selected p).nPreDelBlock = some p := by
  unfold World.selected
  split
  · rfl
  · exact not_not.mp ‹_›

theorem selected_count : (w.selected p).uDelPageOfBlock = w.counted p := by
  unfold World.selected World.counted
  by_cases here : w.nPreDelBlock = some p
  · rw [if_neg (not_not.mpr here), if_pos here]
  · rw [if_pos here, if_neg here]

end

theorem markSectors_sound (sound : card.FaultFree) (p sector secCount : Nat) (w : World) :
    ∃ w', markSectors card p sector secCount w = some ((), w') ∧
      Marked (p * card.uPagePerBlock + card.pageOf sector) (pagesToMark card sector secCount)
        (w.selected p) w' := by
  obtain ⟨w', run, marked⟩ := markPages_sound sound (p * card.uPagePerBlock + card.pageOf sector)
    (pagesToMark card sector secCount) (w.selected p)
  have select : selectDelBlock p w = some ((), w.selected p) := rfl
  refine ⟨w', ?_, marked⟩
  rw [markSectors, bind_of_run select]
  exact run

theorem Marked.counted {ssector p : Nat} {marks : List Bool}
    (marked : Marked ssector marks (w.selected p) w') :
    w'.nPreDelBlock = some p ∧ w'.uDelPageOfBlock = w.counted p + marks.count true := by
  rw [marked.previous, marked.count, selected_previous, selected_count]
  exact ⟨rfl, rfl⟩

theorem Keeps.markSectors (keeps : Keeps card cells w) (some : 0 < secCount)
    (fits : sector + secCount ≤ card.uSectorPerBlock) {p : Nat}
    (mapped : w.l2p block = Option.some p)
    (gone : ∀ s, sector ≤ s → s < sector + secCount → cells (card.number block s) = .deleted)
    (marked : Marked (p * card.uPagePerBlock + card.pageOf sector)
      (pagesToMark card sector secCount) (w.selected p) w') :
    Keeps card cells w' ∧ OnlyDeleted card cells w w' ∧ w'.l2p = w.l2p := by
  have zone : w'.smZone = w.smZone := marked.zone.trans (selected_smZone w p)
  have table : w'.l2p = w.l2p := congrArg Zone.l2pTable zone
  have after : Keeps card cells w' := by
    refine keeps.flagged mapped zone fun n => ?_
    rw [marked.page, selected_flash]
    by_cases whole : p * card.uPagePerBlock + card.pageOf sector ≤ n ∧
        (pagesToMark card sector secCount)[n - (p * card.uPagePerBlock + card.pageOf sector)]? =
          Option.some true
    · rw [if_pos whole]
      have covers := pagesToMark_covers some whole.2
      have place : n - p * card.uPagePerBlock = card.pageOf sector +
          (n - (p * card.uPagePerBlock + card.pageOf sector)) := by omega
      refine .inr ⟨rfl, n - p * card.uPagePerBlock, ?_, by omega, fun s _ page => ?_⟩
      · rw [place]
        exact covers.page_lt fits
      · have inside := covers s (page.trans place)
        exact gone s inside.1 inside.2
    · exact .inl (if_neg whole)
  refine ⟨after, fun l q here => .inl (after.stays (table ▸ here) ?_), table⟩
  obtain ⟨es, log, quiet⟩ := marked.log
  refine ⟨es, by rw [log, selected_log], fun e mem erases => ?_⟩
  have kept := quiet e mem
  rw [erases] at kept
  cases kept

theorem delete_inside {s : Nat} (inside : sector ≤ s ∧ s < sector + secCount) :
    cells.delete (card.number block sector) secCount (card.number block s) = .deleted :=
  if_pos ((number_inside card block sector secCount s).mpr inside)

theorem delete_deleted {uSector count v : Nat} (gone : cells v = .deleted) :
    cells.delete uSector count v = .deleted := by
  rcases delete_less cells uSector count v with same | now
  · rw [same, gone]
  · exact now

/-- One call takes away no block that has sectors left. -/
theorem Keeps.mark (keeps : Keeps card cells w) (sound : card.FaultFree)
    (small : block < l2pTableSize) (some : 0 < secCount)
    (fits : sector + secCount ≤ card.uSectorPerBlock)
    (safe : ¬ Overcounts card w block sector secCount) :
    ∃ status w', markBlockData card 0 block sector secCount w = Option.some (status, w') ∧
      Keeps card (cells.delete (card.number block sector) secCount) w' ∧
      OnlyDeleted card (cells.delete (card.number block sector) secCount) w w' := by
  have keeps' := keeps.forget (delete_less cells (card.number block sector) secCount)
  have lookUp : ∀ f : Option Nat → Drive Status, (ensureScanned card 0 >>= fun _ =>
      getL2P 0 block >>= f) w = f (w.l2p block) w := by
    intro f
    rw [bind_of_run (ensureScanned_run keeps.scanned), bind_of_run (getL2P_run small w)]
  rw [markBlockData, lookUp]
  cases mapped : w.l2p block with
  | none =>
    refine ⟨_, w, rfl, keeps', fun l p here => .inl (keeps'.stays here ⟨[], by simp, by simp⟩)⟩
  | some p =>
    dsimp only
    rw [ite_run]
    by_cases whole : secCount = card.uSectorPerBlock
    · have counter : w.uDelPageOfBlock ≠ card.uPagePerBlock := fun full =>
        safe ⟨p, mapped, by rw [if_pos whole]; exact full⟩
      obtain ⟨status, w', run, after, only, count⟩ := keeps'.deleteBlock sound small mapped
        fun s inside => delete_inside (by omega)
      rw [if_pos whole, bind_of_run run, ite_run]
      by_cases failed : status ≠ .noErr
      · rw [if_pos failed]
        exact ⟨_, w', rfl, after, only⟩
      · rw [if_neg failed]
        refine ⟨.noErr, w', ?_, after, only⟩
        unfold mergeDeleted
        exact if_neg (count ▸ counter)
    · obtain ⟨w₁, run, marked⟩ := markSectors_sound sound p sector secCount w
      obtain ⟨after, only, table⟩ := keeps'.markSectors some fits mapped
        (fun s low high => delete_inside ⟨low, high⟩) marked
      obtain ⟨previous, count⟩ := marked.counted
      rw [if_neg whole, bind_of_run run]
      by_cases full : w₁.uDelPageOfBlock = card.uPagePerBlock
      · have gone : ∀ s < card.uSectorPerBlock,
            cells.delete (card.number block sector) secCount (card.number block s) =
              .deleted := by
          intro s inside
          by_contra left
          refine safe ⟨p, mapped, ?_⟩
          rw [if_neg whole]
          refine ⟨count.symm.trans full, s, inside, fun flag => left ?_, fun covers => left ?_⟩
          · exact delete_deleted (keeps.marked block p mapped s inside flag)
          · exact delete_inside (covers s rfl)
        obtain ⟨status, w', run', after', only', -⟩ := after.deleteBlock sound small
          (table ▸ mapped) gone
        refine ⟨status, w', ?_, after', only.trans only' fun v => .inl rfl⟩
        unfold mergeDeleted
        rw [if_pos full, previous]
        exact run'
      · refine ⟨.noErr, w₁, ?_, after, only⟩
        unfold mergeDeleted
        exact if_neg full

/-! ### Ranges -/

/-- The calls of `mark_block_data` that a deletion makes, each with the state it is made in. -/
def deleteTurns (card : Card) : List Request → World → List (Request × World)
  | [], _ => []
  | r :: rest, w => (r, w) ::
    match markBlockData card r.zone r.block r.sector r.count w with
    | none => []
    | some (_, w') => deleteTurns card rest w'

theorem delete_parts (cells : Cells) (u m n : Nat) :
    (cells.delete u m).delete (u + m) n = cells.delete u (m + n) := by
  funext v
  unfold Cells.delete
  by_cases first : u ≤ v ∧ v < u + m
  · rw [if_pos first, if_pos (by omega : u ≤ v ∧ v < u + (m + n))]
    split
    · rfl
    · rfl
  · rw [if_neg first]
    exact if_congr (by omega) rfl rfl

theorem deleteRequests_keeps (sound : card.FaultFree) {stop pageCount count fuel offset : Nat}
    (fits : Fits card stop 0 block sector pageCount count) (within : stop ≤ card.capacity)
    (enough : count < fuel) (keeps : Keeps card cells w)
    (safe : ∀ t ∈ deleteTurns card
      (requestsFrom card fuel 0 block sector pageCount count offset) w,
      ¬ Overcounts card t.2 t.1.block t.1.sector t.1.count) :
    ∃ w', deleteRequests (markBlockData card)
        (requestsFrom card fuel 0 block sector pageCount count offset) w = some ((), w') ∧
      Keeps card (cells.delete (card.number block sector) count) w' ∧
      OnlyDeleted card (cells.delete (card.number block sector) count) w w' := by
  induction fuel generalizing block sector pageCount count offset w cells with
  | zero => omega
  | succ fuel ih =>
    have positive := fits.positive
    have le := fits.le_count
    rw [requestsFrom] at safe ⊢
    dsimp only at safe ⊢
    rw [deleteTurns] at safe
    obtain ⟨status, v, made, first, only⟩ := keeps.mark sound fits.block_lt positive fits.within
      (safe _ List.mem_cons_self)
    rw [deleteRequests, bind_of_run made]
    rw [made] at safe
    by_cases more : count - pageCount = 0
    · have all : pageCount = count := by omega
      rw [if_pos more]
      rw [all] at first only
      exact ⟨v, rfl, first, only⟩
    · have next := fits.next_block within more
      have whole := fits.whole more
      have behind := fits.next more next (Nat.add_assoc _ _ _).symm
      rw [if_neg more, if_neg (Nat.not_le_of_lt next)] at safe ⊢
      obtain ⟨w', run, last, only'⟩ := ih behind (by omega) first
        fun t mem => safe t (List.mem_cons_of_mem _ mem)
      have place : card.number (block + 1) 0 = card.number block sector + pageCount := by
        rw [Card.number, Card.number, Nat.succ_mul]
        omega
      rw [place, delete_parts, Nat.add_sub_cancel' le] at last only'
      refine ⟨w', run, last, only.trans only' fun v => ?_⟩
      unfold Cells.delete
      by_cases here : card.number block sector ≤ v ∧ v < card.number block sector + count
      · exact .inr (if_pos here)
      · rw [if_neg here, if_neg (by omega)]
        exact .inl rfl

/-! ### Calls one after another -/

/-- One of the entry points, or `fmiSMDelete` for a disk. -/
inductive Action
  | entry (e : Entry)
  | delete (pDiskSM pDiskSMP ptPDisk uSector uSecCount : Nat)

/-- A call for a range of the zone that reports no error; `fmiSMDelete` reports none. -/
def Action.Succeeds (card : Card) (w : World) (a : Action) (w' : World) : Prop :=
  match a with
  | .entry e => e.Succeeds card w w'
  | .delete pDiskSM pDiskSMP ptPDisk uSector uSecCount => 0 < uSecCount ∧
      uSector + card.uReservedBaseSector + uSecCount ≤ card.capacity ∧
      fmiSMDelete card pDiskSM pDiskSMP ptPDisk uSector uSecCount w = some ((), w')

def Action.Safe (card : Card) (w : World) (a : Action) : Prop :=
  match a with
  | .entry e => e.Safe card w
  | .delete pDiskSM pDiskSMP ptPDisk uSector uSecCount =>
    ptPDisk = pDiskSM ∧ ptPDisk = pDiskSMP →
      ∀ t ∈ deleteTurns card (requests card (uSector + card.uReservedBaseSector) uSecCount) w,
        ¬ Overcounts card t.2 t.1.block t.1.sector t.1.count

/-- The cells behind a call. Unless the disk is both of the card's disks, nothing is deleted. -/
def Action.leaves (card : Card) (cells : Cells) (a : Action) : Cells :=
  match a with
  | .entry e => e.leaves cells
  | .delete pDiskSM pDiskSMP ptPDisk uSector uSecCount =>
    if ptPDisk = pDiskSM ∧ ptPDisk = pDiskSMP then
      cells.delete (uSector + card.uReservedBaseSector) uSecCount
    else cells

/-- What a call may take away: a read or a write no block, a deletion only deleted ones. -/
def Action.Spares (card : Card) (cells : Cells) (w w' : World) (a : Action) : Prop :=
  match a with
  | .entry _ => ∀ l, w.l2p l ≠ none → w'.l2p l ≠ none
  | .delete .. => OnlyDeleted card (a.leaves card cells) w w'

theorem Keeps.entry_spares (keeps : Keeps card cells w) (sound : card.FaultFree) {e : Entry}
    (safe : e.Safe card w) (step : e.Succeeds card w w') {l : Nat} (here : w.l2p l ≠ none) :
    w'.l2p l ≠ none := by
  cases e with
  | init => cases step
  | read uSector uBufcnt buff =>
    obtain ⟨some, within, data, run⟩ := step
    rw [fmiSMRead_run keeps.scanned some within] at run
    cases run
    exact here
  | write uSector uBufcnt buff =>
    obtain ⟨some, within, run⟩ := step
    have update : ∀ {v v' : World} {r : Request} {buff : Nat → Sector} {status : Status},
        (∃ cells, Keeps card cells v) → r.block < l2pTableSize → r.count ≠ 0 →
          r.sector + r.count ≤ card.uSectorPerBlock → ¬ Loses card v r.block r.sector r.count →
          updateBlock card 0 r.block r.sector r.count buff v = Option.some (status, v') →
          (∃ cells, Keeps card cells v') ∧ ∀ l, v.l2p l ≠ none → v'.l2p l ≠ none := by
      intro v v' r buff status held small count fits harmless called
      obtain ⟨cells, held⟩ := held
      exact ⟨⟨_, held.update sound small count fits harmless called⟩, fun l here =>
        held.update_mapped sound small count fits called here⟩
    exact (fmiSMWrite_relates (fun _ _ here => here) (fun first second l here =>
      second l (first l here)) update some within ⟨cells, keeps⟩ safe run).2 l here

theorem Keeps.action (keeps : Keeps card cells w) (sound : card.FaultFree) {a : Action}
    (safe : a.Safe card w) (step : a.Succeeds card w w') :
    Keeps card (a.leaves card cells) w' ∧ a.Spares card cells w w' := by
  cases a with
  | entry e => exact ⟨keeps.entry sound safe step, fun l => keeps.entry_spares sound safe step⟩
  | delete pDiskSM pDiskSMP ptPDisk uSector uSecCount =>
    obtain ⟨some, within, run⟩ := step
    rw [fmiSMDelete, fmiSMDeleteWith] at run
    rw [Action.Spares, Action.leaves]
    by_cases handled : ptPDisk = pDiskSM ∧ ptPDisk = pDiskSMP
    · obtain ⟨zone, fits, place⟩ := fits_zone some within
      have turns := safe handled
      rw [requests, zone] at turns
      rw [ite_run, if_neg (not_or.mpr ⟨not_not.mpr handled.1, not_not.mpr handled.2⟩),
        if_pos handled.2, requests, zone] at run
      rw [if_pos handled]
      obtain ⟨v, made, after, only⟩ := deleteRequests_keeps sound fits within
        (Nat.lt_succ_self uSecCount) keeps turns
      rw [made] at run
      cases run
      rw [place] at after only
      exact ⟨after, only⟩
    · rw [ite_run, if_pos (by tauto)] at run
      cases run
      rw [if_neg handled]
      exact ⟨keeps, fun l p mapped => .inl (keeps.stays mapped ⟨[], by simp, by simp⟩)⟩

theorem Keeps.actions (sound : card.FaultFree) {actions : List Action}
    (run : Run (Guarded (Action.Safe card) fun v a v' => a.Succeeds card v v') w actions w')
    (keeps : Keeps card cells w) : Keeps card (actions.foldl (Action.leaves card) cells) w' := by
  induction run generalizing cells with
  | nil => exact keeps
  | cons step rest ih => exact ih (keeps.action sound step.1 step.2).1

end Rovio.Nand
