import Rovio.Nand.Atomicity
import Rovio.Nand.Marks

/-! What the sectors of the logical blocks hold, and that an update without failures keeps the
table, the free list and the flash in accordance with it. -/
namespace Rovio.Nand

open Kit

variable {card : Card}

/-- What has been done to a sector last. -/
inductive Cell
  | never
  | deleted
  | holds (x : Sector)

/-- A deleted sector may show anything. -/
def Cell.Shows : Cell → Sector → Prop
  | never, x => x = blankSector
  | deleted, _ => True
  | holds y, x => x = y

/-- The sectors of the card by their numbers. -/
abbrev Cells := Nat → Cell

/-- The number of a sector of a logical block. -/
def Card.number (card : Card) (block s : Nat) : Nat := block * card.uSectorPerBlock + s

def Cells.write (cells : Cells) (uSector count : Nat) (buff : Nat → Sector) : Cells :=
  fun v => if uSector ≤ v ∧ v < uSector + count then .holds (buff (v - uSector)) else cells v

def Cells.delete (cells : Cells) (uSector count : Nat) : Cells :=
  fun v => if uSector ≤ v ∧ v < uSector + count then .deleted else cells v

/-- The state between two calls: a block is mapped once or listed once, what is listed as erased
is erased, and the marks of a mapped block are such that a later write can trust them. -/
structure Consistent (card : Card) (w : World) : Prop where
  scanned : w.smZone.isScan
  nodup : (w.free.map Node.block).Nodup
  apart : ∀ l, ∀ node ∈ w.free, w.l2p l ≠ some node.block
  alone : ∀ l l' p, w.l2p l = some p → w.l2p l' = some p → l = l'
  clear : ∀ node ∈ w.free, node.status = false → ∀ i < card.uPagePerBlock,
    (w.flash (node.block * card.uPagePerBlock + i)).Clear card
  honest : ∀ l p, w.l2p l = some p → ∀ i < card.uPagePerBlock,
    (w.flash (p * card.uPagePerBlock + i)).Honest card

/-- A consistent state that has the sectors. -/
structure Keeps (card : Card) (cells : Cells) (w : World) : Prop extends Consistent card w where
  shows : ∀ l p, w.l2p l = some p → ∀ s < card.uSectorPerBlock,
    (cells (card.number l s)).Shows (stored card w.flash p s)
  marked : ∀ l p, w.l2p l = some p → ∀ s < card.uSectorPerBlock,
    flagBytes (card.pageAt w.flash p s).mark = 0xfcfc00#32 → cells (card.number l s) = .deleted
  unmapped : ∀ l, w.l2p l = none → ∀ s < card.uSectorPerBlock, ∀ x,
    cells (card.number l s) ≠ .holds x

/-- A partial write to a block that has to be moved takes in a part of a page that the block has
not used: `update_page_data` leaves the flag of such a page unset. -/
def Loses (card : Card) (w : World) (block sector secCount : Nat) : Prop :=
  card.u2KPageSize = true ∧ secCount ≠ card.uSectorPerBlock ∧ ∃ p, w.l2p block = some p ∧
    pagesUsed2K w.flash (p * card.uPagePerBlock + sector / 4) (pageRuns (sector % 4) secCount) ∧
    PartlyNew card w.flash p sector secCount

theorem columnOf_lt (card : Card) (s : Nat) : card.columnOf s < card.columns := by
  unfold Card.columnOf Card.columns
  split
  · exact Nat.mod_lt _ (by decide)
  · decide

theorem pagesUsed2K_congr {f g : Flash} {runs : List (Nat × Nat)} {page : Nat}
    (same : ∀ j < runs.length, f (page + j) = g (page + j)) :
    pagesUsed2K f page runs = pagesUsed2K g page runs := by
  induction runs generalizing page with
  | nil => rfl
  | cons run runs ih =>
    have first : f page = g page := same 0 (Nat.zero_lt_succ _)
    have rest := @ih (page + 1) fun j small => by
      rw [Nat.add_assoc, Nat.add_comm 1 j]
      exact same (j + 1) (Nat.succ_lt_succ small)
    rw [pagesUsed2K, pagesUsed2K, first, rest]

/-- Without failures the block at the head of the list is taken. -/
theorem takeFree_sound (sound : card.FaultFree) {n fb : Nat} {nodes rest : List Node}
    {es : List Event} (out : takeFree card n nodes = some (es, fb, rest)) :
    ∃ node, nodes = node :: rest ∧ node.block = fb ∧
      (es = [] ∧ node.status = false ∨ es = [⟨.erase fb, .ok⟩]) := by
  cases nodes with
  | nil => cases out
  | cons node next =>
    rw [takeFree] at out
    dsimp only at out
    rw [sound, if_neg (show ¬ Outcome.ok.status = Status.stateError by decide)] at out
    split at out
    case isTrue =>
      cases out
      exact ⟨node, rfl, rfl, .inr rfl⟩
    case isFalse clean =>
      cases out
      exact ⟨node, rfl, rfl, .inl ⟨rfl, eq_false_of_ne_true clean⟩⟩

/-- What has been taken from the free list, with the flash as the erase of it leaves it. -/
structure Took (card : Card) (w : World) (flash : Flash) (fb : Nat) (rest : List Node) : Prop where
  sub : ∀ node ∈ rest, node ∈ w.free
  nodup : (rest.map Node.block).Nodup
  gone : fb ∉ rest.map Node.block
  unmapped : ∀ l, w.l2p l ≠ some fb
  clear : ∀ i < card.uPagePerBlock, (flash (fb * card.uPagePerBlock + i)).Clear card
  same : ∀ n, n / card.uPagePerBlock ≠ fb → flash n = w.flash n

variable {cells : Cells} {w w' : World} {flash : Flash} {block fb sector secCount : Nat}
  {rest : List Node} {buff : Nat → Sector}

theorem Keeps.took (keeps : Keeps card cells w) (sound : card.FaultFree) {es : List Event}
    (out : takeFree card w.log.length w.free = some (es, fb, rest)) :
    Took card w (replay card.uPagePerBlock w.flash es) fb rest := by
  obtain ⟨node, free, rfl, erased⟩ := takeFree_sound sound out
  have nodup := keeps.nodup
  rw [free, List.map_cons, List.nodup_cons] at nodup
  have listed : node ∈ w.free := by
    rw [free]
    exact List.mem_cons_self
  refine ⟨fun other mem => ?_, nodup.2, nodup.1, fun l => keeps.apart l node listed, ?_, ?_⟩
  · rw [free]
    exact List.mem_cons_of_mem _ mem
  · intro i inside
    rcases erased with ⟨rfl, clean⟩ | rfl
    · exact keeps.clear node listed clean i inside
    · have here := @block_of_page _ node.block _ inside
      rw [replay_cons, replay_nil, Event.apply]
      dsimp only
      rw [if_pos here]
      exact Page.erased_clear
  · intro n away
    apply replay_other
    intro e mem
    rcases erased with ⟨rfl, -⟩ | rfl
    · cases mem
    · rw [List.mem_singleton.mp mem, erase_block]
      exact Ne.symm away

/-- The old block goes and another one takes its place. -/
theorem Keeps.rebuild (keeps : Keeps card cells w) (took : Took card w flash fb rest)
    {cells' : Cells} (scanned : w'.smZone.isScan)
    (table : w'.l2p = Function.update w.l2p block (some fb))
    (free : w'.free = rest ∨ ∃ p, w.l2p block = some p ∧ w'.free = rest ++ [⟨p, false⟩])
    (others : ∀ n, n / card.uPagePerBlock ≠ fb → w.l2p block ≠ some (n / card.uPagePerBlock) →
      w'.flash n = w.flash n)
    (old : ∀ p, w.l2p block = some p → ∀ i < card.uPagePerBlock,
      (w'.flash (p * card.uPagePerBlock + i)).Clear card)
    (new : ∀ i < card.uPagePerBlock, (w'.flash (fb * card.uPagePerBlock + i)).Live card)
    (shows : ∀ s < card.uSectorPerBlock, (cells' (card.number block s)).Shows (stored card w'.flash fb s))
    (frame : ∀ l ≠ block, ∀ s < card.uSectorPerBlock,
      cells' (card.number l s) = cells (card.number l s)) : Keeps card cells' w' := by
  have mapped : ∀ l p, w'.l2p l = some p → l = block ∧ p = fb ∨ l ≠ block ∧ w.l2p l = some p := by
    intro l p here
    rw [table] at here
    by_cases same : l = block
    · subst same
      rw [Function.update_self] at here
      exact .inl ⟨rfl, (Option.some.inj here).symm⟩
    · rw [Function.update_of_ne same] at here
      exact .inr ⟨same, here⟩
  -- the pages of a block that stays mapped
  have page : ∀ l p, l ≠ block → w.l2p l = some p → ∀ i < card.uPagePerBlock,
      w'.flash (p * card.uPagePerBlock + i) = w.flash (p * card.uPagePerBlock + i) := by
    intro l p other here i inside
    have place := @block_of_page _ p _ inside
    refine others _ (fun same => ?_) (fun same => ?_)
    · rw [place] at same
      exact took.unmapped l (same ▸ here)
    · rw [place] at same
      exact other (keeps.alone l block p here same)
  have listed : ∀ node ∈ w'.free, node ∈ rest ∨ node.status = false ∧
      w.l2p block = some node.block := by
    intro node mem
    rcases free with same | ⟨p, old, same⟩
    · exact .inl (same ▸ mem)
    · rw [same, List.mem_append, List.mem_singleton] at mem
      rcases mem with before | rfl
      · exact .inl before
      · exact .inr ⟨rfl, old⟩
  refine ⟨⟨scanned, ?_, ?_, ?_, ?_, ?_⟩, ?_, ?_, ?_⟩
  · rcases free with same | ⟨p, old, same⟩
    · rw [same]
      exact took.nodup
    · rw [same, List.map_append, List.map_singleton]
      refine took.nodup.append (List.nodup_singleton _) ?_
      intro b mem here
      obtain ⟨node, inRest, rfl⟩ := List.mem_map.mp mem
      refine keeps.apart block node (took.sub node inRest) ?_
      rw [List.mem_singleton.mp here]
      exact old
  · intro l node mem here
    rcases mapped l _ here with ⟨rfl, fb⟩ | ⟨other, here⟩
    · rcases listed node mem with inRest | ⟨-, old⟩
      · exact took.gone (fb ▸ List.mem_map_of_mem inRest)
      · exact took.unmapped _ (fb ▸ old)
    · rcases listed node mem with inRest | ⟨-, old⟩
      · exact keeps.apart l node (took.sub node inRest) here
      · exact other (keeps.alone l block _ here old)
  · intro l l' p here here'
    rcases mapped l p here with ⟨rfl, rfl⟩ | ⟨other, here⟩
    · rcases mapped l' p here' with ⟨rfl, -⟩ | ⟨-, here'⟩
      · rfl
      · exact absurd here' (took.unmapped l')
    · rcases mapped l' p here' with ⟨rfl, rfl⟩ | ⟨other', here'⟩
      · exact absurd here (took.unmapped l)
      · exact keeps.alone l l' p here here'
  · intro node mem clean i inside
    rcases listed node mem with inRest | ⟨-, freed⟩
    · have place := @block_of_page _ node.block _ inside
      rw [others _ (fun same => ?_) (fun same => ?_)]
      · exact keeps.clear node (took.sub node inRest) clean i inside
      · rw [place] at same
        exact took.gone (same ▸ List.mem_map_of_mem inRest)
      · rw [place] at same
        exact keeps.apart block node (took.sub node inRest) same
    · exact old _ freed i inside
  · intro l p here i inside
    rcases mapped l p here with ⟨rfl, rfl⟩ | ⟨other, here⟩
    · exact (new i inside).toHonest
    · rw [page l p other here i inside]
      exact keeps.honest l p here i inside
  · intro l p here s inside
    rcases mapped l p here with ⟨rfl, rfl⟩ | ⟨other, here⟩
    · exact shows s inside
    · rw [frame l other s inside, stored_of_page (page l p other here _ (pageOf_lt inside))]
      exact keeps.shows l p here s inside
  · intro l p here s inside gone
    rcases mapped l p here with ⟨rfl, rfl⟩ | ⟨other, here⟩
    · exact absurd gone (new _ (pageOf_lt inside)).live
    · rw [frame l other s inside]
      refine keeps.marked l p here s inside ?_
      rw [Card.pageAt, ← page l p other here _ (pageOf_lt inside)]
      exact gone
  · intro l none s inside x
    have other : l ≠ block := by
      rintro rfl
      rw [table, Function.update_self] at none
      cases none
    rw [table, Function.update_of_ne other] at none
    rw [frame l other s inside]
    exact keeps.unmapped l none s inside x

/-- Unused pages of the mapped block take in the request, and the block taken goes back. -/
theorem Keeps.fill (keeps : Keeps card cells w) (took : Took card w flash fb rest)
    {cells' : Cells} {p : Nat} (mapped : w.l2p block = some p) (scanned : w'.smZone.isScan)
    (table : w'.l2p = w.l2p) (free : w'.free = rest ∨ w'.free = rest ++ [⟨fb, false⟩])
    (others : ∀ n, n / card.uPagePerBlock ≠ fb → n / card.uPagePerBlock ≠ p →
      w'.flash n = w.flash n)
    (back : ∀ i < card.uPagePerBlock, (w'.flash (fb * card.uPagePerBlock + i)).Clear card)
    (filled : ∀ i < card.uPagePerBlock, (w'.flash (p * card.uPagePerBlock + i)).Honest card)
    (shows : ∀ s < card.uSectorPerBlock, (cells' (card.number block s)).Shows (stored card w'.flash p s))
    (marked : ∀ s < card.uSectorPerBlock,
      flagBytes (card.pageAt w'.flash p s).mark = 0xfcfc00#32 → cells' (card.number block s) = .deleted)
    (frame : ∀ l ≠ block, ∀ s < card.uSectorPerBlock,
      cells' (card.number l s) = cells (card.number l s)) : Keeps card cells' w' := by
  have page : ∀ l q, l ≠ block → w.l2p l = some q → ∀ i < card.uPagePerBlock,
      w'.flash (q * card.uPagePerBlock + i) = w.flash (q * card.uPagePerBlock + i) := by
    intro l q other here i inside
    have place := @block_of_page _ q _ inside
    refine others _ (fun same => ?_) (fun same => ?_)
    · rw [place] at same
      exact took.unmapped l (same ▸ here)
    · rw [place] at same
      exact other (keeps.alone l block q here (same ▸ mapped))
  have listed : ∀ node ∈ w'.free, node ∈ rest ∨ node = ⟨fb, false⟩ := by
    intro node mem
    rcases free with same | same
    · exact .inl (same ▸ mem)
    · rw [same, List.mem_append, List.mem_singleton] at mem
      exact mem
  refine ⟨⟨scanned, ?_, ?_, ?_, ?_, ?_⟩, ?_, ?_, ?_⟩
  · rcases free with same | same
    · rw [same]
      exact took.nodup
    · rw [same, List.map_append, List.map_singleton]
      refine took.nodup.append (List.nodup_singleton _) ?_
      intro b mem here
      have same : b = fb := List.mem_singleton.mp here
      exact took.gone (same ▸ mem)
  · intro l node mem
    rw [table]
    rcases listed node mem with inRest | rfl
    · exact keeps.apart l node (took.sub node inRest)
    · exact took.unmapped l
  · rw [table]
    exact keeps.alone
  · intro node mem clean i inside
    rcases listed node mem with inRest | rfl
    · have place := @block_of_page _ node.block _ inside
      rw [others _ (fun same => ?_) (fun same => ?_)]
      · exact keeps.clear node (took.sub node inRest) clean i inside
      · rw [place] at same
        exact took.gone (same ▸ List.mem_map_of_mem inRest)
      · rw [place] at same
        exact keeps.apart block node (took.sub node inRest) (same ▸ mapped)
    · exact back i inside
  · intro l q here i inside
    rw [table] at here
    by_cases same : l = block
    · subst same
      obtain rfl : p = q := Option.some.inj (mapped.symm.trans here)
      exact filled i inside
    · rw [page l q same here i inside]
      exact keeps.honest l q here i inside
  · intro l q here s inside
    rw [table] at here
    by_cases same : l = block
    · subst same
      obtain rfl : p = q := Option.some.inj (mapped.symm.trans here)
      exact shows s inside
    · rw [frame l same s inside, stored_of_page (page l q same here _ (pageOf_lt inside))]
      exact keeps.shows l q here s inside
  · intro l q here s inside gone
    rw [table] at here
    by_cases same : l = block
    · subst same
      obtain rfl : p = q := Option.some.inj (mapped.symm.trans here)
      exact marked s inside gone
    · rw [frame l same s inside]
      refine keeps.marked l q here s inside ?_
      rw [Card.pageAt, ← page l q same here _ (pageOf_lt inside)]
      exact gone
  · intro l none s inside x
    rw [table] at none
    have other : l ≠ block := by
      rintro rfl
      rw [mapped] at none
      cases none
    rw [frame l other s inside]
    exact keeps.unmapped l none s inside x

/-! ### An update -/

theorem number_inside (card : Card) (block sector secCount s : Nat) :
    (card.number block sector ≤ card.number block s ∧
      card.number block s < card.number block sector + secCount) ↔
      (sector ≤ s ∧ s < sector + secCount) := by
  unfold Card.number
  omega

theorem number_outside {l s : Nat} (other : l ≠ block) (inside : s < card.uSectorPerBlock)
    (fits : sector + secCount ≤ card.uSectorPerBlock) :
    ¬ (card.number block sector ≤ card.number l s ∧
      card.number l s < card.number block sector + secCount) := by
  unfold Card.number
  rcases Nat.lt_or_gt_of_ne other with before | behind
  · have step := Nat.mul_le_mul_right card.uSectorPerBlock (Nat.succ_le_of_lt before)
    rw [Nat.succ_mul] at step
    omega
  · have step := Nat.mul_le_mul_right card.uSectorPerBlock (Nat.succ_le_of_lt behind)
    rw [Nat.succ_mul] at step
    omega

theorem write_frame (cells : Cells) (fits : sector + secCount ≤ card.uSectorPerBlock)
    (buff : Nat → Sector) : ∀ l ≠ block, ∀ s < card.uSectorPerBlock,
      cells.write (card.number block sector) secCount buff (card.number l s) =
        cells (card.number l s) :=
  fun _ other _ inside => if_neg (number_outside other inside fits)

theorem write_inside {s : Nat} (inside : sector ≤ s ∧ s < sector + secCount) :
    cells.write (card.number block sector) secCount buff (card.number block s) =
      .holds (buff (s - sector)) := by
  have place : card.number block s - card.number block sector = s - sector := by
    unfold Card.number
    omega
  rw [Cells.write, if_pos ((number_inside card block sector secCount s).mpr inside), place]

theorem write_outside {s : Nat} (out : ¬ (sector ≤ s ∧ s < sector + secCount)) :
    cells.write (card.number block sector) secCount buff (card.number block s) =
      cells (card.number block s) :=
  if_neg (mt (number_inside card block sector secCount s).mp out)

/-- The old block, which is erased, goes to the list. -/
theorem retire_sound (sound : card.FaultFree) {old : Option Nat} {minds : Bool} {s : Status}
    {w₂ : World} (run : retire card old minds w₂ = some (s, w')) :
    w'.l2p = w₂.l2p ∧ w'.smZone.isScan = w₂.smZone.isScan ∧
      (w'.free = w₂.free ∨ ∃ p, old = some p ∧ w'.free = w₂.free ++ [⟨p, false⟩]) ∧
      ∀ n, w'.flash n = if old = some (n / card.uPagePerBlock) then .erased else w₂.flash n := by
  cases old with
  | none =>
    cases run
    exact ⟨rfl, rfl, .inl rfl, fun n => (if_neg (by rintro ⟨⟩)).symm⟩
  | some p =>
    rw [retire_run] at run
    have fine : verdict (w₂.attempts card [.erase p]) = .noErr := by
      rw [verdict_one, sound]
      rfl
    simp only [fine, ne_eq, not_true_eq_false, and_false, if_false] at run
    have pages : ∀ n, (w₂.push card (w₂.attempts card [.erase p])).flash n =
        if some p = some (n / card.uPagePerBlock) then .erased else w₂.flash n := by
      intro n
      rw [attempts_one, sound, push_flash, replay_cons, replay_nil, Event.apply]
      simp only [Outcome.erase, Option.some.injEq, eq_comm]
    rw [smAddFreeBlock_run] at run
    split at run
    · cases run
      exact ⟨rfl, rfl, .inr ⟨p, rfl, rfl⟩, pages⟩
    · cases run
      exact ⟨rfl, rfl, .inl rfl, pages⟩

/-- The plan leaves honest pages, where it is not the move that loses a part of a page. -/
theorem plan_pages {old : Option Nat} (some : secCount ≠ 0)
    (honest : ∀ p, old = Option.some p → ∀ i < card.uPagePerBlock,
      (flash (p * card.uPagePerBlock + i)).Honest card)
    (safe : ∀ p, old = Option.some p → card.u2KPageSize = true → secCount ≠ card.uSectorPerBlock →
      pagesUsed2K flash (p * card.uPagePerBlock + sector / 4) (pageRuns (sector % 4) secCount) →
      ¬ PartlyNew card flash p sector secCount) :
    match plan card flash block fb old sector secCount buff with
    | .build b => Fresh card fb b
    | .fill ops => ∃ p, old = Option.some p ∧ Topped card flash p ops := by
  unfold plan
  cases size : card.u2KPageSize with
  | false =>
    simp only [Bool.false_eq_true, if_false, plan512]
    by_cases whole : secCount = card.uSectorPerBlock
    · rw [if_pos whole]
      exact full512_fresh old secCount buff
    · rw [if_neg whole]
      cases old with
      | none => exact new512_fresh
      | some p =>
        dsimp only
        cases free : pagesUsed512 flash (p * card.uPagePerBlock + sector) secCount with
        | true => exact move512_fresh
        | false => exact ⟨p, rfl, fill512_topped (honest p rfl) free⟩
  | true =>
    simp only [if_true, plan2K]
    by_cases whole : secCount = card.uSectorPerBlock
    · rw [if_pos whole]
      exact full2K_fresh old buff
    · rw [if_neg whole]
      cases old with
      | none => exact new2K_fresh size some
      | some p =>
        dsimp only
        cases free : pagesUsed2K flash (p * card.uPagePerBlock + sector / 4)
          (pageRuns (sector % 4) secCount) with
        | true => exact move2K_fresh size some (honest p rfl) (safe p rfl size whole free)
        | false => exact ⟨p, rfl, fill2K_topped size some (honest p rfl) free⟩

/-- The table, the list and the flash as the sectors have it after the write. -/
theorem Keeps.built (keeps : Keeps card cells w) (took : Took card w flash fb rest)
    (sound : card.FaultFree) (some : secCount ≠ 0)
    (fits : sector + secCount ≤ card.uSectorPerBlock) (w₁ : World) {b : Build} {status : Status}
    (before : w₁.flash = flash) (table : w₁.l2p = w.l2p) (free : w₁.free = rest)
    (scanned : w₁.smZone.isScan)
    (planned : Planned card flash block fb (w.l2p block) sector secCount buff (.build b))
    (fresh : Fresh card fb b)
    (retired : retire card (w.l2p block) b.minds (w₁.afterScript card b block fb) =
      Option.some (status, w')) :
    Keeps card (cells.write (card.number block sector) secCount buff) w' := by
  obtain ⟨table', scanned', free', pages⟩ := retire_sound sound retired
  have kept : ∀ op ∈ b.steps.map Step.op, op.isErase = false :=
    fun _ mem => (planned.onNew some fits mem).1
  have fine : ∀ e ∈ w₁.attempts card (b.steps.map Step.op), e.out.isOk := by
    intro e mem
    rw [sound.attempts mem]
    rfl
  have script : ∀ n, (w₁.afterScript card b block fb).flash n =
      (contents n (b.steps.map Step.op)).foldl Page.program (flash n) := by
    intro n
    rw [← before]
    exact push_ok fine kept
  -- the script programs no page of another block
  have quiet : ∀ n, n / card.uPagePerBlock ≠ fb →
      (w₁.afterScript card b block fb).flash n = w.flash n := by
    intro n away
    rw [← took.same n away, ← before]
    apply replay_other
    intro e mem
    rw [(planned.onNew some fits (mem_attempts mem)).2]
    exact Ne.symm away
  have other : w.l2p block ≠ Option.some fb := took.unmapped block
  have onNew : ∀ i < card.uPagePerBlock, w'.flash (fb * card.uPagePerBlock + i) =
      (contents (fb * card.uPagePerBlock + i) (b.steps.map Step.op)).foldl Page.program
        (flash (fb * card.uPagePerBlock + i)) := by
    intro i inside
    rw [pages, block_of_page inside, if_neg other, script]
  have merged := planned.merged some fits fun s inside =>
    (took.clear _ (pageOf_lt inside)).data _ (columnOf_lt card s)
  have sectors : ∀ s < card.uSectorPerBlock, stored card w'.flash fb s =
      Nand.built card flash fb b s := by
    intro s inside
    rw [stored, Card.pageAt, onNew _ (pageOf_lt inside)]
    rfl
  refine keeps.rebuild took (scanned'.trans scanned) ?_ ?_ ?_ ?_ ?_ ?_
    (write_frame cells fits buff)
  · rw [table']
    change Function.update w₁.l2p block (Option.some fb) = _
    rw [table]
  · rw [← free]
    exact free'
  · intro n away unmapped
    rw [pages, if_neg unmapped]
    exact quiet n away
  · intro p old i inside
    rw [pages, block_of_page inside, if_pos old]
    exact Page.erased_clear
  · intro i inside
    obtain ⟨content, takes, used⟩ := fresh i inside
    rw [onNew i inside]
    exact takes.live (took.clear i inside) used
  · intro s inside
    rw [sectors s inside]
    by_cases within : sector ≤ s ∧ s < sector + secCount
    · rw [write_inside within]
      exact merged.written s within.1 within.2
    · rw [write_outside within]
      cases old : w.l2p block with
      | none =>
        have blank := merged.fresh old s inside within
        have nothing := keeps.unmapped block old s inside
        cases here : cells (card.number block s) with
        | never => exact blank
        | deleted => trivial
        | holds x => exact absurd here (nothing x)
      | some p =>
        have shown := keeps.shows block p old s inside
        have same : stored card flash p s = stored card w.flash p s := by
          refine stored_of_page (took.same _ fun same => ?_)
          rw [block_of_page (pageOf_lt inside)] at same
          exact other (same ▸ old)
        have page : card.pageAt flash p s = card.pageAt w.flash p s := by
          refine took.same _ fun same => ?_
          rw [block_of_page (pageOf_lt inside)] at same
          exact other (same ▸ old)
        rcases merged.kept p old s inside within with kept | ⟨big, blank, unused⟩
        · rw [kept, same]
          exact shown
        -- a page that is left out holds nothing, or has been deleted
        · rw [page] at unused
          have honest := keeps.honest block p old _ (pageOf_lt inside)
          rcases honest.flag big with free | used | gone
          · have erased : stored card w.flash p s = blankSector :=
              honest.blank _ (columnOf_lt card s) fun held => held.1 free
            rw [blank, ← erased]
            exact shown
          · exact absurd used unused
          · rw [keeps.marked block p old s inside gone]
            trivial

/-- A sector that is neither in use nor deleted is left to a later write. -/
theorem Page.Honest.not_holds {b s : Nat}
    (honest : (card.pageAt flash b s).Honest card) (unused : ¬ inUse card flash b s)
    (live : ¬ deleted card flash b s) : ¬ (card.pageAt flash b s).holds card (card.columnOf s) := by
  rintro ⟨marked, bit⟩
  unfold inUse at unused
  unfold deleted at live
  cases size : card.u2KPageSize with
  | false => simp [size, marked] at unused
  | true =>
    rcases honest.flag size with free | used | gone
    · exact marked free
    · simp [size, used, bit size] at unused
    · simp [size, gone] at live

theorem Keeps.filled (keeps : Keeps card cells w) (took : Took card w flash fb rest)
    (fits : sector + secCount ≤ card.uSectorPerBlock) (w₁ : World) {ops : List Op} {p : Nat} {status : Status} (before : w₁.flash = flash) (table : w₁.l2p = w.l2p) (free : w₁.free = rest)
    (scanned : w₁.smZone.isScan) (mapped : w.l2p block = some p)
    (fills : Fills card flash p sector secCount buff ops) (topped : Topped card flash p ops)
    (clean : ∀ e ∈ w₁.attempts card ops, e.out.isOk)
    (freed : smAddFreeBlock card 0 fb false (w₁.push card (w₁.attempts card ops)) =
      some (status, w')) : Keeps card (cells.write (card.number block sector) secCount buff) w' := by
  obtain ⟨table', scanned', free', same'⟩ : w'.l2p = w₁.l2p ∧
      w'.smZone.isScan = w₁.smZone.isScan ∧
      (w'.free = w₁.free ∨ w'.free = w₁.free ++ [⟨fb, false⟩]) ∧
      w'.flash = (w₁.push card (w₁.attempts card ops)).flash := by
    rw [smAddFreeBlock_run] at freed
    split at freed
    · cases freed
      exact ⟨rfl, rfl, .inr rfl, rfl⟩
    · cases freed
      exact ⟨rfl, rfl, .inl rfl, rfl⟩
  have other : p ≠ fb := fun same => took.unmapped block (same ▸ mapped)
  have script : ∀ n, w'.flash n = (contents n ops).foldl Page.program (flash n) := by
    intro n
    rw [same', ← before]
    exact push_ok clean fun op mem => (fills.onOld op mem).1
  have quiet : ∀ n, n / card.uPagePerBlock ≠ p → w'.flash n = flash n := by
    intro n away
    rw [same', ← before]
    apply replay_other
    intro e mem
    rw [(fills.onOld _ (mem_attempts mem)).2]
    exact Ne.symm away
  have old : ∀ i < card.uPagePerBlock, flash (p * card.uPagePerBlock + i) =
      w.flash (p * card.uPagePerBlock + i) := by
    intro i inside
    refine took.same _ ?_
    rw [block_of_page inside]
    exact other
  have page : ∀ i < card.uPagePerBlock,
      contents (p * card.uPagePerBlock + i) ops = [] ∧
          w'.flash (p * card.uPagePerBlock + i) = w.flash (p * card.uPagePerBlock + i) ∨
        (w'.flash (p * card.uPagePerBlock + i)).Used card := by
    intro i inside
    rw [script]
    rcases topped i inside with nothing | used
    · refine .inl ⟨nothing, ?_⟩
      rw [nothing]
      exact old i inside
    · exact .inr used
  refine keeps.fill took mapped (scanned' ▸ scanned) (table'.trans table) (free ▸ free') ?_ ?_ ?_
    ?_ ?_ (write_frame cells fits buff)
  · intro n away away'
    rw [quiet n away', took.same n away]
  · intro i inside
    rw [quiet _ (by rw [block_of_page inside]; exact Ne.symm other)]
    exact took.clear i inside
  · intro i inside
    rcases page i inside with ⟨-, same⟩ | used
    · rw [same]
      exact keeps.honest block p mapped i inside
    · exact used.toHonest
  · intro s inside
    have shown : stored card w'.flash p s = column (card.columnOf s) (card.pageAt w.flash p s)
        (contents (p * card.uPagePerBlock + card.pageOf s) ops) := by
      rw [stored, Card.pageAt, script, old _ (pageOf_lt inside)]
      rfl
    by_cases within : sector ≤ s ∧ s < sector + secCount
    · obtain ⟨content, only, data⟩ := fills.written s within.1 within.2
      have unused := fills.unused s within.1 within.2
      have honest := keeps.honest block p mapped _ (pageOf_lt inside)
      have same : card.pageAt flash p s = card.pageAt w.flash p s := old _ (pageOf_lt inside)
      have unused' : ¬ inUse card w.flash p s ∧ ¬ deleted card w.flash p s := by
        rwa [inUse, deleted, same] at unused
      -- what the marks leave to the write is erased
      have erased : (card.pageAt w.flash p s).data (card.columnOf s) = blankSector :=
        honest.blank _ (columnOf_lt card s) (honest.not_holds unused'.1 unused'.2)
      rw [write_inside within, shown, only, column_blank erased, data]
      exact rfl
    · have kept := (@column_quiet (card.columnOf s) (card.pageAt w.flash p s) _ []
        (fills.quiet s inside within)).2
      rw [write_outside within, shown]
      rw [List.nil_append] at kept
      rw [kept]
      exact keeps.shows block p mapped s inside
  · intro s inside gone
    rcases page _ (pageOf_lt inside) with ⟨nothing, same⟩ | used
    · rw [Card.pageAt, same] at gone
      rw [write_outside fun within => ?_]
      · exact keeps.marked block p mapped s inside gone
      · obtain ⟨content, only, -⟩ := fills.written s within.1 within.2
        rw [nothing] at only
        cases only
    · rw [Card.pageAt, used.used] at gone
      cases gone

/-- An update without failures of operations writes the request and nothing else, whatever status
it has. -/
theorem Keeps.update (keeps : Keeps card cells w) (sound : card.FaultFree)
    (small : block < l2pTableSize) (some : secCount ≠ 0)
    (fits : sector + secCount ≤ card.uSectorPerBlock) (safe : ¬ Loses card w block sector secCount)
    {status : Status}
    (run : updateBlock card 0 block sector secCount buff w = Option.some (status, w')) :
    Keeps card (cells.write (card.number block sector) secCount buff) w' := by
  cases out : takeFree card w.log.length w.free with
  | none =>
    rw [updateBlock_crash keeps.scanned small sector secCount buff out] at run
    cases run
  | some found =>
    obtain ⟨es, fb, rest⟩ := found
    have took := keeps.took sound out
    have other := took.unmapped block
    obtain ⟨_, _, run', updated⟩ := updateBlock_run keeps.scanned small buff some fits out other
    rw [run] at run'
    cases run'
    have planned := @plan_planned card ((w.push card es).setFree rest).flash block fb (w.l2p block)
      sector secCount buff fits
    have old : ∀ p, w.l2p block = Option.some p → ∀ i < card.uPagePerBlock,
        ((w.push card es).setFree rest).flash (p * card.uPagePerBlock + i) =
          w.flash (p * card.uPagePerBlock + i) := by
      intro p mapped i inside
      refine took.same _ fun same => ?_
      rw [block_of_page inside] at same
      exact other (same ▸ mapped)
    have pages := @plan_pages card ((w.push card es).setFree rest).flash block fb sector secCount
      buff (w.l2p block) some (fun p mapped i inside => by
        rw [old p mapped i inside]
        exact keeps.honest block p mapped i inside) (fun p mapped big whole used part => by
        refine safe ⟨big, whole, p, mapped, ?_, ?_⟩
        · rw [← used]
          refine pagesUsed2K_congr fun j within => ?_
          have length := (@rounds_of sector _ some).length
          have size : card.uSectorPerBlock = 4 * card.uPagePerBlock := if_pos big
          rw [Nat.add_assoc]
          exact (old p mapped _ (by omega)).symm
        · obtain ⟨s, t, page, covered, left, free⟩ := part
          have size : card.uSectorPerBlock = 4 * card.uPagePerBlock := if_pos big
          refine ⟨s, t, page, covered, left, ?_⟩
          rw [← old p mapped _ (by omega)]
          exact free)
    have ok : ∀ n op, (card.report n op).isOk := fun n op => by
      rw [sound n op]
      rfl
    have fine : ∀ ops, ∀ e ∈ ((w.push card es).setFree rest).attempts card ops, e.out.isOk := by
      intro ops e mem
      rw [sound.attempts mem]
      rfl
    generalize plan card ((w.push card es).setFree rest).flash block fb (w.l2p block) sector
      secCount buff = chosen at planned updated pages
    cases updated with
    | built clean retired =>
      exact keeps.built took sound some fits ((w.push card es).setFree rest) rfl rfl rfl keeps.scanned
        planned pages retired
    | givenUp failed =>
      rw [firstFailure_sound ok] at failed
      cases failed
    | regained failed =>
      rw [firstFailure_sound ok] at failed
      cases failed
    | filled clean freed =>
      obtain ⟨p, mapped, topped⟩ := pages
      obtain ⟨q, mapped', fills⟩ := planned.fills some fits
      obtain rfl : p = q := Option.some.inj (mapped.symm.trans mapped')
      exact keeps.filled took fits ((w.push card es).setFree rest) rfl rfl rfl keeps.scanned mapped fills
        topped clean freed
    | spilled bad =>
      obtain ⟨e, mem, failed⟩ := bad
      exact absurd (fine _ e mem) failed

end Rovio.Nand
