import Rovio.Nand.Merge

/-! An update of a block when flash operations fail. The driver minds the failure of some
operations and ignores others; the update is atomic exactly where no failure it ignores
reaches the block that the table then points at. -/
namespace Rovio.Nand

open Kit

variable {card : Card} {w : World} {block : Nat}

/-! ### Taking a block from the free list -/

/-- How `get_free_block` goes through the list. -/
inductive Taken (card : Card) : Nat → List Node → List Event → Nat → List Node → Prop
  | clean {n : Nat} {p : Node} {next : List Node} (erased : p.status = false) :
      Taken card n (p :: next) [] p.block next
  | erased {n : Nat} {p : Node} {next : List Node} (dirty : p.status = true)
      (good : (card.report n (.erase p.block)).status ≠ .stateError) :
      Taken card n (p :: next) [⟨.erase p.block, card.report n (.erase p.block)⟩] p.block next
  | skipped {n b : Nat} {p : Node} {next rest : List Node} {es : List Event} (dirty : p.status = true)
      (bad : (card.report n (.erase p.block)).status = .stateError)
      (behind : Taken card (n + 1) next es b rest) :
      Taken card n (p :: next) (⟨.erase p.block, card.report n (.erase p.block)⟩ :: es) b rest

section
variable {n b : Nat} {nodes rest : List Node} {es : List Event}

theorem Taken.mem (taken : Taken card n nodes es b rest) : ∃ node ∈ nodes, node.block = b := by
  induction taken with
  | clean erased => exact ⟨_, List.mem_cons_self, rfl⟩
  | erased dirty good => exact ⟨_, List.mem_cons_self, rfl⟩
  | skipped dirty bad behind ih =>
    obtain ⟨node, mem, here⟩ := ih
    exact ⟨node, List.mem_cons_of_mem _ mem, here⟩

/-- Only blocks of the list are erased on the way. -/
theorem Taken.erases (taken : Taken card n nodes es b rest) {e : Event} (mem : e ∈ es) :
    ∃ node ∈ nodes, e.op = .erase node.block := by
  induction taken with
  | clean erased => cases mem
  | erased dirty good =>
    rw [List.mem_singleton.mp mem]
    exact ⟨_, List.mem_cons_self, rfl⟩
  | skipped dirty bad behind ih =>
    rcases List.mem_cons.mp mem with rfl | later
    · exact ⟨_, List.mem_cons_self, rfl⟩
    · obtain ⟨node, inNext, op⟩ := ih later
      exact ⟨node, List.mem_cons_of_mem _ inNext, op⟩

theorem blank_erase {flash : Flash} {p c : Nat} {out : Outcome}
    (blank : p = c ∧ out = .ok ∨ p ≠ c ∧ Blank card flash c) :
    Blank card (Event.apply card.uPagePerBlock flash ⟨.erase p, out⟩) c := by
  intro s inside
  have place := @block_of_page _ c _ (pageOf_lt inside)
  rcases blank with ⟨rfl, rfl⟩ | ⟨other, blank⟩
  · simp [stored, Card.pageAt, Event.apply, place, Outcome.erase, Page.erased]
  · rw [← blank s inside]
    apply stored_of_page
    exact apply_other (fun same => other (same.trans place))

/-- Where its own erase did not fail, the block is an erased one. -/
theorem Taken.blank (taken : Taken card n nodes es b rest) {flash : Flash}
    (nodup : (nodes.map Node.block).Nodup)
    (clean : ∀ node ∈ nodes, node.status = false → Blank card flash node.block)
    (fine : ∀ e ∈ es, e.op.block card.uPagePerBlock = b → e.out.isOk) :
    Blank card (replay card.uPagePerBlock flash es) b := by
  induction taken generalizing flash with
  | clean erased => exact clean _ List.mem_cons_self erased
  | @erased n p next dirty good =>
    have ok := fine _ (List.mem_singleton_self _) rfl
    refine blank_erase (.inl ⟨rfl, ?_⟩)
    cases out : card.report n (.erase p.block) with
    | ok => rfl
    | fails fault left => simp [out, Outcome.isOk] at ok
  | @skipped n b p next rest es dirty bad behind ih =>
    rw [List.map_cons, List.nodup_cons] at nodup
    refine ih nodup.2 ?_ fun e mem => fine e (List.mem_cons_of_mem _ mem)
    intro node mem erased
    refine blank_erase (.inr ⟨?_, clean node (List.mem_cons_of_mem _ mem) erased⟩)
    intro same
    exact nodup.1 (same ▸ List.mem_map_of_mem mem)

end

/-! ### Both kinds of cards -/

theorem updateBlock_run (scanned : w.smZone.isScan) (small : block < l2pTableSize)
    {sector secCount : Nat} (buff : Nat → Sector) (some : secCount ≠ 0)
    (fits : sector + secCount ≤ card.uSectorPerBlock) {es : List Event} {fb : Nat}
    {rest : List Node}
    (taken : takeFree card w.log.length w.free = Option.some (es, fb, rest))
    (other : w.l2p block ≠ Option.some fb) :
    let w₁ := (w.push card es).setFree rest
    ∃ s w', updateBlock card 0 block sector secCount buff w = Option.some (s, w') ∧
      Updated card w₁ block fb (w.l2p block)
        (plan card w₁.flash block fb (w.l2p block) sector secCount buff) s w' := by
  unfold updateBlock plan
  cases size : card.u2KPageSize with
  | false =>
    rw [Card.uSectorPerBlock, size] at fits
    exact updateBlockData_run size scanned small buff some fits taken
  | true =>
    rw [Card.uSectorPerBlock, size] at fits
    exact updateBlockData2K_run size scanned small buff some fits taken other

theorem updateBlock_crash (scanned : w.smZone.isScan) (small : block < l2pTableSize)
    (sector secCount : Nat) (buff : Nat → Sector) (out : takeFree card w.log.length w.free = none) :
    updateBlock card 0 block sector secCount buff w = none := by
  unfold updateBlock
  split
  · exact updateBlockData2K_crash scanned small sector secCount buff out
  · exact updateBlockData_crash scanned small sector secCount buff out

/-! ### Atomic updates -/

/-- A state between two calls: the list names erased blocks, none of them twice and none of
them the one mapped, and what the marks of the mapped block leave to a write is erased. -/
structure Ready (card : Card) (w : World) (block : Nat) : Prop where
  scanned : w.smZone.isScan
  nodup : (w.free.map Node.block).Nodup
  apart : ∀ node ∈ w.free, w.l2p block ≠ some node.block
  blank : ∀ node ∈ w.free, node.status = false → Blank card w.flash node.block
  truthful : ∀ p, w.l2p block = some p → Truthful card w.flash p

/-- The old block is given back by operations on it alone. -/
theorem retire_world {old : Option Nat} {minds : Bool} {s : Status} {w w' : World}
    (run : retire card old minds w = some (s, w')) :
    ∃ es, w'.log = w.log ++ es ∧ w'.flash = replay card.uPagePerBlock w.flash es ∧
      w'.l2p = w.l2p ∧ ∀ e ∈ es, ∃ p, old = some p ∧ e.op = .erase p := by
  have freed : ∀ (p : Nat) (v : World), smAddFreeBlock card 0 p false v = some (s, w') →
      w'.log = v.log ∧ w'.flash = v.flash ∧ w'.l2p = v.l2p := by
    intro p v add
    rw [smAddFreeBlock_run] at add
    split at add
    · cases add
      exact ⟨rfl, rfl, rfl⟩
    · cases add
      exact ⟨rfl, rfl, rfl⟩
  rw [retire_run] at run
  cases old with
  | none =>
    cases run
    exact ⟨[], by simp, rfl, rfl, by simp⟩
  | some p =>
    refine ⟨w.attempts card [.erase p], ?_⟩
    have erases : ∀ e ∈ w.attempts card [.erase p], ∃ q, some p = some q ∧ e.op = .erase q :=
      fun e mem => ⟨p, rfl, List.mem_singleton.mp (mem_attempts mem)⟩
    dsimp only at run
    split at run
    · cases run
      exact ⟨rfl, rfl, rfl, erases⟩
    · obtain ⟨log, flash, table⟩ := freed p _ run
      exact ⟨log, flash, table, erases⟩

section
variable {sector secCount : Nat} {buff : Nat → Sector} {es : List Event} {fb : Nat} {rest : List Node}
  {w' : World} {status : Status}

theorem Ready.other (ready : Ready card w block)
    (taken : Taken card w.log.length w.free es fb rest) : w.l2p block ≠ some fb := by
  obtain ⟨node, listed, rfl⟩ := taken.mem
  exact ready.apart node listed

end

end Rovio.Nand
