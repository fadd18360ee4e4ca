import Rovio.Nand.Bounds

/-! `fmiReservedAreaErase`: the blocks of the reserved area are erased one after the other, up to
the first that is not mapped. -/
namespace Rovio.Nand

open Kit

/-- `fmiSetReservedAreaSizebyKB` and the end of `fmiSM_ReadID`: the reserved area is what is behind
the sectors that are left. -/
def Geometry.reserve (g : Geometry) (uSize : Nat) (report : Nat → Op → Outcome)
    (malloc : Nat → Bool) : Card :=
  let uSMReservedSector := uSize * 2
  let uSMReservedBlock := if g.u2KPageSize then uSMReservedSector / 256 else uSMReservedSector / 32
  { u2KPageSize := g.u2KPageSize
    uPagePerBlock := g.uPagePerBlock
    uBlockPerFlash := g.uBlockPerFlash - uSMReservedBlock
    uSMReservedBlock
    uReservedBaseSector := g.uSectorPerFlash - uSMReservedSector
    bIsReserved := true
    report
    malloc }

section
variable (card : Card)

/-- The loop from the relative block on. An unmapped block ends it. -/
def reservedErase (zoneNo : Nat) : Nat → Nat → Drive Status
  | 0, _ => return .noErr
  | left + 1, rblock => do
    match ← getL2P zoneNo rblock with
    | none => return .noErr
    | some pblock =>
      let status ← fmiSMBlockErase card pblock
      if status ≠ .noErr then return status
      else
        setL2P zoneNo rblock none
        reservedErase zoneNo left (rblock + 1)

/-- Nothing is returned for FMI_NO_SM_RESERVED. -/
def fmiReservedAreaErase (bIs2Disk : Bool) : Drive (Option Status) := do
  if card.bIsReserved ∧ ¬ bIs2Disk then
    let sblock := card.uReservedBaseSector / card.uSectorPerBlock
    let status ← reservedErase card (sblock / l2pTableSize) card.uSMReservedBlock
      (sblock % l2pTableSize)
    return some status
  else return none

end

section
variable {card : Card} {w w' : World} {zoneNo left rblock : Nat}

/-- What a loop without an error has done: it has erased the blocks of a stretch of mapped entries
and unmapped these. -/
structure ErasedFrom (card : Card) (left rblock : Nat) (w w' : World) (ps : List Nat) : Prop where
  count : ps.length ≤ left
  inside : ∀ i < ps.length, rblock + i < l2pTableSize
  mapped : ∀ i < ps.length, w.l2p (rblock + i) = ps[i]?
  ended : ps.length < left → w.l2p (rblock + ps.length) = none
  table : ∀ b, w'.l2p b = if rblock ≤ b ∧ b < rblock + ps.length then none else w.l2p b
  free : w'.free = w.free
  flash : ∀ n, w'.flash n = if n / card.uPagePerBlock ∈ ps then .erased else w.flash n

theorem getL2P_inv {entry : Option Nat} (run : getL2P zoneNo rblock w = some (entry, w')) :
    zoneNo = 0 ∧ rblock < l2pTableSize ∧ entry = w.l2p rblock ∧ w = w' := by
  obtain ⟨z, w'', zone, rest⟩ := bind_some.mp run
  rw [getZone] at zone
  split at zone
  case isFalse => cases zone
  case isTrue first =>
    cases zone
    rw [ite_run] at rest
    split at rest
    case isFalse => cases rest
    case isTrue inside =>
      cases rest
      exact ⟨Nat.lt_one_iff.mp first, inside, rfl, rfl⟩

theorem erase_flash {pblock : Nat} (ok : (card.report w.log.length (.erase pblock)).status = .noErr)
    (n : Nat) : (w.push card [⟨.erase pblock, card.report w.log.length (.erase pblock)⟩]).flash n =
      if n / card.uPagePerBlock = pblock then .erased else w.flash n := by
  cases out : card.report w.log.length (.erase pblock) with
  | ok => rfl
  | fails fault left =>
    rw [out] at ok
    cases fault <;> cases ok

theorem reservedErase_erased (run : reservedErase card zoneNo left rblock w = some (.noErr, w')) :
    ∃ ps, ErasedFrom card left rblock w w' ps := by
  induction left generalizing rblock w with
  | zero =>
    cases run
    exact ⟨[], Nat.le_refl 0, by rintro _ ⟨⟩, by rintro _ ⟨⟩, by rintro ⟨⟩,
      fun b => (if_neg (by simp)).symm, rfl, fun n => (if_neg List.not_mem_nil).symm⟩
  | succ left ih =>
    obtain ⟨entry, w₁, read, rest⟩ := bind_some.mp run
    obtain ⟨rfl, inside, rfl, rfl⟩ := getL2P_inv read
    cases here : w.l2p rblock with
    | none =>
      rw [here] at rest
      cases rest
      exact ⟨[], Nat.zero_le _, by rintro _ ⟨⟩, by rintro _ ⟨⟩, fun _ => here,
        fun b => (if_neg (by simp)).symm, rfl, fun n => (if_neg List.not_mem_nil).symm⟩
    | some pblock =>
      rw [here] at rest
      dsimp only at rest
      obtain ⟨status, w₂, erase, rest⟩ := bind_some.mp rest
      cases erase
      rw [ite_run] at rest
      split at rest
      case isTrue failed =>
        have answer := congrArg (fun answer => answer.map Prod.fst) rest
        exact absurd (Option.some.inj answer) failed
      case isFalse passed =>
        have ok := of_not_not passed
        rw [bind_of_run (setL2P_run inside none _)] at rest
        obtain ⟨ps, erased⟩ := ih rest
        have other (b : Nat) (differs : b ≠ rblock) : ((w.push card
            [⟨.erase pblock, card.report w.log.length (.erase pblock)⟩]).setL2P rblock none).l2p b =
              w.l2p b := Function.update_of_ne differs ..
        refine ⟨pblock :: ps, Nat.succ_le_succ erased.count, ?_, ?_, ?_, ?_, erased.free, ?_⟩
        · intro i below
          match i with
          | 0 => exact inside
          | i + 1 =>
            have next := erased.inside i (Nat.lt_of_succ_lt_succ below)
            omega
        · intro i below
          match i with
          | 0 => exact here
          | i + 1 =>
            have next := erased.mapped i (Nat.lt_of_succ_lt_succ below)
            rw [other _ (by omega)] at next
            rw [List.getElem?_cons_succ, ← next]
            exact congrArg w.l2p (by omega)
        · intro less
          have next := erased.ended (Nat.lt_of_succ_lt_succ less)
          rw [other _ (by omega)] at next
          rw [← next]
          exact congrArg w.l2p (by rw [List.length_cons]; omega)
        · intro b
          rw [erased.table b, List.length_cons]
          rcases eq_or_ne b rblock with rfl | differs
          · rw [if_neg (by omega), if_pos (by omega)]
            exact Function.update_self ..
          · rw [other b differs]
            exact if_congr (by omega) rfl rfl
        · intro n
          rw [erased.flash n]
          have first := erase_flash ok n
          by_cases again : n / card.uPagePerBlock ∈ ps
          · rw [if_pos again, if_pos (List.mem_cons_of_mem _ again)]
          · rw [if_neg again]
            refine first.trans (if_congr ?_ rfl rfl)
            rw [List.mem_cons, or_iff_left again]

theorem reservedErase_zone {status : Status}
    (run : reservedErase card zoneNo (left + 1) rblock w = some (status, w')) : zoneNo = 0 := by
  obtain ⟨entry, w₁, read, -⟩ := bind_some.mp run
  exact (getL2P_inv read).1

end

/-! ### The area -/

/-- All sectors of the logical block are reserved. -/
def Geometry.InArea (g : Geometry) (uSize b : Nat) : Prop :=
  g.uSectorPerFlash - uSize * 2 ≤ b * g.uSectorPerBlock ∧
    (b + 1) * g.uSectorPerBlock ≤ g.uSectorPerFlash

/-- The logical block in which the area begins. -/
def Geometry.firstBlock (g : Geometry) (uSize : Nat) : Nat :=
  (g.uSectorPerFlash - uSize * 2) / g.uSectorPerBlock

def World.listed (w : World) (p : Nat) : Nat := (w.free.map Node.block).count p

/-- The blocks of the area are unmapped, erased and each in the free list once; the other logical
blocks are as they were. -/
def ReservedErased (g : Geometry) (uSize : Nat) (w w' : World) : Prop :=
  (∀ b < l2pTableSize, g.InArea uSize b → w'.l2p b = none ∧ ∀ p, w.l2p b = some p →
    (∀ n, n / g.uPagePerBlock = p → w'.flash n = .erased) ∧ w'.listed p = 1) ∧
  ∀ b < l2pTableSize, ¬ g.InArea uSize b → w'.l2p b = w.l2p b ∧ ∀ p, w.l2p b = some p →
    ∀ n, n / g.uPagePerBlock = p → w'.flash n = w.flash n

/-- The block in which the area begins is not mapped unless it belongs to the area, nor is any
block of the area, or else it comes behind mapped ones only, is in the free list already, and is
blank if a block outside shares it. -/
def Vacant (g : Geometry) (uSize : Nat) (w : World) : Prop :=
  (g.uSectorPerBlock ≤ uSize * 2 → ¬ g.InArea uSize (g.firstBlock uSize) →
    w.l2p (g.firstBlock uSize) = none) ∧
  ∀ b < l2pTableSize, g.InArea uSize b → ∀ p, w.l2p b = some p →
    (∀ j, g.firstBlock uSize ≤ j → j < b → w.l2p j ≠ none) ∧ w.listed p = 1 ∧
    ∀ b' < l2pTableSize, ¬ g.InArea uSize b' → w.l2p b' = some p →
      ∀ n, n / g.uPagePerBlock = p → w.flash n = .erased

section
variable {g : Geometry} {id uSize : Nat} {w w' : World}

/-- A block has 256 or 32 sectors, and a card whole blocks. -/
theorem geometry_blocks (known : fmiSMReadID id = some g) :
    (g.u2KPageSize = true ∧ g.uPagePerBlock = 64 ∧ g.uSectorPerBlock = 256 ∧
        g.uSectorPerFlash % 256 = 0) ∨
      (g.u2KPageSize = false ∧ g.uPagePerBlock = 32 ∧ g.uSectorPerBlock = 32 ∧
        g.uSectorPerFlash % 32 = 0) := by
  unfold fmiSMReadID at known
  split at known
  all_goals cases known
  all_goals decide

theorem sectors_positive (known : fmiSMReadID id = some g) : 0 < g.uSectorPerBlock := by
  rcases geometry_blocks known with ⟨-, -, sectors, -⟩ | ⟨-, -, sectors, -⟩
  · exact sectors ▸ (by decide)
  · exact sectors ▸ (by decide)

variable {report : Nat → Op → Outcome} {malloc : Nat → Bool} {bIs2Disk : Bool}

theorem reserve_blocks (known : fmiSMReadID id = some g) (uSize : Nat)
    (report : Nat → Op → Outcome) (malloc : Nat → Bool) :
    (g.reserve uSize report malloc).uSectorPerBlock = g.uSectorPerBlock ∧
      (g.reserve uSize report malloc).uSMReservedBlock = uSize * 2 / g.uSectorPerBlock := by
  rcases geometry_blocks known with ⟨large, pages, sectors, -⟩ | ⟨small, pages, sectors, -⟩
  · simp [Geometry.reserve, Card.uSectorPerBlock, large, pages, sectors]
  · simp [Geometry.reserve, Card.uSectorPerBlock, small, pages, sectors]

/-- A call without an error has erased a stretch from the block in which the area begins. -/
theorem fmiReservedAreaErase_erased (known : fmiSMReadID id = some g)
    (run : fmiReservedAreaErase (g.reserve uSize report malloc) bIs2Disk w =
      some (some .noErr, w')) :
    ∃ ps, ErasedFrom (g.reserve uSize report malloc) (uSize * 2 / g.uSectorPerBlock)
      (g.firstBlock uSize) w w' ps := by
  obtain ⟨sectors, blocks⟩ := reserve_blocks known uSize report malloc
  rw [fmiReservedAreaErase, ite_run] at run
  split at run
  case isFalse => cases run
  case isTrue here =>
    obtain ⟨status, w₁, loop, rest⟩ := bind_some.mp run
    cases rest
    rw [blocks, sectors] at loop
    change reservedErase _ (g.firstBlock uSize / l2pTableSize) _
      (g.firstBlock uSize % l2pTableSize) w = _ at loop
    generalize uSize * 2 / g.uSectorPerBlock = left at loop
    cases left with
    | zero =>
      cases loop
      have none : reservedErase (g.reserve uSize report malloc) 0 0 (g.firstBlock uSize) w =
          some (.noErr, w) := rfl
      exact reservedErase_erased none
    | succ left =>
      have zone := reservedErase_zone loop
      have inside : g.firstBlock uSize % l2pTableSize = g.firstBlock uSize :=
        Nat.mod_eq_of_lt (by simp only [l2pTableSize] at zone ⊢; omega)
      rw [inside] at loop
      exact reservedErase_erased loop

/-- The blocks of the area are those behind the one in which it begins, and that one where the
area begins with it. -/
theorem inArea_iff (known : fmiSMReadID id = some g) (room : uSize * 2 ≤ g.uSectorPerFlash)
    {b : Nat} :
    (g.InArea uSize b → g.firstBlock uSize ≤ b) ∧
      (b < g.firstBlock uSize + uSize * 2 / g.uSectorPerBlock → g.firstBlock uSize < b →
        g.InArea uSize b) ∧
      (g.InArea uSize b → g.InArea uSize (g.firstBlock uSize) →
        b < g.firstBlock uSize + uSize * 2 / g.uSectorPerBlock) ∧
      (g.InArea uSize b → g.uSectorPerBlock ≤ uSize * 2) := by
  rcases geometry_blocks known with ⟨-, -, sectors, whole⟩ | ⟨-, -, sectors, whole⟩
  · simp only [Geometry.InArea, Geometry.firstBlock, sectors]
    omega
  · simp only [Geometry.InArea, Geometry.firstBlock, sectors]
    omega

section
variable {ps : List Nat}

theorem reserve_pages : (g.reserve uSize report malloc).uPagePerBlock = g.uPagePerBlock := rfl

/-- An entry of the stretch is mapped to the block erased for it. -/
theorem ErasedFrom.entry {card : Card} {left rblock : Nat}
    (erased : ErasedFrom card left rblock w w' ps) {b : Nat} (low : rblock ≤ b)
    (high : b < rblock + ps.length) : w.l2p b = ps[b - rblock]? := by
  have here := erased.mapped (b - rblock) (by omega)
  rwa [Nat.add_sub_cancel' low] at here

theorem ErasedFrom.mapped_ne {card : Card} {left rblock : Nat}
    (erased : ErasedFrom card left rblock w w' ps) {b : Nat} (low : rblock ≤ b)
    (high : b < rblock + ps.length) : w.l2p b ≠ none := by
  rw [erased.entry low high]
  intro none
  have past := List.getElem?_eq_none_iff.mp none
  omega

/-- Nothing outside of the area is erased for its own sake. -/
theorem ErasedFrom.inArea (known : fmiSMReadID id = some g) (room : uSize * 2 ≤ g.uSectorPerFlash)
    (erased : ErasedFrom (g.reserve uSize report malloc) (uSize * 2 / g.uSectorPerBlock)
      (g.firstBlock uSize) w w' ps)
    (first : g.uSectorPerBlock ≤ uSize * 2 → ¬ g.InArea uSize (g.firstBlock uSize) →
      w.l2p (g.firstBlock uSize) = none) {b : Nat} (low : g.firstBlock uSize ≤ b)
    (high : b < g.firstBlock uSize + ps.length) : g.InArea uSize b := by
  have count := erased.count
  rcases Nat.eq_or_lt_of_le low with rfl | behind
  · by_contra outside
    have some : 0 < uSize * 2 / g.uSectorPerBlock := by omega
    have large : g.uSectorPerBlock ≤ uSize * 2 := by
      by_contra small
      rw [Nat.div_eq_of_lt (Nat.lt_of_not_le small)] at some
      cases some
    exact erased.mapped_ne low high (first large outside)
  · exact (inArea_iff known room).2.1 (by omega) behind

/-- A mapped block of the area is erased if all that are before it are mapped. -/
theorem ErasedFrom.reaches (known : fmiSMReadID id = some g) (room : uSize * 2 ≤ g.uSectorPerFlash)
    (erased : ErasedFrom (g.reserve uSize report malloc) (uSize * 2 / g.uSectorPerBlock)
      (g.firstBlock uSize) w w' ps)
    (first : g.uSectorPerBlock ≤ uSize * 2 → ¬ g.InArea uSize (g.firstBlock uSize) →
      w.l2p (g.firstBlock uSize) = none) {b : Nat} (area : g.InArea uSize b)
    (mapped : w.l2p b ≠ none)
    (before : ∀ j, g.firstBlock uSize ≤ j → j < b → w.l2p j ≠ none) :
    g.firstBlock uSize ≤ b ∧ b < g.firstBlock uSize + ps.length := by
  have low := (inArea_iff known room).1 area
  refine ⟨low, ?_⟩
  by_contra past
  have stops : ¬ ps.length < uSize * 2 / g.uSectorPerBlock := by
    intro less
    have none := erased.ended less
    rcases Nat.eq_or_lt_of_le (Nat.le_of_not_lt past) with here | sooner
    · exact mapped (here ▸ none)
    · exact before _ (Nat.le_add_right ..) sooner none
  by_cases own : g.InArea uSize (g.firstBlock uSize)
  · have within := (inArea_iff known room).2.2.1 area own
    omega
  · have other : g.firstBlock uSize ≠ b := by
      intro same
      exact own (same ▸ area)
    have none := first ((inArea_iff known room).2.2.2 area) own
    exact before _ (Nat.le_refl _) (Nat.lt_of_le_of_ne low other) none

/-- The free list is not touched. -/
theorem ErasedFrom.listed {card : Card} {left rblock : Nat}
    (erased : ErasedFrom card left rblock w w' ps) (p : Nat) : w'.listed p = w.listed p := by
  rw [World.listed, World.listed, erased.free]

/-- An erase of the reserved area does what it should where there is nothing to erase. -/
theorem reserved_erase (known : fmiSMReadID id = some g) (room : uSize * 2 ≤ g.uSectorPerFlash)
    (run : fmiReservedAreaErase (g.reserve uSize report malloc) bIs2Disk w =
      some (some .noErr, w')) : ReservedErased g uSize w w' ↔ Vacant g uSize w := by
  obtain ⟨ps, erased⟩ := fmiReservedAreaErase_erased known run
  -- what becomes of the entry of a mapped block whose place in the table is emptied
  have emptied {b : Nat} (mapped : w.l2p b ≠ none) (after : w'.l2p b = none) :
      g.firstBlock uSize ≤ b ∧ b < g.firstBlock uSize + ps.length := by
    by_contra outside
    rw [erased.table b, if_neg outside] at after
    exact mapped after
  constructor
  · rintro ⟨inside, outside⟩
    refine ⟨fun large own => ?_, fun b small area p mapped => ?_⟩
    · by_contra mapped
      have begun : 0 < ps.length := by
        by_contra none
        have idle : ps.length = 0 := Nat.eq_zero_of_not_pos none
        have blocks : 0 < uSize * 2 / g.uSectorPerBlock :=
          Nat.div_pos large (sectors_positive known)
        have stopped := erased.ended (idle ▸ blocks)
        rw [idle, Nat.add_zero] at stopped
        exact mapped stopped
      have small : g.firstBlock uSize < l2pTableSize := erased.inside 0 begun
      have kept := (outside _ small own).1
      rw [erased.table, if_pos (by omega)] at kept
      exact mapped kept.symm
    · obtain ⟨none, former⟩ := inside b small area
      obtain ⟨blank, listed⟩ := former p mapped
      have mapped' : w.l2p b ≠ Option.none := by
        rw [mapped]
        exact Option.some_ne_none p
      obtain ⟨low, high⟩ := emptied mapped' none
      refine ⟨fun j from_ below => erased.mapped_ne from_ (by omega), ?_, ?_⟩
      · rw [← erased.listed p]
        exact listed
      · intro b' small' other shared n page
        rw [← (outside b' small' other).2 p shared n page]
        exact blank n page
  · rintro ⟨first, vacant⟩
    constructor
    · intro b small area
      cases mapped : w.l2p b with
      | none =>
        refine ⟨?_, by rintro p ⟨⟩⟩
        rw [erased.table b, mapped, ite_self]
      | some p =>
        obtain ⟨before, listed, -⟩ := vacant b small area p mapped
        have mapped' : w.l2p b ≠ none := by
          rw [mapped]
          exact Option.some_ne_none p
        obtain ⟨low, high⟩ := erased.reaches known room first area mapped' before
        have former : p ∈ ps := by
          have entry := erased.entry low high
          rw [mapped] at entry
          exact List.mem_of_getElem? entry.symm
        refine ⟨by rw [erased.table b, if_pos ⟨low, high⟩], ?_⟩
        rintro _ ⟨⟩
        refine ⟨fun n page => ?_, (erased.listed p).trans listed⟩
        rw [erased.flash n, reserve_pages, page, if_pos former]
    · intro b small other
      have away : ¬ (g.firstBlock uSize ≤ b ∧ b < g.firstBlock uSize + ps.length) :=
        fun stretch => other (erased.inArea known room first stretch.1 stretch.2)
      refine ⟨by rw [erased.table b, if_neg away], fun p mapped n page => ?_⟩
      rw [erased.flash n, reserve_pages, page]
      split
      case isFalse => rfl
      case isTrue former =>
        obtain ⟨i, below, here⟩ := List.getElem_of_mem former
        have low := Nat.le_add_right (g.firstBlock uSize) i
        have high := Nat.add_lt_add_left below (g.firstBlock uSize)
        have entry := erased.mapped i below
        rw [List.getElem?_eq_getElem below, here] at entry
        have shared := (vacant _ (erased.inside i below) (erased.inArea known room first low high) p
          entry).2.2
        exact (shared b small other mapped n page).symm

end

end

/-- A card of 999 logical blocks, the last of them reserved. -/
def smallCard : Geometry := ⟨31968, 1023, 32, 32, false⟩

def lastReserved : Card := smallCard.reserve 16 (fun _ _ => .ok) fun _ => true

/-- A card whose table maps the last block so, and nothing else. -/
def lastMapped (entry : Option Nat) : World where
  flash _ := .erased
  log := []
  smZone := ⟨true, fun b => if b = 998 then entry else none, []⟩
  uFirstL2P := true
  nPreDelBlock := none
  uDelPageOfBlock := 0
  mallocs := 0

theorem smallCard_known : fmiSMReadID 0x73 = some smallCard := rfl

theorem empty_area_run : fmiReservedAreaErase lastReserved false (lastMapped none) =
    some (some .noErr, lastMapped none) := rfl

/-- An area that is not in use. -/
theorem empty_area_erased : ReservedErased smallCard 16 (lastMapped none) (lastMapped none) := by
  refine (reserved_erase smallCard_known (by decide) empty_area_run).mpr ⟨fun _ _ => rfl, ?_⟩
  intro b small area p mapped
  simp [lastMapped] at mapped

/-- The block that was in use is erased, and lost. -/
theorem erased_block_lost : ∃ w', fmiReservedAreaErase lastReserved false (lastMapped (some 5)) =
    some (some .noErr, w') ∧ ¬ ReservedErased smallCard 16 (lastMapped (some 5)) w' := by
  refine ⟨_, rfl, fun erased => ?_⟩
  have area : smallCard.InArea 16 998 := by
    unfold Geometry.InArea
    decide
  have listed := ((erased.1 998 (by decide) area).2 5 rfl).2
  cases listed

end Rovio.Nand
