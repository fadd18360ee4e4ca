import Rovio.Nand.Transcript
import Rovio.Nand.Access

/-! Where `fmiSM_L2PTable_Init`, `fmiSM_Read` and `fmiSM_Write` reach into SM_ZONE and its tables.
An access outside of them stops the model's program. -/
namespace Rovio.Nand

open Kit

structure Geometry where
  uSectorPerFlash : Nat
  uBlockPerFlash : Nat
  uPagePerBlock : Nat
  uSectorPerBlock : Nat
  u2KPageSize : Bool

/-- `fmiSM_ReadID`, for the second byte of the ID. -/
def fmiSMReadID : Nat → Option Geometry
  | 0x79 => some ⟨255744, 8191, 32, 32, false⟩
  | 0x76 => some ⟨127872, 4095, 32, 32, false⟩
  | 0x75 => some ⟨63936, 2047, 32, 32, false⟩
  | 0xf1 | 0xa1 => some ⟨255744, 1023, 64, 256, true⟩
  | 0x73 => some ⟨31968, 1023, 32, 32, false⟩
  | 0xf2 | 0xa2 => some ⟨127744, 511, 64, 256, true⟩
  | 0xda | 0xaa => some ⟨511488, 2047, 64, 256, true⟩
  | 0xdc | 0xac => some ⟨1022976, 4095, 64, 256, true⟩
  | 0xd3 | 0xa3 => some ⟨2045952, 8191, 64, 256, true⟩
  | 0xd5 => some ⟨4091904, 16383, 64, 256, true⟩
  | _ => none

/-- The card, if nothing of it is reserved. -/
def Geometry.card (g : Geometry) (report : Nat → Op → Outcome) (malloc : Nat → Bool) : Card where
  u2KPageSize := g.u2KPageSize
  uPagePerBlock := g.uPagePerBlock
  uBlockPerFlash := g.uBlockPerFlash
  uSMReservedBlock := 0
  uReservedBaseSector := 0
  bIsReserved := false
  report
  malloc

variable (card : Card)

/-! ### The accesses -/

/-- `get_block_data`, `update_block_data` and `update_block_data_2K` up to their first access of
the table. The others are to the same entry. -/
def lookUp (zone block : Nat) : Drive (Option Nat) := do
  ensureScanned card zone
  getL2P zone block

/-- The states in which a block operation with so many retries left is called. -/
def callStates {α : Type} (failed : α → Bool) (x : Drive α) : Nat → World → List World
  | 0, w => [w]
  | retries + 1, w =>
    w :: match x w with
      | none => []
      | some (a, w') => if failed a then callStates failed x retries w' else []

/-- The calls of the block operation, each with the state in which it is made. -/
def turns {α : Type} (failed : α → Bool) (x : Request → Drive α) :
    List Request → Nat → World → List (Request × World)
  | [], _, _ => []
  | r :: rest, retries, w =>
    (callStates failed (x r) retries w).map (fun w' => (r, w')) ++
      match attempt failed (x r) retries w with
      | none => []
      | some ((a, left), w') => if failed a then [] else turns failed x rest left w'

inductive Entry
  | init
  | read (uSector uBufcnt : Nat) (buff : Nat → Sector)
  | write (uSector uBufcnt : Nat) (buff : Nat → Sector)

/-- The block operations of `fmiSM_Read` and `fmiSM_Write`. -/
def Entry.turns (w : World) : Entry → List (Request × World)
  | .init => []
  | .read uSector uBufcnt buff =>
    Nand.turns (fun a => a.1.isError)
      (fun r => getBlockData card r.zone r.block r.sector r.count r.offset buff)
      (requests card uSector uBufcnt) 2 w
  | .write uSector uBufcnt buff =>
    Nand.turns (fun s => s ≠ .noErr)
      (fun r => updateBlock card r.zone r.block r.sector r.count fun i => buff (r.offset + i))
      (requests card uSector uBufcnt) 2 w

/-- No access is outside of SM_ZONE or of a table. -/
def Entry.InBounds (w : World) (e : Entry) : Prop :=
  match e with
  | .init => (fmiSML2PTableInit card 0 w).isSome
  | e => ∀ t ∈ e.turns card w, (lookUp card t.1.zone t.1.block t.2).isSome

/-! ### The scan -/

/-- The block is neither empty nor bad nor to be erased, and has this logical number. -/
def Used (w : World) (i n : Nat) : Prop :=
  ∃ ba, getBlockAddress card i false w = some (ba, w) ∧
    ba ≠ 0xffff#16 ∧ ba ≠ 0xffee#16 ∧ ba ≠ 0x0000#16 ∧ ba ≠ 0xfcfc#16 ∧
    n = ((ba &&& 0xfff#16) >>> 1).toNat

/-- Every used block that the scan gets to has a number of the table. -/
def ScanFits (w : World) : Prop :=
  ∀ front i rest, List.range' 0 (card.eblock 0) = front ++ i :: rest →
    ∀ w', (clearZones >>= fun _ => scanBlocks card 0 front) w = some (.noErr, w') →
      ∀ n, Used card w' i n → n < l2pTableSize

theorem getBlockAddress_total (i : Nat) (flag : Bool) (w : World) :
    ∃ ba, getBlockAddress card i flag w = some (ba, w) := by
  unfold getBlockAddress
  by_cases zero : i = 0
  · exact ⟨_, by rw [ite_run, if_pos zero]; rfl⟩
  · exact ⟨_, by rw [ite_run, if_neg zero]; rfl⟩

theorem smAddFreeBlock_some (i : Nat) (flag : Bool) (w : World) :
    (smAddFreeBlock card 0 i flag w).isSome := by
  rw [smAddFreeBlock_run]
  split <;> rfl

theorem fmiCheckBlock_total (oldBlock newBlock : Nat) (w : World) :
    ∃ r w', fmiCheckBlock card oldBlock newBlock w = some (r, w') := by
  obtain ⟨oldmark, old⟩ := getBlockAddress_total card oldBlock true w
  obtain ⟨newmark, new⟩ := getBlockAddress_total card newBlock true w
  unfold fmiCheckBlock
  rw [bind_of_run old, bind_of_run new, ite_run]
  split
  · exact ⟨_, _, rfl⟩
  · rw [ite_run]
    split
    · exact ⟨_, _, rfl⟩
    · exact ⟨_, _, rfl⟩

theorem getL2P_isSome (zone block : Nat) (w : World) :
    (getL2P zone block w).isSome ↔ zone < zoneNum ∧ block < l2pTableSize := by
  by_cases here : zone < zoneNum
  · obtain rfl : zone = 0 := Nat.lt_one_iff.mp here
    by_cases small : block < l2pTableSize
    · rw [getL2P_run small]
      exact iff_of_true rfl ⟨here, small⟩
    · rw [getL2P, bind_of_run (getZone_run w), ite_run, if_neg small]
      exact iff_of_false (by rintro ⟨⟩) fun both => small both.2
  · rw [getL2P, bind_run, getZone, if_neg here]
    exact iff_of_false (by rintro ⟨⟩) fun both => here both.1

theorem used_iff {ba : BitVec 16} {i n : Nat} {w : World}
    (address : getBlockAddress card i false w = some (ba, w)) :
    Used card w i n ↔ ba ≠ 0xffff#16 ∧ ba ≠ 0xffee#16 ∧ ba ≠ 0x0000#16 ∧ ba ≠ 0xfcfc#16 ∧
      n = ((ba &&& 0xfff#16) >>> 1).toNat := by
  constructor
  · rintro ⟨b, read, used⟩
    rw [address] at read
    cases read
    exact used
  · intro used
    exact ⟨ba, address, used⟩

/-- The round of a used block: the table is read, and written where it was read. -/
theorem scanUsed_isSome (i n : Nat) (w : World) :
    (Option.isSome <| (do
      match ← getL2P 0 n with
      | some kept =>
        match ← fmiCheckBlock card kept i with
        | .error status => return status
        | .ok block =>
          setL2P 0 n (some block)
          if block = i then smAddFreeBlock card 0 block false
          else smAddFreeBlock card 0 i false
      | none =>
        setL2P 0 n (some i)
        return .noErr : Drive Status) w) ↔ n < l2pTableSize := by
  constructor
  · intro run
    by_contra large
    have stuck : getL2P 0 n w = none :=
      Option.not_isSome_iff_eq_none.mp fun h => large ((getL2P_isSome 0 n w).mp h).2
    rw [bind_run, stuck] at run
    cases run
  · intro small
    rw [bind_of_run (getL2P_run small w)]
    cases w.l2p n with
    | none =>
      dsimp only
      rw [bind_of_run (setL2P_run small _ w)]
      rfl
    | some kept =>
      dsimp only
      obtain ⟨r, w', check⟩ := fmiCheckBlock_total card kept i w
      rw [bind_of_run check]
      cases r with
      | error status => rfl
      | ok block =>
        dsimp only
        rw [bind_of_run (setL2P_run small _ w'), ite_run]
        split <;> exact smAddFreeBlock_some card _ _ _

theorem scanBlock_isSome (i : Nat) (w : World) :
    (scanBlock card 0 i w).isSome ↔ ∀ n, Used card w i n → n < l2pTableSize := by
  obtain ⟨ba, address⟩ := getBlockAddress_total card i false w
  simp only [used_iff card address]
  unfold scanBlock
  rw [bind_of_run address]
  by_cases empty : ba = 0xffff#16
  · rw [if_pos empty]
    exact iff_of_true (smAddFreeBlock_some card i false w) fun _ used => (used.1 empty).elim
  by_cases bad : ba = 0xffee#16 ∨ ba = 0x0000#16
  · rw [if_neg empty, if_pos bad]
    exact iff_of_true rfl fun _ used => (bad.elim used.2.1 used.2.2.1).elim
  by_cases dirty : ba = 0xfcfc#16
  · rw [if_neg empty, if_neg bad, if_pos dirty]
    exact iff_of_true (smAddFreeBlock_some card i true w) fun _ used => (used.2.2.2.1 dirty).elim
  rw [if_neg empty, if_neg bad, if_neg dirty]
  refine (scanUsed_isSome card i _ w).trans ⟨fun small n used => ?_, fun all => ?_⟩
  · rw [used.2.2.2.2]
    exact small
  · exact all _ ⟨empty, fun h => bad (.inl h), fun h => bad (.inr h), dirty, rfl⟩

variable {card} {w : World}

theorem scanBlocks_cons {b : Nat} {blocks : List Nat} {w' : World} (zone : Nat)
    (scan : scanBlock card zone b w = some (.noErr, w')) :
    scanBlocks card zone (b :: blocks) w = scanBlocks card zone blocks w' := by
  rw [scanBlocks, bind_of_run scan]
  rfl

/-- A scan that ends well has scanned its first block well. -/
theorem scanBlocks_ok {b : Nat} {blocks : List Nat} {zone : Nat} {w' : World}
    (scan : scanBlocks card zone (b :: blocks) w = some (.noErr, w')) :
    ∃ w₁, scanBlock card zone b w = some (.noErr, w₁) ∧
      scanBlocks card zone blocks w₁ = some (.noErr, w') := by
  obtain ⟨status, w₁, first, rest⟩ := bind_some.mp scan
  by_cases fine : status = .noErr
  · subst fine
    exact ⟨w₁, first, rest⟩
  · rw [if_pos fine] at rest
    cases rest
    exact (fine rfl).elim

theorem scanBlocks_isSome {blocks : List Nat} :
    (scanBlocks card 0 blocks w).isSome ↔ ∀ front i rest, blocks = front ++ i :: rest →
      ∀ w', scanBlocks card 0 front w = some (.noErr, w') →
        ∀ n, Used card w' i n → n < l2pTableSize := by
  induction blocks generalizing w with
  | nil =>
    refine iff_of_true rfl fun front i rest split => ?_
    cases front <;> cases split
  | cons b blocks ih =>
    constructor
    · intro run front i rest split w' before
      cases front with
      | nil =>
        cases split
        cases before
        rw [← scanBlock_isSome]
        cases scan : scanBlock card 0 b w with
        | none =>
          rw [scanBlocks, bind_run, scan] at run
          cases run
        | some r => rfl
      | cons _ front =>
        cases split
        obtain ⟨w₁, scan, before⟩ := scanBlocks_ok before
        rw [scanBlocks_cons 0 scan] at run
        exact ih.mp run front i rest rfl w' before
    · intro fits
      have here := fits [] b blocks rfl w rfl
      rw [← scanBlock_isSome] at here
      obtain ⟨⟨status, w₁⟩, scan⟩ := Option.isSome_iff_exists.mp here
      by_cases fine : status = .noErr
      · subst fine
        rw [scanBlocks_cons 0 scan]
        refine ih.mpr fun front i rest split w' before => ?_
        refine fits (b :: front) i rest (by rw [split]; rfl) w' ?_
        rw [scanBlocks_cons 0 scan]
        exact before
      · rw [scanBlocks, bind_of_run scan, if_pos fine]
        rfl

theorem init_isSome : (fmiSML2PTableInit card 0 w).isSome ↔ ScanFits card w := by
  obtain ⟨w', clear⟩ : ∃ w', clearZones w = some ((), w') := ⟨_, rfl⟩
  unfold ScanFits fmiSML2PTableInit
  simp only [bind_of_run clear, Nat.zero_mul, Nat.sub_zero]
  rw [← scanBlocks_isSome]
  cases scan : scanBlocks card 0 (List.range' 0 (card.eblock 0)) w' with
  | none =>
    rw [bind_run, scan]
    exact iff_of_false (by rintro ⟨⟩) (by rintro ⟨⟩)
  | some r =>
    rw [bind_of_run scan]
    refine iff_of_true ?_ rfl
    split <;> rfl

/-- The table is read within bounds by a block operation on one of its entries, once the zone is
scanned or where the scan stays within them too. -/
theorem lookUp_isSome (zone block : Nat) : (lookUp card zone block w).isSome ↔
    (zone < zoneNum ∧ block < l2pTableSize) ∧ (w.smZone.isScan = true ∨ ScanFits card w) := by
  by_cases here : zone < zoneNum
  · obtain rfl : zone = 0 := Nat.lt_one_iff.mp here
    cases scanned : w.smZone.isScan with
    | true =>
      rw [lookUp, bind_of_run (ensureScanned_run scanned), getL2P_isSome]
      exact (and_iff_left (.inl rfl)).symm
    | false =>
      rw [← init_isSome, lookUp, ensureScanned, bind_run, bind_of_run (getZone_run w), ite_run,
        if_neg (by rw [scanned]; exact Bool.false_ne_true)]
      cases scan : fmiSML2PTableInit card 0 w with
      | none =>
        rw [bind_run, scan]
        refine iff_of_false (by rintro ⟨⟩) ?_
        rintro ⟨_, never | never⟩ <;> cases never
      | some r =>
        rw [bind_of_run scan]
        refine (getL2P_isSome 0 block r.2).trans (and_iff_left (.inr rfl)).symm
  · rw [lookUp, ensureScanned, bind_run, bind_run, getZone, if_neg here]
    exact iff_of_false (by rintro ⟨⟩) fun all => here all.1.1

/-! ### The block operations -/

/-- Where the table is not read within bounds, the block operation does not go on. -/
theorem getBlockData_stops {zone block : Nat} (outside : lookUp card zone block w = none)
    (sector secCount pBuf : Nat) (buff : Nat → Sector) :
    getBlockData card zone block sector secCount pBuf buff w = none := by
  rw [getBlockData, ← bind_assoc]
  exact (bind_run (lookUp card zone block) _ w).trans (by rw [outside]; rfl)

theorem updateBlock_stops {zone block : Nat} (outside : lookUp card zone block w = none)
    (sector secCount : Nat) (buff : Nat → Sector) :
    updateBlock card zone block sector secCount buff w = none := by
  unfold updateBlock
  split
  · rw [updateBlockData2K, ← bind_assoc]
    exact (bind_run (lookUp card zone block) _ w).trans (by rw [outside]; rfl)
  · rw [updateBlockData, ← bind_assoc]
    exact (bind_run (lookUp card zone block) _ w).trans (by rw [outside]; rfl)

theorem requestsFrom_block {fuel zone block sector pageCount count offset : Nat}
    (small : block < l2pTableSize) {r : Request}
    (mem : r ∈ requestsFrom card fuel zone block sector pageCount count offset) :
    r.block < l2pTableSize := by
  induction fuel generalizing zone block sector pageCount count offset with
  | zero => cases mem
  | succ fuel ih =>
    rcases List.mem_cons.mp mem with rfl | mem
    · exact small
    · dsimp only at mem
      by_cases last : count - pageCount = 0
      · rw [if_pos last] at mem
        cases mem
      · rw [if_neg last] at mem
        by_cases ends : block + 1 ≥ l2pTableSize
        · rw [if_pos ends] at mem
          exact ih (Nat.zero_lt_succ 999) mem
        · rw [if_neg ends] at mem
          exact ih (Nat.lt_of_not_le ends) mem

theorem turns_mem {α : Type} {failed : α → Bool} {x : Request → Drive α} {rs : List Request}
    {retries : Nat} {t : Request × World} (mem : t ∈ Nand.turns failed x rs retries w) :
    t.1 ∈ rs := by
  induction rs generalizing retries w with
  | nil => cases mem
  | cons r rest ih =>
    rcases List.mem_append.mp mem with here | later
    · obtain ⟨w', _, rfl⟩ := List.mem_map.mp here
      exact List.mem_cons_self
    · refine List.mem_cons_of_mem r ?_
      split at later
      · cases later
      · split at later
        · cases later
        · exact ih later

theorem Entry.block_lt {e : Entry} {t : Request × World} (mem : t ∈ e.turns card w) :
    t.1.block < l2pTableSize := by
  cases e with
  | init => cases mem
  | read uSector uBufcnt buff => exact requestsFrom_block (Nat.mod_lt _ (by decide)) (turns_mem mem)
  | write uSector uBufcnt buff => exact requestsFrom_block (Nat.mod_lt _ (by decide)) (turns_mem mem)

/-- The block operations that a call comes to are for logical blocks of zone 0, and each finds the
zone scanned, or a card on which every used block that the scan gets to has a number of the table. -/
def Entry.Fits (card : Card) (w : World) (e : Entry) : Prop :=
  match e with
  | .init => ScanFits card w
  | e => ∀ t ∈ e.turns card w,
      t.1.zone < zoneNum ∧ (t.2.smZone.isScan = true ∨ ScanFits card t.2)

/-- Of every card, state and range of sectors. -/
theorem table_in_bounds (card : Card) (w : World) (e : Entry) :
    e.InBounds card w ↔ e.Fits card w := by
  have turn {e : Entry} : (∀ t ∈ e.turns card w, (lookUp card t.1.zone t.1.block t.2).isSome) ↔
      ∀ t ∈ e.turns card w, t.1.zone < zoneNum ∧
        (t.2.smZone.isScan = true ∨ ScanFits card t.2) := by
    refine forall₂_congr fun t mem => ?_
    rw [lookUp_isSome, and_iff_left (Entry.block_lt mem)]
  cases e with
  | init => exact init_isSome
  | read uSector uBufcnt buff => exact turn
  | write uSector uBufcnt buff => exact turn

/-! A card of 64 MB: a read behind its first zone, and a used block with the number 1000. -/

def sixtyFour : Card :=
  Geometry.card ⟨127872, 4095, 32, 32, false⟩ (fun _ _ => .ok) fun _ => true

def foreign : Flash :=
  Function.update (fun _ => .erased) 32 ⟨fun _ => blankSector, 0xffffffff#32, 0x17d0#16⟩

theorem outside_of_table :
    fmiSMReadID 0x76 = some ⟨127872, 4095, 32, 32, false⟩ ∧
      ¬ Entry.InBounds sixtyFour
          { powerUp (fun _ => .erased) with smZone := ⟨true, fun _ => none, []⟩ }
          (.read 32000 1 fun _ => blankSector) ∧
      ¬ Entry.InBounds sixtyFour (powerUp foreign) .init := by
  refine ⟨rfl, fun all => ?_, fun run => ?_⟩
  · cases all _ List.mem_cons_self
  · cases run

end Rovio.Nand
