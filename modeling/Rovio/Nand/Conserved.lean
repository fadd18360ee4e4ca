import Rovio.Nand.Deleting

/-! The data blocks of a card whose operations do not fail, over runs of reads, writes and
deletions: none is lost, and none is in two places. -/
namespace Rovio.Nand

open Kit

variable {card : Card} {w w' : World} {block sector secCount : Nat}

/-- No block is mapped or listed twice. -/
structure Partition (w : World) : Prop where
  scanned : w.smZone.isScan
  nodup : (w.free.map Node.block).Nodup
  apart : ∀ l, ∀ node ∈ w.free, w.l2p l ≠ some node.block
  alone : ∀ l l' p, w.l2p l = some p → w.l2p l' = some p → l = l'

theorem Consistent.partition (consistent : Consistent card w) : Partition w :=
  ⟨consistent.scanned, consistent.nodup, consistent.apart, consistent.alone⟩

def HasPlace (w : World) (i : Nat) : Prop :=
  (∃ l, w.l2p l = some i) ∨ i ∈ w.free.map Node.block

/-- A partition of the same blocks. -/
structure Kept (w w' : World) : Prop extends Partition w' where
  same : ∀ i, HasPlace w' i ↔ HasPlace w i

theorem Kept.of_zone (partition : Partition w) (zone : w'.smZone = w.smZone) : Kept w w' := by
  have table : w'.l2p = w.l2p := congrArg Zone.l2pTable zone
  have free : w'.free = w.free := congrArg Zone.freeBlockList zone
  refine ⟨⟨zone ▸ partition.scanned, free ▸ partition.nodup, ?_, table ▸ partition.alone⟩,
    fun i => ?_⟩
  · rw [table, free]
    exact partition.apart
  · rw [HasPlace, HasPlace, table, free]

/-- The block that the list gives goes into the table, and the one it replaces to the list. -/
theorem Kept.of_moved (partition : Partition w) (scanned : w'.smZone.isScan)
    (moved : Moved block w w') : Kept w w' := by
  have nodup := partition.nodup
  cases moved with
  | filled node rest free table listed =>
    have perm : (w'.free.map Node.block).Perm (w.free.map Node.block) := by
      rw [listed, free, List.map_append, List.map_cons]
      exact List.perm_append_singleton _ _
    refine ⟨⟨scanned, perm.nodup_iff.mpr nodup, fun l other mem => ?_, table ▸ partition.alone⟩,
      fun i => ?_⟩
    · obtain ⟨same, inside, here⟩ := List.mem_map.mp (perm.subset (List.mem_map_of_mem mem))
      rw [table, ← here]
      exact partition.apart l same inside
    · rw [HasPlace, HasPlace, table, perm.mem_iff]
  | rebuilt node rest free table listed =>
    rw [free, List.map_cons, List.nodup_cons] at nodup
    have unmapped : ∀ l, w.l2p l ≠ some node.block :=
      fun l => partition.apart l node (free ▸ List.mem_cons_self)
    have inRest : ∀ other ∈ rest, ∀ l, w.l2p l ≠ some other.block := fun other mem l =>
      partition.apart l other (free ▸ List.mem_cons_of_mem _ mem)
    have old : ∀ other ∈ w'.free, other ∈ rest ∨ w.l2p block = some other.block := by
      intro other mem
      rw [listed, List.mem_append, List.mem_map] at mem
      rcases mem with inside | ⟨p, here, rfl⟩
      · exact .inl inside
      · exact .inr (Option.mem_toList.mp here)
    have mapped : ∀ l i, w'.l2p l = some i → l = block ∧ i = node.block ∨
        l ≠ block ∧ w.l2p l = some i := by
      intro l i here
      rw [table] at here
      by_cases same : l = block
      · rw [same, Function.update_self] at here
        exact .inl ⟨same, (Option.some.inj here).symm⟩
      · rw [Function.update_of_ne same] at here
        exact .inr ⟨same, here⟩
    refine ⟨⟨scanned, ?_, ?_, ?_⟩, fun i => ⟨?_, ?_⟩⟩
    · rw [listed, List.map_append]
      refine nodup.2.append ?_ fun i mem here => ?_
      · cases w.l2p block with
        | none => exact .nil
        | some p => exact List.nodup_singleton p
      · obtain ⟨other, inside, rfl⟩ := List.mem_map.mp mem
        rw [List.map_map, List.mem_map] at here
        obtain ⟨p, old, same⟩ := here
        refine inRest other inside block ?_
        rw [← same]
        exact Option.mem_toList.mp old
    · intro l other mem here
      rcases mapped l _ here with ⟨rfl, same⟩ | ⟨apart, here⟩
      · rcases old other mem with inside | before
        · exact nodup.1 (same ▸ List.mem_map_of_mem inside)
        · exact unmapped l (same ▸ before)
      · rcases old other mem with inside | before
        · exact inRest other inside l here
        · exact apart (partition.alone l block _ here before)
    · intro l l' p here here'
      rcases mapped l p here with ⟨rfl, rfl⟩ | ⟨apart, here⟩
      · rcases mapped l' _ here' with ⟨rfl, -⟩ | ⟨-, here'⟩
        · rfl
        · exact absurd here' (unmapped l')
      · rcases mapped l' p here' with ⟨rfl, rfl⟩ | ⟨-, here'⟩
        · exact absurd here (unmapped l)
        · exact partition.alone l l' p here here'
    · rintro (⟨l, here⟩ | mem)
      · rcases mapped l i here with ⟨-, rfl⟩ | ⟨-, here⟩
        · exact .inr (by simp [free])
        · exact .inl ⟨l, here⟩
      · obtain ⟨other, inside, rfl⟩ := List.mem_map.mp mem
        rcases old other inside with before | before
        · exact .inr (List.mem_map_of_mem (free ▸ List.mem_cons_of_mem _ before))
        · exact .inl ⟨block, before⟩
    · rintro (⟨l, here⟩ | mem)
      · by_cases same : l = block
        · refine .inr ?_
          rw [listed, List.map_append, ← same, here]
          simp
        · refine .inl ⟨l, ?_⟩
          rw [table, Function.update_of_ne same]
          exact here
      · rw [free, List.map_cons, List.mem_cons] at mem
        rcases mem with rfl | inside
        · refine .inl ⟨block, ?_⟩
          rw [table, Function.update_self]
        · refine .inr ?_
          rw [listed, List.map_append]
          exact List.mem_append_left _ inside

/-- A mapped block goes to the list. -/
theorem Kept.of_freed (partition : Partition w) {p : Nat} (mapped : w.l2p block = some p)
    (scanned : w'.smZone.isScan) (table : w'.l2p = Function.update w.l2p block none)
    (listed : w'.free = w.free ++ [⟨p, false⟩]) : Kept w w' := by
  have left : ∀ l i, w'.l2p l = some i → l ≠ block ∧ w.l2p l = some i := by
    intro l i here
    rw [table] at here
    by_cases same : l = block
    · rw [same, Function.update_self] at here
      cases here
    · rw [Function.update_of_ne same] at here
      exact ⟨same, here⟩
  refine ⟨⟨scanned, ?_, ?_, ?_⟩, fun i => ⟨?_, ?_⟩⟩
  · rw [listed, List.map_append]
    refine partition.nodup.append (List.nodup_singleton _) fun i mem here => ?_
    obtain ⟨node, inside, rfl⟩ := List.mem_map.mp mem
    exact partition.apart block node inside (List.mem_singleton.mp here ▸ mapped)
  · intro l node mem here
    obtain ⟨other, here⟩ := left l _ here
    rw [listed, List.mem_append, List.mem_singleton] at mem
    rcases mem with inside | rfl
    · exact partition.apart l node inside here
    · exact other (partition.alone l block _ here mapped)
  · intro l l' i here here'
    exact partition.alone l l' i (left l i here).2 (left l' i here').2
  · rintro (⟨l, here⟩ | mem)
    · exact .inl ⟨l, (left l i here).2⟩
    · rw [listed, List.map_append, List.mem_append] at mem
      rcases mem with inside | new
      · exact .inr inside
      · rw [List.mem_singleton.mp new]
        exact .inl ⟨block, mapped⟩
  · rintro (⟨l, here⟩ | mem)
    · by_cases same : l = block
      · obtain rfl : p = i := Option.some.inj (mapped.symm.trans (same ▸ here))
        exact .inr (by simp [listed])
      · refine .inl ⟨l, ?_⟩
        rw [table, Function.update_of_ne same]
        exact here
    · refine .inr ?_
      rw [listed, List.map_append]
      exact List.mem_append_left _ mem

theorem Updated.isScan (sound : card.FaultFree) {fb : Nat} {chosen : Plan} {old : Option Nat}
    {status : Status} (updated : Updated card w block fb old chosen status w') :
    w'.smZone.isScan = w.smZone.isScan := by
  cases updated with
  | built clean retired => exact (retire_sound sound retired).2.1
  | givenUp failed lost onNew bad error left =>
    rcases left with rfl | rfl
    · rfl
    · rfl
  | regained failed regains erased onNew bad retired => exact (retire_sound sound retired).2.1
  | filled clean freed =>
    rw [smAddFreeBlock_run] at freed
    split at freed
    · cases freed
      rfl
    · cases freed
      rfl
  | spilled bad => rfl

theorem Partition.update (partition : Partition w) (sound : card.FaultFree)
    (memory : ∀ n, card.malloc n = true) (small : block < l2pTableSize) (some : secCount ≠ 0)
    (fits : sector + secCount ≤ card.uSectorPerBlock) {buff : Nat → Sector} {status : Status}
    (run : updateBlock card 0 block sector secCount buff w = Option.some (status, w')) :
    Kept w w' := by
  have apart := partition.apart block
  refine .of_moved partition ?_ (update_moved partition.scanned apart sound memory small some fits
    run)
  cases out : takeFree card w.log.length w.free with
  | none =>
    rw [updateBlock_crash partition.scanned small sector secCount buff out] at run
    cases run
  | some found =>
    obtain ⟨es, fb, rest⟩ := found
    obtain ⟨node, free, rfl, -⟩ := takeFree_sound sound out
    obtain ⟨_, _, run', updated⟩ := updateBlock_run partition.scanned small buff some fits out
      (apart node (by simp [free]))
    rw [run] at run'
    cases run'
    exact (updated.isScan sound).trans partition.scanned

/-- A whole mapped block is deleted while the counter stands at the pages of a block. -/
def Doubles (card : Card) (w : World) (block secCount : Nat) : Prop :=
  secCount = card.uSectorPerBlock ∧ w.l2p block ≠ none ∧ w.uDelPageOfBlock = card.uPagePerBlock

theorem Partition.freed (partition : Partition w) (sound : card.FaultFree)
    (memory : ∀ n, card.malloc n = true) (small : block < l2pTableSize) {p : Nat}
    (mapped : w.l2p block = some p) : ∃ w', deleteBlock card 0 block p w = some (.noErr, w') ∧
      Kept w w' ∧ w'.uDelPageOfBlock = w.uDelPageOfBlock := by
  obtain ⟨erased, run, same⟩ : ∃ v : World, deleteBlock card 0 block p w =
      smAddFreeBlock card 0 p false (v.setL2P block none) ∧ v.smZone = w.smZone ∧
        v.uDelPageOfBlock = w.uDelPageOfBlock := by
    refine ⟨w.push card (w.attempts card [.erase p]), ?_, rfl, rfl⟩
    have fine : verdict (w.attempts card [.erase p]) = .noErr := by
      rw [verdict_one, sound]
      rfl
    rw [deleteBlock, fmiSMBlockErase, bind_of_run (issue_run _ w), ite_run, fine, if_neg (by simp),
      bind_of_run (setL2P_run small none _)]
  rw [smAddFreeBlock_run, memory, if_pos rfl] at run
  have table : erased.l2p = w.l2p := congrArg Zone.l2pTable same.1
  have free : erased.free = w.free := congrArg Zone.freeBlockList same.1
  refine ⟨_, run, .of_freed partition mapped ?_ ?_ ?_, same.2⟩
  · exact (congrArg Zone.isScan same.1).trans partition.scanned
  · exact congrArg (Function.update · block none) table
  · exact congrArg (· ++ [⟨p, false⟩]) free

theorem Partition.mark (partition : Partition w) (sound : card.FaultFree)
    (memory : ∀ n, card.malloc n = true) (small : block < l2pTableSize)
    (once : ¬ Doubles card w block secCount) : ∃ status w',
      markBlockData card 0 block sector secCount w = some (status, w') ∧ Kept w w' := by
  have lookUp : ∀ f : Option Nat → Drive Status, (ensureScanned card 0 >>= fun _ =>
      getL2P 0 block >>= f) w = f (w.l2p block) w := by
    intro f
    rw [bind_of_run (ensureScanned_run partition.scanned), bind_of_run (getL2P_run small w)]
  rw [markBlockData, lookUp]
  cases mapped : w.l2p block with
  | none => exact ⟨_, w, rfl, .of_zone partition rfl⟩
  | some p =>
    dsimp only
    rw [ite_run]
    by_cases whole : secCount = card.uSectorPerBlock
    · obtain ⟨w', run, kept, count⟩ := partition.freed sound memory small mapped
      rw [if_pos whole, bind_of_run run, ite_run, if_neg (not_not.mpr rfl)]
      refine ⟨.noErr, w', ?_, kept⟩
      unfold mergeDeleted
      refine if_neg fun full => once ⟨whole, ?_, count ▸ full⟩
      rw [mapped]
      rintro ⟨⟩
    · obtain ⟨w₁, run, marked⟩ := markSectors_sound sound p sector secCount w
      have kept : Kept w w₁ := .of_zone partition (marked.zone.trans (selected_smZone w p))
      rw [if_neg whole, bind_of_run run]
      unfold mergeDeleted
      by_cases full : w₁.uDelPageOfBlock = card.uPagePerBlock
      · have mapped' : w₁.l2p block = some p := by
          rw [World.l2p, marked.zone, selected_smZone]
          exact mapped
        obtain ⟨w', run', kept', -⟩ := kept.toPartition.freed sound memory small mapped'
        rw [if_pos full, marked.counted.1]
        exact ⟨.noErr, w', run', kept'.toPartition, fun i => (kept'.same i).trans (kept.same i)⟩
      · rw [if_neg full]
        exact ⟨.noErr, w₁, rfl, kept⟩

/-! ### Runs -/

theorem Kept.refl (partition : Partition w) : Kept w w := ⟨partition, fun _ => Iff.rfl⟩

theorem Kept.trans {w'' : World} (first : Kept w w') (second : Kept w' w'') : Kept w w'' :=
  ⟨second.toPartition, fun i => (second.same i).trans (first.same i)⟩

section
variable {I : World → Prop} {ok : World → Request → Prop}
  (step : ∀ {v : World} {r : Request}, I v → r.block < l2pTableSize → 0 < r.count →
    r.sector + r.count ≤ card.uSectorPerBlock → ok v r →
      ∃ status v', markBlockData card 0 r.block r.sector r.count v = some (status, v') ∧ I v')
include step

/-- An invariant of `mark_block_data` is one of a deletion. -/
theorem deleteRequests_relates {stop pageCount count fuel offset : Nat}
    (fits : Fits card stop 0 block sector pageCount count) (within : stop ≤ card.capacity)
    (enough : count < fuel) (start : I w)
    (safe : ∀ t ∈ deleteTurns card
      (requestsFrom card fuel 0 block sector pageCount count offset) w, ok t.2 t.1) :
    ∃ w', deleteRequests (markBlockData card)
      (requestsFrom card fuel 0 block sector pageCount count offset) w = some ((), w') ∧ I w' := by
  induction fuel generalizing block sector pageCount count offset w with
  | zero => omega
  | succ fuel ih =>
    have positive := fits.positive
    rw [requestsFrom] at safe ⊢
    dsimp only at safe ⊢
    rw [deleteTurns] at safe
    obtain ⟨status, v, made, held⟩ := step start fits.block_lt positive fits.within
      (safe _ List.mem_cons_self)
    rw [deleteRequests, bind_of_run made]
    rw [made] at safe
    by_cases more : count - pageCount = 0
    · rw [if_pos more]
      exact ⟨v, rfl, held⟩
    · have next := fits.next_block within more
      have behind := fits.next more next (Nat.add_assoc _ _ _).symm
      rw [if_neg more, if_neg (Nat.not_le_of_lt next)] at safe ⊢
      exact ih behind (by omega) held fun t mem => safe t (List.mem_cons_of_mem _ mem)

theorem fmiSMDelete_relates {pDiskSM pDiskSMP ptPDisk uSector uSecCount : Nat}
    (some : 0 < uSecCount) (within : uSector + card.uReservedBaseSector + uSecCount ≤ card.capacity)
    (start : I w) (safe : ptPDisk = pDiskSM ∧ ptPDisk = pDiskSMP →
      ∀ t ∈ deleteTurns card (requests card (uSector + card.uReservedBaseSector) uSecCount) w,
        ok t.2 t.1)
    (run : fmiSMDelete card pDiskSM pDiskSMP ptPDisk uSector uSecCount w = Option.some ((), w')) :
    I w' := by
  rw [fmiSMDelete, fmiSMDeleteWith] at run
  by_cases handled : ptPDisk = pDiskSM ∧ ptPDisk = pDiskSMP
  · obtain ⟨zone, fits, -⟩ := fits_zone some within
    have turns := safe handled
    rw [requests, zone] at turns
    rw [ite_run, if_neg (not_or.mpr ⟨not_not.mpr handled.1, not_not.mpr handled.2⟩),
      if_pos handled.2, requests, zone] at run
    obtain ⟨v, made, held⟩ := deleteRequests_relates step fits within
      (Nat.lt_succ_self uSecCount) start turns
    rw [made] at run
    cases run
    exact held
  · rw [ite_run, if_pos (by tauto)] at run
    cases run
    exact start

end

/-- No deletion doubles a block; reads and writes always may be made. -/
def Action.Once (card : Card) (w : World) (a : Action) : Prop :=
  match a with
  | .entry _ => True
  | .delete pDiskSM pDiskSMP ptPDisk uSector uSecCount =>
    ptPDisk = pDiskSM ∧ ptPDisk = pDiskSMP →
      ∀ t ∈ deleteTurns card (requests card (uSector + card.uReservedBaseSector) uSecCount) w,
        ¬ Doubles card t.2 t.1.block t.1.count

theorem Partition.action (partition : Partition w) (sound : card.FaultFree)
    (memory : ∀ n, card.malloc n = true) {a : Action} (once : a.Once card w)
    (step : a.Succeeds card w w') : Kept w w' := by
  cases a with
  | entry e =>
    cases e with
    | init => cases step
    | read uSector uBufcnt buff =>
      obtain ⟨some, within, data, run⟩ := step
      rw [fmiSMRead_run partition.scanned some within] at run
      cases run
      exact .refl partition
    | write uSector uBufcnt buff =>
      obtain ⟨some, within, run⟩ := step
      have update : ∀ {v v' : World} {r : Request} {buff : Nat → Sector} {status : Status},
          Kept w v → r.block < l2pTableSize → r.count ≠ 0 →
            r.sector + r.count ≤ card.uSectorPerBlock → True →
            updateBlock card 0 r.block r.sector r.count buff v = Option.some (status, v') →
            Kept w v' ∧ True := by
        intro v v' r buff status held small count fits _ called
        exact ⟨held.trans (held.toPartition.update sound memory small count fits called), trivial⟩
      exact (@fmiSMWrite_relates card w w' buff (Kept w) (fun _ _ => True) (fun _ _ => True)
        (fun _ => trivial) (fun _ _ => trivial) update uSector uBufcnt some within
        (.refl partition) (fun _ _ => trivial) _ run).1
  | delete pDiskSM pDiskSMP ptPDisk uSector uSecCount =>
    obtain ⟨some, within, run⟩ := step
    have mark : ∀ {v : World} {r : Request}, Kept w v → r.block < l2pTableSize → 0 < r.count →
        r.sector + r.count ≤ card.uSectorPerBlock → ¬ Doubles card v r.block r.count →
        ∃ status v', markBlockData card 0 r.block r.sector r.count v = Option.some (status, v') ∧
          Kept w v' := by
      intro v r held small _ _ once
      obtain ⟨status, v', made, kept⟩ := held.toPartition.mark sound memory small once
      exact ⟨status, v', made, held.trans kept⟩
    exact fmiSMDelete_relates mark some within (.refl partition) once run

theorem Partition.actions (sound : card.FaultFree) (memory : ∀ n, card.malloc n = true)
    {actions : List Action}
    (run : Run (Guarded (Action.Once card) fun v a v' => a.Succeeds card v v') w actions w')
    (partition : Partition w) : Kept w w' := by
  induction run with
  | nil => exact .refl partition
  | cons step rest ih =>
    have kept := partition.action sound memory step.1 step.2
    exact kept.trans (ih kept.toPartition)

/-! ### The scan -/

/-- The address does not say that the block is bad. -/
def Intact (card : Card) (flash : Flash) (i : Nat) : Prop :=
  address card flash i ≠ 0xffee#16 ∧ address card flash i ≠ 0x0000#16

/-- What a scan has found out about the blocks it has been to. -/
structure Found (card : Card) (flash : Flash) (been : List Nat) (w : World) : Prop
    extends Listed card flash been w where
  small : ∀ l p, w.l2p l = some p → l < l2pTableSize
  flags : ∀ node ∈ w.free, address card flash node.block =
    if node.status then 0xfcfc#16 else 0xffff#16
  placed : ∀ i, HasPlace w i ↔ i ∈ been ∧ Intact card flash i

theorem Found.round {flash : Flash} {been : List Nat} {i : Nat} (found : Found card flash been w)
    (single : ∀ j ∈ been, usedAddress (address card flash j) → usedAddress (address card flash i) →
      numberOf (address card flash j) = numberOf (address card flash i) → j = i)
    (new : i ∉ been) (round : ScanRound card i w w') : Found card flash (been ++ [i]) w' := by
  have listed := found.toListed.round single new round
  have same := found.kept
  have grown : ∀ j, (HasPlace w j ∨ j = i ∧ Intact card flash i) ↔
      j ∈ been ++ [i] ∧ Intact card flash j := by
    intro j
    rw [found.placed, List.mem_append, List.mem_singleton]
    constructor
    · rintro (⟨mem, intact⟩ | ⟨rfl, intact⟩)
      · exact ⟨.inl mem, intact⟩
      · exact ⟨.inr rfl, intact⟩
    · rintro ⟨mem | rfl, intact⟩
      · exact .inl ⟨mem, intact⟩
      · exact .inr ⟨rfl, intact⟩
  cases round with
  | bad gone _ table free =>
    have table : w'.l2p = w.l2p := table
    have free : w'.free = w.free := free
    rw [same] at gone
    refine ⟨listed, table ▸ found.small, free ▸ found.flags, fun j => ?_⟩
    rw [← grown, HasPlace, HasPlace, table, free]
    constructor
    · exact .inl
    · rintro (here | ⟨-, left, left'⟩)
      · exact here
      · exact absurd gone (not_or.mpr ⟨left, left'⟩)
  | free eraseFlag kind _ table free =>
    have table : w'.l2p = w.l2p := table
    have free : w'.free = w.free ++ [⟨i, eraseFlag⟩] := free
    rw [same] at kind
    have flag : address card flash i = if eraseFlag then 0xfcfc#16 else 0xffff#16 := by
      rcases kind with ⟨here, rfl⟩ | ⟨here, rfl⟩
      · exact here
      · exact here
    have intact : Intact card flash i := by
      rw [Intact, flag]
      split
      · decide
      · decide
    refine ⟨listed, table ▸ found.small, fun node mem => ?_, fun j => ?_⟩
    · rw [free, List.mem_append, List.mem_singleton] at mem
      rcases mem with before | rfl
      · exact found.flags node before
      · exact flag
    · rw [← grown, HasPlace, HasPlace, table, free, List.map_append, List.mem_append,
        List.map_singleton, List.mem_singleton]
      tauto
  | first used small none _ table free =>
    rw [same] at used table none small
    have table : w'.l2p = Function.update w.l2p (numberOf (address card flash i)) (some i) := table
    have free : w'.free = w.free := free
    have intact : Intact card flash i := ⟨used.2.1, used.2.2.1⟩
    have mapped : ∀ l p, w'.l2p l = some p → l = numberOf (address card flash i) ∧ p = i ∨
        w.l2p l = some p := by
      intro l p here
      rw [table] at here
      by_cases this : l = numberOf (address card flash i)
      · rw [this, Function.update_self] at here
        exact .inl ⟨this, (Option.some.inj here).symm⟩
      · rw [Function.update_of_ne this] at here
        exact .inr here
    refine ⟨listed, fun l p here => ?_, free ▸ found.flags, fun j => ?_⟩
    · rcases mapped l p here with ⟨rfl, -⟩ | here
      · exact small
      · exact found.small l p here
    rw [← grown]
    constructor
    · rintro (⟨l, here⟩ | mem)
      · rcases mapped l j here with ⟨-, rfl⟩ | here
        · exact .inr ⟨rfl, intact⟩
        · exact .inl (.inl ⟨l, here⟩)
      · exact .inl (.inr (free ▸ mem))
    · rintro ((⟨l, here⟩ | mem) | ⟨rfl, -⟩)
      · refine .inl ⟨l, ?_⟩
        rw [table, Function.update_of_ne]
        · exact here
        · rintro rfl
          exact absurd (here.symm.trans none) (by rintro ⟨⟩)
      · exact .inr (free ▸ mem)
      · refine .inl ⟨numberOf (address card flash j), ?_⟩
        rw [table, Function.update_self]
  | again kept loser winner used small there decided _ table free =>
    rw [same] at used there
    obtain ⟨mem, used', number⟩ := found.mapped _ kept there
    exact absurd (single kept mem used' used number ▸ mem) new

theorem Found.rounds {flash : Flash} {been blocks : List Nat} (found : Found card flash been w)
    (once : (been ++ blocks).Nodup)
    (single : ∀ i ∈ been ++ blocks, ∀ j ∈ been ++ blocks, usedAddress (address card flash i) →
      usedAddress (address card flash j) →
      numberOf (address card flash i) = numberOf (address card flash j) → i = j)
    (rounds : ScanRounds card blocks w w') : Found card flash (been ++ blocks) w' := by
  induction rounds generalizing been with
  | nil => rwa [List.append_nil]
  | @cons i rest w₀ w₁ w₂ first _ ih =>
    have here : i ∈ been ++ i :: rest := List.mem_append_right _ List.mem_cons_self
    have new : i ∉ been := fun mem =>
      (List.nodup_append.mp once).2.2 i mem i List.mem_cons_self rfl
    have next := found.round (fun j mem used used' number =>
      single j (List.mem_append_left _ mem) i here used used' number) new first
    have assoc : been ++ i :: rest = been ++ [i] ++ rest := by simp
    rw [assoc] at once single ⊢
    exact ih next once single

/-- The state in which a scan after power-up starts. -/
def scanStart (flash : Flash) : World :=
  { powerUp flash with smZone := emptyZone, uFirstL2P := true }

theorem found_start (flash : Flash) : Found card flash [] (scanStart flash) where
  kept := rfl
  mapped _ _ here := by cases here
  free _ mem := by cases mem
  nodup := .nil
  small _ _ here := by cases here
  flags _ mem := by cases mem
  placed i := by
    constructor
    · rintro (⟨l, here⟩ | mem)
      · cases here
      · cases mem
    · rintro ⟨mem, -⟩
      cases mem

theorem Found.of_zone {flash : Flash} {been : List Nat} (found : Found card flash been w)
    (table : w'.l2p = w.l2p) (free : w'.free = w.free) (same : w'.flash = w.flash) :
    Found card flash been w' where
  kept := same.trans found.kept
  mapped := table ▸ found.mapped
  free := free ▸ found.toListed.free
  nodup := free ▸ found.nodup
  small := table ▸ found.small
  flags := free ▸ found.flags
  placed i := by
    rw [← found.placed, HasPlace, HasPlace, table, free]

theorem Formatted.found {flash : Flash} (formatted : Formatted card flash)
    (scan : fmiSML2PTableInit card 0 (powerUp flash) = some (.noErr, w)) :
    Found card flash (List.range' 0 (card.eblock 0)) w := by
  obtain ⟨w₁, rounds, table, free, flash', -⟩ := init_rounds scan
  have range : ∀ {i : Nat}, i ∈ List.range' 0 (card.eblock 0) → i < card.eblock 0 := by
    intro i mem
    rw [List.mem_range'_1] at mem
    omega
  have found := (found_start flash).rounds (by simpa using List.nodup_range' ..)
    (fun i mem j mem' => formatted.single i (range mem) j (range mem')) rounds
  exact found.of_zone table free flash'

end Rovio.Nand
