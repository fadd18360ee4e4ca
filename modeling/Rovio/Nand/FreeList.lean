import Rovio.Kit.Linked
import Rovio.Nand.Driver

/-! The list of free blocks as the nodes it is made of, with the pointers to its first and its
last node. -/
namespace Rovio.Nand

open Kit

abbrev FreeBlockNode := Linked Node

variable (card : Card)

/-- `SM_AddFreeBlock`, `p` being what malloc returns. -/
def FreeBlockNode.add (list : FreeBlockNode) (p : Option Nat) (blockNo : Nat) (eraseFlag : Bool) :
    Status × FreeBlockNode :=
  match p with
  | none => (.mallocError, list)
  | some p => (.noErr, list.append p ⟨blockNo, eraseFlag⟩)

/-- The loop of `get_free_block`. A null head that is followed stops the program. -/
def getBlock : Nat → FreeBlockNode → Drive (Int × FreeBlockNode)
  | 0, _ => crash
  | fuel + 1, list =>
    match list.head with
    | none => crash
    | some p =>
      if (list.value p).status then do
        let status ← fmiSMBlockErase card (list.value p).block
        if status = .stateError then getBlock fuel (list.drop p)
        else return ((list.value p).block, (list.drop p).settle)
      else return ((list.value p).block, (list.drop p).settle)

/-- The first node that is not found bad is of an erased block: it is not dirty, or its erase, the
`n`-th operation of the card, succeeds. -/
def Usable (n : Nat) : List Node → Prop
  | [] => False
  | p :: next =>
    p.status = true → match card.report n (.erase p.block) with
      | .ok => True
      | .fails .stateError _ => Usable (n + 1) next
      | .fails _ _ => False

/-- The nodes before the `n`-th operation of the card are dirty, and their erases end in a state
error. -/
def FoundBad (n : Nat) : List Node → Prop
  | [] => True
  | p :: next => p.status = true ∧
      (card.report n (.erase p.block)).status = .stateError ∧ FoundBad (n + 1) next

/-- The block of the node is erased once `get_free_block` is done with it. -/
def Erased (n : Nat) (p : Node) : Prop :=
  p.status = true → (card.report n (.erase p.block)).isOk = true

/-- What is promised of a call on the list with these nodes: an erased block and a list without its
node and those found bad, or an error where there is none; in both cases a list that
`SM_AddFreeBlock` can go on with. -/
def Allocates (list : FreeBlockNode) (ps : List Nat) (n : Nat)
    (result : Option ((Int × FreeBlockNode) × World)) : Prop :=
  ∃ freeBlock after w bad rest, result = some ((freeBlock, after), w) ∧ after.Holds rest ∧
    (after.head = none ↔ after.tail = none) ∧ FoundBad card n (list.values bad) ∧
    (∀ q, q ∉ rest → ∀ blockNo eraseFlag,
      (FreeBlockNode.add after (some q) blockNo eraseFlag).2.Holds (rest ++ [q])) ∧
    ((∃ p, ps = bad ++ p :: rest ∧ freeBlock = (list.value p).block ∧
        Erased card (n + bad.length) (list.value p)) ∨
      (freeBlock < 0 ∧ ps = bad ∧ rest = []))

variable {card} {list : FreeBlockNode} {ps : List Nat} {w : World} {fuel : Nat}

theorem erase_run (card : Card) (w : World) (b : Nat) :
    ∃ w', fmiSMBlockErase card b w = some ((card.report w.log.length (.erase b)).status, w') ∧
      w'.log.length = w.log.length + 1 :=
  ⟨_, rfl, List.length_append⟩

/-- The list that a call leaves behind the node it takes. -/
theorem settled {p : Nat} {rest : List Nat} (chain : Chain list.next list.head (p :: rest))
    (last : list.tail = (p :: rest).getLast?) (once : (p :: rest).Nodup) :
    (list.drop p).settle.Holds rest := by
  refine Linked.settle_holds chain.2 (fun more => ?_) (List.nodup_cons.mp once).2
  obtain ⟨q, rest, rfl⟩ := List.exists_cons_of_ne_nil more
  exact last.trans List.getLast?_cons_cons

theorem usable_of_foundBad {n : Nat} {bad rest : List Node} {p : Node}
    (found : FoundBad card n bad) (erased : Erased card (n + bad.length) p) :
    Usable card n (bad ++ p :: rest) := by
  induction bad generalizing n with
  | nil =>
    intro dirty
    have ok := erased dirty
    simp only [List.length_nil, Nat.add_zero] at ok
    cases out : card.report n (.erase p.block) with
    | ok => trivial
    | fails fault left =>
      rw [out] at ok
      cases ok
  | cons q bad ih =>
    obtain ⟨_, status, found⟩ := found
    intro _
    rw [List.length_cons, Nat.add_comm bad.length, ← Nat.add_assoc] at erased
    cases out : card.report n (.erase q.block) with
    | ok => trivial
    | fails fault left =>
      rw [out] at status
      cases fault with
      | timeout => cases status
      | noSmCard => cases status
      | stateError => exact ih found erased

/-- What `get_free_block` returns is never negative. -/
theorem getBlock_nonneg {freeBlock : Int} {after : FreeBlockNode} {w' : World}
    (run : getBlock card fuel list w = some ((freeBlock, after), w')) : 0 ≤ freeBlock := by
  induction fuel generalizing list w with
  | zero => cases run
  | succ fuel ih =>
    unfold getBlock at run
    cases head : list.head with
    | none =>
      rw [head] at run
      cases run
    | some p =>
      rw [head] at run
      dsimp only at run
      split at run
      · obtain ⟨w'', erase, _⟩ := erase_run card w (list.value p).block
        rw [bind_of_run erase] at run
        split at run
        · exact ih run
        · cases run
          omega
      · cases run
        omega

theorem getBlock_allocates (chain : Chain list.next list.head ps)
    (last : ps ≠ [] → list.tail = ps.getLast?) (once : ps.Nodup) (enough : ps.length < fuel)
    (usable : Usable card w.log.length (list.values ps)) :
    Allocates card list ps w.log.length (getBlock card fuel list w) := by
  induction ps generalizing list w fuel with
  | nil => exact usable.elim
  | cons p rest ih =>
    obtain ⟨fuel, rfl⟩ : ∃ m, fuel = m + 1 := ⟨fuel - 1, by simp at enough; omega⟩
    have settled := settled chain (last (List.cons_ne_nil p rest)) once
    have taken {w' : World} (erased : Erased card w.log.length (list.value p)) :
        Allocates card list (p :: rest) w.log.length
          (some ((((list.value p).block : Int), (list.drop p).settle), w')) :=
      ⟨_, _, w', [], rest, rfl, settled, settled.empty_iff, trivial,
        fun q new _ _ => Linked.append_holds settled new _, .inl ⟨p, rfl, rfl, erased⟩⟩
    unfold getBlock
    rw [chain.1]
    dsimp only
    cases dirty : (list.value p).status with
    | false =>
      rw [if_neg Bool.false_ne_true]
      refine taken fun h => ?_
      rw [dirty] at h
      cases h
    | true =>
      rw [if_pos rfl]
      obtain ⟨w', erase, length⟩ := erase_run card w (list.value p).block
      rw [bind_of_run erase]
      have usable := usable dirty
      cases out : card.report w.log.length (.erase (list.value p).block) with
      | ok =>
        rw [if_neg (by rintro ⟨⟩)]
        refine taken fun _ => ?_
        rw [out]
        rfl
      | fails fault left =>
        simp only [out] at usable
        cases fault with
        | timeout => exact usable.elim
        | noSmCard => exact usable.elim
        | stateError =>
          have status : (Outcome.fails .stateError left).status = .stateError := rfl
          rw [if_pos status]
          have behind : Chain (list.drop p).next (list.drop p).head rest := chain.2
          have still : rest ≠ [] → (list.drop p).tail = rest.getLast? := by
            intro more
            obtain ⟨q, rest, rfl⟩ := List.exists_cons_of_ne_nil more
            exact (last (List.cons_ne_nil _ _)).trans List.getLast?_cons_cons
          have more : Usable card w'.log.length ((list.drop p).values rest) := by
            rw [length]
            exact usable
          have shorter : rest.length < fuel := by
            simp at enough
            omega
          obtain ⟨freeBlock, after, w'', bad, rest', run, holds, ends, found, adds, result⟩ :=
            ih behind still (List.nodup_cons.mp once).2 shorter more
          rw [length] at found result
          refine ⟨freeBlock, after, w'', p :: bad, rest', run, holds, ends,
            ⟨dirty, by rw [out]; rfl, found⟩, adds, ?_⟩
          rcases result with ⟨q, split, block, erased⟩ | ⟨negative, split, none⟩
          · refine .inl ⟨q, by rw [split]; rfl, block, ?_⟩
            rw [List.length_cons, Nat.add_comm bad.length, ← Nat.add_assoc]
            exact erased
          · exact .inr ⟨negative, by rw [split], none⟩

/-- Of every list and everything that the erases may report: a call does what it is to do where a
node is usable, and only there. -/
theorem get_free_block_allocates (card : Card) (w : World) (list : FreeBlockNode) (ps : List Nat)
    (holds : list.Holds ps) (fuel : Nat) (enough : ps.length < fuel) :
    Allocates card list ps w.log.length (getBlock card fuel list w) ↔
      Usable card w.log.length (list.values ps) := by
  constructor
  · rintro ⟨freeBlock, after, w', bad, rest, run, _, _, found, _, result⟩
    rcases result with ⟨p, rfl, _, erased⟩ | ⟨negative, _⟩
    · rw [Linked.values, List.map_append, List.map_cons]
      refine usable_of_foundBad found ?_
      rwa [List.length_map]
    · have nonneg := getBlock_nonneg run
      omega
  · exact getBlock_allocates holds.chain (fun _ => holds.last) holds.once enough

/-! One block is free, and dirty. -/

def wornCard (report : Nat → Op → Outcome) : Card where
  u2KPageSize := false
  uPagePerBlock := 32
  uBlockPerFlash := 1023
  uSMReservedBlock := 0
  uReservedBaseSector := 0
  bIsReserved := false
  report
  malloc _ := true

def oneDirty : FreeBlockNode where
  value _ := ⟨7, true⟩
  next _ := none
  head := some 0
  tail := some 0

theorem oneDirty_holds : oneDirty.Holds [0] := ⟨⟨rfl, rfl⟩, rfl, List.nodup_singleton 0⟩

theorem get_free_block_erases :
    Allocates (wornCard fun _ _ => .ok) oneDirty [0] 0
      (getBlock (wornCard fun _ _ => .ok) 2 oneDirty (powerUp fun _ => .erased)) := by
  refine (get_free_block_allocates (wornCard fun _ _ => .ok) (powerUp fun _ => .erased) oneDirty [0]
    oneDirty_holds 2 (by decide)).mpr fun _ => ?_
  trivial

/-- The erase ends in a state error, and the null head behind the node is followed. -/
theorem last_bad_crashes :
    ¬ Allocates (wornCard fun _ _ => .fails .stateError fun _ => .erased) oneDirty [0] 0
      (getBlock (wornCard fun _ _ => .fails .stateError fun _ => .erased) 2 oneDirty
        (powerUp fun _ => .erased)) := by
  rintro ⟨_, _, _, _, _, run, _⟩
  cases run

end Rovio.Nand
