import Rovio.Nand.Bounds

/-! A scan that ends well, round by round, and what a scan that comes after one that did not end
well makes of what it finds in the zone. -/
namespace Rovio.Nand

open Kit

variable (card : Card)

/-- What `get_block_address` returns. -/
def spareOf (flash : Flash) (i : Nat) (flag : Bool) : BitVec 16 :=
  ((getBlockAddress card i flag (powerUp flash)).map Prod.fst).getD 0

def address (flash : Flash) (i : Nat) : BitVec 16 := spareOf card flash i false

/-- By how much the sequence number of the second block is ahead. -/
def ahead (flash : Flash) (oldBlock newBlock : Nat) : Int :=
  ((spareOf card flash newBlock true >>> 12) &&& 3#16).toNat -
    ((spareOf card flash oldBlock true >>> 12) &&& 3#16).toNat

theorem ahead_eq (flash : Flash) (oldBlock newBlock : Nat) : ahead card flash oldBlock newBlock =
    ((spareOf card flash newBlock true >>> 12) &&& 3#16).toNat -
      ((spareOf card flash oldBlock true >>> 12) &&& 3#16).toNat := rfl

def eraseBlock (flash : Flash) (b : Nat) : Flash :=
  fun p => if p / card.uPagePerBlock = b then .erased else flash p

def usedAddress (ba : BitVec 16) : Prop :=
  ba ≠ 0xffff#16 ∧ ba ≠ 0xffee#16 ∧ ba ≠ 0x0000#16 ∧ ba ≠ 0xfcfc#16

def numberOf (ba : BitVec 16) : Nat := ((ba &&& 0xfff#16) >>> 1).toNat

theorem numberOf_eq (ba : BitVec 16) : numberOf ba = ((ba &&& 0xfff#16) >>> 1).toNat := rfl

/-- A round of the scan that ends well. -/
inductive ScanRound (i : Nat) (w w' : World) : Prop
  | bad : address card w.flash i = 0xffee#16 ∨ address card w.flash i = 0x0000#16 →
      w'.flash = w.flash → w'.smZone.l2pTable = w.smZone.l2pTable →
      w'.smZone.freeBlockList = w.smZone.freeBlockList → ScanRound i w w'
  | free (eraseFlag : Bool) :
      address card w.flash i = 0xffff#16 ∧ eraseFlag = false ∨
        address card w.flash i = 0xfcfc#16 ∧ eraseFlag = true →
      w'.flash = w.flash → w'.smZone.l2pTable = w.smZone.l2pTable →
      w'.smZone.freeBlockList = w.smZone.freeBlockList ++ [⟨i, eraseFlag⟩] → ScanRound i w w'
  | first : usedAddress (address card w.flash i) →
      numberOf (address card w.flash i) < l2pTableSize →
      w.smZone.l2pTable (numberOf (address card w.flash i)) = none → w'.flash = w.flash →
      w'.smZone.l2pTable =
        Function.update w.smZone.l2pTable (numberOf (address card w.flash i)) (some i) →
      w'.smZone.freeBlockList = w.smZone.freeBlockList → ScanRound i w w'
  | again (kept loser winner : Nat) : usedAddress (address card w.flash i) →
      numberOf (address card w.flash i) < l2pTableSize →
      w.smZone.l2pTable (numberOf (address card w.flash i)) = some kept →
      (ahead card w.flash kept i = -3 ∨ ahead card w.flash kept i = 1) ∧ loser = kept ∧ winner = i ∨
        (ahead card w.flash kept i = 3 ∨ ahead card w.flash kept i = -1) ∧ loser = i ∧
          winner = kept →
      w'.flash = eraseBlock card w.flash loser →
      w'.smZone.l2pTable =
        Function.update w.smZone.l2pTable (numberOf (address card w.flash i)) (some winner) →
      w'.smZone.freeBlockList = w.smZone.freeBlockList ++ [⟨i, false⟩] → ScanRound i w w'

theorem getBlockAddress_run (i : Nat) (flag : Bool) (w : World) :
    getBlockAddress card i flag w = some (spareOf card w.flash i flag, w) := by
  unfold spareOf getBlockAddress
  by_cases zero : i = 0
  · simp only [zero, if_true]
    rfl
  · simp only [zero, if_false]
    rfl

theorem address_run (i : Nat) (w : World) :
    getBlockAddress card i false w = some (address card w.flash i, w) :=
  getBlockAddress_run card i false w

theorem smAddFreeBlock_ok {i : Nat} {eraseFlag : Bool} {w w' : World}
    (run : smAddFreeBlock card 0 i eraseFlag w = some (.noErr, w')) :
    w'.flash = w.flash ∧ w'.smZone.l2pTable = w.smZone.l2pTable ∧
      w'.smZone.freeBlockList = w.smZone.freeBlockList ++ [⟨i, eraseFlag⟩] := by
  rw [smAddFreeBlock_run] at run
  split at run
  · cases run
    exact ⟨rfl, rfl, rfl⟩
  · cases run

theorem erase_ok {b : Nat} {w w' : World} (run : fmiSMBlockErase card b w = some (.noErr, w')) :
    w'.flash = eraseBlock card w.flash b ∧ w'.smZone = w.smZone := by
  unfold fmiSMBlockErase issue at run
  cases out : card.report w.log.length (.erase b) with
  | ok =>
    rw [out] at run
    cases run
    exact ⟨rfl, rfl⟩
  | fails fault left =>
    rw [out] at run
    cases fault <;> cases run

/-- The block that is kept, the other one being erased. Of an error the status is not `noErr`. -/
def CheckBlock (oldBlock newBlock : Nat) (w : World) : Except Status Nat × World → Prop
  | (.error status, _) => status ≠ .noErr
  | (.ok block, w') => w'.smZone = w.smZone ∧ ∃ loser,
      ((ahead card w.flash oldBlock newBlock = -3 ∨ ahead card w.flash oldBlock newBlock = 1) ∧
          loser = oldBlock ∧ block = newBlock ∨
        (ahead card w.flash oldBlock newBlock = 3 ∨ ahead card w.flash oldBlock newBlock = -1) ∧
          loser = newBlock ∧ block = oldBlock) ∧
      w'.flash = eraseBlock card w.flash loser

theorem fmiCheckBlock_run {oldBlock newBlock : Nat} {w : World} {r : Except Status Nat × World}
    (run : fmiCheckBlock card oldBlock newBlock w = some r) :
    CheckBlock card oldBlock newBlock w r := by
  have erased {loser block : Nat} (decided :
      (ahead card w.flash oldBlock newBlock = -3 ∨ ahead card w.flash oldBlock newBlock = 1) ∧
          loser = oldBlock ∧ block = newBlock ∨
        (ahead card w.flash oldBlock newBlock = 3 ∨ ahead card w.flash oldBlock newBlock = -1) ∧
          loser = newBlock ∧ block = oldBlock)
      (run : (fmiSMBlockErase card loser >>= fun status =>
        (pure (if status ≠ .noErr then .error status else .ok block) :
          Drive (Except Status Nat))) w = some r) : CheckBlock card oldBlock newBlock w r := by
    obtain ⟨status, w', erase, rest⟩ := bind_some.mp run
    by_cases fine : status = .noErr
    · subst fine
      cases rest
      obtain ⟨flash, zone⟩ := erase_ok card erase
      exact ⟨zone, loser, decided, flash⟩
    · rw [if_pos fine] at rest
      cases rest
      exact fine
  unfold fmiCheckBlock at run
  rw [bind_of_run (getBlockAddress_run card oldBlock true w),
    bind_of_run (getBlockAddress_run card newBlock true w), ite_run] at run
  by_cases newer : ahead card w.flash oldBlock newBlock = -3 ∨
    ahead card w.flash oldBlock newBlock = 1
  · have newer' := newer
    rw [ahead_eq] at newer'
    rw [if_pos newer'] at run
    exact erased (.inl ⟨newer, rfl, rfl⟩) run
  by_cases older : ahead card w.flash oldBlock newBlock = 3 ∨
    ahead card w.flash oldBlock newBlock = -1
  · have older' := older
    rw [ahead_eq] at newer older'
    rw [if_neg newer, if_pos older'] at run
    exact erased (.inr ⟨older, rfl, rfl⟩) run
  · rw [ahead_eq] at newer older
    rw [if_neg newer, if_neg older] at run
    cases run
    rintro ⟨⟩

theorem scanBlock_round {i : Nat} {w w' : World}
    (run : scanBlock card 0 i w = some (.noErr, w')) : ScanRound card i w w' := by
  unfold scanBlock at run
  rw [bind_of_run (address_run card i w)] at run
  by_cases empty : address card w.flash i = 0xffff#16
  · rw [if_pos empty] at run
    obtain ⟨flash, table, free⟩ := smAddFreeBlock_ok card run
    exact .free false (.inl ⟨empty, rfl⟩) flash table free
  by_cases bad : address card w.flash i = 0xffee#16 ∨ address card w.flash i = 0x0000#16
  · rw [if_neg empty, if_pos bad] at run
    cases run
    exact .bad bad rfl rfl rfl
  by_cases dirty : address card w.flash i = 0xfcfc#16
  · rw [if_neg empty, if_neg bad, if_pos dirty] at run
    obtain ⟨flash, table, free⟩ := smAddFreeBlock_ok card run
    exact .free true (.inr ⟨dirty, rfl⟩) flash table free
  rw [if_neg empty, if_neg bad, if_neg dirty] at run
  simp only [← numberOf_eq] at run
  have used : usedAddress (address card w.flash i) :=
    ⟨empty, fun h => bad (.inl h), fun h => bad (.inr h), dirty⟩
  obtain ⟨entry, w₁, read, run⟩ := bind_some.mp run
  have small : numberOf (address card w.flash i) < l2pTableSize :=
    ((getL2P_isSome 0 _ w).mp (Option.isSome_of_mem read)).2
  rw [getL2P_run small] at read
  obtain ⟨same, rfl⟩ := Prod.mk.inj (Option.some.inj read)
  cases entry with
  | none =>
    dsimp only at run
    rw [bind_of_run (setL2P_run small _ w)] at run
    cases run
    exact .first used small same rfl rfl rfl
  | some kept =>
    dsimp only at run
    obtain ⟨answer, w₂, check, run⟩ := bind_some.mp run
    have checked := fmiCheckBlock_run card check
    cases answer with
    | error status =>
      cases run
      exact (checked rfl).elim
    | ok block =>
      obtain ⟨zone, loser, decided, flash⟩ := checked
      dsimp only at run
      rw [bind_of_run (setL2P_run small _ w₂)] at run
      have freed : smAddFreeBlock card 0 i false (w₂.setL2P (numberOf (address card w.flash i))
          (some block)) = some (.noErr, w') := by
        by_cases newer : block = i
        · rw [if_pos newer, newer] at run
          rw [newer]
          exact run
        · rw [if_neg newer] at run
          exact run
      obtain ⟨flash', table, free⟩ := smAddFreeBlock_ok card freed
      rw [setL2P_flash, flash] at flash'
      rw [setL2P_l2p, zone] at table
      rw [setL2P_free, zone] at free
      exact .again kept loser block used small same decided flash' table free

inductive ScanRounds : List Nat → World → World → Prop
  | nil (w : World) : ScanRounds [] w w
  | cons {i : Nat} {rest : List Nat} {w w₁ w' : World} :
      ScanRound card i w w₁ → ScanRounds rest w₁ w' → ScanRounds (i :: rest) w w'

theorem scanBlocks_rounds {blocks : List Nat} {w w' : World}
    (run : scanBlocks card 0 blocks w = some (.noErr, w')) : ScanRounds card blocks w w' := by
  induction blocks generalizing w with
  | nil =>
    cases run
    exact .nil _
  | cons i rest ih =>
    obtain ⟨w₁, first, run⟩ := scanBlocks_ok run
    exact .cons (scanBlock_round card first) (ih run)

/-! ### What rounds do -/

variable {card} {i n : Nat} {blocks front rest : List Nat} {w w₁ w' x x' y y' : World}

theorem ScanRounds.split (rounds : ScanRounds card (front ++ i :: rest) w w') :
    ∃ w₁ w₂, ScanRounds card front w w₁ ∧ ScanRound card i w₁ w₂ ∧ ScanRounds card rest w₂ w' := by
  induction front generalizing w with
  | nil =>
    cases rounds with
    | cons first rest => exact ⟨_, _, .nil w, first, rest⟩
  | cons j front ih =>
    cases rounds with
    | cons first rest =>
      obtain ⟨w₁, w₂, before, here, behind⟩ := ih rest
      exact ⟨w₁, w₂, .cons first before, here, behind⟩

/-- An entry that is used stays so. -/
theorem ScanRound.keeps (round : ScanRound card i w w') (used : w.smZone.l2pTable n ≠ none) :
    w'.smZone.l2pTable n ≠ none := by
  have updated {m b : Nat} : Function.update w.smZone.l2pTable m (some b) n ≠ none := by
    by_cases here : n = m
    · rw [here, Function.update_self]
      rintro ⟨⟩
    · rw [Function.update_of_ne here]
      exact used
  cases round with
  | bad _ _ table _ => rwa [table]
  | free eraseFlag _ _ table _ => rwa [table]
  | first _ _ _ _ table _ =>
    rw [table]
    exact updated
  | again kept loser winner _ _ _ _ _ table _ =>
    rw [table]
    exact updated

theorem ScanRounds.keeps (rounds : ScanRounds card blocks w w')
    (used : w.smZone.l2pTable n ≠ none) :
    w'.smZone.l2pTable n ≠ none := by
  induction rounds with
  | nil w => exact used
  | cons first _ ih => exact ih (first.keeps used)

/-- A page is as before, or erased. -/
theorem ScanRounds.page (rounds : ScanRounds card blocks w w') (p : Nat) :
    w'.flash p = w.flash p ∨ w'.flash p = .erased := by
  induction rounds with
  | nil w => exact .inl rfl
  | @cons _ _ w w₁ _ first _ ih =>
    have here : w₁.flash p = w.flash p ∨ w₁.flash p = .erased := by
      cases first with
      | bad _ flash _ _ => exact .inl (congrFun flash p)
      | free eraseFlag _ flash _ _ => exact .inl (congrFun flash p)
      | first _ _ _ flash _ _ => exact .inl (congrFun flash p)
      | again kept loser winner _ _ _ _ flash _ _ =>
        rw [flash, eraseBlock]
        split
        · exact .inr rfl
        · exact .inl rfl
    rcases ih with same | erased
    · rw [same]
      exact here
    · exact .inr erased

/-- A block that the table does not name is left alone until its own round. -/
theorem ScanRounds.untouched {j : Nat} (rounds : ScanRounds card blocks w w') (later : j ∉ blocks)
    (unnamed : ∀ n, w.smZone.l2pTable n ≠ some j) {p : Nat} (page : p / card.uPagePerBlock = j) :
    w'.flash p = w.flash p := by
  induction rounds with
  | nil w => rfl
  | @cons i _ w w₁ _ first _ ih =>
    have other : j ≠ i := fun same => later (by rw [same]; exact List.mem_cons_self)
    have updated {m b : Nat} (apart : b ≠ j) :
        ∀ n, Function.update w.smZone.l2pTable m (some b) n ≠ some j := by
      intro n
      by_cases here : n = m
      · rw [here, Function.update_self]
        exact fun same => apart (Option.some.inj same)
      · rw [Function.update_of_ne here]
        exact unnamed n
    have step : (∀ n, w₁.smZone.l2pTable n ≠ some j) ∧ w₁.flash p = w.flash p := by
      cases first with
      | bad _ flash table _ => exact ⟨by rw [table]; exact unnamed, congrFun flash p⟩
      | free eraseFlag _ flash table _ => exact ⟨by rw [table]; exact unnamed, congrFun flash p⟩
      | first _ _ _ flash table _ => exact ⟨by rw [table]; exact updated other.symm,
        congrFun flash p⟩
      | again kept loser winner _ _ there decided flash table _ =>
        have away : kept ≠ j := fun same => unnamed _ (by rw [there, same])
        have both : loser ≠ j ∧ winner ≠ j := by
          rcases decided with ⟨_, rfl, rfl⟩ | ⟨_, rfl, rfl⟩
          · exact ⟨away, other.symm⟩
          · exact ⟨other.symm, away⟩
        refine ⟨by rw [table]; exact updated both.2, ?_⟩
        rw [flash, eraseBlock, if_neg (by rw [page]; exact both.1.symm)]
    rw [ih (fun mem => later (List.mem_cons_of_mem i mem)) step.1, step.2]

/-- An entry that the scan fills is filled by a block whose round adds nothing to the free ones. -/
theorem ScanRounds.filled (rounds : ScanRounds card blocks w w')
    (unused : w.smZone.l2pTable n = none)
    (used : w'.smZone.l2pTable n ≠ none) : ∃ front f rest w₁ w₂, blocks = front ++ f :: rest ∧
      ScanRounds card front w w₁ ∧ ScanRounds card rest w₂ w' ∧
    usedAddress (address card w₁.flash f) ∧
      numberOf (address card w₁.flash f) = n ∧
      w₂.smZone.freeBlockList = w₁.smZone.freeBlockList := by
  induction rounds with
  | nil w => exact (used unused).elim
  | @cons i blocks w w₁ w' first behind ih =>
    by_cases still : w₁.smZone.l2pTable n = none
    · obtain ⟨front, f, rest, v₁, v₂, split, before, others⟩ := ih still used
      exact ⟨i :: front, f, rest, v₁, v₂, by rw [split]; rfl, .cons first before, others⟩
    · refine ⟨[], i, blocks, w, w₁, rfl, .nil w, behind, ?_⟩
      cases first with
      | bad _ _ table _ =>
        rw [table] at still
        exact (still unused).elim
      | free eraseFlag _ _ table _ =>
        rw [table] at still
        exact (still unused).elim
      | first usedAddr _ _ _ table free =>
        by_cases here : n = numberOf (address card w.flash i)
        · exact ⟨usedAddr, here.symm, free⟩
        · rw [table, Function.update_of_ne here] at still
          exact (still unused).elim
      | again kept loser winner _ _ there _ _ table _ =>
        by_cases here : n = numberOf (address card w.flash i)
        · rw [← here, unused] at there
          cases there
        · rw [table, Function.update_of_ne here] at still
          exact (still unused).elim

/-! ### Two scans of one card -/

theorem ScanRound.of_bad (round : ScanRound card i w w')
    (bad : address card w.flash i = 0xffee#16 ∨ address card w.flash i = 0x0000#16) :
    w'.flash = w.flash ∧ w'.smZone.l2pTable = w.smZone.l2pTable ∧
      w'.smZone.freeBlockList = w.smZone.freeBlockList := by
  cases round with
  | bad _ flash table free => exact ⟨flash, table, free⟩
  | free eraseFlag kind => rcases kind with ⟨is, _⟩ | ⟨is, _⟩ <;> rw [is] at bad <;> simp at bad
  | first used => exact (bad.elim used.2.1 used.2.2.1).elim
  | again kept loser winner used => exact (bad.elim used.2.1 used.2.2.1).elim

theorem ScanRound.of_free (round : ScanRound card i w w') {eraseFlag : Bool}
    (kind : address card w.flash i = 0xffff#16 ∧ eraseFlag = false ∨
      address card w.flash i = 0xfcfc#16 ∧ eraseFlag = true) :
    w'.flash = w.flash ∧ w'.smZone.l2pTable = w.smZone.l2pTable ∧
      w'.smZone.freeBlockList = w.smZone.freeBlockList ++ [⟨i, eraseFlag⟩] := by
  cases round with
  | bad bad => rcases kind with ⟨is, _⟩ | ⟨is, _⟩ <;> rw [is] at bad <;> simp at bad
  | free flag kind' flash table free =>
    have same : flag = eraseFlag := by
      rcases kind with ⟨is, rfl⟩ | ⟨is, rfl⟩ <;> rw [is] at kind' <;> simpa using kind'
    rw [← same]
    exact ⟨flash, table, free⟩
  | first used => rcases kind with ⟨is, _⟩ | ⟨is, _⟩ <;> simp [usedAddress, is] at used
  | again kept loser winner used =>
    rcases kind with ⟨is, _⟩ | ⟨is, _⟩ <;> simp [usedAddress, is] at used

/-- The round of a used block whose number is free. -/
theorem ScanRound.of_first (round : ScanRound card i w w')
    (used : usedAddress (address card w.flash i))
    (there : w.smZone.l2pTable (numberOf (address card w.flash i)) = none) :
    w'.flash = w.flash ∧ w'.smZone.l2pTable =
        Function.update w.smZone.l2pTable (numberOf (address card w.flash i)) (some i) ∧
      w'.smZone.freeBlockList = w.smZone.freeBlockList := by
  cases round with
  | bad bad => exact (bad.elim used.2.1 used.2.2.1).elim
  | free flag kind => rcases kind with ⟨is, _⟩ | ⟨is, _⟩ <;> simp [usedAddress, is] at used
  | first _ _ _ flash table free => exact ⟨flash, table, free⟩
  | again kept loser winner _ _ there' =>
    rw [there] at there'
    cases there'

/-- The round of a used block whose number is another one's too. -/
theorem ScanRound.of_again (round : ScanRound card i w w')
    (used : usedAddress (address card w.flash i))
    {kept loser winner : Nat}
    (there : w.smZone.l2pTable (numberOf (address card w.flash i)) = some kept)
    (decided : (ahead card w.flash kept i = -3 ∨ ahead card w.flash kept i = 1) ∧ loser = kept ∧
        winner = i ∨
      (ahead card w.flash kept i = 3 ∨ ahead card w.flash kept i = -1) ∧ loser = i ∧
        winner = kept) :
    w'.flash = eraseBlock card w.flash loser ∧ w'.smZone.l2pTable =
        Function.update w.smZone.l2pTable (numberOf (address card w.flash i)) (some winner) ∧
      w'.smZone.freeBlockList = w.smZone.freeBlockList ++ [⟨i, false⟩] := by
  cases round with
  | bad bad => exact (bad.elim used.2.1 used.2.2.1).elim
  | free flag kind => rcases kind with ⟨is, _⟩ | ⟨is, _⟩ <;> simp [usedAddress, is] at used
  | first _ _ there' =>
    rw [there] at there'
    cases there'
  | again kept' loser' winner' _ _ there' decided' flash table free =>
    rw [there] at there'
    cases there'
    have same : loser' = loser ∧ winner' = winner := by
      rcases decided with ⟨newer, rfl, rfl⟩ | ⟨older, rfl, rfl⟩
      · rcases decided' with ⟨_, is⟩ | ⟨older, _⟩
        · exact is
        · omega
      · rcases decided' with ⟨newer, _⟩ | ⟨_, is⟩
        · omega
        · exact is
    rw [← same.1, ← same.2]
    exact ⟨flash, table, free⟩

/-- A scan does not look at the free ones. -/
theorem ScanRound.same (left : ScanRound card i x x') (right : ScanRound card i y y')
    (flash : x.flash = y.flash)
    (table : ∀ n < l2pTableSize, x.smZone.l2pTable n = y.smZone.l2pTable n) :
    x'.flash = y'.flash ∧
      (∀ n < l2pTableSize, x'.smZone.l2pTable n = y'.smZone.l2pTable n) ∧
      ∃ added, x'.smZone.freeBlockList = x.smZone.freeBlockList ++ added ∧
        y'.smZone.freeBlockList = y.smZone.freeBlockList ++ added := by
  have updated (m b : Nat) : ∀ n < l2pTableSize, Function.update x.smZone.l2pTable m (some b) n =
      Function.update y.smZone.l2pTable m (some b) n := by
    intro n small
    by_cases here : n = m
    · rw [here, Function.update_self, Function.update_self]
    · rw [Function.update_of_ne here, Function.update_of_ne here, table n small]
  cases left with
  | bad bad flashX tableX freeX =>
    rw [flash] at bad
    obtain ⟨flashY, tableY, freeY⟩ := right.of_bad bad
    rw [flashX, flashY, tableX, tableY, freeX, freeY]
    exact ⟨flash, table, [], (List.append_nil _).symm, (List.append_nil _).symm⟩
  | free eraseFlag kind flashX tableX freeX =>
    rw [flash] at kind
    obtain ⟨flashY, tableY, freeY⟩ := right.of_free kind
    rw [flashX, flashY, tableX, tableY, freeX, freeY]
    exact ⟨flash, table, _, rfl, rfl⟩
  | first used small there flashX tableX freeX =>
    rw [table _ small] at there
    rw [flash] at used there tableX
    obtain ⟨flashY, tableY, freeY⟩ := right.of_first used there
    rw [flashX, flashY, tableX, tableY, freeX, freeY]
    exact ⟨flash, updated _ _, [], (List.append_nil _).symm, (List.append_nil _).symm⟩
  | again kept loser winner used small there decided flashX tableX freeX =>
    rw [table _ small] at there
    rw [flash] at used there decided flashX tableX
    obtain ⟨flashY, tableY, freeY⟩ := right.of_again used there decided
    rw [flashX, flashY, tableX, tableY, freeX, freeY]
    exact ⟨rfl, updated _ _, _, rfl, rfl⟩

theorem ScanRounds.same (left : ScanRounds card blocks x x') (right : ScanRounds card blocks y y')
    (flash : x.flash = y.flash)
    (table : ∀ n < l2pTableSize, x.smZone.l2pTable n = y.smZone.l2pTable n) :
    (∀ n < l2pTableSize, x'.smZone.l2pTable n = y'.smZone.l2pTable n) ∧
      ∃ added, x'.smZone.freeBlockList = x.smZone.freeBlockList ++ added ∧
        y'.smZone.freeBlockList = y.smZone.freeBlockList ++ added := by
  induction left generalizing y with
  | nil x =>
    cases right
    exact ⟨table, [], (List.append_nil _).symm, (List.append_nil _).symm⟩
  | cons first _ ih =>
    cases right with
    | cons first' rest' =>
      obtain ⟨flash', table', added, free, free'⟩ := first.same first' flash table
      obtain ⟨table'', more, rest, rest'⟩ := ih rest' flash' table'
      refine ⟨table'', added ++ more, ?_, ?_⟩
      · rw [rest, free, List.append_assoc]
      · rw [rest', free', List.append_assoc]

/-! ### A scan after one that did not end well -/

theorem address_congr {flash flash' : Flash}
    (same : flash (card.uPagePerBlock * i) = flash' (card.uPagePerBlock * i)) :
    address card flash i = address card flash' i := by
  unfold address spareOf getBlockAddress
  by_cases zero : i = 0
  · simp only [zero, if_true]
    rfl
  · simp only [zero, if_false, bind_run, readPage, powerUp, same]
    rfl

theorem address_erased {flash : Flash} (erased : flash (card.uPagePerBlock * i) = .erased)
    (some : i ≠ 0) : address card flash i = 0xffff#16 := by
  unfold address spareOf getBlockAddress
  simp only [some, if_false, bind_run, readPage, powerUp, erased]
  rfl

theorem address_zero (flash : Flash) : address card flash 0 = 0 := rfl

section
variable {v v' : World}

/-- A scan of the zone that ends well, with the zone as it is or cleared. -/
theorem init_rounds (run : fmiSML2PTableInit card 0 w = some (.noErr, w')) : ∃ w₁,
    ScanRounds card (List.range' 0 (card.eblock 0))
      (if w.uFirstL2P then w else { w with smZone := emptyZone, uFirstL2P := true }) w₁ ∧
    w'.smZone.l2pTable = w₁.smZone.l2pTable ∧
    w'.smZone.freeBlockList = w₁.smZone.freeBlockList ∧ w'.flash = w₁.flash ∧
    w'.smZone.isScan = true := by
  have clear : clearZones w = some ((),
    if w.uFirstL2P then w else { w with smZone := emptyZone, uFirstL2P := true }) := rfl
  unfold fmiSML2PTableInit at run
  rw [bind_of_run clear] at run
  obtain ⟨status, w₁, scan, run⟩ := bind_some.mp run
  simp only [Nat.zero_mul, Nat.sub_zero] at scan
  by_cases fine : status = .noErr
  · subst fine
    cases run
    exact ⟨w₁, scanBlocks_rounds card scan, rfl, rfl, rfl, rfl⟩
  · rw [if_pos fine] at run
    cases run
    exact (fine rfl).elim

/-- What the card reports and whether there is memory is not part of a round that ends well. -/
theorem ScanRounds.reports {report : Nat → Op → Outcome} {malloc : Nat → Bool}
    (rounds : ScanRounds { card with report, malloc } blocks v v') :
    ScanRounds card blocks v v' := by
  induction rounds with
  | nil v => exact .nil v
  | cons first _ ih =>
    refine .cons ?_ ih
    cases first with
    | bad bad flash table free => exact .bad bad flash table free
    | free eraseFlag kind flash table free => exact .free eraseFlag kind flash table free
    | first used small there flash table free => exact .first used small there flash table free
    | again kept loser winner used small there decided flash table free =>
      exact .again kept loser winner used small there decided flash table free

end

/-! A card of 512 blocks, two of which are erased and the others bad. -/

def sixtyFour2K (malloc : Nat → Bool) : Card :=
  Geometry.card ⟨127744, 511, 64, 256, true⟩ (fun _ _ => .ok) malloc

end Rovio.Nand
