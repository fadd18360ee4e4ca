import Rovio.Kit.Runs
import Rovio.Nand.Bounds
import Rovio.Nand.Cells
import Rovio.Nand.Ranges
import Rovio.Nand.Retry

/-! What `fmiSM_Read` returns after `fmiSM_Write` calls on a card whose operations do not fail. -/
namespace Rovio.Nand

open Kit

variable {card : Card} {w w' : World} {cells : Cells} {buff : Nat → Sector}

/-! ### Reading -/

theorem readRuns_run {r count : Nat} {runs : List (Nat × Nat)} (rounds : Rounds r count runs)
    (psector pBuf : Nat) (buff : Nat → Sector) (w : World) :
    readRuns psector runs pBuf buff w = some (fun i =>
      if pBuf ≤ i ∧ i < pBuf + count then
        (w.flash (psector + (r + (i - pBuf)) / 4)).data ((r + (i - pBuf)) % 4)
      else buff i, w) := by
  induction rounds generalizing psector pBuf buff with
  | @last r count some fits =>
    have stored : storeSectors buff pBuf count (fun i => (w.flash psector).data (r + i)) =
        fun i => if pBuf ≤ i ∧ i < pBuf + count then
          (w.flash (psector + (r + (i - pBuf)) / 4)).data ((r + (i - pBuf)) % 4)
        else buff i := by
      funext i
      unfold storeSectors
      refine if_ctx_congr Iff.rfl (fun inside => ?_) fun _ => rfl
      rw [Nat.div_eq_of_lt (by omega), Nat.mod_eq_of_lt (by omega), Nat.add_zero]
    rw [← stored]
    rfl
  | @more r count rest inside past behind ih =>
    have first : readPage psector w = some (w.flash psector, w) := rfl
    rw [readRuns, bind_of_run first, ih]
    refine congrArg some (Prod.ext (funext fun i => ?_) rfl)
    dsimp only
    by_cases later : pBuf + (4 - r) ≤ i ∧ i < pBuf + (4 - r) + (count - (4 - r))
    · rw [if_pos later, if_pos (by omega)]
      have page : psector + 1 + (0 + (i - (pBuf + (4 - r)))) / 4 =
          psector + (r + (i - pBuf)) / 4 := by omega
      have place : (0 + (i - (pBuf + (4 - r)))) % 4 = (r + (i - pBuf)) % 4 := by omega
      rw [page, place]
    · rw [if_neg later, storeSectors]
      refine if_ctx_congr (by omega) (fun here => ?_) fun _ => rfl
      rw [Nat.div_eq_of_lt (by omega), Nat.mod_eq_of_lt (by omega), Nat.add_zero]

/-- What the buffer has for the sector after a read: an unmapped block leaves it as it was. -/
def shown (card : Card) (w : World) (v : Nat) (old : Sector) : Sector :=
  match w.l2p (v / card.uSectorPerBlock) with
  | none => old
  | some p => stored card w.flash p (v % card.uSectorPerBlock)

theorem number_div {block s : Nat} (inside : s < card.uSectorPerBlock) :
    card.number block s / card.uSectorPerBlock = block ∧
      card.number block s % card.uSectorPerBlock = s := by
  have blocks : 0 < card.uSectorPerBlock := by omega
  constructor
  · rw [Card.number, Nat.mul_comm, Nat.mul_add_div blocks, Nat.div_eq_of_lt inside, Nat.add_zero]
  · rw [Card.number, Nat.mul_comm, Nat.mul_add_mod, Nat.mod_eq_of_lt inside]

theorem shown_number {block s : Nat} (inside : s < card.uSectorPerBlock) (old : Sector) :
    shown card w (card.number block s) old =
      match w.l2p block with
      | none => old
      | some p => stored card w.flash p s := by
  rw [shown, (number_div inside).1, (number_div inside).2]

theorem getBlockData_run (scanned : w.smZone.isScan) {block sector secCount : Nat}
    (small : block < l2pTableSize) (some : 0 < secCount)
    (fits : sector + secCount ≤ card.uSectorPerBlock) (pBuf : Nat) (buff : Nat → Sector) :
    ∃ status, status.isError = false ∧
      getBlockData card 0 block sector secCount pBuf buff w = Option.some ((status, fun i =>
        if pBuf ≤ i ∧ i < pBuf + secCount then
          shown card w (card.number block (sector + (i - pBuf))) (buff i)
        else buff i), w) := by
  have place : ∀ i, pBuf ≤ i ∧ i < pBuf + secCount → sector + (i - pBuf) <
      card.uSectorPerBlock := fun i inside => by omega
  rw [getBlockData, bind_of_run (ensureScanned_run scanned), bind_of_run (getL2P_run small w)]
  cases mapped : w.l2p block with
  | none =>
    refine ⟨.emptyBlock, rfl, congrArg Option.some (Prod.ext (Prod.ext rfl (funext fun i => ?_)) rfl)⟩
    dsimp only
    split
    case isTrue inside => rw [shown_number (place i inside), mapped]
    case isFalse => rfl
  | some p =>
    refine ⟨.noErr, rfl, ?_⟩
    dsimp only
    rw [ite_run]
    cases size : card.u2KPageSize with
    | true =>
      have runs := pageRuns_rounds (Nat.mod_lt sector (by decide : 0 < 4)) some
      rw [if_pos rfl, bind_of_run (readRuns_run runs _ pBuf buff w)]
      refine congrArg Option.some (Prod.ext (Prod.ext rfl (funext fun i => ?_)) rfl)
      refine if_ctx_congr Iff.rfl (fun inside => ?_) fun _ => rfl
      rw [shown_number (place i inside), mapped]
      have page : p * card.uPagePerBlock + sector / 4 + (sector % 4 + (i - pBuf)) / 4 =
          p * card.uPagePerBlock + (sector + (i - pBuf)) / 4 := by omega
      have column : (sector % 4 + (i - pBuf)) % 4 = (sector + (i - pBuf)) % 4 := by omega
      simp only [stored, Card.pageAt, Card.pageOf, Card.columnOf, size, if_true, page, column]
    | false =>
      rw [if_neg Bool.false_ne_true]
      have read : fmiSMRead512 (p * card.uPagePerBlock + sector) w = Option.some
          (fun i => (w.flash (p * card.uPagePerBlock + sector + i)).data 0, w) := rfl
      rw [bind_of_run read]
      refine congrArg Option.some (Prod.ext (Prod.ext rfl (funext fun i => ?_)) rfl)
      dsimp only [storeSectors]
      refine if_ctx_congr Iff.rfl (fun inside => ?_) fun _ => rfl
      rw [shown_number (place i inside), mapped]
      simp only [stored, Card.pageAt, Card.pageOf, Card.columnOf, size, Bool.false_eq_true,
        if_false, Nat.add_assoc]

theorem attempt_fine {α : Type} {failed : α → Bool} {x : Drive α} {a : α}
    (run : x w = some (a, w)) (fine : failed a = false) (retries : Nat) :
    attempt failed x retries w = some ((a, retries), w) := by
  cases retries with
  | zero =>
    rw [attempt, bind_of_run run]
    rfl
  | succ retries =>
    rw [attempt, bind_of_run run, ite_run, if_neg (by rw [fine]; exact Bool.false_ne_true)]
    rfl

/-- The last sector of the only zone. -/
def Card.capacity (card : Card) : Nat := l2pTableSize * card.uSectorPerBlock

/-- The next part of a range within the zone starts the next block of it. -/
theorem Fits.next_block {stop block sector pageCount count : Nat}
    (fits : Fits card stop 0 block sector pageCount count) (within : stop ≤ card.capacity)
    (more : count - pageCount ≠ 0) : block + 1 < l2pTableSize := by
  have whole := fits.whole more
  have ends := fits.ends
  have le := fits.le_count
  by_contra last
  have place : block + 1 = l2pTableSize := by
    have := fits.block_lt
    omega
  have size : card.capacity = block * card.uSectorPerBlock + card.uSectorPerBlock := by
    rw [Card.capacity, ← place, Nat.succ_mul]
  rw [Nat.zero_mul, Nat.zero_add] at ends
  omega

theorem readRequests_run (scanned : w.smZone.isScan)
    {stop block sector pageCount count fuel offset : Nat}
    (fits : Fits card stop 0 block sector pageCount count) (within : stop ≤ card.capacity)
    (enough : count < fuel) (retries : Nat) (buff : Nat → Sector) :
    readRequests card (requestsFrom card fuel 0 block sector pageCount count offset) retries buff w =
      some ((.noErr, fun i => if offset ≤ i ∧ i < offset + count then
        shown card w (card.number block sector + (i - offset)) (buff i) else buff i), w) := by
  induction fuel generalizing block sector pageCount count offset retries buff with
  | zero => omega
  | succ fuel ih =>
    have positive := fits.positive
    have le := fits.le_count
    obtain ⟨status, fine, run⟩ := getBlockData_run scanned fits.block_lt positive fits.within
      offset buff
    have made := @attempt_fine w (Status × (Nat → Sector)) (fun a => a.1.isError) _ _ run fine
      retries
    rw [requestsFrom]
    dsimp only
    rw [readRequests, bind_of_run made]
    dsimp only
    rw [fine, if_neg Bool.false_ne_true]
    by_cases more : count - pageCount = 0
    · have all : pageCount = count := by omega
      rw [if_pos more, all]
      rw [all] at run
      refine congrArg some (Prod.ext (Prod.ext rfl (funext fun i => ?_)) rfl)
      dsimp only
      refine if_ctx_congr Iff.rfl (fun inside => ?_) fun _ => rfl
      rw [Card.number, Card.number, Nat.add_assoc]
    · have next := fits.next_block within more
      have behind := fits.next more next (Nat.add_assoc _ _ _).symm
      rw [if_neg more, if_neg (Nat.not_le_of_lt next), ih behind (by omega)]
      refine congrArg some (Prod.ext (Prod.ext rfl (funext fun i => ?_)) rfl)
      have whole := fits.whole more
      dsimp only
      by_cases here : offset ≤ i ∧ i < offset + pageCount
      · rw [if_neg (by omega), if_pos here, if_pos (by omega), Card.number, Card.number,
          Nat.add_assoc]
      · rw [if_neg here]
        refine if_ctx_congr (by omega) (fun inside => ?_) fun _ => rfl
        have place : card.number (block + 1) 0 + (i - (offset + pageCount)) =
            card.number block sector + (i - offset) := by
          rw [Card.number, Card.number, Nat.succ_mul]
          omega
        rw [place]

theorem fits_zone {uSector uBufcnt : Nat} (some : 0 < uBufcnt)
    (within : uSector + uBufcnt ≤ card.capacity) :
    uSector / card.uSectorPerBlock / l2pTableSize = 0 ∧
      Fits card (uSector + uBufcnt) 0 (uSector / card.uSectorPerBlock % l2pTableSize)
        (uSector % card.uSectorPerBlock)
        (if uBufcnt > card.uSectorPerBlock - uSector % card.uSectorPerBlock then
          card.uSectorPerBlock - uSector % card.uSectorPerBlock else uBufcnt) uBufcnt ∧
      card.number (uSector / card.uSectorPerBlock % l2pTableSize)
        (uSector % card.uSectorPerBlock) = uSector := by
  have blocks : 0 < card.uSectorPerBlock := by
    by_contra none
    have zero : card.uSectorPerBlock = 0 := by omega
    rw [Card.capacity, zero] at within
    omega
  have fits := Fits.start blocks some uSector
  have zone : uSector / card.uSectorPerBlock / l2pTableSize = 0 := by
    refine Nat.div_eq_of_lt (Nat.div_lt_of_lt_mul ?_)
    rw [Nat.mul_comm]
    exact Nat.lt_of_lt_of_le (by omega) within
  rw [zone] at fits
  refine ⟨zone, fits, ?_⟩
  have ends := fits.ends
  rw [Nat.zero_mul, Nat.zero_add] at ends
  unfold Card.number
  omega

/-- A read within the zone, in a scanned state. -/
theorem fmiSMRead_run (scanned : w.smZone.isScan) {uSector uBufcnt : Nat} (some : 0 < uBufcnt)
    (within : uSector + uBufcnt ≤ card.capacity) (buff : Nat → Sector) :
    fmiSMRead card uSector uBufcnt buff w = Option.some ((.noErr, fun i =>
      if i < uBufcnt then shown card w (uSector + i) (buff i) else buff i), w) := by
  obtain ⟨zone, fits, place⟩ := fits_zone some within
  rw [fmiSMRead, requests, zone, readRequests_run scanned fits within (Nat.lt_succ_self uBufcnt),
    place]
  refine congrArg Option.some (Prod.ext (Prod.ext rfl (funext fun i => ?_)) rfl)
  refine if_ctx_congr (by omega) (fun _ => ?_) fun _ => rfl
  rw [Nat.sub_zero]

/-! ### Writing -/

/-- The first attempt leads from one condition to the other, and the later ones keep it. -/
theorem attempt_after {α : Type} {failed : α → Bool} {x : Drive α} {before after : World → Prop}
    {retries left : Nat} {a : α} (start : before w ∨ after w)
    (step : ∀ v ∈ callStates failed x retries w, before v ∨ after v →
      ∀ b v', x v = some (b, v') → after v')
    (run : attempt failed x retries w = some ((a, left), w')) : after w' := by
  induction retries generalizing w with
  | zero =>
    rw [attempt, bind_some] at run
    obtain ⟨b, v, made, rest⟩ := run
    cases rest
    exact step w List.mem_cons_self start _ _ made
  | succ retries ih =>
    rw [attempt, bind_some] at run
    obtain ⟨b, v, made, rest⟩ := run
    have next := step w List.mem_cons_self start b v made
    rw [ite_run] at rest
    split at rest
    case isTrue again =>
      refine ih (.inr next) (fun u mem => step u ?_) rest
      rw [callStates, made]
      dsimp only
      rw [if_pos again]
      exact List.mem_cons_of_mem _ mem
    case isFalse =>
      cases rest
      exact next

theorem write_again (cells : Cells) (u n : Nat) (buff : Nat → Sector) :
    (cells.write u n buff).write u n buff = cells.write u n buff := by
  funext v
  unfold Cells.write
  split
  · rfl
  · rfl

theorem write_parts (cells : Cells) (u m n : Nat) (buff : Nat → Sector) :
    (cells.write u m buff).write (u + m) n (fun i => buff (m + i)) =
      cells.write u (m + n) buff := by
  funext v
  unfold Cells.write
  by_cases first : u ≤ v ∧ v < u + m
  · rw [if_neg (by omega), if_pos first, if_pos (by omega)]
  · rw [if_neg first]
    refine if_ctx_congr (by omega) (fun inside => ?_) fun _ => rfl
    have place : m + (v - (u + m)) = v - u := by omega
    dsimp only
    rw [place]

/-- The calls of the block operation that a write makes, each with the state it is made in. -/
def updateTurns (card : Card) (buff : Nat → Sector) (rs : List Request) (retries : Nat)
    (w : World) : List (Request × World) :=
  turns (fun s => s ≠ .noErr)
    (fun r => updateBlock card r.zone r.block r.sector r.count fun i => buff (r.offset + i)) rs
    retries w

theorem writeRequests_keeps (sound : card.FaultFree) {stop block sector pageCount count fuel
      offset : Nat} (fits : Fits card stop 0 block sector pageCount count)
    (within : stop ≤ card.capacity) (enough : count < fuel) {retries : Nat}
    (keeps : Keeps card cells w)
    (safe : ∀ t ∈ updateTurns card buff
      (requestsFrom card fuel 0 block sector pageCount count offset) retries w,
      ¬ Loses card t.2 t.1.block t.1.sector t.1.count)
    (run : writeRequests (updateBlock card) buff
      (requestsFrom card fuel 0 block sector pageCount count offset) retries w =
        some (.noErr, w')) :
    Keeps card (cells.write (card.number block sector) count fun i => buff (offset + i)) w' := by
  induction fuel generalizing block sector pageCount count offset retries w cells with
  | zero => omega
  | succ fuel ih =>
    have positive := fits.positive
    have le := fits.le_count
    rw [requestsFrom] at run safe
    dsimp only at run safe
    rw [writeRequests, bind_some] at run
    obtain ⟨⟨status, left⟩, v, made, rest⟩ := run
    rw [updateTurns, turns] at safe
    have first : Keeps card (cells.write (card.number block sector) pageCount
        fun i => buff (offset + i)) v := by
      refine @attempt_after w v _ _ _ (Keeps card cells) _ _ _ _ (.inl keeps) ?_ made
      intro u mem held b u' called
      have harmless := safe _ (List.mem_append_left _ (List.mem_map_of_mem mem))
      rcases held with held | held
      · exact held.update sound fits.block_lt (by omega) fits.within harmless called
      · have next := held.update sound fits.block_lt (by omega) fits.within harmless called
        rwa [write_again] at next
    dsimp only at rest
    rw [ite_run] at rest
    split at rest
    case isTrue failed =>
      cases rest
      exact absurd rfl failed
    case isFalse fine =>
      by_cases more : count - pageCount = 0
      · have all : pageCount = count := by omega
        rw [if_pos more] at rest
        cases rest
        rw [← all]
        exact first
      · have next := fits.next_block within more
        have whole := fits.whole more
        have behind := fits.next more next (Nat.add_assoc _ _ _).symm
        rw [if_neg more, if_neg (Nat.not_le_of_lt next)] at rest safe
        rw [made] at safe
        have later := ih behind (by omega) first
          (fun t mem => safe t (List.mem_append_right _ (by
            dsimp only
            rw [if_neg (by simpa using fine)]
            exact mem))) rest
        have place : card.number (block + 1) 0 = card.number block sector + pageCount := by
          rw [Card.number, Card.number, Nat.succ_mul]
          omega
        have shifted : (fun i => buff (offset + pageCount + i)) =
            fun i => (fun j => buff (offset + j)) (pageCount + i) := by
          funext i
          rw [Nat.add_assoc]
        rw [place, shifted, write_parts, Nat.add_sub_cancel' le] at later
        exact later

theorem fmiSMWrite_keeps (sound : card.FaultFree) {uSector uBufcnt : Nat} (some : 0 < uBufcnt)
    (within : uSector + uBufcnt ≤ card.capacity) (keeps : Keeps card cells w)
    (safe : ∀ t ∈ (Entry.write uSector uBufcnt buff).turns card w,
      ¬ Loses card t.2 t.1.block t.1.sector t.1.count)
    (run : fmiSMWrite card uSector uBufcnt buff w = Option.some (.noErr, w')) :
    Keeps card (cells.write uSector uBufcnt buff) w' := by
  obtain ⟨zone, fits, place⟩ := fits_zone some within
  rw [Entry.turns, requests, zone] at safe
  rw [fmiSMWrite, fmiSMWriteWith, requests, zone] at run
  have written := writeRequests_keeps sound fits within (Nat.lt_succ_self uBufcnt) keeps safe run
  simp only [Nat.zero_add] at written
  rwa [place] at written

/-! ### Calls one after another -/

/-- A call for a range of the zone that reports no error. -/
def Entry.Succeeds (card : Card) (w : World) (e : Entry) (w' : World) : Prop :=
  match e with
  | .init => False
  | .read uSector uBufcnt buff => 0 < uBufcnt ∧ uSector + uBufcnt ≤ card.capacity ∧
      ∃ data, fmiSMRead card uSector uBufcnt buff w = some ((.noErr, data), w')
  | .write uSector uBufcnt buff => 0 < uBufcnt ∧ uSector + uBufcnt ≤ card.capacity ∧
      fmiSMWrite card uSector uBufcnt buff w = some (.noErr, w')

/-- No block update of the call leaves the flag of a partly written page unset. -/
def Entry.Safe (card : Card) (w : World) (e : Entry) : Prop :=
  match e with
  | .write uSector uBufcnt buff => ∀ t ∈ (Entry.write uSector uBufcnt buff).turns card w,
      ¬ Loses card t.2 t.1.block t.1.sector t.1.count
  | _ => True

/-- The data that a call writes to the sector. -/
def Entry.written (v : Nat) : Entry → Option Sector
  | .write uSector uBufcnt buff =>
    if uSector ≤ v ∧ v < uSector + uBufcnt then some (buff (v - uSector)) else none
  | _ => none

/-- The data of the last write that covered the sector. -/
def lastWritten (v : Nat) (calls : List Entry) : Option Sector :=
  calls.foldl (fun last e => (e.written v).or last) none

/-- The sector in the flash; a block that is not mapped is as good as erased. -/
def held (card : Card) (w : World) (v : Nat) : Sector := shown card w v blankSector

/-- The cells behind a call. -/
def Entry.leaves (cells : Cells) : Entry → Cells
  | .write uSector uBufcnt buff => cells.write uSector uBufcnt buff
  | _ => cells

theorem Keeps.entry (keeps : Keeps card cells w) (sound : card.FaultFree) {e : Entry}
    (safe : e.Safe card w) (step : e.Succeeds card w w') : Keeps card (e.leaves cells) w' := by
  cases e with
  | init => cases step
  | read uSector uBufcnt buff =>
    obtain ⟨some, within, data, run⟩ := step
    rw [fmiSMRead_run keeps.scanned some within] at run
    cases run
    exact keeps
  | write uSector uBufcnt buff =>
    obtain ⟨some, within, run⟩ := step
    exact fmiSMWrite_keeps sound some within keeps safe run

theorem Keeps.calls (sound : card.FaultFree) {calls : List Entry}
    (run : Run (Guarded (Entry.Safe card) fun w e w' => e.Succeeds card w w') w calls w')
    (keeps : Keeps card cells w) : Keeps card (calls.foldl Entry.leaves cells) w' := by
  induction run generalizing cells with
  | nil => exact keeps
  | cons step rest ih => exact ih (keeps.entry sound step.1 step.2)

theorem cells_written (cells : Cells) (v : Nat) (calls : List Entry) :
    calls.foldl Entry.leaves cells v =
      match lastWritten v calls with
      | some x => .holds x
      | none => cells v := by
  suffices general : ∀ (now : Cells) (last : Option Sector),
      now v = last.elim (cells v) .holds → calls.foldl Entry.leaves now v =
        (calls.foldl (fun last e => (e.written v).or last) last).elim (cells v) .holds by
    rw [general cells none rfl, lastWritten]
    cases calls.foldl (fun last e => (e.written v).or last) none with
    | none => rfl
    | some x => rfl
  induction calls with
  | nil => exact fun now last same => same
  | cons e calls ih =>
    intro now last same
    refine ih (e.leaves now) ((e.written v).or last) ?_
    cases e with
    | init => exact same
    | read => exact same
    | write uSector uBufcnt buff =>
      simp only [Entry.leaves, Entry.written, Cells.write]
      split
      · rfl
      · exact same

/-- The cells of a card of which nothing is known but what it shows. -/
def initially (card : Card) (w : World) : Cells := fun v =>
  match w.l2p (v / card.uSectorPerBlock) with
  | none => .never
  | some p =>
    if flagBytes (card.pageAt w.flash p (v % card.uSectorPerBlock)).mark = 0xfcfc00#32 then .deleted
    else .holds (stored card w.flash p (v % card.uSectorPerBlock))

theorem Consistent.keeps (consistent : Consistent card w) : Keeps card (initially card w) w where
  toConsistent := consistent
  shows l p mapped s inside := by
    rw [initially, (number_div inside).1, (number_div inside).2, mapped]
    dsimp only
    split
    · trivial
    · rfl
  marked l p mapped s inside gone := by
    rw [initially, (number_div inside).1, (number_div inside).2, mapped]
    dsimp only
    rw [if_pos gone]
  unmapped l none s inside x := by
    rw [initially, (number_div inside).1, none]
    rintro ⟨⟩

/-- Where a sector has not been deleted, the flash has what its cell says. -/
theorem Keeps.held_eq (keeps : Keeps card cells w) {v : Nat} (blocks : 0 < card.uSectorPerBlock)
    (live : cells v ≠ .deleted) :
    held card w v = match cells v with
      | .holds x => x
      | _ => blankSector := by
  have inside := Nat.mod_lt v blocks
  have place : card.number (v / card.uSectorPerBlock) (v % card.uSectorPerBlock) = v :=
    Nat.div_add_mod' v _
  unfold held shown
  cases mapped : w.l2p (v / card.uSectorPerBlock) with
  | none =>
    have nothing := keeps.unmapped _ mapped _ inside
    rw [place] at nothing
    cases here : cells v with
    | never => rfl
    | deleted => rfl
    | holds x => exact absurd here (nothing x)
  | some p =>
    have shows := keeps.shows _ p mapped _ inside
    rw [place] at shows
    cases here : cells v with
    | never =>
      rw [here] at shows
      exact shows
    | deleted => exact absurd here live
    | holds x =>
      rw [here] at shows
      exact shows

/-! ### A freshly scanned card -/

/-- A card on which no two blocks are for the same logical block, what carries no address is
erased, and the marks of the others can be trusted. -/
structure Formatted (card : Card) (flash : Flash) : Prop where
  single : ∀ i < card.eblock 0, ∀ j < card.eblock 0, usedAddress (address card flash i) →
    usedAddress (address card flash j) →
    numberOf (address card flash i) = numberOf (address card flash j) → i = j
  erased : ∀ i < card.eblock 0, address card flash i = 0xffff#16 → ∀ n < card.uPagePerBlock,
    (flash (i * card.uPagePerBlock + n)).Clear card
  honest : ∀ i < card.eblock 0, usedAddress (address card flash i) → ∀ n < card.uPagePerBlock,
    (flash (i * card.uPagePerBlock + n)).Honest card

/-- What a scan has made of the blocks it has been to. -/
structure Listed (card : Card) (flash : Flash) (been : List Nat) (w : World) : Prop where
  kept : w.flash = flash
  mapped : ∀ l p, w.l2p l = some p → p ∈ been ∧ usedAddress (address card flash p) ∧
    numberOf (address card flash p) = l
  free : ∀ node ∈ w.free, node.block ∈ been ∧ ¬ usedAddress (address card flash node.block) ∧
    (node.status = false → address card flash node.block = 0xffff#16)
  nodup : (w.free.map Node.block).Nodup

theorem Listed.round {flash : Flash} {been : List Nat} {i : Nat} (listed : Listed card flash been w)
    (single : ∀ j ∈ been, usedAddress (address card flash j) → usedAddress (address card flash i) →
      numberOf (address card flash j) = numberOf (address card flash i) → j = i)
    (new : i ∉ been) (round : ScanRound card i w w') : Listed card flash (been ++ [i]) w' := by
  have same := listed.kept
  have more : ∀ {b : Nat}, b ∈ been → b ∈ been ++ [i] := fun mem => List.mem_append_left _ mem
  cases round with
  | bad _ flash' table free =>
    have table : w'.l2p = w.l2p := table
    have free : w'.free = w.free := free
    refine ⟨flash'.trans same, fun l p here => ?_, fun node mem => ?_, free ▸ listed.nodup⟩
    · rw [table] at here
      obtain ⟨mem, rest⟩ := listed.mapped l p here
      exact ⟨more mem, rest⟩
    · rw [free] at mem
      obtain ⟨inside, rest⟩ := listed.free node mem
      exact ⟨more inside, rest⟩
  | free eraseFlag kind flash' table free =>
    have table : w'.l2p = w.l2p := table
    have free : w'.free = w.free ++ [⟨i, eraseFlag⟩] := free
    rw [same] at kind
    have unused : ¬ usedAddress (address card flash i) := by
      rintro ⟨blank, -, -, dirty⟩
      rcases kind with ⟨here, -⟩ | ⟨here, -⟩
      · exact blank here
      · exact dirty here
    refine ⟨flash'.trans same, fun l p here => ?_, fun node mem => ?_, ?_⟩
    · rw [table] at here
      obtain ⟨mem, rest⟩ := listed.mapped l p here
      exact ⟨more mem, rest⟩
    · rw [free, List.mem_append, List.mem_singleton] at mem
      rcases mem with before | rfl
      · obtain ⟨inside, rest⟩ := listed.free node before
        exact ⟨more inside, rest⟩
      · refine ⟨List.mem_append_right _ (List.mem_singleton_self i), unused, fun clean => ?_⟩
        rcases kind with ⟨here, -⟩ | ⟨-, dirty⟩
        · exact here
        · rw [dirty] at clean
          cases clean
    · rw [free, List.map_append, List.map_singleton]
      refine listed.nodup.append (List.nodup_singleton _) fun b mem here => ?_
      obtain ⟨node, inside, rfl⟩ := List.mem_map.mp mem
      have same : node.block = i := List.mem_singleton.mp here
      exact new (same ▸ (listed.free node inside).1)
  | first used small none flash' table free =>
    rw [same] at used table
    have table : w'.l2p = Function.update w.l2p (numberOf (address card flash i)) (some i) := table
    have free : w'.free = w.free := free
    refine ⟨flash'.trans same, fun l p here => ?_, fun node mem => ?_, free ▸ listed.nodup⟩
    · rw [table] at here
      by_cases this : l = numberOf (address card flash i)
      · rw [this, Function.update_self] at here
        cases here
        exact ⟨List.mem_append_right _ (List.mem_singleton_self i), used, this.symm⟩
      · rw [Function.update_of_ne this] at here
        obtain ⟨mem, rest⟩ := listed.mapped l p here
        exact ⟨more mem, rest⟩
    · rw [free] at mem
      obtain ⟨inside, rest⟩ := listed.free node mem
      exact ⟨more inside, rest⟩
  | again kept loser winner used small there decided flash' table free =>
    rw [same] at used there
    obtain ⟨mem, used', number⟩ := listed.mapped _ kept there
    exact absurd (single kept mem used' used number ▸ mem) new

theorem Listed.rounds {flash : Flash} {been blocks : List Nat}
    (listed : Listed card flash been w) (once : (been ++ blocks).Nodup)
    (single : ∀ i ∈ been ++ blocks, ∀ j ∈ been ++ blocks, usedAddress (address card flash i) →
      usedAddress (address card flash j) →
      numberOf (address card flash i) = numberOf (address card flash j) → i = j)
    (rounds : ScanRounds card blocks w w') : Listed card flash (been ++ blocks) w' := by
  induction rounds generalizing been with
  | nil => rwa [List.append_nil]
  | @cons i rest w₀ w₁ w₂ first _ ih =>
    have here : i ∈ been ++ i :: rest := List.mem_append_right _ List.mem_cons_self
    have new : i ∉ been := fun mem =>
      (List.nodup_append.mp once).2.2 i mem i List.mem_cons_self rfl
    have next := listed.round (fun j mem used used' number =>
      single j (List.mem_append_left _ mem) i here used used' number) new first
    have assoc : been ++ i :: rest = been ++ [i] ++ rest := by simp
    rw [assoc] at once single ⊢
    exact ih next once single

/-- The scan of such a card ends in a consistent state. -/
theorem Formatted.consistent {flash : Flash} (formatted : Formatted card flash)
    (scan : fmiSML2PTableInit card 0 (powerUp flash) = some (.noErr, w)) :
    Consistent card w ∧ w.flash = flash ∧
      ∀ l p, w.l2p l = some p → p < card.eblock 0 ∧ usedAddress (address card flash p) := by
  obtain ⟨w₁, rounds, table, free, flash', scanned⟩ := init_rounds scan
  have start : Listed card flash [] { powerUp flash with smZone := emptyZone, uFirstL2P := true } :=
    ⟨rfl, fun _ _ here => (by cases here), fun _ mem => (by cases mem), .nil⟩
  have range : ∀ {i : Nat}, i ∈ List.range' 0 (card.eblock 0) → i < card.eblock 0 := by
    intro i mem
    rw [List.mem_range'_1] at mem
    omega
  have listed := start.rounds (by simpa using List.nodup_range' ..)
    (fun i mem j mem' => formatted.single i (range mem) j (range mem')) rounds
  rw [List.nil_append] at listed
  have same : w.flash = flash := flash'.trans listed.kept
  have mapped : ∀ l p, w.l2p l = some p → p < card.eblock 0 ∧
      usedAddress (address card flash p) ∧ numberOf (address card flash p) = l := by
    intro l p here
    rw [World.l2p, table] at here
    obtain ⟨mem, rest⟩ := listed.mapped l p here
    exact ⟨range mem, rest⟩
  have nodes : w.free = w₁.free := free
  refine ⟨⟨scanned, ?_, ?_, ?_, ?_, ?_⟩, same, fun l p here => ⟨(mapped l p here).1,
    (mapped l p here).2.1⟩⟩
  · rw [nodes]
    exact listed.nodup
  · intro l node mem here
    rw [nodes] at mem
    exact (listed.free node mem).2.1 (mapped l _ here).2.1
  · intro l l' p here here'
    exact (mapped l p here).2.2.symm.trans (mapped l' p here').2.2
  · intro node mem clean i inside
    rw [nodes] at mem
    obtain ⟨been, -, blank⟩ := listed.free node mem
    rw [same]
    exact formatted.erased _ (range been) (blank clean) i inside
  · intro l p here i inside
    rw [same]
    exact formatted.honest p (mapped l p here).1 (mapped l p here).2.1 i inside

/-! ### Reading back -/

/-- Every sector that has been written reads back as what the last write that covered it gave. -/
def ReadsBack (card : Card) (calls : List Entry) (w : World) : Prop :=
  ∀ uSector uBufcnt buff, 0 < uBufcnt → uSector + uBufcnt ≤ card.capacity →
    ∃ data, fmiSMRead card uSector uBufcnt buff w = some ((.noErr, data), w) ∧
      ∀ i < uBufcnt, ∀ x, lastWritten (uSector + i) calls = some x → data i = x

/-- A next write changes no sector outside of its range. -/
def WritesAlone (card : Card) (w : World) : Prop :=
  ∀ uSector uBufcnt buff w', (Entry.write uSector uBufcnt buff).Safe card w →
    (Entry.write uSector uBufcnt buff).Succeeds card w w' →
    ∀ v, ¬ (uSector ≤ v ∧ v < uSector + uBufcnt) → held card w' v = held card w v

theorem Keeps.readsBack {calls : List Entry} {first : Cells}
    (keeps : Keeps card (calls.foldl Entry.leaves first) w) : ReadsBack card calls w := by
  intro uSector uBufcnt buff some within
  refine ⟨_, fmiSMRead_run keeps.scanned some within buff, fun i small x last => ?_⟩
  have blocks : 0 < card.uSectorPerBlock := by
    by_contra none
    have zero : card.uSectorPerBlock = 0 := by omega
    rw [Card.capacity, zero] at within
    omega
  have inside := Nat.mod_lt (uSector + i) blocks
  have place : card.number ((uSector + i) / card.uSectorPerBlock)
      ((uSector + i) % card.uSectorPerBlock) = uSector + i := Nat.div_add_mod' _ _
  have cell : calls.foldl Entry.leaves first (uSector + i) = .holds x := by
    rw [cells_written, last]
  rw [if_pos small, shown]
  cases mapped : w.l2p ((uSector + i) / card.uSectorPerBlock) with
  | none =>
    have nothing := keeps.unmapped _ mapped _ inside x
    rw [place] at nothing
    exact absurd cell nothing
  | some p =>
    have shows := keeps.shows _ p mapped _ inside
    rw [place, cell] at shows
    exact shows

theorem Keeps.writesAlone (keeps : Keeps card cells w) (sound : card.FaultFree)
    (live : 0 < card.uSectorPerBlock → ∀ v, cells v ≠ .deleted) : WritesAlone card w := by
  intro uSector uBufcnt buff w' safe step v outside
  have blocks : 0 < card.uSectorPerBlock := by
    by_contra none
    have zero : card.uSectorPerBlock = 0 := by omega
    have within := step.2.1
    have some := step.1
    rw [Card.capacity, zero] at within
    omega
  have same : (Entry.write uSector uBufcnt buff).leaves cells v = cells v := if_neg outside
  have after := keeps.entry sound safe step
  rw [after.held_eq blocks (by rw [same]; exact live blocks v), same,
    keeps.held_eq blocks (live blocks v)]

/-- In every run from a consistent state without deleted pages, such as the scan of a formatted
card leaves, where no call leaves the flag of a partly written page unset. -/
theorem read_after_write (card : Card) (sound : card.FaultFree) {w₀ w : World}
    (consistent : Consistent card w₀)
    (live : ∀ l p, w₀.l2p l = some p → ∀ i < card.uPagePerBlock,
      (w₀.flash (p * card.uPagePerBlock + i)).Live card) {calls : List Entry}
    (run : Run (Guarded (Entry.Safe card) fun v e v' => e.Succeeds card v v') w₀ calls w) :
    ReadsBack card calls w ∧ WritesAlone card w := by
  have keeps := consistent.keeps.calls sound run
  refine ⟨keeps.readsBack, keeps.writesAlone sound fun blocks v => ?_⟩
  rw [cells_written]
  cases lastWritten v calls with
  | some x => rintro ⟨⟩
  | none =>
    dsimp only
    unfold initially
    cases mapped : w₀.l2p (v / card.uSectorPerBlock) with
    | none => rintro ⟨⟩
    | some p =>
      have page : (card.pageAt w₀.flash p (v % card.uSectorPerBlock)).Live card :=
        live _ p mapped _ (pageOf_lt (Nat.mod_lt v blocks))
      dsimp only
      rw [if_neg page.live]
      rintro ⟨⟩

/-! A card of 64 MB with 2K pages, all of it erased. -/

def blankCard : Card := sixtyFour2K fun _ => true

def zeros : Nat → Sector := fun _ => 0

theorem blank_unused (i : Nat) : ¬ usedAddress (address blankCard (fun _ => .erased) i) := by
  intro used
  by_cases first : i = 0
  · subst first
    exact used.2.2.1 (address_zero _)
  · exact used.1 (address_erased rfl first)

theorem blank_formatted : Formatted blankCard fun _ => .erased :=
  ⟨fun i _ _ _ used => absurd used (blank_unused i), fun _ _ _ _ _ => Page.erased_clear,
    fun i _ used => absurd used (blank_unused i)⟩

/-- A whole block is written. -/
theorem whole_block_reads_back : ∃ w₀ w,
    fmiSML2PTableInit blankCard 0 (powerUp fun _ => .erased) = some (.noErr, w₀) ∧
      fmiSMWrite blankCard 0 256 zeros w₀ = some (.noErr, w) ∧
      ReadsBack blankCard [.write 0 256 zeros] w ∧ WritesAlone blankCard w := by
  have trace : ((fmiSML2PTableInit blankCard 0 (powerUp fun _ => .erased)).bind fun r =>
      (fmiSMWrite blankCard 0 256 zeros r.2).map fun r' => (r.1, r'.1)) =
        some (.noErr, .noErr) := by
    decide +kernel
  obtain ⟨⟨_, w₀⟩, scan, trace⟩ := Option.bind_eq_some_iff.mp trace
  obtain ⟨⟨_, w⟩, write, result⟩ := Option.map_eq_some_iff.mp trace
  obtain ⟨rfl, rfl⟩ := Prod.mk.inj result
  obtain ⟨consistent, -, mapped⟩ := blank_formatted.consistent scan
  refine ⟨w₀, w, scan, write, read_after_write blankCard (fun _ _ => rfl) consistent ?_
    (.cons ⟨?_, by decide, by decide, write⟩ (.nil w))⟩
  · intro l p here
    exact absurd (mapped l p here).2 (blank_unused p)
  · intro t mem loses
    rw [Entry.turns] at mem
    have whole : t.1 ∈ requests blankCard 0 256 := turns_mem mem
    have one : requests blankCard 0 256 = [⟨0, 0, 0, 256, 0⟩] := by decide
    rw [one, List.mem_singleton] at whole
    exact loses.2.1 (congrArg Request.count whole)

/-- Six sectors over four leave the flag of the second page unset, and the next move of the block
leaves the page out. -/
theorem partly_written_lost : ∃ w₀ w,
    fmiSML2PTableInit blankCard 0 (powerUp fun _ => .erased) = some (.noErr, w₀) ∧
      Run (fun v e v' => Entry.Succeeds blankCard v e v') w₀
        [.write 0 4 zeros, .write 0 6 zeros, .write 0 4 zeros] w ∧
      ¬ ReadsBack blankCard [.write 0 4 zeros, .write 0 6 zeros, .write 0 4 zeros] w := by
  have trace : ((fmiSML2PTableInit blankCard 0 (powerUp fun _ => .erased)).bind fun r =>
      (fmiSMWrite blankCard 0 4 zeros r.2).bind fun r₁ =>
        (fmiSMWrite blankCard 0 6 zeros r₁.2).bind fun r₂ =>
          (fmiSMWrite blankCard 0 4 zeros r₂.2).bind fun r₃ =>
            (fmiSMRead blankCard 4 1 zeros r₃.2).map fun r₄ =>
              (r.1, r₁.1, r₂.1, r₃.1, decide (r₄.1.2 0 = 0))) =
        some (.noErr, .noErr, .noErr, .noErr, false) := by
    decide +kernel
  obtain ⟨⟨_, w₀⟩, scan, trace⟩ := Option.bind_eq_some_iff.mp trace
  obtain ⟨⟨_, w₁⟩, first, trace⟩ := Option.bind_eq_some_iff.mp trace
  obtain ⟨⟨_, w₂⟩, second, trace⟩ := Option.bind_eq_some_iff.mp trace
  obtain ⟨⟨_, w₃⟩, third, trace⟩ := Option.bind_eq_some_iff.mp trace
  obtain ⟨⟨⟨_, data⟩, w₄⟩, read, result⟩ := Option.map_eq_some_iff.mp trace
  simp only [Prod.mk.injEq, decide_eq_false_iff_not] at result
  obtain ⟨rfl, rfl, rfl, rfl, lost⟩ := result
  refine ⟨w₀, w₃, scan, .cons ⟨by decide, by decide, first⟩ (.cons ⟨by decide, by decide, second⟩
    (.cons ⟨by decide, by decide, third⟩ (.nil w₃))), fun reads => ?_⟩
  obtain ⟨data', read', last⟩ := reads 4 1 zeros (by decide) (by decide)
  rw [read] at read'
  cases read'
  exact lost (last 0 (by decide) 0 rfl)

end Rovio.Nand
