import Rovio.Nand.Access
import Rovio.Nand.FreeList

/-! The loops of `fmiSM_Read` and `fmiSM_Write` in the 32-bit words they count in, and the calls
they make of the block operation. -/
namespace Rovio.Nand

/-- A call of `get_block_data` or `update_block_data`. -/
structure Call where
  zone : BitVec 32
  block : BitVec 32
  sector : BitVec 32
  secCount : BitVec 32
  buff : BitVec 32

/-- The variables of the loop. `count` is an int, the others are unsigned. -/
structure Range where
  zoneNo : BitVec 32
  rblock : BitVec 32
  rpage : BitVec 32
  pageCount : BitVec 32
  count : BitVec 32
  pBuf : BitVec 32
  retryCount : Nat

namespace Range

def first (uSectorPerBlock uSector uBufcnt uDAddr : BitVec 32) : Range :=
  let sblock := uSector / uSectorPerBlock
  let rpage := uSector % uSectorPerBlock
  { zoneNo := sblock / 1000
    rblock := sblock % 1000
    rpage
    pageCount := if uBufcnt > uSectorPerBlock - rpage then uSectorPerBlock - rpage else uBufcnt
    count := uBufcnt
    pBuf := uDAddr
    retryCount := 0 }

def call (v : Range) : Call := ⟨v.zoneNo, v.rblock, v.rpage, v.pageCount, v.pBuf⟩

/-- What follows a call that did not fail. -/
def advance (uSectorPerBlock : BitVec 32) (v : Range) : Option Range :=
  let count := v.count - v.pageCount
  if count.toInt ≤ 0 then none
  else
    let last := decide (v.rblock + 1 ≥ 1000)
    some
      { zoneNo := if last then v.zoneNo + 1 else v.zoneNo
        rblock := if last then 0 else v.rblock + 1
        rpage := 0
        pageCount := if uSectorPerBlock > count then count else uSectorPerBlock
        count
        pBuf := v.pBuf + v.pageCount * 512
        retryCount := v.retryCount }

/-- The loop, with the answer to its `n`-th call. -/
def calls (failed : Status → Bool) (uSectorPerBlock : BitVec 32) (answer : Nat → Status) :
    Nat → Nat → Range → Option (List (Call × Status) × Status)
  | 0, _, _ => none
  | fuel + 1, n, v =>
    let made := (v.call, answer n)
    if failed (answer n) then
      if v.retryCount + 1 < 3 then
        (calls failed uSectorPerBlock answer fuel (n + 1) { v with retryCount := v.retryCount + 1 }).map
          fun rest => (made :: rest.1, rest.2)
      else some ([made], answer n)
    else match v.advance uSectorPerBlock with
      | none => some ([made], .noErr)
      | some v' => (calls failed uSectorPerBlock answer fuel (n + 1) v').map
          fun rest => (made :: rest.1, rest.2)

end Range

/-- `fmiSM_Read`. -/
def readCalls (uSectorPerBlock : BitVec 32) (answer : Nat → Status) (fuel : Nat)
    (uSector uBufcnt uDAddr : BitVec 32) : Option (List (Call × Status) × Status) :=
  Range.calls Status.isError uSectorPerBlock answer fuel 0
    (Range.first uSectorPerBlock uSector uBufcnt uDAddr)

/-- `fmiSM_Write`. -/
def writeCalls (uSectorPerBlock : BitVec 32) (answer : Nat → Status) (fuel : Nat)
    (uSector uBufcnt uSAddr : BitVec 32) : Option (List (Call × Status) × Status) :=
  Range.calls (fun s => s ≠ .noErr) uSectorPerBlock answer fuel 0
    (Range.first uSectorPerBlock uSector uBufcnt uSAddr)

/-! ### The parts of a range -/

/-- The sector of the card that a call starts at. -/
def Call.first (spb : Nat) (c : Call) : Nat :=
  (c.zone.toNat * l2pTableSize + c.block.toNat) * spb + c.sector.toNat

/-- The calls take the sectors up to `stop` one after another, from `start` on, and each stays
within a block. The buffer of the first sector of the range, `base`, is at `buff`. -/
def Parts (spb base : Nat) (buff : BitVec 32) (stop : Nat) : Nat → List Call → Prop
  | start, [] => start = stop
  | start, c :: rest =>
    c.first spb = start ∧ c.block.toNat < l2pTableSize ∧ 0 < c.secCount.toNat ∧
      c.sector.toNat + c.secCount.toNat ≤ spb ∧
      c.buff = buff + 512 * BitVec.ofNat 32 (start - base) ∧
      Parts spb base buff stop (start + c.secCount.toNat) rest

/-- Each part is asked for until it does not fail; the loop ends behind the last of them, or with
the status of a part it gives up. -/
inductive Issued (failed : Status → Bool) : List Call → List (Call × Status) → Status → Prop
  | done : Issued failed [] [] .noErr
  | next {c : Call} {s result : Status} {parts : List Call} {made : List (Call × Status)} :
      failed s = false → Issued failed parts made result →
      Issued failed (c :: parts) ((c, s) :: made) result
  | again {c : Call} {s result : Status} {parts : List Call} {made : List (Call × Status)} :
      failed s = true → Issued failed (c :: parts) made result →
      Issued failed (c :: parts) ((c, s) :: made) result
  | givenUp {c : Call} {s : Status} {parts : List Call} :
      failed s = true → Issued failed (c :: parts) [(c, s)] s

/-- Where no call fails, the calls are the parts. -/
theorem Issued.calls_eq {failed : Status → Bool} {parts : List Call} {made : List (Call × Status)}
    {result : Status} (issued : Issued failed parts made result)
    (fine : ∀ m ∈ made, failed m.2 = false) : made.map Prod.fst = parts ∧ result = .noErr := by
  induction issued with
  | done => exact ⟨rfl, rfl⟩
  | next _ _ ih =>
    obtain ⟨rest, result⟩ := ih fun m mem => fine m (List.mem_cons_of_mem _ mem)
    exact ⟨by rw [List.map_cons, rest], result⟩
  | again error _ _ =>
    have none := fine _ List.mem_cons_self
    rw [error] at none
    cases none
  | givenUp error =>
    have none := fine _ List.mem_cons_self
    rw [error] at none
    cases none

variable {card : Card} {stop zone block sector pageCount count offset fuel n retryCount : Nat}
  {failed : Status → Bool} {answer : Nat → Status}

/-- What is left of a range that ends at `stop`, at the head of the loop. -/
structure Fits (card : Card) (stop zone block sector pageCount count : Nat) : Prop where
  block_lt : block < l2pTableSize
  sector_lt : sector < card.uSectorPerBlock
  left : 0 < count
  part : pageCount = min (card.uSectorPerBlock - sector) count
  ends : (zone * l2pTableSize + block) * card.uSectorPerBlock + sector + count = stop

namespace Fits

theorem positive (fits : Fits card stop zone block sector pageCount count) : 0 < pageCount := by
  have := fits.part
  have := fits.sector_lt
  have := fits.left
  omega

theorem le_count (fits : Fits card stop zone block sector pageCount count) : pageCount ≤ count := by
  have := fits.part
  omega

theorem within (fits : Fits card stop zone block sector pageCount count) :
    sector + pageCount ≤ card.uSectorPerBlock := by
  have := fits.part
  have := fits.sector_lt
  omega

/-- A part that leaves something reaches the end of its block. -/
theorem whole (fits : Fits card stop zone block sector pageCount count)
    (more : count - pageCount ≠ 0) : sector + pageCount = card.uSectorPerBlock := by
  have := fits.part
  have := fits.sector_lt
  omega

theorem zone_lt (fits : Fits card stop zone block sector pageCount count) (word : stop < 2 ^ 33) :
    zone + 1 < 2 ^ 32 := by
  have size : 1 ≤ card.uSectorPerBlock := by
    have := fits.sector_lt
    omega
  have here : (zone * l2pTableSize + block) * 1 ≤
      (zone * l2pTableSize + block) * card.uSectorPerBlock := Nat.mul_le_mul_left _ size
  have ends := fits.ends
  unfold l2pTableSize at here ends
  omega

/-- The next block of the zone, or the first one of the next zone. -/
theorem next (fits : Fits card stop zone block sector pageCount count)
    (more : count - pageCount ≠ 0) {zone' block' : Nat} (within : block' < l2pTableSize)
    (behind : zone' * l2pTableSize + block' = zone * l2pTableSize + block + 1) :
    Fits card stop zone' block' 0
      (if card.uSectorPerBlock > count - pageCount then count - pageCount
        else card.uSectorPerBlock) (count - pageCount) where
  block_lt := within
  sector_lt := by
    have := fits.sector_lt
    omega
  left := by omega
  part := by
    split <;> omega
  ends := by
    have whole := fits.whole more
    have ends := fits.ends
    rw [behind, Nat.add_mul, Nat.one_mul]
    omega

theorem start (blocks : 0 < card.uSectorPerBlock) (left : 0 < count) (uSector : Nat) :
    Fits card (uSector + count) (uSector / card.uSectorPerBlock / l2pTableSize)
      (uSector / card.uSectorPerBlock % l2pTableSize) (uSector % card.uSectorPerBlock)
      (if count > card.uSectorPerBlock - uSector % card.uSectorPerBlock then
        card.uSectorPerBlock - uSector % card.uSectorPerBlock else count) count where
  block_lt := Nat.mod_lt _ (by decide)
  sector_lt := Nat.mod_lt _ blocks
  left := left
  part := by
    split <;> omega
  ends := by
    rw [Nat.div_add_mod', Nat.div_add_mod']

end Fits

def Request.call (buff : BitVec 32) (r : Request) : Call :=
  ⟨.ofNat 32 r.zone, .ofNat 32 r.block, .ofNat 32 r.sector, .ofNat 32 r.count,
    buff + 512 * .ofNat 32 r.offset⟩

/-- The requests of a range partition it. -/
theorem requestsFrom_parts {base start : Nat} (buff : BitVec 32) (word : stop < 2 ^ 33)
    (narrow : card.uSectorPerBlock < 2 ^ 32)
    (fits : Fits card stop zone block sector pageCount count) (enough : count < fuel)
    (here : start + count = stop) (behind : start = base + offset) :
    Parts card.uSectorPerBlock base buff stop start
      ((requestsFrom card fuel zone block sector pageCount count offset).map
        (Request.call buff)) := by
  induction fuel generalizing zone block sector pageCount count offset start with
  | zero => omega
  | succ fuel ih =>
    have positive := fits.positive
    have le := fits.le_count
    have within := fits.within
    have blocks := fits.block_lt
    have ends := fits.ends
    have table : l2pTableSize = 1000 := rfl
    have zoneNat : (BitVec.ofNat 32 zone).toNat = zone :=
      Nat.mod_eq_of_lt (by have := fits.zone_lt word; omega)
    have blockNat : (BitVec.ofNat 32 block).toNat = block := Nat.mod_eq_of_lt (by omega)
    have sectorNat : (BitVec.ofNat 32 sector).toNat = sector := Nat.mod_eq_of_lt (by omega)
    have countNat : (BitVec.ofNat 32 pageCount).toNat = pageCount := Nat.mod_eq_of_lt (by omega)
    have at_start : start - base = offset := by omega
    simp only [requestsFrom, List.map_cons, Parts, Call.first, Request.call, zoneNat, blockNat,
      sectorNat, countNat, at_start]
    refine ⟨by omega, blocks, positive, within, trivial, ?_⟩
    by_cases more : count - pageCount = 0
    · rw [if_pos more]
      exact (by omega : start + pageCount = stop)
    · rw [if_neg more]
      split
      · have last : (zone + 1) * l2pTableSize + 0 = zone * l2pTableSize + block + 1 := by
          unfold l2pTableSize at *
          omega
        exact ih (fits.next more (Nat.zero_lt_succ 999) last) (by omega) (by omega) (by omega)
      · have within : block + 1 < l2pTableSize := by omega
        exact ih (fits.next more within (Nat.add_assoc _ _ _).symm) (by omega) (by omega) (by omega)

/-! ### The loops make the calls -/

namespace Range

/-- The variables before the call of a request, with so many sectors left. -/
def before (buff : BitVec 32) (r : Request) (count retryCount : Nat) : Range :=
  { zoneNo := .ofNat 32 r.zone
    rblock := .ofNat 32 r.block
    rpage := .ofNat 32 r.sector
    pageCount := .ofNat 32 r.count
    count := .ofNat 32 count
    pBuf := buff + 512 * .ofNat 32 r.offset
    retryCount }

theorem ofNat_sub_ofNat {a b : Nat} (le : b ≤ a) :
    BitVec.ofNat 32 a - BitVec.ofNat 32 b = .ofNat 32 (a - b) := by
  rw [sub_eq_iff_eq_add, ← BitVec.ofNat_add, Nat.sub_add_cancel le]

/-- An int that is not negative. -/
theorem ofNat_toInt {a : Nat} (word : a < 2 ^ 31) : (BitVec.ofNat 32 a).toInt = a := by
  have nat : (BitVec.ofNat 32 a).toNat = a := Nat.mod_eq_of_lt (by omega)
  rw [BitVec.toInt_eq_toNat_cond, nat, if_pos (by omega)]

theorem ofNat_gt_ofNat {a b : Nat} (left : a < 2 ^ 32) (right : b < 2 ^ 32) :
    BitVec.ofNat 32 a > BitVec.ofNat 32 b ↔ a > b := by
  rw [gt_iff_lt, BitVec.lt_def, BitVec.toNat_ofNat, BitVec.toNat_ofNat, Nat.mod_eq_of_lt left,
    Nat.mod_eq_of_lt right]

variable {buff : BitVec 32}

/-- A part is the last one of the range, or the next one starts a block. -/
theorem advance_before (fits : Fits card stop zone block sector pageCount count)
    (signed : count < 2 ^ 31) (narrow : card.uSectorPerBlock < 2 ^ 32) :
    (before buff ⟨zone, block, sector, pageCount, offset⟩ count retryCount).advance
        (.ofNat 32 card.uSectorPerBlock) =
      let left := count - pageCount
      if left = 0 then none
      else
        let pageCount' := if card.uSectorPerBlock > left then left else card.uSectorPerBlock
        if block + 1 ≥ l2pTableSize then
          some (before buff ⟨zone + 1, 0, 0, pageCount', offset + pageCount⟩ left retryCount)
        else some (before buff ⟨zone, block + 1, 0, pageCount', offset + pageCount⟩ left
          retryCount) := by
  have le := fits.le_count
  have block_lt := fits.block_lt
  have table : l2pTableSize = 1000 := rfl
  have nextBlock : (BitVec.ofNat 32 block + 1 ≥ 1000) ↔ block + 1 ≥ l2pTableSize := by
    rw [ge_iff_le, BitVec.le_def]
    have nat : (BitVec.ofNat 32 block + 1).toNat = block + 1 := by
      simp
      omega
    rw [nat]
    rfl
  have left : (BitVec.ofNat 32 (count - pageCount)).toInt ≤ 0 ↔ count - pageCount = 0 := by
    rw [ofNat_toInt (by omega)]
    omega
  have more := ofNat_gt_ofNat narrow (by omega : count - pageCount < 2 ^ 32)
  have buffer : buff + 512 * BitVec.ofNat 32 offset + BitVec.ofNat 32 pageCount * 512 =
      buff + 512 * BitVec.ofNat 32 (offset + pageCount) := by
    rw [BitVec.ofNat_add, mul_add, add_assoc, mul_comm (BitVec.ofNat 32 pageCount)]
  simp only [advance, before, ofNat_sub_ofNat le, left, nextBlock, more, buffer]
  split
  · rfl
  · by_cases last : block + 1 ≥ l2pTableSize
    · simp only [last, decide_true, if_true, BitVec.ofNat_add]
      split <;> rfl
    · simp only [last, decide_false, Bool.false_eq_true, if_false, BitVec.ofNat_add]
      split <;> rfl

theorem calls_issued (fits : Fits card stop zone block sector pageCount count)
    (signed : count < 2 ^ 31) (narrow : card.uSectorPerBlock < 2 ^ 32) {m : Nat}
    (more : count < m) (retries : retryCount < 3) (enough : count + 3 < fuel + retryCount) :
    ∃ made result,
      calls failed (.ofNat 32 card.uSectorPerBlock) answer fuel n
        (before buff ⟨zone, block, sector, pageCount, offset⟩ count retryCount) =
          some (made, result) ∧
      Issued failed ((requestsFrom card m zone block sector pageCount count offset).map
        (Request.call buff)) made result := by
  induction fuel generalizing m n zone block sector pageCount count offset retryCount with
  | zero => omega
  | succ fuel ih =>
    obtain ⟨m, rfl⟩ : ∃ k, m = k + 1 := ⟨m - 1, by omega⟩
    unfold calls
    dsimp only
    cases error : failed (answer n) with
    | true =>
      rw [if_pos rfl]
      by_cases retry : retryCount + 1 < 3
      · obtain ⟨made, result, run, issued⟩ :=
          ih fits signed more retry (by omega)
        exact ⟨(_, answer n) :: made, result, (if_pos retry).trans (congrArg (Option.map _) run),
          .again error issued⟩
      · refine ⟨_, _, if_neg retry, ?_⟩
        exact .givenUp error
    | false =>
      rw [if_neg Bool.false_ne_true, advance_before fits signed narrow]
      have positive := fits.positive
      unfold requestsFrom
      dsimp only
      by_cases last : count - pageCount = 0
      · rw [if_pos last, if_pos last]
        exact ⟨_, _, rfl, .next error .done⟩
      · rw [if_neg last, if_neg last]
        have block_lt := fits.block_lt
        by_cases ends : block + 1 ≥ l2pTableSize
        · rw [if_pos ends, if_pos ends]
          have place : (zone + 1) * l2pTableSize + 0 = zone * l2pTableSize + block + 1 := by
            unfold l2pTableSize at *
            omega
          obtain ⟨made, result, run, issued⟩ := ih
            (fits.next last (Nat.zero_lt_succ 999) place) (by omega)
            (by omega : count - pageCount < m) retries (by omega)
          exact ⟨_ :: made, result, congrArg (Option.map _) run, .next error issued⟩
        · rw [if_neg ends, if_neg ends]
          obtain ⟨made, result, run, issued⟩ := ih
            (fits.next last (Nat.lt_of_not_le ends) (Nat.add_assoc _ _ _).symm) (by omega)
            (by omega : count - pageCount < m) retries (by omega)
          exact ⟨_ :: made, result, congrArg (Option.map _) run, .next error issued⟩

/-- The division by the sectors of a block, and by the blocks of a zone. -/
theorem first_eq (blocks : 0 < card.uSectorPerBlock) (narrow : card.uSectorPerBlock < 2 ^ 32)
    (uSector uBufcnt : BitVec 32) :
    first (.ofNat 32 card.uSectorPerBlock) uSector uBufcnt buff =
      before buff
        ⟨uSector.toNat / card.uSectorPerBlock / l2pTableSize,
          uSector.toNat / card.uSectorPerBlock % l2pTableSize, uSector.toNat % card.uSectorPerBlock,
          if uBufcnt.toNat > card.uSectorPerBlock - uSector.toNat % card.uSectorPerBlock then
            card.uSectorPerBlock - uSector.toNat % card.uSectorPerBlock
          else uBufcnt.toNat, 0⟩ uBufcnt.toNat 0 := by
  have sizeNat : (BitVec.ofNat 32 card.uSectorPerBlock).toNat = card.uSectorPerBlock :=
    Nat.mod_eq_of_lt narrow
  have sblock : uSector.toNat / card.uSectorPerBlock < 2 ^ 32 :=
    Nat.lt_of_le_of_lt (Nat.div_le_self _ _) uSector.isLt
  have blockNat : (BitVec.ofNat 32 (uSector.toNat / card.uSectorPerBlock)).toNat =
      uSector.toNat / card.uSectorPerBlock := Nat.mod_eq_of_lt sblock
  have part : BitVec.ofNat 32 card.uSectorPerBlock -
      .ofNat 32 (uSector.toNat % card.uSectorPerBlock) =
        .ofNat 32 (card.uSectorPerBlock - uSector.toNat % card.uSectorPerBlock) :=
    ofNat_sub_ofNat (Nat.mod_lt _ blocks).le
  have more := ofNat_gt_ofNat uBufcnt.isLt (by omega :
    card.uSectorPerBlock - uSector.toNat % card.uSectorPerBlock < 2 ^ 32)
  rw [BitVec.ofNat_toNat, BitVec.setWidth_eq] at more
  simp only [first, before, BitVec.udiv_def, BitVec.umod_def, sizeNat, blockNat, part, more]
  split <;> simp [l2pTableSize]

end Range

/-- The calls of a run go over the requests of the range, which partition it. Where none of them
fails, they are the calls. -/
def Partitioned (card : Card) (failed : Status → Bool) (uSector uBufcnt buff : BitVec 32)
    (run : Option (List (Call × Status) × Status)) : Prop :=
  let parts := (requests card uSector.toNat uBufcnt.toNat).map (Request.call buff)
  Parts card.uSectorPerBlock uSector.toNat buff (uSector.toNat + uBufcnt.toNat) uSector.toNat parts ∧
    ∃ made result, run = some (made, result) ∧ Issued failed parts made result ∧
      ((∀ m ∈ made, failed m.2 = false) → made.map Prod.fst = parts ∧ result = .noErr)

theorem calls_partitioned (blocks : 0 < card.uSectorPerBlock)
    (narrow : card.uSectorPerBlock < 2 ^ 32) {uSector uBufcnt buff : BitVec 32}
    (positive : 0 < uBufcnt.toInt) (enough : uBufcnt.toNat + 3 < fuel) :
    Partitioned card failed uSector uBufcnt buff
      (Range.calls failed (.ofNat 32 card.uSectorPerBlock) answer fuel n
        (Range.first (.ofNat 32 card.uSectorPerBlock) uSector uBufcnt buff)) := by
  have signed : 0 < uBufcnt.toNat ∧ uBufcnt.toNat < 2 ^ 31 := by
    rw [BitVec.toInt_eq_toNat_cond] at positive
    have := uBufcnt.isLt
    split at positive <;> omega
  have fits := Fits.start blocks signed.1 uSector.toNat
  have word := uSector.isLt
  have parts := requestsFrom_parts buff (by omega) narrow fits (Nat.lt_succ_self uBufcnt.toNat) rfl
    (Nat.add_zero _).symm
  rw [Range.first_eq blocks narrow]
  obtain ⟨made, result, run, issued⟩ := Range.calls_issued fits signed.2 narrow
    (Nat.lt_succ_self uBufcnt.toNat) (Nat.zero_lt_succ 2) enough
  exact ⟨parts, made, result, run, issued, issued.calls_eq⟩

/-- Of every range with a positive number of sectors, as an int, and whatever the calls answer. -/
theorem ranges_partitioned (card : Card) (blocks : 0 < card.uSectorPerBlock)
    (narrow : card.uSectorPerBlock < 2 ^ 32) (uSector uBufcnt uAddr : BitVec 32)
    (positive : 0 < uBufcnt.toInt) (answer : Nat → Status) (fuel : Nat)
    (enough : uBufcnt.toNat + 3 < fuel) :
    Partitioned card Status.isError uSector uBufcnt uAddr
        (readCalls (.ofNat 32 card.uSectorPerBlock) answer fuel uSector uBufcnt uAddr) ∧
      Partitioned card (fun s => s ≠ .noErr) uSector uBufcnt uAddr
        (writeCalls (.ofNat 32 card.uSectorPerBlock) answer fuel uSector uBufcnt uAddr) :=
  ⟨calls_partitioned blocks narrow positive enough, calls_partitioned blocks narrow positive enough⟩

theorem read_partitioned :
    Partitioned (wornCard fun _ _ => .ok) Status.isError 31995 70 0
        (readCalls 32 (fun _ => .noErr) 80 31995 70 0) ∧
      Partitioned (wornCard fun _ _ => .ok) (fun s => s ≠ .noErr) 31995 70 0
        (writeCalls 32 (fun _ => .noErr) 80 31995 70 0) :=
  ranges_partitioned (wornCard fun _ _ => .ok) (by decide) (by decide) 31995 70 0 (by decide)
    (fun _ => .noErr) 80 (by decide)

end Rovio.Nand
