import Rovio.Kit.Effect
import Rovio.Nand.Flash

/-! The state of the translation layer in sm_l2p.c, the flash operations of sm.c as
it issues them, and the list of free blocks. Every operation that changes the flash
goes into a log. There is one zone (ZONE_NUM), whose table has 1000 entries; an
access outside of them, or through the null head of an empty free list, stops the
program. The globals _fmi_uRAMark and _fmi_ucBaseAddr1/2, which every call sets before
it reads them, are arguments here. -/
namespace Rovio.Nand

open Kit

/-- `struct node`; `status` is set where the block is not erased. -/
structure Node where
  block : Nat
  status : Bool
  deriving DecidableEq

/-- `struct zone_node`, with -1 in the table as `none`. -/
structure Zone where
  isScan : Bool
  l2pTable : Nat → Option Nat
  freeBlockList : List Node

structure World where
  flash : Flash
  log : List Event
  smZone : Zone
  uFirstL2P : Bool
  nPreDelBlock : Option Nat
  uDelPageOfBlock : Nat
  mallocs : Nat

/-- The card in the socket, what it reports for the n-th operation, and whether the
n-th call of malloc finds memory. -/
structure Card where
  u2KPageSize : Bool
  uPagePerBlock : Nat
  uBlockPerFlash : Nat
  uSMReservedBlock : Nat
  uReservedBaseSector : Nat
  bIsReserved : Bool
  report : Nat → Op → Outcome
  malloc : Nat → Bool

abbrev Drive := Effect World

def zoneNum : Nat := 1

def l2pTableSize : Nat := 1000

def crash {α : Type} : Drive α := fun _ => none

def World.push (card : Card) (w : World) (events : List Event) : World :=
  { w with
    flash := replay card.uPagePerBlock w.flash events
    log := w.log ++ events }

def readPage (uPage : Nat) : Drive Page := fun w => some (w.flash uPage, w)

def getZone (zone : Nat) : Drive Zone :=
    fun w => if zone < zoneNum then some (w.smZone, w) else none

def setZone (z : Zone) : Drive Unit := fun w => some ((), { w with smZone := z })

def getL2P (zone block : Nat) : Drive (Option Nat) := do
  let z ← getZone zone
  if block < l2pTableSize then return z.l2pTable block else crash

def setL2P (zone block : Nat) (entry : Option Nat) : Drive Unit := do
  let z ← getZone zone
  if block < l2pTableSize then
    setZone { z with l2pTable := Function.update z.l2pTable block entry }
  else crash

variable (card : Card)

def Card.uSectorPerBlock : Nat :=
  if card.u2KPageSize then 4 * card.uPagePerBlock else card.uPagePerBlock

def issue (op : Op) : Drive Status := fun w =>
  let out := card.report w.log.length op
  some (out.status, w.push card [⟨op, out⟩])

/-- The loop of a multi-page write, left at the first operation that fails. -/
def issueAll : List Op → Drive Status
  | [] => return .noErr
  | op :: ops => do
    let status ← issue card op
    if status ≠ .noErr then return status else issueAll ops

/-- On a state error the driver also marks the block bad (`fmiCIS_Write`); that is part of
what the failed erase leaves. -/
def fmiSMBlockErase (uBlock : Nat) : Drive Status := issue card (.erase uBlock)

/-- Sets the status byte of the page; a byte not sent is programmed with 0xff. -/
def fmiSML2PWriteProtect (uSector : Nat) (data : BitVec 8) : Drive Status :=
  issue card (.spare uSector (data ++ 0xffffff#24) 0xffff#16)

def fmiSMWritePage0 (blockAddr : BitVec 16) (uSector : Nat) (data : BitVec 32) : Drive Status :=
  issue card (.spare uSector (if card.u2KPageSize then data ||| 0xff#32 else data) blockAddr)

def fmiSMSetMarkFlag (uSector : Nat) (ncData : BitVec 8) : Drive Status :=
  issue card (.spare uSector (0xff#8 ++ ncData ++ ncData ++ 0xff#8) 0xffff#16)

/-- With no sector to write the counter of the loop wraps around. -/
def fmiSMWrite512 (blockAddr : BitVec 16) (uSector uBufcnt : Nat) (buff : Nat → Sector)
    (mark : BitVec 32) : Drive Status :=
  if uBufcnt = 0 then crash
  else issueAll card ((List.range uBufcnt).map fun i =>
    .page (uSector + i) ⟨fun _ => buff i, mark, blockAddr⟩)

def fmiSMWrite2K (blockAddr : BitVec 16) (uSector : Nat) (data : Nat → Sector)
    (mark : BitVec 32) : Drive Status :=
  issue card (.page uSector ⟨data, mark, blockAddr⟩)

/-- The low byte is not part of what is read. -/
def fmiSMGetMarkData (uSector : Nat) : Drive (BitVec 32) := do
  let page ← readPage uSector
  return page.mark &&& 0xffffff00#32

/-- `_fmi_ucBaseAddr1` and `_fmi_ucBaseAddr2`: the block number with an even parity bit. -/
def fmiSMGetBlockAddr (uBlock : Nat) : BitVec 16 :=
  let b := BitVec.ofNat 32 uBlock
  let ones := ((List.range 10).filter fun i => b.getLsbD i).length
  let parity : BitVec 32 := if ones % 2 = 1 then 0 else 1
  ((b >>> 7) ||| 0x10#32).truncate 8 ++ ((b <<< 1) ||| parity).truncate 8

def mallocNode : Drive Bool := fun w =>
  some (card.malloc w.mallocs, { w with mallocs := w.mallocs + 1 })

def smAddFreeBlock (zone blockNo : Nat) (eraseFlag : Bool) : Drive Status := do
  let p ← mallocNode card
  if p then
    let z ← getZone zone
    setZone { z with freeBlockList := z.freeBlockList ++ [⟨blockNo, eraseFlag⟩] }
    return .noErr
  else return .mallocError

/-- The loop of `get_free_block` over the nodes from the head on. -/
def takeFreeBlock (zone : Nat) : List Node → Drive Nat
  | [] => crash
  | p :: next => do
    let z ← getZone zone
    setZone { z with freeBlockList := next }
    if p.status then
      let status ← fmiSMBlockErase card p.block
      if status = .stateError then takeFreeBlock zone next else return p.block
    else return p.block

/-- The block is never negative, so that its callers' test for an error never holds. -/
def getFreeBlock (zone : Nat) : Drive Nat := do
  let z ← getZone zone
  takeFreeBlock card zone z.freeBlockList

/-! ### The scan -/

/-- Whether bytes 1 and 2 of the mark hold the value. -/
def flagBytes (mark : BitVec 32) : BitVec 32 := mark &&& 0xffff00#32

def getBlockAddress (block : Nat) (flag : Bool) : Drive (BitVec 16) := do
  if block = 0 then return 0
  else
    let page ← readPage (card.uPagePerBlock * block)
    let mark := page.mark
    let ba1 :=
      if page.blockAddr ≠ 0xffff#16 ∧ (flagBytes mark = 0xfcfc00#32 ∨
          mark &&& 0xc0000000#32 = 0x40000000#32 ∨ mark &&& 0xc0000000#32 = 0x80000000#32) then
        0xfcfc#16
      else page.blockAddr
    return if flag then (mark >>> 16).truncate 16 else ba1

/-- The sequence numbers of the two blocks tell which one is newer; the other is erased. -/
def fmiCheckBlock (oldBlock newBlock : Nat) : Drive (Except Status Nat) := do
  let oldmark ← getBlockAddress card oldBlock true
  let newmark ← getBlockAddress card newBlock true
  let diff : Int := ((newmark >>> 12) &&& 3#16).toNat - ((oldmark >>> 12) &&& 3#16).toNat
  if diff = -3 ∨ diff = 1 then
    let status ← fmiSMBlockErase card oldBlock
    return if status ≠ .noErr then .error status else .ok newBlock
  else if diff = 3 ∨ diff = -1 then
    let status ← fmiSMBlockErase card newBlock
    return if status ≠ .noErr then .error status else .ok oldBlock
  else return .error .minusOne

/-- One round of the scan; any status but `noErr` ends it. -/
def scanBlock (zone i : Nat) : Drive Status := do
  let ba ← getBlockAddress card i false
  if ba = 0xffff#16 then smAddFreeBlock card zone i false
  else if ba = 0xffee#16 ∨ ba = 0x0000#16 then return .noErr
  else if ba = 0xfcfc#16 then smAddFreeBlock card zone i true
  else
    let blockNum := ((ba &&& 0xfff#16) >>> 1).toNat
    match ← getL2P zone blockNum with
    | some kept =>
      match ← fmiCheckBlock card kept i with
      | .error status => return status
      | .ok block =>
        setL2P zone blockNum (some block)
        if block = i then smAddFreeBlock card zone block false
        else smAddFreeBlock card zone i false
    | none =>
      setL2P zone blockNum (some i)
      return .noErr

def scanBlocks (zone : Nat) : List Nat → Drive Status
  | [] => return .noErr
  | i :: rest => do
    let status ← scanBlock card zone i
    if status ≠ .noErr then return status else scanBlocks zone rest

def Card.eblock (uZoneNo : Nat) : Nat :=
  let eblock := (uZoneNo + 1) * 1024
  if card.bIsReserved then
    if eblock > card.uBlockPerFlash + card.uSMReservedBlock then
      card.uBlockPerFlash + card.uSMReservedBlock + 1
    else eblock
  else if eblock > card.uBlockPerFlash then card.uBlockPerFlash + 1
  else eblock

def emptyZone : Zone := ⟨false, fun _ => none, []⟩

/-- The first call since power-up clears the zone. -/
def clearZones : Drive Unit := fun w =>
  some ((), if w.uFirstL2P then w else { w with smZone := emptyZone, uFirstL2P := true })

def fmiSML2PTableInit (uZoneNo : Nat) : Drive Status := do
  clearZones
  let sblock := uZoneNo * 1024
  let status ← scanBlocks card uZoneNo (List.range' sblock (card.eblock uZoneNo - sblock))
  if status ≠ .noErr then return status
  else
    let z ← getZone uZoneNo
    setZone { z with isScan := true }
    return .noErr

/-- `if (SM_ZONE[zone].isScan == 0) fmiSM_L2PTable_Init(zone)`, whose status is dropped. -/
def ensureScanned (zone : Nat) : Drive Unit := do
  let z ← getZone zone
  if z.isScan then return () else
    let _ ← fmiSML2PTableInit card zone
    return ()

/-- The driver's memory at power-up, with a card that holds the given pages. -/
def powerUp (flash : Flash) : World := ⟨flash, [], emptyZone, false, none, 0, 0⟩

end Rovio.Nand
