import Rovio.Nand.Update

/-! `fmiSM_Read`, `fmiSM_Write` and `fmiSMDelete` of sm_l2p.c: a range of sectors is cut
into requests for one block each. The loops take the block operation as an argument. -/
namespace Rovio.Nand

open Kit

/-- `offset` counts the sectors of the caller's buffer. -/
structure Request where
  zone : Nat
  block : Nat
  sector : Nat
  count : Nat
  offset : Nat
  deriving DecidableEq

/-- Negative, as the callers test it. -/
def Status.isError : Status → Bool
  | .noErr | .emptyBlock => false
  | _ => true

variable (card : Card)

def requestsFrom : Nat → Nat → Nat → Nat → Nat → Nat → Nat → List Request
  | 0, _, _, _, _, _, _ => []
  | fuel + 1, zoneNo, rblock, rpage, pageCount, count, offset =>
    ⟨zoneNo, rblock, rpage, pageCount, offset⟩ ::
      let left := count - pageCount
      if left = 0 then []
      else
        let pageCount' := if card.uSectorPerBlock > left then left else card.uSectorPerBlock
        if rblock + 1 ≥ l2pTableSize then
          requestsFrom fuel (zoneNo + 1) 0 0 pageCount' left (offset + pageCount)
        else requestsFrom fuel zoneNo (rblock + 1) 0 pageCount' left (offset + pageCount)

def requests (uSector uBufcnt : Nat) : List Request :=
  let sblock := uSector / card.uSectorPerBlock
  let rpage := uSector % card.uSectorPerBlock
  let pageCount := if uBufcnt > card.uSectorPerBlock - rpage then card.uSectorPerBlock - rpage
    else uBufcnt
  requestsFrom card (uBufcnt + 1) (sblock / l2pTableSize) (sblock % l2pTableSize) rpage pageCount
    uBufcnt 0

/-- A block operation with so many retries left, and how many are left behind it. -/
def attempt {α : Type} (failed : α → Bool) (x : Drive α) : Nat → Drive (α × Nat)
  | 0 => do
    let r ← x
    return (r, 0)
  | retries + 1 => do
    let r ← x
    if failed r then attempt failed x retries else return (r, retries + 1)

/-! ### Reading -/

def readRuns (psector : Nat) : List (Nat × Nat) → Nat → (Nat → Sector) → Drive (Nat → Sector)
  | [], _, buff => return buff
  | (rsector, sectorCount) :: rest, pBuf, buff => do
    let page ← readPage psector
    readRuns (psector + 1) rest (pBuf + sectorCount)
      (storeSectors buff pBuf sectorCount fun i => page.data (rsector + i))

/-- An unmapped block leaves the buffer as it is. -/
def getBlockData (zone block sector secCount pBuf : Nat) (buff : Nat → Sector) :
    Drive (Status × (Nat → Sector)) := do
  ensureScanned card zone
  match ← getL2P zone block with
  | none => return (.emptyBlock, buff)
  | some pblock =>
    if card.u2KPageSize then
      let buff' ← readRuns (pblock * card.uPagePerBlock + sector / 4) (pageRuns (sector % 4) secCount)
        pBuf buff
      return (.noErr, buff')
    else
      let data ← fmiSMRead512 (pblock * card.uPagePerBlock + sector)
      return (.noErr, storeSectors buff pBuf secCount data)

def readRequests : List Request → Nat → (Nat → Sector) → Drive (Status × (Nat → Sector))
  | [], _, buff => return (.noErr, buff)
  | r :: rest, retries, buff => do
    let (answer, left) ← attempt (fun a => a.1.isError)
      (getBlockData card r.zone r.block r.sector r.count r.offset buff) retries
    if answer.1.isError then return answer else readRequests rest left answer.2

def fmiSMRead (uSector uBufcnt : Nat) (buff : Nat → Sector) : Drive (Status × (Nat → Sector)) :=
  readRequests card (requests card uSector uBufcnt) 2 buff

/-! ### Writing -/

abbrev UpdateBlock := Nat → Nat → Nat → Nat → (Nat → Sector) → Drive Status

def updateBlock : UpdateBlock :=
  if card.u2KPageSize then updateBlockData2K card else updateBlockData card

def writeRequests (update : UpdateBlock) (buff : Nat → Sector) : List Request → Nat → Drive Status
  | [], _ => return .noErr
  | r :: rest, retries => do
    let (status, left) ← attempt (fun s => s ≠ .noErr)
      (update r.zone r.block r.sector r.count fun i => buff (r.offset + i)) retries
    if status ≠ .noErr then return status else writeRequests update buff rest left

def fmiSMWriteWith (update : UpdateBlock) (uSector uBufcnt : Nat) (buff : Nat → Sector) :
    Drive Status :=
  writeRequests update buff (requests card uSector uBufcnt) 2

def fmiSMWrite : Nat → Nat → (Nat → Sector) → Drive Status :=
  fmiSMWriteWith card (updateBlock card)

/-! ### Deleting -/

def countDeletedPage : Drive Unit := fun w =>
  some ((), { w with uDelPageOfBlock := w.uDelPageOfBlock + 1 })

def markPages : Nat → List Bool → Drive Unit
  | _, [] => return ()
  | ssector, whole :: rest => do
    if whole then
      let _ ← fmiSMSetMarkFlag card ssector 0xfc
      countDeletedPage
      markPages (ssector + 1) rest
    else markPages (ssector + 1) rest

def selectDelBlock (p : Nat) : Drive Unit := fun w =>
  some ((), if w.nPreDelBlock ≠ some p then { w with nPreDelBlock := some p, uDelPageOfBlock := 0 }
    else w)

/-- Pages of which every sector is deleted; the loop of a 512-byte card runs at least once. -/
def pagesToMark (sector secCount : Nat) : List Bool :=
  if card.u2KPageSize then (pageRuns (sector % 4) secCount).map fun run => run.2 = 4
  else List.replicate (max 1 secCount) true

def markSectors (p sector secCount : Nat) : Drive Unit := do
  selectDelBlock p
  let ssector := p * card.uPagePerBlock + (if card.u2KPageSize then sector / 4 else sector)
  markPages card ssector (pagesToMark card sector secCount)

def deleteBlock (zone block p : Nat) : Drive Status := do
  let status ← fmiSMBlockErase card p
  if status ≠ .noErr then return status
  else
    setL2P zone block none
    smAddFreeBlock card zone p false

/-- The end of `mark_block_data`: all pages of the last marked block are deleted. -/
def mergeDeleted (zone block : Nat) : Drive Status := fun w =>
  if w.uDelPageOfBlock = card.uPagePerBlock then
    match w.nPreDelBlock with
    | none => none
    | some p => deleteBlock card zone block p w
  else some (.noErr, w)

def markBlockData (zone block sector secCount : Nat) : Drive Status := do
  ensureScanned card zone
  match ← getL2P zone block with
  | none => return .noErr
  | some p =>
    if secCount = card.uSectorPerBlock then
      let status ← deleteBlock card zone block p
      if status ≠ .noErr then return status else mergeDeleted card zone block
    else
      markSectors card p sector secCount
      mergeDeleted card zone block

abbrev MarkBlock := Nat → Nat → Nat → Nat → Drive Status

def deleteRequests (mark : MarkBlock) : List Request → Drive Unit
  | [] => return ()
  | r :: rest => do
    let _ ← mark r.zone r.block r.sector r.count
    deleteRequests mark rest

def fmiSMDeleteWith (mark : MarkBlock) (pDiskSM pDiskSMP ptPDisk uSector uSecCount : Nat) :
    Drive Unit :=
  if ptPDisk ≠ pDiskSM ∨ ptPDisk ≠ pDiskSMP then return ()
  else
    let uSector := if ptPDisk = pDiskSMP then uSector + card.uReservedBaseSector else uSector
    deleteRequests mark (requests card uSector uSecCount)

def fmiSMDelete : Nat → Nat → Nat → Nat → Nat → Drive Unit :=
  fmiSMDeleteWith card (markBlockData card)

end Rovio.Nand
