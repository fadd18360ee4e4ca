import Rovio.Nand.Driver

/-! `update_block_data` and `update_block_data_2K` of sm_l2p.c: a write to the sectors of
one logical block. Each function is split at its branches: the whole block, a part of a
block that must be moved to a new one, a part that fits into the old block, and a part of
a block that has none. `_fmi_bIsSamSungNAND` is never set, so that the copy-back branch is
not reached. -/
namespace Rovio.Nand

open Kit

/-- `memcpy` of so many sectors to the offset. -/
def storeSectors (dest : Nat → Sector) (offset count : Nat) (src : Nat → Sector) : Nat → Sector :=
  fun i => if offset ≤ i ∧ i < offset + count then src (i - offset) else dest i

/-- The loop over the pages of a request, with the sector within the page and the number of
sectors of each round. -/
def pageRunsFrom : Nat → Nat → Nat → Nat → List (Nat × Nat)
  | 0, _, _, _ => []
  | fuel + 1, rsector, sectorCount, count =>
    (rsector, sectorCount) ::
      let left := count - sectorCount
      if left = 0 then [] else pageRunsFrom fuel 0 (if left < 4 then left else 4) left

def pageRuns (rsector count : Nat) : List (Nat × Nat) :=
  pageRunsFrom (count + 1) rsector (if count > 4 - rsector then 4 - rsector else count) count

/-- The sequence bits of the mark, counted on by one. -/
def nextRAMark (mark : BitVec 32) : BitVec 32 :=
  ((((mark &&& 0x30000000#32) >>> 28) + 1#32) <<< 28) &&& 0x30000000#32

/-- The sequence number of a whole new block, with the first page of the old one. -/
def sequenceAfter (readMark : Nat → Drive (BitVec 32)) : Option Nat → Drive (BitVec 32)
  | some page => nextRAMark <$> readMark page
  | none => return 0

variable (card : Card)

def fmiSMRead512 (uSector : Nat) : Drive (Nat → Sector) :=
  fun w => some (fun i => (w.flash (uSector + i)).data 0, w)

/-- The mark and the address of page 0, where the write does not start in that page. -/
def writePage0Behind (first : Nat) (blockAddr : BitVec 16) (dsector : Nat) (mark : BitVec 32) :
    Drive Status :=
  if first ≠ 0 then fmiSMWritePage0 card blockAddr dsector mark else return .noErr

/-! ### Used pages -/

def runUsed (reg : BitVec 32) (rsec sectorCount : Nat) : Bool :=
  if flagBytes reg = 0xfefe00#32 then
    (List.range sectorCount).any fun i => !reg.getLsbD (24 + (rsec + i))
  else flagBytes reg = 0xfcfc00#32

def checkPageMark2K (page : Nat) : List (Nat × Nat) → Drive Bool
  | [] => return false
  | (rsec, sectorCount) :: rest => do
    let p ← readPage page
    if runUsed p.mark rsec sectorCount then return true else checkPageMark2K (page + 1) rest

def checkPageMark512 (page : Nat) : Nat → Drive Bool
  | 0 => return false
  | count + 1 => do
    let p ← readPage page
    if flagBytes p.mark ≠ 0xffff00#32 then return true else checkPageMark512 (page + 1) count

def checkPageMark (page count sector : Nat) : Drive Bool :=
  if card.u2KPageSize then checkPageMark2K page (pageRuns sector count)
  else checkPageMark512 page count

/-! ### Cards with 512-byte pages -/

section
variable (zone block : Nat) (pblock : Option Nat) (freeBlock : Nat)

/-- The whole block is written: the old one need not be backed up. The status of the last
erase is overwritten. -/
def fullBlock512 (secCount : Nat) (buff : Nat → Sector) : Drive Status := do
  let raMark ← sequenceAfter fmiSMGetMarkData (pblock.map (· * card.uPagePerBlock))
  let dsector := freeBlock * card.uPagePerBlock
  let _ ← fmiSML2PWriteProtect card dsector 0x7f
  let status ← fmiSMWrite512 card (fmiSMGetBlockAddr block) dsector secCount buff
    (raMark ||| 0xc0fefeff#32)
  if status ≠ .noErr then
    let _ ← fmiSMBlockErase card freeBlock
    return status
  else
    let _ ← fmiSML2PWriteProtect card dsector 0x3f
    setL2P zone block (some freeBlock)
    match pblock with
    | some p =>
      let _ ← fmiSMBlockErase card p
      smAddFreeBlock card zone p false
    | none => return .noErr

/-- The end of a move to the new block, which a failed write reaches too when the new block
could be erased and freed. -/
def finishMove512 (p sector : Nat) (raMark : BitVec 32) : Drive Status := do
  let dsector := freeBlock * card.uPagePerBlock
  let _ ← writePage0Behind card sector (fmiSMGetBlockAddr block) dsector (raMark ||| 0xcfffffff#32)
  let _ ← fmiSML2PWriteProtect card dsector 0x3f
  setL2P zone block (some freeBlock)
  let status ← fmiSMBlockErase card p
  if status ≠ .noErr then return status else smAddFreeBlock card zone p false

def moveBlock512 (p sector secCount : Nat) (buff : Nat → Sector) (mark : BitVec 32) :
    Drive Status := do
  let raMark := nextRAMark mark
  let dsector := freeBlock * card.uPagePerBlock
  let _ ← fmiSML2PWriteProtect card dsector 0x7f
  let old ← fmiSMRead512 (p * card.uPagePerBlock)
  let status ← fmiSMWrite512 card (fmiSMGetBlockAddr block) dsector card.uPagePerBlock
    (storeSectors old sector secCount buff) (raMark ||| 0xc0fefeff#32)
  if status ≠ .noErr then
    let status ← fmiSMBlockErase card freeBlock
    if status ≠ .noErr then return status
    else
      let status ← smAddFreeBlock card zone freeBlock false
      if status ≠ .noErr then return status
      else finishMove512 card zone block freeBlock p sector raMark
  else finishMove512 card zone block freeBlock p sector raMark

def writeInPlace512 (p sector secCount : Nat) (buff : Nat → Sector) (mark : BitVec 32) :
    Drive Status := do
  let status ← fmiSMWrite512 card (fmiSMGetBlockAddr block) (p * card.uPagePerBlock + sector)
    secCount buff ((mark &&& 0x30000000#32) ||| 0xc0fefeff#32)
  if status ≠ .noErr then return status else smAddFreeBlock card zone freeBlock false

def newBlock512 (sector secCount : Nat) (buff : Nat → Sector) : Drive Status := do
  let dsector := freeBlock * card.uPagePerBlock
  let _ ← fmiSML2PWriteProtect card dsector 0x7f
  let status ← fmiSMWrite512 card (fmiSMGetBlockAddr block) (dsector + sector) secCount buff
    0xc0fefeff#32
  if status ≠ .noErr then return status
  else
    setL2P zone block (some freeBlock)
    let _ ← writePage0Behind card sector (fmiSMGetBlockAddr block) dsector 0xcfffffff#32
    let _ ← fmiSML2PWriteProtect card dsector 0x3f
    return .noErr

end

def updateBlockData (zone block sector secCount : Nat) (buff : Nat → Sector) : Drive Status := do
  ensureScanned card zone
  let pblock ← getL2P zone block
  let freeBlock ← getFreeBlock card zone
  if secCount = card.uSectorPerBlock then fullBlock512 card zone block pblock freeBlock secCount buff
  else match pblock with
    | some p =>
      let mark ← fmiSMGetMarkData (p * card.uPagePerBlock)
      let used ← checkPageMark card (p * card.uPagePerBlock + sector) secCount sector
      if used then moveBlock512 card zone block freeBlock p sector secCount buff mark
      else writeInPlace512 card zone block freeBlock p sector secCount buff mark
    | none => newBlock512 card zone block freeBlock sector secCount buff

/-! ### Cards with 2K pages -/

/-- Bits `column` to `column + secCount - 1`. -/
def columnBits (column secCount : Nat) : BitVec 32 :=
  (List.range secCount).foldl (fun mark i => mark ||| 1#32 <<< (column + i)) 0

/-- The page that a partial update starts from, which is an empty one for page -1. -/
def pageToUpdate : Option Nat → Drive Page
  | none => return ⟨fun _ => blankSector, 0xfffefeff#32, 0xffff#16⟩
  | some spage => do
    let page ← readPage spage
    return if flagBytes page.mark = 0xfcfc00#32 then
      { page with mark := (page.mark &&& 0xff0000ff#32) ||| 0xfefe00#32 } else page

def updatePageData (blockAddr : BitVec 16) (raMark : BitVec 32) (spage : Option Nat)
    (dpage column secCount : Nat) (buff : Nat → Sector) : Drive Status := do
  if secCount = 4 then fmiSMWrite2K card blockAddr dpage buff (raMark ||| 0xc0fefeff#32)
  else
    let page ← pageToUpdate spage
    let reg := page.mark
    let mark := (reg &&& (~~~(columnBits column secCount) <<< 24)) ||| (reg &&& 0xffffff#32)
    fmiSMWrite2K card blockAddr dpage (storeSectors page.data column secCount buff)
      ((mark &&& 0xcfffffff#32) ||| raMark)

/-- The loop around `update_page_data`; with no source page it stays -1. -/
def updatePages (blockAddr : BitVec 16) (raMark : BitVec 32) :
    Option Nat → Nat → List (Nat × Nat) → (Nat → Sector) → Drive Status
  | _, _, [], _ => return .noErr
  | spage, dpage, (rsector, sectorCount) :: rest, buff => do
    let status ← updatePageData card blockAddr raMark spage dpage rsector sectorCount buff
    if status ≠ .noErr then return status
    else
      updatePages blockAddr raMark (spage.map (· + 1)) (dpage + 1) rest
        fun i => buff (i + sectorCount)

/-- The loops that move original pages; pages not in use are left out. -/
def movePages (blockAddr : BitVec 16) (raMark set : BitVec 32) : Nat → Nat → Nat → Drive Status
  | _, _, 0 => return .noErr
  | ssector, dsector, n + 1 => do
    let page ← readPage ssector
    let mark := page.mark ||| set
    if flagBytes mark = 0xfefe00#32 then
      let status ← fmiSMWrite2K card blockAddr dsector page.data
        (raMark ||| (mark &&& 0xcfffffff#32))
      if status ≠ .noErr then return status
      else movePages blockAddr raMark set (ssector + 1) (dsector + 1) n
    else movePages blockAddr raMark set (ssector + 1) (dsector + 1) n

section
variable (zone block : Nat) (pblock : Option Nat) (freeBlock : Nat)

/-- The new block is given up: it is erased, and lost to the free list. -/
def giveUpBlock (status : Status) : Drive Status := do
  let _ ← fmiSMBlockErase card freeBlock
  return status

def finishBlock2K : Drive Status := do
  let _ ← fmiSML2PWriteProtect card (freeBlock * card.uPagePerBlock) 0x3f
  setL2P zone block (some freeBlock)
  match pblock with
  | some p =>
    let status ← fmiSMBlockErase card p
    if status ≠ .noErr then return status else smAddFreeBlock card zone p false
  | none => return .noErr

/-- The pages of a whole block, with four sectors of the buffer each. -/
def writePages2K (mark : BitVec 32) (dsector : Nat) (buff : Nat → Sector) : Drive Status :=
  issueAll card ((List.range card.uPagePerBlock).map fun i =>
    .page (dsector + i) ⟨fun c => buff (4 * i + c), mark, fmiSMGetBlockAddr block⟩)

def fullBlock2K (buff : Nat → Sector) : Drive Status := do
  let raMark ← sequenceAfter (fun n => Page.mark <$> readPage n)
    (pblock.map (· * card.uPagePerBlock))
  let dsector := freeBlock * card.uPagePerBlock
  let _ ← fmiSML2PWriteProtect card dsector 0x7f
  let status ← writePages2K card block (raMark ||| 0xc0fefeff#32) dsector buff
  if status ≠ .noErr then giveUpBlock card freeBlock status
  else finishBlock2K card zone block pblock freeBlock

def moveBlock2K (p sector secCount : Nat) (buff : Nat → Sector) (mark : BitVec 32) :
    Drive Status := do
  let raMark := nextRAMark mark
  let blockAddr := fmiSMGetBlockAddr block
  let ssector := p * card.uPagePerBlock
  let dsector := freeBlock * card.uPagePerBlock
  let rpage := sector / 4
  let _ ← fmiSML2PWriteProtect card dsector 0x7f
  let status ← movePages card blockAddr raMark 0xc0000000#32 ssector dsector rpage
  let _ ← writePage0Behind card rpage blockAddr dsector (raMark ||| 0xcfffffff#32)
  if status ≠ .noErr then giveUpBlock card freeBlock status
  else
    let runs := pageRuns (sector % 4) secCount
    let status ← updatePages card blockAddr raMark (some (ssector + rpage)) (dsector + rpage) runs
      buff
    if status ≠ .noErr then giveUpBlock card freeBlock status
    else
      let next := if (sector + secCount) % 4 ≠ 0 then (sector + secCount) / 4 + 1
        else (sector + secCount) / 4
      let status ← movePages card blockAddr raMark 0 (ssector + rpage + runs.length)
        (dsector + rpage + runs.length) (card.uPagePerBlock - next)
      if status ≠ .noErr then giveUpBlock card freeBlock status
      else finishBlock2K card zone block (some p) freeBlock

def writeInPlace2K (p sector secCount : Nat) (buff : Nat → Sector) (mark : BitVec 32) :
    Drive Status := do
  let status ← updatePages card (fmiSMGetBlockAddr block) (mark &&& 0x30000000#32) none
    (p * card.uPagePerBlock + sector / 4) (pageRuns (sector % 4) secCount) buff
  if status ≠ .noErr then return status else smAddFreeBlock card zone freeBlock false

def newBlock2K (sector secCount : Nat) (buff : Nat → Sector) : Drive Status := do
  let blockAddr := fmiSMGetBlockAddr block
  let dsector := freeBlock * card.uPagePerBlock
  let rpage := sector / 4
  let _ ← fmiSML2PWriteProtect card dsector 0x7f
  let _ ← writePage0Behind card rpage blockAddr dsector 0xcfffffff#32
  let status ← updatePages card blockAddr 0 none (dsector + rpage) (pageRuns (sector % 4) secCount)
    buff
  if status ≠ .noErr then return status
  else finishBlock2K card zone block none freeBlock

end

def updateBlockData2K (zone block sector secCount : Nat) (buff : Nat → Sector) : Drive Status := do
  ensureScanned card zone
  let pblock ← getL2P zone block
  let freeBlock ← getFreeBlock card zone
  if secCount = card.uSectorPerBlock then fullBlock2K card zone block pblock freeBlock buff
  else match pblock with
    | some p =>
      let page ← readPage (p * card.uPagePerBlock)
      let used ← checkPageMark card (p * card.uPagePerBlock + sector / 4) secCount (sector % 4)
      if used then moveBlock2K card zone block freeBlock p sector secCount buff page.mark
      else writeInPlace2K card zone block freeBlock p sector secCount buff page.mark
    | none => newBlock2K card zone block freeBlock sector secCount buff

end Rovio.Nand
