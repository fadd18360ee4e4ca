import Mathlib

/-! The FIFO of the baseband's side as FIFO16.c drives it (_HIC_MODE_A16_ without DMA). A
port word is its two bytes, the low one first. `drq n` says whether DRQ is up in time for
the block that starts after n words. -/
namespace Rovio.Hic

/-- A USHORT. -/
structure HalfWord where
  low : UInt8
  high : UInt8
  deriving DecidableEq

def HalfWord.bytes (w : HalfWord) : List UInt8 := [w.low, w.high]

def portBytes (port : List HalfWord) : List UInt8 := port.flatMap HalfWord.bytes

/-- `WBHIC_FIFO_T`. -/
structure Fifo where
  uSizeTotal : Nat
  uSizeOK : Nat
  usHalf : HalfWord

def sizeFifo : Nat := 128

/-- `wbhicPartReadFIFO_Begin` and `wbhicPartWriteFIFO_Begin`; words are two bytes wide. -/
def partFIFO_Begin (uSizeTotal : Nat) : Fifo :=
  ⟨(uSizeTotal + uSizeTotal % 2) % 2 ^ 32, 0, ⟨0, 0⟩⟩

/-- What is left of the total; a total of 0 sets no limit. -/
def toAdd (fifo : Fifo) (uAdd : Nat) : Nat :=
  if fifo.uSizeTotal = 0 then uAdd else min uAdd (fifo.uSizeTotal - fifo.uSizeOK)

structure Blocks where
  before : Nat
  blocks : Nat
  after : Nat

def wbhicFIFO_CalcBlocks (fifo : Fifo) (uAdd : Nat) : Blocks :=
  let uToAdd := toAdd fifo uAdd
  let uBlock_First := (sizeFifo - fifo.uSizeOK % sizeFifo) % sizeFifo
  if uBlock_First ≥ uToAdd then ⟨uToAdd, 0, 0⟩
  else
    let rest := uToAdd - uBlock_First
    ⟨uBlock_First, rest / sizeFifo, rest % sizeFifo⟩

variable (drq : Nat → Bool)

/-! ### Reading -/

section
variable (words : Nat → HalfWord)

/-- The bytes of so many words from the n-th on. -/
def readWords : Nat → Nat → List UInt8
  | 0, _ => []
  | count + 1, n => (words n).low :: (words n).high :: readWords count (n + 1)

/-- An odd last byte takes a word whose other half is kept for the next call. -/
def readBytes (count : Nat) (usHalf : HalfWord) (n : Nat) : List UInt8 × HalfWord × Nat :=
  let bytes := readWords words (count / 2) n
  let n := n + count / 2
  if count % 2 = 1 then (bytes ++ [(words n).low], words n, n + 1) else (bytes, usHalf, n)

def readBlocks : Nat → Nat → Bool × List UInt8 × Nat
  | 0, n => (true, [], n)
  | blocks + 1, n =>
    if drq n then
      let (bOK, bytes, m) := readBlocks blocks (n + sizeFifo / 2)
      (bOK, readWords words (sizeFifo / 2) n ++ bytes, m)
    else (false, [], n)

def readAfter (after : Nat) (bOK : Bool) (usHalf : HalfWord) (n : Nat) :
    Bool × List UInt8 × HalfWord × Nat :=
  if after > 0 ∧ bOK = true then
    if drq n then (true, readBytes words after usHalf n) else (false, [], usHalf, n)
  else (bOK, [], usHalf, n)

structure PartRead where
  bOK : Bool
  bytes : List UInt8
  fifo : Fifo
  taken : Nat

/-- `taken` words have been read from the port. -/
def wbhicPartReadFIFO (fifo : Fifo) (taken uBufferSize : Nat) : PartRead :=
  let sizes := wbhicFIFO_CalcBlocks fifo uBufferSize
  let packed := fifo.uSizeOK % 2 = 1 ∧ sizes.before > 0
  let half := if packed then [fifo.usHalf.high] else []
  let before := if packed then sizes.before - 1 else sizes.before
  let (first, usHalf, n) := readBytes words before fifo.usHalf taken
  let (bOK, middle, n) := readBlocks drq words sizes.blocks n
  let (bOK, last, usHalf, n) := readAfter drq words sizes.after bOK usHalf n
  let bytes := half ++ first ++ middle ++ last
  ⟨bOK, bytes, { fifo with uSizeOK := fifo.uSizeOK + bytes.length, usHalf := usHalf }, n⟩

/-- Reads what has not been read, a byte at a time; `left` bounds the bytes. -/
def partReadRest : Nat → Fifo → Nat → Bool × Fifo × Nat
  | 0, fifo, taken => (true, fifo, taken)
  | left + 1, fifo, taken =>
    if fifo.uSizeOK < fifo.uSizeTotal then
      let r := wbhicPartReadFIFO drq words fifo taken 1
      if r.bOK then partReadRest left r.fifo r.taken else (false, r.fifo, r.taken)
    else (true, fifo, taken)

def wbhicPartReadFIFO_End (fifo : Fifo) (taken : Nat) : Bool × Fifo × Nat :=
  partReadRest drq words (fifo.uSizeTotal - fifo.uSizeOK) fifo taken

end

/-! ### Writing -/

/-- So many words made of the bytes, and the bytes behind them. -/
def makeWords : Nat → List UInt8 → List HalfWord × List UInt8
  | count + 1, low :: high :: pcuc =>
    let (words, rest) := makeWords count pcuc
    (⟨low, high⟩ :: words, rest)
  | _, pcuc => ([], pcuc)

structure Out where
  port : List HalfWord
  usHalf : HalfWord
  pcuc : List UInt8

/-- An odd last byte waits for the next call. -/
def writeBytes (count : Nat) (out : Out) : Out :=
  let (words, pcuc) := makeWords (count / 2) out.pcuc
  if count % 2 = 1 then ⟨out.port ++ words, ⟨pcuc.headD 0, 0⟩, pcuc.tail⟩
  else ⟨out.port ++ words, out.usHalf, pcuc⟩

def writeBlocks : Nat → Out → Bool × Out
  | 0, out => (true, out)
  | blocks + 1, out =>
    if drq out.port.length then
      let (words, pcuc) := makeWords (sizeFifo / 2) out.pcuc
      writeBlocks blocks ⟨out.port ++ words, out.usHalf, pcuc⟩
    else (false, out)

def writeAfter (after : Nat) (bOK : Bool) (out : Out) : Bool × Out :=
  if after > 0 ∧ bOK = true then
    if drq out.port.length then (true, writeBytes after out) else (false, out)
  else (bOK, out)

structure PartWrite where
  bOK : Bool
  fifo : Fifo
  port : List HalfWord

def wbhicPartWriteFIFO (fifo : Fifo) (port : List HalfWord) (pcuc : List UInt8) : PartWrite :=
  let sizes := wbhicFIFO_CalcBlocks fifo pcuc.length
  let packed := fifo.uSizeOK % 2 = 1 ∧ sizes.before > 0
  let out : Out :=
    if packed then
      let usHalf : HalfWord := ⟨fifo.usHalf.low, pcuc.headD 0⟩
      ⟨port ++ [usHalf], usHalf, pcuc.tail⟩
    else ⟨port, fifo.usHalf, pcuc⟩
  let out := writeBytes (if packed then sizes.before - 1 else sizes.before) out
  let (bOK, out) := writeBlocks drq sizes.blocks out
  let (bOK, out) := writeAfter drq sizes.after bOK out
  let uSizeWrite := pcuc.length - out.pcuc.length
  ⟨bOK, { fifo with uSizeOK := fifo.uSizeOK + uSizeWrite, usHalf := out.usHalf }, out.port⟩

/-! ### The bytes of a call -/

/-- Whether the byte can be had: the first one of a block needs DRQ. -/
def Offered (i : Nat) : Prop := i % sizeFifo = 0 → drq (i / 2) = true

instance (i : Nat) : Decidable (Offered drq i) := inferInstanceAs (Decidable (_ → _))

theorem offered_inside {i j : Nat} (boundary : i % sizeFifo = 0) (ready : drq (i / 2) = true)
    (low : i ≤ j) (high : j < i + sizeFifo) : Offered drq j := by
  intro start
  unfold sizeFifo at boundary high start
  rwa [show j = i by omega]

/-- The parts of a call, put together. -/
theorem wbhicFIFO_CalcBlocks_parts (fifo : Fifo) (uAdd : Nat) :
    let sizes := wbhicFIFO_CalcBlocks fifo uAdd
    toAdd fifo uAdd = sizes.before + (sizes.blocks * sizeFifo + sizes.after) ∧
      (∀ j, fifo.uSizeOK ≤ j → j < fifo.uSizeOK + sizes.before → j % sizeFifo ≠ 0) ∧
      (0 < sizes.blocks ∨ 0 < sizes.after → (fifo.uSizeOK + sizes.before) % sizeFifo = 0) ∧
      sizes.after < sizeFifo := by
  simp only [wbhicFIFO_CalcBlocks]
  have first : (fifo.uSizeOK + (sizeFifo - fifo.uSizeOK % sizeFifo) % sizeFifo) % sizeFifo = 0 := by
    unfold sizeFifo
    omega
  have inside : ∀ j, fifo.uSizeOK ≤ j →
      j < fifo.uSizeOK + (sizeFifo - fifo.uSizeOK % sizeFifo) % sizeFifo → j % sizeFifo ≠ 0 := by
    intro j low high
    unfold sizeFifo at high ⊢
    omega
  split
  · exact ⟨by simp, fun j low high => inside j low (by simp only at high; omega), by simp,
      (by decide : 0 < sizeFifo)⟩
  · refine ⟨?_, inside, fun _ => first, Nat.mod_lt _ (by decide)⟩
    have whole := Nat.div_add_mod'
      (toAdd fifo uAdd - (sizeFifo - fifo.uSizeOK % sizeFifo) % sizeFifo) sizeFifo
    simp only
    omega

end Rovio.Hic
