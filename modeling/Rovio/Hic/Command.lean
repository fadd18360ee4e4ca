import Rovio.Kit.Bytes
import Rovio.Hic.Fifo

/-! Type IV and V commands: the baseband's side in ModeProtocolCmd.c, the host's in
hic_command.c. Parameters are buffers; a length of WBHIC_FIFO_PIPE_IO, which makes one a
soft pipe, is not modelled. -/
namespace Rovio.Hic

open Kit

/-- `uParamLen` is a UINT32. -/
structure Param where
  bytes : List UInt8
  fits : bytes.length < 2 ^ 32

/-- `UINT32_2_UCHAR`. -/
def word (n : Nat) : List UInt8 := leBytes (BitVec.ofNat 32 n)

/-- `UCHAR_2_UINT32` of the four bytes at the position. -/
def wordAt (pc : List UInt8) (i : Nat) : Nat :=
  (leWord (pc.getD i 0) (pc.getD (i + 1) 0) (pc.getD (i + 2) 0) (pc.getD (i + 3) 0)).toNat

/-! ### The host -/

/-- `HIC_CMD_45_T` as the reader fills it in, with the slice as an offset. -/
structure Slice where
  uParamLen : Nat
  pcParam : Nat
  uParamLen_IO : Nat
  deriving DecidableEq

def readParams (pcBuffer : List UInt8) : Nat → Nat → List Slice
  | 0, _ => []
  | count + 1, pc =>
    if pc + 4 > pcBuffer.length then []
    else
      let uParamLen := wordAt pcBuffer pc
      let uParamLen_IO := min uParamLen (pcBuffer.length - (pc + 4))
      ⟨uParamLen, pc + 4, uParamLen_IO⟩ :: readParams pcBuffer count (pc + 4 + uParamLen_IO)

/-- `__hicReadCmd45`: the parameters read, maybe partially. -/
def readCmd45 (pcBuffer : List UInt8) (uParamNum : Nat) : List Slice :=
  if 4 > pcBuffer.length then []
  else if uParamNum ≠ wordAt pcBuffer 0 then []
  else readParams pcBuffer uParamNum 4

def hicReadCmd45 (pcBuffer : List UInt8) (uParamNum : Nat) : Bool × List Slice :=
  let pCmdParam := readCmd45 pcBuffer uParamNum
  if pCmdParam.length ≠ uParamNum then (false, pCmdParam)
  else
    match pCmdParam.getLast? with
    | some last => (last.uParamLen == last.uParamLen_IO, pCmdParam)
    | none => (true, pCmdParam)

def writeParams (uLength : Nat) : List Param → Nat → List UInt8
  | [], _ => []
  | param :: params, pc =>
    if pc + 4 > uLength then []
    else
      let uParamLen_IO := min param.bytes.length (uLength - (pc + 4))
      word param.bytes.length ++ param.bytes.take uParamLen_IO ++
        writeParams uLength params (pc + 4 + uParamLen_IO)

/-- `__hicWriteCmd5`: what is written to a buffer of that length. -/
def writeCmd5 (uLength : Nat) (params : List Param) : List UInt8 :=
  if 4 > uLength then []
  else word params.length ++ writeParams uLength params 4

/-! ### The baseband -/

variable (drq : Nat → Bool)

def sendParams : List Param → Fifo → List HalfWord → Bool × Fifo × List HalfWord
  | [], fifo, port => (true, fifo, port)
  | param :: params, fifo, port =>
    let r := wbhicPartWriteFIFO drq fifo port (word param.bytes.length)
    if r.bOK then
      let r := wbhicPartWriteFIFO drq r.fifo r.port param.bytes
      if r.bOK then sendParams params r.fifo r.port else (false, r.fifo, r.port)
    else (false, r.fifo, r.port)

/-- Fills up with zeros what has not been written; `left` bounds the bytes. -/
def partWriteRest : Nat → Fifo → List HalfWord → Bool × Fifo × List HalfWord
  | 0, fifo, port => (true, fifo, port)
  | left + 1, fifo, port =>
    if fifo.uSizeOK < fifo.uSizeTotal then
      let r := wbhicPartWriteFIFO drq fifo port [0]
      if r.bOK then partWriteRest left r.fifo r.port else (false, r.fifo, r.port)
    else (true, fifo, port)

/-- The last odd byte goes out with a zero. -/
def wbhicPartWriteFIFO_End (fifo : Fifo) (port : List HalfWord) : List HalfWord :=
  let (bOK, fifo, port) := partWriteRest drq (fifo.uSizeTotal - fifo.uSizeOK) fifo port
  if bOK = true ∧ fifo.uSizeOK % 2 ≠ 0 then (wbhicPartWriteFIFO drq fifo port [0]).port else port

def paramsLength (params : List Param) : Nat := (params.map fun p => 4 + p.bytes.length).sum

structure Sent45 where
  bOK : Bool
  uBufferLength : Nat
  port : List HalfWord

/-- `__wbhicCmd_IV_or_V_Send`; `lengthOK` is the result of `__wbhicCmd_III_Write_Len`, which
sends the length. -/
def wbhicCmd_IV_or_V_Send (lengthOK : Bool) (params : List Param) : Sent45 :=
  let uBufferLength := (4 + paramsLength params) % 2 ^ 32
  if lengthOK then
    let r := wbhicPartWriteFIFO drq (partFIFO_Begin uBufferLength) [] (word params.length)
    if r.bOK then
      let (bOK, fifo, port) := sendParams drq params r.fifo r.port
      if bOK then ⟨true, uBufferLength, wbhicPartWriteFIFO_End drq fifo port⟩
      else ⟨false, uBufferLength, port⟩
    else ⟨false, uBufferLength, r.port⟩
  else ⟨false, uBufferLength, []⟩

/-- What the host finds in its FIFO. -/
def Sent45.stream (sent : Sent45) : List UInt8 :=
  (portBytes sent.port).take sent.uBufferLength

/-- A caller's buffer by its length, and whether the real length is asked for. -/
structure Slot where
  uParamLen : Nat
  asksLength : Bool

/-- What is put into a caller's buffer and into the variable for the real length. -/
structure Delivered where
  saved : List UInt8
  uRealParamLen : Option Nat
  deriving DecidableEq

structure Receiver where
  fifo : Fifo
  taken : Nat
  pucBuf : List UInt8

variable (words : Nat → HalfWord)

/-- A short read leaves what was in the buffer behind it. -/
def recvWord (s : Receiver) : Bool × Receiver :=
  let r := wbhicPartReadFIFO drq words s.fifo s.taken 4
  (r.bOK, ⟨r.fifo, r.taken, r.bytes ++ s.pucBuf.drop r.bytes.length⟩)

/-- Reads and drops what is not for the caller's buffer. -/
def dropBytes : Nat → Fifo → Nat → Bool × Fifo × Nat
  | 0, fifo, taken => (true, fifo, taken)
  | uDropParamLen + 1, fifo, taken =>
    let r := wbhicPartReadFIFO drq words fifo taken 1
    if r.bOK then dropBytes uDropParamLen r.fifo r.taken else (false, r.fifo, r.taken)

/-- One round of the loop over the parameters. -/
def recvParam (slot : Slot) (s : Receiver) : Bool × List Delivered × Receiver :=
  let (bOK, s) := recvWord drq words s
  if bOK then
    let uRealParamLen := wordAt s.pucBuf 0
    let real := if slot.asksLength then some uRealParamLen else none
    let uSaveParamLen := min slot.uParamLen uRealParamLen
    let r := wbhicPartReadFIFO drq words s.fifo s.taken uSaveParamLen
    let delivered := [⟨r.bytes, real⟩]
    if r.bOK then
      let (bOK, fifo, taken) := dropBytes drq words (uRealParamLen - uSaveParamLen) r.fifo r.taken
      (bOK, delivered, ⟨fifo, taken, s.pucBuf⟩)
    else (false, delivered, ⟨r.fifo, r.taken, s.pucBuf⟩)
  else (false, [], s)

def recvParams : List Slot → Receiver → Bool × List Delivered × Receiver
  | [], s => (true, [], s)
  | slot :: slots, s =>
    let (bOK, delivered, s) := recvParam drq words slot s
    if bOK then
      let (bOK, rest, s) := recvParams slots s
      (bOK, delivered ++ rest, s)
    else (false, delivered, s)

structure Received where
  bOK : Bool
  delivered : List Delivered
  taken : Nat

/-- `__wbhicCmd_V_Recv`; `lengthOK` is the result of `__wbhicCmd_Wait_DRQ`, which tells the
length. -/
def wbhicCmd_V_Recv (lengthOK : Bool) (uResponLen : Nat) (slots : List Slot) : Received :=
  if lengthOK then
    let (bOK, s) := recvWord drq words ⟨partFIFO_Begin uResponLen, 0, word uResponLen⟩
    let (bOK, delivered, s) :=
      if bOK = true ∧ slots.length = wordAt s.pucBuf 0 then recvParams drq words slots s
      else (bOK, [], s)
    if bOK then ⟨true, delivered, (wbhicPartReadFIFO_End drq words s.fifo s.taken).2.2⟩
    else ⟨false, delivered, s.taken⟩
  else ⟨false, [], 0⟩

/-! ### Both sides -/

/-- What the port does in the course of a command: the results of the waits, DRQ for either
direction, and the bytes behind a response. -/
structure Line where
  notBusy : Bool
  lengthSent : Bool
  drqOut : Nat → Bool
  lengthReady : Bool
  drqIn : Nat → Bool
  beyond : Nat → UInt8
  finished : Bool

/-- The words of a response in the port. -/
def Line.port (line : Line) (response : List UInt8) (n : Nat) : HalfWord :=
  ⟨response.getD (2 * n) (line.beyond (2 * n)), response.getD (2 * n + 1) (line.beyond (2 * n + 1))⟩

def Line.sends (line : Line) (params : List Param) : Bool :=
  line.notBusy && (wbhicCmd_IV_or_V_Send line.drqOut line.lengthSent params).bOK

/-- The host, with a buffer of `uLength` bytes, answers with these parameters. -/
def wbhicCmd_V (line : Line) (params : List Param) (slots : List Slot) (uLength : Nat)
    (answer : List Param) : Received :=
  if line.sends params then
    let response := writeCmd5 uLength answer
    let r := wbhicCmd_V_Recv line.drqIn (line.port response) line.lengthReady response.length slots
    { r with bOK := r.bOK && line.finished }
  else ⟨false, [], 0⟩

end Rovio.Hic
