import Rovio.Kit.Runs
import Rovio.Media.Pc
import Rovio.Media.Pool

/-! The MP4 encoder and its bitstream buffers. All who start the encoder, an encoding or a clear
hold `vmp4Lock`, and whoever starts an encoding waits for its callback before the unlock; the
callbacks and the readers need no lock. -/
namespace Rovio.Media.Encoder
open Kit

inductive EncState where
  | ok
  | error
  deriving DecidableEq

/-- History: in which session of the encoder a frame was encoded, and its `nIndex`. -/
structure Frame where
  session : Nat
  nIndex : Nat
  deriving DecidableEq

/-- VP_BUFFER_MP4_BITSTREAM_T, and as history the frame that it holds; a header is none. -/
structure Bitstream where
  uLength : UInt32
  tTimeStamp : Nat
  nIndex : Nat
  frame : Option Frame
  deriving DecidableEq

/-- Where the thread with `vmp4Lock` stands: between two calls; in `vmp4encWaitOK`, before the wait
for the producer's semaphore, and between it and its post. -/
inductive Place where
  | locked
  | waiting
  | looked (eEncState : EncState)

/-- `g_vpMP4`, the pool and its buffers, whether the callbacks are installed, whether the hardware
encodes, and how many references readers have to each buffer. History: the frames encoded, the
buffers that readers have got, and the frames dropped by a clear and by a start of the encoder. -/
structure System where
  pool : Pool
  buffers : Nat → Bitstream
  encoding0 : Option Nat
  previous1 : Option Nat
  listBitstream : List Nat
  pcEncFlag : TtPc
  eEncState : EncState
  nEncodeIndex : Nat
  nRefCount_Encoder : Nat
  installed : Bool
  encoding : Bool
  vmp4Lock : Option Place
  held : Nat → Nat
  session : Nat
  encoded : List Frame
  delivered : List Bitstream
  cleared : List Frame
  evicted : List Frame

inductive Action where
  | lock
  | unlock
  | encAddRef (uHeadBitstreamLength : UInt32) (now : Nat)
  | encDecRef
  | encStart (tTimeStamp : Nat)
  | wait
  | post
  | clearBuffer
  | done (uLength : UInt32)
  | error
  | get
  | addRef (b : Nat)
  | decRef (b : Nat)

/-- VP_BUF_APPEND_SIZE, the size of `aucExtraHeader`, and that of a timestamp. -/
def appendSize : UInt32 := 16
def extraHeader : UInt32 := 10
def timeStamp : UInt32 := 8

/-- One reference to each of the buffers goes. -/
def decRefAll (pool : Pool) : List Nat → Option Pool
  | [] => some pool
  | b :: rest => do
    let pool ← pool.decRef b
    decRefAll pool rest

/-- The frames in the buffers of a list. -/
def framesOf (buffers : Nat → Bitstream) (list : List Nat) : List Frame :=
  list.filterMap fun b => (buffers b).frame

/-- The buffer for the header: a free one, or else that at the tail of the list. -/
inductive Reserve (s : System) : Nat → System → Prop where
  | free {b : Nat} {pool : Pool} (new : s.pool.new = some (b, pool)) : Reserve s b { s with pool }
  | tail {b c : Nat} {list : List Nat} {pool pool' : Pool} (new : s.pool.new = none)
      (tail : s.listBitstream = list ++ [c]) (decRef : s.pool.decRef c = some pool)
      (again : pool.new = some (b, pool')) :
      Reserve s b
        { s with
          pool := pool'
          listBitstream := list
          evicted := s.evicted ++ framesOf s.buffers [c] }

/-- A buffer in which nothing has been encoded is free again. -/
def System.release (s : System) (pool : Pool) (b : Nat) (uLength : UInt32) : System :=
  { s with pool, buffers := Function.update s.buffers b { s.buffers b with uLength } }

/-- The rest of `vmp4encAddRef`, where the encoder has been off. A header is queued without an
`nIndex` of its own. -/
inductive Header (s : System) (b : Nat) (uHeadBitstreamLength : UInt32) (now : Nat) :
    System → Prop where
  | queue (some_length : uHeadBitstreamLength ≠ 0) :
      Header s b uHeadBitstreamLength now
        { s with
          buffers := Function.update s.buffers b
            { s.buffers b with
              uLength := uHeadBitstreamLength + (extraHeader + appendSize) + timeStamp
              tTimeStamp := now
              frame := none }
          listBitstream := s.listBitstream ++ [b] }
  | drop {pool : Pool} (no_length : uHeadBitstreamLength = 0) (decRef : s.pool.decRef b = some pool) :
      Header s b uHeadBitstreamLength now (s.release pool b uHeadBitstreamLength)

/-- The buffer that has been encoded gets its length and its index. -/
def number (s : System) (b : Nat) (uLength : UInt32) : System :=
  { s with
    buffers := Function.update s.buffers b
      { s.buffers b with
        uLength, nIndex := s.nEncodeIndex, frame := some ⟨s.session, s.nEncodeIndex⟩ }
    nEncodeIndex := s.nEncodeIndex + 1
    encoded := s.encoded ++ [⟨s.session, s.nEncodeIndex⟩] }

/-- The previous buffer goes to the readers, with its timestamp appended. -/
def queuePrevious (s : System) : System :=
  match s.previous1 with
  | some c =>
    { s with
      buffers := Function.update s.buffers c
        { s.buffers c with uLength := (s.buffers c).uLength + timeStamp }
      listBitstream := s.listBitstream ++ [c] }
  | none => s

/-- The middle of `vmp4encDoneCallback`. -/
def shift (s : System) (b : Nat) (uLength : UInt32) : System :=
  { queuePrevious (number s b uLength) with previous1 := some b }

/-- What a callback of the hardware does behind its own part. -/
def System.endEncoding (s : System) (eEncState : EncState) : System :=
  { s with
    eEncState
    pcEncFlag := (ttPcTryConsume s.pcEncFlag).getD s.pcEncFlag
    encoding0 := none
    encoding := false }

inductive Step : System → Action → System → Prop where
  | lock {s : System} (free : s.vmp4Lock = none) :
      Step s .lock { s with vmp4Lock := some .locked }
  | unlock {s : System} (here : s.vmp4Lock = some .locked) :
      Step s .unlock { s with vmp4Lock := none }
  | encAddRef {s s' s'' : System} {uHeadBitstreamLength : UInt32} {now b : Nat}
      (here : s.vmp4Lock = some .locked) (first : s.nRefCount_Encoder = 0)
      (reserve : Reserve { s with
        nRefCount_Encoder := 1, nEncodeIndex := 0, session := s.session + 1 } b s')
      (header : Header s' b uHeadBitstreamLength now s'') :
      Step s (.encAddRef uHeadBitstreamLength now) { s'' with installed := true }
  | encAddRefAgain {s : System} {uHeadBitstreamLength : UInt32} {now n : Nat}
      (here : s.vmp4Lock = some .locked) (again : s.nRefCount_Encoder = n + 1) :
      Step s (.encAddRef uHeadBitstreamLength now) { s with nRefCount_Encoder := n + 2 }
  | encDecRef {s : System} {n : Nat} (here : s.vmp4Lock = some .locked)
      (some_ref : s.nRefCount_Encoder = n + 1) :
      Step s .encDecRef
        { s with nRefCount_Encoder := n, installed := if n = 0 then false else s.installed }
  | encStart {s : System} {tTimeStamp b : Nat} {pool : Pool} {pcEncFlag : TtPc}
      (here : s.vmp4Lock = some .locked) (new : s.pool.new = some (b, pool))
      (produce : ttPcTryProduce s.pcEncFlag = some pcEncFlag) :
      Step s (.encStart tTimeStamp)
        { s with
          pool
          pcEncFlag
          buffers := Function.update s.buffers b { s.buffers b with tTimeStamp, frame := none }
          encoding0 := some b
          encoding := true
          vmp4Lock := some .waiting }
  | noBuffer {s : System} {tTimeStamp : Nat} (here : s.vmp4Lock = some .locked)
      (new : s.pool.new = none) : Step s (.encStart tTimeStamp) s
  | noToken {s : System} {tTimeStamp b : Nat} {pool pool' : Pool}
      (here : s.vmp4Lock = some .locked) (new : s.pool.new = some (b, pool))
      (produce : ttPcTryProduce s.pcEncFlag = none) (decRef : pool.decRef b = some pool') :
      Step s (.encStart tTimeStamp) { s with pool := pool' }
  | wait {s : System} {producer : Nat} (here : s.vmp4Lock = some .waiting)
      (token : s.pcEncFlag.producer = producer + 1) :
      Step s .wait
        { s with
          pcEncFlag := { s.pcEncFlag with producer }
          vmp4Lock := some (.looked s.eEncState) }
  | post {s : System} {eEncState : EncState} (here : s.vmp4Lock = some (.looked eEncState)) :
      Step s .post
        { s with
          pcEncFlag := { s.pcEncFlag with producer := s.pcEncFlag.producer + 1 }
          vmp4Lock := some .locked }
  | clearBuffer {s : System} {pool : Pool} (here : s.vmp4Lock = some .locked)
      (decRef : decRefAll s.pool (s.listBitstream ++ (s.encoding0.toList ++ s.previous1.toList)) =
        some pool) :
      Step s .clearBuffer
        { s with
          pool
          cleared := s.cleared ++
            framesOf s.buffers (s.listBitstream ++ (s.encoding0.toList ++ s.previous1.toList))
          listBitstream := []
          encoding0 := none
          previous1 := none }
  | done {s : System} {uLength : UInt32} {b : Nat} (busy : s.encoding = true)
      (installed : s.installed = true) (here : s.encoding0 = some b)
      (some_length : uLength + appendSize ≠ 0) :
      Step s (.done uLength)
        ((shift s b (uLength + appendSize)).endEncoding .ok)
  | doneEmpty {s : System} {uLength : UInt32} {b : Nat} {pool : Pool} (busy : s.encoding = true)
      (installed : s.installed = true) (here : s.encoding0 = some b)
      (no_length : uLength + appendSize = 0) (decRef : s.pool.decRef b = some pool) :
      Step s (.done uLength) ((s.release pool b (uLength + appendSize)).endEncoding .ok)
  | error {s : System} {b : Nat} {pool : Pool} (busy : s.encoding = true)
      (installed : s.installed = true) (here : s.encoding0 = some b)
      (decRef : s.pool.decRef b = some pool) :
      Step s .error ({ s with pool }.endEncoding .error)
  -- `vmp4Callback_Null`
  | nullDone {s : System} {uLength : UInt32} (busy : s.encoding = true)
      (removed : s.installed = false) : Step s (.done uLength) { s with encoding := false }
  | nullError {s : System} (busy : s.encoding = true) (removed : s.installed = false) :
      Step s .error { s with encoding := false }
  | get {s : System} {b : Nat} {rest : List Nat} (list : s.listBitstream = b :: rest) :
      Step s .get
        { s with
          listBitstream := rest
          held := Function.update s.held b (s.held b + 1)
          delivered := s.delivered ++ [s.buffers b] }
  | getNothing {s : System} (list : s.listBitstream = []) : Step s .get s
  | addRef {s : System} {b n : Nat} (reader : s.held b = n + 1) :
      Step s (.addRef b)
        { s with pool := s.pool.addRef b, held := Function.update s.held b (n + 2) }
  | decRef {s : System} {b n : Nat} {pool : Pool} (reader : s.held b = n + 1)
      (decRef : s.pool.decRef b = some pool) :
      Step s (.decRef b) { s with pool, held := Function.update s.held b n }

/-- After `vmp4Init`, with so many buffers. -/
structure System.Initial (s : System) (count : Nat) : Prop where
  pool : s.pool = initMemoryPool count
  slots : s.encoding0 = none ∧ s.previous1 = none
  list : s.listBitstream = []
  token : s.pcEncFlag = ttPcInit 1
  still : s.encoding = false
  free : s.vmp4Lock = none
  held : ∀ b, s.held b = 0
  index : s.nEncodeIndex = 0
  history : s.encoded = [] ∧ s.delivered = [] ∧ s.cleared = [] ∧ s.evicted = []
  blank : ∀ b, (s.buffers b).frame = none

end Rovio.Media.Encoder
