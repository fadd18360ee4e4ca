import Rovio.Kit.Runs
import Rovio.Media.Pc

/-! The video decoder: the threads that start it and the three callbacks of the hardware. The
token of `pcDecFlag` is taken by the start and given back by the callback. -/
namespace Rovio.Media.Decoder
open Kit

universe u

inductive DecState where
  | ok
  | error
  | wait
  deriving DecidableEq

/-- The part of MP4DECINFO_T that is read. -/
structure Mp4DecInfo where
  uPixels : UInt32
  uLines : UInt32

/-- What the board's header says: MAX_MP4_WIDTHxHEIGHT, and how many times smaller the two colour
planes are. -/
structure Board where
  maxMp4WidthXHeight : Int32
  uvShare : UInt32

def getYSize (pMP4Info : Mp4DecInfo) : UInt32 := pMP4Info.uLines * pMP4Info.uPixels

def getUVSize (board : Board) (pMP4Info : Mp4DecInfo) : UInt32 := getYSize pMP4Info / board.uvShare

/-- The decoder's part of `g_vpMP4` and its buffer, `mtLock`, and whether the hardware decodes. -/
structure Mp4 where
  pcDecFlag : TtPc
  eDecState : DecState
  bDecInit : Bool
  mp4decinf : Mp4DecInfo
  nOutputLength : UInt32
  mtLock : Bool
  decoding : Bool

/-- A visual object sequence in front of the frame. -/
def startsSequence (pMP4Header : List UInt8) : Bool :=
  pMP4Header[0]? = some 0x00 && pMP4Header[1]? = some 0x00 && pMP4Header[2]? = some 0x01 &&
    pMP4Header[3]? = some 0xB0 && pMP4Header[5]? = some 0x00 && pMP4Header[6]? = some 0x00 &&
    pMP4Header[7]? = some 0x01 && pMP4Header[8]? = some 0xB5

/-- The decoder cannot show such a picture. -/
def unfit (board : Board) (nDecoderRes : Int) (mp4decinf : Mp4DecInfo) : Bool :=
  nDecoderRes ≠ 0 || mp4decinf.uPixels.toInt32 * mp4decinf.uLines.toInt32 ≤ 0 ||
    board.maxMp4WidthXHeight < mp4decinf.uPixels.toInt32 * mp4decinf.uLines.toInt32

/-- What a thread does when a start has ended: `vmp4decPrepare` with the frames it has still to
decode, or nothing, where `vmp4decStart` or `vmp4decWaitOK` has been called by itself. -/
abbrev Caller := Option (List (List UInt8))

/-- Where a thread stands: outside; at the head of the loop of `vmp4decPrepare`; before
`tt_pc_try_produce`, behind it, and before `mp4StartDecoder`; before the wait for the producer's
semaphore in `vmp4decWaitOK` and between it and its post; before `vmp4Unlock`. -/
inductive Place where
  | outside
  | frames (ahead : List (List UInt8))
  | starting (pMP4Header : List UInt8) (caller : Caller)
  | produced (pMP4Header : List UInt8) (caller : Caller)
  | ready (caller : Caller)
  | waiting (caller : Caller)
  | looked (eDecState : DecState) (caller : Caller)
  | ended (eDecodeResult : DecState) (ahead : List (List UInt8))

structure System (T : Type u) where
  mp4 : Mp4
  threads : T → Place

/-- A frame goes with what `mp4SetDecoder` says to it, a start with what `mp4StartDecoder` does. -/
inductive Action (T : Type u) where
  | prepare (t : T) (frames : List (List UInt8))
  | lock (t : T)
  | finish (t : T)
  | call (t : T) (pMP4Header : List UInt8)
  | produce (t : T)
  | set (t : T) (nDecoderRes : Int) (mp4decinf : Mp4DecInfo)
  | start (t : T) (nRes : Int)
  | callWait (t : T)
  | wait (t : T)
  | post (t : T)
  | unlock (t : T)
  | callback (eDecState : DecState)

/-- Behind `vmp4decStart` or `vmp4decWaitOK`. -/
def after (eDecodeResult : DecState) : Caller → Place
  | some ahead => .ended eDecodeResult ahead
  | none => .outside

/-- Behind a start that went well: only `vmp4decPrepare` waits. -/
def started : Caller → Place
  | some ahead => .waiting (some ahead)
  | none => .outside

/-- `vmp4decDoneCallback`, `vmp4decWaitCallback` or `vmp4decErrorCallback`; the reset and the resume
of the hardware leave the token. -/
def decCallback (mp4 : Mp4) (eDecState : DecState) : Mp4 :=
  { mp4 with
    eDecState
    pcDecFlag := (ttPcTryConsume mp4.pcDecFlag).getD mp4.pcDecFlag
    decoding := false }

section
variable {T : Type u} [DecidableEq T]

def System.put (s : System T) (mp4 : Mp4) (t : T) (place : Place) : System T :=
  { mp4, threads := Function.update s.threads t place }

/-- The rest of `vmp4decStart` up to `mp4StartDecoder`, where the token has been taken. -/
inductive Setting (board : Board) (mp4 : Mp4) (pMP4Header : List UInt8) (caller : Caller)
    (nDecoderRes : Int) (mp4decinf : Mp4DecInfo) : Mp4 → Place → Prop where
  | skip (init : (!mp4.bDecInit || startsSequence pMP4Header) = false) :
      Setting board mp4 pMP4Header caller nDecoderRes mp4decinf mp4 (.ready caller)
  | unfit {pcDecFlag : TtPc} (init : (!mp4.bDecInit || startsSequence pMP4Header) = true)
      (bad : unfit board nDecoderRes mp4decinf = true)
      (consume : ttPcTryConsume mp4.pcDecFlag = some pcDecFlag) :
      Setting board mp4 pMP4Header caller nDecoderRes mp4decinf
        { mp4 with pcDecFlag, mp4decinf := ⟨0, 0⟩ } (after .error caller)
  | fit (init : (!mp4.bDecInit || startsSequence pMP4Header) = true)
      (good : unfit board nDecoderRes mp4decinf = false) :
      Setting board mp4 pMP4Header caller nDecoderRes mp4decinf
        { mp4 with mp4decinf, bDecInit := true, eDecState := .ok } (.ready caller)

inductive Step (board : Board) : System T → Action T → System T → Prop where
  | prepare {s : System T} {t : T} {frames : List (List UInt8)} (here : s.threads t = .outside) :
      Step board s (.prepare t frames) (s.put s.mp4 t (.frames frames))
  | lock {s : System T} {t : T} {pMP4Header : List UInt8} {ahead : List (List UInt8)}
      (here : s.threads t = .frames (pMP4Header :: ahead)) (free : s.mp4.mtLock = false) :
      Step board s (.lock t)
        (s.put { s.mp4 with mtLock := true } t (.starting pMP4Header (some ahead)))
  | finish {s : System T} {t : T} (here : s.threads t = .frames []) :
      Step board s (.finish t) (s.put s.mp4 t .outside)
  | call {s : System T} {t : T} {pMP4Header : List UInt8} (here : s.threads t = .outside) :
      Step board s (.call t pMP4Header) (s.put s.mp4 t (.starting pMP4Header none))
  | produce {s : System T} {t : T} {pMP4Header : List UInt8} {caller : Caller}
      {pcDecFlag : TtPc} (here : s.threads t = .starting pMP4Header caller)
      (produce : ttPcTryProduce s.mp4.pcDecFlag = some pcDecFlag) :
      Step board s (.produce t) (s.put { s.mp4 with pcDecFlag } t (.produced pMP4Header caller))
  | refuse {s : System T} {t : T} {pMP4Header : List UInt8} {caller : Caller}
      (here : s.threads t = .starting pMP4Header caller)
      (produce : ttPcTryProduce s.mp4.pcDecFlag = none) :
      Step board s (.produce t) (s.put s.mp4 t (after .error caller))
  | set {s : System T} {t : T} {pMP4Header : List UInt8} {caller : Caller} {nDecoderRes : Int}
      {mp4decinf : Mp4DecInfo} {mp4 : Mp4} {place : Place}
      (here : s.threads t = .produced pMP4Header caller)
      (setting : Setting board s.mp4 pMP4Header caller nDecoderRes mp4decinf mp4 place) :
      Step board s (.set t nDecoderRes mp4decinf) (s.put mp4 t place)
  | start {s : System T} {t : T} {caller : Caller} (here : s.threads t = .ready caller) :
      Step board s (.start t 0) (s.put { s.mp4 with decoding := true } t (started caller))
  -- this exit keeps the token
  | fail {s : System T} {t : T} {caller : Caller} {nRes : Int} (here : s.threads t = .ready caller)
      (failed : nRes ≠ 0) : Step board s (.start t nRes) (s.put s.mp4 t (after .error caller))
  | callWait {s : System T} {t : T} (here : s.threads t = .outside) :
      Step board s (.callWait t) (s.put s.mp4 t (.waiting none))
  | wait {s : System T} {t : T} {caller : Caller} {producer : Nat}
      (here : s.threads t = .waiting caller)
      (free : s.mp4.pcDecFlag.producer = producer + 1) :
      Step board s (.wait t)
        (s.put { s.mp4 with pcDecFlag := { s.mp4.pcDecFlag with producer } } t
          (.looked s.mp4.eDecState caller))
  | post {s : System T} {t : T} {eDecState : DecState} {caller : Caller}
      (here : s.threads t = .looked eDecState caller) :
      Step board s (.post t)
        (s.put { s.mp4 with pcDecFlag :=
            { s.mp4.pcDecFlag with producer := s.mp4.pcDecFlag.producer + 1 } } t
          (after eDecState caller))
  | unlock {s : System T} {t : T} {eDecodeResult : DecState} {ahead : List (List UInt8)}
      (here : s.threads t = .ended eDecodeResult ahead) :
      Step board s (.unlock t)
        (s.put { s.mp4 with
            nOutputLength := if eDecodeResult = .ok then
              getYSize s.mp4.mp4decinf + getUVSize board s.mp4.mp4decinf * 2 else 0
            mtLock := false } t (.frames ahead))
  | callback {s : System T} {eDecState : DecState} (busy : s.mp4.decoding = true) :
      Step board s (.callback eDecState) { s with mp4 := decCallback s.mp4 eDecState }

end

/-- After `vmp4Init`, with no thread inside. -/
structure System.Initial {T : Type u} (s : System T) : Prop where
  token : s.mp4.pcDecFlag = ttPcInit 1
  still : s.mp4.decoding = false
  outside : ∀ t, s.threads t = .outside

end Rovio.Media.Decoder
