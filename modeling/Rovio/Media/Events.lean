import Rovio.Kit.Runs
import Rovio.Kit.Threads

/-! `iothread_EventRead` and what wakes it. The condition variable keeps nothing: a broadcast wakes
the readers that wait, and the wait gives up the lock in the same step. -/
namespace Rovio.Media.Events
open Kit

universe u

inductive Kind where
  | mp4
  | jpeg
  | audio
  deriving DecidableEq

/-- What a reader may ask for. -/
inductive Source where
  | buffer (k : Kind)
  | motion
  deriving DecidableEq

/-- In the order of the tests. -/
def sources : List Source := [.buffer .mp4, .buffer .jpeg, .buffer .audio, .motion]

/-- The queues of encoded buffers, and the motions of the video settings. -/
structure Encoded (B : Type u) where
  queue : Kind → List B
  bIsEnableMotionDetect : Bool
  uMotionsSinceLast : UInt32

/-- `*ppMP4Buf`, `*ppJPEGBuf`, `*ppAudioBuf` and `*pMotionCount`. -/
structure Got (B : Type u) where
  buffer : Kind → Option B
  motion : Option UInt32

/-- Where a reader stands: outside; before `iothread_EventLock`; at the head of the loop; between
the tests; in `tt_cond_wait`; behind a broadcast, without the lock; behind the loop. -/
inductive Place (B : Type u) where
  | outside
  | entering (asks : Source → Bool)
  | loop (asks : Source → Bool)
  | testing (asks : Source → Bool) (ahead : List Source) (got : Got B) (bHaveEvent : Bool)
  | blocked (asks : Source → Bool)
  | woken (asks : Source → Bool)
  | leaving (got : Got B)

/-- A reader, and as history whether it was waiting when `iothread_EventInterrupt` was called and
has not had that wake-up yet. -/
structure Reader (B : Type u) where
  place : Place B
  due : Bool

/-- Producers stand between the queueing of a buffer and their notification, or do not; `stolen` is
history: a wake-up has gone to a reader that it was not due to. -/
structure System (B : Type u) where
  media : Encoded B
  uEventWaitCount : Nat
  uEventInterrupt : Nat
  mtIOEvent : Bool
  readers : List (Reader B)
  producers : List Bool
  stolen : Bool

inductive Action (B : Type u) where
  | call (r : Nat) (asks : Source → Bool)
  | enter (r : Nat)
  | head (r : Nat)
  | look (r : Nat)
  | decide (r : Nat)
  | relock (r : Nat)
  | leave (r : Nat)
  | publish (p : Nat) (k : Kind) (b : B)
  | discard (k : Kind) (i : Nat)
  | motion (bIsEnableMotionDetect : Bool) (uMotionsSinceLast : UInt32)
  | notify (p : Nat)
  | interrupt

section
variable {B : Type u}

def nothing : Got B := ⟨fun _ => none, none⟩

/-- The test of one source: what is left, what the reader has got, and whether that is an event. -/
def look (media : Encoded B) (got : Got B) : Source → Encoded B × Got B × Bool
  | .buffer k =>
    match media.queue k with
    | [] => (media, { got with buffer := Function.update got.buffer k none }, false)
    | b :: rest =>
      ({ media with queue := Function.update media.queue k rest },
        { got with buffer := Function.update got.buffer k (some b) }, true)
  | .motion =>
    if media.bIsEnableMotionDetect && media.uMotionsSinceLast != 0 then
      ({ media with uMotionsSinceLast := 0 },
        { got with motion := some media.uMotionsSinceLast }, true)
    else (media, got, false)

/-- `iothread_EventNotify`. -/
def Reader.wake (reader : Reader B) : Reader B :=
  match reader.place with
  | .blocked asks => { reader with place := .woken asks }
  | _ => reader

/-- A reader that is waiting when the interrupt is called. -/
def Reader.interrupt (reader : Reader B) : Reader B :=
  match reader.place with
  | .blocked asks | .woken asks => ⟨.woken asks, true⟩
  | _ => reader

def System.put (s : System B) (r : Nat) (reader : Reader B) : System B :=
  { s with readers := s.readers.set r reader }

inductive Step : System B → Action B → System B → Prop where
  | call {s : System B} {r : Nat} {asks : Source → Bool} {due : Bool}
      (here : s.readers[r]? = some ⟨.outside, due⟩) (some_asked : ∃ source, asks source = true) :
      Step s (.call r asks) (s.put r ⟨.entering asks, due⟩)
  | callNothing {s : System B} {r : Nat} {asks : Source → Bool} {due : Bool}
      (here : s.readers[r]? = some ⟨.outside, due⟩) (none_asked : ∀ source, asks source = false) :
      Step s (.call r asks) s
  | enter {s : System B} {r : Nat} {asks : Source → Bool} {due : Bool}
      (here : s.readers[r]? = some ⟨.entering asks, due⟩) (free : s.mtIOEvent = false) :
      Step s (.enter r)
        { s.put r ⟨.loop asks, due⟩ with
          mtIOEvent := true
          uEventWaitCount := s.uEventWaitCount + 1 }
  | interrupted {s : System B} {r n : Nat} {asks : Source → Bool} {due : Bool}
      (here : s.readers[r]? = some ⟨.loop asks, due⟩) (some_left : s.uEventInterrupt = n + 1) :
      Step s (.head r)
        { s.put r ⟨.leaving nothing, false⟩ with
          uEventInterrupt := n
          stolen := s.stolen || !due }
  | head {s : System B} {r : Nat} {asks : Source → Bool} {due : Bool}
      (here : s.readers[r]? = some ⟨.loop asks, due⟩) (none_left : s.uEventInterrupt = 0) :
      Step s (.head r) (s.put r ⟨.testing asks (sources.filter asks) nothing false, due⟩)
  | look {s : System B} {r : Nat} {asks : Source → Bool} {source : Source} {ahead : List Source}
      {got : Got B} {bHaveEvent due : Bool}
      (here : s.readers[r]? = some ⟨.testing asks (source :: ahead) got bHaveEvent, due⟩) :
      Step s (.look r)
        { s.put r ⟨.testing asks ahead (look s.media got source).2.1
            (bHaveEvent || (look s.media got source).2.2), due⟩ with
          media := (look s.media got source).1 }
  | found {s : System B} {r : Nat} {asks : Source → Bool} {got : Got B} {due : Bool}
      (here : s.readers[r]? = some ⟨.testing asks [] got true, due⟩) :
      Step s (.decide r) (s.put r ⟨.leaving got, due⟩)
  | block {s : System B} {r : Nat} {asks : Source → Bool} {got : Got B} {due : Bool}
      (here : s.readers[r]? = some ⟨.testing asks [] got false, due⟩) :
      Step s (.decide r) { s.put r ⟨.blocked asks, due⟩ with mtIOEvent := false }
  | relock {s : System B} {r : Nat} {asks : Source → Bool} {due : Bool}
      (here : s.readers[r]? = some ⟨.woken asks, due⟩) (free : s.mtIOEvent = false) :
      Step s (.relock r) { s.put r ⟨.loop asks, due⟩ with mtIOEvent := true }
  | leave {s : System B} {r : Nat} {got : Got B} {due : Bool}
      (here : s.readers[r]? = some ⟨.leaving got, due⟩) :
      Step s (.leave r)
        { s.put r ⟨.outside, due⟩ with
          mtIOEvent := false
          uEventWaitCount := s.uEventWaitCount - 1 }
  | publish {s : System B} {p : Nat} {k : Kind} {b : B} {pending : Bool}
      (here : s.producers[p]? = some pending) :
      Step s (.publish p k b)
        { s with
          media := { s.media with
            queue := Function.update s.media.queue k (s.media.queue k ++ [b]) }
          producers := s.producers.set p true }
  -- the encoder takes a buffer back
  | discard {s : System B} {k : Kind} {i : Nat} :
      Step s (.discard k i)
        { s with media := { s.media with
            queue := Function.update s.media.queue k ((s.media.queue k).eraseIdx i) } }
  | motion {s : System B} {bIsEnableMotionDetect : Bool} {uMotionsSinceLast : UInt32} :
      Step s (.motion bIsEnableMotionDetect uMotionsSinceLast)
        { s with media := { s.media with bIsEnableMotionDetect, uMotionsSinceLast } }
  | notify {s : System B} {p : Nat} {pending : Bool} (here : s.producers[p]? = some pending) :
      Step s (.notify p)
        { s with readers := s.readers.map .wake, producers := s.producers.set p false }
  | interrupt {s : System B} (free : s.mtIOEvent = false) :
      Step s .interrupt
        { s with
          uEventInterrupt := s.uEventWaitCount
          readers := s.readers.map .interrupt }

/-- Any number of readers and producers, all outside. -/
structure System.Initial (s : System B) : Prop where
  count : s.uEventWaitCount = 0
  none_left : s.uEventInterrupt = 0
  free : s.mtIOEvent = false
  readers : ∀ reader ∈ s.readers, reader = ⟨.outside, false⟩
  producers : ∀ pending ∈ s.producers, pending = false
  history : s.stolen = false

end

end Rovio.Media.Events
