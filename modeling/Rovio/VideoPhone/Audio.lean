import Rovio.Kit.Runs
import Rovio.Kit.Frames

/-! The audio splitter between the threads that bring a stream and the thread that decodes it. -/
namespace Rovio.VideoPhone

open Kit

/-- `CMD_AUDIO_FORMAT_E` -/
inductive AudioFormat where
  | amr | pcm | imaAdpcm | ulaw | alaw
  deriving DecidableEq

def MEM_ALIGN_SIZE (size : Nat) : Nat := (size + 31) / 32 * 32

def OPT_AUDIO_BUFFER_SIZE : Nat := 160 * 2

/-- `sizeof (aucBuffer)` of the splitter: OPT_AUDIO_MAX_DECODE_SIZE, the sizes of an encoded AMR
and IMA packet, and OPT_AUDIO_BUFFER_SIZE. -/
def szMaxLength : Nat :=
  MEM_ALIGN_SIZE (max 1024 (2 * (2 + max (max 32 (256 * 2)) OPT_AUDIO_BUFFER_SIZE)))

/-- The lengths of AMR frames by their mode. -/
def aszLength (ucMode : UInt8) : Nat := [13, 14, 16, 18, 20, 21, 27, 32].getD ucMode.toNat 0

/-- `auSplitter_GetFrame`; with no frame in a format that is not supported. -/
def auSplitter_GetFrame (eDecodeFormat : AudioFormat) (iLAWSize : Nat) (aucBuffer : List UInt8) :
    Nat :=
  match eDecodeFormat with
  | .amr =>
    match aucBuffer with
    | [] => 0
    | first :: _ =>
      let ucMode := (first >>> 3) &&& 0x07
      let szLength := aszLength ucMode
      if aucBuffer.length < szLength then 0 else szLength
  | .pcm => if aucBuffer.length ≥ OPT_AUDIO_BUFFER_SIZE then OPT_AUDIO_BUFFER_SIZE else 0
  | .imaAdpcm => 0
  | .alaw | .ulaw => if aucBuffer.length ≥ iLAWSize then iLAWSize else 0

def auSplitter_FreeSize (aucBuffer : List UInt8) : Nat := szMaxLength - aucBuffer.length

def auSplitter_DelData (aucBuffer : List UInt8) (szLength : Nat) : List UInt8 :=
  let szLength := if szLength > aucBuffer.length then aucBuffer.length else szLength
  aucBuffer.drop szLength

def auSplitter_AddData (aucBuffer cpucBuffer : List UInt8) : List UInt8 :=
  if cpucBuffer.length > szMaxLength then aucBuffer
  else
    let aucBuffer :=
      if aucBuffer.length + cpucBuffer.length > szMaxLength then
        auSplitter_DelData aucBuffer (aucBuffer.length + cpucBuffer.length - szMaxLength)
      else aucBuffer
    aucBuffer ++ cpucBuffer

/-! ### The threads -/

/-- Where `vauThread_OnPlay` stands: waiting for a message, at the head of its loop, with a frame
to decode, with the frame decoded. -/
inductive Player where
  | waiting
  | looping
  | chosen (szLen : Nat)
  | decoded (szLen : Nat)
  deriving DecidableEq

def AUDIO_DEC_MSG_NUM : Nat := 3

/-- `calls` are the data that `vauDecode` has still to add, call by call; `adding` is set between
its critical section and its message. `accepted` is the data added so far, `handed` the frames
that the decoder was given. -/
structure AudioState where
  calls : List (List UInt8)
  adding : Bool
  messages : Nat
  player : Player
  aucBuffer : List UInt8
  accepted : List UInt8
  handed : List (List UInt8)

def audioStart (calls : List (List UInt8)) : AudioState := ⟨calls, false, 0, .waiting, [], [], []⟩

/-- `uLenThis` -/
def pieceLength (data : List UInt8) : Nat :=
  if data.length ≥ szMaxLength / 2 then szMaxLength / 2 else data.length

inductive AudioAction where
  | add | send | finish
  | receive | getFrame | decode | delData
  deriving DecidableEq

section
variable (eDecodeFormat : AudioFormat) (iLAWSize : Nat)

/-- A step of one of the two threads. -/
inductive AudioStep : AudioState → AudioAction → AudioState → Prop where
  | add {s : AudioState} {data : List UInt8} {calls : List (List UInt8)}
      (here : s.calls = data :: calls) (idle : s.adding = false) (some : 0 < data.length)
      (space : pieceLength data ≤ auSplitter_FreeSize s.aucBuffer) :
      AudioStep s .add { s with
        calls := data.drop (pieceLength data) :: calls
        adding := true
        aucBuffer := auSplitter_AddData s.aucBuffer (data.take (pieceLength data))
        accepted := s.accepted ++ data.take (pieceLength data) }
  | send {s : AudioState} (here : s.adding = true) :
      AudioStep s .send { s with
        adding := false
        messages := if s.messages < AUDIO_DEC_MSG_NUM then s.messages + 1 else s.messages }
  | finish {s : AudioState} {calls : List (List UInt8)} (here : s.calls = [] :: calls)
      (idle : s.adding = false) :
      AudioStep s .finish { s with calls }
  | receive {s : AudioState} (here : s.player = .waiting) (some : 0 < s.messages) :
      AudioStep s .receive { s with messages := s.messages - 1, player := .looping }
  | noFrame {s : AudioState} (here : s.player = .looping)
      (none : auSplitter_GetFrame eDecodeFormat iLAWSize s.aucBuffer = 0) :
      AudioStep s .getFrame { s with player := .waiting }
  | frame {s : AudioState} (here : s.player = .looping)
      (some : 0 < auSplitter_GetFrame eDecodeFormat iLAWSize s.aucBuffer) :
      AudioStep s .getFrame
        { s with player := .chosen (auSplitter_GetFrame eDecodeFormat iLAWSize s.aucBuffer) }
  | decode {s : AudioState} {szLen : Nat} (here : s.player = .chosen szLen) :
      AudioStep s .decode { s with
        player := .decoded szLen
        handed := s.handed ++ [s.aucBuffer.take szLen] }
  | delData {s : AudioState} {szLen : Nat} (here : s.player = .decoded szLen) :
      AudioStep s .delData { s with
        player := .looping
        aucBuffer := auSplitter_DelData s.aucBuffer szLen }

/-- What the decoder is to be given for a stream. -/
def audioFrames (stream : List UInt8) : List (List UInt8) :=
  (cutFrames (auSplitter_GetFrame eDecodeFormat iLAWSize) stream).1

/-- The bytes of the buffer that the decoder has not been given. -/
def AudioState.kept (s : AudioState) : List UInt8 :=
  match s.player with
  | .decoded szLen => s.aucBuffer.drop szLen
  | _ => s.aucBuffer

/-- The steps that the two threads can take for a stream. -/
def mostSteps (calls : List (List UInt8)) : Nat := 9 * calls.flatten.length + calls.length

/-- A stream, cut into calls, comes to the decoder in its frames, and to the end. -/
structure Delivered (calls : List (List UInt8)) (s : AudioState) (steps : Nat) : Prop where
  frames : s.handed <+: audioFrames eDecodeFormat iLAWSize calls.flatten
  bytes : s.handed.flatten ++ s.kept = s.accepted ∧ s.accepted <+: calls.flatten
  goesOn : (∃ a t, AudioStep eDecodeFormat iLAWSize s a t) ∨
    s.calls = [] ∧ s.handed = audioFrames eDecodeFormat iLAWSize calls.flatten
  ends : steps ≤ mostSteps calls

end

end Rovio.VideoPhone
