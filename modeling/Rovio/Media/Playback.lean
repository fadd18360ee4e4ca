import Rovio.Kit.Runs
import Rovio.Kit.Threads
import Rovio.Media.Pc
import Rovio.Media.Pool

/-! Remote audio: the threads that decode and the callback that plays. The callback gives a block
back while it holds the lock; the decoder allocates and queues under the lock, but waits for its
token before. -/
namespace Rovio.Media.Playback
open Kit

universe u

/-- Where `tt_pc_produce` of `__vauDecode` stands: outside; with the producer's token; with a block;
with the block decoded; with the block queued, before the consumer's semaphore; and in the endless
loop behind "No decode buffer!!!". -/
inductive Decoder where
  | outside
  | produced
  | holding (pRemotePCM : Nat)
  | decoded (pRemotePCM : Nat)
  | attached
  | noBuffer
  deriving DecidableEq

/-- Where the callback stands: not called; with the lock; with the consumer's token; with a block
detached; with the block played; before the unlock; in the endless loop behind "Can not run to
here"; in that of a reference count of 0. -/
inductive Player where
  | outside
  | locked
  | consumed
  | detached (pPCM : Nat)
  | copied (pPCM : Nat)
  | released
  | noBuffer
  | deleted
  deriving DecidableEq

/-- `decoded` and `played` are history: what has been queued and what has been given to the
device. -/
structure System (α : Type u) where
  pool : Pool
  pcRemotePCM : TtPc
  listPCM_Remote : List Nat
  aucPCM : Nat → α
  mtLock : Bool
  bPlayEnabled : Bool
  listEncodedAudio_Local : List Nat
  decoders : List Decoder
  player : Player
  decoded : List α
  played : List α

inductive Action (α : Type u) where
  | produce (d : Nat)
  | new (d : Nat)
  | decode (d : Nat) (pcm : α)
  | attach (d : Nat)
  | post (d : Nat)
  | callback
  | silence
  | consume
  | detach
  | copy
  | decRef
  | unlock
  | startPlay
  | stopPlay
  | record (b : Nat)
  | clearBuffer

section
variable {α : Type u}

def System.put (s : System α) (d : Nat) (place : Decoder) : System α :=
  { s with decoders := s.decoders.set d place }

inductive Step : System α → Action α → System α → Prop where
  | produce {s : System α} {d producer : Nat} (here : s.decoders[d]? = some .outside)
      (token : s.pcRemotePCM.producer = producer + 1) :
      Step s (.produce d)
        { s.put d .produced with pcRemotePCM := { s.pcRemotePCM with producer } }
  | new {s : System α} {d pRemotePCM : Nat} {pool : Pool} (here : s.decoders[d]? = some .produced)
      (free : s.mtLock = false) (new : s.pool.new = some (pRemotePCM, pool)) :
      Step s (.new d) { s.put d (.holding pRemotePCM) with pool }
  | noDecodeBuffer {s : System α} {d : Nat} (here : s.decoders[d]? = some .produced)
      (free : s.mtLock = false) (new : s.pool.new = none) :
      Step s (.new d) (s.put d .noBuffer)
  | decode {s : System α} {d pRemotePCM : Nat} {pcm : α}
      (here : s.decoders[d]? = some (.holding pRemotePCM)) :
      Step s (.decode d pcm)
        { s.put d (.decoded pRemotePCM) with
          aucPCM := Function.update s.aucPCM pRemotePCM pcm }
  | attach {s : System α} {d pRemotePCM : Nat}
      (here : s.decoders[d]? = some (.decoded pRemotePCM)) (free : s.mtLock = false) :
      Step s (.attach d)
        { s.put d .attached with
          listPCM_Remote := s.listPCM_Remote ++ [pRemotePCM]
          decoded := s.decoded ++ [s.aucPCM pRemotePCM] }
  | post {s : System α} {d : Nat} (here : s.decoders[d]? = some .attached) :
      Step s (.post d)
        { s.put d .outside with pcRemotePCM :=
            { s.pcRemotePCM with consumer := s.pcRemotePCM.consumer + 1 } }
  | callback {s : System α} (here : s.player = .outside) (free : s.mtLock = false) :
      Step s .callback { s with mtLock := true, player := .locked }
  -- "Audio device locked."
  | silence {s : System α} (here : s.player = .outside) : Step s .silence s
  | consume {s : System α} {pcRemotePCM : TtPc} (here : s.player = .locked)
      (consume : ttPcTryConsume s.pcRemotePCM = some pcRemotePCM) :
      Step s .consume { s with pcRemotePCM, player := .consumed }
  | nothing {s : System α} (here : s.player = .locked)
      (consume : ttPcTryConsume s.pcRemotePCM = none) :
      Step s .consume { s with player := .released }
  | detach {s : System α} {pPCM : Nat} {rest : List Nat} (here : s.player = .consumed)
      (list : s.listPCM_Remote = pPCM :: rest) :
      Step s .detach { s with listPCM_Remote := rest, player := .detached pPCM }
  | noPlayBuffer {s : System α} (here : s.player = .consumed) (list : s.listPCM_Remote = []) :
      Step s .detach { s with player := .noBuffer }
  | copy {s : System α} {pPCM : Nat} (here : s.player = .detached pPCM) :
      Step s .copy { s with played := s.played ++ [s.aucPCM pPCM], player := .copied pPCM }
  | decRef {s : System α} {pPCM : Nat} {pool : Pool} (here : s.player = .copied pPCM)
      (decRef : s.pool.decRef pPCM = some pool) :
      Step s .decRef { s with pool, player := .released }
  | deleted {s : System α} {pPCM : Nat} (here : s.player = .copied pPCM)
      (decRef : s.pool.decRef pPCM = none) :
      Step s .decRef { s with player := .deleted }
  | unlock {s : System α} (here : s.player = .released) :
      Step s .unlock { s with mtLock := false, player := .outside }
  | startPlay {s : System α} (free : s.mtLock = false) :
      Step s .startPlay { s with bPlayEnabled := true }
  | stopPlay {s : System α} (free : s.mtLock = false) :
      Step s .stopPlay { s with bPlayEnabled := false }
  | record {s : System α} {b : Nat} (free : s.mtLock = false) :
      Step s (.record b) { s with listEncodedAudio_Local := s.listEncodedAudio_Local ++ [b] }
  -- clears what has been recorded; what is to be played stays
  | clearBuffer {s : System α} (free : s.mtLock = false) :
      Step s .clearBuffer { s with listEncodedAudio_Local := [] }

/-- After `vauInit`, with a pool of so many blocks and any number of threads outside. -/
structure System.Initial (s : System α) (count : Nat) : Prop where
  pool : s.pool = initMemoryPool count
  tokens : s.pcRemotePCM = ttPcInit count
  list : s.listPCM_Remote = []
  free : s.mtLock = false
  decoders : ∀ d ∈ s.decoders, d = .outside
  player : s.player = .outside
  history : s.decoded = [] ∧ s.played = []

end

end Rovio.Media.Playback
