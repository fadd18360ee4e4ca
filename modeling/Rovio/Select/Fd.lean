import Rovio.Kit.Handles

/-! The descriptors that the select thread serves, and what the clients do to them. `wire` has
what went over the sockets of the bypass clients, the newest first; nothing reads it. -/
namespace Rovio.Select
open Kit

universe u

inductive NetState where
  | init | connect | connecting | read | write | error | netOver | halt | reset
  deriving DecidableEq, Repr

/-- `FD_T`. -/
structure FD where
  iFD : Int
  iState : NetState
  iConnTimeout : Int
  bReadable : Bool
  bWritable : Bool
  bWantRead : Bool
  bWantWrite : Bool
  deriving DecidableEq, Repr

inductive Kind where
  | msg | http | ddnsHttp | ckipHttp | ntp | bpLocal | bpRemote
  deriving DecidableEq, Repr

inductive ConnectType where
  | video | ctrl
  deriving DecidableEq, Repr

/-- The eleven characters that `BPC_New` passes. -/
def ConnectType.magicStr : ConnectType → List UInt8
  | .video => [82, 79, 86, 73, 79, 95, 86, 73, 68, 69, 79]
  | .ctrl => [82, 79, 86, 73, 79, 95, 67, 84, 82, 76, 0]

/-- The objects around the descriptors that the thread may come to serve. `partner` is `pRemote`
or `pLocal`, and `queue` the object of the message queue, whose descriptor is `aiFD[0]`. -/
structure Clients (Id : Type u) where
  kind : Id → Kind
  partner : Id → Id
  connectType : Id → ConnectType
  queue : Id
  aiFD : Int
  queue_iff : ∀ c, kind c = .msg ↔ c = queue
  queue_fd : 0 ≤ aiFD
  local_partner : ∀ c, kind c = .bpLocal → kind (partner c) = .bpRemote ∧ partner (partner c) = c
  remote_partner : ∀ c, kind c = .bpRemote → kind (partner c) = .bpLocal ∧ partner (partner c) = c

inductive Custom (Id : Type u) where
  | addNTP (pNewFD : Id)
  | addDDNS (pNewFD : Id)
  | urlcgiDelFD (pTheFD : Id)
  deriving DecidableEq, Repr

inductive Msg (Id : Type u) where
  | quit
  | addFD (pFD : Id)
  | customProc (process : Custom Id)
  deriving DecidableEq, Repr

/-- What a bypass client does with its socket. -/
inductive Event (Id : Type u) where
  | connected (c : Id)
  | closed (c : Id)
  | sent (c : Id) (bytes : List UInt8)
  | got (c : Id) (bytes : List UInt8)
  deriving DecidableEq, Repr

structure World (Id : Type u) where
  fd : Id → FD
  tries : Id → Nat
  acBuffer : Id → List UInt8
  sockets : Handles Id
  pMsg : Option (Msg Id)
  wire : List (Event Id)

/-- `FD_Init` as the clients call it. -/
def newFD : FD := ⟨-1, .init, 0, false, false, false, false⟩

namespace World

variable {Id : Type u} [DecidableEq Id]

/-- `FD_Next`. -/
def next (w : World Id) (c : Id) (iState : NetState) (bWantRead bWantWrite : Bool)
    (iConnTimeout : Int) : World Id :=
  { w with fd := Function.update w.fd c { w.fd c with iState, bWantRead, bWantWrite, iConnTimeout } }

def setFD (w : World Id) (c : Id) (iFD : Int) : World Id :=
  { w with fd := Function.update w.fd c { w.fd c with iFD } }

/-- The descriptor is closed; `iFD` keeps the number. -/
def close (w : World Id) (c : Id) : World Id :=
  { w with sockets := w.sockets.release c (w.fd c).iFD, wire := .closed c :: w.wire }

/-- `if (pFD->iFD != -1) { close; pFD->iFD = -1; }` -/
def closeFD (w : World Id) (c : Id) : World Id :=
  if (w.fd c).iFD ≠ -1 then (w.close c).setFD c (-1) else w

/-- `pFD->iFD = socket(..)` -/
def openFD (w : World Id) (c : Id) (alloc : Handles.Alloc Id) : World Id :=
  let iFD := alloc.1 w.sockets.owner
  { w with sockets := w.sockets.take c iFD }.setFD c iFD

def setTries (w : World Id) (c : Id) (n : Nat) : World Id :=
  { w with tries := Function.update w.tries c n }

def setBuffer (w : World Id) (c : Id) (bytes : List UInt8) : World Id :=
  { w with acBuffer := Function.update w.acBuffer c bytes }

def record (w : World Id) (e : Event Id) : World Id := { w with wire := e :: w.wire }

end World

end Rovio.Select
