import Rovio.Select.Fd

/-! The functions that the select thread calls for its clients. What the network, the resolver and
the clock do comes in as answers. -/
namespace Rovio.Select
open Kit

universe u

/-- What `write` does: it takes one octet and some more, or nothing. -/
inductive Wrote where
  | some (more : Nat) | again | failed

/-- What `read` does: octets, of which the room takes the first ones, or none. -/
inductive Read where
  | some (first : UInt8) (rest : List UInt8) | again | failed

structure Answers (Id : Type u) where
  /-- `GetMsg` for the queue's client. -/
  message : Option (Msg Id)
  resolved : Bool
  /-- `*ppcHost == NULL` -/
  noMoreHosts : Bool
  socket : Handles.Alloc Id
  nonblocking : Bool
  /-- `getsockopt` finds no error. -/
  connected : Bool
  /-- The time-out of the client is over. -/
  late : Bool
  wrote : Wrote
  read : Read
  /-- The request is written as a whole. -/
  whole : Bool
  /-- `pfunOnResponse` wants no more. -/
  refused : Bool
  /-- The packet is one from a time server. -/
  packet : Bool
  /-- What the caller finds where `BP_LOCAL_Process` ends without a `return`. -/
  unreturned : Bool
  uDelayTime : Int

section
variable {Id : Type u} [DecidableEq Id]

/-- `SELECT_MSG_Process`. -/
def selectMsgProcess (a : Answers Id) (c : Id) (w : World Id) : World Id × Bool :=
  if !(w.fd c).bReadable then (w, true)
  else
    match a.message with
    | some msg => ({ w with pMsg := some msg }, true)
    | none => ({ w with pMsg := none }, false)

def goOver (c : Id) (w : World Id) : World Id := w.next c .netOver false false 0

/-- A new socket, and a connection on it that is not waited for. -/
def connect (a : Answers Id) (c : Id) (w : World Id) (started : World Id → World Id) : World Id :=
  let w := w.openFD c a.socket
  if (w.fd c).iFD < 0 then goOver c w
  else if !a.nonblocking then goOver c w
  else started w

/-- `ST_NET_CONNECTING`. -/
def connecting (a : Answers Id) (c : Id) (w : World Id) (done : World Id → World Id) : World Id :=
  if !((w.fd c).bReadable || (w.fd c).bWritable) then
    if a.late then w.next c .connect false false 0 else w
  else if a.connected then done w
  else w.next c .connect false false 0

def maxConnectRetry : Nat := 3

/-- `HTTPC_Process`. -/
def httpcProcess (a : Answers Id) (c : Id) (w : World Id) : World Id × Bool :=
  match (w.fd c).iState with
  | .init => (if a.resolved then w.next c .connect false false 0 else goOver c w, true)
  | .connect =>
    let w := w.closeFD c
    let w := w.setTries c (w.tries c + 1)
    if w.tries c > maxConnectRetry then (goOver c w, true)
    else (connect a c w (·.next c .connecting true true 5000), true)
  | .connecting => (connecting a c w (·.next c .write false true 5000), true)
  | .write =>
    let expired := if a.late then goOver c w else w
    if (w.fd c).bWritable then
      match a.wrote with
      | .some _ => (if a.whole then w.next c .read true false 5000 else w, true)
      | .failed => (goOver c w, true)
      | .again => (expired, true)
    else (expired, true)
  | .read =>
    if a.late then (goOver c w, true)
    else if !(w.fd c).bReadable then (w, true)
    else
      match a.read with
      | .some _ _ => (if a.refused then goOver c w else w, true)
      | .again => (w, true)
      | .failed => (goOver c w, true)
  | .netOver => (if (w.fd c).iFD ≠ -1 then w.close c else w, false)
  | _ => (w, false)

/-- `NTPC_Process`. -/
def ntpcProcess (a : Answers Id) (c : Id) (w : World Id) : World Id × Bool :=
  match (w.fd c).iState with
  | .init => (if a.resolved then w.next c .connect false false 0 else goOver c w, true)
  | .connect =>
    let w := w.closeFD c
    if a.noMoreHosts then (goOver c w, true)
    else (connect a c w fun w => (w.next c .write false true 0).setTries c 0, true)
  | .write =>
    if w.tries c ≥ 5 then (w.next c .connect false false 0, true)
    else
      match a.wrote with
      | .some _ => ((w.next c .read true false 20000).setTries c (w.tries c + 1), true)
      | _ => (goOver c w, true)
  | .read =>
    let again := w.next c .write false true 0
    if a.late then (again, true)
    else if !(w.fd c).bReadable then (w, true)
    else
      match a.read with
      | .again => (w, true)
      | .some _ _ => (if a.packet then goOver c w else again, true)
      | .failed => (again, true)
  | .netOver => (if 0 ≤ (w.fd c).iFD then w.close c else w, false)
  | _ => (w, false)

/-- `sizeof(acBuffer)` of both ends of a bypass. -/
def bufferSize : Nat := 256

/-- A bypass client writes what it has. -/
def writeBuffer (c : Id) (w : World Id) (more : Nat) : World Id :=
  (w.setBuffer c ((w.acBuffer c).drop (more + 1))).record (.sent c ((w.acBuffer c).take (more + 1)))

/-- A bypass client reads into the buffer of its partner. -/
def readInto (c partner : Id) (w : World Id) (first : UInt8) (rest : List UInt8) : World Id :=
  let bytes := (first :: rest).take (bufferSize - (w.acBuffer partner).length)
  (w.setBuffer partner (w.acBuffer partner ++ bytes)).record (.got c bytes)

/-- `none` where `write` fails. -/
def writeOut (a : Answers Id) (c : Id) (w : World Id) : Option (World Id) :=
  if (w.fd c).bWritable ∧ (w.acBuffer c).length > 0 then
    match a.wrote with
    | .some more => some (writeBuffer c w more)
    | .again => some w
    | .failed => none
  else some w

/-- `none` where `read` fails. -/
def readIn (a : Answers Id) (c partner : Id) (w : World Id) : Option (World Id) :=
  if (w.fd c).bReadable ∧ bufferSize > (w.acBuffer partner).length then
    match a.read with
    | .some first rest => some (readInto c partner w first rest)
    | .again => some w
    | .failed => none
  else some w

/-- What each end asks for: to read where the other's buffer has room, to write where its own has
something. -/
def nextRead (c partner : Id) (iConnTimeout : Int) (w : World Id) : World Id :=
  w.next c .read (decide (bufferSize > (w.acBuffer partner).length))
    (decide ((w.acBuffer c).length > 0)) iConnTimeout

/-- The end of a round in `ST_NET_READ`. -/
def nextReads (a : Answers Id) (c partner : Id) (w : World Id) : World Id :=
  if a.late then goOver c w
  else
    let w := if (w.fd partner).iState = .read then nextRead partner c (w.fd partner).iConnTimeout w
      else w
    nextRead c partner 10000 w

/-- `ST_NET_READ` of both ends. -/
def relay (a : Answers Id) (c partner : Id) (w : World Id) : World Id :=
  match writeOut a c w with
  | none => goOver c w
  | some w =>
    match readIn a c partner w with
    | none => goOver c w
    | some w => nextReads a c partner w

variable (k : Clients Id)

/-- `BP_LOCAL_Process`. -/
def bpLocalProcess (a : Answers Id) (c : Id) (w : World Id) : World Id × Bool :=
  match (w.fd c).iState with
  | .init => ((w.setBuffer c []).next c .connect false false 0, true)
  | .connect =>
    let w := w.closeFD c
    (connect a c w (·.next c .connecting true true 10000), true)
  | .connecting =>
    (connecting a c w fun w =>
      (w.next c .read true (decide ((w.acBuffer c).length > 0)) 10000).record (.connected c), true)
  | .read => (relay a c (k.partner c) w, true)
  | .netOver =>
    let w := w.closeFD c
    (if (w.fd (k.partner c)).iState = .read then w.next c .reset false false 0
      else w.next c .halt false false 60000, true)
  | .reset =>
    let w := w.closeFD c
    (w.next c .init false false 0, true)
  | .halt => (w, a.unreturned)
  | _ => (w, false)

/-- `BP_REMOTE_Process`. -/
def bpRemoteProcess (a : Answers Id) (c : Id) (w : World Id) : World Id × Bool :=
  match (w.fd c).iState with
  | .init => (if a.resolved then w.next c .connect false false 0
      else w.next c .netOver false false 1000, true)
  | .connect =>
    let w := w.closeFD c
    (connect a c w (·.next c .connecting true true 10000), true)
  | .connecting =>
    (connecting a c w fun w =>
      let w := w.setBuffer c (k.connectType c).magicStr
      ((w.next c .read true (decide ((w.acBuffer c).length > 0)) 10000).next (k.partner c) .reset
        false false 0).record (.connected c), true)
  | .read => (relay a c (k.partner c) w, true)
  | .netOver =>
    let w := w.next (k.partner c) .halt false false 60000
    let w := w.closeFD c
    (w.next c .init false false a.uDelayTime, true)
  | _ => (w, false)

/-- `pfunProcessFD`. -/
def process (a : Answers Id) (c : Id) (w : World Id) : World Id × Bool :=
  match k.kind c with
  | .msg => selectMsgProcess a c w
  | .http | .ddnsHttp | .ckipHttp => httpcProcess a c w
  | .ntp => ntpcProcess a c w
  | .bpLocal => bpLocalProcess k a c w
  | .bpRemote => bpRemoteProcess k a c w

end

end Rovio.Select
