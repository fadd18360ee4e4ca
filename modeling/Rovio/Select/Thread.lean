import Rovio.Select.Clients
import Rovio.Kit.Runs

/-! `SelectThread`, one call of a client's function at a time. -/
namespace Rovio.Select
open Kit

universe u

/-- Where the thread is: at the head of its loop, before the calls still to make in this round, at
the message, or at its end. -/
inductive Place (Id : Type u) where
  | top
  | calls (todo : List Id)
  | message
  | ended
  deriving DecidableEq, Repr

structure SelectThread (Id : Type u) where
  world : World Id
  pFDList : List Id
  fdReadSet : Int → Bool
  fdWriteSet : Int → Bool
  place : Place Id
  /-- The objects that a message has brought so far. -/
  brought : List Id

/-- What `select` answers: an error other than EINTR and EBADF, one of these or nothing, or the
descriptors that are ready. -/
inductive Selected where
  | error
  | nothing
  | ready (read write : Int → Bool)

section
variable {Id : Type u} [DecidableEq Id]

/-- The sets as they are passed to `select`. -/
def passedRead (s : SelectThread Id) : Int → Bool :=
  s.pFDList.foldl (Marks.settle (fun c => (s.world.fd c).iFD) (fun c => (s.world.fd c).bReadable)
    (fun c => (s.world.fd c).bWantRead)) s.fdReadSet

def passedWrite (s : SelectThread Id) : Int → Bool :=
  s.pFDList.foldl (Marks.settle (fun c => (s.world.fd c).iFD) (fun c => (s.world.fd c).bWritable)
    (fun c => (s.world.fd c).bWantWrite)) s.fdWriteSet

def FD.notReady (fd : FD) : FD := { fd with bReadable := false, bWritable := false }

/-- The flags of one client after `select`. Where nothing is ready the sets are empty. -/
def FD.answer (fd : FD) (fdReadSet fdWriteSet : Int → Bool) : FD :=
  if fd.iFD < 0 then fd.notReady
  else { fd with
    bReadable := fd.bWantRead && fdReadSet fd.iFD
    bWritable := fd.bWantWrite && fdWriteSet fd.iFD }

/-- The loop ends; what is still in the list is finalised, and the thread's data go with it. -/
def SelectThread.leave (s : SelectThread Id) : SelectThread Id :=
  { s with
    pFDList := []
    fdReadSet := fun _ => false
    fdWriteSet := fun _ => false
    place := .ended }

/-- The sets and the flags after `select`. -/
def SelectThread.answered (s : SelectThread Id) (read write : Int → Bool) : SelectThread Id :=
  let fdReadSet n := passedRead s n && read n
  let fdWriteSet n := passedWrite s n && write n
  { s with
    world := { s.world with
      pMsg := none
      fd := fun c =>
        if c ∈ s.pFDList then (s.world.fd c).answer fdReadSet fdWriteSet else s.world.fd c }
    fdReadSet
    fdWriteSet
    place := .calls s.pFDList }

def SelectThread.select (s : SelectThread Id) : Selected → SelectThread Id
  | .error => s.leave
  | .nothing => s.answered (fun _ => false) fun _ => false
  | .ready read write => s.answered read write

/-- The client's function is called; a client that is over is removed, the sets follow one that has
another descriptor now. -/
def SelectThread.call (k : Clients Id) (s : SelectThread Id) (c : Id) (todo : List Id)
    (a : Answers Id) : SelectThread Id :=
  let iFD := (s.world.fd c).iFD
  match process k a c s.world with
  | (world, false) =>
    { s with
      world
      pFDList := s.pFDList.erase c
      fdReadSet := if (world.fd c).bReadable then Function.update s.fdReadSet iFD false
        else s.fdReadSet
      fdWriteSet := if (world.fd c).bWritable then Function.update s.fdWriteSet iFD false
        else s.fdWriteSet
      place := .calls todo }
  | (world, true) =>
    if iFD ≠ (world.fd c).iFD then
      { s with
        world
        fdReadSet := if (world.fd c).bReadable then Marks.moved s.fdReadSet iFD (world.fd c).iFD
          else s.fdReadSet
        fdWriteSet := if (world.fd c).bWritable then Marks.moved s.fdWriteSet iFD (world.fd c).iFD
          else s.fdWriteSet
        place := .calls todo }
    else { s with world, place := .calls todo }

/-- The clients that a custom process finalises and removes from the list: `AddNTP`, `AddDDNS`,
`URLCGI_DelFD`. -/
def removes (k : Clients Id) (process : Custom Id) (c : Id) : Bool :=
  match process with
  | .addNTP _ => k.kind c = .ntp
  | .addDDNS _ => k.kind c = .ddnsHttp || k.kind c = .ckipHttp
  | .urlcgiDelFD pTheFD => c = pTheFD

/-- `MSG_ADD_FD`, `appended` telling whether `httpAppendNode` has found memory. -/
def SelectThread.addFD (s : SelectThread Id) (c : Id) (appended : Bool) : SelectThread Id :=
  if appended then
    { s with
      world := { s.world with fd := Function.update s.world.fd c (s.world.fd c).notReady }
      pFDList := s.pFDList ++ [c]
      place := .top
      brought := c :: s.brought }
  else { s with place := .top, brought := c :: s.brought }

inductive Action (Id : Type u) where
  | wait (message : Option (Msg Id))
  | select (answer : Selected)
  | call (a : Answers Id)
  | message (appended : Bool)

/-- A client is brought once, by the one who has made it. -/
inductive Step (k : Clients Id) : SelectThread Id → Action Id → SelectThread Id → Prop where
  | waitFails {s : SelectThread Id} : s.place = .top → s.pFDList = [] →
      Step k s (.wait none) s
  | wait {s : SelectThread Id} {msg : Msg Id} : s.place = .top → s.pFDList = [] →
      Step k s (.wait (some msg))
        { s with world := { s.world with pMsg := some msg }, place := .message }
  | select {s : SelectThread Id} {answer : Selected} : s.place = .top → s.pFDList ≠ [] →
      Step k s (.select answer) (s.select answer)
  | call {s : SelectThread Id} {c : Id} {todo : List Id} {a : Answers Id} :
      s.place = .calls (c :: todo) → Step k s (.call a) (s.call k c todo a)
  | called {s : SelectThread Id} {a : Answers Id} : s.place = .calls [] →
      Step k s (.call a) { s with place := .message }
  | none {s : SelectThread Id} {appended : Bool} : s.place = .message → s.world.pMsg = none →
      Step k s (.message appended) { s with place := .top }
  | quit {s : SelectThread Id} {appended : Bool} : s.place = .message →
      s.world.pMsg = some .quit → Step k s (.message appended) s.leave
  | addFD {s : SelectThread Id} {appended : Bool} {c : Id} : s.place = .message →
      s.world.pMsg = some (.addFD c) → c ∉ s.brought →
      Step k s (.message appended) (s.addFD c appended)
  | customProc {s : SelectThread Id} {appended : Bool} {process : Custom Id} : s.place = .message →
      s.world.pMsg = some (.customProc process) →
      Step k s (.message appended)
        { s with pFDList := s.pFDList.filter fun c => !removes k process c, place := .top }

/-- `Step` as a function. -/
def advance (k : Clients Id) (s : SelectThread Id) : Action Id → Option (SelectThread Id)
  | .wait none => if s.place = .top ∧ s.pFDList = [] then some s else none
  | .wait (some msg) =>
    if s.place = .top ∧ s.pFDList = [] then
      some { s with world := { s.world with pMsg := some msg }, place := .message }
    else none
  | .select answer => if s.place = .top ∧ s.pFDList ≠ [] then some (s.select answer) else none
  | .call a =>
    match s.place with
    | .calls (c :: todo) => some (s.call k c todo a)
    | .calls [] => some { s with place := .message }
    | _ => none
  | .message appended =>
    if s.place = .message then
      match s.world.pMsg with
      | none => some { s with place := .top }
      | some .quit => some s.leave
      | some (.addFD c) => if c ∈ s.brought then none else some (s.addFD c appended)
      | some (.customProc process) =>
        some { s with pFDList := s.pFDList.filter fun c => !removes k process c, place := .top }
    else none

/-- The thread before its loop. The clients that will be brought have been made. -/
def start (k : Clients Id) : SelectThread Id where
  world := {
    fd := fun c =>
      if c = k.queue then ⟨k.aiFD, .init, -1, false, false, true, false⟩ else newFD
    tries := fun _ => 0
    acBuffer := fun _ => []
    sockets := (⟨fun _ => none, 0⟩ : Handles Id).take k.queue k.aiFD
    pMsg := none
    wire := [] }
  pFDList := [k.queue]
  fdReadSet := fun _ => false
  fdWriteSet := fun _ => false
  place := .top
  brought := [k.queue]

end

end Rovio.Select
