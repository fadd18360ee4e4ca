import Rovio.Select.Thread

/-! What a client's function does with sockets: it closes and opens its own, and leaves the
descriptors of the others as they are. -/
namespace Rovio.Select
open Kit

universe u
variable {Id : Type u}

/-- The client's descriptor is the one socket it holds, or it is -1 and the client holds none. -/
structure Fit (c : Id) (w : World Id) : Prop where
  sole : w.sockets.Sole c (w.fd c).iFD
  real : (w.fd c).iFD = -1 ∨ 0 ≤ (w.fd c).iFD

structure Frame (c : Id) (w w' : World Id) : Prop where
  only : Handles.Only c w.sockets w'.sockets
  iFD : ∀ d, d ≠ c → (w'.fd d).iFD = (w.fd d).iFD
  readable : ∀ d, (w'.fd d).bReadable = (w.fd d).bReadable
  writable : ∀ d, (w'.fd d).bWritable = (w.fd d).bWritable

def Keeps (c : Id) (w w' : World Id) : Prop := Fit c w → Fit c w' ∧ Frame c w w'

/-- What a client's function leaves, by what it returns. -/
structure Tends (c : Id) (w : World Id) (result : World Id × Bool) : Prop where
  frame : Frame c w result.1
  stays : result.2 = true → Fit c result.1
  leaves : result.2 = false → result.1.sockets.Sole c (-1)

section
variable {c : Id} {w w' w'' : World Id}

theorem Frame.refl (c : Id) (w : World Id) : Frame c w w :=
  ⟨.refl c _, fun _ _ => rfl, fun _ => rfl, fun _ => rfl⟩

theorem Frame.trans (first : Frame c w w') (second : Frame c w' w'') : Frame c w w'' where
  only := first.only.trans second.only
  iFD d other := (second.iFD d other).trans (first.iFD d other)
  readable d := (second.readable d).trans (first.readable d)
  writable d := (second.writable d).trans (first.writable d)

theorem Keeps.refl (c : Id) (w : World Id) : Keeps c w w := fun fit => ⟨fit, .refl c w⟩

theorem Keeps.trans (first : Keeps c w w') (second : Keeps c w' w'') : Keeps c w w'' := by
  intro fit
  obtain ⟨fit, before⟩ := first fit
  obtain ⟨fit, after⟩ := second fit
  exact ⟨fit, before.trans after⟩

theorem Keeps.tends (keeps : Keeps c w w') (fit : Fit c w) : Tends c w (w', true) := by
  obtain ⟨fit, frame⟩ := keeps fit
  exact {
    frame
    stays _ := fit
    leaves := by
      intro h
      cases h }

theorem Frame.tends (frame : Frame c w w') (sole : w'.sockets.Sole c (-1)) :
    Tends c w (w', false) where
  frame
  stays := by
    intro h
    cases h
  leaves _ := sole

/-- A change that touches no socket, no descriptor and no flag. -/
theorem Keeps.of_same (sockets : w'.sockets = w.sockets)
    (iFD : ∀ d, (w'.fd d).iFD = (w.fd d).iFD)
    (readable : ∀ d, (w'.fd d).bReadable = (w.fd d).bReadable)
    (writable : ∀ d, (w'.fd d).bWritable = (w.fd d).bWritable) : Keeps c w w' := by
  rintro ⟨sole, real⟩
  rw [← iFD c, ← sockets] at sole
  rw [← iFD c] at real
  refine ⟨⟨sole, real⟩, ?_, fun d _ => iFD d, readable, writable⟩
  rw [sockets]
  exact .refl c _

end

variable [DecidableEq Id] {c d : Id} {w w' : World Id} {a : Answers Id} {state : NetState}
  {read write : Bool} {timeout n : Int}

namespace World

/-! ### Fields -/

@[simp] theorem next_sockets : (w.next d state read write timeout).sockets = w.sockets := rfl

@[simp] theorem next_acBuffer : (w.next d state read write timeout).acBuffer = w.acBuffer := rfl

@[simp] theorem next_wire : (w.next d state read write timeout).wire = w.wire := rfl

@[simp] theorem next_iFD : ((w.next d state read write timeout).fd c).iFD = (w.fd c).iFD := by
  rcases eq_or_ne c d with rfl | other
  · simp [next]
  · simp [next, other]

@[simp] theorem next_readable :
    ((w.next d state read write timeout).fd c).bReadable = (w.fd c).bReadable := by
  rcases eq_or_ne c d with rfl | other
  · simp [next]
  · simp [next, other]

@[simp] theorem next_writable :
    ((w.next d state read write timeout).fd c).bWritable = (w.fd c).bWritable := by
  rcases eq_or_ne c d with rfl | other
  · simp [next]
  · simp [next, other]

@[simp] theorem next_state : ((w.next c state read write timeout).fd c).iState = state := by
  simp [next]

theorem next_state_other (other : d ≠ c) :
    ((w.next c state read write timeout).fd d).iState = (w.fd d).iState := by
  simp [next, other]

@[simp] theorem setFD_iFD : ((w.setFD c n).fd c).iFD = n := by simp [setFD]

theorem setFD_iFD_other (other : d ≠ c) : ((w.setFD c n).fd d).iFD = (w.fd d).iFD := by
  simp [setFD, other]

@[simp] theorem setFD_readable : ((w.setFD d n).fd c).bReadable = (w.fd c).bReadable := by
  rcases eq_or_ne c d with rfl | other
  · simp [setFD]
  · simp [setFD, other]

@[simp] theorem setFD_writable : ((w.setFD d n).fd c).bWritable = (w.fd c).bWritable := by
  rcases eq_or_ne c d with rfl | other
  · simp [setFD]
  · simp [setFD, other]

@[simp] theorem setFD_state : ((w.setFD d n).fd c).iState = (w.fd c).iState := by
  rcases eq_or_ne c d with rfl | other
  · simp [setFD]
  · simp [setFD, other]

@[simp] theorem close_fd : (w.close c).fd = w.fd := rfl

@[simp] theorem setTries_fd {n : Nat} : (w.setTries c n).fd = w.fd := rfl

@[simp] theorem setBuffer_fd {bytes : List UInt8} : (w.setBuffer c bytes).fd = w.fd := rfl

omit [DecidableEq Id] in
@[simp] theorem record_fd {e : Event Id} : (w.record e).fd = w.fd := rfl

@[simp] theorem closeFD_iFD : ((w.closeFD c).fd c).iFD = -1 := by
  unfold closeFD
  split
  · exact setFD_iFD
  · rename_i none
    exact not_not.mp none

@[simp] theorem closeFD_state : ((w.closeFD c).fd d).iState = (w.fd d).iState := by
  unfold closeFD
  split
  · exact setFD_state
  · rfl

@[simp] theorem openFD_state {alloc : Handles.Alloc Id} :
    ((w.openFD c alloc).fd d).iState = (w.fd d).iState := setFD_state

end World

/-! ### Sockets -/

theorem keeps_next : Keeps c w (w.next d state read write timeout) :=
  .of_same rfl (fun _ => World.next_iFD) (fun _ => World.next_readable)
    fun _ => World.next_writable

theorem keeps_setTries {n : Nat} : Keeps c w (w.setTries d n) :=
  .of_same rfl (fun _ => rfl) (fun _ => rfl) fun _ => rfl

theorem keeps_setBuffer {bytes : List UInt8} : Keeps c w (w.setBuffer d bytes) :=
  .of_same rfl (fun _ => rfl) (fun _ => rfl) fun _ => rfl

omit [DecidableEq Id] in
theorem keeps_record {e : Event Id} : Keeps c w (w.record e) :=
  .of_same rfl (fun _ => rfl) (fun _ => rfl) fun _ => rfl

theorem keeps_over : Keeps c w (goOver c w) := keeps_next

/-- The client's socket is closed and the number left in `iFD`. -/
theorem close_sole (fit : Fit c w) (open_ : (w.fd c).iFD ≠ -1) :
    (w.close c).sockets.Sole c (-1) ∧ Frame c w (w.close c) := by
  have real : 0 ≤ (w.fd c).iFD := fit.real.resolve_left open_
  obtain ⟨sole, only⟩ := Handles.release_sole fit.sole real
  exact ⟨sole, only, fun _ _ => rfl, fun _ => rfl, fun _ => rfl⟩

theorem keeps_closeFD : Keeps c w (w.closeFD c) := by
  intro fit
  unfold World.closeFD
  split
  · rename_i open_
    obtain ⟨sole, frame⟩ := close_sole fit open_
    constructor
    · constructor
      · rw [World.setFD_iFD]
        exact sole
      · exact .inl World.setFD_iFD
    · exact {
        only := frame.only
        iFD := fun d other => World.setFD_iFD_other other
        readable := fun d => World.setFD_readable
        writable := fun d => World.setFD_writable }
  · exact ⟨fit, .refl c w⟩

theorem keeps_openFD {alloc : Handles.Alloc Id} (none : (w.fd c).iFD = -1) :
    Keeps c w (w.openFD c alloc) := by
  intro fit
  have sole := fit.sole
  rw [none] at sole
  obtain ⟨sole, only⟩ := Handles.take_sole alloc sole
  unfold World.openFD
  constructor
  · constructor
    · rw [World.setFD_iFD]
      exact sole
    · rw [World.setFD_iFD]
      exact (alloc.2 _).imp_right And.left
  · exact {
      only
      iFD := fun d other => World.setFD_iFD_other other
      readable := fun d => World.setFD_readable
      writable := fun d => World.setFD_writable }

theorem keeps_connect {started : World Id → World Id} (none : (w.fd c).iFD = -1)
    (keeps : ∀ w, Keeps c w (started w)) : Keeps c w (connect a c w started) := by
  have opened : Keeps c w (w.openFD c a.socket) := keeps_openFD none
  unfold connect
  dsimp only
  split
  · exact opened.trans keeps_over
  · split
    · exact opened.trans keeps_over
    · exact opened.trans (keeps _)

theorem keeps_connecting {done : World Id → World Id} (keeps : Keeps c w (done w)) :
    Keeps c w (connecting a c w done) := by
  unfold connecting
  split
  · split
    · exact keeps_next
    · exact .refl c w
  · split
    · exact keeps
    · exact keeps_next

theorem keeps_writeOut (some : writeOut a c w = some w') : Keeps c w w' := by
  unfold writeOut at some
  split at some
  · split at some <;> cases some
    · exact keeps_setBuffer.trans keeps_record
    · exact .refl c w
  · cases some
    exact .refl c w

theorem keeps_readIn {partner : Id} (some : readIn a c partner w = some w') : Keeps c w w' := by
  unfold readIn at some
  split at some
  · split at some <;> cases some
    · exact keeps_setBuffer.trans keeps_record
    · exact .refl c w
  · cases some
    exact .refl c w

theorem keeps_nextReads {partner : Id} : Keeps c w (nextReads a c partner w) := by
  unfold nextReads
  split
  · exact keeps_over
  · dsimp only
    split
    · exact keeps_next.trans keeps_next
    · exact keeps_next

theorem keeps_relay {partner : Id} : Keeps c w (relay a c partner w) := by
  unfold relay
  split
  · exact keeps_over
  · rename_i wrote
    have written := keeps_writeOut wrote
    split
    · exact written.trans keeps_over
    · rename_i got
      exact (written.trans (keeps_readIn got)).trans keeps_nextReads

/-! ### The clients' functions -/

/-- The states that a client of this kind is ever in. -/
def states : Kind → List NetState
  | .msg => [.init]
  | .http | .ddnsHttp | .ckipHttp => [.init, .connect, .connecting, .write, .read, .netOver]
  | .ntp => [.init, .connect, .write, .read, .netOver]
  | .bpLocal => [.init, .connect, .connecting, .read, .netOver, .reset, .halt]
  | .bpRemote => [.init, .connect, .connecting, .read, .netOver]

def Proper (k : Clients Id) (w : World Id) : Prop := ∀ c, (w.fd c).iState ∈ states (k.kind c)

variable {k : Clients Id}

theorem httpcProcess_tends (proper : (w.fd c).iState ∈ states .http) (fit : Fit c w) :
    Tends c w (httpcProcess a c w) := by
  have retry : Keeps c w (((w.closeFD c).setTries c ((w.closeFD c).tries c + 1))) :=
    keeps_closeFD.trans keeps_setTries
  unfold httpcProcess
  cases state : (w.fd c).iState <;> dsimp only
  case init =>
    split
    · exact keeps_next.tends fit
    · exact keeps_over.tends fit
  case connect =>
    split
    · exact (retry.trans keeps_over).tends fit
    · exact (retry.trans (keeps_connect World.closeFD_iFD fun _ => keeps_next)).tends fit
  case connecting => exact (keeps_connecting keeps_next).tends fit
  case write =>
    have expired : Keeps c w (if a.late then goOver c w else w) := by
      split
      · exact keeps_over
      · exact .refl c w
    split
    · split
      · split
        · exact keeps_next.tends fit
        · exact (Keeps.refl c w).tends fit
      · exact keeps_over.tends fit
      · exact expired.tends fit
    · exact expired.tends fit
  case read =>
    split
    · exact keeps_over.tends fit
    · split
      · exact (Keeps.refl c w).tends fit
      · split
        · split
          · exact keeps_over.tends fit
          · exact (Keeps.refl c w).tends fit
        · exact (Keeps.refl c w).tends fit
        · exact keeps_over.tends fit
  case netOver =>
    split
    · rename_i open_
      obtain ⟨sole, frame⟩ := close_sole fit open_
      exact frame.tends sole
    · rename_i none
      have sole := fit.sole
      rw [not_not.mp none] at sole
      exact (Frame.refl c w).tends sole
  all_goals
    rw [state] at proper
    exact absurd proper (by decide)

theorem ntpcProcess_tends (proper : (w.fd c).iState ∈ states .ntp) (fit : Fit c w) :
    Tends c w (ntpcProcess a c w) := by
  unfold ntpcProcess
  cases state : (w.fd c).iState <;> dsimp only
  case init =>
    split
    · exact keeps_next.tends fit
    · exact keeps_over.tends fit
  case connect =>
    split
    · exact (keeps_closeFD.trans keeps_over).tends fit
    · exact (keeps_closeFD.trans (keeps_connect World.closeFD_iFD
        fun _ => keeps_next.trans keeps_setTries)).tends fit
  case write =>
    split
    · exact keeps_next.tends fit
    · split
      · exact (keeps_next.trans keeps_setTries).tends fit
      · exact keeps_over.tends fit
  case read =>
    split
    · exact keeps_next.tends fit
    · split
      · exact (Keeps.refl c w).tends fit
      · split
        · exact (Keeps.refl c w).tends fit
        · split
          · exact keeps_over.tends fit
          · exact keeps_next.tends fit
        · exact keeps_next.tends fit
  case netOver =>
    split
    · rename_i open_
      obtain ⟨sole, frame⟩ := close_sole fit (by omega)
      exact frame.tends sole
    · rename_i none
      have sole := fit.sole
      rw [fit.real.resolve_right none] at sole
      exact (Frame.refl c w).tends sole
  all_goals
    rw [state] at proper
    exact absurd proper (by decide)

/-- A halted client with a socket goes on as one that has returned TRUE. -/
def Halts (c : Id) (w : World Id) (a : Answers Id) : Prop :=
  (w.fd c).iState = .halt → (w.fd c).iFD ≠ -1 → a.unreturned = true

theorem bpLocalProcess_tends (proper : (w.fd c).iState ∈ states .bpLocal) (halts : Halts c w a)
    (fit : Fit c w) : Tends c w (bpLocalProcess k a c w) := by
  unfold bpLocalProcess
  cases state : (w.fd c).iState <;> dsimp only
  case init => exact (keeps_setBuffer.trans keeps_next).tends fit
  case connect =>
    exact (keeps_closeFD.trans (keeps_connect World.closeFD_iFD fun _ => keeps_next)).tends fit
  case connecting => exact (keeps_connecting (keeps_next.trans keeps_record)).tends fit
  case read => exact keeps_relay.tends fit
  case netOver =>
    split
    · exact (keeps_closeFD.trans keeps_next).tends fit
    · exact (keeps_closeFD.trans keeps_next).tends fit
  case reset => exact (keeps_closeFD.trans keeps_next).tends fit
  case halt =>
    refine ⟨.refl c w, fun _ => fit, fun gone => ?_⟩
    have none : (w.fd c).iFD = -1 := by
      by_contra open_
      rw [halts state open_] at gone
      cases gone
    have sole := fit.sole
    rwa [none] at sole
  all_goals
    rw [state] at proper
    exact absurd proper (by decide)

theorem bpRemoteProcess_tends (proper : (w.fd c).iState ∈ states .bpRemote) (fit : Fit c w) :
    Tends c w (bpRemoteProcess k a c w) := by
  unfold bpRemoteProcess
  cases state : (w.fd c).iState <;> dsimp only
  case init =>
    split
    · exact keeps_next.tends fit
    · exact keeps_next.tends fit
  case connect =>
    exact (keeps_closeFD.trans (keeps_connect World.closeFD_iFD fun _ => keeps_next)).tends fit
  case connecting =>
    have started : Keeps c w (w.setBuffer c (k.connectType c).magicStr) := keeps_setBuffer
    exact (keeps_connecting (((started.trans keeps_next).trans keeps_next).trans
      keeps_record)).tends fit
  case read => exact keeps_relay.tends fit
  case netOver => exact ((keeps_next.trans keeps_closeFD).trans keeps_next).tends fit
  all_goals
    rw [state] at proper
    exact absurd proper (by decide)

omit [DecidableEq Id] in
theorem selectMsgProcess_keeps : Keeps c w (selectMsgProcess a c w).1 := by
  unfold selectMsgProcess
  split
  · exact .refl c w
  · split
    · exact .of_same rfl (fun _ => rfl) (fun _ => rfl) fun _ => rfl
    · exact .of_same rfl (fun _ => rfl) (fun _ => rfl) fun _ => rfl

/-- The spec of a client's function. The socket of the queue's client is not its own. -/
theorem process_tends (proper : Proper k w) (halts : k.kind c = .bpLocal → Halts c w a)
    (fit : Fit c w) :
    Frame c w (process k a c w).1 ∧
      ((process k a c w).2 = true → Fit c (process k a c w).1) ∧
      ((process k a c w).2 = false → k.kind c ≠ .msg → (process k a c w).1.sockets.Sole c (-1)) := by
  have here := proper c
  have of_tends {r : World Id × Bool} (tends : Tends c w r) : Frame c w r.1 ∧
      (r.2 = true → Fit c r.1) ∧ (r.2 = false → k.kind c ≠ .msg → r.1.sockets.Sole c (-1)) :=
    ⟨tends.frame, tends.stays, fun gone _ => tends.leaves gone⟩
  unfold process
  cases kind : k.kind c <;> rw [kind] at here of_tends halts <;> dsimp only
  case msg =>
    obtain ⟨fit, frame⟩ := selectMsgProcess_keeps (a := a) fit
    exact ⟨frame, fun _ => fit, fun _ other => absurd rfl other⟩
  case ntp => exact of_tends (ntpcProcess_tends here fit)
  case bpLocal => exact of_tends (bpLocalProcess_tends here (halts rfl) fit)
  case bpRemote => exact of_tends (bpRemoteProcess_tends here fit)
  all_goals exact of_tends (httpcProcess_tends here fit)

/-! ### States -/

theorem Proper.next (proper : Proper k w) (allowed : state ∈ states (k.kind d)) :
    Proper k (w.next d state read write timeout) := by
  intro c
  rcases eq_or_ne c d with rfl | other
  · rw [World.next_state]
    exact allowed
  · rw [World.next_state_other other]
    exact proper c

theorem Proper.closeFD (proper : Proper k w) : Proper k (w.closeFD d) := by
  intro c
  rw [World.closeFD_state]
  exact proper c

theorem Proper.openFD (proper : Proper k w) {alloc : Handles.Alloc Id} :
    Proper k (w.openFD d alloc) := by
  intro c
  rw [World.openFD_state]
  exact proper c

theorem Proper.connect (proper : Proper k w) (allowed : .netOver ∈ states (k.kind c))
    {started : World Id → World Id} (keeps : ∀ w, Proper k w → Proper k (started w)) :
    Proper k (connect a c w started) := by
  have opened : Proper k (w.openFD c a.socket) := proper.openFD
  unfold Select.connect
  dsimp only
  split
  · exact opened.next allowed
  · split
    · exact opened.next allowed
    · exact keeps _ opened

theorem Proper.connecting (proper : Proper k w) (allowed : .connect ∈ states (k.kind c))
    {done : World Id → World Id} (keeps : Proper k (done w)) :
    Proper k (connecting a c w done) := by
  unfold Select.connecting
  split
  · split
    · exact proper.next allowed
    · exact proper
  · split
    · exact keeps
    · exact proper.next allowed

theorem writeOut_fd (some : writeOut a c w = some w') : w'.fd = w.fd := by
  unfold writeOut at some
  split at some
  · split at some <;> cases some <;> rfl
  · cases some
    rfl

theorem readIn_fd {partner : Id} (some : readIn a c partner w = some w') : w'.fd = w.fd := by
  unfold readIn at some
  split at some
  · split at some <;> cases some <;> rfl
  · cases some
    rfl

theorem Proper.relay (proper : Proper k w) (ended : .netOver ∈ states (k.kind c))
    (read : .read ∈ states (k.kind c)) {partner : Id} : Proper k (relay a c partner w) := by
  unfold Select.relay
  split
  · exact proper.next ended
  · rename_i written wrote
    have proper : Proper k written := by
      intro d
      rw [writeOut_fd wrote]
      exact proper d
    split
    · exact proper.next ended
    · rename_i filled got
      have proper : Proper k filled := by
        intro d
        rw [readIn_fd got]
        exact proper d
      unfold nextReads
      split
      · exact proper.next ended
      · dsimp only
        split
        · rename_i reading
          have partner_read := proper partner
          rw [reading] at partner_read
          have asked : Proper k (nextRead partner c (filled.fd partner).iConnTimeout filled) :=
            proper.next partner_read
          exact asked.next read
        · exact proper.next read

theorem httpcProcess_proper (proper : Proper k w) (kind : states (k.kind c) = states .http) :
    Proper k (httpcProcess a c w).1 := by
  have allowed (state : NetState) (mem : state ∈ states .http) : state ∈ states (k.kind c) := by
    rwa [kind]
  have closed : Proper k (((w.closeFD c).setTries c ((w.closeFD c).tries c + 1))) := proper.closeFD
  have connect := allowed .connect (by decide)
  have ended : Proper k (goOver c w) := proper.next (allowed .netOver (by decide))
  unfold httpcProcess
  cases (w.fd c).iState <;> dsimp only
  case init =>
    split
    · exact proper.next connect
    · exact ended
  case connect =>
    split
    · exact closed.next (allowed .netOver (by decide))
    · exact closed.connect (allowed .netOver (by decide))
        fun _ opened => opened.next (allowed .connecting (by decide))
  case connecting => exact proper.connecting connect (proper.next (allowed .write (by decide)))
  case write =>
    have expired : Proper k (if a.late then goOver c w else w) := by
      split
      · exact ended
      · exact proper
    split
    · split
      · split
        · exact proper.next (allowed .read (by decide))
        · exact proper
      · exact ended
      · exact expired
    · exact expired
  case read =>
    split
    · exact ended
    · split
      · exact proper
      · split
        · split
          · exact ended
          · exact proper
        · exact proper
        · exact ended
  case netOver =>
    split
    · exact proper
    · exact proper
  all_goals exact proper

theorem ntpcProcess_proper (proper : Proper k w) (kind : k.kind c = .ntp) :
    Proper k (ntpcProcess a c w).1 := by
  have allowed (state : NetState) (mem : state ∈ states .ntp) : state ∈ states (k.kind c) := by
    rwa [kind]
  have ended : Proper k (goOver c w) := proper.next (allowed .netOver (by decide))
  have write : Proper k (w.next c .write false true 0) := proper.next (allowed .write (by decide))
  unfold ntpcProcess
  cases (w.fd c).iState <;> dsimp only
  case init =>
    split
    · exact proper.next (allowed .connect (by decide))
    · exact ended
  case connect =>
    split
    · exact proper.closeFD.next (allowed .netOver (by decide))
    · exact proper.closeFD.connect (allowed .netOver (by decide))
        fun _ opened => opened.next (allowed .write (by decide))
  case write =>
    split
    · exact proper.next (allowed .connect (by decide))
    · split
      · exact proper.next (allowed .read (by decide))
      · exact ended
  case read =>
    split
    · exact write
    · split
      · exact proper
      · split
        · exact proper
        · split
          · exact ended
          · exact write
        · exact write
  case netOver =>
    split
    · exact proper
    · exact proper
  all_goals exact proper

theorem bpLocalProcess_proper (proper : Proper k w) (kind : k.kind c = .bpLocal) :
    Proper k (bpLocalProcess k a c w).1 := by
  have allowed (state : NetState) (mem : state ∈ states .bpLocal) :
      state ∈ states (k.kind c) := by
    rwa [kind]
  have ended := allowed .netOver (by decide)
  have read := allowed .read (by decide)
  have connect := allowed .connect (by decide)
  have emptied : Proper k (w.setBuffer c []) := proper
  unfold bpLocalProcess
  cases (w.fd c).iState <;> dsimp only
  case init => exact emptied.next connect
  case connect =>
    exact proper.closeFD.connect ended fun _ opened => opened.next (allowed .connecting (by decide))
  case connecting => exact proper.connecting connect (proper.next read)
  case read => exact proper.relay ended read
  case netOver =>
    split
    · exact proper.closeFD.next (allowed .reset (by decide))
    · exact proper.closeFD.next (allowed .halt (by decide))
  case reset => exact proper.closeFD.next (allowed .init (by decide))
  all_goals exact proper

theorem bpRemoteProcess_proper (proper : Proper k w) (kind : k.kind c = .bpRemote) :
    Proper k (bpRemoteProcess k a c w).1 := by
  have allowed (state : NetState) (mem : state ∈ states .bpRemote) :
      state ∈ states (k.kind c) := by
    rwa [kind]
  have partner (state : NetState) (mem : state ∈ states .bpLocal) :
      state ∈ states (k.kind (k.partner c)) := by
    rwa [(k.remote_partner c kind).1]
  have ended := allowed .netOver (by decide)
  have read := allowed .read (by decide)
  have connect := allowed .connect (by decide)
  have greeted : Proper k (w.setBuffer c (k.connectType c).magicStr) := proper
  unfold bpRemoteProcess
  cases (w.fd c).iState <;> dsimp only
  case init =>
    split
    · exact proper.next connect
    · exact proper.next ended
  case connect =>
    exact proper.closeFD.connect ended fun _ opened => opened.next (allowed .connecting (by decide))
  case connecting =>
    exact proper.connecting connect ((greeted.next read).next (partner .reset (by decide)))
  case read => exact proper.relay ended read
  case netOver =>
    exact (proper.next (partner .halt (by decide))).closeFD.next (allowed .init (by decide))
  all_goals exact proper

theorem process_proper (proper : Proper k w) : Proper k (process k a c w).1 := by
  unfold process
  cases kind : k.kind c <;> dsimp only
  case msg =>
    unfold selectMsgProcess
    split
    · exact proper
    · split
      · exact proper
      · exact proper
  case ntp => exact ntpcProcess_proper proper kind
  case bpLocal => exact bpLocalProcess_proper proper kind
  case bpRemote => exact bpRemoteProcess_proper proper kind
  all_goals exact httpcProcess_proper proper (by simp only [kind, states])

end Rovio.Select
