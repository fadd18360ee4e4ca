import Rovio.Select.Reach

/-! What goes through a bypass: between the server far away and the local one, within one
connection to the remote server. -/
namespace Rovio.Select
open Kit

universe u
variable {Id : Type u} [DecidableEq Id]

/-- What has gone over the two connections: received from the remote server since the last local
connection has ended, sent on the local connection since, read from the local connections and sent
to the remote server, all on the present remote connection. -/
structure Account where
  attached : Bool
  received : List UInt8
  toLocal : List UInt8
  fromLocal : List UInt8
  toRemote : List UInt8

def noAccount : Account := ⟨false, [], [], [], []⟩

def Account.add (l r : Id) (e : Event Id) (acc : Account) : Account :=
  match e with
  | .connected c =>
    if c = r then { acc with received := [], toLocal := [], fromLocal := [], toRemote := [] }
    else if c = l then { acc with attached := true }
    else acc
  | .closed c =>
    if c = l ∧ acc.attached then { acc with attached := false, received := [], toLocal := [] }
    else acc
  | .sent c bytes =>
    if c = l then { acc with toLocal := acc.toLocal ++ bytes }
    else if c = r then { acc with toRemote := acc.toRemote ++ bytes }
    else acc
  | .got c bytes =>
    if c = r then { acc with received := acc.received ++ bytes }
    else if c = l then { acc with fromLocal := acc.fromLocal ++ bytes }
    else acc

def account (l r : Id) (wire : List (Event Id)) : Account :=
  wire.foldr (Account.add l r) noAccount

variable {k : Clients Id} {l r : Id} {w w' : World Id} {a : Answers Id}

/-- The bypass with this local end. -/
def traffic (k : Clients Id) (l : Id) (w : World Id) : Account := account l (k.partner l) w.wire

/-- `BP_LOCAL_Process` empties the buffer in `ST_NET_INIT`: nothing has been received before. -/
def Unlost (k : Clients Id) (l : Id) (s : SelectThread Id) : Action Id → Prop
  | .call _ =>
    match s.place with
    | .calls (c :: _) =>
      c = l → (s.world.fd l).iState = .init → (traffic k l s.world).received = []
    | _ => True
  | _ => True

instance (k : Clients Id) (l : Id) (s : SelectThread Id) : DecidablePred (Unlost k l s)
  | .call _ =>
    match here : s.place with
    | .calls (c :: _) => decidable_of_iff
        (c = l → (s.world.fd l).iState = .init → (traffic k l s.world).received = [])
        (by simp only [Unlost, here])
    | .calls [] => .isTrue (by simp only [Unlost, here])
    | .top => .isTrue (by simp only [Unlost, here])
    | .message => .isTrue (by simp only [Unlost, here])
    | .ended => .isTrue (by simp only [Unlost, here])
  | .wait _ => .isTrue trivial
  | .select _ => .isTrue trivial
  | .message _ => .isTrue trivial

/-- The states in which the local end is to send what is in its buffer. -/
def sending : List NetState := [.connect, .connecting, .read]

theorem ended_not_sending {state : NetState}
    (ended : state ∈ ([.read, .netOver, .reset, .halt] : List NetState))
    (idle : state ∉ ([.connecting, .read] : List NetState)) : state ∉ sending := by
  revert ended idle
  cases state <;> decide

structure Relayed (k : Clients Id) (l : Id) (w : World Id) : Prop where
  toLocal : (traffic k l w).toLocal <+: (traffic k l w).received
  armed : (w.fd l).iState ∈ sending →
    (traffic k l w).toLocal ++ w.acBuffer l = (traffic k l w).received
  toRemote : (traffic k l w).toRemote <+:
    (k.connectType (k.partner l)).magicStr ++ (traffic k l w).fromLocal
  remoteHeld : (w.fd (k.partner l)).iState = .read →
    (traffic k l w).toRemote ++ w.acBuffer (k.partner l) =
      (k.connectType (k.partner l)).magicStr ++ (traffic k l w).fromLocal
  localRoom : (w.acBuffer l).length ≤ bufferSize
  remoteRoom : (w.acBuffer (k.partner l)).length ≤ bufferSize
  attached : (traffic k l w).attached = true → (w.fd l).iFD ≠ -1 ∧
    (w.fd l).iState ∈ ([.read, .netOver, .reset, .halt] : List NetState)
  connecting : (w.fd l).iState ∈ ([.connecting, .read] : List NetState) → (w.fd l).iFD ≠ -1

omit [DecidableEq Id] in
theorem magicStr_length (type : ConnectType) : type.magicStr.length = 11 := by
  cases type <;> rfl

omit [DecidableEq Id] in
theorem Clients.partner_partner (k : Clients Id) {c : Id}
    (bypass : k.kind c = .bpLocal ∨ k.kind c = .bpRemote) : k.partner (k.partner c) = c := by
  rcases bypass with kind | kind
  · exact (k.local_partner c kind).2
  · exact (k.remote_partner c kind).2

namespace Relayed

variable {state : NetState} {read write : Bool} {timeout : Int}

/-- Only the two ends matter, and not what they ask for. -/
theorem congr (relayed : Relayed k l w)
    (here : (w'.fd l).iState = (w.fd l).iState ∧ (w'.fd l).iFD = (w.fd l).iFD)
    (there : (w'.fd (k.partner l)).iState = (w.fd (k.partner l)).iState)
    (buffer : w'.acBuffer l = w.acBuffer l)
    (buffer' : w'.acBuffer (k.partner l) = w.acBuffer (k.partner l))
    (wire : traffic k l w' = traffic k l w) : Relayed k l w' where
  toLocal := by
    rw [wire]
    exact relayed.toLocal
  armed := by
    rw [wire, here.1, buffer]
    exact relayed.armed
  toRemote := by
    rw [wire]
    exact relayed.toRemote
  remoteHeld := by
    rw [wire, there, buffer']
    exact relayed.remoteHeld
  localRoom := by
    rw [buffer]
    exact relayed.localRoom
  remoteRoom := by
    rw [buffer']
    exact relayed.remoteRoom
  attached := by
    rw [wire, here.1, here.2]
    exact relayed.attached
  connecting := by
    rw [here.1, here.2]
    exact relayed.connecting

/-! ### The local end -/

theorem next_local (relayed : Relayed k l w) (ends : k.partner l ≠ l)
    (armed : state ∈ sending → (traffic k l w).toLocal ++ w.acBuffer l = (traffic k l w).received)
    (attached : (traffic k l w).attached = true →
      state ∈ ([.read, .netOver, .reset, .halt] : List NetState))
    (connecting : state ∈ ([.connecting, .read] : List NetState) → (w.fd l).iFD ≠ -1) :
    Relayed k l (w.next l state read write timeout) where
  toLocal := relayed.toLocal
  armed := by
    rw [World.next_state]
    exact armed
  toRemote := relayed.toRemote
  remoteHeld := by
    rw [World.next_state_other ends]
    exact relayed.remoteHeld
  localRoom := relayed.localRoom
  remoteRoom := relayed.remoteRoom
  attached on := by
    rw [World.next_state, World.next_iFD]
    exact ⟨(relayed.attached on).1, attached on⟩
  connecting := by
    rw [World.next_state, World.next_iFD]
    exact connecting

/-- The local connection ends. -/
theorem closeFD_local (relayed : Relayed k l w)
    (idle : (w.fd l).iState ∉ ([.connecting, .read] : List NetState)) :
    Relayed k l (w.closeFD l) ∧ (traffic k l (w.closeFD l)).attached = false := by
  unfold World.closeFD
  split
  · have wire : traffic k l ((w.close l).setFD l (-1)) =
        if (traffic k l w).attached then
          { traffic k l w with attached := false, received := [], toLocal := [] }
        else traffic k l w := by
      change Account.add l (k.partner l) (.closed l) (traffic k l w) = _
      simp [Account.add]
    have state : (((w.close l).setFD l (-1)).fd l).iState = (w.fd l).iState := World.setFD_state
    have remote : (((w.close l).setFD l (-1)).fd (k.partner l)).iState =
        (w.fd (k.partner l)).iState := World.setFD_state
    cases on : (traffic k l w).attached with
    | true =>
      rw [on, if_pos rfl] at wire
      refine ⟨?_, by rw [wire]⟩
      exact {
        toLocal := by
          simp only [wire, List.prefix_rfl]
        armed := by
          rw [state]
          intro busy
          exact absurd busy (ended_not_sending (relayed.attached on).2 idle)
        toRemote := by
          rw [wire]
          exact relayed.toRemote
        remoteHeld := by
          rw [wire, remote]
          exact relayed.remoteHeld
        localRoom := relayed.localRoom
        remoteRoom := relayed.remoteRoom
        attached := by
          rw [wire]
          intro h
          cases h
        connecting := by
          rw [state]
          intro busy
          exact absurd busy idle }
    | false =>
      rw [on, if_neg Bool.false_ne_true] at wire
      refine ⟨?_, by rw [wire, on]⟩
      exact {
        toLocal := by
          rw [wire]
          exact relayed.toLocal
        armed := by
          rw [wire, state]
          exact relayed.armed
        toRemote := by
          rw [wire]
          exact relayed.toRemote
        remoteHeld := by
          rw [wire, remote]
          exact relayed.remoteHeld
        localRoom := relayed.localRoom
        remoteRoom := relayed.remoteRoom
        attached := by
          rw [wire, on]
          intro h
          cases h
        connecting := by
          rw [state]
          intro busy
          exact absurd busy idle }
  · rename_i none
    refine ⟨relayed, ?_⟩
    by_contra on
    exact (relayed.attached (by simpa using on)).1 (not_not.mp none)

/-- A new socket for the local end. -/
theorem openFD_local (relayed : Relayed k l w)
    (idle : (w.fd l).iState ∉ ([.connecting, .read] : List NetState))
    (off : (traffic k l w).attached = false) {alloc : Handles.Alloc Id} :
    Relayed k l (w.openFD l alloc) where
  toLocal := relayed.toLocal
  armed := by
    rw [World.openFD_state]
    exact relayed.armed
  toRemote := relayed.toRemote
  remoteHeld := by
    rw [World.openFD_state]
    exact relayed.remoteHeld
  localRoom := relayed.localRoom
  remoteRoom := relayed.remoteRoom
  attached on := by
    have off : (traffic k l (w.openFD l alloc)).attached = false := off
    rw [off] at on
    cases on
  connecting := by
    rw [World.openFD_state]
    intro busy
    exact absurd busy idle

theorem over_local (relayed : Relayed k l w) (ends : k.partner l ≠ l) :
    Relayed k l (goOver l w) :=
  relayed.next_local ends (fun busy => absurd busy (by decide)) (fun _ => by decide)
    fun busy => absurd busy (by decide)

theorem connect_local (relayed : Relayed k l w) (ends : k.partner l ≠ l)
    (here : (w.fd l).iState = .connect) (off : (traffic k l w).attached = false) :
    Relayed k l (connect a l w (·.next l .connecting true true 10000)) := by
  have idle : (w.fd l).iState ∉ ([.connecting, .read] : List NetState) := by
    rw [here]
    decide
  have held := relayed.armed (by rw [here]; decide)
  have opened : Relayed k l (w.openFD l a.socket) := relayed.openFD_local idle off
  unfold Select.connect
  dsimp only
  split
  · exact opened.over_local ends
  · rename_i real
    split
    · exact opened.over_local ends
    · refine opened.next_local ends (fun _ => held) (fun on => ?_) (fun _ => by omega)
      have off : (traffic k l (w.openFD l a.socket)).attached = false := off
      rw [off] at on
      cases on

/-- The local server is there, or the connection has to be tried again. -/
theorem connecting_local (relayed : Relayed k l w) (ends : k.partner l ≠ l)
    (here : (w.fd l).iState = .connecting) :
    Relayed k l (Select.connecting a l w fun w =>
      (w.next l .read true (decide ((w.acBuffer l).length > 0)) 10000).record
        (.connected l)) := by
  have held := relayed.armed (by rw [here]; decide)
  have open_ := relayed.connecting (by rw [here]; decide)
  have off : (traffic k l w).attached = false := by
    by_contra on
    have at_end := (relayed.attached (by simpa using on)).2
    rw [here] at at_end
    exact absurd at_end (by decide)
  have again : Relayed k l (w.next l .connect false false 0) := by
    refine relayed.next_local ends (fun _ => held) (fun on => ?_)
      fun busy => absurd busy (by decide)
    rw [off] at on
    cases on
  unfold Select.connecting
  split
  · split
    · exact again
    · exact relayed
  · split
    · have ready : Relayed k l (w.next l .read true (decide ((w.acBuffer l).length > 0)) 10000) :=
        relayed.next_local ends (fun _ => held) (fun _ => by decide) fun _ => open_
      have wire : traffic k l ((w.next l .read true (decide ((w.acBuffer l).length > 0))
          10000).record (.connected l)) = { traffic k l w with attached := true } := by
        change Account.add l (k.partner l) (.connected l) (traffic k l w) = _
        simp [Account.add, ends.symm]
      exact {
        toLocal := by
          rw [wire]
          exact relayed.toLocal
        armed := by
          rw [wire]
          exact ready.armed
        toRemote := by
          rw [wire]
          exact relayed.toRemote
        remoteHeld := by
          rw [wire]
          exact ready.remoteHeld
        localRoom := relayed.localRoom
        remoteRoom := relayed.remoteRoom
        attached := by
          intro _
          rw [World.record_fd, World.next_iFD, World.next_state]
          exact ⟨open_, by decide⟩
        connecting := ready.connecting }
    · exact again

/-- What is in the buffer goes to the local server. -/
theorem writeOut_local (relayed : Relayed k l w) (ends : k.partner l ≠ l)
    (here : (w.fd l).iState = .read) (some : writeOut a l w = some w') : Relayed k l w' := by
  have held := relayed.armed (by rw [here]; decide)
  unfold writeOut at some
  split at some
  · split at some <;> cases some
    · rename_i more _
      have wire : traffic k l (writeBuffer l w more) =
          { traffic k l w with
            toLocal := (traffic k l w).toLocal ++ (w.acBuffer l).take (more + 1) } := by
        change Account.add l (k.partner l) (.sent l _) (traffic k l w) = _
        simp [Account.add]
      have buffer : (writeBuffer l w more).acBuffer l = (w.acBuffer l).drop (more + 1) :=
        Function.update_self ..
      have buffer' : (writeBuffer l w more).acBuffer (k.partner l) = w.acBuffer (k.partner l) :=
        Function.update_of_ne ends ..
      have still : ((traffic k l w).toLocal ++ (w.acBuffer l).take (more + 1)) ++
          (w.acBuffer l).drop (more + 1) = (traffic k l w).received := by
        rw [List.append_assoc, List.take_append_drop]
        exact held
      exact {
        toLocal := by
          rw [wire]
          exact ⟨_, still⟩
        armed := by
          rw [wire, buffer]
          exact fun _ => still
        toRemote := by
          rw [wire]
          exact relayed.toRemote
        remoteHeld := by
          rw [wire, buffer']
          exact relayed.remoteHeld
        localRoom := by
          rw [buffer, List.length_drop]
          have room := relayed.localRoom
          omega
        remoteRoom := by
          rw [buffer']
          exact relayed.remoteRoom
        attached := by
          rw [wire]
          exact relayed.attached
        connecting := relayed.connecting }
    · exact relayed
  · cases some
    exact relayed

/-- What the local server sends goes into the buffer of the remote end. -/
theorem readIn_local (relayed : Relayed k l w) (ends : k.partner l ≠ l)
    (some : readIn a l (k.partner l) w = some w') : Relayed k l w' := by
  unfold readIn at some
  split at some
  · rename_i ready
    split at some <;> cases some
    · rename_i first rest _
      let bytes := (first :: rest).take (bufferSize - (w.acBuffer (k.partner l)).length)
      have wire : traffic k l (readInto l (k.partner l) w first rest) =
          { traffic k l w with fromLocal := (traffic k l w).fromLocal ++ bytes } := by
        change Account.add l (k.partner l) (.got l bytes) (traffic k l w) = _
        simp [Account.add, ends.symm]
      have buffer : (readInto l (k.partner l) w first rest).acBuffer l = w.acBuffer l :=
        Function.update_of_ne ends.symm ..
      have buffer' : (readInto l (k.partner l) w first rest).acBuffer (k.partner l) =
          w.acBuffer (k.partner l) ++ bytes := Function.update_self ..
      exact {
        toLocal := by
          rw [wire]
          exact relayed.toLocal
        armed := by
          rw [wire, buffer]
          exact relayed.armed
        toRemote := by
          rw [wire, ← List.append_assoc]
          exact relayed.toRemote.trans (List.prefix_append ..)
        remoteHeld := by
          intro reading
          rw [wire, buffer', ← List.append_assoc, relayed.remoteHeld reading, List.append_assoc]
        localRoom := by
          rw [buffer]
          exact relayed.localRoom
        remoteRoom := by
          rw [buffer', List.length_append, List.length_take]
          have room := ready.2
          omega
        attached := by
          rw [wire]
          exact relayed.attached
        connecting := relayed.connecting }
    · exact relayed
  · cases some
    exact relayed

theorem relay_local (relayed : Relayed k l w) (ends : k.partner l ≠ l)
    (here : (w.fd l).iState = .read) : Relayed k l (relay a l (k.partner l) w) := by
  unfold relay
  split
  · exact relayed.over_local ends
  · rename_i written wrote
    have relayed := relayed.writeOut_local ends here wrote
    have here : (written.fd l).iState = .read := by
      rw [writeOut_fd wrote]
      exact here
    split
    · exact relayed.over_local ends
    · rename_i filled got
      have relayed := relayed.readIn_local ends got
      have here : (filled.fd l).iState = .read := by
        rw [readIn_fd got]
        exact here
      unfold nextReads
      split
      · exact relayed.over_local ends
      · have held := relayed.armed (by rw [here]; decide)
        have open_ := relayed.connecting (by rw [here]; decide)
        dsimp only
        split
        · rename_i reading
          have asked : Relayed k l
              (nextRead (k.partner l) l (filled.fd (k.partner l)).iConnTimeout filled) := by
            refine relayed.congr ⟨?_, World.next_iFD⟩ ?_ rfl rfl rfl
            · exact World.next_state_other ends.symm
            · rw [reading]
              exact World.next_state
          refine asked.next_local ends (fun _ => held) (fun _ => by decide) fun _ => ?_
          rw [nextRead, World.next_iFD]
          exact open_
        · exact relayed.next_local ends (fun _ => held) (fun _ => by decide) fun _ => open_

/-- The local end's function, where it drops nothing that has been received. -/
theorem bpLocalProcess (relayed : Relayed k l w) (ends : k.partner l ≠ l)
    (unlost : (w.fd l).iState = .init → (traffic k l w).received = []) :
    Relayed k l (bpLocalProcess k a l w).1 := by
  have closed (state : NetState) (here : (w.fd l).iState = state)
      (idle : state ∉ ([.connecting, .read] : List NetState)) :
      Relayed k l (w.closeFD l) ∧ (traffic k l (w.closeFD l)).attached = false :=
    relayed.closeFD_local (by rwa [here])
  have reopen (state : NetState) (w : World Id) (relayed : Relayed k l w)
      (off : (traffic k l w).attached = false) (timeout : Int)
      (quiet : state ∉ sending ∧ state ∉ ([.connecting, .read] : List NetState)) :
      Relayed k l (w.next l state false false timeout) := by
    refine relayed.next_local ends (fun busy => absurd busy quiet.1) (fun on => ?_)
      fun busy => absurd busy quiet.2
    rw [off] at on
    cases on
  unfold Select.bpLocalProcess
  cases here : (w.fd l).iState <;> dsimp only
  case init =>
    have none := unlost here
    have sent : (traffic k l w).toLocal = [] := by
      have sent := relayed.toLocal
      rw [none] at sent
      exact List.prefix_nil.mp sent
    have off : (traffic k l w).attached = false := by
      by_contra on
      have at_end := (relayed.attached (by simpa using on)).2
      rw [here] at at_end
      exact absurd at_end (by decide)
    have buffer : (w.setBuffer l []).acBuffer l = [] := Function.update_self ..
    have buffer' : (w.setBuffer l []).acBuffer (k.partner l) = w.acBuffer (k.partner l) :=
      Function.update_of_ne ends ..
    have emptied : Relayed k l (w.setBuffer l []) := {
      toLocal := relayed.toLocal
      armed := by
        rw [World.setBuffer_fd, here]
        intro busy
        exact absurd busy (by decide)
      toRemote := relayed.toRemote
      remoteHeld := by
        rw [buffer']
        exact relayed.remoteHeld
      localRoom := by
        rw [buffer]
        exact Nat.zero_le _
      remoteRoom := by
        rw [buffer']
        exact relayed.remoteRoom
      attached := relayed.attached
      connecting := relayed.connecting }
    refine emptied.next_local ends (fun _ => ?_) (fun on => ?_) fun busy => absurd busy (by decide)
    · have wire : traffic k l (w.setBuffer l []) = traffic k l w := rfl
      rw [buffer, wire, sent, none]
      rfl
    · have off : (traffic k l (w.setBuffer l [])).attached = false := off
      rw [off] at on
      cases on
  case connect =>
    obtain ⟨relayed, off⟩ := closed .connect here (by decide)
    refine relayed.connect_local ends ?_ off
    rw [World.closeFD_state]
    exact here
  case connecting => exact relayed.connecting_local ends here
  case read => exact relayed.relay_local ends here
  case netOver =>
    obtain ⟨relayed, off⟩ := closed .netOver here (by decide)
    split
    · exact reopen .reset _ relayed off 0 (by decide)
    · exact reopen .halt _ relayed off 60000 (by decide)
  case reset =>
    obtain ⟨relayed, off⟩ := closed .reset here (by decide)
    exact reopen .init _ relayed off 0 (by decide)
  all_goals exact relayed

/-! ### The remote end -/

theorem next_remote (relayed : Relayed k l w) (ends : k.partner l ≠ l)
    (held : state = .read → (traffic k l w).toRemote ++ w.acBuffer (k.partner l) =
      (k.connectType (k.partner l)).magicStr ++ (traffic k l w).fromLocal) :
    Relayed k l (w.next (k.partner l) state read write timeout) where
  toLocal := relayed.toLocal
  armed := by
    rw [World.next_state_other ends.symm]
    exact relayed.armed
  toRemote := relayed.toRemote
  remoteHeld := by
    rw [World.next_state]
    exact held
  localRoom := relayed.localRoom
  remoteRoom := relayed.remoteRoom
  attached := by
    rw [World.next_state_other ends.symm, World.next_iFD]
    exact relayed.attached
  connecting := by
    rw [World.next_state_other ends.symm, World.next_iFD]
    exact relayed.connecting

/-- The remote end halts the local one, or resets it. -/
theorem stop_local (relayed : Relayed k l w) (ends : k.partner l ≠ l)
    (stops : state = .halt ∨ state = .reset) :
    Relayed k l (w.next l state read write timeout) := by
  rcases stops with rfl | rfl
  · exact relayed.next_local ends (fun busy => absurd busy (by decide)) (fun _ => by decide)
      fun busy => absurd busy (by decide)
  · exact relayed.next_local ends (fun busy => absurd busy (by decide)) (fun _ => by decide)
      fun busy => absurd busy (by decide)

theorem setFD_remote (relayed : Relayed k l w) (ends : k.partner l ≠ l) {n : Int} :
    Relayed k l (w.setFD (k.partner l) n) :=
  relayed.congr ⟨World.setFD_state, World.setFD_iFD_other ends.symm⟩ World.setFD_state rfl rfl rfl

theorem closeFD_remote (relayed : Relayed k l w) (ends : k.partner l ≠ l) :
    Relayed k l (w.closeFD (k.partner l)) := by
  unfold World.closeFD
  split
  · have wire : traffic k l (w.close (k.partner l)) = traffic k l w := by
      change Account.add l (k.partner l) (.closed (k.partner l)) (traffic k l w) = _
      simp [Account.add, ends]
    have closed : Relayed k l (w.close (k.partner l)) :=
      relayed.congr ⟨rfl, rfl⟩ rfl rfl rfl wire
    exact closed.setFD_remote ends
  · exact relayed

theorem over_remote (relayed : Relayed k l w) (ends : k.partner l ≠ l) :
    Relayed k l (goOver (k.partner l) w) := relayed.next_remote ends (by intro h; cases h)

theorem connect_remote (relayed : Relayed k l w) (ends : k.partner l ≠ l) :
    Relayed k l (connect a (k.partner l) w
      (·.next (k.partner l) .connecting true true 10000)) := by
  have opened : Relayed k l (w.openFD (k.partner l) a.socket) := by
    refine Relayed.congr (relayed.setFD_remote ends) ⟨rfl, rfl⟩ rfl rfl rfl rfl
  unfold Select.connect
  dsimp only
  split
  · exact opened.over_remote ends
  · split
    · exact opened.over_remote ends
    · exact opened.next_remote ends (by intro h; cases h)

/-- A new connection to the remote server: the magic string is to be sent, the local end to begin
anew. -/
theorem connected_remote (relayed : Relayed k l w) (ends : k.partner l ≠ l) :
    let magic := (k.connectType (k.partner l)).magicStr
    let greeted := w.setBuffer (k.partner l) magic
    Relayed k l (((greeted.next (k.partner l) .read true
      (decide ((greeted.acBuffer (k.partner l)).length > 0)) 10000).next l .reset false false
        0).record (.connected (k.partner l))) := by
  intro magic greeted
  have buffer : greeted.acBuffer l = w.acBuffer l := Function.update_of_ne ends.symm ..
  have buffer' : greeted.acBuffer (k.partner l) = magic := Function.update_self ..
  set t := (greeted.next (k.partner l) .read true
    (decide ((greeted.acBuffer (k.partner l)).length > 0)) 10000).next l .reset false false 0
  have state : (t.fd l).iState = .reset := World.next_state
  have iFD : (t.fd l).iFD = (w.fd l).iFD := World.next_iFD.trans World.next_iFD
  have wire : traffic k l (t.record (.connected (k.partner l))) =
      ⟨(traffic k l w).attached, [], [], [], []⟩ := by
    change Account.add l (k.partner l) (.connected (k.partner l)) (traffic k l w) = _
    simp [Account.add]
  exact {
    toLocal := by
      simp only [wire, List.prefix_rfl]
    armed := by
      rw [World.record_fd, state]
      intro busy
      exact absurd busy (by decide)
    toRemote := by
      rw [wire]
      exact List.nil_prefix
    remoteHeld := by
      intro _
      rw [wire]
      exact buffer'.trans (List.append_nil _).symm
    localRoom := by
      have same : (t.record (.connected (k.partner l))).acBuffer l = w.acBuffer l := buffer
      rw [same]
      exact relayed.localRoom
    remoteRoom := by
      have same : (t.record (.connected (k.partner l))).acBuffer (k.partner l) = magic := buffer'
      rw [same, magicStr_length]
      decide
    attached := by
      rw [wire, World.record_fd, state, iFD]
      intro on
      exact ⟨(relayed.attached on).1, by decide⟩
    connecting := by
      rw [World.record_fd, state]
      intro busy
      exact absurd busy (by decide) }

/-- What is in the buffer goes to the remote server. -/
theorem writeOut_remote (relayed : Relayed k l w) (ends : k.partner l ≠ l)
    (here : (w.fd (k.partner l)).iState = .read) (some : writeOut a (k.partner l) w = some w') :
    Relayed k l w' := by
  unfold writeOut at some
  split at some
  · split at some <;> cases some
    · rename_i more _
      have wire : traffic k l (writeBuffer (k.partner l) w more) =
          { traffic k l w with
            toRemote := (traffic k l w).toRemote ++ (w.acBuffer (k.partner l)).take (more + 1) } := by
        change Account.add l (k.partner l) (.sent (k.partner l) _) (traffic k l w) = _
        simp [Account.add, ends]
      have buffer : (writeBuffer (k.partner l) w more).acBuffer l = w.acBuffer l :=
        Function.update_of_ne ends.symm ..
      have buffer' : (writeBuffer (k.partner l) w more).acBuffer (k.partner l) =
          (w.acBuffer (k.partner l)).drop (more + 1) := Function.update_self ..
      have still : ((traffic k l w).toRemote ++ (w.acBuffer (k.partner l)).take (more + 1)) ++
          (w.acBuffer (k.partner l)).drop (more + 1) =
          (k.connectType (k.partner l)).magicStr ++ (traffic k l w).fromLocal := by
        rw [List.append_assoc, List.take_append_drop]
        exact relayed.remoteHeld here
      exact {
        toLocal := by
          rw [wire]
          exact relayed.toLocal
        armed := by
          rw [wire, buffer]
          exact relayed.armed
        toRemote := by
          rw [wire]
          exact ⟨_, still⟩
        remoteHeld := by
          rw [wire, buffer']
          exact fun _ => still
        localRoom := by
          rw [buffer]
          exact relayed.localRoom
        remoteRoom := by
          rw [buffer', List.length_drop]
          have room := relayed.remoteRoom
          omega
        attached := by
          rw [wire]
          exact relayed.attached
        connecting := relayed.connecting }
    · exact relayed
  · cases some
    exact relayed

/-- What the remote server sends goes into the buffer of the local end. -/
theorem readIn_remote (relayed : Relayed k l w) (ends : k.partner l ≠ l)
    (some : readIn a (k.partner l) l w = some w') : Relayed k l w' := by
  unfold readIn at some
  split at some
  · rename_i ready
    split at some <;> cases some
    · rename_i first rest _
      let bytes := (first :: rest).take (bufferSize - (w.acBuffer l).length)
      have wire : traffic k l (readInto (k.partner l) l w first rest) =
          { traffic k l w with received := (traffic k l w).received ++ bytes } := by
        change Account.add l (k.partner l) (.got (k.partner l) bytes) (traffic k l w) = _
        simp [Account.add]
      have buffer : (readInto (k.partner l) l w first rest).acBuffer l = w.acBuffer l ++ bytes :=
        Function.update_self ..
      have buffer' : (readInto (k.partner l) l w first rest).acBuffer (k.partner l) =
          w.acBuffer (k.partner l) := Function.update_of_ne ends ..
      exact {
        toLocal := by
          rw [wire]
          exact relayed.toLocal.trans (List.prefix_append ..)
        armed := by
          intro busy
          rw [wire, buffer, ← List.append_assoc, relayed.armed busy]
        toRemote := by
          rw [wire]
          exact relayed.toRemote
        remoteHeld := by
          rw [wire, buffer']
          exact relayed.remoteHeld
        localRoom := by
          rw [buffer, List.length_append, List.length_take]
          have room := ready.2
          omega
        remoteRoom := by
          rw [buffer']
          exact relayed.remoteRoom
        attached := by
          rw [wire]
          exact relayed.attached
        connecting := relayed.connecting }
    · exact relayed
  · cases some
    exact relayed

theorem relay_remote (relayed : Relayed k l w) (ends : k.partner l ≠ l)
    (here : (w.fd (k.partner l)).iState = .read) : Relayed k l (relay a (k.partner l) l w) := by
  unfold relay
  split
  · exact relayed.over_remote ends
  · rename_i written wrote
    have relayed := relayed.writeOut_remote ends here wrote
    have here : (written.fd (k.partner l)).iState = .read := by
      rw [writeOut_fd wrote]
      exact here
    split
    · exact relayed.over_remote ends
    · rename_i filled got
      have relayed := relayed.readIn_remote ends got
      have here : (filled.fd (k.partner l)).iState = .read := by
        rw [readIn_fd got]
        exact here
      unfold nextReads
      split
      · exact relayed.over_remote ends
      · dsimp only
        split
        · rename_i reading
          have held := relayed.armed (by rw [reading]; decide)
          have open_ := relayed.connecting (by rw [reading]; decide)
          have asked : Relayed k l
              (nextRead l (k.partner l) (filled.fd l).iConnTimeout filled) :=
            relayed.next_local ends (fun _ => held) (fun _ => by decide) fun _ => open_
          exact asked.next_remote ends fun _ => relayed.remoteHeld here
        · exact relayed.next_remote ends fun _ => relayed.remoteHeld here

/-- The remote end's function. -/
theorem bpRemoteProcess (relayed : Relayed k l w) (ends : k.partner l ≠ l)
    (back : k.partner (k.partner l) = l) :
    Relayed k l (bpRemoteProcess k a (k.partner l) w).1 := by
  unfold Select.bpRemoteProcess
  rw [back]
  cases here : (w.fd (k.partner l)).iState <;> dsimp only
  case init =>
    split
    · exact relayed.next_remote ends (by intro h; cases h)
    · exact relayed.next_remote ends (by intro h; cases h)
  case connect => exact (relayed.closeFD_remote ends).connect_remote ends
  case connecting =>
    unfold Select.connecting
    have again : Relayed k l (w.next (k.partner l) .connect false false 0) :=
      relayed.next_remote ends (by intro h; cases h)
    split
    · split
      · exact again
      · exact relayed
    · split
      · exact relayed.connected_remote ends
      · exact again
  case read => exact relayed.relay_remote ends here
  case netOver =>
    have halted : Relayed k l (w.next l .halt false false 60000) :=
      relayed.stop_local ends (.inl rfl)
    exact (halted.closeFD_remote ends).next_remote ends (by intro h; cases h)
  all_goals exact relayed

/-! ### The other clients -/

theorem reaches (relayed : Relayed k l w) {mine : Id → Prop} (reaches : Reaches mine w w')
    (apart : ¬ mine l) (apart' : ¬ mine (k.partner l)) : Relayed k l w' := by
  obtain ⟨new, wire, own⟩ := reaches.wire
  have aside (e : Event Id) (mem : e ∈ new) (acc : Account) :
      Account.add l (k.partner l) e acc = acc := by
    have client := own e mem
    have not_l : e.client ≠ l := by
      rintro same
      exact apart (same ▸ client)
    have not_r : e.client ≠ k.partner l := by
      rintro same
      exact apart' (same ▸ client)
    cases e <;> simp_all [Account.add, Event.client]
  have same : traffic k l w' = traffic k l w := by
    unfold traffic account
    rw [wire, List.foldr_append]
    clear own wire
    induction new with
    | nil => rfl
    | cons e new ih =>
      rw [List.foldr_cons, ih fun e mem => aside e (List.mem_cons_of_mem _ mem)]
      exact aside e List.mem_cons_self _
  have fd := reaches.fd l apart
  refine relayed.congr ?_ ?_ (reaches.buffer l apart) (reaches.buffer _ apart') same
  · rw [fd]
    exact ⟨rfl, rfl⟩
  · rw [reaches.fd _ apart']

/-- Any client's function. -/
theorem process (relayed : Relayed k l w) (bypass : k.kind l = .bpLocal) {c : Id}
    (unlost : c = l → (w.fd l).iState = .init → (traffic k l w).received = []) :
    Relayed k l (process k a c w).1 := by
  obtain ⟨remote, back⟩ := k.local_partner l bypass
  have ends : k.partner l ≠ l := by
    intro same
    rw [same, bypass] at remote
    cases remote
  by_cases self : c = l
  · subst self
    unfold Select.process
    rw [bypass]
    exact relayed.bpLocalProcess ends (unlost rfl)
  · by_cases other : c = k.partner l
    · subst other
      unfold Select.process
      rw [remote]
      exact relayed.bpRemoteProcess ends back
    · refine relayed.reaches process_reaches ?_ ?_
      · rintro (same | ⟨kind, same⟩)
        · exact self same.symm
        · rw [same, k.partner_partner kind] at other
          exact other rfl
      · rintro (same | ⟨kind, same⟩)
        · exact other same.symm
        · rw [← k.partner_partner kind, ← same, back] at self
          exact self rfl

variable {s t : SelectThread Id}

theorem answered (relayed : Relayed k l s.world) (read write : Int → Bool) :
    Relayed k l (s.answered read write).world := by
  have same (c : Id) : ((s.answered read write).world.fd c).iState = (s.world.fd c).iState ∧
      ((s.answered read write).world.fd c).iFD = (s.world.fd c).iFD := by
    by_cases listed : c ∈ s.pFDList
    · have fd : (s.answered read write).world.fd c = (s.world.fd c).answer _ _ := if_pos listed
      rw [fd]
      unfold FD.answer FD.notReady
      split <;> exact ⟨rfl, rfl⟩
    · have fd : (s.answered read write).world.fd c = s.world.fd c := if_neg listed
      rw [fd]
      exact ⟨rfl, rfl⟩
  exact relayed.congr (same l) (same _).1 rfl rfl rfl

theorem addFD (relayed : Relayed k l s.world) (c : Id) (appended : Bool) :
    Relayed k l (s.addFD c appended).world := by
  unfold SelectThread.addFD
  split
  · have same (d : Id) :
        (Function.update s.world.fd c (s.world.fd c).notReady d).iState = (s.world.fd d).iState ∧
        (Function.update s.world.fd c (s.world.fd c).notReady d).iFD = (s.world.fd d).iFD := by
      rcases eq_or_ne d c with rfl | other
      · rw [Function.update_self]
        exact ⟨rfl, rfl⟩
      · rw [Function.update_of_ne other]
        exact ⟨rfl, rfl⟩
    exact relayed.congr (same l) (same _).1 rfl rfl rfl
  · exact relayed

theorem call (relayed : Relayed k l s.world) (bypass : k.kind l = .bpLocal) {c : Id}
    {todo : List Id} (unlost : c = l → (s.world.fd l).iState = .init →
      (traffic k l s.world).received = []) : Relayed k l (s.call k c todo a).world := by
  have processed : Relayed k l (Select.process k a c s.world).1 := relayed.process bypass unlost
  unfold SelectThread.call
  cases returned : Select.process k a c s.world with
  | mk world stay =>
    rw [returned] at processed
    cases stay with
    | false => exact processed
    | true =>
      dsimp only
      split
      · exact processed
      · exact processed

/-- The step lemma. -/
theorem step (relayed : Relayed k l s.world) (bypass : k.kind l = .bpLocal) {action : Action Id}
    (ok : Unlost k l s action) (step : Step k s action t) : Relayed k l t.world := by
  have same (world : World Id) (fd : world.fd = s.world.fd) (buffer : world.acBuffer = s.world.acBuffer)
      (wire : world.wire = s.world.wire) : Relayed k l world := by
    refine relayed.congr ?_ ?_ ?_ ?_ ?_
    · rw [fd]
      exact ⟨rfl, rfl⟩
    · rw [fd]
    · rw [buffer]
    · rw [buffer]
    · unfold traffic
      rw [wire]
  cases step with
  | waitFails => exact relayed
  | wait here => exact same _ rfl rfl rfl
  | @select answer here =>
    cases answer with
    | error => exact relayed
    | nothing => exact relayed.answered _ _
    | ready read write => exact relayed.answered read write
  | @call c todo a here =>
    simp only [Unlost, here] at ok
    exact relayed.call bypass ok
  | called here => exact relayed
  | none here message => exact relayed
  | quit here message => exact relayed
  | addFD here message unknown => exact relayed.addFD _ _
  | customProc here message => exact relayed

end Relayed

def twoSockets : Handles.Alloc Nat where
  val owner := if owner 5 = none then 5 else if owner 6 = none then 6 else -1
  property owner := by
    dsimp only
    split
    · rename_i free
      exact .inr ⟨by decide, free⟩
    · split
      · rename_i free
        exact .inr ⟨by decide, free⟩
      · exact .inl rfl

/-- The queue's client finds this message, the remote end this byte, and a write goes through. -/
def relayAnswers (message : Msg Nat) (byte : UInt8) : Answers Nat where
  message := some message
  resolved := true
  noMoreHosts := false
  socket := twoSockets
  nonblocking := true
  connected := true
  late := false
  wrote := .some 255
  read := .some byte []
  whole := false
  refused := false
  packet := false
  unreturned := true
  uDelayTime := 0

def selects (read write : Int) : Action Nat :=
  .select (.ready (fun n => n = read) fun n => n = write)

def callWith (byte : UInt8) : Action Nat := .call (relayAnswers .quit byte)

/-- A round with three clients in the list. -/
def round (read write : Int) (byte : UInt8) : List (Action Nat) :=
  [selects read write, callWith byte, callWith byte, callWith byte, callWith byte, .message true]

/-- Both ends are brought, and the remote one is connected: socket 6. -/
def bothConnect : List (Action Nat) :=
  [selects 3 (-1), .call (relayAnswers (.addFD 1) 0), callWith 0, .message true,
    selects 3 (-1), .call (relayAnswers (.addFD 2) 0), callWith 0, callWith 0, .message true] ++
  (round (-1) (-1) 0 ++ round (-1) (-1) 0 ++ round (-1) 6 0)

/-- The remote server sends 1 before the local end is in `ST_NET_INIT` once more, and 2 after. -/
def early : List (Action Nat) :=
  bothConnect ++ (round 6 (-1) 1 ++ round (-1) (-1) 0 ++ round 6 (-1) 2 ++ round (-1) 5 0 ++
    round (-1) 5 0)

end Rovio.Select
