import Rovio.Select.Sockets

/-! What a client's function reaches: the client's own object and, of a bypass, the other end's. -/
namespace Rovio.Select
open Kit

universe u
variable {Id : Type u}

def Event.client : Event Id → Id
  | .connected c => c
  | .closed c => c
  | .sent c _ => c
  | .got c _ => c

/-- Only the objects of these clients change, and only their sockets are used. -/
structure Reaches (mine : Id → Prop) (w w' : World Id) : Prop where
  fd : ∀ d, ¬ mine d → w'.fd d = w.fd d
  buffer : ∀ d, ¬ mine d → w'.acBuffer d = w.acBuffer d
  wire : ∃ new, w'.wire = new ++ w.wire ∧ ∀ e ∈ new, mine e.client

/-- The client and, of a bypass, its other end. -/
def Both (k : Clients Id) (c d : Id) : Prop :=
  d = c ∨ (k.kind c = .bpLocal ∨ k.kind c = .bpRemote) ∧ d = k.partner c

section
variable {mine : Id → Prop} {w w' w'' : World Id}

theorem apart {c d : Id} (own : mine c) (other : ¬ mine d) : d ≠ c := by
  rintro rfl
  exact other own

theorem Reaches.refl (mine : Id → Prop) (w : World Id) : Reaches mine w w where
  fd _ _ := rfl
  buffer _ _ := rfl
  wire := by
    refine ⟨[], rfl, fun e mem => ?_⟩
    cases mem

theorem Reaches.trans (first : Reaches mine w w') (second : Reaches mine w' w'') :
    Reaches mine w w'' where
  fd d other := (second.fd d other).trans (first.fd d other)
  buffer d other := (second.buffer d other).trans (first.buffer d other)
  wire := by
    obtain ⟨early, before, own⟩ := first.wire
    obtain ⟨late, after, own'⟩ := second.wire
    refine ⟨late ++ early, ?_, fun e mem => ?_⟩
    · rw [after, before, List.append_assoc]
    · rcases List.mem_append.mp mem with mem | mem
      · exact own' e mem
      · exact own e mem

/-- Nothing is sent or received. -/
theorem Reaches.of_wire (fd : ∀ d, ¬ mine d → w'.fd d = w.fd d)
    (buffer : ∀ d, ¬ mine d → w'.acBuffer d = w.acBuffer d) (wire : w'.wire = w.wire) :
    Reaches mine w w' where
  fd
  buffer
  wire := by
    refine ⟨[], wire, fun e mem => ?_⟩
    cases mem

theorem reaches_record {e : Event Id} (own : mine e.client) : Reaches mine w (w.record e) where
  fd _ _ := rfl
  buffer _ _ := rfl
  wire := ⟨[e], rfl, List.forall_mem_singleton.mpr own⟩

end

variable [DecidableEq Id] {mine : Id → Prop} {c d : Id} {w w' : World Id} {a : Answers Id}
  {state : NetState} {read write : Bool} {timeout n : Int}

theorem reaches_next (own : mine c) : Reaches mine w (w.next c state read write timeout) :=
  .of_wire (fun _ other => Function.update_of_ne (apart own other) ..) (fun _ _ => rfl) rfl

theorem reaches_over (own : mine c) : Reaches mine w (goOver c w) := reaches_next own

theorem reaches_setFD (own : mine c) : Reaches mine w (w.setFD c n) :=
  .of_wire (fun _ other => Function.update_of_ne (apart own other) ..) (fun _ _ => rfl) rfl

theorem reaches_setTries {n : Nat} : Reaches mine w (w.setTries c n) :=
  .of_wire (fun _ _ => rfl) (fun _ _ => rfl) rfl

theorem reaches_setBuffer (own : mine c) {bytes : List UInt8} :
    Reaches mine w (w.setBuffer c bytes) :=
  .of_wire (fun _ _ => rfl) (fun _ other => Function.update_of_ne (apart own other) ..) rfl

theorem reaches_close (own : mine c) : Reaches mine w (w.close c) where
  fd _ _ := rfl
  buffer _ _ := rfl
  wire := ⟨[.closed c], rfl, List.forall_mem_singleton.mpr own⟩

theorem reaches_closeFD (own : mine c) : Reaches mine w (w.closeFD c) := by
  unfold World.closeFD
  split
  · exact (reaches_close own).trans (reaches_setFD own)
  · exact .refl mine w

theorem reaches_connect (own : mine c) {started : World Id → World Id}
    (reaches : ∀ w, Reaches mine w (started w)) : Reaches mine w (connect a c w started) := by
  have opened : Reaches mine w (w.openFD c a.socket) :=
    .of_wire (fun _ other => Function.update_of_ne (apart own other) ..) (fun _ _ => rfl) rfl
  unfold connect
  dsimp only
  split
  · exact opened.trans (reaches_over own)
  · split
    · exact opened.trans (reaches_over own)
    · exact opened.trans (reaches _)

theorem reaches_connecting (own : mine c) {done : World Id → World Id}
    (reaches : Reaches mine w (done w)) : Reaches mine w (connecting a c w done) := by
  unfold connecting
  split
  · split
    · exact reaches_next own
    · exact .refl mine w
  · split
    · exact reaches
    · exact reaches_next own

theorem reaches_relay {partner : Id} (own : mine c) (own' : mine partner) :
    Reaches mine w (relay a c partner w) := by
  have written {w w' : World Id} (some : writeOut a c w = some w') : Reaches mine w w' := by
    unfold writeOut at some
    split at some
    · split at some <;> cases some
      · exact (reaches_setBuffer own).trans (reaches_record own)
      · exact .refl mine w
    · cases some
      exact .refl mine w
  have filled {w w' : World Id} (some : readIn a c partner w = some w') : Reaches mine w w' := by
    unfold readIn at some
    split at some
    · split at some <;> cases some
      · exact (reaches_setBuffer own').trans (reaches_record own)
      · exact .refl mine w
    · cases some
      exact .refl mine w
  have asked {w : World Id} : Reaches mine w (nextReads a c partner w) := by
    unfold nextReads
    split
    · exact reaches_over own
    · dsimp only
      split
      · exact (reaches_next own').trans (reaches_next own)
      · exact reaches_next own
  unfold relay
  split
  · exact reaches_over own
  · rename_i wrote
    split
    · exact (written wrote).trans (reaches_over own)
    · rename_i got
      exact ((written wrote).trans (filled got)).trans asked

theorem reaches_httpcProcess (own : mine c) : Reaches mine w (httpcProcess a c w).1 := by
  have retry : Reaches mine w ((w.closeFD c).setTries c ((w.closeFD c).tries c + 1)) :=
    (reaches_closeFD own).trans reaches_setTries
  unfold httpcProcess
  cases (w.fd c).iState <;> dsimp only
  case init =>
    split
    · exact reaches_next own
    · exact reaches_over own
  case connect =>
    split
    · exact retry.trans (reaches_over own)
    · exact retry.trans (reaches_connect own fun _ => reaches_next own)
  case connecting => exact reaches_connecting own (reaches_next own)
  case write =>
    have expired : Reaches mine w (if a.late then goOver c w else w) := by
      split
      · exact reaches_over own
      · exact .refl mine w
    split
    · split
      · split
        · exact reaches_next own
        · exact .refl mine w
      · exact reaches_over own
      · exact expired
    · exact expired
  case read =>
    split
    · exact reaches_over own
    · split
      · exact .refl mine w
      · split
        · split
          · exact reaches_over own
          · exact .refl mine w
        · exact .refl mine w
        · exact reaches_over own
  case netOver =>
    split
    · exact reaches_close own
    · exact .refl mine w
  all_goals exact .refl mine w

theorem reaches_ntpcProcess (own : mine c) : Reaches mine w (ntpcProcess a c w).1 := by
  have again : Reaches mine w (w.next c .write false true 0) := reaches_next own
  unfold ntpcProcess
  cases (w.fd c).iState <;> dsimp only
  case init =>
    split
    · exact reaches_next own
    · exact reaches_over own
  case connect =>
    split
    · exact (reaches_closeFD own).trans (reaches_over own)
    · exact (reaches_closeFD own).trans
        (reaches_connect own fun _ => (reaches_next own).trans reaches_setTries)
  case write =>
    split
    · exact reaches_next own
    · split
      · exact (reaches_next own).trans reaches_setTries
      · exact reaches_over own
  case read =>
    split
    · exact again
    · split
      · exact .refl mine w
      · split
        · exact .refl mine w
        · split
          · exact reaches_over own
          · exact again
        · exact again
  case netOver =>
    split
    · exact reaches_close own
    · exact .refl mine w
  all_goals exact .refl mine w

variable {k : Clients Id}

theorem reaches_bpLocalProcess (own : mine c) (own' : mine (k.partner c)) :
    Reaches mine w (bpLocalProcess k a c w).1 := by
  unfold bpLocalProcess
  cases (w.fd c).iState <;> dsimp only
  case init => exact (reaches_setBuffer own).trans (reaches_next own)
  case connect =>
    exact (reaches_closeFD own).trans (reaches_connect own fun _ => reaches_next own)
  case connecting =>
    exact reaches_connecting own ((reaches_next own).trans (reaches_record own))
  case read => exact reaches_relay own own'
  case netOver =>
    split
    · exact (reaches_closeFD own).trans (reaches_next own)
    · exact (reaches_closeFD own).trans (reaches_next own)
  case reset => exact (reaches_closeFD own).trans (reaches_next own)
  all_goals exact .refl mine w

theorem reaches_bpRemoteProcess (own : mine c) (own' : mine (k.partner c)) :
    Reaches mine w (bpRemoteProcess k a c w).1 := by
  unfold bpRemoteProcess
  cases (w.fd c).iState <;> dsimp only
  case init =>
    split
    · exact reaches_next own
    · exact reaches_next own
  case connect =>
    exact (reaches_closeFD own).trans (reaches_connect own fun _ => reaches_next own)
  case connecting =>
    have greeted : Reaches mine w (w.setBuffer c (k.connectType c).magicStr) :=
      reaches_setBuffer own
    exact reaches_connecting own (((greeted.trans (reaches_next own)).trans
      (reaches_next own')).trans (reaches_record own))
  case read => exact reaches_relay own own'
  case netOver =>
    exact ((reaches_next own').trans (reaches_closeFD own)).trans (reaches_next own)
  all_goals exact .refl mine w

theorem process_reaches : Reaches (Both k c) w (process k a c w).1 := by
  have own : Both k c c := .inl rfl
  unfold process
  cases kind : k.kind c <;> dsimp only
  case msg =>
    unfold selectMsgProcess
    split
    · exact .refl _ w
    · split
      · exact .of_wire (fun _ _ => rfl) (fun _ _ => rfl) rfl
      · exact .of_wire (fun _ _ => rfl) (fun _ _ => rfl) rfl
  case ntp => exact reaches_ntpcProcess own
  case bpLocal => exact reaches_bpLocalProcess own (.inr ⟨.inl kind, rfl⟩)
  case bpRemote => exact reaches_bpRemoteProcess own (.inr ⟨.inr kind, rfl⟩)
  all_goals exact reaches_httpcProcess own

end Rovio.Select
