import Rovio.Rtsp.TunnelHolders

/-! The sessions of the RTSP tunnels. Requests share a tunnel just where they share a session, and
what is posted in a session is decoded to the socket of its tunnel. -/
namespace Rovio.Rtsp

open Kit

namespace Tunnels

variable {DecodeBase64 : List Char → List UInt8} {s t : Tunnels} {e : Event} {i j : Fin 3}
  {r : Request} {tunnel : RTSP_TUNNEL_T}

/-! ### Sessions -/

/-- Each request is on a tunnel of its session, as far as that is kept. -/
structure Sessions (s : Tunnels) : Prop where
  short : ∀ i, (s.g_RtspTunnels i).acXSession.length ≤ 63
  mine : ∀ r ∈ s.requests, (s.g_RtspTunnels r.slot).acXSession = r.session.take 63

theorem Sessions.congr (sessions : s.Sessions)
    (same : ∀ i, (t.g_RtspTunnels i).acXSession = (s.g_RtspTunnels i).acXSession)
    (sub : ∀ r ∈ t.requests, ∃ r' ∈ s.requests, r.slot = r'.slot ∧ r.session = r'.session) :
    t.Sessions where
  short := fun i => same i ▸ sessions.short i
  mine := by
    intro r mem
    obtain ⟨r', mem', slot, session⟩ := sub r mem
    rw [same, slot, session]
    exact sessions.mine r' mem'

theorem close_sub (mem : r ∈ s.requests) : ∀ q ∈ (s.close r).requests,
    ∃ q' ∈ s.requests, q.slot = q'.slot ∧ q.session = q'.session := by
  intro q here
  rcases List.mem_cons.mp here with rfl | here
  · exact ⟨r, mem, rfl, rfl⟩
  · exact ⟨q, List.mem_of_mem_erase here, rfl, rfl⟩

theorem Sessions.created {post : Bool} {pcXSession : List Char} {fd n : Int}
    (sessions : s.Sessions) (counted : s.Counted) (empty : (s.g_RtspTunnels i).nRefCount ≤ 0) :
    (s.created i post pcXSession fd n).Sessions ∧
      ((s.created i post pcXSession fd n).g_RtspTunnels i).acXSession = pcXSession.take 63 := by
  have mine : ((s.created i post pcXSession fd n).g_RtspTunnels i).acXSession =
      pcXSession.take 63 := by rw [Tunnels.created, setTunnel_self]
  have others : ∀ j, j ≠ i →
      (s.created i post pcXSession fd n).g_RtspTunnels j = s.g_RtspTunnels j :=
    fun j => setTunnel_ne
  refine ⟨⟨fun j => ?_, fun r mem => ?_⟩, mine⟩
  · rcases eq_or_ne j i with rfl | other
    · rw [mine]
      exact List.length_take_le ..
    · rw [others j other]
      exact sessions.short j
  · rw [others _ (counted.no_requests empty r mem)]
    exact sessions.mine r mem

theorem Sessions.step (sessions : s.Sessions) (counted : s.Counted) (pending : s.Pending)
    (step : Effect DecodeBase64 s e t) : t.Sessions := by
  cases step with
  | same => exact sessions
  | found => exact sessions.congr (fun _ => rfl) fun r mem => ⟨r, mem, rfl, rfl⟩
  | failed idle empty => exact (sessions.created counted empty).1
  | created idle nowhere empty =>
    obtain ⟨kept, mine⟩ := sessions.created counted empty
    refine ⟨kept.short, fun r mem => ?_⟩
    rcases List.mem_cons.mp mem with rfl | mem
    · exact mine
    · exact kept.mine r mem
  | @taken r found =>
    have kept : ∀ i, ((s.take r).g_RtspTunnels i).acXSession = (s.g_RtspTunnels i).acXSession :=
      setTunnel_same RTSP_TUNNEL_T.acXSession rfl
    refine ⟨fun i => kept i ▸ sessions.short i, fun q mem => ?_⟩
    rw [kept]
    rcases List.mem_cons.mp mem with rfl | mem
    · obtain ⟨-, here⟩ := pending q found
      have short := sessions.short q.slot
      rw [here] at short ⊢
      exact (List.take_of_length_le short).symm
    · exact sessions.mine q mem
  | reqOver =>
    exact sessions.congr (setTunnel_same RTSP_TUNNEL_T.acXSession rfl)
      fun q mem => ⟨q, List.mem_of_mem_erase mem, rfl, rfl⟩
  | read =>
    exact sessions.congr (setTunnel_same RTSP_TUNNEL_T.acXSession rfl)
      fun q mem => ⟨q, mem, rfl, rfl⟩
  | closed idle mem => exact sessions.congr (fun _ => rfl) (close_sub mem)
  | handed idle mem =>
    exact sessions.congr (setTunnel_same RTSP_TUNNEL_T.acXSession rfl) (close_sub mem)
  | swap =>
    exact sessions.congr (setTunnel_same RTSP_TUNNEL_T.acXSession rfl)
      fun q mem => ⟨q, mem, rfl, rfl⟩
  | endSwap =>
    exact sessions.congr (setTunnel_same RTSP_TUNNEL_T.acXSession rfl)
      fun q mem => ⟨q, mem, rfl, rfl⟩

/-- Two tunnels with references are of different sessions. -/
def Distinct (s : Tunnels) : Prop :=
  ∀ i j, 0 < (s.g_RtspTunnels i).nRefCount → 0 < (s.g_RtspTunnels j).nRefCount →
    (s.g_RtspTunnels i).acXSession = (s.g_RtspTunnels j).acXSession → i = j

theorem Distinct.congr (distinct : s.Distinct)
    (live : ∀ j, 0 < (t.g_RtspTunnels j).nRefCount → 0 < (s.g_RtspTunnels j).nRefCount ∧
      (t.g_RtspTunnels j).acXSession = (s.g_RtspTunnels j).acXSession) : t.Distinct := by
  intro i j left right
  rw [(live i left).2, (live j right).2]
  exact distinct i j (live i left).1 (live j right).1

theorem Distinct.set (distinct : s.Distinct)
    (set : t.g_RtspTunnels = (s.setTunnel i tunnel).g_RtspTunnels)
    (live : 0 < tunnel.nRefCount → 0 < (s.g_RtspTunnels i).nRefCount ∧
      tunnel.acXSession = (s.g_RtspTunnels i).acXSession) : t.Distinct := by
  refine distinct.congr fun j here => ?_
  rw [set] at here ⊢
  rcases eq_or_ne j i with rfl | other
  · rw [setTunnel_self] at here ⊢
    exact live here
  · rw [setTunnel_ne other] at here ⊢
    exact ⟨here, rfl⟩

/-- The session of a request is kept whole. -/
def Short : Event → Prop
  | .request _ pcXSession _ => pcXSession.length ≤ 63
  | _ => True

/-- The sessions of the requests are kept whole. -/
def Whole (s : Tunnels) : Prop := ∀ r ∈ s.requests, r.session.length ≤ 63

theorem Whole.close (whole : s.Whole) (mem : r ∈ s.requests) : (s.close r).Whole := by
  intro q here
  obtain ⟨q', here, -, session⟩ := close_sub mem q here
  exact session ▸ whole q' here

theorem Whole.step (whole : s.Whole) (sessions : s.Sessions) (pending : s.Pending)
    (short : Short e) (step : Effect DecodeBase64 s e t) : t.Whole := by
  cases step with
  | same => exact whole
  | found => exact whole
  | failed => exact whole
  | created => exact List.forall_mem_cons.mpr ⟨short, whole⟩
  | taken found =>
    exact List.forall_mem_cons.mpr ⟨(pending _ found).2 ▸ sessions.short _, whole⟩
  | reqOver => exact fun r mem => whole r (List.mem_of_mem_erase mem)
  | read => exact whole
  | closed idle mem => exact whole.close mem
  | handed idle mem => exact whole.close mem
  | swap => exact whole
  | endSwap => exact whole

/-- What was posted to a tunnel was posted in its session. -/
def Own (tunnel : RTSP_TUNNEL_T) : Prop := ∀ p ∈ tunnel.posted, p.1 = tunnel.acXSession

theorem Own.step (own : ∀ i, Own (s.g_RtspTunnels i)) (sessions : s.Sessions) (whole : s.Whole)
    (step : Effect DecodeBase64 s e t) : ∀ i, Own (t.g_RtspTunnels i) := by
  cases step with
  | same => exact own
  | found => exact own
  | failed => exact setTunnel_all own fun p mem => absurd mem List.not_mem_nil
  | created => exact setTunnel_all own fun p mem => absurd mem List.not_mem_nil
  | taken => exact setTunnel_all own (own _)
  | reqOver => exact setTunnel_all own (own _)
  | @read r pcFillData input idle mem =>
    refine setTunnel_all own fun p new => ?_
    rcases List.mem_append.mp new with old | last
    · exact own r.slot p old
    · obtain rfl := List.mem_singleton.mp last
      rw [sessions.mine r mem]
      exact (List.take_of_length_le (whole r mem)).symm
  | closed => exact own
  | handed => exact setTunnel_all own (own _)
  | swap => exact setTunnel_all own (own _)
  | endSwap => exact setTunnel_all own (own _)

instance : ∀ e, Decidable (Short e)
  | .request _ pcXSession _ => inferInstanceAs (Decidable (pcXSession.length ≤ 63))
  | .taken | .reqOver _ | .read .. | .send .. | .swap _ | .endSwap _ => isTrue trivial

theorem Distinct.step (distinct : s.Distinct) (counted : s.Counted) (pending : s.Pending)
    (short : Short e) (step : Effect DecodeBase64 s e t) : t.Distinct := by
  cases step with
  | same => exact distinct
  | found => exact distinct.congr fun j here => ⟨here, rfl⟩
  | failed => exact distinct.set rfl fun here => absurd here (Int.lt_irrefl 0)
  | @created post pcXSession answer i fd idle nowhere =>
    have whole : pcXSession.take 63 = pcXSession := List.take_of_length_le short
    have mine : ((s.connected i post pcXSession fd).g_RtspTunnels i).acXSession = pcXSession := by
      rw [Tunnels.connected, Tunnels.created, setTunnel_self, whole]
    have others : ∀ j, j ≠ i →
        (s.connected i post pcXSession fd).g_RtspTunnels j = s.g_RtspTunnels j :=
      fun j => setTunnel_ne
    intro j k left right same
    rcases eq_or_ne j i with rfl | other
    · rcases eq_or_ne k j with rfl | other'
      · rfl
      · rw [mine, others k other'] at same
        rw [others k other'] at right
        exact absurd same.symm (search_none nowhere k right)
    · rw [others j other] at left same
      rcases eq_or_ne k i with rfl | other'
      · rw [mine] at same
        exact absurd same (search_none nowhere j left)
      · rw [others k other'] at right same
        exact distinct j k left right same
  | taken found => exact distinct.set rfl fun _ => ⟨(pending _ found).1, rfl⟩
  | reqOver idle mem => exact distinct.set rfl fun _ => ⟨counted.of_mem mem, rfl⟩
  | read => exact distinct.set rfl fun here => ⟨here, rfl⟩
  | closed => exact distinct.congr fun j here => ⟨here, rfl⟩
  | handed idle mem => exact distinct.set rfl fun _ => ⟨counted.of_mem mem, rfl⟩
  | swap => exact distinct.set rfl fun here => ⟨here, rfl⟩
  | endSwap runs some => exact distinct.set rfl fun _ => ⟨counted.of_handed some, rfl⟩

/-! ### Posted text -/

variable (DecodeBase64) in
theorem decode_size {input input' : TunnelInput} {text : List Char}
    (done : input.decode DecodeBase64 text = some input') :
    input'.acInput.length = input.acInput.length := by
  unfold TunnelInput.decode at done
  obtain ⟨-, done⟩ := Option.ite_none_right_eq_some.mp done
  cases done
  rfl

theorem groups_size {input input' : TunnelInput} {piece rest : List Char}
    (done : decodeGroups DecodeBase64 input piece = some (input', rest)) :
    input'.acInput.length = input.acInput.length := by
  fun_induction decodeGroups DecodeBase64 input piece with
  | case1 => cases done; rfl
  | case2 input piece some more ih =>
    obtain ⟨input'', decoded, done⟩ := Option.bind_eq_some_iff.mp done
    exact (ih input'' done).trans (decode_size DecodeBase64 decoded)
  | case3 => cases done; rfl

theorem fill_size {input input' : TunnelInput} {piece rest : List Char}
    (done : input.fill DecodeBase64 piece = some (input', rest)) :
    input'.acInput.length = input.acInput.length := by
  unfold TunnelInput.fill at done
  split at done
  · obtain ⟨acInput, stored, done⟩ := Option.bind_eq_some_iff.mp done
    obtain ⟨-, done⟩ := Option.ite_none_right_eq_some.mp done
    split at done
    · obtain ⟨input'', decoded, same⟩ := Option.map_eq_some_iff.mp done
      cases same
      exact (decode_size DecodeBase64 decoded).trans (put_length stored)
    · cases done
      exact put_length stored
  · cases done
    rfl

theorem read_size {input input' : TunnelInput} {piece : List Char}
    (done : Rtsp.rtspTunnelReadData DecodeBase64 input piece = some input') :
    input'.acInput.length = input.acInput.length := by
  obtain ⟨⟨first, rest⟩, filled, done⟩ := Option.bind_eq_some_iff.mp done
  obtain ⟨⟨second, last⟩, decoded, done⟩ := Option.bind_eq_some_iff.mp done
  unfold TunnelInput.keep at done
  obtain ⟨-, done⟩ := Option.ite_none_right_eq_some.mp done
  obtain ⟨acInput, stored, rfl⟩ := Option.map_eq_some_iff.mp done
  exact (put_length stored).trans ((groups_size decoded).trans (fill_size filled))

theorem text_posted {input : TunnelInput} {p : List Char × List Char} :
    ({ tunnel with input, posted := tunnel.posted ++ [p] } : RTSP_TUNNEL_T).text =
      tunnel.text ++ p.2 := by
  simp [RTSP_TUNNEL_T.text]

/-- The whole groups of what was posted have been written, if they can be decoded. -/
def Served (tunnel : RTSP_TUNNEL_T) : Prop :=
  tunnel.input.acInput.length = 4 ∧
    (Decodable tunnel.text → ∃ done kept, tunnel.text = done ++ kept ∧ Fed done kept tunnel.input)

def Inputs (s : Tunnels) : Prop := ∀ i, Served (s.g_RtspTunnels i)

theorem Inputs.set (inputs : s.Inputs)
    (set : t.g_RtspTunnels = (s.setTunnel i tunnel).g_RtspTunnels) (here : Served tunnel) :
    t.Inputs := by
  unfold Inputs
  rw [set]
  exact setTunnel_all inputs here

theorem decodable_front {front back : List Char} (decodable : Decodable (front ++ back)) :
    Decodable front := by
  intro a b cut groups
  exact decodable a (b ++ back) (by rw [cut, List.append_assoc]) groups

variable
  (decodes : ∀ text bytes, Base64.groups text = some bytes → DecodeBase64 text = bytes ++ [0])

include decodes in
theorem Inputs.step (inputs : s.Inputs) (step : Effect DecodeBase64 s e t) : t.Inputs := by
  have fresh : ∀ input : TunnelInput, input.acInput.length = 4 →
      Fed [] [] (Rtsp.rtspTunnelCreate input.acInput) :=
    fun input size => ⟨size, rfl, rfl, rfl, rfl, Nat.succ_pos 3⟩
  cases step with
  | same => exact inputs
  | found => exact inputs
  | @failed post pcXSession answer i =>
    exact inputs.set rfl ⟨(inputs i).1, fun _ => ⟨[], [], rfl, fresh _ (inputs i).1⟩⟩
  | @created post pcXSession answer i =>
    exact inputs.set rfl ⟨(inputs i).1, fun _ => ⟨[], [], rfl, fresh _ (inputs i).1⟩⟩
  | taken => exact inputs.set rfl (inputs _)
  | reqOver => exact inputs.set rfl (inputs _)
  | @read r pcFillData input idle mem read =>
    obtain ⟨size, served⟩ := inputs r.slot
    refine inputs.set rfl ⟨(read_size read).trans size, fun decodable => ?_⟩
    rw [text_posted] at decodable ⊢
    obtain ⟨done, kept, same, fed⟩ := served (decodable_front decodable)
    rw [same] at decodable
    obtain ⟨input', done', kept', same', fed', read'⟩ := read_fed decodes decodable rfl fed
    rw [read] at read'
    cases read'
    exact ⟨done', kept', by rw [same, same'], fed'⟩
  | closed => exact inputs
  | handed => exact inputs.set rfl (inputs _)
  | swap => exact inputs.set rfl (inputs _)
  | endSwap => exact inputs.set rfl (inputs _)

theorem Served.written {bytes : List UInt8} (served : Served tunnel)
    (base64 : Base64.groups (wholeGroups tunnel.text) = some bytes) :
    tunnel.input.written = bytes := by
  obtain ⟨done, kept, same, fed⟩ := served.2 (decodable_of_groups base64)
  have groups := fed.groups
  have short := fed.short
  have whole : (done.length + kept.length) / 4 * 4 = done.length := by omega
  have front : wholeGroups tunnel.text = done := by
    rw [wholeGroups, same, List.length_append, whole, List.take_left]
  rw [front, fed.written] at base64
  exact Option.some.inj base64

/-! ### Runs -/

/-- What holds in addition where the sessions are kept whole. -/
structure Separate (s : Tunnels) : Prop where
  sound : s.Sound
  sessions : s.Sessions
  distinct : s.Distinct
  whole : s.Whole
  own : ∀ i, Own (s.g_RtspTunnels i)
  inputs : s.Inputs

include decodes in
theorem Separate.step (separate : s.Separate) (quiet : s.Quiet e) (short : Short e)
    (step : s.step DecodeBase64 e = some t) : t.Separate :=
  have effect := step_effect step
  have sound := separate.sound
  { sound := sound.step quiet step
    sessions := separate.sessions.step sound.counted sound.pending effect
    distinct := separate.distinct.step sound.counted sound.pending short effect
    whole := separate.whole.step separate.sessions sound.pending short effect
    own := Own.step separate.own separate.sessions separate.whole effect
    inputs := separate.inputs.step decodes effect }

theorem Separate.session (separate : s.Separate) (mem : r ∈ s.requests) :
    (s.g_RtspTunnels r.slot).acXSession = r.session :=
  (separate.sessions.mine r mem).trans (List.take_of_length_le (separate.whole r mem))

end Tunnels

end Rovio.Rtsp
