import Rovio.Rtsp.Tunnels

/-! What holds the RTSP tunnels. The counters count requests and descriptors, each tunnel with
references has a socket of its own, and a descriptor goes to a thread that waits for it. -/
namespace Rovio.Rtsp

open Kit

namespace Tunnels

variable {DecodeBase64 : List Char → List UInt8} {s t : Tunnels} {e : Event} {i j : Fin 3}
  {r : Request} {tunnel : RTSP_TUNNEL_T}

/-! ### Sockets -/

/-- The sockets are those of the tunnels with references, each its own. -/
structure Sockets (s : Tunnels) : Prop where
  nodup : s.sockets.Nodup
  positive : ∀ fd ∈ s.sockets, 0 ≤ fd
  live : ∀ fd, fd ∈ s.sockets ↔ ∃ i, 0 < (s.g_RtspTunnels i).nRefCount ∧
    (s.g_RtspTunnels i).fd = fd
  apart : ∀ i j, 0 < (s.g_RtspTunnels i).nRefCount → 0 < (s.g_RtspTunnels j).nRefCount →
    (s.g_RtspTunnels i).fd = (s.g_RtspTunnels j).fd → i = j

theorem Sockets.congr (sockets : s.Sockets) (same : t.sockets = s.sockets)
    (live : ∀ j, 0 < (t.g_RtspTunnels j).nRefCount ↔ 0 < (s.g_RtspTunnels j).nRefCount)
    (fd : ∀ j, 0 < (s.g_RtspTunnels j).nRefCount →
      (t.g_RtspTunnels j).fd = (s.g_RtspTunnels j).fd) : t.Sockets where
  nodup := same ▸ sockets.nodup
  positive := same ▸ sockets.positive
  live := by
    intro n
    rw [same, sockets.live]
    constructor
    · rintro ⟨i, here, rfl⟩
      exact ⟨i, (live i).mpr here, fd i here⟩
    · rintro ⟨i, here, rfl⟩
      exact ⟨i, (live i).mp here, (fd i ((live i).mp here)).symm⟩
  apart := by
    intro i j left right
    rw [fd i ((live i).mp left), fd j ((live j).mp right)]
    exact sockets.apart i j ((live i).mp left) ((live j).mp right)

/-- A tunnel is set that has references before and after. -/
theorem Sockets.set (sockets : s.Sockets) (same : t.sockets = s.sockets)
    (set : t.g_RtspTunnels = (s.setTunnel i tunnel).g_RtspTunnels) (fd : tunnel.fd =
      (s.g_RtspTunnels i).fd)
    (live : 0 < tunnel.nRefCount ↔ 0 < (s.g_RtspTunnels i).nRefCount) : t.Sockets := by
  refine sockets.congr same (fun j => ?_) fun j _ => ?_
  · rw [set]
    rcases eq_or_ne j i with rfl | other
    · rw [setTunnel_self, live]
    · rw [setTunnel_ne other]
  · rw [set]
    exact setTunnel_same RTSP_TUNNEL_T.fd fd j

/-- The last holder of a tunnel closes its socket, another one leaves it open. -/
theorem Sockets.delete (sockets : s.Sockets) (live : 0 < (s.g_RtspTunnels i).nRefCount) :
    (s.rtspTunnelDelete i).Sockets := by
  have inside : (s.g_RtspTunnels i).fd ∈ s.sockets := (sockets.live _).mpr ⟨i, live, rfl⟩
  have positive := sockets.positive _ inside
  by_cases last : (s.g_RtspTunnels i).nRefCount - 1 = 0
  · have closed : (s.rtspTunnelDelete i).sockets = s.sockets.erase (s.g_RtspTunnels i).fd :=
      if_pos ⟨last, by omega⟩
    have others : ∀ j, 0 < ((s.rtspTunnelDelete i).g_RtspTunnels j).nRefCount ↔
        j ≠ i ∧ 0 < (s.g_RtspTunnels j).nRefCount := by
      intro j
      unfold Tunnels.rtspTunnelDelete
      rcases eq_or_ne j i with rfl | other
      · rw [setTunnel_self]
        dsimp only
        omega
      · rw [setTunnel_ne other]
        exact (and_iff_right other).symm
    have fd : ∀ j, ((s.rtspTunnelDelete i).g_RtspTunnels j).fd = (s.g_RtspTunnels j).fd :=
      setTunnel_same RTSP_TUNNEL_T.fd rfl
    constructor
    · rw [closed]
      exact sockets.nodup.erase _
    · rw [closed]
      exact fun n mem => sockets.positive n (List.mem_of_mem_erase mem)
    · intro n
      rw [closed, sockets.nodup.mem_erase_iff, sockets.live]
      constructor
      · rintro ⟨other, j, here, rfl⟩
        refine ⟨j, (others j).mpr ⟨?_, here⟩, fd j⟩
        rintro rfl
        exact other rfl
      · rintro ⟨j, here, rfl⟩
        obtain ⟨other, here⟩ := (others j).mp here
        rw [fd j]
        exact ⟨fun same => other (sockets.apart j i here live same), j, here, rfl⟩
    · intro j k left right same
      rw [fd j, fd k] at same
      exact sockets.apart j k ((others j).mp left).2 ((others k).mp right).2 same
  · refine sockets.set ?_ rfl rfl ?_
    · exact if_neg fun both => last both.1
    · dsimp only
      omega

/-- A socket of its own for a tunnel without references. -/
theorem Sockets.connected {post : Bool} {pcXSession : List Char} {fd : Int}
    (sockets : s.Sockets) (empty : (s.g_RtspTunnels i).nRefCount ≤ 0) (positive : 0 ≤ fd)
    (fresh : fd ∉ s.sockets) : (s.connected i post pcXSession fd).Sockets := by
  have mine : ((s.connected i post pcXSession fd).g_RtspTunnels i).fd = fd ∧
      ((s.connected i post pcXSession fd).g_RtspTunnels i).nRefCount = 1 := by
    unfold Tunnels.connected Tunnels.created
    rw [setTunnel_self]
    exact ⟨rfl, rfl⟩
  have others : ∀ j, j ≠ i →
      (s.connected i post pcXSession fd).g_RtspTunnels j = s.g_RtspTunnels j :=
    fun j => setTunnel_ne
  constructor
  · exact List.nodup_cons.mpr ⟨fresh, sockets.nodup⟩
  · intro n mem
    rcases List.mem_cons.mp mem with rfl | mem
    · exact positive
    · exact sockets.positive n mem
  · intro n
    change n ∈ fd :: s.sockets ↔ _
    rw [List.mem_cons, sockets.live]
    constructor
    · rintro (rfl | ⟨j, here, rfl⟩)
      · exact ⟨i, mine.2 ▸ Int.one_pos, mine.1⟩
      · have other : j ≠ i := by
          rintro rfl
          omega
        exact ⟨j, others j other ▸ here, congrArg RTSP_TUNNEL_T.fd (others j other)⟩
    · rintro ⟨j, here, rfl⟩
      rcases eq_or_ne j i with rfl | other
      · exact .inl mine.1
      · rw [others j other] at here ⊢
        exact .inr ⟨j, here, rfl⟩
  · intro j k left right same
    rcases eq_or_ne j i with rfl | other
    · rcases eq_or_ne k j with rfl | other'
      · rfl
      · rw [others k other'] at right same
        rw [mine.1] at same
        exact absurd ((sockets.live fd).mpr ⟨k, right, same.symm⟩) fresh
    · rw [others j other] at left same
      rcases eq_or_ne k i with rfl | other'
      · rw [mine.1] at same
        exact absurd ((sockets.live fd).mpr ⟨j, left, same⟩) fresh
      · rw [others k other'] at right same
        exact sockets.apart j k left right same

theorem Sockets.step (sockets : s.Sockets) (counted : s.Counted) (pending : s.Pending)
    (step : Effect DecodeBase64 s e t) : t.Sockets := by
  cases step with
  | same => exact sockets
  | found => exact sockets.congr rfl (fun _ => Iff.rfl) fun _ _ => rfl
  | @failed post pcXSession answer i fd idle empty =>
    have others : ∀ j, j ≠ i →
        (s.created i post pcXSession fd 0).g_RtspTunnels j = s.g_RtspTunnels j :=
      fun j => setTunnel_ne
    have mine : ((s.created i post pcXSession fd 0).g_RtspTunnels i).nRefCount = 0 := by
      rw [Tunnels.created, setTunnel_self]
    refine sockets.congr rfl (fun j => ?_) fun j live => ?_
    · rcases eq_or_ne j i with rfl | other
      · rw [mine]
        omega
      · rw [others j other]
    · rcases eq_or_ne j i with rfl | other
      · omega
      · rw [others j other]
  | created idle nowhere empty positive fresh => exact sockets.connected empty positive fresh
  | @taken r found =>
    obtain ⟨live, -⟩ := pending r found
    refine sockets.set rfl rfl rfl ?_
    dsimp only
    omega
  | reqOver idle mem =>
    exact Sockets.delete (sockets.congr rfl (fun _ => Iff.rfl) fun _ _ => rfl) (counted.of_mem mem)
  | read => exact sockets.set rfl rfl rfl Iff.rfl
  | closed => exact sockets.congr rfl (fun _ => Iff.rfl) fun _ _ => rfl
  | handed idle mem =>
    have live := counted.of_mem mem
    refine sockets.set rfl rfl rfl ?_
    dsimp only
    omega
  | swap => exact sockets.set rfl rfl rfl Iff.rfl
  | endSwap runs some =>
    exact Sockets.delete (sockets.congr rfl (fun _ => Iff.rfl) fun _ _ => rfl)
      (counted.of_handed some)

/-! ### Descriptors handed over -/

/-- The open GET requests that are on a tunnel. -/
def asking (requests : List Request) (i : Fin 3) : Nat :=
  requests.countP fun r => decide (r.slot = i) && !r.post && r.isOpen

/-- An open GET request has not yet handed over its connection. -/
def Asked (s : Tunnels) : Prop :=
  ∀ i, asking s.requests i + (s.g_RtspTunnels i).swaps ≤ (s.g_RtspTunnels i).gets

/-- The pointer of a tunnel from which no descriptor has come is to a variable that is there. -/
def Waits (s : Tunnels) : Prop :=
  ∀ i, (s.g_RtspTunnels i).piSwapHttpFD = true → 0 < (s.g_RtspTunnels i).nRefCount →
    s.rtsp = .waits i ∨ 0 < (s.g_RtspTunnels i).swaps

theorem asking_cons (requests : List Request) (r : Request) (i : Fin 3) :
    asking (r :: requests) i ≤
      asking requests i + if i = r.slot ∧ r.post = false then 1 else 0 := by
  unfold asking
  rw [List.countP_cons]
  split
  · next here =>
    simp only [Bool.and_eq_true, decide_eq_true_eq, Bool.not_eq_true'] at here
    exact Nat.le_of_eq (by rw [if_pos ⟨here.1.1.symm, here.1.2⟩])
  · exact Nat.le_add_right ..

theorem asking_erase (requests : List Request) (r : Request) (i : Fin 3) :
    asking (requests.erase r) i ≤ asking requests i :=
  List.erase_sublist.countP_le

theorem asking_close (mem : r ∈ s.requests) (get : r.post = false) (asked : r.isOpen = true)
    (i : Fin 3) :
    asking s.requests i = asking (s.close r).requests i + if i = r.slot then 1 else 0 := by
  unfold asking
  rw [(List.perm_cons_erase mem).countP_eq, Tunnels.close, List.countP_cons, List.countP_cons]
  simp [get, asked, eq_comm]

theorem asking_none (counted : s.Counted) (empty : (s.g_RtspTunnels i).nRefCount ≤ 0) :
    asking s.requests i = 0 := by
  refine List.countP_eq_zero.mpr fun r mem here => ?_
  simp only [Bool.and_eq_true, decide_eq_true_eq] at here
  exact counted.no_requests empty r mem here.1.1

/-- One tunnel is set, and no request of another begins. -/
theorem Asked.set (asked : s.Asked)
    (set : t.g_RtspTunnels = (s.setTunnel i tunnel).g_RtspTunnels)
    (others : ∀ j, j ≠ i → asking t.requests j ≤ asking s.requests j)
    (here : asking t.requests i + tunnel.swaps ≤ tunnel.gets) : t.Asked := by
  intro j
  rw [set]
  rcases eq_or_ne j i with rfl | other
  · rw [setTunnel_self]
    exact here
  · rw [setTunnel_ne other]
    exact Nat.le_trans (Nat.add_le_add_right (others j other) _) (asked j)

theorem Asked.step (asked : s.Asked) (counted : s.Counted)
    (step : Effect DecodeBase64 s e t) : t.Asked := by
  cases step with
  | same => exact asked
  | found => exact asked
  | @failed post pcXSession answer i fd idle empty =>
    refine asked.set rfl (fun j _ => Nat.le_refl _) ?_
    have none : asking s.requests i = 0 := asking_none counted empty
    change asking s.requests i + 0 ≤ _
    rw [none]
    exact Nat.zero_le _
  | @created post pcXSession answer i fd idle nowhere empty =>
    have more := asking_cons s.requests ⟨post, pcXSession, i, true⟩
    refine asked.set rfl (fun j other => ?_) ?_
    · exact Nat.le_trans (more j) (by rw [if_neg fun both => other both.1]; exact Nat.le_refl _)
    · have here := more i
      rw [asking_none counted empty, Nat.zero_add] at here
      refine Nat.le_trans here ?_
      cases post <;> simp
  | @taken r found =>
    have more := asking_cons s.requests r
    refine asked.set rfl (fun j other => ?_) ?_
    · exact Nat.le_trans (more j) (by rw [if_neg fun both => other both.1]; exact Nat.le_refl _)
    · have before := asked r.slot
      have here := more r.slot
      change asking (r :: s.requests) r.slot + _ ≤ _
      cases post : r.post with
      | true =>
        rw [if_neg (by simp [post])] at here
        dsimp only
        omega
      | false =>
        rw [if_pos ⟨rfl, post⟩] at here
        dsimp only
        rw [if_neg Bool.false_ne_true]
        omega
  | reqOver =>
    have fewer := asking_erase s.requests
    exact asked.set rfl (fun j _ => fewer _ j)
      (Nat.le_trans (Nat.add_le_add_right (fewer _ _) _) (asked _))
  | read => exact asked.set rfl (fun j _ => Nat.le_refl _) (asked _)
  | @closed r reading idle mem get isOpen =>
    intro j
    have before := asked j
    rw [asking_close mem get isOpen] at before
    exact Nat.le_trans (Nat.add_le_add_right (Nat.le_add_right ..) _) before
  | @handed r reading idle mem get isOpen =>
    have fewer := asking_close mem get isOpen
    refine asked.set rfl (fun j _ => ?_) ?_
    · rw [fewer j]
      exact Nat.le_add_right ..
    · have before := asked r.slot
      rw [fewer r.slot, if_pos rfl] at before
      change asking (s.close r).requests r.slot + _ ≤ _
      dsimp only
      omega
  | swap => exact asked.set rfl (fun j _ => Nat.le_refl _) (asked _)
  | endSwap => exact asked.set rfl (fun j _ => Nat.le_refl _) (asked _)

theorem Waits.set (waits : s.Waits)
    (set : t.g_RtspTunnels = (s.setTunnel i tunnel).g_RtspTunnels)
    (others : ∀ j, j ≠ i → s.rtsp = .waits j →
      t.rtsp = .waits j ∨ 0 < (s.g_RtspTunnels j).swaps)
    (here : tunnel.piSwapHttpFD = true → 0 < tunnel.nRefCount →
      t.rtsp = .waits i ∨ 0 < tunnel.swaps) : t.Waits := by
  intro j
  rw [set]
  rcases eq_or_ne j i with rfl | other
  · rw [setTunnel_self]
    exact here
  · rw [setTunnel_ne other]
    intro pointer live
    rcases waits j pointer live with waiting | some
    · exact others j other waiting
    · exact .inr some

theorem forget_other (waiting : s.rtsp = .waits j) (other : j ≠ i) : s.forget i = .waits j := by
  unfold Tunnels.forget
  rw [waiting, if_neg]
  rintro ⟨⟩
  exact other rfl

theorem Waits.delete (waits : s.Waits) : (s.rtspTunnelDelete i).Waits := by
  refine waits.set rfl (fun j other waiting => ?_) fun pointer live => ?_
  · refine .inl ?_
    unfold Tunnels.rtspTunnelDelete
    dsimp only
    split
    · exact forget_other waiting other
    · exact waiting
  · have more : (s.g_RtspTunnels i).nRefCount - 1 ≠ 0 := Int.ne_of_gt live
    have same : (s.rtspTunnelDelete i).rtsp = s.rtsp := if_neg more
    rw [same]
    dsimp only at live
    exact waits i pointer (by omega)

theorem Waits.step (waits : s.Waits) (pending : s.Pending)
    (step : Effect DecodeBase64 s e t) : t.Waits := by
  cases step with
  | same => exact waits
  | found => exact waits
  | failed =>
    refine waits.set rfl (fun j other waiting => .inl (forget_other waiting other)) ?_
    exact fun pointer => absurd pointer Bool.false_ne_true
  | created =>
    refine waits.set rfl (fun j other waiting => .inl (forget_other waiting other)) ?_
    exact fun pointer => absurd pointer Bool.false_ne_true
  | taken found =>
    refine waits.set rfl (fun j _ => .inl) fun pointer _ => ?_
    exact waits _ pointer (pending _ found).1
  | reqOver => exact Waits.delete (s := { s with requests := s.requests.erase _ }) waits
  | read => exact waits.set rfl (fun j _ => .inl) (waits _)
  | closed => exact waits
  | handed idle mem get isOpen waiting =>
    refine waits.set rfl (fun j other waits => ?_) fun _ _ => .inr (Nat.succ_pos _)
    rw [waiting] at waits
    cases waits
    exact absurd rfl other
  | swap runs =>
    refine waits.set rfl (fun j _ waits => ?_) fun _ _ => .inl rfl
    rw [runs] at waits
    cases waits
  | @endSwap i => exact Waits.delete (s := { s with handed := _ }) waits

/-! ### Runs -/

/-- What holds in any order of the two threads' steps. -/
structure Sound (s : Tunnels) : Prop where
  counted : s.Counted
  pending : s.Pending
  sockets : s.Sockets
  asked : s.Asked
  waits : s.Waits

theorem sound_init : tunnelsInit.Sound where
  counted := fun _ => rfl
  pending := .of_none rfl
  sockets :=
    { nodup := .nil
      positive := fun _ mem => absurd mem List.not_mem_nil
      live := fun fd => by simp [tunnelsInit]
      apart := fun _ _ live => absurd live (Int.lt_irrefl 0) }
  asked := fun _ => Nat.le_refl 0
  waits := fun _ pointer => absurd pointer Bool.false_ne_true

theorem Sound.step (sound : s.Sound) (quiet : s.Quiet e) (step : s.step DecodeBase64 e = some t) :
    t.Sound :=
  have effect := step_effect step
  { counted := sound.counted.step effect
    pending := sound.pending.step quiet effect
    sockets := sound.sockets.step sound.counted sound.pending effect
    asked := sound.asked.step sound.counted effect
    waits := sound.waits.step sound.pending effect }

theorem Sound.send (sound : s.Sound) (mem : r ∈ s.requests) (get : r.post = false)
    (asked : r.isOpen = true) (alone : (s.g_RtspTunnels r.slot).gets ≤ 1) (reading : Reading) :
    (s.rtspTunnelSendData r reading).isSome := by
  have one : 0 < asking s.requests r.slot :=
    List.countP_pos_iff.mpr ⟨r, mem, by simp [get, asked]⟩
  have bound := sound.asked r.slot
  have there : (s.g_RtspTunnels r.slot).piSwapHttpFD = true → s.rtsp = .waits r.slot := by
    intro pointer
    rcases sound.waits r.slot pointer (sound.counted.of_mem mem) with waiting | some
    · exact waiting
    · omega
  cases reading with
  | timeout => rfl
  | gone =>
    simp only [Tunnels.rtspTunnelSendData]
    split
    · next pointer =>
      rw [if_pos (there pointer)]
      rfl
    · rfl
  | more =>
    simp only [Tunnels.rtspTunnelSendData]
    split
    · next pointer =>
      rw [if_pos (there pointer)]
      rfl
    · rfl

end Tunnels

/-- The steps of the two threads where the condition holds. -/
abbrev TunnelRun (DecodeBase64 : List Char → List UInt8) (ok : Tunnels → Tunnels.Event → Prop) :=
  Run (Guarded ok fun s e t => s.step DecodeBase64 e = some t)

theorem Tunnels.sound {DecodeBase64 : List Char → List UInt8} {ok : Tunnels → Tunnels.Event → Prop}
    (quiet : ∀ s e, ok s e → Tunnels.Quiet s e) {es : List Tunnels.Event} {s : Tunnels}
    (run : TunnelRun DecodeBase64 ok tunnelsInit es s) : s.Sound :=
  run.invariant Tunnels.Sound (fun s e _ sound step => sound.step (quiet s e step.1) step.2)
    Tunnels.sound_init

/-- The counter of each tunnel is the number of its requests and of the descriptors handed over, its
socket is open while that is positive, and a descriptor is given to a thread that waits for it
wherever no second GET request took the tunnel. -/
theorem tunnels_accounted (DecodeBase64 : List Char → List UInt8) (es : List Tunnels.Event)
    (s : Tunnels) (run : TunnelRun DecodeBase64 Tunnels.Quiet tunnelsInit es s) :
    (∀ i, (s.g_RtspTunnels i).nRefCount =
      s.requests.countP (fun r => r.slot = i) + s.handed i) ∧
    s.sockets.Nodup ∧
    (∀ fd, fd ∈ s.sockets ↔ ∃ i, 0 < (s.g_RtspTunnels i).nRefCount ∧
      (s.g_RtspTunnels i).fd = fd) ∧
    (∀ i j, 0 < (s.g_RtspTunnels i).nRefCount → 0 < (s.g_RtspTunnels j).nRefCount →
      (s.g_RtspTunnels i).fd = (s.g_RtspTunnels j).fd → i = j) ∧
    ∀ r ∈ s.requests, r.post = false → r.isOpen = true → (s.g_RtspTunnels r.slot).gets ≤ 1 →
      ∀ reading, (s.rtspTunnelSendData r reading).isSome := by
  have sound := Tunnels.sound (fun _ _ quiet => quiet) run
  refine ⟨fun i => ?_, sound.sockets.nodup, sound.sockets.live, sound.sockets.apart,
    fun r mem get asked alone => sound.send mem get asked alone⟩
  rw [sound.counted i]
  exact Int.natCast_add ..

/-- A GET request hands over its connection and a POST request of its session is left. -/
theorem tunnel_handed_over : ∃ s : Tunnels,
    TunnelRun (fun _ => []) Tunnels.Quiet tunnelsInit
      [.request false ['a'] (.made 5), .request true ['a'] .noSocket, .taken, .swap 0,
        .send ⟨false, ['a'], 0, true⟩ .more, .reqOver ⟨false, ['a'], 0, false⟩, .endSwap 0] s ∧
      s.requests = [⟨true, ['a'], 0, true⟩] ∧ (s.g_RtspTunnels 0).nRefCount = 1 ∧
      5 ∈ s.sockets := by
  obtain ⟨s, fold, requests, handed, fd⟩ : ∃ s, [.request false ['a'] (.made 5),
      .request true ['a'] .noSocket, .taken, .swap 0, .send ⟨false, ['a'], 0, true⟩ .more,
      .reqOver ⟨false, ['a'], 0, false⟩, .endSwap 0].foldlM
        (fun s e => if Tunnels.Quiet s e then s.step (fun _ => []) e else none) tunnelsInit =
      some s ∧ s.requests = [⟨true, ['a'], 0, true⟩] ∧ s.handed 0 = 0 ∧
        (s.g_RtspTunnels 0).fd = 5 := ⟨_, rfl, rfl, rfl, rfl⟩
  have run : TunnelRun (fun _ => []) Tunnels.Quiet tunnelsInit _ s := Run.of_guarded_foldlM fold
  obtain ⟨counted, -, live, -⟩ := tunnels_accounted (fun _ => []) _ s run
  have one : (s.g_RtspTunnels 0).nRefCount = 1 := by
    rw [counted, requests, handed]
    rfl
  exact ⟨s, run, requests, one, (live 5).mpr ⟨0, one ▸ Int.one_pos, fd⟩⟩

/-- The condition is needed: where the RTSP server ends its descriptor, the last holder, between the
search and the increment, a request has a tunnel without a socket. -/
theorem socket_closed_in_window : ∃ s : Tunnels,
    [.request false ['a'] (.made 5), .swap 0, .send ⟨false, ['a'], 0, true⟩ .more,
      .reqOver ⟨false, ['a'], 0, false⟩, .request true ['a'] .noSocket, .endSwap 0, .taken].foldlM
        (Tunnels.step fun _ => []) tunnelsInit = some s ∧
      s.requests = [⟨true, ['a'], 0, true⟩] ∧ (s.g_RtspTunnels 0).nRefCount = 1 ∧
      s.sockets = [] :=
  ⟨_, rfl, rfl, rfl, rfl⟩

end Rovio.Rtsp
