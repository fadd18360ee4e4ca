import Rovio.Kit.Runs
import Rovio.Rtsp.TunnelInput

/-! The RTSP tunnels over HTTP. The requests of one session share a tunnel, a GET request hands its
connection to the RTSP server, and the last of them all closes the tunnel's socket. -/
namespace Rovio.Rtsp

open Kit

/-! ### The code -/

/-- `piSwapHttpFD` is told from NULL only. The last three are histories since the tunnel was
created: what was posted, with the sessions, how many GET requests took the tunnel and how many of
them handed on a descriptor. -/
structure RTSP_TUNNEL_T where
  fd : Int
  piSwapHttpFD : Bool
  nRefCount : Int
  acXSession : List Char
  input : TunnelInput
  posted : List (List Char × List Char)
  gets : Nat
  swaps : Nat

def RTSP_TUNNEL_T.text (tunnel : RTSP_TUNNEL_T) : List Char :=
  (tunnel.posted.map Prod.snd).flatten

/-- A request with its `pParam`. The server asks an open GET request for more data. -/
structure Request where
  post : Bool
  session : List Char
  slot : Fin 3
  isOpen : Bool
  deriving DecidableEq

/-- The one thread of the RTSP server. It waits in vain once its condition is destroyed. -/
inductive RtspThread
  | runs
  | waits (slot : Fin 3)
  | lost
  deriving DecidableEq

/-- `found` is a request between `rtspTunnelSearch` and `++nRefCount`, when the scheduler is not
locked; `handed` counts the descriptors that the RTSP server has been given and not ended. -/
structure Tunnels where
  g_RtspTunnels : Fin 3 → RTSP_TUNNEL_T
  found : Option Request
  requests : List Request
  handed : Fin 3 → Nat
  rtsp : RtspThread
  sockets : List Int

/-- What `socket` and `connect` answer. -/
inductive Connect
  | noSocket
  | refused (fd : Int)
  | made (fd : Int)

/-- What `time` and the tunnel's socket tell `rtspTunnelSendData`. -/
inductive Reading
  | timeout
  | gone
  | more

namespace Tunnels

variable (s : Tunnels) (DecodeBase64 : List Char → List UInt8)

def setTunnel (i : Fin 3) (tunnel : RTSP_TUNNEL_T) : Tunnels :=
  { s with g_RtspTunnels := Function.update s.g_RtspTunnels i tunnel }

def rtspTunnelSearch (pcXSession : List Char) : Option (Fin 3) :=
  (List.finRange 3).find? fun i =>
    decide (0 < (s.g_RtspTunnels i).nRefCount) && (s.g_RtspTunnels i).acXSession == pcXSession

/-- The slot that `rtspTunnelCreate` looks up. -/
def nullSlot : Option (Fin 3) :=
  (List.finRange 3).find? fun i => decide ((s.g_RtspTunnels i).nRefCount ≤ 0)

/-- A thread that waits for a condition that is destroyed or initialized again. -/
def forget (i : Fin 3) : RtspThread := if s.rtsp = .waits i then .lost else s.rtsp

/-- What `rtspTunnelCreate` puts into the slot; the session is cut to `acXSession`. -/
def created (i : Fin 3) (post : Bool) (pcXSession : List Char) (fd nRefCount : Int) : Tunnels :=
  { s.setTunnel i
      { fd, piSwapHttpFD := false, nRefCount, acXSession := pcXSession.take 63
        input := Rtsp.rtspTunnelCreate (s.g_RtspTunnels i).input.acInput
        posted := [], gets := if post then 0 else 1, swaps := 0 } with
    rtsp := s.forget i }

/-- `rtspTunnelCreate` without a tunnel of the session. -/
def rtspTunnelCreate (post : Bool) (pcXSession : List Char) (answer : Connect) : Option Tunnels :=
  match s.nullSlot with
  | none => some s
  | some i =>
    match answer with
    | .noSocket => some (s.created i post pcXSession (-1) 0)
    | .refused fd => some (s.created i post pcXSession fd 0)
    | .made fd =>
      if 0 ≤ fd ∧ fd ∉ s.sockets then
        let s := s.created i post pcXSession fd 1
        some { s with
          sockets := fd :: s.sockets, requests := ⟨post, pcXSession, i, true⟩ :: s.requests }
      else none

/-- `Http_RtspTunnel` up to the increment, for either method. -/
def Http_RtspTunnel (post : Bool) (pcXSession : List Char) (answer : Connect) : Option Tunnels :=
  if pcXSession = [] then some s
  else
    match s.rtspTunnelSearch pcXSession with
    | some i => some { s with found := some ⟨post, pcXSession, i, true⟩ }
    | none => s.rtspTunnelCreate post pcXSession answer

/-- `++pRtsp->nRefCount` at the end of `rtspTunnelSearch`. -/
def take (r : Request) : Tunnels :=
  let tunnel := s.g_RtspTunnels r.slot
  { s.setTunnel r.slot { tunnel with
      nRefCount := tunnel.nRefCount + 1, gets := tunnel.gets + if r.post then 0 else 1 } with
    found := none, requests := r :: s.requests }

def rtspTunnelDelete (i : Fin 3) : Tunnels :=
  let tunnel := s.g_RtspTunnels i
  let nRefCount := tunnel.nRefCount - 1
  { s.setTunnel i { tunnel with nRefCount } with
    sockets := if nRefCount = 0 ∧ tunnel.fd ≠ -1 then s.sockets.erase tunnel.fd else s.sockets
    rtsp := if nRefCount = 0 then s.forget i else s.rtsp }

def rtspHttpReqOver (r : Request) : Tunnels :=
  { s with requests := s.requests.erase r }.rtspTunnelDelete r.slot

def rtspTunnelReadData (r : Request) (pcFillData : List Char) : Option Tunnels :=
  let tunnel := s.g_RtspTunnels r.slot
  (Rtsp.rtspTunnelReadData DecodeBase64 tunnel.input pcFillData).map fun input =>
    s.setTunnel r.slot { tunnel with input, posted := tunnel.posted ++ [(r.session, pcFillData)] }

/-- The server asks the request no more. -/
def close (r : Request) : Tunnels :=
  { s with requests := { r with isOpen := false } :: s.requests.erase r }

/-- A GET request's connection goes to the RTSP server. -/
def handOver (r : Request) : Tunnels :=
  let tunnel := s.g_RtspTunnels r.slot
  { (s.setTunnel r.slot { tunnel with
      nRefCount := tunnel.nRefCount + 1, swaps := tunnel.swaps + 1 }).close r with
    handed := Function.update s.handed r.slot (s.handed r.slot + 1), rtsp := .runs }

/-- None when the thread of the RTSP server no longer waits for the descriptor, and the pointer is
to a variable that is gone. -/
def rtspTunnelSendData (r : Request) (reading : Reading) : Option Tunnels :=
  match reading with
  | .timeout => some (s.close r)
  | .gone =>
    if (s.g_RtspTunnels r.slot).piSwapHttpFD then
      if s.rtsp = .waits r.slot then some (s.handOver r) else none
    else some (s.close r)
  | .more =>
    if (s.g_RtspTunnels r.slot).piSwapHttpFD then
      if s.rtsp = .waits r.slot then some (s.handOver r) else none
    else some s

def rtspSwapHttpTunnelFD (i : Fin 3) : Tunnels :=
  { s.setTunnel i { s.g_RtspTunnels i with piSwapHttpFD := true } with rtsp := .waits i }

def rtspEndSwapHttpFD (i : Fin 3) : Tunnels :=
  { s with handed := Function.update s.handed i (s.handed i - 1) }.rtspTunnelDelete i

inductive Event
  | request (post : Bool) (pcXSession : List Char) (answer : Connect)
  | taken
  | reqOver (r : Request)
  | read (r : Request) (pcFillData : List Char)
  | send (r : Request) (reading : Reading)
  | swap (i : Fin 3)
  | endSwap (i : Fin 3)

/-- The thread of the HTTP server makes the first five, one after the other, that of the RTSP server
the last two. -/
def step (s : Tunnels) : Event → Option Tunnels
  | .request post pcXSession answer =>
    if s.found = none then s.Http_RtspTunnel post pcXSession answer else none
  | .taken => s.found.map fun r => s.take r
  | .reqOver r => if s.found = none ∧ r ∈ s.requests then some (s.rtspHttpReqOver r) else none
  | .read r pcFillData =>
    if s.found = none ∧ r ∈ s.requests ∧ r.post then
      s.rtspTunnelReadData DecodeBase64 r pcFillData
    else none
  | .send r reading =>
    if s.found = none ∧ r ∈ s.requests ∧ ¬ r.post ∧ r.isOpen then s.rtspTunnelSendData r reading
    else none
  | .swap i => if s.rtsp = .runs then some (s.rtspSwapHttpTunnelFD i) else none
  | .endSwap i =>
    if s.rtsp = .runs ∧ 0 < s.handed i then some (s.rtspEndSwapHttpFD i) else none

end Tunnels

/-- Static storage. -/
def tunnelsInit : Tunnels where
  g_RtspTunnels := fun _ =>
    { fd := 0, piSwapHttpFD := false, nRefCount := 0, acXSession := []
      input := ⟨List.replicate 4 (Char.ofNat 0), 0, []⟩, posted := [], gets := 0, swaps := 0 }
  found := none
  requests := []
  handed := fun _ => 0
  rtsp := .runs
  sockets := []

/-! ### What a step does -/

/-- The tunnel is made for a request, over a socket of its own. -/
def Tunnels.connected (s : Tunnels) (i : Fin 3) (post : Bool) (pcXSession : List Char) (fd : Int) :
    Tunnels :=
  { s.created i post pcXSession fd 1 with
    sockets := fd :: s.sockets, requests := ⟨post, pcXSession, i, true⟩ :: s.requests }

inductive Tunnels.Effect (DecodeBase64 : List Char → List UInt8) (s : Tunnels) :
    Event → Tunnels → Prop
  | same {e} : Effect DecodeBase64 s e s
  | found {post pcXSession answer i} : s.found = none →
      s.rtspTunnelSearch pcXSession = some i →
      Effect DecodeBase64 s (.request post pcXSession answer)
        { s with found := some ⟨post, pcXSession, i, true⟩ }
  | failed {post pcXSession answer i fd} : s.found = none → (s.g_RtspTunnels i).nRefCount ≤ 0 →
      Effect DecodeBase64 s (.request post pcXSession answer) (s.created i post pcXSession fd 0)
  | created {post pcXSession answer i fd} : s.found = none →
      s.rtspTunnelSearch pcXSession = none → (s.g_RtspTunnels i).nRefCount ≤ 0 → 0 ≤ fd →
      fd ∉ s.sockets →
      Effect DecodeBase64 s (.request post pcXSession answer) (s.connected i post pcXSession fd)
  | taken {r} : s.found = some r → Effect DecodeBase64 s .taken (s.take r)
  | reqOver {r} : s.found = none → r ∈ s.requests →
      Effect DecodeBase64 s (.reqOver r) (s.rtspHttpReqOver r)
  | read {r pcFillData input} : s.found = none → r ∈ s.requests →
      Rtsp.rtspTunnelReadData DecodeBase64 (s.g_RtspTunnels r.slot).input pcFillData = some input →
      Effect DecodeBase64 s (.read r pcFillData)
        (s.setTunnel r.slot { s.g_RtspTunnels r.slot with
          input, posted := (s.g_RtspTunnels r.slot).posted ++ [(r.session, pcFillData)] })
  | closed {r reading} : s.found = none → r ∈ s.requests → r.post = false → r.isOpen = true →
      Effect DecodeBase64 s (.send r reading) (s.close r)
  | handed {r reading} : s.found = none → r ∈ s.requests → r.post = false → r.isOpen = true →
      s.rtsp = .waits r.slot → Effect DecodeBase64 s (.send r reading) (s.handOver r)
  | swap {i} : s.rtsp = .runs → Effect DecodeBase64 s (.swap i) (s.rtspSwapHttpTunnelFD i)
  | endSwap {i} : s.rtsp = .runs → 0 < s.handed i →
      Effect DecodeBase64 s (.endSwap i) (s.rtspEndSwapHttpFD i)

namespace Tunnels

variable {DecodeBase64 : List Char → List UInt8} {s t : Tunnels} {e : Event} {i j : Fin 3}
  {r : Request}

theorem nullSlot_le (vacant : s.nullSlot = some i) : (s.g_RtspTunnels i).nRefCount ≤ 0 :=
  of_decide_eq_true
    (@List.find?_some _ (fun i => decide ((s.g_RtspTunnels i).nRefCount ≤ 0)) i _ vacant)

theorem search_some {pcXSession : List Char} (here : s.rtspTunnelSearch pcXSession = some i) :
    0 < (s.g_RtspTunnels i).nRefCount ∧ (s.g_RtspTunnels i).acXSession = pcXSession := by
  simpa using List.find?_some here

theorem search_none {pcXSession : List Char} (nowhere : s.rtspTunnelSearch pcXSession = none)
    (i : Fin 3) (live : 0 < (s.g_RtspTunnels i).nRefCount) :
    (s.g_RtspTunnels i).acXSession ≠ pcXSession := by
  have other := List.find?_eq_none.mp nowhere i (List.mem_finRange i)
  simpa [live] using other

theorem create_effect {post : Bool} {pcXSession : List Char} {answer : Connect}
    (idle : s.found = none) (nowhere : s.rtspTunnelSearch pcXSession = none)
    (step : s.rtspTunnelCreate post pcXSession answer = some t) :
    Effect DecodeBase64 s (.request post pcXSession answer) t := by
  unfold Tunnels.rtspTunnelCreate at step
  cases vacant : s.nullSlot with
  | none =>
    rw [vacant] at step
    cases step
    exact .same
  | some i =>
    rw [vacant] at step
    have empty := nullSlot_le vacant
    cases answer with
    | noSocket =>
      cases step
      exact .failed idle empty
    | refused fd =>
      cases step
      exact .failed idle empty
    | made fd =>
      simp only [Option.ite_none_right_eq_some] at step
      obtain ⟨⟨positive, fresh⟩, made⟩ := step
      cases made
      exact .created idle nowhere empty positive fresh

theorem send_effect {reading : Reading} (idle : s.found = none) (mem : r ∈ s.requests)
    (get : r.post = false) (asked : r.isOpen = true)
    (step : s.rtspTunnelSendData r reading = some t) :
    Effect DecodeBase64 s (.send r reading) t := by
  cases reading with
  | timeout =>
    cases step
    exact .closed idle mem get asked
  | gone =>
    simp only [Tunnels.rtspTunnelSendData] at step
    split at step
    · obtain ⟨waiting, step⟩ := Option.ite_none_right_eq_some.mp step
      cases step
      exact .handed idle mem get asked waiting
    · cases step
      exact .closed idle mem get asked
  | more =>
    simp only [Tunnels.rtspTunnelSendData] at step
    split at step
    · obtain ⟨waiting, step⟩ := Option.ite_none_right_eq_some.mp step
      cases step
      exact .handed idle mem get asked waiting
    · cases step
      exact .same

theorem step_effect (step : s.step DecodeBase64 e = some t) : Effect DecodeBase64 s e t := by
  cases e with
  | request post pcXSession answer =>
    obtain ⟨idle, step⟩ := Option.ite_none_right_eq_some.mp step
    unfold Tunnels.Http_RtspTunnel at step
    split at step
    · cases step
      exact .same
    · cases search : s.rtspTunnelSearch pcXSession with
      | none =>
        rw [search] at step
        exact create_effect idle search step
      | some i =>
        rw [search] at step
        cases step
        exact .found idle search
  | taken =>
    obtain ⟨r, found, rfl⟩ := Option.map_eq_some_iff.mp step
    exact .taken found
  | reqOver r =>
    obtain ⟨⟨idle, mem⟩, step⟩ := Option.ite_none_right_eq_some.mp step
    cases step
    exact .reqOver idle mem
  | read r pcFillData =>
    obtain ⟨⟨idle, mem, -⟩, step⟩ := Option.ite_none_right_eq_some.mp step
    obtain ⟨input, done, rfl⟩ := Option.map_eq_some_iff.mp step
    exact .read idle mem done
  | send r reading =>
    obtain ⟨⟨idle, mem, get, asked⟩, step⟩ := Option.ite_none_right_eq_some.mp step
    exact send_effect idle mem (Bool.not_eq_true _ ▸ get) asked step
  | swap i =>
    obtain ⟨runs, step⟩ := Option.ite_none_right_eq_some.mp step
    cases step
    exact .swap runs
  | endSwap i =>
    obtain ⟨⟨runs, some⟩, step⟩ := Option.ite_none_right_eq_some.mp step
    cases step
    exact .endSwap runs some

/-! ### References -/

variable {tunnel : RTSP_TUNNEL_T}

theorem setTunnel_self : (s.setTunnel i tunnel).g_RtspTunnels i = tunnel :=
  Function.update_self ..

theorem setTunnel_ne (other : j ≠ i) :
    (s.setTunnel i tunnel).g_RtspTunnels j = s.g_RtspTunnels j :=
  Function.update_of_ne other ..

/-- A part of the tunnel that is not set. -/
theorem setTunnel_same {X : Type} (f : RTSP_TUNNEL_T → X)
    (same : f tunnel = f (s.g_RtspTunnels i)) (j : Fin 3) :
    f ((s.setTunnel i tunnel).g_RtspTunnels j) = f (s.g_RtspTunnels j) := by
  rcases eq_or_ne j i with rfl | other
  · rw [setTunnel_self, same]
  · rw [setTunnel_ne other]

theorem setTunnel_all {P : RTSP_TUNNEL_T → Prop} (all : ∀ j, P (s.g_RtspTunnels j))
    (here : P tunnel) (j : Fin 3) : P ((s.setTunnel i tunnel).g_RtspTunnels j) := by
  rcases eq_or_ne j i with rfl | other
  · rw [setTunnel_self]
    exact here
  · rw [setTunnel_ne other]
    exact all j

/-- The open requests on a tunnel, and the descriptors the RTSP server has of it. -/
def holders (s : Tunnels) (i : Fin 3) : Nat :=
  s.requests.countP (fun r => r.slot = i) + s.handed i

def Counted (s : Tunnels) : Prop := ∀ i, (s.g_RtspTunnels i).nRefCount = s.holders i

theorem close_count (mem : r ∈ s.requests) (p : Request → Bool)
    (same : p { r with isOpen := false } = p r) :
    (s.close r).requests.countP p = s.requests.countP p := by
  rw [(List.perm_cons_erase mem).countP_eq p]
  change ({ r with isOpen := false } :: s.requests.erase r).countP p = _
  rw [List.countP_cons, List.countP_cons, same]

theorem Counted.no_requests (counted : s.Counted) (empty : (s.g_RtspTunnels i).nRefCount ≤ 0) :
    ∀ r ∈ s.requests, r.slot ≠ i := by
  intro r mem here
  have some : 0 < s.requests.countP fun r => decide (r.slot = i) :=
    List.countP_pos_iff.mpr ⟨r, mem, decide_eq_true here⟩
  have all := counted i
  unfold holders at all
  omega

theorem Counted.of_mem (counted : s.Counted) (mem : r ∈ s.requests) :
    0 < (s.g_RtspTunnels r.slot).nRefCount := by
  by_contra empty
  exact counted.no_requests (Int.not_lt.mp empty) r mem rfl

theorem Counted.of_handed (counted : s.Counted) (some : 0 < s.handed i) :
    0 < (s.g_RtspTunnels i).nRefCount := by
  have all := counted i
  unfold holders at all
  omega

/-- The counts of a state in which `i` has so many holders more. -/
theorem Counted.change {n : Int} (counted : s.Counted)
    (refs : (t.g_RtspTunnels i).nRefCount = (s.g_RtspTunnels i).nRefCount + n)
    (others : ∀ j, j ≠ i → t.g_RtspTunnels j = s.g_RtspTunnels j)
    (more : ∀ j, (t.holders j : Int) = s.holders j + if j = i then n else 0) : t.Counted := by
  intro j
  rw [more j, ← counted j]
  rcases eq_or_ne j i with rfl | other
  · rw [if_pos rfl, refs]
  · rw [if_neg other, others j other, Int.add_zero]

theorem holders_cons (requests : t.requests = r :: s.requests) (handed : t.handed = s.handed)
    (j : Fin 3) : (t.holders j : Int) = s.holders j + if j = r.slot then 1 else 0 := by
  unfold holders
  rw [requests, handed, List.countP_cons]
  simp only [decide_eq_true_eq, @eq_comm _ r.slot]
  split <;> omega

theorem holders_erase (mem : r ∈ s.requests) (requests : t.requests = s.requests.erase r)
    (handed : t.handed = s.handed) (j : Fin 3) :
    (t.holders j : Int) = s.holders j + if j = r.slot then -1 else 0 := by
  unfold holders
  rw [requests, handed, (List.perm_cons_erase mem).countP_eq, List.countP_cons]
  simp only [decide_eq_true_eq, @eq_comm _ r.slot]
  split <;> omega

theorem holders_update {k : Nat}
    (requests : ∀ p : Request → Bool, (∀ r, p { r with isOpen := false } = p r) →
      t.requests.countP p = s.requests.countP p)
    (handed : t.handed = Function.update s.handed i k) (j : Fin 3) :
    (t.holders j : Int) = s.holders j + if j = i then (k : Int) - s.handed i else 0 := by
  unfold holders
  rw [requests _ fun _ => rfl, handed, Function.update_apply]
  split
  · next same =>
    subst same
    omega
  · omega

theorem Counted.step (counted : s.Counted) (step : Effect DecodeBase64 s e t) : t.Counted := by
  cases step with
  | same => exact counted
  | found => exact counted
  | @failed post pcXSession answer i fd idle empty =>
    have none := counted i
    refine @Counted.change _ _ i 0 counted ?_ (fun j => setTunnel_ne) fun j => ?_
    · rw [Tunnels.created, setTunnel_self]
      dsimp only
      omega
    · rw [ite_self, Int.add_zero]
      rfl
  | @created post pcXSession answer i fd idle nowhere empty positive fresh =>
    have none := counted i
    refine @Counted.change _ _ i 1 counted ?_ (fun j => setTunnel_ne)
      (@holders_cons s _ ⟨post, pcXSession, i, true⟩ rfl rfl)
    rw [Tunnels.connected, Tunnels.created, setTunnel_self]
    dsimp only
    omega
  | @taken r found =>
    refine @Counted.change _ _ r.slot 1 counted ?_ (fun j => setTunnel_ne) (holders_cons rfl rfl)
    rw [Tunnels.take, setTunnel_self]
  | @reqOver r idle mem =>
    refine @Counted.change _ _ r.slot (-1) counted ?_ (fun j => setTunnel_ne)
      (holders_erase mem rfl rfl)
    rw [Tunnels.rtspHttpReqOver, Tunnels.rtspTunnelDelete, setTunnel_self]
    rfl
  | @read r pcFillData input idle mem =>
    refine @Counted.change _ _ r.slot 0 counted ?_ (fun j => setTunnel_ne) fun j => ?_
    · rw [setTunnel_self]
      exact (Int.add_zero _).symm
    · rw [ite_self, Int.add_zero]
      rfl
  | @closed r reading idle mem =>
    refine @Counted.change _ _ r.slot _ counted ?_ (fun j _ => rfl)
      (holders_update (fun p same => close_count mem p (same r)) (Function.update_eq_self ..).symm)
    simp [Tunnels.close]
  | @handed r reading idle mem =>
    refine @Counted.change _ _ r.slot _ counted ?_ (fun j => setTunnel_ne)
      (holders_update (fun p same => close_count mem p (same r)) rfl)
    rw [Tunnels.handOver, Tunnels.close, setTunnel_self]
    dsimp only
    omega
  | @swap i =>
    refine @Counted.change _ _ i 0 counted ?_ (fun j => setTunnel_ne) fun j => ?_
    · rw [Tunnels.rtspSwapHttpTunnelFD, setTunnel_self, Int.add_zero]
    · rw [ite_self, Int.add_zero]
      rfl
  | @endSwap i runs some =>
    refine @Counted.change _ _ i _ counted ?_ (fun j => setTunnel_ne)
      (holders_update (fun p same => rfl) rfl)
    rw [Tunnels.rtspEndSwapHttpFD, Tunnels.rtspTunnelDelete, setTunnel_self]
    dsimp only
    omega

/-- Between search and increment the RTSP server ends no descriptor of the tunnel found. -/
def Quiet (s : Tunnels) : Event → Prop
  | .endSwap i => ∀ r ∈ s.found, r.slot ≠ i
  | _ => True

instance (s : Tunnels) : ∀ e, Decidable (s.Quiet e)
  | .endSwap i => inferInstanceAs (Decidable (∀ r ∈ s.found, r.slot ≠ i))
  | .request .. | .taken | .reqOver _ | .read .. | .send .. | .swap _ => isTrue trivial

/-- The tunnel found is still there. -/
def Pending (s : Tunnels) : Prop :=
  ∀ r ∈ s.found, 0 < (s.g_RtspTunnels r.slot).nRefCount ∧
    (s.g_RtspTunnels r.slot).acXSession = r.session

theorem Pending.of_none (idle : s.found = none) : s.Pending := by
  intro r found
  rw [idle] at found
  cases found

theorem Pending.step (pending : s.Pending) (quiet : s.Quiet e)
    (step : Effect DecodeBase64 s e t) : t.Pending := by
  cases step with
  | same => exact pending
  | found idle search =>
    rintro r ⟨⟩
    exact search_some search
  | failed idle => exact .of_none idle
  | created idle => exact .of_none idle
  | taken => exact .of_none rfl
  | reqOver idle => exact .of_none idle
  | read idle => exact .of_none idle
  | closed idle => exact .of_none idle
  | handed idle => exact .of_none idle
  | @swap i =>
    intro r found
    have refs : ((s.rtspSwapHttpTunnelFD i).g_RtspTunnels r.slot).nRefCount =
        (s.g_RtspTunnels r.slot).nRefCount := by
      exact @setTunnel_same s i { s.g_RtspTunnels i with piSwapHttpFD := true } _
        RTSP_TUNNEL_T.nRefCount rfl r.slot
    have session : ((s.rtspSwapHttpTunnelFD i).g_RtspTunnels r.slot).acXSession =
        (s.g_RtspTunnels r.slot).acXSession := by
      exact @setTunnel_same s i { s.g_RtspTunnels i with piSwapHttpFD := true } _
        RTSP_TUNNEL_T.acXSession rfl r.slot
    rw [refs, session]
    exact pending r found
  | @endSwap i =>
    intro r found
    have here := pending r found
    have other : (s.rtspEndSwapHttpFD i).g_RtspTunnels r.slot = s.g_RtspTunnels r.slot :=
      setTunnel_ne (quiet r found)
    rw [other]
    exact here

end Tunnels

end Rovio.Rtsp
