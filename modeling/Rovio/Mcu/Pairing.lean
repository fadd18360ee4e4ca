import Rovio.Kit.Runs
import Rovio.Mcu.Uart

/-! Commands to the motor controller and their answers. The three functions run under the
controller's lock, so one of them at a time has a place; between them any thread may be next, and
the period thread calls its task at any time, also where it has been deleted since. -/
namespace Rovio.Mcu
open Kit

/-- A response buffer, with room for the leading byte and the length. -/
structure Buffer where
  bytes : List UInt8
  room : 2 ≤ bytes.length

inductive Job where
  | mcuSendCommand (pCmd : List UInt8) (pResponse : Buffer)
  | mcuSendCommand_NoResponse (pCmd : List UInt8)
  | prdTask_ReadMCU

/-- Where the function that has the lock stands: before the test of `g_bSendMCU`, behind the read
of the earlier answer, behind `g_bSendMCU = FALSE`, behind the branch, behind a command whose
answer it reads or not, behind `g_bSendMCU = TRUE`, before the unlock. -/
inductive Place where
  | entered (job : Job)
  | drained (job : Job)
  | cleared (job : Job)
  | ready (job : Job)
  | awaiting (pResponse : Buffer) (answer : Frame)
  | sent
  | flagged
  | leaving

/-- An `mcuSendCommand` that has returned: the answer to its command, its buffer before and
after, and what it returned. -/
structure Answered where
  answer : Frame
  before : Buffer
  pResponse : List UInt8
  rt : Int

structure System where
  uart : List UInt8
  g_bSendMCU : Bool
  g_acMCU_Response : List UInt8
  g_nMCU_ResponseLen : Int
  registered : Bool
  critical : Option Place
  returned : List Answered

inductive Action where
  | lock (job : Job)
  | next (controller : List UInt8 → Frame)

/-- The controller answers a command with one frame. -/
def mcuSend (uart : List UInt8) (answer : Frame) : List UInt8 := uart ++ answer.bytes

/-- The next step of the function that has the lock; where it sends a command, with what the
controller answers to it. -/
def advance (s : System) (controller : List UInt8 → Frame) : Place → System
  | .entered job =>
    if s.g_bSendMCU then
      let received := mcuRecv s.uart s.g_acMCU_Response
      { s with
        uart := received.uart
        g_acMCU_Response := received.pResponse
        g_nMCU_ResponseLen := received.rt_len
        critical := some (.drained job) }
    else { s with critical := some (.ready job) }
  | .drained job => { s with g_bSendMCU := false, critical := some (.cleared job) }
  | .cleared job => { s with registered := false, critical := some (.ready job) }
  | .ready (.mcuSendCommand pCmd pResponse) =>
    { s with
      uart := mcuSend s.uart (controller pCmd)
      critical := some (.awaiting pResponse (controller pCmd)) }
  | .ready (.mcuSendCommand_NoResponse pCmd) =>
    { s with uart := mcuSend s.uart (controller pCmd), critical := some .sent }
  | .ready .prdTask_ReadMCU => { s with critical := some .leaving }
  | .awaiting pResponse answer =>
    let received := mcuRecv s.uart pResponse.bytes
    { s with
      uart := received.uart
      critical := some .leaving
      returned := s.returned ++ [⟨answer, pResponse, received.pResponse, received.rt_len⟩] }
  | .sent => { s with g_bSendMCU := true, critical := some .flagged }
  | .flagged => { s with registered := true, critical := some .leaving }
  | .leaving => { s with critical := none }

def step (s : System) : Action → Option System
  | .lock job =>
    match s.critical with
    | none => some { s with critical := some (.entered job) }
    | some _ => none
  | .next controller => s.critical.map (advance s controller)

/-- After `mcuInit`. The buffer has `MCU_MAX_CMD_LEN` bytes. -/
def start (g_acMCU_Response : Buffer) (g_nMCU_ResponseLen : Int) : System where
  uart := []
  g_bSendMCU := false
  g_acMCU_Response := g_acMCU_Response.bytes
  g_nMCU_ResponseLen := g_nMCU_ResponseLen
  registered := false
  critical := none
  returned := []

/-- The unread bytes are those of so many whole answers. -/
def Unread (s : System) (n : Nat) : Prop :=
  ∃ frames : List Frame, s.uart = frames.flatMap Frame.bytes ∧ frames.length = n

/-- The caller's buffer holds the answer to its own command, as far as it has room. -/
def Answered.own (a : Answered) : Prop :=
  a.pResponse = store a.before.bytes 0 (a.answer.bytes.take a.before.bytes.length) ∧
    a.rt = (min a.before.bytes.length a.answer.bytes.length : Nat)

/-- Each command has got its own answer, one answer at most is unread, and where no function is
under way one is unread just where `g_bSendMCU` is set and the task registered; the task is
deleted only where it is registered and added only where it is not. -/
structure Paired (s : System) : Prop where
  own : ∀ a ∈ s.returned, a.own
  unread : ∃ n ≤ 1, Unread s n
  outstanding : s.critical = none → Unread s (if s.g_bSendMCU then 1 else 0)
  registered : s.critical = none → s.registered = s.g_bSendMCU
  deletes : ∀ job, s.critical = some (.cleared job) → s.registered = true
  adds : s.critical = some .flagged → s.registered = false

/-- What holds where the function with the lock stands: how many answers are unread, and what
the flag and the registration are. -/
def Expects (s : System) : Option Place → Prop
  | none | some (.entered _) | some .leaving =>
    Unread s (if s.g_bSendMCU then 1 else 0) ∧ s.registered = s.g_bSendMCU
  | some (.drained _) => s.uart = [] ∧ s.g_bSendMCU = true ∧ s.registered = true
  | some (.cleared _) => s.uart = [] ∧ s.g_bSendMCU = false ∧ s.registered = true
  | some (.ready _) => s.uart = [] ∧ s.g_bSendMCU = false ∧ s.registered = false
  | some (.awaiting _ answer) =>
    s.uart = answer.bytes ∧ s.g_bSendMCU = false ∧ s.registered = false
  | some .sent => Unread s 1 ∧ s.g_bSendMCU = false ∧ s.registered = false
  | some .flagged => Unread s 1 ∧ s.g_bSendMCU = true ∧ s.registered = false

structure Sound (s : System) : Prop where
  own : ∀ a ∈ s.returned, a.own
  room : 2 ≤ s.g_acMCU_Response.length
  expects : Expects s s.critical

theorem unread_none {s : System} : Unread s 0 ↔ s.uart = [] := by
  constructor
  · rintro ⟨frames, uart, none⟩
    rw [uart, List.length_eq_zero_iff.mp none]
    rfl
  · intro empty
    exact ⟨[], empty, rfl⟩

theorem unread_one {s : System} : Unread s 1 ↔ ∃ answer : Frame, s.uart = answer.bytes := by
  constructor
  · rintro ⟨frames, uart, one⟩
    obtain ⟨answer, rfl⟩ := List.length_eq_one_iff.mp one
    exact ⟨answer, by simpa using uart⟩
  · rintro ⟨answer, uart⟩
    exact ⟨[answer], by simpa using uart, rfl⟩

theorem Sound.paired {s : System} (h : Sound s) : Paired s := by
  have expects := h.expects
  refine ⟨h.own, ?_, fun idle => ?_, fun idle => ?_, fun job here => ?_, fun here => ?_⟩
  · have few : ∀ b : Bool, (if b then 1 else 0) ≤ 1 := by decide
    cases here : s.critical with
    | none => exact ⟨_, few _, (here ▸ expects).1⟩
    | some place =>
      rw [here] at expects
      cases place with
      | entered job => exact ⟨_, few _, expects.1⟩
      | leaving => exact ⟨_, few _, expects.1⟩
      | awaiting pResponse answer => exact ⟨1, Nat.le_refl 1, unread_one.mpr ⟨answer, expects.1⟩⟩
      | sent => exact ⟨1, Nat.le_refl 1, expects.1⟩
      | flagged => exact ⟨1, Nat.le_refl 1, expects.1⟩
      | _ => exact ⟨0, Nat.zero_le 1, unread_none.mpr expects.1⟩
  · rw [idle] at expects
    exact expects.1
  · rw [idle] at expects
    exact expects.2
  · rw [here] at expects
    exact expects.2.2
  · rw [here] at expects
    exact expects.2.2

theorem sound_advance {s : System} {controller : List UInt8 → Frame} {place : Place} (h : Sound s)
    (here : s.critical = some place) : Sound (advance s controller place) := by
  obtain ⟨own, room, expects⟩ := h
  rw [here] at expects
  cases place with
  | entered job =>
    obtain ⟨unread, registered⟩ := expects
    cases flag : s.g_bSendMCU with
    | true =>
      rw [flag] at unread registered
      obtain ⟨frame, uart⟩ := unread_one.mp unread
      have read := mcuRecv_frame frame [] s.g_acMCU_Response room
      rw [List.append_nil, ← uart] at read
      simp only [advance, flag, if_true, read]
      refine ⟨own, ?_, rfl, rfl, registered⟩
      rw [store_length (by rw [Nat.zero_add, List.length_take]; exact Nat.min_le_left _ _)]
      exact room
    | false =>
      rw [flag] at unread registered
      simp only [advance, flag, Bool.false_eq_true, if_false]
      exact ⟨own, room, unread_none.mp unread, rfl, registered⟩
  | drained job =>
    obtain ⟨uart, -, registered⟩ := expects
    exact ⟨own, room, uart, rfl, registered⟩
  | cleared job =>
    obtain ⟨uart, flag, -⟩ := expects
    exact ⟨own, room, uart, flag, rfl⟩
  | ready job =>
    obtain ⟨uart, flag, registered⟩ := expects
    cases job with
    | mcuSendCommand pCmd pResponse =>
      refine ⟨own, room, ?_, flag, registered⟩
      simp [advance, mcuSend, uart]
    | mcuSendCommand_NoResponse pCmd =>
      refine ⟨own, room, unread_one.mpr ⟨controller pCmd, ?_⟩, flag, registered⟩
      simp [advance, mcuSend, uart]
    | prdTask_ReadMCU =>
      refine ⟨own, room, ?_, registered.trans flag.symm⟩
      simp only [advance, flag]
      exact unread_none.mpr uart
  | awaiting pResponse answer =>
    obtain ⟨uart, flag, registered⟩ := expects
    have read := mcuRecv_frame answer [] pResponse.bytes pResponse.room
    rw [List.append_nil] at read
    simp only [advance, uart, read]
    refine ⟨fun a ha => ?_, room, ?_, registered.trans flag.symm⟩
    · rcases List.mem_append.mp ha with before | now
      · exact own a before
      · obtain rfl := List.mem_singleton.mp now
        exact ⟨rfl, rfl⟩
    · simp only [flag]
      exact unread_none.mpr rfl
  | sent =>
    obtain ⟨unread, -, registered⟩ := expects
    exact ⟨own, room, unread, rfl, registered⟩
  | flagged =>
    obtain ⟨unread, flag, -⟩ := expects
    refine ⟨own, room, ?_, flag.symm⟩
    simp only [advance, flag]
    exact unread
  | leaving => exact ⟨own, room, expects⟩

theorem sound_step {s t : System} {action : Action} (h : Sound s)
    (stepped : step s action = some t) :
    Sound t := by
  cases action with
  | lock job =>
    simp only [step] at stepped
    cases here : s.critical with
    | none =>
      rw [here] at stepped
      cases stepped
      have expects := h.expects
      rw [here] at expects
      exact ⟨h.own, h.room, expects⟩
    | some place =>
      rw [here] at stepped
      cases stepped
  | next controller =>
    obtain ⟨place, here, rfl⟩ := Option.map_eq_some_iff.mp stepped
    exact sound_advance h here

/-- In every run of commands, commands without a response and calls of the task. -/
theorem answers_paired (g_acMCU_Response : Buffer) (g_nMCU_ResponseLen : Int)
    {actions : List Action} {s : System}
    (run : Run (fun s action t => step s action = some t)
      (start g_acMCU_Response g_nMCU_ResponseLen) actions s) : Paired s := by
  have sound : Sound (start g_acMCU_Response g_nMCU_ResponseLen) :=
    ⟨nofun, g_acMCU_Response.room, unread_none.mpr rfl, rfl⟩
  exact (run.invariant Sound (fun s action t h stepped => sound_step h stepped) sound).paired

def response : Buffer := ⟨[0, 0, 0, 0], by decide⟩

def shortAnswer (_pCmd : List UInt8) : Frame := ⟨0, [1, 2, 0xAA], rfl⟩

/-- A command drains the answer of the one before. -/
theorem answers_paired_two : ∃ s : System,
    Run (fun s action t => step s action = some t) (start response 0)
      [.lock (.mcuSendCommand_NoResponse []), .next shortAnswer, .next shortAnswer,
        .next shortAnswer, .next shortAnswer, .next shortAnswer,
        .lock (.mcuSendCommand [] response), .next shortAnswer, .next shortAnswer,
        .next shortAnswer, .next shortAnswer, .next shortAnswer, .next shortAnswer] s ∧
      s.critical = none ∧ s.returned.length = 1 ∧ Paired s := by
  have run : Run (fun s action t => step s action = some t) (start response 0)
      [.lock (.mcuSendCommand_NoResponse []), .next shortAnswer, .next shortAnswer,
        .next shortAnswer, .next shortAnswer, .next shortAnswer,
        .lock (.mcuSendCommand [] response), .next shortAnswer, .next shortAnswer,
        .next shortAnswer, .next shortAnswer, .next shortAnswer, .next shortAnswer] _ :=
    .cons rfl <| .cons rfl <| .cons rfl <| .cons rfl <| .cons rfl <| .cons rfl <| .cons rfl <|
      .cons rfl <| .cons rfl <| .cons rfl <| .cons rfl <| .cons rfl <| .cons rfl <| .nil _
  exact ⟨_, run, rfl, rfl, answers_paired response 0 run⟩

end Rovio.Mcu
