import Rovio.Kit.Runs
import Rovio.Kit.Threads

/-! A message queue shared by threads. A call runs from its semaphore to the critical section
of `ptmMsg` and from there to the other semaphore; between these points other threads run.
The semaphores count, and a node is allocated or not. -/
namespace Rovio.Msg
open Kit

/-- MSG_T. -/
structure Message where
  lMsg : Int
  lData : Int
  deriving DecidableEq

structure MsgQueue where
  plMsgList : List Message
  iMaxMsgLimit : Int
  sMsgSemProducer : Nat
  sMsgSemConsumer : Nat

def createMsgQueue (iMaxMsgLimit : Int) : MsgQueue :=
  ⟨[], iMaxMsgLimit, if iMaxMsgLimit > 0 then iMaxMsgLimit.toNat else 0, 0⟩

/-- A semaphore without a unit blocks the waiting thread, and refuses the trying one. -/
def semWait : Nat → Option Nat
  | 0 => none
  | n + 1 => some n

def semPost (n : Nat) : Nat := n + 1

def popMsgNode (pMsgQueue : MsgQueue) : MsgQueue × Option Message :=
  match pMsgQueue.plMsgList with
  | [] => (pMsgQueue, none)
  | pMsgInNode :: rest => ({ pMsgQueue with plMsgList := rest }, some pMsgInNode)

/-- Both the copy of the message (malloc) and the node (httpAppendNode) need memory. -/
def pushMsgNode (malloc appendNode : Bool) (pMsgQueue : MsgQueue) (pMsg : Message) :
    MsgQueue × Bool :=
  if malloc = false then (pMsgQueue, false)
  else if appendNode = false then (pMsgQueue, false)
  else ({ pMsgQueue with plMsgList := pMsgQueue.plMsgList ++ [pMsg] }, true)

/-- Where a thread stands: in no call, in a send behind its first semaphore or behind
`PushMsgNode`, in a receive behind its first semaphore or behind `PopMsgNode`. -/
inductive Place where
  | outside
  | slot (pMsg : Message)
  | pushed (bPush : Bool)
  | token
  | popped (bPop : Option Message)
  deriving DecidableEq

/-- The queue, the threads, and what happened so far: the messages linked, the messages
unlinked and the messages that receives returned. -/
structure System where
  pMsgQueue : MsgQueue
  threads : List Place
  accepted : List Message
  delivered : List Message
  returned : List Message

inductive Action where
  | sendMsg (pMsg : Message)
  | trySendMsg (pMsg : Message)
  | push (malloc appendNode : Bool)
  | sent
  | getMsg
  | tryGetMsg
  | pop
  | got

/-- The first semaphore of a send; an unlimited queue has none. -/
def takeSlot (pMsgQueue : MsgQueue) : Option MsgQueue :=
  if pMsgQueue.iMaxMsgLimit > 0 then
    (semWait pMsgQueue.sMsgSemProducer).map fun n => { pMsgQueue with sMsgSemProducer := n }
  else some pMsgQueue

def takeToken (pMsgQueue : MsgQueue) : Option MsgQueue :=
  (semWait pMsgQueue.sMsgSemConsumer).map fun n => { pMsgQueue with sMsgSemConsumer := n }

def giveSlot (pMsgQueue : MsgQueue) : MsgQueue :=
  if pMsgQueue.iMaxMsgLimit > 0 then
    { pMsgQueue with sMsgSemProducer := semPost pMsgQueue.sMsgSemProducer }
  else pMsgQueue

def giveToken (pMsgQueue : MsgQueue) : MsgQueue :=
  { pMsgQueue with sMsgSemConsumer := semPost pMsgQueue.sMsgSemConsumer }

/-- What thread `i` does next, where it can. -/
def step (s : System) (i : Nat) (action : Action) : Option System :=
  match s.threads[i]?, action with
  | some .outside, .sendMsg pMsg =>
    (takeSlot s.pMsgQueue).map fun q =>
      { s with pMsgQueue := q, threads := s.threads.set i (.slot pMsg) }
  | some .outside, .trySendMsg pMsg =>
    match takeSlot s.pMsgQueue with
    | none => some s
    | some q => some { s with pMsgQueue := q, threads := s.threads.set i (.slot pMsg) }
  | some (.slot pMsg), .push malloc appendNode =>
    let (q, bPush) := pushMsgNode malloc appendNode s.pMsgQueue pMsg
    some { s with
      pMsgQueue := q
      threads := s.threads.set i (.pushed bPush)
      accepted := s.accepted ++ if bPush then [pMsg] else [] }
  | some (.pushed _), .sent =>
    some { s with pMsgQueue := giveToken s.pMsgQueue, threads := s.threads.set i .outside }
  | some .outside, .getMsg =>
    (takeToken s.pMsgQueue).map fun q =>
      { s with pMsgQueue := q, threads := s.threads.set i .token }
  | some .outside, .tryGetMsg =>
    match takeToken s.pMsgQueue with
    | none => some s
    | some q => some { s with pMsgQueue := q, threads := s.threads.set i .token }
  | some .token, .pop =>
    let (q, bPop) := popMsgNode s.pMsgQueue
    some { s with
      pMsgQueue := q
      threads := s.threads.set i (.popped bPop)
      delivered := s.delivered ++ bPop.toList }
  | some (.popped bPop), .got =>
    some { s with
      pMsgQueue := giveSlot s.pMsgQueue
      threads := s.threads.set i .outside
      returned := s.returned ++ bPop.toList }
  | _, _ => none

/-- A new queue and `n` threads. -/
def start (iMaxMsgLimit : Int) (n : Nat) : System :=
  ⟨createMsgQueue iMaxMsgLimit, List.replicate n .outside, [], [], []⟩

/-- The slots that a call holds: taken or emptied, and neither given back nor filled. -/
def Place.slots : Place → Nat
  | .slot _ | .pushed false | .popped _ => 1
  | _ => 0

/-- A node that a call accounts for: it will post for it, or was woken for it. -/
def Place.nodes : Place → Nat
  | .token | .pushed true => 1
  | _ => 0

/-- Whether a receive holds a message that it has not returned yet. -/
def Place.holds (pMsg : Message) : Place → Nat
  | .popped (some held) => if held = pMsg then 1 else 0
  | _ => 0

/-- The send of thread `i` ends and returns FALSE. -/
def Rejects (s : System) (i : Nat) : Action → Prop
  | .trySendMsg _ => takeSlot s.pMsgQueue = none
  | .sent => s.threads[i]? = some (.pushed false)
  | _ => False

/-- Accounted for: the list keeps to its limit, the messages linked are those unlinked and
then those queued, each message unlinked has been returned once or is held by one receive, and
each slot is free, filled or held. -/
structure Sound (s : System) : Prop where
  bounded : 0 < s.pMsgQueue.iMaxMsgLimit →
    (s.pMsgQueue.plMsgList.length : Int) ≤ s.pMsgQueue.iMaxMsgLimit
  inOrder : s.accepted = s.delivered ++ s.pMsgQueue.plMsgList
  once : ∀ pMsg, s.returned.count pMsg + total (Place.holds pMsg) s.threads =
    s.delivered.count pMsg
  slots : 0 < s.pMsgQueue.iMaxMsgLimit →
    (s.pMsgQueue.sMsgSemProducer + s.pMsgQueue.plMsgList.length + total Place.slots s.threads : Int)
      = s.pMsgQueue.iMaxMsgLimit

/-- A rejected send leaves the list, and gives back every slot it took. -/
def Undone (s : System) (i : Nat) (t : System) : Prop :=
  t.pMsgQueue.plMsgList = s.pMsgQueue.plMsgList ∧
    (0 < s.pMsgQueue.iMaxMsgLimit → ∀ p, s.threads[i]? = some p →
      t.pMsgQueue.sMsgSemProducer = s.pMsgQueue.sMsgSemProducer + p.slots)

/-- `PushMsgNode` finds the memory it needs. -/
def Allocates : Nat × Action → Prop
  | (_, .push malloc appendNode) => malloc = true ∧ appendNode = true
  | _ => True

/-! ### What the operations do to the counts -/

section
variable {q r : MsgQueue}

theorem takeSlot_spec (taken : takeSlot q = some r) :
    r.plMsgList = q.plMsgList ∧ r.iMaxMsgLimit = q.iMaxMsgLimit ∧
      r.sMsgSemConsumer = q.sMsgSemConsumer ∧
      (0 < q.iMaxMsgLimit → q.sMsgSemProducer = r.sMsgSemProducer + 1) := by
  unfold takeSlot at taken
  split at taken
  · obtain ⟨n, unit, rfl⟩ := Option.map_eq_some_iff.mp taken
    refine ⟨rfl, rfl, rfl, fun _ => ?_⟩
    cases free : q.sMsgSemProducer with
    | zero => rw [free] at unit; cases unit
    | succ m => rw [free] at unit; cases unit; rfl
  · rename_i unlimited
    cases taken
    exact ⟨rfl, rfl, rfl, fun limited => absurd limited unlimited⟩

theorem takeToken_spec (taken : takeToken q = some r) :
    r.plMsgList = q.plMsgList ∧ r.iMaxMsgLimit = q.iMaxMsgLimit ∧
      r.sMsgSemProducer = q.sMsgSemProducer ∧ q.sMsgSemConsumer = r.sMsgSemConsumer + 1 := by
  obtain ⟨n, unit, rfl⟩ := Option.map_eq_some_iff.mp taken
  refine ⟨rfl, rfl, rfl, ?_⟩
  cases free : q.sMsgSemConsumer with
  | zero => rw [free] at unit; cases unit
  | succ m => rw [free] at unit; cases unit; rfl

theorem giveSlot_spec (q : MsgQueue) :
    (giveSlot q).plMsgList = q.plMsgList ∧ (giveSlot q).iMaxMsgLimit = q.iMaxMsgLimit ∧
      (giveSlot q).sMsgSemConsumer = q.sMsgSemConsumer ∧
      (0 < q.iMaxMsgLimit → (giveSlot q).sMsgSemProducer = q.sMsgSemProducer + 1) := by
  unfold giveSlot
  split
  · exact ⟨rfl, rfl, rfl, fun _ => rfl⟩
  · rename_i unlimited
    exact ⟨rfl, rfl, rfl, fun limited => absurd limited unlimited⟩

theorem pushMsgNode_cases (malloc appendNode : Bool) (q : MsgQueue) (pMsg : Message) :
    ((malloc = true ∧ appendNode = true) ∧ pushMsgNode malloc appendNode q pMsg =
        ({ q with plMsgList := q.plMsgList ++ [pMsg] }, true)) ∨
      (¬ (malloc = true ∧ appendNode = true) ∧ pushMsgNode malloc appendNode q pMsg = (q, false)) := by
  cases malloc with
  | false => exact .inr ⟨by simp, rfl⟩
  | true =>
    cases appendNode with
    | false => exact .inr ⟨by simp, rfl⟩
    | true => exact .inl ⟨⟨rfl, rfl⟩, rfl⟩

end

/-! ### The account -/

/-- The account with slots leaked: a send that failed to link its node kept its slot, but posted
for a node all the same; the receive that this wakes finds no node and gives the slot back. -/
structure Account (leaked : Nat) (s : System) : Prop where
  inOrder : s.accepted = s.delivered ++ s.pMsgQueue.plMsgList
  once : ∀ pMsg, s.returned.count pMsg + total (Place.holds pMsg) s.threads =
    s.delivered.count pMsg
  slots : 0 < s.pMsgQueue.iMaxMsgLimit →
    (s.pMsgQueue.sMsgSemProducer + s.pMsgQueue.plMsgList.length + total Place.slots s.threads
      + leaked : Int) = s.pMsgQueue.iMaxMsgLimit
  nodes : s.pMsgQueue.sMsgSemConsumer + total Place.nodes s.threads =
    s.pMsgQueue.plMsgList.length + leaked

/-- Without a leak the account is the whole property; with one the limit still holds. -/
theorem Account.sound {s : System} (h : Account 0 s) : Sound s where
  bounded limited := by
    have slots := h.slots limited
    omega
  inOrder := h.inOrder
  once := h.once
  slots limited := by
    have slots := h.slots limited
    omega

theorem account_start (iMaxMsgLimit : Int) (n : Nat) : Account 0 (start iMaxMsgLimit n) where
  inOrder := rfl
  once pMsg := by
    have held : total (Place.holds pMsg) (start iMaxMsgLimit n).threads = 0 := total_idle n rfl
    rw [held]
    rfl
  slots limited := by
    have held : total Place.slots (start iMaxMsgLimit n).threads = 0 := total_idle n rfl
    have free : (start iMaxMsgLimit n).pMsgQueue.sMsgSemProducer = iMaxMsgLimit.toNat :=
      if_pos limited
    have positive : 0 < iMaxMsgLimit := limited
    rw [held, free]
    simp only [start, createMsgQueue, List.length_nil]
    omega
  nodes := by
    have woken : total Place.nodes (start iMaxMsgLimit n).threads = 0 := total_idle n rfl
    rw [woken]
    rfl

section
variable {leaked now i : Nat} {s t : System} {p q : Place}

/-- One thread goes from `p` to `q`: its parts and the queue's change against each other. -/
theorem Account.move (h : Account leaked s) (here : s.threads[i]? = some p)
    (threads : t.threads = s.threads.set i q)
    (limit : t.pMsgQueue.iMaxMsgLimit = s.pMsgQueue.iMaxMsgLimit)
    (inOrder : t.accepted = t.delivered ++ t.pMsgQueue.plMsgList)
    (once : ∀ m, t.returned.count m + q.holds m + s.delivered.count m =
      s.returned.count m + p.holds m + t.delivered.count m)
    (slots : 0 < s.pMsgQueue.iMaxMsgLimit →
      t.pMsgQueue.sMsgSemProducer + t.pMsgQueue.plMsgList.length + q.slots + now =
        s.pMsgQueue.sMsgSemProducer + s.pMsgQueue.plMsgList.length + p.slots + leaked)
    (nodes : t.pMsgQueue.sMsgSemConsumer + q.nodes + s.pMsgQueue.plMsgList.length + leaked =
      s.pMsgQueue.sMsgSemConsumer + p.nodes + t.pMsgQueue.plMsgList.length + now) :
    Account now t where
  inOrder := inOrder
  once m := by
    have held := @total_set _ (Place.holds m) _ _ _ q here
    have before := h.once m
    have change := once m
    rw [threads]
    omega
  slots limited := by
    have held := @total_set _ Place.slots _ _ _ q here
    have before := h.slots (limit ▸ limited)
    have change := slots (limit ▸ limited)
    rw [threads, limit]
    omega
  nodes := by
    have woken := @total_set _ Place.nodes _ _ _ q here
    have before := h.nodes
    rw [threads]
    omega

theorem account_takeSlot {q : MsgQueue} {pMsg : Message} (h : Account leaked s)
    (here : s.threads[i]? = some .outside) (taken : takeSlot s.pMsgQueue = some q) :
    Account leaked { s with pMsgQueue := q, threads := s.threads.set i (.slot pMsg) } := by
  obtain ⟨list, limit, consumer, producer⟩ := takeSlot_spec taken
  refine h.move here rfl limit ?_ (fun _ => rfl) (fun limited => ?_) ?_
  · exact list ▸ h.inOrder
  · simp only [Place.slots, list, producer limited]
    omega
  · simp only [Place.nodes, list, consumer]

theorem account_push {malloc appendNode : Bool} {pMsg : Message} (h : Account leaked s)
    (here : s.threads[i]? = some (.slot pMsg)) :
    let r := pushMsgNode malloc appendNode s.pMsgQueue pMsg
    Account leaked { s with
      pMsgQueue := r.1
      threads := s.threads.set i (.pushed r.2)
      accepted := s.accepted ++ if r.2 then [pMsg] else [] } := by
  have order := h.inOrder
  rcases pushMsgNode_cases malloc appendNode s.pMsgQueue pMsg with ⟨-, linked⟩ | ⟨-, failed⟩
  · simp only [linked]
    refine h.move here rfl rfl ?_ (fun _ => rfl) (fun _ => ?_) ?_
    · simp [order]
    · simp only [Place.slots, List.length_append, List.length_singleton]
      omega
    · simp only [Place.nodes, List.length_append, List.length_singleton]
      omega
  · simp only [failed]
    refine h.move here rfl rfl ?_ (fun _ => rfl) (fun _ => rfl) rfl
    simpa using order

/-- The send ends: its node is accounted for by the semaphore, or there is none. -/
theorem account_sent {bPush : Bool} (h : Account leaked s)
    (here : s.threads[i]? = some (.pushed bPush)) :
    Account (leaked + if bPush then 0 else 1)
      { s with pMsgQueue := giveToken s.pMsgQueue, threads := s.threads.set i .outside } := by
  refine h.move here rfl rfl h.inOrder (fun _ => rfl) (fun _ => ?_) ?_
  · cases bPush with
    | true => rfl
    | false =>
      simp only [Place.slots, giveToken, Bool.false_eq_true, if_false]
      omega
  · cases bPush with
    | true =>
      simp only [Place.nodes, giveToken, semPost, if_true]
      omega
    | false =>
      simp only [Place.nodes, giveToken, semPost, Bool.false_eq_true, if_false]
      omega

theorem account_takeToken {q : MsgQueue} (h : Account leaked s)
    (here : s.threads[i]? = some .outside) (taken : takeToken s.pMsgQueue = some q) :
    Account leaked { s with pMsgQueue := q, threads := s.threads.set i .token } := by
  obtain ⟨list, limit, producer, consumer⟩ := takeToken_spec taken
  refine h.move here rfl limit ?_ (fun _ => rfl) (fun _ => ?_) ?_
  · exact list ▸ h.inOrder
  · simp only [Place.slots, list, producer]
  · simp only [Place.nodes, list, consumer]

/-- A receive unlinks the first node; where there is none, a slot had leaked. -/
theorem account_pop (h : Account leaked s) (here : s.threads[i]? = some .token) :
    let r := popMsgNode s.pMsgQueue
    ∃ now ≤ leaked, Account now { s with
      pMsgQueue := r.1
      threads := s.threads.set i (.popped r.2)
      delivered := s.delivered ++ r.2.toList } := by
  have order := h.inOrder
  cases list : s.pMsgQueue.plMsgList with
  | nil =>
    have woken : Place.nodes .token ≤ total Place.nodes s.threads := part_le_total here
    simp only [Place.nodes] at woken
    have nodes := h.nodes
    simp only [list, List.length_nil] at nodes
    simp only [popMsgNode, list]
    refine ⟨leaked - 1, Nat.sub_le _ _, h.move here rfl rfl ?_ (fun m => ?_) (fun _ => ?_) ?_⟩
    · simp [order, list]
    · simp [Place.holds]
    · simp only [Place.slots, list, List.length_nil]
      omega
    · simp only [Place.nodes, list, List.length_nil]
      omega
  | cons pMsg rest =>
    simp only [popMsgNode, list]
    refine ⟨leaked, Nat.le_refl _, h.move here rfl rfl ?_ (fun m => ?_) (fun _ => ?_) ?_⟩
    · simp [order, list]
    · simp only [Place.holds, Option.toList_some, List.count_append, List.count_singleton,
        beq_iff_eq]
      split <;> omega
    · simp only [Place.slots, list, List.length_cons]
      omega
    · simp only [Place.nodes, list, List.length_cons]
      omega

theorem account_got {bPop : Option Message} (h : Account leaked s)
    (here : s.threads[i]? = some (.popped bPop)) :
    Account leaked { s with
      pMsgQueue := giveSlot s.pMsgQueue
      threads := s.threads.set i .outside
      returned := s.returned ++ bPop.toList } := by
  obtain ⟨list, limit, consumer, producer⟩ := giveSlot_spec s.pMsgQueue
  refine h.move here rfl limit ?_ (fun m => ?_) (fun limited => ?_) ?_
  · exact list ▸ h.inOrder
  · cases bPop with
    | none => simp [Place.holds]
    | some pMsg =>
      simp only [Place.holds, Option.toList_some, List.count_append, List.count_singleton,
        beq_iff_eq]
      split <;> omega
  · simp only [Place.slots, list, producer limited]
    omega
  · simp only [Place.nodes, list, consumer]

end

/-- A step keeps the account; it leaks only where a send ends whose node was not linked. -/
theorem account_step {leaked : Nat} {s t : System} {i : Nat} {action : Action}
    (h : Account leaked s) (stepped : step s i action = some t) :
    ∃ now, Account now t ∧ (now ≤ leaked ∨ s.threads[i]? = some (.pushed false)) := by
  unfold step at stepped
  split at stepped
  · rename_i pMsg here
    obtain ⟨q, taken, rfl⟩ := Option.map_eq_some_iff.mp stepped
    exact ⟨leaked, account_takeSlot h here taken, .inl (Nat.le_refl _)⟩
  · rename_i pMsg here
    split at stepped
    · cases stepped
      exact ⟨leaked, h, .inl (Nat.le_refl _)⟩
    · rename_i q taken
      cases stepped
      exact ⟨leaked, account_takeSlot h here taken, .inl (Nat.le_refl _)⟩
  · rename_i pMsg malloc appendNode here
    cases stepped
    exact ⟨leaked, account_push h here, .inl (Nat.le_refl _)⟩
  · rename_i bPush here
    cases stepped
    cases bPush with
    | true => exact ⟨leaked, account_sent h here, .inl (Nat.le_refl _)⟩
    | false => exact ⟨leaked + 1, account_sent h here, .inr here⟩
  · rename_i here
    obtain ⟨q, taken, rfl⟩ := Option.map_eq_some_iff.mp stepped
    exact ⟨leaked, account_takeToken h here taken, .inl (Nat.le_refl _)⟩
  · rename_i here
    split at stepped
    · cases stepped
      exact ⟨leaked, h, .inl (Nat.le_refl _)⟩
    · rename_i q taken
      cases stepped
      exact ⟨leaked, account_takeToken h here taken, .inl (Nat.le_refl _)⟩
  · rename_i here
    cases stepped
    obtain ⟨now, less, account⟩ := account_pop h here
    exact ⟨now, account, .inl less⟩
  · rename_i bPop here
    cases stepped
    exact ⟨leaked, account_got h here, .inl (Nat.le_refl _)⟩
  · cases stepped

/-- No send failed to link its node and still has to post for it. -/
def Linked (s : System) : Prop := ∀ p ∈ s.threads, p ≠ .pushed false

theorem linked_step {s t : System} {i : Nat} {action : Action} (h : Linked s)
    (allocates : Allocates (i, action)) (stepped : step s i action = some t) : Linked t := by
  unfold step at stepped
  split at stepped
  · obtain ⟨q, -, rfl⟩ := Option.map_eq_some_iff.mp stepped
    exact forall_set h nofun
  · split at stepped
    · cases stepped
      exact h
    · cases stepped
      exact forall_set h nofun
  · rename_i pMsg malloc appendNode here
    obtain ⟨rfl, rfl⟩ := allocates
    cases stepped
    exact forall_set h nofun
  · cases stepped
    exact forall_set h nofun
  · obtain ⟨q, -, rfl⟩ := Option.map_eq_some_iff.mp stepped
    exact forall_set h nofun
  · split at stepped
    · cases stepped
      exact h
    · cases stepped
      exact forall_set h nofun
  · cases stepped
    exact forall_set h nofun
  · cases stepped
    exact forall_set h nofun
  · cases stepped

/-- Where no send has failed to link its node, the only one rejected is a try that finds no
slot, and it changes nothing. -/
theorem undone_of_linked {s t : System} {i : Nat} {action : Action} (h : Linked s)
    (stepped : step s i action = some t) (rejects : Rejects s i action) : Undone s i t := by
  cases action with
  | trySendMsg pMsg =>
    have full : takeSlot s.pMsgQueue = none := rejects
    cases here : s.threads[i]? with
    | none => simp [step, here] at stepped
    | some p =>
      cases p with
      | outside =>
        simp only [step, here, full] at stepped
        cases stepped
        refine ⟨rfl, fun _ p hp => ?_⟩
        obtain rfl := Option.some.inj (here.symm.trans hp)
        rfl
      | _ => simp [step, here] at stepped
  | sent => exact absurd rfl (h _ (List.mem_of_getElem? rejects))
  | _ => exact rejects.elim

/-- The step of one thread, as a transition of the whole. -/
def Steps (s : System) (e : Nat × Action) (t : System) : Prop := step s e.1 e.2 = some t

/-- Whatever fails, the list keeps to its limit, and each message linked is delivered once, in
order. -/
theorem queue_ordered (iMaxMsgLimit : Int) (n : Nat) {actions : List (Nat × Action)} {s : System}
    (run : Run Steps (start iMaxMsgLimit n) actions s) :
    (0 < s.pMsgQueue.iMaxMsgLimit →
      (s.pMsgQueue.plMsgList.length : Int) ≤ s.pMsgQueue.iMaxMsgLimit) ∧
    s.accepted = s.delivered ++ s.pMsgQueue.plMsgList ∧
    ∀ pMsg, s.returned.count pMsg + total (Place.holds pMsg) s.threads =
      s.delivered.count pMsg := by
  obtain ⟨leaked, h⟩ := run.invariant (fun s => ∃ leaked, Account leaked s)
    (fun s e t ⟨leaked, h⟩ stepped => by
      obtain ⟨now, h, -⟩ := account_step h stepped
      exact ⟨now, h⟩) ⟨0, account_start iMaxMsgLimit n⟩
  refine ⟨fun limited => ?_, h.inOrder, h.once⟩
  have slots := h.slots limited
  omega

/-- In every run in which the sends find memory. -/
theorem queue_sound (iMaxMsgLimit : Int) (n : Nat) {actions : List (Nat × Action)} {s : System}
    (run : Run (Guarded (fun _ e => Allocates e) Steps) (start iMaxMsgLimit n) actions s) :
    Sound s ∧ ∀ i action t, step s i action = some t → Rejects s i action → Undone s i t := by
  have keeps : ∀ s e t, Account 0 s ∧ Linked s → Guarded (fun _ e => Allocates e) Steps s e t →
      Account 0 t ∧ Linked t := by
    rintro s ⟨i, action⟩ t ⟨h, linked⟩ ⟨allocates, stepped⟩
    refine ⟨?_, linked_step linked allocates stepped⟩
    obtain ⟨now, account, less | failed⟩ := account_step h stepped
    · obtain rfl := Nat.le_zero.mp less
      exact account
    · exact absurd rfl (linked _ (List.mem_of_getElem? failed))
  have linked : Linked (start iMaxMsgLimit n) := by
    intro p hp
    obtain rfl := List.eq_of_mem_replicate hp
    nofun
  obtain ⟨account, linked⟩ := run.invariant _ keeps ⟨account_start iMaxMsgLimit n, linked⟩
  exact ⟨account.sound, fun i action t => undone_of_linked linked⟩

/-- Two threads on a queue of one slot: a send, a receive, and a try that is refused. -/
theorem queue_sound_two : ∃ s : System,
    Run (Guarded (fun _ e => Allocates e) Steps) (start 1 2)
      [(0, .sendMsg ⟨1, 7⟩), (0, .push true true), (0, .sent), (1, .getMsg), (1, .pop)] s ∧
      Sound s ∧ ∀ i action t, step s i action = some t → Rejects s i action → Undone s i t := by
  have run : Run (Guarded (fun _ e => Allocates e) Steps) (start 1 2)
      [(0, .sendMsg ⟨1, 7⟩), (0, .push true true), (0, .sent), (1, .getMsg), (1, .pop)] _ :=
    .cons ⟨trivial, rfl⟩ <| .cons ⟨⟨rfl, rfl⟩, rfl⟩ <| .cons ⟨trivial, rfl⟩ <|
      .cons ⟨trivial, rfl⟩ <| .cons ⟨trivial, rfl⟩ <| .nil _
  exact ⟨_, run, queue_sound 1 2 run⟩

/-- A send whose malloc fails keeps the only slot. -/
theorem slot_leaks : ¬ ∀ (actions : List (Nat × Action)) (s : System),
    Run Steps (start 1 1) actions s → Sound s := by
  intro sound
  have run : Run Steps (start 1 1)
      [(0, .sendMsg ⟨1, 7⟩), (0, .push false true), (0, .sent)] _ :=
    .cons rfl <| .cons rfl <| .cons rfl <| .nil _
  have slots := (sound _ _ run).slots (by decide)
  revert slots
  decide

end Rovio.Msg
