import Mathlib
import Rovio.Kit.Runs
import Rovio.Kit.Ring

/-! The period thread and its tasks. A step is what one thread does under `g_mPrdLock`, or one
pass of a loop of `prdRun`; the places of `prdRun` where the lock is free are those where other
threads, and the callback that it runs, add and delete tasks. -/
namespace Rovio.Period
open Kit

/-- Where links are kept: in the two global heads, in the head on the stack of `prdRun` and in
the tasks. -/
inductive Node (H : Type) where
  | lPrdTaskHeader
  | lPrdTaskAdd
  | list
  | task (pTask : H)
  deriving DecidableEq

section
variable {H : Type} [DecidableEq H]

def listInit (m : Links (Node H)) (pList : Node H) : Links (Node H) := m.init pList

def listConnect (m : Links (Node H)) (pList1 pList2 : Node H) : Links (Node H) :=
  m.connect pList1 pList2

def listGetNext (m : Links (Node H)) (pList : Node H) : Option (Node H) :=
  if m.pNext pList = pList then none else some (m.pNext pList)

def listAttach (m : Links (Node H)) (pNode1 pNode2 : Node H) : Links (Node H) :=
  listConnect m pNode1 pNode2

/-- `listDisconnect` does what `listConnect` does. -/
def listDetach (m : Links (Node H)) (pNode : Node H) : Links (Node H) :=
  listConnect m pNode (m.pNext pNode)

end

variable {H F P : Type} [DecidableEq H]

/-- PRD_TASK_T without its links. -/
structure PrdTask (F P : Type) where
  fnTask : F
  pArg : P
  tTimeout : UInt64
  tRemain : UInt64

/-- Where `prdRun` stands: at the head of its loop, in the search for the least remaining time,
in the wait, in the loop over the tasks, between the unlock and a call, in a callback, in the
two loops that fill the list again, or behind its loop. -/
inductive Place (H : Type) where
  | checking
  | scanning (pList : Node H) (tMinRemain : UInt64)
  | waiting (tUntil : UInt64)
  | moving
  | calling (pTask : H)
  | running (pTask : H)
  | restoring
  | collecting
  | ended

/-- Whether `prdRun` has released the lock. -/
def Place.free : Place H → Bool
  | .waiting _ | .calling _ | .running _ | .ended => true
  | _ => false

structure Memory (H F P : Type) where
  links : Links (Node H)
  tasks : H → PrdTask F P

/-- The memory, the variables of `prdRun`, and what happened: the tasks that are registered and
those that a thread other than the period thread deleted last; and of the round the memory at its
start, the time elapsed then, the callbacks called since and the tasks deleted. -/
structure System (H F P : Type) where
  memory : Memory H F P
  g_bPrdExit : Bool
  place : Place H
  tPeriod : UInt64
  tLastCheck : UInt64
  registered : H → Bool
  revoked : H → Bool
  atWake : Memory H F P
  roundPeriod : UInt64
  called : List (H × F × P)
  deleted : H → Bool

def Memory.set (memory : Memory H F P) (pTask : H) (task : PrdTask F P) : Memory H F P :=
  { memory with tasks := Function.update memory.tasks pTask task }

def Memory.moveTo (memory : Memory H F P) (pList target : Node H) : Memory H F P :=
  { memory with links := listAttach (listDetach memory.links pList) pList target }

def PrdTask.clamp (pTask : PrdTask F P) : PrdTask F P :=
  if pTask.tRemain > pTask.tTimeout then { pTask with tRemain := pTask.tTimeout } else pTask

/-- The pass of the search over one task. -/
def PrdTask.elapse (pTask : PrdTask F P) (tPeriod : UInt64) : PrdTask F P :=
  let pTask := pTask.clamp
  if pTask.tRemain ≤ tPeriod then { pTask with tRemain := 0 }
  else { pTask with tRemain := pTask.tRemain - tPeriod }

/-- The next step of `prdRun`, which reads the clock where it does; `none` where it has ended,
or follows a link to a head as if to a task. -/
def prdRun (s : System H F P) (tCurrent : UInt64) : Option (System H F P) :=
  match s.place with
  | .checking =>
    if s.g_bPrdExit then some { s with place := .ended }
    else some { s with
      tPeriod := tCurrent - s.tLastCheck
      tLastCheck := tCurrent
      place := .scanning (s.memory.links.pNext .lPrdTaskHeader) (-1) }
  | .scanning .lPrdTaskHeader tMinRemain =>
    let tMinRemain := if tMinRemain > 10000 then 10000 else tMinRemain
    some { s with place := .waiting (tMinRemain + s.tLastCheck) }
  | .scanning (.task h) tMinRemain =>
    let pTask := (s.memory.tasks h).elapse s.tPeriod
    some { s with
      memory := s.memory.set h pTask
      place := .scanning (s.memory.links.pNext (.task h))
        (if tMinRemain > pTask.tRemain then pTask.tRemain else tMinRemain) }
  | .waiting _ =>
    some { s with
      tPeriod := tCurrent - s.tLastCheck
      tLastCheck := tCurrent
      memory := { s.memory with links := listInit s.memory.links .list }
      place := .moving
      atWake := s.memory
      roundPeriod := tCurrent - s.tLastCheck
      called := []
      deleted := fun _ => false }
  | .moving =>
    match listGetNext s.memory.links .lPrdTaskHeader with
    | none => some { s with place := .restoring }
    | some (.task h) =>
      let memory := s.memory.moveTo (.task h) .list
      let pTask := (memory.tasks h).clamp
      if pTask.tRemain ≤ s.tPeriod then
        some { s with memory := memory.set h pTask, place := .calling h }
      else
        some { s with
          memory := memory.set h { pTask with tRemain := pTask.tRemain - s.tPeriod } }
    | some _ => none
  | .calling h =>
    let pTask := s.memory.tasks h
    some { s with place := .running h, called := s.called ++ [(h, pTask.fnTask, pTask.pArg)] }
  | .running h =>
    let pTask := s.memory.tasks h
    some { s with
      memory := s.memory.set h { pTask with tRemain := pTask.tTimeout }
      place := .moving }
  | .restoring =>
    match listGetNext s.memory.links .list with
    | none => some { s with place := .collecting }
    | some pList => some { s with memory := s.memory.moveTo pList .lPrdTaskHeader }
  | .collecting =>
    match listGetNext s.memory.links .lPrdTaskAdd with
    | none => some { s with place := .checking }
    | some pList => some { s with memory := s.memory.moveTo pList .lPrdTaskHeader }
  | _ => none

def prdAddTask (s : System H F P) (pHandle : H) (fnTask : Option F) (tTimeout : UInt64) (pArg : P) :
    System H F P :=
  match fnTask with
  | none => s
  | some fnTask =>
    let links := listInit s.memory.links (.task pHandle)
    { s with
      memory := { s.memory.set pHandle ⟨fnTask, pArg, tTimeout, -1⟩ with
        links := listAttach links (.task pHandle) .lPrdTaskAdd }
      registered := Function.update s.registered pHandle true
      revoked := Function.update s.revoked pHandle false }

/-- The deletion, noted as revoking where it is another thread's. -/
def prdDelTask (s : System H F P) (other : Bool) (pHandle : H) : System H F P :=
  { s with
    memory := { s.memory with links := listDetach s.memory.links (.task pHandle) }
    registered := Function.update s.registered pHandle false
    revoked := if other then Function.update s.revoked pHandle true else s.revoked
    deleted := Function.update s.deleted pHandle true }

/-- A step of `prdRun`, or what another thread or (`other` is false) the callback does. -/
inductive Action (H F P : Type) where
  | prdRun (tCurrent : UInt64)
  | prdAddTask (other : Bool) (pHandle : H) (fnTask : Option F) (tTimeout : UInt64) (pArg : P)
  | prdDelTask (other : Bool) (pHandle : H)
  | prdExit

/-- A thread other than the period thread acts where the lock is free, the callback where it
runs. -/
def Place.admits (other : Bool) : Place H → Bool
  | .running _ => true
  | place => other && place.free

/-- Handles are added that are not registered, and deleted that are. -/
def step (s : System H F P) : Action H F P → Option (System H F P)
  | .prdRun tCurrent => prdRun s tCurrent
  | .prdAddTask other pHandle fnTask tTimeout pArg =>
    if s.place.admits other ∧ s.registered pHandle = false then
      some (prdAddTask s pHandle fnTask tTimeout pArg)
    else none
  | .prdDelTask other pHandle =>
    if s.place.admits other ∧ s.registered pHandle = true then some (prdDelTask s other pHandle)
    else none
  | .prdExit => if s.place.admits true then some { s with g_bPrdExit := true } else none

/-- After `prdInit`, when the thread has taken the lock. -/
def start (links : Links (Node H)) (tasks : H → PrdTask F P) (tLastCheck : UInt64) :
    System H F P where
  memory := ⟨listInit (listInit links .lPrdTaskHeader) .lPrdTaskAdd, tasks⟩
  g_bPrdExit := false
  place := .checking
  tPeriod := 0
  tLastCheck := tLastCheck
  registered := fun _ => false
  revoked := fun _ => false
  atWake := ⟨listInit (listInit links .lPrdTaskHeader) .lPrdTaskAdd, tasks⟩
  roundPeriod := 0
  called := []
  deleted := fun _ => false

end Rovio.Period
