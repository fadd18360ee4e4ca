import Rovio.Period.Passes
import Rovio.Period.Integrity

/-! The period thread and the clock. The time in which callbacks run is charged to the tasks that
have returned in it, and to those added in it. -/
namespace Rovio.Period
open Kit

variable {H F P : Type} [DecidableEq H]

/-- A call: since when its task has waited, for how long it is to wait, and the time of the call. -/
structure Call (H : Type) where
  pTask : H
  since : UInt64
  tTimeout : UInt64
  time : UInt64

def Call.early (call : Call H) : Prop :=
  call.time.toNat < call.since.toNat + call.tTimeout.toNat

instance (call : Call H) : Decidable call.early := inferInstanceAs (Decidable (_ < _))

/-- What happened by the clock: for each task the time at which it was added or its last call
returned, whichever is later, and the calls. -/
structure Timed (H F P : Type) where
  system : System H F P
  now : UInt64
  since : H → UInt64
  calls : List (Call H)

def Action.readAt (time : UInt64) : Action H F P → Action H F P
  | .prdRun _ => .prdRun time
  | action => action

def Timed.sinceAfter (s : Timed H F P) (time : UInt64) : Action H F P → H → UInt64
  | .prdRun _ =>
    match s.system.place with
    | .running h => Function.update s.since h time
    | _ => s.since
  | .prdAddTask _ pHandle (some _) _ _ => Function.update s.since pHandle time
  | _ => s.since

def Timed.callsAfter (s : Timed H F P) (time : UInt64) : Action H F P → List (Call H)
  | .prdRun _ =>
    match s.system.place with
    | .calling h =>
      s.calls ++ [⟨h, s.since h, (s.system.memory.tasks h).tTimeout, time⟩]
    | _ => s.calls
  | _ => s.calls

/-- A step at a time that is not before the last one. -/
def tick (s : Timed H F P) (time : UInt64) (action : Action H F P) : Option (Timed H F P) :=
  if s.now ≤ time then
    (step s.system (action.readAt time)).map fun system =>
      ⟨system, time, s.sinceAfter time action, s.callsAfter time action⟩
  else none

def Ticks (s : Timed H F P) (e : UInt64 × Action H F P) (t : Timed H F P) : Prop :=
  tick s e.1 e.2 = some t

def started (links : Links (Node H)) (tasks : H → PrdTask F P) (tLastCheck : UInt64) :
    Timed H F P :=
  ⟨start links tasks tLastCheck, tLastCheck, fun _ => tLastCheck, []⟩

/-- No tick passes from the end of the wait to the return of a callback, nor to an addition before
the callbacks have run; and the task that is about to be called is not added anew. Tasks without a
timeout are exempt. -/
def AtOnce (s : Timed H F P) : UInt64 × Action H F P → Prop
  | (time, .prdRun _) => ∀ h, s.system.place = .running h →
      (s.system.memory.tasks h).tTimeout = 0 ∨ time = s.system.tLastCheck
  | (time, .prdAddTask _ pHandle _ tTimeout _) => s.system.place.busy = true →
      tTimeout = 0 ∨ time = s.system.tLastCheck ∧ s.system.place ≠ .calling pHandle
  | _ => True

/-! ### Remaining times -/

section
variable {task : PrdTask F P} {since period : UInt64} {n m : Nat}

/-- Counted from `n`, the remaining time lasts until the task may be called. -/
def Covers (task : PrdTask F P) (since : UInt64) (n : Nat) : Prop :=
  task.tTimeout ≠ 0 → since.toNat + task.tTimeout.toNat ≤ n + task.clamp.tRemain.toNat

theorem Covers.mono (covers : Covers task since n) (le : n ≤ m) : Covers task since m :=
  fun some => (covers some).trans (Nat.add_le_add_right le _)

theorem clamp_tTimeout (task : PrdTask F P) : task.clamp.tTimeout = task.tTimeout := by
  unfold PrdTask.clamp
  split <;> rfl

theorem clamp_le (task : PrdTask F P) : task.clamp.tRemain ≤ task.tTimeout := by
  unfold PrdTask.clamp
  split
  · exact UInt64.le_refl _
  · rename_i less
    exact UInt64.not_lt.mp less

theorem clamp_of_le (le : task.tRemain ≤ task.tTimeout) : task.clamp = task :=
  if_neg (UInt64.not_lt.mpr le)

theorem Covers.clamp (covers : Covers task since n) : Covers task.clamp since n := by
  have le : task.clamp.tRemain ≤ task.clamp.tTimeout := clamp_tTimeout task ▸ clamp_le task
  unfold Covers at covers ⊢
  rw [clamp_of_le le, clamp_tTimeout]
  exact covers

/-- A part of the remaining time is taken off when as much has passed. -/
theorem Covers.charge (covers : Covers task since n) (left : ¬ task.clamp.tRemain ≤ period) :
    Covers { task.clamp with tRemain := task.clamp.tRemain - period } since
      (n + period.toNat) := by
  have more : period ≤ task.clamp.tRemain := UInt64.le_of_lt (UInt64.not_le.mp left)
  have size := UInt64.toNat_sub_of_le _ _ more
  have less : task.clamp.tRemain - period ≤ task.clamp.tTimeout := by
    have bound := UInt64.le_iff_toNat_le.mp (clamp_le task)
    rw [UInt64.le_iff_toNat_le, size, clamp_tTimeout]
    omega
  have bound := UInt64.le_iff_toNat_le.mp more
  intro some
  have covered := covers (clamp_tTimeout task ▸ some)
  have same : ({ task.clamp with tRemain := task.clamp.tRemain - period } : PrdTask F P).clamp = _ :=
    clamp_of_le less
  rw [same, clamp_tTimeout]
  show since.toNat + task.tTimeout.toNat ≤ n + period.toNat + (task.clamp.tRemain - period).toNat
  omega

/-- The task may be called when its remaining time has passed. -/
theorem Covers.due (covers : Covers task since n) (spent : task.clamp.tRemain ≤ period)
    (past : since.toNat ≤ m) (now : n + period.toNat ≤ m) :
    since.toNat + task.tTimeout.toNat ≤ m := by
  have bound := UInt64.le_iff_toNat_le.mp spent
  by_cases some : task.tTimeout = 0
  · rw [some]
    exact past
  · have covered := covers some
    omega

theorem Covers.elapse (period : UInt64) (covers : Covers task since n) :
    Covers (task.elapse period) since (n + period.toNat) := by
  unfold PrdTask.elapse
  dsimp only
  split
  · rename_i spent
    intro some
    have covered := covers (clamp_tTimeout task ▸ some)
    have bound := UInt64.le_iff_toNat_le.mp spent
    show since.toNat + task.clamp.tTimeout.toNat ≤ _
    rw [clamp_tTimeout]
    omega
  · rename_i left
    exact covers.charge left

theorem le_last (t : UInt64) : t ≤ -1 := by
  have last : (-1 : UInt64).toNat = 18446744073709551615 := by decide
  have bound := t.toNat_lt
  rw [UInt64.le_iff_toNat_le, last]
  omega

/-- A task that waits for its whole timeout. -/
theorem covers_whole (whole : task.tTimeout ≤ task.tRemain)
    (since_ : task.tTimeout = 0 ∨ since.toNat ≤ n) : Covers task since n := by
  intro some
  have clamp : task.clamp.tRemain = task.tTimeout := by
    unfold PrdTask.clamp
    split
    · rfl
    · rename_i less
      exact UInt64.le_antisymm (UInt64.not_lt.mp less) whole
  rw [clamp]
  exact Nat.add_le_add_right (since_.resolve_left some) _

end

/-! ### The account -/

/-- `Covers` for the tasks of a list. -/
def Covered (tasks : H → PrdTask F P) (since : H → UInt64) (n : Nat) (l : List H) : Prop :=
  ∀ h ∈ l, Covers (tasks h) (since h) n

section
variable {tasks : H → PrdTask F P} {since : H → UInt64} {n m : Nat} {l r : List H} {h : H}
  {task : PrdTask F P} {time : UInt64}

omit [DecidableEq H] in
theorem Covered.mono (covered : Covered tasks since n l) (le : n ≤ m) : Covered tasks since m l :=
  fun h mem => (covered h mem).mono le

omit [DecidableEq H] in
theorem Covered.sub (covered : Covered tasks since n l) (sub : r ⊆ l) : Covered tasks since n r :=
  fun h mem => covered h (sub mem)

omit [DecidableEq H] in
theorem covered_append :
    Covered tasks since n (l ++ r) ↔ Covered tasks since n l ∧ Covered tasks since n r :=
  List.forall_mem_append

omit [DecidableEq H] in
theorem covered_single : Covered tasks since n [h] ↔ Covers (tasks h) (since h) n := by
  simp [Covered]

/-- One record is replaced by another that covers as much. -/
theorem Covered.set (covered : Covered tasks since n l) (new : Covers task (since h) n) :
    Covered (Function.update tasks h task) since n l := by
  intro k mem
  by_cases same : k = h
  · subst same
    rwa [Function.update_self]
  · rw [Function.update_of_ne same]
    exact covered k mem

theorem Covered.restart (covered : Covered tasks since n l) (new : Covers task time n) :
    Covered (Function.update tasks h task) (Function.update since h time) n l := by
  intro k mem
  by_cases same : k = h
  · subst same
    rwa [Function.update_self, Function.update_self]
  · rw [Function.update_of_ne same, Function.update_of_ne same]
    exact covered k mem

/-- A task comes to the list. -/
theorem Covered.add (covered : Covered tasks since n l) (new : Covers task time n) :
    Covered (Function.update tasks h task) (Function.update since h time) n (l ++ [h]) := by
  refine covered_append.mpr ⟨covered.restart new, covered_single.mpr ?_⟩
  rwa [Function.update_self, Function.update_self]

theorem Covered.set_other (covered : Covered tasks since n l) (other : h ∉ l) :
    Covered (Function.update tasks h task) since n l := by
  intro k mem
  have apart : k ≠ h := fun same => other (same ▸ mem)
  rw [Function.update_of_ne apart]
  exact covered k mem

theorem Covered.restart_other (covered : Covered tasks since n l) (other : h ∉ l) :
    Covered (Function.update tasks h task) (Function.update since h time) n l := by
  intro k mem
  have apart : k ≠ h := fun same => other (same ▸ mem)
  rw [Function.update_of_ne apart, Function.update_of_ne apart]
  exact covered k mem

end

/-- What the remaining times count from: for the tasks that a loop has still to visit the measure
before the last one, for those added during the wait the present, for the others the last
measure. -/
def Timed.covered (s : Timed H F P) (lists : Node H → List H) : Prop :=
  let covered := Covered s.system.memory.tasks s.since
  let last := s.system.tLastCheck.toNat
  let before := last - s.system.tPeriod.toNat
  match s.system.place with
  | .checking | .collecting => covered last (lists .lPrdTaskHeader) ∧
    covered last (lists .lPrdTaskAdd)
  | .scanning pList _ =>
    covered last (lists .lPrdTaskAdd) ∧ ∃ seen rest, lists .lPrdTaskHeader = seen ++ rest ∧
      pList = (rest.map Node.task).headD .lPrdTaskHeader ∧ covered last seen ∧ covered before rest
  | .waiting _ =>
    covered last (lists .lPrdTaskHeader) ∧ covered s.now.toNat (lists .lPrdTaskAdd)
  | .moving => covered before (lists .lPrdTaskHeader) ∧
    covered last (lists .list) ∧ covered last (lists .lPrdTaskAdd)
  | .calling h => (covered before (lists .lPrdTaskHeader) ∧
    covered last (lists .list) ∧ covered last (lists .lPrdTaskAdd)) ∧ h ∉ lists .lPrdTaskHeader ∧
    (s.since h).toNat + (s.system.memory.tasks h).tTimeout.toNat ≤ s.now.toNat
  | .running h => (covered before (lists .lPrdTaskHeader) ∧
    covered last (lists .list) ∧ covered last (lists .lPrdTaskAdd)) ∧ h ∉ lists .lPrdTaskHeader
  | .restoring => covered last (lists .lPrdTaskHeader) ∧
    covered last (lists .list) ∧ covered last (lists .lPrdTaskAdd)
  | .ended => True

structure Account (s : Timed H F P) (lists : Node H → List H) : Prop where
  clock : s.system.tLastCheck.toNat ≤ s.now.toNat
  period : s.system.tPeriod.toNat ≤ s.system.tLastCheck.toNat
  past : ∀ h, (s.since h).toNat ≤ s.now.toNat
  covered : s.covered lists
  calls : ∀ call ∈ s.calls, ¬ call.early

section
variable {s : Timed H F P} {system : System H F P} {lists now : Node H → List H} {time : UInt64}

omit [DecidableEq H] in
/-- A step that does not measure. -/
theorem Account.step (account : Account s lists) (le : s.now ≤ time)
    (last : system.tLastCheck = s.system.tLastCheck) (period : system.tPeriod = s.system.tPeriod)
    (covered : Timed.covered ⟨system, time, s.since, s.calls⟩ now) :
    Account ⟨system, time, s.since, s.calls⟩ now := by
  have later := UInt64.le_iff_toNat_le.mp le
  refine ⟨?_, ?_, fun h => (account.past h).trans later, covered, account.calls⟩
  · rw [last]
    exact account.clock.trans later
  · rw [last, period]
    exact account.period

omit [DecidableEq H] in
theorem Account.elapsed (account : Account s lists) (le : s.now ≤ time) :
    (time - s.system.tLastCheck).toNat = time.toNat - s.system.tLastCheck.toNat := by
  have later := UInt64.le_iff_toNat_le.mp le
  exact UInt64.toNat_sub_of_le _ _ (UInt64.le_iff_toNat_le.mpr (account.clock.trans later))

omit [DecidableEq H] in
/-- A step that measures. -/
theorem Account.measure (account : Account s lists) (le : s.now ≤ time)
    (last : system.tLastCheck = time) (period : system.tPeriod = time - s.system.tLastCheck)
    (covered : Timed.covered ⟨system, time, s.since, s.calls⟩ now) :
    Account ⟨system, time, s.since, s.calls⟩ now := by
  have later := UInt64.le_iff_toNat_le.mp le
  refine ⟨Nat.le_of_eq (by rw [last]), ?_, fun h => (account.past h).trans later, covered,
    account.calls⟩
  rw [last, period, account.elapsed le]
  exact Nat.sub_le _ _

omit [DecidableEq H] in
/-- Time passes, and nothing else happens. -/
theorem Account.wait (account : Account s lists) (le : s.now ≤ time) :
    Account { s with now := time } lists := by
  have later := UInt64.le_iff_toNat_le.mp le
  refine ⟨account.clock.trans later, account.period, fun h => (account.past h).trans later, ?_,
    account.calls⟩
  have covered := account.covered
  unfold Timed.covered at covered ⊢
  cases here : s.system.place with
  | waiting tUntil =>
    simp only [here] at covered ⊢
    exact ⟨covered.1, covered.2.mono later⟩
  | calling h =>
    simp only [here] at covered ⊢
    exact ⟨covered.1, covered.2.1, covered.2.2.trans later⟩
  | ended => trivial
  | _ =>
    simp only [here] at covered ⊢
    exact covered

/-- Each step of `prdRun` keeps the account, if callbacks return at once. -/
theorem account_pass {clock : UInt64} (lists_ : Lists s.system lists) (account : Account s lists)
    (le : s.now ≤ time) (atOnce : AtOnce s (time, .prdRun clock))
    (pass : Pass s.system lists time system now) :
    Account ⟨system, time, s.sinceAfter time (.prdRun clock), s.callsAfter time (.prdRun clock)⟩
      now := by
  have covered := account.covered
  have later := UInt64.le_iff_toNat_le.mp le
  have elapsed := account.elapsed le
  have last := account.clock
  have period := account.period
  have nodup := lists_.shelved.nodup (header_mem _)
  have sooner : s.system.tLastCheck.toNat ≤ time.toNat := last.trans later
  have measured : time.toNat - (time - s.system.tLastCheck).toNat = s.system.tLastCheck.toNat := by
    omega
  have whole : s.system.tLastCheck.toNat - s.system.tPeriod.toNat + s.system.tPeriod.toNat =
    s.system.tLastCheck.toNat := Nat.sub_add_cancel period
  have since : s.system.tLastCheck.toNat - s.system.tPeriod.toNat ≤ s.system.tLastCheck.toNat :=
    Nat.sub_le _ _
  unfold Timed.covered at covered
  unfold Timed.sinceAfter Timed.callsAfter
  cases pass with
  | exit here =>
    rw [here]
    exact account.step le rfl rfl trivial
  | check here =>
    simp only [here] at covered ⊢
    have next := (lists_.shelved.ring (header_mem _)).next
    refine account.measure le rfl rfl
      ⟨covered.2.mono sooner, [], _, rfl, next, (by rintro _ ⟨⟩), ?_⟩
    simp only [measured]
    exact covered.1
  | @scan h least less here inside =>
    simp only [here] at covered ⊢
    obtain ⟨added, seen, rest, split, first, done, toDo⟩ := covered
    cases rest with
    | nil => cases first
    | cons k rest =>
      cases first
      obtain ⟨mine, toDo⟩ := List.forall_mem_cons.mp toDo
      have ring := lists_.shelved.ring (header_mem _)
      rw [split, List.map_append, List.map_cons] at ring
      have charged := mine.elapse s.system.tPeriod
      rw [whole] at charged
      rw [split] at nodup
      have fresh : h ∉ rest := (List.nodup_cons.mp (List.nodup_append.mp nodup).2.1).1
      have now : Covered (Function.update s.system.memory.tasks h _) s.since _ [h] :=
        covered_single.mpr (by rw [Function.update_self]; exact charged)
      exact account.step le rfl rfl ⟨added.set charged, seen ++ [h], rest, by simp [split],
        ring.next_at, covered_append.mpr ⟨done.set charged, now⟩, Covered.set_other toDo fresh⟩
  | scanned here =>
    simp only [here] at covered ⊢
    obtain ⟨added, seen, rest, split, first, done, toDo⟩ := covered
    cases rest with
    | nil =>
      rw [List.append_nil] at split
      exact account.step le rfl rfl ⟨split ▸ done, added.mono sooner⟩
    | cons k rest => cases first
  | wake here =>
    simp only [here] at covered ⊢
    have header : Function.update lists .list [] .lPrdTaskHeader = lists .lPrdTaskHeader :=
      Function.update_of_ne (by rintro ⟨⟩) ..
    have add : Function.update lists .list [] .lPrdTaskAdd = lists .lPrdTaskAdd :=
      Function.update_of_ne (by rintro ⟨⟩) ..
    refine account.measure le rfl rfl ⟨?_, ?_, ?_⟩
    · simp only [measured, header]
      exact covered.1
    · rw [Function.update_self]
      rintro _ ⟨⟩
    · simp only [add]
      exact covered.2.mono later
  | @due h rest here active spent =>
    simp only [here, active] at covered ⊢
    obtain ⟨header, list, add⟩ := covered
    obtain ⟨mine, toDo⟩ := List.forall_mem_cons.mp header
    have fresh : h ∉ rest := (List.nodup_cons.mp (active ▸ nodup)).1
    have clamped := (mine.mono since).clamp
    have single : Covered (Function.update s.system.memory.tasks h _) s.since _ [h] :=
      covered_single.mpr (by rw [Function.update_self]; exact clamped)
    refine account.step le rfl rfl ⟨⟨?_, ?_, ?_⟩, ?_, ?_⟩
    · rw [relist_source (by rintro ⟨⟩)]
      exact Covered.set_other toDo fresh
    · rw [relist_target]
      exact covered_append.mpr ⟨list.set clamped, single⟩
    · rw [relist_other (by rintro ⟨⟩) (by rintro ⟨⟩)]
      exact add.set clamped
    · rwa [relist_source (by rintro ⟨⟩)]
    · have due := mine.due spent ((account.past h).trans later) (by omega)
      simpa [Memory.set, clamp_tTimeout] using due
  | @charge h rest here active left =>
    simp only [here, active] at covered ⊢
    obtain ⟨header, list, add⟩ := covered
    obtain ⟨mine, toDo⟩ := List.forall_mem_cons.mp header
    have fresh : h ∉ rest := (List.nodup_cons.mp (active ▸ nodup)).1
    have charged := mine.charge left
    rw [whole] at charged
    have single : Covered (Function.update s.system.memory.tasks h _) s.since _ [h] :=
      covered_single.mpr (by rw [Function.update_self]; exact charged)
    refine account.step le rfl rfl ⟨?_, ?_, ?_⟩
    · rw [relist_source (by rintro ⟨⟩)]
      exact Covered.set_other toDo fresh
    · rw [relist_target]
      exact covered_append.mpr ⟨list.set charged, single⟩
    · rw [relist_other (by rintro ⟨⟩) (by rintro ⟨⟩)]
      exact add.set charged
  | moved here done =>
    simp only [here, done] at covered ⊢
    refine account.step le rfl rfl ⟨?_, covered.2⟩
    rw [done]
    rintro _ ⟨⟩
  | @call h here =>
    simp only [here] at covered ⊢
    obtain ⟨counted, other, due⟩ := covered
    have next : Account ⟨{ s.system with
      place := .running h
      called := s.system.called ++
        [(h, (s.system.memory.tasks h).fnTask, (s.system.memory.tasks h).pArg)] },
      time, s.since, s.calls⟩ lists := account.step le rfl rfl ⟨counted, other⟩
    refine ⟨next.clock, next.period, next.past, next.covered, fun call made => ?_⟩
    rcases List.mem_append.mp made with before | called
    · exact account.calls call before
    · cases List.mem_singleton.mp called
      exact Nat.not_lt.mpr (due.trans later)
  | @back h here =>
    simp only [here] at covered ⊢
    obtain ⟨⟨header, list, add⟩, other⟩ := covered
    have fresh : Covers { s.system.memory.tasks h with
        tRemain := (s.system.memory.tasks h).tTimeout } time s.system.tLastCheck.toNat := by
      refine covers_whole (UInt64.le_refl _) ((atOnce h here).imp_right fun same => ?_)
      exact Nat.le_of_eq (congrArg UInt64.toNat same)
    refine ⟨sooner, period, fun k => ?_,
      ⟨Covered.restart_other header other, list.restart fresh, add.restart fresh⟩, account.calls⟩
    by_cases same : k = h
    · subst same
      exact Nat.le_of_eq (congrArg UInt64.toNat (Function.update_self ..))
    · exact (Nat.le_of_eq (congrArg UInt64.toNat (Function.update_of_ne same ..))).trans
        ((account.past k).trans later)
  | @restore h rest here done =>
    simp only [here, done] at covered ⊢
    obtain ⟨header, list, add⟩ := covered
    obtain ⟨mine, toDo⟩ := List.forall_mem_cons.mp list
    refine account.step le rfl rfl ⟨?_, ?_, ?_⟩
    · rw [relist_target]
      exact covered_append.mpr ⟨header, covered_single.mpr mine⟩
    · rw [relist_source (by rintro ⟨⟩)]
      exact toDo
    · rw [relist_other (by rintro ⟨⟩) (by rintro ⟨⟩)]
      exact add
  | restored here done =>
    simp only [here, done] at covered ⊢
    exact account.step le rfl rfl ⟨covered.1, covered.2.2⟩
  | @collect h rest here added =>
    simp only [here, added] at covered ⊢
    obtain ⟨header, add⟩ := covered
    obtain ⟨mine, toDo⟩ := List.forall_mem_cons.mp add
    refine account.step le rfl rfl ⟨?_, ?_⟩
    · rw [relist_target]
      exact covered_append.mpr ⟨header, covered_single.mpr mine⟩
    · rw [relist_source (by rintro ⟨⟩)]
      exact toDo
  | collected here added =>
    simp only [here, added] at covered ⊢
    refine account.step le rfl rfl ⟨covered.1, ?_⟩
    rw [added]
    rintro _ ⟨⟩

/-- A task is added, during the wait or before a tick of the callbacks' time has passed. -/
theorem account_add {h : H} {other : Bool} {fnTask : Option F} {tTimeout : UInt64} {pArg : P}
    (lists_ : Lists s.system lists) (account : Account s lists) (le : s.now ≤ time)
    (atOnce : AtOnce s (time, .prdAddTask other h fnTask tTimeout pArg))
    (free : s.system.place.free = true) (new : s.system.registered h = false) :
    ∃ now, Lists (prdAddTask s.system h fnTask tTimeout pArg) now ∧
      Account ⟨prdAddTask s.system h fnTask tTimeout pArg, time,
        s.sinceAfter time (.prdAddTask other h fnTask tTimeout pArg),
        s.callsAfter time (.prdAddTask other h fnTask tTimeout pArg)⟩ now := by
  have later := UInt64.le_iff_toNat_le.mp le
  have last := account.clock
  cases fnTask with
  | none => exact ⟨lists, lists_, account.wait le⟩
  | some fnTask =>
    have shelved := lists_.shelved
    have added := shelved.add (add_mem s.system.place) new
    have header : Function.update lists .lPrdTaskAdd (lists .lPrdTaskAdd ++ [h]) .lPrdTaskHeader =
        lists .lPrdTaskHeader := Function.update_of_ne (by rintro ⟨⟩) ..
    have list : Function.update lists .lPrdTaskAdd (lists .lPrdTaskAdd ++ [h]) .list =
        lists .list := Function.update_of_ne (by rintro ⟨⟩) ..
    have absent : h ∉ lists .lPrdTaskHeader := by
      intro inside
      rw [(shelved.registered h).mpr ⟨_, header_mem _, inside⟩] at new
      cases new
    have fresh {n : Nat} (early : tTimeout = 0 ∨ time.toNat ≤ n) :
        Covers (⟨fnTask, pArg, tTimeout, -1⟩ : PrdTask F P) time n :=
      covers_whole (le_last tTimeout) early
    refine ⟨_, ⟨added, fun pList tMinRemain here => ?_⟩, ?_⟩
    · rw [show s.system.place = .scanning pList tMinRemain from here] at free
      cases free
    · refine ⟨last.trans later, account.period, fun k => ?_, ?_, account.calls⟩
      · by_cases same : k = h
        · subst same
          exact Nat.le_of_eq (congrArg UInt64.toNat (Function.update_self ..))
        · exact (Nat.le_of_eq (congrArg UInt64.toNat (Function.update_of_ne same ..))).trans
            ((account.past k).trans later)
      · have covered := account.covered
        unfold Timed.covered at covered ⊢
        cases here : s.system.place with
        | waiting tUntil =>
          simp only [here] at covered
          simp only [prdAddTask, here, Timed.sinceAfter, header, Function.update_self]
          exact ⟨covered.1.restart_other absent,
            (covered.2.mono later).add (fresh (.inr (Nat.le_refl _)))⟩
        | calling k =>
          simp only [here] at covered
          obtain ⟨⟨active, done, waits⟩, other, due⟩ := covered
          have early := atOnce (by rw [here]; rfl)
          have soon := fresh (early.imp_right fun same =>
            Nat.le_of_eq (congrArg UInt64.toNat same.1))
          simp only [prdAddTask, here, Timed.sinceAfter, header, list, Function.update_self]
          refine ⟨⟨active.restart_other absent, done.restart soon, waits.add soon⟩, other, ?_⟩
          by_cases same : k = h
          · subst same
            have none : tTimeout = 0 := early.resolve_right fun ⟨_, apart⟩ => apart here
            simp [Memory.set, none]
          · simpa [Memory.set, Function.update_of_ne same] using due.trans later
        | running k =>
          simp only [here] at covered
          obtain ⟨⟨active, done, waits⟩, other⟩ := covered
          have early := atOnce (by rw [here]; rfl)
          have soon := fresh (early.imp_right fun same =>
            Nat.le_of_eq (congrArg UInt64.toNat same.1))
          simp only [prdAddTask, here, Timed.sinceAfter, header, list, Function.update_self]
          exact ⟨⟨active.restart_other absent, done.restart soon, waits.add soon⟩, other⟩
        | ended => simp [prdAddTask, here]
        | _ =>
          rw [here] at free
          cases free

/-- A task is deleted from whichever list it is on. -/
theorem account_del {h : H} {other : Bool} (lists_ : Lists s.system lists)
    (account : Account s lists) (free : s.system.place.free = true)
    (old : s.system.registered h = true) :
    ∃ now, Lists (prdDelTask s.system other h) now ∧
      Account { s with system := prdDelTask s.system other h } now := by
  have shelved := lists_.shelved
  obtain ⟨n, hn, inside⟩ := (shelved.registered h).mp old
  obtain ⟨l, r, here⟩ := List.append_of_mem inside
  have sub : ∀ k, Function.update lists n (l ++ r) k ⊆ lists k := by
    intro k
    by_cases same : k = n
    · subst same
      rw [Function.update_self, here]
      exact (List.Sublist.append_left (List.sublist_cons_self h r) l).subset
    · rw [Function.update_of_ne same]
      exact List.Subset.refl _
  refine ⟨_, ⟨shelved.del hn here, fun pList tMinRemain at_ => ?_⟩, account.clock, account.period,
    account.past, ?_, account.calls⟩
  · rw [show s.system.place = .scanning pList tMinRemain from at_] at free
    cases free
  · have covered := account.covered
    unfold Timed.covered at covered ⊢
    cases place : s.system.place with
    | waiting tUntil =>
      simp only [place, prdDelTask] at covered ⊢
      exact ⟨covered.1.sub (sub _), covered.2.sub (sub _)⟩
    | calling k =>
      simp only [place, prdDelTask] at covered ⊢
      obtain ⟨⟨active, done, waits⟩, apart, due⟩ := covered
      exact ⟨⟨active.sub (sub _), done.sub (sub _), waits.sub (sub _)⟩,
        fun back => apart (sub _ back), due⟩
    | running k =>
      simp only [place, prdDelTask] at covered ⊢
      obtain ⟨⟨active, done, waits⟩, apart⟩ := covered
      exact ⟨⟨active.sub (sub _), done.sub (sub _), waits.sub (sub _)⟩,
        fun back => apart (sub _ back)⟩
    | ended => simp [place, prdDelTask]
    | _ =>
      rw [place] at free
      cases free

end

/-! ### Runs -/

/-- The account, at some lists. -/
def InTime (s : Timed H F P) : Prop := ∃ lists, Lists s.system lists ∧ Account s lists

theorem inTime_tick {s t : Timed H F P} {e : UInt64 × Action H F P} (inTime : InTime s)
    (atOnce : AtOnce s e) (ticks : Ticks s e t) : InTime t := by
  obtain ⟨lists, lists_, account⟩ := inTime
  obtain ⟨time, action⟩ := e
  simp only [Ticks, tick] at ticks
  split at ticks
  · rename_i le
    obtain ⟨system, stepped, rfl⟩ := Option.map_eq_some_iff.mp ticks
    cases action with
    | prdRun clock =>
      obtain ⟨now, next, pass⟩ := prdRun_pass lists_ stepped
      exact ⟨now, next, account_pass lists_ account le atOnce pass⟩
    | prdAddTask other h fnTask tTimeout pArg =>
      simp only [Action.readAt, step] at stepped
      split at stepped
      · rename_i enabled
        cases stepped
        exact account_add lists_ account le atOnce (free_of_admits enabled.1) enabled.2
      · cases stepped
    | prdDelTask other h =>
      simp only [Action.readAt, step] at stepped
      split at stepped
      · rename_i enabled
        cases stepped
        have waited : Lists ({ s with now := time } : Timed H F P).system lists := lists_
        exact account_del waited (account.wait le) (free_of_admits enabled.1) enabled.2
      · cases stepped
    | prdExit =>
      simp only [Action.readAt, step] at stepped
      split at stepped
      · cases stepped
        have waited := account.wait le
        exact ⟨lists, ⟨lists_.shelved, lists_.inList⟩, waited.clock, waited.period, waited.past,
          waited.covered, waited.calls⟩
      · cases stepped
  · cases ticks

theorem inTime_started (links : Links (Node H)) (tasks : H → PrdTask F P) (tLastCheck : UInt64) :
    InTime (started links tasks tLastCheck) := by
  obtain ⟨lists, first, lists_, round⟩ := holds_start links tasks tLastCheck
  have none {n : Node H} (head : n ∈ (start links tasks tLastCheck).place.heads) (m : Nat) :
      Covered tasks (fun _ => tLastCheck) m (lists n) := by
    intro h mem
    cases (lists_.shelved.registered h).mpr ⟨n, head, mem⟩
  exact ⟨lists, lists_, Nat.le_refl _, Nat.zero_le _, fun _ => Nat.le_refl _,
    ⟨none (header_mem _) _, none (add_mem _) _⟩, by rintro _ ⟨⟩⟩

/-- In every run in which no tick passes while callbacks run, and none of their tasks is added
before its call, no task is called before its timeout has passed since it was added, or since its
last call returned. -/
theorem calls_in_time (links : Links (Node H)) (tasks : H → PrdTask F P) (tLastCheck : UInt64)
    {events : List (UInt64 × Action H F P)} {s : Timed H F P}
    (run : Run (Guarded AtOnce Ticks) (started links tasks tLastCheck) events s) :
    ∀ call ∈ s.calls, ¬ call.early := by
  have keeps := run.invariant InTime (fun _ _ _ inTime ⟨atOnce, ticks⟩ =>
    inTime_tick inTime atOnce ticks) (inTime_started links tasks tLastCheck)
  obtain ⟨lists, -, account⟩ := keeps
  exact account.calls

/-- The first call of a task, and its return 11 ticks later. -/
def untilReturn : List (UInt64 × Action Bool Nat Nat) :=
  [(0, .prdRun 0), (0, .prdRun 0), (0, .prdAddTask true false (some 7) 5 1), (3, .prdRun 0),
    (3, .prdRun 0), (3, .prdRun 0), (3, .prdRun 0), (3, .prdRun 0), (3, .prdRun 0), (3, .prdRun 0),
    (3, .prdRun 0), (9, .prdRun 0), (9, .prdRun 0), (9, .prdRun 0)]

theorem calls_in_time_first : ∃ s : Timed Bool Nat Nat,
    Run (Guarded AtOnce Ticks) (started ⟨id, id⟩ (fun _ => ⟨0, 0, 0, 0⟩) 0) untilReturn s ∧
      s.calls.length = 1 ∧ ∀ call ∈ s.calls, ¬ call.early := by
  have run : Run (Guarded AtOnce Ticks) (started ⟨id, id⟩ (fun _ => ⟨0, 0, 0, 0⟩) 0) untilReturn _ :=
    .cons ⟨by rintro _ ⟨⟩, rfl⟩ <| .cons ⟨by rintro _ ⟨⟩, rfl⟩ <| .cons ⟨by rintro ⟨⟩, rfl⟩ <|
      .cons ⟨by rintro _ ⟨⟩, rfl⟩ <| .cons ⟨by rintro _ ⟨⟩, rfl⟩ <| .cons ⟨by rintro _ ⟨⟩, rfl⟩ <|
      .cons ⟨by rintro _ ⟨⟩, rfl⟩ <| .cons ⟨by rintro _ ⟨⟩, rfl⟩ <| .cons ⟨by rintro _ ⟨⟩, rfl⟩ <|
      .cons ⟨by rintro _ ⟨⟩, rfl⟩ <| .cons ⟨by rintro _ ⟨⟩, rfl⟩ <| .cons ⟨by rintro _ ⟨⟩, rfl⟩ <|
      .cons ⟨by rintro _ ⟨⟩, rfl⟩ <| .cons ⟨by rintro _ ⟨⟩, rfl⟩ <| .nil _
  exact ⟨_, run, rfl, calls_in_time ⟨id, id⟩ (fun _ => ⟨0, 0, 0, 0⟩) 0 run⟩

/-- The callback returns after 11 ticks, and is called again in the same tick. -/
def calledTwice : List (UInt64 × Action Bool Nat Nat) :=
  untilReturn ++ [(20, .prdRun 0), (20, .prdRun 0), (20, .prdRun 0), (20, .prdRun 0),
    (20, .prdRun 0), (20, .prdRun 0), (20, .prdRun 0), (20, .prdRun 0), (20, .prdRun 0),
    (20, .prdRun 0), (20, .prdRun 0)]

theorem called_early : ¬ ∀ (events : List (UInt64 × Action Bool Nat Nat)) (s : Timed Bool Nat Nat),
    Run Ticks (started ⟨id, id⟩ (fun _ => ⟨0, 0, 0, 0⟩) 0) events s →
      ∀ call ∈ s.calls, ¬ call.early := by
  intro never
  have calls : (calledTwice.foldlM (fun s e => tick s e.1 e.2)
      (started ⟨id, id⟩ (fun _ => ⟨0, 0, 0, 0⟩) 0)).map Timed.calls =
      some [⟨false, 0, 5, 9⟩, ⟨false, 20, 5, 20⟩] := rfl
  obtain ⟨s, fold, made⟩ := Option.map_eq_some_iff.mp calls
  have run : Run Ticks _ calledTwice s := Run.of_foldlM (fun _ _ _ => id) fold
  have second : (⟨false, 20, 5, 20⟩ : Call Bool) ∈ s.calls := by rw [made]; simp
  exact never _ s run _ second (by decide)

end Rovio.Period
