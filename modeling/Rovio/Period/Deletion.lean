import Rovio.Period.Integrity

/-! Deleted tasks. `prdRun` finds a task's time over under the lock and calls it after the
unlock; a thread that deletes the task in between does not stop the call. -/
namespace Rovio.Period
open Kit

variable {H F P : Type} [DecidableEq H] {s t : System H F P}

/-- The steps of `prdRun` register and delete nothing. -/
theorem prdRun_registered {tCurrent : UInt64} (stepped : prdRun s tCurrent = some t) :
    t.registered = s.registered ∧ t.revoked = s.revoked := by
  unfold prdRun at stepped
  split at stepped
  · split at stepped <;> cases stepped <;> exact ⟨rfl, rfl⟩
  · cases stepped
    exact ⟨rfl, rfl⟩
  · cases stepped
    exact ⟨rfl, rfl⟩
  · cases stepped
    exact ⟨rfl, rfl⟩
  · split at stepped
    · cases stepped
      exact ⟨rfl, rfl⟩
    · simp only at stepped
      split at stepped <;> cases stepped <;> exact ⟨rfl, rfl⟩
    · cases stepped
  · cases stepped
    exact ⟨rfl, rfl⟩
  · cases stepped
    exact ⟨rfl, rfl⟩
  · split at stepped <;> cases stepped <;> exact ⟨rfl, rfl⟩
  · split at stepped <;> cases stepped <;> exact ⟨rfl, rfl⟩
  · cases stepped

/-- A task is about to be called after it was found on the list. -/
theorem prdRun_calling {tCurrent : UInt64} (holds : Holds s) (stepped : prdRun s tCurrent = some t)
    {h : H} (calls : t.place = .calling h) : s.registered h = true := by
  obtain ⟨lists, first, lists_, -⟩ := holds
  have shelved := lists_.shelved
  unfold prdRun at stepped
  split at stepped
  · split at stepped <;> cases stepped <;> cases calls
  · cases stepped
    cases calls
  · cases stepped
    cases calls
  · cases stepped
    cases calls
  · rename_i here
    rw [shelved.getNext (header_mem _)] at stepped
    cases active : lists .lPrdTaskHeader with
    | nil =>
      simp only [active, List.head?_nil, Option.map_none] at stepped
      cases stepped
      cases calls
    | cons k r =>
      simp only [active, List.head?_cons, Option.map_some] at stepped
      split at stepped
      · cases stepped
        cases calls
        exact (shelved.registered h).mpr ⟨_, header_mem _, active ▸ List.mem_cons_self⟩
      · cases stepped
        cases here.symm.trans calls
  · cases stepped
    cases calls
  · cases stepped
    cases calls
  · rename_i here
    split at stepped
    · cases stepped
      cases calls
    · cases stepped
      cases here.symm.trans calls
  · rename_i here
    split at stepped
    · cases stepped
      cases calls
    · cases stepped
      cases here.symm.trans calls
  · cases stepped

/-- The task about to be called is registered, and a registered one is not revoked. -/
structure Valid (s : System H F P) : Prop where
  holds : Holds s
  standing : ∀ h, s.registered h = true → s.revoked h = false
  found : ∀ h, s.place = .calling h → s.registered h = true

theorem standing_step {action : Action H F P} (stepped : step s action = some t)
    (standing : ∀ h, s.registered h = true → s.revoked h = false) :
    ∀ h, t.registered h = true → t.revoked h = false := by
  intro h registered
  cases action with
  | prdRun tCurrent =>
    obtain ⟨same, revoked⟩ := prdRun_registered stepped
    rw [revoked]
    exact standing h (same ▸ registered)
  | prdAddTask other k fnTask tTimeout pArg =>
    simp only [step] at stepped
    split at stepped
    · cases stepped
      cases fnTask with
      | none => exact standing h registered
      | some fnTask =>
        by_cases self : h = k
        · subst self
          exact Function.update_self ..
        · have before : s.registered h = true :=
            (Function.update_of_ne self ..).symm.trans registered
          exact (Function.update_of_ne self ..).trans (standing h before)
    · cases stepped
  | prdDelTask other k =>
    simp only [step] at stepped
    split at stepped
    · cases stepped
      by_cases self : h = k
      · subst self
        have gone : Function.update s.registered h false h = false := Function.update_self ..
        cases gone.symm.trans registered
      · have before : s.registered h = true := (Function.update_of_ne self ..).symm.trans registered
        cases other with
        | true => exact (Function.update_of_ne self ..).trans (standing h before)
        | false => exact standing h before
    · cases stepped
  | prdExit =>
    simp only [step] at stepped
    split at stepped
    · cases stepped
      exact standing h registered
    · cases stepped

theorem valid_start (links : Links (Node H)) (tasks : H → PrdTask F P) (tLastCheck : UInt64) :
    Valid (start links tasks tLastCheck) :=
  ⟨holds_start links tasks tLastCheck, fun _ _ => rfl, fun _ here => by cases here⟩

/-- Whatever is deleted and when, the task about to be called was found registered: where it no
longer is, another thread has deleted it since. -/
theorem deleted_since {action : Action H F P} (holds : Holds s) (stepped : step s action = some t)
    (since : ∀ h, s.place = .calling h → s.registered h = false → s.revoked h = true) :
    ∀ h, t.place = .calling h → t.registered h = false → t.revoked h = true := by
  intro h calls gone
  cases action with
  | prdRun tCurrent =>
    have found := prdRun_calling holds stepped calls
    rw [(prdRun_registered stepped).1, found] at gone
    cases gone
  | prdAddTask other k fnTask tTimeout pArg =>
    simp only [step] at stepped
    split at stepped
    · cases stepped
      cases fnTask with
      | none => exact since h calls gone
      | some fnTask =>
        by_cases self : h = k
        · subst self
          have added : Function.update s.registered h true h = true := Function.update_self ..
          cases added.symm.trans gone
        · have before : s.registered h = false := (Function.update_of_ne self ..).symm.trans gone
          exact (Function.update_of_ne self ..).trans (since h calls before)
    · cases stepped
  | prdDelTask other k =>
    simp only [step] at stepped
    split at stepped
    · rename_i enabled
      cases stepped
      have here : s.place = .calling h := calls
      cases other with
      | false =>
        rw [here] at enabled
        cases enabled.1
      | true =>
        by_cases self : h = k
        · subst self
          exact Function.update_self ..
        · have before : s.registered h = false := (Function.update_of_ne self ..).symm.trans gone
          exact (Function.update_of_ne self ..).trans (since h calls before)
    · cases stepped
  | prdExit =>
    simp only [step] at stepped
    split at stepped
    · cases stepped
      exact since h calls gone
    · cases stepped

/-- In every run the task about to be called is a deleted one just where it is not registered. -/
theorem late_call_iff (links : Links (Node H)) (tasks : H → PrdTask F P) (tLastCheck : UInt64)
    {actions : List (Action H F P)} {s : System H F P}
    (run : Run Steps (start links tasks tLastCheck) actions s) (h : H)
    (calls : s.place = .calling h) : s.revoked h = true ↔ s.registered h = false := by
  have keeps := run.invariant
    (fun s => Holds s ∧ (∀ h, s.registered h = true → s.revoked h = false) ∧
      ∀ h, s.place = .calling h → s.registered h = false → s.revoked h = true)
    (fun s action t ⟨holds, standing, since⟩ stepped =>
      ⟨holds_step holds stepped, standing_step stepped standing, deleted_since holds stepped since⟩)
    ⟨holds_start links tasks tLastCheck, fun _ _ => rfl, fun _ here => by cases here⟩
  obtain ⟨-, standing, since⟩ := keeps
  refine ⟨fun revoked => ?_, since h calls⟩
  cases registered : s.registered h with
  | false => rfl
  | true => cases revoked.symm.trans (standing h registered)

end Rovio.Period
