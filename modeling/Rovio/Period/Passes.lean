import Rovio.Period.Lists

/-! The steps of `prdRun` one by one, each with the lists before it and behind it. -/
namespace Rovio.Period
open Kit

variable {H F P : Type} [DecidableEq H]

/-- The first task of a list has gone to the end of another one. -/
def relist (lists : Node H → List H) (n k : Node H) (h : H) (rest : List H) : Node H → List H :=
  Function.update (Function.update lists n rest) k (lists k ++ [h])

section
variable {lists : Node H → List H} {n k m : Node H} {h : H} {rest : List H}

theorem relist_source (other : n ≠ k) : relist lists n k h rest n = rest := by
  rw [relist, Function.update_of_ne other, Function.update_self]

theorem relist_target : relist lists n k h rest k = lists k ++ [h] :=
  Function.update_self ..

theorem relist_other (source : m ≠ n) (target : m ≠ k) : relist lists n k h rest m = lists m := by
  rw [relist, Function.update_of_ne target, Function.update_of_ne source]

end

inductive Pass (s : System H F P) (lists : Node H → List H) (tCurrent : UInt64) :
    System H F P → (Node H → List H) → Prop where
  | exit : s.place = .checking → Pass s lists tCurrent { s with place := .ended } lists
  | check : s.place = .checking → Pass s lists tCurrent
      { s with
        tPeriod := tCurrent - s.tLastCheck
        tLastCheck := tCurrent
        place := .scanning (s.memory.links.pNext .lPrdTaskHeader) (-1) } lists
  | scan {h : H} {least less : UInt64} : s.place = .scanning (.task h) least →
      h ∈ lists .lPrdTaskHeader → Pass s lists tCurrent
      { s with
        memory := s.memory.set h ((s.memory.tasks h).elapse s.tPeriod)
        place := .scanning (s.memory.links.pNext (.task h)) less } lists
  | scanned {least tUntil : UInt64} : s.place = .scanning .lPrdTaskHeader least →
      Pass s lists tCurrent { s with place := .waiting tUntil } lists
  | wake {tUntil : UInt64} : s.place = .waiting tUntil → Pass s lists tCurrent
      { s with
        tPeriod := tCurrent - s.tLastCheck
        tLastCheck := tCurrent
        memory := { s.memory with links := listInit s.memory.links .list }
        place := .moving
        atWake := s.memory
        roundPeriod := tCurrent - s.tLastCheck
        called := []
        deleted := fun _ => false } (Function.update lists .list [])
  | due {h : H} {rest : List H} : s.place = .moving → lists .lPrdTaskHeader = h :: rest →
      (s.memory.tasks h).clamp.tRemain ≤ s.tPeriod → Pass s lists tCurrent
      { s with
        memory := (s.memory.moveTo (.task h) .list).set h (s.memory.tasks h).clamp
        place := .calling h } (relist lists .lPrdTaskHeader .list h rest)
  | charge {h : H} {rest : List H} : s.place = .moving → lists .lPrdTaskHeader = h :: rest →
      ¬ (s.memory.tasks h).clamp.tRemain ≤ s.tPeriod → Pass s lists tCurrent
      { s with
        memory := (s.memory.moveTo (.task h) .list).set h
          { (s.memory.tasks h).clamp with
            tRemain := (s.memory.tasks h).clamp.tRemain - s.tPeriod }
        place := .moving }
      (relist lists .lPrdTaskHeader .list h rest)
  | moved : s.place = .moving → lists .lPrdTaskHeader = [] →
      Pass s lists tCurrent { s with place := .restoring } lists
  | call {h : H} : s.place = .calling h → Pass s lists tCurrent
      { s with
        place := .running h
        called := s.called ++ [(h, (s.memory.tasks h).fnTask, (s.memory.tasks h).pArg)] } lists
  | back {h : H} : s.place = .running h → Pass s lists tCurrent
      { s with
        memory := s.memory.set h
          { s.memory.tasks h with tRemain := (s.memory.tasks h).tTimeout }
        place := .moving } lists
  | restore {h : H} {rest : List H} : s.place = .restoring → lists .list = h :: rest →
      Pass s lists tCurrent
      { s with memory := s.memory.moveTo (.task h) .lPrdTaskHeader, place := .restoring }
      (relist lists .list .lPrdTaskHeader h rest)
  | restored : s.place = .restoring → lists .list = [] →
      Pass s lists tCurrent { s with place := .collecting } lists
  | collect {h : H} {rest : List H} : s.place = .collecting → lists .lPrdTaskAdd = h :: rest →
      Pass s lists tCurrent
      { s with memory := s.memory.moveTo (.task h) .lPrdTaskHeader, place := .collecting }
      (relist lists .lPrdTaskAdd .lPrdTaskHeader h rest)
  | collected : s.place = .collecting → lists .lPrdTaskAdd = [] →
      Pass s lists tCurrent { s with place := .checking } lists

variable {s t : System H F P} {lists : Node H → List H} {tCurrent : UInt64}

omit [DecidableEq H] in
theorem inList_still {place : Place H} {active : List H}
    (still : ∀ pList tMinRemain, place ≠ .scanning pList tMinRemain) : place.inList active :=
  fun pList tMinRemain here => absurd here (still pList tMinRemain)

/-- Each step of `prdRun` is one of these, and the lists stay intact. -/
theorem prdRun_pass (lists_ : Lists s lists) (stepped : prdRun s tCurrent = some t) :
    ∃ now, Lists t now ∧ Pass s lists tCurrent t now := by
  have shelved := lists_.shelved
  have header : Node.lPrdTaskHeader ∈ s.place.heads := header_mem _
  have add : Node.lPrdTaskAdd ∈ s.place.heads := add_mem _
  cases here : s.place with
  | checking =>
    rw [here] at shelved header
    simp only [prdRun, here] at stepped
    split at stepped
    · cases stepped
      exact ⟨lists, ⟨shelved, inList_still fun _ _ here => by cases here⟩, .exit here⟩
    · cases stepped
      refine ⟨lists, ⟨shelved, fun pList tMinRemain at_ => ?_⟩, .check here⟩
      cases at_
      have next := (shelved.ring header).next
      cases active : lists .lPrdTaskHeader with
      | nil => exact .inl (by rw [next, active]; rfl)
      | cons h r => exact .inr ⟨h, List.mem_cons_self, by rw [next, active]; rfl⟩
  | scanning pList tMinRemain =>
    rw [here] at shelved header
    rcases lists_.inList pList tMinRemain here with rfl | ⟨h, inside, rfl⟩
    · simp only [prdRun, here] at stepped
      cases stepped
      exact ⟨lists, ⟨shelved, inList_still fun _ _ here => by cases here⟩, .scanned here⟩
    · simp only [prdRun, here] at stepped
      cases stepped
      refine ⟨lists, ⟨shelved, fun pList tMinRemain at_ => ?_⟩, .scan here inside⟩
      cases at_
      have after := (shelved.ring header).next_mem (map_task_mem.mpr inside)
      rcases List.mem_cons.mp after with head | task
      · exact .inl head
      · obtain ⟨k, hk, same⟩ := List.mem_map.mp task
        exact .inr ⟨k, hk, same.symm⟩
  | waiting tUntil =>
    rw [here] at shelved
    simp only [prdRun, here] at stepped
    cases stepped
    have new := shelved.new (n := .list) (by simp [Place.heads]) (fun h same => by cases same)
    exact ⟨_, ⟨new, inList_still fun _ _ here => by cases here⟩, .wake here⟩
  | moving =>
    rw [here] at shelved header
    simp only [prdRun, here, shelved.getNext header] at stepped
    cases active : lists .lPrdTaskHeader with
    | nil =>
      simp only [active, List.head?_nil, Option.map_none] at stepped
      cases stepped
      exact ⟨lists, ⟨shelved, inList_still fun _ _ here => by cases here⟩, .moved here active⟩
    | cons h r =>
      simp only [active, List.head?_cons, Option.map_some] at stepped
      have moved := shelved.move (k := .list) header (by simp [Place.heads])
        (fun same => by cases same) active
      split at stepped
      · rename_i timeUp
        cases stepped
        exact ⟨_, ⟨moved, inList_still fun _ _ here => by cases here⟩, .due here active timeUp⟩
      · rename_i timeLeft
        cases stepped
        exact ⟨_, ⟨moved, inList_still fun _ _ here => by cases here⟩,
          .charge here active timeLeft⟩
  | calling h =>
    rw [here] at shelved
    simp only [prdRun, here] at stepped
    cases stepped
    exact ⟨lists, ⟨shelved, inList_still fun _ _ here => by cases here⟩, .call here⟩
  | running h =>
    rw [here] at shelved
    simp only [prdRun, here] at stepped
    cases stepped
    exact ⟨lists, ⟨shelved, inList_still fun _ _ here => by cases here⟩, .back here⟩
  | restoring =>
    rw [here] at shelved header
    have list : Node.list ∈ (Place.restoring : Place H).heads := List.mem_cons_self
    simp only [prdRun, here, shelved.getNext list] at stepped
    cases done : lists .list with
    | nil =>
      simp only [done, List.head?_nil, Option.map_none] at stepped
      cases stepped
      exact ⟨lists, ⟨shelved.drop done, inList_still fun _ _ here => by cases here⟩,
        .restored here done⟩
    | cons h r =>
      simp only [done, List.head?_cons, Option.map_some] at stepped
      cases stepped
      have moved := shelved.move list header (fun same => by cases same) done
      exact ⟨_, ⟨moved, inList_still fun _ _ here => by cases here⟩, .restore here done⟩
  | collecting =>
    rw [here] at shelved header add
    simp only [prdRun, here, shelved.getNext add] at stepped
    cases added : lists .lPrdTaskAdd with
    | nil =>
      simp only [added, List.head?_nil, Option.map_none] at stepped
      cases stepped
      exact ⟨lists, ⟨shelved, inList_still fun _ _ here => by cases here⟩, .collected here added⟩
    | cons h r =>
      simp only [added, List.head?_cons, Option.map_some] at stepped
      cases stepped
      have moved := shelved.move add header (fun same => by cases same) added
      exact ⟨_, ⟨moved, inList_still fun _ _ here => by cases here⟩, .collect here added⟩
  | ended => simp [prdRun, here] at stepped

end Rovio.Period
