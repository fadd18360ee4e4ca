import Rovio.Period.Lists

/-! Rounds. In a round each task that was active at its start is called once where its time is
over, and not where it is not; a task deleted meanwhile is called at most once. -/
namespace Rovio.Period
open Kit

variable {H F P : Type} [DecidableEq H]

/-- Whether the task's remaining time was over when the round began. -/
def System.expired (s : System H F P) (h : H) : Prop :=
  (s.atWake.tasks h).clamp.tRemain ≤ s.roundPeriod

def System.wasCalled (s : System H F P) (h : H) : Prop := h ∈ s.called.map Prod.fst

/-- The loop over the tasks, with its calls. -/
def Place.busy : Place H → Bool
  | .moving | .calling _ | .running _ => true
  | _ => false

/-- What holds of the round, whose active tasks were `first` at its start: the tasks still to be
visited are as they were then, and each one visited has been called, or is about to be, where its
time was over. -/
structure Round (s : System H F P) (active first : List H) : Prop where
  woken : Ring s.atWake.links .lPrdTaskHeader (first.map .task)
  once : (s.called.map Prod.fst).Nodup
  ours : ∀ h, s.wasCalled h → h ∈ first ∧ s.expired h
  toVisit : s.place.busy = true → s.tPeriod = s.roundPeriod ∧ ∀ h ∈ active,
    h ∈ first ∧ ¬ s.wasCalled h ∧ s.memory.tasks h = s.atWake.tasks h
  pending : ∀ h, s.place = .calling h → h ∈ first ∧ s.expired h ∧ ¬ s.wasCalled h ∧ h ∉ active
  entered : ∀ h, s.place = .running h → s.wasCalled h
  visited : ∀ h ∈ first, s.deleted h = false →
    (s.place.busy = true ∧ h ∈ active) ∨ (s.expired h ↔ s.wasCalled h ∨ s.place = .calling h)

/-- The lists and the round, at some lists. -/
def Holds (s : System H F P) : Prop :=
  ∃ lists first, Lists s lists ∧ Round s (lists .lPrdTaskHeader) first

section
variable {s t : System H F P} {lists : Node H → List H} {first : List H} {tCurrent : UInt64}

omit [DecidableEq H] in
/-- Outside the loop over the tasks only the memory and the lists change. -/
theorem Round.rest {active : List H} (h : Round s active first) {memory : Memory H F P}
    {place : Place H}
    {g_bPrdExit : Bool} {tPeriod tLastCheck : UInt64} {now : List H}
    (before : ∀ h, s.place ≠ .calling h) (timeUp : s.place.busy = true → active = [])
    (idle : place.busy = false) :
    Round { s with memory, place, g_bPrdExit, tPeriod, tLastCheck } now first where
  woken := h.woken
  once := h.once
  ours := h.ours
  toVisit busy := by
    have same : place.busy = true := busy
    rw [idle] at same
    cases same
  pending k here := by
    obtain rfl : place = .calling k := here
    cases idle
  entered k here := by
    obtain rfl : place = .running k := here
    cases idle
  visited k hk kept := by
    rcases h.visited k hk kept with ⟨busy, inside⟩ | same
    · rw [timeUp busy] at inside
      cases inside
    · refine .inr (same.trans (or_congr_right ⟨fun here => absurd here (before k), fun here => ?_⟩))
      obtain rfl : place = .calling k := here
      cases idle

omit [DecidableEq H] in
/-- No search stands in a list. -/
theorem inList_of_ne {place : Place H} {active : List H}
    (other : ∀ pList tMinRemain, place ≠ .scanning pList tMinRemain) : place.inList active :=
  fun pList tMinRemain here => absurd here (other pList tMinRemain)

/-- A task is visited: it goes to the round's list and is called where its time is over. -/
theorem holds_moving (lists_ : Lists s lists) (round : Round s (lists .lPrdTaskHeader) first)
    (here : s.place = .moving) (stepped : prdRun s tCurrent = some t) : Holds t := by
  have shelved := lists_.shelved
  simp only [here] at shelved
  have header : Node.lPrdTaskHeader ∈ (Place.moving : Place H).heads := header_mem _
  have busy : s.place.busy = true := by rw [here]; rfl
  simp only [prdRun, here, shelved.getNext header] at stepped
  cases active : lists .lPrdTaskHeader with
  | nil =>
    simp only [active, List.head?_nil, Option.map_none] at stepped
    cases stepped
    refine ⟨lists, first, ⟨shelved, inList_of_ne fun _ _ here => by cases here⟩, ?_⟩
    exact round.rest (by simp [here]) (fun _ => active) rfl
  | cons h r =>
    simp only [active, List.head?_cons, Option.map_some] at stepped
    have moved := shelved.move (k := .list) header (by simp [Place.heads])
      (fun same => by cases same) active
    generalize target : Function.update (Function.update lists .lPrdTaskHeader r) .list
      (lists .list ++ [h]) = now at moved
    have rest : now .lPrdTaskHeader = r := by simp [← target]
    obtain ⟨period, toVisit⟩ := round.toVisit busy
    rw [active] at toVisit
    obtain ⟨mine, uncalled, same⟩ := toVisit h List.mem_cons_self
    have fresh : h ∉ r := by
      have nodup := shelved.nodup header
      rw [active] at nodup
      exact (List.nodup_cons.mp nodup).1
    have keep : ∀ k ∈ r, ∀ task : PrdTask F P, k ∈ first ∧ ¬ s.wasCalled k ∧
        Function.update s.memory.tasks h task k = s.atWake.tasks k := by
      intro k hk task
      obtain ⟨first, other, record⟩ := toVisit k (List.mem_cons_of_mem h hk)
      have apart : k ≠ h := fun self => fresh (self ▸ hk)
      exact ⟨first, other, (Function.update_of_ne apart ..).trans record⟩
    have visited : ∀ k ∈ first, s.deleted k = false → k ≠ h →
        k ∈ r ∨ (s.expired k ↔ s.wasCalled k) := by
      intro k hk kept apart
      rcases round.visited k hk kept with ⟨-, inside⟩ | done
      · rw [active] at inside
        exact .inl ((List.mem_cons.mp inside).resolve_left apart)
      · exact .inr (by simpa [here] using done)
    have clamped : ((s.memory.moveTo (.task h) .list).tasks h).clamp.tRemain ≤ s.tPeriod ↔
        s.expired h := by
      show (s.memory.tasks h).clamp.tRemain ≤ s.tPeriod ↔ _
      rw [same, period]
      rfl
    split at stepped
    · rename_i timeUp
      cases stepped
      refine ⟨now, first, ⟨moved, inList_of_ne fun _ _ here => by cases here⟩, ?_⟩
      rw [rest]
      refine ⟨round.woken, round.once, round.ours, fun _ => ⟨period, fun k hk => keep k hk _⟩,
        fun k here => ?_, (fun k here => by cases here), fun k hk kept => ?_⟩
      · cases here
        exact ⟨mine, clamped.mp timeUp, uncalled, fresh⟩
      · by_cases self : k = h
        · subst self
          exact .inr ⟨fun _ => .inr rfl, fun _ => clamped.mp timeUp⟩
        · rcases visited k hk kept self with inside | done
          · exact .inl ⟨rfl, inside⟩
          · refine .inr (done.trans (or_iff_left fun here => self ?_).symm)
            cases here
            rfl
    · rename_i timeUp
      cases stepped
      refine ⟨now, first, ⟨moved, inList_of_ne fun _ _ here => by cases here⟩, ?_⟩
      rw [rest]
      refine ⟨round.woken, round.once, round.ours, fun _ => ⟨period, fun k hk => keep k hk _⟩,
        (fun k here => by cases here), (fun k here => by cases here), fun k hk kept => ?_⟩
      by_cases self : k = h
      · subst self
        refine .inr ⟨fun expired => absurd (clamped.mpr expired) timeUp, fun done => ?_⟩
        exact absurd (done.resolve_right fun here => by cases here) uncalled
      · rcases visited k hk kept self with inside | done
        · exact .inl ⟨rfl, inside⟩
        · exact .inr (done.trans (or_iff_left fun here => by cases here).symm)

omit [DecidableEq H] in
theorem wasCalled_append {s : System H F P} {h k : H} {f : F} {p : P} :
    h ∈ (s.called ++ [(k, f, p)]).map Prod.fst ↔ s.wasCalled h ∨ h = k := by
  simp [System.wasCalled]

/-- The callback begins. -/
theorem holds_calling {h : H} (lists_ : Lists s lists)
    (round : Round s (lists .lPrdTaskHeader) first) (here : s.place = .calling h)
    (stepped : prdRun s tCurrent = some t) : Holds t := by
  have shelved := lists_.shelved
  have busy : s.place.busy = true := by rw [here]; rfl
  obtain ⟨period, toVisit⟩ := round.toVisit busy
  obtain ⟨mine, timeUp, uncalled, fresh⟩ := round.pending h here
  simp only [here] at shelved
  simp only [prdRun, here] at stepped
  cases stepped
  refine ⟨lists, first, ⟨shelved, inList_of_ne fun _ _ here => by cases here⟩, round.woken, ?_,
    fun k hk => ?_,
    fun _ => ⟨period, fun k hk => ?_⟩, (fun k here => by cases here), fun k running => ?_,
      fun k hk kept => ?_⟩
  · rw [List.map_append]
    refine List.nodup_append.mpr ⟨round.once, List.nodup_singleton h, fun k hk i hi same => ?_⟩
    obtain rfl : k = h := same.trans (List.mem_singleton.mp hi)
    exact uncalled hk
  · rcases wasCalled_append.mp hk with before | rfl
    · exact round.ours k before
    · exact ⟨mine, timeUp⟩
  · obtain ⟨inFirst, other, record⟩ := toVisit k hk
    refine ⟨inFirst, fun now => ?_, record⟩
    rcases wasCalled_append.mp now with before | rfl
    · exact other before
    · exact fresh hk
  · cases running
    exact wasCalled_append.mpr (.inr rfl)
  · rcases round.visited k hk kept with ⟨-, inside⟩ | done
    · exact .inl ⟨rfl, inside⟩
    · refine .inr (done.trans ?_)
      rw [here]
      constructor
      · rintro (before | same)
        · exact .inl (wasCalled_append.mpr (.inl before))
        · cases same
          exact .inl (wasCalled_append.mpr (.inr rfl))
      · rintro (now | same)
        · rcases wasCalled_append.mp now with before | rfl
          · exact .inl before
          · exact .inr rfl
        · cases same

/-- The callback has returned. -/
theorem holds_running {h : H} (lists_ : Lists s lists)
    (round : Round s (lists .lPrdTaskHeader) first) (here : s.place = .running h)
    (stepped : prdRun s tCurrent = some t) : Holds t := by
  have shelved := lists_.shelved
  have busy : s.place.busy = true := by rw [here]; rfl
  obtain ⟨period, toVisit⟩ := round.toVisit busy
  have entered := round.entered h here
  simp only [here] at shelved
  simp only [prdRun, here] at stepped
  cases stepped
  refine ⟨lists, first, ⟨shelved, inList_of_ne fun _ _ here => by cases here⟩, round.woken,
    round.once, round.ours,
    fun _ => ⟨period, fun k hk => ?_⟩, (fun k here => by cases here), (fun k here => by cases here),
      fun k hk kept => ?_⟩
  · obtain ⟨inFirst, other, record⟩ := toVisit k hk
    have apart : k ≠ h := fun same => other (same ▸ entered)
    exact ⟨inFirst, other, (Function.update_of_ne apart ..).trans record⟩
  · rcases round.visited k hk kept with ⟨-, inside⟩ | done
    · exact .inl ⟨rfl, inside⟩
    · refine .inr (done.trans ?_)
      rw [here]
      exact ⟨fun called => called.imp_right (fun here => by cases here),
        fun called => called.imp_right (fun here => by cases here)⟩

/-- The done tasks go back, one by one. -/
theorem holds_restoring (lists_ : Lists s lists) (round : Round s (lists .lPrdTaskHeader) first)
    (here : s.place = .restoring) (stepped : prdRun s tCurrent = some t) : Holds t := by
  have shelved := lists_.shelved
  have quiet : s.place.busy = true → lists .lPrdTaskHeader = [] := by
    rw [here]
    intro busy
    cases busy
  simp only [here] at shelved
  have list : Node.list ∈ (Place.restoring : Place H).heads := List.mem_cons_self
  simp only [prdRun, here, shelved.getNext list] at stepped
  cases done : lists .list with
  | nil =>
    simp only [done, List.head?_nil, Option.map_none] at stepped
    cases stepped
    refine ⟨lists, first, ⟨shelved.drop done, inList_of_ne fun _ _ here => by cases here⟩, ?_⟩
    exact round.rest (by simp [here]) quiet rfl
  | cons h r =>
    simp only [done, List.head?_cons, Option.map_some] at stepped
    cases stepped
    have moved := shelved.move list (header_mem _) (fun same => by cases same) done
    refine ⟨_, first, ⟨moved, inList_of_ne fun _ _ here => by cases here⟩, ?_⟩
    exact round.rest (by simp [here]) quiet rfl

theorem holds_collecting (lists_ : Lists s lists) (round : Round s (lists .lPrdTaskHeader) first)
    (here : s.place = .collecting) (stepped : prdRun s tCurrent = some t) : Holds t := by
  have shelved := lists_.shelved
  have quiet : s.place.busy = true → lists .lPrdTaskHeader = [] := by
    rw [here]
    intro busy
    cases busy
  simp only [here] at shelved
  have add : Node.lPrdTaskAdd ∈ (Place.collecting : Place H).heads := add_mem _
  simp only [prdRun, here, shelved.getNext add] at stepped
  cases added : lists .lPrdTaskAdd with
  | nil =>
    simp only [added, List.head?_nil, Option.map_none] at stepped
    cases stepped
    refine ⟨lists, first, ⟨shelved, inList_of_ne fun _ _ here => by cases here⟩, ?_⟩
    exact round.rest (by simp [here]) quiet rfl
  | cons h r =>
    simp only [added, List.head?_cons, Option.map_some] at stepped
    cases stepped
    have moved := shelved.move add (header_mem _) (fun same => by cases same) added
    refine ⟨_, first, ⟨moved, inList_of_ne fun _ _ here => by cases here⟩, ?_⟩
    exact round.rest (by simp [here]) quiet rfl

theorem holds_checking (lists_ : Lists s lists) (round : Round s (lists .lPrdTaskHeader) first)
    (here : s.place = .checking) (stepped : prdRun s tCurrent = some t) : Holds t := by
  have shelved := lists_.shelved
  have quiet : s.place.busy = true → lists .lPrdTaskHeader = [] := by
    rw [here]
    intro busy
    cases busy
  simp only [here] at shelved
  simp only [prdRun, here] at stepped
  split at stepped
  · cases stepped
    refine ⟨lists, first, ⟨shelved, inList_of_ne fun _ _ here => by cases here⟩, ?_⟩
    exact round.rest (by simp [here]) quiet rfl
  · cases stepped
    refine ⟨lists, first, ⟨shelved, fun pList tMinRemain at_ => ?_⟩, ?_⟩
    · cases at_
      have next := (shelved.ring (header_mem _)).next
      cases active : lists .lPrdTaskHeader with
      | nil => exact .inl (by rw [next, active]; rfl)
      | cons h r => exact .inr ⟨h, List.mem_cons_self, by rw [next, active]; rfl⟩
    · exact round.rest (by simp [here]) quiet rfl

/-- The search goes from task to task. -/
theorem holds_scanning {pList : Node H} {tMinRemain : UInt64} (lists_ : Lists s lists)
    (round : Round s (lists .lPrdTaskHeader) first) (here : s.place = .scanning pList tMinRemain)
    (stepped : prdRun s tCurrent = some t) : Holds t := by
  have shelved := lists_.shelved
  have quiet : s.place.busy = true → lists .lPrdTaskHeader = [] := by
    rw [here]
    intro busy
    cases busy
  simp only [here] at shelved
  rcases lists_.inList pList tMinRemain here with rfl | ⟨h, inside, rfl⟩
  · simp only [prdRun, here] at stepped
    cases stepped
    refine ⟨lists, first, ⟨shelved, inList_of_ne fun _ _ here => by cases here⟩, ?_⟩
    exact round.rest (by simp [here]) quiet rfl
  · simp only [prdRun, here] at stepped
    cases stepped
    refine ⟨lists, first, ⟨shelved, fun pList tMinRemain at_ => ?_⟩, ?_⟩
    · cases at_
      have after := (shelved.ring (header_mem _)).next_mem (map_task_mem.mpr inside)
      rcases List.mem_cons.mp after with head | task
      · exact .inl head
      · obtain ⟨k, hk, same⟩ := List.mem_map.mp task
        exact .inr ⟨k, hk, same.symm⟩
    · exact round.rest (by simp [here]) quiet rfl

/-- The wait is over: a round begins. -/
theorem holds_waiting {tUntil : UInt64} (lists_ : Lists s lists) (here : s.place = .waiting tUntil)
    (stepped : prdRun s tCurrent = some t) : Holds t := by
  have shelved := lists_.shelved
  simp only [here] at shelved
  simp only [prdRun, here] at stepped
  cases stepped
  have new := shelved.new (n := .list) (by simp [Place.heads]) (fun h same => by cases same)
  refine ⟨_, lists .lPrdTaskHeader, ⟨new, inList_of_ne fun _ _ here => by cases here⟩, ?_⟩
  have same : Function.update lists .list [] .lPrdTaskHeader = lists .lPrdTaskHeader := by simp
  rw [same]
  refine ⟨shelved.ring (header_mem _), List.nodup_nil, (fun k here => by cases here),
    fun _ => ⟨rfl, fun h hh => ?_⟩, (fun k here => by cases here), (fun k here => by cases here),
      fun h hh _ => .inl ⟨rfl, hh⟩⟩
  exact ⟨hh, (fun here => by cases here), rfl⟩

theorem holds_prdRun (h : Holds s) (stepped : prdRun s tCurrent = some t) : Holds t := by
  obtain ⟨lists, first, lists_, round⟩ := h
  cases here : s.place with
  | checking => exact holds_checking lists_ round here stepped
  | scanning pList tMinRemain => exact holds_scanning lists_ round here stepped
  | waiting tUntil => exact holds_waiting lists_ here stepped
  | moving => exact holds_moving lists_ round here stepped
  | calling h => exact holds_calling lists_ round here stepped
  | running h => exact holds_running lists_ round here stepped
  | restoring => exact holds_restoring lists_ round here stepped
  | collecting => exact holds_collecting lists_ round here stepped
  | ended => simp [prdRun, here] at stepped

/-- Another thread, or the callback, adds a task that is not registered. -/
theorem holds_add {h : H} {fnTask : Option F} {tTimeout : UInt64} {pArg : P} (holds : Holds s)
    (new : s.registered h = false) (free : s.place.free = true) :
    Holds (prdAddTask s h fnTask tTimeout pArg) := by
  cases fnTask with
  | none => exact holds
  | some fnTask =>
    obtain ⟨lists, first, lists_, round⟩ := holds
    have shelved := lists_.shelved
    have added := shelved.add (add_mem s.place) new
    have same : Function.update lists .lPrdTaskAdd (lists .lPrdTaskAdd ++ [h]) .lPrdTaskHeader =
        lists .lPrdTaskHeader := by simp
    refine ⟨_, first, ⟨added, fun pList tMinRemain here => ?_⟩, ?_⟩
    · have scanning : s.place = .scanning pList tMinRemain := here
      rw [scanning] at free
      cases free
    · rw [same]
      refine ⟨round.woken, round.once, round.ours, fun busy => ?_, round.pending, round.entered,
        round.visited⟩
      obtain ⟨period, toVisit⟩ := round.toVisit busy
      refine ⟨period, fun k hk => ?_⟩
      obtain ⟨inFirst, other, record⟩ := toVisit k hk
      have apart : k ≠ h := by
        rintro rfl
        rw [(shelved.registered k).mpr ⟨_, header_mem _, hk⟩] at new
        cases new
      exact ⟨inFirst, other, (Function.update_of_ne apart ..).trans record⟩

/-- Another thread, or the callback, deletes a registered task from whichever list it is on. -/
theorem holds_del {h : H} {other : Bool} (holds : Holds s) (old : s.registered h = true)
    (free : s.place.free = true) : Holds (prdDelTask s other h) := by
  obtain ⟨lists, first, lists_, round⟩ := holds
  have shelved := lists_.shelved
  obtain ⟨n, hn, inside⟩ := (shelved.registered h).mp old
  obtain ⟨l, r, here⟩ := List.append_of_mem inside
  have removed := shelved.del hn here
  have sub : ∀ k, k ∈ Function.update lists n (l ++ r) .lPrdTaskHeader → k ∈
    lists .lPrdTaskHeader := by
    intro k hk
    by_cases source : n = .lPrdTaskHeader
    · subst source
      rw [Function.update_self] at hk
      rw [here]
      exact List.Sublist.mem hk (List.Sublist.append_left (List.sublist_cons_self h r) l)
    · rwa [Function.update_of_ne (Ne.symm source)] at hk
  have keep : ∀ k ∈ lists .lPrdTaskHeader, k ≠ h →
      k ∈ Function.update lists n (l ++ r) .lPrdTaskHeader := by
    intro k hk apart
    by_cases source : n = .lPrdTaskHeader
    · subst source
      rw [Function.update_self]
      rw [here] at hk
      simpa [apart] using hk
    · rwa [Function.update_of_ne (Ne.symm source)]
  refine ⟨_, first, ⟨removed, fun pList tMinRemain here => ?_⟩, round.woken, round.once, round.ours,
    fun busy => ?_, fun k pending => ?_, round.entered, fun k hk kept => ?_⟩
  · have scanning : s.place = .scanning pList tMinRemain := here
    rw [scanning] at free
    cases free
  · obtain ⟨period, toVisit⟩ := round.toVisit busy
    exact ⟨period, fun k hk => toVisit k (sub k hk)⟩
  · obtain ⟨inFirst, timeUp, uncalled, fresh⟩ := round.pending k pending
    exact ⟨inFirst, timeUp, uncalled, fun inside => fresh (sub k inside)⟩
  · by_cases self : k = h
    · subst self
      have deleted : Function.update s.deleted k true k = true := Function.update_self ..
      cases deleted.symm.trans kept
    · have before : s.deleted k = false := (Function.update_of_ne self ..).symm.trans kept
      rcases round.visited k hk before with ⟨busy, inside⟩ | done
      · exact .inl ⟨busy, keep k inside self⟩
      · exact .inr done

omit [DecidableEq H] in
theorem free_of_admits {other : Bool} {place : Place H} (admits : place.admits other = true) :
    place.free = true := by
  cases place <;> cases other <;> first | rfl | cases admits

theorem holds_step {action : Action H F P} (holds : Holds s) (stepped : step s action = some t) :
    Holds t := by
  cases action with
  | prdRun tCurrent => exact holds_prdRun holds stepped
  | prdAddTask other pHandle fnTask tTimeout pArg =>
    simp only [step] at stepped
    split at stepped
    · rename_i enabled
      cases stepped
      exact holds_add holds enabled.2 (free_of_admits enabled.1)
    · cases stepped
  | prdDelTask other pHandle =>
    simp only [step] at stepped
    split at stepped
    · rename_i enabled
      cases stepped
      exact holds_del holds enabled.2 (free_of_admits enabled.1)
    · cases stepped
  | prdExit =>
    simp only [step] at stepped
    split at stepped
    · cases stepped
      obtain ⟨lists, first, lists_, round⟩ := holds
      exact ⟨lists, first, ⟨lists_.shelved, lists_.inList⟩, round.woken, round.once, round.ours,
        round.toVisit, round.pending, round.entered, round.visited⟩
    · cases stepped

end

end Rovio.Period
