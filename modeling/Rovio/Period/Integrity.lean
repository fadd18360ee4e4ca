import Rovio.Period.Round

/-! Every run of the period thread with its callbacks and the other threads. -/
namespace Rovio.Period
open Kit

variable {H F P : Type} [DecidableEq H]

/-- The links of the heads are rings through the tasks of the three lists, each registered task
is on one of them, once, and no other task is. The list of the round is there during the round. -/
structure Intact (s : System H F P) (active added done : List H) : Prop where
  header : Ring s.memory.links .lPrdTaskHeader (active.map .task)
  add : Ring s.memory.links .lPrdTaskAdd (added.map .task)
  list : if .list ∈ s.place.heads then Ring s.memory.links .list (done.map .task) else done = []
  once : (active ++ added ++ done).Nodup
  registered : ∀ h, s.registered h = true ↔ h ∈ active ++ added ++ done

/-- A round, whose active tasks were `first`, calls no task twice, and only tasks whose time was
over; behind its loop it has called all of these but those deleted meanwhile. -/
structure Fair (s : System H F P) (first : List H) : Prop where
  woken : Ring s.atWake.links .lPrdTaskHeader (first.map .task)
  once : (s.called.map Prod.fst).Nodup
  only : ∀ h, s.wasCalled h → h ∈ first ∧ s.expired h
  all : s.place.busy = false → ∀ h ∈ first, s.deleted h = false → s.expired h → s.wasCalled h

theorem Lists.intact {s : System H F P} {lists : Node H → List H} (h : Lists s lists) :
    ∃ active added done, Intact s active added done := by
  have shelved := h.shelved
  have header := header_mem s.place
  have add := add_mem s.place
  have apart : ∀ {n k : Node H}, n ∈ s.place.heads → k ∈ s.place.heads → n ≠ k →
      ∀ t ∈ lists n, ∀ u ∈ lists k, t ≠ u :=
    fun hn hk other t left u right same => other (shelved.unique hn hk left (same ▸ right))
  have two : (lists .lPrdTaskHeader ++ lists .lPrdTaskAdd).Nodup :=
    List.nodup_append.mpr ⟨shelved.nodup header, shelved.nodup add, apart header add nofun⟩
  by_cases list : .list ∈ s.place.heads
  · refine ⟨lists .lPrdTaskHeader, lists .lPrdTaskAdd, lists .list, shelved.ring header,
      shelved.ring add, ?_, ?_, fun h => ?_⟩
    · rw [if_pos list]
      exact shelved.ring list
    · refine List.nodup_append.mpr ⟨two, shelved.nodup list, fun t left u right => ?_⟩
      rcases List.mem_append.mp left with active | added
      · exact apart header list nofun t active u right
      · exact apart add list nofun t added u right
    · rw [shelved.registered]
      constructor
      · rintro ⟨n, hn, inside⟩
        cases n with
        | lPrdTaskHeader => simp [inside]
        | lPrdTaskAdd => simp [inside]
        | list => simp [inside]
        | task t => exact absurd hn (shelved.noTask t)
      · intro inside
        rcases List.mem_append.mp inside with inside | done
        · rcases List.mem_append.mp inside with active | added
          · exact ⟨_, header, active⟩
          · exact ⟨_, add, added⟩
        · exact ⟨_, list, done⟩
  · refine ⟨lists .lPrdTaskHeader, lists .lPrdTaskAdd, [], shelved.ring header,
      shelved.ring add, if_neg list ▸ rfl, by simpa using two, fun h => ?_⟩
    rw [shelved.registered]
    constructor
    · rintro ⟨n, hn, inside⟩
      cases n with
      | lPrdTaskHeader => simp [inside]
      | lPrdTaskAdd => simp [inside]
      | list => exact absurd hn list
      | task t => exact absurd hn (shelved.noTask t)
    · intro inside
      rw [List.append_nil] at inside
      rcases List.mem_append.mp inside with active | added
      · exact ⟨_, header, active⟩
      · exact ⟨_, add, added⟩

omit [DecidableEq H] in
theorem Round.fair {s : System H F P} {active first : List H} (h : Round s active first) :
    Fair s first where
  woken := h.woken
  once := h.once
  only := h.ours
  all timeUp k hk kept expired := by
    rcases h.visited k hk kept with ⟨busy, -⟩ | same
    · rw [timeUp] at busy
      cases busy
    · rcases same.mp expired with called | pending
      · exact called
      · rw [pending] at timeUp
        cases timeUp

theorem holds_start (links : Links (Node H)) (tasks : H → PrdTask F P) (tLastCheck : UInt64) :
    Holds (start links tasks tLastCheck) := by
  have none : Shelved links [] (fun _ => ([] : List H)) fun _ => false :=
    ⟨⟨nofun, nofun⟩, fun h => ⟨nofun, fun ⟨n, hn, _⟩ => by cases hn⟩, fun h => nofun⟩
  have both := (none.new (n := .lPrdTaskHeader) nofun nofun).new (n := .lPrdTaskAdd) (by simp) nofun
  refine ⟨_, [], ⟨both, inList_of_ne nofun⟩, ?_⟩
  refine ⟨?_, List.nodup_nil, nofun, nofun, nofun, nofun, nofun⟩
  have empty : Ring (listInit (listInit links .lPrdTaskHeader) .lPrdTaskAdd) .lPrdTaskHeader [] := by
    simpa using both.ring (header_mem (Place.checking : Place H))
  exact empty

/-- A step, as a relation. -/
def Steps (s : System H F P) (action : Action H F P) (t : System H F P) : Prop :=
  step s action = some t

end Rovio.Period
