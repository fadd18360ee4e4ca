import Rovio.Period.Task

/-! The three lists of tasks. Whatever the period thread, its callbacks and the other threads do,
the links of the heads are rings that share no node, and hold the registered tasks. -/
namespace Rovio.Period
open Kit

variable {H F P : Type} [DecidableEq H]

/-- The rings have the tasks of the lists as their nodes, and these are the registered ones. -/
structure Shelved (links : Links (Node H)) (heads : List (Node H)) (lists : Node H → List H)
    (registered : H → Bool) : Prop where
  rings : Rings links heads fun n => (lists n).map .task
  registered : ∀ h, registered h = true ↔ ∃ n ∈ heads, h ∈ lists n
  noTask : ∀ h, .task h ∉ heads

section
variable {links : Links (Node H)} {heads : List (Node H)} {lists : Node H → List H}
  {registered : H → Bool}

theorem map_update (n : Node H) (l : List H) :
    Function.update (fun n => (lists n).map Node.task) n (l.map .task) =
      fun k => (Function.update lists n l k).map .task := by
  funext k
  by_cases same : k = n
  · rw [same, Function.update_self, Function.update_self]
  · rw [Function.update_of_ne same, Function.update_of_ne same]

omit [DecidableEq H] in
theorem map_task_mem {h : H} {l : List H} : Node.task h ∈ l.map .task ↔ h ∈ l := by
  simp

omit [DecidableEq H] in
/-- A task that is on none of the lists. -/
theorem outside_of_not_mem {h : H} (noTask : ∀ h, .task h ∉ heads)
    (absent : ∀ n ∈ heads, h ∉ lists n) :
    Outside heads (fun n => (lists n).map .task) (.task h) := by
  intro n hn inside
  rcases List.mem_cons.mp inside with same | inside
  · exact noTask h (same ▸ hn)
  · exact absent n hn (map_task_mem.mp inside)

namespace Shelved

omit [DecidableEq H] in
theorem ring (h : Shelved links heads lists registered) {n : Node H} (hn : n ∈ heads) :
    Ring links n ((lists n).map .task) :=
  h.rings.ring n hn

/-- The next node of a head is its first task. -/
theorem getNext (h : Shelved links heads lists registered) {n : Node H} (hn : n ∈ heads) :
    listGetNext links n = (lists n).head?.map .task := by
  have next := (h.ring hn).next
  unfold listGetNext
  cases here : lists n with
  | nil =>
    rw [here] at next
    exact if_pos next
  | cons t r =>
    have first : links.pNext n = .task t := by rw [next, here]; rfl
    have inner : links.pNext n ≠ n := fun alone => h.noTask t ((first.symm.trans alone) ▸ hn)
    rw [if_neg inner, first]
    rfl

/-- A task is on one list only, and once. -/
theorem unique (h : Shelved links heads lists registered) {n k : Node H} (hn : n ∈ heads)
    (hk : k ∈ heads) {t : H} (left : t ∈ lists n) (right : t ∈ lists k) : n = k := by
  by_contra other
  have apart := h.rings.apart n hn k hk other
  exact apart (.task t) (List.mem_cons_of_mem n (map_task_mem.mpr left))
    (List.mem_cons_of_mem k (map_task_mem.mpr right))

omit [DecidableEq H] in
theorem nodup (h : Shelved links heads lists registered) {n : Node H} (hn : n ∈ heads) :
    (lists n).Nodup :=
  List.Nodup.of_map _ (List.nodup_cons.mp (h.ring hn).2).2

theorem add (h : Shelved links heads lists registered) {n : Node H} (hn : n ∈ heads) {t : H}
    (new : registered t = false) :
    Shelved (listAttach (listInit links (.task t)) (.task t) n) heads
      (Function.update lists n (lists n ++ [t])) (Function.update registered t true) := by
  have absent : ∀ k ∈ heads, t ∉ lists k := fun k hk inside => by
    rw [(h.registered t).mpr ⟨k, hk, inside⟩] at new
    cases new
  have outside := outside_of_not_mem h.noTask absent
  have rings := (h.rings.init outside).attach (init_alone links (.task t)) outside hn
  refine ⟨?_, fun u => ?_, h.noTask⟩
  · have same := @map_update H _ lists n (lists n ++ [t])
    rw [List.map_append] at same
    exact same ▸ rings
  · by_cases same : u = t
    · subst same
      simp only [Function.update_self, true_iff]
      exact ⟨n, hn, by simp⟩
    · rw [Function.update_of_ne same, h.registered]
      refine exists_congr fun k => and_congr_right fun _ => ?_
      by_cases here : k = n
      · subst here
        simp [same]
      · rw [Function.update_of_ne here]

/-- A task leaves its list. -/
theorem del (h : Shelved links heads lists registered) {n : Node H} (hn : n ∈ heads) {t : H}
    {l r : List H} (here : lists n = l ++ t :: r) :
    Shelved (listDetach links (.task t)) heads (Function.update lists n (l ++ r))
      (Function.update registered t false) := by
  have split : (lists n).map Node.task = l.map .task ++ .task t :: r.map .task := by
    rw [here, List.map_append, List.map_cons]
  obtain ⟨rings, -, outside⟩ := h.rings.detach hn split
  have same := @map_update H _ lists n (l ++ r)
  rw [List.map_append] at same
  rw [same] at rings outside
  refine ⟨rings, fun u => ?_, h.noTask⟩
  by_cases self : u = t
  · subst self
    simp only [Function.update_self, Bool.false_eq_true, false_iff]
    rintro ⟨k, hk, inside⟩
    exact outside k hk (List.mem_cons_of_mem k (map_task_mem.mpr inside))
  · rw [Function.update_of_ne self, h.registered]
    refine exists_congr fun k => and_congr_right fun _ => ?_
    by_cases at_ : k = n
    · subst at_
      simp [here, self]
    · rw [Function.update_of_ne at_]

/-- The first task of a list goes to the end of another one. -/
theorem move (h : Shelved links heads lists registered) {n k : Node H} (hn : n ∈ heads)
    (hk : k ∈ heads) (other : k ≠ n) {t : H} {r : List H} (here : lists n = t :: r) :
    Shelved (listAttach (listDetach links (.task t)) (.task t) k) heads
      (Function.update (Function.update lists n r) k (lists k ++ [t])) registered := by
  have split : (lists n).map Node.task = .task t :: r.map .task := by
    rw [here, List.map_cons]
  have rings := h.rings.move hn hk split
  simp only [map_update, Function.update_of_ne other] at rings
  have same := @map_update H _ (Function.update lists n r) k (lists k ++ [t])
  rw [List.map_append] at same
  refine ⟨same ▸ rings, fun u => ?_, h.noTask⟩
  rw [h.registered]
  constructor
  · rintro ⟨i, hi, inside⟩
    by_cases source : i = n
    · subst source
      rw [here] at inside
      rcases List.mem_cons.mp inside with rfl | inside
      · exact ⟨k, hk, by simp⟩
      · exact ⟨i, hi, by simp [Ne.symm other, inside]⟩
    · by_cases target : i = k
      · subst target
        exact ⟨i, hi, by simp [inside]⟩
      · exact ⟨i, hi, by simp [source, target, inside]⟩
  · rintro ⟨i, hi, inside⟩
    by_cases target : i = k
    · subst target
      rw [Function.update_self] at inside
      rcases List.mem_append.mp inside with inside | inside
      · exact ⟨i, hi, inside⟩
      · obtain rfl := List.mem_singleton.mp inside
        exact ⟨n, hn, here ▸ List.mem_cons_self⟩
    · rw [Function.update_of_ne target] at inside
      by_cases source : i = n
      · subst source
        rw [Function.update_self] at inside
        exact ⟨i, hi, here ▸ List.mem_cons_of_mem t inside⟩
      · rw [Function.update_of_ne source] at inside
        exact ⟨i, hi, inside⟩

/-- A new list, empty. -/
theorem new (h : Shelved links heads lists registered) {n : Node H} (fresh : n ∉ heads)
    (noTask : ∀ t, n ≠ .task t) :
    Shelved (listInit links n) (n :: heads) (Function.update lists n []) registered := by
  have same : ∀ k ∈ heads, Function.update lists n [] k = lists k := fun k hk =>
    have other : k ≠ n := fun self => fresh (self ▸ hk)
    Function.update_of_ne other ..
  have outside : Outside heads (fun k => (Function.update lists n [] k).map .task) n := by
    intro k hk inside
    rcases List.mem_cons.mp inside with self | inside
    · exact fresh (self ▸ hk)
    · obtain ⟨t, -, task⟩ := List.mem_map.mp inside
      exact noTask t task.symm
  have rings : Rings links heads fun k => (Function.update lists n [] k).map .task := by
    refine ⟨fun k hk => ?_, fun k hk i hi => ?_⟩
    · simp only [same k hk]
      exact h.ring hk
    · simp only [same k hk, same i hi]
      exact h.rings.apart k hk i hi
  refine ⟨rings.empty outside (by simp), fun t => ?_, fun t hh => ?_⟩
  · rw [h.registered]
    constructor
    · rintro ⟨k, hk, inside⟩
      exact ⟨k, List.mem_cons_of_mem n hk, (same k hk).symm ▸ inside⟩
    · rintro ⟨k, hk, inside⟩
      rcases List.mem_cons.mp hk with rfl | hk
      · rw [Function.update_self] at inside
        cases inside
      · exact ⟨k, hk, same k hk ▸ inside⟩
  · rcases List.mem_cons.mp hh with task | hh
    · exact noTask t task.symm
    · exact h.noTask t hh

omit [DecidableEq H] in
/-- An empty list is given up. -/
theorem drop {n : Node H} (h : Shelved links (n :: heads) lists registered) (empty : lists n = []) :
    Shelved links heads lists registered := by
  refine ⟨h.rings.sub (List.subset_cons_self n heads), fun t => ?_,
    fun t hh => h.noTask t (List.mem_cons_of_mem n hh)⟩
  rw [h.registered]
  constructor
  · rintro ⟨k, hk, inside⟩
    rcases List.mem_cons.mp hk with rfl | hk
    · rw [empty] at inside
      cases inside
    · exact ⟨k, hk, inside⟩
  · rintro ⟨k, hk, inside⟩
    exact ⟨k, List.mem_cons_of_mem n hk, inside⟩

end Shelved
end

/-- The lists that there are at a place: that of the round is one of them during its loops. -/
def Place.heads : Place H → List (Node H)
  | .moving | .calling _ | .running _ | .restoring => [.list, .lPrdTaskAdd, .lPrdTaskHeader]
  | _ => [.lPrdTaskAdd, .lPrdTaskHeader]

/-- The search stands at the head, or at a task of its list. -/
def Place.inList (place : Place H) (active : List H) : Prop :=
  ∀ pList tMinRemain, place = .scanning pList tMinRemain →
    pList = .lPrdTaskHeader ∨ ∃ h ∈ active, pList = .task h

structure Lists (s : System H F P) (lists : Node H → List H) : Prop where
  shelved : Shelved s.memory.links s.place.heads lists s.registered
  inList : s.place.inList (lists .lPrdTaskHeader)

omit [DecidableEq H] in
theorem header_mem (place : Place H) : .lPrdTaskHeader ∈ place.heads := by
  cases place <;> simp [Place.heads]

omit [DecidableEq H] in
theorem add_mem (place : Place H) : .lPrdTaskAdd ∈ place.heads := by
  cases place <;> simp [Place.heads]

end Rovio.Period
