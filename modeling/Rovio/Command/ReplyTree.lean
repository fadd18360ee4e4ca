import Rovio.Command.Reply

/-! The tree of a reply is its entries grouped by their names. -/
namespace Rovio.Reply
open Kit

variable {A : Type} {mk : Text → A → XML}

/-- The node of a group: its only value's own, or an array. -/
def groupNode (mk : Text → A → XML) : Text × List A → XML
  | (k, [a]) => mk k a
  | (k, values) => .node arrayName k false (values.map (mk k))

/-- Each entry has a plain node under its name. -/
def Plain (mk : Text → A → XML) : Prop := ∀ k a, (mk k a).pcName = k ∧ (mk k a).acArray = []

def build (mk : Text → A → XML) (entries : List (Text × A)) : List XML :=
  entries.foldl (fun plSubXML e => appendXMLArray e.1 (mk e.1 e.2) [] plSubXML) []

theorem runSubCmd_build (calls : Calls) : runSubCmd calls = build keyNode calls := rfl

theorem httpCommonReply_build (subCmds : List (Text × Calls)) :
    httpCommonReply subCmds = build cmdNode subCmds := rfl

theorem keyNode_plain : Plain keyNode := fun _ _ => ⟨rfl, rfl⟩

theorem cmdNode_plain : Plain cmdNode := fun _ _ => ⟨rfl, rfl⟩

theorem groupNode_several (mk : Text → A → XML) (k : Text) {values : List A}
    (several : values.length ≠ 1) :
    groupNode mk (k, values) = .node arrayName k false (values.map (mk k)) := by
  unfold groupNode
  split
  · rename_i same
    cases same
    exact absurd rfl several
  · rename_i same
    cases same
    rfl

/-- One call adds to the groups, where nothing is taken for the key `Array`. -/
theorem append_groups (plain : Plain mk) {k : Text} (a : A) (named : k ≠ [])
    {groups : Groups Text A} (filled : ∀ g ∈ groups, g.2 ≠ [])
    (free : k = arrayName → blocked k groups = false) (pre : Groups Text A) :
    appendXMLArray k (mk k a) (pre.map (groupNode mk)) (groups.map (groupNode mk)) =
      (addGroup k a pre groups).map (groupNode mk) := by
  induction groups generalizing pre with
  | nil =>
    show pre.map (groupNode mk) ++ [mk k a] = (pre ++ [(k, [a])]).map (groupNode mk)
    rw [List.map_append]
    rfl
  | cons g rest ih =>
    obtain ⟨k', values⟩ := g
    obtain ⟨some, more⟩ := List.forall_mem_cons.mp filled
    have next : pre.map (groupNode mk) ++ [groupNode mk (k', values)] =
        (pre ++ [(k', values)]).map (groupNode mk) := by
      rw [List.map_append]
      rfl
    rw [List.map_cons, appendXMLArray, addGroup]
    cases values with
    | nil => exact absurd rfl some
    | cons x later =>
      cases later with
      | nil =>
        obtain ⟨own, noArray⟩ := plain k' x
        show (if (mk k' x).acArray = k then _ else if (mk k' x).pcName = k then _ else _) = _
        rw [noArray, own, if_neg (Ne.symm named)]
        by_cases same : k' = k
        · subst same
          rw [if_pos rfl, if_pos rfl, addTo_single, List.map_append, List.map_append]
          rfl
        · rw [if_neg same, if_neg same, next]
          apply ih more
          intro array
          have rest := free array
          rw [blocked, if_neg same] at rest
          exact rest
      | cons y others =>
        show (if k' = k then _ else if arrayName = k then _ else _) = _
        by_cases same : k' = k
        · subst same
          rw [if_pos rfl, if_pos rfl, addTo_several (by simp), List.map_append, List.map_cons,
            groupNode_several mk k' (by simp), groupNode_several mk k' (by simp), List.map_append]
          rfl
        · rw [if_neg same, if_neg same]
          by_cases array : arrayName = k
          · have now := free array.symm
            rw [blocked, if_neg same, if_neg (by simp)] at now
            cases now
          · rw [if_neg array, next]
            exact ih more (fun same => absurd same.symm array) _

theorem build_append (mk : Text → A → XML) (entries : List (Text × A)) (e : Text × A) :
    build mk (entries ++ [e]) = appendXMLArray e.1 (mk e.1 e.2) [] (build mk entries) := by
  unfold build
  rw [List.foldl_append]
  rfl

/-- The nodes are those of the groups. -/
theorem build_regroup (plain : Plain mk) (entries : List (Text × A))
    (named : ∀ e ∈ entries, e.1 ≠ [])
    (free : ∀ before v after, entries = before ++ (arrayName, v) :: after →
      blocked arrayName (regroup before) = false) :
    build mk entries = (regroup entries).map (groupNode mk) := by
  induction entries using List.reverseRecOn with
  | nil => rfl
  | append_singleton entries e ih =>
    have earlier : build mk entries = (regroup entries).map (groupNode mk) := by
      apply ih
      · exact fun e mem => named e (List.mem_append_left _ mem)
      · rintro before v after rfl
        exact free before v (after ++ [e]) (by simp)
    rw [build_append, regroup_append, earlier]
    apply append_groups plain e.2 (named e (by simp)) (regroup_grouping entries).filled _ []
    intro array
    rw [array]
    apply free entries e.2 []
    rw [← array]

theorem runSubCmd_groups {calls : Calls} (named : ∀ call ∈ calls, call.1 ≠ [])
    (apart : Apart arrayName (calls.map Prod.fst)) :
    runSubCmd calls = (regroup calls).map (groupNode keyNode) :=
  build_regroup keyNode_plain calls named ((unblocked_iff arrayName calls).mpr apart)

theorem request_groups (request : Request) : httpCommonReply request.subCmds =
    (regroup request.subCmds).map (groupNode cmdNode) := by
  apply build_regroup cmdNode_plain
  · exact fun s mem => (request.registered s mem).1
  · intro before v after split
    have mem : (arrayName, v) ∈ request.subCmds := by
      rw [split]
      simp
    exact absurd rfl (request.registered _ mem).2

/-- The runs in a sub-command's group are its runs in the request. -/
theorem run_mem {entries : List (Text × A)} {k : Text} {values : List A} {a : A}
    (group : (k, values) ∈ regroup entries) (mem : a ∈ values) : (k, a) ∈ entries := by
  have own : values = valuesOf k entries := (regroup_grouping entries).values _ group
  rw [own] at mem
  obtain ⟨e, here, rfl⟩ := List.mem_map.mp mem
  obtain ⟨mem, same⟩ := List.mem_filter.mp here
  rw [← of_decide_eq_true same]
  exact mem

/-- The grouping that the tree makes. -/
def treeArrangement : Arrangement := ⟨regroup, regroup_grouping⟩

end Rovio.Reply
