import Mathlib.Data.List.Basic
import Mathlib.Data.List.Induction
import Mathlib.Data.List.Nodup

/-! Entries grouped by their keys as they come. A key's second value moves its group to the end;
further values are added to the group where it stands. -/
namespace Kit

universe u v
variable {K : Type u} {A : Type v}

abbrev Groups (K : Type u) (A : Type v) := List (K × List A)

/-- A group of one value that gets a second one. -/
def addTo (k : K) (a : A) (pre post : Groups K A) : List A → Groups K A
  | [single] => pre ++ post ++ [(k, [single, a])]
  | values => pre ++ (k, values ++ [a]) :: post

def addGroup [DecidableEq K] (k : K) (a : A) (pre : Groups K A) : Groups K A → Groups K A
  | [] => pre ++ [(k, [a])]
  | g :: post =>
    if g.1 = k then addTo k a pre post g.2 else addGroup k a (pre ++ [g]) post

def regroup [DecidableEq K] (entries : List (K × A)) : Groups K A :=
  entries.foldl (fun groups e => addGroup e.1 e.2 [] groups) []

def keysOf (groups : Groups K A) : List K := groups.map Prod.fst

/-- The values that came with a key, in their order. -/
def valuesOf [DecidableEq K] (k : K) (entries : List (K × A)) : List A :=
  (entries.filter fun e => e.1 = k).map Prod.snd

/-- Every entry is in the one group of its key, the values of a group in their order. -/
structure Grouping [DecidableEq K] (entries : List (K × A)) (groups : Groups K A) : Prop where
  nodup : (keysOf groups).Nodup
  values : ∀ g ∈ groups, g.2 = valuesOf g.1 entries
  filled : ∀ g ∈ groups, g.2 ≠ []
  all : ∀ e ∈ entries, e.1 ∈ keysOf groups

variable {k : K} {a : A} {pre post groups : Groups K A} {values : List A}
  {entries : List (K × A)}

theorem addTo_single (single : A) :
    addTo k a pre post [single] = pre ++ post ++ [(k, [single, a])] := rfl

theorem addTo_several (several : values.length ≠ 1) :
    addTo k a pre post values = pre ++ (k, values ++ [a]) :: post := by
  unfold addTo
  split
  · exact absurd rfl several
  · rfl

@[simp] theorem keysOf_append (l r : Groups K A) : keysOf (l ++ r) = keysOf l ++ keysOf r :=
  List.map_append

@[simp] theorem keysOf_cons (g : K × List A) (r : Groups K A) :
    keysOf (g :: r) = g.1 :: keysOf r := rfl

@[simp] theorem keysOf_nil : keysOf ([] : Groups K A) = [] := rfl

/-- The entries up to some key among their keys. -/
theorem split_keys {entries : List (K × A)} {before after : List K}
    (split : entries.map Prod.fst = before ++ k :: after) : ∃ left v right,
    entries = left ++ (k, v) :: right ∧ left.map Prod.fst = before ∧
      right.map Prod.fst = after := by
  obtain ⟨left, others, rfl, same, rest⟩ := List.map_eq_append_iff.mp split
  obtain ⟨e, right, rfl, key, last⟩ := List.map_eq_cons_iff.mp rest
  refine ⟨left, e.2, right, ?_, same, last⟩
  rw [← key]

variable [DecidableEq K]

theorem addGroup_found (others : k ∉ keysOf groups) (pre : Groups K A) :
    addGroup k a pre (groups ++ (k, values) :: post) = addTo k a (pre ++ groups) post values := by
  induction groups generalizing pre with
  | nil =>
    rw [List.append_nil]
    exact if_pos rfl
  | cons g rest ih =>
    have other : g.1 ≠ k := fun same => others (same ▸ List.mem_cons_self)
    have more : k ∉ keysOf rest := fun mem => others (List.mem_cons_of_mem _ mem)
    rw [List.cons_append, addGroup, if_neg other, ih more, List.append_assoc]
    rfl

theorem addGroup_absent (absent : k ∉ keysOf groups) (pre : Groups K A) :
    addGroup k a pre groups = pre ++ (groups ++ [(k, [a])]) := by
  induction groups generalizing pre with
  | nil => rfl
  | cons g rest ih =>
    have other : g.1 ≠ k := fun same => absent (same ▸ List.mem_cons_self)
    have more : k ∉ keysOf rest := fun mem => absent (List.mem_cons_of_mem _ mem)
    rw [addGroup, if_neg other, ih more, List.append_assoc]
    rfl

/-- Where a key's group stands. -/
theorem group_split (mem : k ∈ keysOf groups) : ∃ pre values post,
    groups = pre ++ (k, values) :: post ∧ k ∉ keysOf pre := by
  induction groups with
  | nil => cases mem
  | cons g rest ih =>
    by_cases same : g.1 = k
    · exact ⟨[], g.2, rest, by rw [← same]; rfl, List.not_mem_nil⟩
    · have more : k ∈ keysOf rest := by
        rcases List.mem_cons.mp mem with here | there
        · exact absurd here.symm same
        · exact there
      obtain ⟨pre, values, post, rfl, others⟩ := ih more
      refine ⟨g :: pre, values, post, rfl, ?_⟩
      intro mem
      rcases List.mem_cons.mp mem with here | there
      · exact same here.symm
      · exact others there

theorem mem_keysOf_add (x : K) : x ∈ keysOf (addGroup k a [] groups) ↔
    x = k ∨ x ∈ keysOf groups := by
  by_cases mem : k ∈ keysOf groups
  · obtain ⟨pre, values, post, rfl, others⟩ := group_split mem
    rw [addGroup_found others, List.nil_append]
    match values with
    | [single] =>
      simp only [addTo_single, keysOf_append, keysOf_cons, keysOf_nil, List.mem_append,
        List.mem_cons, List.not_mem_nil]
      tauto
    | [] | _ :: _ :: _ =>
      rw [addTo_several (by simp)]
      simp only [keysOf_append, keysOf_cons, List.mem_append, List.mem_cons]
      tauto
  · rw [addGroup_absent mem, List.nil_append]
    simp only [keysOf_append, keysOf_cons, keysOf_nil, List.mem_append, List.mem_cons,
      List.not_mem_nil]
    tauto

theorem valuesOf_append (k : K) (entries : List (K × A)) (e : K × A) :
    valuesOf k (entries ++ [e]) = valuesOf k entries ++ if e.1 = k then [e.2] else [] := by
  unfold valuesOf
  rw [List.filter_append, List.map_append]
  congr 1
  by_cases same : e.1 = k
  · rw [if_pos same, List.filter_cons_of_pos (by simpa using same)]
    rfl
  · rw [if_neg same, List.filter_cons_of_neg (by simpa using same)]
    rfl

theorem valuesOf_length (k : K) (entries : List (K × A)) :
    (valuesOf k entries).length = (entries.map Prod.fst).count k := by
  unfold valuesOf
  rw [List.length_map, List.count, List.countP_map, List.countP_eq_length_filter]
  rfl

theorem valuesOf_absent (absent : ∀ e ∈ entries, e.1 ≠ k) : valuesOf k entries = [] := by
  unfold valuesOf
  rw [List.filter_eq_nil_iff.mpr (by simpa using absent)]
  rfl

/-- The group that is added to, and all the others as they were. -/
theorem mem_addGroup (nodup : (keysOf groups).Nodup) {g : K × List A}
    (mem : g ∈ addGroup k a [] groups) :
    (g.1 ≠ k ∧ g ∈ groups) ∨ (g.1 = k ∧ ((k ∉ keysOf groups ∧ g.2 = [a]) ∨
      ∃ values, (k, values) ∈ groups ∧ g.2 = values ++ [a])) := by
  by_cases known : k ∈ keysOf groups
  · obtain ⟨pre, values, post, rfl, others⟩ := group_split known
    have after : k ∉ keysOf post := by
      rw [keysOf_append, keysOf_cons] at nodup
      exact (List.nodup_cons.mp (List.nodup_append.mp nodup).2.1).1
    rw [addGroup_found others, List.nil_append] at mem
    have rest : g ∈ pre ++ post ∨ g = (k, values ++ [a]) := by
      match values with
      | [single] =>
        rw [addTo_single] at mem
        rcases List.mem_append.mp mem with old | new
        · exact .inl old
        · exact .inr (List.mem_singleton.mp new)
      | [] | _ :: _ :: _ =>
        rw [addTo_several (by simp)] at mem
        rcases List.mem_append.mp mem with old | new
        · exact .inl (List.mem_append_left _ old)
        · rcases List.mem_cons.mp new with here | old
          · exact .inr here
          · exact .inl (List.mem_append_right _ old)
    rcases rest with old | rfl
    · left
      have key : g.1 ∈ keysOf pre ∨ g.1 ∈ keysOf post := by
        rcases List.mem_append.mp old with left | right
        · exact .inl (List.mem_map_of_mem left)
        · exact .inr (List.mem_map_of_mem right)
      refine ⟨?_, ?_⟩
      · rintro rfl
        rcases key with left | right
        · exact others left
        · exact after right
      · rcases List.mem_append.mp old with left | right
        · exact List.mem_append_left _ left
        · exact List.mem_append_right _ (List.mem_cons_of_mem _ right)
    · exact .inr ⟨rfl, .inr ⟨values, by simp, rfl⟩⟩
  · rw [addGroup_absent known, List.nil_append] at mem
    rcases List.mem_append.mp mem with old | new
    · refine .inl ⟨?_, old⟩
      rintro rfl
      exact known (List.mem_map_of_mem old)
    · rw [List.mem_singleton.mp new]
      exact .inr ⟨rfl, .inl ⟨known, rfl⟩⟩

theorem nodup_addGroup (nodup : (keysOf groups).Nodup) :
    (keysOf (addGroup k a [] groups)).Nodup := by
  by_cases known : k ∈ keysOf groups
  · obtain ⟨pre, values, post, rfl, others⟩ := group_split known
    rw [addGroup_found others, List.nil_append]
    match values with
    | [single] =>
      rw [addTo_single]
      rw [keysOf_append, keysOf_cons] at nodup
      rw [keysOf_append, keysOf_append]
      have moved : (keysOf pre ++ k :: keysOf post).Perm (keysOf pre ++ keysOf post ++ [k]) :=
        List.perm_middle.trans (List.perm_append_singleton _ _).symm
      exact moved.nodup_iff.mp nodup
    | [] | _ :: _ :: _ =>
      rw [addTo_several (by simp)]
      simpa using nodup
  · rw [addGroup_absent known, List.nil_append, keysOf_append]
    exact List.nodup_append.mpr ⟨nodup, List.nodup_singleton _, by
      intro x mem y new
      rw [List.mem_singleton.mp new]
      rintro rfl
      exact known mem⟩

theorem grouping_add (grouping : Grouping entries groups) (k : K) (a : A) :
    Grouping (entries ++ [(k, a)]) (addGroup k a [] groups) := by
  refine ⟨nodup_addGroup grouping.nodup, ?_, ?_, ?_⟩
  · intro g mem
    rw [valuesOf_append]
    rcases mem_addGroup grouping.nodup mem with ⟨other, old⟩ | ⟨same, new⟩
    · rw [if_neg (Ne.symm other), List.append_nil]
      exact grouping.values g old
    · rw [if_pos same.symm, same]
      rcases new with ⟨unknown, first⟩ | ⟨values, old, more⟩
      · rw [first, valuesOf_absent]
        · rfl
        · rintro e known rfl
          exact unknown (grouping.all e known)
      · have before : values = valuesOf k entries := grouping.values _ old
        rw [more, before]
  · intro g mem
    rcases mem_addGroup grouping.nodup mem with ⟨_, old⟩ | ⟨_, ⟨_, first⟩ | ⟨values, _, more⟩⟩
    · exact grouping.filled g old
    · rw [first]
      exact List.cons_ne_nil _ _
    · rw [more]
      exact List.append_ne_nil_of_right_ne_nil _ (List.cons_ne_nil _ _)
  · intro e mem
    rw [mem_keysOf_add]
    rcases List.mem_append.mp mem with old | new
    · exact .inr (grouping.all e old)
    · rw [List.mem_singleton.mp new]
      exact .inl rfl

theorem regroup_append (entries : List (K × A)) (e : K × A) :
    regroup (entries ++ [e]) = addGroup e.1 e.2 [] (regroup entries) := by
  unfold regroup
  rw [List.foldl_append]
  rfl

theorem regroup_grouping (entries : List (K × A)) : Grouping entries (regroup entries) := by
  induction entries using List.reverseRecOn with
  | nil => exact ⟨List.nodup_nil, by rintro _ ⟨⟩, by rintro _ ⟨⟩, by rintro _ ⟨⟩⟩
  | append_singleton entries e ih =>
    rw [regroup_append]
    exact grouping_add ih e.1 e.2

/-- A group of several values of another key stands before the key's own group. -/
def blocked (k : K) : Groups K A → Bool
  | [] => false
  | g :: rest => if g.1 = k then false else if g.2.length = 1 then blocked k rest else true

theorem blocked_append (others : k ∉ keysOf pre) (post : Groups K A) :
    blocked k (pre ++ post) = false ↔
      (∀ g ∈ pre, g.2.length = 1) ∧ blocked k post = false := by
  induction pre with
  | nil => simp
  | cons g rest ih =>
    have other : g.1 ≠ k := fun same => others (same ▸ List.mem_cons_self)
    have more : k ∉ keysOf rest := fun mem => others (List.mem_cons_of_mem _ mem)
    rw [List.cons_append, blocked, if_neg other, List.forall_mem_cons]
    by_cases single : g.2.length = 1
    · rw [if_pos single, ih more]
      tauto
    · rw [if_neg single]
      tauto

theorem blocked_found (others : k ∉ keysOf pre) :
    blocked k (pre ++ (k, values) :: post) = false ↔ ∀ g ∈ pre, g.2.length = 1 := by
  rw [blocked_append others, blocked, if_pos rfl]
  tauto

theorem blocked_absent (absent : k ∉ keysOf groups) :
    blocked k groups = false ↔ ∀ g ∈ groups, g.2.length = 1 := by
  have split := blocked_append absent []
  rw [List.append_nil] at split
  rw [split, blocked]
  tauto

/-- What is added under other keys does not come before the key's group. -/
theorem blocked_add_other {k' : K} (nodup : (keysOf groups).Nodup)
    (filled : ∀ g ∈ groups, g.2 ≠ []) (known : k ∈ keysOf groups) (other : k' ≠ k) :
    blocked k (addGroup k' a [] groups) = false ↔ blocked k groups = false := by
  obtain ⟨pre, values, post, rfl, others⟩ := group_split known
  rw [blocked_found others]
  by_cases before : k' ∈ keysOf pre
  · obtain ⟨left, found, right, rfl, first⟩ := group_split before
    rw [keysOf_append, keysOf_cons, List.mem_append, List.mem_cons] at others
    rw [List.append_assoc, List.cons_append, addGroup_found first, List.nil_append]
    match found with
    | [single] =>
      have apart : k ∉ keysOf (left ++ right) := by
        rw [keysOf_append, List.mem_append]
        tauto
      rw [addTo_single, ← List.append_assoc left, List.append_assoc (left ++ right),
        List.cons_append, blocked_found apart]
      simp only [List.forall_mem_append, List.forall_mem_cons, List.length_singleton]
      tauto
    | [] => exact absurd rfl (filled (k', []) (by simp))
    | x :: y :: rest =>
      have apart : k ∉ keysOf (left ++ (k', (x :: y :: rest) ++ [a]) :: right) := by
        rw [keysOf_append, keysOf_cons, List.mem_append, List.mem_cons]
        tauto
      have shape : left ++ (k', (x :: y :: rest) ++ [a]) :: (right ++ (k, values) :: post) =
          (left ++ (k', (x :: y :: rest) ++ [a]) :: right) ++ (k, values) :: post := by
        simp only [List.append_assoc, List.cons_append]
      rw [addTo_several (by simp), shape, blocked_found apart]
      simp only [List.forall_mem_append, List.forall_mem_cons, List.length_append,
        List.length_cons]
      constructor
      · rintro ⟨_, long, _⟩
        omega
      · rintro ⟨_, long, _⟩
        omega
  · have apart : ∀ more : Groups K A,
        blocked k (pre ++ (k, values) :: more) = false ↔ ∀ g ∈ pre, g.2.length = 1 :=
      fun more => blocked_found others
    by_cases after : k' ∈ keysOf post
    · obtain ⟨left, found, right, rfl, first⟩ := group_split after
      have before' : k' ∉ keysOf (pre ++ (k, values) :: left) := by
        rw [keysOf_append, keysOf_cons, List.mem_append, List.mem_cons]
        tauto
      have shape : pre ++ (k, values) :: (left ++ (k', found) :: right) =
          (pre ++ (k, values) :: left) ++ (k', found) :: right := by
        rw [List.append_assoc, List.cons_append]
      rw [shape, addGroup_found before', List.nil_append]
      unfold addTo
      split
      · simp only [List.append_assoc, List.cons_append]
        exact apart _
      · rw [List.append_assoc, List.cons_append]
        exact apart _
    · have absent : k' ∉ keysOf (pre ++ (k, values) :: post) := by
        rw [keysOf_append, keysOf_cons, List.mem_append, List.mem_cons]
        tauto
      rw [addGroup_absent absent, List.nil_append, List.append_assoc, List.cons_append]
      exact apart _

/-- The keys are distinct when every group has one value. -/
theorem singles_iff (grouping : Grouping entries groups) :
    (∀ g ∈ groups, g.2.length = 1) ↔ (entries.map Prod.fst).Nodup := by
  rw [List.nodup_iff_count_le_one]
  constructor
  · intro singles k
    by_cases mem : k ∈ entries.map Prod.fst
    · obtain ⟨e, here, rfl⟩ := List.mem_map.mp mem
      obtain ⟨g, there, same⟩ := List.mem_map.mp (grouping.all e here)
      have single := singles g there
      rw [grouping.values g there, same, valuesOf_length] at single
      omega
    · rw [List.count_eq_zero_of_not_mem mem]
      omega
  · intro distinct g mem
    have filled := List.length_pos_iff.mpr (grouping.filled g mem)
    rw [grouping.values g mem, valuesOf_length] at filled ⊢
    have := distinct g.1
    omega

section Apart
variable (k : K)

theorem mem_regroup (entries : List (K × A)) :
    k ∈ keysOf (regroup entries) ↔ k ∈ entries.map Prod.fst := by
  have grouping := regroup_grouping entries
  constructor
  · intro mem
    obtain ⟨g, here, rfl⟩ := List.mem_map.mp mem
    have filled := grouping.filled g here
    rw [grouping.values g here] at filled
    by_contra absent
    apply filled
    apply valuesOf_absent
    rintro e there same
    exact absent (List.mem_map.mpr ⟨e, there, same⟩)
  · intro mem
    obtain ⟨e, here, rfl⟩ := List.mem_map.mp mem
    exact grouping.all e here

/-- Once a key is there, entries of other keys change nothing about it. -/
theorem blocked_later {before after : List (K × A)} (known : k ∈ before.map Prod.fst)
    (others : k ∉ after.map Prod.fst) :
    blocked k (regroup (before ++ after)) = false ↔ blocked k (regroup before) = false := by
  induction after using List.reverseRecOn with
  | nil => rw [List.append_nil]
  | append_singleton after e ih =>
    rw [List.map_append, List.mem_append, List.map_singleton, List.mem_singleton] at others
    have grouping := regroup_grouping (before ++ after)
    have here : k ∈ keysOf (regroup (before ++ after)) := by
      rw [mem_regroup, List.map_append]
      exact List.mem_append_left _ known
    rw [← List.append_assoc, regroup_append, blocked_add_other grouping.nodup grouping.filled
      here (by tauto)]
    exact ih (by tauto)

/-- The group of a key and what stands before it after the key's first entry. -/
theorem blocked_first {before : List (K × A)} (new : k ∉ before.map Prod.fst) (a : A) :
    blocked k (regroup (before ++ [(k, a)])) = false ↔ (before.map Prod.fst).Nodup := by
  have absent : k ∉ keysOf (regroup before) := by rwa [mem_regroup]
  rw [regroup_append, addGroup_absent absent, List.nil_append, blocked_found absent]
  exact singles_iff (regroup_grouping before)

/-- With its second entry a key's group goes behind all others. -/
theorem blocked_second {before : List (K × A)} (once : (before.map Prod.fst).count k = 1)
    (a : A) :
    blocked k (regroup (before ++ [(k, a)])) = false ↔ (before.map Prod.fst).Nodup := by
  have grouping := regroup_grouping before
  have known : k ∈ keysOf (regroup before) := by
    rw [mem_regroup]
    exact List.count_pos_iff.mp (by omega)
  obtain ⟨pre, values, post, shape, others⟩ := group_split known
  have nodup := grouping.nodup
  rw [shape, keysOf_append, keysOf_cons] at nodup
  have after : k ∉ keysOf post := (List.nodup_cons.mp (List.nodup_append.mp nodup).2.1).1
  have single : values.length = 1 := by
    have own : values = valuesOf k before := grouping.values (k, values) (by simp [shape])
    rw [own, valuesOf_length, once]
  match values with
  | [v] =>
    rw [regroup_append, ← singles_iff grouping, shape, addGroup_found others, List.nil_append,
      addTo_single, blocked_found (by rw [keysOf_append, List.mem_append]; tauto)]
    simp only [List.forall_mem_append, List.forall_mem_cons, List.length_singleton]
    tauto
  | [] => cases single
  | _ :: _ :: _ => cases single

/-- A key's third entry and those after it do not move its group. -/
theorem blocked_third {before : List (K × A)} (twice : 2 ≤ (before.map Prod.fst).count k)
    (a : A) :
    blocked k (regroup (before ++ [(k, a)])) = false ↔ blocked k (regroup before) = false := by
  have grouping := regroup_grouping before
  have known : k ∈ keysOf (regroup before) := by
    rw [mem_regroup]
    exact List.count_pos_iff.mp (by omega)
  obtain ⟨pre, values, post, shape, others⟩ := group_split known
  have several : values.length ≠ 1 := by
    have own : values = valuesOf k before := grouping.values (k, values) (by simp [shape])
    rw [own, valuesOf_length]
    omega
  rw [regroup_append, shape, addGroup_found others, List.nil_append, addTo_several several,
    blocked_found others, blocked_found others]

/-- Before a key's first entry no key is repeated, nor before its second where it has more. -/
structure Apart (keys : List K) : Prop where
  first : ∀ before after, keys = before ++ k :: after → k ∉ before → before.Nodup
  second : ∀ before after, keys = before ++ k :: after → before.count k = 1 → k ∈ after →
    before.Nodup

/-- A list up to the entry that is a key's second. -/
theorem split_second {keys : List K} (twice : 2 ≤ keys.count k) :
    ∃ before after, keys = before ++ k :: after ∧ before.count k = 1 := by
  obtain ⟨left, right, rfl, first⟩ := List.eq_append_cons_of_mem
    (List.count_pos_iff.mp (show 0 < keys.count k by omega))
  rw [List.count_append, List.count_cons_self, List.count_eq_zero_of_not_mem first] at twice
  obtain ⟨middle, rest, rfl, second⟩ := List.eq_append_cons_of_mem
    (List.count_pos_iff.mp (show 0 < right.count k by omega))
  refine ⟨left ++ k :: middle, rest, by simp, ?_⟩
  rw [List.count_append, List.count_cons_self, List.count_eq_zero_of_not_mem first,
    List.count_eq_zero_of_not_mem second]

theorem unblocked_iff (entries : List (K × A)) :
    (∀ before v after, entries = before ++ (k, v) :: after →
      blocked k (regroup before) = false) ↔ Apart k (entries.map Prod.fst) := by
  constructor
  · intro free
    constructor
    · intro before after split new
      obtain ⟨left, v, right, rfl, rfl, rfl⟩ := split_keys split
      have now := free left v right rfl
      rw [blocked_absent (by rwa [mem_regroup])] at now
      exact (singles_iff (regroup_grouping left)).mp now
    · intro before after split once again
      obtain ⟨left, v, right, rfl, rfl, rfl⟩ := split_keys split
      obtain ⟨middle, rest, cut, absent⟩ := List.eq_append_cons_of_mem again
      obtain ⟨inner, w, last, rfl, rfl, rfl⟩ := split_keys cut
      have now := free (left ++ (k, v) :: inner) w last (by simp)
      have shape : left ++ (k, v) :: inner = (left ++ [(k, v)]) ++ inner := by simp
      rw [shape, blocked_later k (by simp) absent, blocked_second k once] at now
      exact now
  · rintro ⟨first, second⟩ before v after rfl
    rw [List.map_append, List.map_cons] at first second
    rcases Nat.lt_or_ge ((before.map Prod.fst).count k) 2 with few | many
    · by_cases known : k ∈ before.map Prod.fst
      · obtain ⟨left, right, split, new⟩ := List.eq_append_cons_of_mem known
        obtain ⟨inner, w, rest, rfl, rfl, rfl⟩ := split_keys split
        rw [List.map_append, List.map_cons, List.count_append, List.count_cons_self] at few
        have absent : k ∉ rest.map Prod.fst := List.count_eq_zero.mp (by omega)
        have shape : inner ++ (k, w) :: rest = (inner ++ [(k, w)]) ++ rest := by simp
        rw [shape, blocked_later k (by simp) absent, blocked_first k new]
        exact first _ (rest.map Prod.fst ++ k :: after.map Prod.fst) (by simp) new
      · rw [blocked_absent (by rwa [mem_regroup]), singles_iff (regroup_grouping before)]
        exact first _ _ rfl known
    · obtain ⟨left, right, split, once⟩ := split_second k many
      obtain ⟨inner, w, rest, rfl, rfl, rfl⟩ := split_keys split
      have shape : inner ++ (k, w) :: rest = (inner ++ [(k, w)]) ++ rest := by simp
      have nodup := second (inner.map Prod.fst)
        (rest.map Prod.fst ++ k :: after.map Prod.fst) (by simp) once (by simp)
      have start := (blocked_second k once w).mpr nodup
      rw [shape]
      clear shape split second first many
      induction rest using List.reverseRecOn with
      | nil =>
        rw [List.append_nil]
        exact start
      | append_singleton rest e ih =>
        rw [← List.append_assoc, regroup_append]
        by_cases same : e.1 = k
        · have twice : 2 ≤ ((inner ++ [(k, w)] ++ rest).map Prod.fst).count k := by
            rw [List.map_append, List.map_append, List.count_append, List.count_append, once]
            simp
          have again := blocked_third k twice e.2
          rw [regroup_append] at again
          rw [same]
          exact again.mpr ih
        · have grouping := regroup_grouping (inner ++ [(k, w)] ++ rest)
          have here : k ∈ keysOf (regroup (inner ++ [(k, w)] ++ rest)) := by
            rw [mem_regroup]
            simp
          rw [blocked_add_other grouping.nodup grouping.filled here same]
          exact ih

end Apart

end Kit
