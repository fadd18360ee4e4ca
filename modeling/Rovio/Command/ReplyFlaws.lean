import Rovio.Command.ReplyText
import Rovio.Command.ReplyObject

/-! Requests whose object reply is no literal, and the result about replies. -/
namespace Rovio.Reply
open Kit

section Tree

mutual

/-- A node prints an empty name somewhere. -/
def hollow (bInArray : Bool) : XML → Bool
  | .text _ => false
  | .node pcName acArray _ plSubXML =>
    if acArray ≠ [] then hollows true plSubXML
    else (!bInArray && pcName.isEmpty) || hollows false plSubXML

def hollows (bInArray : Bool) : List XML → Bool
  | [] => false
  | pXML :: rest => hollow bInArray pXML || hollows bInArray rest

end

/-- The nodes under a sub-command: none is a text, and arrays have their own name. -/
def Shaped (nodes : List XML) : Prop :=
  ∀ node ∈ nodes, node.isNode = true ∧ (node.acArray ≠ [] → node.pcName = arrayName)

/-- An array that begins with an array. -/
def Nested : XML → Prop
  | .node _ acArray _ (first :: _) => acArray ≠ [] ∧ first.acArray ≠ []
  | _ => False

variable {k : Text} {pAppend : XML} {passed nodes : List XML}

theorem hollows_append (bInArray : Bool) (l r : List XML) :
    hollows bInArray (l ++ r) = (hollows bInArray l || hollows bInArray r) := by
  induction l with
  | nil => rfl
  | cons node rest ih => rw [List.cons_append, hollows, hollows, ih, Bool.or_assoc]

/-- What AppendXMLArray does to the list: a new node at the end, one more under a node, or an
array of a node and the new one. -/
theorem append_cases (k : Text) (pAppend : XML) (passed nodes : List XML) :
    appendXMLArray k pAppend passed nodes = passed ++ (nodes ++ [pAppend]) ∨
      ∃ front node back, nodes = front ++ node :: back ∧
        ((node.acArray = k ∧ appendXMLArray k pAppend passed nodes =
            passed ++ (front ++ node.append pAppend :: back)) ∨
          (node.acArray ≠ k ∧ node.pcName = k ∧ appendXMLArray k pAppend passed nodes =
            passed ++ (front ++ (back ++
              [.node arrayName k false [node, pAppend]])))) := by
  induction nodes generalizing passed with
  | nil => exact .inl rfl
  | cons node rest ih =>
    rw [appendXMLArray]
    by_cases array : node.acArray = k
    · rw [if_pos array]
      exact .inr ⟨[], node, rest, rfl, .inl ⟨array, rfl⟩⟩
    · rw [if_neg array]
      by_cases name : node.pcName = k
      · rw [if_pos name]
        exact .inr ⟨[], node, rest, rfl, .inr ⟨array, name, List.append_assoc ..⟩⟩
      · rw [if_neg name]
        rcases ih (passed ++ [node]) with last | ⟨front, other, back, rfl, found⟩
        · left
          rw [last, List.append_assoc]
          rfl
        · refine .inr ⟨node :: front, other, back, rfl, ?_⟩
          rcases found with ⟨here, added⟩ | ⟨not, here, moved⟩
          · refine .inl ⟨here, ?_⟩
            rw [added, List.append_assoc]
            rfl
          · refine .inr ⟨not, here, ?_⟩
            rw [moved, List.append_assoc]
            rfl

theorem append_shaped {node : XML} (isNode : node.isNode = true) (pAppend : XML) :
    ∃ pcName acArray bCmd plSubXML, node = .node pcName acArray bCmd plSubXML ∧
      node.append pAppend = .node pcName acArray bCmd (plSubXML ++ [pAppend]) := by
  cases node with
  | text pcName => cases isNode
  | node pcName acArray bCmd plSubXML => exact ⟨pcName, acArray, bCmd, plSubXML, rfl, rfl⟩

theorem shaped_add (shaped : Shaped nodes) (call : Text × Text) :
    Shaped (addHttpValue nodes call) := by
  unfold addHttpValue
  have new : (keyNode call.1 call.2).isNode = true ∧
      ((keyNode call.1 call.2).acArray ≠ [] → (keyNode call.1 call.2).pcName = arrayName) :=
    ⟨rfl, fun some => absurd rfl some⟩
  rcases append_cases call.1 (keyNode call.1 call.2) [] nodes with
    last | ⟨front, node, back, rfl, ⟨_, added⟩ | ⟨_, _, moved⟩⟩
  · rw [last, List.nil_append]
    intro node mem
    rcases List.mem_append.mp mem with old | here
    · exact shaped node old
    · rw [List.mem_singleton.mp here]
      exact new
  · rw [added, List.nil_append]
    intro other mem
    rcases List.mem_append.mp mem with old | here
    · exact shaped other (List.mem_append_left _ old)
    · rcases List.mem_cons.mp here with rfl | old
      · have own := shaped node (by simp)
        obtain ⟨pcName, acArray, bCmd, plSubXML, rfl, more⟩ :=
          append_shaped own.1 (keyNode call.1 call.2)
        rw [more]
        exact own
      · exact shaped other (by simp [old])
  · rw [moved, List.nil_append]
    intro other mem
    rcases List.mem_append.mp mem with old | here
    · exact shaped other (List.mem_append_left _ old)
    · rcases List.mem_append.mp here with old | array
      · exact shaped other (by simp [old])
      · rw [List.mem_singleton.mp array]
        exact ⟨rfl, fun _ => rfl⟩

theorem runSubCmd_shaped (calls : Calls) : Shaped (runSubCmd calls) := by
  induction calls using List.reverseRecOn with
  | nil => rintro _ ⟨⟩
  | append_singleton calls call ih =>
    rw [runSubCmd_build, build_append]
    exact shaped_add ih call

/-- An empty name stays when another value is added. -/
theorem hollows_add (shaped : Shaped nodes) (hollowed : hollows false nodes = true)
    (call : Text × Text) : hollows false (addHttpValue nodes call) = true := by
  unfold addHttpValue
  rcases append_cases call.1 (keyNode call.1 call.2) [] nodes with
    last | ⟨front, node, back, rfl, ⟨_, added⟩ | ⟨noArray, name, moved⟩⟩
  · rw [last, List.nil_append, hollows_append, hollowed, Bool.true_or]
  · obtain ⟨pcName, acArray, bCmd, plSubXML, rfl, more⟩ :=
      append_shaped (shaped node (by simp)).1 (keyNode call.1 call.2)
    rw [hollows_append, hollows, hollow] at hollowed
    rw [added, more, List.nil_append, hollows_append, hollows, hollow]
    split at hollowed
    · rename_i array
      rw [if_pos array, hollows_append]
      revert hollowed
      cases hollows false front <;> cases hollows true plSubXML <;>
        cases hollows false back <;> simp
    · rename_i plain
      rw [if_neg plain, hollows_append]
      revert hollowed
      cases hollows false front <;> cases hollows false plSubXML <;>
        cases hollows false back <;> cases pcName.isEmpty <;> simp
  · obtain ⟨pcName, acArray, bCmd, plSubXML, rfl, _⟩ :=
      append_shaped (shaped node (by simp)).1 (keyNode call.1 call.2)
    have inside : hollow false (.node pcName acArray bCmd plSubXML) = true →
        hollow true (.node pcName acArray bCmd plSubXML) = true := by
      rw [hollow, hollow]
      by_cases array : acArray ≠ []
      · rw [if_pos array, if_pos array]
        exact id
      · rw [if_neg array, if_neg array]
        have none : acArray = [] := not_not.mp array
        have some : pcName ≠ [] := by
          rintro rfl
          exact noArray (none.trans name)
        cases pcName with
        | nil => exact absurd rfl some
        | cons c rest => exact id
    have filled : call.1 ≠ [] ∨ call.1 = [] := (em (call.1 = [])).symm
    rw [hollows_append, hollows] at hollowed
    rw [moved, List.nil_append, hollows_append, hollows_append, hollows, hollow]
    have both : hollows true [.node pcName acArray bCmd plSubXML, keyNode call.1 call.2] =
        (hollow true (.node pcName acArray bCmd plSubXML) ||
          (hollow true (keyNode call.1 call.2) || false)) := rfl
    rcases filled with filled | empty
    · rw [if_pos filled, both]
      revert hollowed inside
      cases hollow false (.node pcName acArray bCmd plSubXML) <;>
        cases hollow true (.node pcName acArray bCmd plSubXML) <;>
        cases hollows false front <;> cases hollows false back <;> simp
    · -- an array is never named by an empty text, and a plain node is taken before its name
      have own := (shaped (.node pcName acArray bCmd plSubXML) (by simp)).2
      rw [empty] at noArray name
      have array : pcName = arrayName := own noArray
      have none : pcName = [] := name
      rw [none] at array
      exact absurd array (by decide)

/-- An empty key leaves an empty name. -/
theorem hollows_empty (shaped : Shaped nodes) (value : Text) :
    hollows false (addHttpValue nodes ([], value)) = true := by
  unfold addHttpValue
  rcases append_cases [] (keyNode [] value) [] nodes with
    last | ⟨front, node, back, rfl, ⟨plain, added⟩ | ⟨array, name, _⟩⟩
  · rw [last, List.nil_append, hollows_append, Bool.or_eq_true_iff]
    exact .inr rfl
  · obtain ⟨pcName, acArray, bCmd, plSubXML, rfl, more⟩ :=
      append_shaped (shaped node (by simp)).1 (keyNode [] value)
    have noArray : acArray = [] := plain
    have inner : hollows false (plSubXML ++ [keyNode [] value]) = true := by
      rw [hollows_append, Bool.or_eq_true_iff]
      exact .inr rfl
    rw [added, more, List.nil_append, hollows_append, hollows, hollow, if_neg (by simp [noArray]),
      inner]
    simp
  · have own := (shaped node (by simp)).2 array
    rw [name] at own
    exact absurd own (by decide)

theorem hollows_run {calls : Calls} (empty : ∃ call ∈ calls, call.1 = []) :
    hollows false (runSubCmd calls) = true := by
  induction calls using List.reverseRecOn with
  | nil =>
    obtain ⟨_, ⟨⟩, _⟩ := empty
  | append_singleton calls last ih =>
    rw [runSubCmd_build, build_append]
    have shaped := runSubCmd_shaped calls
    obtain ⟨call, mem, none⟩ := empty
    rcases List.mem_append.mp mem with old | here
    · exact hollows_add shaped (ih ⟨call, old, none⟩) last
    · rw [List.mem_singleton] at here
      subst here
      have shape : call = ([], call.2) := Prod.ext none rfl
      rw [shape]
      exact hollows_empty shaped call.2

/-- An array that begins with an array stays one. -/
theorem nested_add {call : Text × Text} (named : call.1 ≠ [])
    (nested : ∃ node ∈ nodes, Nested node) :
    ∃ node ∈ addHttpValue nodes call, Nested node := by
  unfold addHttpValue
  obtain ⟨bad, mem, flaw⟩ := nested
  rcases append_cases call.1 (keyNode call.1 call.2) [] nodes with
    last | ⟨front, node, back, rfl, ⟨_, added⟩ | ⟨_, _, moved⟩⟩
  · rw [last]
    exact ⟨bad, by simp [mem], flaw⟩
  · rw [added]
    rcases List.mem_append.mp mem with old | here
    · exact ⟨bad, by simp [old], flaw⟩
    · rcases List.mem_cons.mp here with rfl | old
      · refine ⟨bad.append (keyNode call.1 call.2), by simp, ?_⟩
        match bad with
        | .node _ _ _ (_ :: _) => exact flaw
        | .node _ _ _ [] => exact flaw.elim
        | .text _ => exact flaw.elim
      · exact ⟨bad, by simp [old], flaw⟩
  · rw [moved]
    rcases List.mem_append.mp mem with old | here
    · exact ⟨bad, by simp [old], flaw⟩
    · rcases List.mem_cons.mp here with rfl | old
      · refine ⟨.node arrayName call.1 false [bad, keyNode call.1 call.2], by simp, named, ?_⟩
        match bad with
        | .node _ _ _ (_ :: _) => exact flaw.1
        | .node _ _ _ [] => exact flaw.elim
        | .text _ => exact flaw.elim
      · exact ⟨bad, by simp [old], flaw⟩

/-- A value for the key `Array` behind a repeated key makes an array that begins with one. -/
theorem nested_blocked {groups : Groups Text Text} (filled : ∀ g ∈ groups, g.2 ≠ [])
    (named : ∀ g ∈ groups, g.1 ≠ []) (taken : blocked arrayName groups = true)
    (pAppend : XML) (passed : List XML) :
    ∃ node ∈ appendXMLArray arrayName pAppend passed (groups.map (groupNode keyNode)),
      Nested node := by
  induction groups generalizing passed with
  | nil => cases taken
  | cons g rest ih =>
    obtain ⟨k, values⟩ := g
    obtain ⟨some, more⟩ := List.forall_mem_cons.mp filled
    obtain ⟨key, keys⟩ := List.forall_mem_cons.mp named
    rw [blocked] at taken
    split at taken
    · cases taken
    · rename_i other
      rw [List.map_cons, appendXMLArray]
      cases values with
      | nil => exact absurd rfl some
      | cons v later =>
        cases later with
        | nil =>
          have noArray : ¬ (groupNode keyNode (k, [v])).acArray = arrayName := by
            show ¬ [] = arrayName
            decide
          have noName : ¬ (groupNode keyNode (k, [v])).pcName = arrayName := other
          rw [if_neg noArray, if_neg noName]
          exact ih more keys taken _
        | cons w others =>
          rw [groupNode_several keyNode k (by simp)]
          have noArray : ¬ (XML.node arrayName k false
              ((v :: w :: others).map (keyNode k))).acArray = arrayName := other
          have name : (XML.node arrayName k false ((v :: w :: others).map (keyNode k))).pcName =
              arrayName := rfl
          rw [if_neg noArray, if_pos name]
          refine ⟨.node arrayName arrayName false [.node arrayName k false
            ((v :: w :: others).map (keyNode k)), pAppend], by simp, by decide, key⟩

theorem nested_or_free {calls : Calls} (named : ∀ call ∈ calls, call.1 ≠ []) :
    (∃ node ∈ runSubCmd calls, Nested node) ∨
      ∀ before v after, calls = before ++ (arrayName, v) :: after →
        blocked arrayName (regroup before) = false := by
  induction calls using List.reverseRecOn with
  | nil => exact .inr (by rintro before v after split; simp at split)
  | append_singleton calls last ih =>
    have earlier : ∀ call ∈ calls, call.1 ≠ [] :=
      fun call mem => named call (List.mem_append_left _ mem)
    rw [runSubCmd_build, build_append]
    rcases ih earlier with nested | free
    · exact .inl (nested_add (named last (by simp)) nested)
    · have groups := build_regroup keyNode_plain calls earlier free
      by_cases taken : last.1 = arrayName ∧ blocked arrayName (regroup calls) = true
      · left
        have grouping := regroup_grouping calls
        rw [groups, taken.1]
        apply nested_blocked grouping.filled _ taken.2
        intro g mem
        obtain ⟨call, here, same⟩ := List.mem_map.mp
          ((mem_regroup g.1 calls).mp (List.mem_map_of_mem mem))
        rw [← same]
        exact earlier call here
      · right
        intro before v after split
        rcases List.eq_nil_or_concat after with rfl | ⟨others, x, rfl⟩
        · obtain ⟨same, lastSame⟩ := List.append_inj' split rfl
          have key : last.1 = arrayName := congrArg Prod.fst (List.cons.inj lastSame).1
          rw [← same]
          exact Bool.eq_false_iff.mpr fun b => taken ⟨key, b⟩
        · apply free before v others
          have same : calls ++ [last] = (before ++ (arrayName, v) :: others) ++ [x] := by
            rw [split, List.append_assoc]
            simp
          exact (List.append_inj' same rfl).1

end Tree

section Tokens
variable (httpGetCStyleString : Text → Text)

theorem dumpJsObjs_inside {nodes : List XML} {node : XML} (mem : node ∈ nodes) (iTabs : Nat)
    (bInArray : Bool) : ∃ isLast, dumpJsObj httpGetCStyleString iTabs bInArray isLast node <:+:
      dumpJsObjs httpGetCStyleString iTabs bInArray nodes := by
  induction nodes with
  | nil => cases mem
  | cons first rest ih =>
    rw [dumpJsObjs]
    rcases List.mem_cons.mp mem with rfl | later
    · exact ⟨_, (List.prefix_append _ _).isInfix⟩
    · obtain ⟨isLast, inside⟩ := ih later
      exact ⟨isLast, inside.trans (List.suffix_append _ _).isInfix⟩

theorem dumpJsObj_array_inside {acArray : Text} (array : acArray ≠ []) (pcName : Text)
    (bCmd : Bool) (plSubXML : List XML) (iTabs : Nat) (bInArray isLast : Bool) :
    [.openList, newLine] ++ dumpJsObjs httpGetCStyleString (iTabs + 1) true plSubXML <:+:
      dumpJsObj httpGetCStyleString iTabs bInArray isLast
        (.node pcName acArray bCmd plSubXML) := by
  rw [dumpJsObj, if_pos array]
  simp only [List.append_assoc]
  refine ⟨htn iTabs ++ ([.name ((getCleanVariableName acArray).getD "VName".toList),
    .space [' '], .colon, newLine] ++ htn iTabs), htn iTabs ++ .closeList :: separator isLast, ?_⟩
  simp only [List.append_assoc]

theorem dumpJsObj_plain_inside (pcName : Text) (bCmd : Bool) (plSubXML : List XML) (iTabs : Nat)
    (bInArray isLast : Bool) :
    dumpJsObjs httpGetCStyleString (iTabs + 1) false plSubXML <:+:
      dumpJsObj httpGetCStyleString iTabs bInArray isLast (.node pcName [] bCmd plSubXML) := by
  rw [dumpJsObj, if_neg (by simp)]
  exact ⟨_, _, rfl⟩

theorem significant_inside {l r : List Token} (inside : l <:+: r) :
    significant l <:+: significant r := inside.filter _

mutual

/-- An empty name in the tree is printed. -/
theorem hollow_printed (node : XML) (bInArray : Bool) (found : hollow bInArray node = true)
    (iTabs : Nat) (isLast : Bool) :
    .name [] ∈ dumpJsObj httpGetCStyleString iTabs bInArray isLast node := by
  match node with
  | .text _ => cases found
  | .node pcName acArray bCmd plSubXML =>
    rw [hollow] at found
    by_cases array : acArray ≠ []
    · rw [if_pos array] at found
      have inner := hollows_printed plSubXML true found (iTabs + 1)
      apply (dumpJsObj_array_inside httpGetCStyleString array pcName bCmd plSubXML iTabs bInArray
        isLast).subset
      exact List.mem_append_right _ inner
    · rw [if_neg array] at found
      have none : acArray = [] := not_not.mp array
      rw [none]
      rcases Bool.or_eq_true_iff.mp found with own | sub
      · obtain ⟨outside, empty⟩ := Bool.and_eq_true_iff.mp own
        rw [List.isEmpty_iff.mp empty, dumpJsObj, if_neg (by simp)]
        cases bInArray with
        | true => cases outside
        | false =>
          rw [if_neg Bool.false_ne_true]
          simp [getCleanVariableName]
      · have inner := hollows_printed plSubXML false sub (iTabs + 1)
        exact (dumpJsObj_plain_inside httpGetCStyleString pcName bCmd plSubXML iTabs bInArray
          isLast).subset inner

theorem hollows_printed (nodes : List XML) (bInArray : Bool)
    (found : hollows bInArray nodes = true) (iTabs : Nat) :
    .name [] ∈ dumpJsObjs httpGetCStyleString iTabs bInArray nodes := by
  match nodes with
  | [] => cases found
  | node :: rest =>
    rw [hollows] at found
    rw [dumpJsObjs]
    rcases Bool.or_eq_true_iff.mp found with here | there
    · exact List.mem_append_left _ (hollow_printed node bInArray here iTabs _)
    · exact List.mem_append_right _ (hollows_printed rest bInArray there iTabs)

end

theorem hollow_flawed {nodes : List XML} (found : hollows false nodes = true) (iTabs : Nat) :
    Flawed (significant (dumpJsObjs httpGetCStyleString iTabs false nodes)) := by
  refine .inr ⟨[], ?_, rfl⟩
  exact List.mem_filter.mpr ⟨hollows_printed httpGetCStyleString nodes false found iTabs, rfl⟩

theorem nested_flawed {nodes : List XML} (found : ∃ node ∈ nodes, Nested node) (iTabs : Nat) :
    Flawed (significant (dumpJsObjs httpGetCStyleString iTabs false nodes)) := by
  obtain ⟨node, mem, nested⟩ := found
  obtain ⟨isLast, inside⟩ := dumpJsObjs_inside httpGetCStyleString mem iTabs false
  match node with
  | .text _ => exact nested.elim
  | .node _ _ _ [] => exact nested.elim
  | .node pcName acArray bCmd (first :: rest) =>
    have list := dumpJsObj_array_inside httpGetCStyleString nested.1 pcName bCmd (first :: rest)
      iTabs false isLast
    match first with
    | .text _ => exact absurd rfl nested.2
    | .node name inner cmd nodes =>
      refine .inl ⟨.openList, .name ((getCleanVariableName inner).getD "VName".toList), ?_, ?_⟩
      · refine List.IsInfix.trans ?_ (significant_inside (list.trans inside))
        have named : inner ≠ [] := nested.2
        rw [dumpJsObjs, dumpJsObj, if_pos named]
        exact List.IsPrefix.isInfix ⟨_, rfl⟩
      · rintro ⟨_, never⟩
        cases never rfl

/-- What a sub-command prints is part of the reply. -/
theorem calls_inside {request : Request} {s : Text × Calls} (mem : s ∈ request.subCmds) :
    ∃ iTabs, significant (dumpJsObjs httpGetCStyleString iTabs false (runSubCmd s.2)) <:+:
      significant (objectTokens httpGetCStyleString (httpCommonReply request.subCmds)) := by
  have grouping := regroup_grouping request.subCmds
  obtain ⟨g, group, same⟩ := List.mem_map.mp (grouping.all s mem)
  have run : s.2 ∈ g.2 := by
    rw [grouping.values g group, same]
    exact List.mem_map.mpr ⟨s, List.mem_filter.mpr ⟨mem, decide_eq_true rfl⟩, rfl⟩
  have node : groupNode cmdNode g ∈ httpCommonReply request.subCmds := by
    rw [request_groups]
    exact List.mem_map_of_mem group
  have whole : dumpJsObjs httpGetCStyleString 1 false (httpCommonReply request.subCmds) <:+:
      objectTokens httpGetCStyleString (httpCommonReply request.subCmds) :=
    ⟨[.openObject, newLine], [.closeObject], rfl⟩
  obtain ⟨isLast, inside⟩ := dumpJsObjs_inside httpGetCStyleString node 1 false
  have cmd : ∀ iTabs bInArray isLast,
      dumpJsObjs httpGetCStyleString (iTabs + 1) false (runSubCmd s.2) <:+:
        dumpJsObj httpGetCStyleString iTabs bInArray isLast (cmdNode g.1 s.2) :=
    fun iTabs bInArray isLast => dumpJsObj_plain_inside httpGetCStyleString g.1 true _ _ _ _
  obtain ⟨k, runs⟩ := g
  by_cases single : runs.length = 1
  · obtain ⟨calls, rfl⟩ := List.length_eq_one_iff.mp single
    rw [List.mem_singleton.mp run] at cmd ⊢
    exact ⟨2, significant_inside (((cmd 1 false isLast).trans inside).trans whole)⟩
  · rw [groupNode_several cmdNode k single] at inside
    have named : k ≠ [] := by
      rw [← show s.1 = k from same.symm]
      exact (request.registered s mem).1
    have list := dumpJsObj_array_inside httpGetCStyleString named arrayName false
      (runs.map (cmdNode k)) 1 false isLast
    obtain ⟨last, sub⟩ := dumpJsObjs_inside httpGetCStyleString
      (List.mem_map_of_mem (f := cmdNode k) run) 2 true
    refine ⟨3, significant_inside ((((cmd 2 true last).trans sub).trans ?_).trans whole)⟩
    exact ((List.suffix_append _ _).isInfix.trans list).trans inside

theorem dumpJsObjs_split (iTabs : Nat) (bInArray : Bool) (before : List XML) (node : XML)
    (after : List XML) : ∃ front,
      dumpJsObjs httpGetCStyleString iTabs bInArray (before ++ node :: after) =
        front ++ (dumpJsObj httpGetCStyleString iTabs bInArray after.isEmpty node ++
          dumpJsObjs httpGetCStyleString iTabs bInArray after) := by
  induction before with
  | nil => exact ⟨[], rfl⟩
  | cons first rest ih =>
    obtain ⟨front, same⟩ := ih
    rw [List.cons_append, dumpJsObjs, same, ← List.append_assoc]
    exact ⟨_, rfl⟩

/-- A sub-command that occurs once and adds nothing is a name without a value. -/
theorem empty_flawed {request : Request} {s : Text × Calls} (mem : s ∈ request.subCmds)
    (only : valuesOf s.1 request.subCmds = [[]]) :
    Flawed (significant (objectTokens httpGetCStyleString
      (httpCommonReply request.subCmds))) := by
  have grouping := regroup_grouping request.subCmds
  obtain ⟨g, group, same⟩ := List.mem_map.mp (grouping.all s mem)
  have runs : g = (s.1, [[]]) := by
    rw [← only, ← same, ← grouping.values g group]
  obtain ⟨before, after, shape⟩ := List.append_of_mem group
  have nodes : httpCommonReply request.subCmds = before.map (groupNode cmdNode) ++
      cmdNode s.1 [] :: after.map (groupNode cmdNode) := by
    rw [request_groups, shape, List.map_append, List.map_cons, runs]
    rfl
  obtain ⟨front, printed⟩ := dumpJsObjs_split httpGetCStyleString 1 false
    (before.map (groupNode cmdNode)) (cmdNode s.1 []) (after.map (groupNode cmdNode))
  have own : ∀ isLast, significant (dumpJsObj httpGetCStyleString 1 false isLast
      (cmdNode s.1 [])) = [.name ((getCleanVariableName s.1).getD s.1), .colon] ++
        ([] ++ commaUnless isLast) :=
    fun isLast => dumpJsObj_plain httpGetCStyleString s.1 true 1 false isLast false rfl rfl
  have text : significant (objectTokens httpGetCStyleString (httpCommonReply request.subCmds)) =
      (.openObject :: significant front ++ [.name ((getCleanVariableName s.1).getD s.1)]) ++
        (.colon :: (commaUnless (after.map (groupNode cmdNode)).isEmpty ++
          (significant (dumpJsObjs httpGetCStyleString 1 false
            (after.map (groupNode cmdNode))) ++ [.closeObject]))) := by
    show .openObject :: significant (dumpJsObjs httpGetCStyleString 1 false _ ++ _) = _
    rw [nodes, printed]
    simp only [significant_append, own, List.append_assoc, List.cons_append, List.nil_append]
    rfl
  rw [text]
  cases after with
  | nil =>
    refine .inl ⟨.colon, .closeObject, ?_, ?_⟩
    · exact (List.suffix_append _ _).isInfix
    · rintro ⟨never, _⟩
      cases never rfl
  | cons next rest =>
    refine .inl ⟨.colon, .comma, ?_, ?_⟩
    · exact List.IsInfix.trans (List.IsPrefix.isInfix ⟨_, rfl⟩) (List.suffix_append _ _).isInfix
    · rintro ⟨never, _⟩
      cases never rfl

end Tokens

variable (httpGetCStyleString : Text → Text)

/-- A request is answered as it should be, in lines and as an object, just when its sub-commands
are regular. -/
theorem replies_iff (request : Request) :
    (∀ returnType, Replies httpGetCStyleString request returnType) ↔ Regular request := by
  constructor
  · intro replies
    obtain ⟨arrangement, _, same⟩ := replies (.jsObj [] [])
    have whole : ¬ Flawed (significant (objectTokens httpGetCStyleString
        (httpCommonReply request.subCmds))) :=
      fun flawed => flawed_not_literal flawed _ same
    have keys : ∀ s ∈ request.subCmds, ∀ call ∈ s.2, call.1 ≠ [] := by
      intro s mem call here empty
      obtain ⟨iTabs, inside⟩ := calls_inside httpGetCStyleString mem
      have found := hollows_run ⟨call, here, empty⟩
      exact whole ((hollow_flawed httpGetCStyleString found iTabs).within inside)
    refine ⟨?_, keys, ?_⟩
    · intro s mem only empty
      rw [empty] at only
      exact whole (empty_flawed httpGetCStyleString mem only)
    · intro s mem
      rcases nested_or_free (keys s mem) with nested | free
      · obtain ⟨iTabs, inside⟩ := calls_inside httpGetCStyleString mem
        exact absurd ((nested_flawed httpGetCStyleString nested iTabs).within inside) whole
      · exact (unblocked_iff arrayName s.2).mp free
  · intro regular returnType
    refine ⟨treeArrangement, ?_⟩
    have lines := dumpJsVars_reply httpGetCStyleString
    cases returnType with
    | txt =>
      show [] ++ dumpJsVars httpGetCStyleString false "Txt".toList false _ = _
      rw [List.nil_append]
      exact lines false regular _ _
    | jsVar pcName pcFun =>
      show pcName ++ "=\"".toList ++ dumpJsVars httpGetCStyleString true "JsVar".toList true _ ++
        "\";\n".toList ++ onJs pcFun = _
      rw [lines true regular]
    | jsObj pcName pcFun => exact ⟨rfl, reply_literal httpGetCStyleString regular⟩

/-- One sub-command that adds no value: its name is followed by the end of the object. -/
theorem empty_sub_command : ¬ ∀ returnType, Replies id
    ⟨[("Reboot".toList, [])], by decide⟩ returnType := by
  rw [replies_iff]
  rintro ⟨values, _, _⟩
  exact values _ List.mem_cons_self (by decide) rfl

end Rovio.Reply
