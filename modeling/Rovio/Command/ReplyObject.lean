import Rovio.Command.ReplyTree

/-! Replies as object literals. -/
namespace Rovio.Reply
open Kit

variable (httpGetCStyleString : Text → Text)

/-- The comma that a node prints when another follows. -/
def commaUnless (isLast : Bool) : List Token := if isLast then [] else [.comma]

@[simp] theorem significant_htn (iCount : Nat) : significant (htn iCount) = [] := rfl

@[simp] theorem significant_separator (isLast : Bool) :
    significant (separator isLast) = commaUnless isLast := by
  cases isLast <;> rfl

/-- Nodes that each print their part and a comma print the parts joined. -/
theorem dumpJsObjs_joined {B : Type} {node : B → XML} {part : B → List Token} (iTabs : Nat)
    (bInArray : Bool) (xs : List B)
    (prints : ∀ x ∈ xs, ∀ isLast, significant (dumpJsObj httpGetCStyleString iTabs bInArray
      isLast (node x)) = part x ++ commaUnless isLast) :
    significant (dumpJsObjs httpGetCStyleString iTabs bInArray (xs.map node)) =
      joined (xs.map part) := by
  induction xs with
  | nil => rfl
  | cons x rest ih =>
    obtain ⟨here, more⟩ := List.forall_mem_cons.mp prints
    rw [List.map_cons, dumpJsObjs, significant_append, here, ih more]
    cases rest with
    | nil => exact List.append_nil _
    | cons y others =>
      show (part x ++ [.comma]) ++ joined (part y :: others.map part) = _
      rw [List.append_assoc]
      rfl

theorem closeList_solid : Token.closeList.isSpace = false := rfl

/-- An array's tokens, given those of what is in it. -/
theorem dumpJsObj_array {k : Text} (named : k ≠ []) (iTabs : Nat) (bInArray isLast : Bool)
    {nodes : List XML} {items : List (Option Literal)}
    (inner : significant (dumpJsObjs httpGetCStyleString (iTabs + 1) true nodes) =
      itemsTokens items) :
    significant (dumpJsObj httpGetCStyleString iTabs bInArray isLast
      (.node arrayName k false nodes)) =
        memberTokens (memberName k, .list items) ++ commaUnless isLast := by
  rw [dumpJsObj, if_pos named]
  simp only [significant_append, significant_htn, List.nil_append, List.append_assoc, inner,
    significant_cons closeList_solid, significant_separator]
  rw [memberTokens, Literal.tokens]
  show .name (memberName k).val :: .colon :: .openList :: (itemsTokens items ++ _) = _
  simp only [List.cons_append, List.append_assoc, List.nil_append]

/-- A plain node's tokens, given those of what is in it. -/
theorem dumpJsObj_plain (pcName : Text) (bCmd : Bool) (iTabs : Nat) (bInArray isLast : Bool)
    {nodes : List XML} {inner : List Token} (bStruct : Bool)
    (struct : nodes.any XML.isNode = bStruct)
    (printed : significant (dumpJsObjs httpGetCStyleString (iTabs + 1) false nodes) = inner) :
    significant (dumpJsObj httpGetCStyleString iTabs bInArray isLast
      (.node pcName [] bCmd nodes)) =
        (if bInArray then [] else [.name ((getCleanVariableName pcName).getD pcName), .colon]) ++
        ((if bStruct then .openObject :: (inner ++ [.closeObject]) else inner) ++
          commaUnless isLast) := by
  rw [dumpJsObj, if_neg (by simp)]
  simp only [significant_append, printed, struct]
  cases bStruct with
  | true =>
    cases bInArray <;>
      simp [significant, htn, newLine, Token.isSpace, separator, commaUnless] <;>
      cases isLast <;> rfl
  | false =>
    cases bInArray <;>
      simp [significant, htn, newLine, Token.isSpace, separator, commaUnless] <;>
      cases isLast <;> rfl

/-- The name that is printed for a node with one. -/
theorem name_printed {text : Text} (named : text ≠ []) :
    (getCleanVariableName text).getD text = (memberName text).val := by
  cases text with
  | nil => exact absurd rfl named
  | cons c rest => rfl

theorem key_tokens (key value : Text) (iTabs : Nat) (bInArray isLast : Bool) :
    significant (dumpJsObj httpGetCStyleString iTabs bInArray isLast (keyNode key value)) =
      (if bInArray then [] else [.name ((getCleanVariableName key).getD key), .colon]) ++
        ([.string (httpGetCStyleString value)] ++ commaUnless isLast) :=
  dumpJsObj_plain httpGetCStyleString key false iTabs bInArray isLast false rfl rfl

theorem key_member {g : Text × List Text} (named : g.1 ≠ []) (filled : g.2 ≠ []) (iTabs : Nat)
    (isLast : Bool) :
    significant (dumpJsObj httpGetCStyleString iTabs false isLast (groupNode keyNode g)) =
      memberTokens (memberName g.1, valueOf httpGetCStyleString g.2) ++ commaUnless isLast := by
  obtain ⟨k, values⟩ := g
  match values with
  | [] => exact absurd rfl filled
  | [value] =>
    refine (key_tokens httpGetCStyleString k value iTabs false isLast).trans ?_
    rw [name_printed named]
    rfl
  | v :: w :: rest =>
    rw [groupNode_several keyNode k (by simp)]
    apply dumpJsObj_array httpGetCStyleString named
    rw [itemsTokens_joined, List.map_map]
    exact dumpJsObjs_joined httpGetCStyleString _ true (v :: w :: rest)
      fun value _ isLast => key_tokens httpGetCStyleString k value _ true isLast

/-- The tokens of what a sub-command has under it. -/
theorem calls_tokens {calls : Calls} (named : ∀ call ∈ calls, call.1 ≠ [])
    (apart : Apart arrayName (calls.map Prod.fst)) (iTabs : Nat) :
    significant (dumpJsObjs httpGetCStyleString iTabs false (runSubCmd calls)) =
      membersTokens ((treeArrangement.groups calls).map fun g =>
        (memberName g.1, valueOf httpGetCStyleString g.2)) := by
  have grouping := regroup_grouping calls
  rw [runSubCmd_groups named apart, membersTokens_joined, List.map_map]
  apply dumpJsObjs_joined
  intro g mem isLast
  apply key_member httpGetCStyleString _ (grouping.filled g mem)
  obtain ⟨call, here, same⟩ := List.mem_map.mp
    ((mem_regroup g.1 calls).mp (List.mem_map_of_mem mem))
  rw [← same]
  exact named call here

theorem groupNode_isNode (g : Text × List Text) : (groupNode keyNode g).isNode = true := by
  unfold groupNode
  split <;> rfl

/-- A sub-command that adds a value has nodes under it. -/
theorem runSubCmd_struct {calls : Calls} (named : ∀ call ∈ calls, call.1 ≠ [])
    (apart : Apart arrayName (calls.map Prod.fst)) :
    (runSubCmd calls).any XML.isNode = !calls.isEmpty := by
  cases calls with
  | nil => rfl
  | cons call rest =>
    rw [runSubCmd_groups named apart]
    obtain ⟨g, mem, _⟩ := List.mem_map.mp
      ((regroup_grouping (call :: rest)).all call List.mem_cons_self)
    exact List.any_eq_true.mpr ⟨_, List.mem_map_of_mem mem, groupNode_isNode g⟩

theorem cmd_tokens {calls : Calls} (named : ∀ call ∈ calls, call.1 ≠ [])
    (apart : Apart arrayName (calls.map Prod.fst)) (pcName : Text) (iTabs : Nat)
    (bInArray isLast : Bool) :
    significant (dumpJsObj httpGetCStyleString iTabs bInArray isLast (cmdNode pcName calls)) =
      (if bInArray then [] else [.name ((getCleanVariableName pcName).getD pcName), .colon]) ++
        (itemTokens (if calls = [] then none
          else some (objectOf httpGetCStyleString treeArrangement calls)) ++
          commaUnless isLast) := by
  refine (dumpJsObj_plain httpGetCStyleString pcName true iTabs bInArray isLast _
    (runSubCmd_struct named apart) (calls_tokens httpGetCStyleString named apart _)).trans ?_
  cases calls with
  | nil => rfl
  | cons call rest => rfl

theorem cmd_member {g : Text × List Calls} (named : g.1 ≠ []) (filled : g.2 ≠ [])
    (keys : ∀ calls ∈ g.2, ∀ call ∈ calls, call.1 ≠ [])
    (apart : ∀ calls ∈ g.2, Apart arrayName (calls.map Prod.fst))
    (once : ∀ calls, g.2 = [calls] → calls ≠ []) (iTabs : Nat) (isLast : Bool) :
    significant (dumpJsObj httpGetCStyleString iTabs false isLast (groupNode cmdNode g)) =
      memberTokens (memberName g.1, runsOf httpGetCStyleString treeArrangement g.2) ++
        commaUnless isLast := by
  obtain ⟨k, runs⟩ := g
  match runs with
  | [] => exact absurd rfl filled
  | [calls] =>
    refine (cmd_tokens httpGetCStyleString (keys calls List.mem_cons_self)
      (apart calls List.mem_cons_self) k iTabs false isLast).trans ?_
    rw [name_printed named, if_neg (once calls rfl)]
    rfl
  | a :: b :: rest =>
    rw [groupNode_several cmdNode k (by simp)]
    apply dumpJsObj_array httpGetCStyleString named
    rw [itemsTokens_joined, List.map_map]
    exact dumpJsObjs_joined httpGetCStyleString _ true (a :: b :: rest) fun calls mem isLast =>
      cmd_tokens httpGetCStyleString (keys calls mem) (apart calls mem) k _ true isLast

/-- A regular request is answered by the literal of its grouping. -/
theorem reply_literal {request : Request} (regular : Regular request) :
    IsLiteral (objectTokens httpGetCStyleString (httpCommonReply request.subCmds))
      (replyObject httpGetCStyleString treeArrangement request.subCmds) := by
  have grouping := regroup_grouping request.subCmds
  have inner : significant (dumpJsObjs httpGetCStyleString 1 false
      (httpCommonReply request.subCmds)) =
      membersTokens ((treeArrangement.groups request.subCmds).map fun g =>
        (memberName g.1, runsOf httpGetCStyleString treeArrangement g.2)) := by
    rw [request_groups, membersTokens_joined, List.map_map]
    apply dumpJsObjs_joined
    intro g mem isLast
    have runs : ∀ calls ∈ g.2, (g.1, calls) ∈ request.subCmds :=
      fun calls run => run_mem mem run
    apply cmd_member httpGetCStyleString _ (grouping.filled g mem)
    · exact fun calls run => regular.keys _ (runs calls run)
    · exact fun calls run => regular.apart _ (runs calls run)
    · intro calls single
      apply regular.values _ (runs calls (by rw [single]; exact List.mem_cons_self))
      show valuesOf g.1 request.subCmds = [calls]
      rw [← grouping.values g mem, single]
    · obtain ⟨s, here, same⟩ := List.mem_map.mp
        ((mem_regroup g.1 request.subCmds).mp (List.mem_map_of_mem mem))
      rw [← same]
      exact (request.registered s here).1
  show significant (.openObject :: newLine :: (dumpJsObjs httpGetCStyleString 1 false
    (httpCommonReply request.subCmds) ++ [.closeObject])) = _
  show .openObject :: significant (dumpJsObjs httpGetCStyleString 1 false
    (httpCommonReply request.subCmds) ++ [.closeObject]) = _
  rw [significant_append, inner]
  rfl

end Rovio.Reply
