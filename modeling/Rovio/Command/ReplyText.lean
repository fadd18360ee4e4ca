import Rovio.Command.ReplyTree

/-! Replies as lines. -/
namespace Rovio.Reply
open Kit

variable (httpGetCStyleString : Text → Text) (bJS : Bool)

theorem dumpJsVars_flatMap (pcParent : Text) (bCmdParent : Bool) (nodes : List XML) :
    dumpJsVars httpGetCStyleString bJS pcParent bCmdParent nodes =
      nodes.flatMap (dumpJsVar httpGetCStyleString bJS pcParent bCmdParent) := by
  induction nodes with
  | nil => rfl
  | cons node rest ih => rw [dumpJsVars, List.flatMap_cons, ih]

theorem dumpJsVar_key (pcParent : Text) (bCmdParent : Bool) (key value : Text) :
    dumpJsVar httpGetCStyleString bJS pcParent bCmdParent (keyNode key value) =
      lineOf httpGetCStyleString bJS key value := by
  simp only [keyNode, dumpJsVar, dumpJsVars, lineOf, Bool.false_eq_true, if_false,
    List.nil_append, List.append_nil]

section Groups
variable {A : Type} {mk : Text → A → XML} {shown : Text → A → Text}

/-- An array prints its nodes one after the other. -/
theorem dumpJsVar_group (g : Text × List A) (filled : g.2 ≠ [])
    (prints : ∀ a ∈ g.2, ∀ pcParent bCmdParent,
      dumpJsVar httpGetCStyleString bJS pcParent bCmdParent (mk g.1 a) = shown g.1 a)
    (pcParent : Text) (bCmdParent : Bool) :
    dumpJsVar httpGetCStyleString bJS pcParent bCmdParent (groupNode mk g) =
      g.2.flatMap (shown g.1) := by
  obtain ⟨k, values⟩ := g
  match values with
  | [] => exact absurd rfl filled
  | [a] =>
    show dumpJsVar _ _ _ _ (mk k a) = _
    rw [prints a List.mem_cons_self, List.flatMap_singleton]
  | a :: b :: rest =>
    rw [groupNode_several mk k (by simp)]
    show [] ++ dumpJsVars httpGetCStyleString bJS arrayName false _ = _
    rw [List.nil_append, dumpJsVars_flatMap, List.flatMap_map]
    exact List.flatMap_congr fun x mem => prints x mem arrayName false

theorem dumpJsVars_groups {groups : Groups Text A} (filled : ∀ g ∈ groups, g.2 ≠ [])
    (prints : ∀ g ∈ groups, ∀ a ∈ g.2, ∀ pcParent bCmdParent,
      dumpJsVar httpGetCStyleString bJS pcParent bCmdParent (mk g.1 a) = shown g.1 a)
    (pcParent : Text) (bCmdParent : Bool) :
    dumpJsVars httpGetCStyleString bJS pcParent bCmdParent (groups.map (groupNode mk)) =
      groups.flatMap fun g => g.2.flatMap (shown g.1) := by
  rw [dumpJsVars_flatMap, List.flatMap_map]
  apply List.flatMap_congr
  intro g mem
  exact dumpJsVar_group _ _ g (filled g mem) (prints g mem) pcParent bCmdParent

end Groups

theorem dumpJsVar_cmd {pcName : Text} {calls : Calls} (named : ∀ call ∈ calls, call.1 ≠ [])
    (apart : Apart arrayName (calls.map Prod.fst)) (pcParent : Text) (bCmdParent : Bool) :
    dumpJsVar httpGetCStyleString bJS pcParent bCmdParent (cmdNode pcName calls) =
      cmdText httpGetCStyleString treeArrangement bJS pcName calls := by
  unfold cmdNode
  rw [dumpJsVar, if_pos rfl, runSubCmd_groups named apart,
    dumpJsVars_groups _ _ (regroup_grouping calls).filled]
  · rfl
  · exact fun g _ value _ pcParent bCmdParent => dumpJsVar_key _ _ pcParent bCmdParent g.1 value

/-- The lines of a reply. -/
theorem dumpJsVars_reply {request : Request} (regular : Regular request) (pcParent : Text)
    (bCmdParent : Bool) :
    dumpJsVars httpGetCStyleString bJS pcParent bCmdParent (httpCommonReply request.subCmds) =
      replyText httpGetCStyleString treeArrangement bJS request.subCmds := by
  rw [request_groups, dumpJsVars_groups _ _ (regroup_grouping request.subCmds).filled]
  · rfl
  · intro g group calls run pcParent bCmdParent
    have mem := run_mem group run
    exact dumpJsVar_cmd _ _ (regular.keys _ mem) (regular.apart _ mem) pcParent bCmdParent

end Rovio.Reply
