import Rovio.Kit.Split
import Rovio.Account.Requests

/-! A request with several commands. The string is cut at `&Cmd=`, every piece
becomes a command structure, all structures are asked for the privilege they
need, and only then any of them runs. Each allocation may fail on its own. -/
namespace Rovio.Command
open Rovio.Http Rovio.Account Kit

/-- `httpSplitBuffer` with a separator string; its source is not in the repository. -/
structure HttpSplit where
  httpSplitBuffer : CString → CString → List CString
  join : ∀ s sep, sep ≠ [] → sep.intercalate (httpSplitBuffer s sep) = s
  clean : ∀ s sep, sep ≠ [] → ∀ seg ∈ httpSplitBuffer s sep, ¬ sep <:+: seg

def plainSplit : HttpSplit where
  httpSplitBuffer s sep := splitList sep s
  join s _ some := intercalate_splitList some s
  clean s _ some := splitList_clean some s

/-- The outcomes of the allocations made for a segment and for a command's reply. -/
structure Heap where
  subStr : Nat → Bool
  runStruct : Nat → Bool
  list : Nat → Bool
  node : Nat → Bool
  xml : Nat → Bool

section
variable (P : HttpParams) (W : Type)

/-- A command function, over everything it may read and change. -/
abbrev SubCmdFun := P.ParamList → ConfigAction → W → Int × W

/-- A registration: whether its callback is `Http_SubCmdInit`, and its parameter. -/
structure Embedded where
  isSubCmdInit : Bool
  pFun : Option (SubCmdFun P W)

/-- The registered functions, looked up by a possibly NULL name, and the connection's privilege. -/
structure Server where
  httpIsRegisterEmbedFunEx : Option CString → Option (Embedded P W)
  httpGetAuthPrivilege : W → Int

/-- `SUBCMD_RUN_STRUCT`; no function stands for `Config_SubNotFound`. -/
structure SubCmdRunStruct where
  pParamList : P.ParamList
  funSub : Option (SubCmdFun P W)

def configSubNotFound : SubCmdFun P W := fun _ iAction w =>
  match iAction with
  | .auth => (authUser, w)
  | .config => (0, w)

variable {P W}

def SubCmdRunStruct.call (s : SubCmdRunStruct P W) (iAction : ConfigAction) (w : W) : Int × W :=
  s.funSub.getD (configSubNotFound P W) s.pParamList iAction w

def SubCmdRunStruct.known (s : SubCmdRunStruct P W) : Bool := s.funSub.isSome

/-- The structure that `CreateSubCmdRunStruct` fills in. -/
def runStructOf (srv : Server P W) (pcParamString : CString) : SubCmdRunStruct P W :=
  let pParamList := P.httpParseString pcParamString
  match srv.httpIsRegisterEmbedFunEx (P.httpGetString pParamList "Cmd") with
  | some ⟨true, some pFun⟩ => ⟨pParamList, some pFun⟩
  | _ => ⟨pParamList, none⟩

def createSubCmdRunStruct (srv : Server P W) (heap : Heap) (i : Nat) (pcParamString : CString) :
    Option (SubCmdRunStruct P W) :=
  if heap.runStruct i then some (runStructOf srv pcParamString) else none

/-- The parameter string of a segment: the separator's `Cmd=` is put back, except in the first. -/
def segmentText (i : Nat) (seg : CString) : CString :=
  if i = 0 then seg else "Cmd=".toList ++ seg

/-- The body of the loop over the segments. -/
def addSegment (srv : Server P W) (heap : Heap) (i : Nat) (seg : CString)
    (pListSub : Option (List (SubCmdRunStruct P W))) : Option (List (SubCmdRunStruct P W)) :=
  if heap.subStr i then
    match createSubCmdRunStruct srv heap i (segmentText i seg) with
    | none => pListSub
    | some pSubCmdStruct =>
      match (if pListSub.isNone ∧ heap.list i then some [] else pListSub) with
      | none => none
      | some list => if heap.node i then some (list ++ [pSubCmdStruct]) else some list
  else pListSub

def collect (srv : Server P W) (heap : Heap) (i : Nat) (pListSeg : List CString)
    (pListSub : Option (List (SubCmdRunStruct P W))) : Option (List (SubCmdRunStruct P W)) :=
  match pListSeg with
  | [] => pListSub
  | seg :: rest => collect srv heap (i + 1) rest (addSegment srv heap i seg pListSub)

/-- The pass that asks every structure for its authority and keeps the largest. -/
def authorityPass (iAuthRequired : Int) (w : W) : List (SubCmdRunStruct P W) → Int × W
  | [] => (iAuthRequired, w)
  | s :: rest =>
    let (iAuthRequiredNew, w) := s.call .auth w
    authorityPass (if iAuthRequired < iAuthRequiredNew then iAuthRequiredNew else iAuthRequired)
      w rest

/-- The pass that runs the commands; it also returns those it ran. -/
def configPass (heap : Heap) (i : Nat) (w : W) :
    List (SubCmdRunStruct P W) → List (SubCmdRunStruct P W) × W
  | [] => ([], w)
  | s :: rest =>
    if s.known ∧ heap.xml i then
      let (ran, w) := configPass heap (i + 1) (s.call .config w).2 rest
      (s :: ran, w)
    else configPass heap (i + 1) w rest

/-- What a request did: the structures, the largest authority, the world after the authority pass
and at the end, and the commands whose configuration function ran. -/
structure CommonRun (P : HttpParams) (W : Type) where
  pListSub : Option (List (SubCmdRunStruct P W))
  iAuthRequired : Int
  asked : W
  executed : List (SubCmdRunStruct P W)
  world : W

def httpCommonCmdRun (lib : HttpSplit) (srv : Server P W) (heap : Heap) (pcCmdParam : CString)
    (w : W) : CommonRun P W :=
  let pListSub := collect srv heap 0 (lib.httpSplitBuffer pcCmdParam "&Cmd=".toList) none
  match pListSub with
  | none => ⟨none, authAny, w, [], w⟩
  | some list =>
    let (iAuthRequired, asked) := authorityPass authAny w list
    if srv.httpGetAuthPrivilege asked < iAuthRequired then
      ⟨pListSub, iAuthRequired, asked, [], asked⟩
    else
      let (executed, world) := configPass heap 0 asked list
      ⟨pListSub, iAuthRequired, asked, executed, world⟩

/-- The authorities that the structures ask for, one after another. -/
def authorities (w : W) : List (SubCmdRunStruct P W) → List Int
  | [] => []
  | s :: rest => (s.call .auth w).1 :: authorities (s.call .auth w).2 rest

theorem addSegment_cases (srv : Server P W) (heap : Heap) (i : Nat) (seg : CString)
    (acc : Option (List (SubCmdRunStruct P W))) :
    (addSegment srv heap i seg acc).getD [] = acc.getD [] ∨
      (addSegment srv heap i seg acc).getD [] =
        acc.getD [] ++ [runStructOf srv (segmentText i seg)] := by
  unfold addSegment createSubCmdRunStruct
  cases heap.subStr i <;> cases heap.runStruct i <;> cases heap.list i <;> cases heap.node i <;>
    cases acc <;> simp

theorem segmentStructs_shift (srv : Server P W) (i : Nat) (seg : CString) (rest : List CString) :
    (seg :: rest).mapIdx (fun j seg => runStructOf srv (segmentText (i + j) seg)) =
      runStructOf srv (segmentText i seg) ::
        rest.mapIdx (fun j seg => runStructOf srv (segmentText (i + 1 + j) seg)) := by
  rw [List.mapIdx_cons]
  simp only [Nat.add_zero, Nat.add_assoc, Nat.add_comm 1]

theorem collect_sublist (srv : Server P W) (heap : Heap) (i : Nat) (segs : List CString)
    (acc : Option (List (SubCmdRunStruct P W))) :
    ((collect srv heap i segs acc).getD []).Sublist
      (acc.getD [] ++ segs.mapIdx (fun j seg => runStructOf srv (segmentText (i + j) seg))) := by
  induction segs generalizing i acc with
  | nil => simp [collect]
  | cons seg rest ih =>
    refine (ih (i + 1) (addSegment srv heap i seg acc)).trans ?_
    rw [segmentStructs_shift]
    rcases addSegment_cases srv heap i seg acc with same | more
    · rw [same]
      exact (List.sublist_cons_self _ _).append_left _
    · rw [more, List.append_assoc]
      exact .refl _

theorem authorityPass_max (a : Int) (w : W) (list : List (SubCmdRunStruct P W)) :
    a ≤ (authorityPass a w list).1 ∧
      ∀ level ∈ authorities w list, level ≤ (authorityPass a w list).1 := by
  induction list generalizing a w with
  | nil => exact ⟨Int.le_refl _, by simp [authorities]⟩
  | cons s rest ih =>
    simp only [authorityPass]
    obtain ⟨low, all⟩ := ih (if a < (s.call .auth w).1 then (s.call .auth w).1 else a)
      (s.call .auth w).2
    have bound : a ≤ (if a < (s.call .auth w).1 then (s.call .auth w).1 else a) ∧
        (s.call .auth w).1 ≤ (if a < (s.call .auth w).1 then (s.call .auth w).1 else a) := by
      split <;> omega
    refine ⟨Int.le_trans bound.1 low, fun level mem => ?_⟩
    rcases List.mem_cons.mp mem with rfl | mem
    · exact Int.le_trans bound.2 low
    · exact all level mem

theorem authorityPass_mem (a : Int) (w : W) (list : List (SubCmdRunStruct P W)) :
    (authorityPass a w list).1 = a ∨ (authorityPass a w list).1 ∈ authorities w list := by
  induction list generalizing a w with
  | nil => exact .inl rfl
  | cons s rest ih =>
    simp only [authorityPass, authorities]
    rcases ih (if a < (s.call .auth w).1 then (s.call .auth w).1 else a) (s.call .auth w).2 with
      same | found
    · rw [same]
      split
      · exact .inr List.mem_cons_self
      · exact .inl rfl
    · exact .inr (List.mem_cons_of_mem _ found)

/-- One description for both branches: a missing list is an empty one. -/
theorem httpCommonCmdRun_spec (lib : HttpSplit) (srv : Server P W) (heap : Heap)
    (pcCmdParam : CString) (w : W) :
    let run := httpCommonCmdRun lib srv heap pcCmdParam w
    let structs := run.pListSub.getD []
    run.pListSub = collect srv heap 0 (lib.httpSplitBuffer pcCmdParam "&Cmd=".toList) none ∧
    (run.iAuthRequired, run.asked) = authorityPass authAny w structs ∧
    (run.executed, run.world) =
      if srv.httpGetAuthPrivilege run.asked < run.iAuthRequired then ([], run.asked)
      else configPass heap 0 run.asked structs := by
  intro run structs
  simp only [run, structs, httpCommonCmdRun]
  split
  · rename_i none
    refine ⟨none.symm, rfl, ?_⟩
    split <;> rfl
  · rename_i list some
    simp only [some]
    split <;> exact ⟨rfl, rfl, rfl⟩

end

/-- One command that needs an administrator and counts its runs. -/
def countServer (privilege : Int) : Server plainParams Nat where
  httpIsRegisterEmbedFunEx name := if name = some "Inc".toList then
    some ⟨true, some fun _ iAction n => match iAction with
      | .auth => (authAdmin, n)
      | .config => (0, n + 1)⟩ else none
  httpGetAuthPrivilege _ := privilege

def fullHeap : Heap :=
  ⟨fun _ => true, fun _ => true, fun _ => true, fun _ => true, fun _ => true⟩

example : (httpCommonCmdRun plainSplit (countServer authAdmin) fullHeap
    "Cmd=Inc&x=1&Cmd=No&Cmd=Inc".toList 0).world = 2 := by decide

example : (httpCommonCmdRun plainSplit (countServer authUser) fullHeap
    "Cmd=No&Cmd=Inc".toList 0).world = 0 := by decide

end Rovio.Command
