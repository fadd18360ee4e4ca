import Rovio.Command.Registered

/-! How often the serving thread holds `g_rmutex` after a request. Every
structure that names `Config_SetIP` adds one in the authority pass; its
configuration call takes one back, if the request comes to it. -/
namespace Rovio.Command
open Rovio.Http Rovio.Account Kit

section
variable {P : HttpParams} {S : Type} (code : Code P S) (find : Lookup)

/-- The registered command that a parameter list names. -/
def named (pParamList : P.ParamList) : Option Registered :=
  match find (P.httpGetString pParamList "Cmd") with
  | some (true, c) => c
  | _ => none

def setsIP (s : SubCmdRunStruct P (Held S)) : Bool := named find s.pParamList = some .setIP

/-- The authority a command asks for. -/
def Code.asks (c : Registered) (pParamList : P.ParamList) (state : S) : Int :=
  if c = .setIP then
    if code.httpGetClientAddr state = localhost then authAny else authAdmin
  else code.authority c pParamList state

/-- The authority a structure asks for; an unknown command needs a user. -/
def Code.level (state : S) (s : SubCmdRunStruct P (Held S)) : Int :=
  match named find s.pParamList with
  | some c => code.asks c s.pParamList state
  | none => authUser

theorem fun_auth (c : Registered) (pParamList : P.ParamList) (w : Held S) :
    code.fun c pParamList .auth w =
      (code.asks c pParamList w.rest, if c = .setIP then w.lock else w) := by
  unfold Code.fun Code.asks
  split
  · rfl
  · rfl

theorem fun_config (c : Registered) (pParamList : P.ParamList) (w : Held S) :
    (code.fun c pParamList .config w).2.count = w.count - if c = .setIP then 1 else 0 := by
  unfold Code.fun
  split
  · rfl
  · rw [Int.sub_zero]
    exact config_balanced code c pParamList w

/-- What a structure runs is what its parameters name. -/
def Fits (s : SubCmdRunStruct P (Held S)) : Prop :=
  s.funSub = (named find s.pParamList).map code.fun

theorem runStructOf_fits (text : CString) :
    Fits code find (runStructOf (code.server find) text) := by
  unfold Fits runStructOf named Code.server
  dsimp only
  cases registered : find (P.httpGetString (P.httpParseString text) "Cmd") with
  | none => simp [registered]
  | some entry =>
    obtain ⟨isSubCmdInit, c⟩ := entry
    cases isSubCmdInit <;> cases c <;> simp [registered]

theorem collect_fits (heap : Heap) (segs : List CString) :
    ∀ s ∈ (collect (code.server find) heap 0 segs none).getD [], Fits code find s := by
  intro s mem
  have listed := (collect_sublist (code.server find) heap 0 segs none).mem mem
  simp only [Option.getD_none, List.nil_append, List.mem_mapIdx] at listed
  obtain ⟨i, _, rfl⟩ := listed
  exact runStructOf_fits code find _

section
variable {code find} {s : SubCmdRunStruct P (Held S)}

theorem Fits.auth (fits : Fits code find s) (w : Held S) :
    s.call .auth w = (code.level find w.rest s, if setsIP find s then w.lock else w) := by
  unfold SubCmdRunStruct.call setsIP Code.level
  unfold Fits at fits
  rw [fits]
  cases named find s.pParamList with
  | none => rfl
  | some c => simp [fun_auth]

theorem Fits.config (fits : Fits code find s) (w : Held S) :
    (s.call .config w).2.count = w.count - if setsIP find s then 1 else 0 := by
  unfold SubCmdRunStruct.call setsIP
  unfold Fits at fits
  rw [fits]
  cases named find s.pParamList with
  | none => simp [configSubNotFound]
  | some c => simp [fun_config]

theorem Fits.known (fits : Fits code find s) (sets : setsIP find s) : s.known := by
  unfold SubCmdRunStruct.known
  unfold Fits at fits
  rw [fits, of_decide_eq_true sets]
  rfl

end

/-- The structures whose reply could not be allocated, so that they do not run. -/
def stranded (heap : Heap) (i : Nat) : List (SubCmdRunStruct P (Held S)) → Nat
  | [] => 0
  | s :: rest =>
    if setsIP find s && !heap.xml i then stranded heap (i + 1) rest + 1
    else stranded heap (i + 1) rest

variable {code find}

theorem authorityPass_locks (list : List (SubCmdRunStruct P (Held S)))
    (fits : ∀ s ∈ list, Fits code find s) (a : Int) (w : Held S) :
    (authorityPass a w list).2.rest = w.rest ∧
      (authorityPass a w list).2.count = w.count + list.countP (setsIP find) ∧
      authorities w list = list.map (code.level find w.rest) := by
  induction list generalizing a w with
  | nil => simp [authorityPass, authorities]
  | cons s rest ih =>
    obtain ⟨fit, fits⟩ := List.forall_mem_cons.mp fits
    simp only [authorityPass, authorities, fit.auth, List.map_cons, List.countP_cons]
    cases setsIP find s with
    | true =>
      obtain ⟨same, count, levels⟩ := ih fits _ w.lock
      refine ⟨same, ?_, by rw [if_pos rfl, levels]; rfl⟩
      rw [if_pos rfl, if_pos rfl, count, Held.lock_count]
      omega
    | false =>
      obtain ⟨same, count, levels⟩ := ih fits _ w
      exact ⟨same, by simpa using count, by simp [levels]⟩

theorem configPass_unlocks (heap : Heap) (list : List (SubCmdRunStruct P (Held S)))
    (fits : ∀ s ∈ list, Fits code find s) (i : Nat) (w : Held S) :
    (configPass heap i w list).2.count + list.countP (setsIP find) =
      w.count + stranded find heap i list := by
  induction list generalizing i w with
  | nil => simp [configPass, stranded]
  | cons s rest ih =>
    obtain ⟨fit, fits⟩ := List.forall_mem_cons.mp fits
    simp only [configPass, stranded, List.countP_cons]
    cases sets : setsIP find s with
    | false =>
      have same : (s.call .config w).2.count = w.count := by
        rw [fit.config, sets]
        exact Int.sub_zero _
      simp only [Bool.false_and, Bool.false_eq_true, if_false, Nat.add_zero]
      split
      · rw [← same]
        exact ih fits (i + 1) _
      · exact ih fits (i + 1) w
    | true =>
      have less : (s.call .config w).2.count = w.count - 1 := by
        rw [fit.config, sets]
        rfl
      have ran := ih fits (i + 1) (s.call .config w).2
      have kept := ih fits (i + 1) w
      rw [less] at ran
      cases xml : heap.xml i with
      | true =>
        simp only [fit.known sets, and_self, if_true, Bool.and_false, Bool.not_true,
          Bool.false_eq_true, if_false]
        omega
      | false =>
        simp only [Bool.false_eq_true, and_false, if_false, Bool.not_false, Bool.and_self, if_true]
        omega

theorem stranded_eq_zero (heap : Heap) (i : Nat) (list : List (SubCmdRunStruct P (Held S))) :
    stranded find heap i list = 0 ↔
      ∀ j s, list[j]? = some s → setsIP find s → heap.xml (i + j) := by
  induction list generalizing i with
  | nil => simp [stranded]
  | cons s rest ih =>
    have shift (j : Nat) : i + (j + 1) = i + 1 + j := by omega
    unfold stranded
    split
    · rename_i lost
      rw [Bool.and_eq_true, Bool.not_eq_true'] at lost
      constructor
      · intro none
        omega
      · intro all
        have there := all 0 s rfl lost.1
        rw [Nat.add_zero, lost.2] at there
        cases there
    · rename_i kept
      rw [ih]
      constructor
      · intro later j t found sets
        cases j with
        | zero =>
          obtain rfl : s = t := Option.some.inj found
          simpa [sets] using kept
        | succ j =>
          rw [shift]
          exact later j t found sets
      · intro all j t found sets
        rw [← shift]
        exact all (j + 1) t found sets

/-- A request for one registered command, or for several behind `Cmd.cgi`. -/
inductive Request where
  | common (heap : Heap) (pcCmdParam : CString)
  | sub (c : Registered) (pcCmdParam : CString)

variable (code find) (lib : HttpSplit)

def Code.structs (heap : Heap) (pcCmdParam : CString) : List (SubCmdRunStruct P (Held S)) :=
  (collect (code.server find) heap 0 (lib.httpSplitBuffer pcCmdParam "&Cmd=".toList) none).getD []

def Request.serve (w : Held S) : Request → Held S
  | .common heap pcCmdParam => (httpCommonCmdRun lib (code.server find) heap pcCmdParam w).world
  | .sub c pcCmdParam => (code.httpSubCmdRun c pcCmdParam w).2

/-- Every `Config_SetIP` of the request is run: the connection has all authorities asked for, and
the reply of each is allocated. -/
def Request.SetsRun (state : S) : Request → Prop
  | .common heap pcCmdParam =>
    let structs := code.structs find lib heap pcCmdParam
    ∀ i s, structs[i]? = some s → setsIP find s →
      heap.xml i ∧ ∀ level ∈ authAny :: structs.map (code.level find state),
        level ≤ code.httpGetAuthPrivilege state
  | .sub c pcCmdParam =>
    c = .setIP →
      code.asks c (P.httpParseString pcCmdParam) state ≤ code.httpGetAuthPrivilege state

variable {code find lib}

theorem required_le {list : List (SubCmdRunStruct P (Held S))}
    (fits : ∀ s ∈ list, Fits code find s) (w : Held S) (privilege : Int) :
    (authorityPass authAny w list).1 ≤ privilege ↔
      ∀ level ∈ authAny :: list.map (code.level find w.rest), level ≤ privilege := by
  rw [← (authorityPass_locks list fits authAny w).2.2]
  have most := authorityPass_max authAny w list
  constructor
  · intro low level mem
    rcases List.mem_cons.mp mem with rfl | mem
    · exact Int.le_trans most.1 low
    · exact Int.le_trans (most.2 level mem) low
  · intro all
    rcases authorityPass_mem authAny w list with same | found
    · rw [same]
      exact all _ List.mem_cons_self
    · exact all _ (List.mem_cons_of_mem _ found)

theorem common_count (heap : Heap) (pcCmdParam : CString) (w : Held S) :
    (httpCommonCmdRun lib (code.server find) heap pcCmdParam w).world.count = w.count ↔
      Request.SetsRun code find lib w.rest (.common heap pcCmdParam) := by
  obtain ⟨listed, asks, runs⟩ := httpCommonCmdRun_spec lib (code.server find) heap pcCmdParam w
  have fits := collect_fits code find heap (lib.httpSplitBuffer pcCmdParam "&Cmd=".toList)
  rw [listed] at asks runs
  set list := (collect (code.server find) heap 0
    (lib.httpSplitBuffer pcCmdParam "&Cmd=".toList) none).getD [] with same
  obtain ⟨rest, count, _⟩ := authorityPass_locks list fits authAny w
  have required := congrArg Prod.fst asks
  have asked := congrArg Prod.snd asks
  dsimp only at required asked
  have privilege : (code.server find).httpGetAuthPrivilege
      (httpCommonCmdRun lib (code.server find) heap pcCmdParam w).asked =
        code.httpGetAuthPrivilege w.rest := by
    change code.httpGetAuthPrivilege (httpCommonCmdRun lib _ heap pcCmdParam w).asked.rest = _
    rw [asked, rest]
  rw [privilege, required] at runs
  have allowed := required_le fits w (code.httpGetAuthPrivilege w.rest)
  change _ ↔ ∀ i s, list[i]? = some s → setsIP find s → heap.xml i ∧ _
  split at runs
  · rename_i low
    -- a rejected request keeps what its authority pass locked
    have world := congrArg Prod.snd runs
    dsimp only at world
    rw [world, asked, count]
    have rejected := fun all => Int.not_le.mpr low (allowed.mpr all)
    constructor
    · intro none i s found sets
      have some : 0 < list.countP (setsIP find) :=
        List.countP_pos_iff.mpr ⟨s, List.mem_of_getElem? found, sets⟩
      omega
    · intro all
      have none : list.countP (setsIP find) = 0 := by
        rw [List.countP_eq_zero]
        intro s mem sets
        obtain ⟨i, found⟩ := List.mem_iff_getElem?.mp mem
        exact rejected (all i s found sets).2
      omega
  · rename_i high
    have world := congrArg Prod.snd runs
    dsimp only at world
    have levels := allowed.mp (Int.not_lt.mp high)
    have unlocked := configPass_unlocks heap list fits 0 (authorityPass authAny w list).2
    have missing : stranded find heap 0 list = 0 ↔
        ∀ i s, list[i]? = some s → setsIP find s → heap.xml i := by
      simpa only [Nat.zero_add] using stranded_eq_zero heap 0 list
    rw [world, asked]
    constructor
    · intro balanced i s found sets
      have none : stranded find heap 0 list = 0 := by omega
      exact ⟨missing.mp none i s found sets, levels⟩
    · intro all
      have none := missing.mpr fun i s found sets => (all i s found sets).1
      omega

theorem sub_count (c : Registered) (pcCmdParam : CString) (w : Held S) :
    (code.httpSubCmdRun c pcCmdParam w).2.count = w.count ↔
      Request.SetsRun code find lib w.rest (.sub c pcCmdParam) := by
  have same : (if c = .setIP then w.lock else w).rest = w.rest := by split <;> rfl
  unfold Code.httpSubCmdRun Request.SetsRun
  simp only [fun_auth, same]
  split
  · rename_i low
    by_cases sets : c = .setIP
    · rw [if_pos sets, Held.lock_count]
      constructor
      · intro same
        omega
      · intro reached
        exact absurd (reached sets) (Int.not_le.mpr low)
    · simp [sets]
  · rename_i high
    rw [fun_config]
    by_cases sets : c = .setIP
    · rw [if_pos sets, if_pos sets, Held.lock_count]
      constructor
      · exact fun _ _ => Int.not_lt.mp high
      · intro _
        omega
    · simp [sets]

/-- A request leaves the lock as it was exactly when each `Config_SetIP` it names is run. -/
theorem lock_balanced (code : Code P S) (find : Lookup) (lib : HttpSplit) (request : Request)
    (w : Held S) :
    (request.serve code find lib w).count = w.count ↔ request.SetsRun code find lib w.rest := by
  cases request with
  | common heap pcCmdParam => exact common_count heap pcCmdParam w
  | sub c pcCmdParam => exact sub_count c pcCmdParam w

end

/-- A connection from elsewhere with a given privilege, and nothing to do for any command. -/
def remote (privilege : Int) : Code plainParams Unit where
  httpGetClientAddr _ := 0xc0a80002
  httpGetAuthPrivilege _ := privilege
  authority _ _ _ := authUser
  test _ _ _ := true
  refuses _ _ _ := false
  part _ _ _ state := state
  result _ _ _ := 0

def findIP : Lookup := fun name =>
  if name = some "SetIP.cgi".toList then some (true, some .setIP)
  else if name = some "GetIP.cgi".toList then some (true, some .getIP) else none

/-- A user who may not set the address leaves the lock held, by either of the two ways. -/
theorem rejected_keeps_lock :
    (Request.serve (remote authUser) findIP plainSplit ⟨0, ()⟩
      (.common fullHeap "Cmd=SetIP.cgi&IP=1.2.3.4".toList)).count ≠ 0 ∧
    (Request.serve (remote authUser) findIP plainSplit ⟨0, ()⟩
      (.sub .setIP "IP=1.2.3.4".toList)).count ≠ 0 := by decide

example : (Request.serve (remote authAdmin) findIP plainSplit ⟨0, ()⟩
    (.common fullHeap "Cmd=SetIP.cgi&Cmd=GetIP.cgi".toList)).count = 0 := by decide

end Rovio.Command
