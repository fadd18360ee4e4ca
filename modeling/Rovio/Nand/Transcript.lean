import Rovio.Nand.Access

/-! What the flash operations of a call come to: the events they leave in the log and
the status that is reported. -/
namespace Rovio.Nand

open Kit

variable {card : Card}

/-- The events of operations issued from here on, none of them minded. -/
def World.attempts (card : Card) (w : World) (ops : List Op) : List Event :=
  Kit.attempts card.report w.log.length ops

/-- The status of a loop that ends with the first failure. -/
def verdict (es : List Event) : Status :=
  match es.find? fun e => !e.out.isOk with
  | none => .noErr
  | some e => e.out.status

def World.setFree (w : World) (nodes : List Node) : World :=
  { w with smZone := { w.smZone with freeBlockList := nodes } }

def World.setL2P (w : World) (block : Nat) (entry : Option Nat) : World :=
  { w with smZone := { w.smZone with l2pTable := Function.update w.smZone.l2pTable block entry } }

def World.countMalloc (w : World) : World := { w with mallocs := w.mallocs + 1 }

abbrev World.l2p (w : World) : Nat → Option Nat := w.smZone.l2pTable

abbrev World.free (w : World) : List Node := w.smZone.freeBlockList

/-! ### Fields -/

section
variable (w : World) (es : List Event) (nodes : List Node) (block : Nat) (entry : Option Nat)

@[simp] theorem push_flash : (w.push card es).flash = replay card.uPagePerBlock w.flash es := rfl
@[simp] theorem push_log : (w.push card es).log = w.log ++ es := rfl
@[simp] theorem push_smZone : (w.push card es).smZone = w.smZone := rfl
@[simp] theorem push_mallocs : (w.push card es).mallocs = w.mallocs := rfl
@[simp] theorem setFree_flash : (w.setFree nodes).flash = w.flash := rfl
@[simp] theorem setFree_log : (w.setFree nodes).log = w.log := rfl
@[simp] theorem setFree_l2p : (w.setFree nodes).smZone.l2pTable = w.smZone.l2pTable := rfl
@[simp] theorem setFree_free : (w.setFree nodes).smZone.freeBlockList = nodes := rfl
@[simp] theorem setFree_isScan : (w.setFree nodes).smZone.isScan = w.smZone.isScan := rfl
@[simp] theorem setFree_mallocs : (w.setFree nodes).mallocs = w.mallocs := rfl
@[simp] theorem setL2P_flash : (w.setL2P block entry).flash = w.flash := rfl
@[simp] theorem setL2P_l2p : (w.setL2P block entry).smZone.l2pTable =
    Function.update w.smZone.l2pTable block entry := rfl
@[simp] theorem setL2P_free : (w.setL2P block entry).smZone.freeBlockList =
    w.smZone.freeBlockList :=
  rfl
@[simp] theorem setL2P_isScan : (w.setL2P block entry).smZone.isScan = w.smZone.isScan := rfl
@[simp] theorem setL2P_mallocs : (w.setL2P block entry).mallocs = w.mallocs := rfl
@[simp] theorem countMalloc_flash : w.countMalloc.flash = w.flash := rfl
@[simp] theorem countMalloc_log : w.countMalloc.log = w.log := rfl
@[simp] theorem countMalloc_smZone : w.countMalloc.smZone = w.smZone := rfl
@[simp] theorem countMalloc_mallocs : w.countMalloc.mallocs = w.mallocs + 1 := rfl

@[simp] theorem push_nil : w.push card [] = w := by
  simp [World.push]

theorem push_push (fs : List Event) : (w.push card es).push card fs = w.push card (es ++ fs) := by
  simp [World.push, replay_append]

end

theorem attempts_cons (w : World) (op : Op) (ops : List Op) :
    w.attempts card (op :: ops) = ⟨op, card.report w.log.length op⟩ ::
      (w.push card [⟨op, card.report w.log.length op⟩]).attempts card ops := by
  simp [World.attempts, Kit.attempts]

theorem attempts_append (w : World) (xs ys : List Op) :
    w.attempts card (xs ++ ys) =
      w.attempts card xs ++ (w.push card (w.attempts card xs)).attempts card ys := by
  simp [World.attempts, Kit.attempts_append]

theorem attempts_one (w : World) (op : Op) :
    w.attempts card [op] = [⟨op, card.report w.log.length op⟩] := rfl

/-- No operation reports a failure. -/
def Card.FaultFree (card : Card) : Prop := ∀ n op, card.report n op = .ok

theorem Card.FaultFree.attempts (sound : card.FaultFree) {w : World} {ops : List Op} {e : Event}
    (mem : e ∈ w.attempts card ops) : e.out = .ok := by
  obtain ⟨i, here⟩ := List.mem_iff_getElem?.mp mem
  rw [World.attempts, getElem?_attempts, Option.map_eq_some_iff] at here
  obtain ⟨op, -, rfl⟩ := here
  exact sound _ _

theorem verdict_eq_noErr {es : List Event} : verdict es = .noErr ↔ ∀ e ∈ es, e.out.isOk := by
  unfold verdict
  split
  · rename_i none
    simpa using none
  · rename_i e found
    have bad := List.find?_some found
    have mem := List.mem_of_find?_eq_some found
    simp only [Bool.not_eq_eq_eq_not, Bool.not_true] at bad
    rw [Outcome.status_eq_noErr]
    constructor
    · intro fine
      simp [bad] at fine
    · intro all
      exact all e mem

theorem verdict_one (w : World) (op : Op) :
    verdict (w.attempts card [op]) = (card.report w.log.length op).status := by
  rw [attempts_one]
  cases card.report w.log.length op with
  | ok => rfl
  | fails fault left => rfl

/-! ### Operations -/

theorem issue_run (op : Op) (w : World) :
    issue card op w =
      some (verdict (w.attempts card [op]), w.push card (w.attempts card [op])) := by
  rw [attempts_one]
  cases out : card.report w.log.length op with
  | ok => simp [issue, out, verdict, Outcome.isOk, Outcome.status]
  | fails fault left => simp [issue, out, verdict, Outcome.isOk]

theorem issueAll_run (ops : List Op) (w : World) :
    issueAll card ops w = some (verdict (w.attempts card ops),
      w.push card (upToFailure Outcome.isOk (w.attempts card ops))) := by
  induction ops generalizing w with
  | nil => simp [issueAll, World.attempts, upToFailure, verdict, pure_run]
  | cons op ops ih =>
    rw [issueAll, bind_of_run (issue_run op w), ite_run, attempts_one, attempts_cons]
    cases out : card.report w.log.length op with
    | ok =>
      have good : verdict [⟨op, .ok⟩] = .noErr := rfl
      rw [if_neg (by simp [good]), ih]
      simp [verdict, upToFailure, Outcome.isOk, push_push]
    | fails fault left =>
      have bad : verdict [⟨op, .fails fault left⟩] = fault.status := rfl
      have failed : fault.status ≠ .noErr := by cases fault <;> simp [Fault.status]
      rw [bad, if_pos failed, pure_run]
      simp [verdict, upToFailure, Outcome.isOk, Outcome.status]

theorem getZone_run (w : World) : getZone 0 w = some (w.smZone, w) := rfl

theorem getL2P_run {block : Nat} (small : block < l2pTableSize) (w : World) :
    getL2P 0 block w = some (w.l2p block, w) := by
  rw [getL2P, bind_of_run (getZone_run w), ite_run, if_pos small]
  rfl

theorem setL2P_run {block : Nat} (small : block < l2pTableSize) (entry : Option Nat) (w : World) :
    setL2P 0 block entry w = some ((), w.setL2P block entry) := by
  rw [setL2P, bind_of_run (getZone_run w), ite_run, if_pos small]
  rfl

theorem smAddFreeBlock_run (blockNo : Nat) (flag : Bool) (w : World) :
    smAddFreeBlock card 0 blockNo flag w =
      if card.malloc w.mallocs then
        some (.noErr, (w.setFree (w.free ++ [⟨blockNo, flag⟩])).countMalloc)
      else some (.mallocError, w.countMalloc) := by
  cases found : card.malloc w.mallocs with
  | true =>
    rw [smAddFreeBlock, bind_run]
    simp only [mallocNode, found, Option.bind_some, if_true]
    rfl
  | false => simp [smAddFreeBlock, bind_run, mallocNode, found, pure_run, World.countMalloc]

theorem ensureScanned_run {w : World} (scanned : w.smZone.isScan) :
    ensureScanned card 0 w = some ((), w) := by
  rw [ensureScanned, bind_of_run (getZone_run w), ite_run, if_pos scanned]
  rfl

/-! ### Free blocks -/

/-- The events of `get_free_block`, the block it returns and the rest of the list. -/
def takeFree (card : Card) : Nat → List Node → Option (List Event × Nat × List Node)
  | _, [] => none
  | n, p :: next =>
    if p.status then
      let e : Event := ⟨.erase p.block, card.report n (.erase p.block)⟩
      if e.out.status = .stateError then
        (takeFree card (n + 1) next).map fun (es, b, rest) => (e :: es, b, rest)
      else some ([e], p.block, next)
    else some ([], p.block, next)

theorem takeFreeBlock_run (nodes : List Node) (w : World) :
    takeFreeBlock card 0 nodes w = (takeFree card w.log.length nodes).map fun (es, b, rest) =>
      (b, (w.push card es).setFree rest) := by
  induction nodes generalizing w with
  | nil => rfl
  | cons p next ih =>
    have moved : setZone { w.smZone with freeBlockList := next } w =
      some ((), w.setFree next) := rfl
    rw [takeFreeBlock, bind_of_run (getZone_run w), bind_of_run moved, ite_run, takeFree]
    cases dirty : p.status with
    | false => simp [pure_run]
    | true =>
      rw [if_pos rfl, if_pos rfl, fmiSMBlockErase, bind_of_run (issue_run _ _), ite_run,
        verdict_one]
      by_cases failed : (card.report w.log.length (.erase p.block)).status = .stateError
      · simp only [setFree_log, failed, if_true]
        rw [ih]
        simp only [attempts_one, push_log, setFree_log, List.length_append, List.length_singleton,
          Option.map_map]
        congr 1
        funext r
        simp [World.push, World.setFree]
      · simp only [setFree_log, failed, if_false]
        rfl

theorem getFreeBlock_run (w : World) :
    getFreeBlock card 0 w = (takeFree card w.log.length w.free).map fun (es, b, rest) =>
      (b, (w.push card es).setFree rest) := by
  rw [getFreeBlock, bind_of_run (getZone_run w), takeFreeBlock_run]

end Rovio.Nand
