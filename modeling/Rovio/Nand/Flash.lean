import Rovio.Kit.Device
import Mathlib

/-! The card as the SmartMedia driver sees it: pages with their data and the spare
fields the driver uses, and the operations that change them. Programming only
clears bits, erasing sets them. An operation that reports a failure may leave some
of the bits it should have cleared, and a failed erase may leave anything. A read
returns what the page holds. -/
namespace Rovio.Nand

open Kit

/-- 512 bytes. -/
abbrev Sector := BitVec 4096

/-- A sector of erased cells. -/
def blankSector : Sector := .allOnes 4096

theorem and_blankSector (x : Sector) : x &&& blankSector = x := BitVec.and_allOnes

theorem blankSector_and (x : Sector) : blankSector &&& x = x := BitVec.allOnes_and

theorem blankSector_or (x : Sector) : blankSector ||| x = blankSector := BitVec.allOnes_or

/-- `data` by column, of which a 512-byte page has the first; `mark` is the spare
word at SMRA_0, and `blockAddr` its two bytes of logical address. -/
structure Page where
  data : Nat → Sector
  mark : BitVec 32
  blockAddr : BitVec 16

abbrev Flash := Nat → Page

namespace Page

def erased : Page := ⟨fun _ => blankSector, 0xffffffff#32, 0xffff#16⟩

def program (old new : Page) : Page :=
  ⟨fun c => old.data c &&& new.data c, old.mark &&& new.mark, old.blockAddr &&& new.blockAddr⟩

def keep (new left : Page) : Page :=
  ⟨fun c => new.data c ||| left.data c, new.mark ||| left.mark, new.blockAddr ||| left.blockAddr⟩

/-- The data phase of a spare program is empty. -/
def spare (mark : BitVec 32) (blockAddr : BitVec 16) : Page :=
  ⟨fun _ => blankSector, mark, blockAddr⟩

end Page

inductive Op
  | page (uPage : Nat) (content : Page)
  | spare (uPage : Nat) (mark : BitVec 32) (blockAddr : BitVec 16)
  | erase (uBlock : Nat)

inductive Status
  | noErr | emptyBlock | timeout | noSmCard | stateError | mallocError | minusOne
  deriving DecidableEq

/-- What a program or an erase reports when it fails. -/
inductive Fault
  | timeout | noSmCard | stateError
  deriving DecidableEq

def Fault.status : Fault → Status
  | .timeout => .timeout
  | .noSmCard => .noSmCard
  | .stateError => .stateError

inductive Outcome
  | ok
  | fails (fault : Fault) (left : Nat → Page)

namespace Outcome

def status : Outcome → Status
  | .ok => .noErr
  | .fails fault _ => fault.status

def isOk : Outcome → Bool
  | .ok => true
  | .fails _ _ => false

def program (out : Outcome) (uPage : Nat) (old new : Page) : Page :=
  match out with
  | .ok => old.program new
  | .fails _ left => old.program (new.keep (left uPage))

def erase (out : Outcome) (uPage : Nat) : Page :=
  match out with
  | .ok => .erased
  | .fails _ left => left uPage

theorem status_eq_noErr {out : Outcome} : out.status = .noErr ↔ out.isOk := by
  cases out with
  | ok => simp [status, isOk]
  | fails fault left => cases fault <;> simp [status, isOk, Fault.status]

end Outcome

abbrev Event := Kit.Event Op Outcome

/-- The block an operation works on, with so many pages a block. -/
def Op.block (pagePerBlock : Nat) : Op → Nat
  | .page uPage _ => uPage / pagePerBlock
  | .spare uPage _ _ => uPage / pagePerBlock
  | .erase uBlock => uBlock

@[simp] theorem erase_block (k b : Nat) : (Op.erase b).block k = b := rfl

def Event.apply (pagePerBlock : Nat) (flash : Flash) (e : Event) : Flash :=
  match e.op with
  | .page n content => Function.update flash n (e.out.program n (flash n) content)
  | .spare n mark blockAddr =>
    Function.update flash n (e.out.program n (flash n) (.spare mark blockAddr))
  | .erase b => fun n => if n / pagePerBlock = b then e.out.erase n else flash n

def replay (pagePerBlock : Nat) (flash : Flash) (events : List Event) : Flash :=
  events.foldl (Event.apply pagePerBlock) flash

variable {k : Nat}

@[simp] theorem replay_nil (flash : Flash) : replay k flash [] = flash := rfl

@[simp] theorem replay_cons (flash : Flash) (e : Event) (es : List Event) :
    replay k flash (e :: es) = replay k (Event.apply k flash e) es := rfl

theorem replay_append (flash : Flash) (xs ys : List Event) :
    replay k flash (xs ++ ys) = replay k (replay k flash xs) ys :=
  List.foldl_append

theorem apply_other {flash : Flash} {e : Event} {n : Nat} (other : e.op.block k ≠ n / k) :
    Event.apply k flash e n = flash n := by
  cases e with
  | mk op out =>
    cases op with
    | page m content =>
      have away : n ≠ m := by
        rintro rfl
        exact other rfl
      exact Function.update_of_ne away _ _
    | spare m mark blockAddr =>
      have away : n ≠ m := by
        rintro rfl
        exact other rfl
      exact Function.update_of_ne away _ _
    | erase b => exact if_neg fun here => other here.symm

/-- Operations on other blocks leave a page as it is. -/
theorem replay_other {flash : Flash} {es : List Event} {n : Nat}
    (other : ∀ e ∈ es, e.op.block k ≠ n / k) : replay k flash es n = flash n := by
  induction es generalizing flash with
  | nil => rfl
  | cons e es ih =>
    rw [replay_cons, ih fun x hx => other x (by simp [hx])]
    exact apply_other (other e (by simp))

/-- A spare program has no data phase. -/
theorem apply_spare_data (flash : Flash) (m : Nat) (mark : BitVec 32) (blockAddr : BitVec 16)
    (out : Outcome) (n : Nat) :
    (Event.apply k flash ⟨.spare m mark blockAddr, out⟩ n).data = (flash n).data := by
  by_cases here : n = m
  · subst here
    cases out with
    | ok => simp [Event.apply, Outcome.program, Page.program, Page.spare, and_blankSector]
    | fails fault left =>
      simp [Event.apply, Outcome.program, Page.program, Page.spare, Page.keep, blankSector_or,
        and_blankSector]
  · simp [Event.apply, Function.update_of_ne here]

end Rovio.Nand
