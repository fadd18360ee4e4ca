import Rovio.Nand.Update2K

/-! What the sectors of a block hold, which of them the marks say are in use, and what
operations that report no failure leave in a page. -/
namespace Rovio.Nand

open Kit

variable {card : Card}

/-! ### Sectors of a block -/

def Card.pageOf (card : Card) (s : Nat) : Nat := if card.u2KPageSize then s / 4 else s

def Card.columnOf (card : Card) (s : Nat) : Nat := if card.u2KPageSize then s % 4 else 0

/-- The page of a block that has the sector. -/
def Card.pageAt (card : Card) (flash : Flash) (b s : Nat) : Page :=
  flash (b * card.uPagePerBlock + card.pageOf s)

def stored (card : Card) (flash : Flash) (b s : Nat) : Sector :=
  (card.pageAt flash b s).data (card.columnOf s)

/-- Every cell of the block is erased. -/
def Blank (card : Card) (flash : Flash) (b : Nat) : Prop :=
  ∀ s < card.uSectorPerBlock, stored card flash b s = blankSector

/-- The mark of a page says that there is data in the sector: on a card with 512-byte pages the
two bytes of the mark, on one with 2K pages also the sector's own bit. -/
def inUse (card : Card) (flash : Flash) (b s : Nat) : Bool :=
  let mark := (card.pageAt flash b s).mark
  if card.u2KPageSize then flagBytes mark = 0xfefe00#32 ∧ !mark.getLsbD (24 + card.columnOf s)
  else flagBytes mark ≠ 0xffff00#32

/-- A page that `fmiSMDelete` has marked. -/
def deleted (card : Card) (flash : Flash) (b s : Nat) : Bool :=
  card.u2KPageSize ∧ flagBytes (card.pageAt flash b s).mark = 0xfcfc00#32

/-- Sectors that the marks leave to a later write are erased. -/
def Truthful (card : Card) (flash : Flash) (b : Nat) : Prop :=
  ∀ s < card.uSectorPerBlock, ¬ inUse card flash b s → ¬ deleted card flash b s →
    stored card flash b s = blankSector

theorem pageOf_lt {s : Nat} (inside : s < card.uSectorPerBlock) :
    card.pageOf s < card.uPagePerBlock := by
  unfold Card.uSectorPerBlock at inside
  unfold Card.pageOf
  split at inside
  · rw [if_pos ‹_›]
    omega
  · rw [if_neg ‹_›]
    exact inside

theorem stored_of_page {f g : Flash} {b s : Nat}
    (same : f (b * card.uPagePerBlock + card.pageOf s) = g (b * card.uPagePerBlock + card.pageOf s)) :
    stored card f b s = stored card g b s := by
  rw [stored, stored, Card.pageAt, Card.pageAt, same]

/-- The content that an operation programs into the page. -/
def Op.content (n : Nat) : Op → Option Page
  | .page m content => if m = n then some content else none
  | .spare m mark blockAddr => if m = n then some (.spare mark blockAddr) else none
  | .erase _ => none

def contents (n : Nat) (ops : List Op) : List Page := ops.filterMap (Op.content n)

@[simp] theorem contents_nil (n : Nat) : contents n [] = [] := rfl

theorem contents_cons (n : Nat) (op : Op) (ops : List Op) :
    contents n (op :: ops) = contents n [op] ++ contents n ops :=
  @List.filterMap_append _ _ [op] ops _

@[simp] theorem contents_append (n : Nat) (xs ys : List Op) :
    contents n (xs ++ ys) = contents n xs ++ contents n ys :=
  List.filterMap_append

theorem contents_page (n m : Nat) (content : Page) :
    contents n [.page m content] = if m = n then [content] else [] := by
  by_cases here : m = n
  · simp [contents, Op.content, here]
  · simp [contents, Op.content, here]

theorem contents_spare (n m : Nat) (mark : BitVec 32) (blockAddr : BitVec 16) :
    contents n [.spare m mark blockAddr] = if m = n then [Page.spare mark blockAddr] else [] := by
  by_cases here : m = n
  · simp [contents, Op.content, here]
  · simp [contents, Op.content, here]

def Op.isErase : Op → Bool
  | .erase _ => true
  | _ => false

/-- Programs that report no failure add up. -/
theorem replay_ok {flash : Flash} {es : List Event} {k n : Nat} (fine : ∀ e ∈ es, e.out.isOk)
    (kept : ∀ e ∈ es, e.op.isErase = false) :
    replay k flash es n = (contents n (es.map Event.op)).foldl Page.program (flash n) := by
  induction es generalizing flash with
  | nil => rfl
  | cons e es ih =>
    have rest := @ih (Event.apply k flash e) (fun x hx => fine x (by simp [hx]))
      (fun x hx => kept x (by simp [hx]))
    rw [replay_cons, rest, List.map_cons, contents_cons, List.foldl_append]
    congr 1
    have good := fine e (by simp)
    have program := kept e (by simp)
    obtain ⟨op, out⟩ := e
    cases out with
    | fails fault left => cases good
    | ok =>
      cases op with
      | page m content =>
        rw [contents_page]
        by_cases here : m = n
        · simp [Event.apply, here, Outcome.program]
        · simp [Event.apply, here, Function.update_of_ne (Ne.symm here)]
      | spare m mark blockAddr =>
        rw [contents_spare]
        by_cases here : m = n
        · simp [Event.apply, here, Outcome.program]
        · simp [Event.apply, here, Function.update_of_ne (Ne.symm here)]
      | erase b => cases program

theorem push_ok {w : World} {ops : List Op} {n : Nat} (fine : ∀ e ∈ w.attempts card ops, e.out.isOk)
    (kept : ∀ op ∈ ops, op.isErase = false) :
    (w.push card (w.attempts card ops)).flash n =
      (contents n ops).foldl Page.program (w.flash n) := by
  rw [push_flash, replay_ok fine fun e mem => kept _ (mem_attempts mem), World.attempts,
    map_op_attempts]

section
variable (old new : Page) (c : Nat) (mark : BitVec 32) (blockAddr : BitVec 16)

@[simp] theorem program_data : (old.program new).data c = old.data c &&& new.data c := rfl
@[simp] theorem program_mark : (old.program new).mark = old.mark &&& new.mark := rfl
@[simp] theorem program_blockAddr :
    (old.program new).blockAddr = old.blockAddr &&& new.blockAddr := rfl
@[simp] theorem spare_data : (Page.spare mark blockAddr).data c = blankSector := rfl
@[simp] theorem spare_mark : (Page.spare mark blockAddr).mark = mark := rfl
@[simp] theorem spare_blockAddr : (Page.spare mark blockAddr).blockAddr = blockAddr := rfl

end

/-! ### What the loops program -/

theorem contents_programs512 (n : Nat) (blockAddr : BitVec 16) (page count : Nat)
    (buff : Nat → Sector) (mark : BitVec 32) :
    contents n (programs512 blockAddr page count buff mark) =
      if page ≤ n ∧ n < page +
    count then [⟨fun _ => buff (n - page), mark, blockAddr⟩] else [] := by
  induction count with
  | zero =>
    rw [if_neg (by omega)]
    rfl
  | succ count ih =>
    have grow : programs512 blockAddr page (count + 1) buff mark =
        programs512 blockAddr page count buff mark ++
          [.page (page + count) ⟨fun _ => buff count, mark, blockAddr⟩] := by
      simp [programs512, List.range_succ]
    rw [grow, contents_append, ih, contents_page]
    by_cases last : page + count = n
    · subst last
      simp
    · rw [if_neg last, List.append_nil]
      congr 1
      simp only [eq_iff_iff, and_congr_right_iff]
      omega

theorem contents_pages2K (n block : Nat) (mark : BitVec 32) (d : Nat) (buff : Nat → Sector) :
    contents n (pages2K card block mark d buff) =
      if d ≤ n ∧ n < d + card.uPagePerBlock then
        [⟨fun c => buff (4 * (n - d) + c), mark, fmiSMGetBlockAddr block⟩] else [] := by
  have loop : ∀ count, contents n ((List.range count).map fun i => Op.page (d + i)
      ⟨fun c => buff (4 * i + c), mark, fmiSMGetBlockAddr block⟩) =
      if d ≤ n ∧ n < d + count then
        [⟨fun c => buff (4 * (n - d) + c), mark, fmiSMGetBlockAddr block⟩] else [] := by
    intro count
    induction count with
    | zero =>
      rw [if_neg (by omega)]
      rfl
    | succ count ih =>
      rw [List.range_succ, List.map_append, contents_append, ih, List.map_singleton, contents_page]
      by_cases last : d + count = n
      · subst last
        simp
      · rw [if_neg last, List.append_nil]
        congr 1
        simp only [eq_iff_iff, and_congr_right_iff]
        omega
  exact loop _

/-- The content that a moved page gets. -/
def movedContent (flash : Flash) (blockAddr : BitVec 16) (raMark set : BitVec 32)
    (s : Nat) : Page :=
  ⟨(flash s).data, raMark ||| (((flash s).mark ||| set) &&& 0xcfffffff#32), blockAddr⟩

theorem contents_moveOps (n : Nat) (flash : Flash) (blockAddr : BitVec 16) (raMark set : BitVec 32)
    (s d count : Nat) :
    contents n (moveOps flash blockAddr raMark set s d count) =
      if (d ≤ n ∧ n < d + count) ∧ flagBytes ((flash (s + (n - d))).mark ||| set) = 0xfefe00#32 then
        [movedContent flash blockAddr raMark set (s + (n - d))] else [] := by
  induction count generalizing s d with
  | zero =>
    rw [if_neg (by omega)]
    rfl
  | succ count ih =>
    have later : d < n → contents n (moveOps flash blockAddr raMark set (s + 1) (d + 1) count) =
        if (d ≤ n ∧ n < d + (count + 1)) ∧
            flagBytes ((flash (s + (n - d))).mark ||| set) = 0xfefe00#32 then
          [movedContent flash blockAddr raMark set (s + (n - d))] else [] := by
      intro behind
      have shifted : s + 1 + (n - (d + 1)) = s + (n - d) := by omega
      have window : (d + 1 ≤ n ∧ n < d + 1 + count) ↔ (d ≤ n ∧ n < d + (count + 1)) := by omega
      rw [ih, shifted, if_congr (and_congr_left' window) rfl rfl]
    have missed : n ≤ d → contents n (moveOps flash blockAddr raMark set (s + 1) (d + 1) count) =
        [] := by
      intro front
      rw [ih, if_neg (by omega)]
    rw [moveOps]
    split
    · rename_i used
      rw [contents_cons, contents_page]
      rcases Nat.lt_trichotomy d n with behind | rfl | front
      · rw [if_neg (by omega), List.nil_append, later behind]
      · rw [missed (Nat.le_refl d), Nat.sub_self, Nat.add_zero, if_pos rfl,
          if_pos ⟨by omega, used⟩]
        rfl
      · rw [if_neg (by omega), missed (by omega), if_neg (by omega)]
        rfl
    · rename_i unused
      rcases Nat.lt_trichotomy d n with behind | rfl | front
      · exact later behind
      · rw [missed (Nat.le_refl d), Nat.sub_self, Nat.add_zero, if_neg]
        exact fun both => unused both.2
      · rw [missed (by omega), if_neg (by omega)]

/-- The content that `updateOp` programs. -/
def updateContent (flash : Flash) (blockAddr : BitVec 16) (raMark : BitVec 32) (spage : Option Nat)
    (column secCount : Nat) (buff : Nat → Sector) : Page :=
  if secCount = 4 then ⟨buff, raMark ||| 0xc0fefeff#32, blockAddr⟩
  else ⟨storeSectors (sourcePage flash spage).data column secCount buff,
    partMark (sourcePage flash spage).mark raMark column secCount, blockAddr⟩

theorem updateOp_content (flash : Flash) (blockAddr : BitVec 16) (raMark : BitVec 32)
    (spage : Option Nat) (dpage column secCount : Nat) (buff : Nat → Sector) :
    updateOp flash blockAddr raMark spage dpage column secCount buff =
      .page dpage (updateContent flash blockAddr raMark spage column secCount buff) := by
  unfold updateOp updateContent
  split
  · rfl
  · rfl

/-- The content of the j-th page of a request for `count` sectors from sector `r` of the first
page on. -/
def roundContent (flash : Flash) (blockAddr : BitVec 16) (raMark : BitVec 32) (spage : Option Nat)
    (r count : Nat) (buff : Nat → Sector) (j : Nat) : Page :=
  let column := if j = 0 then r else 0
  updateContent flash blockAddr raMark (spage.map (· + j)) column
    (min (4 - column) (count - (4 * j - r))) fun i => buff (i + (4 * j - r))

theorem Rounds.contents {r count : Nat} {runs : List (Nat × Nat)} (rounds : Rounds r count runs)
    (flash : Flash) (blockAddr : BitVec 16) (raMark : BitVec 32) (spage : Option Nat)
    (dpage : Nat) (buff : Nat → Sector) (n : Nat) :
    contents n (updateOps flash blockAddr raMark spage dpage runs buff) =
      if dpage ≤ n ∧ n < dpage + runs.length then
        [roundContent flash blockAddr raMark spage r count buff (n - dpage)] else [] := by
  induction rounds generalizing spage dpage buff with
  | @last r count some fits =>
    rw [updateOps, updateOps, updateOp_content, contents_page]
    by_cases here : dpage = n
    · subst here
      have all : min (4 - r) count = count := by omega
      have same : (Option.map (fun x => x) spage) = spage := Option.map_id'
      simp [roundContent, all]
    · simp only [List.length_singleton]
      rw [if_neg here, if_neg (by omega)]
  | @more r count rest inside past behind ih =>
    rw [updateOps, updateOp_content, contents_cons, contents_page, ih]
    rcases Nat.lt_trichotomy dpage n with later | rfl | front
    · have window : (dpage + 1 ≤ n ∧ n < dpage + 1 + rest.length) ↔
          (dpage ≤ n ∧ n < dpage + (rest.length + 1)) := by omega
      obtain ⟨j, rfl⟩ : ∃ j, n = dpage + (j + 1) := ⟨n - dpage - 1, by omega⟩
      have number : dpage + (j + 1) - (dpage + 1) = j := by omega
      have before : 4 * (j + 1) - r = 4 * j + (4 - r) := by omega
      have left : count - (4 - r) - 4 * j = count - (4 * j + (4 - r)) := by omega
      rw [if_neg (by omega), List.nil_append, List.length_cons, if_congr window rfl rfl, number,
        Nat.add_sub_cancel_left]
      congr 2
      simp only [roundContent, before, left, Option.map_map, Function.comp_def, Nat.sub_zero,
        ite_self,
        if_neg (Nat.succ_ne_zero j), Nat.add_assoc, Nat.add_comm 1 j]
    · have all : min (4 - r) count = 4 - r := by omega
      rw [if_pos rfl, if_neg (by omega), List.append_nil, if_pos (by simp)]
      simp [roundContent, all]
    · rw [if_neg (by omega), if_neg (by omega), if_neg (by omega)]
      rfl

theorem updateContent_data {flash : Flash} {blockAddr : BitVec 16} {raMark : BitVec 32}
    {spage : Option Nat} {column secCount : Nat} {buff : Nat → Sector} {c : Nat}
    (inside : column + secCount ≤ 4) (small : c < 4) :
    (updateContent flash blockAddr raMark spage column secCount buff).data c =
      storeSectors (sourcePage flash spage).data column secCount buff c := by
  unfold updateContent
  split
  · obtain rfl : column = 0 := by omega
    simp only [storeSectors, Nat.sub_zero]
    rw [if_pos (by omega)]
  · rfl

theorem roundContent_data {flash : Flash} {blockAddr : BitVec 16} {raMark : BitVec 32}
    {spage : Option Nat} {r count : Nat} {buff : Nat → Sector} {j c : Nat} (front : r < 4)
    (small : c < 4) :
    (roundContent flash blockAddr raMark spage r count buff j).data c =
      if r ≤ 4 * j + c ∧ 4 * j + c < r + count then buff (4 * j + c - r)
      else (sourcePage flash (spage.map (· + j))).data c := by
  have inside : (if j = 0 then r else 0) + min (4 - if j = 0 then r else 0)
      (count - (4 * j - r)) ≤ 4 := by
    split <;> omega
  rw [roundContent, updateContent_data inside small, storeSectors]
  have window : ((if j = 0 then r else 0) ≤ c ∧ c < (if j = 0 then r else 0) +
      min (4 - if j = 0 then r else 0) (count - (4 * j - r))) ↔
      (r ≤ 4 * j + c ∧ 4 * j + c < r + count) := by
    split <;> omega
  rw [if_congr window rfl rfl]
  split
  · congr 1
    split <;> omega
  · rfl

end Rovio.Nand
