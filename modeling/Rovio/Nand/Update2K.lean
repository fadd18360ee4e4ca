import Rovio.Nand.Update512

/-! `update_block_data_2K` follows the plan for a card with 2K pages. -/
namespace Rovio.Nand

open Kit

variable {card : Card} {w : World} {block fb : Nat}

/-! ### The rounds of the page loops -/

/-- The rounds for `count` sectors from the given sector of a page on. -/
inductive Rounds : Nat → Nat → List (Nat × Nat) → Prop
  | last {rsector count : Nat} (some : 0 < count) (fits : rsector + count ≤ 4) :
      Rounds rsector count [(rsector, count)]
  | more {rsector count : Nat} {rest : List (Nat × Nat)} (inside : rsector < 4)
      (past : 4 < rsector + count) (behind : Rounds 0 (count - (4 - rsector)) rest) :
      Rounds rsector count ((rsector, 4 - rsector) :: rest)

theorem pageRunsFrom_rounds {fuel rsector count : Nat} (enough : count < fuel)
    (inside : rsector < 4) (some : 0 < count) :
    Rounds rsector count
      (pageRunsFrom fuel rsector (if count > 4 - rsector then 4 - rsector else count) count) := by
  induction fuel generalizing rsector count with
  | zero => omega
  | succ fuel ih =>
    rw [pageRunsFrom]
    by_cases past : count > 4 - rsector
    · have behind : Rounds 0 (count - (4 - rsector)) (pageRunsFrom fuel 0
        (if count - (4 - rsector) > 4 - 0 then 4 - 0 else count - (4 - rsector))
        (count - (4 - rsector))) := ih (by omega) (by omega) (by omega)
      have clamp : (if count - (4 - rsector) < 4 then count - (4 - rsector) else 4) =
          if count - (4 - rsector) > 4 - 0 then 4 - 0 else count - (4 - rsector) := by
        split <;> split <;> omega
      simp only [if_pos past]
      rw [if_neg (by omega), clamp]
      exact .more inside (by omega) behind
    · simp only [if_neg past, Nat.sub_self, if_true]
      exact .last some (by omega)

theorem pageRuns_rounds {rsector count : Nat} (inside : rsector < 4) (some : 0 < count) :
    Rounds rsector count (pageRuns rsector count) :=
  pageRunsFrom_rounds (by omega) inside some

theorem Rounds.length {rsector count : Nat} {runs : List (Nat × Nat)}
    (rounds : Rounds rsector count runs) :
    0 < runs.length ∧ 4 * runs.length < rsector + count + 4 ∧ rsector + count ≤
    4 * runs.length := by
  induction rounds with
  | last some fits =>
    simp only [List.length_singleton]
    omega
  | more inside past behind ih =>
    simp only [List.length_cons]
    omega

/-! ### The loops issue the operations of the plan -/

theorem page_of_ne {m n : Nat} (content : Page) (away : n ≠ m) :
    (w.push card (w.attempts card [.page m content])).flash n = w.flash n :=
  Function.update_of_ne away _ _

theorem block_ne {p q k i j : Nat} (other : p ≠ q) (hi : i < k) (hj : j < k) :
    p * k + i ≠ q * k + j := by
  intro same
  have left : (p * k + i) / k = p := block_of_page hi
  rw [same, block_of_page hj] at left
  exact other left.symm

theorem updatePageData_run (blockAddr : BitVec 16) (raMark : BitVec 32) (spage : Option Nat)
    (dpage column secCount : Nat) (buff : Nat → Sector) (w : World) :
    updatePageData card blockAddr raMark spage dpage column secCount buff w =
      issue card (updateOp w.flash blockAddr raMark spage dpage column secCount buff) w := by
  have source : pageToUpdate spage w = some (sourcePage w.flash spage, w) := by
    cases spage with
    | none => rfl
    | some s => rfl
  rw [updatePageData, ite_run, updateOp]
  split
  · rfl
  · rw [bind_of_run source]
    rfl

theorem updateOp_page (flash : Flash) (blockAddr : BitVec 16) (raMark : BitVec 32)
    (spage : Option Nat) (dpage column secCount : Nat) (buff : Nat → Sector) :
    ∃ content, updateOp flash blockAddr raMark spage dpage column secCount buff =
      .page dpage content := by
  unfold updateOp
  split
  · exact ⟨_, rfl⟩
  · exact ⟨_, rfl⟩

theorem updateOps_congr {f g : Flash} {blockAddr : BitVec 16} {raMark : BitVec 32}
    {runs : List (Nat × Nat)} {spage : Option Nat} {dpage : Nat} {buff : Nat → Sector}
    (same : ∀ s, spage = some s → ∀ i < runs.length, f (s + i) = g (s + i)) :
    updateOps f blockAddr raMark spage dpage runs buff =
      updateOps g blockAddr raMark spage dpage runs buff := by
  induction runs generalizing spage dpage buff with
  | nil => rfl
  | cons run rest ih =>
    have source : sourcePage f spage = sourcePage g spage := by
      cases spage with
      | none => rfl
      | some s =>
        have here : f s = g s := same s rfl 0 (by simp)
        simp only [sourcePage, here]
    have behind : ∀ s, spage.map (· + 1) = some s → ∀ i < rest.length, f (s + i) = g (s + i) := by
      intro s next i small
      obtain ⟨s', here, rfl⟩ := Option.map_eq_some_iff.mp next
      have := same s' here (i + 1) (by simp; omega)
      rwa [Nat.add_assoc, Nat.add_comm 1]
    simp only [updateOps, updateOp, source, ih behind]

theorem updatePages_run {blockAddr : BitVec 16} {raMark : BitVec 32}
    {runs : List (Nat × Nat)} {spage : Option Nat} {dpage : Nat} {buff : Nat → Sector} {w : World}
    (apart : ∀ s, spage = some s → ∀ i < runs.length, ∀ j < runs.length, s + i ≠ dpage + j) :
    updatePages card blockAddr raMark spage dpage runs buff w =
      issueAll card (updateOps w.flash blockAddr raMark spage dpage runs buff) w := by
  induction runs generalizing spage dpage buff w with
  | nil => rfl
  | cons run rest ih =>
    obtain ⟨rsector, sectorCount⟩ := run
    rw [updatePages, updateOps, issueAll, bind_run, bind_run, updatePageData_run, issue_run]
    simp only [Option.bind_some]
    rw [ite_run, ite_run, ih]
    · congr 2
      apply updateOps_congr
      intro s next i small
      obtain ⟨s', here, rfl⟩ := Option.map_eq_some_iff.mp next
      obtain ⟨content, page⟩ := updateOp_page w.flash blockAddr raMark spage dpage rsector
        sectorCount buff
      have away := apart s' here (i + 1) (by simp; omega) 0 (by simp)
      rw [page]
      exact page_of_ne _ (by omega)
    · intro s next i hi j hj
      obtain ⟨s', here, rfl⟩ := Option.map_eq_some_iff.mp next
      have := apart s' here (i + 1) (by simp; omega) (j + 1) (by simp; omega)
      omega

theorem moveOps_congr {f g : Flash} {blockAddr : BitVec 16} {raMark set : BitVec 32} {n s d : Nat}
    (same : ∀ i < n, f (s + i) = g (s + i)) :
    moveOps f blockAddr raMark set s d n = moveOps g blockAddr raMark set s d n := by
  induction n generalizing s d with
  | zero => rfl
  | succ n ih =>
    have here : f s = g s := same 0 (by omega)
    have behind : ∀ i < n, f (s + 1 + i) = g (s + 1 + i) := by
      intro i small
      have := same (i + 1) (by omega)
      rwa [Nat.add_assoc, Nat.add_comm 1]
    simp only [moveOps, here, ih behind]

theorem movePages_run {blockAddr : BitVec 16} {raMark set : BitVec 32} {n s d : Nat} {w : World}
    (apart : ∀ i < n, ∀ j < n, s + i ≠ d + j) :
    movePages card blockAddr raMark set s d n w =
      issueAll card (moveOps w.flash blockAddr raMark set s d n) w := by
  induction n generalizing s d w with
  | zero => rfl
  | succ n ih =>
    have next : ∀ i < n, ∀ j < n, s + 1 + i ≠ d + 1 + j := by
      intro i hi j hj
      have := apart (i + 1) (by omega) (j + 1) (by omega)
      omega
    have read : readPage s w = some (w.flash s, w) := rfl
    rw [movePages, bind_of_run read, moveOps]
    rw [ite_run]
    split
    · rw [issueAll, fmiSMWrite2K, bind_run, bind_run, issue_run]
      simp only [Option.bind_some]
      rw [ite_run, ite_run, ih next]
      congr 2
      apply moveOps_congr
      intro i small
      have away := apart (i + 1) (by omega) 0 (by omega)
      exact page_of_ne _ (by omega)
    · exact ih next

theorem checkPageMark2K_run (page : Nat) (runs : List (Nat × Nat)) (w : World) :
    checkPageMark2K page runs w = some (pagesUsed2K w.flash page runs, w) := by
  induction runs generalizing page with
  | nil => rfl
  | cons run rest ih =>
    obtain ⟨rsec, sectorCount⟩ := run
    have read : readPage page w = some (w.flash page, w) := rfl
    rw [checkPageMark2K, bind_of_run read, ite_run, ih, pagesUsed2K]
    split
    · rename_i used
      rw [used, pure_run, Bool.true_or]
    · rename_i free
      rw [eq_false_of_ne_true free, Bool.false_or]

/-! ### Operations on one block -/

theorem on_new {ops : List Op} (on : ∀ op ∈ ops, op.block card.uPagePerBlock = fb) :
    ∀ e ∈ w.attempts card ops, e.op.block card.uPagePerBlock = fb :=
  fun _ mem => on _ (mem_attempts mem)

theorem updateOps_block {flash : Flash} {blockAddr : BitVec 16} {raMark : BitVec 32}
    {runs : List (Nat × Nat)} {spage : Option Nat} {r : Nat} {buff : Nat → Sector}
    (inside : r + runs.length ≤ card.uPagePerBlock) {op : Op}
    (mem : op ∈ updateOps flash blockAddr raMark spage (fb * card.uPagePerBlock + r) runs buff) :
    op.block card.uPagePerBlock = fb := by
  induction runs generalizing spage r buff with
  | nil => cases mem
  | cons run rest ih =>
    simp only [List.length_cons] at inside
    rcases List.mem_cons.mp mem with rfl | later
    · obtain ⟨content, page⟩ := updateOp_page flash blockAddr raMark spage
        (fb * card.uPagePerBlock + r) run.1 run.2 buff
      rw [page]
      exact block_of_page (by omega)
    · exact ih (r := r + 1) (by omega) later

theorem moveOps_block {flash : Flash} {blockAddr : BitVec 16} {raMark set : BitVec 32} {n s r : Nat}
    (inside : r + n ≤ card.uPagePerBlock) {op : Op}
    (mem : op ∈ moveOps flash blockAddr raMark set s (fb * card.uPagePerBlock + r) n) :
    op.block card.uPagePerBlock = fb := by
  induction n generalizing s r with
  | zero => cases mem
  | succ n ih =>
    rw [moveOps] at mem
    split at mem
    · rcases List.mem_cons.mp mem with rfl | later
      · exact block_of_page (by omega)
      · exact ih (r := r + 1) (by omega) later
    · exact ih (r := r + 1) (by omega) mem

theorem pages2K_block {mark : BitVec 32} {buff : Nat → Sector} {op : Op}
    (mem : op ∈ pages2K card block mark (fb * card.uPagePerBlock) buff) :
    op.block card.uPagePerBlock = fb := by
  simp only [pages2K, List.mem_map, List.mem_range] at mem
  obtain ⟨i, small, rfl⟩ := mem
  exact block_of_page small

/-- Operations on the new block leave the old one as it is. -/
theorem push_other {p i : Nat} {es : List Event} (other : p ≠ fb)
    (onNew : ∀ e ∈ es, e.op.block card.uPagePerBlock = fb) (inside : i < card.uPagePerBlock) :
    (w.push card es).flash (p * card.uPagePerBlock + i) =
      w.flash (p * card.uPagePerBlock + i) := by
  apply replay_other
  intro e mem
  rw [onNew e mem, block_of_page inside]
  exact other.symm

/-! ### The branches of `update_block_data_2K` -/

theorem giveUpBlock_run (s : Status) (w : World) :
    giveUpBlock card fb s w = some (s, w.push card (w.attempts card [.erase fb])) := by
  rw [giveUpBlock, fmiSMBlockErase, bind_of_run (issue_run _ _)]
  rfl

theorem finishBlock2K_run (small : block < l2pTableSize) (old : Option Nat) (w : World) :
    finishBlock2K card 0 block old fb w =
      retire card old true ((w.push card (w.attempts card [.spare (fb * card.uPagePerBlock)
        (0x3f#8 ++ 0xffffff#24) 0xffff#16])).setL2P block (some fb)) := by
  unfold finishBlock2K
  rw [bind_of_run (protect_run _ _ _), bind_of_run (setL2P_run small _ _)]
  cases old with
  | none => rfl
  | some p =>
    rw [retire_run]
    change (issue card (.erase p) >>= _) _ = _
    rw [bind_of_run (issue_run _ _), ite_run]
    simp [pure_run]

theorem full2K_run (small : block < l2pTableSize) (old : Option Nat) (buff : Nat → Sector)
    (pos : 0 < card.uPagePerBlock) :
    ∃ s w', fullBlock2K card 0 block old fb buff w = some (s, w') ∧
      Updated card w block fb old (.build (full2K card w.flash block fb old buff)) s w' := by
  have mark : sequenceAfter (fun n => Page.mark <$> readPage n)
      (old.map (· * card.uPagePerBlock)) w =
      some (old.elim 0 fun p => nextRAMark (firstMark card w.flash p), w) := by
    cases old with
    | none => rfl
    | some p => rfl
  have write (raMark : BitVec 32) : writePages2K card block raMark (fb * card.uPagePerBlock) buff =
      issueAll card (pages2K card block raMark (fb * card.uPagePerBlock) buff) := rfl
  rw [fullBlock2K, bind_of_run mark, bind_of_run (open_run _ _), write,
    bind_of_run (issueAll_run _ _), ite_run]
  generalize programs : pages2K card block ((old.elim 0 fun p =>
    nextRAMark (firstMark card w.flash p)) ||| 0xc0fefeff#32) (fb * card.uPagePerBlock) buff = progs
  have steps : (full2K card w.flash block fb old buff).steps =
      framed (fb * card.uPagePerBlock) (must progs ++ may []) := by
    rw [← programs]
    exact (congrArg (framed _) (List.append_nil _)).symm
  by_cases good : verdict ((w.openedBy card (fb * card.uPagePerBlock)).attempts card progs) = .noErr
  · have clean := framed_clean [] good
    rw [← steps] at clean
    obtain ⟨s, w', retired⟩ : ∃ s w', retire card old true (w.afterScript card
      (full2K card w.flash block fb old buff) block fb) = some (s, w') := retire_total _ _ _
    refine ⟨s, w', ?_, .built clean retired⟩
    rw [if_neg (not_not.mpr good), upToFailure_of_ok (verdict_eq_noErr.mp good),
      finishBlock2K_run small, ← retired, World.afterScript, steps, framed_push]
    simp [World.attempts]
  · obtain ⟨i, failed, _⟩ := framed_failed [] good
    rw [← steps] at failed
    have on : ∀ op ∈ progs, op.block card.uPagePerBlock = fb := by
      rw [← programs]
      exact fun _ => pages2K_block
    obtain ⟨onNew, bad⟩ := build_failed _ pos on good (fun _ => attempts_erase_block)
    rw [if_pos good, giveUpBlock_run]
    refine ⟨_, _, rfl, .givenUp failed (by simp [full2K]) onNew bad good (.inl ?_)⟩
    rw [← push_push, ← push_push]
    rfl

theorem fill2K_run (p : Nat) (sector secCount : Nat) (buff : Nat → Sector) :
    ∃ s w', writeInPlace2K card 0 block fb p sector secCount buff (firstMark card w.flash p) w =
        some (s, w') ∧
      Updated card w block fb (some p)
        (.fill (fill2K card w.flash block p sector secCount buff)) s w' := by
  rw [writeInPlace2K, bind_run, updatePages_run (by simp), issueAll_run]
  have programs : updateOps w.flash (fmiSMGetBlockAddr block)
      (firstMark card w.flash p &&& 0x30000000#32) none (p * card.uPagePerBlock + sector / 4)
      (pageRuns (sector % 4) secCount) buff =
        fill2K card w.flash block p sector secCount buff := rfl
  rw [programs, Option.bind_some, ite_run]
  by_cases good : verdict (w.attempts card (fill2K card w.flash block p sector secCount buff)) =
      .noErr
  · obtain ⟨s, w', freed⟩ : ∃ s w', smAddFreeBlock card 0 fb false (w.push card (w.attempts card
      (fill2K card w.flash block p sector secCount buff))) = some (s, w') :=
        smAddFreeBlock_total _ _ _
    refine ⟨s, w', ?_, .filled (verdict_eq_noErr.mp good) freed⟩
    rw [← freed, if_neg (not_not.mpr good), upToFailure_of_ok (verdict_eq_noErr.mp good)]
  · have bad := good
    rw [verdict_eq_noErr] at bad
    push Not at bad
    refine ⟨_, _, ?_, .spilled bad⟩
    rw [if_pos good, pure_run]

/-- The world is reached by operations on the block alone. -/
def Reached (card : Card) (fb : Nat) (w w' : World) : Prop :=
  ∃ es, w' = w.push card es ∧ ∀ e ∈ es, e.op.block card.uPagePerBlock = fb

theorem Reached.push {w' : World} {es : List Event} (reached : Reached card fb w w')
    (onNew : ∀ e ∈ es, e.op.block card.uPagePerBlock = fb) :
    Reached card fb w (w'.push card es) := by
  obtain ⟨before, rfl, on⟩ := reached
  refine ⟨before ++ es, push_push _ _ _, ?_⟩
  intro e mem
  rcases List.mem_append.mp mem with left | right
  · exact on e left
  · exact onNew e right

theorem Reached.ops {w' : World} {ops : List Op} (reached : Reached card fb w w')
    (on : ∀ op ∈ ops, op.block card.uPagePerBlock = fb) :
    Reached card fb w (w'.push card (w'.attempts card ops)) :=
  reached.push (on_new on)

theorem Reached.opened (pos : 0 < card.uPagePerBlock) :
    Reached card fb w (w.openedBy card (fb * card.uPagePerBlock)) :=
  ⟨_, rfl, on_new fun _ mem => List.mem_singleton.mp mem ▸ spare_block pos _ _⟩

theorem Reached.page {w' : World} (reached : Reached card fb w w') {p i : Nat} (other : p ≠ fb)
    (inside : i < card.uPagePerBlock) :
    w'.flash (p * card.uPagePerBlock + i) = w.flash (p * card.uPagePerBlock + i) := by
  obtain ⟨es, rfl, onNew⟩ := reached
  exact push_other other onNew inside

/-- A loop over the new block that ends with a failure, and what is done to the block then. -/
theorem givenUp_of {b : Build} {old : Option Nat} {w' : World} {ops : List Op} {tail : List Event}
    (unclean : ¬ w.Clean card b.steps) (gone : b.regains = false) (reached : Reached card fb w w')
    (on : ∀ op ∈ ops, op.block card.uPagePerBlock = fb)
    (bad : verdict (w'.attempts card ops) ≠ .noErr)
    (behind : ∀ e ∈ tail, e.op.block card.uPagePerBlock = fb) :
    Updated card w block fb old (.build b) (verdict (w'.attempts card ops))
      ((w'.push card (upToFailure Outcome.isOk (w'.attempts card ops))).push card tail) := by
  obtain ⟨i, failed⟩ := Option.ne_none_iff_exists'.mp unclean
  obtain ⟨before, rfl, onBefore⟩ := reached
  have whole : ((w.push card before).push card (upToFailure Outcome.isOk
      ((w.push card before).attempts card ops))).push card tail =
      w.push card (before ++ (upToFailure Outcome.isOk ((w.push card before).attempts card ops) ++
        tail)) := by
    rw [← push_push, ← push_push]
  refine .givenUp failed (by simp [gone]) ?_ ?_ bad (.inl whole)
  · intro e mem
    rcases List.mem_append.mp mem with first | later
    · exact onBefore e first
    · rcases List.mem_append.mp later with written | last
      · exact on_new on e (mem_upToFailure written)
      · exact behind e last
  · rw [Ne, verdict_eq_noErr] at bad
    push Not at bad
    obtain ⟨e, mem, failedE⟩ : ∃ e ∈ upToFailure Outcome.isOk _, ¬ e.out.isOk :=
      upToFailure_failed bad
    exact ⟨e, by simp [mem], failedE⟩

theorem rounds_of {sector secCount : Nat} (some : secCount ≠ 0) :
    Rounds (sector % 4) secCount (pageRuns (sector % 4) secCount) :=
  pageRuns_rounds (Nat.mod_lt sector (by decide)) (Nat.pos_of_ne_zero some)

theorem new2K_run (small : block < l2pTableSize) {sector secCount : Nat} (buff : Nat → Sector)
    (some : secCount ≠ 0) (inside : sector + secCount ≤ 4 * card.uPagePerBlock) :
    ∃ s w', newBlock2K card 0 block fb sector secCount buff w = Option.some (s, w') ∧
      Updated card w block fb none (.build (new2K card w.flash block fb sector secCount buff))
        s w' := by
  have length := (@rounds_of sector _ some).length
  have pos : 0 < card.uPagePerBlock := by omega
  rw [newBlock2K, bind_of_run (open_run _ _), bind_of_run (pageZero_run _ _ _ _ _), bind_run,
    updatePages_run (by simp), issueAll_run, updateOps_congr (g := w.flash) (by simp),
    Option.bind_some, ite_run]
  generalize updates : updateOps w.flash (fmiSMGetBlockAddr block) 0 none
    (fb * card.uPagePerBlock + sector / 4) (pageRuns (sector % 4) secCount) buff = ops
  have on : ∀ op ∈ ops, op.block card.uPagePerBlock = fb := by
    rw [← updates]
    exact fun _ => updateOps_block (by omega)
  have steps : (new2K card w.flash block fb sector secCount buff).steps =
      framed (fb * card.uPagePerBlock) (may (pageZero card (fmiSMGetBlockAddr block)
        (fb * card.uPagePerBlock) 0xcfffffff#32 (sector / 4)) ++ must ops) := by
    rw [← updates]
    rfl
  have zero : ∀ op ∈ pageZero card (fmiSMGetBlockAddr block) (fb * card.uPagePerBlock) 0xcfffffff#32
      (sector / 4), op.block card.uPagePerBlock = fb := fun _ => pageZero_block pos
  have reached := (Reached.opened (w := w) pos).ops zero
  have clean := @clean_framed card w (fb * card.uPagePerBlock) (may (pageZero card
    (fmiSMGetBlockAddr block) (fb * card.uPagePerBlock) 0xcfffffff#32 (sector / 4)) ++ must ops)
  rw [List.append_assoc, clean_may, clean_must, ← steps] at clean
  dsimp only
  generalize zeroed : (w.openedBy card (fb * card.uPagePerBlock)).push card
    ((w.openedBy card (fb * card.uPagePerBlock)).attempts card (pageZero card
      (fmiSMGetBlockAddr block) (fb * card.uPagePerBlock) 0xcfffffff#32 (sector / 4))) = w₁
    at clean reached
  by_cases good : verdict (w₁.attempts card ops) = .noErr
  · obtain ⟨s, w', retired⟩ : ∃ s w', retire card none true (w.afterScript card
      (new2K card w.flash block fb sector secCount buff) block fb) = Option.some (s, w') :=
        retire_total _ _ _
    refine ⟨s, w', ?_, .built (clean.mpr ⟨good, clean_end _ _⟩) retired⟩
    rw [if_neg (not_not.mpr good), upToFailure_of_ok (verdict_eq_noErr.mp good),
      finishBlock2K_run small, ← retired, World.afterScript, steps, ← zeroed]
    simp only [framed, List.map_append, map_op_may, map_op_must, List.append_assoc,
      push_attempts_append]
    rfl
  · have unclean := mt clean.mp (fun both => good both.1)
    rw [if_pos good, pure_run]
    refine ⟨_, _, rfl, ?_⟩
    have lost := @givenUp_of _ _ block _ _ none _ _ [] unclean rfl reached on good (by simp)
    rwa [push_nil] at lost

/-- The pages behind a request are those behind its last round. -/
theorem behind_rounds {sector secCount : Nat} (some : secCount ≠ 0) :
    (if (sector + secCount) % 4 ≠ 0 then (sector + secCount) / 4 + 1 else (sector + secCount) / 4) =
      sector / 4 + (pageRuns (sector % 4) secCount).length := by
  have length := (@rounds_of sector _ some).length
  split <;> omega

theorem move2K_run (small : block < l2pTableSize) {p : Nat} (other : p ≠ fb) {sector secCount : Nat}
    (buff : Nat → Sector) (some : secCount ≠ 0)
    (inside : sector + secCount ≤ 4 * card.uPagePerBlock) :
    ∃ s w', moveBlock2K card 0 block fb p sector secCount buff (firstMark card w.flash p) w =
        Option.some (s, w') ∧
      Updated card w block fb (Option.some p)
        (.build (move2K card w.flash block fb p sector secCount buff)) s w' := by
  have length := (@rounds_of sector _ some).length
  have pos : 0 < card.uPagePerBlock := by omega
  have behind := @behind_rounds sector _ some
  generalize number : (pageRuns (sector % 4) secCount).length = rounds at length behind
  have apart : ∀ r n, r + n ≤ card.uPagePerBlock → ∀ i < n, ∀ j < n,
      p * card.uPagePerBlock + r + i ≠ fb * card.uPagePerBlock + r + j := by
    intro r n fits i hi j hj
    rw [Nat.add_assoc, Nat.add_assoc]
    exact block_ne other (by omega) (by omega)
  have kept : ∀ w', Reached card fb w w' → ∀ r n, r + n ≤ card.uPagePerBlock → ∀ i < n,
      w'.flash (p * card.uPagePerBlock + r + i) = w.flash (p * card.uPagePerBlock + r + i) := by
    intro w' reached r n fits i hi
    rw [Nat.add_assoc]
    exact reached.page other (by omega)
  generalize front : moveOps w.flash (fmiSMGetBlockAddr block)
    (nextRAMark (firstMark card w.flash p)) 0xc0000000#32 (p * card.uPagePerBlock)
    (fb * card.uPagePerBlock) (sector / 4) = frontOps
  generalize zero : pageZero card (fmiSMGetBlockAddr block) (fb * card.uPagePerBlock)
    (nextRAMark (firstMark card w.flash p) ||| 0xcfffffff#32) (sector / 4) = zeroOps
  generalize updates : updateOps w.flash (fmiSMGetBlockAddr block)
    (nextRAMark (firstMark card w.flash p)) (Option.some (p * card.uPagePerBlock + sector / 4))
    (fb * card.uPagePerBlock + sector / 4) (pageRuns (sector % 4) secCount) buff = ops
  generalize back : moveOps w.flash (fmiSMGetBlockAddr block)
    (nextRAMark (firstMark card w.flash p)) 0 (p * card.uPagePerBlock + (sector / 4 + rounds))
    (fb * card.uPagePerBlock + (sector / 4 + rounds))
    (card.uPagePerBlock - (sector / 4 + rounds)) = backOps
  have steps : (move2K card w.flash block fb p sector secCount buff).steps =
      framed (fb * card.uPagePerBlock)
        (must frontOps ++ (may zeroOps ++ (must ops ++ must backOps))) := by
    rw [← front, ← zero, ← updates, ← back, ← number]
    rfl
  have onFront : ∀ op ∈ frontOps, op.block card.uPagePerBlock = fb := by
    rw [← front]
    exact fun _ => @moveOps_block _ _ _ _ _ _ _ _ 0 (by omega) _
  have onZero : ∀ op ∈ zeroOps, op.block card.uPagePerBlock = fb := by
    rw [← zero]
    exact fun _ => pageZero_block pos
  have onOps : ∀ op ∈ ops, op.block card.uPagePerBlock = fb := by
    rw [← updates]
    exact fun _ => updateOps_block (by omega)
  have onBack : ∀ op ∈ backOps, op.block card.uPagePerBlock = fb := by
    rw [← back]
    exact fun _ => moveOps_block (by omega)
  have clean := @clean_framed card w (fb * card.uPagePerBlock)
    (must frontOps ++ (may zeroOps ++ (must ops ++ must backOps)))
  rw [List.append_assoc, clean_must, List.append_assoc, clean_may, List.append_assoc, clean_must,
    clean_must, ← steps] at clean
  have opened : Reached card fb w (w.openedBy card (fb * card.uPagePerBlock)) := .opened pos
  have issueFront : movePages card (fmiSMGetBlockAddr block)
      (nextRAMark (firstMark card w.flash p)) 0xc0000000#32 (p * card.uPagePerBlock)
      (fb * card.uPagePerBlock) (sector / 4) (w.openedBy card (fb * card.uPagePerBlock)) =
      issueAll card frontOps (w.openedBy card (fb * card.uPagePerBlock)) := by
    rw [movePages_run (by simpa using apart 0 (sector / 4) (by omega)), ← front,
      moveOps_congr (by simpa using kept _ opened 0 (sector / 4) (by omega))]
  rw [moveBlock2K, bind_of_run (open_run _ _), bind_run, issueFront, issueAll_run,
    Option.bind_some, bind_of_run (pageZero_run _ _ _ _ _), zero, ite_run]
  generalize entry : w.openedBy card (fb * card.uPagePerBlock) = w₁ at clean opened
  by_cases good : verdict (w₁.attempts card frontOps) = .noErr
  case neg =>
    rw [if_pos good, giveUpBlock_run]
    refine ⟨_, _, rfl, ?_⟩
    rw [push_push]
    apply givenUp_of (mt clean.mp fun all => good all.1) rfl opened onFront good
    intro e mem
    rcases List.mem_append.mp mem with zeroE | eraseE
    · exact on_new onZero e zeroE
    · exact attempts_erase_block eraseE
  rw [if_neg (not_not.mpr good), upToFailure_of_ok (verdict_eq_noErr.mp good)]
  have marked := (opened.ops onFront).ops onZero
  dsimp only
  generalize zeroed : (w₁.push card (w₁.attempts card frontOps)).push card
    ((w₁.push card (w₁.attempts card frontOps)).attempts card zeroOps) = w₂ at clean marked
  have issueOps : updatePages card (fmiSMGetBlockAddr block)
      (nextRAMark (firstMark card w.flash p))
      (Option.some (p * card.uPagePerBlock + sector / 4)) (fb * card.uPagePerBlock + sector / 4)
      (pageRuns (sector % 4) secCount) buff w₂ = issueAll card ops w₂ := by
    rw [updatePages_run, ← updates]
    · congr 1
      apply updateOps_congr
      rintro _ ⟨⟩ i hi
      exact kept _ marked _ rounds (by omega) i (by omega)
    · rintro _ ⟨⟩ i hi j hj
      exact apart _ rounds (by omega) i (by omega) j (by omega)
  rw [bind_run, issueOps, issueAll_run, Option.bind_some, ite_run]
  by_cases goodOps : verdict (w₂.attempts card ops) = .noErr
  case neg =>
    rw [if_pos goodOps, giveUpBlock_run]
    exact ⟨_, _, rfl, givenUp_of (mt clean.mp fun all => goodOps all.2.1) rfl marked onOps goodOps
      fun _ => attempts_erase_block⟩
  rw [if_neg (not_not.mpr goodOps), upToFailure_of_ok (verdict_eq_noErr.mp goodOps)]
  have updated := marked.ops onOps
  dsimp only
  generalize written : w₂.push card (w₂.attempts card ops) = w₃ at clean updated
  have issueBack : movePages card (fmiSMGetBlockAddr block)
      (nextRAMark (firstMark card w.flash p)) 0
      (p * card.uPagePerBlock + sector / 4 + (pageRuns (sector % 4) secCount).length)
      (fb * card.uPagePerBlock + sector / 4 + (pageRuns (sector % 4) secCount).length)
      (card.uPagePerBlock - (if (sector + secCount) % 4 ≠ 0 then (sector + secCount) / 4 + 1
        else (sector + secCount) / 4)) w₃ = issueAll card backOps w₃ := by
    rw [behind, number, Nat.add_assoc, Nat.add_assoc, movePages_run (apart _ _ (by omega)), ← back,
      moveOps_congr (kept _ updated _ _ (by omega))]
  rw [bind_run, issueBack, issueAll_run, Option.bind_some, ite_run]
  by_cases goodBack : verdict (w₃.attempts card backOps) = .noErr
  case neg =>
    rw [if_pos goodBack, giveUpBlock_run]
    exact ⟨_, _, rfl, givenUp_of (mt clean.mp fun all => goodBack all.2.2.1) rfl updated onBack
      goodBack fun _ => attempts_erase_block⟩
  rw [if_neg (not_not.mpr goodBack), upToFailure_of_ok (verdict_eq_noErr.mp goodBack)]
  obtain ⟨s, w', retired⟩ : ∃ s w', retire card (Option.some p) true (w.afterScript card
    (move2K card w.flash block fb p sector secCount buff) block fb) = Option.some (s, w') :=
      retire_total _ _ _
  refine ⟨s, w', ?_, .built (clean.mpr ⟨good, goodOps, goodBack, clean_end _ _⟩) retired⟩
  rw [finishBlock2K_run small, ← retired, World.afterScript, steps, ← written, ← zeroed, ← entry]
  simp only [framed, List.map_append, map_op_may, map_op_must, List.append_assoc,
    push_attempts_append]
  rfl

variable {es : List Event} {rest : List Node}

theorem updateBlockData2K_run (big2K : card.u2KPageSize = true) (scanned : w.smZone.isScan)
    (small : block < l2pTableSize) {sector secCount : Nat} (buff : Nat → Sector)
    (some : secCount ≠ 0) (inside : sector + secCount ≤ 4 * card.uPagePerBlock)
    (taken : takeFree card w.log.length w.free = Option.some (es, fb, rest))
    (other : w.l2p block ≠ Option.some fb) :
    let w₁ := (w.push card es).setFree rest
    ∃ s w', updateBlockData2K card 0 block sector secCount buff w = Option.some (s, w') ∧
      Updated card w₁ block fb (w.l2p block)
        (plan2K card w₁.flash block fb (w.l2p block) sector secCount buff) s w' := by
  have free : getFreeBlock card 0 w = _ := getFreeBlock_run w
  rw [taken] at free
  rw [updateBlockData2K, bind_of_run (ensureScanned_run scanned), bind_of_run (getL2P_run small w),
    bind_of_run free, ite_run]
  unfold plan2K
  dsimp only
  generalize (w.push card es).setFree rest = w₁
  by_cases whole : secCount = card.uSectorPerBlock
  · rw [if_pos whole, if_pos whole]
    exact full2K_run small _ buff (by omega)
  · rw [if_neg whole, if_neg whole]
    cases old : w.l2p block with
    | none => exact new2K_run small buff some inside
    | some p =>
      have distinct : p ≠ fb := by
        rintro rfl
        exact other old
      have read : readPage (p * card.uPagePerBlock) w₁ =
          Option.some (w₁.flash (p * card.uPagePerBlock), w₁) := rfl
      have check : checkPageMark card (p * card.uPagePerBlock + sector / 4) secCount (sector % 4)
          w₁ = Option.some (pagesUsed2K w₁.flash (p * card.uPagePerBlock + sector / 4)
            (pageRuns (sector % 4) secCount), w₁) := by
        rw [checkPageMark, big2K]
        exact checkPageMark2K_run _ _ _
      dsimp only
      rw [bind_of_run read, bind_of_run check, ite_run]
      by_cases used : pagesUsed2K w₁.flash (p * card.uPagePerBlock + sector / 4)
          (pageRuns (sector % 4) secCount)
      · rw [if_pos used, if_pos used]
        exact move2K_run small distinct buff some inside
      · rw [if_neg used, if_neg used]
        exact fill2K_run p sector secCount buff

theorem updateBlockData2K_crash (scanned : w.smZone.isScan) (small : block < l2pTableSize)
    (sector secCount : Nat) (buff : Nat → Sector) (out : takeFree card w.log.length w.free = none) :
    updateBlockData2K card 0 block sector secCount buff w = none := by
  have free : getFreeBlock card 0 w = _ := getFreeBlock_run w
  rw [out] at free
  rw [updateBlockData2K, bind_of_run (ensureScanned_run scanned), bind_of_run (getL2P_run small w),
    bind_run, free]
  rfl

end Rovio.Nand
