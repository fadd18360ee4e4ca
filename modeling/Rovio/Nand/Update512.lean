import Rovio.Nand.Plans

/-! `update_block_data` follows the plan for a card with 512-byte pages. -/
namespace Rovio.Nand

open Kit

variable {card : Card} {w : World} {block fb : Nat}

theorem pageZero_run (sector : Nat) (blockAddr : BitVec 16) (dsector : Nat) (mark : BitVec 32)
    (w : World) :
    writePage0Behind card sector blockAddr dsector mark w =
      let es := w.attempts card (pageZero card blockAddr dsector mark sector)
      some (verdict es, w.push card es) := by
  by_cases zero : sector = 0
  · simp [writePage0Behind, zero, pageZero, World.attempts, verdict, pure_run]
  · rw [writePage0Behind, ite_run, if_pos zero, pageZero, if_pos zero]
    exact issue_run _ _

theorem block_of_page {k fb i : Nat} (inside : i < k) : (fb * k + i) / k = fb := by
  rw [Nat.mul_comm, Nat.mul_add_div (by omega), Nat.div_eq_of_lt inside, Nat.add_zero]

theorem mem_programs512 {blockAddr : BitVec 16} {page count : Nat} {buff : Nat → Sector}
    {mark : BitVec 32} {op : Op} (mem : op ∈ programs512 blockAddr page count buff mark) :
    ∃ i < count, op = .page (page + i) ⟨fun _ => buff i, mark, blockAddr⟩ := by
  simp only [programs512, List.mem_map, List.mem_range] at mem
  obtain ⟨i, small, rfl⟩ := mem
  exact ⟨i, small, rfl⟩

theorem programs512_block {blockAddr : BitVec 16} {sector count : Nat} {buff : Nat → Sector}
    {mark : BitVec 32} (inside : sector + count ≤ card.uPagePerBlock) {op : Op}
    (mem : op ∈ programs512 blockAddr (fb * card.uPagePerBlock + sector) count buff mark) :
    op.block card.uPagePerBlock = fb := by
  obtain ⟨i, small, rfl⟩ := mem_programs512 mem
  rw [Op.block, Nat.add_assoc]
  exact block_of_page (by omega)

theorem spare_block (pos : 0 < card.uPagePerBlock) (mark : BitVec 32) (blockAddr : BitVec 16) :
    (Op.spare (fb * card.uPagePerBlock) mark blockAddr).block card.uPagePerBlock = fb :=
  Nat.mul_div_cancel _ pos

theorem pageZero_block (pos : 0 < card.uPagePerBlock) {blockAddr : BitVec 16} {mark : BitVec 32}
    {sector : Nat} {op : Op}
    (mem : op ∈ pageZero card blockAddr (fb * card.uPagePerBlock) mark sector) :
    op.block card.uPagePerBlock = fb := by
  unfold pageZero at mem
  split at mem
  · rw [List.mem_singleton.mp mem]
    exact spare_block pos _ _
  · cases mem

theorem protect_run (d : Nat) (data : BitVec 8) (w : World) :
    fmiSML2PWriteProtect card d data w =
      let es := w.attempts card [.spare d (data ++ 0xffffff#24) 0xffff#16]
      some (verdict es, w.push card es) :=
  issue_run _ _

theorem open_run (d : Nat) (w : World) :
    fmiSML2PWriteProtect card d 0x7f w =
      some (verdict (w.attempts card [.spare d (0x7f#8 ++ 0xffffff#24) 0xffff#16]),
        w.openedBy card d) :=
  issue_run _ _

/-- The events of a failed build are on the new block, and one of them failed. -/
theorem build_failed {programs : List Op} (tail : List Event) (pos : 0 < card.uPagePerBlock)
    (on : ∀ op ∈ programs, op.block card.uPagePerBlock = fb)
    (bad : verdict ((w.openedBy card (fb * card.uPagePerBlock)).attempts card programs) ≠ .noErr)
    (behind : ∀ e ∈ tail, e.op.block card.uPagePerBlock = fb) :
    let es := w.attempts card [.spare (fb * card.uPagePerBlock) (0x7f#8 ++ 0xffffff#24) 0xffff#16] ++
      (upToFailure Outcome.isOk
        ((w.openedBy card (fb * card.uPagePerBlock)).attempts card programs) ++ tail)
    (∀ e ∈ es, e.op.block card.uPagePerBlock = fb) ∧ ∃ e ∈ es, ¬ e.out.isOk := by
  constructor
  · intro e mem
    rcases List.mem_append.mp mem with first | later
    · rw [List.mem_singleton.mp (mem_attempts first)]
      exact spare_block pos _ _
    · rcases List.mem_append.mp later with written | behindE
      · exact on _ (mem_attempts (mem_upToFailure written))
      · exact behind e behindE
  · rw [Ne, verdict_eq_noErr] at bad
    push Not at bad
    obtain ⟨e, mem, failed⟩ : ∃ e ∈ upToFailure Outcome.isOk _, ¬ e.out.isOk :=
      upToFailure_failed bad
    exact ⟨e, by simp [mem], failed⟩

theorem attempts_erase_block {e : Event} (mem : e ∈ w.attempts card [.erase fb]) :
    e.op.block card.uPagePerBlock = fb := by
  rw [List.mem_singleton.mp (mem_attempts mem)]
  rfl

theorem new512_run (small : block < l2pTableSize) {sector secCount : Nat} (buff : Nat → Sector)
    (some : secCount ≠ 0) (inside : sector + secCount ≤ card.uPagePerBlock) :
    ∃ s w', newBlock512 card 0 block fb sector secCount buff w = Option.some (s, w') ∧
      Updated card w block fb none (.build (new512 card block fb sector secCount buff)) s w' := by
  rw [newBlock512, bind_of_run (open_run _ _), bind_of_run (write512_run some _ _ _), ite_run]
  by_cases good : verdict ((w.openedBy card (fb * card.uPagePerBlock)).attempts card
      (programs512 (fmiSMGetBlockAddr block) (fb * card.uPagePerBlock + sector) secCount buff
        0xc0fefeff#32)) = .noErr
  · refine ⟨_, _, ?_, .built (framed_clean _ good) (retire_run _ _ _)⟩
    rw [if_neg (not_not.mpr good), upToFailure_of_ok (verdict_eq_noErr.mp good),
      bind_of_run (setL2P_run small _ _), bind_of_run (pageZero_run _ _ _ _ _),
      bind_of_run (protect_run _ _ _), World.afterScript, new512, framed_push]
    rfl
  · obtain ⟨i, failed, _⟩ := framed_failed (pageZero card (fmiSMGetBlockAddr block)
      (fb * card.uPagePerBlock) 0xcfffffff#32 sector) good
    obtain ⟨onNew, bad⟩ := build_failed [] (by omega) (fun _ => programs512_block inside) good
      (by simp)
    rw [if_pos good]
    refine ⟨_, _, rfl, .givenUp failed (by simp [new512]) onNew bad good (.inl ?_)⟩
    rw [List.append_nil, ← push_push]
    rfl

/-- The mark of the old block is read before anything is written. -/
theorem sequenceAfter_run (old : Option Nat) (w : World) :
    sequenceAfter fmiSMGetMarkData (old.map (· * card.uPagePerBlock)) w =
      some (old.elim 0 fun p => nextRAMark (oldMark512 card w.flash p), w) := by
  cases old with
  | none => rfl
  | some p => rfl

theorem full512_run (small : block < l2pTableSize) (old : Option Nat) {secCount : Nat}
    (buff : Nat → Sector) (some : secCount ≠ 0) (inside : secCount ≤ card.uPagePerBlock) :
    ∃ s w', fullBlock512 card 0 block old fb secCount buff w = Option.some (s, w') ∧
      Updated card w block fb old (.build (full512 card w.flash block fb old secCount buff))
        s w' := by
  unfold fullBlock512
  rw [bind_of_run (sequenceAfter_run old w), bind_of_run (open_run _ _),
    bind_of_run (write512_run some _ _ _), ite_run]
  have steps : (full512 card w.flash block fb old secCount buff).steps =
      framed (fb * card.uPagePerBlock) (must (programs512 (fmiSMGetBlockAddr block)
        (fb * card.uPagePerBlock) secCount buff
        ((old.elim 0 fun p => nextRAMark (oldMark512 card w.flash p)) ||| 0xc0fefeff#32)) ++
      may []) := (congrArg (framed _) (List.append_nil _)).symm
  by_cases good : verdict ((w.openedBy card (fb * card.uPagePerBlock)).attempts card
      (programs512 (fmiSMGetBlockAddr block) (fb * card.uPagePerBlock) secCount buff
        ((old.elim 0 fun p => nextRAMark (oldMark512 card w.flash p)) ||| 0xc0fefeff#32))) = .noErr
  · have clean := framed_clean [] good
    rw [← steps] at clean
    obtain ⟨s, w', retired⟩ : ∃ s w', retire card old false (w.afterScript card
      (full512 card w.flash block fb old secCount buff) block fb) = Option.some (s, w') :=
        retire_total _ _ _
    refine ⟨s, w', ?_, .built clean retired⟩
    rw [if_neg (not_not.mpr good), upToFailure_of_ok (verdict_eq_noErr.mp good),
      bind_of_run (protect_run _ _ _), bind_of_run (setL2P_run small _ _), ← retired,
      World.afterScript, steps, framed_push, retire_run]
    cases old with
    | none => simp [World.attempts, pure_run]
    | some p =>
      change (issue card (.erase p) >>= _) _ = _
      rw [bind_of_run (issue_run _ _)]
      simp [World.attempts]
  · obtain ⟨i, failed, _⟩ := framed_failed [] good
    rw [← steps] at failed
    obtain ⟨onNew, bad⟩ := build_failed _ (by omega)
      (fun _ => @programs512_block _ _ _ 0 _ _ _ (by omega) _) good
      (fun _ => attempts_erase_block)
    rw [if_pos good, fmiSMBlockErase, bind_of_run (issue_run _ _)]
    refine ⟨_, _, rfl, .givenUp failed (by simp [full512]) onNew bad good (.inl ?_)⟩
    rw [← push_push, ← push_push]
    rfl

/-- A move to the new block ends as a build does. -/
theorem finishMove512_run (small : block < l2pTableSize) (p sector : Nat) (raMark : BitVec 32)
    (w : World) :
    finishMove512 card 0 block fb p sector raMark w =
      let marked := w.push card (w.attempts card (pageZero card (fmiSMGetBlockAddr block)
        (fb * card.uPagePerBlock) (raMark ||| 0xcfffffff#32) sector))
      retire card (some p) true ((marked.push card (marked.attempts card
        [.spare (fb * card.uPagePerBlock) (0x3f#8 ++ 0xffffff#24) 0xffff#16])).setL2P block
          (some fb)) := by
  rw [finishMove512, bind_of_run (pageZero_run _ _ _ _ _), bind_of_run (protect_run _ _ _),
    bind_of_run (setL2P_run small _ _), retire_run]
  change (issue card (.erase p) >>= _) _ = _
  rw [bind_of_run (issue_run _ _), ite_run]
  simp [pure_run]

theorem openedBy_data (d n : Nat) (w : World) :
    ((w.openedBy card d).flash n).data = (w.flash n).data :=
  @apply_spare_data card.uPagePerBlock _ _ _ _ _ _

theorem move512_run (small : block < l2pTableSize) (p sector secCount : Nat)
    (buff : Nat → Sector) (pos : card.uPagePerBlock ≠ 0) :
    ∃ s w', moveBlock512 card 0 block fb p sector secCount buff (oldMark512 card w.flash p) w =
        some (s, w') ∧
      Updated card w block fb (some p)
        (.build (move512 card w.flash block fb p sector secCount buff)) s w' := by
  have read : fmiSMRead512 (p * card.uPagePerBlock) (w.openedBy card (fb * card.uPagePerBlock)) =
      some (fun i => (w.flash (p * card.uPagePerBlock + i)).data 0,
        w.openedBy card (fb * card.uPagePerBlock)) := by
    simp [fmiSMRead512, openedBy_data]
  rw [moveBlock512, bind_of_run (open_run _ _), bind_of_run read,
    bind_of_run (write512_run pos _ _ _), ite_run]
  generalize programs : programs512 (fmiSMGetBlockAddr block) (fb * card.uPagePerBlock)
    card.uPagePerBlock (storeSectors (fun i => (w.flash (p * card.uPagePerBlock + i)).data 0)
      sector secCount buff) (nextRAMark (oldMark512 card w.flash p) ||| 0xc0fefeff#32) = progs
  have steps : (move512 card w.flash block fb p sector secCount buff).steps =
      framed (fb * card.uPagePerBlock) (must progs ++ may (pageZero card (fmiSMGetBlockAddr block)
        (fb * card.uPagePerBlock) (nextRAMark (oldMark512 card w.flash p) ||| 0xcfffffff#32)
          sector)) := by
    rw [← programs]
    rfl
  by_cases good : verdict ((w.openedBy card (fb * card.uPagePerBlock)).attempts card progs) = .noErr
  · have clean := framed_clean (pageZero card (fmiSMGetBlockAddr block) (fb * card.uPagePerBlock)
      (nextRAMark (oldMark512 card w.flash p) ||| 0xcfffffff#32) sector) good
    rw [← steps] at clean
    obtain ⟨s, w', retired⟩ : ∃ s w', retire card (some p) true (w.afterScript card
      (move512 card w.flash block fb p sector secCount buff) block fb) = some (s, w') :=
        retire_total _ _ _
    refine ⟨s, w', ?_, .built clean retired⟩
    rw [if_neg (not_not.mpr good), upToFailure_of_ok (verdict_eq_noErr.mp good),
      finishMove512_run small, ← retired, World.afterScript, steps, framed_push]
  · obtain ⟨i, failed, length⟩ := framed_failed (pageZero card (fmiSMGetBlockAddr block)
      (fb * card.uPagePerBlock) (nextRAMark (oldMark512 card w.flash p) ||| 0xcfffffff#32) sector)
      good
    rw [← steps] at failed
    have on : ∀ op ∈ progs, op.block card.uPagePerBlock = fb := by
      rw [← programs]
      exact fun _ => @programs512_block _ _ _ 0 _ _ _ (by omega) _
    rw [if_pos good, fmiSMBlockErase, bind_of_run (issue_run _ _), ite_run, verdict_one]
    generalize written : (w.openedBy card (fb * card.uPagePerBlock)).push card (upToFailure
      Outcome.isOk ((w.openedBy card (fb * card.uPagePerBlock)).attempts card progs)) = w₂
    have whole : ∀ tail, w₂.push card tail = w.push card (w.attempts card
        [.spare (fb * card.uPagePerBlock) (0x7f#8 ++ 0xffffff#24) 0xffff#16] ++
          (upToFailure Outcome.isOk
            ((w.openedBy card (fb * card.uPagePerBlock)).attempts card progs) ++ tail)) := by
      intro tail
      rw [← written, ← push_push, ← push_push]
      rfl
    have place : w₂.log.length = w.log.length + i + 1 := by
      simp [← written, World.openedBy, World.attempts, ← length]
      omega
    have memory : w₂.mallocs = w.mallocs := by
      rw [← written]
      rfl
    by_cases erased : (card.report w₂.log.length (.erase fb)).isOk
    · rw [if_neg (not_not.mpr (Outcome.status_eq_noErr.mpr erased)), bind_run, smAddFreeBlock_run]
      have back : (w₂.push card (w₂.attempts card [.erase fb])).mallocs = w.mallocs := memory
      rw [back]
      by_cases found : card.malloc w.mallocs
      · rw [if_pos found, Option.bind_some, ite_run, if_neg (not_not.mpr rfl),
          finishMove512_run small]
        dsimp only
        generalize gained : ((w₂.push card (w₂.attempts card [.erase fb])).setFree _).countMalloc = w₃
        generalize zeros : w₃.attempts card (pageZero card (fmiSMGetBlockAddr block)
          (fb * card.uPagePerBlock) (nextRAMark (oldMark512 card w.flash p) ||| 0xcfffffff#32)
            sector) = es
        generalize last : (w₃.push card es).attempts card
          [.spare (fb * card.uPagePerBlock) (0x3f#8 ++ 0xffffff#24) 0xffff#16] = fs
        obtain ⟨onNew, bad⟩ :=
          build_failed (w₂.attempts card [.erase fb] ++ (es ++ fs)) (by omega) on
          good (by
            intro e mem
            rcases List.mem_append.mp mem with eraseE | mem
            · exact attempts_erase_block eraseE
            · rcases List.mem_append.mp mem with zeroE | lastE
              · rw [← zeros] at zeroE
                exact pageZero_block (by omega) (mem_attempts zeroE)
              · rw [← last] at lastE
                rw [List.mem_singleton.mp (mem_attempts lastE)]
                exact spare_block (by omega) _ _)
        obtain ⟨s, w', retired⟩ : ∃ s w', retire card (some p) true
          (((w₃.push card es).push card fs).setL2P block (some fb)) = some (s, w') :=
            retire_total _ _ _
        refine ⟨s, w', retired, .regained failed rfl ⟨?_, found⟩ onNew bad ?_⟩
        · rw [← place]
          exact erased
        · rw [← retired, ← whole, ← push_push, ← push_push, ← gained]
          have free : w₂.free = w.free := by
            rw [← written]
            rfl
          rw [← free]
          rfl
      · rw [if_neg found]
        obtain ⟨onNew, bad⟩ := build_failed (w₂.attempts card [.erase fb]) (by omega) on good
          (fun _ => attempts_erase_block)
        refine ⟨.mallocError, _, rfl, .givenUp failed ?_ onNew bad (by decide) (.inr ?_)⟩
        · rintro - ⟨_, again⟩
          exact found again
        · rw [← whole]
    · have refused := mt Outcome.status_eq_noErr.mp erased
      obtain ⟨onNew, bad⟩ := build_failed (w₂.attempts card [.erase fb]) (by omega) on good
        (fun _ => attempts_erase_block)
      refine ⟨_, _, if_pos refused, .givenUp failed ?_ onNew bad refused (.inl (whole _))⟩
      rintro - ⟨again, _⟩
      rw [← place] at again
      exact erased again

theorem fill512_run (p : Nat) {sector secCount : Nat} (buff : Nat → Sector) (some : secCount ≠ 0) :
    ∃ s w', writeInPlace512 card 0 block fb p sector secCount buff (oldMark512 card w.flash p) w =
        Option.some (s, w') ∧
      Updated card w block fb (Option.some p)
        (.fill (fill512 card w.flash block p sector secCount buff)) s w' := by
  have programs : programs512 (fmiSMGetBlockAddr block) (p * card.uPagePerBlock + sector) secCount
      buff ((oldMark512 card w.flash p &&& 0x30000000#32) ||| 0xc0fefeff#32) =
      fill512 card w.flash block p sector secCount buff := rfl
  rw [writeInPlace512, bind_of_run (write512_run some _ _ _), ite_run, programs]
  by_cases good : verdict (w.attempts card (fill512 card w.flash block p sector secCount buff)) =
      .noErr
  · obtain ⟨s, w', freed⟩ : ∃ s w', smAddFreeBlock card 0 fb false (w.push card (w.attempts card
      (fill512 card w.flash block p sector secCount buff))) = Option.some (s, w') :=
        smAddFreeBlock_total _ _ _
    refine ⟨s, w', ?_, .filled (verdict_eq_noErr.mp good) freed⟩
    rw [← freed, if_neg (not_not.mpr good), upToFailure_of_ok (verdict_eq_noErr.mp good)]
  · have bad := good
    rw [verdict_eq_noErr] at bad
    push Not at bad
    refine ⟨_, _, ?_, .spilled bad⟩
    rw [if_pos good, pure_run]

theorem checkPageMark512_run (page count : Nat) (w : World) :
    checkPageMark512 page count w = some (pagesUsed512 w.flash page count, w) := by
  induction count generalizing page with
  | zero => rfl
  | succ count ih =>
    have read : readPage page w = some (w.flash page, w) := rfl
    have split : pagesUsed512 w.flash page (count + 1) =
        (decide (flagBytes (w.flash page).mark ≠ 0xffff00#32) ||
          pagesUsed512 w.flash (page + 1) count) := by
      simp [pagesUsed512, List.range_succ_eq_map, Function.comp_def, Nat.add_assoc, Nat.add_comm 1]
    rw [checkPageMark512, bind_of_run read, ite_run, ih, split]
    by_cases used : flagBytes (w.flash page).mark = 0xffff00#32
    · simp [used]
    · simp [used, pure_run]

variable {es : List Event} {rest : List Node}

theorem updateBlockData_run (small2K : card.u2KPageSize = false) (scanned : w.smZone.isScan)
    (small : block < l2pTableSize) {sector secCount : Nat} (buff : Nat → Sector)
    (some : secCount ≠ 0) (inside : sector + secCount ≤ card.uPagePerBlock)
    (taken : takeFree card w.log.length w.free = Option.some (es, fb, rest)) :
    let w₁ := (w.push card es).setFree rest
    ∃ s w', updateBlockData card 0 block sector secCount buff w = Option.some (s, w') ∧
      Updated card w₁ block fb (w.l2p block)
        (plan512 card w₁.flash block fb (w.l2p block) sector secCount buff) s w' := by
  have free : getFreeBlock card 0 w = _ := getFreeBlock_run w
  rw [taken] at free
  rw [updateBlockData, bind_of_run (ensureScanned_run scanned), bind_of_run (getL2P_run small w),
    bind_of_run free, ite_run]
  unfold plan512
  dsimp only
  generalize (w.push card es).setFree rest = w₁
  by_cases whole : secCount = card.uSectorPerBlock
  · rw [if_pos whole, if_pos whole]
    exact full512_run small _ buff some (by omega)
  · rw [if_neg whole, if_neg whole]
    cases w.l2p block with
    | none => exact new512_run small buff some inside
    | some p =>
      have mark : fmiSMGetMarkData (p * card.uPagePerBlock) w₁ =
          Option.some (oldMark512 card w₁.flash p, w₁) := rfl
      have check : checkPageMark card (p * card.uPagePerBlock + sector) secCount sector w₁ =
          Option.some (pagesUsed512 w₁.flash (p * card.uPagePerBlock + sector) secCount, w₁) := by
        rw [checkPageMark, small2K]
        exact checkPageMark512_run _ _ _
      dsimp only
      rw [bind_of_run mark, bind_of_run check, ite_run]
      by_cases used : pagesUsed512 w₁.flash (p * card.uPagePerBlock + sector) secCount
      · rw [if_pos used, if_pos used]
        exact move512_run small p sector secCount buff (by omega)
      · rw [if_neg used, if_neg used]
        exact fill512_run p buff some

/-- With no block left the head of the free list is null. -/
theorem updateBlockData_crash (scanned : w.smZone.isScan) (small : block < l2pTableSize)
    (sector secCount : Nat) (buff : Nat → Sector) (out : takeFree card w.log.length w.free = none) :
    updateBlockData card 0 block sector secCount buff w = none := by
  have free : getFreeBlock card 0 w = _ := getFreeBlock_run w
  rw [out] at free
  rw [updateBlockData, bind_of_run (ensureScanned_run scanned), bind_of_run (getL2P_run small w),
    bind_run, free]
  rfl

end Rovio.Nand
