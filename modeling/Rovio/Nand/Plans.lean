import Rovio.Nand.Transcript

/-! What a block update does, as a function of the state it starts in: either it builds
a new block from a script of operations, or it fills unused pages of the old block.
`Updated` lists the ways such a plan can end. -/
namespace Rovio.Nand

open Kit

variable {card : Card}

/-- `regains`: when the build fails and the block can be erased and freed, the call goes
on as if nothing had happened. `minds`: a failure to erase the old block is reported. -/
structure Build where
  steps : List (Step Op)
  regains : Bool
  minds : Bool

inductive Plan
  | build (b : Build)
  | fill (ops : List Op)

def must (ops : List Op) : List (Step Op) := ops.map fun op => ⟨op, true⟩

def may (ops : List Op) : List (Step Op) := ops.map fun op => ⟨op, false⟩

/-- The status byte of the block starts and ends the script. -/
def framed (dsector : Nat) (steps : List (Step Op)) : List (Step Op) :=
  may [.spare dsector (0x7f#8 ++ 0xffffff#24) 0xffff#16] ++
    (steps ++ may [.spare dsector (0x3f#8 ++ 0xffffff#24) 0xffff#16])

def pageZero (card : Card) (blockAddr : BitVec 16) (dsector : Nat) (mark : BitVec 32)
    (sector : Nat) : List Op :=
  if sector ≠ 0 then
    [.spare dsector (if card.u2KPageSize then mark ||| 0xff#32 else mark) blockAddr]
  else []

/-- The old block goes to the free list. -/
def retire (card : Card) (old : Option Nat) (minds : Bool) : Drive Status :=
  match old with
  | none => return .noErr
  | some p => do
    let status ← fmiSMBlockErase card p
    if minds ∧ status ≠ .noErr then return status else smAddFreeBlock card 0 p false

/-- The block of a failed build could be erased and put in the free list. -/
def Regained (card : Card) (w : World) (i fb : Nat) : Prop :=
  (card.report (w.log.length + i + 1) (.erase fb)).isOk ∧ card.malloc w.mallocs

/-- Every operation of the script was issued, and the new block mapped. -/
def World.afterScript (card : Card) (w : World) (b : Build) (block fb : Nat) : World :=
  (w.push card (w.attempts card (b.steps.map Step.op))).setL2P block (some fb)

/-- The ways of an update that took the block `fb` from the free list. -/
inductive Updated (card : Card) (w : World) (block fb : Nat) (old : Option Nat) :
    Plan → Status → World → Prop
  | built {b : Build} {s : Status} {w' : World}
      (clean : firstFailure card.report Outcome.isOk w.log.length b.steps = none)
      (retired : retire card old b.minds (w.afterScript card b block fb) = some (s, w')) :
      Updated card w block fb old (.build b) s w'
  | givenUp {b : Build} {i : Nat} {es : List Event} {s : Status} {w' : World}
      (failed : firstFailure card.report Outcome.isOk w.log.length b.steps = some i)
      (lost : b.regains → ¬ Regained card w i fb)
      (onNew : ∀ e ∈ es, e.op.block card.uPagePerBlock = fb) (bad : ∃ e ∈ es, ¬ e.out.isOk)
      (status : s ≠ .noErr) (left : w' = w.push card es ∨ w' = (w.push card es).countMalloc) :
      Updated card w block fb old (.build b) s w'
  | regained {b : Build} {i : Nat} {es : List Event} {s : Status} {w' : World}
      (failed : firstFailure card.report Outcome.isOk w.log.length b.steps = some i)
      (regains : b.regains) (erased : Regained card w i fb)
      (onNew : ∀ e ∈ es, e.op.block card.uPagePerBlock = fb) (bad : ∃ e ∈ es, ¬ e.out.isOk)
      (retired : retire card old b.minds
        ((((w.push card es).setFree (w.free ++ [⟨fb, false⟩])).countMalloc).setL2P block
          (some fb)) = some (s, w')) :
      Updated card w block fb old (.build b) s w'
  | filled {ops : List Op} {s : Status} {w' : World}
      (clean : ∀ e ∈ w.attempts card ops, e.out.isOk)
      (freed : smAddFreeBlock card 0 fb false (w.push card (w.attempts card ops)) = some (s, w')) :
      Updated card w block fb old (.fill ops) s w'
  | spilled {ops : List Op}
      (bad : ∃ e ∈ w.attempts card ops, ¬ e.out.isOk) :
      Updated card w block fb old (.fill ops) (verdict (w.attempts card ops))
        (w.push card (upToFailure Outcome.isOk (w.attempts card ops)))

/-! ### Plans on a card with 512-byte pages -/

section
variable (card : Card) (flash : Flash) (block fb : Nat)

def programs512 (blockAddr : BitVec 16) (page count : Nat) (buff : Nat → Sector)
    (mark : BitVec 32) : List Op :=
  (List.range count).map fun i => .page (page + i) ⟨fun _ => buff i, mark, blockAddr⟩

def pagesUsed512 (page count : Nat) : Bool :=
  (List.range count).any fun i => flagBytes (flash (page + i)).mark ≠ 0xffff00#32

/-- The mark of the first page, as the data port reads it. -/
def oldMark512 (p : Nat) : BitVec 32 := (flash (p * card.uPagePerBlock)).mark &&& 0xffffff00#32

def full512 (old : Option Nat) (secCount : Nat) (buff : Nat → Sector) : Build where
  steps := framed (fb * card.uPagePerBlock) (must (programs512 (fmiSMGetBlockAddr block)
    (fb * card.uPagePerBlock) secCount buff
    ((old.elim 0 fun p => nextRAMark (oldMark512 card flash p)) ||| 0xc0fefeff#32)))
  regains := false
  minds := false

def move512 (p sector secCount : Nat) (buff : Nat → Sector) : Build where
  steps := framed (fb * card.uPagePerBlock)
    (must (programs512 (fmiSMGetBlockAddr block) (fb * card.uPagePerBlock) card.uPagePerBlock
      (storeSectors (fun i => (flash (p * card.uPagePerBlock + i)).data 0) sector secCount buff)
      (nextRAMark (oldMark512 card flash p) ||| 0xc0fefeff#32)) ++
    may (pageZero card (fmiSMGetBlockAddr block) (fb * card.uPagePerBlock)
      (nextRAMark (oldMark512 card flash p) ||| 0xcfffffff#32) sector))
  regains := true
  minds := true

def new512 (sector secCount : Nat) (buff : Nat → Sector) : Build where
  steps := framed (fb * card.uPagePerBlock)
    (must (programs512 (fmiSMGetBlockAddr block) (fb * card.uPagePerBlock + sector) secCount buff
      0xc0fefeff#32) ++
    may (pageZero card (fmiSMGetBlockAddr block) (fb * card.uPagePerBlock) 0xcfffffff#32 sector))
  regains := false
  minds := false

def fill512 (p sector secCount : Nat) (buff : Nat → Sector) : List Op :=
  programs512 (fmiSMGetBlockAddr block) (p * card.uPagePerBlock + sector) secCount buff
    ((oldMark512 card flash p &&& 0x30000000#32) ||| 0xc0fefeff#32)

def plan512 (old : Option Nat) (sector secCount : Nat) (buff : Nat → Sector) : Plan :=
  if secCount = card.uSectorPerBlock then .build (full512 card flash block fb old secCount buff)
  else match old with
    | none => .build (new512 card block fb sector secCount buff)
    | some p =>
      if pagesUsed512 flash (p * card.uPagePerBlock + sector) secCount then
        .build (move512 card flash block fb p sector secCount buff)
      else .fill (fill512 card flash block p sector secCount buff)

end

/-! ### Plans on a card with 2K pages -/

section
variable (card : Card) (flash : Flash)

def sourcePage : Option Nat → Page
  | none => ⟨fun _ => blankSector, 0xfffefeff#32, 0xffff#16⟩
  | some spage =>
    if flagBytes (flash spage).mark = 0xfcfc00#32 then
      { flash spage with mark := ((flash spage).mark &&& 0xff0000ff#32) ||| 0xfefe00#32 }
    else flash spage

def partMark (reg raMark : BitVec 32) (column secCount : Nat) : BitVec 32 :=
  (((reg &&& (~~~(columnBits column secCount) <<< 24)) ||| (reg &&& 0xffffff#32)) &&&
    0xcfffffff#32) ||| raMark

def updateOp (blockAddr : BitVec 16) (raMark : BitVec 32) (spage : Option Nat)
    (dpage column secCount : Nat) (buff : Nat → Sector) : Op :=
  if secCount = 4 then .page dpage ⟨buff, raMark ||| 0xc0fefeff#32, blockAddr⟩
  else .page dpage ⟨storeSectors (sourcePage flash spage).data column secCount buff,
    partMark (sourcePage flash spage).mark raMark column secCount, blockAddr⟩

def updateOps (blockAddr : BitVec 16) (raMark : BitVec 32) :
    Option Nat → Nat → List (Nat × Nat) → (Nat → Sector) → List Op
  | _, _, [], _ => []
  | spage, dpage, (rsector, sectorCount) :: rest, buff =>
    updateOp flash blockAddr raMark spage dpage rsector sectorCount buff ::
      updateOps blockAddr raMark (spage.map (· + 1)) (dpage + 1) rest
        fun i => buff (i + sectorCount)

def moveOps (blockAddr : BitVec 16) (raMark set : BitVec 32) : Nat → Nat → Nat → List Op
  | _, _, 0 => []
  | ssector, dsector, n + 1 =>
    let mark := (flash ssector).mark ||| set
    if flagBytes mark = 0xfefe00#32 then
      .page dsector ⟨(flash ssector).data, raMark ||| (mark &&& 0xcfffffff#32), blockAddr⟩ ::
        moveOps blockAddr raMark set (ssector + 1) (dsector + 1) n
    else moveOps blockAddr raMark set (ssector + 1) (dsector + 1) n

def pagesUsed2K (page : Nat) : List (Nat × Nat) → Bool
  | [] => false
  | (rsec, sectorCount) :: rest =>
    runUsed (flash page).mark rsec sectorCount || pagesUsed2K (page + 1) rest

variable (block fb : Nat)

def pages2K (mark : BitVec 32) (dsector : Nat) (buff : Nat → Sector) : List Op :=
  (List.range card.uPagePerBlock).map fun i =>
    .page (dsector + i) ⟨fun c => buff (4 * i + c), mark, fmiSMGetBlockAddr block⟩

def firstMark (p : Nat) : BitVec 32 := (flash (p * card.uPagePerBlock)).mark

def full2K (old : Option Nat) (buff : Nat → Sector) : Build where
  steps := framed (fb * card.uPagePerBlock) (must (pages2K card block
    ((old.elim 0 fun p => nextRAMark (firstMark card flash p)) ||| 0xc0fefeff#32)
    (fb * card.uPagePerBlock) buff))
  regains := false
  minds := true

def move2K (p sector secCount : Nat) (buff : Nat → Sector) : Build where
  steps :=
    let raMark := nextRAMark (firstMark card flash p)
    let blockAddr := fmiSMGetBlockAddr block
    let s := p * card.uPagePerBlock
    let d := fb * card.uPagePerBlock
    let runs := pageRuns (sector % 4) secCount
    let behind := sector / 4 + runs.length
    framed d
      (must (moveOps flash blockAddr raMark 0xc0000000#32 s d (sector / 4)) ++
        (may (pageZero card blockAddr d (raMark ||| 0xcfffffff#32) (sector / 4)) ++
          (must (updateOps flash blockAddr raMark (some (s + sector / 4)) (d + sector / 4) runs
            buff) ++
            must (moveOps flash blockAddr raMark 0 (s + behind) (d + behind)
              (card.uPagePerBlock - behind)))))
  regains := false
  minds := true

def new2K (sector secCount : Nat) (buff : Nat → Sector) : Build where
  steps := framed (fb * card.uPagePerBlock)
    (may (pageZero card (fmiSMGetBlockAddr block) (fb * card.uPagePerBlock) 0xcfffffff#32
      (sector / 4)) ++
    must (updateOps flash (fmiSMGetBlockAddr block) 0 none (fb * card.uPagePerBlock + sector / 4)
      (pageRuns (sector % 4) secCount) buff))
  regains := false
  minds := true

def fill2K (p sector secCount : Nat) (buff : Nat → Sector) : List Op :=
  updateOps flash (fmiSMGetBlockAddr block) (firstMark card flash p &&& 0x30000000#32) none
    (p * card.uPagePerBlock + sector / 4) (pageRuns (sector % 4) secCount) buff

def plan2K (old : Option Nat) (sector secCount : Nat) (buff : Nat → Sector) : Plan :=
  if secCount = card.uSectorPerBlock then .build (full2K card flash block fb old buff)
  else match old with
    | none => .build (new2K card flash block fb sector secCount buff)
    | some p =>
      if pagesUsed2K flash (p * card.uPagePerBlock + sector / 4) (pageRuns (sector % 4) secCount) then
        .build (move2K card flash block fb p sector secCount buff)
      else .fill (fill2K card flash block p sector secCount buff)

end

/-! ### Lemmas on scripts -/

@[simp] theorem map_op_must (ops : List Op) : (must ops).map Step.op = ops := by
  simp [must, Function.comp_def]

@[simp] theorem map_op_may (ops : List Op) : (may ops).map Step.op = ops := by
  simp [may, Function.comp_def]

@[simp] theorem length_must (ops : List Op) : (must ops).length = ops.length := by simp [must]

@[simp] theorem length_may (ops : List Op) : (may ops).length = ops.length := by simp [may]

theorem firstFailure_of_may (n : Nat) (ops : List Op) :
    firstFailure card.report Outcome.isOk n (may ops) = none := by
  apply firstFailure_may
  intro st mem
  obtain ⟨op, _, rfl⟩ := List.mem_map.mp mem
  rfl

/-- Where the first failing program of a script stands that has programs behind the
first status byte, and then operations nobody minds. -/
theorem firstFailure_framed (n d : Nat) (programs rest : List Op) :
    firstFailure card.report Outcome.isOk n (framed d (must programs ++ may rest)) =
      (firstFailure card.report Outcome.isOk (n + 1) (must programs)).map (· + 1) := by
  rw [framed, firstFailure_append, firstFailure_of_may]
  simp only [length_may, List.length_singleton]
  rw [List.append_assoc, firstFailure_append]
  cases firstFailure card.report Outcome.isOk (n + 1) (must programs) with
  | some i => rfl
  | none =>
    have tail : firstFailure card.report Outcome.isOk (n + 1 + (must programs).length)
        (may rest ++ may [.spare d (0x3f#8 ++ 0xffffff#24) 0xffff#16]) = none := by
      rw [firstFailure_append, firstFailure_of_may, firstFailure_of_may]
      rfl
    simp only
    rw [tail]
    rfl

theorem firstFailure_must_verdict (w : World) (ops : List Op) :
    firstFailure card.report Outcome.isOk w.log.length (must ops) = none ↔
      verdict (w.attempts card ops) = .noErr := by
  rw [verdict_eq_noErr]
  exact firstFailure_must ops

/-- The events up to the end of the programs of a script. -/
def World.openedBy (card : Card) (w : World) (d : Nat) : World :=
  w.push card (w.attempts card [.spare d (0x7f#8 ++ 0xffffff#24) 0xffff#16])

theorem framed_clean {w : World} {d : Nat} {programs : List Op} (rest : List Op)
    (good : verdict ((w.openedBy card d).attempts card programs) = .noErr) :
    firstFailure card.report Outcome.isOk w.log.length (framed d (must programs ++ may rest)) =
      none := by
  have none := (firstFailure_must_verdict _ _).mpr good
  rw [firstFailure_framed]
  simpa [World.openedBy, World.attempts] using none

theorem framed_failed {w : World} {d : Nat} {programs : List Op} (rest : List Op)
    (bad : verdict ((w.openedBy card d).attempts card programs) ≠ .noErr) :
    ∃ i, firstFailure card.report Outcome.isOk w.log.length
        (framed d (must programs ++ may rest)) = some i ∧
      (upToFailure Outcome.isOk ((w.openedBy card d).attempts card programs)).length = i := by
  have some := mt (firstFailure_must_verdict (w.openedBy card d) programs).mp bad
  obtain ⟨j, first⟩ := Option.ne_none_iff_exists'.mp some
  refine ⟨j + 1, ?_, length_upToFailure first⟩
  rw [firstFailure_framed]
  have here : (w.openedBy card d).log.length = w.log.length + 1 := by
    simp [World.openedBy, World.attempts]
  rw [← here, first]
  rfl

/-- The world behind all operations of a script. -/
theorem framed_push (w : World) (d : Nat) (programs rest : List Op) :
    w.push card (w.attempts card ((framed d (must programs ++ may rest)).map Step.op)) =
      let opened := w.openedBy card d
      let written := opened.push card (opened.attempts card programs)
      let marked := written.push card (written.attempts card rest)
      marked.push card (marked.attempts card [.spare d (0x3f#8 ++ 0xffffff#24) 0xffff#16]) := by
  simp only [framed, List.map_append, map_op_may, map_op_must, List.append_assoc, attempts_append,
    push_push, World.openedBy]

/-- No operation of the script that the driver minds fails, from this world on. -/
def World.Clean (card : Card) (w : World) (steps : List (Step Op)) : Prop :=
  firstFailure card.report Outcome.isOk w.log.length steps = none

theorem clean_may (w : World) (ops : List Op) (steps : List (Step Op)) :
    w.Clean card (may ops ++ steps) ↔ (w.push card (w.attempts card ops)).Clean card steps := by
  rw [World.Clean, firstFailure_append, firstFailure_of_may]
  simp [World.Clean, World.attempts]

theorem clean_must (w : World) (ops : List Op) (steps : List (Step Op)) :
    w.Clean card (must ops ++ steps) ↔ verdict (w.attempts card ops) = .noErr ∧
      (w.push card (w.attempts card ops)).Clean card steps := by
  rw [World.Clean, firstFailure_append, ← firstFailure_must_verdict]
  cases firstFailure card.report Outcome.isOk w.log.length (must ops) with
  | some i => simp
  | none => simp [World.Clean, World.attempts]

theorem clean_framed (w : World) (d : Nat) (steps : List (Step Op)) :
    w.Clean card (framed d steps) ↔ (w.openedBy card d).Clean card
      (steps ++ may [.spare d (0x3f#8 ++ 0xffffff#24) 0xffff#16]) :=
  clean_may _ _ _

theorem clean_end (w : World) (ops : List Op) : w.Clean card (may ops) :=
  firstFailure_of_may _ _

theorem push_attempts_append (w : World) (xs ys : List Op) :
    w.push card (w.attempts card (xs ++ ys)) = (w.push card (w.attempts card xs)).push card
      ((w.push card (w.attempts card xs)).attempts card ys) := by
  rw [attempts_append, push_push]

theorem retire_run (old : Option Nat) (minds : Bool) (w : World) :
    retire card old minds w =
      match old with
      | none => some (.noErr, w)
      | some p =>
        let es := w.attempts card [.erase p]
        if minds ∧ verdict es ≠ .noErr then some (verdict es, w.push card es)
        else smAddFreeBlock card 0 p false (w.push card es) := by
  cases old with
  | none => rfl
  | some p =>
    rw [retire, fmiSMBlockErase, bind_of_run (issue_run _ _), ite_run]
    rfl

theorem smAddFreeBlock_total (b : Nat) (flag : Bool) (w : World) :
    ∃ s w', smAddFreeBlock card 0 b flag w = some (s, w') := by
  rw [smAddFreeBlock_run]
  split
  · exact ⟨_, _, rfl⟩
  · exact ⟨_, _, rfl⟩

theorem retire_total (old : Option Nat) (minds : Bool) (w : World) :
    ∃ s w', retire card old minds w = some (s, w') := by
  rw [retire_run]
  cases old with
  | none => exact ⟨_, _, rfl⟩
  | some p =>
    simp only
    split
    · exact ⟨_, _, rfl⟩
    · exact smAddFreeBlock_total _ _ _

/-! ### The branches of `update_block_data` -/

section
variable {w : World} {block fb : Nat}

theorem write512_run {blockAddr : BitVec 16} {page count : Nat} (some : count ≠ 0)
    (buff : Nat → Sector) (mark : BitVec 32) (w : World) :
    fmiSMWrite512 card blockAddr page count buff mark w =
      let es := w.attempts card (programs512 blockAddr page count buff mark)
      Option.some (verdict es, w.push card (upToFailure Outcome.isOk es)) := by
  rw [fmiSMWrite512, ite_run, if_neg some]
  exact issueAll_run _ _

end

end Rovio.Nand
