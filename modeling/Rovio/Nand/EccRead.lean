import Rovio.Nand.Ecc
import Rovio.Nand.Update

/-! `fmiSM_Read_2K` with the codes of its four areas, and what `get_page_data` and `get_block_data`
make of its answer. -/
namespace Rovio.Nand

/-- The buffer and the registers after the transfer of a page: the spare bytes as words, and the
codes that the controller has computed. -/
structure EccPage where
  data : Nat → BitVec 8
  smra : Nat → BitVec 32
  smecc : Nat → BitVec 32

inductive ReadStatus where
  | noErr
  | emptyBlock
  | eccError
deriving DecidableEq

namespace EccPage

variable (page : EccPage)

/-- The stored code of area `k`, as `fmiSM_Read_2K` puts it together. -/
def eccRa (k : Nat) : BitVec 32 :=
  ((page.smra (4 * k + 3) <<< 8) ||| (page.smra (4 * k + 2) >>> 24)) &&& 0xffffff#32

def area (data : Nat → BitVec 8) (k : Nat) : Nat → BitVec 8 := fun i => data (512 * k + i)

def setArea (data : Nat → BitVec 8) (k : Nat) (bytes : Nat → BitVec 8) : Nat → BitVec 8 :=
  fun a => if 512 * k ≤ a ∧ a < 512 * k + 512 then bytes (a - 512 * k) else data a

/-- `correct_data` with the codes of area `k`. -/
def correctArea (data : Nat → BitVec 8) (k : Nat) : EccStatus × (Nat → BitVec 8) :=
  correctData true (area data k) ((page.smra (4 * k + 3)).truncate 8)
    ((page.smra (4 * k + 2) >>> 24).truncate 8) ((page.smra (4 * k + 3) >>> 8).truncate 8)
    (page.smecc k)

/-- `fmiSM_ECC_Correct`: a correction is no error. -/
def eccCorrectArea (data : Nat → BitVec 8) (k : Nat) : Bool × (Nat → BitVec 8) :=
  let (status, bytes) := page.correctArea data k
  (status ≠ .uncorrect, setArea data k bytes)

/-- The checks of the areas from `k` on. All of them compare with REG_SMECC0. -/
def checkAreas : Nat → Nat → (Nat → BitVec 8) → ReadStatus × (Nat → BitVec 8)
  | 0, _, data => (.noErr, data)
  | left + 1, k, data =>
    if page.smecc 0 ≠ page.eccRa k then
      let (ok, data) := page.eccCorrectArea data k
      if ok then checkAreas left (k + 1) data else (.eccError, data)
    else checkAreas left (k + 1) data

def fmiSMRead2K : ReadStatus × (Nat → BitVec 8) := page.checkAreas 4 0 page.data

end EccPage

/-- What is in the buffer after `get_page_data`, which has no result. `fmiSM_Read_1` is a plain
transfer. -/
def getPageData (page : EccPage) (rsector secCount pBuf : Nat) (buff : Nat → BitVec 8) :
    Nat → BitVec 8 :=
  let data := if secCount = 4 then page.fmiSMRead2K.2 else page.data
  fun a =>
    if 512 * pBuf ≤ a ∧ a < 512 * pBuf + 512 * secCount then data (512 * rsector + (a - 512 * pBuf))
    else buff a

def getPages (chip : Nat → EccPage) : Nat → List (Nat × Nat) → Nat → (Nat → BitVec 8) →
    Nat → BitVec 8
  | _, [], _, buff => buff
  | psector, (rsector, sectorCount) :: rest, pBuf, buff =>
    getPages chip (psector + 1) rest (pBuf + sectorCount)
      (getPageData (chip psector) rsector sectorCount pBuf buff)

/-- `get_block_data` of a card with 2K pages, with the entry of the table for the block. -/
def getBlockData2K (chip : Nat → EccPage) (uPagePerBlock : Nat) (l2p : Option Nat)
    (sector secCount : Nat) (buff : Nat → BitVec 8) : ReadStatus × (Nat → BitVec 8) :=
  match l2p with
  | none => (.emptyBlock, buff)
  | some pblock =>
    (.noErr, getPages chip (pblock * uPagePerBlock + sector / 4) (pageRuns (sector % 4) secCount) 0
      buff)

/-! ### The areas of a page -/

namespace EccPage

variable {page : EccPage} {data : Nat → BitVec 8} {k left : Nat}

/-- What the area's own codes make of it. -/
def own (page : EccPage) (k : Nat) : EccStatus × (Nat → BitVec 8) := page.correctArea page.data k

/-- Every area is corrected with its own codes, or the page is reported. -/
def Integral (page : EccPage) : Prop :=
  ((∃ k < 4, (page.own k).1 = .uncorrect) → page.fmiSMRead2K.1 = .eccError) ∧
  ((∀ k < 4, (page.own k).1 ≠ .uncorrect) → page.fmiSMRead2K.1 = .noErr ∧
    ∀ k < 4, ∀ i < 512, area page.fmiSMRead2K.2 k i = (page.own k).2 i)

/-- No area is beyond correction, and one that is not looked at, since its stored code is what the
controller has computed of the first area, has no error. -/
def Clean (page : EccPage) : Prop :=
  ∀ k < 4, (page.own k).1 ≠ .uncorrect ∧
    (page.smecc 0 = page.eccRa k → (page.own k).1 = .noErr)

/-- What the codes of an area do to it, whatever it holds. -/
def Masked (page : EccPage) (k : Nat) (status : EccStatus) (mask : Nat → BitVec 8) : Prop :=
  (∀ data, page.correctArea data k = (status, fun i => area data k i ^^^ mask i)) ∧
    (status = .correct → ∃ i < 512, mask i ≠ 0) ∧ (status ≠ .correct → mask = fun _ => 0)

end EccPage

/-- The loops gather no more bits than they have turns. -/
theorem markBits_lt {w : Nat} (d : BitVec 32) (c low : Nat) (room : 2 * (c + low) + 3 < 32)
    (wide : c < w) :
    (markBits d (c + 1) (BitVec.twoPow 32 (2 * (c + low) + 3)) (BitVec.twoPow w c) 0).1.toNat <
      2 ^ (c + 1) := by
  obtain ⟨-, bits⟩ := markBits_bits d c low 0 room wide
  apply Nat.lt_pow_two_of_testBit
  intro j high
  rw [BitVec.testBit_toNat, bits j, decide_eq_false (by omega)]
  simp

theorem one_shifted : ∀ n < 8, 1#8 <<< n ≠ 0 := by decide

/-- The corrected byte is one of the area. -/
theorem correctWord_mask (d : BitVec 32) : ∃ status mask,
    (∀ data, correctWord true d data = (status, fun i => data i ^^^ mask i)) ∧
      (status = .correct → ∃ i < 512, mask i ≠ 0) ∧ (status ≠ .correct → mask = fun _ => 0) := by
  have none (data : Nat → BitVec 8) : data = fun i => data i ^^^ 0 := by
    funext i
    exact BitVec.xor_zero.symm
  unfold correctWord
  split
  · exact ⟨.noErr, fun _ => 0, fun data => congrArg _ (none data), by rintro ⟨⟩, fun _ => rfl⟩
  split
  · obtain ⟨l, -⟩ := markBits_bits (w := 32) d 8 3 0 (by decide) (by decide)
    have byte := markBits_lt (w := 32) d 8 3 (by decide) (by decide)
    have bit := markBits_lt (w := 8) d 2 0 (by decide) (by decide)
    have loop : markBits (w := 32) d 9 0x02000000 0x100 0 =
        markBits (w := 32) d (8 + 1) (BitVec.twoPow 32 (2 * (8 + 3) + 3)) (BitVec.twoPow 32 8) 0 :=
      rfl
    have inner : markBits (w := 8) d 3 (BitVec.twoPow 32 (2 * 3 + 1)) 0x04 0 =
        markBits (w := 8) d (2 + 1) (BitVec.twoPow 32 (2 * (2 + 0) + 3)) (BitVec.twoPow 8 2) 0 :=
      rfl
    simp only [if_true, loop]
    rw [l, inner]
    generalize (markBits (w := 32) d _ _ _ 0).1.toNat = add at byte
    generalize (markBits (w := 8) d _ _ _ 0).1.toNat = shift at bit
    refine ⟨.correct, fun i => if i = add then 1#8 <<< shift else 0, fun data => ?_, fun _ => ?_,
      fun other => absurd rfl other⟩
    · congr 1
      funext i
      dsimp only
      rcases eq_or_ne i add with rfl | other
      · rw [Function.update_self, if_pos rfl]
      · rw [Function.update_of_ne other, if_neg other]
        exact BitVec.xor_zero.symm
    · refine ⟨add, byte, ?_⟩
      dsimp only
      rw [if_pos rfl]
      exact one_shifted shift bit
  · exact ⟨.uncorrect, fun _ => 0, fun data => congrArg _ (none data), by rintro ⟨⟩, fun _ => rfl⟩

namespace EccPage

variable {page : EccPage} {data : Nat → BitVec 8} {k left : Nat}

theorem masked (page : EccPage) (k : Nat) : ∃ status mask, page.Masked k status mask := by
  obtain ⟨status, mask, all, flips, still⟩ := correctWord_mask (eccWord true
    ((page.smra (4 * k + 3)).truncate 8 ^^^ (page.smecc k >>> 8).truncate 8)
    ((page.smra (4 * k + 2) >>> 24).truncate 8 ^^^ (page.smecc k).truncate 8)
    ((page.smra (4 * k + 3) >>> 8).truncate 8 ^^^ (page.smecc k >>> 16).truncate 8))
  exact ⟨status, mask, fun data => all (area data k), flips, still⟩

theorem area_setArea {bytes : Nat → BitVec 8} {j i : Nat} (small : i < 512) :
    area (setArea data k bytes) j i = if j = k then bytes i else area data j i := by
  unfold area setArea
  rcases eq_or_ne j k with rfl | other
  · rw [if_pos (by omega), if_pos rfl, Nat.add_sub_cancel_left]
  · rw [if_neg (by omega), if_neg other]

variable {status : Nat → EccStatus} {mask : Nat → Nat → BitVec 8}

/-- A check answers by the codes alone. -/
theorem eccCorrectArea_masked (own : page.Masked k (status k) (mask k)) :
    page.eccCorrectArea data k =
      (decide (status k ≠ .uncorrect), setArea data k fun i => area data k i ^^^ mask k i) := by
  rw [eccCorrectArea, own.1 data]

theorem checkAreas_reports (own : ∀ k, page.Masked k (status k) (mask k)) (left k : Nat)
    (data : Nat → BitVec 8) :
    (page.checkAreas left k data).1 = .noErr ∧
        (∀ j, k ≤ j → j < k + left → page.smecc 0 ≠ page.eccRa j → status j ≠ .uncorrect) ∨
      (page.checkAreas left k data).1 = .eccError ∧
        ∃ j, k ≤ j ∧ j < k + left ∧ page.smecc 0 ≠ page.eccRa j ∧ status j = .uncorrect := by
  induction left generalizing k data with
  | zero => exact .inl ⟨rfl, fun j low high => absurd high (Nat.not_lt_of_le low)⟩
  | succ left ih =>
    rw [checkAreas]
    have rest (data : Nat → BitVec 8)
        (first : page.smecc 0 ≠ page.eccRa k → status k ≠ .uncorrect) :
        (page.checkAreas left (k + 1) data).1 = .noErr ∧
            (∀ j, k ≤ j → j < k + (left + 1) → page.smecc 0 ≠ page.eccRa j →
              status j ≠ .uncorrect) ∨
          (page.checkAreas left (k + 1) data).1 = .eccError ∧
            ∃ j, k ≤ j ∧ j < k + (left + 1) ∧ page.smecc 0 ≠ page.eccRa j ∧
              status j = .uncorrect := by
      rcases ih (k + 1) data with ⟨ok, good⟩ | ⟨error, j, low, high, found⟩
      · refine .inl ⟨ok, fun j low high => ?_⟩
        rcases Nat.eq_or_lt_of_le low with rfl | later
        · exact first
        · exact good j later (by omega)
      · exact .inr ⟨error, j, by omega, by omega, found⟩
    split
    case isFalse same =>
      exact rest data fun differs => absurd differs same
    case isTrue differs =>
      rw [eccCorrectArea_masked (own k)]
      dsimp only
      split
      case isTrue ok =>
        exact rest _ fun _ => of_decide_eq_true ok
      case isFalse bad =>
        refine .inr ⟨rfl, k, Nat.le_refl k, by omega, differs, ?_⟩
        exact Decidable.of_not_not fun ok => bad (decide_eq_true ok)

theorem behind_first {P : Prop} {j : Nat} (other : j ≠ k) :
    k + 1 ≤ j ∧ j < k + 1 + left ∧ P ↔ k ≤ j ∧ j < k + (left + 1) ∧ P := by
  constructor
  · rintro ⟨low, high, rest⟩
    exact ⟨by omega, by omega, rest⟩
  · rintro ⟨low, high, rest⟩
    exact ⟨by omega, by omega, rest⟩

/-- Without a report, the areas that were looked at are corrected and the others left alone. -/
theorem checkAreas_areas (own : ∀ k, page.Masked k (status k) (mask k))
    (ok : (page.checkAreas left k data).1 = .noErr) {j i : Nat} (small : i < 512) :
    area (page.checkAreas left k data).2 j i =
      if k ≤ j ∧ j < k + left ∧ page.smecc 0 ≠ page.eccRa j then area data j i ^^^ mask j i
      else area data j i := by
  induction left generalizing k data with
  | zero => rw [checkAreas, if_neg (by omega)]
  | succ left ih =>
    rw [checkAreas] at ok ⊢
    split at ok
    case isFalse same =>
      rw [if_neg same, ih ok]
      rcases eq_or_ne j k with rfl | other
      · rw [if_neg (by omega), if_neg fun all => same all.2.2]
      · exact if_congr (behind_first other) rfl rfl
    case isTrue differs =>
      rw [if_pos differs]
      rw [eccCorrectArea_masked (own k)] at ok ⊢
      dsimp only at ok ⊢
      split at ok
      case isFalse => cases ok
      case isTrue good =>
        rw [if_pos good, ih ok, area_setArea small]
        rcases eq_or_ne j k with rfl | other
        · rw [if_neg (by omega), if_pos rfl, if_pos ⟨Nat.le_refl j, by omega, differs⟩]
        · rw [if_neg other]
          exact if_congr (behind_first other) rfl rfl

theorem own_masked {own : EccStatus} {bits : Nat → BitVec 8} (masked : page.Masked k own bits) :
    page.own k = (own, fun i => area page.data k i ^^^ bits i) := masked.1 page.data

/-- A page is read with integrity and without a report where it is clean. -/
theorem clean_iff : page.Integral ∧ page.fmiSMRead2K.1 ≠ .eccError ↔ page.Clean := by
  choose status mask own using page.masked
  have reports := checkAreas_reports own 4 0 page.data
  constructor
  · rintro ⟨⟨reported, corrected⟩, silent⟩
    have good (k : Nat) (below : k < 4) : (page.own k).1 ≠ .uncorrect :=
      fun bad => silent (reported ⟨k, below, bad⟩)
    obtain ⟨ok, areas⟩ := corrected good
    refine fun k below => ⟨good k below, fun same => ?_⟩
    have still (i : Nat) (small : i < 512) : mask k i = 0 := by
      have after := areas k below i small
      rw [fmiSMRead2K, checkAreas_areas own ok small, if_neg fun all => all.2.2 same,
        own_masked (own k)] at after
      exact BitVec.xor_right_inj (area page.data k i) |>.mp
        (after.symm.trans BitVec.xor_zero.symm)
    have kept : (page.own k).1 ≠ .correct := by
      intro corrects
      rw [own_masked (own k)] at corrects
      obtain ⟨i, small, differs⟩ := (own k).2.1 corrects
      exact differs (still i small)
    cases answer : (page.own k).1 with
    | noErr => rfl
    | correct => exact absurd answer kept
    | uncorrect => exact absurd answer (good k below)
  · intro clean
    have good (k : Nat) (below : k < 4) : status k ≠ .uncorrect := by
      have fine := (clean k below).1
      rwa [own_masked (own k)] at fine
    rcases reports with ⟨ok, -⟩ | ⟨-, j, -, high, -, bad⟩
    · refine ⟨⟨fun ⟨k, below, bad⟩ => absurd bad (clean k below).1, fun _ => ⟨ok, ?_⟩⟩, ?_⟩
      · intro k below i small
        rw [fmiSMRead2K, checkAreas_areas own ok small, own_masked (own k)]
        dsimp only
        split
        · rfl
        case isFalse skipped =>
          have same : page.smecc 0 = page.eccRa k := by
            by_contra differs
            exact skipped ⟨Nat.zero_le k, by omega, differs⟩
          have none := (clean k below).2 same
          rw [own_masked (own k)] at none
          have zero := (own k).2.2 (by rw [show status k = .noErr from none]; rintro ⟨⟩)
          rw [zero]
          exact BitVec.xor_zero.symm
      · intro error
        cases ok.symm.trans error
    · exact absurd bad (good j (by omega))

end EccPage

/-! ### Requests -/

/-- The pages that a request reads whole. -/
def readWhole (chip : Nat → EccPage) : Nat → List (Nat × Nat) → List EccPage
  | _, [] => []
  | psector, (_, sectorCount) :: rest =>
    if sectorCount = 4 then chip psector :: readWhole chip (psector + 1) rest
    else readWhole chip (psector + 1) rest

def wholePages (chip : Nat → EccPage) (uPagePerBlock : Nat) (l2p : Option Nat)
    (sector secCount : Nat) : List EccPage :=
  match l2p with
  | none => []
  | some pblock =>
    readWhole chip (pblock * uPagePerBlock + sector / 4) (pageRuns (sector % 4) secCount)

theorem getBlockData2K_silent (chip : Nat → EccPage) (uPagePerBlock : Nat) (l2p : Option Nat)
    (sector secCount : Nat) (buff : Nat → BitVec 8) :
    (getBlockData2K chip uPagePerBlock l2p sector secCount buff).1 ≠ .eccError := by
  cases l2p with
  | none => rintro ⟨⟩
  | some pblock => rintro ⟨⟩

/-- A request corrects the areas of its whole pages or reports them to the caller exactly where
the pages are clean: a report goes nowhere. -/
theorem read_integrity (chip : Nat → EccPage) (uPagePerBlock : Nat) (l2p : Option Nat)
    (sector secCount : Nat) (buff : Nat → BitVec 8) :
    (∀ page ∈ wholePages chip uPagePerBlock l2p sector secCount, page.Integral ∧
      (page.fmiSMRead2K.1 = .eccError →
        (getBlockData2K chip uPagePerBlock l2p sector secCount buff).1 = .eccError)) ↔
    ∀ page ∈ wholePages chip uPagePerBlock l2p sector secCount, page.Clean := by
  have silent := getBlockData2K_silent chip uPagePerBlock l2p sector secCount buff
  constructor
  · intro sound page mem
    obtain ⟨integral, reaches⟩ := sound page mem
    exact EccPage.clean_iff.mp ⟨integral, fun error => silent (reaches error)⟩
  · intro clean page mem
    obtain ⟨integral, none⟩ := EccPage.clean_iff.mpr (clean page mem)
    exact ⟨integral, fun error => absurd error none⟩

/-- A page of zeros whose second area is read with its first bit flipped. -/
def secondFlipped : EccPage where
  data := flipBit (fun _ => 0) 4096
  smra _ := 0
  smecc k := if k = 1 then 0x00555555 else 0

theorem second_unseen : secondFlipped.fmiSMRead2K.1 = .noErr ∧ ¬ secondFlipped.Clean := by
  refine ⟨rfl, fun clean => ?_⟩
  have own := (clean 1 (by decide)).2 rfl
  have corrects : (secondFlipped.own 1).1 = .correct := rfl
  cases corrects.symm.trans own

/-- The stored code of the second area is what the controller has computed of the first, so the
area is passed over. -/
theorem second_area_uncorrected : ¬ ∀ page ∈ wholePages (fun _ => secondFlipped) 64 (some 1) 0 4,
    page.Integral ∧ (page.fmiSMRead2K.1 = .eccError →
      (getBlockData2K (fun _ => secondFlipped) 64 (some 1) 0 4 fun _ => 0).1 = .eccError) := by
  intro sound
  obtain ⟨integral, -⟩ := sound secondFlipped (.head _)
  obtain ⟨ok, dirty⟩ := second_unseen
  exact dirty (EccPage.clean_iff.mp ⟨integral, fun error => by cases ok.symm.trans error⟩)

end Rovio.Nand
