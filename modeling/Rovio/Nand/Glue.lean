import Mathlib.Data.BitVec

/-! The entry points of SMGlue.c: which ranges of sectors they hand on to `fmiSM_Read` and
`fmiSM_Write`. -/
namespace Rovio.Nand

inductive GlueDisk where
  | card
  | partition
deriving DecidableEq

/-- The numbers that `fmiSM_ReadID` leaves. -/
structure Disks where
  uSectorPerFlash : BitVec 32
  uReservedBaseSector : BitVec 32
  uSMReservedSector : BitVec 32

namespace Disks

variable (g : Disks)

/-- A read is handed on as it comes. -/
def readEntry (disk : GlueDisk) (sectorNo numberOfSector : BitVec 32) :
    Option (BitVec 32 × BitVec 32) :=
  match disk with
  | .card => some (sectorNo, numberOfSector)
  | .partition => some (sectorNo + g.uReservedBaseSector, numberOfSector)

/-- A write is handed on, or refused with FMI_SM_FULL. -/
def writeEntry (disk : GlueDisk) (sectorNo numberOfSector : BitVec 32) :
    Option (BitVec 32 × BitVec 32) :=
  match disk with
  | .card =>
    if sectorNo + numberOfSector ≥ g.uSectorPerFlash then none else some (sectorNo, numberOfSector)
  | .partition => some (sectorNo + g.uReservedBaseSector, numberOfSector)

def smDiskRead := g.readEntry

def smDiskWrite := g.writeEntry

def fmiSMReadMass := g.readEntry

def fmiSMWriteMass := g.writeEntry

/-- The sectors of a disk. -/
def totalSector : GlueDisk → BitVec 32
  | .card => g.uSectorPerFlash
  | .partition => g.uSMReservedSector

def InRange (disk : GlueDisk) (sectorNo numberOfSector : BitVec 32) : Prop :=
  ∀ n, sectorNo.toNat ≤ n → n < sectorNo.toNat + numberOfSector.toNat →
    n < (g.totalSector disk).toNat

/-- The range has sectors but does not end with the last one, is empty but begins on the disk, and
its end does not wrap round to a sector of the disk. -/
def Bounded (sectorNo numberOfSector : BitVec 32) : Prop :=
  (numberOfSector.toNat = 0 → sectorNo.toNat < g.uSectorPerFlash.toNat) ∧
  (0 < numberOfSector.toNat →
    sectorNo.toNat + numberOfSector.toNat ≠ g.uSectorPerFlash.toNat) ∧
  (2 ^ 32 ≤ sectorNo.toNat + numberOfSector.toNat →
    g.uSectorPerFlash.toNat ≤ sectorNo.toNat + numberOfSector.toNat - 2 ^ 32)

variable {g} {disk : GlueDisk} {sectorNo numberOfSector : BitVec 32}

theorem inRange_iff : g.InRange disk sectorNo numberOfSector ↔
    numberOfSector.toNat = 0 ∨
      sectorNo.toNat + numberOfSector.toNat ≤ (g.totalSector disk).toNat := by
  constructor
  · intro inside
    rcases Nat.eq_zero_or_pos numberOfSector.toNat with none | some
    · exact .inl none
    · have last := inside (sectorNo.toNat + numberOfSector.toNat - 1) (by omega) (by omega)
      exact .inr (by omega)
  · intro inside n low high
    omega

theorem readEntry_accepts : (g.readEntry disk sectorNo numberOfSector).isSome = true := by
  cases disk <;> rfl

theorem writeEntry_partition :
    (g.writeEntry .partition sectorNo numberOfSector).isSome = true := rfl

theorem writeEntry_card : (g.writeEntry .card sectorNo numberOfSector).isSome = true ↔
    (sectorNo.toNat + numberOfSector.toNat) % 2 ^ 32 < g.uSectorPerFlash.toNat := by
  have sum : (sectorNo + numberOfSector).toNat =
      (sectorNo.toNat + numberOfSector.toNat) % 2 ^ 32 := BitVec.toNat_add ..
  simp only [writeEntry]
  split
  case isTrue full =>
    have full : g.uSectorPerFlash.toNat ≤ (sectorNo + numberOfSector).toNat := full
    exact iff_of_false (by rintro ⟨⟩) (by omega)
  case isFalse less =>
    have less : ¬ g.uSectorPerFlash.toNat ≤ (sectorNo + numberOfSector).toNat := less
    exact iff_of_true rfl (by omega)

theorem writeEntry_exact : ((g.writeEntry .card sectorNo numberOfSector).isSome = true ↔
    g.InRange .card sectorNo numberOfSector) ↔ g.Bounded sectorNo numberOfSector := by
  have sector := sectorNo.isLt
  have number := numberOfSector.isLt
  have total := g.uSectorPerFlash.isLt
  rw [writeEntry_card, inRange_iff, totalSector, Bounded]
  rcases Nat.lt_or_ge (sectorNo.toNat + numberOfSector.toNat) (2 ^ 32) with small | wraps
  · rw [Nat.mod_eq_of_lt small]
    omega
  · have wrapped : (sectorNo.toNat + numberOfSector.toNat) % 2 ^ 32 =
        sectorNo.toNat + numberOfSector.toNat - 2 ^ 32 := by omega
    rw [wrapped]
    omega

theorem entry_exact_of_accepts {entry : Option (BitVec 32 × BitVec 32)}
    (accepts : entry.isSome = true) :
    (entry.isSome = true ↔ g.InRange disk sectorNo numberOfSector) ↔
      g.InRange disk sectorNo numberOfSector :=
  ⟨fun exact_ => exact_.mp accepts, fun inside => iff_of_true accepts inside⟩

/-- A write to the card is accepted as it should be unless it ends with the last sector, is empty
beyond it, or wraps round. The other entries accept everything. -/
theorem entries_check_range (g : Disks) (sectorNo numberOfSector : BitVec 32) :
    (((g.smDiskWrite .card sectorNo numberOfSector).isSome = true ↔
        g.InRange .card sectorNo numberOfSector) ↔ g.Bounded sectorNo numberOfSector) ∧
    (((g.fmiSMWriteMass .card sectorNo numberOfSector).isSome = true ↔
        g.InRange .card sectorNo numberOfSector) ↔ g.Bounded sectorNo numberOfSector) ∧
    (((g.smDiskWrite .partition sectorNo numberOfSector).isSome = true ↔
        g.InRange .partition sectorNo numberOfSector) ↔
      g.InRange .partition sectorNo numberOfSector) ∧
    (((g.fmiSMWriteMass .partition sectorNo numberOfSector).isSome = true ↔
        g.InRange .partition sectorNo numberOfSector) ↔
      g.InRange .partition sectorNo numberOfSector) ∧
    ∀ disk,
      (((g.smDiskRead disk sectorNo numberOfSector).isSome = true ↔
          g.InRange disk sectorNo numberOfSector) ↔ g.InRange disk sectorNo numberOfSector) ∧
      (((g.fmiSMReadMass disk sectorNo numberOfSector).isSome = true ↔
          g.InRange disk sectorNo numberOfSector) ↔ g.InRange disk sectorNo numberOfSector) :=
  ⟨writeEntry_exact, writeEntry_exact, entry_exact_of_accepts writeEntry_partition,
    entry_exact_of_accepts writeEntry_partition, fun _ =>
      ⟨entry_exact_of_accepts readEntry_accepts, entry_exact_of_accepts readEntry_accepts⟩⟩

/-- A card of 31968 sectors, written at the last one. -/
theorem last_sector_refused : ∃ g : Disks, g.InRange .card 31967 1 ∧
    (g.smDiskWrite .card 31967 1).isSome = false ∧
    ¬ g.InRange .card 31968 1 ∧ (g.smDiskRead .card 31968 1).isSome = true := by
  refine ⟨⟨31968, 31968, 0⟩, inRange_iff.mpr (.inr (by decide)), by decide, ?_, rfl⟩
  rw [inRange_iff]
  decide

end Disks

end Rovio.Nand
