import Mathlib.Logic.Function.Basic

/-! A producer/consumer pair: two counting semaphores, of which one is taken and the other given by
each operation. -/
namespace Rovio.Media

/-- TT_PC_T. -/
structure TtPc where
  producer : Nat
  consumer : Nat
  deriving DecidableEq

def ttPcInit (max_produce_count : Nat) : TtPc := ⟨max_produce_count, 0⟩

def ttPcTryProduce (pc : TtPc) : Option TtPc :=
  if 0 < pc.producer then some ⟨pc.producer - 1, pc.consumer + 1⟩ else none

def ttPcTryConsume (pc : TtPc) : Option TtPc :=
  if 0 < pc.consumer then some ⟨pc.producer + 1, pc.consumer - 1⟩ else none

theorem ttPcTryProduce_eq_some {pc pc' : TtPc} :
    ttPcTryProduce pc = some pc' ↔
      pc.producer = pc'.producer + 1 ∧ pc'.consumer = pc.consumer + 1 := by
  obtain ⟨producer, consumer⟩ := pc
  obtain ⟨producer', consumer'⟩ := pc'
  unfold ttPcTryProduce
  split
  · rw [Option.some_inj, TtPc.mk.injEq]
    dsimp only at *
    omega
  · constructor
    · intro h
      cases h
    · intro h
      dsimp only at *
      omega

theorem ttPcTryConsume_eq_some {pc pc' : TtPc} :
    ttPcTryConsume pc = some pc' ↔
      pc.consumer = pc'.consumer + 1 ∧ pc'.producer = pc.producer + 1 := by
  obtain ⟨producer, consumer⟩ := pc
  obtain ⟨producer', consumer'⟩ := pc'
  unfold ttPcTryConsume
  split
  · rw [Option.some_inj, TtPc.mk.injEq]
    dsimp only at *
    omega
  · constructor
    · intro h
      cases h
    · intro h
      dsimp only at *
      omega

end Rovio.Media
