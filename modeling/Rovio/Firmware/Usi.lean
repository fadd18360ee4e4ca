import Mathlib

/-! The serial flash behind its cache of one sector. Every byte of the flash is marked with what it
belongs to: what was there before a transfer, the transfer, or nothing. Operations on the flash are
counted, and each of them works or has no effect; of a power cut after `k` operations no later
one has. -/
namespace Rovio.Firmware

inductive Origin where
  | erased | previous | transfer
  deriving DecidableEq

structure Cell where
  byte : UInt8
  origin : Origin
  deriving DecidableEq

abbrev Flash := Nat → Cell

def blank : Cell := ⟨0xFF, .erased⟩

/-- Programming clears bits; a cell that was not blank belongs to nothing after it. -/
def Cell.program (old new : Cell) : Cell :=
  ⟨old.byte &&& new.byte, if old = blank then new.origin else .erased⟩

@[simp] theorem blank_program (new : Cell) : blank.program new = new := by
  have ones : (0xFF : UInt8) &&& new.byte = new.byte := UInt8.neg_one_and
  simp only [Cell.program, blank, if_true, ones]

/-- ERASE_SEC. -/
def eraseSec : Nat := 65536

structure Chip where
  flash : Flash
  ops : Nat

def usiEraseSector (works : Nat → Bool) (chip : Chip) (addr : Nat) : Chip where
  flash := if works chip.ops then
      fun a => if addr ≤ a ∧ a < addr + eraseSec then blank else chip.flash a
    else chip.flash
  ops := chip.ops + 1

/-- One page. -/
def usiWrite (works : Nat → Bool) (chip : Chip) (addr : Nat) (buf : Nat → Cell) : Chip where
  flash := if works chip.ops then
      fun a => if addr ≤ a ∧ a < addr + 256 then (chip.flash a).program (buf (a - addr))
        else chip.flash a
    else chip.flash
  ops := chip.ops + 1

/-- The chip with `g_uUSICacheAddr` and `g_uUSI_BUF`. -/
structure Usi where
  chip : Chip
  g_uUSICacheAddr : Option Nat
  g_uUSI_BUF : Nat → Cell

/-- The reports of the chip are not looked at. -/
def usiMyFlash (works : Nat → Bool) (s : Usi) : Usi :=
  match s.g_uUSICacheAddr with
  | none => s
  | some addr =>
    { s with
      chip := (List.range 256).foldl
        (fun chip j => usiWrite works chip (addr + 256 * j) fun i => s.g_uUSI_BUF (256 * j + i))
        (usiEraseSector works s.chip addr)
      g_uUSICacheAddr := none }

/-- A sector comes into the cache. -/
def usiLoad (works : Nat → Bool) (s : Usi) (block : Nat) : Usi :=
  if s.g_uUSICacheAddr = some block then s
  else
    let s := usiMyFlash works s
    { s with g_uUSICacheAddr := some block, g_uUSI_BUF := fun i => s.chip.flash (block + i) }

/-- Bytes put over what is there. -/
def overwrite (there : Nat → Cell) (addr : Nat) (bytes : List Cell) : Nat → Cell :=
  fun a => if addr ≤ a then bytes[a - addr]?.getD (there a) else there a

/-- Sector by sector. -/
def usiMyWrite (works : Nat → Bool) (s : Usi) (addr : Nat) (buf : List Cell) : Usi :=
  if buf = [] then s
  else
    let pos := addr % eraseSec
    let s := usiLoad works s (addr - pos)
    let copy_len := min buf.length (eraseSec - pos)
    usiMyWrite works
      { s with g_uUSI_BUF := overwrite s.g_uUSI_BUF pos (buf.take copy_len) }
      (addr + copy_len) (buf.drop copy_len)
  termination_by buf.length
  decreasing_by
    have some : 0 < buf.length := List.length_pos_iff.mpr ‹_›
    have inside : addr % eraseSec < eraseSec := Nat.mod_lt _ (by decide)
    rw [List.length_drop]
    omega

theorem overwrite_outside {there : Nat → Cell} {addr a : Nat} {bytes : List Cell}
    (outside : a < addr ∨ addr + bytes.length ≤ a) : overwrite there addr bytes a = there a := by
  unfold overwrite
  split
  · rw [List.getElem?_eq_none (by omega)]
    rfl
  · rfl

theorem overwrite_inside {there : Nat → Cell} {addr i : Nat} {bytes : List Cell}
    (inside : i < bytes.length) : overwrite there addr bytes (addr + i) = bytes[i] := by
  unfold overwrite
  rw [if_pos (Nat.le_add_right _ _), Nat.add_sub_cancel_left, List.getElem?_eq_getElem inside]
  rfl

/-- The calls that a transfer makes. -/
inductive Call where
  | usiMyWrite (addr : Nat) (buf : List Cell)
  | usiMyFlash

def Call.run (works : Nat → Bool) (s : Usi) : Call → Usi
  | .usiMyWrite addr buf => Firmware.usiMyWrite works s addr buf
  | .usiMyFlash => Firmware.usiMyFlash works s

def runCalls (works : Nat → Bool) (s : Usi) (calls : List Call) : Usi :=
  calls.foldl (Call.run works) s

/-- Writes each of which goes on where the one before it ends. -/
def consecutive (addr : Nat) : List (List Cell) → List Call
  | [] => []
  | buf :: rest => .usiMyWrite addr buf :: consecutive (addr + buf.length) rest

theorem consecutive_append (addr : Nat) (left right : List (List Cell)) :
    consecutive addr (left ++ right) =
      consecutive addr left ++ consecutive (addr + left.flatten.length) right := by
  induction left generalizing addr with
  | nil => rfl
  | cons buf rest ih =>
    rw [List.cons_append, consecutive, ih, List.flatten_cons, List.length_append, Nat.add_assoc]
    rfl

/-! ### A sector written back -/

variable {works : Nat → Bool}

theorem pages_programmed (chip : Chip) (addr m : Nat) (buf : Nat → Cell) :
    let after := (List.range m).foldl
      (fun chip j => usiWrite works chip (addr + 256 * j) fun i => buf (256 * j + i)) chip
    after.ops = chip.ops + m ∧ ∀ a, after.flash a =
      if addr ≤ a ∧ a < addr + 256 * m ∧ works (chip.ops + (a - addr) / 256) then
        (chip.flash a).program (buf (a - addr))
      else chip.flash a := by
  induction m with
  | zero =>
    refine ⟨rfl, fun a => ?_⟩
    rw [if_neg (by omega)]
    rfl
  | succ m ih =>
    obtain ⟨ops, flash⟩ := ih
    simp only [List.range_succ, List.foldl_append, List.foldl_cons, List.foldl_nil]
    generalize (List.range m).foldl
      (fun chip j => usiWrite works chip (addr + 256 * j) fun i => buf (256 * j + i)) chip =
        done at ops flash ⊢
    refine ⟨by simp only [usiWrite, ops]; omega, fun a => ?_⟩
    simp only [usiWrite, ops]
    by_cases here : addr + 256 * m ≤ a ∧ a < addr + 256 * m + 256
    · have number : (a - addr) / 256 = m := by omega
      have offset : 256 * m + (a - (addr + 256 * m)) = a - addr := by omega
      have untouched : done.flash a = chip.flash a := by
        rw [flash, if_neg (by omega)]
      cases work : works (chip.ops + m) with
      | true =>
        rw [if_pos rfl, if_pos here, number, work, if_pos ⟨by omega, by omega, rfl⟩, untouched,
          offset]
      | false =>
        rw [if_neg Bool.false_ne_true, number, work, if_neg fun all => Bool.false_ne_true all.2.2,
          untouched]
    · have same : done.flash a =
          if addr ≤ a ∧ a < addr + 256 * (m + 1) ∧ works (chip.ops + (a - addr) / 256) then
            (chip.flash a).program (buf (a - addr))
          else chip.flash a := by
        rw [flash]
        refine if_congr ⟨?_, ?_⟩ rfl rfl
        · rintro ⟨low, high, work⟩
          exact ⟨low, by omega, work⟩
        · rintro ⟨low, high, work⟩
          exact ⟨low, by omega, work⟩
      cases works (chip.ops + m) with
      | true => exact (if_neg here).trans same
      | false => exact same

/-- Of the sector's pages those are there whose program worked; of the others, it is as the erase
left it. -/
theorem usiMyFlash_run {s : Usi} {addr : Nat} (cached : s.g_uUSICacheAddr = some addr) :
    (usiMyFlash works s).g_uUSICacheAddr = none ∧
      (usiMyFlash works s).chip.ops = s.chip.ops + 257 ∧
      ∀ a, (usiMyFlash works s).chip.flash a =
        if addr ≤ a ∧ a < addr + eraseSec then
          let erased := if works s.chip.ops then blank else s.chip.flash a
          if works (s.chip.ops + 1 + (a - addr) / 256) then erased.program (s.g_uUSI_BUF (a - addr))
          else erased
        else s.chip.flash a := by
  obtain ⟨ops, flash⟩ :=
    @pages_programmed works (usiEraseSector works s.chip addr) addr 256 s.g_uUSI_BUF
  have count : (usiEraseSector works s.chip addr).ops = s.chip.ops + 1 := rfl
  have sector : eraseSec = 65536 := rfl
  simp only [count] at ops flash
  simp only [usiMyFlash, cached]
  refine ⟨trivial, ops, fun a => ?_⟩
  rw [flash]
  by_cases inside : addr ≤ a ∧ a < addr + eraseSec
  · have erased : (usiEraseSector works s.chip addr).flash a =
        if works s.chip.ops then blank else s.chip.flash a := by
      unfold usiEraseSector
      cases works s.chip.ops with
      | true => exact if_pos inside
      | false => rfl
    rw [if_pos inside, erased]
    refine if_congr ⟨fun page => page.2.2, fun work => ⟨inside.1, ?_, work⟩⟩ rfl rfl
    omega
  · have kept : (usiEraseSector works s.chip addr).flash a = s.chip.flash a := by
      unfold usiEraseSector
      cases works s.chip.ops with
      | true => exact if_neg inside
      | false => rfl
    rw [if_neg (by omega), if_neg inside, kept]

/-! ### A power cut -/

/-- The operations before the power cut work. -/
def before (k : Nat) : Nat → Bool := fun i => i < k

variable {k : Nat}

/-- A sector written back. Of a power cut meanwhile, the pages before it are there, and the
others are erased. -/
theorem usiMyFlash_cut {s : Usi} {addr : Nat} (cached : s.g_uUSICacheAddr = some addr) :
    (usiMyFlash (before k) s).g_uUSICacheAddr = none ∧
      (usiMyFlash (before k) s).chip.ops = s.chip.ops + 257 ∧
      ∀ a, (usiMyFlash (before k) s).chip.flash a =
        if addr ≤ a ∧ a < addr + eraseSec then
          if s.chip.ops + 1 + (a - addr) / 256 < k then s.g_uUSI_BUF (a - addr)
          else if s.chip.ops < k then blank else s.chip.flash a
        else s.chip.flash a := by
  obtain ⟨empty, ops, flash⟩ := @usiMyFlash_run (before k) s addr cached
  refine ⟨empty, ops, fun a => ?_⟩
  rw [flash]
  refine if_congr Iff.rfl ?_ rfl
  simp only [before, decide_eq_true_eq]
  by_cases page : s.chip.ops + 1 + (a - addr) / 256 < k
  · rw [if_pos page, if_pos page, if_pos (by omega), blank_program]
  · rw [if_neg page, if_neg page]

end Rovio.Firmware
