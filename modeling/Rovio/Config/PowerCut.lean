import Rovio.Config.Flash
import Rovio.Firmware.Image
import Rovio.Firmware.UsiView
import Rovio.Kit.Bytes

/-! The two areas of the configuration on the chip, and a power cut while one of them is
written. -/
namespace Rovio.Config

open Kit Firmware

/-- The structure in memory. -/
def CameraConfigParam.bytes (c : CameraConfigParam) : List UInt8 :=
  c.front ++ leBytes c.ulCheckSum.toBitVec ++ c.back

def checkSumAt : List UInt8 → UInt32
  | b0 :: b1 :: b2 :: b3 :: _ => ⟨leWord b0 b1 b2 b3⟩
  | _ => 0

/-- `ulCheckSum` is at the offset `front`. -/
def CameraConfigParam.ofBytes (front : Nat) (bytes : List UInt8) : CameraConfigParam where
  front := bytes.take front
  ulCheckSum := checkSumAt (bytes.drop front)
  back := bytes.drop (front + 4)

/-- sizeof (CAMERA_CONFIG_PARAM_T) and FLASH_TOTAL_SIZE. The structure is one of words; both areas
lie in the last sector of the flash. -/
structure Layout where
  size : Nat
  total : Nat
  words : size % 4 = 0
  checked : 4 ≤ size
  room : 2 * ((size + 255) / 256 * 256) ≤ eraseSec
  sectors : total % eraseSec = 0
  chip : eraseSec ≤ total

namespace Layout

def flashConfigSize (l : Layout) : Nat := (l.size + 255) / 256 * 256

def mainAddr (l : Layout) : Nat := l.total - l.flashConfigSize * 2

def defaultAddr (l : Layout) : Nat := l.total - l.flashConfigSize

/-- What is in an area after power-on. -/
def area (l : Layout) (flash : Firmware.Flash) (addr : Nat) : CameraConfigParam :=
  .ofBytes (l.size - 4) (usiMyRead (opened ⟨flash, 0⟩ fun _ => blank) addr l.size)

/-- What `ReadFlashMemory` finds after power-on. -/
def found (l : Layout) (flash : Firmware.Flash) : Option CameraConfigParam :=
  readFlashMemory
    { usiIsReady := true
      g_ConfigParam := l.area flash l.mainAddr
      s_bNotResetCheckSum := false
      mainArea := l.area flash l.mainAddr
      defaultArea := l.area flash l.defaultAddr }

end Layout

/-- The structure ends with `ulCheckSum`. -/
structure Board (l : Layout) where
  usi : Usi
  g_ConfigParam : CameraConfigParam
  s_bNotResetCheckSum : Bool
  aligned : usi.Aligned
  front : g_ConfigParam.front.length + 4 = l.size
  back : g_ConfigParam.back = []

namespace Board

variable {l : Layout}

def renewed (b : Board l) : CameraConfigParam :=
  { b.g_ConfigParam with ulCheckSum := getConfigCheckSum b.g_ConfigParam }

/-- `__WriteFlashMemory` as the calls it makes of the chip. -/
def writeFlashMemory (works : Nat → Bool) (b : Board l) (bResetCheckSum bOnDefaultArea : Bool) :
    Usi :=
  if bResetCheckSum && b.s_bNotResetCheckSum then b.usi
  else
    let c := if bResetCheckSum then b.renewed else b.g_ConfigParam
    let uConfigAddr := if bOnDefaultArea then l.defaultAddr else l.mainAddr
    usiMyFlash works (usiMyWrite works b.usi uConfigAddr (ofTransfer c.bytes))

/-- The flash that a call of `WriteFlashMemory` leaves whose power is cut after `k` operations. -/
def cut (b : Board l) (k : Nat) : Firmware.Flash :=
  (b.writeFlashMemory (before (b.usi.chip.ops + k)) true false).chip.flash

/-- The old configuration is found, or the new one, or the default one. -/
def Survives (b : Board l) (k : Nat) : Prop :=
  ∃ c, l.found (b.cut k) = some c ∧
    (c = l.area b.usi.chip.flash l.mainAddr ∨ c = b.renewed ∨
      c = l.area b.usi.chip.flash l.defaultAddr)

end Board

/-! ### Bytes -/

variable {l : Layout}

theorem bytes_ofBytes {c : CameraConfigParam} {front : Nat} (length : c.front.length = front) :
    CameraConfigParam.ofBytes front c.bytes = c := by
  subst length
  unfold CameraConfigParam.ofBytes CameraConfigParam.bytes
  have sum : checkSumAt ((c.front ++ leBytes c.ulCheckSum.toBitVec ++ c.back).drop c.front.length) =
      c.ulCheckSum := by
    rw [List.append_assoc, List.drop_left]
    simp only [leBytes, List.cons_append, checkSumAt, leWord_leBytes]
  have back : (c.front ++ leBytes c.ulCheckSum.toBitVec ++ c.back).drop (c.front.length + 4) =
      c.back := List.drop_left' (by simp)
  rw [sum, back, List.append_assoc, List.take_left]

theorem area_eq (flash : Firmware.Flash) (addr : Nat) :
    l.area flash addr = .ofBytes (l.size - 4) (bytesAt flash addr l.size) := by
  have aligned : (opened ⟨flash, 0⟩ fun _ => blank).Aligned := by
    rintro block ⟨⟩
  rw [Layout.area, usiMyRead_view aligned]
  rfl

theorem area_congr {flash flash' : Firmware.Flash} {addr : Nat}
    (same : ∀ i < l.size, flash (addr + i) = flash' (addr + i)) :
    l.area flash addr = l.area flash' addr := by
  rw [area_eq, area_eq, bytesAt_congr same]

/-- Sums of multiples of four. -/
theorem add_mod_four {a b : UInt32} (left : a.toNat % 4 = 0) (right : b.toNat % 4 = 0) :
    (a + b).toNat % 4 = 0 := by
  rw [UInt32.toNat_add]
  omega

theorem weigh_erased (i n : Nat) : (weigh i (List.replicate n 0xFF)).toNat % 4 = 0 := by
  induction n generalizing i with
  | zero => rfl
  | succ n ih =>
    rw [List.replicate_succ, weigh]
    refine add_mod_four ?_ (ih (i + 1))
    have ones : ((0xFF : UInt8).toUInt32).toNat = 255 := rfl
    rw [UInt32.toNat_add, UInt32.toNat_mul, ones]
    omega

/-- An erased area holds no configuration. -/
theorem erased_invalid (l : Layout) :
    ¬ (CameraConfigParam.ofBytes (l.size - 4) (List.replicate l.size 0xFF)).Valid := by
  intro valid
  have words := l.words
  have checked := l.checked
  obtain ⟨front, size⟩ : ∃ front, l.size = front + 4 := ⟨l.size - 4, by omega⟩
  have erased : CameraConfigParam.ofBytes (l.size - 4) (List.replicate l.size 0xFF) =
      ⟨List.replicate front 0xFF, 0xFFFFFFFF, []⟩ := by
    rw [size, Nat.add_sub_cancel, CameraConfigParam.ofBytes, List.take_replicate,
      List.drop_replicate, List.drop_replicate, Nat.min_eq_left (Nat.le_add_right _ _),
      Nat.add_sub_cancel_left, Nat.sub_self]
    rfl
  rw [erased] at valid
  have length : (UInt32.ofNat (front + 4)).toNat % 4 = 0 := by
    rw [UInt32.toNat_ofNat']
    omega
  have sum : (getConfigCheckSum ⟨List.replicate front 0xFF, 0xFFFFFFFF, []⟩).toNat % 4 = 0 := by
    rw [getConfigCheckSum]
    simp only [List.length_replicate, List.length_nil, Nat.add_zero]
    exact add_mod_four (add_mod_four (weigh_erased 0 front) rfl) length
  rw [valid] at sum
  have ones : (0xFFFFFFFF : UInt32).toNat % 4 = 3 := rfl
  rw [ones] at sum
  cases sum

/-! ### The last sector -/

namespace Layout

/-- The sector of both areas. -/
def sector (l : Layout) : Nat := l.total - eraseSec

/-- Where the main area is in its sector. -/
def offset (l : Layout) : Nat := eraseSec - 2 * l.flashConfigSize

theorem mainAddr_eq (l : Layout) : l.mainAddr = l.sector + l.offset := by
  have room := l.room
  have chip := l.chip
  unfold mainAddr sector offset flashConfigSize
  omega

theorem defaultAddr_eq (l : Layout) : l.defaultAddr = l.mainAddr + l.flashConfigSize := by
  have room := l.room
  have chip := l.chip
  unfold mainAddr defaultAddr flashConfigSize
  omega

theorem sector_mod (l : Layout) : l.sector % eraseSec = 0 := by
  have sectors := l.sectors
  have chip := l.chip
  unfold sector eraseSec at *
  omega

theorem offset_pages (l : Layout) : l.offset % 256 = 0 := by
  unfold offset flashConfigSize eraseSec
  omega

theorem size_le (l : Layout) : l.size ≤ l.flashConfigSize := by
  unfold flashConfigSize
  omega

theorem areas (l : Layout) : l.offset + 2 * l.flashConfigSize = eraseSec := by
  have room := l.room
  unfold offset flashConfigSize
  omega

theorem mainAddr_mod (l : Layout) : l.mainAddr % eraseSec = l.offset := by
  have sector := l.sector_mod
  have areas := l.areas
  have checked := l.checked
  have size := l.size_le
  rw [mainAddr_eq]
  unfold eraseSec at *
  omega

end Layout

namespace Board

variable {b : Board l} {k : Nat}

/-- The operations before the sector is erased, which are those of another sector's write-back. -/
def toErase (b : Board l) : Nat := b.usi.toLoad l.sector

/-- The operations before the first page of the main area is programmed. -/
def toMain (b : Board l) : Nat := b.toErase + 1 + l.offset / 256

theorem length_bytes (b : Board l) : b.renewed.bytes.length = l.size := by
  have front := b.front
  have back := b.back
  simp only [CameraConfigParam.bytes, renewed, back, List.append_nil, List.length_append,
    length_leBytes]
  exact front

/-- The sector after the power cut. -/
theorem cut_sector (clear : b.s_bNotResetCheckSum = false) : ∃ buf : Nat → Cell,
    ∀ i < eraseSec, b.cut k (l.sector + i) =
      if b.toErase + 1 + i / 256 < k then overwrite buf l.offset (ofTransfer b.renewed.bytes) i
      else if b.toErase < k then blank else b.usi.chip.flash (l.sector + i) := by
  have length := b.length_bytes
  have checked := l.checked
  have some : ofTransfer b.renewed.bytes ≠ [] := by
    intro empty
    have none := congrArg List.length empty
    rw [length_ofTransfer, length, List.length_nil] at none
    omega
  have room : l.mainAddr % eraseSec + (ofTransfer b.renewed.bytes).length ≤ eraseSec := by
    rw [l.mainAddr_mod, length_ofTransfer, length]
    have := l.areas
    have := l.size_le
    omega
  have start : l.mainAddr - l.mainAddr % eraseSec = l.sector := by
    rw [l.mainAddr_mod, l.mainAddr_eq, Nat.add_sub_cancel]
  obtain ⟨ops, flash⟩ :=
    @usiLoad_chip b.usi (before (b.usi.chip.ops + k)) b.aligned l.sector l.sector_mod
  have cached := usiLoad_cached (before (b.usi.chip.ops + k)) b.usi l.sector
  generalize loaded : usiLoad (before (b.usi.chip.ops + k)) b.usi l.sector = s' at ops flash cached
  refine ⟨s'.g_uUSI_BUF, fun i inside => ?_⟩
  obtain ⟨_, _, back⟩ := @usiMyFlash_cut (b.usi.chip.ops + k)
    { s' with g_uUSI_BUF := overwrite s'.g_uUSI_BUF l.offset (ofTransfer b.renewed.bytes) } l.sector
    cached
  have run : b.cut k = (usiMyFlash (before (b.usi.chip.ops + k)) { s' with
      g_uUSI_BUF := overwrite s'.g_uUSI_BUF l.offset (ofTransfer b.renewed.bytes) }).chip.flash := by
    unfold cut writeFlashMemory
    rw [clear, Bool.and_false, if_neg Bool.false_ne_true]
    dsimp only
    rw [if_pos rfl, if_neg Bool.false_ne_true, usiMyWrite_sector some room, start, loaded,
      l.mainAddr_mod]
  rw [run, back, if_pos ⟨Nat.le_add_right _ _, Nat.add_lt_add_left inside _⟩]
  dsimp only
  rw [ops, Nat.add_sub_cancel_left, flash _ (Nat.le_add_right _ _) (Nat.add_lt_add_left inside _)]
  have page : b.usi.chip.ops + b.usi.toLoad l.sector + 1 + i / 256 < b.usi.chip.ops + k ↔
      b.toErase + 1 + i / 256 < k := by
    unfold toErase
    omega
  have erase : b.usi.chip.ops + b.usi.toLoad l.sector < b.usi.chip.ops + k ↔ b.toErase < k := by
    unfold toErase
    omega
  simp only [page, erase]

/-- The bytes of the main area whose pages are programmed. -/
def programmed (b : Board l) (k : Nat) : Nat := 256 * (k - b.toMain)

/-- The main area where the sector is erased: the new configuration as far as it is programmed. -/
def torn (b : Board l) (k : Nat) : List UInt8 :=
  b.renewed.bytes.take (b.programmed k) ++ List.replicate (l.size - b.programmed k) 0xFF

/-- A place in the sector that starts a page. -/
theorem page_at {start : Nat} (page : start % 256 = 0) (i : Nat) :
    (start + i) / 256 = start / 256 + i / 256 := by
  omega

theorem main_cut (clear : b.s_bNotResetCheckSum = false) (erased : b.toErase < k) :
    l.area (b.cut k) l.mainAddr = .ofBytes (l.size - 4) (b.torn k) := by
  obtain ⟨buf, sector⟩ := b.cut_sector clear
  rw [area_eq]
  congr 1
  have length := b.length_bytes
  have areas := l.areas
  have size := l.size_le
  refine List.ext_getElem ?_ fun i left right => ?_
  · simp only [bytesAt, torn, List.length_map, List.length_range, List.length_append,
      List.length_take, List.length_replicate, length]
    omega
  · have inside : i < l.size := by simpa [bytesAt] using left
    have place : l.offset + i < eraseSec := by omega
    have cell := sector (l.offset + i) place
    rw [← Nat.add_assoc, ← l.mainAddr_eq, if_pos erased, page_at l.offset_pages] at cell
    simp only [bytesAt, List.getElem_map, List.getElem_range, cell, torn]
    have there : b.toErase + 1 + (l.offset / 256 + i / 256) < k ↔ i < b.programmed k := by
      unfold programmed toMain
      omega
    by_cases new : i < b.programmed k
    · rw [if_pos (there.mpr new),
        overwrite_inside (by rw [length_ofTransfer, length]; exact inside),
        List.getElem_append_left (by rw [List.length_take, length]; omega), List.getElem_take]
      simp [ofTransfer]
    · rw [if_neg fun h => new (there.mp h),
        List.getElem_append_right (by rw [List.length_take, length]; omega),
        List.getElem_replicate]
      rfl

/-- Where the main area is not complete, the default area is erased too. -/
theorem default_cut (clear : b.s_bNotResetCheckSum = false) (erased : b.toErase < k)
    (part : b.programmed k < l.size) :
    l.area (b.cut k) l.defaultAddr = .ofBytes (l.size - 4) (List.replicate l.size 0xFF) := by
  obtain ⟨buf, sector⟩ := b.cut_sector clear
  rw [area_eq]
  congr 1
  have areas := l.areas
  have size := l.size_le
  refine List.ext_getElem (by simp [bytesAt]) fun i left right => ?_
  have inside : i < l.size := by simpa [bytesAt] using left
  have cell := sector (l.offset + (l.flashConfigSize + i)) (by omega)
  have pages : l.flashConfigSize % 256 = 0 := by
    unfold Layout.flashConfigSize
    omega
  have late : ¬ b.toErase + 1 + (l.offset / 256 + (l.flashConfigSize / 256 + i / 256)) < k := by
    unfold programmed toMain at part
    omega
  rw [page_at l.offset_pages, page_at pages, if_neg late, if_pos erased, ← Nat.add_assoc,
    ← Nat.add_assoc, ← l.mainAddr_eq, ← l.defaultAddr_eq] at cell
  simp only [bytesAt, List.getElem_map, List.getElem_range, List.getElem_replicate, cell]
  rfl

/-- Before the erase both areas are as they were. -/
theorem area_kept (clear : b.s_bNotResetCheckSum = false) (early : ¬ b.toErase < k) {addr i : Nat}
    (start : addr = l.sector + i) (inside : i + l.size ≤ eraseSec) :
    l.area (b.cut k) addr = l.area b.usi.chip.flash addr := by
  obtain ⟨buf, sector⟩ := b.cut_sector clear
  refine area_congr fun j small => ?_
  have cell := sector (i + j) (by omega)
  have page : ¬ b.toErase + 1 + (i + j) / 256 < k := by omega
  rw [if_neg page, if_neg early, ← Nat.add_assoc, ← start] at cell
  exact cell

/-- The new configuration as far as it is programmed, with 0xff behind, has a right checksum and is
the old, the new or the default one. -/
def Lucky (b : Board l) (k : Nat) : Prop :=
  let c := CameraConfigParam.ofBytes (l.size - 4) (b.torn k)
  c.Valid ∧ (c = l.area b.usi.chip.flash l.mainAddr ∨ c = b.renewed ∨
    c = l.area b.usi.chip.flash l.defaultAddr)

theorem renewed_valid (b : Board l) : b.renewed.Valid := rfl

/-- Both areas are as they were. -/
theorem survives_of_kept
    (main : l.area (b.cut k) l.mainAddr = l.area b.usi.chip.flash l.mainAddr)
    (default : l.area (b.cut k) l.defaultAddr = l.area b.usi.chip.flash l.defaultAddr)
    (valid : (l.area b.usi.chip.flash l.mainAddr).Valid ∨
      (l.area b.usi.chip.flash l.defaultAddr).Valid) : b.Survives k := by
  unfold Survives Layout.found readFlashMemory
  rw [main, default]
  dsimp only
  by_cases old : (l.area b.usi.chip.flash l.mainAddr).Valid
  · rw [if_pos rfl, if_pos old, if_pos old]
    exact ⟨_, rfl, .inl rfl⟩
  · rw [if_pos rfl, if_neg old, if_pos (valid.resolve_left old)]
    exact ⟨_, rfl, .inr (.inr rfl)⟩

/-- The main area is complete. -/
theorem survives_of_programmed (main : l.area (b.cut k) l.mainAddr = b.renewed) : b.Survives k := by
  unfold Survives Layout.found readFlashMemory
  rw [main]
  dsimp only
  rw [if_pos rfl, if_pos b.renewed_valid, if_pos b.renewed_valid]
  exact ⟨_, rfl, .inr (.inl rfl)⟩

/-- The main area is torn, and the default area erased. -/
theorem survives_of_torn
    (main : l.area (b.cut k) l.mainAddr = .ofBytes (l.size - 4) (b.torn k))
    (default : l.area (b.cut k) l.defaultAddr =
      .ofBytes (l.size - 4) (List.replicate l.size 0xFF)) : b.Survives k ↔ b.Lucky k := by
  unfold Survives Lucky Layout.found readFlashMemory
  rw [main, default]
  dsimp only
  by_cases valid : (CameraConfigParam.ofBytes (l.size - 4) (b.torn k)).Valid
  · rw [if_pos rfl, if_pos valid, if_pos valid, and_iff_right valid]
    constructor
    · rintro ⟨c, ⟨⟩, is⟩
      exact is
    · exact fun is => ⟨_, rfl, is⟩
  · rw [if_pos rfl, if_neg valid, if_neg (erased_invalid l)]
    exact iff_of_false (by rintro ⟨_, ⟨⟩, _⟩) fun lucky => valid lucky.1

/-- Where one of the two areas was valid, a power cut is survived before the erase, and once all
pages of the main area are programmed; in between only by luck. -/
theorem survives_iff (b : Board l) (k : Nat)
    (valid : (l.area b.usi.chip.flash l.mainAddr).Valid ∨
      (l.area b.usi.chip.flash l.defaultAddr).Valid) :
    b.Survives k ↔ b.s_bNotResetCheckSum = true ∨ k ≤ b.toErase ∨ l.size ≤ b.programmed k ∨
      b.Lucky k := by
  have areas := l.areas
  have size := l.size_le
  cases clear : b.s_bNotResetCheckSum with
  | true =>
    have same : b.cut k = b.usi.chip.flash := by
      unfold cut writeFlashMemory
      rw [clear]
      rfl
    exact iff_of_true (survives_of_kept (by rw [same]) (by rw [same]) valid) (.inl rfl)
  | false =>
    by_cases erased : b.toErase < k
    · have main := b.main_cut clear erased
      by_cases all : l.size ≤ b.programmed k
      · have whole : b.torn k = b.renewed.bytes := by
          rw [torn, List.take_of_length_le (by rw [length_bytes]; exact all),
            Nat.sub_eq_zero_of_le all,
            List.replicate_zero, List.append_nil]
        have front : b.renewed.front.length = l.size - 4 := Nat.eq_sub_of_add_eq b.front
        rw [whole, bytes_ofBytes front] at main
        exact iff_of_true (survives_of_programmed main) (.inr (.inr (.inl all)))
      · have default := b.default_cut clear erased (Nat.lt_of_not_le all)
        rw [survives_of_torn main default]
        constructor
        · exact fun lucky => .inr (.inr (.inr lucky))
        · rintro (⟨⟨⟩⟩ | early | all' | lucky)
          · exact absurd erased (Nat.not_lt_of_le early)
          · exact absurd all' all
          · exact lucky
    · have main := b.area_kept clear erased l.mainAddr_eq (by omega)
      have behind : l.defaultAddr = l.sector + (l.offset + l.flashConfigSize) := by
        rw [l.defaultAddr_eq, l.mainAddr_eq, Nat.add_assoc]
      have default := b.area_kept clear erased behind (by omega)
      exact iff_of_true (survives_of_kept main default valid) (.inr (.inl (Nat.le_of_not_lt erased)))

end Board

/-! ### A flash of one megabyte -/

theorem area_overwrite (there : Firmware.Flash) (addr : Nat) {c : CameraConfigParam}
    (front : c.front.length = l.size - 4) (length : c.bytes.length = l.size) :
    l.area (overwrite there addr (ofTransfer c.bytes)) addr = c := by
  rw [area_eq, ← length]
  have there' : bytesAt (overwrite there addr (ofTransfer c.bytes)) addr c.bytes.length =
    c.bytes := by
    refine List.ext_getElem (by simp [bytesAt]) fun i left right => ?_
    simp only [bytesAt, List.getElem_map, List.getElem_range]
    rw [overwrite_inside (by rw [length_ofTransfer]; exact right)]
    simp [ofTransfer]
  rw [there', length, bytes_ofBytes front]

def oneMega : Layout where
  size := 5748
  total := 1048576
  words := rfl
  checked := Nat.le_of_ble_eq_true rfl
  room := Nat.le_of_ble_eq_true rfl
  sectors := rfl
  chip := Nat.le_of_ble_eq_true rfl

def boardSettings (ucFailTime : UInt8) : CameraConfigParam where
  front := ucFailTime :: List.replicate 5743 0
  ulCheckSum := 0
  back := []

theorem boardSettings_front (ucFailTime : UInt8) :
    (boardSettings ucFailTime).front.length + 4 = oneMega.size := by
  rw [boardSettings, List.length_cons, List.length_replicate]
  rfl

theorem opened_aligned (chip : Chip) (buf : Nat → Cell) : (opened chip buf).Aligned := by
  rintro block ⟨⟩

/-- Nothing is written yet. -/
def fresh (flash : Firmware.Flash) (ucFailTime : UInt8) : Board oneMega where
  usi := opened ⟨flash, 0⟩ fun _ => blank
  g_ConfigParam := boardSettings ucFailTime
  s_bNotResetCheckSum := false
  aligned := opened_aligned _ _
  front := boardSettings_front ucFailTime
  back := rfl

/-- The main area holds the settings, and the rest of the flash is erased. -/
@[irreducible] def stored : Firmware.Flash :=
  overwrite (fun _ => blank) oneMega.mainAddr (ofTransfer (fresh (fun _ => blank) 0).renewed.bytes)

theorem stored_valid : (oneMega.area stored oneMega.mainAddr).Valid := by
  have front : (fresh (fun _ => blank) 0).renewed.front.length = oneMega.size - 4 :=
    Nat.eq_sub_of_add_eq (boardSettings_front 0)
  rw [stored, area_overwrite _ _ front (Board.length_bytes _)]
  exact Board.renewed_valid _

theorem survives_before_erase : (fresh stored 1).Survives 0 :=
  (Board.survives_iff (fresh stored 1) 0 (.inl stored_valid)).mpr (.inr (.inl (Nat.zero_le _)))

/-- The power is cut between the erase and the first page. -/
theorem cut_behind_erase :
    (oneMega.area stored oneMega.mainAddr).Valid ∧ ¬ (fresh stored 1).Survives 1 := by
  refine ⟨stored_valid, ?_⟩
  have erased : (fresh stored 1).toErase < 1 := Nat.zero_lt_one
  have none : (fresh stored 1).programmed 1 = 0 := by
    unfold Board.programmed Board.toMain
    omega
  have main := Board.main_cut (b := fresh stored 1) rfl erased
  have part : (fresh stored 1).programmed 1 < oneMega.size := by
    rw [none]
    exact Nat.le_of_ble_eq_true rfl
  rw [Board.survives_of_torn main (Board.default_cut rfl erased part)]
  rintro ⟨valid, _⟩
  rw [Board.torn, none] at valid
  exact erased_invalid oneMega valid

end Rovio.Config
