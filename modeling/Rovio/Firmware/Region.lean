import Rovio.Firmware.HalfImage
import Rovio.Firmware.UsiView
import Rovio.Upload.WholeBody

/-! Where a transfer erases and programs. An image goes to the chip sector by sector, and neither
way to store one looks at what is behind it. -/
namespace Rovio.Firmware
open Upload

inductive ChipOp where
  | usiEraseSector (addr : Nat)
  | usiWrite (addr : Nat) (buf : Nat → Cell)

def ChipOp.run (chip : Chip) : ChipOp → Chip
  | .usiEraseSector addr => Firmware.usiEraseSector always chip addr
  | .usiWrite addr buf => Firmware.usiWrite always chip addr buf

/-- All that the operation erases or programs is below the bound. -/
def ChipOp.Below (bound : Nat) : ChipOp → Prop
  | .usiEraseSector addr => addr + eraseSec ≤ bound
  | .usiWrite addr _ => addr + 256 ≤ bound

/-! ### The operations of a call -/

def flashOps (s : Usi) : List ChipOp :=
  match s.g_uUSICacheAddr with
  | none => []
  | some addr => .usiEraseSector addr ::
      (List.range 256).map fun j => .usiWrite (addr + 256 * j) fun i => s.g_uUSI_BUF (256 * j + i)

def loadOps (s : Usi) (block : Nat) : List ChipOp :=
  if s.g_uUSICacheAddr = some block then [] else flashOps s

def writeOps (s : Usi) (addr : Nat) (buf : List Cell) : List ChipOp :=
  if buf = [] then []
  else
    let pos := addr % eraseSec
    let copy_len := min buf.length (eraseSec - pos)
    let loaded := usiLoad always s (addr - pos)
    loadOps s (addr - pos) ++
      writeOps { loaded with g_uUSI_BUF := overwrite loaded.g_uUSI_BUF pos (buf.take copy_len) }
        (addr + copy_len) (buf.drop copy_len)
  termination_by buf.length
  decreasing_by
    have some : 0 < buf.length := List.length_pos_iff.mpr ‹_›
    have inside : addr % eraseSec < eraseSec := Nat.mod_lt _ (by decide)
    rw [List.length_drop]
    omega

def Call.ops (s : Usi) : Call → List ChipOp
  | .usiMyWrite addr buf => writeOps s addr buf
  | .usiMyFlash => flashOps s

def callsOps (s : Usi) : List Call → List ChipOp
  | [] => []
  | call :: rest => call.ops s ++ callsOps (call.run always s) rest

theorem flashOps_chip (s : Usi) :
    (usiMyFlash always s).chip = (flashOps s).foldl ChipOp.run s.chip := by
  cases cached : s.g_uUSICacheAddr with
  | none =>
    rw [usiMyFlash, flashOps, cached]
    rfl
  | some addr =>
    rw [usiMyFlash, flashOps, cached]
    dsimp only
    rw [List.foldl_cons, List.foldl_map]
    rfl

theorem loadOps_chip (s : Usi) (block : Nat) :
    (usiLoad always s block).chip = (loadOps s block).foldl ChipOp.run s.chip := by
  unfold usiLoad loadOps
  split
  · rfl
  · exact flashOps_chip s

theorem writeOps_chip (s : Usi) (addr : Nat) (buf : List Cell) :
    (usiMyWrite always s addr buf).chip = (writeOps s addr buf).foldl ChipOp.run s.chip := by
  fun_induction writeOps s addr buf with
  | case1 s addr =>
    rw [usiMyWrite, if_pos rfl]
    rfl
  | case2 s addr buf some pos copy_len loaded ih =>
    rw [usiMyWrite, if_neg some, List.foldl_append, ← loadOps_chip]
    exact ih

/-- These are the operations that change the chip, in this order. -/
theorem callsOps_chip (s : Usi) (calls : List Call) :
    (runCalls always s calls).chip = (callsOps s calls).foldl ChipOp.run s.chip := by
  induction calls generalizing s with
  | nil => rfl
  | cons call rest ih =>
    have here : (call.run always s).chip = (call.ops s).foldl ChipOp.run s.chip := by
      cases call with
      | usiMyWrite addr buf => exact writeOps_chip s addr buf
      | usiMyFlash => exact flashOps_chip s
    rw [callsOps, List.foldl_append, ← here]
    exact ih _

theorem callsOps_append (s : Usi) (left right : List Call) :
    callsOps s (left ++ right) = callsOps s left ++ callsOps (runCalls always s left) right := by
  induction left generalizing s with
  | nil => rfl
  | cons call rest ih =>
    rw [List.cons_append, callsOps, callsOps, ih, List.append_assoc]
    rfl

/-! ### How far they reach -/

def Under (bound : Nat) (ops : List ChipOp) : Prop := ∀ op ∈ ops, op.Below bound

variable {s : Usi} {bound k p : Nat}

theorem under_nil : Under bound [] := by
  rintro op ⟨⟩

theorem under_append {left right : List ChipOp} :
    Under bound (left ++ right) ↔ Under bound left ∧ Under bound right :=
  List.forall_mem_append

/-- The pages of a sector lie where it was erased. -/
theorem under_flashOps (cached : s.g_uUSICacheAddr = some (eraseSec * k)) :
    Under bound (flashOps s) ↔ eraseSec * (k + 1) ≤ bound := by
  unfold flashOps
  rw [cached]
  constructor
  · intro under
    exact under _ List.mem_cons_self
  · intro fits op member
    rcases List.mem_cons.mp member with rfl | page
    · exact fits
    · obtain ⟨j, inside, rfl⟩ := List.mem_map.mp page
      have small := List.mem_range.mp inside
      change eraseSec * k + 256 * j + 256 ≤ bound
      unfold eraseSec at *
      omega

/-- What comes before position `p` has gone through the cache, which holds the last sector of it. -/
def Follows (p : Nat) (s : Usi) : Prop :=
  s.g_uUSICacheAddr = some (eraseSec * ((p - 1) / eraseSec)) ∨
    s.g_uUSICacheAddr = none ∧ p < eraseSec

theorem Follows.load (h : Follows p s) :
    Under bound (loadOps s (p - p % eraseSec)) ↔
      p / eraseSec = (p - 1) / eraseSec ∨ eraseSec * (p / eraseSec) ≤ bound := by
  have block : p - p % eraseSec = eraseSec * (p / eraseSec) := by
    unfold eraseSec
    omega
  rw [block]
  unfold loadOps
  rcases h with cached | ⟨empty, low⟩
  · by_cases same : p / eraseSec = (p - 1) / eraseSec
    · rw [if_pos (by rw [cached, same])]
      exact iff_of_true under_nil (.inl same)
    · have other : s.g_uUSICacheAddr ≠ some (eraseSec * (p / eraseSec)) := by
        rw [cached]
        intro here
        have sector := Option.some.inj here
        unfold eraseSec at *
        omega
      rw [if_neg other, under_flashOps cached]
      unfold eraseSec at *
      omega
  · have nothing : flashOps s = [] := by
      unfold flashOps
      rw [empty]
    rw [nothing, ite_self]
    refine iff_of_true under_nil (.inl ?_)
    unfold eraseSec at *
    omega

/-- A write that goes on at `p` brings the sectors to the chip that it leaves behind. -/
theorem Follows.write (h : Follows p s) (buf : List Cell) :
    Follows (p + buf.length) (usiMyWrite always s p buf) ∧
      (Under bound (writeOps s p buf) ↔
        (p + buf.length - 1) / eraseSec = (p - 1) / eraseSec ∨
          eraseSec * ((p + buf.length - 1) / eraseSec) ≤ bound) := by
  fun_induction writeOps s p buf with
  | case1 s p =>
    rw [usiMyWrite, if_pos rfl]
    exact ⟨h, iff_of_true under_nil (.inl rfl)⟩
  | case2 s p buf some pos copy_len loaded ih =>
    have long : 0 < buf.length := List.length_pos_iff.mpr some
    have cached : loaded.g_uUSICacheAddr = Option.some (p - pos) := usiLoad_cached always s _
    have start : pos = p % eraseSec := rfl
    have taken : copy_len = min buf.length (eraseSec - p % eraseSec) := rfl
    have rest : usiMyWrite always s p buf = usiMyWrite always
        { loaded with g_uUSI_BUF := overwrite loaded.g_uUSI_BUF pos (buf.take copy_len) }
        (p + copy_len) (buf.drop copy_len) := by
      rw [usiMyWrite, if_neg some]
    rw [rest]
    clear_value copy_len
    have next : Follows (p + copy_len) { loaded with
        g_uUSI_BUF := overwrite loaded.g_uUSI_BUF pos (buf.take copy_len) } := by
      refine .inl (cached.trans (congrArg Option.some ?_))
      unfold eraseSec at *
      omega
    obtain ⟨follows, under⟩ := ih next
    rw [List.length_drop] at follows under
    have whole : p + copy_len + (buf.length - copy_len) = p + buf.length := by omega
    rw [whole] at follows under
    refine ⟨follows, ?_⟩
    rw [under_append, h.load, under]
    unfold eraseSec at *
    omega

/-- Writes that follow each other reach as far as one write of all their bytes. -/
theorem Follows.writes (h : Follows p s) (chunks : List (List Cell)) :
    Follows (p + chunks.flatten.length) (runCalls always s (consecutive p chunks)) ∧
      (Under bound (callsOps s (consecutive p chunks)) ↔
        (p + chunks.flatten.length - 1) / eraseSec = (p - 1) / eraseSec ∨
          eraseSec * ((p + chunks.flatten.length - 1) / eraseSec) ≤ bound) := by
  induction chunks generalizing s p with
  | nil => exact ⟨h, iff_of_true under_nil (.inl rfl)⟩
  | cons buf rest ih =>
    obtain ⟨next, first⟩ := @Follows.write s bound p h buf
    obtain ⟨follows, others⟩ := ih next
    have whole : p + (buf :: rest).flatten.length =
        p + buf.length + rest.flatten.length := by
      rw [List.flatten_cons, List.length_append, Nat.add_assoc]
    rw [whole]
    refine ⟨follows, ?_⟩
    rw [consecutive, callsOps, under_append]
    refine (and_congr first others).trans ?_
    unfold eraseSec at *
    omega

/-- The end of the last sector that goes to the chip of a transfer of so many bytes. -/
def reach (length : Nat) (flushed : Bool) : Nat :=
  eraseSec * ((16 + length - 1) / eraseSec + if flushed then 1 else 0)

/-- The bytes behind the header, not yet brought to the chip as a whole. -/
theorem Follows.body (h : Follows 16 s) (chunks : List (List Cell)) :
    Follows (16 + chunks.flatten.length) (runCalls always s (consecutive 16 chunks)) ∧
      (Under bound (callsOps s (consecutive 16 chunks)) ↔
        reach chunks.flatten.length false ≤ bound) := by
  obtain ⟨follows, under⟩ := @Follows.writes s bound 16 h chunks
  refine ⟨follows, under.trans ?_⟩
  unfold reach eraseSec at *
  simp only [Bool.false_eq_true, if_false]
  omega

theorem follows_opened (chip : Chip) (g_uUSI_BUF : Nat → Cell) (low : p < eraseSec) :
    Follows p (opened chip g_uUSI_BUF) := .inr ⟨rfl, low⟩

theorem header_ops (s : Usi) (n : Nat) : writeOps s 0 (ofTransfer (header n)) = loadOps s 0 := by
  have size : (ofTransfer (header n)).length = 8 := by rw [length_ofTransfer, length_header]
  have some : ofTransfer (header n) ≠ [] := by
    intro nil
    rw [nil] at size
    cases size
  have copy_len : min (ofTransfer (header n)).length eraseSec = 8 := by
    rw [size]
    decide
  rw [writeOps, if_neg some]
  simp only [Nat.zero_mod, Nat.sub_zero, copy_len]
  rw [List.drop_of_length_le size.le, writeOps, if_pos rfl, List.append_nil]

/-- A write leaves a sector in the cache, or what was there. -/
theorem usiMyWrite_holds (some : s.g_uUSICacheAddr ≠ none) (addr : Nat) (buf : List Cell) :
    (usiMyWrite always s addr buf).g_uUSICacheAddr ≠ none := by
  fun_induction usiMyWrite always s addr buf with
  | case1 s addr => exact some
  | case2 s addr buf _ pos loaded copy_len ih =>
    refine ih ?_
    have cached : loaded.g_uUSICacheAddr = Option.some (addr - pos) := usiLoad_cached always s _
    rw [cached]
    rintro ⟨⟩

theorem consecutive_holds (some : s.g_uUSICacheAddr ≠ none) (chunks : List (List Cell)) :
    (runCalls always s (consecutive p chunks)).g_uUSICacheAddr ≠ none := by
  induction chunks generalizing s p with
  | nil => exact some
  | cons buf rest ih => exact ih (usiMyWrite_holds some p buf)

/-- The last sector goes to the chip. -/
theorem Follows.flush {length : Nat} (h : Follows (16 + length) s)
    (some : s.g_uUSICacheAddr ≠ none) :
    reach length false ≤ bound ∧ Under bound (callsOps s [.usiMyFlash]) ↔
      reach length true ≤ bound := by
  have cached := h.resolve_right fun empty => some empty.1
  have parts : callsOps s [.usiMyFlash] = flashOps s := List.append_nil _
  rw [parts, under_flashOps cached]
  unfold reach eraseSec
  simp only [Bool.false_eq_true, if_false, if_true]
  omega

/-- The header behind the body, and both to the chip. -/
theorem Follows.finish {length n : Nat} (h : Follows (16 + length) s) :
    reach length false ≤ bound ∧
        Under bound (callsOps s [.usiMyWrite 0 (ofTransfer (header n)), .usiMyFlash]) ↔
      reach length true ≤ bound := by
  have loaded := usiLoad_cached always s 0
  have headed : (usiMyWrite always s 0 (ofTransfer (header n))).g_uUSICacheAddr =
      some (eraseSec * 0) := by
    rw [usiMyWrite_header]
    exact loaded
  have parts : callsOps s [.usiMyWrite 0 (ofTransfer (header n)), .usiMyFlash] =
      loadOps s 0 ++ flashOps (usiMyWrite always s 0 (ofTransfer (header n))) := by
    change writeOps s 0 (ofTransfer (header n)) ++ (flashOps _ ++ []) = _
    rw [header_ops, List.append_nil]
    rfl
  rw [parts, under_append, under_flashOps headed]
  unfold reach loadOps
  simp only [Bool.false_eq_true, if_false, if_true]
  rcases h with cached | ⟨empty, low⟩
  · by_cases first : (16 + length - 1) / eraseSec = 0
    · rw [if_pos (by rw [cached, first, Nat.mul_zero]), first]
      simp only [under_nil, true_and, Nat.zero_add, Nat.add_zero, Nat.mul_zero, Nat.zero_le]
    · have other : s.g_uUSICacheAddr ≠ some 0 := by
        rw [cached]
        intro here
        have sector := Option.some.inj here
        unfold eraseSec at *
        omega
      rw [if_neg other, under_flashOps cached]
      unfold eraseSec at *
      omega
  · have nothing : flashOps s = [] := by
      unfold flashOps
      rw [empty]
    have first : (16 + length - 1) / eraseSec = 0 := by
      unfold eraseSec at *
      omega
    rw [nothing, ite_self, first]
    simp only [under_nil, true_and, Nat.zero_add, Nat.add_zero, Nat.mul_zero, Nat.zero_le]

/-! ### Both ways -/

def usbChipOps (chip : Chip) (g_uUSI_BUF : Nat → Cell) (request : Option (Nat → UInt8))
    (usiIsReady malloc : Bool) (reads : List (Option (List UInt8))) : List ChipOp :=
  callsOps (opened chip g_uUSI_BUF)
    ((firmwareRequst request usiIsReady malloc reads).filterMap Act.call)

def httpChipOps (chip : Chip) (g_uUSI_BUF : Nat → Cell) (N : PartName) (usiIsReady : Bool)
    (connection : Connection) (iFlashUpdateState : FlashUpdateState) (pieces : List (List UInt8))
    (finished : Bool) : List ChipOp :=
  callsOps (opened chip g_uUSI_BUF)
    (if usiIsReady then
      requestCalls N connection finished ⟨iFlashUpdateState, fun a => (chip.flash a).byte⟩
        ⟨.init, none⟩ pieces
    else [])

/-- The end of the firmware region: behind it are two areas of FLASH_CONFIG_SIZE. -/
def firmwareEnd (flashTotalSize flashConfigSize : Nat) : Nat :=
  flashTotalSize - flashConfigSize * 2

variable {chip : Chip} {g_uUSI_BUF : Nat → Cell}

theorem usb_under (request : Option (Nat → UInt8)) (usiIsReady malloc : Bool)
    (reads : List (Option (List UInt8))) :
    Under bound (usbChipOps chip g_uUSI_BUF request usiIsReady malloc reads) ↔
      ∀ lenth, usbLenth request usiIsReady malloc = some lenth →
        reach (usbImage (received lenth reads)).length (received lenth reads).2 ≤ bound := by
  unfold usbChipOps
  cases starts : usbLenth request usiIsReady malloc with
  | none =>
    rw [firmwareRequst_none starts]
    refine iff_of_true under_nil ?_
    rintro lenth ⟨⟩
  | some lenth =>
    simp only [Option.some.injEq, forall_eq']
    obtain ⟨chunks, calls, flat⟩ := @firmwareLoop_calls lenth 0 16 [] reads (by decide) rfl
    rw [Nat.zero_add, List.nil_append] at flat
    change chunks.flatten = ofTransfer (usbImage (received lenth reads)) at flat
    generalize received lenth reads = r at calls flat ⊢
    have size : chunks.flatten.length = (usbImage r).length := by rw [flat, length_ofTransfer]
    obtain ⟨s, after⟩ : ∃ s, usiMyWrite always (opened chip g_uUSI_BUF) 0
        (ofTransfer (header (lenth + 16).toNat)) = s := ⟨_, rfl⟩
    have cached : s.g_uUSICacheAddr = some 0 := by
      rw [← after, usiMyWrite_header]
      exact usiLoad_cached always _ 0
    have holds := @consecutive_holds s 16 (by rw [cached]; rintro ⟨⟩) chunks
    have first : writeOps (opened chip g_uUSI_BUF) 0 (ofTransfer (header (lenth + 16).toNat)) = [] := by
      rw [header_ops]
      rfl
    obtain ⟨follows, under⟩ := @Follows.body s bound (.inl cached) chunks
    rw [size] at follows under
    have parts : callsOps (opened chip g_uUSI_BUF)
        (.usiMyWrite 0 (ofTransfer (header (lenth + 16).toNat)) ::
          (consecutive 16 chunks ++ if r.2 then [.usiMyFlash] else [])) =
        callsOps s (consecutive 16 chunks) ++ callsOps (runCalls always s (consecutive 16 chunks))
          (if r.2 then [.usiMyFlash] else []) := by
      rw [callsOps, ← callsOps_append]
      change writeOps _ 0 _ ++ callsOps (usiMyWrite always _ 0 _) _ = _
      rw [first, after, List.nil_append]
    rw [firmwareRequst_some starts, calls, parts, under_append, under]
    cases r.2 with
    | false => exact and_iff_left under_nil
    | true => exact follows.flush holds

theorem http_under (N : PartName) (usiIsReady : Bool) (connection : Connection)
    (iFlashUpdateState : FlashUpdateState) (pieces : List (List UInt8)) (finished : Bool) :
    Under bound (httpChipOps chip g_uUSI_BUF N usiIsReady connection iFlashUpdateState pieces
        finished) ↔
      ∀ image, httpImage (fun a => (chip.flash a).byte) N usiIsReady connection iFlashUpdateState
          pieces = some image →
        reach image.length (finished && !pieces.isEmpty) ≤ bound := by
  unfold httpChipOps httpImage
  cases usiIsReady with
  | false =>
    refine iff_of_true under_nil ?_
    rintro image ⟨⟩
  | true =>
    rw [if_pos rfl, if_pos rfl, requestCalls_init]
    cases accepts connection iFlashUpdateState with
    | none =>
      refine iff_of_true under_nil ?_
      rintro image ⟨⟩
    | some boundary =>
      obtain ⟨bytes, there⟩ : ∃ bytes : Nat → UInt8, (fun a => (chip.flash a).byte) = bytes :=
        ⟨_, rfl⟩
      rw [there]
      dsimp only [Option.map_some]
      simp only [Option.some.injEq, forall_eq']
      obtain ⟨chunks, cells⟩ : ∃ cells,
          (chunks mpBufLen N (mpStart boundary bytes) pieces.flatten).map ofTransfer = cells :=
        ⟨_, rfl⟩
      have size : chunks.flatten.length = (bodyImage N boundary bytes pieces.flatten).length := by
        rw [← cells, flatten_ofTransfer, length_ofTransfer]
        rfl
      have update : updateCalls N (mpStart boundary bytes) pieces.flatten = consecutive 16 chunks :=
        congrArg (consecutive 16) cells
      obtain ⟨follows, under⟩ := @Follows.body (opened chip g_uUSI_BUF) bound
        (follows_opened chip g_uUSI_BUF (by decide)) chunks
      rw [size] at follows under
      rw [update, callsOps_append, under_append, under]
      cases finished && !pieces.isEmpty with
      | false => exact and_iff_left under_nil
      | true => exact follows.finish

/-- What a form writes of which no write straddles the end of the file. -/
theorem bodyImage_upload {N : PartName} (u : UploadBody N) (bytes : Nat → UInt8)
    (fits : ¬ FlushStraddles mpBufLen u.acBoundary.length u.content.length u.terminator.length) :
    (bodyImage N u.acBoundary bytes u.bytes).length = u.content.length := by
  have address := (u.written bytes fits).1
  rw [processUpdate_chunks] at address
  exact Nat.add_left_cancel address

/-- Nothing stops an image at the end of its region: a transfer stays inside exactly where the last
sector it brings to the chip ends there or before, over USB and over the web server. For a form that
holds a file this is the sector of the last byte of the file. -/
theorem image_in_region (chip : Chip) (g_uUSI_BUF : Nat → Cell)
    (flashTotalSize flashConfigSize : Nat) :
    let bound := firmwareEnd flashTotalSize flashConfigSize
    (∀ (request : Option (Nat → UInt8)) (usiIsReady malloc : Bool)
        (reads : List (Option (List UInt8))),
      Under bound (usbChipOps chip g_uUSI_BUF request usiIsReady malloc reads) ↔
        ∀ lenth, usbLenth request usiIsReady malloc = some lenth →
          reach (usbImage (received lenth reads)).length (received lenth reads).2 ≤ bound) ∧
    (∀ (N : PartName) (usiIsReady : Bool) (connection : Connection)
        (iFlashUpdateState : FlashUpdateState) (pieces : List (List UInt8)) (finished : Bool),
      Under bound (httpChipOps chip g_uUSI_BUF N usiIsReady connection iFlashUpdateState pieces
          finished) ↔
        ∀ image, httpImage (fun a => (chip.flash a).byte) N usiIsReady connection
            iFlashUpdateState pieces = some image →
          reach image.length (finished && !pieces.isEmpty) ≤ bound) ∧
    ∀ (N : PartName) (u : UploadBody N) (connection : Connection)
      (iFlashUpdateState : FlashUpdateState) (pieces : List (List UInt8)),
      accepts connection iFlashUpdateState = some u.acBoundary → pieces.flatten = u.bytes →
      ¬ FlushStraddles mpBufLen u.acBoundary.length u.content.length u.terminator.length →
      (Under bound (httpChipOps chip g_uUSI_BUF N true connection iFlashUpdateState pieces true) ↔
        reach u.content.length (!pieces.isEmpty) ≤ bound) := by
  refine ⟨fun request usiIsReady malloc reads => usb_under request usiIsReady malloc reads,
    fun N usiIsReady connection iFlashUpdateState pieces finished =>
      http_under N usiIsReady connection iFlashUpdateState pieces finished, ?_⟩
  intro N u connection iFlashUpdateState pieces accepted whole fits
  rw [http_under, httpImage, accepted, whole]
  simp only [if_true, Option.map_some, Option.some.injEq, forall_eq', Bool.true_and,
    bodyImage_upload u _ fits]

/-- A form with one file of so many zeros. -/
def zerosUpload (length : Nat) : UploadBody lineName :=
  plainUpload (List.replicate length 0) (zeros_clean length)

/-- The administrator sends it, and its length is announced as it is. -/
def zerosConnection (length : Nat) : Connection where
  privilege := Http.authAdmin
  contentLength := (zerosUpload length).bytes.length
  boundary := some [65]
  memory := true

theorem zerosUpload_length (length : Nat) :
    (zerosUpload length).bytes.length = length + 26 := by
  simp only [zerosUpload, plainUpload, UploadBody.bytes, UploadBody.opening, UploadBody.file,
    delimiter, lineHeader, sourceFile, crlf, List.length_append, List.length_replicate,
    List.length_cons, List.length_nil, List.flatMap_nil]
  omega

theorem zeros_accepted {length : Nat} (low : 222 ≤ length) (high : length ≤ 1500000) :
    accepts (zerosConnection length) .stop = some [65] := by
  have size := zerosUpload_length length
  unfold accepts zerosConnection firmwareUpdateLimitSize
  dsimp only
  rw [size, if_neg (by decide), if_neg (by decide), if_neg (by omega)]
  rfl

/-- A file of 100000 bytes is stored in the first two sectors. -/
theorem image_in_region_small :
    Under (firmwareEnd 1048576 4096) (httpChipOps ⟨fun _ => blank, 0⟩ (fun _ => blank) lineName
      true (zerosConnection 100000) .stop [(zerosUpload 100000).bytes] true) := by
  have fits : ¬ FlushStraddles mpBufLen 1 100000 2 := by
    rintro ⟨m, past, early⟩
    rw [show blockLen mpBufLen 1 = 32764 by decide] at past early
    unfold mpBufLen at early
    omega
  have size : (zerosUpload 100000).content.length = 100000 := List.length_replicate
  refine ((image_in_region ⟨fun _ => blank, 0⟩ (fun _ => blank) 1048576 4096).2.2 lineName
    (zerosUpload 100000)
    (zerosConnection 100000) .stop [(zerosUpload 100000).bytes]
    (zeros_accepted (by decide) (by decide)) List.flatten_singleton ?_).mpr ?_
  · rw [size]
    exact fits
  · rw [size]
    decide

/-- A file of 1000000 bytes on a flash of one megabyte, whose last sector is erased for it. -/
theorem image_over_config :
    ¬ Under (firmwareEnd 1048576 4096) (httpChipOps ⟨fun _ => blank, 0⟩ (fun _ => blank) lineName
      true (zerosConnection 1000000) .stop [(zerosUpload 1000000).bytes] true) := by
  have fits : ¬ FlushStraddles mpBufLen 1 1000000 2 := by
    rintro ⟨m, past, early⟩
    rw [show blockLen mpBufLen 1 = 32764 by decide] at past early
    unfold mpBufLen at early
    omega
  have size : (zerosUpload 1000000).content.length = 1000000 := List.length_replicate
  have image := bodyImage_upload (zerosUpload 1000000) (fun _ => blank.byte) (by
    rw [size]
    exact fits)
  rw [size] at image
  rw [http_under]
  intro inside
  have last := inside _ (by
    rw [httpImage, zeros_accepted (by decide) (by decide), List.flatten_singleton]
    rfl)
  change reach (bodyImage lineName (zerosUpload 1000000).acBoundary (fun _ => blank.byte)
    (zerosUpload 1000000).bytes).length true ≤ _ at last
  rw [image] at last
  revert last
  decide

end Rovio.Firmware
