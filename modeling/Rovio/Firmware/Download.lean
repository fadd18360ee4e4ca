import Rovio.Firmware.UsiView
import Rovio.Kit.Bytes
import Rovio.Kit.Decimal

/-! The download of the image that is in the serial flash. -/
namespace Rovio.Firmware

/-- The word behind the mark. -/
def readLength (s : Usi) : Nat :=
  match usiMyRead s 4 4 with
  | [b0, b1, b2, b3] => (Kit.leWord b0 b1 b2 b3).toNat
  | _ => 0

/-- What one call adds to the body and the address the next one starts at; nothing where the
sending is over. An address and a piece behind it end at a word at most, so nothing wraps. -/
def fillFirmwareData (usiIsReady : Bool) (s : Usi) (uAddr : Nat) : Option (List UInt8 × Nat) :=
  if usiIsReady = false then none
  else
    let uLength := readLength s
    if uAddr ≥ uLength then none
    else
      let uThisLength := uLength - uAddr
      let uBlock := if uAddr % 128 ≠ 0 then 128 - uAddr % 128 else 128
      let uThisLength := if uThisLength ≥ uBlock then uBlock else uThisLength
      some (usiMyRead s uAddr uThisLength, uAddr + uThisLength)

/-- What `WRGetProductVersionNum` gives. -/
structure Version where
  nMajor : Int
  nMinor : Int
  pcDate : List Char
  pcTime : List Char

def strReplace (str : List Char) (from' to' : Char) : List Char :=
  str.map fun c => if c = from' then to' else c

def contentDisposition (version : Version) : List Char :=
  "Content-Disposition: attachment; filename=\"ipcam_".toList ++
    strReplace version.pcDate ' ' '-' ++ "_".toList ++ strReplace version.pcTime ':' '-' ++
    "_V".toList ++ Kit.decimalText version.nMajor ++ "-".toList ++
    Kit.decimalText version.nMinor ++
    ".bin\"\r\n".toList

/-- The length is printed as a signed number. -/
def extraHeader (version : Version) (uContentLength : Nat) : List Char :=
  "Content-Length: ".toList ++ Kit.decimalText (BitVec.ofNat 32 uContentLength).toInt ++
    "\r\n".toList ++ contentDisposition version ++
    "Pragma: no-cache\r\nCache-Control: no-cache\r\n".toList ++
    "Expires: 01 Jan 1970 00:00:00 GMT\r\n".toList

theorem fillFirmwareData_next {usiIsReady : Bool} {s : Usi} {uAddr next : Nat}
    {piece : List UInt8} (filled : fillFirmwareData usiIsReady s uAddr = some (piece, next)) :
    usiIsReady = true ∧ uAddr < next ∧ next ≤ readLength s ∧
      piece = usiMyRead s uAddr (next - uAddr) := by
  unfold fillFirmwareData at filled
  split at filled
  · cases filled
  next ready =>
    dsimp only at filled
    split at filled
    · cases filled
    next more =>
      simp only [Option.some.injEq, Prod.mk.injEq] at filled
      obtain ⟨rfl, rfl⟩ := filled
      have block : 0 < if uAddr % 128 ≠ 0 then 128 - uAddr % 128 else 128 := by
        split <;> omega
      generalize (if uAddr % 128 ≠ 0 then 128 - uAddr % 128 else 128) = uBlock at *
      refine ⟨by simpa using ready, ?_, ?_, by rw [Nat.add_sub_cancel_left]⟩ <;> split <;> omega

/-- The server calls until the sending is over. -/
def sendBody (usiIsReady : Bool) (s : Usi) (uAddr : Nat) : List UInt8 :=
  match _filled : fillFirmwareData usiIsReady s uAddr with
  | none => []
  | some (piece, next) =>
    piece ++ sendBody usiIsReady s next
  termination_by readLength s - uAddr
  decreasing_by
    have forward := fillFirmwareData_next _filled
    omega

structure Download where
  acExtra : List Char
  body : List UInt8

/-- The body starts behind the header of the image. -/
def httpGetFirmware (usiIsReady : Bool) (s : Usi) (version : Version) : Download where
  acExtra := extraHeader version (if usiIsReady = false then 0 else readLength s)
  body := sendBody usiIsReady s 16

/-- The number in the first line of the header. -/
def contentLength (acExtra : List Char) : Int :=
  Kit.decimalValue ((acExtra.drop 16).takeWhile (· ≠ '\r'))

theorem contentLength_extraHeader (version : Version) (uContentLength : Nat) :
    contentLength (extraHeader version uContentLength) =
      (BitVec.ofNat 32 uContentLength).toInt := by
  obtain ⟨rest, text⟩ : ∃ rest, extraHeader version uContentLength =
      "Content-Length: ".toList ++
        (Kit.decimalText (BitVec.ofNat 32 uContentLength).toInt ++ '\r' :: rest) := by
    have ending : "\r\n".toList = ['\r', '\n'] := by decide
    unfold extraHeader
    simp only [ending, List.append_assoc, List.cons_append, List.nil_append]
    exact ⟨_, rfl⟩
  generalize (BitVec.ofNat 32 uContentLength).toInt = number at text ⊢
  have digits : ∀ c ∈ Kit.decimalText number, decide (c ≠ '\r') = true := by
    intro c member
    rcases Kit.decimalText_plain member with digit | rfl
    · apply decide_eq_true
      rintro rfl
      cases digit
    · rfl
  rw [contentLength, text, List.drop_left' (by rfl), List.takeWhile_append_of_pos digits,
    List.takeWhile_cons_of_neg (by decide), List.append_nil]
  exact Kit.decimalValue_text _

variable {s : Usi}

/-- The pieces follow each other to the end of the image. -/
theorem sendBody_ready (aligned : s.Aligned) (uAddr : Nat) :
    sendBody true s uAddr = bytesAt s.view uAddr (readLength s - uAddr) := by
  fun_induction sendBody true s uAddr with
  | case1 uAddr ended =>
    have behind : readLength s ≤ uAddr := by
      unfold fillFirmwareData at ended
      by_contra before
      simp only [Bool.true_eq_false, if_false,
        if_neg (show ¬ uAddr ≥ readLength s by omega)] at ended
      cases ended
    rw [Nat.sub_eq_zero_of_le behind]
    rfl
  | case2 uAddr piece next filled ih =>
    obtain ⟨_, forward, inside, read⟩ := fillFirmwareData_next filled
    have parts := bytesAt_append s.view uAddr (next - uAddr) (readLength s - next)
    rw [Nat.add_sub_cancel' forward.le] at parts
    rw [ih, read, usiMyRead_view aligned, parts]
    congr 1
    omega

theorem sendBody_notReady (s : Usi) (uAddr : Nat) : sendBody false s uAddr = [] := by
  rw [sendBody]
  split
  · rfl
  next filled => cases filled

theorem length_bytesAt (m : Nat → Cell) (addr len : Nat) : (bytesAt m addr len).length = len := by
  rw [bytesAt, List.length_map, List.length_range]

theorem readLength_lt (s : Usi) : readLength s < 4294967296 := by
  unfold readLength
  split
  · exact BitVec.isLt _
  · decide

/-- The announced length counts the header, which is not sent: it is right only where nothing is
to be sent. The image itself is sent as it is in the flash whenever the flash is there. -/
theorem firmware_download (chip : Chip) (g_uUSI_BUF : Nat → Cell) (calls : List Request)
    (usiIsReady : Bool) (version : Version) :
    let s := (serveAll Usi.serve (opened chip g_uUSI_BUF) calls).1
    let response := httpGetFirmware usiIsReady s version
    (usiIsReady = true → response.body = bytesAt s.view 16 (readLength s - 16)) ∧
      (response.body = bytesAt s.view 16 (readLength s - 16) ∧
          contentLength response.acExtra = response.body.length ↔
        if usiIsReady = true then readLength s = 0 else readLength s ≤ 16) := by
  intro s response
  have aligned : s.Aligned := by
    refine (serveAll_flat ?_ calls).1
    rintro block ⟨⟩
  have small := readLength_lt s
  have announced : contentLength response.acExtra =
      (BitVec.ofNat 32 (if usiIsReady = false then 0 else readLength s)).toInt :=
    contentLength_extraHeader version _
  cases usiIsReady with
  | true =>
    have body : response.body = bytesAt s.view 16 (readLength s - 16) := sendBody_ready aligned 16
    refine ⟨fun _ => body, ?_⟩
    rw [announced, body, length_bytesAt]
    simp only [Bool.true_eq_false, if_false, if_true, true_and, BitVec.toInt_eq_toNat_cond,
      BitVec.toNat_ofNat, Nat.reducePow, Nat.mod_eq_of_lt small]
    constructor
    · intro same
      split at same <;> omega
    · intro zero
      rw [zero]
      rfl
  | false =>
    have body : response.body = [] := sendBody_notReady s 16
    refine ⟨by rintro ⟨⟩, ?_⟩
    rw [announced, body]
    simp only [if_true, Bool.false_eq_true, if_false]
    constructor
    · intro right
      have length := congrArg List.length right.1
      rw [length_bytesAt] at length
      exact Nat.le_of_sub_eq_zero length.symm
    · intro short
      rw [Nat.sub_eq_zero_of_le short]
      exact ⟨rfl, rfl⟩

/-- A flash whose header says 17: one byte of image. -/
def oneByteImage : Chip := ⟨fun a => ⟨if a = 4 then 17 else 0, .previous⟩, 0⟩

/-- One byte is sent and 17 are announced. -/
theorem download_announces_header :
    ¬ ∀ (chip : Chip) (g_uUSI_BUF : Nat → Cell) (version : Version),
      let s := opened chip g_uUSI_BUF
      let response := httpGetFirmware true s version
      response.body = bytesAt s.view 16 (readLength s - 16) ∧
        contentLength response.acExtra = response.body.length := by
  intro right
  have claimed := (right oneByteImage (fun _ => blank) ⟨5, 0, [], []⟩).2
  have aligned : (opened oneByteImage fun _ => blank).Aligned := by
    rintro block ⟨⟩
  have image : readLength (opened oneByteImage fun _ => blank) = 17 := by
    rw [readLength, usiMyRead_view aligned]
    decide
  have body : (sendBody true (opened oneByteImage fun _ => blank) 16).length = 1 := by
    rw [sendBody_ready aligned, length_bytesAt, image]
  have announced := contentLength_extraHeader ⟨5, 0, [], []⟩ 17
  simp only [httpGetFirmware, image, body, Bool.true_eq_false, if_false] at claimed
  rw [claimed] at announced
  cases announced

end Rovio.Firmware
