import Rovio.Account.ConfigInterface
import Rovio.Mcu.Uart

/-! `ictlCtrlMCU`: the hexadecimal command becomes a frame for the motor controller, and the answer
becomes a hexadecimal string for the caller. -/
namespace Rovio.Mcu
open Rovio.Http Rovio.Account

def nul : Char := '\x00'

/-- The conversions of the HTTP library: two digits to their byte, and a byte to the string of its
two digits. -/
structure HexLib where
  httpHex2Char : Char → Char → UInt8
  httpChar2Hex : UInt8 → CString
  hex_string : ∀ ch, ∃ high low, high ≠ nul ∧ low ≠ nul ∧ httpChar2Hex ch = [high, low, nul]

/-! ### The frame buffer

An access outside it leaves nothing. -/

def put (buf : List UInt8) (offset : Nat) (bytes : List UInt8) : Option (List UInt8) :=
  if offset + bytes.length ≤ buf.length then some (store buf offset bytes) else none

def fetch (buf : List UInt8) (offset count : Nat) : Option (List UInt8) :=
  if offset + count ≤ buf.length then some ((buf.drop offset).take count) else none

/-- `offsetof(MPU_CMD_T, aucEndian)`. -/
def offsetEndian : Nat := 2

def offsetChecksum : Nat := 19

def offsetSuffix : Nat := 21

/-- `sizeof(MPU_CMD_T)`. -/
def sizeofCmd : Nat := 22

/-- `sizeof(mpcBuf)`. -/
def sizeofBuf : Nat := 264

/-- The 16 bits of `usCheckSum`. -/
def checkSum (bytes : List UInt8) : Nat :=
    bytes.foldl (fun sum byte => (sum + byte.toNat) % 65536) 0

def wordBytes (word : Nat) : List UInt8 := [UInt8.ofNat word, UInt8.ofNat (word / 256)]

section
variable (lib : HexLib)

/-- The loop that makes the bytes of the command. -/
def decode : Nat → Nat → CString → List UInt8 → Option (Ictl × List UInt8)
  | 0, _, _, buf => some (.ok, buf)
  | n + 1, i, high :: low :: pcCommand, buf =>
    (put buf i [lib.httpHex2Char high low]).bind fun buf => decode n (i + 1) pcCommand buf
  | _ + 1, _, _, buf => some (.invalidParameters, buf)

/-- The frame that is sent, and the buffer with it. -/
def buildFrame (mpcBuf : List UInt8) (pcCommand : CString) :
    Option (Ictl × List UInt8 × List UInt8) := do
  let ucMPU_CmdLength := pcCommand.length / 2 % 256
  let (rc, buf) ← decode lib ucMPU_CmdLength offsetEndian pcCommand mpcBuf
  if rc = .ok then
    let buf ← put buf 0 [0x55]
    let buf ← put buf 1 [UInt8.ofNat ucMPU_CmdLength]
    let buf ← put buf offsetSuffix [0xAA]
    let summed ← fetch buf 1 (ucMPU_CmdLength + 1)
    let buf ← put buf offsetChecksum (wordBytes (checkSum summed))
    let sent ← fetch buf 0 (sizeofCmd - (offsetChecksum - offsetEndian) + ucMPU_CmdLength)
    some (.ok, sent, buf)
  else some (rc, [], buf)

/-- The stores of the loop that writes the answer's digits, with their places in the caller's
buffer. -/
def dump (buf : List UInt8) (szMaxResponse : Nat) : Nat → Nat → Option (List (Nat × Char))
  | 0, _ => some []
  | n + 1, i => do
    let here ← if i + 3 < szMaxResponse then
        (buf[offsetEndian + i]?).map fun ch => (lib.httpChar2Hex ch).mapIdx fun j c => (2 * i + j, c)
      else some []
    let rest ← dump buf szMaxResponse n (i + 1)
    some (here ++ rest)

/-- The stores of the block that writes the answer. -/
def writeResponse (buf : List UInt8) : Option Nat → Option (List (Nat × Char))
  | none => some []
  | some szMaxResponse =>
    if 0 < szMaxResponse then do
      let ucLength ← buf[1]?
      let stores ← dump lib buf szMaxResponse ucLength.toNat 0
      some ((0, nul) :: (szMaxResponse - 1, nul) :: stores)
    else some []

structure Control where
  rc : Ictl
  sent : List UInt8
  stores : List (Nat × Char)
deriving DecidableEq

def ictlCtrlMCU (pHandle : Option Handle) (pcCommand : Option CString) (pcResponse : Option Nat)
    (mpcBuf uart : List UInt8) : Option Control :=
  match pHandle with
  | none => some ⟨.unauthorized, [], []⟩
  | some handle =>
    if handle.privilege < authUser then some ⟨.unauthorized, [], []⟩
    else match pcCommand with
      | none => some ⟨.ok, [], []⟩
      | some pcCommand => do
        let (rc, sent, buf) ← buildFrame lib mpcBuf pcCommand
        if rc = .ok then
          let stores ← writeResponse lib (mcuRecv uart buf).pResponse pcResponse
          some ⟨.ok, sent, stores⟩
        else some ⟨rc, [], []⟩

/-- The bytes that a command stands for. -/
def payload : CString → List UInt8
  | high :: low :: pcCommand => lib.httpHex2Char high low :: payload pcCommand
  | _ => []

/-- The frame of a payload. -/
def framed (payload : List UInt8) : List UInt8 :=
  let summed := UInt8.ofNat payload.length :: payload
  0x55 :: summed ++ wordBytes (checkSum summed) ++ [0xAA]

/-- The command is sent as a frame, without an access outside the buffer, whatever the buffer holds
before. -/
def SentFramed (pcCommand : CString) : Prop :=
  ∀ pHandle pcResponse mpcBuf uart, mpcBuf.length = sizeofBuf →
    ∃ control, ictlCtrlMCU lib pHandle (some pcCommand) pcResponse mpcBuf uart = some control ∧
      (control.rc = .ok → control.sent = framed (payload lib pcCommand))

end

section
variable {lib : HexLib} {buf : List UInt8} {pcCommand : CString}

theorem put_some {bytes : List UInt8} {offset : Nat} (room : offset + bytes.length ≤ buf.length) :
    put buf offset bytes = some (store buf offset bytes) := if_pos room

theorem fetch_some {offset count : Nat} (room : offset + count ≤ buf.length) :
    fetch buf offset count = some ((buf.drop offset).take count) := if_pos room

theorem payload_length (pcCommand : CString) :
    (payload lib pcCommand).length = pcCommand.length / 2 := by
  induction pcCommand using payload.induct with
  | case1 high low pcCommand ih =>
    simp only [payload, List.length_cons, ih]
    omega
  | case2 pcCommand short =>
    match pcCommand with
    | [] => rfl
    | [_] => simp [payload]
    | high :: low :: rest => exact absurd rfl (short high low rest)

/-- What the buffer of `n` bytes of payload holds before the checksum is written. -/
def filled (mpcBuf payload : List UInt8) (n : Nat) : List UInt8 :=
  store (store (store (store mpcBuf offsetEndian payload) 0 [0x55]) 1 [UInt8.ofNat n])
    offsetSuffix [0xAA]

/-- And behind it. -/
def summed (mpcBuf payload : List UInt8) (n : Nat) : List UInt8 :=
  store (filled mpcBuf payload n) offsetChecksum
    (wordBytes (checkSum (((filled mpcBuf payload n).drop 1).take (n + 1))))

section
variable {n : Nat} {bytes : List UInt8}

theorem stored {offset : Nat} (size : buf.length = sizeofBuf)
    (room : offset + bytes.length ≤ sizeofBuf) : (store buf offset bytes).length = sizeofBuf := by
  rw [store_length (size ▸ room)]
  exact size

theorem one_room {offset : Nat} (byte : UInt8) (inside : offset < sizeofBuf) :
    offset + [byte].length ≤ sizeofBuf := inside

theorem filled_get (size : buf.length = sizeofBuf) (count : bytes.length = n) (few : n < 256) :
    (filled buf bytes n).length = sizeofBuf ∧ ∀ j, (filled buf bytes n)[j]? =
      if j = 0 then some 0x55 else if j = 1 then some (UInt8.ofNat n)
      else if j = offsetSuffix then some 0xAA
      else if j < offsetEndian + n then bytes[j - offsetEndian]? else buf[j]? := by
  have inside : offsetEndian + bytes.length ≤ sizeofBuf := by
    simp only [offsetEndian, sizeofBuf]
    omega
  have body := stored size inside
  have leading := stored body (one_room 0x55 (show 0 < sizeofBuf by decide))
  have length := stored leading (one_room (UInt8.ofNat n) (show 1 < sizeofBuf by decide))
  have suffix : offsetSuffix + [(0xAA : UInt8)].length ≤ sizeofBuf := by decide
  refine ⟨stored length suffix, fun j => ?_⟩
  rw [filled, store_get (length ▸ suffix), store_get (leading ▸ one_room _ (by decide)),
    store_get (body ▸ one_room _ (by decide)), store_get (size ▸ inside)]
  simp only [List.length_singleton, offsetEndian, offsetSuffix, count]
  grind

end

theorem framed_length (bytes : List UInt8) : (framed bytes).length = bytes.length + 5 := by
  simp [framed, wordBytes]

/-- As many bytes as the string has digits for. -/
theorem decode_run (n i : Nat) (pcCommand : CString) (buf : List UInt8)
    (digits : 2 * n ≤ pcCommand.length) (room : i + n ≤ buf.length) :
    decode lib n i pcCommand buf =
      some (.ok, store buf i ((payload lib pcCommand).take n)) := by
  induction n generalizing i pcCommand buf with
  | zero => simp [decode, store]
  | succ n ih =>
    obtain ⟨high, low, rest, rfl⟩ : ∃ high low rest, pcCommand = high :: low :: rest := by
      rcases pcCommand with _ | ⟨high, _ | ⟨low, rest⟩⟩
      · cases digits
      · simp only [List.length_singleton] at digits
        omega
      · exact ⟨high, low, rest, rfl⟩
    have one : i + [lib.httpHex2Char high low].length ≤ buf.length := by
      simp only [List.length_singleton]
      omega
    have next := ih (i + 1) rest (store buf i [lib.httpHex2Char high low])
      (by simp only [List.length_cons] at digits; omega)
      (by rw [store_length one]; omega)
    rw [decode, put_some one, Option.bind_some, next]
    have joined := store_append (show i ≤ buf.length by omega) [lib.httpHex2Char high low]
      ((payload lib rest).take n)
    rw [List.length_singleton] at joined
    rw [joined]
    rfl

/-- The frame is built within the buffer. -/
theorem buildFrame_run (lib : HexLib) (pcCommand : CString) (size : buf.length = sizeofBuf) :
    let n := pcCommand.length / 2 % 256
    let sent := summed buf ((payload lib pcCommand).take n) n
    sent.length = sizeofBuf ∧
      buildFrame lib buf pcCommand = some (.ok, sent.take (n + 5), sent) := by
  intro n sent
  have few : n < 256 := Nat.mod_lt _ (by decide)
  have digits : 2 * n ≤ pcCommand.length := by
    have := Nat.mod_le (pcCommand.length / 2) 256
    omega
  have count : ((payload lib pcCommand).take n).length = n := by
    rw [List.length_take, payload_length]
    omega
  have inside : offsetEndian + ((payload lib pcCommand).take n).length ≤ sizeofBuf := by
    simp only [offsetEndian, sizeofBuf]
    omega
  have body := stored size inside
  have leading := stored body (one_room 0x55 (show 0 < sizeofBuf by decide))
  have length := stored leading (one_room (UInt8.ofNat n) (show 1 < sizeofBuf by decide))
  have full := (filled_get size count few).1
  have sums : offsetChecksum + (wordBytes (checkSum (((filled buf
      ((payload lib pcCommand).take n) n).drop 1).take (n + 1)))).length ≤ sizeofBuf := by
    show 19 + 2 ≤ 264
    decide
  have all : sent.length = sizeofBuf := stored full sums
  have decoded : decode lib n offsetEndian pcCommand buf =
      some (.ok, store buf offsetEndian ((payload lib pcCommand).take n)) :=
    decode_run n offsetEndian pcCommand buf digits (by rw [count] at inside; rw [size]; exact inside)
  refine ⟨all, ?_⟩
  have suffix : offsetSuffix + [(0xAA : UInt8)].length ≤ sizeofBuf := by decide
  simp only [buildFrame, Option.bind_eq_bind, n] at decoded ⊢
  rw [decoded]
  simp only [Option.bind_some, if_true]
  rw [put_some (body ▸ one_room 0x55 (by decide)), Option.bind_some,
    put_some (leading ▸ one_room (UInt8.ofNat n) (by decide)), Option.bind_some,
    put_some (length ▸ suffix), Option.bind_some]
  change (fetch (filled buf ((payload lib pcCommand).take n) n) 1 (n + 1)).bind _ = _
  rw [fetch_some (by rw [full]; simp only [sizeofBuf]; omega), Option.bind_some,
    put_some (full ▸ sums), Option.bind_some]
  change (fetch sent 0 (sizeofCmd - (offsetChecksum - offsetEndian) + n)).bind _ = _
  have room : 0 + (sizeofCmd - (offsetChecksum - offsetEndian) + n) ≤ sent.length := by
    rw [all]
    simp only [sizeofCmd, offsetChecksum, offsetEndian, sizeofBuf]
    omega
  rw [fetch_some room, Option.bind_some, Nat.add_comm n 5]
  rfl

theorem dump_isSome (lib : HexLib) (szMaxResponse : Nat) {n i : Nat}
    (room : offsetEndian + i + n ≤ buf.length) :
    (dump lib buf szMaxResponse n i).isSome = true := by
  induction n generalizing i with
  | zero => rfl
  | succ n ih =>
    obtain ⟨rest, more⟩ := Option.isSome_iff_exists.mp (@ih (i + 1) (by omega))
    have here : buf[offsetEndian + i]? = some buf[offsetEndian + i] :=
      List.getElem?_eq_getElem (by omega)
    rw [dump, here, more]
    split <;> rfl

theorem writeResponse_isSome (lib : HexLib) (size : buf.length = sizeofBuf)
    (pcResponse : Option Nat) : (writeResponse lib buf pcResponse).isSome = true := by
  match pcResponse with
  | none => rfl
  | some szMaxResponse =>
    rw [writeResponse]
    split
    · have second : 1 < buf.length := by
        rw [size]
        decide
      have here : buf[1]? = some buf[1] := List.getElem?_eq_getElem second
      have room : offsetEndian + 0 + buf[1].toNat ≤ buf.length := by
        have byte := buf[1].toNat_lt
        simp only [offsetEndian, size, sizeofBuf]
        omega
      obtain ⟨stores, dumped⟩ := Option.isSome_iff_exists.mp (dump_isSome lib szMaxResponse room)
      rw [here, Option.bind_eq_bind, Option.bind_some, dumped]
      rfl
    · rfl

theorem ictlCtrlMCU_run (lib : HexLib) (pcCommand : CString) (size : buf.length = sizeofBuf)
    {handle : Handle} (allowed : ¬ handle.privilege < authUser) (pcResponse : Option Nat)
    (uart : List UInt8) :
    let n := pcCommand.length / 2 % 256
    let sent := summed buf ((payload lib pcCommand).take n) n
    ∃ stores, writeResponse lib (mcuRecv uart sent).pResponse pcResponse = some stores ∧
      ictlCtrlMCU lib (some handle) (some pcCommand) pcResponse buf uart =
        some ⟨.ok, sent.take (n + 5), stores⟩ := by
  intro n sent
  obtain ⟨all, built⟩ := buildFrame_run lib pcCommand size
  obtain ⟨stores, written⟩ := Option.isSome_iff_exists.mp
    (writeResponse_isSome lib ((mcuRecv_length uart sent).trans all) pcResponse)
  refine ⟨stores, written, ?_⟩
  simp only [ictlCtrlMCU, if_neg allowed, built, Option.bind_eq_bind, Option.bind_some, if_true]
  change (writeResponse lib (mcuRecv uart sent).pResponse pcResponse).bind _ = _
  rw [written]
  rfl

/-- The sum goes to its fixed place. -/
theorem summed_get {n : Nat} {bytes : List UInt8} (size : buf.length = sizeofBuf)
    (count : bytes.length = n) (few : n < 256) (j : Nat) :
    (summed buf bytes n)[j]? =
      if offsetChecksum ≤ j ∧ j < offsetChecksum + 2 then
        (wordBytes (checkSum (((filled buf bytes n).drop 1).take (n + 1))))[j - offsetChecksum]?
      else (filled buf bytes n)[j]? := by
  have room : offsetChecksum + 2 ≤ (filled buf bytes n).length := by
    rw [(filled_get size count few).1]
    decide
  exact store_get room j

/-- A byte behind the payload that is at no fixed place is what the buffer held before. -/
theorem summed_unset {n j : Nat} {bytes : List UInt8} (size : buf.length = sizeofBuf)
    (count : bytes.length = n) (few : n < 256) (behind : offsetEndian + n ≤ j)
    (free : j < offsetChecksum ∨ offsetSuffix < j) : (summed buf bytes n)[j]? = buf[j]? := by
  rw [summed_get size count few, (filled_get size count few).2]
  simp only [offsetChecksum, offsetSuffix, offsetEndian] at behind free ⊢
  grind

/-- The places are right for 17 bytes. -/
theorem summed_framed {bytes : List UInt8} (size : buf.length = sizeofBuf)
    (count : bytes.length = 17) : (summed buf bytes 17).take (17 + 5) = framed bytes := by
  have sums : ((filled buf bytes 17).drop 1).take (17 + 1) = UInt8.ofNat 17 :: bytes := by
    apply List.ext_getElem?
    intro j
    rw [List.getElem?_take, List.getElem?_drop, (filled_get size count (by decide)).2]
    simp only [offsetSuffix, offsetEndian]
    grind
  apply List.ext_getElem?
  intro j
  rw [List.getElem?_take, summed_get size count (by decide),
    (filled_get size count (by decide)).2, sums]
  simp only [offsetSuffix, offsetEndian, offsetChecksum, framed, count, wordBytes]
  grind

/-- Of any other length one byte of the frame is left as the buffer had it, or the frame is short. -/
theorem seventeen_of_same {bytes frame : List UInt8} {n : Nat} (few : n < 256)
    (count : bytes.length = n) (same : ∀ byte, (summed (List.replicate sizeofBuf byte) bytes n).take
      (n + 5) = frame) : n = 17 := by
  by_contra other
  -- where the sum or the suffix of a frame is due
  obtain ⟨j, behind, free, within⟩ : ∃ j, offsetEndian + n ≤ j ∧
      (j < offsetChecksum ∨ offsetSuffix < j) ∧ j < n + 5 := by
    rcases Nat.lt_or_gt_of_ne other with less | more
    · exact ⟨n + 2, by simp only [offsetEndian]; omega, by simp only [offsetChecksum]; omega, by omega⟩
    · exact ⟨n + 4, by simp only [offsetEndian]; omega, by simp only [offsetSuffix]; omega, by omega⟩
  have held (byte : UInt8) : frame[j]? = some byte := by
    have size : (List.replicate sizeofBuf byte).length = sizeofBuf := List.length_replicate
    rw [← same byte, List.getElem?_take_of_lt within, summed_unset size count few behind free]
    exact List.getElem?_replicate_of_lt (by simp only [sizeofBuf]; omega)
  have both := (held 0).symm.trans (held 1)
  cases both

/-- The frame is right where its payload has the length of `MPU_CMD_T`, whose places the checksum
and the suffix take. -/
theorem command_framed (lib : HexLib) (pcCommand : CString) :
    SentFramed lib pcCommand ↔ pcCommand.length / 2 = 17 := by
  have user : ¬ (Handle.mk [] [] authUser).privilege < authUser := by decide
  constructor
  · intro sent
    -- two buffers that differ in every byte
    have same (byte : UInt8) : (summed (List.replicate sizeofBuf byte)
        ((payload lib pcCommand).take (pcCommand.length / 2 % 256))
        (pcCommand.length / 2 % 256)).take (pcCommand.length / 2 % 256 + 5) =
        framed (payload lib pcCommand) := by
      have size : (List.replicate sizeofBuf byte).length = sizeofBuf := List.length_replicate
      obtain ⟨stores, -, run⟩ := ictlCtrlMCU_run lib pcCommand size user none []
      obtain ⟨control, ran, frame⟩ := sent (some ⟨[], [], authUser⟩) none _ [] size
      rw [run] at ran
      cases ran
      exact frame rfl
    have digits : (payload lib pcCommand).length = pcCommand.length / 2 := payload_length pcCommand
    have short : pcCommand.length / 2 < 256 := by
      have size : (List.replicate sizeofBuf (0 : UInt8)).length = sizeofBuf :=
        List.length_replicate
      have all := (buildFrame_run lib pcCommand size).1
      have few : pcCommand.length / 2 % 256 < 256 := Nat.mod_lt _ (by decide)
      have lengths := congrArg List.length (same 0)
      rw [List.length_take, all, framed_length, digits] at lengths
      simp only [sizeofBuf] at lengths
      omega
    rw [Nat.mod_eq_of_lt short, List.take_of_length_le (Nat.le_of_eq digits)] at same
    exact seventeen_of_same short digits same
  · intro seventeen pHandle pcResponse mpcBuf uart size
    match pHandle with
    | none => exact ⟨_, rfl, by rintro ⟨⟩⟩
    | some handle =>
      by_cases allowed : handle.privilege < authUser
      · exact ⟨⟨.unauthorized, [], []⟩, if_pos allowed, by rintro ⟨⟩⟩
      · obtain ⟨stores, -, run⟩ := ictlCtrlMCU_run lib pcCommand size allowed pcResponse uart
        refine ⟨_, run, fun _ => ?_⟩
        have count : (payload lib pcCommand).length = 17 :=
          (payload_length pcCommand).trans seventeen
        have all : (payload lib pcCommand).take 17 = payload lib pcCommand :=
          List.take_of_length_le (Nat.le_of_eq count)
        simp only [seventeen]
        change (summed mpcBuf ((payload lib pcCommand).take 17) 17).take (17 + 5) = _
        rw [all]
        exact summed_framed size count

end

def hexDigit (n : Nat) : Char := if n ≤ 9 then Char.ofNat (0x30 + n) else Char.ofNat (0x37 + n)

def hexValue (digit : Char) : Nat :=
  if digit.isDigit then digit.toNat - 0x30 else digit.toUpper.toNat - 0x37

theorem hexDigit_ne_nul : ∀ n < 16, hexDigit n ≠ nul := by decide

def upperHex : HexLib where
  httpHex2Char high low := UInt8.ofNat (hexValue high * 16 + hexValue low)
  httpChar2Hex ch := [hexDigit (ch.toNat / 16), hexDigit (ch.toNat % 16), nul]
  hex_string ch := ⟨_, _, hexDigit_ne_nul _ (Nat.div_lt_of_lt_mul ch.toNat_lt),
    hexDigit_ne_nul _ (Nat.mod_lt _ (Nat.succ_pos 15)), rfl⟩

/-- Two bytes of payload: the sum and the suffix are not sent. -/
theorem short_command_run :
    ictlCtrlMCU upperHex (some ⟨[], [], authUser⟩) (some ['4', '9', '4', '9']) none
        (List.replicate sizeofBuf 0) [] = some ⟨.ok, [0x55, 2, 0x49, 0x49, 0, 0, 0], []⟩ ∧
      framed (payload upperHex ['4', '9', '4', '9']) = [0x55, 2, 0x49, 0x49, 0x94, 0, 0xAA] := by
  decide +kernel

theorem short_command_misframed : ¬ SentFramed upperHex ['4', '9', '4', '9'] := by
  intro sent
  obtain ⟨control, ran, frame⟩ := sent (some ⟨[], [], authUser⟩) none _ [] List.length_replicate
  rw [short_command_run.1] at ran
  cases ran
  have same := frame rfl
  rw [short_command_run.2] at same
  cases same

end Rovio.Mcu
