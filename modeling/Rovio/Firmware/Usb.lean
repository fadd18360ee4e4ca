import Rovio.Usb.Codec
import Rovio.Firmware.Image

/-! The firmware request of the USB channel. The packages of the file are collected, and of
sixteen, or at the last one, the bytes are written. -/
namespace Rovio.Firmware

structure RequestStatus where
  errNum : Int
  msg : Option String
  deriving DecidableEq

/-- What the handler does: it writes, or it tells the client. -/
inductive Act where
  | usi (call : Call)
  | statusReply (reply : RequestStatus)

def Act.call : Act → Option Call
  | .usi call => some call
  | .statusReply _ => none

def ok : Act := .statusReply ⟨0, none⟩

/-- The checksum over a package, its last byte included. -/
def checksum (bytes : List UInt8) : UInt8 := bytes.foldl (· ^^^ ·) 0

/-- PACKAGE_SIZE. -/
def packageSize : Nat := 1024 * 2

/-- NUM_FOR_WRITE. -/
def numForWrite : Nat := 16

/-- A `filesize` that is signed. -/
def lastPackage (filesize : Xdr.Word) : Bool := filesize.toInt ≤ packageSize

def pakesize (filesize : Xdr.Word) : Nat :=
  if lastPackage filesize then (filesize + 1).toNat else packageSize + 1

/-- The loop over the packages: `cur` is what `fmiBuff` holds. USBRead fails or gives all of the
bytes it is asked for, here with the byte behind the payload also where it is asked for none. What
a read of more than the buffer does to the memory, for a negative length, is left out. -/
def firmwareLoop (filesize : Xdr.Word) (can_write start : Nat) (cur : List UInt8) :
    List (Option (List UInt8)) → List Act
  | [] => []
  | none :: _ => []
  | some bytes :: reads =>
    if bytes.length ≠ pakesize filesize - 1 + 1 then []
    else if checksum bytes ≠ 0 then [.statusReply ⟨-1, some "transfers error"⟩]
    else
      let cur := cur ++ bytes.dropLast
      let can_write := if lastPackage filesize then numForWrite else can_write + 1
      if can_write = numForWrite then
        .usi (.usiMyWrite start (ofTransfer cur)) :: ok ::
          if lastPackage filesize then [.usi .usiMyFlash]
          else firmwareLoop (filesize - packageSize) 0 (start + cur.length) [] reads
      else ok :: firmwareLoop (filesize - packageSize) can_write start cur reads

/-- `request` is what the read of the request leaves in `reqBuf`. A `usiMyWrite` reports no error. -/
def firmwareRequst (request : Option (Nat → UInt8)) (usiIsReady malloc : Bool)
    (reads : List (Option (List UInt8))) : List Act :=
  match request with
  | none => []
  | some reqBuf =>
    match Xdr.xdrfirmwareStru 4096 .decode ⟨0⟩ ⟨reqBuf, 0⟩ with
    | none => []
    | some (firm, _) =>
      if !usiIsReady then [.statusReply ⟨-1, some "No flash"⟩]
      else if !malloc then []
      else
        ok :: .usi (.usiMyWrite 0 (ofTransfer (Upload.header (firm.lenth + 16).toNat))) ::
          firmwareLoop firm.lenth 0 16 [] reads

/-- The payloads of the packages that arrive intact, and whether the last one is among them. -/
def received (filesize : Xdr.Word) : List (Option (List UInt8)) → List (List UInt8) × Bool
  | [] => ([], false)
  | none :: _ => ([], false)
  | some bytes :: reads =>
    if bytes.length ≠ pakesize filesize - 1 + 1 ∨ checksum bytes ≠ 0 then ([], false)
    else if lastPackage filesize then ([bytes.dropLast], true)
    else
      let (payloads, complete) := received (filesize - packageSize) reads
      (bytes.dropLast :: payloads, complete)

/-! ### What it writes -/

/-- The bytes handed to the flash of what is received: all, or those of whole groups. -/
def handed (packages : Nat) (complete : Bool) (bytes : List UInt8) : List UInt8 :=
  if complete then bytes else bytes.take (packageSize * numForWrite * (packages / numForWrite))

theorem payload_length {filesize : Xdr.Word} {bytes : List UInt8}
    (more : lastPackage filesize = false)
    (size : bytes.length = pakesize filesize - 1 + 1) : bytes.dropLast.length = packageSize := by
  rw [List.length_dropLast, size, pakesize, more]
  rfl

theorem ofTransfer_append (left right : List UInt8) :
    ofTransfer (left ++ right) = ofTransfer left ++ ofTransfer right := List.map_append

theorem calls_usi (call : Call) (acts : List Act) :
    (Act.usi call :: acts).filterMap Act.call = call :: acts.filterMap Act.call := rfl

theorem calls_ok (acts : List Act) :
    (ok :: acts).filterMap Act.call = acts.filterMap Act.call := rfl

/-- Before the sixteenth package. -/
theorem handed_none {can_write : Nat} (room : can_write < numForWrite) (bytes : List UInt8) :
    handed can_write false bytes = [] := by
  simp [handed, Nat.div_eq_of_lt room]

/-- A group of sixteen. -/
theorem handed_group {group rest : List UInt8} {packages : Nat} {complete : Bool}
    (size : group.length = packageSize * numForWrite) :
    handed (numForWrite + packages) complete (group ++ rest) =
      group ++ handed packages complete rest := by
  cases complete with
  | true => rfl
  | false =>
    have groups : (numForWrite + packages) / numForWrite = packages / numForWrite + 1 := by
      rw [Nat.add_comm, Nat.add_div_right _ (by decide)]
    simp only [handed, Bool.false_eq_true, if_false]
    rw [groups, Nat.mul_succ, Nat.add_comm, ← size, List.take_length_add_append]

/-- The writes of the loop go on from `start`, and the last package brings them to the chip. -/
theorem firmwareLoop_calls {filesize : Xdr.Word} {can_write start : Nat} {cur : List UInt8}
    {reads : List (Option (List UInt8))} (room : can_write < numForWrite)
    (size : cur.length = packageSize * can_write) :
    ∃ chunks, (firmwareLoop filesize can_write start cur reads).filterMap Act.call =
        consecutive start chunks ++ (if (received filesize reads).2 then [.usiMyFlash] else []) ∧
      chunks.flatten = ofTransfer (handed (can_write + (received filesize reads).1.length)
        (received filesize reads).2 (cur ++ (received filesize reads).1.flatten)) := by
  induction reads generalizing filesize can_write start cur with
  | nil => exact ⟨[], rfl, by simp [received, handed_none room, ofTransfer]⟩
  | cons read reads ih =>
    cases read with
    | none => exact ⟨[], rfl, by simp [received, handed_none room, ofTransfer]⟩
    | some bytes =>
      by_cases bad : bytes.length ≠ pakesize filesize - 1 + 1 ∨ checksum bytes ≠ 0
      · have stops : (firmwareLoop filesize can_write start cur (some bytes :: reads)).filterMap
            Act.call = [] := by
          rw [firmwareLoop]
          rcases Decidable.em (bytes.length ≠ pakesize filesize - 1 + 1) with short | whole
          · rw [if_pos short]
            rfl
          · rw [if_neg whole, if_pos (bad.resolve_left whole)]
            rfl
        rw [stops, received, if_pos bad]
        exact ⟨[], rfl, by simp [handed_none room, ofTransfer]⟩
      · obtain ⟨whole, sum⟩ := not_or.mp bad
        rw [firmwareLoop, if_neg whole, if_neg sum, received, if_neg bad]
        cases last : lastPackage filesize with
        | true =>
          exact ⟨[ofTransfer (cur ++ bytes.dropLast)], rfl, by simp [handed]⟩
        | false =>
          have payload := payload_length last (not_not.mp whole)
          have group : (cur ++ bytes.dropLast).length = packageSize * (can_write + 1) := by
            rw [List.length_append, size, payload, Nat.mul_succ]
          by_cases full : can_write + 1 = numForWrite
          · obtain ⟨chunks, calls, flat⟩ := @ih (filesize - packageSize) 0
              (start + (cur ++ bytes.dropLast).length) [] (by decide) rfl
            refine ⟨ofTransfer (cur ++ bytes.dropLast) :: chunks, ?_, ?_⟩
            · simp only [full, if_true, Bool.false_eq_true, if_false]
              rw [calls_usi, calls_ok, calls, consecutive, length_ofTransfer]
              rfl
            · simp only [Bool.false_eq_true, if_false, List.length_cons, List.flatten_cons]
              rw [flat, List.nil_append, Nat.zero_add, ← List.append_assoc,
                show can_write + ((received (filesize - packageSize) reads).1.length + 1) =
                  numForWrite + (received (filesize - packageSize) reads).1.length by omega,
                handed_group (full ▸ group), ofTransfer_append (cur ++ bytes.dropLast)]
          · obtain ⟨chunks, calls, flat⟩ := @ih (filesize - packageSize) (can_write + 1) start
              (cur ++ bytes.dropLast) (by omega) group
            refine ⟨chunks, ?_, ?_⟩
            · simp only [full, if_false, Bool.false_eq_true]
              exact calls
            · simp only [Bool.false_eq_true, if_false, List.length_cons, List.flatten_cons]
              rw [flat, List.append_assoc, Nat.add_right_comm, Nat.add_assoc]

/-! ### What a power cut leaves -/

/-- The length of a transfer that starts. -/
def usbLenth (request : Option (Nat → UInt8)) (usiIsReady malloc : Bool) : Option Xdr.Word :=
  match request with
  | none => none
  | some reqBuf =>
    if usiIsReady && malloc then some (Kit.leWord (reqBuf 0) (reqBuf 1) (reqBuf 2) (reqBuf 3))
    else none

/-- The bytes that go to the flash behind the header. -/
def usbImage (r : List (List UInt8) × Bool) : List UInt8 := handed r.1.length r.2 r.1.flatten

variable {bytes : Nat → UInt8} {g_uUSI_BUF : Nat → Cell} {request : Option (Nat → UInt8)}
  {usiIsReady malloc : Bool} {reads : List (Option (List UInt8))} {k : Nat}

theorem firmwareRequst_none (none : usbLenth request usiIsReady malloc = none) :
    (firmwareRequst request usiIsReady malloc reads).filterMap Act.call = [] := by
  cases request with
  | none => rfl
  | some reqBuf =>
    cases usiIsReady with
    | false => rfl
    | true =>
      cases malloc with
      | false => rfl
      | true => cases none

theorem firmwareRequst_some {lenth : Xdr.Word}
    (starts : usbLenth request usiIsReady malloc = some lenth) :
    (firmwareRequst request usiIsReady malloc reads).filterMap Act.call =
      .usiMyWrite 0 (ofTransfer (Upload.header (lenth + 16).toNat)) ::
        (firmwareLoop lenth 0 16 [] reads).filterMap Act.call := by
  cases request with
  | none => cases starts
  | some reqBuf =>
    cases usiIsReady with
    | false => cases starts
    | true =>
      cases malloc with
      | false => cases starts
      | true =>
        cases starts
        rfl

end Rovio.Firmware
