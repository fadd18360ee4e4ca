import Mathlib.Data.List.Basic

/-! The frames of the motor controller and how one is read from the serial line. A byte that has
been answered is there within the second that `hi_uart_read` waits for it. -/
namespace Rovio.Mcu

/-- A well-formed answer: the leading byte, the length, and as many bytes with the checksum and
the suffix. -/
structure Frame where
  ucLength : UInt8
  body : List UInt8
  complete : body.length = ucLength.toNat + 3

def Frame.bytes (frame : Frame) : List UInt8 := 0x55 :: frame.ucLength :: frame.body

/-- What was read and how much, and what remains; −1 where nothing could be read. -/
def hiUartRead (uart : List UInt8) (size : Nat) : Int × List UInt8 × List UInt8 :=
  let buf := uart.take size
  (if buf.length = 0 then -1 else buf.length, buf, uart.drop size)

/-- Bytes written into a buffer. -/
def store (buf : List UInt8) (offset : Nat) (bytes : List UInt8) : List UInt8 :=
  buf.take offset ++ bytes ++ buf.drop (offset + bytes.length)

/-- The bytes for which the buffer has no room are read one by one. -/
def readRemaining : Nat → List UInt8 → List UInt8 × Bool
  | 0, uart => (uart, true)
  | n + 1, uart =>
    let (len, _, uart) := hiUartRead uart 1
    if len ≠ 1 then (uart, false) else readRemaining n uart

structure Received where
  rt_len : Int
  pResponse : List UInt8
  uart : List UInt8
  bNoError : Bool

def mcuRecv (uart pResponse : List UInt8) : Received :=
  if pResponse.length < 2 then ⟨0, pResponse, uart, true⟩
  else
    let (len, head, uart) := hiUartRead uart 2
    let rt_len := if len > 0 then len else 0
    let pRes := store pResponse 0 head
    match head with
    | [ucLeading, ucLength] =>
      if ucLeading = 0x55 then
        let to_read_len := ucLength.toNat + 3
        let read_len := if to_read_len ≥ pResponse.length - 2 then pResponse.length - 2 else to_read_len
        if read_len > 0 then
          let (len, data, uart) := hiUartRead uart read_len
          let (uart, bRead) := readRemaining (to_read_len - read_len) uart
          if len < 0 then ⟨rt_len, store pRes 1 [0], uart, false⟩
          else ⟨rt_len + len, store pRes 2 data, uart, decide (len = read_len) && bRead⟩
        else
          let (uart, bRead) := readRemaining (to_read_len - read_len) uart
          ⟨rt_len, pRes, uart, bRead⟩
      else ⟨rt_len, store pRes 1 [0], uart, false⟩
    | _ => ⟨rt_len, store pRes 1 [0], uart, false⟩

theorem hiUartRead_all {bytes rest : List UInt8} (some : 0 < bytes.length) :
    hiUartRead (bytes ++ rest) bytes.length = ((bytes.length : Int), bytes, rest) := by
  have all : (bytes ++ rest).take bytes.length = bytes := List.take_left
  have size : bytes.length ≠ 0 := Nat.ne_of_gt some
  simp only [hiUartRead, all, List.drop_left, if_neg size]

theorem readRemaining_all (bytes rest : List UInt8) :
    readRemaining bytes.length (bytes ++ rest) = (rest, true) := by
  induction bytes with
  | nil => rfl
  | cons byte bytes ih =>
    have one : hiUartRead (byte :: bytes ++ rest) 1 = (1, [byte], bytes ++ rest) := rfl
    simp only [List.length_cons, readRemaining, one]
    exact ih

theorem store_length {buf bytes : List UInt8} {offset : Nat}
    (room : offset + bytes.length ≤ buf.length) : (store buf offset bytes).length = buf.length := by
  simp only [store, List.length_append, List.length_take, List.length_drop]
  omega

/-- What a buffer holds after the write. -/
theorem store_get {buf bytes : List UInt8} {offset : Nat}
    (room : offset + bytes.length ≤ buf.length) (j : Nat) :
    (store buf offset bytes)[j]? =
      if offset ≤ j ∧ j < offset + bytes.length then bytes[j - offset]? else buf[j]? := by
  have front : (buf.take offset).length = offset := List.length_take_of_le (by omega)
  rw [store, List.append_assoc]
  rcases Nat.lt_or_ge j offset with before | behind
  · rw [List.getElem?_append_left (by omega), List.getElem?_take_of_lt before, if_neg (by omega)]
  rw [List.getElem?_append_right (by omega), front]
  rcases Nat.lt_or_ge j (offset + bytes.length) with inside | after
  · rw [List.getElem?_append_left (by omega), if_pos ⟨behind, inside⟩]
  · rw [List.getElem?_append_right (by omega), List.getElem?_drop, if_neg (by omega)]
    exact congrArg (buf[·]?) (by omega)

/-- Bytes written next to the first ones. -/
theorem store_append {buf : List UInt8} {offset : Nat} (inside : offset ≤ buf.length)
    (first second : List UInt8) : store (store buf offset first) (offset + first.length) second =
      store buf offset (first ++ second) := by
  have front : (buf.take offset ++ first).length = offset + first.length := by
    rw [List.length_append, List.length_take_of_le inside]
  have rest : (buf.take offset ++ first ++ buf.drop (offset + first.length)).drop
      (offset + first.length + second.length) =
      buf.drop (offset + (first.length + second.length)) := by
    rw [List.drop_append, List.drop_eq_nil_of_le (by omega), List.drop_drop, List.nil_append]
    exact congrArg (buf.drop ·) (by omega)
  simp only [store, List.length_append] at rest ⊢
  rw [rest, ← front, List.take_left]
  simp only [List.append_assoc]

theorem store_store (buf first second : List UInt8) :
    store (store buf 0 first) first.length second = store buf 0 (first ++ second) := by
  have next := store_append (Nat.zero_le buf.length) first second
  rwa [Nat.zero_add] at next

/-- Whatever is received, the buffer keeps its size. -/
theorem mcuRecv_length (uart pResponse : List UInt8) :
    (mcuRecv uart pResponse).pResponse.length = pResponse.length := by
  unfold mcuRecv
  split
  · rfl
  rename_i room
  have taken (n : Nat) (uart : List UInt8) : (hiUartRead uart n).2.1.length ≤ n :=
    List.length_take_le n uart
  have head := taken 2 uart
  have kept : (store pResponse 0 (hiUartRead uart 2).2.1).length = pResponse.length :=
    store_length (by omega)
  have emptied : (store (store pResponse 0 (hiUartRead uart 2).2.1) 1 [0]).length =
      pResponse.length := by
    rw [store_length (by rw [kept]; simp only [List.length_singleton]; omega), kept]
  dsimp only
  split
  · rename_i ucLeading ucLength _
    have fits : (if ucLength.toNat + 3 ≥ pResponse.length - 2 then pResponse.length - 2
        else ucLength.toNat + 3) ≤ pResponse.length - 2 := by
      split <;> omega
    generalize (if ucLength.toNat + 3 ≥ pResponse.length - 2 then pResponse.length - 2
      else ucLength.toNat + 3) = read_len at fits ⊢
    split
    · split
      · split
        · exact emptied
        · have data := Nat.add_le_add_left (taken read_len (hiUartRead uart 2).2.2) 2
          refine (store_length (Nat.le_trans data ?_)).trans kept
          rw [kept]
          omega
      · exact kept
    · exact emptied
  · exact emptied

/-- A frame is read as a whole: its first bytes go to the buffer, as far as it has room, and no
byte of it remains. -/
theorem mcuRecv_frame (frame : Frame) (rest pResponse : List UInt8) (room : 2 ≤ pResponse.length) :
    mcuRecv (frame.bytes ++ rest) pResponse =
      ⟨(min pResponse.length frame.bytes.length : Nat),
        store pResponse 0 (frame.bytes.take pResponse.length), rest, true⟩ := by
  obtain ⟨ucLength, body, complete⟩ := frame
  obtain ⟨n, size⟩ : ∃ n, pResponse.length = n + 2 := ⟨pResponse.length - 2, by omega⟩
  have head : hiUartRead (Frame.bytes ⟨ucLength, body, complete⟩ ++ rest) 2 =
      (2, [0x55, ucLength], body ++ rest) := rfl
  -- what fits into the buffer, and what does not
  obtain ⟨front, back, parts, fits⟩ : ∃ front back, body = front ++ back ∧
      front.length = if body.length ≥ n then n else body.length := by
    refine ⟨body.take n, body.drop n, (List.take_append_drop n body).symm, ?_⟩
    rw [List.length_take]
    split <;> omega
  have left : body.length - front.length = back.length := by
    rw [parts, List.length_append]
    omega
  have taken : body.take n = front := by
    rw [parts]
    rw [parts, List.length_append] at fits
    split at fits
    · rw [← fits, List.take_left]
    · rw [List.take_of_length_le (by rw [List.length_append]; omega)]
      have none : back = [] := List.length_eq_zero_iff.mp (by omega)
      rw [none, List.append_nil]
  have shown : (Frame.bytes ⟨ucLength, body, complete⟩).take pResponse.length =
      [0x55, ucLength] ++ front := by
    rw [size, ← taken]
    rfl
  have count : ((min pResponse.length (Frame.bytes ⟨ucLength, body, complete⟩).length : Nat) : Int) =
      2 + front.length := by
    simp only [size, Frame.bytes, List.length_cons]
    split at fits <;> omega
  rw [shown, count]
  simp only [mcuRecv, if_neg (show ¬ pResponse.length < 2 by omega), head, ← complete,
    show pResponse.length - 2 = n by omega, ← fits, left, if_true]
  by_cases some : 0 < front.length
  · have data : hiUartRead (body ++ rest) front.length =
        ((front.length : Int), front, back ++ rest) := by
      rw [parts, List.append_assoc]
      exact hiUartRead_all some
    have read : ¬ (front.length : Int) < 0 := by omega
    simp only [if_pos some, data, readRemaining_all, if_neg read]
    rw [← store_store pResponse [0x55, ucLength] front]
    simp
  · obtain rfl : front = [] := List.length_eq_zero_iff.mp (by omega)
    obtain rfl : body = back := parts
    simp only [if_neg some, readRemaining_all]
    simp

/-- Exactly the frame is consumed, and the buffer differs from what it was in the bytes of the
frame it has room for, as many as the call returns. -/
theorem frame_received (frame : Frame) (rest pResponse : List UInt8)
    (room : 2 ≤ pResponse.length) :
    let szStored := min pResponse.length frame.bytes.length
    let received := mcuRecv (frame.bytes ++ rest) pResponse
    received.uart = rest ∧ received.rt_len = szStored ∧
      received.pResponse.length = pResponse.length ∧
      ∀ j, received.pResponse[j]? = if j < szStored then frame.bytes[j]? else pResponse[j]? := by
  intro szStored received
  have whole : received = _ := mcuRecv_frame frame rest pResponse room
  have stored : (frame.bytes.take pResponse.length).length = szStored := List.length_take
  have fits : 0 + (frame.bytes.take pResponse.length).length ≤ pResponse.length := by
    rw [Nat.zero_add]
    exact List.length_take_le _ _
  refine ⟨by rw [whole], by rw [whole], mcuRecv_length _ _, fun j => ?_⟩
  rw [whole, store_get fits, stored, Nat.zero_add, Nat.sub_zero]
  split
  · next inside =>
    have short : j < pResponse.length := Nat.lt_of_lt_of_le inside.2 (Nat.min_le_left _ _)
    rw [if_pos inside.2, List.getElem?_take_of_lt short]
  · next outside => rw [if_neg fun inside => outside ⟨Nat.zero_le j, inside⟩]

/-- A frame of length 0, of which a buffer of three bytes holds the first three. -/
theorem frame_received_short :
    (mcuRecv ([0x55, 0, 1, 2, 3] ++ [7]) [9, 9, 9]).uart = [7] ∧
      (mcuRecv ([0x55, 0, 1, 2, 3] ++ [7]) [9, 9, 9]).rt_len = 3 :=
  have whole := frame_received ⟨0, [1, 2, 3], rfl⟩ [7] [9, 9, 9] (by decide)
  ⟨whole.1, whole.2.1⟩

end Rovio.Mcu
