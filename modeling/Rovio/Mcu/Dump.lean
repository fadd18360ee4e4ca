import Rovio.Mcu.Control

/-! The answer of the motor controller as `ictlCtrlMCU` writes it for its caller. -/
namespace Rovio.Mcu
open Rovio.Http Rovio.Account

/-- The digits of a byte. -/
def HexLib.digits (lib : HexLib) (ch : UInt8) : CString := (lib.httpChar2Hex ch).take 2

/-- The caller's memory from `pcResponse` on, after the stores. -/
def after (mem : Nat → Char) (stores : List (Nat × Char)) : Nat → Char :=
  stores.foldl (fun mem store => Function.update mem store.1 store.2) mem

/-- The length byte that an answer leaves in the buffer. -/
def announced : List UInt8 → Nat
  | ucLeading :: ucLength :: _ :: _ => if ucLeading = 0x55 then ucLength.toNat else 0
  | _ => 0

/-- The bytes of an answer. -/
def answered : List UInt8 → List UInt8
  | ucLeading :: ucLength :: data => if ucLeading = 0x55 then data.take ucLength.toNat else []
  | _ => []

/-- The stores stay in the caller's buffer and leave there a string: the digits of the first bytes
of the response, of all of them where they fit. -/
def Dumped (lib : HexLib) (mem : Nat → Char) (szMaxResponse : Nat) (response : List UInt8)
    (stores : List (Nat × Char)) : Prop :=
  (∀ store ∈ stores, store.1 < szMaxResponse) ∧
  ∃ shown, shown <+: response ∧ (2 * response.length < szMaxResponse → shown = response) ∧
    2 * shown.length < szMaxResponse ∧
    (∀ j < 2 * shown.length, some (after mem stores j) = (shown.flatMap lib.digits)[j]?) ∧
    after mem stores (2 * shown.length) = nul

/-- The bytes that are written have been answered, their digits fit into the buffer, and it is not
one of three characters for a single byte. -/
def Fits (uart : List UInt8) (szMaxResponse : Nat) : Prop :=
  let written := min (announced uart) (szMaxResponse - 3)
  2 * written < szMaxResponse ∧ written ≤ (answered uart).length ∧
    ¬ (szMaxResponse = 3 ∧ (answered uart).length = 1)

/-- The stores for the bytes, the first of them the one of index `i`. -/
def storesOf (lib : HexLib) : Nat → List UInt8 → List (Nat × Char)
  | _, [] => []
  | i, ch :: bytes =>
    (lib.httpChar2Hex ch).mapIdx (fun j c => (2 * i + j, c)) ++ storesOf lib (i + 1) bytes

section
variable {lib : HexLib} {buf uart bytes : List UInt8} {mem : Nat → Char} {i n szMaxResponse : Nat}

theorem after_append (first second : List (Nat × Char)) :
    after mem (first ++ second) = after (after mem first) second := List.foldl_append

/-- The loop stops writing at the first byte whose index is three below the size. -/
theorem dump_run (room : offsetEndian + i + n ≤ buf.length) :
    dump lib buf szMaxResponse n i = some (storesOf lib i
      ((buf.drop (offsetEndian + i)).take (min n (szMaxResponse - 3 - i)))) := by
  induction n generalizing i with
  | zero =>
    rw [Nat.zero_min]
    rfl
  | succ n ih =>
    have first : offsetEndian + i < buf.length := by omega
    rw [dump, ih (by omega), List.getElem?_eq_getElem first, List.drop_eq_getElem_cons first]
    split
    case isTrue below =>
      have count : min (n + 1) (szMaxResponse - 3 - i) =
          min n (szMaxResponse - 3 - (i + 1)) + 1 := by omega
      rw [count]
      rfl
    case isFalse past =>
      have none : szMaxResponse - 3 - i = 0 := by omega
      have later : szMaxResponse - 3 - (i + 1) = 0 := by omega
      rw [none, later, Nat.min_zero, Nat.min_zero]
      rfl

/-- The digits of a byte are two, and a string. -/
theorem digits_two (lib : HexLib) (ch : UInt8) : ∃ high low, high ≠ nul ∧ low ≠ nul ∧
    lib.digits ch = [high, low] ∧ lib.httpChar2Hex ch = [high, low, nul] := by
  obtain ⟨high, low, first, second, string⟩ := lib.hex_string ch
  refine ⟨high, low, first, second, ?_, string⟩
  rw [HexLib.digits, string]
  rfl

theorem digits_ne_nul {c : Char} (inside : c ∈ bytes.flatMap lib.digits) : c ≠ nul := by
  obtain ⟨ch, -, digit⟩ := List.mem_flatMap.mp inside
  obtain ⟨high, low, first, second, two, -⟩ := digits_two lib ch
  rw [two] at digit
  rcases List.mem_cons.mp digit with rfl | digit
  · exact first
  · rw [List.mem_singleton.mp digit]
    exact second

theorem storesOf_cons (lib : HexLib) (i : Nat) (ch : UInt8) (bytes : List UInt8) :
    ∃ high low, high ≠ nul ∧ low ≠ nul ∧
    lib.digits ch = [high, low] ∧ storesOf lib i (ch :: bytes) =
      (2 * i, high) :: (2 * i + 1, low) :: (2 * i + 2, nul) :: storesOf lib (i + 1) bytes := by
  obtain ⟨high, low, first, second, two, string⟩ := digits_two lib ch
  refine ⟨high, low, first, second, two, ?_⟩
  rw [storesOf, string]
  rfl

/-- The stores reach up to the zero behind the digits. -/
theorem storesOf_places (lib : HexLib) (i : Nat) (bytes : List UInt8) :
    (∀ store ∈ storesOf lib i bytes, store.1 ≤ 2 * (i + bytes.length)) ∧
      (bytes ≠ [] → ∃ store ∈ storesOf lib i bytes, store.1 = 2 * (i + bytes.length)) := by
  induction bytes generalizing i with
  | nil => exact ⟨by rintro _ ⟨⟩, fun written => absurd rfl written⟩
  | cons ch bytes ih =>
    obtain ⟨high, low, -, -, -, stores⟩ := storesOf_cons lib i ch bytes
    obtain ⟨below, last⟩ := ih (i + 1)
    rw [stores]
    constructor
    · intro store inside
      simp only [List.mem_cons, List.length_cons] at inside ⊢
      rcases inside with rfl | rfl | rfl | later
      · dsimp only
        omega
      · dsimp only
        omega
      · dsimp only
        omega
      · have bound := below store later
        omega
    · intro _
      rcases eq_or_ne bytes [] with rfl | more
      · exact ⟨(2 * i + 2, nul), by simp, rfl⟩
      · obtain ⟨store, inside, place⟩ := last more
        refine ⟨store, by simp [inside], ?_⟩
        rw [place, List.length_cons]
        omega

/-- What the stores leave: the digits from where they begin, and a zero behind them. -/
theorem after_storesOf (lib : HexLib) (i : Nat) (bytes : List UInt8) (mem : Nat → Char)
    (ended : mem (2 * i) = nul) :
    (∀ a < 2 * i, after mem (storesOf lib i bytes) a = mem a) ∧
      (∀ j < 2 * bytes.length, some (after mem (storesOf lib i bytes) (2 * i + j)) =
        (bytes.flatMap lib.digits)[j]?) ∧
      after mem (storesOf lib i bytes) (2 * (i + bytes.length)) = nul := by
  induction bytes generalizing i mem with
  | nil => exact ⟨fun a _ => rfl, fun j none => absurd none (Nat.not_lt_zero j), ended⟩
  | cons ch bytes ih =>
    obtain ⟨high, low, -, -, two, stores⟩ := storesOf_cons lib i ch bytes
    have split : storesOf lib i (ch :: bytes) =
        [(2 * i, high), (2 * i + 1, low), (2 * i + 2, nul)] ++ storesOf lib (i + 1) bytes := stores
    rw [split, after_append]
    generalize written : after mem [(2 * i, high), (2 * i + 1, low), (2 * i + 2, nul)] = next
    have places (a : Nat) : next a = if a = 2 * i + 2 then nul else if a = 2 * i + 1 then low
        else if a = 2 * i then high else mem a := by
      rw [← written]
      simp only [after, List.foldl_cons, List.foldl_nil, Function.update_apply]
    obtain ⟨before, text, zero⟩ := ih (i + 1) next ((places _).trans (if_pos (by omega)))
    refine ⟨fun a below => ?_, fun j inside => ?_, ?_⟩
    · rw [before a (by omega), places, if_neg (by omega), if_neg (by omega), if_neg (by omega)]
    · rw [List.flatMap_cons, two]
      match j with
      | 0 =>
        rw [before _ (by omega), places, if_neg (by omega), if_neg (by omega), if_pos (by omega)]
        rfl
      | 1 =>
        rw [before _ (by omega), places, if_neg (by omega), if_pos (by omega)]
        rfl
      | j + 2 =>
        rw [show 2 * i + (j + 2) = 2 * (i + 1) + j by omega, text j (by
          rw [List.length_cons] at inside
          omega)]
        rfl
    · rw [List.length_cons, show i + (bytes.length + 1) = i + 1 + bytes.length by omega]
      exact zero

/-- The buffer has room for an answer of any length. -/
theorem mcuRecv_answer (uart : List UInt8) (size : buf.length = sizeofBuf) :
    (mcuRecv uart buf).pResponse[1]? = some (UInt8.ofNat (announced uart)) ∧
      ((mcuRecv uart buf).pResponse.drop offsetEndian).take (answered uart).length =
        answered uart := by
  have wide : ¬ buf.length < 2 := by
    rw [size]
    decide
  -- the length byte of a buffer of whose front two bytes are written
  have second (head : List UInt8) (few : head.length ≤ 2) (ucLength : UInt8) :
      (store (store buf 0 head) 1 [ucLength])[1]? = some ucLength := by
    have kept : (store buf 0 head).length = buf.length := store_length (by omega)
    rw [store_get (by rw [kept]; simp only [List.length_singleton]; omega)]
    rfl
  rw [mcuRecv, if_neg wide]
  rcases uart with _ | ⟨ucLeading, _ | ⟨ucLength, data⟩⟩
  · exact ⟨second [] (by decide) 0, rfl⟩
  · have head : hiUartRead [ucLeading] 2 = (1, [ucLeading], []) := rfl
    simp only [head]
    exact ⟨second [ucLeading] (Nat.le_succ 1) 0, rfl⟩
  · have head : hiUartRead (ucLeading :: ucLength :: data) 2 =
      (2, [ucLeading, ucLength], data) := rfl
    simp only [head]
    split
    case isFalse other =>
      have quiet : announced (ucLeading :: ucLength :: data) = 0 := by
        cases data with
        | nil => rfl
        | cons _ _ => exact if_neg other
      have none : answered (ucLeading :: ucLength :: data) = [] := if_neg other
      rw [quiet, none]
      exact ⟨second [ucLeading, ucLength] (Nat.le_refl 2) 0, rfl⟩
    case isTrue leading =>
      have byte := ucLength.toNat_lt
      have room : ¬ ucLength.toNat + 3 ≥ buf.length - 2 := by
        rw [size]
        simp only [sizeofBuf]
        omega
      simp only [if_neg room, if_pos (Nat.succ_pos (ucLength.toNat + 2)), Nat.sub_self]
      have response : answered (ucLeading :: ucLength :: data) = data.take ucLength.toNat :=
        if_pos leading
      rw [response]
      cases data with
      | nil => exact ⟨second [ucLeading, ucLength] (Nat.le_refl 2) 0, by rw [List.take_nil]; rfl⟩
      | cons first data =>
        have length : announced (ucLeading :: ucLength :: first :: data) = ucLength.toNat :=
          if_pos leading
        rw [length]
        have answers : ¬ (hiUartRead (first :: data) (ucLength.toNat + 3)).1 < 0 := by
          simp only [hiUartRead, List.take_succ_cons, List.length_cons]
          omega
        simp only [if_neg answers]
        have taken : (hiUartRead (first :: data) (ucLength.toNat + 3)).2.1 =
            (first :: data).take (ucLength.toNat + 3) := rfl
        have whole : store (store buf 0 [ucLeading, ucLength]) 2
            ((first :: data).take (ucLength.toNat + 3)) = ucLeading :: ucLength ::
              ((first :: data).take (ucLength.toNat + 3) ++
                buf.drop (2 + ((first :: data).take (ucLength.toNat + 3)).length)) := by
          have joined := store_store buf [ucLeading, ucLength]
            ((first :: data).take (ucLength.toNat + 3))
          have front (bytes : List UInt8) : store buf 0 bytes = bytes ++ buf.drop bytes.length := by
            rw [store, Nat.zero_add, List.take_zero, List.nil_append]
          rw [front ([ucLeading, ucLength] ++ _), List.length_append, List.append_assoc] at joined
          exact joined
        rw [taken, whole]
        refine ⟨congrArg some UInt8.ofNat_toNat.symm, ?_⟩
        generalize first :: data = bytes
        rw [List.length_take]
        change List.take (min ucLength.toNat bytes.length) (bytes.take (ucLength.toNat + 3) ++ _) = _
        rw [List.take_append_of_le_length (by rw [List.length_take]; omega), List.take_take]
        have count : min (min ucLength.toNat bytes.length) (ucLength.toNat + 3) =
            min ucLength.toNat bytes.length := by omega
        rw [count]
        exact List.take_eq_take_min.symm

theorem announced_lt (uart : List UInt8) : announced uart < 256 := by
  unfold announced
  split
  · split
    · exact UInt8.toNat_lt _
    · decide
  · decide

theorem answered_length (uart : List UInt8) : (answered uart).length ≤ announced uart := by
  rcases uart with _ | ⟨ucLeading, _ | ⟨ucLength, data⟩⟩
  · exact Nat.le_refl 0
  · exact Nat.le_refl 0
  · rw [answered]
    split
    case isFalse => exact Nat.zero_le _
    case isTrue leading =>
      cases data with
      | nil => rw [List.take_nil]; exact Nat.zero_le _
      | cons first data =>
        rw [announced, if_pos leading]
        exact List.length_take_le _ _

/-- What the caller gets, in terms of the bytes that are written. -/
theorem dumped_iff {response : List UInt8} (positive : 0 < szMaxResponse)
    (same : bytes.take response.length = response.take bytes.length) :
    Dumped lib mem szMaxResponse response
        ((0, nul) :: (szMaxResponse - 1, nul) :: storesOf lib 0 bytes) ↔
      2 * bytes.length < szMaxResponse ∧ bytes.length ≤ response.length ∧
        (2 * response.length < szMaxResponse → response.length ≤ bytes.length) := by
  have began : after mem [(0, nul), (szMaxResponse - 1, nul)] (2 * 0) = nul := by
    simp only [after, List.foldl_cons, List.foldl_nil, Function.update_apply]
    split
    · rfl
    · exact if_pos trivial
  have whole : after mem ((0, nul) :: (szMaxResponse - 1, nul) :: storesOf lib 0 bytes) =
      after (after mem [(0, nul), (szMaxResponse - 1, nul)]) (storesOf lib 0 bytes) :=
    after_append [(0, nul), (szMaxResponse - 1, nul)] _
  obtain ⟨-, text, zero⟩ := after_storesOf lib 0 bytes _ began
  obtain ⟨below, last⟩ := storesOf_places lib 0 bytes
  rw [← whole] at text zero
  simp only [Nat.mul_zero, Nat.zero_add] at text zero below last
  constructor
  · rintro ⟨inside, shown, front, all, -, digits, ended⟩
    -- the string has as many digits as were written
    have count : shown.length = bytes.length := by
      rcases Nat.lt_trichotomy shown.length bytes.length with less | equal | more
      · have digit := text (2 * shown.length) (by omega)
        rw [ended] at digit
        exact absurd rfl (digits_ne_nul (List.mem_of_getElem? digit.symm))
      · exact equal
      · have digit := digits (2 * bytes.length) (by omega)
        rw [zero] at digit
        exact absurd rfl (digits_ne_nul (List.mem_of_getElem? digit.symm))
    refine ⟨?_, count ▸ front.length_le, fun fits => ?_⟩
    · rcases eq_or_ne bytes [] with rfl | written
      · exact positive
      · obtain ⟨store, stored, place⟩ := last written
        rw [← place]
        exact inside store (List.mem_cons_of_mem _ (List.mem_cons_of_mem _ stored))
    · rw [← all fits]
      exact Nat.le_of_eq count
  · rintro ⟨room, few, enough⟩
    have shown : bytes = response.take bytes.length := by
      rw [← same, List.take_of_length_le few]
    refine ⟨?_, bytes, shown ▸ List.take_prefix _ _, fun fits => ?_, room, text, zero⟩
    · intro store inside
      rcases List.mem_cons.mp inside with rfl | inside
      · exact positive
      rcases List.mem_cons.mp inside with rfl | inside
      · exact Nat.sub_lt positive Nat.one_pos
      · exact Nat.lt_of_le_of_lt (below store inside) room
    · rw [shown]
      exact List.take_of_length_le (enough fits)

theorem writeResponse_run (lib : HexLib) (uart : List UInt8) (size : buf.length = sizeofBuf)
    (positive : 0 < szMaxResponse) :
    ∃ bytes, bytes.length = min (announced uart) (szMaxResponse - 3) ∧
      bytes.take (answered uart).length = (answered uart).take bytes.length ∧
      writeResponse lib (mcuRecv uart buf).pResponse (some szMaxResponse) =
        some ((0, nul) :: (szMaxResponse - 1, nul) :: storesOf lib 0 bytes) := by
  obtain ⟨length, response⟩ := mcuRecv_answer uart size
  have received := (mcuRecv_length uart buf).trans size
  have short := announced_lt uart
  have within := answered_length uart
  generalize (mcuRecv uart buf).pResponse = answer at length response received
  have byte : (UInt8.ofNat (announced uart)).toNat = announced uart :=
    UInt8.toNat_ofNat_of_lt' short
  have room : offsetEndian + 0 + announced uart ≤ answer.length := by
    simp only [received, offsetEndian, sizeofBuf]
    omega
  have count : ((answer.drop offsetEndian).take
      (min (announced uart) (szMaxResponse - 3))).length =
      min (announced uart) (szMaxResponse - 3) := by
    rw [List.length_take, List.length_drop]
    omega
  refine ⟨_, count, ?_, ?_⟩
  · rw [count, List.take_take]
    calc (answer.drop offsetEndian).take
          (min (answered uart).length (min (announced uart) (szMaxResponse - 3)))
        = ((answer.drop offsetEndian).take (answered uart).length).take
            (min (announced uart) (szMaxResponse - 3)) := by rw [List.take_take, Nat.min_comm]
      _ = (answered uart).take (min (announced uart) (szMaxResponse - 3)) := by rw [response]
  · rw [writeResponse, if_pos positive, length, Option.bind_eq_bind, Option.bind_some, byte,
      dump_run room]
    rfl

/-- A caller gets a string of the answer within its buffer where the answer fits. -/
theorem response_dumped (lib : HexLib) (mem : Nat → Char) {pHandle : Option Handle}
    {pcCommand : CString} {mpcBuf : List UInt8} {control : Control}
    (size : mpcBuf.length = sizeofBuf) (ran : ictlCtrlMCU lib pHandle (some pcCommand)
      (some szMaxResponse) mpcBuf uart = some control) (ok : control.rc = .ok) :
    Dumped lib mem szMaxResponse (answered uart) control.stores ↔ Fits uart szMaxResponse := by
  cases pHandle with
  | none =>
    cases ran
    cases ok
  | some handle =>
    by_cases allowed : handle.privilege < authUser
    · rw [ictlCtrlMCU, if_pos allowed] at ran
      cases ran
      cases ok
    obtain ⟨stores, written, run⟩ :=
      ictlCtrlMCU_run lib pcCommand size allowed (some szMaxResponse) uart
    have sent := (buildFrame_run lib pcCommand size).1
    rw [run] at ran
    cases ran
    dsimp only
    rcases Nat.eq_zero_or_pos szMaxResponse with rfl | positive
    · rw [Fits, Nat.zero_sub, Nat.min_zero]
      constructor
      · rintro ⟨_, _, _, _, room, _⟩
        exact absurd room (Nat.not_lt_zero _)
      · rintro ⟨room, _⟩
        exact absurd room (Nat.not_lt_zero _)
    obtain ⟨bytes, count, same, writes⟩ := writeResponse_run lib uart sent positive
    rw [writes] at written
    cases written
    have within := answered_length uart
    rw [dumped_iff positive same, Fits, count]
    omega

end

/-- An answer of five bytes. -/
def fiveBytes : List UInt8 := [0x55, 5, 1, 2, 3, 4, 5, 0x14, 0, 0xAA]

theorem fiveBytes_run (szMaxResponse : Nat) (size : szMaxResponse = 10 ∨ szMaxResponse = 11) :
    ictlCtrlMCU upperHex (some ⟨[], [], authUser⟩) (some ['4', '9']) (some szMaxResponse)
      (List.replicate sizeofBuf 0) fiveBytes = some ⟨.ok, [0x55, 1, 0x49, 0, 0, 0],
        (0, nul) :: (szMaxResponse - 1, nul) :: storesOf upperHex 0 [1, 2, 3, 4, 5]⟩ := by
  rcases size with rfl | rfl
  · decide +kernel
  · decide +kernel

theorem response_dumped_eleven : Dumped upperHex (fun _ => nul) 11 [1, 2, 3, 4, 5]
    ((0, nul) :: (10, nul) :: storesOf upperHex 0 [1, 2, 3, 4, 5]) :=
  (response_dumped upperHex (fun _ => nul) List.length_replicate
    (fiveBytes_run 11 (.inr rfl)) rfl).mpr (by unfold Fits; decide)

/-- The zero behind the digits of five bytes is the eleventh character. -/
theorem response_overflows :
    ictlCtrlMCU upperHex (some ⟨[], [], authUser⟩) (some ['4', '9']) (some 10)
      (List.replicate sizeofBuf 0) fiveBytes = some ⟨.ok, [0x55, 1, 0x49, 0, 0, 0],
        (0, nul) :: (9, nul) :: storesOf upperHex 0 [1, 2, 3, 4, 5]⟩ ∧
      ¬ Dumped upperHex (fun _ => nul) 10 (answered fiveBytes)
        ((0, nul) :: (9, nul) :: storesOf upperHex 0 [1, 2, 3, 4, 5]) := by
  refine ⟨fiveBytes_run 10 (.inl rfl), fun dumped => ?_⟩
  have last : (10, nul) ∈ (0, nul) :: (9, nul) :: storesOf upperHex 0 [1, 2, 3, 4, 5] := by decide
  exact absurd (dumped.1 _ last) (by decide)

end Rovio.Mcu
