import Rovio.Hic.Framing
import Rovio.Hic.Reading

/-! What becomes of the response to a Type V command: which of them are delivered, and what
is left of them in the FIFO. -/
namespace Rovio.Hic

open Kit

/-! ### What every read keeps -/

def ReadsKeep (drq : Nat → Bool) (words : Nat → HalfWord) (Keeps : Fifo → Nat → Prop) : Prop :=
  ∀ fifo taken n, Keeps fifo taken →
    Keeps (wbhicPartReadFIFO drq words fifo taken n).fifo
      (wbhicPartReadFIFO drq words fifo taken n).taken

section
variable {drq : Nat → Bool} {words : Nat → HalfWord} {Keeps : Fifo → Nat → Prop}

theorem dropBytes_keeps
    (keeps : ReadsKeep drq words Keeps)
    (count : Nat) {fifo : Fifo} {taken : Nat} (h : Keeps fifo taken) :
    Keeps (dropBytes drq words count fifo taken).2.1 (dropBytes drq words count fifo taken).2.2 := by
  induction count generalizing fifo taken with
  | zero => exact h
  | succ count ih =>
    simp only [dropBytes]
    split
    · exact ih (keeps _ _ _ h)
    · exact keeps _ _ _ h

theorem partReadRest_keeps
    (keeps : ReadsKeep drq words Keeps)
    (left : Nat) {fifo : Fifo} {taken : Nat} (h : Keeps fifo taken) :
    Keeps (partReadRest drq words left fifo taken).2.1 (partReadRest drq words left fifo taken).2.2 := by
  induction left generalizing fifo taken with
  | zero => exact h
  | succ left ih =>
    simp only [partReadRest]
    split
    · split
      · exact ih (keeps _ _ _ h)
      · exact keeps _ _ _ h
    · exact h

theorem recvParam_keeps
    (keeps : ReadsKeep drq words Keeps)
    (slot : Slot) {s : Receiver} (h : Keeps s.fifo s.taken) :
    Keeps (recvParam drq words slot s).2.2.fifo (recvParam drq words slot s).2.2.taken := by
  have head : Keeps (recvWord drq words s).2.fifo (recvWord drq words s).2.taken := keeps _ _ 4 h
  simp only [recvParam]
  generalize recvWord drq words s = r at head ⊢
  obtain ⟨bOK, s⟩ := r
  cases bOK with
  | false => exact head
  | true =>
    have data := keeps _ _ (min slot.uParamLen (wordAt s.pucBuf 0)) head
    simp only [if_true]
    split
    · exact dropBytes_keeps keeps _ data
    · exact data

theorem recvParams_keeps
    (keeps : ReadsKeep drq words Keeps)
    (slots : List Slot) {s : Receiver} (h : Keeps s.fifo s.taken) :
    Keeps (recvParams drq words slots s).2.2.fifo (recvParams drq words slots s).2.2.taken := by
  induction slots generalizing s with
  | nil => exact h
  | cons slot slots ih =>
    have first := recvParam_keeps keeps slot h
    simp only [recvParams]
    generalize recvParam drq words slot s = r at first ⊢
    obtain ⟨bOK, delivered, s⟩ := r
    cases bOK with
    | false => exact first
    | true => exact ih first

/-- What every read keeps holds of the port when the response has been received. -/
theorem wbhicCmd_V_Recv_keeps
    (keeps : ReadsKeep drq words Keeps)
    {uResponLen : Nat} (slots : List Slot)
    (start : let r := wbhicPartReadFIFO drq words (partFIFO_Begin uResponLen) 0 4
      Keeps r.fifo r.taken) :
    ∃ fifo, Keeps fifo (wbhicCmd_V_Recv drq words true uResponLen slots).taken := by
  have first : Keeps
      (recvWord drq words ⟨partFIFO_Begin uResponLen, 0, word uResponLen⟩).2.fifo
      (recvWord drq words ⟨partFIFO_Begin uResponLen, 0, word uResponLen⟩).2.taken := start
  simp only [wbhicCmd_V_Recv, if_true]
  generalize recvWord drq words ⟨partFIFO_Begin uResponLen, 0, word uResponLen⟩ = r at first ⊢
  obtain ⟨bOK, s⟩ := r
  simp only at first ⊢
  have loop : Keeps (if bOK = true ∧ slots.length = wordAt s.pucBuf 0 then
      recvParams drq words slots s else (bOK, [], s)).2.2.fifo
      (if bOK = true ∧ slots.length = wordAt s.pucBuf 0 then
        recvParams drq words slots s else (bOK, [], s)).2.2.taken := by
    split
    · exact recvParams_keeps keeps slots first
    · exact first
  generalize (if bOK = true ∧ slots.length = wordAt s.pucBuf 0 then
    recvParams drq words slots s else (bOK, [], s)) = r at loop ⊢
  obtain ⟨bOK, delivered, s⟩ := r
  cases bOK with
  | false => exact ⟨_, loop⟩
  | true => exact ⟨_, partReadRest_keeps keeps _ loop⟩

end

/-! ### A port that offers all bytes -/

section
variable {drq : Nat → Bool} {words : Nat → HalfWord} {total : Nat}

/-- So many bytes of the total have been read. -/
structure At (words : Nat → HalfWord) (total pos : Nat) (fifo : Fifo) (taken : Nat) : Prop where
  uSizeTotal : fifo.uSizeTotal = total
  uSizeOK : fifo.uSizeOK = pos
  inStep : InStep words fifo.uSizeOK fifo.usHalf taken
  within : pos ≤ total

variable (positive : total ≠ 0) (offered : ∀ j < total, Offered drq j)
include positive offered

theorem wbhicPartReadFIFO_at {pos : Nat} {fifo : Fifo} {taken : Nat}
    (h : At words total pos fifo taken) (n : Nat) :
    let r := wbhicPartReadFIFO drq words fifo taken n
    r.bOK = true ∧ r.bytes = stream words (min n (total - pos)) pos ∧
      At words total (pos + min n (total - pos)) r.fifo r.taken := by
  obtain ⟨rfl, rfl, inStep, within⟩ := h
  obtain ⟨ok, bytes, size, next, step⟩ :=
    wbhicPartReadFIFO_offered drq words inStep positive offered n
  exact ⟨ok, bytes, size, next, step, by omega⟩

theorem dropBytes_at (count : Nat) {pos : Nat} {fifo : Fifo} {taken : Nat}
    (h : At words total pos fifo taken) :
    let r := dropBytes drq words count fifo taken
    r.1 = true ∧ At words total (pos + min count (total - pos)) r.2.1 r.2.2 := by
  induction count generalizing pos fifo taken with
  | zero => simpa [dropBytes] using h
  | succ count ih =>
    obtain ⟨ok, -, next⟩ := wbhicPartReadFIFO_at positive offered h 1
    simp only [dropBytes, ok, if_true]
    have within := h.within
    have same : pos + min 1 (total - pos) + min count (total - (pos + min 1 (total - pos))) =
        pos + min (count + 1) (total - pos) := by omega
    rw [← same]
    exact ih next

theorem partReadRest_at {left pos : Nat} {fifo : Fifo} {taken : Nat}
    (h : At words total pos fifo taken) (all : total ≤ pos + left) :
    At words total total (partReadRest drq words left fifo taken).2.1
      (partReadRest drq words left fifo taken).2.2 := by
  induction left generalizing pos fifo taken with
  | zero =>
    have same : pos = total := by have := h.within; omega
    exact same ▸ h
  | succ left ih =>
    obtain ⟨ok, -, next⟩ := wbhicPartReadFIFO_at positive offered h 1
    simp only [partReadRest, ok, if_true]
    split
    · rename_i more
      rw [h.uSizeOK, h.uSizeTotal] at more
      exact ih next (by omega)
    · rename_i done
      rw [h.uSizeOK, h.uSizeTotal] at done
      have same : pos = total := by have := h.within; omega
      exact same ▸ h

theorem recvWord_at {pos : Nat} {s : Receiver} (h : At words total pos s.fifo s.taken) :
    let r := recvWord drq words s
    r.1 = true ∧ At words total (pos + min 4 (total - pos)) r.2.fifo r.2.taken ∧
      r.2.pucBuf = stream words (min 4 (total - pos)) pos ++ s.pucBuf.drop (min 4 (total - pos)) := by
  obtain ⟨ok, bytes, next⟩ := wbhicPartReadFIFO_at positive offered h 4
  simp only [recvWord, bytes, length_stream]
  exact ⟨ok, next, trivial⟩

/-- No parameter fails, whatever its length word says. -/
theorem recvParam_at {pos : Nat} {s : Receiver} (h : At words total pos s.fifo s.taken)
    (slot : Slot) :
    let r := recvParam drq words slot s
    r.1 = true ∧ ∃ pos', At words total pos' r.2.2.fifo r.2.2.taken := by
  obtain ⟨ok1, next1, -⟩ := recvWord_at positive offered h
  simp only [recvParam]
  generalize recvWord drq words s = r1 at ok1 next1 ⊢
  obtain ⟨bOK, s⟩ := r1
  obtain rfl : bOK = true := ok1
  obtain ⟨ok2, -, next2⟩ :=
    wbhicPartReadFIFO_at positive offered next1 (min slot.uParamLen (wordAt s.pucBuf 0))
  obtain ⟨ok3, next3⟩ := dropBytes_at positive offered
    (wordAt s.pucBuf 0 - min slot.uParamLen (wordAt s.pucBuf 0)) next2
  simp only [ok2, if_true]
  exact ⟨ok3, _, next3⟩

theorem recvParams_at (slots : List Slot) {pos : Nat} {s : Receiver}
    (h : At words total pos s.fifo s.taken) :
    let r := recvParams drq words slots s
    r.1 = true ∧ ∃ pos', At words total pos' r.2.2.fifo r.2.2.taken := by
  induction slots generalizing pos s with
  | nil => exact ⟨rfl, pos, h⟩
  | cons slot slots ih =>
    obtain ⟨ok, pos', next⟩ := recvParam_at positive offered h slot
    simp only [recvParams]
    generalize recvParam drq words slot s = r at ok next ⊢
    obtain ⟨bOK, delivered, s⟩ := r
    obtain rfl : bOK = true := ok
    exact ih next

/-- What the caller of a command is promised. -/
def expected (slot : Slot) (param : Param) : Delivered :=
  ⟨param.bytes.take slot.uParamLen, if slot.asksLength then some param.bytes.length else none⟩

/-- A complete parameter in the port is delivered, and the next one is behind it. -/
theorem recvParam_delivers {pos : Nat} {s : Receiver} (h : At words total pos s.fifo s.taken)
    (slot : Slot) (param : Param) (room : pos + param.frame.length ≤ total)
    (here : stream words param.frame.length pos = param.frame) :
    let r := recvParam drq words slot s
    r.1 = true ∧ r.2.1 = [expected slot param] ∧
      At words total (pos + param.frame.length) r.2.2.fifo r.2.2.taken := by
  rw [length_frame] at room here ⊢
  rw [stream_add] at here
  obtain ⟨number, data⟩ := List.append_inj here (by simp [word])
  obtain ⟨ok1, next1, buffer⟩ := recvWord_at positive offered h
  rw [Nat.min_eq_left (by omega)] at next1 buffer
  simp only [recvParam]
  generalize recvWord drq words s = r1 at ok1 next1 buffer ⊢
  obtain ⟨bOK, s⟩ := r1
  obtain rfl : bOK = true := ok1
  simp only at next1 buffer ⊢
  have length : wordAt s.pucBuf 0 = param.bytes.length := by
    rw [buffer, number]
    exact wordAt_word param.fits _
  obtain ⟨ok2, bytes, next2⟩ :=
    wbhicPartReadFIFO_at positive offered next1 (min slot.uParamLen (wordAt s.pucBuf 0))
  obtain ⟨ok3, next3⟩ := dropBytes_at positive offered
    (wordAt s.pucBuf 0 - min slot.uParamLen (wordAt s.pucBuf 0)) next2
  simp only [ok2, if_true]
  refine ⟨ok3, ?_, ?_⟩
  · have saved : stream words (min slot.uParamLen param.bytes.length) (pos + 4) =
        param.bytes.take slot.uParamLen := by
      rw [← take_stream words (Nat.min_le_right _ _), data]
      rcases Nat.le_total slot.uParamLen param.bytes.length with less | more
      · rw [Nat.min_eq_left less]
      · rw [Nat.min_eq_right more, List.take_length, List.take_of_length_le more]
    rw [bytes, length, Nat.min_eq_left (by omega), saved]
    rfl
  · have size : pos + (4 + param.bytes.length) = pos + 4 + min (min slot.uParamLen
        (wordAt s.pucBuf 0)) (total - (pos + 4)) + min (wordAt s.pucBuf 0 - min slot.uParamLen
          (wordAt s.pucBuf 0)) (total - (pos + 4 + min (min slot.uParamLen (wordAt s.pucBuf 0))
            (total - (pos + 4)))) := by
      rw [length]
      omega
    rw [size]
    exact next3

theorem recvParams_delivers {slots : List Slot} {params : List Param}
    (same : slots.length = params.length) {pos : Nat} {s : Receiver}
    (h : At words total pos s.fifo s.taken) (room : pos + paramsLength params ≤ total)
    (here : stream words (paramsLength params) pos = body params) :
    (recvParams drq words slots s).2.1 = List.zipWith expected slots params := by
  induction slots generalizing params pos s with
  | nil => rfl
  | cons slot slots ih =>
    obtain ⟨param, params, rfl⟩ := List.exists_cons_of_length_eq_add_one same.symm
    have size : paramsLength (param :: params) = param.frame.length + paramsLength params := by
      rw [length_frame]
      rfl
    rw [size] at room here
    rw [stream_add] at here
    obtain ⟨first, rest⟩ := List.append_inj here (length_stream _ _ _)
    obtain ⟨ok, delivered, next⟩ :=
      recvParam_delivers positive offered h slot param (by omega) first
    simp only [recvParams]
    generalize recvParam drq words slot s = r at ok delivered next ⊢
    obtain ⟨bOK, got, s⟩ := r
    obtain rfl : bOK = true := ok
    obtain rfl : got = [expected slot param] := delivered
    simp only [if_true, List.zipWith_cons_cons, List.singleton_append]
    rw [ih (by simpa using same) next (by omega) rest]

end

/-! ### The response in the port -/

theorem stream_port (line : Line) {response : List UInt8} {count i : Nat}
    (inside : i + count ≤ response.length) :
    stream (line.port response) count i = (response.drop i).take count := by
  induction count generalizing i with
  | zero => simp [stream]
  | succ count ih =>
    have small : i < response.length := by omega
    have byte : byteAt (line.port response) i = response[i] := by
      rcases Nat.mod_two_eq_zero_or_one i with even | odd
      · have index : 2 * (i / 2) = i := by omega
        simp only [byteAt, even, if_true, Line.port, index]
        simp [List.getD_eq_getElem?_getD, small]
      · have index : 2 * (i / 2) + 1 = i := by omega
        simp only [byteAt, odd, Nat.one_ne_zero, if_false, Line.port, index]
        simp [List.getD_eq_getElem?_getD, small]
    rw [stream, byte, ih (by omega), List.drop_eq_getElem_cons small, List.take_succ_cons]

section
variable {drq : Nat → Bool} {words : Nat → HalfWord} {uResponLen : Nat}
  (fits : uResponLen < 2 ^ 32 - 1)
include fits

theorem partFIFO_Begin_total :
    (partFIFO_Begin uResponLen).uSizeTotal = uResponLen + uResponLen % 2 := by
  simp only [partFIFO_Begin]
  omega

theorem partFIFO_Begin_at :
    At words (uResponLen + uResponLen % 2) 0 (partFIFO_Begin uResponLen) 0 :=
  ⟨partFIFO_Begin_total fits, rfl, ⟨by simp [partFIFO_Begin], by simp [partFIFO_Begin]⟩,
    Nat.zero_le _⟩

omit fits in
/-- A byte that fills up the last word starts no block. -/
theorem offered_total (offered : ∀ j < uResponLen, Offered drq j) :
    ∀ j < uResponLen + uResponLen % 2, Offered drq j := by
  intro j small start
  refine offered j ?_ start
  unfold sizeFifo at start
  omega

/-- Where all of a response is offered it is taken from the port, and the call succeeds
whatever the response says. -/
theorem wbhicCmd_V_Recv_offered (slots : List Slot) (some : uResponLen ≠ 0)
    (offered : ∀ j < uResponLen, Offered drq j) :
    let r := wbhicCmd_V_Recv drq words true uResponLen slots
    r.bOK = true ∧ r.taken = (uResponLen + 1) / 2 := by
  have positive : uResponLen + uResponLen % 2 ≠ 0 := by omega
  have all := offered_total offered
  have start : At words _ 0 _ 0 := partFIFO_Begin_at fits
  obtain ⟨ok, next, -⟩ := recvWord_at positive all
    (s := ⟨partFIFO_Begin uResponLen, 0, word uResponLen⟩) start
  simp only [wbhicCmd_V_Recv, if_true]
  generalize recvWord drq words ⟨partFIFO_Begin uResponLen, 0, word uResponLen⟩ = r at ok next ⊢
  obtain ⟨bOK, s⟩ := r
  obtain rfl : bOK = true := ok
  have loop : (fun r : Bool × List Delivered × Receiver => r.1 = true ∧
      ∃ pos, At words (uResponLen + uResponLen % 2) pos r.2.2.fifo r.2.2.taken)
      (if True ∧ slots.length = wordAt s.pucBuf 0 then recvParams drq words slots s
        else (true, [], s)) := by
    split
    · exact recvParams_at positive all slots next
    · exact ⟨rfl, _, next⟩
  simp only at loop ⊢
  generalize (if True ∧ slots.length = wordAt s.pucBuf 0 then recvParams drq words slots s
    else (true, [], s)) = r at loop ⊢
  obtain ⟨bOK, delivered, s⟩ := r
  obtain ⟨ok, pos, here⟩ := loop
  obtain rfl : bOK = true := ok
  simp only at here
  have enough : uResponLen + uResponLen % 2 ≤ pos + (s.fifo.uSizeTotal - s.fifo.uSizeOK) := by
    rw [here.uSizeTotal, here.uSizeOK]
    omega
  have done := partReadRest_at positive all here enough
  refine ⟨rfl, ?_⟩
  have taken := done.inStep.taken
  rw [done.uSizeOK] at taken
  simp only [if_true, wbhicPartReadFIFO_End]
  omega

/-- Complete parameters, as many as the caller expects, are delivered. -/
theorem wbhicCmd_V_Recv_delivers {slots : List Slot} {params : List Param}
    (same : slots.length = params.length) (size : uResponLen = (frame params).length)
    (offered : ∀ j < uResponLen, Offered drq j)
    (here : stream words uResponLen 0 = frame params) :
    (wbhicCmd_V_Recv drq words true uResponLen slots).delivered =
      List.zipWith expected slots params := by
  have length : uResponLen = 4 + paramsLength params := by
    rw [size, frame, List.length_append, length_body]
    rfl
  have positive : uResponLen + uResponLen % 2 ≠ 0 := by omega
  have all := offered_total offered
  have start : At words _ 0 _ 0 := partFIFO_Begin_at fits
  rw [length, stream_add] at here
  obtain ⟨number, data⟩ := List.append_inj here (by simp [word])
  obtain ⟨ok, next, buffer⟩ := recvWord_at positive all
    (s := ⟨partFIFO_Begin uResponLen, 0, word uResponLen⟩) start
  rw [Nat.min_eq_left (by omega)] at next buffer
  simp only [wbhicCmd_V_Recv, if_true]
  generalize recvWord drq words ⟨partFIFO_Begin uResponLen, 0, word uResponLen⟩ = r
    at ok next buffer ⊢
  obtain ⟨bOK, s⟩ := r
  obtain rfl : bOK = true := ok
  simp only at buffer next
  have few := length_le_paramsLength params
  have count : wordAt s.pucBuf 0 = slots.length := by
    rw [buffer, number, same]
    exact wordAt_word (by omega) _
  have delivers := recvParams_delivers positive all same next (by omega) data
  obtain ⟨ok, -⟩ := recvParams_at positive all slots next
  simp only [count, and_self, if_true]
  generalize recvParams drq words slots s = r at delivers ok ⊢
  obtain ⟨bOK, delivered, s⟩ := r
  obtain rfl : bOK = true := ok
  exact delivers

/-- A byte that is not offered in time stays in the port. -/
theorem wbhicCmd_V_Recv_refused (slots : List Slot) {j : Nat} (refused : ¬ Offered drq j) :
    (wbhicCmd_V_Recv drq words true uResponLen slots).taken ≤ (j + 1) / 2 := by
  have keeps : ReadsKeep drq words fun fifo taken =>
      InStep words fifo.uSizeOK fifo.usHalf taken ∧ fifo.uSizeOK ≤ j := by
    rintro fifo taken n ⟨step, low⟩
    obtain ⟨-, low', step'⟩ := wbhicPartReadFIFO_refused drq words step refused low n
    exact ⟨step', low'⟩
  have start : At words _ 0 _ 0 := partFIFO_Begin_at fits
  obtain ⟨fifo, step, low⟩ := wbhicCmd_V_Recv_keeps keeps slots
    (keeps _ _ 4 ⟨start.inStep, start.uSizeOK ▸ Nat.zero_le j⟩)
  rw [step.taken]
  omega

end

/-- For a response of no bytes the first four behind it are taken, where there are any. -/
theorem wbhicCmd_V_Recv_empty (drq : Nat → Bool) (words : Nat → HalfWord) (slots : List Slot) :
    let r := wbhicCmd_V_Recv drq words true 0 slots
    (drq 0 = true → 2 ≤ r.taken) ∧ (drq 0 = false → r.bOK = false ∧ r.taken = 0) := by
  have start : InStep words (partFIFO_Begin 0).uSizeOK (partFIFO_Begin 0).usHalf 0 :=
    ⟨rfl, by simp [partFIFO_Begin]⟩
  refine ⟨fun ready => ?_, fun refused => ?_⟩
  · have keeps : ReadsKeep drq words fun fifo taken =>
        InStep words fifo.uSizeOK fifo.usHalf taken ∧ 4 ≤ fifo.uSizeOK := by
      rintro fifo taken n ⟨step, low⟩
      obtain ⟨-, -, size, step'⟩ := wbhicPartReadFIFO_spec drq words step n
      exact ⟨step', by omega⟩
    obtain ⟨fetched, -, size, step⟩ :=
      wbhicPartReadFIFO_spec drq words start 4
    have offered : ∀ j, 0 ≤ j → j < 0 + 4 → Offered drq j := by
      intro j _ small first
      unfold sizeFifo at first
      rwa [show j / 2 = 0 by omega]
    have fetch4 : fetch drq words (toAdd (partFIFO_Begin 0) 4) (partFIFO_Begin 0).uSizeOK =
        (true, stream words 4 0) := fetch_offered drq words offered
    rw [fetch4] at fetched
    obtain ⟨-, bytes⟩ := Prod.mk.inj fetched
    rw [bytes, length_stream] at size
    obtain ⟨fifo, step, low⟩ := wbhicCmd_V_Recv_keeps keeps slots ⟨step, by omega⟩
    rw [step.taken]
    omega
  · have none : wbhicPartReadFIFO drq words (partFIFO_Begin 0) 0 4 =
        ⟨false, [], ⟨0, 0, ⟨0, 0⟩⟩, 0⟩ := by
      simp [wbhicPartReadFIFO, wbhicFIFO_CalcBlocks, toAdd, partFIFO_Begin, sizeFifo, readBytes,
        readWords, readBlocks, readAfter, refused]
    simp [wbhicCmd_V_Recv, recvWord, none]

/-! ### The command -/

/-- TRUE only for as many complete parameters as the caller expects, which are delivered;
and what is taken from the port is the response, in words, whatever the result is. -/
def Faithful (line : Line) (params : List Param) (slots : List Slot) (uLength : Nat)
    (answer : List Param) : Prop :=
  let response := writeCmd5 uLength answer
  let r := wbhicCmd_V line params slots uLength answer
  (r.bOK = true → ∃ got : List Param, response = frame got ∧ got.length = slots.length ∧
      r.delivered = List.zipWith expected slots got) ∧
    (line.sends params = true → r.taken = (response.length + 1) / 2)

/-- The port tells the length of the response and offers every block of it in time. -/
def Line.Answers (line : Line) (response : List UInt8) : Prop :=
  line.lengthReady = true ∧ ∀ j < response.length, Offered line.drqIn j

section
variable {line : Line} {params : List Param} {slots : List Slot} {uLength : Nat}
  {answer : List Param} (sends : line.sends params = true)
include sends

theorem faithful_empty (short : uLength < 4) : Faithful line params slots uLength answer ↔
    ¬ (line.lengthReady = true ∧ line.drqIn 0 = true) := by
  have response : writeCmd5 uLength answer = [] := by rw [writeCmd5, if_pos (by omega)]
  obtain ⟨takes, leaves⟩ := wbhicCmd_V_Recv_empty line.drqIn (line.port []) slots
  simp only [Faithful, wbhicCmd_V, sends, if_true, response, List.length_nil, true_imp_iff]
  constructor
  · rintro ⟨-, taken⟩ ⟨ready, drq⟩
    have := takes drq
    rw [ready] at taken
    omega
  · intro silent
    have nothing : (wbhicCmd_V_Recv line.drqIn (line.port []) line.lengthReady 0 slots).bOK = false ∧
        (wbhicCmd_V_Recv line.drqIn (line.port []) line.lengthReady 0 slots).taken = 0 := by
      cases ready : line.lengthReady with
      | false => exact ⟨rfl, rfl⟩
      | true => exact leaves (by simpa [ready] using silent)
    simp [nothing]

theorem faithful_answer (few : answer.length < 2 ^ 32) (small : uLength < 2 ^ 32 - 1)
    (room : 4 ≤ uLength) : Faithful line params slots uLength answer ↔
      line.Answers (writeCmd5 uLength answer) ∧
        (answer.length = slots.length ∧ 4 + paramsLength answer ≤ uLength ∨
          line.finished = false) := by
  have below := writeCmd5_length_le uLength answer
  have some : 4 ≤ (writeCmd5 uLength answer).length := by
    rw [writeCmd5, if_neg (by omega), List.length_append]
    exact Nat.le_add_right 4 _
  have fits : (writeCmd5 uLength answer).length < 2 ^ 32 - 1 := by omega
  simp only [Faithful, wbhicCmd_V, sends, if_true, true_imp_iff]
  cases ready : line.lengthReady with
  | false =>
    refine ⟨fun h => ?_, fun h => ?_⟩
    · have taken : 0 = ((writeCmd5 uLength answer).length + 1) / 2 := h.2
      omega
    · have := h.1.1
      rw [ready] at this
      cases this
  | true =>
    by_cases offered : ∀ j < (writeCmd5 uLength answer).length, Offered line.drqIn j
    · obtain ⟨ok, taken⟩ := @wbhicCmd_V_Recv_offered line.drqIn
        (line.port (writeCmd5 uLength answer)) _ fits slots (by omega) offered
      have answers : line.Answers (writeCmd5 uLength answer) := ⟨ready, offered⟩
      simp only [ok, taken, Bool.true_and, and_true, answers, true_and]
      constructor
      · intro promised
        by_cases finished : line.finished = true
        · obtain ⟨got, same, number, -⟩ := promised finished
          have size := congrArg List.length same
          rw [frame, List.length_append, length_body] at size
          have := length_le_paramsLength got
          obtain ⟨count, all⟩ := frame_of_writeCmd5 few (by omega) same
          exact .inl ⟨count.trans number, all⟩
        · exact .inr (by simpa using finished)
      · rintro (⟨number, all⟩ | unfinished) finished
        · have whole := writeCmd5_frame all
          refine ⟨answer, whole, number, ?_⟩
          refine wbhicCmd_V_Recv_delivers fits number.symm (by rw [whole]) offered ?_
          rw [stream_port line (by omega), List.drop_zero, List.take_length, whole]
        · rw [unfinished] at finished
          cases finished
    · refine ⟨fun h => ?_, fun h => absurd h.1.2 offered⟩
      obtain ⟨j, inside, refused⟩ : ∃ j < (writeCmd5 uLength answer).length,
          ¬ Offered line.drqIn j := by simpa using offered
      have left := @wbhicCmd_V_Recv_refused line.drqIn (line.port (writeCmd5 uLength answer)) _ fits
        slots j refused
      have start : j % sizeFifo = 0 := by
        by_contra other
        exact refused fun same => absurd same other
      have taken := h.2
      unfold sizeFifo at start
      omega

end

/-- The result of a mismatch is the result of the last wait, so it is TRUE where that is. -/
theorem wbhicCmd_V_faithful (line : Line) (params : List Param) (slots : List Slot) (uLength : Nat)
    (answer : List Param) (few : answer.length < 2 ^ 32) (small : uLength < 2 ^ 32 - 1) :
    Faithful line params slots uLength answer ↔
      (line.sends params = true →
        if uLength < 4 then ¬ (line.lengthReady = true ∧ line.drqIn 0 = true)
        else line.Answers (writeCmd5 uLength answer) ∧
          (answer.length = slots.length ∧ 4 + paramsLength answer ≤ uLength ∨
            line.finished = false)) := by
  by_cases sends : line.sends params = true
  · simp only [sends, true_imp_iff]
    split
    · rename_i short
      exact faithful_empty sends short
    · rename_i room
      exact faithful_answer sends few small (by omega)
  · simp [Faithful, wbhicCmd_V, sends]

def promptLine : Line := ⟨true, true, fun _ => true, true, fun _ => true, fun _ => 0, true⟩

def threeBytes : Param := ⟨[1, 2, 3], by decide⟩

theorem wbhicCmd_V_faithful_truncated :
    Faithful promptLine [] [⟨2, true⟩] 16 [threeBytes] := by
  refine (wbhicCmd_V_faithful promptLine [] [⟨2, true⟩] 16 [threeBytes] (by decide)
    (by decide)).mpr fun _ => ?_
  rw [if_neg (by decide)]
  exact ⟨⟨rfl, fun _ _ _ => rfl⟩, .inl ⟨rfl, by decide⟩⟩

/-- A response with a parameter is a success for a caller that expects none. -/
theorem wbhicCmd_V_mismatch :
    ¬ ∀ (line : Line) (params : List Param) (slots : List Slot) (uLength : Nat)
      (answer : List Param), answer.length < 2 ^ 32 → uLength < 2 ^ 32 - 1 →
        Faithful line params slots uLength answer := by
  intro faithful
  have promised := (faithful promptLine [] [] 16 [threeBytes] (by decide) (by decide)).1
  obtain ⟨got, same, none, -⟩ := promised (by decide)
  rw [List.length_eq_zero_iff.mp none] at same
  exact absurd same (by decide)

end Rovio.Hic
