import Rovio.Hic.Command
import Rovio.Hic.Writing

/-! The bytes of a Type IV or V command: what the baseband sends is what the host reads. -/
namespace Rovio.Hic

open Kit

def Param.frame (param : Param) : List UInt8 := word param.bytes.length ++ param.bytes

def body (params : List Param) : List UInt8 := params.flatMap Param.frame

def frame (params : List Param) : List UInt8 := word params.length ++ body params

def Slice.content (pcBuffer : List UInt8) (s : Slice) : List UInt8 :=
  (pcBuffer.drop s.pcParam).take s.uParamLen_IO

theorem length_frame (param : Param) : param.frame.length = 4 + param.bytes.length := by
  simp [Param.frame, word]

theorem length_body (params : List Param) : (body params).length = paramsLength params := by
  induction params with
  | nil => rfl
  | cons param params ih =>
    simp only [body, List.flatMap_cons, List.length_append, length_frame, paramsLength,
      List.map_cons, List.sum_cons] at ih ⊢
    rw [ih]

theorem length_le_paramsLength (params : List Param) : params.length ≤ paramsLength params := by
  induction params with
  | nil => exact Nat.le_refl 0
  | cons param params ih =>
    have size : paramsLength (param :: params) = 4 + param.bytes.length + paramsLength params := rfl
    rw [List.length_cons, size]
    omega

/-! ### Words in a buffer -/

theorem wordAt_drop (pc : List UInt8) (i : Nat) : wordAt pc i = wordAt (pc.drop i) 0 := by
  simp [wordAt, List.getD_eq_getElem?_getD]

theorem wordAt_word {n : Nat} (fits : n < 2 ^ 32) (rest : List UInt8) :
    wordAt (word n ++ rest) 0 = n := by
  have same : wordAt (word n ++ rest) 0 = (BitVec.ofNat 32 n).toNat :=
    congrArg BitVec.toNat (leWord_leBytes (BitVec.ofNat 32 n))
  rw [same, BitVec.toNat_ofNat, Nat.mod_eq_of_lt fits]

theorem wordAt_lt (pc : List UInt8) (i : Nat) : wordAt pc i < 2 ^ 32 := BitVec.isLt _

/-- Any four bytes are the word they are read as. -/
theorem word_wordAt {pc : List UInt8} (enough : 4 ≤ pc.length) :
    pc = word (wordAt pc 0) ++ pc.drop 4 := by
  match pc, enough with
  | b0 :: b1 :: b2 :: b3 :: rest, _ =>
    have bytes : word (wordAt (b0 :: b1 :: b2 :: b3 :: rest) 0) = [b0, b1, b2, b3] := by
      rw [word, wordAt, BitVec.ofNat_toNat, BitVec.setWidth_eq]
      exact leBytes_leWord b0 b1 b2 b3
    rw [bytes]
    rfl

/-! ### Reading -/

/-- Where the parameters stand in the buffer they are read, each of them complete. -/
theorem readParams_body (params : List Param) {pcBuffer rest : List UInt8} {pc : Nat}
    (here : pcBuffer.drop pc = body params ++ rest) (inside : pc ≤ pcBuffer.length) :
    let slices := readParams pcBuffer params.length pc
    slices.map (Slice.content pcBuffer) = params.map Param.bytes ∧
      ∀ s ∈ slices, s.uParamLen = s.uParamLen_IO := by
  induction params generalizing pc with
  | nil => exact ⟨rfl, nofun⟩
  | cons param params ih =>
    have split : pcBuffer.drop pc =
      word param.bytes.length ++ (param.bytes ++ (body params ++ rest)) := by
      rw [here]
      simp [body, Param.frame]
    have size : pcBuffer.length - pc = 4 + (param.bytes.length + (body params ++ rest).length) := by
      rw [← List.length_drop, split]
      simp only [List.length_append]
      rfl
    have length : wordAt pcBuffer pc = param.bytes.length := by
      rw [wordAt_drop, split, wordAt_word param.fits]
    have complete : min param.bytes.length (pcBuffer.length - (pc + 4)) = param.bytes.length := by
      omega
    have data : pcBuffer.drop (pc + 4) = param.bytes ++ (body params ++ rest) := by
      rw [← List.drop_drop, split]
      rfl
    have next : pcBuffer.drop (pc + 4 + param.bytes.length) = body params ++ rest := by
      rw [← List.drop_drop, data, List.drop_left]
    obtain ⟨contents, others⟩ := ih next (by omega)
    simp only [List.length_cons, readParams,
      if_neg (show ¬ pc + 4 > pcBuffer.length by omega), length,
      complete, List.map_cons, List.mem_cons, forall_eq_or_imp]
    refine ⟨?_, trivial, others⟩
    rw [contents, Slice.content, data, List.take_left]

theorem hicReadCmd45_frame (params : List Param) (few : params.length < 2 ^ 32) :
    let r := hicReadCmd45 (frame params) params.length
    r.1 = true ∧ r.2.map (Slice.content (frame params)) = params.map Param.bytes := by
  have start : (frame params).drop 4 = body params ++ [] := by
    rw [List.append_nil]
    rfl
  have large : 4 ≤ (frame params).length := by simp [frame, word]
  obtain ⟨contents, complete⟩ := readParams_body params start large
  have number : wordAt (frame params) 0 = params.length := wordAt_word few _
  have read : readCmd45 (frame params) params.length =
    readParams (frame params) params.length 4 := by
    rw [readCmd45, if_neg (by omega), number, if_neg (by simp)]
  have all : (readParams (frame params) params.length 4).length = params.length := by
    rw [← List.length_map (Slice.content (frame params)), contents, List.length_map]
  simp only [hicReadCmd45, read, all, ne_eq, not_true_eq_false, if_false]
  cases last : (readParams (frame params) params.length 4).getLast? with
  | none => exact ⟨rfl, contents⟩
  | some s => exact ⟨by simpa using complete s (List.mem_of_getLast? last), contents⟩

/-- A parameter that is followed by another one, or is the last and complete, is complete;
so all of them are. -/
theorem body_of_readParams (count : Nat) {pcBuffer : List UInt8} {pc : Nat}
    (inside : pc ≤ pcBuffer.length) (all : (readParams pcBuffer count pc).length = count)
    (complete : ∀ s ∈ (readParams pcBuffer count pc).getLast?, s.uParamLen = s.uParamLen_IO) :
    ∃ params : List Param, params.length = count ∧ body params <+: pcBuffer.drop pc ∧
      (readParams pcBuffer count pc).map (Slice.content pcBuffer) = params.map Param.bytes ∧
      ∀ s ∈ readParams pcBuffer count pc, s.pcParam + s.uParamLen_IO ≤ pcBuffer.length := by
  induction count generalizing pc with
  | zero => exact ⟨[], rfl, List.nil_prefix, rfl, nofun⟩
  | succ count ih =>
    by_cases short : pc + 4 > pcBuffer.length
    · rw [readParams, if_pos short] at all
      cases all
    · simp only [readParams, if_neg short] at all complete ⊢
      generalize length : min (wordAt pcBuffer pc) (pcBuffer.length - (pc + 4)) = uParamLen_IO
        at all complete ⊢
      have within : pc + 4 + uParamLen_IO ≤ pcBuffer.length := by omega
      simp only [List.length_cons, Nat.add_right_cancel_iff] at all
      have whole : wordAt pcBuffer pc = uParamLen_IO := by
        cases count with
        | zero => exact complete ⟨_, _, _⟩ rfl
        | succ count =>
          -- the next parameter starts inside of the buffer
          by_contra cut
          rw [readParams, if_pos (by omega)] at all
          cases all
      have rest : ∀ s ∈ (readParams pcBuffer count (pc + 4 + uParamLen_IO)).getLast?,
          s.uParamLen = s.uParamLen_IO := by
        intro s last
        apply complete
        rw [List.getLast?_cons, last]
        rfl
      obtain ⟨params, number, begins, contents, insides⟩ := ih within all rest
      have drops : pcBuffer.drop pc =
        word uParamLen_IO ++ ((pcBuffer.drop (pc + 4)).take uParamLen_IO ++
          pcBuffer.drop (pc + 4 + uParamLen_IO)) := by
        have enough : 4 ≤ (pcBuffer.drop pc).length := by
          rw [List.length_drop]
          omega
        have head := word_wordAt enough
        rw [← wordAt_drop, whole, List.drop_drop] at head
        rw [head, ← List.drop_drop (i := uParamLen_IO), List.take_append_drop]
      have size : ((pcBuffer.drop (pc + 4)).take uParamLen_IO).length = uParamLen_IO := by
        rw [List.length_take, List.length_drop]
        omega
      have few : uParamLen_IO < 2 ^ 32 := whole ▸ wordAt_lt pcBuffer pc
      refine ⟨⟨(pcBuffer.drop (pc + 4)).take uParamLen_IO, by rwa [size]⟩ :: params, by simp [number],
        ?_, ?_, ?_⟩
      · rw [drops]
        simp only [body, List.flatMap_cons, Param.frame, size, List.append_assoc,
          List.prefix_append_right_inj] at begins ⊢
        exact begins
      · simp only [List.map_cons, contents]
        rfl
      · intro s member
        rcases List.mem_cons.mp member with rfl | member
        · exact within
        · exact insides s member

/-! ### Writing a response -/

theorem writeParams_body (params : List Param) {uLength pc : Nat}
    (room : pc + paramsLength params ≤ uLength) : writeParams uLength params pc = body params := by
  induction params generalizing pc with
  | nil => rfl
  | cons param params ih =>
    have size : paramsLength (param :: params) = 4 + param.bytes.length + paramsLength params := rfl
    rw [size] at room
    have whole : min param.bytes.length (uLength - (pc + 4)) = param.bytes.length := by omega
    rw [writeParams, if_neg (by omega)]
    simp only [whole, List.take_length, ih (show pc + 4 + param.bytes.length + paramsLength params ≤
      uLength by omega)]
    rfl

/-- What does not fit is not written whole, so the bytes of complete parameters fit. -/
theorem body_of_writeParams (params got : List Param) {uLength pc : Nat} (inside : pc ≤ uLength)
    (number : params.length = got.length) (same : writeParams uLength params pc = body got) :
    pc + paramsLength params ≤ uLength := by
  induction params generalizing got pc with
  | nil => exact inside
  | cons param params ih =>
    obtain ⟨q, got, rfl⟩ := List.exists_cons_of_length_eq_add_one number.symm
    have head : body (q :: got) = word q.bytes.length ++ (q.bytes ++ body got) := by
      simp [body, Param.frame]
    by_cases short : pc + 4 > uLength
    · rw [writeParams, if_pos short, head] at same
      have length := congrArg List.length same
      simp [word] at length
      omega
    · simp only [writeParams, if_neg short] at same
      rw [head, List.append_assoc] at same
      obtain ⟨words, rest⟩ := List.append_inj same rfl
      have length : param.bytes.length = q.bytes.length := by
        have p := wordAt_word param.fits []
        rw [words] at p
        exact p.symm.trans (wordAt_word q.fits [])
      generalize io : min param.bytes.length (uLength - (pc + 4)) = uParamLen_IO at rest
      have whole : uParamLen_IO = param.bytes.length := by
        by_contra cut
        have none : writeParams uLength params (pc + 4 + uParamLen_IO) = [] := by
          cases params with
          | nil => rfl
          | cons => rw [writeParams, if_pos (by omega)]
        have sizes := congrArg List.length rest
        rw [none, List.append_nil, List.length_take, List.length_append] at sizes
        omega
      rw [whole, List.take_length] at rest
      have behind := (List.append_inj rest length).2
      have fits := ih got (by omega) (by simpa using number) behind
      have size : paramsLength (param :: params) = 4 + param.bytes.length +
        paramsLength params := rfl
      omega

theorem writeParams_length_le (params : List Param) {uLength pc : Nat} (inside : pc ≤ uLength) :
    pc + (writeParams uLength params pc).length ≤ uLength := by
  induction params generalizing pc with
  | nil => exact inside
  | cons param params ih =>
    unfold writeParams
    split
    · exact inside
    · have rest := @ih (pc + 4 + min param.bytes.length (uLength - (pc + 4))) (by omega)
      simp only [List.length_append, List.length_take]
      have four : (word param.bytes.length).length = 4 := rfl
      omega

theorem writeCmd5_length_le (uLength : Nat) (params : List Param) :
    (writeCmd5 uLength params).length ≤ uLength := by
  unfold writeCmd5
  split
  · exact Nat.zero_le _
  · have := writeParams_length_le params (show 4 ≤ uLength by omega)
    rw [List.length_append]
    exact this

/-- A response is a frame where its buffer holds all parameters, and of no others. -/
theorem writeCmd5_frame {uLength : Nat} {params : List Param}
    (room : 4 + paramsLength params ≤ uLength) : writeCmd5 uLength params = frame params := by
  rw [writeCmd5, if_neg (by omega), writeParams_body params room]
  rfl

theorem frame_of_writeCmd5 {uLength : Nat} {params got : List Param} (few : params.length < 2 ^ 32)
    (small : got.length < 2 ^ 32) (same : writeCmd5 uLength params = frame got) :
    params.length = got.length ∧ 4 + paramsLength params ≤ uLength := by
  by_cases short : 4 > uLength
  · rw [writeCmd5, if_pos short] at same
    have length := congrArg List.length same
    simp [frame, word] at length
    omega
  · rw [writeCmd5, if_neg short] at same
    obtain ⟨words, rest⟩ := List.append_inj same rfl
    have number : params.length = got.length := by
      have p := wordAt_word few []
      rw [words] at p
      exact p.symm.trans (wordAt_word small [])
    exact ⟨number, body_of_writeParams params got (by omega) number rest⟩

/-! ### Sending -/

variable (drq : Nat → Bool)

theorem sendParams_spec (params : List Param) {sent : List UInt8} {fifo : Fifo}
    {port : List HalfWord} (before : Sending sent fifo port)
    (room : sent.length + paramsLength params ≤ fifo.uSizeTotal) :
    let r := sendParams drq params fifo port
    r.2.1.uSizeTotal = fifo.uSizeTotal ∧
      (r.1 = true → Sending (sent ++ body params) r.2.1 r.2.2) ∧
      ((∀ j < fifo.uSizeTotal, Offered drq j) → r.1 = true) := by
  induction params generalizing sent fifo port with
  | nil => exact ⟨rfl, fun _ => by simpa [sendParams, body] using before, fun _ => rfl⟩
  | cons param params ih =>
    have size : paramsLength (param :: params) = 4 + param.bytes.length + paramsLength params := rfl
    have four : (word param.bytes.length).length = 4 := rfl
    rw [size] at room
    obtain ⟨total1, moved1, offered1⟩ := wbhicPartWriteFIFO_spec drq before
      (word param.bytes.length) (by rw [before.size, four]; omega)
    simp only [sendParams]
    generalize wbhicPartWriteFIFO drq fifo port (word param.bytes.length) = r1
      at total1 moved1 offered1 ⊢
    by_cases ok1 : r1.bOK = true
    · have mid := moved1 ok1
      obtain ⟨total2, moved2, offered2⟩ := wbhicPartWriteFIFO_spec drq mid param.bytes
        (by rw [mid.size, total1, List.length_append, four]; omega)
      rw [if_pos ok1]
      generalize wbhicPartWriteFIFO drq r1.fifo r1.port param.bytes = r2 at total2 moved2 offered2 ⊢
      by_cases ok2 : r2.bOK = true
      · rw [if_pos ok2]
        obtain ⟨total3, moved3, offered3⟩ := ih (moved2 ok2) (by
          rw [total2, total1, List.length_append, List.length_append, four]
          omega)
        rw [total2, total1] at total3 offered3
        refine ⟨total3, fun ok => ?_, offered3⟩
        have all := moved3 ok
        rwa [List.append_assoc, List.append_assoc] at all
      · rw [if_neg ok2]
        refine ⟨total2.trans total1, nofun, fun offered => absurd (offered2 ?_) ok2⟩
        intro j _ high
        rw [List.length_append, four] at high
        exact offered j (by omega)
    · rw [if_neg ok1]
      refine ⟨total1, nofun, fun offered => absurd (offered1 ?_) ok1⟩
      intro j _ high
      rw [four] at high
      exact offered j (by omega)

/-- The end of a transfer adds a zero to an odd number of bytes. -/
theorem wbhicPartWriteFIFO_End_padded {sent : List UInt8} {fifo : Fifo} {port : List HalfWord}
    (before : Sending sent fifo port)
    (total : fifo.uSizeTotal = 0 ∨ fifo.uSizeTotal = sent.length + sent.length % 2) :
    portBytes (wbhicPartWriteFIFO_End drq fifo port) =
      sent ++ List.replicate (sent.length % 2) 0 := by
  have size := before.size
  by_cases odd : sent.length % 2 = 1
  · have room : toAdd fifo [(0 : UInt8)].length = [(0 : UInt8)].length := by
      unfold toAdd
      split
      case isTrue => rfl
      case isFalse =>
        rw [List.length_singleton]
        omega
    obtain ⟨total1, moved1, offered1⟩ := wbhicPartWriteFIFO_all drq before [0] room
    have ok1 := offered1 fun j low high start => by
      simp only [List.length_singleton] at high
      unfold sizeFifo at start
      omega
    have moved := moved1 ok1
    have even : (wbhicPartWriteFIFO drq fifo port [0]).fifo.uSizeOK % 2 = 0 := by
      rw [moved.size, List.length_append, List.length_singleton]
      omega
    have written : wbhicPartWriteFIFO_End drq fifo port =
        (wbhicPartWriteFIFO drq fifo port [0]).port := by
      rcases total with none | total
      · have rest : partWriteRest drq (fifo.uSizeTotal - fifo.uSizeOK) fifo port =
            (true, fifo, port) := by
          rw [none, Nat.zero_sub, partWriteRest]
        have last : fifo.uSizeOK % 2 ≠ 0 := by omega
        simp only [wbhicPartWriteFIFO_End, rest, last, ne_eq, not_false_eq_true, and_self, if_true]
      · have rest : partWriteRest drq (fifo.uSizeTotal - fifo.uSizeOK) fifo port =
            (true, (wbhicPartWriteFIFO drq fifo port [0]).fifo,
              (wbhicPartWriteFIFO drq fifo port [0]).port) := by
          rw [total, size, odd, Nat.add_sub_cancel_left, partWriteRest, if_pos (by omega)]
          simp only [ok1, if_true, partWriteRest]
        simp only [wbhicPartWriteFIFO_End, rest, even, ne_eq, not_true_eq_false, and_false,
          if_false]
    rw [written, odd, List.replicate_one]
    exact (Sent.even (by rw [← moved.size]; exact even)).mp moved.holds
  · have even : fifo.uSizeOK % 2 = 0 := by omega
    have none : fifo.uSizeTotal - fifo.uSizeOK = 0 := by omega
    have nothing : sent.length % 2 = 0 := by omega
    simp only [wbhicPartWriteFIFO_End, none, partWriteRest, even, nothing]
    simpa using (Sent.even nothing).mp before.holds

theorem wbhicPartWriteFIFO_End_spec {sent : List UInt8} {fifo : Fifo} {port : List HalfWord}
    (before : Sending sent fifo port) (total : fifo.uSizeTotal = sent.length + sent.length % 2) :
    ∃ pad, portBytes (wbhicPartWriteFIFO_End drq fifo port) = sent ++ pad :=
  ⟨_, wbhicPartWriteFIFO_End_padded drq before (.inr total)⟩

/-- A command that is sent leaves its frame in the FIFO, and it is sent where the port
offers DRQ for all of it. -/
theorem wbhicCmd_IV_or_V_Send_spec (params : List Param)
    (fits : 4 + paramsLength params < 2 ^ 32 - 1) :
    let r := wbhicCmd_IV_or_V_Send drq true params
    (r.bOK = true → r.stream = frame params) ∧
      ((∀ j < (frame params).length + 1, Offered drq j) → r.bOK = true) := by
  have length : (frame params).length = 4 + paramsLength params := by
    rw [frame, List.length_append, length_body]
    rfl
  have total : (partFIFO_Begin (4 + paramsLength params)).uSizeTotal =
      4 + paramsLength params + (4 + paramsLength params) % 2 := by
    simp only [partFIFO_Begin]
    omega
  have start : Sending [] (partFIFO_Begin (4 + paramsLength params)) [] := ⟨rfl, rfl⟩
  have four : (word params.length).length = 4 := rfl
  obtain ⟨total1, moved1, offered1⟩ := wbhicPartWriteFIFO_spec drq start (word params.length)
    (by rw [total, four]; simp only [partFIFO_Begin]; omega)
  simp only [wbhicCmd_IV_or_V_Send, if_true]
  rw [Nat.mod_eq_of_lt (by omega)]
  generalize wbhicPartWriteFIFO drq (partFIFO_Begin (4 + paramsLength params)) []
    (word params.length) = r1 at total1 moved1 offered1 ⊢
  by_cases ok1 : r1.bOK = true
  · obtain ⟨total2, moved2, offered2⟩ := sendParams_spec drq params (moved1 ok1)
      (by rw [total1, total, List.nil_append, four]; omega)
    rw [if_pos ok1]
    generalize sendParams drq params r1.fifo r1.port = r2 at total2 moved2 offered2 ⊢
    obtain ⟨ok2, fifo, port⟩ := r2
    cases ok2 with
    | true =>
      obtain ⟨pad, all⟩ := wbhicPartWriteFIFO_End_spec drq (moved2 rfl) (by
        rw [total2, total1, total, List.nil_append, List.length_append, four, length_body])
      refine ⟨fun _ => ?_, fun _ => rfl⟩
      simp only [if_true, Sent45.stream, all]
      exact List.take_left' length
    | false =>
      refine ⟨nofun, fun offered => offered2 fun j high => offered j ?_⟩
      rw [total1, total] at high
      rw [length]
      omega
  · rw [if_neg ok1]
    refine ⟨nofun, fun offered => absurd (offered1 fun j _ high => offered j ?_) ok1⟩
    rw [List.length_nil, four] at high
    rw [length]
    omega

/-- A buffer is accepted only where it begins with so many complete parameters, which the
slices are, inside of the buffer. -/
def Sound (pcBuffer : List UInt8) (uParamNum : Nat) : Prop :=
  let r := hicReadCmd45 pcBuffer uParamNum
  r.1 = true → ∃ params : List Param, params.length = uParamNum ∧ frame params <+: pcBuffer ∧
    r.2.map (Slice.content pcBuffer) = params.map Param.bytes ∧
    ∀ s ∈ r.2, s.pcParam + s.uParamLen_IO ≤ pcBuffer.length

/-- Where any parameter is asked for, a buffer that is too short or has another number is
told from the parameters it lacks. -/
theorem hicReadCmd45_sound {pcBuffer : List UInt8} {uParamNum : Nat}
    (number : uParamNum ≠ 0 ∨ (4 ≤ pcBuffer.length ∧ wordAt pcBuffer 0 = 0)) :
    Sound pcBuffer uParamNum := by
  intro accepted
  have slices : (hicReadCmd45 pcBuffer uParamNum).2 = readCmd45 pcBuffer uParamNum := by
    simp only [hicReadCmd45]
    split
    · rfl
    · split <;> rfl
  rw [slices]
  obtain ⟨length, complete⟩ : (readCmd45 pcBuffer uParamNum).length = uParamNum ∧
      ∀ s ∈ (readCmd45 pcBuffer uParamNum).getLast?, s.uParamLen = s.uParamLen_IO := by
    simp only [hicReadCmd45] at accepted
    split at accepted
    · cases accepted
    · rename_i same
      refine ⟨not_not.mp same, fun s last => ?_⟩
      rw [Option.mem_def.mp last] at accepted
      simpa using accepted
  have enough : 4 ≤ pcBuffer.length := by
    by_contra short
    have none : readCmd45 pcBuffer uParamNum = [] := by rw [readCmd45, if_pos (by omega)]
    rw [none] at length
    rcases number with some | ⟨large, -⟩
    · exact some length.symm
    · exact short large
  have same : uParamNum = wordAt pcBuffer 0 := by
    by_contra other
    have none : readCmd45 pcBuffer uParamNum = [] := by
      rw [readCmd45, if_neg (by omega), if_pos other]
    rw [none] at length
    rcases number with some | ⟨-, zero⟩
    · exact some length.symm
    · exact other (length.symm.trans zero.symm)
  have read : readCmd45 pcBuffer uParamNum = readParams pcBuffer uParamNum 4 := by
    rw [readCmd45, if_neg (by omega), if_neg (not_not.mpr same)]
  rw [read] at length complete ⊢
  obtain ⟨params, many, begins, contents, insides⟩ :=
    body_of_readParams uParamNum enough length complete
  refine ⟨params, many, ?_, contents, insides⟩
  rw [frame, many, same, word_wordAt enough]
  have head : wordAt (word (wordAt pcBuffer 0) ++ pcBuffer.drop 4) 0 = wordAt pcBuffer 0 :=
    wordAt_word (wordAt_lt pcBuffer 0) _
  rw [head, List.prefix_append_right_inj]
  exact begins

/-- What the host reads is what the baseband has sent; and what the host accepts is
complete parameters, if and only if it asks for some or there are none. -/
theorem hicReadCmd45_framing (drq : Nat → Bool) (lengthOK : Bool) (params : List Param)
    (pcBuffer : List UInt8) (uParamNum : Nat) :
    (4 + paramsLength params < 2 ^ 32 - 1 →
      let sent := wbhicCmd_IV_or_V_Send drq lengthOK params
      (lengthOK = true → (∀ n, drq n = true) → sent.bOK = true) ∧
        (sent.bOK = true →
          (hicReadCmd45 sent.stream params.length).1 = true ∧
            (hicReadCmd45 sent.stream params.length).2.map (Slice.content sent.stream) =
              params.map Param.bytes)) ∧
      (Sound pcBuffer uParamNum ↔
        uParamNum ≠ 0 ∨ (4 ≤ pcBuffer.length ∧ wordAt pcBuffer 0 = 0)) := by
  refine ⟨fun fits => ?_, ?_⟩
  · cases lengthOK with
    | false => exact ⟨nofun, nofun⟩
    | true =>
      obtain ⟨stream, offered⟩ := wbhicCmd_IV_or_V_Send_spec drq params fits
      refine ⟨fun _ ready => offered fun j _ _ => ready _, fun ok => ?_⟩
      have few := length_le_paramsLength params
      rw [stream ok]
      exact hicReadCmd45_frame params (by omega)
  · refine ⟨fun sound => ?_, hicReadCmd45_sound⟩
    by_contra neither
    obtain ⟨zero, other⟩ := not_or.mp neither
    have none : readCmd45 pcBuffer 0 = [] := by
      rw [readCmd45]
      split
      · rfl
      · rw [if_pos fun same => other ⟨by omega, same.symm⟩]
    rw [not_not.mp zero] at sound
    have accepted : (hicReadCmd45 pcBuffer 0).1 = true := by simp [hicReadCmd45, none]
    obtain ⟨params, number, begins, -⟩ := sound accepted
    rw [List.length_eq_zero_iff.mp number] at begins
    obtain ⟨rest, rfl⟩ := begins
    exact other ⟨by simp [frame, word], wordAt_word (by decide) _⟩

/-- One parameter of three bytes. -/
theorem hicReadCmd45_framing_three :
    (wbhicCmd_IV_or_V_Send (fun _ => true) true [⟨[1, 2, 3], by decide⟩]).bOK = true :=
  ((hicReadCmd45_framing (fun _ => true) true [⟨[1, 2, 3], by decide⟩] [] 0).1 (by decide)).1 rfl
    fun _ => rfl

/-- A buffer that announces a parameter is taken for one without any. -/
theorem hicReadCmd45_announced :
    ¬ ∀ (pcBuffer : List UInt8) (uParamNum : Nat), Sound pcBuffer uParamNum := by
  intro sound
  obtain ⟨params, number, begins, -⟩ := sound [1, 0, 0, 0] 0 (by decide)
  rw [List.length_eq_zero_iff.mp number] at begins
  exact absurd begins (by decide)

end Rovio.Hic
