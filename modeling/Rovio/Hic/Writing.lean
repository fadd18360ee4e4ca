import Rovio.Hic.Fifo

/-! Writing to the FIFO: after a call the port and the kept half hold all bytes sent. -/
namespace Rovio.Hic

variable (drq : Nat → Bool)

/-- The port and the kept half hold these bytes. -/
def Sent (sent : List UInt8) (usHalf : HalfWord) (port : List HalfWord) : Prop :=
  portBytes port ++ (if sent.length % 2 = 1 then [usHalf.low] else []) = sent

theorem length_portBytes (port : List HalfWord) : (portBytes port).length = port.length * 2 := by
  induction port with
  | nil => rfl
  | cons w port ih =>
    rw [portBytes, List.flatMap_cons, List.length_append, ← portBytes, ih]
    simp only [HalfWord.bytes, List.length_cons, List.length_nil]
    omega

theorem Sent.length {sent : List UInt8} {usHalf : HalfWord} {port : List HalfWord}
    (h : Sent sent usHalf port) : port.length = sent.length / 2 := by
  have size := congrArg List.length h
  rw [List.length_append, length_portBytes] at size
  split at size <;> simp only [List.length_cons, List.length_nil] at size <;> omega

theorem Sent.even {sent : List UInt8} {usHalf : HalfWord} {port : List HalfWord}
    (even : sent.length % 2 = 0) : Sent sent usHalf port ↔ portBytes port = sent := by
  rw [Sent, if_neg (by omega), List.append_nil]

theorem makeWords_spec (count : Nat) (pcuc : List UInt8) (enough : count * 2 ≤ pcuc.length) :
    portBytes (makeWords count pcuc).1 = pcuc.take (count * 2) ∧
      (makeWords count pcuc).2 = pcuc.drop (count * 2) := by
  induction count generalizing pcuc with
  | zero => cases pcuc <;> exact ⟨rfl, rfl⟩
  | succ count ih =>
    match pcuc, enough with
    | [], enough => simp at enough
    | [_], enough =>
      simp only [List.length_singleton] at enough
      omega
    | low :: high :: rest, enough =>
      obtain ⟨bytes, behind⟩ := ih rest (by simp only [List.length_cons] at enough; omega)
      rw [Nat.succ_mul]
      simp only [makeWords, portBytes, List.flatMap_cons] at bytes ⊢
      exact ⟨by rw [bytes]; rfl, behind⟩

theorem writeBytes_spec {sent : List UInt8} {out : Out} (before : Sent sent out.usHalf out.port)
    (even : sent.length % 2 = 0) (count : Nat) (enough : count ≤ out.pcuc.length) :
    let out' := writeBytes count out
    Sent (sent ++ out.pcuc.take count) out'.usHalf out'.port ∧ out'.pcuc = out.pcuc.drop count := by
  obtain ⟨bytes, behind⟩ := makeWords_spec (count / 2) out.pcuc (by omega)
  have port : portBytes out.port = sent := (Sent.even even).mp before
  have length : (sent ++ out.pcuc.take count).length = sent.length + count := by
    simp [Nat.min_eq_left enough]
  simp only [writeBytes]
  by_cases odd : count % 2 = 1
  · rw [if_pos odd]
    have whole : count = count / 2 * 2 + 1 := by omega
    obtain ⟨b, rest, last⟩ : ∃ b rest, out.pcuc.drop (count / 2 * 2) = b :: rest :=
      List.exists_cons_of_length_pos (by rw [List.length_drop]; omega)
    have taken : out.pcuc.take count = out.pcuc.take (count / 2 * 2) ++ [b] := by
      conv_lhs => rw [whole, List.take_add, last]
      rfl
    have dropped : out.pcuc.drop count = rest := by
      conv_lhs => rw [whole, ← List.drop_drop, last]
      rfl
    rw [behind, last, dropped]
    refine ⟨?_, rfl⟩
    rw [Sent, length, if_pos (by omega), taken, portBytes, List.flatMap_append, ← portBytes,
      ← portBytes, port, bytes, List.append_assoc]
    rfl
  · rw [if_neg odd]
    have whole : count / 2 * 2 = count := by omega
    rw [whole] at bytes behind
    refine ⟨?_, behind⟩
    rw [Sent.even (by rw [length]; omega), portBytes, List.flatMap_append, ← portBytes, ← portBytes,
      port, bytes]

/-- What part of a call does: where it succeeds so many bytes have been moved to the port,
and it succeeds where they are offered. -/
structure Puts (sent : List UInt8) (out : Out) (count : Nat) (r : Bool × Out) : Prop where
  offered : (∀ j, sent.length ≤ j → j < sent.length + count → Offered drq j) → r.1 = true
  moved : r.1 = true → Sent (sent ++ out.pcuc.take count) r.2.usHalf r.2.port
  behind : r.1 = true → r.2.pcuc = out.pcuc.drop count

variable {drq}

theorem Puts.none {sent : List UInt8} {out : Out} (before : Sent sent out.usHalf out.port) :
    Puts drq sent out 0 (true, out) :=
  ⟨fun _ => rfl, fun _ => by simpa using before, fun _ => rfl⟩

theorem Puts.trans {sent : List UInt8} {out out' : Out} {a b : Nat} {r : Bool × Out}
    (enough : a ≤ out.pcuc.length) (first : Puts drq sent out a (true, out'))
    (second : Puts drq (sent ++ out.pcuc.take a) out' b r) : Puts drq sent out (a + b) r := by
  have length : (sent ++ out.pcuc.take a).length = sent.length + a := by simp [enough]
  have behind := first.behind rfl
  refine ⟨fun offered => second.offered ?_, fun ok => ?_, fun ok => ?_⟩
  · intro j low high
    exact offered j (by omega) (by omega)
  · rw [List.take_add, ← List.append_assoc, ← behind]
    exact second.moved ok
  · rw [← List.drop_drop, ← behind]
    exact second.behind ok

theorem Puts.stopped {sent : List UInt8} {out out' : Out} {count j : Nat} (low : sent.length ≤ j)
    (high : j < sent.length + count) (refused : ¬ Offered drq j) :
    Puts drq sent out count (false, out') :=
  ⟨fun offered => absurd (offered j low high) refused, nofun, nofun⟩

theorem Puts.more {sent : List UInt8} {out out' : Out} {a b : Nat} (less : a ≤ b)
    (fails : Puts drq sent out a (false, out')) : Puts drq sent out b (false, out') :=
  ⟨fun offered => fails.offered fun j low high => offered j low (by omega), nofun, nofun⟩

theorem writeBytes_puts {sent : List UInt8} {out : Out} (before : Sent sent out.usHalf out.port)
    (even : sent.length % 2 = 0) {count : Nat} (enough : count ≤ out.pcuc.length) :
    Puts drq sent out count (true, writeBytes count out) := by
  obtain ⟨moved, behind⟩ := writeBytes_spec before even count enough
  exact ⟨fun _ => rfl, fun _ => moved, fun _ => behind⟩

/-- DRQ for the word that comes next is DRQ for the next byte at the start of a block. -/
theorem offered_next {sent : List UInt8} {out : Out} (before : Sent sent out.usHalf out.port)
    (boundary : sent.length % sizeFifo = 0) :
    Offered drq sent.length ↔ drq out.port.length = true := by
  rw [before.length]
  exact ⟨fun offered => offered boundary, fun ready _ => ready⟩

theorem writeBlocks_puts (blocks : Nat) {sent : List UInt8} {out : Out}
    (before : Sent sent out.usHalf out.port) (boundary : sent.length % sizeFifo = 0)
    (enough : blocks * sizeFifo ≤ out.pcuc.length) :
    Puts drq sent out (blocks * sizeFifo) (writeBlocks drq blocks out) := by
  induction blocks generalizing sent out with
  | zero =>
    rw [Nat.zero_mul]
    exact .none before
  | succ blocks ih =>
    have size : (blocks + 1) * sizeFifo = sizeFifo + blocks * sizeFifo := by
      rw [Nat.succ_mul, Nat.add_comm]
    have even : sent.length % 2 = 0 := by unfold sizeFifo at boundary; omega
    rw [size] at enough ⊢
    by_cases ready : drq out.port.length = true
    · have block : Puts drq sent out sizeFifo (true, writeBytes sizeFifo out) :=
        writeBytes_puts before even (by omega)
      have length : (sent ++ out.pcuc.take sizeFifo).length = sent.length + sizeFifo := by
        simp only [List.length_append, List.length_take]
        omega
      have next := ih (block.moved rfl) (by rw [length, Nat.add_mod_right]; exact boundary)
        (by rw [block.behind rfl, List.length_drop]; omega)
      have same : writeBlocks drq (blocks + 1) out =
        writeBlocks drq blocks (writeBytes sizeFifo out) := by
        simp only [writeBlocks, if_pos ready]
        rfl
      rw [same]
      exact block.trans (by omega) next
    · simp only [writeBlocks, if_neg ready]
      refine .stopped (Nat.le_refl _) ?_ (mt (offered_next before boundary).mp ready)
      exact Nat.lt_add_of_pos_right (Nat.lt_of_lt_of_le (by decide) (Nat.le_add_right _ _))

theorem writeAfter_puts {after : Nat} {sent : List UInt8} {out : Out}
    (before : Sent sent out.usHalf out.port) (boundary : 0 < after → sent.length % sizeFifo = 0)
    (enough : after ≤ out.pcuc.length) :
    Puts drq sent out after (writeAfter drq after true out) := by
  rcases Nat.eq_zero_or_pos after with none | some
  · subst none
    exact .none before
  · have even : sent.length % 2 = 0 := by have := boundary some; unfold sizeFifo at this; omega
    simp only [writeAfter, some, and_self, if_true]
    split
    · exact writeBytes_puts before even enough
    · rename_i refused
      exact .stopped (Nat.le_refl _) (by omega) (mt (offered_next before (boundary some)).mp refused)

/-- What a call writes before the first block; a half kept from the call before goes out
with the first byte. -/
theorem writeFirst_puts {sent : List UInt8} {out : Out} (before : Sent sent out.usHalf out.port)
    {count : Nat} (enough : count ≤ out.pcuc.length) :
    let packed := sent.length % 2 = 1 ∧ count > 0
    let filled : HalfWord := ⟨out.usHalf.low, out.pcuc.headD 0⟩
    Puts drq sent out count (true, writeBytes (if packed then count - 1 else count)
      (if packed then ⟨out.port ++ [filled], filled, out.pcuc.tail⟩ else out)) := by
  by_cases packed : sent.length % 2 = 1 ∧ count > 0
  · obtain ⟨odd, positive⟩ := packed
    obtain ⟨port, usHalf, pcuc⟩ := out
    match pcuc, enough with
    | [], enough => simp at enough; omega
    | b :: pcuc, enough =>
      obtain ⟨rest, rfl⟩ : ∃ rest, count = 1 + rest := ⟨count - 1, by omega⟩
      simp only [odd, positive, and_self, if_true, Nat.add_sub_cancel_left]
      have first : Puts drq sent ⟨port, usHalf, b :: pcuc⟩ 1
          (true, ⟨port ++ [⟨usHalf.low, b⟩], ⟨usHalf.low, b⟩, pcuc⟩) := by
        refine ⟨fun _ => rfl, fun _ => ?_, fun _ => rfl⟩
        rw [Sent.even (by simp; omega)]
        rw [Sent, if_pos odd] at before
        simp only [portBytes, List.flatMap_append] at before ⊢
        rw [← before]
        simp [HalfWord.bytes]
      refine first.trans (by simp) (writeBytes_puts (first.moved rfl) ?_ ?_)
      · simp
        omega
      · simp at enough ⊢
        omega
  · simp only [if_neg packed]
    by_cases even : sent.length % 2 = 0
    · exact writeBytes_puts before even enough
    · have zero : count = 0 := by omega
      subst zero
      have same : writeBytes 0 out = out := by
        cases out
        simp [writeBytes, makeWords]
      rw [same]
      exact .none before

/-- A handle whose port holds what was sent. -/
structure Sending (sent : List UInt8) (fifo : Fifo) (port : List HalfWord) : Prop where
  size : fifo.uSizeOK = sent.length
  holds : Sent sent fifo.usHalf port

variable (drq)

/-- A call that is not cut by the total writes all of its bytes or fails, and succeeds where they
are offered. -/
theorem wbhicPartWriteFIFO_all {sent : List UInt8} {fifo : Fifo} {port : List HalfWord}
    (before : Sending sent fifo port) (pcuc : List UInt8)
    (all : toAdd fifo pcuc.length = pcuc.length) :
    let r := wbhicPartWriteFIFO drq fifo port pcuc
    r.fifo.uSizeTotal = fifo.uSizeTotal ∧
      (r.bOK = true → Sending (sent ++ pcuc) r.fifo r.port) ∧
      ((∀ j, sent.length ≤ j → j < sent.length + pcuc.length → Offered drq j) → r.bOK = true) := by
  obtain ⟨sum, -, boundary, -⟩ := wbhicFIFO_CalcBlocks_parts fifo pcuc.length
  unfold wbhicPartWriteFIFO
  generalize wbhicFIFO_CalcBlocks fifo pcuc.length = sizes at sum boundary ⊢
  rw [all] at sum
  rw [before.size] at boundary
  have first : let packed := sent.length % 2 = 1 ∧ sizes.before > 0
      let filled : HalfWord := ⟨fifo.usHalf.low, pcuc.headD 0⟩
      Puts drq sent ⟨port, fifo.usHalf, pcuc⟩ sizes.before
        (true, writeBytes (if packed then sizes.before - 1 else sizes.before)
          (if packed then ⟨port ++ [filled], filled, pcuc.tail⟩ else ⟨port, fifo.usHalf, pcuc⟩)) :=
    writeFirst_puts before.holds (by simp only; omega)
  simp only [before.size] at first ⊢
  generalize writeBytes _ _ = out1 at first ⊢
  have length1 : (sent ++ pcuc.take sizes.before).length = sent.length + sizes.before := by
    rw [List.length_append, List.length_take]
    omega
  have behind1 : out1.pcuc = pcuc.drop sizes.before := first.behind rfl
  have blocks : Puts drq sent ⟨port, fifo.usHalf, pcuc⟩ (sizes.before + sizes.blocks * sizeFifo)
      (writeBlocks drq sizes.blocks out1) := by
    refine first.trans (by simp only; omega) ?_
    rcases Nat.eq_zero_or_pos sizes.blocks with none | some
    · rw [none, Nat.zero_mul]
      exact .none (first.moved rfl)
    · refine writeBlocks_puts sizes.blocks (first.moved rfl) ?_ ?_
      · rw [length1]
        exact boundary (.inl some)
      · rw [behind1, List.length_drop]
        omega
  generalize writeBlocks drq sizes.blocks out1 = r2 at blocks ⊢
  obtain ⟨bOK, out2⟩ := r2
  have last : Puts drq sent ⟨port, fifo.usHalf, pcuc⟩ pcuc.length
      (writeAfter drq sizes.after bOK out2) := by
    rw [sum]
    cases bOK with
    | false =>
      have stopped : writeAfter drq sizes.after false out2 = (false, out2) := by simp [writeAfter]
      rw [stopped]
      exact blocks.more (by omega)
    | true =>
      rw [← Nat.add_assoc]
      refine blocks.trans (by simp only; omega) (writeAfter_puts (blocks.moved rfl) ?_ ?_)
      · intro positive
        have start := boundary (.inr positive)
        have size : (sent ++ pcuc.take (sizes.before + sizes.blocks * sizeFifo)).length =
            sent.length + sizes.before + sizes.blocks * sizeFifo := by
          rw [List.length_append, List.length_take]
          omega
        rw [size, Nat.add_mul_mod_self_right]
        exact start
      · rw [blocks.behind rfl, List.length_drop]
        simp only
        omega
  generalize writeAfter drq sizes.after bOK out2 = r3 at last ⊢
  refine ⟨trivial, fun ok => ?_, last.offered⟩
  have moved := last.moved ok
  rw [List.take_length] at moved
  refine ⟨?_, moved⟩
  simp [last.behind ok]

/-- A call within the total. -/
theorem wbhicPartWriteFIFO_spec {sent : List UInt8} {fifo : Fifo} {port : List HalfWord}
    (before : Sending sent fifo port) (pcuc : List UInt8)
    (room : fifo.uSizeOK + pcuc.length ≤ fifo.uSizeTotal) :
    let r := wbhicPartWriteFIFO drq fifo port pcuc
    r.fifo.uSizeTotal = fifo.uSizeTotal ∧
      (r.bOK = true → Sending (sent ++ pcuc) r.fifo r.port) ∧
      ((∀ j, sent.length ≤ j → j < sent.length + pcuc.length → Offered drq j) → r.bOK = true) := by
  apply wbhicPartWriteFIFO_all drq before
  unfold toAdd
  split <;> omega

end Rovio.Hic
