import Rovio.Hic.Fifo

/-! Reading from the FIFO, a byte at a time: what a call reads is the next bytes of the
port, up to the first one that is not offered. -/
namespace Rovio.Hic

variable (drq : Nat → Bool) (words : Nat → HalfWord)

def byteAt (i : Nat) : UInt8 := if i % 2 = 0 then (words (i / 2)).low else (words (i / 2)).high

def stream : Nat → Nat → List UInt8
  | 0, _ => []
  | count + 1, i => byteAt words i :: stream count (i + 1)

@[simp] theorem length_stream (count i : Nat) : (stream words count i).length = count := by
  induction count generalizing i with
  | zero => rfl
  | succ count ih => simp [stream, ih]

theorem stream_add (a b i : Nat) :
    stream words (a + b) i = stream words a i ++ stream words b (i + a) := by
  induction a generalizing i with
  | zero => simp [stream]
  | succ a ih =>
    rw [Nat.succ_add, stream, ih, stream, List.cons_append, Nat.add_assoc, Nat.add_comm 1 a]

theorem take_stream {a n : Nat} (less : a ≤ n) (i : Nat) :
    (stream words n i).take a = stream words a i := by
  obtain ⟨b, rfl⟩ := Nat.exists_eq_add_of_le less
  rw [stream_add, List.take_left' (length_stream words a i)]

def fetch : Nat → Nat → Bool × List UInt8
  | 0, _ => (true, [])
  | count + 1, i =>
    if Offered drq i then
      let (bOK, bytes) := fetch count (i + 1)
      (bOK, byteAt words i :: bytes)
    else (false, [])

theorem fetch_offered {count i : Nat} (offered : ∀ j, i ≤ j → j < i + count → Offered drq j) :
    fetch drq words count i = (true, stream words count i) := by
  induction count generalizing i with
  | zero => rfl
  | succ count ih =>
    have rest := ih (i := i + 1) fun j low high => offered j (by omega) (by omega)
    simp only [fetch, if_pos (offered i (Nat.le_refl i) (by omega)), rest, stream]

theorem fetch_add (a b i : Nat) :
    fetch drq words (a + b) i =
      if (fetch drq words a i).1 = true then
        ((fetch drq words b (i + a)).1,
          (fetch drq words a i).2 ++ (fetch drq words b (i + a)).2)
      else fetch drq words a i := by
  induction a generalizing i with
  | zero => simp [fetch]
  | succ a ih =>
    have index : i + 1 + a = i + (a + 1) := by omega
    rw [Nat.succ_add, fetch, fetch]
    by_cases offered : Offered drq i
    · simp only [if_pos offered, ih (i + 1), index]
      split <;> rfl
    · simp only [if_neg offered]
      rfl

/-- A byte that is not offered stops whatever would read it. -/
theorem fetch_refused {count i j : Nat} (low : i ≤ j) (high : j < i + count)
    (refused : ¬ Offered drq j) : (fetch drq words count i).1 = false ∧
      i + (fetch drq words count i).2.length ≤ j := by
  induction count generalizing i with
  | zero => omega
  | succ count ih =>
    by_cases offered : Offered drq i
    · have other : i ≠ j := fun same => refused (same ▸ offered)
      have rest := ih (i := i + 1) (by omega) (by omega)
      simp only [fetch, if_pos offered, List.length_cons]
      exact ⟨rest.1, by omega⟩
    · simp only [fetch, if_neg offered]
      exact ⟨trivial, low⟩

theorem fetch_length_le (count i : Nat) : (fetch drq words count i).2.length ≤ count := by
  induction count generalizing i with
  | zero => exact Nat.le_refl 0
  | succ count ih =>
    unfold fetch
    split
    · exact Nat.succ_le_succ (ih (i + 1))
    · exact Nat.zero_le _

theorem fetch_ok {count i : Nat} (ok : (fetch drq words count i).1 = true) :
    fetch drq words count i = (true, stream words count i) := by
  apply fetch_offered
  intro j low high
  by_contra refused
  have stopped := (fetch_refused drq words low high refused).1
  rw [ok] at stopped
  cases stopped

/-- A word position and a kept half that belong to a byte position. -/
structure InStep (i : Nat) (usHalf : HalfWord) (taken : Nat) : Prop where
  taken : taken = (i + 1) / 2
  half : i % 2 = 1 → usHalf = words (i / 2)

theorem readWords_stream (count n : Nat) :
    readWords words count n = stream words (count * 2) (n * 2) := by
  induction count generalizing n with
  | zero => simp [readWords, stream]
  | succ count ih =>
    have even : n * 2 % 2 = 0 := by omega
    have odd : (n * 2 + 1) % 2 ≠ 0 := by omega
    have word : n * 2 / 2 = n ∧ (n * 2 + 1) / 2 = n := by omega
    have size : (count + 1) * 2 = count * 2 + 1 + 1 := by omega
    have next : (n + 1) * 2 = n * 2 + 1 + 1 := by omega
    rw [readWords, ih, size, stream, stream, byteAt, if_pos even, byteAt, if_neg odd,
      word.1, word.2,
      next]

theorem readBytes_spec {i : Nat} {usHalf : HalfWord} {taken : Nat}
    (step : InStep words i usHalf taken) (even : i % 2 = 0) (count : Nat) :
    (readBytes words count usHalf taken).1 = stream words count i ∧
      InStep words (i + count) (readBytes words count usHalf taken).2.1
        (readBytes words count usHalf taken).2.2 := by
  have start : taken = i / 2 := by have := step.taken; omega
  have place : i = taken * 2 := by omega
  unfold readBytes
  by_cases odd : count % 2 = 1
  · rw [if_pos odd, readWords_stream, ← place]
    have whole : count = count / 2 * 2 + 1 := by omega
    have last : (i + count / 2 * 2) % 2 = 0 ∧ (i + count / 2 * 2) / 2 = taken +
      count / 2 := by omega
    refine ⟨?_, ⟨by simp only; omega, fun _ => ?_⟩⟩
    · conv_rhs => rw [whole, stream_add, stream, stream, byteAt, if_pos last.1, last.2]
    · rw [show (i + count) / 2 = taken + count / 2 by omega]
  · rw [if_neg odd, readWords_stream, ← place, show count / 2 * 2 = count by omega]
    exact ⟨rfl, ⟨by simp only; omega, fun odd => by omega⟩⟩

theorem readBlocks_spec (blocks : Nat) {i : Nat} {usHalf : HalfWord} {taken : Nat}
    (step : InStep words i usHalf taken) (boundary : i % sizeFifo = 0) :
    let r := readBlocks drq words blocks taken
    (r.1, r.2.1) = fetch drq words (blocks * sizeFifo) i ∧
      InStep words (i + r.2.1.length) usHalf r.2.2 := by
  induction blocks generalizing i taken with
  | zero => exact ⟨rfl, step⟩
  | succ blocks ih =>
    have start : taken = i / 2 := by have := step.taken; unfold sizeFifo at boundary; omega
    have size : (blocks + 1) * sizeFifo = sizeFifo + blocks * sizeFifo := by
      rw [Nat.succ_mul, Nat.add_comm]
    have place : i = taken * 2 := by unfold sizeFifo at boundary; omega
    by_cases ready : drq taken = true
    · have here : drq (i / 2) = true := start ▸ ready
      have block : fetch drq words sizeFifo i = (true, stream words sizeFifo i) :=
        fetch_offered drq words fun j low high => offered_inside drq boundary here low high
      have next : InStep words (i + sizeFifo) usHalf (taken + sizeFifo / 2) := by
        unfold sizeFifo at boundary ⊢
        exact ⟨by omega, fun odd => by omega⟩
      have bytes : readWords words (sizeFifo / 2) taken = stream words sizeFifo i := by
        rw [readWords_stream, ← place]
        rfl
      obtain ⟨rest, after⟩ := ih next (by unfold sizeFifo at boundary ⊢; omega)
      simp only [readBlocks, if_pos ready, size, fetch_add, block, if_true, ← rest, bytes]
      refine ⟨trivial, ?_⟩
      rwa [List.length_append, length_stream, ← Nat.add_assoc]
    · have refused : ¬ Offered drq i := fun offered => ready (start ▸ offered boundary)
      simp only [readBlocks, if_neg ready, size, fetch_add]
      have stop : fetch drq words sizeFifo i = (false, []) := by
        rw [show sizeFifo = 127 + 1 from rfl, fetch, if_neg refused]
      rw [stop]
      exact ⟨rfl, step⟩

theorem readAfter_spec {after i : Nat} {usHalf : HalfWord} {taken : Nat}
    (step : InStep words i usHalf taken) (small : after < sizeFifo)
    (boundary : 0 < after → i % sizeFifo = 0) :
    let r := readAfter drq words after true usHalf taken
    (r.1, r.2.1) = fetch drq words after i ∧ InStep words (i + r.2.1.length) r.2.2.1 r.2.2.2 := by
  rcases Nat.eq_zero_or_pos after with none | some
  · rw [none]
    exact ⟨rfl, step⟩
  · have start : taken = i / 2 := by
      have := step.taken
      have := boundary some
      unfold sizeFifo at this
      omega
    simp only [readAfter, some, and_self, if_true]
    by_cases ready : drq taken = true
    · have here : drq (i / 2) = true := start ▸ ready
      have even : i % 2 = 0 := by have := boundary some; unfold sizeFifo at this; omega
      obtain ⟨bytes, next⟩ := readBytes_spec words step even after
      rw [if_pos ready, fetch_offered drq words fun j low high =>
        offered_inside drq (boundary some) here low (by omega)]
      simp only [bytes, length_stream]
      exact ⟨trivial, next⟩
    · have refused : ¬ Offered drq i := fun offered => ready (start ▸ offered (boundary some))
      obtain ⟨count, rfl⟩ : ∃ count, after = count + 1 := ⟨after - 1, by omega⟩
      rw [if_neg ready, fetch, if_neg refused]
      exact ⟨rfl, step⟩

/-- What a call reads before the first block, with the half kept from the call before. -/
theorem readFirst_spec {i : Nat} {usHalf : HalfWord} {taken : Nat}
    (step : InStep words i usHalf taken) (before : Nat) :
    let packed := i % 2 = 1 ∧ before > 0
    let r := readBytes words (if packed then before - 1 else before) usHalf taken
    (if packed then [usHalf.high] else []) ++ r.1 = stream words before i ∧
      InStep words (i + before) r.2.1 r.2.2 := by
  by_cases packed : i % 2 = 1 ∧ before > 0
  · obtain ⟨odd, positive⟩ := packed
    have next : InStep words (i + 1) usHalf taken :=
      ⟨by have := step.taken; omega, fun other => by omega⟩
    have size : before = before - 1 + 1 := by omega
    obtain ⟨bytes, after⟩ := readBytes_spec words next (by omega) (before - 1)
    have byte : byteAt words i = usHalf.high := by
      rw [byteAt, if_neg (by omega), step.half odd]
    have same : i + 1 + (before - 1) = i + before := by omega
    simp only [odd, positive, and_self, if_true]
    rw [same] at after
    refine ⟨?_, after⟩
    rw [bytes, List.singleton_append, ← byte]
    conv_rhs => rw [size, stream]
  · simp only [if_neg packed, List.nil_append]
    by_cases even : i % 2 = 0
    · exact readBytes_spec words step even before
    · have zero : before = 0 := by omega
      subst zero
      exact ⟨rfl, step⟩

/-- A call reads what is left of the size it asks for, as far as DRQ goes. -/
theorem wbhicPartReadFIFO_spec {fifo : Fifo} {taken : Nat}
    (step : InStep words fifo.uSizeOK fifo.usHalf taken) (uBufferSize : Nat) :
    let r := wbhicPartReadFIFO drq words fifo taken uBufferSize
    (r.bOK, r.bytes) = fetch drq words (toAdd fifo uBufferSize) fifo.uSizeOK ∧
      r.fifo.uSizeTotal = fifo.uSizeTotal ∧
      r.fifo.uSizeOK = fifo.uSizeOK + r.bytes.length ∧
      InStep words r.fifo.uSizeOK r.fifo.usHalf r.taken := by
  obtain ⟨sum, inside, boundary, small⟩ := wbhicFIFO_CalcBlocks_parts fifo uBufferSize
  unfold wbhicPartReadFIFO
  generalize wbhicFIFO_CalcBlocks fifo uBufferSize = sizes at sum inside boundary small ⊢
  obtain ⟨firstBytes, firstStep⟩ := readFirst_spec words step sizes.before
  generalize first : readBytes words _ fifo.usHalf taken = r1 at firstBytes firstStep
  have firstFetch : fetch drq words sizes.before fifo.uSizeOK =
      (true, stream words sizes.before fifo.uSizeOK) :=
    fetch_offered drq words fun j low high start => absurd start (inside j low high)
  have blocksSpec : (fun r : Bool × List UInt8 × Nat =>
      (r.1, r.2.1) = fetch drq words (sizes.blocks * sizeFifo) (fifo.uSizeOK + sizes.before) ∧
        InStep words (fifo.uSizeOK + sizes.before + r.2.1.length) r1.2.1 r.2.2)
      (readBlocks drq words sizes.blocks r1.2.2) := by
    rcases Nat.eq_zero_or_pos sizes.blocks with none | some
    · rw [none]
      exact ⟨by simp [readBlocks, fetch], firstStep⟩
    · exact readBlocks_spec drq words sizes.blocks firstStep (boundary (.inl some))
  obtain ⟨blocksFetch, blocksStep⟩ := blocksSpec
  generalize blocks : readBlocks drq words sizes.blocks r1.2.2 = r2 at blocksFetch blocksStep
  obtain ⟨bOK, middle, n⟩ := r2
  simp only at blocksFetch blocksStep
  simp only [first, firstBytes, blocks]
  cases bOK with
  | false =>
    have stopped : readAfter drq words sizes.after false r1.2.1 n = (false, [], r1.2.1, n) := by
      simp [readAfter]
    simp only [stopped, sum, fetch_add, firstFetch, ← blocksFetch, Bool.false_eq_true, if_false,
      if_true, List.append_nil, List.length_append, length_stream, true_and]
    rwa [← Nat.add_assoc]
  | true =>
    have whole := fetch_ok drq words (by rw [← blocksFetch])
    have size : middle.length = sizes.blocks * sizeFifo := by
      rw [← blocksFetch] at whole
      rw [(Prod.mk.inj whole).2, length_stream]
    rw [size] at blocksStep
    have last := readAfter_spec drq words blocksStep small fun positive => by
      have := boundary (.inr positive)
      rw [Nat.add_mul_mod_self_right]
      exact this
    generalize readAfter drq words sizes.after true r1.2.1 n = r3 at last
    obtain ⟨lastFetch, lastStep⟩ := last
    simp only [sum, fetch_add, firstFetch, ← blocksFetch, ← lastFetch, if_true, List.length_append,
      length_stream, size, List.append_assoc, true_and]
    rwa [← Nat.add_assoc, ← Nat.add_assoc]

/-- While all bytes of the total are offered, a call gets what is left of its size. -/
theorem wbhicPartReadFIFO_offered {fifo : Fifo} {taken : Nat}
    (step : InStep words fifo.uSizeOK fifo.usHalf taken) (limited : fifo.uSizeTotal ≠ 0)
    (offered : ∀ j < fifo.uSizeTotal, Offered drq j) (uBufferSize : Nat) :
    let r := wbhicPartReadFIFO drq words fifo taken uBufferSize
    let count := min uBufferSize (fifo.uSizeTotal - fifo.uSizeOK)
    r.bOK = true ∧ r.bytes = stream words count fifo.uSizeOK ∧
      r.fifo.uSizeTotal = fifo.uSizeTotal ∧ r.fifo.uSizeOK = fifo.uSizeOK + count ∧
      InStep words r.fifo.uSizeOK r.fifo.usHalf r.taken := by
  obtain ⟨fetched, total, ok, next⟩ := wbhicPartReadFIFO_spec drq words step uBufferSize
  have size : toAdd fifo uBufferSize = min uBufferSize (fifo.uSizeTotal - fifo.uSizeOK) :=
    if_neg limited
  rw [size, fetch_offered drq words fun j _ high => offered j (by omega)] at fetched
  obtain ⟨bOK, bytes⟩ := Prod.mk.inj fetched
  rw [bytes, length_stream] at ok
  exact ⟨bOK, bytes, total, ok, next⟩

/-- No call gets past a byte that is not offered. -/
theorem wbhicPartReadFIFO_refused {fifo : Fifo} {taken j : Nat}
    (step : InStep words fifo.uSizeOK fifo.usHalf taken) (refused : ¬ Offered drq j)
    (low : fifo.uSizeOK ≤ j) (uBufferSize : Nat) :
    let r := wbhicPartReadFIFO drq words fifo taken uBufferSize
    r.fifo.uSizeTotal = fifo.uSizeTotal ∧ r.fifo.uSizeOK ≤ j ∧
      InStep words r.fifo.uSizeOK r.fifo.usHalf r.taken := by
  obtain ⟨fetched, total, ok, next⟩ := wbhicPartReadFIFO_spec drq words step uBufferSize
  refine ⟨total, ?_, next⟩
  rw [ok, (Prod.mk.inj fetched).2]
  rcases Nat.lt_or_ge j (fifo.uSizeOK + toAdd fifo uBufferSize) with inside | past
  · exact (fetch_refused drq words low inside refused).2
  · have short := fetch_length_le drq words (toAdd fifo uBufferSize) fifo.uSizeOK
    omega

end Rovio.Hic
