import Rovio.Hic.Fifo
import Rovio.Kit.Calls

/-! The FIFO as FIFO8.c drives it (the 8-bit bus modes, without DMA): the port takes bytes. `drq n`
says whether DRQ is up in time for the block that starts after n bytes. -/
namespace Rovio.Hic.Bus8

variable (drq : Nat → Bool)

/-- `wbhicPartReadFIFO_Begin` and `wbhicPartWriteFIFO_Begin`; `usHalf` is not used. -/
def partFIFO_Begin (uSizeTotal : Nat) : Fifo := ⟨uSizeTotal, 0, ⟨0, 0⟩⟩

/-- Whether the byte can be had: the first one of a block needs DRQ. -/
def Offered (i : Nat) : Prop := i % sizeFifo = 0 → drq i = true

/-! ### Writing -/

structure Out where
  port : List UInt8
  pcuc : List UInt8

def writeBytes (count : Nat) (out : Out) : Out :=
  ⟨out.port ++ out.pcuc.take count, out.pcuc.drop count⟩

def writeBlocks : Nat → Out → Bool × Out
  | 0, out => (true, out)
  | blocks + 1, out =>
    if drq out.port.length then writeBlocks blocks (writeBytes sizeFifo out) else (false, out)

def writeAfter (after : Nat) (bOK : Bool) (out : Out) : Bool × Out :=
  if after > 0 ∧ bOK = true then
    if drq out.port.length then (true, writeBytes after out) else (false, out)
  else (bOK, out)

/-- A handle and the bytes its port has taken. -/
structure Writer where
  fifo : Fifo
  port : List UInt8

def wbhicPartWriteFIFO (s : Writer) (pcuc : List UInt8) : Bool × Writer :=
  let sizes := wbhicFIFO_CalcBlocks s.fifo pcuc.length
  let out := writeBytes sizes.before ⟨s.port, pcuc⟩
  let (bOK, out) := writeBlocks drq sizes.blocks out
  let (bOK, out) := writeAfter drq sizes.after bOK out
  let uSizeWrite := pcuc.length - out.pcuc.length
  (bOK, { fifo := { s.fifo with uSizeOK := s.fifo.uSizeOK + uSizeWrite }, port := out.port })

/-- Fills up with zeros what has not been written; `left` bounds the bytes. -/
def partWriteRest : Nat → Writer → Bool × Writer
  | 0, s => (true, s)
  | left + 1, s =>
    if s.fifo.uSizeOK < s.fifo.uSizeTotal then
      let (bOK, t) := wbhicPartWriteFIFO drq s [0]
      if bOK then partWriteRest left t else (false, t)
    else (true, s)

def wbhicPartWriteFIFO_End (s : Writer) : Bool × Writer :=
  partWriteRest drq (s.fifo.uSizeTotal - s.fifo.uSizeOK) s

/-! ### Reading -/

section
variable (bytes : Nat → UInt8)

def readBytes (count n : Nat) : List UInt8 := (List.range' n count).map bytes

def readBlocks : Nat → Nat → Bool × List UInt8
  | 0, _ => (true, [])
  | blocks + 1, n =>
    if drq n then
      let (bOK, rest) := readBlocks blocks (n + sizeFifo)
      (bOK, readBytes bytes sizeFifo n ++ rest)
    else (false, [])

def readAfter (after : Nat) (bOK : Bool) (n : Nat) : Bool × List UInt8 :=
  if after > 0 ∧ bOK = true then
    if drq n then (true, readBytes bytes after n) else (false, [])
  else (bOK, [])

/-- A handle, the number of bytes taken from its port, and what the callers were given. -/
structure Reader where
  fifo : Fifo
  taken : Nat
  got : List UInt8

def wbhicPartReadFIFO (s : Reader) (uBufferSize : Nat) : Bool × Reader :=
  let sizes := wbhicFIFO_CalcBlocks s.fifo uBufferSize
  let first := readBytes bytes sizes.before s.taken
  let n := s.taken + first.length
  let (bOK, middle) := readBlocks drq bytes sizes.blocks n
  let n := n + middle.length
  let (bOK, last) := readAfter drq bytes sizes.after bOK n
  let puc := first ++ middle ++ last
  (bOK, ⟨{ s.fifo with uSizeOK := s.fifo.uSizeOK + puc.length }, s.taken + puc.length,
    s.got ++ puc⟩)

/-- Reads what has not been read, a byte at a time; `left` bounds the bytes. -/
def partReadRest : Nat → Reader → Bool × Reader
  | 0, s => (true, s)
  | left + 1, s =>
    if s.fifo.uSizeOK < s.fifo.uSizeTotal then
      let (bOK, t) := wbhicPartReadFIFO drq bytes s 1
      let t := { t with got := s.got }
      if bOK then partReadRest left t else (false, t)
    else (true, s)

def wbhicPartReadFIFO_End (s : Reader) : Bool × Reader :=
  partReadRest drq bytes (s.fifo.uSizeTotal - s.fifo.uSizeOK) s

end

/-! ### A call -/

theorem offered_inside {i j : Nat} (boundary : i % sizeFifo = 0) (ready : drq i = true)
    (low : i ≤ j) (high : j < i + sizeFifo) : Offered drq j := by
  intro start
  unfold sizeFifo at boundary high start
  rwa [show j = i by omega]

/-- What part of a call does to the port: it succeeds where its bytes are offered, and then it has
moved them. -/
structure Puts (out : Out) (count : Nat) (r : Bool × Out) : Prop where
  offered : r.1 = true ↔ ∀ j, out.port.length ≤ j → j < out.port.length + count → Offered drq j
  moved : r.1 = true → r.2 = writeBytes count out

variable {drq}

theorem length_writeBytes {count : Nat} {out : Out} (enough : count ≤ out.pcuc.length) :
    (writeBytes count out).port.length = out.port.length + count := by
  rw [writeBytes, List.length_append, List.length_take_of_le enough]

theorem writeBytes_add (a b : Nat) (out : Out) :
    writeBytes b (writeBytes a out) = writeBytes (a + b) out := by
  unfold writeBytes
  dsimp only
  rw [List.append_assoc, ← List.take_add, List.drop_drop]

theorem Puts.none (out : Out) : Puts drq out 0 (true, out) := by
  refine ⟨⟨fun _ j low high => absurd high (Nat.not_lt.mpr low), fun _ => rfl⟩, fun _ => ?_⟩
  rw [writeBytes, List.take_zero, List.append_nil, List.drop_zero]

theorem Puts.trans {out : Out} {a b : Nat} {r : Bool × Out} (enough : a ≤ out.pcuc.length)
    (first : Puts drq out a (true, writeBytes a out)) (second : Puts drq (writeBytes a out) b r) :
    Puts drq out (a + b) r := by
  have length := length_writeBytes enough
  refine ⟨⟨fun ok j low high => ?_, fun all => second.offered.mpr fun j low high => ?_⟩,
    fun ok => ?_⟩
  · rcases Nat.lt_or_ge j (out.port.length + a) with early | late
    · exact first.offered.mp rfl j low early
    · exact second.offered.mp ok j (by omega) (by omega)
  · exact all j (by omega) (by omega)
  · rw [second.moved ok, writeBytes_add]

theorem Puts.stopped {out out' : Out} {count j : Nat} (low : out.port.length ≤ j)
    (high : j < out.port.length + count) (refused : ¬ Offered drq j) :
    Puts drq out count (false, out') :=
  ⟨⟨fun ok => (by cases ok), fun all => absurd (all j low high) refused⟩, fun ok => (by cases ok)⟩

theorem Puts.more {out out' : Out} {a b : Nat} (less : a ≤ b)
    (fails : Puts drq out a (false, out')) : Puts drq out b (false, out') := by
  refine ⟨⟨fun ok => (by cases ok), fun all => ?_⟩, fun ok => by cases ok⟩
  exact fails.offered.mpr fun j low high => all j low (by omega)

theorem writeBlock_puts {out : Out} {count : Nat} (small : count ≤ sizeFifo)
    (boundary : out.port.length % sizeFifo = 0) (ready : drq out.port.length = true) :
    Puts drq out count (true, writeBytes count out) :=
  ⟨⟨fun _ _ low high => offered_inside drq boundary ready low (by omega), fun _ => rfl⟩,
    fun _ => rfl⟩

theorem writeBlocks_puts (blocks : Nat) {out : Out} (boundary : out.port.length % sizeFifo = 0)
    (enough : blocks * sizeFifo ≤ out.pcuc.length) :
    Puts drq out (blocks * sizeFifo) (writeBlocks drq blocks out) := by
  induction blocks generalizing out with
  | zero =>
    rw [Nat.zero_mul]
    exact .none out
  | succ blocks ih =>
    rw [Nat.succ_mul] at enough
    have room : sizeFifo ≤ out.pcuc.length := by omega
    rw [Nat.succ_mul, Nat.add_comm]
    unfold writeBlocks
    split
    · rename_i ready
      refine (writeBlock_puts (Nat.le_refl _) boundary ready).trans room (ih ?_ ?_)
      · rw [length_writeBytes room, Nat.add_mod_right]
        exact boundary
      · rw [writeBytes, List.length_drop]
        omega
    · rename_i refused
      refine .stopped (Nat.le_refl _) ?_ fun offered => refused (offered boundary)
      exact Nat.lt_add_of_pos_right (Nat.lt_of_lt_of_le (by decide) (Nat.le_add_right _ _))

theorem writeAfter_puts {after : Nat} {out : Out} (small : after < sizeFifo)
    (boundary : 0 < after → out.port.length % sizeFifo = 0) :
    Puts drq out after (writeAfter drq after true out) := by
  rcases Nat.eq_zero_or_pos after with rfl | some
  · exact .none out
  · unfold writeAfter
    rw [if_pos ⟨some, rfl⟩]
    split
    · rename_i ready
      exact writeBlock_puts (Nat.le_of_lt small) (boundary some) ready
    · rename_i refused
      exact .stopped (Nat.le_refl _) (by omega) fun offered => refused (offered (boundary some))

/-- A handle whose port has taken what was sent. -/
structure Sending (sent : List UInt8) (total : Nat) (s : Writer) : Prop where
  size : s.fifo.uSizeOK = sent.length
  total : s.fifo.uSizeTotal = total
  port : s.port = sent

/-- A call that is not cut by the total. -/
theorem wbhicPartWriteFIFO_all {sent : List UInt8} {total : Nat} {s : Writer}
    (before : Sending sent total s) (pcuc : List UInt8)
    (all : toAdd s.fifo pcuc.length = pcuc.length) :
    ((wbhicPartWriteFIFO drq s pcuc).1 = true ↔
      ∀ j, sent.length ≤ j → j < sent.length + pcuc.length → Offered drq j) ∧
    ((wbhicPartWriteFIFO drq s pcuc).1 = true →
      Sending (sent ++ pcuc) total (wbhicPartWriteFIFO drq s pcuc).2) := by
  obtain ⟨sum, inside, boundary, small⟩ := wbhicFIFO_CalcBlocks_parts s.fifo pcuc.length
  unfold wbhicPartWriteFIFO
  dsimp only
  generalize wbhicFIFO_CalcBlocks s.fifo pcuc.length = sizes at sum inside boundary small ⊢
  rw [all] at sum
  rw [before.size] at inside boundary
  have length : s.port.length = sent.length := by rw [before.port]
  have first : Puts drq ⟨s.port, pcuc⟩ sizes.before (true,
    writeBytes sizes.before ⟨s.port, pcuc⟩) :=
    ⟨⟨fun _ j (low : s.port.length ≤ j) (high : j < s.port.length + sizes.before) start =>
      absurd start (inside j (by omega) (by omega)), fun _ => rfl⟩, fun _ => rfl⟩
  have length1 : (writeBytes sizes.before ⟨s.port, pcuc⟩).port.length =
      sent.length + sizes.before := by
    rw [length_writeBytes (by dsimp only; omega), length]
  have blocks : Puts drq ⟨s.port, pcuc⟩ (sizes.before + sizes.blocks * sizeFifo)
      (writeBlocks drq sizes.blocks (writeBytes sizes.before ⟨s.port, pcuc⟩)) := by
    refine first.trans (by dsimp only; omega) ?_
    rcases Nat.eq_zero_or_pos sizes.blocks with none | some
    · rw [none, Nat.zero_mul]
      exact .none _
    · refine writeBlocks_puts sizes.blocks ?_ ?_
      · rw [length1]
        exact boundary (.inl some)
      · show sizes.blocks * sizeFifo ≤ (pcuc.drop sizes.before).length
        rw [List.length_drop]
        omega
  generalize writeBlocks drq sizes.blocks _ = r at blocks ⊢
  obtain ⟨bOK, out⟩ := r
  have last : Puts drq ⟨s.port, pcuc⟩ pcuc.length (writeAfter drq sizes.after bOK out) := by
    rw [sum, ← Nat.add_assoc]
    cases bOK with
    | false =>
      have stopped : writeAfter drq sizes.after false out = (false, out) :=
        if_neg fun both => by cases both.2
      rw [stopped]
      exact blocks.more (Nat.le_add_right _ _)
    | true =>
      obtain rfl : out = _ := blocks.moved rfl
      refine blocks.trans (by dsimp only; omega) (writeAfter_puts small fun positive => ?_)
      rw [length_writeBytes (by dsimp only; omega), ← Nat.add_assoc, Nat.add_mul_mod_self_right,
        length]
      exact boundary (.inr positive)
  generalize writeAfter drq sizes.after bOK out = r at last ⊢
  obtain ⟨offered, moved⟩ := last
  dsimp only at offered moved ⊢
  rw [length] at offered
  refine ⟨offered, fun ok => ?_⟩
  rw [moved ok]
  refine ⟨?_, before.total, ?_⟩
  · dsimp only [writeBytes]
    rw [List.drop_length, before.size, List.length_append]
    rfl
  · dsimp only [writeBytes]
    rw [List.take_length, before.port]

section Read
variable {bytes : Nat → UInt8}

theorem readBytes_add (a b n : Nat) :
    readBytes bytes a n ++ readBytes bytes b (n + a) = readBytes bytes (a + b) n := by
  unfold readBytes
  rw [← List.map_append, List.range'_append_1]

@[simp] theorem length_readBytes (count n : Nat) : (readBytes bytes count n).length = count := by
  rw [readBytes, List.length_map, List.length_range']

/-- What part of a call reads from the n-th byte on. -/
structure Gets (drq : Nat → Bool) (bytes : Nat → UInt8) (n count : Nat) (r : Bool × List UInt8) :
    Prop where
  offered : r.1 = true ↔ ∀ j, n ≤ j → j < n + count → Offered drq j
  got : r.1 = true → r.2 = readBytes bytes count n

theorem Gets.none (n : Nat) : Gets drq bytes n 0 (true, []) :=
  ⟨⟨fun _ _ low high => absurd high (Nat.not_lt.mpr low), fun _ => rfl⟩, fun _ => rfl⟩

theorem Gets.trans {n a b : Nat} {r : Bool × List UInt8}
    (first : Gets drq bytes n a (true, readBytes bytes a n)) (second : Gets drq bytes (n + a) b r) :
    Gets drq bytes n (a + b) (r.1, readBytes bytes a n ++ r.2) := by
  refine ⟨⟨fun ok j low high => ?_, fun all => second.offered.mpr fun j low high => ?_⟩,
    fun ok => ?_⟩
  · rcases Nat.lt_or_ge j (n + a) with early | late
    · exact first.offered.mp rfl j low early
    · exact second.offered.mp ok j late (by omega)
  · exact all j (by omega) (by omega)
  · dsimp only
    rw [second.got ok, readBytes_add]

theorem Gets.stopped {n count j : Nat} {got : List UInt8} (low : n ≤ j) (high : j < n + count)
    (refused : ¬ Offered drq j) : Gets drq bytes n count (false, got) :=
  ⟨⟨fun ok => (by cases ok), fun all => absurd (all j low high) refused⟩, fun ok => (by cases ok)⟩

theorem Gets.more {n a b : Nat} {got got' : List UInt8} (less : a ≤ b)
    (fails : Gets drq bytes n a (false, got)) : Gets drq bytes n b (false, got') := by
  refine ⟨⟨fun ok => (by cases ok), fun all => ?_⟩, fun ok => (by cases ok)⟩
  exact fails.offered.mpr fun j low high => all j low (by omega)

theorem readBlock_gets {n count : Nat} (small : count ≤ sizeFifo) (boundary : n % sizeFifo = 0)
    (ready : drq n = true) : Gets drq bytes n count (true, readBytes bytes count n) :=
  ⟨⟨fun _ _ low high => offered_inside drq boundary ready low (by omega), fun _ => rfl⟩,
    fun _ => rfl⟩

theorem readBlocks_gets (blocks : Nat) {n : Nat} (boundary : n % sizeFifo = 0) :
    Gets drq bytes n (blocks * sizeFifo) (readBlocks drq bytes blocks n) := by
  induction blocks generalizing n with
  | zero =>
    rw [Nat.zero_mul]
    exact .none n
  | succ blocks ih =>
    rw [Nat.succ_mul, Nat.add_comm]
    unfold readBlocks
    split
    · rename_i ready
      refine (readBlock_gets (Nat.le_refl _) boundary ready).trans (ih ?_)
      rw [Nat.add_mod_right]
      exact boundary
    · rename_i refused
      refine .stopped (Nat.le_refl _) ?_ fun offered => refused (offered boundary)
      exact Nat.lt_add_of_pos_right (Nat.lt_of_lt_of_le (by decide) (Nat.le_add_right _ _))

theorem readAfter_gets {after n : Nat} (small : after < sizeFifo)
    (boundary : 0 < after → n % sizeFifo = 0) :
    Gets drq bytes n after (readAfter drq bytes after true n) := by
  rcases Nat.eq_zero_or_pos after with rfl | some
  · exact .none n
  · unfold readAfter
    rw [if_pos ⟨some, rfl⟩]
    split
    · rename_i ready
      exact readBlock_gets (Nat.le_of_lt small) (boundary some) ready
    · rename_i refused
      exact .stopped (Nat.le_refl _) (by omega) fun offered => refused (offered (boundary some))

/-- A handle that has read the first n bytes of the port. -/
structure Receiving (bytes : Nat → UInt8) (total n : Nat) (s : Reader) : Prop where
  size : s.fifo.uSizeOK = n
  total : s.fifo.uSizeTotal = total
  taken : s.taken = n
  got : s.got = readBytes bytes n 0

/-- A call that is not cut by the total. -/
theorem wbhicPartReadFIFO_all {total n : Nat} {s : Reader} (before : Receiving bytes total n s)
    (uBufferSize : Nat) (all : toAdd s.fifo uBufferSize = uBufferSize) :
    ((wbhicPartReadFIFO drq bytes s uBufferSize).1 = true ↔
      ∀ j, n ≤ j → j < n + uBufferSize → Offered drq j) ∧
    ((wbhicPartReadFIFO drq bytes s uBufferSize).1 = true →
      Receiving bytes total (n + uBufferSize) (wbhicPartReadFIFO drq bytes s uBufferSize).2) := by
  obtain ⟨sum, inside, boundary, small⟩ := wbhicFIFO_CalcBlocks_parts s.fifo uBufferSize
  unfold wbhicPartReadFIFO
  dsimp only
  generalize wbhicFIFO_CalcBlocks s.fifo uBufferSize = sizes at sum inside boundary small ⊢
  rw [all] at sum
  rw [before.size] at inside boundary
  rw [before.taken, length_readBytes]
  have first : Gets drq bytes n sizes.before (true, readBytes bytes sizes.before n) :=
    ⟨⟨fun _ j low high start => absurd start (inside j low high), fun _ => rfl⟩, fun _ => rfl⟩
  have blocks : Gets drq bytes (n + sizes.before) (sizes.blocks * sizeFifo)
      (readBlocks drq bytes sizes.blocks (n + sizes.before)) := by
    rcases Nat.eq_zero_or_pos sizes.blocks with none | some
    · rw [none, Nat.zero_mul]
      exact .none _
    · exact readBlocks_gets sizes.blocks (boundary (.inl some))
  generalize readBlocks drq bytes sizes.blocks (n + sizes.before) = r at blocks ⊢
  obtain ⟨bOK, middle⟩ := r
  have last : Gets drq bytes n uBufferSize
      ((readAfter drq bytes sizes.after bOK (n + sizes.before + middle.length)).1,
        readBytes bytes sizes.before n ++ middle ++
          (readAfter drq bytes sizes.after bOK (n + sizes.before + middle.length)).2) := by
    rw [sum]
    cases bOK with
    | false =>
      have stopped : ∀ place, readAfter drq bytes sizes.after false place = (false, []) :=
        fun _ => if_neg fun both => by cases both.2
      have fails := @Gets.more drq bytes _ _ _ middle middle (Nat.le_add_right _ sizes.after) blocks
      rw [stopped, List.append_nil]
      exact first.trans fails
    | true =>
      obtain rfl : middle = _ := blocks.got rfl
      rw [length_readBytes, List.append_assoc]
      refine first.trans (blocks.trans (readAfter_gets small fun positive => ?_))
      rw [Nat.add_mul_mod_self_right]
      exact boundary (.inr positive)
  refine ⟨last.offered, fun ok => ?_⟩
  have got := last.got ok
  dsimp only at got
  rw [got, length_readBytes, before.size, before.got]
  refine ⟨rfl, before.total, rfl, ?_⟩
  have whole := @readBytes_add bytes n uBufferSize 0
  rw [Nat.zero_add] at whole
  exact whole

end Read

end Rovio.Hic.Bus8
