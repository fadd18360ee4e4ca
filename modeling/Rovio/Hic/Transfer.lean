import Rovio.Hic.Fifo8
import Rovio.Hic.Framing
import Rovio.Hic.Reading

/-! A payload moved through the FIFO in parts, on the 16-bit bus and on the 8-bit bus. -/
namespace Rovio.Hic

open Kit

variable (drq : Nat → Bool)

/-! ### The transfers -/

/-- A call of `wbhicPartWriteFIFO` on a handle and what its port has taken. -/
def writePart (s : Fifo × List HalfWord) (pcuc : List UInt8) : Bool × (Fifo × List HalfWord) :=
  let r := wbhicPartWriteFIFO drq s.1 s.2 pcuc
  (r.bOK, r.fifo, r.port)

/-- Begin, the parts up to one that fails, end: what the port has taken. -/
def writeFIFO16 (uSizeTotal : Nat) (parts : List (List UInt8)) : Bool × List HalfWord :=
  let (bOK, s) := calls (writePart drq) (partFIFO_Begin uSizeTotal, []) parts
  if bOK then (true, wbhicPartWriteFIFO_End drq s.1 s.2) else (false, s.2)

def writeFIFO8 (uSizeTotal : Nat) (parts : List (List UInt8)) : Bool × List UInt8 :=
  let (bOK, s) := calls (Bus8.wbhicPartWriteFIFO drq) ⟨Bus8.partFIFO_Begin uSizeTotal, []⟩ parts
  if bOK then
    let (bOK, s) := Bus8.wbhicPartWriteFIFO_End drq s
    (bOK, s.port)
  else (false, s.port)

/-- A handle, the number of words taken from its port, and what the callers were given. -/
structure Reader where
  fifo : Fifo
  taken : Nat
  got : List UInt8

section
variable (words : Nat → HalfWord)

def readPart (s : Reader) (uBufferSize : Nat) : Bool × Reader :=
  let r := wbhicPartReadFIFO drq words s.fifo s.taken uBufferSize
  (r.bOK, ⟨r.fifo, r.taken, s.got ++ r.bytes⟩)

def readFIFO16 (uSizeTotal : Nat) (sizes : List Nat) : Bool × Reader :=
  let (bOK, s) := calls (readPart drq words) ⟨partFIFO_Begin uSizeTotal, 0, []⟩ sizes
  if bOK then
    let (bOK, fifo, taken) := wbhicPartReadFIFO_End drq words s.fifo s.taken
    (bOK, ⟨fifo, taken, s.got⟩)
  else (false, s)

end

def readFIFO8 (bytes : Nat → UInt8) (uSizeTotal : Nat) (sizes : List Nat) : Bool × Bus8.Reader :=
  let (bOK, s) := calls (Bus8.wbhicPartReadFIFO drq bytes) ⟨Bus8.partFIFO_Begin uSizeTotal, 0, []⟩
    sizes
  if bOK then Bus8.wbhicPartReadFIFO_End drq bytes s else (false, s)

/-- A payload with a zero behind an odd number of bytes. -/
def padded (payload : List UInt8) : List UInt8 :=
  payload ++ List.replicate (payload.length % 2) 0

/-! ### The 16-bit bus -/

variable {drq}

theorem makeWords_length (count : Nat) (pcuc : List UInt8) (enough : count * 2 ≤ pcuc.length) :
    (makeWords count pcuc).1.length = count := by
  have bytes := congrArg List.length (makeWords_spec count pcuc enough).1
  rw [length_portBytes, List.length_take] at bytes
  omega

/-- Blocks that have been written were offered. -/
theorem writeBlocks_ready (blocks : Nat) {out : Out} (enough : blocks * sizeFifo ≤ out.pcuc.length)
    (ok : (writeBlocks drq blocks out).1 = true) :
    (writeBlocks drq blocks out).2.port.length = out.port.length + blocks * (sizeFifo / 2) ∧
      ∀ k < blocks, drq (out.port.length + k * (sizeFifo / 2)) = true := by
  induction blocks generalizing out with
  | zero =>
    rw [Nat.zero_mul]
    exact ⟨rfl, fun k less => absurd less (Nat.not_lt_zero k)⟩
  | succ blocks ih =>
    have half : sizeFifo / 2 * 2 = sizeFifo := rfl
    rw [Nat.succ_mul] at enough
    have room : sizeFifo / 2 * 2 ≤ out.pcuc.length := by omega
    unfold writeBlocks at ok ⊢
    split at ok
    · rename_i ready
      obtain ⟨length, rest⟩ := ih (by
        dsimp only
        rw [(makeWords_spec _ _ room).2, List.length_drop]
        omega) ok
      rw [List.length_append, makeWords_length _ _ room] at length rest
      rw [if_pos ready]
      refine ⟨length.trans (by rw [Nat.succ_mul]; omega), fun k less => ?_⟩
      cases k with
      | zero =>
        rw [Nat.zero_mul]
        exact ready
      | succ k =>
        have next := rest k (Nat.lt_of_succ_lt_succ less)
        rw [Nat.add_assoc, Nat.add_comm _ (k * _), ← Nat.succ_mul] at next
        exact next
    · cases ok

theorem writeAfter_ready {after : Nat} {out : Out} (ok : (writeAfter drq after true out).1 = true)
    (some : 0 < after) : drq out.port.length = true := by
  unfold writeAfter at ok
  rw [if_pos ⟨some, rfl⟩] at ok
  split at ok
  · assumption
  · cases ok

/-- What a call writes before the first block. -/
theorem writeFirst_sent {sent : List UInt8} {fifo : Fifo} {port : List HalfWord}
    (before : Sending sent fifo port) (pcuc : List UInt8) {count : Nat}
    (enough : count ≤ pcuc.length) :
    let packed := fifo.uSizeOK % 2 = 1 ∧ count > 0
    let filled : HalfWord := ⟨fifo.usHalf.low, pcuc.headD 0⟩
    let out := writeBytes (if packed then count - 1 else count)
      (if packed then ⟨port ++ [filled], filled, pcuc.tail⟩ else ⟨port, fifo.usHalf, pcuc⟩)
    out.port.length = (sent.length + count) / 2 ∧ out.pcuc = pcuc.drop count := by
  have puts := @writeFirst_puts (fun _ => true) sent ⟨port, fifo.usHalf,
    pcuc⟩ before.holds count enough
  rw [before.size]
  dsimp only at puts ⊢
  refine ⟨?_, puts.behind rfl⟩
  rw [(puts.moved rfl).length, List.length_append, List.length_take, Nat.min_eq_left enough]

/-- A call that succeeds had DRQ for each of its blocks. -/
theorem wbhicPartWriteFIFO_ready {sent : List UInt8} {fifo : Fifo} {port : List HalfWord}
    (before : Sending sent fifo port) (pcuc : List UInt8)
    (all : toAdd fifo pcuc.length = pcuc.length)
    (ok : (wbhicPartWriteFIFO drq fifo port pcuc).bOK = true) :
    ∀ j, sent.length ≤ j → j < sent.length + pcuc.length → Offered drq j := by
  obtain ⟨sum, inside, boundary, small⟩ := wbhicFIFO_CalcBlocks_parts fifo pcuc.length
  unfold wbhicPartWriteFIFO at ok
  dsimp only at ok
  generalize wbhicFIFO_CalcBlocks fifo pcuc.length = sizes at sum inside boundary small ok
  rw [all] at sum
  rw [before.size] at inside boundary
  obtain ⟨length, behind⟩ := writeFirst_sent before pcuc (show sizes.before ≤ pcuc.length by omega)
  generalize writeBytes _ _ = out at length behind ok
  have room : sizes.blocks * sizeFifo ≤ out.pcuc.length := by
    rw [behind, List.length_drop]
    omega
  cases ready : (writeBlocks drq sizes.blocks out).1 with
  | false =>
    rw [ready] at ok
    have stopped : writeAfter drq sizes.after false (writeBlocks drq sizes.blocks out).2 =
        (false, (writeBlocks drq sizes.blocks out).2) := if_neg fun both => by cases both.2
    rw [stopped] at ok
    cases ok
  | true =>
    obtain ⟨behindBlocks, blocks⟩ := writeBlocks_ready sizes.blocks room ready
    rw [ready] at ok
    intro j low high start
    rcases Nat.lt_or_ge j (sent.length + sizes.before) with first | later
    · exact absurd start (inside j low first)
    · have place : (sent.length + sizes.before) % sizeFifo = 0 := by
        apply boundary
        rcases Nat.eq_zero_or_pos sizes.after with none | some
        · rcases Nat.eq_zero_or_pos sizes.blocks with none' | some
          · rw [none, none', Nat.zero_mul] at sum
            omega
          · exact .inl some
        · exact .inr some
      rcases Nat.lt_or_ge ((j - (sent.length + sizes.before)) / sizeFifo) sizes.blocks
        with block | last
      · have offered := blocks _ block
        rw [length] at offered
        have index : (sent.length + sizes.before) / 2 +
            (j - (sent.length + sizes.before)) / sizeFifo * (sizeFifo / 2) = j / 2 := by
          unfold sizeFifo at place start ⊢
          omega
        rwa [index] at offered
      · have some : 0 < sizes.after := by
          unfold sizeFifo at last sum small
          omega
        have offered := writeAfter_ready ok some
        rw [behindBlocks, length] at offered
        have index : (sent.length + sizes.before) / 2 + sizes.blocks * (sizeFifo / 2) = j / 2 := by
          unfold sizeFifo at place start last sum small ⊢
          omega
        rwa [index] at offered

/-- A call is not cut while the total has room for it, or sets no limit. -/
theorem toAdd_all {fifo : Fifo} {uAdd : Nat}
    (room : fifo.uSizeTotal = 0 ∨ fifo.uSizeOK + uAdd ≤ fifo.uSizeTotal) :
    toAdd fifo uAdd = uAdd := by
  unfold toAdd
  split <;> omega

theorem begin_total {n : Nat} (small : n < 2 ^ 32) :
    (partFIFO_Begin n).uSizeTotal = 0 ∨ (partFIFO_Begin n).uSizeTotal = n + n % 2 := by
  unfold partFIFO_Begin
  dsimp only
  rcases Nat.lt_or_ge (n + n % 2) (2 ^ 32) with fits | wraps
  · exact .inr (Nat.mod_eq_of_lt fits)
  · left
    omega

theorem writePart_transfers (drq : Nat → Bool) {n total : Nat}
    (limit : total = 0 ∨ total = n + n % 2) :
    Transfers (writePart drq) List.length (Offered drq) n fun s done =>
      Sending done.flatten s.1 s.2 ∧ s.1.uSizeTotal = total := by
  rintro ⟨fifo, port⟩ done pcuc ⟨before, same⟩ fits
  rw [← List.length_flatten] at fits ⊢
  have all : toAdd fifo pcuc.length = pcuc.length := by
    apply toAdd_all
    have size := before.size
    dsimp only at size same
    omega
  obtain ⟨kept, moved, offered⟩ := wbhicPartWriteFIFO_all drq before pcuc all
  refine ⟨⟨wbhicPartWriteFIFO_ready before pcuc all, offered⟩, fun ok => ⟨?_, kept.trans same⟩⟩
  rw [List.flatten_append, List.flatten_singleton]
  exact moved ok

/-- On the 16-bit bus the port takes the payload and a zero behind an odd number of bytes. -/
theorem writeFIFO16_spec (drq : Nat → Bool) {payload : List UInt8} (small : payload.length < 2 ^ 32)
    {parts : List (List UInt8)} (whole : parts.flatten = payload) :
    ((writeFIFO16 drq payload.length parts).1 = true ↔ ∀ j < payload.length, Offered drq j) ∧
    ((writeFIFO16 drq payload.length parts).1 = true →
      portBytes (writeFIFO16 drq payload.length parts).2 = padded payload) := by
  have total := begin_total small
  have length : (parts.map List.length).sum = payload.length := by
    rw [← List.length_flatten, whole]
  obtain ⟨success, holds⟩ := @calls_whole _ _ _ _ _ _ _ (writePart_transfers drq total) parts
    (partFIFO_Begin payload.length, []) ⟨⟨rfl, rfl⟩, rfl⟩ (Nat.le_of_eq length)
  rw [length] at success
  rw [whole] at holds
  unfold writeFIFO16
  dsimp only
  split
  · rename_i ok
    obtain ⟨sending, kept⟩ := holds ok
    exact ⟨⟨fun _ => success.mp ok, fun _ => rfl⟩,
      fun _ => wbhicPartWriteFIFO_End_padded drq sending (kept ▸ total)⟩
  · rename_i failed
    exact ⟨⟨fun ok => (by cases ok), fun all => absurd (success.mpr all) failed⟩,
      fun ok => (by cases ok)⟩

/-! ### The 8-bit bus -/

theorem writePart8_transfers (drq : Nat → Bool) (n : Nat) :
    Transfers (Bus8.wbhicPartWriteFIFO drq) List.length (Bus8.Offered drq) n fun s done =>
      Bus8.Sending done.flatten n s := by
  intro s done pcuc before fits
  rw [← List.length_flatten] at fits ⊢
  have all : toAdd s.fifo pcuc.length = pcuc.length := by
    apply toAdd_all
    rw [before.size, before.total]
    exact .inr fits
  have call := @Bus8.wbhicPartWriteFIFO_all drq _ _ _ before pcuc all
  refine ⟨call.1, fun ok => ?_⟩
  show Bus8.Sending (done ++ [pcuc]).flatten n _
  rw [List.flatten_append, List.flatten_singleton]
  exact call.2 ok

/-- On the 8-bit bus it takes the payload. -/
theorem writeFIFO8_spec (drq : Nat → Bool) {payload : List UInt8} {parts : List (List UInt8)}
    (whole : parts.flatten = payload) :
    ((writeFIFO8 drq payload.length parts).1 = true ↔ ∀ j < payload.length, Bus8.Offered drq j) ∧
    ((writeFIFO8 drq payload.length parts).1 = true →
      (writeFIFO8 drq payload.length parts).2 = payload) := by
  have length : (parts.map List.length).sum = payload.length := by
    rw [← List.length_flatten, whole]
  obtain ⟨success, holds⟩ := @calls_whole _ _ _ _ _ _ _ (writePart8_transfers drq payload.length)
    parts ⟨Bus8.partFIFO_Begin payload.length, []⟩ ⟨rfl, rfl, rfl⟩ (Nat.le_of_eq length)
  rw [length] at success
  rw [whole] at holds
  unfold writeFIFO8
  dsimp only
  split
  · rename_i ok
    have sending := holds ok
    have nothing : ∀ s : Bus8.Writer, Bus8.Sending payload payload.length s →
        Bus8.wbhicPartWriteFIFO_End drq s = (true, s) := by
      intro s sending
      rw [Bus8.wbhicPartWriteFIFO_End, sending.size, sending.total, Nat.sub_self,
        Bus8.partWriteRest]
    rw [nothing _ sending]
    exact ⟨⟨fun _ => success.mp ok, fun _ => rfl⟩, fun _ => sending.port⟩
  · rename_i failed
    exact ⟨⟨fun ok => (by cases ok), fun all => absurd (success.mpr all) failed⟩,
      fun ok => (by cases ok)⟩

/-! ### Reading -/

theorem fetch_ok_iff (drq : Nat → Bool) (words : Nat → HalfWord) (count i : Nat) :
    (fetch drq words count i).1 = true ↔ ∀ j, i ≤ j → j < i + count → Offered drq j := by
  constructor
  · intro ok j low high
    by_contra refused
    have stopped := (fetch_refused drq words low high refused).1
    rw [ok] at stopped
    cases stopped
  · intro offered
    rw [fetch_offered drq words offered]

/-- A handle that has read the first n bytes of the port. -/
structure Receiving (words : Nat → HalfWord) (total n : Nat) (s : Reader) : Prop where
  size : s.fifo.uSizeOK = n
  total : s.fifo.uSizeTotal = total
  step : InStep words n s.fifo.usHalf s.taken
  got : s.got = stream words n 0

theorem readPart_transfers (drq : Nat → Bool) (words : Nat → HalfWord) {n total : Nat}
    (limit : total = 0 ∨ total = n + n % 2) :
    Transfers (readPart drq words) id (Offered drq) n fun s done =>
      Receiving words total done.sum s := by
  intro s done uBufferSize before fits
  rw [List.map_id, id] at fits ⊢
  have all : toAdd s.fifo uBufferSize = uBufferSize := by
    apply toAdd_all
    rw [before.size, before.total]
    omega
  have step := before.step
  rw [← before.size] at step
  obtain ⟨fetched, kept, size, next⟩ := wbhicPartReadFIFO_spec drq words step uBufferSize
  rw [all, before.size] at fetched
  have bOK := congrArg Prod.fst fetched
  dsimp only at bOK
  refine ⟨?_, fun ok => ?_⟩
  · show (wbhicPartReadFIFO drq words s.fifo s.taken uBufferSize).bOK = true ↔ _
    rw [bOK, fetch_ok_iff]
  · have bytes := congrArg Prod.snd (fetched.trans (fetch_ok drq words (bOK ▸ ok)))
    dsimp only at bytes
    rw [bytes, length_stream, before.size] at size
    rw [size] at next
    show Receiving words total (done ++ [uBufferSize]).sum _
    rw [List.sum_append, List.sum_singleton]
    refine ⟨size, kept.trans before.total, next, ?_⟩
    show s.got ++ _ = _
    rw [bytes, before.got, stream_add, Nat.zero_add]

/-- The end takes the other half of the last word. -/
theorem readEnd_spec (drq : Nat → Bool) {words : Nat → HalfWord} {n total : Nat} {s : Reader}
    (receiving : Receiving words total n s) (limit : total = 0 ∨ total = n + n % 2) :
    (wbhicPartReadFIFO_End drq words s.fifo s.taken).1 = true ∧
      (wbhicPartReadFIFO_End drq words s.fifo s.taken).2.2 = (n + 1) / 2 := by
  have taken := receiving.step.taken
  unfold wbhicPartReadFIFO_End
  rw [receiving.size, receiving.total]
  rcases Nat.eq_zero_or_pos (total - n) with none | some
  · rw [none, partReadRest]
    exact ⟨rfl, taken⟩
  · have one : total - n = 1 := by omega
    have step := receiving.step
    rw [← receiving.size] at step
    obtain ⟨fetched, kept, size, next⟩ := wbhicPartReadFIFO_spec drq words step 1
    have all : toAdd s.fifo 1 = 1 := by
      apply toAdd_all
      rw [receiving.size, receiving.total]
      omega
    have offered : fetch drq words 1 n = (true, stream words 1 n) := by
      apply fetch_offered
      intro j low high start
      unfold sizeFifo at start
      omega
    rw [all, receiving.size, offered] at fetched
    have bOK : (wbhicPartReadFIFO drq words s.fifo s.taken 1).bOK = true :=
      congrArg Prod.fst fetched
    have bytes : (wbhicPartReadFIFO drq words s.fifo s.taken 1).bytes = stream words 1 n :=
      congrArg Prod.snd fetched
    rw [bytes, length_stream, receiving.size] at size
    rw [one, partReadRest, if_pos (by rw [receiving.size, receiving.total]; omega)]
    simp only [bOK, if_true, partReadRest, true_and]
    have behind := next.taken
    rw [size] at behind
    omega

/-- On the 16-bit bus parts of any sizes get the bytes of the port's words, and the words of the
whole payload are taken from it. -/
theorem readFIFO16_spec (drq : Nat → Bool) (words : Nat → HalfWord) {n : Nat} (small : n < 2 ^ 32)
    {sizes : List Nat} (whole : sizes.sum = n) :
    ((readFIFO16 drq words n sizes).1 = true ↔ ∀ j < n, Offered drq j) ∧
    ((readFIFO16 drq words n sizes).1 = true →
      (readFIFO16 drq words n sizes).2.got = stream words n 0 ∧
      (readFIFO16 drq words n sizes).2.taken = (n + 1) / 2) := by
  have total := begin_total small
  obtain ⟨success, holds⟩ := @calls_whole _ _ _ _ _ _ _ (readPart_transfers drq words total) sizes
    ⟨partFIFO_Begin n, 0, []⟩ ⟨rfl, rfl, ⟨rfl, fun odd => (by cases odd)⟩, rfl⟩
    (by rw [List.map_id, whole])
  rw [List.map_id, whole] at success
  rw [whole] at holds
  unfold readFIFO16
  dsimp only
  split
  · rename_i ok
    have receiving := holds ok
    obtain ⟨done, taken⟩ := readEnd_spec drq receiving total
    exact ⟨⟨fun _ => success.mp ok, fun _ => done⟩, fun _ => ⟨receiving.got, taken⟩⟩
  · rename_i failed
    exact ⟨⟨fun ok => (by cases ok), fun all => absurd (success.mpr all) failed⟩,
      fun ok => (by cases ok)⟩

theorem readPart8_transfers (drq : Nat → Bool) (bytes : Nat → UInt8) (n : Nat) :
    Transfers (Bus8.wbhicPartReadFIFO drq bytes) id (Bus8.Offered drq) n fun s done =>
      Bus8.Receiving bytes n done.sum s := by
  intro s done uBufferSize before fits
  rw [List.map_id, id] at fits ⊢
  have all : toAdd s.fifo uBufferSize = uBufferSize := by
    apply toAdd_all
    rw [before.size, before.total]
    exact .inr fits
  have call := @Bus8.wbhicPartReadFIFO_all drq _ _ _ _ before uBufferSize all
  refine ⟨call.1, fun ok => ?_⟩
  show Bus8.Receiving bytes n (done ++ [uBufferSize]).sum _
  rw [List.sum_append, List.sum_singleton]
  exact call.2 ok

theorem readFIFO8_spec (drq : Nat → Bool) (bytes : Nat → UInt8) {n : Nat} {sizes : List Nat}
    (whole : sizes.sum = n) :
    ((readFIFO8 drq bytes n sizes).1 = true ↔ ∀ j < n, Bus8.Offered drq j) ∧
    ((readFIFO8 drq bytes n sizes).1 = true →
      (readFIFO8 drq bytes n sizes).2.got = Bus8.readBytes bytes n 0 ∧
      (readFIFO8 drq bytes n sizes).2.taken = n) := by
  obtain ⟨success, holds⟩ := @calls_whole _ _ _ _ _ _ _ (readPart8_transfers drq bytes n) sizes
    ⟨Bus8.partFIFO_Begin n, 0, []⟩ ⟨rfl, rfl, rfl, rfl⟩ (by rw [List.map_id, whole])
  rw [List.map_id, whole] at success
  rw [whole] at holds
  unfold readFIFO8
  dsimp only
  split
  · rename_i ok
    have nothing : ∀ s : Bus8.Reader, Bus8.Receiving bytes n n s →
        Bus8.wbhicPartReadFIFO_End drq bytes s = (true, s) := by
      intro s receiving
      rw [Bus8.wbhicPartReadFIFO_End, receiving.size, receiving.total, Nat.sub_self,
        Bus8.partReadRest]
    have receiving := holds ok
    rw [nothing _ receiving]
    exact ⟨⟨fun _ => success.mp ok, fun _ => rfl⟩, fun _ => ⟨receiving.got, receiving.taken⟩⟩
  · rename_i failed
    exact ⟨⟨fun ok => (by cases ok), fun all => absurd (success.mpr all) failed⟩,
      fun ok => (by cases ok)⟩

/-! ### What was written is read -/

/-- The words of a port as they are read again. -/
def portWord (port : List HalfWord) (n : Nat) : HalfWord := port.getD n ⟨0, 0⟩

theorem map_getD_range' {A : Type} (port : List A) (none : A) {n : Nat} (inside : n ≤ port.length) :
    (List.range' 0 n).map (fun i => port.getD i none) = port.take n := by
  apply List.ext_getElem
  · rw [List.length_map, List.length_range', List.length_take_of_le inside]
  · intro i low high
    have less : i < port.length := by
      rw [List.length_map, List.length_range'] at low
      omega
    rw [List.getElem_map, List.getElem_range', List.getElem_take, Nat.one_mul, Nat.zero_add,
      List.getD_eq_getElem _ _ less]

theorem readWords_map (words : Nat → HalfWord) (count n : Nat) :
    readWords words count n = portBytes ((List.range' n count).map words) := by
  induction count generalizing n with
  | zero => rfl
  | succ count ih =>
    rw [readWords, ih, List.range'_succ]
    rfl

theorem stream_portWord (port : List HalfWord) {n : Nat} (inside : n ≤ port.length * 2) :
    stream (portWord port) n 0 = (portBytes port).take n := by
  have whole : stream (portWord port) (port.length * 2) 0 = portBytes port := by
    have words := readWords_stream (portWord port) port.length 0
    rw [Nat.zero_mul] at words
    rw [← words, readWords_map]
    exact congrArg portBytes ((map_getD_range' port ⟨0, 0⟩ (Nat.le_refl _)).trans List.take_length)
  rw [← whole, take_stream _ inside]

/-- The bytes of a port as they are read again. -/
def portByte (port : List UInt8) (n : Nat) : UInt8 := port.getD n 0

theorem padded_take (payload : List UInt8) : (padded payload).take payload.length = payload :=
  List.take_left

theorem padded_length (payload : List UInt8) :
    (padded payload).length = payload.length + payload.length % 2 := by
  rw [padded, List.length_append, List.length_replicate]

/-- A transfer on both buses: what was put into the FIFO and what is read from it again. A payload
is moved when DRQ comes in time for each of its blocks; then the words are its packing, filled up
with a zero, the 8-bit bus carries its bytes, and all readers get them. -/
theorem fifo_transfer (out16 out8 in16 in8 : Nat → Bool) (payload : List UInt8)
    (small : payload.length < 2 ^ 32) (parts : List (List UInt8)) (sizes : List Nat)
    (written : parts.flatten = payload) (read : sizes.sum = payload.length) :
    let w16 := writeFIFO16 out16 payload.length parts
    let w8 := writeFIFO8 out8 payload.length parts
    let r16 := readFIFO16 in16 (portWord w16.2) payload.length sizes
    let r8 := readFIFO8 in8 (portByte w8.2) payload.length sizes
    (w16.1 = true ↔ ∀ j < payload.length, Offered out16 j) ∧
    (w16.1 = true → portBytes w16.2 = padded payload) ∧
    (w8.1 = true ↔ ∀ j < payload.length, Bus8.Offered out8 j) ∧
    (w8.1 = true → w8.2 = payload) ∧
    (r16.1 = true ↔ ∀ j < payload.length, Offered in16 j) ∧
    (w16.1 = true → r16.1 = true → r16.2.got = payload ∧ r16.2.taken = w16.2.length) ∧
    (r8.1 = true ↔ ∀ j < payload.length, Bus8.Offered in8 j) ∧
    (w8.1 = true → r8.1 = true → r8.2.got = payload ∧ r8.2.taken = w8.2.length) := by
  intro w16 w8 r16 r8
  obtain ⟨offered16, moved16⟩ := writeFIFO16_spec out16 small written
  obtain ⟨offered8, moved8⟩ := writeFIFO8_spec out8 written
  obtain ⟨ready16, got16⟩ := readFIFO16_spec in16 (portWord w16.2) small read
  obtain ⟨ready8, got8⟩ := readFIFO8_spec in8 (portByte w8.2) read
  refine ⟨offered16, moved16, offered8, moved8, ready16, fun ok done => ?_, ready8,
    fun ok done => ?_⟩
  · obtain ⟨got, taken⟩ := got16 done
    have port : portBytes w16.2 = padded payload := moved16 ok
    have length := congrArg List.length port
    rw [length_portBytes, padded_length] at length
    refine ⟨got.trans ?_, taken.trans (by omega)⟩
    rw [stream_portWord _ (by omega), port, padded_take]
  · obtain ⟨got, taken⟩ := got8 done
    have port : w8.2 = payload := moved8 ok
    refine ⟨got.trans ?_, taken.trans (congrArg List.length port).symm⟩
    refine (map_getD_range' w8.2 0 (Nat.le_of_eq (congrArg List.length port).symm)).trans ?_
    rw [port, List.take_length]

theorem fifo_transfer_three :
    portBytes (writeFIFO16 (fun _ => true) 3 [[1], [2, 3]]).2 = [1, 2, 3, 0] ∧
      (writeFIFO8 (fun _ => true) 3 [[1], [2, 3]]).2 = [1, 2, 3] := by
  have moved := fifo_transfer (fun _ => true) (fun _ => true) (fun _ => true) (fun _ => true)
    [1, 2, 3] (by decide) [[1], [2, 3]] [2, 1] rfl rfl
  exact ⟨moved.2.1 (moved.1.mpr fun _ _ _ => rfl),
    moved.2.2.2.1 (moved.2.2.1.mpr fun _ _ _ => rfl)⟩

/-- One byte: the 16-bit bus carries a second. -/
theorem buses_differ : ¬ ∀ (drq16 drq8 : Nat → Bool) (payload : List UInt8)
    (parts : List (List UInt8)), parts.flatten = payload →
      (writeFIFO16 drq16 payload.length parts).1 = true →
      (writeFIFO8 drq8 payload.length parts).1 = true →
      portBytes (writeFIFO16 drq16 payload.length parts).2 =
        (writeFIFO8 drq8 payload.length parts).2 := by
  intro all
  have same := all (fun _ => true) (fun _ => true) [1] [[1]] rfl (by decide) (by decide)
  revert same
  decide

end Rovio.Hic
