import Rovio.Kit.Window

/-! The ring of debug text behind `vcom_write`, and how `vcomDump` sends it to the client: a header
with the number of bytes, and the bytes in one or two pieces. -/
namespace Rovio.Usb.Debug
open Kit

def maxDebugSize : Nat := 1024

def vcomTokenMsg : Nat := 1

structure State where
  vcomInit : Bool
  dumpBuff : List UInt8
  dumpHead : Nat
  dumpTail : Nat

/-- After `VirtualComInit`. -/
def started : State := ⟨true, List.replicate maxDebugSize 0, 0, 0⟩

/-- One round of the loop; none where a byte is stored outside `dumpBuff`. -/
def writeByte (s : State) (byte : UInt8) : Option State :=
  let dumpTailNext := nextOne maxDebugSize s.dumpTail
  if dumpTailNext ≠ s.dumpHead then
    (put s.dumpBuff s.dumpTail [byte]).map fun dumpBuff =>
      { s with dumpBuff := dumpBuff, dumpTail := dumpTailNext }
  else some s

def vcomWrite (s : State) (buf : List UInt8) : Option State :=
  if s.vcomInit then buf.foldlM writeByte s else some s

def vcomDumpSize (s : State) : Int :=
  let size : Int := s.dumpTail - s.dumpHead
  if size < 0 then size + maxDebugSize else size

/-- What a dump gives to `USBWrite`: the header, and the pieces behind it. -/
structure Sent where
  header : Nat
  pieces : List (List UInt8)

/-- The type in the upper half and the length in the lower one, in 32 bits. -/
def headerOf (size : Int) : Nat :=
  (vcomTokenMsg * 65536 + (size % 4294967296).toNat) % 4294967296

/-- None where something is read outside `dumpBuff`. -/
def vcomDump (s : State) : Option (Sent × State) :=
  let header := headerOf (vcomDumpSize s)
  if s.dumpTail = s.dumpHead then some (⟨header, []⟩, s)
  else if s.dumpHead < s.dumpTail then do
    let piece ← fetch s.dumpBuff s.dumpHead (s.dumpTail - s.dumpHead)
    some (⟨header, [piece]⟩, { s with dumpHead := s.dumpTail })
  else do
    let first ← fetch s.dumpBuff s.dumpHead (maxDebugSize - s.dumpHead)
    let second ← fetch s.dumpBuff 0 s.dumpTail
    some (⟨header, [first, second]⟩, { s with dumpHead := s.dumpTail })

inductive Call where
  | write (buf : List UInt8)
  | dump

def run : State → List Call → Option (State × List Sent)
  | s, [] => some (s, [])
  | s, .write buf :: rest => do
    let s ← vcomWrite s buf
    run s rest
  | s, .dump :: rest => do
    let (sent, s) ← vcomDump s
    let (s, later) ← run s rest
    some (s, sent :: later)

/-! ### The queue that it stands for -/

/-- What the dumps take out of a queue. -/
def taken (capacity : Nat) : List UInt8 → List Call → List (List UInt8)
  | _, [] => []
  | queue, .write buf :: rest => taken capacity (buf.foldl (offer capacity) queue) rest
  | queue, .dump :: rest => queue :: taken capacity [] rest

def Sent.bytes (sent : Sent) : List UInt8 := sent.pieces.flatten

/-- The two halves of the header. -/
def Sent.type (sent : Sent) : Nat := sent.header / 65536

def Sent.length (sent : Sent) : Nat := sent.header % 65536

/-- The ring has the bytes of the queue. -/
structure Holds (s : State) (queue : List UInt8) : Prop where
  vcomInit : s.vcomInit = true
  size : s.dumpBuff.length = maxDebugSize
  head : s.dumpHead < maxDebugSize
  tail : s.dumpTail < maxDebugSize
  bytes : window s.dumpBuff s.dumpHead s.dumpTail = queue

variable {s : State} {queue : List UInt8}

theorem holds_started : Holds started [] :=
  ⟨rfl, List.length_replicate, by decide, by decide, window_self _ _⟩

theorem writeByte_holds (holds : Holds s queue) (byte : UInt8) :
    ∃ t, writeByte s byte = some t ∧ Holds t (offer (maxDebugSize - 1) queue byte) := by
  obtain ⟨vcomInit, size, head, tail, bytes⟩ := holds
  have free := window_room (size ▸ head) (size ▸ tail)
  rw [bytes, size] at free
  unfold writeByte offer
  by_cases room : nextOne maxDebugSize s.dumpTail ≠ s.dumpHead
  · have inside : s.dumpTail + [byte].length ≤ s.dumpBuff.length := size ▸ tail
    obtain ⟨after, stored⟩ := put_isSome inside
    rw [if_pos (free.mp room), if_pos room, stored]
    refine ⟨_, rfl, vcomInit, (put_length stored).trans size, head, nextOne_lt tail, ?_⟩
    rw [← bytes, ← size]
    exact window_put (size ▸ head) (size ▸ room) stored
  · rw [if_neg (mt free.mpr room), if_neg room]
    exact ⟨s, rfl, vcomInit, size, head, tail, bytes⟩

theorem vcomWrite_holds (holds : Holds s queue) (buf : List UInt8) :
    ∃ t, vcomWrite s buf = some t ∧ Holds t (buf.foldl (offer (maxDebugSize - 1)) queue) := by
  rw [vcomWrite, if_pos holds.vcomInit]
  induction buf generalizing s queue with
  | nil => exact ⟨s, rfl, holds⟩
  | cons byte rest induct =>
    obtain ⟨next, stored, holds⟩ := writeByte_holds holds byte
    obtain ⟨t, run, holds⟩ := induct holds
    refine ⟨t, ?_, holds⟩
    rw [List.foldlM_cons, stored]
    exact run

/-- The length in the header is that of the queue. -/
theorem header_length (holds : Holds s queue) (pieces : List (List UInt8)) :
    (Sent.mk (headerOf (vcomDumpSize s)) pieces).type = vcomTokenMsg ∧
    (Sent.mk (headerOf (vcomDumpSize s)) pieces).length = queue.length := by
  obtain ⟨_, size, head, tail, bytes⟩ := holds
  have length := window_length (size ▸ head) (size ▸ tail)
  rw [bytes, size] at length
  simp only [Sent.type, Sent.length, headerOf, vcomDumpSize, maxDebugSize, vcomTokenMsg] at *
  split at length <;> split <;> omega

theorem vcomDump_holds (holds : Holds s queue) :
    ∃ sent t, vcomDump s = some (sent, t) ∧ Holds t [] ∧ sent.bytes = queue ∧
      sent.type = vcomTokenMsg ∧ sent.length = queue.length := by
  have header := header_length holds
  obtain ⟨vcomInit, size, head, tail, bytes⟩ := holds
  unfold vcomDump
  by_cases empty : s.dumpTail = s.dumpHead
  · rw [if_pos empty]
    rw [empty, window_self] at bytes
    cases bytes
    refine ⟨_, _, rfl, ⟨vcomInit, size, head, tail, ?_⟩, rfl, header _⟩
    rw [empty, window_self]
  · rw [if_neg empty]
    have emptied : Holds { s with dumpHead := s.dumpTail } [] :=
      ⟨vcomInit, size, tail, tail, window_self _ _⟩
    by_cases order : s.dumpHead < s.dumpTail
    · have piece := fetch_window (Nat.le_of_lt order) (size ▸ tail)
      rw [if_pos order, piece]
      exact ⟨_, _, rfl, emptied, by simpa [Sent.bytes] using bytes, header _⟩
    · obtain ⟨first, second, here, there, both⟩ :=
        @fetch_round _ s.dumpBuff s.dumpHead s.dumpTail (by omega)
          (size ▸ head)
      rw [size] at here
      rw [if_neg order, here, there]
      exact ⟨_, _, rfl, emptied, by simpa [Sent.bytes, both] using bytes, header _⟩

theorem run_holds (calls : List Call) (holds : Holds s queue) :
    ∃ t sent, run s calls = some (t, sent) ∧ (∃ rest, Holds t rest) ∧
      sent.map Sent.bytes = taken (maxDebugSize - 1) queue calls ∧
      ∀ one ∈ sent, one.type = vcomTokenMsg ∧ one.length = one.bytes.length := by
  induction calls generalizing s queue with
  | nil => exact ⟨s, [], rfl, ⟨queue, holds⟩, rfl, by simp⟩
  | cons call rest induct =>
    cases call with
    | write buf =>
      obtain ⟨next, written, holds⟩ := vcomWrite_holds holds buf
      obtain ⟨t, sent, later, inside⟩ := induct holds
      refine ⟨t, sent, ?_, inside⟩
      rw [run, written]
      exact later
    | dump =>
      obtain ⟨one, next, dumped, holds, bytes, type, length⟩ := vcomDump_holds holds
      obtain ⟨t, sent, later, inside, same, all⟩ := induct holds
      refine ⟨t, one :: sent, ?_, inside, ?_, ?_⟩
      · rw [run, dumped]
        simp [later]
      · rw [List.map_cons, bytes, same, taken]
      · exact List.forall_mem_cons.mpr ⟨⟨type, by rw [bytes, length]⟩, all⟩

/-- The dumps send what a queue of one byte less than the ring gives, each behind its length, and
both indices stay inside. -/
theorem debug_ring (calls : List Call) :
    ∃ t sent, run started calls = some (t, sent) ∧
      t.dumpHead < maxDebugSize ∧ t.dumpTail < maxDebugSize ∧
      sent.map Sent.bytes = taken (maxDebugSize - 1) [] calls ∧
      ∀ one ∈ sent, one.length = one.bytes.length := by
  obtain ⟨t, sent, ran, ⟨_, holds⟩, same, all⟩ := run_holds calls holds_started
  exact ⟨t, sent, ran, holds.head, holds.tail, same, fun one mem => (all one mem).2⟩

end Rovio.Usb.Debug
