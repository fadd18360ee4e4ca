import Rovio.Kit.Buffer
import Rovio.VideoPhone.Splitter

/-! The MPEG-4 splitter in its memory: a buffer of a fixed size, the length stored in it and the
pointer up to which it has been checked. -/
namespace Rovio.VideoPhone

open Kit

/-- `VP_MP4_SPLITTER_T`: the whole buffer with whatever it holds, `pcCheckPointer` as an offset. -/
structure SplitterMemory where
  bHeader : Bool
  pcBuffer : List UInt8
  szMaxLength : Nat
  szLength : Nat
  pcCheckPointer : Int
  szTotalLength : UInt32
  szGetTLength : UInt32

namespace SplitterMemory

def init (pcBuffer : List UInt8) (szMaxLength : Nat) (szGetTLength : UInt32) : SplitterMemory :=
  ⟨true, pcBuffer, szMaxLength, 0, 0, 0, szGetTLength⟩

/-- None when bytes outside of the buffer are moved. -/
def delData (s : SplitterMemory) (szLength : Nat) : Option SplitterMemory :=
  let szLength := if szLength > s.szLength then s.szLength else szLength
  (fetch s.pcBuffer szLength (s.szLength - szLength)).bind fun moved =>
    (put s.pcBuffer 0 moved).map fun pcBuffer =>
      let pcCheckPointer := s.pcCheckPointer - szLength
      { s with
        pcBuffer
        szLength := s.szLength - szLength
        pcCheckPointer := if pcCheckPointer < 0 then 0 else pcCheckPointer }

/-- A byte of the stored data. There is none behind it. -/
def read (s : SplitterMemory) (pc : Int) : Option UInt8 :=
  if 0 ≤ pc ∧ pc < s.szLength then s.pcBuffer[pc.toNat]? else none

/-- `pc[n] == c`. -/
def is (s : SplitterMemory) (pc : Int) (n : Nat) (c : UInt8) : Option Bool :=
  (s.read (pc + n)).map fun byte => decide (byte = c)

/-- `&&`: the second comparison is made only if the first holds. -/
def both (first second : Option Bool) : Option Bool :=
  first.bind fun holds => if holds then second else some false

/-- The body of the loop: whether it breaks, and `bHeader` after it. -/
def checkRound (s : SplitterMemory) (bHeader : Bool) (pc : Int) : Option (Bool × Bool) :=
  (both (s.is pc 0 0x00) (s.is pc 1 0x00)).bind fun zeros =>
    if zeros then
      (both (both (both (both (both (s.is pc 2 0x01) (s.is pc 3 0xB0)) (s.is pc 5 0x00))
        (s.is pc 6 0x00)) (s.is pc 7 0x01)) (s.is pc 8 0xB5)).bind fun sequence =>
        if sequence then some (true, true)
        else (both (s.is pc 2 0x01) (s.is pc 3 0xB6)).bind fun plane =>
          if plane && !bHeader then some (true, bHeader)
          else (s.read (pc + (2 : Nat))).map fun byte =>
            (decide (byte &&& 0xF0 ≠ 0), if plane then false else bHeader)
    else some (false, bHeader)

/-- The loop, with so many rounds up to `pcEnd`: where it stops, and `bHeader`. -/
def scan (s : SplitterMemory) : Nat → Bool → Int → Option (Int × Bool)
  | 0, bHeader, pc => some (pc, bHeader)
  | left + 1, bHeader, pc =>
    (s.checkRound bHeader pc).bind fun (stops, bHeader) =>
      if stops then some (pc, bHeader) else s.scan left bHeader (pc + 1)

def getFrame (s : SplitterMemory) : Option (SplitterMemory × Nat) :=
  if s.szLength > 10 then
    let pcEnd : Int := s.szLength - 10
    (s.scan (pcEnd - s.pcCheckPointer).toNat s.bHeader s.pcCheckPointer).map fun (pc, bHeader) =>
      if pc < pcEnd then
        ({ s with
          bHeader
          pcCheckPointer := pc + 2
          szGetTLength := s.szTotalLength - UInt32.ofNat s.szLength }, pc.toNat)
      else ({ s with bHeader, pcCheckPointer := pc }, 0)
  else some (s, 0)

/-- The rest of `mp4Splitter_AddData`, once there is room. -/
def append (s : SplitterMemory) (cpcBuffer : List UInt8) : Option SplitterMemory :=
  (put s.pcBuffer s.szLength cpcBuffer).map fun pcBuffer =>
    { s with
      pcBuffer
      szLength := s.szLength + cpcBuffer.length
      szTotalLength := s.szTotalLength + UInt32.ofNat cpcBuffer.length }

def addData (s : SplitterMemory) (cpcBuffer : List UInt8) : Option SplitterMemory :=
  if cpcBuffer.length > s.szMaxLength then some s
  else if s.szLength + cpcBuffer.length > s.szMaxLength then
    (s.delData (s.szLength + cpcBuffer.length - s.szMaxLength)).bind fun s => s.append cpcBuffer
  else s.append cpcBuffer

/-- What the memory stands for. -/
def view (s : SplitterMemory) : Splitter :=
  ⟨s.bHeader, s.pcBuffer.take s.szLength, s.szMaxLength, s.pcCheckPointer.toNat⟩

/-- The three pointers are consistent. -/
structure Consistent (s : SplitterMemory) : Prop where
  size : s.pcBuffer.length = s.szMaxLength
  stored : s.szLength ≤ s.szMaxLength
  start : 0 ≤ s.pcCheckPointer
  checked : s.pcCheckPointer ≤ s.szLength

variable {s : SplitterMemory}

theorem Consistent.view_length (held : Consistent s) : s.view.buffer.length = s.szLength := by
  have size := held.size
  have stored := held.stored
  show (s.pcBuffer.take s.szLength).length = s.szLength
  rw [List.length_take]
  omega

theorem fetch_some {buffer : List UInt8} {offset size : Nat}
    (inside : offset + size ≤ buffer.length) :
    fetch buffer offset size = some ((buffer.drop offset).take size) := if_pos inside

/-! ### The calls of the memory are those of what it stands for -/

theorem delData_view (held : Consistent s) (n : Nat) :
    ∃ t, s.delData n = some t ∧ Consistent t ∧ t.view = s.view.delData n ∧
      t.szLength = s.szLength - n ∧ t.szMaxLength = s.szMaxLength := by
  have length := held.view_length
  obtain ⟨size, stored, start, checked⟩ := held
  have clamp : (if n > s.szLength then s.szLength else n) = min n s.szLength := by
    split <;> omega
  unfold delData
  dsimp only
  rw [clamp, fetch_some (by omega), Option.bind_some]
  have moved : ((s.pcBuffer.drop (min n s.szLength)).take (s.szLength - min n s.szLength)).length =
      s.szLength - min n s.szLength := by
    rw [List.length_take, List.length_drop]
    omega
  obtain ⟨after, put⟩ := @put_isSome UInt8 s.pcBuffer
    ((s.pcBuffer.drop (min n s.szLength)).take (s.szLength - min n s.szLength)) 0 (by omega)
  have front := put_take put
  rw [moved, Nat.zero_add, List.take_zero, List.nil_append] at front
  rw [put, Option.map_some]
  refine ⟨_, rfl, ⟨(put_length put).trans size, ?_, ?_, ?_⟩, ?_, ?_, rfl⟩
  · show s.szLength - min n s.szLength ≤ s.szMaxLength
    omega
  · dsimp only
    split <;> omega
  · dsimp only
    split <;> omega
  · have same : s.szLength - min n s.szLength = s.szLength - n := by omega
    have buffer : after.take (s.szLength - min n s.szLength) =
        (s.pcBuffer.take s.szLength).drop (min n s.szLength) := by
      rw [front, List.take_drop, Nat.add_sub_cancel' (Nat.min_le_right n s.szLength)]
    unfold view Splitter.delData
    dsimp only
    have whole : (s.pcBuffer.take s.szLength).length = s.szLength := length
    rw [whole, clamp, buffer, Splitter.mk.injEq]
    refine ⟨rfl, rfl, rfl, ?_⟩
    split <;> omega
  · show s.szLength - min n s.szLength = s.szLength - n
    omega

theorem append_view (held : Consistent s) {cpcBuffer : List UInt8}
    (room : s.szLength + cpcBuffer.length ≤ s.szMaxLength) :
    ∃ t, s.append cpcBuffer = some t ∧ Consistent t ∧
      t.view = { s.view with buffer := s.view.buffer ++ cpcBuffer } ∧
      t.szLength = s.szLength + cpcBuffer.length ∧ t.szMaxLength = s.szMaxLength := by
  obtain ⟨size, stored, start, checked⟩ := held
  obtain ⟨after, put⟩ := @put_isSome UInt8 s.pcBuffer cpcBuffer s.szLength (by omega)
  unfold append
  rw [put, Option.map_some]
  refine ⟨_, rfl, ⟨(put_length put).trans size, room, start, ?_⟩, ?_, rfl, rfl⟩
  · show s.pcCheckPointer ≤ ((s.szLength + cpcBuffer.length : Nat) : Int)
    omega
  · unfold view
    dsimp only
    rw [put_take put]

theorem addData_view (held : Consistent s) (cpcBuffer : List UInt8) :
    ∃ t, s.addData cpcBuffer = some t ∧ Consistent t ∧ t.view = s.view.addData cpcBuffer ∧
      t.szLength = (if cpcBuffer.length > s.szMaxLength then s.szLength
        else min (s.szLength + cpcBuffer.length) s.szMaxLength) ∧
      t.szMaxLength = s.szMaxLength := by
  have length := held.view_length
  have max : s.view.szMaxLength = s.szMaxLength := rfl
  unfold addData Splitter.addData
  rw [length, max]
  dsimp only
  split
  · exact ⟨s, rfl, held, rfl, rfl, rfl⟩
  · split
    · obtain ⟨r, deleted, kept, view, left, same⟩ := delData_view held
        (s.szLength + cpcBuffer.length - s.szMaxLength)
      have stored := held.stored
      obtain ⟨t, appended, last, whole, total, max⟩ := append_view kept
        (show r.szLength + cpcBuffer.length ≤ r.szMaxLength by omega)
      rw [deleted, Option.bind_some]
      refine ⟨t, appended, last, ?_, ?_, max.trans same⟩
      · rw [whole, view]
      · omega
    · obtain ⟨t, appended, last, whole, total, max⟩ := append_view held
        (show s.szLength + cpcBuffer.length ≤ s.szMaxLength by omega)
      refine ⟨t, appended, last, whole, ?_, max⟩
      omega

/-! ### Reading -/

theorem read_view (held : Consistent s) {p n : Nat} (inside : p + n < s.szLength) :
    s.read ((p : Int) + n) = some (byteAt (s.view.buffer.drop p) n) := by
  have size := held.size
  have stored := held.stored
  have place : ((p : Int) + n).toNat = p + n := by omega
  have there : s.pcBuffer[p + n]? = some s.pcBuffer[p + n] :=
    List.getElem?_eq_getElem (by omega)
  unfold read byteAt view
  rw [if_pos (by omega), place, List.getD_eq_getElem?_getD, List.getElem?_drop,
    List.getElem?_take_of_lt inside, there, Option.getD_some]

theorem is_view (held : Consistent s) {p n : Nat} (inside : p + n < s.szLength) (c : UInt8) :
    s.is p n c = some (decide (byteAt (s.view.buffer.drop p) n = c)) := by
  unfold is
  rw [read_view held inside, Option.map_some]

theorem both_some (x y : Bool) : both (some x) (some y) = some (x && y) := by
  cases x <;> rfl

/-- Everything a round looks at is stored. -/
theorem checkRound_view (held : Consistent s) {p : Nat} (inside : p + 10 < s.szLength)
    (bHeader : Bool) :
    s.checkRound bHeader p = some (checkCode bHeader (s.view.buffer.drop p)) := by
  have byte (n : Nat) (near : n < 10) := @is_view s held p n (by omega)
  have third := @read_view s held p 2 (by omega)
  unfold checkRound checkCode isSequence isPlane isH263
  rw [byte 0 (by omega), byte 1 (by omega), byte 2 (by omega),
    byte 3 (by omega) 0xB0, byte 3 (by omega) 0xB6, byte 5 (by omega), byte 6 (by omega),
    byte 7 (by omega), byte 8 (by omega), third]
  simp only [both_some, Option.bind_some, Option.map_some]
  generalize s.view.buffer.drop p = pc
  cases zeros : decide (byteAt pc 0 = 0x00) && decide (byteAt pc 1 = 0x00) with
  | false => rfl
  | true =>
    simp only [if_true]
    generalize (decide (byteAt pc 2 = 0x01) && decide (byteAt pc 3 = 0xB0) &&
      decide (byteAt pc 5 = 0x00) && decide (byteAt pc 6 = 0x00) &&
        decide (byteAt pc 7 = 0x01) && decide (byteAt pc 8 = 0xB5)) = sequence
    generalize (decide (byteAt pc 2 = 0x01) && decide (byteAt pc 3 = 0xB6)) = plane
    cases sequence <;> cases plane <;> cases bHeader <;> rfl

/-- The loop stops at a place that it has checked, or at its end. -/
theorem scan_view (held : Consistent s) (left : Nat) (bHeader : Bool) {p : Nat}
    (inside : 0 < left → p + left + 10 ≤ s.szLength) :
    ∃ pc : Nat,
      s.scan left bHeader p = some ((pc : Int), (scanFrom s.view.buffer left bHeader p).2.2) ∧
      pc = (scanFrom s.view.buffer left bHeader p).2.1 ∧ p ≤ pc ∧ pc ≤ p + left ∧
      ((scanFrom s.view.buffer left bHeader p).1 = true ↔ pc < p + left) := by
  induction left generalizing bHeader p with
  | zero =>
    refine ⟨p, rfl, rfl, Nat.le_refl p, Nat.le_refl p, ?_⟩
    constructor
    · intro found
      cases found
    · intro less
      exact absurd less (Nat.lt_irrefl p)
  | succ left ih =>
    have round := checkRound_view held (show p + 10 < s.szLength by
      have := inside (Nat.succ_pos left)
      omega) bHeader
    rw [scan, scanFrom, round, Option.bind_some]
    generalize checkCode bHeader (s.view.buffer.drop p) = result
    obtain ⟨stops, bHeader⟩ := result
    cases stops with
    | true =>
      refine ⟨p, rfl, rfl, Nat.le_refl p, Nat.le_add_right p _, ?_⟩
      exact ⟨fun _ => Nat.lt_add_of_pos_right (Nat.succ_pos left), fun _ => rfl⟩
    | false =>
      obtain ⟨pc, run, place, low, high, found⟩ := @ih bHeader (p + 1) (by omega)
      refine ⟨pc, ?_, place, by omega, by omega, found.trans (by omega)⟩
      exact run

theorem getFrame_view (held : Consistent s) :
    ∃ t, s.getFrame = some (t, s.view.getFrame.2) ∧ Consistent t ∧ t.view = s.view.getFrame.1 ∧
      t.szLength = s.szLength ∧ t.szMaxLength = s.szMaxLength := by
  have length := held.view_length
  have fields : s.view.check = s.pcCheckPointer.toNat ∧ s.view.bHeader = s.bHeader := ⟨rfl, rfl⟩
  have start := held.start
  have checked := held.checked
  unfold getFrame Splitter.getFrame
  rw [length, fields.1, fields.2]
  dsimp only
  split
  · rename_i long
    have pointer : ((s.pcCheckPointer.toNat : Nat) : Int) = s.pcCheckPointer := by omega
    have rounds : ((s.szLength : Int) - 10 - s.pcCheckPointer).toNat =
        s.szLength - 10 - s.pcCheckPointer.toNat := by omega
    obtain ⟨pc, run, place, low, high, found⟩ := @scan_view s held
      (s.szLength - 10 - s.pcCheckPointer.toNat) s.bHeader s.pcCheckPointer.toNat (by omega)
    rw [pointer] at run
    rw [rounds, run, Option.map_some]
    generalize scanFrom s.view.buffer (s.szLength - 10 - s.pcCheckPointer.toNat) s.bHeader
      s.pcCheckPointer.toNat = result at *
    obtain ⟨stops, here, bHeader⟩ := result
    obtain rfl : pc = here := place
    have found : stops = true ↔ (pc : Int) < s.szLength - 10 := found.trans (by omega)
    dsimp only
    cases stops with
    | true =>
      have less := found.mp rfl
      rw [if_pos less, if_pos rfl, Int.toNat_natCast]
      refine ⟨_, rfl, ⟨held.size, held.stored, ?_, ?_⟩, ?_, rfl, rfl⟩
      · show (0 : Int) ≤ pc + 2
        omega
      · show (pc : Int) + 2 ≤ s.szLength
        omega
      · unfold view
        rfl
    | false =>
      have most : ¬ (pc : Int) < s.szLength - 10 := fun less => by cases found.mpr less
      rw [if_neg most, if_neg (by decide)]
      refine ⟨_, rfl, ⟨held.size, held.stored, ?_, ?_⟩, ?_, rfl, rfl⟩
      · show (0 : Int) ≤ pc
        omega
      · show (pc : Int) ≤ s.szLength
        omega
      · unfold view
        rfl
  · exact ⟨s, rfl, held, rfl, rfl, rfl⟩

end SplitterMemory

/-! ### Runs -/

inductive SplitterCall
  | addData (cpcBuffer : List UInt8)
  | getFrame
  | delData (szLength : Nat)

def splitterCall (s : SplitterMemory) : SplitterCall → Option SplitterMemory
  | .addData cpcBuffer => s.addData cpcBuffer
  | .getFrame => s.getFrame.map Prod.fst
  | .delData szLength => s.delData szLength

def splitterCalls (s : SplitterMemory) (calls : List SplitterCall) : Option SplitterMemory :=
  calls.foldlM splitterCall s

/-- The stream of the chunks that are not longer than the buffer. -/
def acceptedStream (szMaxLength : Nat) : List SplitterCall → List UInt8
  | [] => []
  | .addData cpcBuffer :: calls =>
    (if cpcBuffer.length > szMaxLength then [] else cpcBuffer) ++ acceptedStream szMaxLength calls
  | .getFrame :: calls => acceptedStream szMaxLength calls
  | .delData _ :: calls => acceptedStream szMaxLength calls

/-- How many bytes are stored after the calls, from so many on. -/
def storedLength (szMaxLength : Nat) : Nat → List SplitterCall → Nat
  | stored, [] => stored
  | stored, .addData cpcBuffer :: calls =>
    storedLength szMaxLength (if cpcBuffer.length > szMaxLength then stored
      else min (stored + cpcBuffer.length) szMaxLength) calls
  | stored, .getFrame :: calls => storedLength szMaxLength stored calls
  | stored, .delData szLength :: calls => storedLength szMaxLength (stored - szLength) calls

/-- What is stored after the addition is the end of the longer stream. -/
theorem addData_suffix {s : Splitter} {stream : List UInt8} (suffix : s.buffer <:+ stream)
    (cpcBuffer : List UInt8) : (s.addData cpcBuffer).buffer <:+
      stream ++ if cpcBuffer.length > s.szMaxLength then [] else cpcBuffer := by
  unfold Splitter.addData
  split
  · rw [List.append_nil]
    exact suffix
  · dsimp only
    split
    · show (s.delData _).buffer ++ cpcBuffer <:+ stream ++ cpcBuffer
      rw [delData_buffer]
      exact List.suffix_append_self_iff.mpr ((List.drop_suffix _ _).trans suffix)
    · exact List.suffix_append_self_iff.mpr suffix

/-- A call, on a buffer that holds the end of what has been accepted so far. -/
theorem splitterCall_keeps {s : SplitterMemory} {stream : List UInt8} (held : s.Consistent)
    (suffix : s.view.buffer <:+ stream) (call : SplitterCall) :
    ∃ t, splitterCall s call = some t ∧ t.Consistent ∧ t.szMaxLength = s.szMaxLength ∧
      t.view.buffer <:+ stream ++ acceptedStream s.szMaxLength [call] ∧
      t.szLength = storedLength s.szMaxLength s.szLength [call] := by
  cases call with
  | addData cpcBuffer =>
    obtain ⟨t, run, kept, view, length, max⟩ := s.addData_view held cpcBuffer
    refine ⟨t, run, kept, max, ?_, length⟩
    have further := addData_suffix suffix cpcBuffer
    rw [view, acceptedStream, acceptedStream, List.append_nil]
    exact further
  | getFrame =>
    obtain ⟨t, run, kept, view, length, max⟩ := s.getFrame_view held
    refine ⟨t, ?_, kept, max, ?_, length⟩
    · rw [splitterCall, run, Option.map_some]
    · rw [view, getFrame_buffer, acceptedStream, acceptedStream, List.append_nil]
      exact suffix
  | delData szLength =>
    obtain ⟨t, run, kept, view, length, max⟩ := s.delData_view held szLength
    refine ⟨t, run, kept, max, ?_, length⟩
    rw [view, delData_buffer, acceptedStream, acceptedStream, List.append_nil]
    exact (List.drop_suffix _ _).trans suffix

theorem acceptedStream_cons (szMaxLength : Nat) (call : SplitterCall) (calls : List SplitterCall) :
    acceptedStream szMaxLength (call :: calls) =
      acceptedStream szMaxLength [call] ++ acceptedStream szMaxLength calls := by
  cases call with
  | addData cpcBuffer =>
    rw [acceptedStream, acceptedStream, acceptedStream, List.append_nil]
  | getFrame => rfl
  | delData szLength => rfl

theorem storedLength_cons (szMaxLength stored : Nat) (call : SplitterCall)
    (calls : List SplitterCall) : storedLength szMaxLength stored (call :: calls) =
      storedLength szMaxLength (storedLength szMaxLength stored [call]) calls := by
  cases call <;> rfl

theorem splitterCalls_keep {s : SplitterMemory} {stream : List UInt8} (held : s.Consistent)
    (suffix : s.view.buffer <:+ stream) (calls : List SplitterCall) :
    ∃ t, splitterCalls s calls = some t ∧ t.Consistent ∧ t.szMaxLength = s.szMaxLength ∧
      t.view.buffer <:+ stream ++ acceptedStream s.szMaxLength calls ∧
      t.szLength = storedLength s.szMaxLength s.szLength calls := by
  induction calls generalizing s stream with
  | nil =>
    refine ⟨s, rfl, held, rfl, ?_, rfl⟩
    rw [acceptedStream, List.append_nil]
    exact suffix
  | cons call calls ih =>
    obtain ⟨r, first, kept, same, more, length⟩ := splitterCall_keeps held suffix call
    obtain ⟨t, rest, last, max, whole, stored⟩ := ih kept more
    rw [same] at max whole stored
    refine ⟨t, ?_, last, max, ?_, ?_⟩
    · rw [splitterCalls, List.foldlM_cons, first]
      exact rest
    · rw [acceptedStream_cons, ← List.append_assoc]
      exact whole
    · rw [storedLength_cons, ← length]
      exact stored

/-- Any calls with any chunks succeed: nothing is read behind the stored data or moved outside of
the buffer. The three pointers stay consistent, and the buffer holds the end of the accepted stream,
as long as the chunks and deletions leave it. -/
theorem splitter_represents (pcBuffer : List UInt8) (szGetTLength : UInt32)
    (calls : List SplitterCall) :
    ∃ s, splitterCalls (.init pcBuffer pcBuffer.length szGetTLength) calls = some s ∧
      s.szLength ≤ pcBuffer.length ∧ 0 ≤ s.pcCheckPointer ∧ s.pcCheckPointer ≤ s.szLength ∧
      s.szLength = storedLength pcBuffer.length 0 calls ∧
      s.pcBuffer.take s.szLength <:+ acceptedStream pcBuffer.length calls ∧
      (s.pcBuffer.take s.szLength).length = s.szLength := by
  have start : (SplitterMemory.init pcBuffer pcBuffer.length szGetTLength).Consistent :=
    ⟨rfl, Nat.zero_le _, Int.le_refl 0, Int.le_refl 0⟩
  obtain ⟨s, run, held, max, suffix, stored⟩ :=
    @splitterCalls_keep _ [] start List.nil_suffix calls
  have fits := held.stored
  rw [max] at fits
  exact ⟨s, run, fits, held.start, held.checked, stored, suffix, held.view_length⟩

end Rovio.VideoPhone
