import Mathlib.Data.List.Induction
import Rovio.Kit.Cuts
import Rovio.VideoPhone.Splitter

/-! The frames of an elementary stream, however it is cut into pieces. -/
namespace Rovio.VideoPhone

/-- The scan of a whole stream up to a place: `bHeader` and the places of the frames found. -/
def sweep (stream : List UInt8) : Nat → Bool × List Nat
  | 0 => (true, [])
  | n + 1 =>
    let (bHeader, places) := sweep stream n
    let (found, bHeader) := checkCode bHeader (stream.drop n)
    (bHeader, if found ∧ 0 < n then places ++ [n] else places)

section Codes
variable {stream : List UInt8} {t n : Nat} {h : Bool}

theorem byteAt_drop (l : List UInt8) (n i : Nat) : byteAt (l.drop n) i = l.getD (n + i) 0 := by
  unfold byteAt
  rw [List.getD_eq_getElem?_getD, List.getD_eq_getElem?_getD, List.getElem?_drop]

/-- Inside the look-ahead a part of the stream shows the codes of the stream. -/
theorem checkCode_slice {a pc : Nat} (inside : a + pc + 10 ≤ t) :
    checkCode h ((Kit.slice stream a t).drop pc) = checkCode h (stream.drop (a + pc)) := by
  have same : ∀ i, i < 10 → byteAt ((Kit.slice stream a t).drop pc) i =
      byteAt (stream.drop (a + pc)) i := by
    intro i small
    unfold Kit.slice
    rw [List.drop_drop, byteAt_drop, byteAt_drop, List.getD_eq_getElem?_getD,
      List.getD_eq_getElem?_getD, List.getElem?_take_of_lt (by omega)]
  unfold checkCode isSequence isPlane isH263
  rw [same 0 (by decide), same 1 (by decide), same 2 (by decide), same 3 (by decide),
    same 5 (by decide), same 6 (by decide), same 7 (by decide), same 8 (by decide)]

/-- After a place at which the scan stops the next place has no code. -/
theorem checkCode_next (found : (checkCode h (stream.drop n)).1 = true) (h' : Bool) :
    checkCode h' (stream.drop (n + 1)) = (false, h') := by
  have second : byteAt (stream.drop (n + 1)) 1 = byteAt (stream.drop n) 2 := by
    rw [byteAt_drop, byteAt_drop]
  have other : byteAt (stream.drop n) 2 ≠ 0 := by
    intro zero
    unfold checkCode isSequence isPlane isH263 at found
    rw [zero] at found
    simp at found
  unfold checkCode
  rw [second, decide_eq_false other, Bool.and_false, if_neg Bool.false_ne_true]

end Codes

section Scan
variable {stream : List UInt8} {t n : Nat}

/-- The place at which the bytes begin that are not handed on yet. -/
def cutPlace (stream : List UInt8) (n : Nat) : Nat := (sweep stream n).2.getLastD 0

theorem sweep_quiet (quiet : (checkCode (sweep stream n).1 (stream.drop n)).1 = false) :
    sweep stream (n + 1) =
      ((checkCode (sweep stream n).1 (stream.drop n)).2, (sweep stream n).2) := by
  rw [sweep]
  dsimp only
  rw [if_neg]
  rintro ⟨found, _⟩
  rw [quiet] at found
  exact Bool.false_ne_true found

theorem sweep_found (found : (checkCode (sweep stream n).1 (stream.drop n)).1 = true)
    (later : 0 < n) :
    sweep stream (n + 2) =
      ((checkCode (sweep stream n).1 (stream.drop n)).2, (sweep stream n).2 ++ [n]) := by
  have one : sweep stream (n + 1) =
      ((checkCode (sweep stream n).1 (stream.drop n)).2, (sweep stream n).2 ++ [n]) := by
    rw [sweep]
    dsimp only
    rw [if_pos ⟨found, later⟩]
  have next := checkCode_next found (sweep stream (n + 1)).1
  rw [sweep_quiet (by rw [next]), next, one]

/-- The loop in the buffer is the scan of the stream: it comes to its end without a frame, or it
stops at the first place that has one. -/
theorem scanFrom_sweep {a pc left : Nat} (inside : 0 < left → a + pc + left + 10 ≤ t) :
    (scanFrom (Kit.slice stream a t) left (sweep stream (a + pc)).1 pc =
        (false, pc + left, (sweep stream (a + pc + left)).1) ∧
      (sweep stream (a + pc + left)).2 = (sweep stream (a + pc)).2 ∧
      (0 < left → (checkCode (sweep stream (a + pc)).1 (stream.drop (a + pc))).1 = false)) ∨
    ∃ m, pc ≤ m ∧ m < pc + left ∧
      (pc < m → (checkCode (sweep stream (a + pc)).1 (stream.drop (a + pc))).1 = false) ∧
      scanFrom (Kit.slice stream a t) left (sweep stream (a + pc)).1 pc =
        (true, m, (checkCode (sweep stream (a + m)).1 (stream.drop (a + m))).2) ∧
      (checkCode (sweep stream (a + m)).1 (stream.drop (a + m))).1 = true ∧
      (sweep stream (a + m)).2 = (sweep stream (a + pc)).2 := by
  induction left generalizing pc with
  | zero => exact .inl ⟨rfl, rfl, fun some => absurd some (Nat.lt_irrefl 0)⟩
  | succ left ih =>
    have room := inside (Nat.succ_pos left)
    have here : checkCode (sweep stream (a + pc)).1 ((Kit.slice stream a t).drop pc) =
        checkCode (sweep stream (a + pc)).1 (stream.drop (a + pc)) :=
      checkCode_slice (by omega)
    cases found : (checkCode (sweep stream (a + pc)).1 (stream.drop (a + pc))).1 with
    | true =>
      refine .inr ⟨pc, Nat.le_refl pc, by omega, fun more => absurd more (Nat.lt_irrefl pc), ?_,
        found, rfl⟩
      rw [scanFrom]
      dsimp only
      rw [here, if_pos found]
    | false =>
      have next := sweep_quiet found
      have round : scanFrom (Kit.slice stream a t) (left + 1) (sweep stream (a + pc)).1 pc =
          scanFrom (Kit.slice stream a t) left (sweep stream (a + (pc + 1))).1 (pc + 1) := by
        rw [scanFrom]
        dsimp only
        rw [here, found, if_neg Bool.false_ne_true, ← Nat.add_assoc, next]
      have rest := @ih (pc + 1) (fun _ => by omega)
      rw [round]
      rw [← Nat.add_assoc] at rest
      have places : (sweep stream (a + pc + 1)).2 = (sweep stream (a + pc)).2 := by
        rw [next]
      rcases rest with ⟨scan, same, _⟩ | ⟨m, late, early, _, scan, stop, same⟩
      · left
        have index : a + pc + (left + 1) = a + pc + 1 + left := by omega
        have last : pc + (left + 1) = pc + 1 + left := by omega
        rw [← Nat.add_assoc a pc 1, scan, index, last]
        exact ⟨rfl, same.trans places, fun _ => rfl⟩
      · exact .inr ⟨m, by omega, by omega, fun _ => rfl, scan, stop, same.trans places⟩

/-- How far the scan is when `t` bytes of the stream have come: `n` places are decided. -/
structure Scanned (stream : List UInt8) (t : Nat) (s : Splitter) (handed : List (List UInt8))
    (n : Nat) : Prop where
  whole : t ≤ stream.length
  buffer : s.buffer = Kit.slice stream (cutPlace stream n) t
  check : cutPlace stream n + s.check = n
  header : s.bHeader = (sweep stream n).1
  handed : handed = Kit.cutAt stream 0 (sweep stream n).2
  early : ∀ q ∈ (sweep stream n).2, q + 10 < t
  ahead : n = 0 ∨ cutPlace stream n < n
  behind : n = 0 ∨ n + 9 ≤ t ∧ 10 < t

theorem Scanned.length {s : Splitter} {handed : List (List UInt8)}
    (scanned : Scanned stream t s handed n) : s.buffer.length = t - cutPlace stream n := by
  rw [scanned.buffer]
  exact Kit.slice_length scanned.whole

theorem getFrame_none {s : Splitter} {pc : Nat} {h : Bool} (long : 10 < s.buffer.length)
    (scan : scanFrom s.buffer (s.buffer.length - 10 - s.check) s.bHeader s.check =
      (false, pc, h)) :
    s.getFrame = ({ s with bHeader := h, check := pc }, 0) := by
  unfold Splitter.getFrame
  rw [if_pos long]
  dsimp only
  rw [scan]
  rfl

theorem getFrame_some {s : Splitter} {pc : Nat} {h : Bool} (long : 10 < s.buffer.length)
    (scan : scanFrom s.buffer (s.buffer.length - 10 - s.check) s.bHeader s.check =
      (true, pc, h)) :
    s.getFrame = ({ s with bHeader := h, check := pc + 2 }, pc) := by
  unfold Splitter.getFrame
  rw [if_pos long]
  dsimp only
  rw [scan]
  rfl

theorem slice_take (stream : List UInt8) {a k t : Nat} (inside : a + k ≤ t) :
    (Kit.slice stream a t).take k = Kit.slice stream a (a + k) := by
  unfold Kit.slice
  rw [List.take_drop, List.take_take, Nat.min_eq_left inside]

theorem slice_drop (stream : List UInt8) (a k t : Nat) :
    (Kit.slice stream a t).drop k = Kit.slice stream (a + k) t := by
  unfold Kit.slice
  rw [List.drop_drop]

/-- The frame that ends at the next place is taken out of the buffer. -/
theorem scanned_frame {s : Splitter} {handed : List (List UInt8)} {k : Nat} {h : Bool}
    (scanned : Scanned stream t s handed n) (some : 0 < k)
    (inside : cutPlace stream n + k + 10 < t)
    (found : checkCode (sweep stream (cutPlace stream n + k)).1
      (stream.drop (cutPlace stream n + k)) = (true, h))
    (same : (sweep stream (cutPlace stream n + k)).2 = (sweep stream n).2) :
    Scanned stream t (Splitter.delData { s with bHeader := h, check := k + 2 } k)
      (handed ++ [s.buffer.take k]) (cutPlace stream n + k + 2) := by
  have length := scanned.length
  have next := sweep_found (congrArg Prod.fst found) (Nat.lt_of_lt_of_le some (Nat.le_add_left k _))
  rw [found, same] at next
  have place : cutPlace stream (cutPlace stream n + k + 2) = cutPlace stream n + k := by
    rw [cutPlace, next]
    exact List.getLastD_concat ..
  have kept : ¬ k > s.buffer.length := by omega
  have check : (Splitter.delData { s with bHeader := h, check := k + 2 } k).check = 2 := by
    unfold Splitter.delData
    dsimp only
    rw [if_neg kept]
    exact Nat.add_sub_cancel_left k 2
  constructor
  · exact scanned.whole
  · rw [delData_buffer, place]
    dsimp only
    rw [scanned.buffer, slice_drop]
  · rw [place, check]
  · rw [next]
    rfl
  · rw [next, Kit.cutAt_concat, ← scanned.handed, scanned.buffer, slice_take stream (by omega)]
    rfl
  · rw [next]
    intro q mem
    rcases List.mem_append.mp mem with old | new
    · exact scanned.early q old
    · rw [List.mem_singleton.mp new]
      exact inside
  · rw [place]
    exact .inr (by omega)
  · exact .inr (by omega)

/-- A code at the beginning of the stream gives a frame of no bytes. -/
theorem scanned_start {s : Splitter} {handed : List (List UInt8)} {h : Bool}
    (scanned : Scanned stream t s handed 0) (long : 10 < t)
    (found : checkCode true stream = (true, h)) :
    Scanned stream t { s with bHeader := h, check := 0 + 2 } handed 2 := by
  have one : sweep stream 1 = (h, []) := by
    rw [sweep]
    dsimp only
    rw [if_neg (fun both => absurd both.2 (Nat.lt_irrefl 0)), List.drop_zero]
    exact Prod.ext (congrArg Prod.snd found) rfl
  have next := @checkCode_next stream 0 true (congrArg Prod.fst found) h
  have two : sweep stream 2 = (h, []) := by
    have quiet := @sweep_quiet stream 1
    rw [one, next] at quiet
    exact quiet rfl
  have place : cutPlace stream 2 = 0 := by
    unfold cutPlace
    rw [two]
    rfl
  constructor
  · exact scanned.whole
  · rw [place]
    exact scanned.buffer
  · rw [place]
    rfl
  · rw [two]
  · rw [two]
    exact scanned.handed
  · rw [two]
    exact scanned.early
  · rw [place]
    exact .inr (by decide)
  · exact .inr (by omega)

/-- What the search for a frame does: nothing is found up to the look-ahead, or the frame up to
the next place, or the scan stops at the beginning of the stream. -/
theorem getFrame_scanned {s : Splitter} {handed : List (List UInt8)}
    (scanned : Scanned stream t s handed n) :
    (s.getFrame.2 = 0 ∧ ∃ n', n ≤ n' ∧ t ≤ n' + 10 ∧
        (n = 0 → 10 < t → (checkCode true stream).1 = false) ∧
        Scanned stream t s.getFrame.1 handed n') ∨
      (0 < s.getFrame.2 ∧ ∃ m, n ≤ m ∧
        (n = 0 → 10 < t → (checkCode true stream).1 = false) ∧
        Scanned stream t (s.getFrame.1.delData s.getFrame.2)
          (handed ++ [s.getFrame.1.buffer.take s.getFrame.2]) (m + 2)) ∨
      (s.getFrame.2 = 0 ∧ n = 0 ∧ 10 < t ∧ (checkCode true stream).1 = true ∧
        Scanned stream t s.getFrame.1 handed 2) := by
  have length := scanned.length
  have check := scanned.check
  by_cases long : 10 < s.buffer.length
  · have scan := @scanFrom_sweep stream t (cutPlace stream n) s.check
      (s.buffer.length - 10 - s.check) (by omega)
    rw [check, ← scanned.buffer, ← scanned.header] at scan
    have first : n = 0 → cutPlace stream n = 0 ∧ s.check = 0 := by
      rintro rfl
      exact Nat.add_eq_zero_iff.mp check
    have ahead := scanned.ahead
    have behind := scanned.behind
    rcases scan with ⟨scan, same, quiet⟩ | ⟨k, late, early, quiet, scan, found, same⟩
    · left
      rw [getFrame_none long scan]
      have place : cutPlace stream (n + (s.buffer.length - 10 - s.check)) = cutPlace stream n := by
        unfold cutPlace
        rw [same]
      refine ⟨rfl, n + (s.buffer.length - 10 - s.check), Nat.le_add_right n _, by omega, ?_, ?_⟩
      · intro start _
        have left := quiet (by omega)
        rw [scanned.header, start] at left
        exact left
      constructor
      · exact scanned.whole
      · rw [place]
        exact scanned.buffer
      · rw [place]
        dsimp only
        omega
      · rfl
      · rw [same]
        exact scanned.handed
      · rw [same]
        exact scanned.early
      · rw [place]
        omega
      · omega
    · right
      rw [getFrame_some long scan]
      rcases Nat.eq_zero_or_pos k with rfl | some
      · right
        have start : n = 0 := by omega
        cases start
        exact ⟨rfl, rfl, by omega, found, scanned_start scanned (by omega) (Prod.ext found rfl)⟩
      · left
        refine ⟨some, cutPlace stream n + k, by omega, ?_, ?_⟩
        · intro start _
          have left := quiet (by omega)
          rw [scanned.header, start] at left
          exact left
        · exact scanned_frame scanned some (by omega) (Prod.ext found rfl) same
  · left
    have short : s.getFrame = (s, 0) := by
      unfold Splitter.getFrame
      rw [if_neg long]
    rw [short]
    refine ⟨rfl, n, Nat.le_refl n, by omega, ?_, scanned⟩
    rintro rfl
    have none : cutPlace stream 0 = 0 := rfl
    omega

/-- One call: all that has come is scanned up to the look-ahead, unless the scan stops at the
beginning of the stream. -/
theorem decode_scanned {s : Splitter} {handed : List (List UInt8)}
    (scanned : Scanned stream t s handed n) :
    (∃ n', n ≤ n' ∧ t ≤ n' + 10 ∧ (n = 0 → 10 < t → (checkCode true stream).1 = false) ∧
        Scanned stream t (decodeFrames s).1 (handed ++ (decodeFrames s).2) n') ∨
      (n = 0 ∧ 10 < t ∧ (checkCode true stream).1 = true ∧ (decodeFrames s).2 = [] ∧
        Scanned stream t (decodeFrames s).1 handed 2) := by
  fun_induction decodeFrames s generalizing handed n with
  | case1 s some szLen frame rest frames =>
    rename_i result ih
    rw [result] at ih
    rcases getFrame_scanned scanned with ⟨zero, _⟩ | ⟨_, m, late, quiet, next⟩ |
      ⟨zero, _⟩
    · omega
    · rcases ih next with ⟨n', later, stop, _, still⟩ | ⟨start, _⟩
      · left
        rw [List.append_assoc] at still
        exact ⟨n', by omega, stop, quiet, still⟩
      · omega
    · omega
  | case2 s none =>
    rcases getFrame_scanned scanned with ⟨_, n', late, stop, quiet, still⟩ | ⟨some, _⟩ |
      ⟨_, start, long, found, still⟩
    · left
      rw [List.append_nil]
      exact ⟨n', late, stop, quiet, still⟩
    · exact absurd some none
    · exact .inr ⟨start, long, found, rfl, still⟩

/-- A piece that fits behind the bytes in the buffer only makes the stream longer. -/
theorem addData_scanned {s : Splitter} {handed : List (List UInt8)} {chunk rest : List UInt8}
    (scanned : Scanned stream t s handed n) (fits : s.buffer.length + chunk.length ≤ s.szMaxLength)
    (next : stream.drop t = chunk ++ rest) :
    Scanned stream (t + chunk.length) (s.addData chunk) handed n := by
  have whole := scanned.whole
  have remaining := congrArg List.length next
  rw [List.length_drop, List.length_append] at remaining
  have added : s.addData chunk = { s with buffer := s.buffer ++ chunk } := by
    unfold Splitter.addData
    rw [if_neg (by omega)]
    dsimp only
    rw [if_neg (by omega)]
  rw [added]
  constructor
  · omega
  · dsimp only
    have inside : cutPlace stream n ≤ t := by
      rcases List.mem_cons.mp (@List.getLastD_mem_cons _ (sweep stream n).2 0) with zero | mem
      · unfold cutPlace
        omega
      · have := scanned.early _ mem
        unfold cutPlace
        omega
    rw [scanned.buffer]
    unfold Kit.slice
    rw [List.take_add, next, List.take_left, List.drop_append_of_le_length]
    rw [List.length_take]
    omega
  · exact scanned.check
  · exact scanned.header
  · exact scanned.handed
  · intro q mem
    have := scanned.early q mem
    omega
  · exact scanned.ahead
  · have := scanned.behind
    omega

end Scan

section Runs

/-- No piece makes the splitter throw bytes away. -/
def Fits : Splitter → List (List UInt8) → Prop
  | _, [] => True
  | s, chunk :: rest =>
    s.buffer.length + chunk.length ≤ s.szMaxLength ∧ Fits (vmp4decPrepare s chunk).1 rest

theorem prepareAll_concat (s : Splitter) (chunks : List (List UInt8)) (chunk : List UInt8) :
    prepareAll s (chunks ++ [chunk]) =
      ((vmp4decPrepare (prepareAll s chunks).1 chunk).1,
        (prepareAll s chunks).2 ++ (vmp4decPrepare (prepareAll s chunks).1 chunk).2) := by
  induction chunks generalizing s with
  | nil =>
    show (_, _ ++ []) = (_, [] ++ _)
    rw [List.append_nil]
    rfl
  | cons first rest ih =>
    rw [List.cons_append, prepareAll]
    dsimp only
    rw [ih, prepareAll, List.append_assoc]

theorem fits_concat {s : Splitter} {chunks : List (List UInt8)} {chunk : List UInt8}
    (fits : Fits s (chunks ++ [chunk])) :
    Fits s chunks ∧ (prepareAll s chunks).1.buffer.length + chunk.length ≤
      (prepareAll s chunks).1.szMaxLength := by
  induction chunks generalizing s with
  | nil => exact ⟨trivial, fits.1⟩
  | cons first rest ih =>
    obtain ⟨here, later⟩ := fits
    obtain ⟨before, last⟩ := ih later
    exact ⟨⟨here, before⟩, last⟩

variable {stream : List UInt8} {szMaxLength : Nat}

/-- What holds after the calls for some pieces at the beginning of the stream. -/
theorem run_scanned (chunks : List (List UInt8)) {rest : List UInt8}
    (whole : stream = chunks.flatten ++ rest) (fits : Fits (.init szMaxLength) chunks) :
    ∃ n, Scanned stream chunks.flatten.length (prepareAll (.init szMaxLength) chunks).1
        (prepareAll (.init szMaxLength) chunks).2 n ∧
      (n = 0 → chunks.flatten.length ≤ 10) := by
  induction chunks using List.reverseRecOn generalizing rest with
  | nil =>
    refine ⟨0, ?_, fun _ => by decide⟩
    constructor
    · exact Nat.zero_le _
    · rfl
    · rfl
    · rfl
    · rfl
    · rintro _ ⟨⟩
    · exact .inl rfl
    · exact .inl rfl
  | append_singleton chunks chunk ih =>
    obtain ⟨before, last⟩ := fits_concat fits
    rw [List.flatten_append, List.flatten_singleton, List.append_assoc] at whole
    obtain ⟨n, scanned, short⟩ := ih whole before
    have next : stream.drop chunks.flatten.length = chunk ++ rest := by
      rw [whole, List.drop_left]
    have added := addData_scanned scanned last next
    rw [prepareAll_concat, List.flatten_append, List.flatten_singleton, List.length_append]
    rcases decode_scanned added with ⟨n', late, stop, _, still⟩ | ⟨start, long, found, none, still⟩
    · exact ⟨n', still, by omega⟩
    · refine ⟨2, ?_, by omega⟩
      unfold vmp4decPrepare
      rw [none, List.append_nil]
      exact still

/-- The scan stops at the beginning of the stream, and no piece comes after that. -/
def Stuck (stream : List UInt8) (chunks : List (List UInt8)) : Prop :=
  (checkCode true stream).1 = true ∧ chunks.dropLast.flatten.length ≤ 10

/-- What is handed on after the last piece. -/
theorem run_handed {chunks : List (List UInt8)} (whole : chunks.flatten = stream)
    (fits : Fits (.init szMaxLength) chunks) :
    (Stuck stream chunks → (prepareAll (.init szMaxLength) chunks).2 = []) ∧
      (¬ Stuck stream chunks → ∃ n, stream.length ≤ n + 10 ∧
        (∀ q ∈ (sweep stream n).2, q + 10 < stream.length) ∧
        (prepareAll (.init szMaxLength) chunks).2 = Kit.cutAt stream 0 (sweep stream n).2) := by
  rcases List.eq_nil_or_concat' chunks with rfl | ⟨before, last, rfl⟩
  · cases whole
    refine ⟨fun _ => rfl, fun _ => ⟨0, Nat.zero_le _, ?_, rfl⟩⟩
    rintro _ ⟨⟩
  · obtain ⟨fitsBefore, fitsLast⟩ := fits_concat fits
    rw [List.flatten_append, List.flatten_singleton] at whole
    obtain ⟨n, scanned, short⟩ := run_scanned before whole.symm fitsBefore
    have next : stream.drop before.flatten.length = last ++ [] := by
      rw [← whole, List.drop_left, List.append_nil]
    have added := addData_scanned scanned fitsLast next
    have length : before.flatten.length + last.length = stream.length := by
      rw [← whole, List.length_append]
    unfold Stuck
    rw [prepareAll_concat, List.dropLast_concat]
    rw [length] at added
    have handed : n = 0 → (prepareAll (.init szMaxLength) before).2 = [] := by
      rintro rfl
      exact scanned.handed
    rcases decode_scanned added with ⟨n', late, stop, quiet, still⟩ |
      ⟨start, long, found, none, still⟩
    · refine ⟨?_, fun _ => ⟨n', stop, still.early, still.handed⟩⟩
      rintro ⟨found, few⟩
      have first : n = 0 := by
        have := scanned.behind
        omega
      have few : ¬ 10 < stream.length := by
        intro long
        rw [quiet first long] at found
        exact Bool.false_ne_true found
      have none : (sweep stream n').2 = [] := by
        apply List.eq_nil_iff_forall_not_mem.mpr
        intro q mem
        have := still.early q mem
        omega
      have result := still.handed
      rw [none] at result
      exact result
    · constructor
      · intro _
        dsimp only
        unfold vmp4decPrepare
        rw [none, handed start]
        rfl
      · intro stuck
        exact absurd ⟨found, short start⟩ stuck

end Runs

/-- Where the planes of a stream begin, from a place on. -/
def startsFrom : Nat → List (List UInt8) → List Nat
  | _, [] => []
  | place, plane :: rest => place :: startsFrom (place + plane.length) rest

/-- An elementary stream: a header and planes. The start code of a plane stands where a plane
begins and nowhere else, that of a sequence at the beginning of the stream only. -/
structure ElementaryStream where
  header : List UInt8
  planes : List (List UInt8)
  some : ∀ plane ∈ planes, plane ≠ []
  plane : ∀ q, [0x00, 0x00, 0x01, 0xB6] <+: (header ++ planes.flatten).drop q ↔
    q ∈ startsFrom header.length planes
  sequence : ∀ q, 0 < q → ¬ [0x00, 0x00, 0x01, 0xB0] <+: (header ++ planes.flatten).drop q

def ElementaryStream.bytes (e : ElementaryStream) : List UInt8 := e.header ++ e.planes.flatten

/-- The complete frames: the header with the first plane, then each following plane, up to the
last that is followed by another. -/
def ElementaryStream.frames (e : ElementaryStream) : List (List UInt8) :=
  match e.planes with
  | [] => []
  | first :: rest => ((e.header ++ first) :: rest).dropLast

/-- Where the planes after the first begin. -/
def ElementaryStream.later (e : ElementaryStream) : List Nat :=
  (startsFrom e.header.length e.planes).tail

/-- Two bytes 0 and one from 16 on, with which a picture of H.263 may begin. -/
def LookAlike (stream : List UInt8) (q : Nat) : Prop :=
  byteAt (stream.drop q) 0 = 0x00 ∧ byteAt (stream.drop q) 1 = 0x00 ∧
    byteAt (stream.drop q) 2 &&& 0xF0 ≠ 0

/-- The streams and the ways to cut them for which the frames are right. -/
structure Clean (e : ElementaryStream) (chunks : List (List UInt8)) : Prop where
  planes : e.later = [] ∨ ¬ Stuck e.bytes chunks ∧ ∀ q ∈ e.later, q + 10 < e.bytes.length
  codes : ¬ Stuck e.bytes chunks →
    ∀ q, 0 < q → q + 10 < e.bytes.length → ¬ LookAlike e.bytes q

section Streams
variable {stream : List UInt8}

theorem planeCode_iff (pc : List UInt8) :
    [0x00, 0x00, 0x01, 0xB6] <+: pc ↔
      byteAt pc 0 = 0x00 ∧ byteAt pc 1 = 0x00 ∧ isPlane pc = true := by
  unfold isPlane byteAt
  rcases pc with _ | ⟨a, _ | ⟨b, _ | ⟨c, _ | ⟨d, rest⟩⟩⟩⟩
  · simp
  · simp
  · simp
  · simp
  · simp
    grind

theorem sequenceCode_of {pc : List UInt8} (zero : byteAt pc 0 = 0x00) (zero' : byteAt pc 1 = 0x00)
    (code : isSequence pc = true) : [0x00, 0x00, 0x01, 0xB0] <+: pc := by
  unfold isSequence byteAt at *
  rcases pc with _ | ⟨a, _ | ⟨b, _ | ⟨c, _ | ⟨d, rest⟩⟩⟩⟩
  · simp at code
  · simp at code
  · simp at code
  · simp at code
  · simp at *
    grind

/-- The start code of a plane. -/
def PlaneAt (stream : List UInt8) (q : Nat) : Prop :=
  [0x00, 0x00, 0x01, 0xB6] <+: stream.drop q

theorem plane_notAlike {q : Nat} (plane : PlaneAt stream q) : ¬ LookAlike stream q := by
  obtain ⟨_, _, code⟩ := (planeCode_iff _).mp plane
  rintro ⟨_, _, alike⟩
  unfold isPlane at code
  have one := of_decide_eq_true (Bool.and_eq_true_iff.mp code).1
  rw [one] at alike
  exact alike (by decide)

/-- A round at a place without the code of a sequence. -/
theorem checkCode_plain {q : Nat} (h : Bool)
    (none : ¬ [0x00, 0x00, 0x01, 0xB0] <+: stream.drop q) :
    ((checkCode h (stream.drop q)).1 = true ↔
        LookAlike stream q ∨ PlaneAt stream q ∧ h = false) ∧
      ((checkCode h (stream.drop q)).2 = true ↔ h = true ∧ ¬ PlaneAt stream q) := by
  have alike := @plane_notAlike stream q
  have sequence : ∀ _ : byteAt (stream.drop q) 0 = 0x00, ∀ _ : byteAt (stream.drop q) 1 = 0x00,
      isSequence (stream.drop q) = false := by
    intro zero zero'
    cases code : isSequence (stream.drop q) with
    | false => rfl
    | true => exact absurd (sequenceCode_of zero zero' code) none
  unfold PlaneAt at *
  rw [planeCode_iff] at *
  unfold LookAlike at *
  unfold checkCode
  by_cases zeros : byteAt (stream.drop q) 0 = 0x00 ∧ byteAt (stream.drop q) 1 = 0x00
  · obtain ⟨zero, zero'⟩ := zeros
    rw [sequence zero zero', zero, zero']
    unfold isH263
    cases plane : isPlane (stream.drop q) <;> cases h <;> simp_all
  · simp only [Bool.and_eq_true, decide_eq_true_eq]
    rw [if_neg zeros]
    constructor
    · constructor
      · rintro ⟨⟩
      · rintro (⟨zero, zero', _⟩ | ⟨⟨zero, zero', _⟩, _⟩)
        · exact absurd ⟨zero, zero'⟩ zeros
        · exact absurd ⟨zero, zero'⟩ zeros
    · constructor
      · intro on
        exact ⟨on, fun ⟨zero, zero', _⟩ => zeros ⟨zero, zero'⟩⟩
      · exact And.left

/-- The code of a sequence at the beginning leaves `bHeader` as it is. -/
theorem checkCode_sequence (sequence : [0x00, 0x00, 0x01, 0xB0] <+: stream) :
    (checkCode true stream).2 = true ∧ ¬ PlaneAt stream 0 := by
  obtain ⟨rest, rfl⟩ := sequence
  constructor
  · unfold checkCode isSequence isPlane isH263 byteAt
    simp
    grind
  · unfold PlaneAt
    rw [List.drop_zero]
    rintro ⟨_, same⟩
    cases same

end Streams

section Places
variable (e : ElementaryStream)

theorem sweep_header (n : Nat) :
    (sweep e.bytes n).1 = true ↔ ∀ r, r < n → ¬ PlaneAt e.bytes r := by
  induction n with
  | zero => exact iff_of_true rfl (fun r early => absurd early (Nat.not_lt_zero r))
  | succ n ih =>
    have step : (sweep e.bytes (n + 1)).1 = true ↔
        (sweep e.bytes n).1 = true ∧ ¬ PlaneAt e.bytes n := by
      show (checkCode (sweep e.bytes n).1 (e.bytes.drop n)).2 = true ↔ _
      by_cases sequence : [0x00, 0x00, 0x01, 0xB0] <+: e.bytes.drop n
      · have start : n = 0 := by
          by_contra later
          exact e.sequence n (Nat.pos_of_ne_zero later) sequence
        cases start
        exact iff_of_true (checkCode_sequence sequence).1 ⟨rfl, (checkCode_sequence sequence).2⟩
      · exact (checkCode_plain _ sequence).2
    rw [step, ih]
    constructor
    · rintro ⟨before, here⟩ r early
      rcases Nat.lt_succ_iff_lt_or_eq.mp early with old | rfl
      · exact before r old
      · exact here
    · intro all
      exact ⟨fun r early => all r (by omega), all n (Nat.lt_succ_self n)⟩

/-- The places found are those of look-alikes and of planes after the first. -/
theorem sweep_places (n q : Nat) :
    q ∈ (sweep e.bytes n).2 ↔ 0 < q ∧ q < n ∧ (LookAlike e.bytes q ∨
      PlaneAt e.bytes q ∧ ∃ r, r < q ∧ PlaneAt e.bytes r) := by
  induction n with
  | zero =>
    constructor
    · rintro ⟨⟩
    · rintro ⟨_, none, _⟩
      exact absurd none (Nat.not_lt_zero q)
  | succ n ih =>
    have header := sweep_header e n
    have seen : (sweep e.bytes n).1 = false ↔ ∃ r, r < n ∧ PlaneAt e.bytes r := by
      rw [← Bool.not_eq_true, header]
      simp only [not_forall, not_not, exists_prop]
    have found : 0 < n → ((checkCode (sweep e.bytes n).1 (e.bytes.drop n)).1 = true ↔
        LookAlike e.bytes n ∨ PlaneAt e.bytes n ∧ ∃ r, r < n ∧ PlaneAt e.bytes r) := by
      intro later
      rw [← seen]
      exact (checkCode_plain _ (e.sequence n later)).1
    have step : q ∈ (sweep e.bytes (n + 1)).2 ↔ q ∈ (sweep e.bytes n).2 ∨
        q = n ∧ 0 < n ∧ (checkCode (sweep e.bytes n).1 (e.bytes.drop n)).1 = true := by
      rw [sweep]
      dsimp only
      split
      · rename_i both
        rw [List.mem_append, List.mem_singleton]
        constructor
        · rintro (old | here)
          · exact .inl old
          · exact .inr ⟨here, both.2, both.1⟩
        · rintro (old | ⟨here, _⟩)
          · exact .inl old
          · exact .inr here
      · rename_i neither
        constructor
        · exact .inl
        · rintro (old | ⟨_, later, here⟩)
          · exact old
          · exact absurd ⟨here, later⟩ neither
    rw [step, ih]
    constructor
    · rintro (⟨later, early, codes⟩ | ⟨rfl, later, here⟩)
      · exact ⟨later, by omega, codes⟩
      · exact ⟨later, Nat.lt_succ_self q, (found later).mp here⟩
    · rintro ⟨later, early, codes⟩
      rcases Nat.lt_succ_iff_lt_or_eq.mp early with old | rfl
      · exact .inl ⟨later, old, codes⟩
      · exact .inr ⟨rfl, later, (found later).mpr codes⟩

theorem sweep_rising (stream : List UInt8) (n : Nat) :
    (0 :: (sweep stream n).2).Pairwise (· < ·) ∧ ∀ q ∈ (sweep stream n).2, q < n := by
  induction n with
  | zero => exact ⟨List.pairwise_singleton _ 0, by rintro _ ⟨⟩⟩
  | succ n ih =>
    obtain ⟨rising, early⟩ := ih
    rw [sweep]
    dsimp only
    split
    · rename_i both
      constructor
      · rw [← List.cons_append]
        apply List.pairwise_append.mpr
        refine ⟨rising, List.pairwise_singleton _ n, ?_⟩
        intro p mem q last
        rw [List.mem_singleton.mp last]
        rcases List.mem_cons.mp mem with rfl | old
        · exact both.2
        · exact early p old
      · intro q mem
        rcases List.mem_append.mp mem with old | last
        · have := early q old
          omega
        · rw [List.mem_singleton.mp last]
          exact Nat.lt_succ_self n
    · exact ⟨rising, fun q mem => Nat.lt_succ_of_lt (early q mem)⟩

theorem starts_bounds {planes : List (List UInt8)} {place : Nat} :
    ∀ q ∈ startsFrom place planes, place ≤ q ∧ q ≤ place + planes.flatten.length := by
  induction planes generalizing place with
  | nil => rintro _ ⟨⟩
  | cons plane rest ih =>
    intro q mem
    rw [List.flatten_cons, List.length_append]
    rcases List.mem_cons.mp mem with rfl | later
    · omega
    · have := ih q later
      omega

theorem starts_rising {planes : List (List UInt8)} {place : Nat}
    (some : ∀ plane ∈ planes, plane ≠ []) : (startsFrom place planes).Pairwise (· < ·) := by
  induction planes generalizing place with
  | nil => exact List.Pairwise.nil
  | cons plane rest ih =>
    obtain ⟨here, others⟩ := List.forall_mem_cons.mp some
    refine List.pairwise_cons.mpr ⟨?_, ih others⟩
    intro q mem
    have := starts_bounds q mem
    have := List.length_pos_iff.mpr here
    omega

theorem mem_later (q : Nat) :
    q ∈ e.later ↔ PlaneAt e.bytes q ∧ ∃ r, r < q ∧ PlaneAt e.bytes r := by
  have places : ∀ r, PlaneAt e.bytes r ↔ r ∈ startsFrom e.header.length e.planes := e.plane
  have rising := @starts_rising e.planes e.header.length e.some
  simp only [places]
  unfold ElementaryStream.later
  cases starts : startsFrom e.header.length e.planes with
  | nil =>
    constructor
    · rintro ⟨⟩
    · rintro ⟨⟨⟩, _⟩
  | cons first rest =>
    rw [starts] at rising
    obtain ⟨above, _⟩ := List.pairwise_cons.mp rising
    rw [List.tail_cons]
    constructor
    · intro mem
      exact ⟨List.mem_cons_of_mem _ mem, first, above q mem, List.mem_cons_self⟩
    · rintro ⟨mem, r, less, other⟩
      rcases List.mem_cons.mp mem with rfl | mem
      · rcases List.mem_cons.mp other with rfl | other
        · omega
        · have := above r other
          omega
      · exact mem

/-- The complete frames are the stream, cut where the planes after the first begin. -/
theorem cut_planes (planes : List (List UInt8)) {before : List UInt8} {a : Nat}
    (inside : a ≤ before.length) :
    Kit.cutAt (before ++ planes.flatten) a (startsFrom before.length planes) =
      (before.drop a :: planes).dropLast := by
  induction planes generalizing before a with
  | nil => rfl
  | cons plane rest ih =>
    have next := @ih (before ++ plane) before.length (by rw [List.length_append]; omega)
    rw [List.append_assoc, List.length_append, List.drop_left] at next
    rw [startsFrom, Kit.cutAt, List.flatten_cons, next, List.dropLast_cons_cons]
    unfold Kit.slice
    rw [List.take_left]

theorem frames_cut : e.frames = Kit.cutAt e.bytes 0 e.later := by
  unfold ElementaryStream.frames ElementaryStream.bytes ElementaryStream.later
  cases e.planes with
  | nil => rfl
  | cons first rest =>
    have cut := @cut_planes rest (e.header ++ first) 0 (Nat.zero_le _)
    rw [List.append_assoc, List.length_append, List.drop_zero] at cut
    rw [startsFrom, List.tail_cons, List.flatten_cons, cut]

end Places

/-- While no piece makes the splitter throw bytes away, the frames handed to the decoder are the
complete frames of the stream just when the stream and its pieces are clean. -/
theorem frames_handed_iff {e : ElementaryStream} {chunks : List (List UInt8)} {szMaxLength : Nat}
    (whole : chunks.flatten = e.bytes) (fits : Fits (.init szMaxLength) chunks) :
    (prepareAll (.init szMaxLength) chunks).2 = e.frames ↔ Clean e chunks := by
  obtain ⟨stuck, free⟩ := run_handed whole fits
  have places := mem_later e
  rw [frames_cut]
  by_cases blocked : Stuck e.bytes chunks
  · rw [stuck blocked]
    constructor
    · intro same
      refine ⟨?_, fun free => absurd blocked free⟩
      cases later : e.later with
      | nil => exact .inl rfl
      | cons q rest =>
        rw [later] at same
        cases same
    · rintro ⟨planes, _⟩
      rcases planes with none | ⟨free, _⟩
      · rw [none]
        rfl
      · exact absurd blocked free
  · obtain ⟨n, stop, early, handed⟩ := free blocked
    have found := sweep_places e n
    obtain ⟨rising, _⟩ := sweep_rising e.bytes n
    rw [handed]
    have laterRising : (0 :: e.later).Pairwise (· < ·) := by
      refine List.pairwise_cons.mpr ⟨?_, (starts_rising e.some).tail⟩
      intro q mem
      obtain ⟨_, r, less, _⟩ := (places q).mp mem
      omega
    have laterInside : ∀ q ∈ e.later, q ≤ e.bytes.length := by
      intro q mem
      have bound := (starts_bounds q (List.mem_of_mem_tail mem)).2
      unfold ElementaryStream.bytes
      rw [List.length_append]
      exact bound
    constructor
    · intro same
      have equal : (sweep e.bytes n).2 = e.later :=
        Kit.cutAt_inj rising laterRising (fun q mem => by have := early q mem; omega) laterInside
          same
      refine ⟨.inr ⟨blocked, ?_⟩, ?_⟩
      · intro q mem
        rw [← equal] at mem
        exact early q mem
      · intro _ q later inside alike
        have mem : q ∈ (sweep e.bytes n).2 := (found q).mpr ⟨later, by omega, .inl alike⟩
        rw [equal] at mem
        exact plane_notAlike ((places q).mp mem).1 alike
    · rintro ⟨planes, codes⟩
      have equal : (sweep e.bytes n).2 = e.later := by
        apply List.Pairwise.eq_of_mem_iff (List.pairwise_cons.mp rising).2
          (List.pairwise_cons.mp laterRising).2
        intro q
        constructor
        · intro mem
          obtain ⟨later, _, code⟩ := (found q).mp mem
          rcases code with alike | plane
          · exact absurd alike (codes blocked q later (early q mem))
          · exact (places q).mpr plane
        · intro mem
          have plane := (places q).mp mem
          obtain ⟨r, less, _⟩ := plane.2
          have inside : q + 10 < e.bytes.length := by
            rcases planes with none | ⟨_, all⟩
            · rw [none] at mem
              cases mem
            · exact all q mem
          exact (found q).mpr ⟨by omega, by omega, .inr plane⟩
      rw [equal]

section Example

def someHeader : List UInt8 := [0, 0, 1, 0xB0, 1, 0, 0, 1, 0xB5, 9]
def somePlane : List UInt8 := [0, 0, 1, 0xB6, 17, 34, 51, 68, 85, 102, 119, 136]

theorem somePlanes_nonempty : ∀ plane ∈ [somePlane, somePlane], plane ≠ [] := by decide

theorem somePlanes_codes (q : Nat) :
    [0x00, 0x00, 0x01, 0xB6] <+: (someHeader ++ [somePlane, somePlane].flatten).drop q ↔
      q ∈ startsFrom someHeader.length [somePlane, somePlane] := by
  rcases Nat.lt_or_ge q 34 with small | large
  · have all : ∀ q : Fin 34,
        ([0x00, 0x00, 0x01, 0xB6] <+: (someHeader ++ [somePlane, somePlane].flatten).drop q.val ↔
          q.val ∈ startsFrom someHeader.length [somePlane, somePlane]) := by decide +kernel
    exact all ⟨q, small⟩
  · have short : (someHeader ++ [somePlane, somePlane].flatten).length ≤ q := large
    rw [List.drop_eq_nil_of_le short]
    apply iff_of_false
    · decide
    · intro mem
      have starts : q = 10 ∨ q = 22 ∨ q ∈ [] := by
        rcases List.mem_cons.mp mem with first | rest
        · exact .inl first
        · exact .inr (List.mem_cons.mp rest)
      rcases starts with rfl | rfl | none
      · omega
      · omega
      · cases none

theorem someHeader_once (q : Nat) (later : 0 < q) :
    ¬ [0x00, 0x00, 0x01, 0xB0] <+: (someHeader ++ [somePlane, somePlane].flatten).drop q := by
  rcases Nat.lt_or_ge q 34 with small | large
  · have all : ∀ q : Fin 34, 0 < q.val → ¬ [0x00, 0x00, 0x01, 0xB0] <+:
        (someHeader ++ [somePlane, somePlane].flatten).drop q.val := by decide +kernel
    exact all ⟨q, small⟩ later
  · have short : (someHeader ++ [somePlane, somePlane].flatten).length ≤ q := large
    rw [List.drop_eq_nil_of_le short]
    decide

/-- A header and two planes. -/
def twoPlanes : ElementaryStream where
  header := someHeader
  planes := [somePlane, somePlane]
  some := somePlanes_nonempty
  plane := somePlanes_codes
  sequence := someHeader_once

theorem frames_handed_halves :
    (prepareAll (.init 64) [twoPlanes.bytes.take 12, twoPlanes.bytes.drop 12]).2 =
        twoPlanes.frames ↔
      Clean twoPlanes [twoPlanes.bytes.take 12, twoPlanes.bytes.drop 12] :=
  frames_handed_iff (by decide) ⟨by decide, by decide +kernel, trivial⟩

/-- In one piece the stream gives no frame: the scan stops at the header. -/
theorem one_piece_stuck :
    (prepareAll (.init 64) [twoPlanes.bytes]).2 = [] ∧
      twoPlanes.frames = [someHeader ++ somePlane] ∧
      (prepareAll (.init 64) [twoPlanes.bytes.take 12, twoPlanes.bytes.drop 12]).2 =
        twoPlanes.frames := by
  decide +kernel

end Example

end Rovio.VideoPhone
