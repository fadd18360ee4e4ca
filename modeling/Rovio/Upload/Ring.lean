import Rovio.Kit.Cycles

/-! The ring buffer of the multipart parser. One place stays free, a full ring
drops its oldest character, and `MPClean` moves the characters to the start of
the buffer by following the cycles of the rotation. -/
namespace Rovio.Upload
open Kit

/-- `pcBufDataHeader` and `pcBufDataEnd` as indices into `acBuf`. -/
structure Ring where
  pcBufDataHeader : Nat
  pcBufDataEnd : Nat
  acBuf : Nat → UInt8

/-! `iBufLen` is the size of `acBuf`. -/

section
variable (iBufLen : Nat)

def mpAddChar (r : Ring) (ch : UInt8) : Ring :=
  let pcNewDataEnd := if r.pcBufDataEnd + 1 = iBufLen then 0 else r.pcBufDataEnd + 1
  { pcBufDataHeader :=
      if pcNewDataEnd = r.pcBufDataHeader then
        if r.pcBufDataHeader + 1 = iBufLen then 0 else r.pcBufDataHeader + 1
      else r.pcBufDataHeader
    pcBufDataEnd := pcNewDataEnd
    acBuf := Function.update r.acBuf r.pcBufDataEnd ch }

def gcd (x y : Nat) : Nat :=
  if x = 0 then y
  else if y = 0 then x
  else if y < x then gcd (x % y) y
  else gcd x (y % x)
termination_by x + y
decreasing_by
  · have := Nat.mod_lt x (y := y) (by omega)
    omega
  · have := Nat.mod_lt y (y := x) (by omega)
    omega

/-- The inner loop of `MPClean`, with `j` rounds to go; it also returns the last `iPos`. -/
def moveChars (iMove : Nat) : Nat → (Nat → UInt8) → Nat → Nat → (Nat → UInt8) × Nat
  | 0, pcBuf, iPos, _ => (pcBuf, iPos)
  | j + 1, pcBuf, _, iPosPre =>
    let next := if iBufLen ≤ iPosPre + iMove then iPosPre + iMove - iBufLen else iPosPre + iMove
    moveChars iMove j (Function.update pcBuf iPosPre (pcBuf next)) iPosPre next

def moveCycle (iMove iEachMove : Nat) (pcBuf : Nat → UInt8) (i : Nat) : Nat → UInt8 :=
  let c := pcBuf i
  let (moved, iPos) := moveChars iBufLen iMove iEachMove pcBuf i i
  Function.update moved iPos c

def mpClean (r : Ring) : Ring :=
  let iValidLen := r.pcBufDataEnd + iBufLen - r.pcBufDataHeader
  let iValidLen := if iBufLen < iValidLen then iValidLen - iBufLen else iValidLen
  let iMove := ((iBufLen - r.pcBufDataHeader) % iBufLen + iBufLen) % iBufLen
  if iMove = 0 then r
  else
    let iComDiv := gcd iMove iBufLen
    let iEachMove := iBufLen / iComDiv
    let iMove := iBufLen - iMove
    { pcBufDataHeader := 0
      pcBufDataEnd := iValidLen
      acBuf := (List.range iComDiv).foldl (moveCycle iBufLen iMove iEachMove) r.acBuf }

def mpClear (r : Ring) : Ring := { r with pcBufDataHeader := 0, pcBufDataEnd := 0 }

/-- The characters of `len` places from `start` on, around the buffer. -/
def places (start len : Nat) (buf : Nat → UInt8) : List UInt8 :=
  (List.range len).map (fun i => buf ((start + i) % iBufLen))

/-- The buffered characters, oldest first. -/
def Ring.contents (r : Ring) : List UInt8 :=
  places iBufLen r.pcBufDataHeader
    ((r.pcBufDataEnd + iBufLen - r.pcBufDataHeader) % iBufLen) r.acBuf

/-- Both indices lie in the buffer. -/
structure Ring.Valid (r : Ring) : Prop where
  header : r.pcBufDataHeader < iBufLen
  dataEnd : r.pcBufDataEnd < iBufLen

end

theorem gcd_eq (x y : Nat) : gcd x y = Nat.gcd x y := by
  induction x, y using gcd.induct with
  | case1 y =>
    unfold gcd
    simp
  | case2 x hx =>
    unfold gcd
    simp [hx]
  | case3 x y hx hy less ih =>
    unfold gcd
    simp only [hx, hy, less, ih, if_false, if_true]
    rw [← Nat.gcd_rec, Nat.gcd_comm]
  | case4 x y hx hy less ih =>
    unfold gcd
    simp only [hx, hy, less, ih, if_false]
    rw [Nat.gcd_comm, ← Nat.gcd_rec]

variable {n h : Nat}

/-- The loop has stored, for each place but the last one of the cycle, its successor. -/
structure Moved (n h i k : Nat) (old new : Nat → UInt8) : Prop where
  done : ∀ t < k, t + 1 < n / Nat.gcd h n → new ((i + t * h) % n) = old ((i + (t + 1) * h) % n)
  rest : ∀ p, (∀ t < k, (i + t * h) % n ≠ p) → new p = old p

/-- The wrapped index of the loop is the next place of the cycle. -/
theorem next_place (i k : Nat) (hn : 0 < n) (hh : h < n) :
    (if n ≤ (i + k * h) % n + h then (i + k * h) % n + h - n else (i + k * h) % n + h) =
      (i + (k + 1) * h) % n := by
  have sum : (i + (k + 1) * h) % n = ((i + k * h) % n + h) % n := by
    rw [Nat.mod_add_mod, Nat.add_mul, Nat.one_mul, Nat.add_assoc]
  have place := Nat.mod_lt (i + k * h) hn
  rw [sum]
  generalize (i + k * h) % n = a at place ⊢
  split
  · rename_i past
    rw [Nat.mod_eq_sub_mod past, Nat.mod_eq_of_lt (by omega)]
  · rw [Nat.mod_eq_of_lt (by omega)]

theorem Moved.step {i k : Nat} {old new : Nat → UInt8} (hn : 0 < n)
    (moved : Moved n h i k old new) (hk : k < n / Nat.gcd h n) :
    Moved n h i (k + 1) old
      (Function.update new ((i + k * h) % n) (new ((i + (k + 1) * h) % n))) := by
  constructor
  · intro t ht more
    by_cases same : t = k
    · subst same
      rw [Function.update_self]
      apply moved.rest
      intro s hs back
      have := cycle_inj hn (by omega) more back
      omega
    · have apart : (i + t * h) % n ≠ (i + k * h) % n :=
        fun meet => same (cycle_inj hn (by omega) hk meet)
      rw [Function.update_of_ne apart]
      exact moved.done t (by omega) more
  · intro p away
    rw [Function.update_of_ne (away k (by omega)).symm]
    exact moved.rest p fun t ht => away t (by omega)

theorem moveChars_moved {i : Nat} {old : Nat → UInt8} (hn : 0 < n) (hh : h < n) (j k : Nat)
    (new : Nat → UInt8) (iPos : Nat) (moved : Moved n h i k old new)
    (period : k + (j + 1) = n / Nat.gcd h n) :
    Moved n h i (k + (j + 1)) old (moveChars n h (j + 1) new iPos ((i + k * h) % n)).1 ∧
      (moveChars n h (j + 1) new iPos ((i + k * h) % n)).2 = (i + (k + j) * h) % n := by
  induction j generalizing k new iPos with
  | zero => 
    simp only [moveChars, next_place i k hn hh]
    exact ⟨moved.step hn (by omega), rfl⟩
  | succ j ih =>
    rw [moveChars, next_place i k hn hh]
    have next := ih (k + 1) _ ((i + k * h) % n) (moved.step hn (by omega)) (by omega)
    rwa [show k + 1 + (j + 1) = k + (j + 1 + 1) by omega, show k + 1 + j = k + (j + 1) by omega]
      at next

/-- One cycle: each of its places takes the character of the next, all others keep theirs. -/
theorem moveCycle_spec (hn : 0 < n) (hh : h < n) {i : Nat} (hi : i < n) (old : Nat → UInt8) :
    (∀ t < n / Nat.gcd h n, moveCycle n h (n / Nat.gcd h n) old i ((i + t * h) % n) =
      old ((i + (t + 1) * h) % n)) ∧
    ∀ p, (∀ t < n / Nat.gcd h n, (i + t * h) % n ≠ p) →
      moveCycle n h (n / Nat.gcd h n) old i p = old p := by
  have start : (i + 0 * h) % n = i := by
    rw [Nat.zero_mul, Nat.add_zero, Nat.mod_eq_of_lt hi]
  obtain ⟨j, period⟩ : ∃ j, n / Nat.gcd h n = j + 1 := Nat.exists_eq_succ_of_ne_zero
    (Nat.div_pos (Nat.le_of_dvd hn (Nat.gcd_dvd_right h n)) (Nat.gcd_pos_of_pos_right h hn)).ne'
  have fresh : Moved n h i 0 old old :=
    ⟨fun t ht => absurd ht (Nat.not_lt_zero t), fun _ _ => rfl⟩
  obtain ⟨moved, last⟩ := moveChars_moved hn hh j 0 old i fresh (by omega)
  rw [start, Nat.zero_add] at last moved
  unfold moveCycle
  rw [period]
  simp only [last]
  constructor
  · intro t ht
    by_cases final : t = j
    · subst final
      have back := cycle_return (n := n) (h := h) i
      rw [Function.update_self, ← period, back, Nat.mod_eq_of_lt hi]
    · have apart : (i + t * h) % n ≠ (i + j * h) % n :=
        fun meet => final (cycle_inj hn (by omega) (by omega) meet)
      rw [Function.update_of_ne apart]
      exact moved.done t ht (by omega)
  · intro p away
    rw [Function.update_of_ne (away j (by omega)).symm]
    exact moved.rest p away

/-- The outer loop, stopped after the cycles below `i`. -/
theorem moveCycles_spec (hn : 0 < n) (hh : h < n) (old : Nat → UInt8) (i : Nat)
    (hi : i ≤ Nat.gcd h n) (p : Nat) :
    (List.range i).foldl (moveCycle n h (n / Nat.gcd h n)) old p =
      if p < n ∧ p % Nat.gcd h n < i then old ((p + h) % n) else old p := by
  induction i generalizing p with
  | zero => simp
  | succ i ih =>
    have gcdLe : Nat.gcd h n ≤ n := Nat.gcd_le_right h hn
    rw [List.range_succ, List.foldl_append, List.foldl_cons, List.foldl_nil]
    obtain ⟨on, off⟩ := moveCycle_spec hn hh (i := i) (by omega)
      ((List.range i).foldl (moveCycle n h (n / Nat.gcd h n)) old)
    by_cases here : p < n ∧ p % Nat.gcd h n = i
    · obtain ⟨t, ht, place⟩ := cycle_cover (h := h) hn here.1
      have value := on t ht
      have next : (i + (t + 1) * h) % n = (p + h) % n := by
        rw [here.2] at place
        rw [← place, Nat.mod_add_mod, Nat.add_mul, Nat.one_mul, Nat.add_assoc]
      have residue : (p + h) % n % Nat.gcd h n = i := by
        rw [← next, cycle_residue, Nat.mod_eq_of_lt (by omega)]
      rw [here.2] at place
      rw [place, next] at value
      have below : p < n ∧ p % Nat.gcd h n < i + 1 := ⟨here.1, by omega⟩
      rw [value, ih (by omega), if_neg (by omega), if_pos below]
    · have away : ∀ t < n / Nat.gcd h n, (i + t * h) % n ≠ p := by
        rintro t _ rfl
        apply here
        exact ⟨Nat.mod_lt _ hn, by rw [cycle_residue, Nat.mod_eq_of_lt (by omega)]⟩
      rw [off p away, ih (by omega)]
      by_cases inside : p < n
      · have apart : p % Nat.gcd h n ≠ i := fun same => here ⟨inside, same⟩
        have same : p % Nat.gcd h n < i ↔ p % Nat.gcd h n < i + 1 := by omega
        simp only [same]
      · simp only [inside, false_and]

theorem mpClean_still {r : Ring} (zero : r.pcBufDataHeader = 0) : mpClean n r = r := by
  unfold mpClean
  rw [if_pos (by simp [zero])]

theorem mpClean_moves {r : Ring} (valid : r.Valid n) (nonzero : r.pcBufDataHeader ≠ 0) :
    mpClean n r =
      { pcBufDataHeader := 0
        pcBufDataEnd :=
          if n < r.pcBufDataEnd + n - r.pcBufDataHeader then r.pcBufDataEnd - r.pcBufDataHeader
          else r.pcBufDataEnd + n - r.pcBufDataHeader
        acBuf := (List.range (Nat.gcd r.pcBufDataHeader n)).foldl
          (moveCycle n r.pcBufDataHeader (n / Nat.gcd r.pcBufDataHeader n)) r.acBuf } := by
  have header := valid.header
  have iMove : ((n - r.pcBufDataHeader) % n + n) % n = n - r.pcBufDataHeader := by
    rw [Nat.mod_eq_of_lt (show n - r.pcBufDataHeader < n by omega), Nat.add_mod_right,
      Nat.mod_eq_of_lt (by omega)]
  have div : gcd (n - r.pcBufDataHeader) n = Nat.gcd r.pcBufDataHeader n := by
    rw [gcd_eq, Nat.gcd_self_sub_left header.le]
  have back : n - (n - r.pcBufDataHeader) = r.pcBufDataHeader := by omega
  have count : r.pcBufDataEnd + n - r.pcBufDataHeader - n =
      r.pcBufDataEnd - r.pcBufDataHeader := by omega
  unfold mpClean
  simp only [iMove, div, back, count]
  rw [if_neg (by omega)]

/-- `MPClean` rotates the buffer by the header's index. -/
theorem mpClean_acBuf {r : Ring} (valid : r.Valid n) {p : Nat} (hp : p < n) :
    (mpClean n r).acBuf p = r.acBuf ((p + r.pcBufDataHeader) % n) := by
  have hn : 0 < n := by omega
  by_cases zero : r.pcBufDataHeader = 0
  · rw [mpClean_still zero, zero, Nat.add_zero, Nat.mod_eq_of_lt hp]
  · have residue := Nat.mod_lt p (Nat.gcd_pos_of_pos_right r.pcBufDataHeader hn)
    rw [mpClean_moves valid zero]
    simp only [moveCycles_spec hn valid.header _ _ (Nat.le_refl _)]
    rw [if_pos ⟨hp, residue⟩]

theorem mpClean_header {r : Ring} (valid : r.Valid n) : (mpClean n r).pcBufDataHeader = 0 := by
  by_cases zero : r.pcBufDataHeader = 0
  · rw [mpClean_still zero, zero]
  · rw [mpClean_moves valid zero]

/-- A ring that is not empty at a moved header stays within its buffer. -/
theorem mpClean_end {r : Ring} (valid : r.Valid n)
    (some : r.pcBufDataEnd ≠ r.pcBufDataHeader ∨ r.pcBufDataHeader = 0) :
    (mpClean n r).pcBufDataEnd = (r.pcBufDataEnd + n - r.pcBufDataHeader) % n := by
  obtain ⟨header, dataEnd⟩ := valid
  by_cases zero : r.pcBufDataHeader = 0
  · rw [mpClean_still zero, zero, Nat.sub_zero, Nat.add_mod_right, Nat.mod_eq_of_lt dataEnd]
  · rw [mpClean_moves ⟨header, dataEnd⟩ zero]
    dsimp only
    split
    · rename_i past
      rw [Nat.mod_eq_sub_mod past.le, Nat.mod_eq_of_lt (by omega)]
      omega
    · rename_i under
      rw [Nat.mod_eq_of_lt (by omega)]

theorem mpClean_valid {r : Ring} (valid : r.Valid n)
    (some : r.pcBufDataEnd ≠ r.pcBufDataHeader ∨ r.pcBufDataHeader = 0) :
    (mpClean n r).Valid n := by
  have hn : 0 < n := Nat.zero_lt_of_lt valid.header
  constructor
  · rw [mpClean_header valid]
    exact hn
  · rw [mpClean_end valid some]
    exact Nat.mod_lt _ hn

/-- The buffered characters stay the same. -/
theorem mpClean_contents {r : Ring} (valid : r.Valid n)
    (some : r.pcBufDataEnd ≠ r.pcBufDataHeader ∨ r.pcBufDataHeader = 0) :
    (mpClean n r).contents n = r.contents n := by
  have hn : 0 < n := Nat.zero_lt_of_lt valid.header
  unfold Ring.contents places
  rw [mpClean_header valid, mpClean_end valid some, Nat.sub_zero, Nat.add_mod_right, Nat.mod_mod]
  refine List.map_congr_left fun i hi => ?_
  have small := List.mem_range.mp hi
  have inside : i < n := small.trans (Nat.mod_lt _ hn)
  rw [Nat.zero_add, Nat.mod_eq_of_lt inside, mpClean_acBuf valid inside, Nat.add_comm]

theorem contents_length (r : Ring) : (r.contents n).length =
    (r.pcBufDataEnd + n - r.pcBufDataHeader) % n := by
  simp [Ring.contents, places]

theorem mpAddChar_valid {r : Ring} (valid : r.Valid n) (ch : UInt8) :
    (mpAddChar n r ch).Valid n := by
  obtain ⟨header, dataEnd⟩ := valid
  constructor
  · simp only [mpAddChar]
    repeat' split
    all_goals omega
  · simp only [mpAddChar]
    split <;> omega

/-- The characters kept when one more arrives: all, unless only the spare place is left. -/
def push (k : Nat) (c : List UInt8) (ch : UInt8) : List UInt8 :=
  if c.length = k then c.tail ++ [ch] else c ++ [ch]

/-- The place behind the buffered characters. -/
theorem dataEnd_place {r : Ring} (valid : r.Valid n) :
    (r.pcBufDataHeader + (r.pcBufDataEnd + n - r.pcBufDataHeader) % n) % n = r.pcBufDataEnd := by
  have header := valid.header
  rw [Nat.add_mod_mod, show r.pcBufDataHeader + (r.pcBufDataEnd + n - r.pcBufDataHeader) =
    r.pcBufDataEnd + n by omega, Nat.add_mod_right, Nat.mod_eq_of_lt valid.dataEnd]

theorem place_ne {d i j : Nat} (hi : i < n) (hj : j < n) (apart : i ≠ j) :
    (d + i) % n ≠ (d + j) % n := by
  intro meet
  have same : i ≡ j [MOD n] := Nat.ModEq.add_left_cancel' d meet
  exact apart (same.eq_of_lt_of_lt hi hj)

theorem places_append {d l : Nat} (buf : Nat → UInt8) (ch : UInt8) (room : l < n) :
    places n d (l + 1) (Function.update buf ((d + l) % n) ch) = places n d l buf ++ [ch] := by
  unfold places
  rw [List.range_succ, List.map_append, List.map_singleton, Function.update_self]
  congr 1
  refine List.map_congr_left fun i hi => ?_
  have before := List.mem_range.mp hi
  rw [Function.update_of_ne (place_ne (by omega) room (by omega))]

theorem places_tail (d l : Nat) (buf : Nat → UInt8) :
    (places n d (l + 1) buf).tail = places n ((d + 1) % n) l buf := by
  unfold places
  rw [List.range_succ_eq_map, List.map_cons, List.tail_cons, List.map_map]
  refine List.map_congr_left fun i _ => ?_
  simp only [Function.comp_apply, Nat.mod_add_mod]
  rw [Nat.add_assoc, Nat.add_comm 1]

theorem wrap_one {i : Nat} (hi : i < n) : (if i + 1 = n then 0 else i + 1) = (i + 1) % n := by
  split
  · rename_i last
    rw [last, Nat.mod_self]
  · rw [Nat.mod_eq_of_lt (by omega)]

/-- A character is appended; a full ring lets go of its oldest. -/
theorem mpAddChar_contents {r : Ring} (valid : r.Valid n) (hn : 1 < n) (ch : UInt8) :
    (mpAddChar n r ch).contents n = push (n - 1) (r.contents n) ch := by
  obtain ⟨header, dataEnd⟩ := valid
  have place := dataEnd_place ⟨header, dataEnd⟩
  have length := contents_length (n := n) r
  have small := Nat.mod_lt (r.pcBufDataEnd + n - r.pcBufDataHeader) (show 0 < n by omega)
  have newEnd := wrap_one dataEnd
  have newHeader := wrap_one header
  unfold push
  rw [length]
  simp only [mpAddChar, Ring.contents, newEnd, newHeader]
  generalize hl : (r.pcBufDataEnd + n - r.pcBufDataHeader) % n = l at place small
  have count : l = if r.pcBufDataHeader ≤ r.pcBufDataEnd then
      r.pcBufDataEnd - r.pcBufDataHeader else r.pcBufDataEnd + n - r.pcBufDataHeader := by
    rw [← hl]
    split
    · rw [Nat.mod_eq_sub_mod (by omega), Nat.mod_eq_of_lt (by omega)]
      omega
    · rw [Nat.mod_eq_of_lt (by omega)]
  have full : (r.pcBufDataEnd + 1) % n = r.pcBufDataHeader ↔ l = n - 1 := by
    rw [← newEnd, count]
    split <;> split <;> omega
  by_cases last : l = n - 1
  · have meets := full.mpr last
    rw [if_pos meets, if_pos last, meets]
    obtain ⟨k, hk⟩ : ∃ k, n = k + 2 := ⟨n - 2, by omega⟩
    have lk : l = k + 1 := by omega
    have width : (r.pcBufDataHeader + n - (r.pcBufDataHeader + 1) % n) % n = k + 1 := by
      rw [← newHeader]
      split
      · rw [Nat.sub_zero, Nat.add_mod_right, Nat.mod_eq_of_lt header]
        omega
      · rw [Nat.mod_eq_of_lt (by omega)]
        omega
    have behind : ((r.pcBufDataHeader + 1) % n + k) % n = r.pcBufDataEnd := by
      rw [← place, lk, Nat.mod_add_mod, Nat.add_assoc, Nat.add_comm 1]
    rw [width, lk, places_tail, ← places_append _ _ (by omega), behind]
  · have room : (r.pcBufDataEnd + 1) % n ≠ r.pcBufDataHeader := fun meets => last (full.mp meets)
    have width : ((r.pcBufDataEnd + 1) % n + n - r.pcBufDataHeader) % n = l + 1 := by
      rw [← newEnd] at room ⊢
      split at room
      · rw [if_pos ‹_›, Nat.mod_eq_of_lt (by omega)]
        split at count <;> omega
      · rw [if_neg ‹_›]
        split at count
        · rw [Nat.mod_eq_sub_mod (by omega), Nat.mod_eq_of_lt (by omega)]
          omega
        · rw [Nat.mod_eq_of_lt (by omega)]
          omega
    rw [if_neg room, if_neg last, width, ← places_append _ _ small, place]

end Rovio.Upload
