import Rovio.Upload.Update

/-! What `MPClean` does to a ring, whatever its size, its head and its characters, and where
`MPAddChar` puts the next character. -/
namespace Rovio.Upload

open Kit

variable {n h : Nat}

/-- The values of `iPos` in the inner loop of `MPClean`, with `j` rounds to go. -/
def charPlaces (iBufLen iMove : Nat) : Nat → Nat → List Nat
  | 0, _ => []
  | j + 1, iPosPre =>
    let next := if iBufLen ≤ iPosPre + iMove then iPosPre + iMove - iBufLen else iPosPre + iMove
    iPosPre :: charPlaces iBufLen iMove j next

/-- The values of `iPos` in both loops of `MPClean`, in their order. -/
def cleanPlaces (iBufLen : Nat) (r : Ring) : List Nat :=
  let iMove := ((iBufLen - r.pcBufDataHeader) % iBufLen + iBufLen) % iBufLen
  if iMove = 0 then []
  else
    let iComDiv := gcd iMove iBufLen
    let iEachMove := iBufLen / iComDiv
    let iMove := iBufLen - iMove
    (List.range iComDiv).flatMap (charPlaces iBufLen iMove iEachMove)

/-- The inner loop stores at these places, one after the other, and ends with the last of them. -/
theorem moveChars_places (j : Nat) (pcBuf : Nat → UInt8) (iPos iPosPre : Nat) :
    moveChars n h j pcBuf iPos iPosPre =
      ((charPlaces n h j iPosPre).foldl (fun buf p => Function.update buf p
        (buf (if n ≤ p + h then p + h - n else p + h))) pcBuf,
        (charPlaces n h j iPosPre).getLastD iPos) := by
  induction j generalizing pcBuf iPos iPosPre with
  | zero => rfl
  | succ j ih =>
    rw [moveChars, ih, charPlaces, List.foldl_cons, List.getLastD_cons]

theorem charPlaces_from (hn : 0 < n) (hh : h < n) (j i k : Nat) :
    charPlaces n h j ((i + k * h) % n) = (List.range j).map fun t => (i + (k + t) * h) % n := by
  induction j generalizing k with
  | zero => rfl
  | succ j ih =>
    rw [charPlaces, next_place i k hn hh, ih (k + 1), List.range_succ_eq_map, List.map_cons,
      List.map_map, Nat.add_zero]
    refine congrArg (_ :: ·) (List.map_congr_left fun t _ => ?_)
    rw [Function.comp_apply, Nat.add_assoc, Nat.add_comm 1 t]

/-- The inner loop goes around one cycle. -/
theorem charPlaces_cycle (hn : 0 < n) (hh : h < n) {i : Nat} (hi : i < n) :
    charPlaces n h (n / Nat.gcd h n) i = cycle n h i := by
  have whole := charPlaces_from hn hh (n / Nat.gcd h n) i 0
  rw [Nat.zero_mul, Nat.add_zero, Nat.mod_eq_of_lt hi] at whole
  rw [whole, cycle]
  refine List.map_congr_left fun t _ => ?_
  rw [Nat.zero_add]

theorem cleanPlaces_cycles {r : Ring} (valid : r.Valid n) (nonzero : r.pcBufDataHeader ≠ 0) :
    cleanPlaces n r =
      (List.range (Nat.gcd r.pcBufDataHeader n)).flatMap (cycle n r.pcBufDataHeader) := by
  have header := valid.header
  have hn : 0 < n := Nat.zero_lt_of_lt header
  have iMove : ((n - r.pcBufDataHeader) % n + n) % n = n - r.pcBufDataHeader := by
    rw [Nat.mod_eq_of_lt (show n - r.pcBufDataHeader < n by omega), Nat.add_mod_right,
      Nat.mod_eq_of_lt (by omega)]
  have div : gcd (n - r.pcBufDataHeader) n = Nat.gcd r.pcBufDataHeader n := by
    rw [gcd_eq, Nat.gcd_self_sub_left header.le]
  have back : n - (n - r.pcBufDataHeader) = r.pcBufDataHeader := by omega
  unfold cleanPlaces
  simp only [iMove, div, back]
  rw [if_neg (by omega)]
  apply List.flatMap_congr
  intro i mem
  have small : Nat.gcd r.pcBufDataHeader n ≤ n := Nat.gcd_le_right _ hn
  have below := List.mem_range.mp mem
  exact charPlaces_cycle hn header (by omega)

/-- Each place of the buffer is visited once. -/
theorem cleanPlaces_perm {r : Ring} (valid : r.Valid n) (nonzero : r.pcBufDataHeader ≠ 0) :
    (cleanPlaces n r).Perm (List.range n) := by
  rw [cleanPlaces_cycles valid nonzero]
  exact cycles_perm (Nat.zero_lt_of_lt valid.header)

/-- The buffered characters are at the start of the buffer in their order, and the next character
goes behind them; a full ring lets go of its oldest. -/
structure Cleaned (n : Nat) (r : Ring) : Prop where
  header : (mpClean n r).pcBufDataHeader = 0
  front : (mpClean n r).front = r.contents n
  inside : (mpClean n r).pcBufDataEnd < n
  stored : ∀ ch, (mpAddChar n (mpClean n r) ch).acBuf (r.contents n).length = ch
  appended : ∀ ch, (mpAddChar n (mpClean n r) ch).contents n = held (n - 1) (r.contents n ++ [ch])

/-- A ring of one place keeps nothing. -/
theorem contents_one (r : Ring) : r.contents 1 = [] := by
  apply List.eq_nil_of_length_eq_zero
  rw [contents_length, Nat.mod_one]

theorem mpAddChar_held {r : Ring} (valid : r.Valid n) (ch : UInt8) :
    (mpAddChar n r ch).contents n = held (n - 1) (r.contents n ++ [ch]) := by
  have header := valid.header
  rcases Nat.lt_or_ge 1 n with several | one
  · have full : held (n - 1) (r.contents n) = r.contents n := by
      have length := contents_length (n := n) r
      have few := Nat.mod_lt (r.pcBufDataEnd + n - r.pcBufDataHeader) (Nat.zero_lt_of_lt several)
      rw [held, show (r.contents n).length - (n - 1) = 0 by omega, List.drop_zero]
    rw [mpAddChar_contents valid several ch, ← full, push_held (by omega), full]
  · obtain rfl : n = 1 := by omega
    rw [contents_one, contents_one]
    rfl

theorem cleaned {r : Ring} (valid : r.Valid n)
    (some : r.pcBufDataEnd ≠ r.pcBufDataHeader ∨ r.pcBufDataHeader = 0) : Cleaned n r := by
  have still := mpClean_valid valid some
  have header := mpClean_header valid
  have contents := mpClean_contents valid some
  have front := (front_contents still header).symm.trans contents
  refine ⟨header, front, still.dataEnd, fun ch => ?_, fun ch => ?_⟩
  · rw [← front, front_length]
    exact Function.update_self ..
  · rw [mpAddChar_held still, contents]

/-- An empty ring away from the start counts as full. -/
theorem empty_overflows {r : Ring} (valid : r.Valid n) (empty : r.pcBufDataEnd = r.pcBufDataHeader)
    (nonzero : r.pcBufDataHeader ≠ 0) : (mpClean n r).pcBufDataEnd = n := by
  rw [mpClean_moves valid nonzero]
  dsimp only
  rw [empty, if_neg (by omega)]
  omega

/-- `MPClean` visits each place once and rotates the buffer by the head's index, for every ring; it
leaves the buffered characters in order at the start, and the next one goes behind them, just in
case the ring is not empty or its head is at the start. -/
theorem mpClean_rotates (n : Nat) (r : { r : Ring // r.Valid n }) :
    (r.val.pcBufDataHeader ≠ 0 → (cleanPlaces n r.val).Perm (List.range n)) ∧
    (∀ p, p < n →
      (mpClean n r.val).acBuf p = r.val.acBuf ((p + r.val.pcBufDataHeader) % n)) ∧
    (Cleaned n r.val ↔
      r.val.pcBufDataEnd ≠ r.val.pcBufDataHeader ∨ r.val.pcBufDataHeader = 0) := by
  obtain ⟨r, valid⟩ := r
  refine ⟨cleanPlaces_perm valid, fun p inside => mpClean_acBuf valid inside, ?_, cleaned valid⟩
  intro clean
  rcases eq_or_ne r.pcBufDataEnd r.pcBufDataHeader with empty | some
  · right
    rcases eq_or_ne r.pcBufDataHeader 0 with zero | nonzero
    · exact zero
    · have overflow := empty_overflows valid empty nonzero
      exact absurd overflow (Nat.ne_of_lt clean.inside)
  · exact .inl some

theorem empty_not_cleaned :
    (⟨1, 1, fun _ => 65⟩ : Ring).Valid 3 ∧ ¬ Cleaned 3 ⟨1, 1, fun _ => 65⟩ := by
  refine ⟨⟨by decide, by decide⟩, fun clean => ?_⟩
  have inside := clean.inside
  rw [empty_overflows ⟨by decide, by decide⟩ rfl (by decide)] at inside
  exact absurd inside (Nat.lt_irrefl 3)

end Rovio.Upload
