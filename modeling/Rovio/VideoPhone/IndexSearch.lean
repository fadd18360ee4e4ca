import Rovio.VideoPhone.Index

/-! The checker on data with and without an equals sign after its first seven bytes. -/
namespace Rovio.VideoPhone

/-! ### The search -/

section Search
variable {buf : Nat → UInt8} {len : Nat}

theorem compareAt_inside {token : List UInt8} {i : Nat} (within : i + token.length ≤ len) :
    (compareAt buf len i token).2 = false := by
  induction token generalizing i with
  | nil => rfl
  | cons c token ih =>
    rw [List.length_cons] at within
    unfold compareAt
    have out : decide ((len : Int) ≤ i) = false := decide_eq_false (by omega)
    rw [out]
    dsimp only
    split
    · rfl
    · rw [Bool.false_or]
      exact ih (by omega)

/-- A byte of the data that is not the token's ends the comparison. -/
theorem compareAt_stops {token : List UInt8} {i j : Nat} (inside : i + j < len)
    (short : j < token.length) (other : buf (i + j) ≠ token.getD j 0) :
    compareAt buf len i token = (false, false) := by
  induction token generalizing i j with
  | nil => cases short
  | cons c token ih =>
    unfold compareAt
    have out : decide ((len : Int) ≤ i) = false := decide_eq_false (by omega)
    rw [out]
    dsimp only
    split
    · rfl
    · rename_i same
      cases j with
      | zero => exact absurd other same
      | succ j =>
        have later := @ih (i + 1) j (by omega) (by simpa using short) (by
          rw [Nat.add_right_comm]
          exact other)
        rw [later]
        rfl

theorem compareAt_true {token : List UInt8} {i : Nat} (same : (compareAt buf len i token).1 = true)
    (j : Nat) (short : j < token.length) : buf (i + j) = token.getD j 0 := by
  induction token generalizing i j with
  | nil => cases short
  | cons c token ih =>
    unfold compareAt at same
    split at same
    · cases same
    · rename_i here
      cases j with
      | zero => exact Classical.not_not.mp here
      | succ j =>
        have later := ih same j (by simpa using short)
        rw [Nat.add_right_comm] at later
        exact later

end Search

/-- Seven equals signs and one more character. -/
def equalsToken (mark : UInt8) : List UInt8 := [61, 61, 61, 61, 61, 61, 61, mark]

section Token
variable {buf : Nat → UInt8} {len : Nat} {mark : UInt8}

theorem equalsToken_getD {j : Nat} (early : j < 7) : (equalsToken mark).getD j 0 = 61 := by
  match j, early with
  | 0, _ | 1, _ | 2, _ | 3, _ | 4, _ | 5, _ | 6, _ => rfl

/-- No equals sign is after the first seven bytes of the data. -/
def NoEquals (buf : Nat → UInt8) (len : Nat) : Prop := ∀ i, 7 ≤ i → i < len → buf i ≠ 61

/-- Then a token can only be at the start. -/
theorem compareAt_noEquals (clean : NoEquals buf len) (enough : 8 ≤ len) {i : Nat} (later : 0 < i)
    (inside : i < len) : compareAt buf len i (equalsToken mark) = (false, false) := by
  -- a byte of the first seven of the place that is not an equals sign
  obtain ⟨j, early, within, after⟩ : ∃ j, j < 7 ∧ i + j < len ∧ 7 ≤ i + j := by
    by_cases whole : i + 6 < len
    · exact ⟨6, by omega, whole, by omega⟩
    · exact ⟨len - 1 - i, by omega, by omega, by omega⟩
  have short : j < (equalsToken mark).length := Nat.lt_succ_of_lt early
  apply compareAt_stops within short
  rw [equalsToken_getD early]
  exact clean _ after within

theorem findFrom_noEquals (clean : NoEquals buf len) (enough : 8 ≤ len) (rounds : Nat) {i : Nat}
    (later : 0 < i) (all : i + rounds = len) :
    findFrom buf len (equalsToken mark) rounds i = ⟨none, false⟩ := by
  induction rounds generalizing i with
  | zero => rfl
  | succ rounds ih =>
    unfold findFrom
    rw [compareAt_noEquals clean enough later (by omega)]
    dsimp only
    rw [if_neg Bool.false_ne_true, ih (Nat.succ_pos i) (by omega)]
    rfl

/-- No byte behind the data is examined, and a token is found at the start or not at all. -/
theorem find_token_noEquals (clean : NoEquals buf len) :
    find_token buf len (equalsToken mark) = ⟨none, false⟩ ∨
      8 ≤ len ∧ (∀ j < 8, buf j = (equalsToken mark).getD j 0) ∧
        find_token buf len (equalsToken mark) = ⟨some 0, false⟩ := by
  unfold find_token
  split
  · exact .inl rfl
  · rename_i large
    simp only [not_or] at large
    have enough : 8 ≤ len := by
      have bound := large.2.2
      change ¬ (len : Int) < (8 : Nat) at bound
      omega
    obtain ⟨rounds, size⟩ := Nat.exists_eq_succ_of_ne_zero (by omega : len ≠ 0)
    have rest := @findFrom_noEquals buf len mark clean enough rounds 1 Nat.one_pos (by omega)
    have inside := @compareAt_inside buf len (equalsToken mark) 0
      (by rw [Nat.zero_add]; exact enough)
    rw [Int.toNat_natCast, size, Nat.succ_eq_add_one, findFrom, ← Nat.succ_eq_add_one, ← size]
    cases compared : compareAt buf len 0 (equalsToken mark) with
    | mk same out =>
      rw [compared] at inside
      have inside : out = false := inside
      subst inside
      cases same with
      | true =>
        right
        refine ⟨enough, ?_, rfl⟩
        intro j short
        have equal := @compareAt_true buf len (equalsToken mark) 0 (by rw [compared]) j short
        rw [Nat.zero_add] at equal
        exact equal
      | false =>
        left
        dsimp only
        rw [if_neg Bool.false_ne_true, rest]
        rfl

end Token

/-! ### A call on clean data -/

section Clean
variable {buf : Nat → UInt8} {len : Nat} {mark : UInt8}

theorem find_token_none (clean : ∀ i < len, buf i ≠ 61) :
    find_token buf len (equalsToken mark) = ⟨none, false⟩ := by
  obtain none | ⟨enough, same, -⟩ :=
    @find_token_noEquals buf len mark fun i _ inside => clean i inside
  · exact none
  · exact absurd (same 0 (by decide)) (clean 0 (by omega))

theorem shift_clean (clean : NoEquals buf len) (enough : 8 ≤ len) :
    find_token (shift buf 8) ((len : Int) - (8 : Nat)) (equalsToken mark) = ⟨none, false⟩ := by
  rw [← Int.ofNat_sub enough]
  apply find_token_none
  intro i inside
  exact clean (8 + i) (by omega) (by omega)

/-- At most one end token, at the start, is lost. -/
theorem lostEnds_clean (clean : NoEquals buf len) :
    lostEnds buf 0 len false = (0, (len : Int), false) ∨
      8 ≤ len ∧ lostEnds buf 0 len false = (8, (len : Int) - (8 : Nat), false) := by
  have whole : shift buf 0 = buf := by
    funext i
    exact congrArg buf (Nat.zero_add i)
  rw [lostEnds, whole]
  obtain none | ⟨enough, -, start⟩ := @find_token_noEquals buf len 93 clean
  · left
    split
    · rename_i absent
      rw [show MP4ADDATIONEND = equalsToken 93 from rfl, none]
      rfl
    · rename_i found
      rw [show MP4ADDATIONEND = equalsToken 93 from rfl, none] at found
      cases found
  · right
    refine ⟨enough, ?_⟩
    split
    · rename_i absent
      rw [show MP4ADDATIONEND = equalsToken 93 from rfl, start] at absent
      cases absent
    · rename_i found
      rw [show MP4ADDATIONEND = equalsToken 93 from rfl, start] at found ⊢
      cases found
      have rest := @shift_clean buf len 93 clean enough
      rw [lostEnds]
      split
      · rename_i absent
        change (8, _, false || (find_token (shift buf 8) ((len : Int) - (8 : Nat))
          (equalsToken 93)).beyond) = _
        rw [rest]
        rfl
      · rename_i found
        change (find_token (shift buf 8) ((len : Int) - (8 : Nat)) (equalsToken 93)).pos =
          _ at found
        rw [rest] at found
        cases found

theorem frameEnds_clean (clean : NoEquals buf len) (start : buf 7 ≠ 93) :
    frameEnds buf 8 len ⟨0, 0, false⟩ = ⟨0, 0, false⟩ := by
  have whole : shift buf 0 = buf := by
    funext i
    exact congrArg buf (Nat.zero_add i)
  have none : find_token (shift buf 0) ((len : Int) - (0 : Nat)) MP4ADDATIONEND =
    ⟨none, false⟩ := by
    rw [whole, Int.natCast_zero, Int.sub_zero]
    obtain none | ⟨-, same, -⟩ := @find_token_noEquals buf len 93 clean
    · exact none
    · exact absurd (same 7 (by decide)) start
  rw [frameEnds]
  split
  · dsimp only
    rw [none]
    rfl
  · rename_i found
    dsimp only at found
    rw [none] at found
    cases found

end Clean

/-- A checker that has seen no token and only the data it was given. -/
structure Quiet (c : IndexChecker) (len : Nat) : Prop where
  length : c.imp4bufdatalen = len
  clean : NoEquals c.pcmp4buf len
  inside : c.beyond = false
  untaken : c.indexes = []

section Quiet
variable {c : IndexChecker} {len : Nat}

theorem Quiet.emptied (quiet : Quiet c len) : Quiet { c with imp4bufdatalen := 0 } 0 :=
  ⟨rfl, fun i _ inside => absurd inside (Nat.not_lt_zero i), quiet.inside, quiet.untaken⟩

theorem Quiet.kept (quiet : Quiet c len) {start : Nat} (within : start ≤ len) :
    Quiet (c.keepFrom start ((len : Int) - start)) (len - start) where
  length := (Int.ofNat_sub within).symm
  clean := by
    intro i late inside
    unfold IndexChecker.keepFrom
    dsimp only
    rw [if_pos (by omega)]
    exact quiet.clean (start + i) (by omega) (by omega)
  inside := by
    unfold IndexChecker.keepFrom
    dsimp only
    rw [quiet.inside, Bool.false_or]
    exact decide_eq_false (by omega)
  untaken := quiet.untaken

theorem Quiet.unseen (quiet : Quiet c len) : Quiet { c with beyond := false } len :=
  ⟨quiet.length, quiet.clean, rfl, quiet.untaken⟩

theorem Quiet.noStart (quiet : Quiet c len) : ∃ rest ≤ len, Quiet c.noStart rest := by
  unfold IndexChecker.noStart
  split
  · split
    · exact ⟨0, Nat.zero_le len, quiet.emptied⟩
    · exact ⟨len, Nat.le_refl len, quiet⟩
  · obtain all | ⟨enough, lost⟩ := lostEnds_clean quiet.clean
    · have run : lostEnds c.pcmp4buf 0 c.imp4bufdatalen c.beyond = (0, (len : Int), false) := by
        rw [quiet.length, quiet.inside, all]
      rw [run]
      dsimp only
      split
      · have kept := quiet.unseen.kept (Nat.zero_le len)
        rw [Int.natCast_zero, Int.sub_zero] at kept
        exact ⟨len, Nat.le_refl len, kept⟩
      · exact ⟨0, Nat.zero_le len, quiet.unseen.emptied⟩
    · have run : lostEnds c.pcmp4buf 0 c.imp4bufdatalen c.beyond =
          (8, (len : Int) - (8 : Nat), false) := by
        rw [quiet.length, quiet.inside, lost]
      rw [run]
      dsimp only
      split
      · exact ⟨len - 8, Nat.sub_le len 8, quiet.unseen.kept enough⟩
      · exact ⟨0, Nat.zero_le len, quiet.unseen.emptied⟩

theorem Quiet.searched (quiet : Quiet c len) {r : TokenFound} (inside : r.beyond = false) :
    Quiet (c.searched r) len := by
  refine ⟨quiet.length, quiet.clean, ?_, quiet.untaken⟩
  change (c.beyond || r.beyond) = false
  rw [quiet.inside, inside]
  rfl

/-- With a start token at the start, no other token is found. -/
theorem Quiet.started (quiet : Quiet c len) (enough : 8 ≤ len) (mark : c.pcmp4buf 7 ≠ 93) :
    ∃ rest ≤ len, Quiet (c.started 8).2 rest ∧
      ((c.started 8).1 = true → rest = 0) := by
  have next : find_token (shift c.pcmp4buf 8) (c.imp4bufdatalen - (8 : Nat)) MP4ADDATIONBEGIN =
      ⟨none, false⟩ := by
    rw [quiet.length]
    exact shift_clean quiet.clean enough
  have again := quiet.searched (r := ⟨none, false⟩) rfl
  have ends : (c.searched ⟨none, false⟩).ends 8 ⟨none, false⟩ = ⟨0, 0, false⟩ := by
    unfold IndexChecker.ends
    dsimp only
    rw [again.length, again.inside]
    exact frameEnds_clean again.clean mark
  unfold IndexChecker.started
  dsimp only
  rw [next, ends]
  dsimp only
  rw [if_pos rfl]
  unfold IndexChecker.noEnd
  split
  · exact ⟨len, Nat.le_refl len, again.unseen, fun more => absurd more Bool.false_ne_true⟩
  · exact ⟨0, Nat.zero_le len, again.unseen.emptied, fun _ => rfl⟩

theorem Quiet.round (quiet : Quiet c len) :
    ∃ rest ≤ len, Quiet c.round.2 rest ∧ (c.round.1 = true → rest = 0) := by
  have start := @find_token_noEquals c.pcmp4buf len 91 quiet.clean
  unfold IndexChecker.round
  dsimp only
  rw [quiet.length]
  obtain absent | ⟨enough, same, first⟩ := start
  · have again := quiet.searched (r := ⟨none, false⟩) rfl
    obtain ⟨rest, less, noStart⟩ := again.noStart
    rw [show MP4ADDATIONBEGIN = equalsToken 91 from rfl, absent]
    exact ⟨rest, less, noStart, fun more => absurd more Bool.false_ne_true⟩
  · have again := quiet.searched (r := ⟨some 0, false⟩) rfl
    have mark : c.pcmp4buf 7 ≠ 93 := by
      rw [same 7 (by decide)]
      decide
    rw [show MP4ADDATIONBEGIN = equalsToken 91 from rfl, first]
    exact again.started enough mark

theorem Quiet.loop (quiet : Quiet c len) : ∃ rest ≤ len, Quiet c.loop rest := by
  rw [IndexChecker.loop]
  split
  · obtain ⟨rest, less, round, last⟩ := quiet.round
    split
    · rename_i more
      obtain rfl := last more
      rw [IndexChecker.loop, dif_neg]
      · exact ⟨0, less, round⟩
      · rw [round.length]
        exact Int.lt_irrefl 0
    · exact ⟨rest, less, round⟩
  · exact ⟨len, Nat.le_refl len, quiet⟩

/-- Bytes without an equals sign, but for those among the first seven of the stream. -/
theorem Quiet.adddata (quiet : Quiet c len) {framebuf : List UInt8} {place : Nat}
    (later : len ≤ place) (clean : ∀ i, 7 ≤ place + i → framebuf[i]? ≠ some 61) :
    ∃ rest ≤ place + framebuf.length, Quiet (mp4_check_index_adddata framebuf c).2 rest := by
  unfold mp4_check_index_adddata
  dsimp only
  split
  · exact ⟨len, by omega, quiet⟩
  · refine ⟨len + framebuf.length, by omega, ?_, ?_, quiet.inside, quiet.untaken⟩
    · change c.imp4bufdatalen + framebuf.length = _
      rw [quiet.length, Nat.cast_add]
    · intro i late inside
      dsimp only
      rw [quiet.length]
      split
      · rename_i here
        have offset : ((i : Int) - len).toNat = i - len := by omega
        have value := clean (i - len) (by omega)
        rw [List.getElem?_eq_getElem (by omega)] at value
        rw [offset, List.getD_eq_getElem?_getD, List.getElem?_eq_getElem (by omega)]
        exact fun same => value (congrArg some same)
      · exact quiet.clean i late (by omega)

theorem Quiet.buffers (quiet : Quiet c len) (buffers : List (List UInt8)) {place : Nat}
    (later : len ≤ place) (clean : ∀ i, 7 ≤ place + i → buffers.flatten[i]? ≠ some 61) :
    ∃ rest, Quiet (checkBuffers c buffers) rest := by
  induction buffers generalizing c len place with
  | nil => exact ⟨len, quiet⟩
  | cons framebuf buffers ih =>
    rw [List.flatten_cons] at clean
    obtain ⟨added, bound, quiet⟩ := @Quiet.adddata c len quiet framebuf place later (by
      intro i late same
      apply clean i late
      rw [List.getElem?_append_left, same]
      exact (List.getElem?_eq_some_iff.mp same).1)
    obtain ⟨rest, less, quiet⟩ := quiet.loop
    apply @ih _ _ quiet (place + framebuf.length) (by omega)
    intro i late same
    apply clean (framebuf.length + i) (by omega)
    rw [List.getElem?_append_right (by omega), Nat.add_sub_cancel_left]
    exact same

end Quiet

/-! ### The frames of a stream without equals signs -/

section Seen
variable {c : IndexChecker}

end Seen

end Rovio.VideoPhone
