import Rovio.Firmware.Usi

/-! What a power cut leaves of writes that go upwards. The cache holds the sector last written to,
and every sector below it has been written back, so that the operations made so far tell which
pages hold what was written, which are erased, and which are as before. -/
namespace Rovio.Firmware

/-- The bytes that are programmed, and those that are erased, when `k` operations have written
sectors back from the first one on. -/
def programmed (k : Nat) : Nat := eraseSec * (k / 257) + 256 * (k % 257 - 1)

def touched (k : Nat) : Nat := eraseSec * ((k + 256) / 257)

/-- The flash `base` after `k` operations that write back what `want` says. -/
def cutFlash (want base : Flash) (k : Nat) : Flash := fun a =>
  if a < programmed k then want a else if a < touched k then blank else base a

theorem cutFlash_zero (want base : Flash) : cutFlash want base 0 = base := by
  funext a
  simp [cutFlash, programmed, touched]

/-- Whole sectors. -/
theorem cutFlash_sectors (want base : Flash) (b a : Nat) :
    cutFlash want base (257 * b) a = if a < eraseSec * b then want a else base a := by
  have whole : programmed (257 * b) = eraseSec * b ∧ touched (257 * b) = eraseSec * b := by
    unfold programmed touched
    have quotient : 257 * b / 257 = b ∧ 257 * b % 257 = 0 ∧ (257 * b + 256) / 257 = b := by omega
    obtain ⟨q, r, t⟩ := quotient
    rw [q, r, t]
    exact ⟨by simp, rfl⟩
  unfold cutFlash
  rw [whole.1, whole.2]
  split <;> rfl

/-- A sector under way. -/
theorem cutFlash_sector (want base : Flash) {b r : Nat} (low : 0 < r) (high : r ≤ 257) (a : Nat) :
    cutFlash want base (257 * b + r) a =
      if a < eraseSec * b + 256 * (r - 1) then want a
      else if a < eraseSec * (b + 1) then blank else base a := by
  have sector : eraseSec = 65536 := rfl
  unfold cutFlash programmed touched
  rcases Nat.lt_or_eq_of_le high with inside | rfl
  · have quotient : (257 * b + r) / 257 = b ∧ (257 * b + r) % 257 = r ∧
        (257 * b + r + 256) / 257 = b + 1 := by omega
    obtain ⟨q, m, t⟩ := quotient
    rw [q, m, t]
  · have quotient : (257 * b + 257) / 257 = b + 1 ∧ (257 * b + 257) % 257 = 0 ∧
        (257 * b + 257 + 256) / 257 = b + 1 := by omega
    obtain ⟨q, m, t⟩ := quotient
    have next : eraseSec * (b + 1) = eraseSec * b + eraseSec := Nat.mul_succ eraseSec b
    rw [q, m, t]
    simp only [Nat.zero_sub, Nat.mul_zero, Nat.add_zero]
    split
    · rw [if_pos (by omega)]
    · rw [if_neg (by omega)]

/-- Everything below `p` has been written since the chip, with `base`, had done `o` operations. -/
structure Writing (k o : Nat) (want base : Flash) (p : Nat) (s : Usi) : Prop where
  cached : s.g_uUSICacheAddr = some (eraseSec * ((p - 1) / eraseSec))
  ops : s.chip.ops = o + 257 * ((p - 1) / eraseSec)
  flash : s.chip.flash = cutFlash want base (min k s.chip.ops - o)
  buf : s.chip.ops ≤ k → ∀ i < eraseSec, s.g_uUSI_BUF i =
    if eraseSec * ((p - 1) / eraseSec) + i < p then want (eraseSec * ((p - 1) / eraseSec) + i)
    else base (eraseSec * ((p - 1) / eraseSec) + i)

variable {k o : Nat} {want base : Flash} {p : Nat} {s : Usi}

/-- A sector written back, whose part behind `p` is as before. -/
theorem Writing.flush (h : Writing k o want base p s)
    (rest : ∀ a, p ≤ a → a < eraseSec * ((p - 1) / eraseSec + 1) → want a = base a) :
    (usiMyFlash (before k) s).g_uUSICacheAddr = none ∧
      (usiMyFlash (before k) s).chip.ops = o + 257 * ((p - 1) / eraseSec) + 257 ∧
      (usiMyFlash (before k) s).chip.flash =
        cutFlash want base (min k (usiMyFlash (before k) s).chip.ops - o) := by
  obtain ⟨empty, ops, flash⟩ := @usiMyFlash_cut k s _ h.cached
  generalize usiMyFlash (before k) s = after at empty ops flash ⊢
  have sector : eraseSec = 65536 := rfl
  have count := h.ops
  have old := h.flash
  obtain ⟨b, last⟩ : ∃ b, (p - 1) / eraseSec = b := ⟨_, rfl⟩
  rw [last] at flash count rest ⊢
  have next : eraseSec * (b + 1) = eraseSec * b + eraseSec := Nat.mul_succ eraseSec b
  refine ⟨empty, by omega, funext fun a => ?_⟩
  have now : after.chip.ops = o + 257 * b + 257 := by omega
  rw [flash, now, old, count]
  by_cases alive : o + 257 * b ≤ k
  · have same : ∀ i < eraseSec, s.g_uUSI_BUF i = want (eraseSec * b + i) := by
      intro i hi
      have buf := h.buf (by omega) i hi
      rw [last] at buf
      rw [buf]
      split
      · rfl
      · exact (rest _ (by omega) (by omega)).symm
    rw [show min k (o + 257 * b) - o = 257 * b by omega, cutFlash_sectors]
    by_cases none : k = o + 257 * b
    · rw [show min k (o + 257 * b + 257) - o = 257 * b by omega, cutFlash_sectors]
      split
      · rw [if_neg (by omega), if_neg (by omega)]
      · rfl
    · obtain ⟨r, low, high, cut⟩ : ∃ r, 0 < r ∧ r ≤ 257 ∧
          min k (o + 257 * b + 257) - o = 257 * b + r :=
        ⟨min k (o + 257 * b + 257) - o - 257 * b, by omega, by omega, by omega⟩
      rw [cut, cutFlash_sector want base low high]
      by_cases inside : eraseSec * b ≤ a ∧ a < eraseSec * b + eraseSec
      · rw [if_pos inside, if_pos (show a < eraseSec * (b + 1) by omega),
          if_pos (show o + 257 * b < k by omega)]
        by_cases page : a < eraseSec * b + 256 * (r - 1)
        · rw [if_pos page, if_pos (by omega), same _ (by omega)]
          congr 1
          omega
        · rw [if_neg page, if_neg (by omega)]
      · rw [if_neg inside]
        by_cases below : a < eraseSec * b
        · rw [if_pos below, if_pos (by omega)]
        · rw [if_neg below, if_neg (by omega), if_neg (by omega)]
  · rw [show min k (o + 257 * b + 257) - o = min k (o + 257 * b) - o by omega]
    split
    · rw [if_neg (by omega), if_neg (by omega)]
    · rfl

/-- The sector of the next byte is in the cache: that of the last one, or a new one. -/
theorem Writing.load (h : Writing k o want base p s) :
    (usiLoad (before k) s (p - p % eraseSec)).g_uUSICacheAddr = some (eraseSec * (p / eraseSec)) ∧
    (usiLoad (before k) s (p - p % eraseSec)).chip.ops = o + 257 * (p / eraseSec) ∧
    (usiLoad (before k) s (p - p % eraseSec)).chip.flash =
      cutFlash want base (min k (usiLoad (before k) s (p - p % eraseSec)).chip.ops - o) ∧
    ((usiLoad (before k) s (p - p % eraseSec)).chip.ops ≤ k → ∀ i < eraseSec,
      (usiLoad (before k) s (p - p % eraseSec)).g_uUSI_BUF i =
        if eraseSec * (p / eraseSec) + i < p then want (eraseSec * (p / eraseSec) + i)
        else base (eraseSec * (p / eraseSec) + i)) := by
  have block : p - p % eraseSec = eraseSec * (p / eraseSec) := by
    have parts := Nat.div_add_mod p eraseSec
    omega
  rw [block]
  have sectors : (p - 1) / eraseSec = p / eraseSec ∨
      (p / eraseSec = (p - 1) / eraseSec + 1 ∧ p = eraseSec * (p / eraseSec)) := by
    unfold eraseSec
    omega
  rcases sectors with same | ⟨new, first⟩
  · have cached := h.cached
    have ops := h.ops
    have buf := h.buf
    rw [same] at cached ops buf
    simp only [usiLoad, cached, if_true]
    exact ⟨trivial, ops, h.flash, buf⟩
  · obtain ⟨empty, ops, flash⟩ := h.flush fun a low high => by
      rw [← new, ← first] at high
      omega
    have other : s.g_uUSICacheAddr ≠ some (eraseSec * (p / eraseSec)) := by
      rw [h.cached, new]
      intro same
      have equal := Option.some.inj same
      rw [Nat.mul_succ] at equal
      have positive : 0 < eraseSec := by decide
      omega
    simp only [usiLoad, if_neg other]
    generalize usiMyFlash (before k) s = after at empty ops flash ⊢
    have count : after.chip.ops = o + 257 * (p / eraseSec) := by
      rw [new, ops]
      omega
    refine ⟨trivial, count, flash, fun alive i hi => ?_⟩
    rw [flash, if_neg (by omega)]
    have whole : min k after.chip.ops - o = 257 * (p / eraseSec) := by omega
    rw [whole, cutFlash_sectors, if_neg (by omega)]

/-- Bytes written upwards. -/
theorem Writing.write (h : Writing k o want base p s) {bytes : List Cell}
    (wanted : ∀ i (hi : i < bytes.length), want (p + i) = bytes[i]) :
    Writing k o want base (p + bytes.length) (usiMyWrite (before k) s p bytes) := by
  induction size : bytes.length using Nat.strongRecOn generalizing p s bytes with
  | ind n ih =>
    rw [usiMyWrite]
    by_cases none : bytes = []
    · rw [if_pos none]
      subst none
      subst size
      exact h
    · rw [if_neg none]
      have some : 0 < bytes.length := List.length_pos_iff.mpr none
      obtain ⟨cached, ops, flash, buf⟩ := h.load
      have inside : p % eraseSec < eraseSec := Nat.mod_lt _ (by decide)
      have parts := Nat.div_add_mod p eraseSec
      obtain ⟨copy_len, copies⟩ : ∃ c, min bytes.length (eraseSec - p % eraseSec) = c := ⟨_, rfl⟩
      simp only [copies]
      have same : (p + copy_len - 1) / eraseSec = p / eraseSec := by
        have positive : 0 < copy_len := by omega
        have bound : copy_len ≤ eraseSec - p % eraseSec := by omega
        clear copies parts inside buf
        unfold eraseSec at *
        omega
      have next : Writing k o want base (p + copy_len)
          { usiLoad (before k) s (p - p % eraseSec) with
            g_uUSI_BUF := overwrite (usiLoad (before k) s (p - p % eraseSec)).g_uUSI_BUF
              (p % eraseSec) (bytes.take copy_len) } := by
        refine ⟨same ▸ cached, same ▸ ops, flash, fun alive i hi => ?_⟩
        rw [same]
        have taken : (bytes.take copy_len).length = copy_len := by
          rw [List.length_take]
          omega
        by_cases written : p % eraseSec ≤ i ∧ i < p % eraseSec + copy_len
        · obtain ⟨j, rfl⟩ := Nat.exists_eq_add_of_le written.1
          have short : j < copy_len := by omega
          simp only
          rw [overwrite_inside (taken.symm ▸ short), if_pos (by omega), List.getElem_take,
            ← wanted j (by omega)]
          congr 1
          omega
        · simp only
          rw [overwrite_outside (by omega), buf alive i hi]
          by_cases low : eraseSec * (p / eraseSec) + i < p
          · rw [if_pos low, if_pos (by omega)]
          · rw [if_neg low, if_neg (by omega)]
      have rest := ih (bytes.drop copy_len).length (by rw [List.length_drop]; omega) next
        (fun i hi => by
          rw [List.length_drop] at hi
          rw [List.getElem_drop, ← wanted (copy_len + i) (by omega), Nat.add_assoc]) rfl
      rw [List.length_drop] at rest
      rwa [show p + copy_len + (bytes.length - copy_len) = p + n by omega] at rest

/-- Bytes of the same sector that are as before count as written. -/
theorem Writing.skip (h : Writing k o want base p s) {q : Nat} (low : p ≤ q)
    (sector : (q - 1) / eraseSec = (p - 1) / eraseSec)
    (same : ∀ a, p ≤ a → a < q → want a = base a) :
    Writing k o want base q s := by
  refine ⟨sector ▸ h.cached, sector ▸ h.ops, h.flash, fun alive i hi => ?_⟩
  rw [sector, h.buf alive i hi]
  generalize eraseSec * ((p - 1) / eraseSec) + i = a
  by_cases below : a < p
  · rw [if_pos below, if_pos (by omega)]
  · rw [if_neg below]
    split
    · exact (same a (by omega) (by assumption)).symm
    · rfl

theorem Writing.writes (h : Writing k o want base p s) {chunks : List (List Cell)}
    (wanted : ∀ i (hi : i < chunks.flatten.length), want (p + i) = chunks.flatten[i]) :
    Writing k o want base (p + chunks.flatten.length)
      (runCalls (before k) s (consecutive p chunks)) := by
  induction chunks generalizing p s with
  | nil => exact h
  | cons chunk rest ih =>
    have size : (chunk :: rest).flatten.length = chunk.length + rest.flatten.length := by
      rw [List.flatten_cons, List.length_append]
    have first : Writing k o want base (p + chunk.length) (usiMyWrite (before k) s p chunk) :=
      h.write fun i hi => by
        rw [wanted i (by omega)]
        simp only [List.flatten_cons]
        exact List.getElem_append_left hi
    have others := ih first fun i hi => by
      rw [Nat.add_assoc, wanted (chunk.length + i) (by omega)]
      simp only [List.flatten_cons]
      rw [List.getElem_append_right (Nat.le_add_right _ _)]
      congr 1
      omega
    rw [size, ← Nat.add_assoc]
    exact others

/-- The chip with nothing in the cache. -/
structure Fresh (o : Nat) (base : Flash) (s : Usi) : Prop where
  empty : s.g_uUSICacheAddr = none
  ops : s.chip.ops = o
  flash : s.chip.flash = base

/-- The first bytes, into the first sector. -/
theorem Fresh.write (h : Fresh o base s) {bytes : List Cell} (written : bytes ≠ [])
    (low : p < eraseSec)
    (same : ∀ a < p, want a = base a)
    (wanted : ∀ i (hi : i < bytes.length), want (p + i) = bytes[i]) :
    Writing k o want base (p + bytes.length) (usiMyWrite (before k) s p bytes) := by
  have sector : p - p % eraseSec = 0 ∧ (p - 1) / eraseSec = 0 := by
    unfold eraseSec at *
    omega
  obtain ⟨block, last⟩ := sector
  have loaded : usiLoad (before k) s 0 =
      { s with g_uUSICacheAddr := some 0, g_uUSI_BUF := fun i => s.chip.flash (0 + i) } := by
    simp [usiLoad, usiMyFlash, h.empty]
  have again : usiLoad (before k) (usiLoad (before k) s 0) 0 = usiLoad (before k) s 0 := by
    rw [loaded]
    simp [usiLoad]
  have started : Writing k o want base p (usiLoad (before k) s 0) := by
    rw [loaded]
    refine ⟨by rw [last]; rfl, by rw [last]; exact h.ops, ?_, fun _ i _ => ?_⟩
    · simp only [h.ops, h.flash]
      rw [show min k o - o = 0 by omega, cutFlash_zero]
    · simp only [last, h.flash, Nat.mul_zero, Nat.zero_add]
      split
      · exact (same i (by assumption)).symm
      · rfl
  have one : usiMyWrite (before k) s p bytes =
    usiMyWrite (before k) (usiLoad (before k) s 0) p bytes := by
    rw [usiMyWrite, if_neg written]
    conv => rhs; rw [usiMyWrite, if_neg written]
    simp only [block, again]
  rw [one]
  exact started.write wanted

/-- Writes of some bytes, from the first sector on. -/
theorem Fresh.writes (h : Fresh o base s) {chunks : List (List Cell)} (low : p < eraseSec)
    (same : ∀ a < p, want a = base a)
    (wanted : ∀ i (hi : i < chunks.flatten.length), want (p + i) = chunks.flatten[i]) :
    (chunks.flatten = [] ∧ Fresh o base (runCalls (before k) s (consecutive p chunks))) ∨
      Writing k o want base (p + chunks.flatten.length)
        (runCalls (before k) s (consecutive p chunks)) := by
  induction chunks with
  | nil => exact .inl ⟨rfl, h⟩
  | cons chunk rest ih =>
    cases chunk with
    | nil =>
      have none : usiMyWrite (before k) s p [] = s := by rw [usiMyWrite, if_pos rfl]
      have go := ih (by simpa using wanted)
      simpa [consecutive, runCalls, Call.run, none] using go
    | cons byte buf =>
      right
      have size : ((byte :: buf) :: rest).flatten.length =
          (byte :: buf).length + rest.flatten.length := by
        rw [List.flatten_cons, List.length_append]
      have first : Writing k o want base (p + (byte :: buf).length)
          (usiMyWrite (before k) s p (byte :: buf)) :=
            h.write (List.cons_ne_nil _ _) low same fun i hi => by
        rw [wanted i (by omega)]
        simp only [List.flatten_cons]
        exact List.getElem_append_left hi
      have others : Writing k o want base (p + (byte :: buf).length + rest.flatten.length) _ :=
        first.writes fun i hi => by
          rw [Nat.add_assoc, wanted ((byte :: buf).length + i) (by omega)]
          simp only [List.flatten_cons]
          rw [List.getElem_append_right (Nat.le_add_right _ _)]
          congr 1
          omega
      rw [size, ← Nat.add_assoc]
      exact others

end Rovio.Firmware
