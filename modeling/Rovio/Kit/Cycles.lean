import Mathlib.Data.Nat.ModEq
import Mathlib.Data.Int.GCD
import Mathlib.Data.List.Nodup

/-! The cycles of a rotation. Stepping by `h` around a ring of `n` places visits
the places of one residue modulo `gcd h n`, each once, before it returns. -/
namespace Kit

variable {n h : Nat}

theorem cycle_residue (i k : Nat) : (i + k * h) % n % Nat.gcd h n = i % Nat.gcd h n := by
  rw [Nat.mod_mod_of_dvd _ (Nat.gcd_dvd_right h n)]
  exact (Nat.modEq_zero_iff_dvd.mpr (Dvd.dvd.mul_left (Nat.gcd_dvd_left h n) k)).add_left i

/-- A whole number of cycles makes no difference. -/
theorem cycle_period (k c : Nat) : (k + c * (n / Nat.gcd h n)) * h ≡ k * h [MOD n] := by
  obtain ⟨d, hd⟩ := Nat.gcd_dvd_left h n
  have whole : c * (n / Nat.gcd h n) * h = n * (c * d) := by
    calc c * (n / Nat.gcd h n) * h = c * (n / Nat.gcd h n) * (Nat.gcd h n * d) := by rw [← hd]
      _ = n / Nat.gcd h n * Nat.gcd h n * (c * d) := by ac_rfl
      _ = n * (c * d) := by rw [Nat.div_mul_cancel (Nat.gcd_dvd_right h n)]
  rw [Nat.add_mul, whole]
  exact (Nat.modEq_zero_iff_dvd.mpr (Dvd.intro _ rfl)).add_left (k * h)

theorem cycle_return (i : Nat) : (i + n / Nat.gcd h n * h) % n = i % n := by
  have back := (cycle_period (n := n) (h := h) 0 1).add_left i
  rwa [Nat.zero_add, Nat.one_mul, Nat.zero_mul, Nat.add_zero] at back

/-- Two visits of a place within one period are the same visit. -/
theorem cycle_inj (pos : 0 < n) {i j k : Nat} (hj : j < n / Nat.gcd h n)
    (hk : k < n / Nat.gcd h n) (same : (i + j * h) % n = (i + k * h) % n) : j = k := by
  have steps : j * h ≡ k * h [MOD n] := Nat.ModEq.add_left_cancel' i same
  have reduced : j ≡ k [MOD n / Nat.gcd n h] := Nat.ModEq.cancel_right_div_gcd pos steps
  rw [Nat.gcd_comm] at reduced
  exact reduced.eq_of_lt_of_lt hj hk

/-- Some number of steps comes as close as the gcd. -/
theorem cycle_gcd (pos : 0 < n) : ∃ m, m * h ≡ Nat.gcd h n [MOD n] := by
  rcases Nat.lt_or_ge (Nat.gcd h n) n with less | all
  · obtain ⟨m, _, hm⟩ := Nat.exists_mul_mod_eq_gcd less
    refine ⟨m, ?_⟩
    rw [Nat.mul_comm]
    exact hm.trans (Nat.mod_eq_of_lt less).symm
  · have same : Nat.gcd h n = n := Nat.le_antisymm (Nat.gcd_le_right h pos) all
    refine ⟨0, ?_⟩
    rw [same, Nat.zero_mul]
    exact (Nat.modEq_zero_iff_dvd.mpr (Nat.dvd_refl n)).symm

/-- Every place lies on the cycle of its residue. -/
theorem cycle_cover (pos : 0 < n) {p : Nat} (hp : p < n) :
    ∃ k < n / Nat.gcd h n, (p % Nat.gcd h n + k * h) % n = p := by
  have gpos : 0 < Nat.gcd h n := Nat.gcd_pos_of_pos_right h pos
  have npos : 0 < n / Nat.gcd h n :=
    Nat.div_pos (Nat.le_of_dvd pos (Nat.gcd_dvd_right h n)) gpos
  obtain ⟨m, hm⟩ := cycle_gcd (h := h) pos
  let k := p / Nat.gcd h n * m
  refine ⟨k % (n / Nat.gcd h n), Nat.mod_lt _ npos, ?_⟩
  have fold : k % (n / Nat.gcd h n) * h ≡ k * h [MOD n] := by
    have period := cycle_period (n := n) (h := h) (k % (n / Nat.gcd h n)) (k / (n / Nat.gcd h n))
    rw [Nat.mul_comm (k / _), Nat.mod_add_div] at period
    exact period.symm
  have reach : k * h ≡ p / Nat.gcd h n * Nat.gcd h n [MOD n] := by
    simp only [k, Nat.mul_assoc]
    exact hm.mul_left _
  have whole := (fold.trans reach).add_left (p % Nat.gcd h n)
  rw [Nat.mul_comm (p / _), Nat.mod_add_div] at whole
  exact Eq.trans whole (Nat.mod_eq_of_lt hp)

/-- The places from `i` on, up to the return. -/
def cycle (n h i : Nat) : List Nat := (List.range (n / Nat.gcd h n)).map fun k => (i + k * h) % n

theorem cycle_mem {i p : Nat} : p ∈ cycle n h i ↔ ∃ k < n / Nat.gcd h n, (i + k * h) % n = p := by
  unfold cycle
  rw [List.mem_map]
  constructor
  · rintro ⟨k, mem, same⟩
    exact ⟨k, List.mem_range.mp mem, same⟩
  · rintro ⟨k, few, same⟩
    exact ⟨k, List.mem_range.mpr few, same⟩

theorem cycle_nodup (pos : 0 < n) (i : Nat) : (cycle n h i).Nodup := by
  refine List.Nodup.map_on ?_ List.nodup_range
  intro j hj k hk same
  exact cycle_inj pos (List.mem_range.mp hj) (List.mem_range.mp hk) same

/-- The cycles of all residues together visit each place of the ring once. -/
theorem cycles_perm (pos : 0 < n) :
    ((List.range (Nat.gcd h n)).flatMap (cycle n h)).Perm (List.range n) := by
  have nodup : ((List.range (Nat.gcd h n)).flatMap (cycle n h)).Nodup := by
    apply List.nodup_flatMap.mpr
    refine ⟨fun i _ => cycle_nodup pos i, ?_⟩
    apply List.Pairwise.imp_of_mem _ (List.nodup_range (n := Nat.gcd h n))
    intro i j hi hj apart p left right
    obtain ⟨k, -, rfl⟩ := cycle_mem.mp left
    obtain ⟨l, -, same⟩ := cycle_mem.mp right
    have residue := cycle_residue (n := n) (h := h) j l
    rw [same, cycle_residue, Nat.mod_eq_of_lt (List.mem_range.mp hi),
      Nat.mod_eq_of_lt (List.mem_range.mp hj)] at residue
    exact apart residue
  apply (List.perm_ext_iff_of_nodup nodup List.nodup_range).mpr
  intro p
  rw [List.mem_flatMap, List.mem_range]
  constructor
  · rintro ⟨i, -, mem⟩
    obtain ⟨k, -, rfl⟩ := cycle_mem.mp mem
    exact Nat.mod_lt _ pos
  · intro inside
    have residue := Nat.mod_lt p (Nat.gcd_pos_of_pos_right h pos)
    exact ⟨p % Nat.gcd h n, List.mem_range.mpr residue, cycle_mem.mpr (cycle_cover pos inside)⟩

end Kit
