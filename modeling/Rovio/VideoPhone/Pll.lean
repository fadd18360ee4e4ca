import Mathlib.Data.List.Basic
import Mathlib.Tactic.NormNum
import Mathlib.Tactic.Ring

/-! The search for the dividers of a PLL. -/
namespace Rovio.VideoPhone

/-- A product of 32-bit words, and one of 64-bit words. -/
def u32 (n : Nat) : Nat := n % 4294967296
def u64 (n : Nat) : Nat := n % 18446744073709551616

def pllCalcFOUT (uFIN uPLLCON : Nat) : Nat :=
  let uOUT_DV := (uPLLCON &&& 0x00006000) >>> 13
  let uIN_DV := (uPLLCON &&& 0x00001F00) >>> 8
  let uFB_DV := (uPLLCON &&& 0x000000FF) >>> 0
  if uOUT_DV = 0 ∨ uIN_DV = 0 ∨ uFB_DV = 0 then 0
  else
    let uNR := uIN_DV
    let uNF := 2 * uFB_DV
    let uNO := 1 <<< (uOUT_DV - 1)
    let u64FOUT := u64 (uFIN * uNF) / uNR / uNO
    if u64FOUT >>> 32 ≠ 0 then 0 else u64FOUT

def pllPatchPLLCON (uOUT_DV uIN_DV uFB_DV : Nat) : Nat :=
  (uOUT_DV <<< 13 &&& 0x00006000) ||| (uIN_DV <<< 8 &&& 0x00001F00) |||
    (uFB_DV <<< 0 &&& 0x000000FF)

def mathAbs (a b : Nat) : Nat := if a > b then a - b else b - a

/-- A value for PLLCON and the frequency it gives. -/
structure Setting where
  uPLLCON : Nat
  uFOUT_new : Nat
  deriving DecidableEq

/-- A new setting is taken if it is not farther from `uFOUT`. -/
def Setting.replace (uFOUT : Nat) (old new : Setting) : Setting :=
  if mathAbs new.uFOUT_new uFOUT ≤ mathAbs old.uFOUT_new uFOUT then new else old

/-- The range that is asked of the VCO's frequency. -/
structure Window where
  uMinFCO : Nat
  uMaxFCO : Nat

def Setting.tryFB (uFIN uFOUT uOUT_DV uIN_DV u64FB_DV : Nat) (old : Setting) : Setting :=
  if 1 ≤ u64FB_DV ∧ u64FB_DV ≤ 255 then
    let uPLLCON := pllPatchPLLCON uOUT_DV uIN_DV u64FB_DV
    old.replace uFOUT ⟨uPLLCON, pllCalcFOUT uFIN uPLLCON⟩
  else old

def pllTry (uFIN uFOUT uOUT_DV uIN_DV : Nat) (w : Window) : Setting :=
  let uNR := uIN_DV
  if ¬ (u32 (2000000 * uNR) < uFIN ∧ uFIN < u32 (8000000 * uNR)) then ⟨0, 0⟩
  else
    let uNO := 1 <<< (uOUT_DV - 1)
    if ¬ (w.uMinFCO < u32 (uFOUT * uNO) ∧ u32 (uFOUT * uNO) < w.uMaxFCO) then ⟨0, 0⟩
    else
      let u64NF := u64 (u64 (uFOUT * uNR) * uNO) / uFIN
      let u64FB_DV := u64NF / 2
      let first := Setting.tryFB uFIN uFOUT uOUT_DV uIN_DV u64FB_DV ⟨0, 0⟩
      first.tryFB uFIN uFOUT uOUT_DV uIN_DV (u64FB_DV + 1)

/-- The rounds of the two loops. -/
def rounds : List (Nat × Nat) :=
  [3, 2, 1].flatMap fun uOUT_DV => (List.range 31).map fun n => (uOUT_DV, 31 - n)

/-- `__pllEvalPLLCON`. -/
def pllEvalWindow (uFIN uFOUT : Nat) (w : Window) : Setting :=
  rounds.foldl (fun best round =>
    best.replace uFOUT (pllTry uFIN uFOUT round.1 round.2 w)) ⟨0, 0⟩

def windows : List Window :=
  [⟨200000000, 400000000⟩, ⟨190000000, 200000001⟩, ⟨400000000, 410000001⟩,
    ⟨180000000, 190000001⟩, ⟨410000000, 420000001⟩, ⟨170000000, 180000001⟩,
    ⟨430000000, 440000001⟩]

/-- PLLCON, or `none` where the system is halted. -/
def pllEval (uFIN uFOUT : Nat) : List Window → Option Nat
  | [] => none
  | w :: rest =>
    let uPLLCON := (pllEvalWindow uFIN uFOUT w).uPLLCON
    if uPLLCON = 0 then pllEval uFIN uFOUT rest else some uPLLCON

def pllEvalPLLCON (uFIN uFOUT : UInt32) : Option Nat :=
  pllEval uFIN.toNat uFOUT.toNat windows

/-- Values for the three fields. -/
structure Dividers where
  uOUT_DV : Nat
  uIN_DV : Nat
  uFB_DV : Nat
  deriving DecidableEq

def Dividers.uNO (d : Dividers) : Nat := 1 <<< (d.uOUT_DV - 1)

def Dividers.patch (d : Dividers) : Nat := pllPatchPLLCON d.uOUT_DV d.uIN_DV d.uFB_DV

/-- The frequency that the dividers give. -/
def Dividers.fout (d : Dividers) (uFIN : Nat) : Nat := uFIN * (2 * d.uFB_DV) / d.uIN_DV / d.uNO

def Dividers.error (d : Dividers) (uFIN uFOUT : Nat) : Nat := mathAbs (d.fout uFIN) uFOUT

/-- What the fields admit. -/
structure Dividers.Admitted (d : Dividers) : Prop where
  out : 1 ≤ d.uOUT_DV ∧ d.uOUT_DV ≤ 3
  inn : 1 ≤ d.uIN_DV ∧ d.uIN_DV ≤ 31
  fb : 1 ≤ d.uFB_DV ∧ d.uFB_DV ≤ 255

/-- The dividers are admitted, their input is in its range, and the VCO's frequency that the
target asks for is in the window. -/
structure Dividers.Qualifies (d : Dividers) (uFIN uFOUT : Nat) (w : Window) : Prop where
  admitted : d.Admitted
  input : 2000000 * d.uIN_DV < uFIN ∧ uFIN < 8000000 * d.uIN_DV
  window : w.uMinFCO < uFOUT * d.uNO ∧ uFOUT * d.uNO < w.uMaxFCO

theorem uNO_cases {d : Dividers} (admitted : d.Admitted) : d.uNO = 1 ∨ d.uNO = 2 ∨ d.uNO = 4 := by
  obtain ⟨low, high⟩ := admitted.out
  have out : d.uOUT_DV = 1 ∨ d.uOUT_DV = 2 ∨ d.uOUT_DV = 3 := by omega
  unfold Dividers.uNO
  rcases out with one | two | three
  · rw [one]
    exact .inl rfl
  · rw [two]
    exact .inr (.inl rfl)
  · rw [three]
    exact .inr (.inr rfl)

section Fields

theorem out_field {n : Nat} (small : n ≤ 3) : n <<< 13 &&& 0x00006000 = n * 8192 := by
  have all : ∀ n : Fin 4, n.val <<< 13 &&& 0x00006000 = n.val * 8192 := by decide
  exact all ⟨n, by omega⟩

theorem in_field {n : Nat} (small : n ≤ 31) : n <<< 8 &&& 0x00001F00 = n * 256 := by
  have all : ∀ n : Fin 32, n.val <<< 8 &&& 0x00001F00 = n.val * 256 := by decide
  exact all ⟨n, by omega⟩

theorem fb_field {n : Nat} (small : n ≤ 255) : n <<< 0 &&& 0x000000FF = n := by
  have all : ∀ n : Fin 256, n.val <<< 0 &&& 0x000000FF = n.val := by decide +kernel
  exact all ⟨n, by omega⟩

theorem patch_sum {d : Dividers} (admitted : d.Admitted) :
    d.patch = d.uOUT_DV * 8192 + d.uIN_DV * 256 + d.uFB_DV := by
  obtain ⟨⟨_, out⟩, ⟨_, inn⟩, ⟨_, fb⟩⟩ := admitted
  unfold Dividers.patch pllPatchPLLCON
  rw [out_field out, in_field inn, fb_field fb]
  have upper : d.uOUT_DV * 8192 ||| d.uIN_DV * 256 = d.uOUT_DV * 8192 + d.uIN_DV * 256 := by
    have joined := Nat.shiftLeft_add_eq_or_of_lt (i := 13)
      (show d.uIN_DV * 256 < 2 ^ 13 by omega) d.uOUT_DV
    rw [Nat.shiftLeft_eq] at joined
    norm_num at joined
    exact joined.symm
  have lower : (d.uOUT_DV * 8192 + d.uIN_DV * 256) ||| d.uFB_DV =
      d.uOUT_DV * 8192 + d.uIN_DV * 256 + d.uFB_DV := by
    have joined := Nat.shiftLeft_add_eq_or_of_lt (i := 8) (show d.uFB_DV < 2 ^ 8 by omega)
      (d.uOUT_DV * 32 + d.uIN_DV)
    have high : (d.uOUT_DV * 32 + d.uIN_DV) <<< 8 = d.uOUT_DV * 8192 + d.uIN_DV * 256 := by
      rw [Nat.shiftLeft_eq]
      omega
    rw [high] at joined
    exact joined.symm
  rw [upper, lower]

theorem patch_out {d : Dividers} (admitted : d.Admitted) :
    (d.patch &&& 0x00006000) >>> 13 = d.uOUT_DV := by
  rw [Nat.shiftRight_and_distrib, show (0x00006000 : Nat) >>> 13 = 2 ^ 2 - 1 from rfl,
    Nat.and_two_pow_sub_one_eq_mod, Nat.shiftRight_eq_div_pow, patch_sum admitted]
  obtain ⟨⟨_, out⟩, ⟨_, inn⟩, ⟨_, fb⟩⟩ := admitted
  omega

theorem patch_in {d : Dividers} (admitted : d.Admitted) :
    (d.patch &&& 0x00001F00) >>> 8 = d.uIN_DV := by
  rw [Nat.shiftRight_and_distrib, show (0x00001F00 : Nat) >>> 8 = 2 ^ 5 - 1 from rfl,
    Nat.and_two_pow_sub_one_eq_mod, Nat.shiftRight_eq_div_pow, patch_sum admitted]
  obtain ⟨⟨_, out⟩, ⟨_, inn⟩, ⟨_, fb⟩⟩ := admitted
  omega

theorem patch_fb {d : Dividers} (admitted : d.Admitted) :
    (d.patch &&& 0x000000FF) >>> 0 = d.uFB_DV := by
  rw [Nat.shiftRight_zero, show (0x000000FF : Nat) = 2 ^ 8 - 1 from rfl,
    Nat.and_two_pow_sub_one_eq_mod, patch_sum admitted]
  obtain ⟨⟨_, out⟩, ⟨_, inn⟩, ⟨_, fb⟩⟩ := admitted
  omega

/-- The word that the fields are put into is read back. -/
theorem calc_patch {d : Dividers} (admitted : d.Admitted) {uFIN : Nat}
    (word : uFIN < 4294967296) (small : d.fout uFIN < 4294967296) :
    pllCalcFOUT uFIN d.patch = d.fout uFIN := by
  have product : uFIN * (2 * d.uFB_DV) < 18446744073709551616 := by
    have bound := Nat.mul_le_mul (Nat.le_of_lt word) (show 2 * d.uFB_DV ≤ 510 by
      have := admitted.fb
      omega)
    omega
  have kept : u64 (uFIN * (2 * d.uFB_DV)) = uFIN * (2 * d.uFB_DV) := Nat.mod_eq_of_lt product
  unfold pllCalcFOUT
  simp only [patch_out admitted, patch_in admitted, patch_fb admitted]
  have some : ¬ (d.uOUT_DV = 0 ∨ d.uIN_DV = 0 ∨ d.uFB_DV = 0) := by
    obtain ⟨⟨out, _⟩, ⟨inn, _⟩, ⟨fb, _⟩⟩ := admitted
    omega
  rw [if_neg some, kept]
  show (if d.fout uFIN >>> 32 ≠ 0 then 0 else d.fout uFIN) = d.fout uFIN
  have high : d.fout uFIN >>> 32 = 0 := by
    rw [Nat.shiftRight_eq_div_pow]
    exact Nat.div_eq_of_lt small
  rw [high, if_neg (not_not.mpr rfl)]

end Fields

section Nearest
variable {f : Nat → Nat} {y q n : Nat}

/-- Of a growing sequence the two values around `y` are the nearest to it. -/
theorem nearest_below (grows : ∀ n m, n ≤ m → f n ≤ f m) (below : f q ≤ y) (early : n ≤ q) :
    mathAbs (f q) y ≤ mathAbs (f n) y := by
  have smaller := grows n q early
  unfold mathAbs
  rw [if_neg (by omega), if_neg (by omega)]
  omega

theorem nearest_above (grows : ∀ n m, n ≤ m → f n ≤ f m) (above : y ≤ f q) (late : q ≤ n) :
    mathAbs (f q) y ≤ mathAbs (f n) y := by
  have larger := grows q n late
  unfold mathAbs
  split <;> split <;> omega

end Nearest

section Try
variable {uFIN uFOUT o i : Nat} {w : Window}

/-- The windows that are tried are far below 32 bits. -/
def Window.Sane (w : Window) : Prop := 170000000 ≤ w.uMinFCO ∧ w.uMaxFCO ≤ 440000001

theorem windows_sane : ∀ w ∈ windows, w.Sane := by
  unfold Window.Sane
  decide

/-- Dividers with one feedback value or another. -/
def withFB (o i n : Nat) : Dividers := ⟨o, i, n⟩

theorem fout_withFB (n : Nat) :
    (withFB o i n).fout uFIN = uFIN * (2 * n) / (i * (withFB o i 1).uNO) := by
  unfold Dividers.fout
  exact Nat.div_div_eq_div_mul ..

theorem fout_grows (n m : Nat) (le : n ≤ m) :
    (withFB o i n).fout uFIN ≤ (withFB o i m).fout uFIN := by
  rw [fout_withFB, fout_withFB]
  exact Nat.div_le_div_right (Nat.mul_le_mul_left _ (Nat.mul_le_mul_left _ le))

/-- The feedback value at which the target is passed. -/
def feedback (uFIN uFOUT o i : Nat) : Nat := uFOUT * (withFB o i 1).uNO * i / uFIN / 2

/-- With the input in its range the feedback value is that of the VCO's frequency over 16 MHz at
least and over 4 MHz at most. -/
theorem feedback_low (input : uFIN < 8000000 * i) {p : Nat}
    (large : p * 16000000 ≤ uFOUT * (withFB o i 1).uNO) (some : 0 < uFIN) :
    p ≤ feedback uFIN uFOUT o i := by
  unfold feedback
  generalize uFOUT * (withFB o i 1).uNO = target at *
  have scaled : p * 16000000 * i ≤ target * i := Nat.mul_le_mul_right i large
  have factor : 2 * p * uFIN ≤ 2 * p * (8000000 * i) :=
    Nat.mul_le_mul_left _ (Nat.le_of_lt input)
  have same : 2 * p * (8000000 * i) = p * 16000000 * i := by ring
  have quotient : 2 * p ≤ target * i / uFIN := by
    apply (Nat.le_div_iff_mul_le some).mpr
    omega
  omega

theorem feedback_high (input : 2000000 * i < uFIN)
    (small : uFOUT * (withFB o i 1).uNO < 440000001) : feedback uFIN uFOUT o i ≤ 110 := by
  unfold feedback
  generalize uFOUT * (withFB o i 1).uNO = target at *
  have scaled : target * i ≤ 440000000 * i := Nat.mul_le_mul_right i (by omega)
  have quotient : target * i / uFIN ≤ 220 := by
    apply Nat.le_of_lt_succ
    apply (Nat.div_lt_iff_lt_mul (by omega)).mpr
    omega
  omega

/-- The target lies between the frequencies of the feedback value and the next. -/
theorem feedback_around (some : 0 < uFIN) :
    uFIN * (2 * feedback uFIN uFOUT o i) ≤ uFOUT * (withFB o i 1).uNO * i ∧
      uFOUT * (withFB o i 1).uNO * i < uFIN * (2 * (feedback uFIN uFOUT o i + 1)) := by
  unfold feedback
  generalize uFOUT * (withFB o i 1).uNO * i = target
  have below := Nat.mul_div_le target uFIN
  have above := Nat.lt_mul_div_succ target some
  have low : uFIN * (2 * (target / uFIN / 2)) ≤ uFIN * (target / uFIN) :=
    Nat.mul_le_mul_left _ (by omega)
  have high : uFIN * (target / uFIN + 1) ≤ uFIN * (2 * (target / uFIN / 2 + 1)) :=
    Nat.mul_le_mul_left _ (by omega)
  omega

theorem fout_below (some : 0 < uFIN) :
    (withFB o i (feedback uFIN uFOUT o i)).fout uFIN ≤ uFOUT := by
  rw [fout_withFB]
  apply Nat.div_le_of_le_mul
  have below := (@feedback_around uFIN uFOUT o i some).1
  have same : uFOUT * (withFB o i 1).uNO * i = i * (withFB o i 1).uNO * uFOUT := by ring
  omega

theorem fout_above (some : 0 < uFIN) (fields : 0 < i * (withFB o i 1).uNO) :
    uFOUT ≤ (withFB o i (feedback uFIN uFOUT o i + 1)).fout uFIN := by
  rw [fout_withFB]
  apply (Nat.le_div_iff_mul_le fields).mpr
  have above := (@feedback_around uFIN uFOUT o i some).2
  have same : uFOUT * (withFB o i 1).uNO * i = uFOUT * (i * (withFB o i 1).uNO) := by ring
  omega

theorem fout_near (some : 0 < uFIN) (fields : 0 < i * (withFB o i 1).uNO)
    (input : uFIN < 8000000 * i) :
    (withFB o i (feedback uFIN uFOUT o i + 1)).fout uFIN ≤ uFOUT + 16000000 := by
  rw [fout_withFB]
  apply Nat.div_le_of_le_mul
  have below := (@feedback_around uFIN uFOUT o i some).1
  have same : i * (withFB o i 1).uNO * (uFOUT + 16000000) =
      uFOUT * (withFB o i 1).uNO * i + 16000000 * (i * (withFB o i 1).uNO) := by ring
  have wide : 16000000 * i ≤ 16000000 * (i * (withFB o i 1).uNO) := by
    apply Nat.mul_le_mul_left
    exact Nat.le_mul_of_pos_right i (Nat.pos_of_mul_pos_left fields)
  have next : uFIN * (2 * (feedback uFIN uFOUT o i + 1)) =
      uFIN * (2 * feedback uFIN uFOUT o i) + 2 * uFIN := by ring
  omega

theorem fout_positive (input : 2000000 * i < uFIN) (fields : 0 < i * (withFB o i 1).uNO)
    (few : (withFB o i 1).uNO ≤ 4) {n : Nat} (positive : 1 ≤ n) :
    0 < (withFB o i n).fout uFIN := by
  rw [fout_withFB]
  apply Nat.div_pos _ fields
  have left : i * (withFB o i 1).uNO ≤ i * 4 := Nat.mul_le_mul_left i few
  have right : uFIN * 2 ≤ uFIN * (2 * n) := Nat.mul_le_mul_left _ (by omega)
  omega

/-- What a round finds when its input and the target's VCO frequency are in their ranges: the
best of all feedback values. -/
structure Found (uFIN uFOUT o i : Nat) (w : Window) (n : Nat) : Prop where
  qualifies : (withFB o i n).Qualifies uFIN uFOUT w
  result : pllTry uFIN uFOUT o i w = ⟨(withFB o i n).patch, (withFB o i n).fout uFIN⟩
  near : (withFB o i n).error uFIN uFOUT < uFOUT
  best : ∀ m, (withFB o i n).error uFIN uFOUT ≤ (withFB o i m).error uFIN uFOUT
  vco : mathAbs (uFIN * (2 * n)) (uFOUT * (withFB o i n).uNO * i) ≤ 2 * uFIN

theorem try_found (word : uFIN < 4294967296) (target : uFOUT < 4294967296) (sane : w.Sane)
    {m : Nat} (qualifies : (withFB o i m).Qualifies uFIN uFOUT w) :
    ∃ n, Found uFIN uFOUT o i w n := by
  obtain ⟨⟨out, inn, _⟩, ⟨slow, fast⟩, ⟨above, below⟩⟩ := qualifies
  have few : (withFB o i 1).uNO = 1 ∨ (withFB o i 1).uNO = 2 ∨ (withFB o i 1).uNO = 4 :=
    uNO_cases ⟨out, inn, Nat.le_refl 1, (by decide : 1 ≤ 255)⟩
  have above : w.uMinFCO < uFOUT * (withFB o i 1).uNO := above
  have below : uFOUT * (withFB o i 1).uNO < w.uMaxFCO := below
  have inn : 1 ≤ i ∧ i ≤ 31 := inn
  have slow : 2000000 * i < uFIN := slow
  have fast : uFIN < 8000000 * i := fast
  obtain ⟨least, most⟩ := sane
  have some : 0 < uFIN := by omega
  have fields : 0 < i * (withFB o i 1).uNO := Nat.mul_pos (by omega) (by omega)
  have low : 10 ≤ feedback uFIN uFOUT o i := feedback_low fast (by omega) some
  have high : feedback uFIN uFOUT o i ≤ 110 := feedback_high slow (by omega)
  have small : uFOUT ≤ uFOUT * (withFB o i 1).uNO :=
    Nat.le_mul_of_pos_right uFOUT (by omega)
  have around := @feedback_around uFIN uFOUT o i some
  have under := @fout_below uFIN uFOUT o i some
  have beyond := @fout_above uFIN uFOUT o i some fields
  have near := @fout_near uFIN uFOUT o i some fields fast
  have positive := fout_positive slow fields (by omega) (n := feedback uFIN uFOUT o i)
    (by omega)
  have admitted : ∀ n, 1 ≤ n ∧ n ≤ 255 → (withFB o i n).Admitted :=
    fun n fb => ⟨out, inn, fb⟩
  have next : uFIN * (2 * (feedback uFIN uFOUT o i + 1)) =
      uFIN * (2 * feedback uFIN uFOUT o i) + 2 * uFIN := by ring
  -- the two products with the target keep all their bits
  have exact : u64 (u64 (uFOUT * i) * (withFB o i 1).uNO) / uFIN / 2 =
      feedback uFIN uFOUT o i := by
    have inner : uFOUT * i ≤ 4294967296 * 31 := Nat.mul_le_mul (by omega) inn.2
    have outer : uFOUT * i * (withFB o i 1).uNO ≤ 4294967296 * 31 * 4 :=
      Nat.mul_le_mul inner (by omega)
    have first : u64 (uFOUT * i) = uFOUT * i := Nat.mod_eq_of_lt (by omega)
    have second : u64 (uFOUT * i * (withFB o i 1).uNO) = uFOUT * i * (withFB o i 1).uNO :=
      Nat.mod_eq_of_lt (by omega)
    unfold feedback
    rw [first, second, Nat.mul_right_comm]
  generalize feedback uFIN uFOUT o i = q at *
  have passed : pllTry uFIN uFOUT o i w =
      Setting.tryFB uFIN uFOUT o i (q + 1) (Setting.tryFB uFIN uFOUT o i q ⟨0, 0⟩) := by
    have nr : u32 (2000000 * i) = 2000000 * i := Nat.mod_eq_of_lt (by omega)
    have nr' : u32 (8000000 * i) = 8000000 * i := Nat.mod_eq_of_lt (by omega)
    have fco : u32 (uFOUT * (withFB o i 1).uNO) = uFOUT * (withFB o i 1).uNO :=
      Nat.mod_eq_of_lt (by omega)
    unfold pllTry
    show (if _ then _ else if ¬ (w.uMinFCO < u32 (uFOUT * (withFB o i 1).uNO) ∧
      u32 (uFOUT * (withFB o i 1).uNO) < w.uMaxFCO) then _ else
        Setting.tryFB uFIN uFOUT o i (u64 (u64 (uFOUT * i) * (withFB o i 1).uNO) / uFIN / 2 + 1)
          (Setting.tryFB uFIN uFOUT o i
            (u64 (u64 (uFOUT * i) * (withFB o i 1).uNO) / uFIN / 2) ⟨0, 0⟩)) = _
    rw [nr, nr', fco, exact, if_neg (not_not.mpr ⟨slow, fast⟩),
      if_neg (not_not.mpr ⟨above, below⟩)]
  have below_all : ∀ n, n ≤ q → (withFB o i q).error uFIN uFOUT ≤ (withFB o i n).error uFIN uFOUT :=
    fun n early => nearest_below (f := fun n => (withFB o i n).fout uFIN) fout_grows under early
  have above_all : ∀ n, q + 1 ≤ n →
      (withFB o i (q + 1)).error uFIN uFOUT ≤ (withFB o i n).error uFIN uFOUT :=
    fun n late => nearest_above (f := fun n => (withFB o i n).fout uFIN) fout_grows beyond late
  have first : Setting.tryFB uFIN uFOUT o i q ⟨0, 0⟩ =
      ⟨(withFB o i q).patch, (withFB o i q).fout uFIN⟩ := by
    have read := calc_patch (admitted q (by omega)) word (by omega)
    unfold Setting.tryFB Setting.replace
    rw [if_pos (by omega)]
    show (if mathAbs (pllCalcFOUT uFIN (withFB o i q).patch) uFOUT ≤ mathAbs 0 uFOUT then
      (⟨_, pllCalcFOUT uFIN (withFB o i q).patch⟩ : Setting) else _) = _
    rw [read, if_pos]
    · rfl
    · unfold mathAbs
      rw [if_neg (by omega), if_neg (by omega)]
      omega
  have second : Setting.tryFB uFIN uFOUT o i (q + 1)
      ⟨(withFB o i q).patch, (withFB o i q).fout uFIN⟩ =
      if (withFB o i (q + 1)).error uFIN uFOUT ≤ (withFB o i q).error uFIN uFOUT then
        ⟨(withFB o i (q + 1)).patch, (withFB o i (q + 1)).fout uFIN⟩
      else ⟨(withFB o i q).patch, (withFB o i q).fout uFIN⟩ := by
    have read := calc_patch (admitted (q + 1) (by omega)) word (by omega)
    unfold Setting.tryFB Setting.replace
    rw [if_pos (by omega)]
    show (if mathAbs (pllCalcFOUT uFIN (withFB o i (q + 1)).patch) uFOUT ≤ _ then
      (⟨_, pllCalcFOUT uFIN (withFB o i (q + 1)).patch⟩ : Setting) else _) = _
    rw [read]
    rfl
  rw [first, second] at passed
  have close : (withFB o i q).error uFIN uFOUT < uFOUT := by
    unfold Dividers.error mathAbs
    rw [if_neg (by omega)]
    omega
  by_cases better : (withFB o i (q + 1)).error uFIN uFOUT ≤ (withFB o i q).error uFIN uFOUT
  · rw [if_pos better] at passed
    refine ⟨q + 1, ⟨admitted (q + 1) (by omega), ⟨slow, fast⟩, above, below⟩, passed,
      Nat.lt_of_le_of_lt better close, ?_, ?_⟩
    · intro n
      rcases Nat.lt_or_ge q n with late | early
      · exact above_all n late
      · exact Nat.le_trans better (below_all n early)
    · show mathAbs _ (uFOUT * (withFB o i 1).uNO * i) ≤ _
      unfold mathAbs
      split <;> omega
  · rw [if_neg better] at passed
    refine ⟨q, ⟨admitted q (by omega), ⟨slow, fast⟩, above, below⟩, passed, close, ?_, ?_⟩
    · intro n
      rcases Nat.lt_or_ge q n with late | early
      · exact Nat.le_trans (Nat.le_of_lt (Nat.lt_of_not_ge better)) (above_all n late)
      · exact below_all n early
    · show mathAbs _ (uFOUT * (withFB o i 1).uNO * i) ≤ _
      unfold mathAbs
      split <;> omega

/-- A round finds nothing where no dividers qualify, also where the product of the target and
NO loses bits: then the feedback value is beyond its field. -/
theorem try_nothing (target : uFOUT < 4294967296) (sane : w.Sane)
    (fields : (withFB o i 1).Admitted) (none : ¬ (withFB o i 1).Qualifies uFIN uFOUT w) :
    pllTry uFIN uFOUT o i w = ⟨0, 0⟩ := by
  have few := uNO_cases fields
  have inn : 1 ≤ i ∧ i ≤ 31 := fields.inn
  obtain ⟨least, most⟩ := sane
  have nr : u32 (2000000 * i) = 2000000 * i := Nat.mod_eq_of_lt (by omega)
  have nr' : u32 (8000000 * i) = 8000000 * i := Nat.mod_eq_of_lt (by omega)
  unfold pllTry
  show (if ¬ (u32 (2000000 * i) < uFIN ∧ uFIN < u32 (8000000 * i)) then _ else
    if ¬ (w.uMinFCO < u32 (uFOUT * (withFB o i 1).uNO) ∧
      u32 (uFOUT * (withFB o i 1).uNO) < w.uMaxFCO) then _ else
      Setting.tryFB uFIN uFOUT o i (u64 (u64 (uFOUT * i) * (withFB o i 1).uNO) / uFIN / 2 + 1)
        (Setting.tryFB uFIN uFOUT o i
          (u64 (u64 (uFOUT * i) * (withFB o i 1).uNO) / uFIN / 2) ⟨0, 0⟩)) = _
  rw [nr, nr']
  by_cases input : 2000000 * i < uFIN ∧ uFIN < 8000000 * i
  · rw [if_neg (not_not.mpr input)]
    by_cases seen : w.uMinFCO < u32 (uFOUT * (withFB o i 1).uNO) ∧
        u32 (uFOUT * (withFB o i 1).uNO) < w.uMaxFCO
    · rw [if_neg (not_not.mpr seen)]
      have lost : 4294967296 ≤ uFOUT * (withFB o i 1).uNO := by
        by_contra kept
        have whole : u32 (uFOUT * (withFB o i 1).uNO) = uFOUT * (withFB o i 1).uNO :=
          Nat.mod_eq_of_lt (by omega)
        rw [whole] at seen
        exact none ⟨fields, input, seen⟩
      have inner : uFOUT * i ≤ 4294967296 * 31 := Nat.mul_le_mul (by omega) inn.2
      have outer : uFOUT * i * (withFB o i 1).uNO ≤ 4294967296 * 31 * 4 :=
        Nat.mul_le_mul inner (by omega)
      have first : u64 (uFOUT * i) = uFOUT * i := Nat.mod_eq_of_lt (by omega)
      have second : u64 (uFOUT * i * (withFB o i 1).uNO) = uFOUT * i * (withFB o i 1).uNO :=
        Nat.mod_eq_of_lt (by omega)
      have far : 256 ≤ feedback uFIN uFOUT o i :=
        feedback_low input.2 (by omega) (by omega)
      unfold feedback at far
      rw [first, second, Nat.mul_right_comm]
      unfold Setting.tryFB
      rw [if_neg (by omega), if_neg (by omega)]
    · rw [if_pos seen]
  · rw [if_pos input]

end Try

section Search
variable {uFIN uFOUT : Nat} {w : Window}

/-- The settings so far are the best of the rounds made, or none of them has any. -/
def BestOf (uFIN uFOUT : Nat) (w : Window) (made : List (Nat × Nat)) (best : Setting) : Prop :=
  (best = ⟨0, 0⟩ ∧ ∀ d : Dividers, (d.uOUT_DV, d.uIN_DV) ∈ made → ¬ d.Qualifies uFIN uFOUT w) ∨
    ∃ o i n, Found uFIN uFOUT o i w n ∧
      best = ⟨(withFB o i n).patch, (withFB o i n).fout uFIN⟩ ∧
      ∀ d : Dividers, (d.uOUT_DV, d.uIN_DV) ∈ made → d.Qualifies uFIN uFOUT w →
        (withFB o i n).error uFIN uFOUT ≤ d.error uFIN uFOUT

theorem replace_keeps {old : Setting} (near : mathAbs old.uFOUT_new uFOUT < uFOUT) :
    old.replace uFOUT ⟨0, 0⟩ = old := by
  unfold Setting.replace
  apply if_neg
  have zero : mathAbs 0 uFOUT = uFOUT := by
    unfold mathAbs
    rw [if_neg (by omega)]
    omega
  show ¬ mathAbs 0 uFOUT ≤ _
  omega

/-- One round keeps the best. -/
theorem bestOf_round (word : uFIN < 4294967296) (target : uFOUT < 4294967296) (sane : w.Sane)
    {made : List (Nat × Nat)} {best : Setting} (sofar : BestOf uFIN uFOUT w made best)
    (round : Nat × Nat) (fields : (withFB round.1 round.2 1).Admitted) :
    BestOf uFIN uFOUT w (made ++ [round])
      (best.replace uFOUT (pllTry uFIN uFOUT round.1 round.2 w)) := by
  obtain ⟨o, i⟩ := round
  have zero : mathAbs 0 uFOUT = uFOUT := by
    unfold mathAbs
    rw [if_neg (by omega)]
    omega
  by_cases any : (withFB o i 1).Qualifies uFIN uFOUT w
  · obtain ⟨n, found⟩ := try_found word target sane any
    have own : ∀ d : Dividers, (d.uOUT_DV, d.uIN_DV) = (o, i) →
        (withFB o i n).error uFIN uFOUT ≤ d.error uFIN uFOUT := by
      rintro ⟨_, _, m⟩ same
      cases same
      exact found.best m
    show BestOf _ _ _ _ (best.replace uFOUT (pllTry uFIN uFOUT o i w))
    rw [found.result]
    rcases sofar with ⟨rfl, noneBefore⟩ | ⟨o', i', n', found', rfl, least⟩
    · right
      have near : (withFB o i n).error uFIN uFOUT < uFOUT := found.near
      have taken : (⟨0, 0⟩ : Setting).replace uFOUT
          ⟨(withFB o i n).patch, (withFB o i n).fout uFIN⟩ =
          ⟨(withFB o i n).patch, (withFB o i n).fout uFIN⟩ := by
        apply if_pos
        show (withFB o i n).error uFIN uFOUT ≤ mathAbs 0 uFOUT
        omega
      refine ⟨o, i, n, found, taken, ?_⟩
      intro d mem qualifies
      rcases List.mem_append.mp mem with old | new
      · exact absurd qualifies (noneBefore d old)
      · exact own d (List.mem_singleton.mp new)
    · right
      unfold Setting.replace
      by_cases better : (withFB o i n).error uFIN uFOUT ≤ (withFB o' i' n').error uFIN uFOUT
      · refine ⟨o, i, n, found, if_pos better, ?_⟩
        intro d mem qualifies
        rcases List.mem_append.mp mem with old | new
        · exact Nat.le_trans better (least d old qualifies)
        · exact own d (List.mem_singleton.mp new)
      · refine ⟨o', i', n', found', if_neg better, ?_⟩
        intro d mem qualifies
        rcases List.mem_append.mp mem with old | new
        · exact least d old qualifies
        · exact Nat.le_trans (Nat.le_of_lt (Nat.lt_of_not_ge better))
            (own d (List.mem_singleton.mp new))
  · have nothing := try_nothing target sane fields any
    have noOther : ∀ d : Dividers, (d.uOUT_DV, d.uIN_DV) = (o, i) →
        ¬ d.Qualifies uFIN uFOUT w := by
      rintro ⟨_, _, m⟩ same ⟨_, input, window⟩
      cases same
      exact any ⟨fields, input, window⟩
    show BestOf _ _ _ _ (best.replace uFOUT (pllTry uFIN uFOUT o i w))
    rw [nothing]
    rcases sofar with ⟨rfl, noneBefore⟩ | ⟨o', i', n', found', rfl, least⟩
    · left
      refine ⟨if_pos (Nat.le_refl _), ?_⟩
      intro d mem
      rcases List.mem_append.mp mem with old | new
      · exact noneBefore d old
      · exact noOther d (List.mem_singleton.mp new)
    · right
      refine ⟨o', i', n', found', replace_keeps found'.near, ?_⟩
      intro d mem qualifies
      rcases List.mem_append.mp mem with old | new
      · exact least d old qualifies
      · exact absurd qualifies (noOther d (List.mem_singleton.mp new))

theorem bestOf_rounds (word : uFIN < 4294967296) (target : uFOUT < 4294967296) (sane : w.Sane)
    (left : List (Nat × Nat)) {made : List (Nat × Nat)} {best : Setting}
    (sofar : BestOf uFIN uFOUT w made best)
    (fields : ∀ round ∈ left, (withFB round.1 round.2 1).Admitted) :
    BestOf uFIN uFOUT w (made ++ left) (left.foldl (fun best round =>
      best.replace uFOUT (pllTry uFIN uFOUT round.1 round.2 w)) best) := by
  induction left generalizing made best with
  | nil =>
    rw [List.append_nil]
    exact sofar
  | cons round rest ih =>
    obtain ⟨first, others⟩ := List.forall_mem_cons.mp fields
    have next := ih (bestOf_round word target sane sofar round first) others
    rw [List.append_assoc] at next
    exact next

theorem mem_rounds (o i : Nat) : (o, i) ∈ rounds ↔ (1 ≤ o ∧ o ≤ 3) ∧ 1 ≤ i ∧ i ≤ 31 := by
  unfold rounds
  simp only [List.mem_flatMap, List.mem_map, List.mem_range, List.mem_cons, List.not_mem_nil,
    or_false, Prod.mk.injEq]
  constructor
  · rintro ⟨x, out, n, small, rfl, rfl⟩
    omega
  · rintro ⟨out, inn⟩
    exact ⟨o, by omega, 31 - i, by omega, rfl, by omega⟩

theorem window_best (word : uFIN < 4294967296) (target : uFOUT < 4294967296) (sane : w.Sane) :
    BestOf uFIN uFOUT w rounds (pllEvalWindow uFIN uFOUT w) := by
  have start : BestOf uFIN uFOUT w [] ⟨0, 0⟩ := .inl ⟨rfl, by rintro _ ⟨⟩⟩
  apply bestOf_rounds word target sane rounds start
  rintro ⟨o, i⟩ mem
  obtain ⟨out, inn⟩ := (mem_rounds o i).mp mem
  exact ⟨out, inn, Nat.le_refl 1, (by decide : 1 ≤ 255)⟩

/-- What is returned for a window: nothing when no dividers qualify, else the best of all that
do. -/
theorem window_result (word : uFIN < 4294967296) (target : uFOUT < 4294967296) (sane : w.Sane) :
    ((pllEvalWindow uFIN uFOUT w).uPLLCON = 0 ∧ ∀ d : Dividers, ¬ d.Qualifies uFIN uFOUT w) ∨
      ∃ d : Dividers, (pllEvalWindow uFIN uFOUT w).uPLLCON = d.patch ∧ d.patch ≠ 0 ∧
        d.Qualifies uFIN uFOUT w ∧
        (∀ other : Dividers, other.Qualifies uFIN uFOUT w →
          d.error uFIN uFOUT ≤ other.error uFIN uFOUT) ∧
        mathAbs (uFIN * (2 * d.uFB_DV)) (uFOUT * d.uNO * d.uIN_DV) ≤ 2 * uFIN := by
  have all : ∀ d : Dividers, d.Qualifies uFIN uFOUT w → (d.uOUT_DV, d.uIN_DV) ∈ rounds :=
    fun d qualifies => (mem_rounds _ _).mpr ⟨qualifies.admitted.out, qualifies.admitted.inn⟩
  rcases window_best word target sane with ⟨none, never⟩ | ⟨o, i, n, found, best, least⟩
  · rw [none]
    exact .inl ⟨rfl, fun d qualifies => never d (all d qualifies) qualifies⟩
  · rw [best]
    refine .inr ⟨withFB o i n, rfl, ?_, found.qualifies,
      fun d qualifies => least d (all d qualifies) qualifies, found.vco⟩
    have admitted := found.qualifies.admitted
    rw [patch_sum admitted]
    have := admitted.fb
    omega

end Search

/-- The dividers that are returned for one of the windows, none of the earlier having any. -/
structure Chosen (uFIN uFOUT : Nat) (uPLLCON : Nat) (d : Dividers) (w : Window) : Prop where
  word : uPLLCON = d.patch
  qualifies : d.Qualifies uFIN uFOUT w
  least : ∀ other : Dividers, other.Qualifies uFIN uFOUT w →
    d.error uFIN uFOUT ≤ other.error uFIN uFOUT
  vco : mathAbs (uFIN * (2 * d.uFB_DV)) (uFOUT * d.uNO * d.uIN_DV) ≤ 2 * uFIN
  first : ∃ before after, windows = before ++ w :: after ∧
    ∀ earlier ∈ before, ∀ other : Dividers, ¬ other.Qualifies uFIN uFOUT earlier

theorem eval_windows {uFIN uFOUT : Nat} (word : uFIN < 4294967296)
    (target : uFOUT < 4294967296) (left before : List Window) (shape : windows = before ++ left)
    (never : ∀ w ∈ before, ∀ d : Dividers, ¬ d.Qualifies uFIN uFOUT w) :
    match pllEval uFIN uFOUT left with
    | none => ∀ w ∈ windows, ∀ d : Dividers, ¬ d.Qualifies uFIN uFOUT w
    | some uPLLCON => ∃ d w, Chosen uFIN uFOUT uPLLCON d w := by
  induction left generalizing before with
  | nil =>
    rw [List.append_nil] at shape
    rw [shape]
    exact never
  | cons w rest ih =>
    have sane : w.Sane := windows_sane w (by rw [shape]; simp)
    rw [pllEval]
    rcases window_result word target sane with ⟨zero, none⟩ |
      ⟨d, same, some, qualifies, least, vco⟩
    · rw [zero, if_pos rfl]
      apply ih (before ++ [w]) (by rw [shape, List.append_assoc]; rfl)
      intro earlier mem
      rcases List.mem_append.mp mem with old | here
      · exact never earlier old
      · rw [List.mem_singleton.mp here]
        exact none
    · rw [same, if_neg some]
      exact ⟨d, w, rfl, qualifies, least, vco, before, rest, shape, never⟩

/-- The system is halted just when no dividers qualify for any window; else the dividers for the
first window that has some are the nearest of all that qualify for it, and the VCO's frequency
that they give differs from that of the target by twice the input over NR at most. -/
theorem pll_search (uFIN uFOUT : UInt32) :
    match pllEvalPLLCON uFIN uFOUT with
    | none => ∀ w ∈ windows, ∀ d : Dividers, ¬ d.Qualifies uFIN.toNat uFOUT.toNat w
    | some uPLLCON => ∃ d w, Chosen uFIN.toNat uFOUT.toNat uPLLCON d w :=
  eval_windows uFIN.toNat_lt uFOUT.toNat_lt windows [] rfl (by rintro _ ⟨⟩)

/-- The VCO's frequency that dividers give. -/
def Dividers.fco (d : Dividers) (uFIN : Nat) : Nat := uFIN * (2 * d.uFB_DV) / d.uIN_DV

/-- The target asks for 420 MHz of the VCO, but it gets 421.6 MHz, inside no window; and
dividers that the fields admit would be nearer, but their input is out of its range. -/
theorem vco_between_the_windows :
    pllEvalPLLCON 3100000 420000000 = some (Dividers.mk 1 1 68).patch ∧
      (∀ w ∈ windows, ¬ (w.uMinFCO < (Dividers.mk 1 1 68).fco 3100000 ∧
        (Dividers.mk 1 1 68).fco 3100000 < w.uMaxFCO)) ∧
      (Dividers.mk 1 3 203).Admitted ∧
      (Dividers.mk 1 3 203).error 3100000 420000000 <
        (Dividers.mk 1 1 68).error 3100000 420000000 := by
  exact ⟨by decide +kernel, by decide, ⟨by decide, by decide, by decide⟩, by decide⟩

end Rovio.VideoPhone
