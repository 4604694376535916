import Mathlib.Algebra.BigOperators.Fin
import Mathlib.Tactic.FinCases
import SonicCraft.Core.PeakBound
import SonicCraft.L1Rtl.PhaseOsc

/-!
# `RootSquareSumCalculator`

Modules/RootSquareSumCalculator.sv, an integer bound on the root of the sum of
four squares, once meant for the mix (Modules/synth_toplevel.sv:229). The samples
are 32 bits; the assignments to `max_val`, `sum_sq` and `pythagorean` make every
product, sum and quotient 64 bits wide, and the last one cuts the result to 32.

`exact_bound`: for samples in the range of `Phase_OSC`'s output nothing wraps, the
comparison chain finds the largest sample whatever ties there are, and the result
is the bound of `SonicCraft.PeakBound` on the four numbers.
-/
namespace SonicCraft.L1.RootSquareSum

section
variable (sample0 sample1 sample2 sample3 : BitVec 32)

/-- mirrors Modules/RootSquareSumCalculator.sv:14-17 -/
def maxVal : BitVec 64 :=
  if sample0 > sample1 ∧ sample0 > sample2 ∧ sample0 > sample3 then sample0.setWidth 64
  else if sample1 > sample2 ∧ sample1 > sample3 then sample1.setWidth 64
  else if sample2 > sample3 then sample2.setWidth 64
  else sample3.setWidth 64

/-- mirrors Modules/RootSquareSumCalculator.sv:19 -/
def sumSq : BitVec 64 :=
  sample0.setWidth 64 * sample0.setWidth 64 + sample1.setWidth 64 * sample1.setWidth 64 +
    sample2.setWidth 64 * sample2.setWidth 64 + sample3.setWidth 64 * sample3.setWidth 64

/-- The right-hand side of `pythagorean`, before it is cut. -/
def wide : BitVec 64 :=
  (sumSq sample0 sample1 sample2 sample3 /
      (maxVal sample0 sample1 sample2 sample3 * maxVal sample0 sample1 sample2 sample3) + 1#64) *
    maxVal sample0 sample1 sample2 sample3

/-- mirrors Modules/RootSquareSumCalculator.sv:22-25 -/
def pythagorean : BitVec 32 :=
  if maxVal sample0 sample1 sample2 sample3 = 0 then 0
  else (wide sample0 sample1 sample2 sample3).setWidth 32

/-- The comparison chain finds the largest sample. -/
theorem maxVal_toNat : (maxVal sample0 sample1 sample2 sample3).toNat =
    max (max sample0.toNat sample1.toNat) (max sample2.toNat sample3.toNat) := by
  have hw : ∀ x : BitVec 32, (x.setWidth 64).toNat = x.toNat :=
    fun x => BitVec.toNat_setWidth_of_le (by omega)
  unfold maxVal
  simp only [gt_iff_lt, BitVec.lt_def]
  repeat' split
  all_goals rw [hw]; omega

/-- The squares add up without wrapping. -/
theorem sumSq_toNat (h0 : sample0.toNat < 2 ^ 28) (h1 : sample1.toNat < 2 ^ 28)
    (h2 : sample2.toNat < 2 ^ 28) (h3 : sample3.toNat < 2 ^ 28) :
    (sumSq sample0 sample1 sample2 sample3).toNat =
      sample0.toNat * sample0.toNat + sample1.toNat * sample1.toNat +
        sample2.toNat * sample2.toNat + sample3.toNat * sample3.toNat := by
  have hsq : ∀ x : BitVec 32, (x.setWidth 64 * x.setWidth 64).toNat = x.toNat * x.toNat :=
    fun x => Width.toNat_mul_wide x x (by omega)
  have b0 := Nat.mul_lt_mul'' h0 h0
  have b1 := Nat.mul_lt_mul'' h1 h1
  have b2 := Nat.mul_lt_mul'' h2 h2
  have b3 := Nat.mul_lt_mul'' h3 h3
  simp only [sumSq, BitVec.toNat_add, hsq]
  omega

end

/-! ## Four samples of the oscillators' range -/

/-- The four samples as numbers. -/
def nums (x : Fin 4 → BitVec 32) : Fin 4 → Nat := fun i => (x i).toNat

variable (x : Fin 4 → BitVec 32)

theorem peak_nums : PeakBound.peak (nums x) = (maxVal (x 0) (x 1) (x 2) (x 3)).toNat := by
  have h0 := PeakBound.le_peak (nums x) 0
  have h1 := PeakBound.le_peak (nums x) 1
  have h2 := PeakBound.le_peak (nums x) 2
  have h3 := PeakBound.le_peak (nums x) 3
  rw [maxVal_toNat]
  refine le_antisymm (PeakBound.peak_le _ fun i => ?_) ?_
  · fin_cases i <;> simp [nums]
  · exact max_le (max_le h0 h1) (max_le h2 h3)

variable (hx : ∀ i, (x i).toNat < 2 ^ 28)
include hx

theorem energy_nums : PeakBound.energy (nums x) = (sumSq (x 0) (x 1) (x 2) (x 3)).toNat := by
  rw [sumSq_toNat _ _ _ _ (hx 0) (hx 1) (hx 2) (hx 3), PeakBound.energy, Fin.sum_univ_four]
  rfl

theorem peak_lt : PeakBound.peak (nums x) < 2 ^ 28 := by
  have hle := PeakBound.peak_le (nums x) (m := 2 ^ 28 - 1) fun i => by
    have := hx i
    show (x i).toNat ≤ _
    omega
  omega

/-- The divisor is the square of the largest sample. -/
theorem divisor_toNat :
    (maxVal (x 0) (x 1) (x 2) (x 3) * maxVal (x 0) (x 1) (x 2) (x 3)).toNat =
      PeakBound.peak (nums x) * PeakBound.peak (nums x) := by
  have hlt := Nat.mul_lt_mul'' (peak_lt x hx) (peak_lt x hx)
  rw [BitVec.toNat_mul, ← peak_nums, Nat.mod_eq_of_lt (by omega)]

theorem ratio_toNat :
    (sumSq (x 0) (x 1) (x 2) (x 3) /
        (maxVal (x 0) (x 1) (x 2) (x 3) * maxVal (x 0) (x 1) (x 2) (x 3)) + 1#64).toNat =
      PeakBound.ratio (nums x) + 1 := by
  have hle : PeakBound.ratio (nums x) ≤ 4 := PeakBound.ratio_le (nums x)
  have hdiv : (sumSq (x 0) (x 1) (x 2) (x 3) /
      (maxVal (x 0) (x 1) (x 2) (x 3) * maxVal (x 0) (x 1) (x 2) (x 3))).toNat =
        PeakBound.ratio (nums x) := by
    rw [BitVec.toNat_udiv, divisor_toNat x hx, ← energy_nums x hx]
    rfl
  rw [BitVec.toNat_add, hdiv, BitVec.toNat_ofNat]
  omega

/-- Five times the largest sample fits into 32 bits. -/
theorem product_lt : (PeakBound.ratio (nums x) + 1) * PeakBound.peak (nums x) < 2 ^ 32 := by
  have hle : PeakBound.ratio (nums x) ≤ 4 := PeakBound.ratio_le (nums x)
  have hlt := peak_lt x hx
  calc (PeakBound.ratio (nums x) + 1) * PeakBound.peak (nums x)
      ≤ 5 * PeakBound.peak (nums x) := Nat.mul_le_mul_right _ (by omega)
    _ < 2 ^ 32 := by omega

theorem wide_toNat : (wide (x 0) (x 1) (x 2) (x 3)).toNat =
    (PeakBound.ratio (nums x) + 1) * PeakBound.peak (nums x) := by
  have hlt := product_lt x hx
  rw [wide, BitVec.toNat_mul, ratio_toNat x hx, ← peak_nums, Nat.mod_eq_of_lt (by omega)]

theorem pythagorean_toNat :
    (pythagorean (x 0) (x 1) (x 2) (x 3)).toNat = PeakBound.bound (nums x) := by
  have hzero : maxVal (x 0) (x 1) (x 2) (x 3) = 0 ↔ PeakBound.peak (nums x) = 0 := by
    rw [peak_nums, ← BitVec.toNat_inj]
    rfl
  unfold pythagorean PeakBound.bound
  by_cases h0 : PeakBound.peak (nums x) = 0
  · rw [if_pos h0, if_pos (hzero.mpr h0)]; rfl
  · rw [if_neg h0, if_neg (hzero.not.mpr h0), BitVec.toNat_setWidth, wide_toNat x hx,
      Nat.mod_eq_of_lt (product_lt x hx)]

omit hx in
/-- What the module makes of four samples, as exact arithmetic on their numbers,
with `m` the largest of them and `e` the sum of their squares. -/
structure Exact (m e : Nat) : Prop where
  max_val : (maxVal (x 0) (x 1) (x 2) (x 3)).toNat = m
  square : ∀ i, ((x i).setWidth 64 * (x i).setWidth 64).toNat = (x i).toNat * (x i).toNat
  sum_sq : (sumSq (x 0) (x 1) (x 2) (x 3)).toNat = e
  divisor : (maxVal (x 0) (x 1) (x 2) (x 3) * maxVal (x 0) (x 1) (x 2) (x 3)).toNat = m * m
  nonzero : maxVal (x 0) (x 1) (x 2) (x 3) ≠ 0 →
    maxVal (x 0) (x 1) (x 2) (x 3) * maxVal (x 0) (x 1) (x 2) (x 3) ≠ 0
  quotient : m ≠ 0 → (sumSq (x 0) (x 1) (x 2) (x 3) /
    (maxVal (x 0) (x 1) (x 2) (x 3) * maxVal (x 0) (x 1) (x 2) (x 3)) + 1#64).toNat = e / (m * m) + 1
  product : m ≠ 0 → (wide (x 0) (x 1) (x 2) (x 3)).toNat = (e / (m * m) + 1) * m ∧
    (e / (m * m) + 1) * m < 2 ^ 32
  value : (pythagorean (x 0) (x 1) (x 2) (x 3)).toNat =
    if m = 0 then 0 else (e / (m * m) + 1) * m
  covers : e ≤ (pythagorean (x 0) (x 1) (x 2) (x 3)).toNat ^ 2
  le : (pythagorean (x 0) (x 1) (x 2) (x 3)).toNat ≤ 5 * m
  perm : ∀ σ : Equiv.Perm (Fin 4), pythagorean (x (σ 0)) (x (σ 1)) (x (σ 2)) (x (σ 3)) =
    pythagorean (x 0) (x 1) (x 2) (x 3)

/-- **Exact, and an upper bound**, for four samples in the oscillators' range. -/
theorem exact_bound :
    Exact x (Finset.univ.sup fun i => (x i).toNat) (∑ i, (x i).toNat * (x i).toNat) where
  max_val := (peak_nums x).symm
  square i := Width.toNat_mul_wide _ _ (by omega)
  sum_sq := (energy_nums x hx).symm
  divisor := divisor_toNat x hx
  nonzero h h0 := by
    have hm : PeakBound.peak (nums x) ≠ 0 := by
      rw [peak_nums]
      exact fun hz => h (BitVec.eq_of_toNat_eq hz)
    have hd := divisor_toNat x hx
    rw [h0] at hd
    exact Nat.mul_ne_zero hm hm hd.symm
  quotient _ := ratio_toNat x hx
  product _ := ⟨wide_toNat x hx, product_lt x hx⟩
  value := pythagorean_toNat x hx
  covers := by
    rw [pythagorean_toNat x hx, Nat.pow_two]
    exact PeakBound.energy_le_bound (nums x)
  le := by
    rw [pythagorean_toNat x hx]
    exact PeakBound.bound_le (nums x)
  perm σ := by
    apply BitVec.eq_of_toNat_eq
    have hσ := pythagorean_toNat (x ∘ σ) fun i => hx (σ i)
    exact hσ.trans ((PeakBound.bound_perm (nums x) σ).trans (pythagorean_toNat x hx).symm)

omit hx in
/-- The outputs of four oscillators are such samples. -/
theorem pythagorean_voices (osc : Fin 4 → PhaseOsc.St) (freq : Fin 4 → BitVec 24)
    (velocity : Fin 4 → BitVec 7) :
    let out := fun i => ((osc i).fsClk (freq i) (velocity i)).wtout
    ∑ i, (out i).toNat * (out i).toNat ≤
      (pythagorean (out 0) (out 1) (out 2) (out 3)).toNat *
        (pythagorean (out 0) (out 1) (out 2) (out 3)).toNat := by
  intro out
  rw [pythagorean_toNat out fun i => PhaseOsc.fsClk_wtout_lt _ _ _]
  exact PeakBound.energy_le_bound (nums out)

omit hx in
/-- A tie between the two largest. -/
theorem exact_bound_example :
    (pythagorean 3 5 5 1).toNat ≤ 5 * Finset.univ.sup fun i => ((![3, 5, 5, 1] i : BitVec 32)).toNat :=
  (exact_bound ![3, 5, 5, 1] (by decide)).le

end SonicCraft.L1.RootSquareSum
