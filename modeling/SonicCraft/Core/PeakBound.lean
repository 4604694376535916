import Mathlib.Algebra.BigOperators.Group.Finset.Basic
import Mathlib.Algebra.Order.BigOperators.Group.Finset
import Mathlib.Data.Fintype.BigOperators
import Mathlib.Order.Lattice.Nat
import Mathlib.Tactic.Ring

/-!
# A bound on a root of squares from the largest term

The root of a sum of squares lies between the largest term and that term times
the root of the number of terms. `bound` is an integer above it that needs no
root: the largest term, times one more than how often its square fits into the
sum. Its square covers the sum (`energy_le_bound`), it is at most one more than
the number of terms times the largest one (`bound_le`), and the order of the
terms does not matter (`bound_perm`).
-/
namespace SonicCraft.PeakBound

section
variable {ι : Type} [Fintype ι] (x : ι → Nat)

/-- The largest term. -/
def peak : Nat := Finset.univ.sup x

/-- The sum of the squares. -/
def energy : Nat := ∑ i, x i * x i

/-- How often the largest square fits into the sum. -/
def ratio : Nat := energy x / (peak x * peak x)

def bound : Nat := if peak x = 0 then 0 else (ratio x + 1) * peak x

theorem le_peak (i : ι) : x i ≤ peak x := Finset.le_sup (Finset.mem_univ i)

theorem peak_le {m : Nat} (h : ∀ i, x i ≤ m) : peak x ≤ m := Finset.sup_le fun i _ => h i

theorem energy_le : energy x ≤ Fintype.card ι * (peak x * peak x) := by
  calc energy x ≤ ∑ _i : ι, peak x * peak x :=
        Finset.sum_le_sum fun i _ => Nat.mul_le_mul (le_peak x i) (le_peak x i)
    _ = Fintype.card ι * (peak x * peak x) := by rw [Finset.sum_const, Finset.card_univ, Nat.nsmul_eq_mul]

theorem ratio_le : ratio x ≤ Fintype.card ι :=
  Nat.div_le_of_le_mul ((energy_le x).trans_eq (Nat.mul_comm _ _))

theorem bound_le : bound x ≤ (Fintype.card ι + 1) * peak x := by
  unfold bound
  split
  · exact Nat.zero_le _
  · exact Nat.mul_le_mul_right _ (Nat.succ_le_succ (ratio_le x))

/-- **The square of the bound covers the sum.** -/
theorem energy_le_bound : energy x ≤ bound x * bound x := by
  unfold bound
  split
  · rename_i h0
    have hle := energy_le x
    rw [h0] at hle
    exact hle
  · rename_i h0
    have hpos : 0 < peak x * peak x := Nat.mul_pos (Nat.pos_of_ne_zero h0) (Nat.pos_of_ne_zero h0)
    calc energy x ≤ peak x * peak x * (ratio x + 1) := (Nat.lt_mul_div_succ _ hpos).le
      _ ≤ peak x * peak x * (ratio x + 1) * (ratio x + 1) :=
          Nat.le_mul_of_pos_right _ (Nat.succ_pos _)
      _ = (ratio x + 1) * peak x * ((ratio x + 1) * peak x) := by ring

theorem peak_perm (σ : Equiv.Perm ι) : peak (x ∘ σ) = peak x := by
  refine le_antisymm (peak_le _ fun i => le_peak x (σ i)) (peak_le _ fun i => ?_)
  calc x i = (x ∘ σ) (σ.symm i) := by rw [Function.comp_apply, Equiv.apply_symm_apply]
    _ ≤ peak (x ∘ σ) := le_peak _ _

theorem energy_perm (σ : Equiv.Perm ι) : energy (x ∘ σ) = energy x :=
  Equiv.sum_comp σ fun i => x i * x i

theorem bound_perm (σ : Equiv.Perm ι) : bound (x ∘ σ) = bound x := by
  unfold bound ratio
  rw [peak_perm, energy_perm]

end
end SonicCraft.PeakBound
