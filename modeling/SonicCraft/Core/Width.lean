import Mathlib.Algebra.BigOperators.Group.Finset.Basic
import Mathlib.Algebra.Order.BigOperators.Group.Finset
import Mathlib.Tactic.Linarith

/-!
# Fixed-width arithmetic read as exact arithmetic

An operator of a hardware language works at the width of its context: operands
are widened first and the result wraps at that width. The rules here say when
the wrapped result is the exact one, and what an unsigned reading does to words
that were meant as two's complement: it adds `2 ^ w` for every negative word
(`toNat_eq_toInt_add`), so a weighted sum is off by `2 ^ w` times the weight of
its negative words (`dot_unsigned_eq_iff`).
-/
namespace SonicCraft.Width

/-- Words are compared as numbers. -/
theorem beq_eq_decide {w : Nat} (x y : BitVec w) : (x == y) = decide (x.toNat = y.toNat) := by
  rw [Bool.eq_iff_iff, beq_iff_eq, decide_eq_true_eq, BitVec.toNat_inj]

/-- A product of two widened words does not wrap when the context has room for
both. -/
theorem toNat_mul_wide {m n w : Nat} (x : BitVec m) (y : BitVec n) (h : m + n ≤ w) :
    (x.setWidth w * y.setWidth w).toNat = x.toNat * y.toNat := by
  have hx := x.isLt
  have hy := y.isLt
  have hlt : x.toNat * y.toNat < 2 ^ w := by
    calc x.toNat * y.toNat < 2 ^ m * 2 ^ n := Nat.mul_lt_mul'' hx hy
      _ = 2 ^ (m + n) := (Nat.pow_add 2 m n).symm
      _ ≤ 2 ^ w := Nat.pow_le_pow_right (by omega) h
  rw [BitVec.toNat_mul, BitVec.toNat_setWidth_of_le (by omega),
    BitVec.toNat_setWidth_of_le (by omega), Nat.mod_eq_of_lt hlt]

/-- A widened word minus a constant that is not larger. -/
theorem toNat_sub_wide {m w : Nat} (x : BitVec m) (c : Nat) (h : m ≤ w) (hc : c ≤ x.toNat) :
    (x.setWidth w - BitVec.ofNat w c).toNat = x.toNat - c := by
  have hx : x.toNat < 2 ^ w := lt_of_lt_of_le x.isLt (Nat.pow_le_pow_right (by omega) h)
  rw [BitVec.toNat_sub, BitVec.toNat_setWidth_of_le h, BitVec.toNat_ofNat,
    Nat.mod_eq_of_lt (by omega : c < 2 ^ w), show 2 ^ w - c + x.toNat = x.toNat - c + 2 ^ w by omega,
    Nat.add_mod_right, Nat.mod_eq_of_lt (by omega)]

/-- Zeros on both sides of a word multiply it by a power of two. -/
theorem toNat_pad {w : Nat} (a b : Nat) (x : BitVec w) :
    ((0#a ++ x) ++ 0#b).toNat = x.toNat * 2 ^ b := by
  rw [BitVec.toNat_append, BitVec.toNat_append]
  simp [Nat.shiftLeft_eq]

/-- The unsigned reading of a negative word is too large by `2 ^ w`. -/
theorem toNat_eq_toInt_add {w : Nat} (x : BitVec w) :
    (x.toNat : Int) = x.toInt + if x.msb then 2 ^ w else 0 := by
  rw [BitVec.toInt_eq_msb_cond]
  split
  · push_cast; omega
  · omega

theorem msb_eq_false_iff {w : Nat} (x : BitVec w) : x.msb = false ↔ 0 ≤ x.toInt := by
  rw [BitVec.msb_eq_toInt]
  simp

/-- **Unsigned dot product**: it equals the signed one exactly when every
negative word has weight zero. -/
theorem dot_unsigned_eq_iff {ι : Type} [Fintype ι] {w : Nat} (x : ι → BitVec w) (c : ι → Nat) :
    ∑ i, ((x i).toNat : Int) * c i = ∑ i, (x i).toInt * c i ↔
      ∀ i, 0 ≤ (x i).toInt ∨ c i = 0 := by
  have hsplit : ∑ i, ((x i).toNat : Int) * c i =
      ∑ i, (x i).toInt * c i + ∑ i, (if (x i).msb then (2 : Int) ^ w else 0) * c i := by
    rw [← Finset.sum_add_distrib]
    refine Finset.sum_congr rfl fun i _ => ?_
    rw [toNat_eq_toInt_add, add_mul]
  have hnonneg : ∀ i ∈ Finset.univ, 0 ≤ (if (x i).msb then (2 : Int) ^ w else 0) * c i := by
    intro i _
    split <;> positivity
  rw [hsplit, add_eq_left, Finset.sum_eq_zero_iff_of_nonneg hnonneg]
  refine forall_congr' fun i => ?_
  rw [← msb_eq_false_iff]
  cases hm : (x i).msb <;> simp

end SonicCraft.Width
