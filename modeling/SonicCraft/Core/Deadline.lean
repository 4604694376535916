import Mathlib.Data.BitVec

/-!
# Deadlines on a clock that wraps

A program reads a clock of `w` bits, computes a deadline `d` ticks ahead, and
later asks `(int)(now - deadline) >= 0`. Against the true time, which does not
wrap: the deadline is never taken for over before it is (`not_due_early`), however
late the question comes, and it is recognised within half a turn of the clock
(`due_of_le`).
-/
namespace SonicCraft

/-- The deadline is over, as the program sees it. -/
def due {w : Nat} (now deadline : BitVec w) : Bool := decide (0 ≤ (now - deadline).toInt)

variable {w : Nat}

theorem due_eq (now deadline : BitVec w) :
    due now deadline = decide (2 * (now - deadline).toNat < 2 ^ w) := by
  have h := (now - deadline).isLt
  unfold due
  rw [BitVec.toInt_eq_toNat_cond]
  split
  · rename_i hlt
    rw [decide_eq_true hlt, decide_eq_true_eq]
    omega
  · rename_i hge
    rw [decide_eq_false hge, decide_eq_false_iff_not]
    omega

theorem due_of_le {D now : Nat} (h : D ≤ now) (hlate : 2 * (now - D) < 2 ^ w) :
    due (BitVec.ofNat w now) (BitVec.ofNat w D) = true := by
  obtain ⟨k, rfl⟩ : ∃ k, now = D + k := ⟨now - D, by omega⟩
  rw [Nat.add_sub_cancel_left] at hlate
  have hsub : BitVec.ofNat w (D + k) - BitVec.ofNat w D = BitVec.ofNat w k := by
    rw [BitVec.ofNat_add, BitVec.add_comm, BitVec.add_sub_cancel]
  rw [due_eq, hsub, BitVec.toNat_ofNat, Nat.mod_eq_of_lt (by omega), decide_eq_true hlate]

/-- **Never early.** -/
theorem not_due_early {D now : Nat} (h : now < D) (hd : 2 * (D - now) < 2 ^ w) :
    due (BitVec.ofNat w now) (BitVec.ofNat w D) = false := by
  obtain ⟨k, rfl⟩ : ∃ k, D = now + k := ⟨D - now, by omega⟩
  rw [Nat.add_sub_cancel_left] at hd
  have hk : 0 < k := by omega
  have hsub : BitVec.ofNat w now - BitVec.ofNat w (now + k) = -BitVec.ofNat w k := by
    rw [BitVec.ofNat_add, ← BitVec.sub_sub, BitVec.sub_self, BitVec.zero_sub]
  have hneg : (-BitVec.ofNat w k).toNat = 2 ^ w - k := by
    rw [BitVec.toNat_neg, BitVec.toNat_ofNat, Nat.mod_eq_of_lt (show k < 2 ^ w by omega),
      Nat.mod_eq_of_lt (by omega)]
  rw [due_eq, hsub, hneg, decide_eq_false_iff_not]
  omega

/-- A deadline set `d` ticks ahead at time `a`, asked for at `now`. -/
theorem due_after {a d now : Nat} (hd : 2 * d < 2 ^ w) (ha : a ≤ now)
    (h : due (BitVec.ofNat w now) (BitVec.ofNat w (a + d)) = true) : a + d ≤ now := by
  by_contra hlt
  rw [not_due_early (by omega) (by omega)] at h
  cases h

end SonicCraft
