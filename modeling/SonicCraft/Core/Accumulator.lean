import Mathlib.Tactic.Ring
import SonicCraft.Core.LTS

/-!
# A wrapping accumulator inside a machine

A `w`-bit register `φ` of a machine takes an increment `inc` at every step,
possibly 0, and drops the carry. Counting the carries makes the account exact
(`carry_run`): the register plus `2 ^ w` for every carry is the first value plus
the plain sum of the increments. So the register is that sum modulo `2 ^ w`
(`value_run`), the number of wraps is its quotient (`wraps_run`), and no error
builds up however long the run is.
-/
namespace SonicCraft.Accumulator

section
variable {S E : Type} {w : Nat} {f : S → E → S} (φ : S → BitVec w) (inc : S → E → BitVec w)

/-- The step wraps the register. -/
def carries (s : S) (e : E) : Bool := decide (2 ^ w ≤ (φ s).toNat + (inc s e).toNat)

/-- The sum of a run's increments, as numbers. -/
def total (f : S → E → S) (inc : S → E → BitVec w) (s : S) (es : List E) : Nat :=
  (samples f (fun s e => (inc s e).toNat) s es).sum

theorem total_cons (s : S) (e : E) (es : List E) :
    total f inc s (e :: es) = (inc s e).toNat + total f inc (f s e) es := by
  simp [total, samples]

theorem total_snoc (s : S) (es : List E) (e : E) :
    total f inc s (es ++ [e]) = total f inc s es + (inc (exec f s es) e).toNat := by
  simp [total, samples_append, samples]

/-- Every step adds its increment and drops the carry. -/
def Adds (f : S → E → S) (φ : S → BitVec w) (inc : S → E → BitVec w) : Prop :=
  ∀ s e, φ (f s e) = φ s + inc s e

variable {φ inc}

theorem Adds.carry_step (h : Adds f φ inc) (s : S) (e : E) :
    (φ (f s e)).toNat + 2 ^ w * (carries φ inc s e).toNat = (φ s).toNat + (inc s e).toNat := by
  have hφ := (φ s).isLt
  have hinc := (inc s e).isLt
  rw [h, BitVec.toNat_add, carries]
  by_cases hc : 2 ^ w ≤ (φ s).toNat + (inc s e).toNat
  · simp only [hc, decide_true, Bool.toNat_true, mul_one]
    rw [Nat.mod_eq_sub_mod hc, Nat.mod_eq_of_lt (by omega)]
    omega
  · simp only [hc, decide_false, Bool.toNat_false, mul_zero, add_zero]
    exact Nat.mod_eq_of_lt (by omega)

/-- **Exact account** of a run. -/
theorem Adds.carry_run (h : Adds f φ inc) (es : List E) (s : S) :
    (φ (exec f s es)).toNat + 2 ^ w * hits f (carries φ inc) s es =
      (φ s).toNat + total f inc s es := by
  induction es generalizing s with
  | nil => simp [total, samples, hits]
  | cons e es ih =>
    have hs := h.carry_step s e
    rw [exec_cons, hits, total_cons]
    calc (φ (exec f (f s e) es)).toNat +
          2 ^ w * ((carries φ inc s e).toNat + hits f (carries φ inc) (f s e) es)
        = ((φ (exec f (f s e) es)).toNat + 2 ^ w * hits f (carries φ inc) (f s e) es) +
            2 ^ w * (carries φ inc s e).toNat := by ring
      _ = ((φ (f s e)).toNat + 2 ^ w * (carries φ inc s e).toNat) + total f inc (f s e) es := by
          rw [ih]; ring
      _ = (φ s).toNat + ((inc s e).toNat + total f inc (f s e) es) := by rw [hs, Nat.add_assoc]

theorem Adds.value_run (h : Adds f φ inc) (es : List E) (s : S) :
    (φ (exec f s es)).toNat = ((φ s).toNat + total f inc s es) % 2 ^ w := by
  rw [← h.carry_run, Nat.add_mul_mod_self_left, Nat.mod_eq_of_lt (φ _).isLt]

theorem Adds.wraps_run (h : Adds f φ inc) (es : List E) (s : S) :
    hits f (carries φ inc) s es = ((φ s).toNat + total f inc s es) / 2 ^ w := by
  rw [← h.carry_run, Nat.add_mul_div_left _ _ (Nat.two_pow_pos w),
    Nat.div_eq_of_lt (φ _).isLt, Nat.zero_add]

end
end SonicCraft.Accumulator
