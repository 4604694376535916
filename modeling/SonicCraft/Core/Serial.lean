import Mathlib.Data.List.Induction
import Mathlib.Tactic.Ring

/-!
# Serial words, most significant bit first

`shiftOut k x` is what a shift register loaded with `x` shows on its top bit
over `k` clock edges: the word's bits from the top, then zeros
(`shiftOut_eq_map`). `ofBits` is the number a receiver reads from bits that
arrive most significant first.

With one-bit-delay framing a receiver skips the first bit of a half frame and
takes the first bit of the next half as the last one of its word. What it reads
is then twice the word, without its top bit, plus that foreign bit
(`ofBits_delayed`).
-/
namespace SonicCraft.Serial

/-- The number whose bits arrive most significant first. -/
def ofBits (bs : List Bool) : Nat := bs.foldl (fun n b => 2 * n + b.toNat) 0

/-- The top bits of a left-shifting register over `k` edges. -/
def shiftOut {w : Nat} : Nat → BitVec w → List Bool
  | 0, _ => []
  | k + 1, x => x.msb :: shiftOut k (x <<< 1)

variable {w : Nat}

theorem ofBits_snoc (bs : List Bool) (b : Bool) : ofBits (bs ++ [b]) = 2 * ofBits bs + b.toNat := by
  unfold ofBits; rw [List.foldl_append]; rfl

theorem ofBits_cons (b : Bool) (bs : List Bool) :
    ofBits (b :: bs) = b.toNat * 2 ^ bs.length + ofBits bs := by
  induction bs using List.reverseRecOn with
  | nil => simp [ofBits]
  | append_singleton bs c ih =>
    rw [← List.cons_append, ofBits_snoc, ih, ofBits_snoc, List.length_append, List.length_singleton,
      pow_succ]
    ring

@[simp] theorem shiftOut_length (k : Nat) (x : BitVec w) : (shiftOut k x).length = k := by
  induction k generalizing x with
  | zero => rfl
  | succ k ih => simp [shiftOut, ih]

theorem shiftOut_succ (k : Nat) (x : BitVec w) :
    shiftOut (k + 1) x = x.msb :: shiftOut k (x <<< 1) := rfl

/-- Bit by bit: the word from its top bit down, then the zeros shifted in. -/
theorem shiftOut_eq_map (k : Nat) (x : BitVec w) :
    shiftOut k x = (List.range k).map x.getMsbD := by
  induction k generalizing x with
  | zero => rfl
  | succ k ih =>
    rw [shiftOut_succ, ih, List.range_succ_eq_map, List.map_cons, List.map_map,
      BitVec.msb_eq_getMsbD_zero]
    refine congrArg _ (List.map_congr_left fun j _ => ?_)
    rw [BitVec.getMsbD_shiftLeft, Function.comp_apply, Nat.succ_eq_add_one]

theorem take_shiftOut {m k : Nat} (x : BitVec w) (h : m ≤ k) :
    (shiftOut k x).take m = shiftOut m x := by
  rw [shiftOut_eq_map, shiftOut_eq_map, ← List.map_take, List.take_range, Nat.min_eq_left h]

/-- A shift doubles the word and drops its top bit. -/
theorem toNat_shift (x : BitVec w) (h : 0 < w) :
    (x <<< 1).toNat + x.msb.toNat * 2 ^ w = 2 * x.toNat := by
  have hx := x.isLt
  have hp : 2 ^ w = 2 * 2 ^ (w - 1) := by
    rw [← pow_succ', show w - 1 + 1 = w by omega]
  have hm : x.msb = decide (2 ^ (w - 1) ≤ x.toNat) := BitVec.msb_eq_decide x
  rw [BitVec.toNat_shiftLeft, Nat.shiftLeft_eq, pow_one, hm]
  by_cases hc : 2 ^ (w - 1) ≤ x.toNat
  · simp only [hc, decide_true, Bool.toNat_true, one_mul]
    rw [Nat.mod_eq_sub_mod (by omega), Nat.mod_eq_of_lt (by omega)]
    omega
  · simp only [hc, decide_false, Bool.toNat_false, zero_mul]
    rw [Nat.mod_eq_of_lt (by omega)]
    omega

/-- The first `k` bits are the top `k` bits of the word. -/
theorem ofBits_shiftOut (k : Nat) (x : BitVec w) (h : k ≤ w) :
    ofBits (shiftOut k x) = x.toNat / 2 ^ (w - k) := by
  induction k generalizing x with
  | zero => rw [Nat.sub_zero, Nat.div_eq_of_lt x.isLt]; rfl
  | succ k ih =>
    have hs := toNat_shift x (by omega)
    have hp : 2 ^ w = 2 ^ k * 2 ^ (w - k) := by
      rw [← pow_add, show k + (w - k) = w by omega]
    have hq : 2 ^ (w - k) = 2 * 2 ^ (w - (k + 1)) := by
      rw [← pow_succ', show w - (k + 1) + 1 = w - k by omega]
    rw [shiftOut_succ, ofBits_cons, shiftOut_length, ih _ (by omega)]
    calc x.msb.toNat * 2 ^ k + (x <<< 1).toNat / 2 ^ (w - k)
        = ((x <<< 1).toNat + x.msb.toNat * 2 ^ k * 2 ^ (w - k)) / 2 ^ (w - k) := by
          rw [Nat.add_mul_div_right _ _ (Nat.two_pow_pos _), Nat.add_comm]
      _ = 2 * x.toNat / (2 * 2 ^ (w - (k + 1))) := by
          rw [Nat.mul_assoc, ← hp, hs, hq]
      _ = x.toNat / 2 ^ (w - (k + 1)) := Nat.mul_div_mul_left _ _ (by omega)

/-- All bits of a word. -/
theorem ofBits_word (x : BitVec w) : ofBits (shiftOut w x) = x.toNat := by
  rw [ofBits_shiftOut w x (Nat.le_refl w), Nat.sub_self, pow_zero, Nat.div_one]

/-- Bits 2 … `w` of a word and one foreign bit. -/
def delayed (x : BitVec w) (b : Bool) : List Bool := (shiftOut w x).tail ++ [b]

/-- **One-bit delay**: the receiver reads twice the word without its top bit,
plus the foreign bit. -/
theorem ofBits_delayed (x : BitVec w) (b : Bool) (h : 0 < w) :
    ofBits (delayed x b) = 2 * (x.toNat % 2 ^ (w - 1)) + b.toNat := by
  obtain ⟨n, rfl⟩ : ∃ n, w = n + 1 := ⟨w - 1, by omega⟩
  have hs := toNat_shift x h
  have hx := x.isLt
  have hp : 2 ^ (n + 1) = 2 * 2 ^ n := pow_succ' 2 n
  have hm : x.msb = decide (2 ^ n ≤ x.toNat) := BitVec.msb_eq_decide x
  unfold delayed
  rw [shiftOut_succ, List.tail_cons, ofBits_snoc, ofBits_shiftOut n _ (by omega),
    show n + 1 - n = 1 by omega, show n + 1 - 1 = n by omega, pow_one]
  by_cases hc : 2 ^ n ≤ x.toNat
  · simp only [hc, decide_true] at hm
    rw [hm, Bool.toNat_true] at hs
    rw [Nat.mod_eq_sub_mod hc, Nat.mod_eq_of_lt (by omega)]
    omega
  · simp only [hc, decide_false] at hm
    rw [hm, Bool.toNat_false] at hs
    rw [Nat.mod_eq_of_lt (by omega)]
    omega

/-- A word with room at the top is doubled exactly. -/
theorem ofBits_delayed_of_lt (x : BitVec w) (b : Bool) (h : 0 < w) (hx : x.toNat < 2 ^ (w - 1)) :
    ofBits (delayed x b) = 2 * x.toNat + b.toNat := by
  rw [ofBits_delayed x b h, Nat.mod_eq_of_lt hx]

end SonicCraft.Serial
