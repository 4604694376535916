import Mathlib.Data.List.GetD
import Mathlib.Data.List.OfFn
import Mathlib.Logic.Function.Basic

/-!
# Fixed-size buffers

A buffer has `n` places from the start, whatever is in them. `load` and `store`
are partial: `none` is an access outside. `put buf p` is the buffer with `p`
written over its beginning and the old contents after it; `store_put` and
`write_put` say that writing on leads from one such buffer to the next, so a
program that writes byte after byte is described by what it has written.
-/
namespace SonicCraft

abbrev Buffer (n : Nat) (B : Type) := Fin n → B

namespace Buffer
variable {n : Nat} {B : Type}

def load (buf : Buffer n B) (i : Nat) : Option B := if h : i < n then some (buf ⟨i, h⟩) else none

def store (buf : Buffer n B) (i : Nat) (b : B) : Option (Buffer n B) :=
  if h : i < n then some (Function.update buf ⟨i, h⟩ b) else none

/-- The first `k` places. -/
def first (buf : Buffer n B) (k : Nat) : Option (List B) :=
  if k ≤ n then some ((List.ofFn buf).take k) else none

/-- Place after place, from `i` on. -/
def write (buf : Buffer n B) (i : Nat) : List B → Option (Buffer n B)
  | [] => some buf
  | b :: bs => (buf.store i b).bind fun buf' => Buffer.write buf' (i + 1) bs

/-- `p`, and what was there after it. -/
def put (buf : Buffer n B) (p : List B) : Buffer n B := fun i => p.getD i (buf i)

theorem put_lt (buf : Buffer n B) {p : List B} {i : Fin n} (h : (i : Nat) < p.length) :
    buf.put p i = p[i] := List.getD_eq_getElem p (buf i) h

theorem put_ge (buf : Buffer n B) {p : List B} {i : Fin n} (h : p.length ≤ i) :
    buf.put p i = buf i := List.getD_eq_default p (buf i) h

/-- The beginning of `p` is enough to have its first places. -/
theorem put_take (buf : Buffer n B) {p : List B} {k : Nat} {i : Fin n} (d : B) (hk : (i : Nat) < k)
    (h : (i : Nat) < p.length) : buf.put (p.take k) i = p.getD i d := by
  have ht : (i : Nat) < (p.take k).length := by rw [List.length_take]; omega
  have h1 : (p.take k)[(i : Nat)] = p[(i : Nat)] := List.getElem_take
  rw [List.getD_eq_getElem p d h, ← h1]
  exact put_lt buf ht

theorem load_lt (buf : Buffer n B) {i : Nat} (h : i < n) : buf.load i = some (buf ⟨i, h⟩) :=
  dif_pos h

theorem store_ge (buf : Buffer n B) {i : Nat} (b : B) (h : n ≤ i) : buf.store i b = none :=
  dif_neg (Nat.not_lt.mpr h)

theorem first_put (buf : Buffer n B) {p : List B} (h : p.length ≤ n) :
    (buf.put p).first p.length = some p := by
  rw [first, if_pos h]
  congr 1
  apply List.ext_getElem
  · rw [List.length_take, List.length_ofFn]; omega
  · intro i h1 h2
    rw [List.getElem_take, List.getElem_ofFn]
    exact put_lt buf h2

theorem store_put (buf : Buffer n B) (p : List B) (b : B) (h : p.length < n) :
    (buf.put p).store p.length b = some (buf.put (p ++ [b])) := by
  rw [store, dif_pos h]
  congr 1
  funext i
  by_cases hi : i = ⟨p.length, h⟩
  · subst hi; simp [put]
  · have hne : (i : Nat) ≠ p.length := fun he => hi (Fin.ext he)
    rw [Function.update_of_ne hi]
    rcases Nat.lt_or_gt_of_ne hne with hlt | hgt
    · exact (List.getD_append _ _ _ _ hlt).symm
    · rw [put_ge buf (by omega), put_ge buf]
      rw [List.length_append, List.length_singleton]; omega

theorem write_put (buf : Buffer n B) : ∀ (bs p : List B), p.length + bs.length ≤ n →
    (buf.put p).write p.length bs = some (buf.put (p ++ bs)) := by
  intro bs
  induction bs with
  | nil => intro p _; rw [List.append_nil]; rfl
  | cons b bs ih =>
    intro p h
    rw [List.length_cons] at h
    have h1 := ih (p ++ [b]) (by rw [List.length_append, List.length_singleton]; omega)
    rw [List.length_append, List.length_singleton, List.append_assoc] at h1
    rw [write, store_put buf p b (by omega), Option.bind_some]
    exact h1

/-- Writing the beginning. -/
theorem write_start (buf : Buffer n B) {bs : List B} (h : bs.length ≤ n) :
    buf.write 0 bs = some (buf.put bs) :=
  write_put buf bs [] (by simpa using h)

end Buffer
end SonicCraft
