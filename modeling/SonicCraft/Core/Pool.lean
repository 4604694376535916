import Mathlib.Algebra.BigOperators.Group.Finset.Piecewise
import Mathlib.Data.Fintype.Card
import SonicCraft.Core.LTS

/-!
# A pool of slots held under keys

What an allocator with finitely many slots is for, before any choice of slot:
a `press` of a key takes at most one free slot (or none: the request may be
dropped), a `release` of a key frees one slot held under that key whenever there
is one, and nothing else moves. Which free slot, which of several slots of one
key, and when a request is dropped are left open, so first-fit, best-fit and
round-robin allocators all refine `lts`.

* `held_le`: as long as no history releases a key more often than it was
  pressed, a key holds at most as many slots as it has presses outstanding.
* `empty_of_balanced`: so once every press has been released, no slot is held.
-/
namespace SonicCraft.Pool

/-- Slots `ι`, each free or held under a key with a payload. -/
abbrev Slots (ι K V : Type) := ι → Option (K × V)

/-- A request of the environment. -/
inductive Lbl (K V : Type) where
  | press (k : K) (v : V)
  | release (k : K)
  | other
  deriving DecidableEq, Repr

section
variable {ι K V : Type} [DecidableEq ι]

/-- What a request may do to the pool. -/
inductive Step : Slots ι K V → Lbl K V → Slots ι K V → Prop
  | drop (s k v) : Step s (.press k v) s
  | claim {s k v i} (h : s i = none) : Step s (.press k v) (Function.update s i (some (k, v)))
  | free {s k v i} (h : s i = some (k, v)) : Step s (.release k) (Function.update s i none)
  | miss {s k} (h : ∀ i v, s i ≠ some (k, v)) : Step s (.release k) s
  | other (s) : Step s .other s

def empty : Slots ι K V := fun _ => none

def lts : LTS (Slots ι K V) (Lbl K V) where
  step := Step

variable [DecidableEq K]

def isPress (k : K) : Lbl K V → Bool
  | .press k' _ => k' = k
  | _ => false

def isRelease (k : K) : Lbl K V → Bool
  | .release k' => k' = k
  | _ => false

/-- Presses of `k` in a history. -/
def presses (k : K) (ls : List (Lbl K V)) : Nat := ls.countP (isPress k)

/-- Releases of `k` in a history. -/
def releases (k : K) (ls : List (Lbl K V)) : Nat := ls.countP (isRelease k)

/-- No history so far releases a key more often than it was pressed. -/
def Admissible (ls : List (Lbl K V)) : Prop := ∀ p, p <+: ls → ∀ k, releases k p ≤ presses k p

/-- Every press has been released. -/
def Balanced (ls : List (Lbl K V)) : Prop := ∀ k, releases k ls = presses k ls

theorem presses_snoc (k : K) (ls : List (Lbl K V)) (l : Lbl K V) :
    presses k (ls ++ [l]) = presses k ls + if isPress k l then 1 else 0 := by
  simp [presses]

theorem releases_snoc (k : K) (ls : List (Lbl K V)) (l : Lbl K V) :
    releases k (ls ++ [l]) = releases k ls + if isRelease k l then 1 else 0 := by
  simp [releases]

theorem Admissible.of_snoc {ls : List (Lbl K V)} {l : Lbl K V} (h : Admissible (ls ++ [l])) :
    Admissible ls :=
  fun p hp => h p (hp.trans (List.prefix_append _ _))

variable [Fintype ι]

/-- Slot `x` is held under `k`. -/
def holds (k : K) (x : Option (K × V)) : Bool := x.any fun p => p.1 = k

@[simp] theorem holds_none (k : K) : holds k (none : Option (K × V)) = false := rfl

@[simp] theorem holds_some (k k' : K) (v : V) : holds k (some (k', v)) = decide (k' = k) := rfl

/-- Slots held under `k`. -/
def held (k : K) (s : Slots ι K V) : Nat := (Finset.univ.filter fun i => holds k (s i)).card

/-- Writing one slot moves the count by that slot's own contribution. -/
theorem held_update (k : K) (s : Slots ι K V) (i : ι) (x : Option (K × V)) :
    held k (Function.update s i x) + (if holds k (s i) then 1 else 0) =
      held k s + (if holds k x then 1 else 0) := by
  have key : ∀ t : Slots ι K V, held k t =
      (if holds k (t i) then 1 else 0) + ∑ j ∈ Finset.univ.erase i, if holds k (t j) then 1 else 0 := by
    intro t
    rw [held, Finset.card_filter, ← Finset.add_sum_erase _ _ (Finset.mem_univ i)]
  have rest : (∑ j ∈ Finset.univ.erase i, if holds k (Function.update s i x j) then 1 else 0) =
      ∑ j ∈ Finset.univ.erase i, if holds k (s j) then 1 else 0 :=
    Finset.sum_congr rfl fun j hj => by rw [Function.update_of_ne (Finset.ne_of_mem_erase hj)]
  rw [key (Function.update s i x), key s, rest, Function.update_self]
  omega

omit [DecidableEq ι] in
theorem held_eq_zero {k : K} {s : Slots ι K V} : held k s = 0 ↔ ∀ i v, s i ≠ some (k, v) := by
  rw [held, Finset.card_eq_zero, Finset.filter_eq_empty_iff]
  constructor
  · intro h i v hi
    exact h (Finset.mem_univ i) (by simp [hi])
  · intro h i _ hi
    cases hs : s i with
    | none => simp [hs] at hi
    | some p =>
      obtain ⟨k', v⟩ := p
      simp only [hs, holds_some, decide_eq_true_eq] at hi
      exact h i v (by rw [hs, hi])

omit [DecidableEq ι] in
theorem held_empty (k : K) : held k (empty : Slots ι K V) = 0 :=
  held_eq_zero.mpr fun i v h => by simp [empty] at h

/-- One request keeps "held plus released at most pressed", provided the
request itself is not a release too many. -/
theorem held_step {s s' : Slots ι K V} {l : Lbl K V} (k : K) {r p : Nat} (h : Step s l s')
    (hadm : r + (if isRelease k l then 1 else 0) ≤ p + (if isPress k l then 1 else 0))
    (hle : held k s + r ≤ p) :
    held k s' + (r + if isRelease k l then 1 else 0) ≤ p + if isPress k l then 1 else 0 := by
  cases h with
  | drop k' v => simp only [isRelease, Bool.false_eq_true, if_false] at *; omega
  | other => simp only [isRelease, isPress, Bool.false_eq_true, if_false] at *; omega
  | @claim k' v i hi =>
    have hu := held_update k s i (some (k', v))
    simp only [hi, holds_none, holds_some, isPress, isRelease] at *
    by_cases hk : k' = k
    all_goals simp only [hk, decide_true, decide_false, Bool.false_eq_true, if_true, if_false] at *; omega
  | @free k' v i hi =>
    have hu := held_update k s i none
    simp only [hi, holds_none, holds_some, isPress, isRelease] at *
    by_cases hk : k' = k
    all_goals simp only [hk, decide_true, decide_false, Bool.false_eq_true, if_true, if_false] at *; omega
  | @miss k' hi =>
    by_cases hk : k' = k
    · -- nothing was held under `k`, so the bound is the admissibility of the release
      have h0 : held k s = 0 := held_eq_zero.mpr (by rw [← hk]; exact hi)
      omega
    · simp only [isRelease, isPress, hk, decide_false, Bool.false_eq_true, if_false] at *
      omega

/-- **Held at most outstanding**, after every admissible history. -/
theorem held_le {ls : List (Lbl K V)} {s : Slots ι K V} (hr : lts.Run empty ls s)
    (hadm : Admissible ls) (k : K) : held k s + releases k ls ≤ presses k ls := by
  refine LTS.run_hist (G := Admissible) (I := fun ls s => held k s + releases k ls ≤ presses k ls)
    (fun ls l => Admissible.of_snoc) ?_ ?_ ls s hadm hr
  · simp [held_empty, presses, releases]
  · intro ls l s s' hg hle hst
    have h1 := hg _ (List.prefix_refl _) k
    rw [presses_snoc, releases_snoc] at h1 ⊢
    exact held_step k hst h1 hle

/-- **Nothing is held once every press has been released.** -/
theorem empty_of_balanced {ls : List (Lbl K V)} {s : Slots ι K V} (hr : lts.Run empty ls s)
    (hadm : Admissible ls) (hbal : Balanced ls) : s = empty := by
  funext i
  cases hs : s i with
  | none => rfl
  | some p =>
    obtain ⟨k, v⟩ := p
    have h1 := held_le hr hadm k
    have h2 := hbal k
    exact absurd hs (held_eq_zero.mp (by omega) i v)

end
end SonicCraft.Pool
