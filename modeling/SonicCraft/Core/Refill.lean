import SonicCraft.Core.LTS

/-!
# A reader with a buffer that is refilled in batches

Each call hands out the next waiting item. When none is waiting the source is
asked for a batch, and its first item is handed out. What a source would have
answered, had it been asked, does not matter. `Refines` is what a program that
keeps its batch in a buffer of its own has to meet; its calls may be partial.

`Flow` says what has become of a queue: what was taken out of it, what waits still
and what was lost are together what waited before and what was put in; the first two
are in order. Flows compose (`Flow.trans`), so what every step keeps holds over a run
(`readings_flow`), and where nothing was lost the account is exact (`Flow.exact`).
-/
namespace SonicCraft.Refill
variable {E : Type}

/-- What is waiting after a call. -/
def step : List E → List E → List E
  | [], batch => batch.tail
  | _ :: q, _ => q

/-- What a call hands out. -/
def out : List E → List E → Option E
  | [], batch => batch.head?
  | e :: _, _ => some e

/-- What a call fetches. -/
def asked (q batch : List E) : List E := if q = [] then batch else []

/-- A program whose queue in state `s` is `pending s`, and whose source would
answer `batch s r`. `I` is the program's invariant. -/
structure Refines {S R : Type} (I : S → Prop) (pending : S → List E) (batch : S → R → List E)
    (call : S → R → Option (Option E × S)) : Prop where
  call_eq : ∀ s r, I s → ∃ s', call s r = some (out (pending s) (batch s r), s') ∧ I s' ∧
    pending s' = step (pending s) (batch s r)

/-! ## Flow -/

/-- From the queue `q` to `q'`. -/
structure Flow (q q' taken put lost : List E) : Prop where
  order : (taken ++ q').Sublist (q ++ put)
  kept : (taken ++ q' ++ lost).Perm (q ++ put)

theorem Flow.nil (q : List E) : Flow q q [] [] [] where
  order := by rw [List.append_nil]; exact List.Sublist.refl q
  kept := List.Perm.refl _

/-- The queue is given up. -/
theorem Flow.reset (q : List E) : Flow q [] [] [] q where
  order := List.nil_sublist _
  kept := List.perm_append_comm

/-- A call. -/
theorem Flow.call (q batch : List E) :
    Flow q (step q batch) (out q batch).toList (asked q batch) [] := by
  have h : (out q batch).toList ++ step q batch = q ++ asked q batch := by
    cases q with
    | nil => cases batch <;> rfl
    | cons e q => simp [out, step, asked]
  exact ⟨by rw [h], by rw [h, List.append_nil]⟩

theorem Flow.trans {q q₁ q₂ t t' p p' l l' : List E} (h : Flow q q₁ t p l)
    (h' : Flow q₁ q₂ t' p' l') : Flow q q₂ (t ++ t') (p ++ p') (l ++ l') := by
  constructor
  · have h1 := h'.order.append_left t
    have h2 := h.order.append_right p'
    rw [← List.append_assoc, ← List.append_assoc] at h1
    rw [List.append_assoc q] at h2
    exact h1.trans h2
  · classical
    refine List.perm_iff_count.mpr fun e => ?_
    have h1 := h.kept.count_eq e
    have h2 := h'.kept.count_eq e
    simp only [List.count_append] at h1 h2 ⊢
    omega

/-- Where nothing was lost. -/
theorem Flow.exact {q q' t p : List E} (h : Flow q q' t p []) : t ++ q' = q ++ p :=
  h.order.eq_of_length (by simpa using h.kept.length_eq)

/-- **Over a run**, of a machine that may stop but does not. -/
theorem readings_flow {S R : Type} {f : S → R → Option S} {I : S → Prop} (queue : S → List E)
    (taken put lost : S → R → List E)
    (hs : ∀ s r, I s → ∃ s', f s r = some s' ∧ I s' ∧
      Flow (queue s) (queue s') (taken s r) (put s r) (lost s r)) (rs : List R) :
    ∀ s, I s → ∃ s', execOpt f s rs = some s' ∧ I s' ∧
      Flow (queue s) (queue s') (readings f taken s rs) (readings f put s rs)
        (readings f lost s rs) := by
  induction rs with
  | nil => intro s h; exact ⟨s, rfl, h, .nil _⟩
  | cons r rs ih =>
    intro s h
    obtain ⟨s₁, hf, h₁, hflow⟩ := hs s r h
    obtain ⟨s', hrun, h', hflow'⟩ := ih s₁ h₁
    refine ⟨s', by rw [execOpt_cons hf]; exact hrun, h', ?_⟩
    rw [readings_cons hf, readings_cons hf, readings_cons hf]
    exact hflow.trans hflow'

end SonicCraft.Refill
