import Mathlib.Data.List.Induction
import Mathlib.Data.Nat.Count

/-!
# Transition systems and deterministic machines

Two views of "what can happen over a whole run":

* `LTS`: a transition relation with labels, for abstract models that leave a
  choice open. `Run` is a labelled run.
* `exec f s es`: the state a deterministic machine `f : S → E → S` is in after
  the inputs `es`. `Along f P s es` says that every step of that run meets `P`
  (a condition on the state before the step and on its input).

The rules are the inductions the rest of the development uses: an invariant of
every step is an invariant of every run (`exec_inv`), a relation between the
history and the state that every step keeps holds after every run
(`exec_hist`, and `exec_hist_along` for runs whose steps meet a condition), and
a machine whose every step is matched by an LTS is matched over whole runs
(`exec_simulates`). `execOpt` is the run of a machine that may stop on the way
(`none`) and `readings` what is read along it. `samples` lists what is read before each step. `hits` counts
the steps of a kind; where the kind depends on the step's number only, it is a
count over the numbers (`hits_eq_count`).
-/
namespace SonicCraft

/-- A labelled transition system. -/
structure LTS (S L : Type) where
  step : S → L → S → Prop

namespace LTS
variable {S L : Type} (M : LTS S L)

/-- A run from one state to another, with its labels. -/
inductive Run : S → List L → S → Prop
  | nil (s : S) : Run s [] s
  | cons {s s' s'' : S} {l : L} {ls : List L} (h : M.step s l s') (hr : Run s' ls s'') :
      Run s (l :: ls) s''

variable {M}

/-- A run of `ls ++ [l]` ends with a step labelled `l`. -/
theorem run_snoc_inv {ls : List L} {l : L} : ∀ {s s'' : S}, M.Run s (ls ++ [l]) s'' →
    ∃ s', M.Run s ls s' ∧ M.step s' l s'' := by
  induction ls with
  | nil =>
    intro s s'' h
    cases h with
    | cons h1 h2 => cases h2; exact ⟨s, .nil s, h1⟩
  | cons a ls ih =>
    intro s s'' h
    cases h with
    | cons h1 h2 =>
      obtain ⟨s', h3, h4⟩ := ih h2
      exact ⟨s', .cons h1 h3, h4⟩

/-- **History rule.** A relation between the labels so far and the state that
every step keeps holds at the end of every run. `G` restricts the histories
looked at; it has to be closed under dropping the last label. -/
theorem run_hist {G : List L → Prop} {I : List L → S → Prop} {s₀ : S}
    (hG : ∀ ls l, G (ls ++ [l]) → G ls) (h0 : I [] s₀)
    (hs : ∀ ls l s s', G (ls ++ [l]) → I ls s → M.step s l s' → I (ls ++ [l]) s') :
    ∀ ls s, G ls → M.Run s₀ ls s → I ls s := by
  intro ls
  induction ls using List.reverseRecOn with
  | nil => intro s _ h; cases h; exact h0
  | append_singleton ls l ih =>
    intro s hg h
    obtain ⟨s', h1, h2⟩ := run_snoc_inv h
    exact hs ls l s' s hg (ih s' (hG ls l hg) h1) h2

end LTS

/-! ## Histories -/

/-- A place in a history that has just grown is the new last one or an old one. -/
theorem mem_snoc_cases {α : Type} {a b es : List α} {x e : α} (h : es ++ [e] = a ++ x :: b) :
    (es = a ∧ e = x ∧ b = []) ∨ ∃ b', b = b' ++ [e] ∧ es = a ++ x :: b' := by
  rcases List.eq_nil_or_concat b with rfl | ⟨b', y, rfl⟩
  · obtain ⟨h1, h2⟩ := List.append_inj' h rfl
    exact .inl ⟨h1, by simpa using h2, rfl⟩
  · rw [List.concat_eq_append, ← List.cons_append, ← List.append_assoc] at h
    obtain ⟨h1, h2⟩ := List.append_inj' h rfl
    obtain rfl : e = y := by simpa using h2
    exact .inr ⟨b', List.concat_eq_append, h1⟩

/-! ## Deterministic machines -/

section Machine
variable {S E : Type}

/-- The state after the inputs `es`. -/
def exec (f : S → E → S) (s : S) (es : List E) : S := es.foldl f s

@[simp] theorem exec_nil (f : S → E → S) (s : S) : exec f s [] = s := rfl

@[simp] theorem exec_cons (f : S → E → S) (s : S) (e : E) (es : List E) :
    exec f s (e :: es) = exec f (f s e) es := rfl

@[simp] theorem exec_append (f : S → E → S) (s : S) (es es' : List E) :
    exec f s (es ++ es') = exec f (exec f s es) es' := List.foldl_append

/-- The last step of a run. -/
theorem exec_snoc (f : S → E → S) (s : S) (es : List E) (e : E) :
    exec f s (es ++ [e]) = f (exec f s es) e := exec_append f s es [e]

/-- **Invariant rule.** -/
theorem exec_inv {f : S → E → S} {I : S → Prop} (hs : ∀ s e, I s → I (f s e)) :
    ∀ (es : List E) (s : S), I s → I (exec f s es)
  | [], _, h => h
  | e :: es, s, h => exec_inv hs es (f s e) (hs s e h)

/-- Every step of the run from `s` meets `P`. -/
def Along (f : S → E → S) (P : S → E → Prop) : S → List E → Prop
  | _, [] => True
  | s, e :: es => P s e ∧ Along f P (f s e) es

instance {f : S → E → S} {P : S → E → Prop} [∀ s e, Decidable (P s e)] :
    ∀ (s : S) (es : List E), Decidable (Along f P s es)
  | _, [] => instDecidableTrue
  | s, e :: es =>
    haveI : Decidable (Along f P (f s e) es) := instDecidableAlong (f s e) es
    inferInstanceAs (Decidable (P s e ∧ Along f P (f s e) es))

theorem along_append {f : S → E → S} {P : S → E → Prop} (es es' : List E) :
    ∀ s, Along f P s (es ++ es') ↔ Along f P s es ∧ Along f P (exec f s es) es' := by
  induction es with
  | nil => intro s; simp [Along]
  | cons e es ih => intro s; simp only [List.cons_append, Along, exec_cons, ih, and_assoc]

theorem along_snoc {f : S → E → S} {P : S → E → Prop} (s : S) (es : List E) (e : E) :
    Along f P s (es ++ [e]) ↔ Along f P s es ∧ P (exec f s es) e := by
  simp [along_append, Along]

/-- `Along`, read as a statement about every step of the run. -/
theorem along_iff {f : S → E → S} {P : S → E → Prop} (s : S) (es : List E) :
    Along f P s es ↔ ∀ p e, p ++ [e] <+: es → P (exec f s p) e := by
  induction es using List.reverseRecOn with
  | nil => simp [Along]
  | append_singleton es a ih =>
    rw [along_snoc, ih]
    constructor
    · rintro ⟨h1, h2⟩ p e hp
      rcases List.prefix_concat_iff.mp hp with he | he
      · obtain ⟨hp', he'⟩ := List.append_inj' he rfl
        obtain rfl : e = a := by simpa using he'
        rw [hp']; exact h2
      · exact h1 p e he
    · intro h
      exact ⟨fun p e hp => h p e (hp.trans (List.prefix_append _ _)), h es a (List.prefix_refl _)⟩

/-- An invariant may be assumed at every step of a run. -/
theorem along_inv {f : S → E → S} {I : S → Prop} {P : S → E → Prop}
    (hI : ∀ s e, I s → I (f s e)) :
    ∀ {es : List E} {s : S}, I s → Along f P s es → Along f (fun s e => I s ∧ P s e) s es
  | [], _, _, _ => trivial
  | e :: _, s, h, ha => ⟨⟨h, ha.1⟩, along_inv hI (hI s e h) ha.2⟩

/-- **History rule**: a relation between the inputs so far and the state that
every step keeps holds after every run. `G` restricts the histories looked at;
it has to be closed under dropping the last input. -/
theorem exec_hist_guard {f : S → E → S} {s : S} {G : List E → Prop} {I : List E → S → Prop}
    (hG : ∀ h e, G (h ++ [e]) → G h) (h0 : I [] s)
    (hs : ∀ h e, G (h ++ [e]) → I h (exec f s h) → I (h ++ [e]) (f (exec f s h) e)) :
    ∀ es, G es → I es (exec f s es) := by
  intro es
  induction es using List.reverseRecOn with
  | nil => intro _; exact h0
  | append_singleton es e ih =>
    intro hg
    rw [exec_snoc]; exact hs es e hg (ih (hG es e hg))

/-- The history rule over all runs. -/
theorem exec_hist {f : S → E → S} {s : S} {I : List E → S → Prop} (h0 : I [] s)
    (hs : ∀ h e, I h (exec f s h) → I (h ++ [e]) (f (exec f s h) e)) :
    ∀ es, I es (exec f s es) :=
  fun es => exec_hist_guard (G := fun _ => True) (fun _ _ _ => trivial) h0
    (fun h e _ => hs h e) es trivial

/-- The history rule inside one run: a step may use that it is part of `es`. -/
theorem exec_hist_within {f : S → E → S} {s : S} {es : List E} {I : List E → S → Prop}
    (h0 : I [] s)
    (hs : ∀ h e, h ++ [e] <+: es → I h (exec f s h) → I (h ++ [e]) (f (exec f s h) e)) :
    ∀ p, p <+: es → I p (exec f s p) :=
  exec_hist_guard (G := fun p => p <+: es) (fun h e hp => (List.prefix_append h [e]).trans hp) h0 hs

/-- The history rule for runs whose every step meets `P`. -/
theorem exec_hist_along {f : S → E → S} {s : S} {P : S → E → Prop} {I : List E → S → Prop}
    (h0 : I [] s)
    (hs : ∀ h e, P (exec f s h) e → I h (exec f s h) → I (h ++ [e]) (f (exec f s h) e)) :
    ∀ es, Along f P s es → I es (exec f s es) :=
  exec_hist_guard (fun h e hg => ((along_snoc s h e).mp hg).1) h0
    fun h e hg => hs h e ((along_snoc s h e).mp hg).2

/-- **Simulation rule.** If every step that meets `P` is matched by a step of
`M` through `abs` and `lab`, every run whose steps meet `P` is matched by a run
of `M` with the same labels. -/
theorem exec_simulates {T L : Type} {f : S → E → S} {P : S → E → Prop} (M : LTS T L)
    (abs : S → T) (lab : E → L) (hs : ∀ s e, P s e → M.step (abs s) (lab e) (abs (f s e))) :
    ∀ es s, Along f P s es → M.Run (abs s) (es.map lab) (abs (exec f s es))
  | [], s, _ => .nil (abs s)
  | e :: es, s, ha =>
    .cons (hs s e ha.1) (exec_simulates M abs lab hs es (f s e) ha.2)

/-! ## What a run shows -/

/-- What `o` reads before each step of the run. -/
def samples {A : Type} (f : S → E → S) (o : S → E → A) : S → List E → List A
  | _, [] => []
  | s, e :: es => o s e :: samples f o (f s e) es

@[simp] theorem samples_length {A : Type} (f : S → E → S) (o : S → E → A) (es : List E) :
    ∀ s, (samples f o s es).length = es.length := by
  induction es with
  | nil => intro s; rfl
  | cons e es ih => intro s; simp [samples, ih]

theorem samples_append {A : Type} (f : S → E → S) (o : S → E → A) (es es' : List E) :
    ∀ s, samples f o s (es ++ es') = samples f o s es ++ samples f o (exec f s es) es' := by
  induction es with
  | nil => intro s; rfl
  | cons e es ih => intro s; simp [samples, ih]

/-! ## Counting steps of a kind -/

/-- How many steps of the run meet `P`. -/
def hits (f : S → E → S) (P : S → E → Bool) : S → List E → Nat
  | _, [] => 0
  | s, e :: es => (P s e).toNat + hits f P (f s e) es

theorem hits_append {f : S → E → S} {P : S → E → Bool} (es es' : List E) :
    ∀ s, hits f P s (es ++ es') = hits f P s es + hits f P (exec f s es) es' := by
  induction es with
  | nil => intro s; simp [hits]
  | cons e es ih => intro s; simp only [List.cons_append, hits, exec_cons, ih, Nat.add_assoc]

theorem hits_snoc {f : S → E → S} {P : S → E → Bool} (s : S) (es : List E) (e : E) :
    hits f P s (es ++ [e]) = hits f P s es + (P (exec f s es) e).toNat := by
  rw [hits_append]; simp [hits]

/-- Steps whose kind depends on their number only. -/
theorem hits_eq_count {f : S → E → S} {P : S → E → Bool} {s : S} {Q : Nat → Prop}
    [DecidablePred Q] (h : ∀ es e, P (exec f s es) e = decide (Q es.length)) (es : List E) :
    hits f P s es = Nat.count Q es.length := by
  induction es using List.reverseRecOn with
  | nil => simp [hits]
  | append_singleton es e ih =>
    rw [hits_snoc, ih, h, List.length_append, List.length_singleton, Nat.count_succ]
    by_cases hq : Q es.length <;> simp [hq]

end Machine

/-! ## Machines that may stop -/

section Stop
variable {S E A : Type} {f : S → E → Option S}

/-- The state after the inputs `es`, if the machine gets there. -/
abbrev execOpt (f : S → E → Option S) (s : S) (es : List E) : Option S := es.foldlM f s

theorem execOpt_cons {s s' : S} {e : E} (h : f s e = some s') (es : List E) :
    execOpt f s (e :: es) = execOpt f s' es := by
  rw [execOpt, List.foldlM_cons, h]; rfl

theorem execOpt_append (s : S) (a b : List E) :
    execOpt f s (a ++ b) = (execOpt f s a).bind fun s' => execOpt f s' b := List.foldlM_append

/-- What `r` reads before each step, as far as the machine gets. -/
def readings (f : S → E → Option S) (r : S → E → List A) (s : S) : List E → List A
  | [] => []
  | e :: es => r s e ++ match f s e with
    | some s' => readings f r s' es
    | none => []

theorem readings_cons {s s' : S} {e : E} (h : f s e = some s') (r : S → E → List A) (es : List E) :
    readings f r s (e :: es) = r s e ++ readings f r s' es := by
  rw [readings, h]

theorem readings_append (r : S → E → List A) {a : List E} (b : List E) : ∀ {s s' : S},
    execOpt f s a = some s' → readings f r s (a ++ b) = readings f r s a ++ readings f r s' b := by
  induction a with
  | nil => intro s s' h; cases h; rfl
  | cons e a ih =>
    intro s s' h
    cases hf : f s e with
    | none =>
      rw [execOpt, List.foldlM_cons, hf] at h
      cases h
    | some s₁ =>
      rw [execOpt_cons hf] at h
      rw [List.cons_append, readings_cons hf, readings_cons hf, ih h, List.append_assoc]

/-- **Refinement rule** for a machine that does not stop: its every step is some
steps of `g`. -/
theorem execOpt_refines {T L : Type} {g : T → L → T} {I : S → Prop} (abs : S → T)
    (tr : S → E → List L)
    (hs : ∀ s e, I s → ∃ s', f s e = some s' ∧ I s' ∧ abs s' = exec g (abs s) (tr s e))
    (es : List E) : ∀ s, I s → ∃ s', execOpt f s es = some s' ∧ I s' ∧
      abs s' = exec g (abs s) (readings f tr s es) := by
  induction es with
  | nil => intro s h; exact ⟨s, rfl, h, rfl⟩
  | cons e es ih =>
    intro s h
    obtain ⟨s₁, hf, h₁, habs₁⟩ := hs s e h
    obtain ⟨s', hrun, h', habs⟩ := ih s₁ h₁
    refine ⟨s', by rw [execOpt_cons hf]; exact hrun, h', ?_⟩
    rw [readings_cons hf, exec_append, ← habs₁, habs]

/-- What is read, is read of a step. -/
theorem mem_readings {r : S → E → List A} {a : A} {es : List E} : ∀ {s : S},
    a ∈ readings f r s es → ∃ s', ∃ e ∈ es, a ∈ r s' e := by
  induction es with
  | nil => intro s h; cases h
  | cons e es ih =>
    intro s h
    unfold readings at h
    rcases List.mem_append.mp h with h | h
    · exact ⟨s, e, List.mem_cons_self, h⟩
    · cases hf : f s e with
      | none => rw [hf] at h; cases h
      | some s₁ =>
        rw [hf] at h
        obtain ⟨s', e', he, ha⟩ := ih h
        exact ⟨s', e', List.mem_cons_of_mem e he, ha⟩

/-- Nothing is read of a run whose every step shows nothing. -/
theorem readings_nil {r : S → E → List A} {es : List E} (h : ∀ s, ∀ e ∈ es, r s e = []) (s : S) :
    readings f r s es = [] := by
  rw [List.eq_nil_iff_forall_not_mem]
  intro a ha
  obtain ⟨s', e, he, hm⟩ := mem_readings ha
  rw [h s' e he] at hm
  cases hm

theorem readings_length_add {g h : S → E → List A} (es : List E) : ∀ s,
    (readings f (fun s e => g s e ++ h s e) s es).length =
      (readings f g s es).length + (readings f h s es).length := by
  induction es with
  | nil => intro s; rfl
  | cons e es ih =>
    intro s
    unfold readings
    cases f s e with
    | none => simp
    | some s' => simp only [List.length_append, ih s']; omega

/-- Where every step shows `g` and then `h`, the run shows `g` alone exactly when
`h` is empty all along. -/
theorem readings_append_iff {g h : S → E → List A} (es : List E) : ∀ s,
    readings f (fun s e => g s e ++ h s e) s es = readings f g s es ↔ readings f h s es = [] := by
  intro s
  constructor
  · intro he
    have hlen := readings_length_add (f := f) (g := g) (h := h) es s
    rw [he] at hlen
    exact List.eq_nil_of_length_eq_zero (by omega)
  · revert s
    induction es with
    | nil => intro s _; rfl
    | cons e es ih =>
      intro s he
      unfold readings at he ⊢
      rw [List.append_eq_nil_iff] at he
      obtain ⟨h1, h2⟩ := he
      rw [h1, List.append_nil]
      cases hf : f s e with
      | none => rfl
      | some s' =>
        rw [hf] at h2
        exact congrArg (g s e ++ ·) (ih s' h2)

end Stop
end SonicCraft
