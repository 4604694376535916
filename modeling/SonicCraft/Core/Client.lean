import Mathlib.Data.List.Basic

/-!
# Programs that ask for one input after another

A `Client` takes its inputs from the front of a list; `none` says that the list
ends before the program does. `Runs c us a` is its meaning: given `us` and
whatever comes after, `c` takes exactly `us` and ends with `a`.

A `Local` client does not look ahead, so what it does is one of its runs
(`Local.runs`). Clients are put together with `>>=` and `loop`, a `while (1)` left
from inside; `runs_bind` and `runs_loop` take a run apart again, and `Rounds`, the
run of a loop, is what an invariant is proved on. `loop_waits` is for a loop whose
inputs have come to an end.
-/
namespace SonicCraft

/-- What the program ends with, and the inputs it has not taken. -/
def Client (T A : Type) := List T → Option (A × List T)

namespace Client
variable {T A B S : Type}

instance : Monad (Client T) where
  pure a := fun ts => some (a, ts)
  bind c f := fun ts => (c ts).bind fun r => f r.1 r.2

/-- The next input, which is to answer what has been asked for. -/
def ask (p : T → Prop) [DecidablePred p] : Client T T
  | [] => none
  | t :: ts => if p t then some (t, ts) else none

/-- `inl` goes round again, `inr` leaves. -/
def loopFrom (body : S → Client T (S ⊕ A)) : Nat → S → Client T A
  | 0, _ => fun _ => none
  | n + 1, s => fun ts => (body s ts).bind fun r =>
      r.1.elim (fun s' => loopFrom body n s' r.2) fun a => some (a, r.2)

/-- A round that is not the last takes an input, so there are no more rounds than
inputs, and one. -/
def loop (body : S → Client T (S ⊕ A)) (s : S) : Client T A :=
  fun ts => loopFrom body (ts.length + 1) s ts

/-! ## Runs -/

def Runs (c : Client T A) (us : List T) (a : A) : Prop := ∀ rest, c (us ++ rest) = some (a, rest)

def Local (c : Client T A) : Prop :=
  ∀ ts a rest, c ts = some (a, rest) → ∃ us, ts = us ++ rest ∧ Runs c us a

theorem Runs.eq {c : Client T A} {us : List T} {a : A} (h : Runs c us a) :
    c us = some (a, []) := by
  have h1 := h []
  rwa [List.append_nil] at h1

/-- A run that has taken all there is. -/
theorem Local.runs {c : Client T A} (h : Local c) {us : List T} {a : A}
    (hc : c us = some (a, [])) : Runs c us a := by
  obtain ⟨us', rfl, hr⟩ := h us a [] hc
  rwa [List.append_nil]

/-- A run of which no more is known than `g` shows of what it ends with. -/
theorem Local.runs_shown {c : Client T A} (h : Local c) {g : A → B} {us : List T} {b : B}
    (hc : (c us).map (fun r => (g r.1, r.2.length)) = some (b, 0)) : ∃ a, g a = b ∧ Runs c us a := by
  obtain ⟨⟨a, rest⟩, hrun, he⟩ := Option.map_eq_some_iff.mp hc
  obtain ⟨hb, hrest⟩ := Prod.mk.inj he
  obtain rfl := List.length_eq_zero_iff.mp hrest
  exact ⟨a, hb, h.runs hrun⟩

theorem local_pure (a : A) : Local (pure a : Client T A) := by
  intro ts b rest h
  cases h
  exact ⟨[], rfl, fun _ => rfl⟩

theorem runs_pure {a b : A} {us : List T} : Runs (pure a : Client T A) us b ↔ us = [] ∧ b = a := by
  constructor
  · intro h
    have h1 := h.eq
    cases h1
    exact ⟨rfl, rfl⟩
  · rintro ⟨rfl, rfl⟩ rest
    rfl

theorem runs_ask_of {p : T → Prop} [DecidablePred p] {t : T} (h : p t) : Runs (ask p) [t] t :=
  fun _ => if_pos h

theorem local_ask (p : T → Prop) [DecidablePred p] : Local (ask p) := by
  intro ts t rest h
  cases ts with
  | nil => cases h
  | cons u us =>
    by_cases hp : p u
    · rw [ask, if_pos hp] at h
      cases h
      exact ⟨[t], rfl, runs_ask_of hp⟩
    · rw [ask, if_neg hp] at h
      cases h

theorem runs_ask {p : T → Prop} [DecidablePred p] {t : T} {us : List T} :
    Runs (ask p) us t ↔ us = [t] ∧ p t := by
  constructor
  · intro h
    cases us with
    | nil => cases h.eq
    | cons u us =>
      have h1 := h.eq
      by_cases hp : p u
      · rw [ask, if_pos hp] at h1
        cases h1
        exact ⟨rfl, hp⟩
      · rw [ask, if_neg hp] at h1
        cases h1
  · rintro ⟨rfl, hp⟩
    exact runs_ask_of hp

/-- One after the other. -/
theorem Runs.bind {c : Client T A} {f : A → Client T B} {us us' : List T} {a : A} {b : B}
    (hc : Runs c us a) (hf : Runs (f a) us' b) : Runs (c >>= f) (us ++ us') b := by
  intro rest
  show (c _).bind _ = _
  rw [List.append_assoc, hc, Option.bind_some]
  exact hf rest

/-- Work on a result that asks for nothing. -/
theorem bind_pure_bind (c : Client T A) (g : A → B) (f : B → Client T S) :
    ((c >>= fun a => pure (g a)) >>= f) = c >>= fun a => f (g a) := by
  funext ts
  show ((c ts).bind _).bind f.uncurry = (c ts).bind _
  cases c ts <;> rfl

theorem bind_some {c : Client T A} {f : A → Client T B} {ts rest : List T} {b : B}
    (h : (c >>= f) ts = some (b, rest)) :
    ∃ a ts', c ts = some (a, ts') ∧ f a ts' = some (b, rest) := by
  obtain ⟨⟨a, ts'⟩, h1, h2⟩ := Option.bind_eq_some_iff.mp h
  exact ⟨a, ts', h1, h2⟩

theorem bind_none {c : Client T A} {f : A → Client T B} {ts : List T} (h : (c >>= f) ts = none) :
    c ts = none ∨ ∃ a ts', c ts = some (a, ts') ∧ f a ts' = none := by
  have hbind := Option.bind_eq_none_iff.mp h
  cases hc : c ts with
  | none => exact .inl rfl
  | some r => exact .inr ⟨r.1, r.2, rfl, hbind r hc⟩

theorem Local.bind {c : Client T A} {f : A → Client T B} (hc : Local c) (hf : ∀ a, Local (f a)) :
    Local (c >>= f) := by
  intro ts b rest h
  obtain ⟨a, ts', h1, h2⟩ := bind_some h
  obtain ⟨us, rfl, hr⟩ := hc ts a ts' h1
  obtain ⟨us', rfl, hr'⟩ := hf a ts' b rest h2
  exact ⟨us ++ us', (List.append_assoc us us' rest).symm, hr.bind hr'⟩

theorem runs_bind {c : Client T A} {f : A → Client T B} (hc : Local c) (hf : ∀ a, Local (f a))
    {us : List T} {b : B} : Runs (c >>= f) us b ↔
      ∃ us₁ a us₂, us = us₁ ++ us₂ ∧ Runs c us₁ a ∧ Runs (f a) us₂ b := by
  constructor
  · intro h
    obtain ⟨a, ts', h1, h2⟩ := bind_some h.eq
    obtain ⟨us₁, rfl, hr₁⟩ := hc us a ts' h1
    exact ⟨us₁, a, ts', rfl, hr₁, (hf a).runs h2⟩
  · rintro ⟨us₁, a, us₂, rfl, h1, h2⟩
    exact h1.bind h2

/-- A run of two parts, where only the first is known not to look ahead. -/
theorem Runs.split {c : Client T A} {f : A → Client T B} {us : List T} {b : B} (hc : Local c)
    (h : Runs (c >>= f) us b) :
    ∃ us₁ a us₂, us = us₁ ++ us₂ ∧ Runs c us₁ a ∧ f a us₂ = some (b, []) := by
  obtain ⟨a, us₂, h1, h2⟩ := bind_some h.eq
  obtain ⟨us₁, rfl, hr⟩ := hc us a us₂ h1
  exact ⟨us₁, a, us₂, rfl, hr, h2⟩

/-- A program that returns with a code unless it is `z`, and has ended with `z`. -/
theorem go_on {R : Type} [DecidableEq R] {r z : R} {e x : A} {k : Client T (R × A)}
    {ts rest : List T} (h : (if r ≠ z then pure (r, e) else k : Client T (R × A)) ts =
      some ((z, x), rest)) : r = z ∧ k ts = some ((z, x), rest) := by
  by_cases hr : r ≠ z
  · rw [if_pos hr] at h
    exact absurd (congrArg (fun o => o.1.1) (Option.some.inj h)) hr
  · rw [if_neg hr] at h
    exact ⟨not_not.mp hr, h⟩

theorem Local.ite {p : Prop} [Decidable p] {c c' : Client T A} (h : Local c) (h' : Local c') :
    Local (if p then c else c') := by
  split
  exacts [h, h']

/-! ## Loops -/

/-- The run of a loop. -/
inductive Rounds (body : S → Client T (S ⊕ A)) : S → List T → A → Prop
  | last {s : S} {us : List T} {a : A} (h : Runs (body s) us (.inr a)) : Rounds body s us a
  | round {s s' : S} {us us' : List T} {a : A} (h : Runs (body s) us (.inl s'))
      (rounds : Rounds body s' us' a) : Rounds body s (us ++ us') a

/-- What a loop asks of its body. -/
structure Body (body : S → Client T (S ⊕ A)) : Prop where
  isLocal : ∀ s, Local (body s)
  takes : ∀ s us s', Runs (body s) us (.inl s') → us ≠ []

variable {body : S → Client T (S ⊕ A)}

theorem loopFrom_rounds (hb : Body body) : ∀ (n : Nat) (s : S) (ts : List T) (a : A) (rest : List T),
    loopFrom body n s ts = some (a, rest) → ∃ us, ts = us ++ rest ∧ Rounds body s us a := by
  intro n
  induction n with
  | zero => intro s ts a rest h; cases h
  | succ n ih =>
    intro s ts a rest h
    obtain ⟨⟨r, ts'⟩, h1, h2⟩ := Option.bind_eq_some_iff.mp h
    obtain ⟨us, rfl, hr⟩ := hb.isLocal s ts r ts' h1
    cases r with
    | inl s' =>
      obtain ⟨us', rfl, hrs⟩ := ih s' ts' a rest h2
      exact ⟨us ++ us', (List.append_assoc us us' rest).symm, .round hr hrs⟩
    | inr b =>
      cases h2
      exact ⟨us, rfl, .last hr⟩

/-- There are rounds enough. -/
theorem Rounds.loopFrom (hb : Body body) {s : S} {us : List T} {a : A} (h : Rounds body s us a) :
    ∀ (n : Nat) (rest : List T), us.length < n →
      Client.loopFrom body n s (us ++ rest) = some (a, rest) := by
  induction h with
  | last hr =>
    intro n rest hn
    obtain ⟨n, rfl⟩ : ∃ k, n = k + 1 := ⟨n - 1, by omega⟩
    show (body _ _).bind _ = _
    rw [hr, Option.bind_some]
    rfl
  | round hr hrs ih =>
    intro n rest hn
    have hpos := List.length_pos_of_ne_nil (hb.takes _ _ _ hr)
    rw [List.length_append] at hn
    obtain ⟨n, rfl⟩ : ∃ k, n = k + 1 := ⟨n - 1, by omega⟩
    show (body _ _).bind _ = _
    rw [List.append_assoc, hr, Option.bind_some]
    exact ih n rest (by omega)

theorem Body.local_loop (hb : Body body) (s : S) : Local (loop body s) := by
  intro ts a rest h
  obtain ⟨us, rfl, hr⟩ := loopFrom_rounds hb _ s ts a rest h
  refine ⟨us, rfl, fun rest' => hr.loopFrom hb _ rest' ?_⟩
  rw [List.length_append]
  omega

theorem Body.runs_loop (hb : Body body) {s : S} {us : List T} {a : A} :
    Runs (loop body s) us a ↔ Rounds body s us a := by
  constructor
  · intro h
    obtain ⟨us', hus, hr⟩ := loopFrom_rounds hb _ s us a [] h.eq
    rwa [hus, List.append_nil]
  · intro h rest
    exact h.loopFrom hb _ rest (by rw [List.length_append]; omega)

/-- **Loop rule.** What every round keeps, of the inputs taken so far and the state,
holds when the last round begins. A round may use that the inputs are such as `G`
allows. -/
theorem Rounds.inv_guard {G : List T → Prop} {I : List T → S → Prop}
    (hG : ∀ us us', G (us ++ us') → G us)
    (hI : ∀ h s us s', G (h ++ us) → I h s → Runs (body s) us (.inl s') → I (h ++ us) s')
    {s : S} {us : List T} {a : A} (hr : Rounds body s us a) : ∀ {h : List T}, G (h ++ us) → I h s →
      ∃ us₁ s' us₂, us = us₁ ++ us₂ ∧ I (h ++ us₁) s' ∧ Runs (body s') us₂ (.inr a) := by
  induction hr with
  | @last s us a hr =>
    intro h _ hs
    exact ⟨[], s, us, rfl, by rwa [List.append_nil], hr⟩
  | @round s s' us us' a hr _ ih =>
    intro h hg hs
    rw [← List.append_assoc] at hg
    obtain ⟨us₁, s'', us₂, rfl, h1, h2⟩ := ih hg (hI h s us s' (hG _ _ hg) hs hr)
    rw [List.append_assoc] at h1
    exact ⟨us ++ us₁, s'', us₂, (List.append_assoc us us₁ us₂).symm, h1, h2⟩

/-- The loop rule over all inputs. -/
theorem Rounds.inv {I : List T → S → Prop}
    (hI : ∀ h s us s', I h s → Runs (body s) us (.inl s') → I (h ++ us) s')
    {s : S} {us : List T} {a : A} (hr : Rounds body s us a) (h0 : I [] s) :
    ∃ us₁ s' us₂, us = us₁ ++ us₂ ∧ I us₁ s' ∧ Runs (body s') us₂ (.inr a) :=
  hr.inv_guard (G := fun _ => True) (fun _ _ _ => trivial) (fun h s us s' _ => hI h s us s') trivial h0

theorem loopFrom_waits (hb : Body body) {I : List T → S → Prop}
    (hI : ∀ h s us s', I h s → Runs (body s) us (.inl s') → I (h ++ us) s') :
    ∀ (n : Nat) (h : List T) (s : S) (ts : List T), ts.length < n → I h s →
      loopFrom body n s ts = none →
      ∃ us s' rest, ts = us ++ rest ∧ I (h ++ us) s' ∧ body s' rest = none := by
  intro n
  induction n with
  | zero => intro h s ts hn; exact absurd hn (Nat.not_lt_zero _)
  | succ n ih =>
    intro h s ts hn hs hw
    change (body s ts).bind _ = none at hw
    cases hbody : body s ts with
    | none => exact ⟨[], s, ts, rfl, by rwa [List.append_nil], hbody⟩
    | some r =>
      obtain ⟨x, ts'⟩ := r
      obtain ⟨us, rfl, hr⟩ := hb.isLocal s ts x ts' hbody
      rw [hbody, Option.bind_some] at hw
      cases x with
      | inl s' =>
        have hpos := List.length_pos_of_ne_nil (hb.takes _ _ _ hr)
        rw [List.length_append] at hn
        obtain ⟨us', s'', rest, rfl, h1, h2⟩ :=
          ih (h ++ us) s' ts' (by omega) (hI h s us s' hs hr) hw
        rw [List.append_assoc] at h1
        exact ⟨us ++ us', s'', rest, (List.append_assoc us us' rest).symm, h1, h2⟩
      | inr a => cases hw

/-- **A loop that waits**: after some rounds its body waits, and what every round keeps
holds then. What rules that out makes the loop return. -/
theorem Body.loop_waits (hb : Body body) {I : List T → S → Prop}
    (hI : ∀ h s us s', I h s → Runs (body s) us (.inl s') → I (h ++ us) s')
    {s : S} {ts : List T} (h0 : I [] s) (hw : loop body s ts = none) :
    ∃ us s' rest, ts = us ++ rest ∧ I us s' ∧ body s' rest = none :=
  loopFrom_waits hb hI (ts.length + 1) [] s ts (Nat.lt_succ_self _) h0 hw

end Client
end SonicCraft
