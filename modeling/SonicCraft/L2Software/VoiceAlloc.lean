import SonicCraft.L2Software.MidiLoop

/-!
# Voice allocation over whole runs

What the two copies of the voice state promise after any stream of packets,
whatever the data bytes:

* a free slot's register is 0 and a used slot's register is pitch and velocity
  of the Note On that claimed it last (`used_last`);
* a packet changes at most one slot (`changes_unique`), and only a free one
  (Note On) or one that holds the packet's pitch (Note Off) (`changes_cases`);
* a Note On claims exactly one free slot unless it is the first of the stream
  or no slot is free (`claims_unique`, `ignored_iff`).

`alloc_safe` puts them together. A Note Off for pitch 0 can match a free slot,
whose register is 0; writing 0 there changes nothing, so the statements hold for
pitch 0 too (what goes wrong with it is in `SonicCraft.Bugs.StuckNote`).
-/
namespace SonicCraft.L2.MidiLoop

/-- `e` is a Note On that takes slot `i`. -/
def Claims (s : St) (e : Packet) (i : Fin numNotes) : Prop :=
  e.IsOn ∧ s.noteUsed i = false ∧ (step s e).noteUsed i = true

/-- `e` changes the flag or the register of slot `i`. -/
def Changes (s : St) (e : Packet) (i : Fin numNotes) : Prop :=
  (step s e).noteUsed i ≠ s.noteUsed i ∨ (step s e).noteVol i ≠ s.noteVol i

/-- `e` is the last packet of `es` that claimed slot `i`. -/
def LastClaim (es : List Packet) (e : Packet) (i : Fin numNotes) : Prop :=
  ∃ pre post, es = pre ++ e :: post ∧ Claims (run pre) e i ∧
    ∀ q e' r, post = q ++ e' :: r → ¬ Claims (run (pre ++ e :: q)) e' i

/-! ## One packet -/

/-- A slot used after a packet was used before and kept its word, or was just
claimed by it. -/
theorem used_after (s : St) (e : Packet) (i : Fin numNotes) (h : (step s e).noteUsed i = true) :
    (s.noteUsed i = true ∧ (step s e).noteVol i = s.noteVol i) ∨
      (Claims s e i ∧ (step s e).noteVol i = vol e) := by
  have he := step_eff s e
  unfold Claims
  generalize step s e = s' at he h ⊢
  cases he with
  | discard => exact .inl ⟨h, rfl⟩
  | full => exact .inl ⟨h, rfl⟩
  | claim j hon hf hj =>
    by_cases hij : i = j
    · subst hij; exact .inr ⟨⟨hon, hj, h⟩, by simp [St.claim]⟩
    · simp only [St.claim, Function.update_of_ne hij] at h ⊢; exact .inl ⟨h, trivial⟩
  | miss => exact .inl ⟨h, rfl⟩
  | clear j =>
    by_cases hij : i = j
    · subst hij; simp [St.clear] at h
    · simp only [St.clear, Function.update_of_ne hij] at h ⊢; exact .inl ⟨h, trivial⟩
  | other => exact .inl ⟨h, rfl⟩

/-- Which slots a packet can change, and in which state it finds them. -/
theorem changes_cases {s : St} (hz : FreeZero s) {e : Packet} {i : Fin numNotes}
    (h : Changes s e i) :
    (e.IsOn ∧ s.noteUsed i = false) ∨
      (e.IsOff ∧ s.noteUsed i = true ∧ pitch (s.noteVol i) = e.data1) := by
  have he := step_eff s e
  unfold Changes at h
  generalize step s e = s' at he h
  cases he with
  | discard => simp at h
  | full => simp at h
  | claim j hon hf hj =>
    by_cases hij : i = j
    · subst hij; exact .inl ⟨hon, hj⟩
    · simp [St.claim, Function.update_of_ne hij] at h
  | miss => simp at h
  | clear j hoff hj =>
    by_cases hij : i = j
    · subst hij
      -- a free slot that matches is already 0, so a changed one was used
      cases hu : s.noteUsed i with
      | true => exact .inr ⟨hoff, rfl, hj⟩
      | false => simp [St.clear, hu, hz i hu] at h
    · simp [St.clear, Function.update_of_ne hij] at h
  | other => simp at h

theorem changes_unique {s : St} {e : Packet} {i j : Fin numNotes} (hi : Changes s e i)
    (hj : Changes s e j) : i = j := by
  have he := step_eff s e
  unfold Changes at hi hj
  generalize step s e = s' at he hi hj
  have key : ∀ a : Fin numNotes, ∀ x : St, (∀ b, b ≠ a → x.noteUsed b = s.noteUsed b) →
      (∀ b, b ≠ a → x.noteVol b = s.noteVol b) →
      ∀ b, x.noteUsed b ≠ s.noteUsed b ∨ x.noteVol b ≠ s.noteVol b → b = a := by
    intro a x h1 h2 b hb
    by_contra hne
    exact hb.elim (fun h => h (h1 b hne)) fun h => h (h2 b hne)
  cases he with
  | discard => simp at hi
  | full => simp at hi
  | claim a =>
    have := key a (s.claim a (vol e)) (fun b hb => by simp [St.claim, hb])
      (fun b hb => by simp [St.claim, hb])
    rw [this i hi, this j hj]
  | miss => simp at hi
  | clear a =>
    have := key a (s.clear a) (fun b hb => by simp [St.clear, hb]) (fun b hb => by simp [St.clear, hb])
    rw [this i hi, this j hj]
  | other => simp at hi

/-- A Note On that finds a free slot after the first one claims exactly one. -/
theorem claims_unique {s : St} {e : Packet} (hon : e.IsOn) (hf : s.firstNote = false)
    (hfree : ∃ i, s.noteUsed i = false) : ∃! i, Claims s e i := by
  have he := step_eff s e
  have huniq : ∀ i j, Claims s e i → Claims s e j → i = j := by
    intro i j hi hj
    exact changes_unique (.inl (by rw [hi.2.1, hi.2.2]; decide)) (.inl (by rw [hj.2.1, hj.2.2]; decide))
  suffices h : ∃ i, Claims s e i by
    obtain ⟨i, hi⟩ := h
    exact ⟨i, hi, fun j hj => huniq j i hj hi⟩
  unfold Claims
  generalize step s e = s' at he
  cases he with
  | discard _ hf' => rw [hf] at hf'; cases hf'
  | full _ _ hu =>
    obtain ⟨i, hi⟩ := hfree
    rw [hu i] at hi; cases hi
  | claim i _ _ hi => exact ⟨i, hon, hi, by simp [St.claim]⟩
  | miss hoff => exact absurd hon hoff.not_on
  | clear i hoff => exact absurd hon hoff.not_on
  | other hno => exact absurd hon hno

/-- A Note On leaves every slot alone exactly when it is the first one or no
slot is free. -/
theorem ignored_iff {s : St} {e : Packet} (hon : e.IsOn) :
    (∀ i, ¬ Changes s e i) ↔ s.firstNote = true ∨ ∀ i, s.noteUsed i = true := by
  constructor
  · intro h
    cases hf : s.firstNote with
    | true => exact .inl rfl
    | false =>
      right
      intro i
      by_contra hi
      obtain ⟨j, hj, -⟩ := claims_unique hon hf ⟨i, by simpa using hi⟩
      exact h j (.inl (by rw [hj.2.1, hj.2.2]; decide))
  · intro h i hc
    have he := step_eff s e
    unfold Changes at hc
    generalize step s e = s' at he hc
    cases he with
    | discard => simp at hc
    | full => simp at hc
    | claim j _ hf hj =>
      rcases h with h | h
      · rw [hf] at h; cases h
      · rw [h j] at hj; cases hj
    | miss => simp at hc
    | clear j hoff => exact absurd hon hoff.not_on
    | other hno => exact absurd hon hno

/-! ## Whole runs -/

theorem lastClaim_of_claims {es : List Packet} {e : Packet} {i : Fin numNotes}
    (h : Claims (run es) e i) : LastClaim (es ++ [e]) e i :=
  ⟨es, [], rfl, h, fun q e' r hq => by simp at hq⟩

theorem LastClaim.snoc {es : List Packet} {e e' : Packet} {i : Fin numNotes}
    (h : LastClaim es e i) (hn : ¬ Claims (run es) e' i) : LastClaim (es ++ [e']) e i := by
  obtain ⟨pre, post, rfl, hc, hlast⟩ := h
  refine ⟨pre, post ++ [e'], by simp, hc, fun q a r hq => ?_⟩
  rcases mem_snoc_cases hq with ⟨rfl, rfl, -⟩ | ⟨r', -, hq'⟩
  · exact hn
  · exact hlast q a r' hq'

theorem used_last (es : List Packet) (i : Fin numNotes) (h : (run es).noteUsed i = true) :
    ∃ e, LastClaim es e i ∧ (run es).noteVol i = vol e := by
  refine exec_hist (f := step) (s := init)
    (I := fun es (s : St) => s.noteUsed i = true → ∃ e, LastClaim es e i ∧ s.noteVol i = vol e)
    ?_ ?_ es h
  · intro h; simp [init] at h
  · intro es a ih hu
    by_cases hc : Claims (run es) a i
    · rcases used_after _ a i hu with ⟨h1, -⟩ | ⟨-, hv⟩
      · rw [hc.2.1] at h1; cases h1
      · exact ⟨a, lastClaim_of_claims hc, hv⟩
    · rcases used_after _ a i hu with ⟨h1, hv⟩ | ⟨hc', -⟩
      · obtain ⟨e, hl, hve⟩ := ih h1
        exact ⟨e, hl.snoc hc, hv.trans hve⟩
      · exact absurd hc' hc

/-- What holds after the packets `es`, and of the next packet `e` whatever it is. -/
structure AllocSafe (es : List Packet) : Prop where
  free_zero : ∀ i, (run es).noteUsed i = false → (run es).noteVol i = 0
  used_last : ∀ i, (run es).noteUsed i = true → ∃ e, LastClaim es e i ∧
    ((run es).noteVol i).toNat = e.data1.toNat * 256 + e.data2.toNat
  one_slot : ∀ e i j, Changes (run es) e i → Changes (run es) e j → i = j
  only_own : ∀ e i, Changes (run es) e i → (e.IsOn ∧ (run es).noteUsed i = false) ∨
    (e.IsOff ∧ (run es).noteUsed i = true ∧ pitch ((run es).noteVol i) = e.data1)
  ignored : ∀ e, e.IsOn → ((∀ i, ¬ Changes (run es) e i) ↔
    (∀ e' ∈ es, ¬ e'.IsOn) ∨ ∀ i, (run es).noteUsed i = true)
  claimed : ∀ e, e.IsOn → ¬ ((∀ e' ∈ es, ¬ e'.IsOn) ∨ ∀ i, (run es).noteUsed i = true) →
    ∃! i, Claims (run es) e i
  other : ∀ e, ¬ e.IsOn → ¬ e.IsOff → step (run es) e = run es

/-- **Allocator safety**, after every stream of packets. -/
theorem alloc_safe (es : List Packet) : AllocSafe es where
  free_zero := freeZero_run es
  used_last i h := by
    obtain ⟨e, hl, hv⟩ := used_last es i h
    exact ⟨e, hl, by rw [hv, vol_toNat]⟩
  one_slot _ _ _ := changes_unique
  only_own _ _ := changes_cases (freeZero_run es)
  ignored e hon := by rw [← firstNote_run es]; exact ignored_iff hon
  claimed e hon h := by
    rw [← firstNote_run es, not_or] at h
    obtain ⟨hf, hu⟩ := h
    have hfree : ∃ i, (run es).noteUsed i = false := by simpa using hu
    exact claims_unique hon (by simpa using hf) hfree
  other e hon hoff := by
    have h1 : ¬ e.status >>> 4 = 9 := hon
    have h2 : ¬ e.status >>> 4 = 8 := hoff
    rw [step, if_neg h1, if_neg h2]

end SonicCraft.L2.MidiLoop
