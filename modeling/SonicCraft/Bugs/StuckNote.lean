import SonicCraft.Core.Pool
import SonicCraft.L2Software.MidiLoop

/-!
# A key of pitch 0 can sound for ever

Note Off looks for its voice in the registers (`*(note_vol_array[i]) >> 8`,
SOC/software/space_jam/main.cpp:117) and not in `note_used`. A free slot's
register is 0, which reads as pitch 0, so a Note Off for pitch 0 stops at the
first free slot. If the voice that holds pitch 0 has a higher index it is never
reached: the packet clears a slot that was clear already and the `break` ends
the search (`misfire_no_effect`). Testing `note_used[i]` as well would fix it.

Counterexample (`stuck_run`): the first Note On is discarded, key 60 takes slot
0 and key 0 slot 1, key 60 is released, key 0 is released. Slot 1 keeps its
word and its flag with every key up.

Every other Note Off does what it says, so a run with no such packet is a run of
the abstract pool (`SonicCraft.Pool`): `step_pool` is the refinement, and with
it no balanced stream leaves a note behind (`all_free`), however many keys were
held at once, whatever was dropped and in whatever order the slots were reused.
-/
namespace SonicCraft.Bugs.StuckNote
open L2.MidiLoop

/-- Note Ons of pitch `k`. -/
def ons (k : BitVec 8) (es : List Packet) : Nat := es.countP fun e => e.IsOn ∧ e.data1 = k

/-- Note Offs of pitch `k`. -/
def offs (k : BitVec 8) (es : List Packet) : Nat := es.countP fun e => e.IsOff ∧ e.data1 = k

/-- No prefix releases a pitch more often than it was pressed. -/
def Admissible (es : List Packet) : Prop := ∀ p, p <+: es → ∀ k, offs k p ≤ ons k p

/-- Every press is released. -/
def Balanced (es : List Packet) : Prop := ∀ k, offs k es = ons k es

/-- Every voice is free and silent. -/
def AllFree (s : St) : Prop := ∀ i, s.noteUsed i = false ∧ s.noteVol i = 0

def NoStuckNotes : Prop :=
  ∀ es, Data7 es → Admissible es → Balanced es → AllFree (run es)

/-- A Note Off for pitch 0 that finds a free slot before any voice of pitch 0,
with a voice of pitch 0 behind it. -/
def Misfire (s : St) (e : Packet) : Prop :=
  e.IsOff ∧ e.data1 = 0 ∧ ∃ i j, i < j ∧ s.noteUsed i = false ∧
    s.noteUsed j = true ∧ pitch (s.noteVol j) = 0 ∧
    ∀ k < i, ¬ (s.noteUsed k = true ∧ pitch (s.noteVol k) = 0)

instance (s : St) (e : Packet) : Decidable (Misfire s e) := by
  unfold Misfire; exact inferInstance

/-- The packet is lost: nothing changes, and the voice goes on sounding. -/
theorem misfire_no_effect {s : St} (hz : FreeZero s) {e : Packet} (h : Misfire s e) :
    step s e = s := by
  obtain ⟨hoff, h0, i, j, hij, hi, hj, hpj, hlt⟩ := h
  have he := step_eff s e
  generalize step s e = s' at he ⊢
  cases he with
  | discard hon => exact absurd hon hoff.not_on
  | full => rfl
  | claim _ hon => exact absurd hon hoff.not_on
  | miss => rfl
  | clear a _ ha halt =>
    -- the search stops at `i`, because `i` is free and so reads as pitch 0
    have hpi : pitch (s.noteVol i) = e.data1 := by rw [hz i hi, h0]; rfl
    have hai : ¬ i < a := fun hlt' => halt i hlt' hpi
    have hua : s.noteUsed a = false := by
      by_contra hua
      have hia : ¬ a < i := fun hlt' => hlt a hlt' ⟨by simpa using hua, by rw [ha, h0]⟩
      have : a = i := by omega
      rw [this, hi] at hua; exact hua rfl
    have hv := hz a hua
    simp only [St.clear, ← hua, ← hv, Function.update_eq_self]
  | other => rfl

/-! ## The pool the registers stand for -/

/-- A used slot is held under its pitch. -/
def abs (s : St) : Pool.Slots (Fin numNotes) (BitVec 8) (BitVec 8) :=
  fun i => if s.noteUsed i then some (pitch (s.noteVol i), vel (s.noteVol i)) else none

def lab (e : Packet) : Pool.Lbl (BitVec 8) (BitVec 8) :=
  if e.IsOn then .press e.data1 e.data2 else if e.IsOff then .release e.data1 else .other

theorem abs_init : abs init = Pool.empty := by
  funext i; simp [abs, init, Pool.empty]

theorem lab_on {e : Packet} (h : e.IsOn) : lab e = .press e.data1 e.data2 := by simp [lab, h]

theorem lab_off {e : Packet} (h : e.IsOff) : lab e = .release e.data1 := by
  simp [lab, h, h.not_on]

theorem abs_claim (s : St) (i : Fin numNotes) (e : Packet) :
    abs (s.claim i (vol e)) = Function.update (abs s) i (some (e.data1, e.data2)) := by
  funext j
  by_cases hj : j = i
  · subst hj; simp [abs, St.claim]
  · simp [abs, St.claim, Function.update_of_ne hj]

theorem abs_clear (s : St) (i : Fin numNotes) :
    abs (s.clear i) = Function.update (abs s) i none := by
  funext j
  by_cases hj : j = i
  · subst hj; simp [abs, St.clear]
  · simp [abs, St.clear, Function.update_of_ne hj]

theorem abs_eq_some {s : St} {i : Fin numNotes} {k v : BitVec 8} (h : abs s i = some (k, v)) :
    s.noteUsed i = true ∧ pitch (s.noteVol i) = k := by
  unfold abs at h
  split at h
  · rename_i hu
    simp only [Option.some.injEq, Prod.mk.injEq] at h
    exact ⟨hu, h.1⟩
  · cases h

/-- **Refinement.** A packet that does not misfire does to the voices what the
pool allows its request to do. -/
theorem step_pool (s : St) (e : Packet) (hz : FreeZero s) (hok : ¬ Misfire s e) :
    Pool.lts.step (abs s) (lab e) (abs (step s e)) := by
  have he := step_eff s e
  generalize step s e = s' at he ⊢
  cases he with
  | discard hon => rw [lab_on hon]; exact .drop (abs s) _ _
  | full hon => rw [lab_on hon]; exact .drop (abs s) _ _
  | claim i hon _ hi =>
    rw [lab_on hon, abs_claim]
    exact .claim (by simp [abs, hi])
  | miss hoff hp =>
    rw [lab_off hoff]
    exact .miss fun i v h => hp i (abs_eq_some h).2
  | clear i hoff hi hlt =>
    rw [lab_off hoff]
    cases hu : s.noteUsed i with
    | true =>
      rw [abs_clear]
      exact .free (v := vel (s.noteVol i)) (by simp [abs, hu, hi])
    | false =>
      -- the match is a free slot: then no voice may hold the pitch, or it misfires
      have h0 : e.data1 = 0 := by rw [← hi, hz i hu]; rfl
      have hsame : abs (s.clear i) = abs s := by
        rw [abs_clear]; exact Function.update_eq_self_iff.mpr (by simp [abs, hu])
      rw [hsame]
      refine .miss fun j v h => hok ?_
      obtain ⟨hj, hpj⟩ := abs_eq_some h
      refine ⟨hoff, h0, i, j, ?_, hu, hj, by rw [hpj, h0], fun k hk hc => hlt k hk (by rw [hc.2, h0])⟩
      have h1 : ¬ j < i := fun hlt' => hlt j hlt' hpj
      have h2 : j ≠ i := fun e' => by rw [e', hu] at hj; cases hj
      omega
  | other hon hoff =>
    have : lab e = .other := by simp [lab, hon, hoff]
    rw [this]; exact .other (abs s)

theorem presses_lab (k : BitVec 8) (es : List Packet) : Pool.presses k (es.map lab) = ons k es := by
  rw [Pool.presses, List.countP_map, ons]
  refine List.countP_congr fun e _ => ?_
  by_cases hon : e.IsOn
  · simp [lab_on hon, Pool.isPress, hon]
  · by_cases hoff : e.IsOff <;> simp [lab, Pool.isPress, hon, hoff]

theorem releases_lab (k : BitVec 8) (es : List Packet) :
    Pool.releases k (es.map lab) = offs k es := by
  rw [Pool.releases, List.countP_map, offs]
  refine List.countP_congr fun e _ => ?_
  by_cases hoff : e.IsOff
  · simp [lab_off hoff, Pool.isRelease, hoff]
  · by_cases hon : e.IsOn <;> simp [lab, Pool.isRelease, hon, hoff]

theorem admissible_lab {es : List Packet} (h : Admissible es) : Pool.Admissible (es.map lab) := by
  intro p hp k
  obtain ⟨q, hq, rfl⟩ := List.prefix_map_iff.mp hp
  rw [presses_lab, releases_lab]; exact h q hq k

theorem balanced_lab {es : List Packet} (h : Balanced es) : Pool.Balanced (es.map lab) := by
  intro k; rw [presses_lab, releases_lab]; exact h k

/-- A run whose packets do not misfire is a run of the pool. -/
theorem run_pool (es : List Packet) (hok : Along step (fun s e => ¬ Misfire s e) init es) :
    Pool.lts.Run Pool.empty (es.map lab) (abs (run es)) := by
  have ha : Along step (fun s e => FreeZero s ∧ ¬ Misfire s e) init es :=
    along_inv freeZero_step freeZero_init hok
  have := exec_simulates Pool.lts abs lab (fun s e h => step_pool s e h.1 h.2) es init ha
  rwa [abs_init] at this

/-- **No stuck notes, absent misfires.** Over every admissible and balanced
stream in which no Note Off misfires, every voice ends free with its register
at 0. -/
theorem all_free (es : List Packet) (hadm : Admissible es) (hbal : Balanced es)
    (hok : Along step (fun s e => ¬ Misfire s e) init es) : AllFree (run es) := by
  have he := Pool.empty_of_balanced (run_pool es hok) (admissible_lab hadm) (balanced_lab hbal)
  intro i
  have hi : (run es).noteUsed i = false := by
    have := congrFun he i
    by_contra hu
    simp [abs, Pool.empty, hu] at this
  exact ⟨hi, freeZero_run es i hi⟩

/-! ## Concrete streams over two pitches -/

/-- A pitch no packet carries is neither pressed nor released. -/
theorem counts_absent {k : BitVec 8} {es : List Packet} (h : ∀ e ∈ es, e.data1 ≠ k) :
    offs k es = 0 ∧ ons k es = 0 := by
  simp only [offs, ons, List.countP_eq_zero, decide_eq_true_eq, not_and]
  exact ⟨fun e he _ => h e he, fun e he _ => h e he⟩

section
variable {es : List Packet} {a b : BitVec 8} (hab : ∀ e ∈ es, e.data1 = a ∨ e.data1 = b)
include hab

theorem absent_of_two {k : BitVec 8} (ha : k ≠ a) (hb : k ≠ b) : ∀ e ∈ es, e.data1 ≠ k := by
  intro e he hk
  rcases hab e he with h | h
  · exact ha (by rw [← hk, h])
  · exact hb (by rw [← hk, h])

theorem admissible_of_two (ha : ∀ p ∈ es.inits, offs a p ≤ ons a p)
    (hb : ∀ p ∈ es.inits, offs b p ≤ ons b p) : Admissible es := by
  intro p hp k
  have hmem : p ∈ es.inits := (List.mem_inits p es).mpr hp
  by_cases h1 : k = a
  · subst h1; exact ha p hmem
  · by_cases h2 : k = b
    · subst h2; exact hb p hmem
    · rw [(counts_absent fun e he => absent_of_two hab h1 h2 e (hp.subset he)).1]
      exact Nat.zero_le _

theorem balanced_of_two (ha : offs a es = ons a es) (hb : offs b es = ons b es) : Balanced es := by
  intro k
  by_cases h1 : k = a
  · subst h1; exact ha
  · by_cases h2 : k = b
    · subst h2; exact hb
    · obtain ⟨h3, h4⟩ := counts_absent (absent_of_two hab h1 h2)
      rw [h3, h4]

end

/-- Key 60 (discarded) and key 0 (slot 0), released in the same order: the
release of key 0 finds its voice before any free slot. -/
theorem all_free_example :
    AllFree (run [⟨0x90, 60, 64⟩, ⟨0x90, 0, 64⟩, ⟨0x80, 60, 0⟩, ⟨0x80, 0, 0⟩]) :=
  all_free _ (admissible_of_two (a := 0) (b := 60) (by decide) (by decide) (by decide))
    (balanced_of_two (a := 0) (b := 60) (by decide) (by decide) (by decide)) (by decide)

/-- Key 60 twice (the first press is discarded) with key 0 in between. -/
def stuckStream : List Packet :=
  [⟨0x90, 60, 64⟩, ⟨0x90, 60, 64⟩, ⟨0x90, 0, 64⟩, ⟨0x80, 60, 0⟩, ⟨0x80, 0, 0⟩, ⟨0x80, 60, 0⟩]

/-- **Counterexample**: every key is up and slot 1 is still sounding. -/
theorem stuck_run : ¬ NoStuckNotes := by
  intro h
  have := h stuckStream (by unfold Data7; decide)
    (admissible_of_two (a := 0) (b := 60) (by decide) (by decide) (by decide))
    (balanced_of_two (a := 0) (b := 60) (by decide) (by decide) (by decide)) 1
  exact absurd this (by decide)

end SonicCraft.Bugs.StuckNote
