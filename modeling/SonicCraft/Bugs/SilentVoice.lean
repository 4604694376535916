import Mathlib.Data.Fintype.Card
import SonicCraft.L2Software.VoiceAlloc

/-!
# A key released with velocity 0 takes a voice

Most keyboards send a release as a Note On of velocity 0. The Note On case
(SOC/software/space_jam/main.cpp:91-113) does not look at `MIDI_packet[2]`: such
a packet takes the first free slot, writes a word whose volume bits are 0 and
sets `note_used`. The slot makes no sound and is held until a Note Off for its
pitch arrives. The disabled decay loop shows what was meant, "turn note off if
volume is zero" (main.cpp:192): it clears the register and the flag together.

Counterexample (`silent_slot`): two Note Ons of velocity 0, the first of which
is discarded; the second leaves slot 0 used and silent.

`sounding_iff` says exactly when a run is free of this: no Note On of velocity 0
may arrive after the first Note On while a slot is free. `used_of_no_off` is what
it does to an instrument whose keyboard releases keys this way only: every packet
after the first takes one more slot, so four of them hold all voices for good.
Handling such a packet in the Note Off case would fix it.
-/
namespace SonicCraft.Bugs.SilentVoice
open L2.MidiLoop

/-- Every used slot has a velocity byte other than 0. -/
def Sounding (s : St) : Prop := ∀ i, s.noteUsed i = true → vel (s.noteVol i) ≠ 0

/-- A Note On of velocity 0, not the one that is discarded, that finds a free slot. -/
def SilentPress (s : St) (e : Packet) : Prop :=
  e.IsOn ∧ e.data2 = 0 ∧ s.firstNote = false ∧ ∃ i, s.noteUsed i = false

/-- Such a packet claims a slot, and no other Note On of velocity 0 does. -/
theorem silentPress_iff (s : St) (e : Packet) :
    SilentPress s e ↔ e.data2 = 0 ∧ ∃ i, Claims s e i := by
  constructor
  · rintro ⟨hon, h0, hf, hfree⟩
    obtain ⟨i, hi, -⟩ := claims_unique hon hf hfree
    exact ⟨h0, i, hi⟩
  · rintro ⟨h0, i, hon, hi, hi'⟩
    have hc : Changes s e i := .inl (by rw [hi, hi']; decide)
    have hign : ¬ (s.firstNote = true ∨ ∀ i, s.noteUsed i = true) :=
      fun h => (ignored_iff hon).mpr h i hc
    exact ⟨hon, h0, by simpa using fun h => hign (.inl h), i, hi⟩

/-- The word it leaves behind is silent. -/
theorem silentPress_breaks {s : St} {e : Packet} (h : SilentPress s e) : ¬ Sounding (step s e) := by
  obtain ⟨h0, i, hc⟩ := (silentPress_iff s e).mp h
  intro hs
  rcases used_after s e i hc.2.2 with ⟨hu, -⟩ | ⟨-, hv⟩
  · rw [hc.2.1] at hu; cases hu
  · exact hs i hc.2.2 (by rw [hv, vel_vol, h0])

/-- Every other packet leaves used slots sounding. -/
theorem sounding_step {s : St} {e : Packet} (hs : Sounding s) (hn : ¬ SilentPress s e) :
    Sounding (step s e) := by
  intro i hi
  rcases used_after s e i hi with ⟨hu, hv⟩ | ⟨hc, hv⟩
  · rw [hv]; exact hs i hu
  · rw [hv, vel_vol]
    exact fun h0 => hn ((silentPress_iff s e).mpr ⟨h0, i, hc⟩)

/-- No packet of the stream is a silent press. -/
def NoSilentPress (es : List Packet) : Prop :=
  ∀ p e, p ++ [e] <+: es → ¬ SilentPress (run p) e

theorem sounding_of_noSilentPress (es : List Packet) (h : NoSilentPress es) : Sounding (run es) :=
  exec_hist_along (P := fun s e => ¬ SilentPress s e) (I := fun _ s => Sounding s)
    (fun i hi => by simp [init] at hi) (fun _ _ hn hs => sounding_step hs hn) es
    ((along_iff init es).mpr h)

/-- **Exactly when**: every used slot sounds at every moment of a run, and no
Note On of velocity 0 takes a voice in it, if and only if no such packet arrives
after the first Note On while a slot is free. -/
theorem sounding_iff (es : List Packet) :
    ((∀ p, p <+: es → Sounding (run p)) ↔ NoSilentPress es) ∧
      ((∀ p e i, p ++ [e] <+: es → e.data2 = 0 → ¬ Claims (run p) e i) ↔ NoSilentPress es) := by
  refine ⟨⟨fun h p e hp hsil => ?_, fun h p hp => ?_⟩, ⟨fun h p e hp hsil => ?_, ?_⟩⟩
  · refine silentPress_breaks hsil ?_
    have hnext := h (p ++ [e]) hp
    rwa [show run (p ++ [e]) = step (run p) e from exec_append _ _ _ _] at hnext
  · exact sounding_of_noSilentPress p fun q e hq => h q e (hq.trans hp)
  · obtain ⟨h0, i, hc⟩ := (silentPress_iff _ _).mp hsil
    exact h p e i hp h0 hc
  · intro h p e i hp h0 hc
    exact h p e hp ((silentPress_iff _ _).mpr ⟨h0, i, hc⟩)

/-- **Counterexample**: slot 0 is used, with velocity 0. -/
theorem silent_slot : ¬ ∀ es, Data7 es → Sounding (run es) := by
  intro h
  have hs := h [⟨0x90, 60, 0⟩, ⟨0x90, 60, 0⟩] (by unfold Data7; decide) 0 (by decide)
  exact absurd hs (by decide)

/-! ## A keyboard that releases keys this way only -/

/-- Slots in use. -/
def used (s : St) : Nat := (Finset.univ.filter fun i => s.noteUsed i = true).card

theorem used_le (s : St) : used s ≤ 4 :=
  (Finset.card_filter_le _ _).trans (by simp [numNotes])

/-- A Note On after the first one takes a slot while there is one. -/
theorem used_on {s : St} {e : Packet} (hon : e.IsOn) (hf : s.firstNote = false) :
    used (step s e) = min (used s + 1) 4 := by
  have he := step_eff s e
  generalize step s e = s' at he ⊢
  cases he with
  | discard _ hf' => rw [hf] at hf'; cases hf'
  | full _ _ hu => simp [used, hu]
  | claim i _ _ hi =>
    have hset : (Finset.univ.filter fun j => (s.claim i (vol e)).noteUsed j = true) =
        insert i (Finset.univ.filter fun j => s.noteUsed j = true) := by
      ext j
      rw [Finset.mem_insert, Finset.mem_filter, Finset.mem_filter]
      by_cases hj : j = i
      · subst hj; simp [St.claim]
      · simp [St.claim, hj]
    have hcard : used (s.claim i (vol e)) = used s + 1 := by
      rw [used, hset, Finset.card_insert_of_notMem (by simp [hi])]; rfl
    have := used_le (s.claim i (vol e))
    omega
  | miss hoff => exact absurd hon hoff.not_on
  | clear i hoff => exact absurd hon hoff.not_on
  | other hno => exact absurd hon hno

/-- Note Ons in a stream. -/
def ons (es : List Packet) : Nat := es.countP fun e => e.IsOn

/-- **The polyphony runs out**: without Note Offs, `n` Note Ons of whatever
velocity hold `n - 1` voices, up to all four. -/
theorem used_of_no_off (es : List Packet) (h : ∀ e ∈ es, ¬ e.IsOff) :
    used (run es) = min (ons es - 1) 4 := by
  refine exec_hist_guard (f := step) (s := init) (G := fun es => ∀ e ∈ es, ¬ e.IsOff)
    (I := fun es s => used s = min (ons es - 1) 4) (fun h e hg a ha => hg a (by simp [ha]))
    (by simp [used, ons, init]) (fun es e hg ih => ?_) es h
  have hoff : ¬ e.IsOff := hg e (by simp)
  by_cases hon : e.IsOn
  · have hons : ons (es ++ [e]) = ons es + 1 := by simp [ons, hon]
    cases hf : (exec step init es).firstNote with
    | true =>
      have h0 : ons es = 0 := List.countP_eq_zero.mpr
        fun a ha => by simpa using (firstNote_run es).mp hf a ha
      have hstep : step (exec step init es) e = { exec step init es with firstNote := false } := by
        have h1 : e.status >>> 4 = 9 := hon
        rw [step, if_pos h1, noteOn, if_pos hf]
      rw [hstep, hons, h0]
      simpa [used, h0] using ih
    | false =>
      have hpos : 0 < ons es := by
        by_contra h0
        have h0' : ons es = 0 := by omega
        have hnone : ∀ a ∈ es, ¬ a.IsOn := fun a ha => by
          simpa using List.countP_eq_zero.mp h0' a ha
        rw [(firstNote_run es).mpr hnone] at hf; cases hf
      rw [used_on hon hf, ih, hons]; omega
  · have hstep : step (exec step init es) e = exec step init es := by
      have h1 : ¬ e.status >>> 4 = 9 := hon
      have h2 : ¬ e.status >>> 4 = 8 := hoff
      rw [step, if_neg h1, if_neg h2]
    rw [hstep, ih]
    simp [ons, hon]

end SonicCraft.Bugs.SilentVoice
