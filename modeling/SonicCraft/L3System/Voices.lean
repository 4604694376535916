import Mathlib.Data.BitVec
import SonicCraft.L1Rtl.OscTrace
import SonicCraft.L3System.Synth

/-!
# One voice of the audio path

The four `keyvol` registers and the clocks are all an oscillator sees. `voice`
lists the edges that reach oscillator `i`: `LRCLK` clocks it when it rises, with
the inputs the key tables make of its own register, and `MAX10_CLK1_50` reads its
table. Each voice of the audio path runs on its own edges alone (`exec_voice`),
so what is proved of `Phase_OSC` holds of it in any mix, and the audio path of
the synthesizer is such a run on the registers the software wrote
(`synth_audio`).
-/
namespace SonicCraft.L3.Voices
open L1 AudioPath
open Synth (keyLines)

/-- The edges of the audio clocks, with the registers an `LRCLK` edge finds. -/
inductive Ev where
  | lrclk (keyvol : Fin 4 → BitVec 16)
  | tick (t : Tick)
  deriving DecidableEq

def step (ram : PhaseOsc.Ram) (s : St) : Ev → St
  | .lrclk keyvol => s.lrclkEdge (keyLines keyvol)
  | .tick t => s.tick ram t

/-- The edges that reach oscillator `i`, from the level `c` of `LRCLK` on. -/
def voice (i : Fin 4) : Bool → List Ev → List PhaseOsc.Ev
  | _, [] => []
  | true, .lrclk _ :: es => voice i false es
  | false, .lrclk keyvol :: es =>
    .fsClk ((keyLines keyvol).freqReg i) ((keyLines keyvol).velocity i) :: voice i true es
  | c, .tick .master :: es => .masterClk :: voice i c es
  | c, .tick .sclk :: es => voice i c es

/-- `LRCLK` after the edges. -/
def level : Bool → List Ev → Bool
  | c, [] => c
  | c, .lrclk _ :: es => level (!c) es
  | c, .tick _ :: es => level c es

/-- Rising edges of `LRCLK`. -/
def rises : Bool → List Ev → Nat
  | _, [] => 0
  | true, .lrclk _ :: es => rises false es
  | false, .lrclk _ :: es => rises true es + 1
  | c, .tick _ :: es => rises c es

variable (ram : PhaseOsc.Ram)

/-- **A voice runs on its own edges.** -/
theorem exec_voice (i : Fin 4) (es : List Ev) (s : St) :
    (exec (step ram) s es).osc i = exec (PhaseOsc.step ram) (s.osc i) (voice i s.lrclk es) := by
  induction es generalizing s with
  | nil => rfl
  | cons e es ih =>
    rw [exec_cons, ih]
    obtain ⟨osc, i2s, c⟩ := s
    cases e with
    | lrclk keyvol => cases c <;> rfl
    | tick t => cases c <;> cases t <;> rfl

theorem edges_voice (i : Fin 4) (es : List Ev) (c : Bool) :
    PhaseOsc.edges (voice i c es) = rises c es := by
  induction es generalizing c with
  | nil => rfl
  | cons e es ih =>
    cases e with
    | lrclk keyvol =>
      cases c with
      | true => exact ih false
      | false => rw [voice, PhaseOsc.edges_fsClk, ih]; rfl
    | tick t =>
      cases t with
      | sclk => cases c <;> exact ih _
      | master =>
        have hm : voice i c (.tick .master :: es) = .masterClk :: voice i c es := by cases c <;> rfl
        have hr : rises c (.tick .master :: es) = rises c es := by cases c <;> rfl
        rw [hm, hr, PhaseOsc.edges_masterClk, ih]

theorem voice_append (i : Fin 4) (es es' : List Ev) (c : Bool) :
    voice i c (es ++ es') = voice i c es ++ voice i (level c es) es' := by
  induction es generalizing c with
  | nil => rfl
  | cons e es ih =>
    cases e with
    | lrclk keyvol => cases c <;> simp [voice, level, ih]
    | tick t => cases c <;> cases t <;> simp [voice, level, ih]

/-- An `FSCLK` edge of a voice has the inputs some `LRCLK` edge of the run finds. -/
theorem mem_voice {i : Fin 4} {f : BitVec 24} {v : BitVec 7} {es : List Ev} {c : Bool}
    (h : .fsClk f v ∈ voice i c es) :
    ∃ keyvol, .lrclk keyvol ∈ es ∧ f = (keyLines keyvol).freqReg i ∧
      v = (keyLines keyvol).velocity i := by
  induction es generalizing c with
  | nil => simp [voice] at h
  | cons e es ih =>
    -- an edge of the rest
    have later : ∀ c', .fsClk f v ∈ voice i c' es → ∃ keyvol, .lrclk keyvol ∈ e :: es ∧
        f = (keyLines keyvol).freqReg i ∧ v = (keyLines keyvol).velocity i := by
      intro c' hc'
      obtain ⟨keyvol, hk, hfv⟩ := ih hc'
      exact ⟨keyvol, List.mem_cons_of_mem e hk, hfv⟩
    cases e with
    | lrclk keyvol =>
      cases c with
      | true => exact later false h
      | false =>
        rcases List.mem_cons.mp h with h | h
        · exact ⟨keyvol, List.mem_cons_self, PhaseOsc.Ev.fsClk.inj h⟩
        · exact later true h
    | tick t =>
      refine later c ?_
      cases c <;> cases t <;> simpa [voice] using h

/-- A prefix of a run is a prefix of each voice. -/
theorem voice_mono {i : Fin 4} {p es : List Ev} {c : Bool} (h : p <+: es) :
    voice i c p <+: voice i c es := by
  obtain ⟨b, rfl⟩ := h
  rw [voice_append]
  exact List.prefix_append _ _

/-- Every prefix of a voice comes from one of the run. -/
theorem exists_voice_eq {i : Fin 4} {q : List PhaseOsc.Ev} :
    ∀ {es : List Ev} {c : Bool}, q <+: voice i c es → ∃ p, p <+: es ∧ voice i c p = q := by
  intro es
  induction es generalizing q with
  | nil => intro c h; exact ⟨[], List.prefix_refl _, (List.prefix_nil.mp h).symm⟩
  | cons e es ih =>
    intro c h
    -- an edge the voice does not see is part of every prefix after it
    have skip : ∀ c', voice i c (e :: es) = voice i c' es →
        (∀ p, voice i c (e :: p) = voice i c' p) → ∃ p, p <+: e :: es ∧ voice i c p = q := by
      intro c' h1 h2
      obtain ⟨p, hp, hq⟩ := ih (h1 ▸ h)
      exact ⟨e :: p, (List.prefix_cons_inj e).mpr hp, (h2 p).trans hq⟩
    have see : ∀ x c', voice i c (e :: es) = x :: voice i c' es →
        (∀ p, voice i c (e :: p) = x :: voice i c' p) → ∃ p, p <+: e :: es ∧ voice i c p = q := by
      intro x c' h1 h2
      rw [h1, List.prefix_cons_iff] at h
      rcases h with rfl | ⟨q', rfl, hq'⟩
      · exact ⟨[], List.nil_prefix, rfl⟩
      · obtain ⟨p, hp, hq⟩ := ih hq'
        exact ⟨e :: p, (List.prefix_cons_inj e).mpr hp, by rw [h2, hq]⟩
    cases e with
    | lrclk keyvol =>
      cases c with
      | true => exact skip false rfl fun _ => rfl
      | false => exact see _ true rfl fun _ => rfl
    | tick t =>
      cases t with
      | sclk => exact skip c (by cases c <;> rfl) fun _ => by cases c <;> rfl
      | master => exact see _ c (by cases c <;> rfl) fun _ => by cases c <;> rfl

/-! ## The synthesizer's voices -/

/-- The edges of the audio clocks in a run of the synthesizer, with the registers
the software has written by then. -/
def audioEvents : L2.MidiLoop.St → List Synth.Ev → List Ev
  | _, [] => []
  | m, .midi p :: es => audioEvents (L2.MidiLoop.step m p) es
  | m, .lrclk :: es => .lrclk m.noteVol :: audioEvents m es
  | m, .tick t :: es => .tick t :: audioEvents m es

theorem synth_audio (es : List Synth.Ev) (s : Synth.St) :
    (exec (Synth.step ram) s es).audio = exec (step ram) s.audio (audioEvents s.midi es) := by
  induction es generalizing s with
  | nil => rfl
  | cons e es ih =>
    rw [exec_cons, ih]
    cases e <;> rfl

/-! ## The mix -/

/-- Voice `i` and the rest of the mix. -/
theorem i2sDin_split (i : Fin 4) (osc : Fin 4 → PhaseOsc.St) :
    i2sDin osc = (osc i).wtout + ∑ j ∈ Finset.univ.erase i, (osc j).wtout := by
  have hsum : i2sDin osc = ∑ j, (osc j).wtout := (Fin.sum_univ_four fun j => (osc j).wtout).symm
  exact hsum.trans (Finset.add_sum_erase _ (fun j => (osc j).wtout) (Finset.mem_univ i)).symm

/-- Two mixes that differ in voice `i` at most are equal when it is. -/
theorem mix_eq_iff (i : Fin 4) (osc osc' : Fin 4 → PhaseOsc.St)
    (h : ∀ j, j ≠ i → (osc j).wtout = (osc' j).wtout) :
    i2sDin osc = i2sDin osc' ↔ (osc i).wtout = (osc' i).wtout := by
  have hrest : ∑ j ∈ Finset.univ.erase i, (osc j).wtout =
      ∑ j ∈ Finset.univ.erase i, (osc' j).wtout :=
    Finset.sum_congr rfl fun j hj => h j (Finset.ne_of_mem_erase hj)
  rw [i2sDin_split i osc, i2sDin_split i osc', hrest]
  exact add_left_inj _

end SonicCraft.L3.Voices
