import SonicCraft.L3System.Voices

/-!
# A key outside the two octaves leaves a constant on the wire

`MIDIKeyConverter` sends every pitch outside 48..71 to the offset "out of range"
and `FrequencyMapper` has an "empty" entry for it, frequency 0
(Modules/MIDIkeyConverter.sv:17-21, Modules/FrequencyMapper.sv:36). Frequency 0
does not silence an oscillator: it stops the phase where the voice's last note
left it, and `WTOUT` goes on being the table word there times the velocity
(Modules/PhaseOSC.sv:31-47). The mix gets a constant for as long as the key is
held.

Counterexample (`frozen_voice`): key 40 at full velocity on a voice that never
played anything. The first rising `LRCLK` edge still adds the power-up frequency,
which leads to table address 40, and from the second one on the voice adds the
word there, 0x7fef in Wavetables/sawtooth.txt, times 127 times 32.

`adds_nothing_iff` says exactly when such a voice adds nothing: when at each
rising edge from the second on the velocity is 0 or the table word at the phase of
the first one is (before that word is read, the word the voice held). Sending the
empty entry to velocity 0 would fix it.
-/
namespace SonicCraft.Bugs.FrozenPhase
open L1 L3

/-- The pitch byte is none of 48..71. -/
def OutOfRange (keyvol : BitVec 16) : Prop :=
  (keyvol.extractLsb' 8 8).toNat < 48 ∨ 71 < (keyvol.extractLsb' 8 8).toNat

instance : DecidablePred OutOfRange := fun _ => inferInstanceAs (Decidable (_ ∨ _))

/-- … so its frequency is the empty entry. -/
theorem frequency_zero {keyvol : Fin 4 → BitVec 16} {i : Fin 4} (h : OutOfRange (keyvol i)) :
    (Synth.keyLines keyvol).freqReg i = 0 := by
  have hoff : KeyTables.midiKeyConverter ((keyvol i).extractLsb' 8 8) = 0b11000#5 := by
    refine if_neg ?_
    rw [BitVec.lt_def, BitVec.lt_def]
    rintro ⟨h1, h2⟩
    simp only [BitVec.toNat_ofNat] at h1 h2
    rcases h with h | h <;> omega
  show KeyTables.frequencyMapper (KeyTables.midiKeyConverter ((keyvol i).extractLsb' 8 8)) = 0
  rw [hoff]
  rfl

/-! ## One oscillator -/

section
open PhaseOsc
variable (ram : Ram)

/-- Every `FSCLK` edge presents frequency 0. -/
def Empty (es : List PhaseOsc.Ev) : Prop := ∀ f v, .fsClk f v ∈ es → f = 0

/-- The table word the next `FSCLK` edge after `b` multiplies, for a voice whose
phase stands still. -/
def heard (s : PhaseOsc.St) (b : List PhaseOsc.Ev) : BitVec 16 :=
  if .masterClk ∈ b then ram s.addr else s.wtTemp

/-- From the first empty edge on the phase stands still. -/
theorem frozen (b : List PhaseOsc.Ev) (hb : Empty b) (s : PhaseOsc.St) (hf : s.freqReg = 0) :
    let s' := exec (PhaseOsc.step ram) s b
    s'.freqReg = 0 ∧ s'.phaseReg = s.phaseReg ∧ s'.wtTemp = heard ram s b := by
  induction b using List.reverseRecOn with
  | nil => exact ⟨hf, rfl, by simp [heard]⟩
  | append_singleton b e ih =>
    obtain ⟨h1, h2, h3⟩ := ih fun f v hm => hb f v (by simp [hm])
    intro s'
    have hs' : s' = PhaseOsc.step ram (exec (PhaseOsc.step ram) s b) e := exec_snoc _ _ _ _
    cases e with
    | fsClk f v =>
      have hph : s'.phaseReg = (exec (PhaseOsc.step ram) s b).phaseReg +
          (exec (PhaseOsc.step ram) s b).freqReg := by rw [hs']; rfl
      have hw : s'.wtTemp = (exec (PhaseOsc.step ram) s b).wtTemp := by rw [hs']; rfl
      refine ⟨?_, ?_, ?_⟩
      · rw [hs']; exact hb f v (by simp)
      · rw [hph, h1, h2]; exact BitVec.add_zero _
      · rw [hw, h3]; simp [heard]
    | masterClk =>
      have hw : s'.wtTemp = ram (exec (PhaseOsc.step ram) s b).addr := by rw [hs']; rfl
      refine ⟨?_, ?_, ?_⟩
      · rw [hs']; exact h1
      · rw [hs']; exact h2
      · rw [hw, St.addr, h2]; simp [heard, St.addr]

/-- The first `FSCLK` edge of a run that has one. -/
theorem first_edge {p : List PhaseOsc.Ev} (h : 0 < edges p) :
    ∃ a f v b, p = a ++ .fsClk f v :: b ∧ edges a = 0 := by
  induction p with
  | nil => exact absurd h (by simp)
  | cons e p ih =>
    cases e with
    | fsClk f v => exact ⟨[], f, v, p, rfl, rfl⟩
    | masterClk =>
      rw [edges_masterClk] at h
      obtain ⟨a, f, v, b, rfl, ha⟩ := ih h
      exact ⟨.masterClk :: a, f, v, b, rfl, ha⟩

/-- At every edge after the first, the velocity or the table word that is heard
is 0. -/
def Mute (s : PhaseOsc.St) (es : List PhaseOsc.Ev) : Prop :=
  ∀ a v₁ b v₂, a ++ .fsClk 0 v₁ :: (b ++ [.fsClk 0 v₂]) <+: es → edges a = 0 →
    v₂ = 0 ∨ heard ram (exec (PhaseOsc.step ram) s (a ++ [.fsClk 0 v₁])) b = 0

/-- The word an edge after the first one multiplies. -/
theorem word_at {a b : List PhaseOsc.Ev} {v₁ : BitVec 7} (hb : Empty b) (s : PhaseOsc.St) :
    (exec (PhaseOsc.step ram) s (a ++ .fsClk 0 v₁ :: b)).wtTemp =
      heard ram (exec (PhaseOsc.step ram) s (a ++ [.fsClk 0 v₁])) b := by
  have hsplit : a ++ .fsClk 0 v₁ :: b = (a ++ [.fsClk 0 v₁]) ++ b := by simp
  rw [hsplit, exec_append]
  refine (frozen ram b hb _ ?_).2.2
  rw [exec_snoc]; rfl

/-- An oscillator that is presented frequency 0 is silent from the second edge on
exactly when it is mute. -/
theorem silent_iff_mute (es : List PhaseOsc.Ev) (hes : Empty es) (s : PhaseOsc.St) :
    (∀ p, p <+: es → 2 ≤ edges p → (exec (PhaseOsc.step ram) s p).wtout = 0) ↔ Mute ram s es := by
  constructor
  · intro h a v₁ b v₂ hp ha
    have hb : Empty b := fun f v hm => hes f v (hp.subset (by simp [hm]))
    have hout := h _ hp (by simp; omega)
    have hsnoc : a ++ .fsClk 0 v₁ :: (b ++ [.fsClk 0 v₂]) =
        (a ++ .fsClk 0 v₁ :: b) ++ [.fsClk 0 v₂] := by simp
    rw [hsnoc, exec_snoc] at hout
    rw [← word_at ram hb]
    exact (fsClk_wtout_eq_zero 0 v₂ _).mp hout
  · intro h
    refine exec_hist_within (I := fun p (t : PhaseOsc.St) => 2 ≤ edges p → t.wtout = 0)
      (fun h0 => by simp at h0) fun q e hq ih h2 => ?_
    cases e with
    | masterClk =>
      rw [edges_append] at h2
      exact ih h2
    | fsClk f v =>
      rw [edges_append, edges_fsClk, edges_nil] at h2
      obtain rfl : f = 0 := hes f v (hq.subset (by simp))
      obtain ⟨a, f₁, v₁, b, rfl, ha⟩ := first_edge (p := q) (by omega)
      obtain rfl : f₁ = 0 := hes f₁ v₁ (hq.subset (by simp))
      have hb : Empty b := fun f v hm => hes f v (hq.subset (by simp [hm]))
      refine (fsClk_wtout_eq_zero 0 v _).mpr ?_
      rw [word_at ram hb]
      exact h a v₁ b v (by simpa using hq) ha

/-- An oscillator at velocity 0 is silent from the first edge on. -/
theorem silent_of_velocity (es : List PhaseOsc.Ev) (hes : ∀ f v, .fsClk f v ∈ es → v = 0)
    (s : PhaseOsc.St) (h : 0 < edges es) : (exec (PhaseOsc.step ram) s es).wtout = 0 := by
  induction es using List.reverseRecOn with
  | nil => exact absurd h (by simp)
  | append_singleton es e ih =>
    rw [exec_snoc]
    cases e with
    | fsClk f v =>
      obtain rfl : v = 0 := hes f v (by simp)
      exact fsClk_wtout_zero f _
    | masterClk =>
      rw [edges_append] at h
      exact ih (fun f v hm => hes f v (by simp [hm])) h

end

/-! ## The mix -/

section
open Voices
open Synth (keyLines)
variable (ram : PhaseOsc.Ram)

/-- The edge with the register of voice `i` at 0, as if no key was pressed. -/
def unpressed (i : Fin 4) : Voices.Ev → Voices.Ev
  | .lrclk keyvol => .lrclk (Function.update keyvol i 0)
  | .tick t => .tick t

theorem rises_unpressed (i : Fin 4) (es : List Voices.Ev) (c : Bool) :
    rises c (es.map (unpressed i)) = rises c es := by
  induction es generalizing c with
  | nil => rfl
  | cons e es ih => cases e <;> cases c <;> simp [unpressed, rises, ih]

/-- The other voices see the same edges. -/
theorem voice_unpressed {i j : Fin 4} (hj : j ≠ i) (es : List Voices.Ev) (c : Bool) :
    voice j c (es.map (unpressed i)) = voice j c es := by
  induction es generalizing c with
  | nil => rfl
  | cons e es ih =>
    cases e with
    | lrclk keyvol => cases c <;> simp [unpressed, voice, keyLines, Function.update_of_ne hj, ih]
    | tick t => cases c <;> cases t <;> simp [unpressed, voice, ih]

theorem velocity_unpressed {i : Fin 4} {es : List Voices.Ev} {c : Bool} {f : BitVec 24}
    {v : BitVec 7} (h : .fsClk f v ∈ voice i c (es.map (unpressed i))) : v = 0 := by
  obtain ⟨keyvol, hk, -, hv⟩ := mem_voice h
  obtain ⟨e, -, he⟩ := List.mem_map.mp hk
  cases e with
  | tick t => cases he
  | lrclk kv =>
    obtain rfl := Voices.Ev.lrclk.inj he
    rw [hv]
    simp [keyLines]

/-- Every edge of the run finds voice `i` with a pitch out of range. -/
def KeyHeld (i : Fin 4) (es : List Voices.Ev) : Prop :=
  ∀ keyvol, .lrclk keyvol ∈ es → OutOfRange (keyvol i)

theorem KeyHeld.empty {i : Fin 4} {es : List Voices.Ev} (h : KeyHeld i es) (c : Bool) :
    Empty (voice i c es) := by
  intro f v hm
  obtain ⟨keyvol, hk, hf, -⟩ := mem_voice hm
  rw [hf]
  exact frequency_zero (h keyvol hk)

/-- After `p`, voice `i` puts out 0, and the mix is that of the run in which its
key was not pressed. -/
def AddsNothing (s : AudioPath.St) (i : Fin 4) (p : List Voices.Ev) : Prop :=
  ((exec (step ram) s p).osc i).wtout = 0 ∧
    (exec (step ram) s p).mix = (exec (step ram) s (p.map (unpressed i))).mix

theorem addsNothing_iff_silent (s : AudioPath.St) (i : Fin 4) (p : List Voices.Ev)
    (h : 0 < rises s.lrclk p) :
    AddsNothing ram s i p ↔ ((exec (step ram) s p).osc i).wtout = 0 := by
  have hsilent : ((exec (step ram) s (p.map (unpressed i))).osc i).wtout = 0 := by
    rw [exec_voice]
    refine silent_of_velocity ram _ (fun _ _ => velocity_unpressed) _ ?_
    rw [edges_voice, rises_unpressed]; exact h
  have hmix := mix_eq_iff i (exec (step ram) s p).osc
    (exec (step ram) s (p.map (unpressed i))).osc fun j hj => by
      rw [exec_voice, exec_voice, voice_unpressed hj]
  rw [hsilent] at hmix
  exact ⟨fun h => h.1, fun h0 => ⟨h0, hmix.mpr h0⟩⟩

/-- **Exactly when** a voice whose pitch is out of range adds nothing from the
second rising `LRCLK` edge on: from any state of the audio path and in any run,
when at every rising edge after the first one the velocity or the word at the
phase where the voice stopped is 0. -/
theorem adds_nothing_iff (s : AudioPath.St) (i : Fin 4) (es : List Voices.Ev) (hes : KeyHeld i es) :
    (∀ p, p <+: es → 2 ≤ rises s.lrclk p → AddsNothing ram s i p) ↔
      Mute ram (s.osc i) (voice i s.lrclk es) := by
  rw [← silent_iff_mute ram _ (hes.empty s.lrclk)]
  constructor
  · intro h q hq h2
    obtain ⟨p, hp, rfl⟩ := exists_voice_eq hq
    rw [edges_voice] at h2
    rw [← exec_voice]
    exact (h p hp h2).1
  · intro h p hp h2
    rw [addsNothing_iff_silent ram s i p (by omega), exec_voice]
    exact h _ (voice_mono hp) (by rw [edges_voice]; exact h2)

end

/-- Key 40 at full velocity on voice 0, nothing elsewhere. -/
def lowKey : Fin 4 → BitVec 16 := fun i => if i.val = 0 then 0x287f#16 else 0#16

/-- Two samples of it. -/
def twoSamples : List Voices.Ev :=
  [.lrclk lowKey, .tick .master, .lrclk lowKey, .lrclk lowKey]

/-- Power-up. -/
def powerUp : AudioPath.St := ⟨fun _ => PhaseOsc.init 0 0, ⟨0, 0⟩, false⟩

theorem held_twoSamples : KeyHeld 0 twoSamples := by
  intro keyvol h
  obtain rfl : keyvol = lowKey := by simpa [twoSamples] using h
  decide

theorem voice_twoSamples :
    Voices.voice 0 false twoSamples = [.fsClk 0 0x7f, .masterClk, .fsClk 0 0x7f] := rfl

/-- A table that is 0 where the power-up frequency leads, and nowhere else. -/
def zeroAt40 : PhaseOsc.Ram := fun addr => if addr = 40#12 then 0 else 0x7fef#16

/-- It makes the key silent: the word is read between the two edges. -/
theorem adds_nothing_example : AddsNothing zeroAt40 powerUp 0 twoSamples := by
  refine (adds_nothing_iff zeroAt40 powerUp 0 twoSamples held_twoSamples).mpr ?_ twoSamples
    (List.prefix_refl _) (by decide)
  intro a v₁ b v₂ hp ha
  right
  change _ <+: Voices.voice 0 false twoSamples at hp
  rw [voice_twoSamples] at hp
  match a, b with
  | [], [] =>
    have h := (List.cons_prefix_cons.mp hp).2
    cases (List.cons_prefix_cons.mp h).1
  | [], e :: b =>
    obtain ⟨h1, h2⟩ := List.cons_prefix_cons.mp hp
    obtain ⟨h3, -⟩ := List.cons_prefix_cons.mp h2
    cases h1
    cases h3
    rw [heard, if_pos List.mem_cons_self]
    decide
  | e :: a, b =>
    obtain ⟨h1, -⟩ := List.cons_prefix_cons.mp hp
    cases h1
    rw [PhaseOsc.edges_fsClk] at ha
    omega

/-- The table word the power-up frequency leads to. mirrors Wavetables/sawtooth.txt:41 -/
def sawtoothAt40 : PhaseOsc.Ram := fun addr => if addr = 40#12 then 0x7fef#16 else 0

/-- **Counterexample**: a constant of almost full scale is on the wire. -/
theorem frozen_voice : ¬ ∀ ram s i es, KeyHeld i es →
    ∀ p, p <+: es → 2 ≤ Voices.rises s.lrclk p → AddsNothing ram s i p := by
  intro h
  have h0 := (h sawtoothAt40 powerUp 0 twoSamples held_twoSamples twoSamples
    (List.prefix_refl _) (by decide)).1
  exact absurd h0 (by decide)

end SonicCraft.Bugs.FrozenPhase
