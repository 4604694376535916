import SonicCraft.L3System.AudioPath

/-!
# Negative wavetable words are mixed as large positive ones

The tables hold signed words (Wavetables/sawtooth.txt goes from `1b`, `0` to
`ffe5`) and `Phase_OSC` says of its output "sign extension: WT value is signed
and can be negative" (Modules/PhaseOSC.sv:44). But `WTTemp` and `Velocity` are
unsigned, so the product widens `WTTemp` with zeros (PhaseOSC.sv:41), and the
output is padded with `4'h0` instead of the product's sign (PhaseOSC.sv:45). A
negative word `w` counts as `w + 65536`.

Counterexample (`negative_word`): one voice at velocity 1 with the table word
`ffe5` = -27; the mix is 32 * 65509 instead of 32 * -27.

`signed_mix_iff`: the mix is the signed sum exactly when every voice that is
heard holds a word that is not negative. Declaring the two operands `signed` and
padding with `{4{WTBuffer[22]}}` would fix it.
-/
namespace SonicCraft.Bugs.MixSign
open L1 L3.AudioPath

/-- `I2SDIN` as two's complement is 32 times the sum of signed word times
velocity. -/
def SignedMix (osc : Fin 4 → PhaseOsc.St) (lines : Lines) : Prop :=
  (i2sDin (sample lines osc)).toInt =
    32 * ∑ i, (osc i).wtTemp.toInt * ((lines.velocity i).toNat : Int)

/-- The mix has room to spare, so its sign bit is never set. -/
theorem mix_toInt (osc : Fin 4 → PhaseOsc.St) (lines : Lines) :
    (i2sDin (sample lines osc)).toInt =
      32 * ∑ i, ((osc i).wtTemp.toNat : Int) * ((lines.velocity i).toNat : Int) := by
  have hlt := i2sDin_lt lines osc
  rw [BitVec.toInt_eq_toNat_of_lt (by omega), i2sDin_toNat]
  push_cast
  rfl

/-- **Exactly when** the mixer adds signed samples. -/
theorem signed_mix_iff (osc : Fin 4 → PhaseOsc.St) (lines : Lines) :
    SignedMix osc lines ↔ ∀ i, 0 ≤ (osc i).wtTemp.toInt ∨ lines.velocity i = 0 := by
  have hdot := Width.dot_unsigned_eq_iff (fun i => (osc i).wtTemp)
    (fun i => (lines.velocity i).toNat)
  have hzero : ∀ i, (lines.velocity i).toNat = 0 ↔ lines.velocity i = 0 :=
    fun i => ⟨fun h => BitVec.eq_of_toNat_eq h, fun h => by rw [h]; rfl⟩
  simp only [hzero] at hdot
  rw [← hdot, SignedMix, mix_toInt]
  omega

/-- **Counterexample**: the table word after zero, heard by one voice. -/
theorem negative_word : ¬ ∀ osc lines, SignedMix osc lines := by
  intro h
  have hs := h (fun _ => PhaseOsc.init 0xffe5#16 0) ⟨fun _ => 0, fun i => if i = 0 then 1 else 0⟩
  rw [SignedMix, mix_toInt, Fin.sum_univ_four, Fin.sum_univ_four] at hs
  exact absurd hs (by decide)

end SonicCraft.Bugs.MixSign
