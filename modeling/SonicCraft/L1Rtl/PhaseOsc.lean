import SonicCraft.Core.Width

/-!
# `Phase_OSC`: one wavetable oscillator

Modules/PhaseOSC.sv with its table read, Modules/WavetableRAM.sv. Two clocks:
`MasterCLK` moves the addressed table word into `WTTemp`, `FSCLK` (the audio
sample clock) advances the phase and registers the output. `WTTemp` and `WTOUT`
have no initial value. `WTSelect` reaches `BankSelect`, which the table ignores.
-/
namespace SonicCraft.L1.PhaseOsc

/-- `RAM`: the table, one 16-bit word for each of 4096 addresses.
mirrors Modules/WavetableRAM.sv:19 -/
abbrev Ram := BitVec 12 → BitVec 16

structure St where
  phaseReg : BitVec 24
  freqReg : BitVec 24
  wtTemp : BitVec 16
  wtout : BitVec 32
  deriving DecidableEq, Repr

/-- mirrors Modules/PhaseOSC.sv:21-28 -/
def init (wtTemp : BitVec 16) (wtout : BitVec 32) : St where
  phaseReg := 0x000000#24
  freqReg := 0b000000101000110111011111#24
  wtTemp := wtTemp
  wtout := wtout

/-- The table address, `PhaseReg[23:12]`. -/
def St.addr (s : St) : BitVec 12 := s.phaseReg.extractLsb' 12 12

/-- A `MasterCLK` edge. mirrors Modules/WavetableRAM.sv:29-33 -/
def St.masterClk (ram : Ram) (s : St) : St := { s with wtTemp := ram s.addr }

/-- `WTTemp * Velocity`, both unsigned and widened to the 23 bits of `WTBuffer`.
mirrors Modules/PhaseOSC.sv:41 -/
def St.wtBuffer (s : St) (velocity : BitVec 7) : BitVec 23 :=
  s.wtTemp.setWidth 23 * velocity.setWidth 23

/-- An `FSCLK` edge. mirrors Modules/PhaseOSC.sv:31-37,43-47 -/
def St.fsClk (freqRegInputVal : BitVec 24) (velocity : BitVec 7) (s : St) : St :=
  { s with freqReg := freqRegInputVal
           phaseReg := s.phaseReg + s.freqReg
           wtout := 0x0#4 ++ s.wtBuffer velocity ++ 0x00#5 }

theorem wtBuffer_toNat (s : St) (velocity : BitVec 7) :
    (s.wtBuffer velocity).toNat = s.wtTemp.toNat * velocity.toNat :=
  Width.toNat_mul_wide _ _ (by omega)

/-- The registered output is 32 times the unsigned product. -/
theorem fsClk_wtout_toNat (freq : BitVec 24) (velocity : BitVec 7) (s : St) :
    (s.fsClk freq velocity).wtout.toNat = 32 * (s.wtTemp.toNat * velocity.toNat) := by
  show (0x0#4 ++ s.wtBuffer velocity ++ 0x00#5).toNat = _
  rw [Width.toNat_pad, wtBuffer_toNat]
  omega

/-- It is zero exactly when a factor is. -/
theorem fsClk_wtout_eq_zero (freq : BitVec 24) (velocity : BitVec 7) (s : St) :
    (s.fsClk freq velocity).wtout = 0 ↔ velocity = 0 ∨ s.wtTemp = 0 := by
  rw [← BitVec.toNat_inj, fsClk_wtout_toNat, ← BitVec.toNat_inj, ← BitVec.toNat_inj]
  simp [or_comm]

/-- A zero velocity silences the voice whatever else it holds. -/
theorem fsClk_wtout_zero (freq : BitVec 24) (s : St) : (s.fsClk freq 0).wtout = 0 :=
  (fsClk_wtout_eq_zero freq 0 s).mpr (.inl rfl)

/-- One voice stays below a quarter of `2 ^ 30`. -/
theorem fsClk_wtout_lt (freq : BitVec 24) (velocity : BitVec 7) (s : St) :
    (s.fsClk freq velocity).wtout.toNat < 2 ^ 28 := by
  have hw : s.wtTemp.toNat ≤ 2 ^ 16 - 1 := by have := s.wtTemp.isLt; omega
  have hv : velocity.toNat ≤ 2 ^ 7 - 1 := by have := velocity.isLt; omega
  have hp := Nat.mul_le_mul hw hv
  rw [fsClk_wtout_toNat]
  omega

end SonicCraft.L1.PhaseOsc
