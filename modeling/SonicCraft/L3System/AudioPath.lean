import SonicCraft.Core.LTS
import SonicCraft.L1Rtl.I2S
import SonicCraft.L1Rtl.PhaseOsc
import Mathlib.Algebra.BigOperators.Fin

/-!
# The audio path: four oscillators, the mix, the serialiser

Modules/synth_toplevel.sv:226-238. `LRCLK` clocks the oscillators and selects
the serialiser's channel, `SCLK` clocks the serialiser, `MAX10_CLK1_50` the table
reads; they come in any order. The oscillators' frequency and velocity inputs
are read at a rising `LRCLK` edge only, so an `LRCLK` edge carries the values
they have there.
-/
namespace SonicCraft.L3.AudioPath
open L1

/-- The inputs of the four oscillators. -/
structure Lines where
  freqReg : Fin 4 → BitVec 24
  velocity : Fin 4 → BitVec 7

structure St where
  osc : Fin 4 → PhaseOsc.St
  i2s : I2S.St
  lrclk : Bool

/-- `I2SDIN`. mirrors Modules/synth_toplevel.sv:228 -/
def i2sDin (osc : Fin 4 → PhaseOsc.St) : BitVec 32 :=
  (osc 0).wtout + (osc 1).wtout + (osc 2).wtout + (osc 3).wtout

def St.mix (s : St) : BitVec 32 := i2sDin s.osc

/-- `I2SDOUT` -/
def St.dout (s : St) : Bool := s.i2s.dout s.lrclk

/-- The oscillators at a rising `LRCLK` edge. mirrors Modules/synth_toplevel.sv:231-238 -/
def sample (lines : Lines) (osc : Fin 4 → PhaseOsc.St) : Fin 4 → PhaseOsc.St :=
  fun i => (osc i).fsClk (lines.freqReg i) (lines.velocity i)

/-- Edges of the clocks that leave `LRCLK` alone. -/
inductive Tick where
  | sclk
  | master
  deriving DecidableEq, Repr

inductive Ev where
  | lrclk (lines : Lines)
  | tick (t : Tick)

/-- A change of `LRCLK`. -/
def St.lrclkEdge (lines : Lines) (s : St) : St :=
  { s with osc := if s.lrclk then s.osc else sample lines s.osc
           lrclk := !s.lrclk }

def St.tick (ram : PhaseOsc.Ram) (s : St) : Tick → St
  | .sclk => { s with i2s := s.i2s.posedge s.lrclk s.mix }
  | .master => { s with osc := fun i => (s.osc i).masterClk ram }

def step (ram : PhaseOsc.Ram) (s : St) : Ev → St
  | .lrclk lines => s.lrclkEdge lines
  | .tick t => s.tick ram t

/-! ## What an edge leaves alone -/

theorem tick_lrclk (ram : PhaseOsc.Ram) (s : St) (t : Tick) : (s.tick ram t).lrclk = s.lrclk := by
  cases t <;> rfl

theorem tick_wtout (ram : PhaseOsc.Ram) (s : St) (t : Tick) (i : Fin 4) :
    ((s.tick ram t).osc i).wtout = (s.osc i).wtout := by
  cases t <;> rfl

/-- The mix changes at rising `LRCLK` edges only. -/
theorem tick_mix (ram : PhaseOsc.Ram) (s : St) (t : Tick) : (s.tick ram t).mix = s.mix := by
  cases t <;> rfl

theorem fall_osc (lines : Lines) (s : St) (h : s.lrclk = true) :
    (s.lrclkEdge lines).osc = s.osc := by
  simp [St.lrclkEdge, h]

theorem fall_mix (lines : Lines) (s : St) (h : s.lrclk = true) :
    (s.lrclkEdge lines).mix = s.mix := congrArg i2sDin (fall_osc lines s h)

theorem rise_osc (lines : Lines) (s : St) (h : s.lrclk = false) :
    (s.lrclkEdge lines).osc = sample lines s.osc := by
  simp [St.lrclkEdge, h]

theorem rise_mix (lines : Lines) (s : St) (h : s.lrclk = false) :
    (s.lrclkEdge lines).mix = i2sDin (sample lines s.osc) := congrArg i2sDin (rise_osc lines s h)

/-- An `SCLK` edge loads one register with the mix. -/
theorem sclk_fill (ram : PhaseOsc.Ram) (s : St) :
    (s.tick ram .sclk).i2s.fill s.lrclk = s.mix := I2S.posedge_fill _ _ _

/-- … and shifts the other one. -/
theorem sclk_out (ram : PhaseOsc.Ram) (s : St) :
    (s.tick ram .sclk).i2s.out s.lrclk = s.i2s.out s.lrclk <<< 1 := I2S.posedge_out _ _ _

/-! ## The mix as a number -/

/-- No addition of the mix wraps while every voice is below a sixteenth of the
range. -/
theorem i2sDin_sum (osc : Fin 4 → PhaseOsc.St) (h : ∀ i, (osc i).wtout.toNat < 2 ^ 28) :
    (i2sDin osc).toNat = ∑ i, (osc i).wtout.toNat := by
  have h0 := h 0
  have h1 := h 1
  have h2 := h 2
  have h3 := h 3
  rw [Fin.sum_univ_four]
  simp only [i2sDin, BitVec.toNat_add]
  omega

theorem sample_wtout_lt (lines : Lines) (osc : Fin 4 → PhaseOsc.St) (i : Fin 4) :
    (sample lines osc i).wtout.toNat < 2 ^ 28 := PhaseOsc.fsClk_wtout_lt _ _ _

theorem i2sDin_toNat (lines : Lines) (osc : Fin 4 → PhaseOsc.St) :
    (i2sDin (sample lines osc)).toNat =
      32 * ∑ i, (osc i).wtTemp.toNat * (lines.velocity i).toNat := by
  rw [i2sDin_sum _ (sample_wtout_lt lines osc), Finset.mul_sum]
  exact Finset.sum_congr rfl fun i _ => PhaseOsc.fsClk_wtout_toNat _ _ _

/-- The two top bits of the mix are zero. -/
theorem i2sDin_lt (lines : Lines) (osc : Fin 4 → PhaseOsc.St) :
    (i2sDin (sample lines osc)).toNat < 2 ^ 30 := by
  have h := sample_wtout_lt lines osc
  have h0 := h 0
  have h1 := h 1
  have h2 := h 2
  have h3 := h 3
  rw [i2sDin_sum _ h, Fin.sum_univ_four]
  omega

/-- One more left shift loses nothing. -/
theorem i2sDin_doubled (lines : Lines) (osc : Fin 4 → PhaseOsc.St) :
    (i2sDin (sample lines osc) <<< 1).toNat = 2 * (i2sDin (sample lines osc)).toNat := by
  have hlt := i2sDin_lt lines osc
  rw [BitVec.toNat_shiftLeft, Nat.shiftLeft_eq, Nat.mod_eq_of_lt (by omega), Nat.mul_comm]

/-- What the widths of the products and of the sum leave room for, at a rising
`LRCLK` edge. -/
structure Headroom (lines : Lines) (osc : Fin 4 → PhaseOsc.St) : Prop where
  product : ∀ i, ((osc i).wtBuffer (lines.velocity i)).toNat =
    (osc i).wtTemp.toNat * (lines.velocity i).toNat
  voice : ∀ i, (sample lines osc i).wtout.toNat =
    32 * ((osc i).wtTemp.toNat * (lines.velocity i).toNat)
  sum : (i2sDin (sample lines osc)).toNat = ∑ i, (sample lines osc i).wtout.toNat
  lt : (i2sDin (sample lines osc)).toNat < 2 ^ 30
  bit31 : (i2sDin (sample lines osc)).getLsbD 31 = false
  bit30 : (i2sDin (sample lines osc)).getLsbD 30 = false
  doubled : (i2sDin (sample lines osc) <<< 1).toNat = 2 * (i2sDin (sample lines osc)).toNat
  doubled_msb : (i2sDin (sample lines osc) <<< 1).msb = false

/-- **Mixing headroom**, for all table words and velocities: nothing is cut off,
and the mix may be doubled once more before its sign bit is touched. -/
theorem headroom (lines : Lines) (osc : Fin 4 → PhaseOsc.St) : Headroom lines osc where
  product i := PhaseOsc.wtBuffer_toNat _ _
  voice i := PhaseOsc.fsClk_wtout_toNat _ _ _
  sum := i2sDin_sum _ (sample_wtout_lt lines osc)
  lt := i2sDin_lt lines osc
  bit31 := Nat.testBit_lt_two_pow ((i2sDin_lt lines osc).trans (by decide))
  bit30 := Nat.testBit_lt_two_pow (i2sDin_lt lines osc)
  doubled := i2sDin_doubled lines osc
  doubled_msb := by
    have hlt := i2sDin_lt lines osc
    rw [BitVec.msb_eq_false_iff_two_mul_lt, i2sDin_doubled]
    omega

end SonicCraft.L3.AudioPath
