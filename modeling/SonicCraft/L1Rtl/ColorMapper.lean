import SonicCraft.Core.Width
import SonicCraft.L1Rtl.Rom

/-!
# `color_mapper`: from ROM words to a colour

Modules/Color_Mapper.sv. Every pixel clock registers one word from each ROM at
an address computed from `DrawX` and `DrawY`; the colour is combinational in
these words, the score word and the current `DrawX` and `DrawY`. Decimal literals
make the expressions 32 bits wide and unsigned. `KeyOffset` is not read.
-/
namespace SonicCraft.L1.ColorMapper

structure Roms where
  piano : Rom 57600 1
  sine : Rom 10800 1
  square : Rom 10800 1
  sawtooth : Rom 10800 1
  harmony : Rom 10800 1
  bitmask : Rom 192 1
  space : Rom 172800 2

def Roms.blank : Roms := ⟨.fill 0, .fill 0, .fill 0, .fill 0, .fill 0, .fill 0, .fill 0⟩

/-- The registered words. -/
structure Regs where
  pianoQ : BitVec 1
  sineQ : BitVec 1
  squareQ : BitVec 1
  sawtoothQ : BitVec 1
  harmonyQ : BitVec 1
  bitmaskQ : BitVec 1
  spaceQ : BitVec 2
  deriving DecidableEq, Repr

structure Rgb where
  red : BitVec 8
  green : BitVec 8
  blue : BitVec 8
  deriving DecidableEq, Repr

/-! ## Addresses -/

section
variable (drawX drawY : BitVec 10)

/-- mirrors Modules/Color_Mapper.sv:49 -/
def pianoAddress : BitVec 17 :=
  ((drawY.setWidth 32 - 360#32) * 480#32 + drawX.setWidth 32 - 159#32).setWidth 17

/-- The four waveform pictures, each 120 pixels wide, differ in their top line. -/
def waveAddress (top : BitVec 32) : BitVec 14 :=
  ((drawY.setWidth 32 - top) * 120#32 + drawX.setWidth 32 - 20#32).setWidth 14

/-- mirrors Modules/Color_Mapper.sv:50 -/
def sineAddress : BitVec 14 := waveAddress drawX drawY 15#32

/-- mirrors Modules/Color_Mapper.sv:51 -/
def squareAddress : BitVec 14 := waveAddress drawX drawY 135#32

/-- mirrors Modules/Color_Mapper.sv:52 -/
def sawtoothAddress : BitVec 14 := waveAddress drawX drawY 255#32

/-- mirrors Modules/Color_Mapper.sv:53 -/
def harmonyAddress : BitVec 14 := waveAddress drawX drawY 375#32

/-- mirrors Modules/Color_Mapper.sv:55 -/
def bitmaskAddress : BitVec 17 :=
  ((drawY.setWidth 32 * 24#32 / 480#32) * 8#32 + drawX.setWidth 32 * 8#32 / 160#32).setWidth 17

/-- mirrors Modules/Color_Mapper.sv:57 -/
def spaceAddress : BitVec 18 :=
  (drawY.setWidth 32 * 480#32 + drawX.setWidth 32 - 160#32).setWidth 18

/-- mirrors Modules/Color_Mapper.sv:59 -/
def scoreBound : BitVec 5 := ((drawX.setWidth 32 - 160#32) / 20#32).setWidth 5

/-- The words registered at a pixel clock; the ports cut the piano's address to 16
bits and the mask's to 8. mirrors Modules/Color_Mapper.sv:25-33 -/
def fetch (roms : Roms) : Regs where
  pianoQ := roms.piano.read ((pianoAddress drawX drawY).setWidth 16).toNat
  sineQ := roms.sine.read (sineAddress drawX drawY).toNat
  squareQ := roms.square.read (squareAddress drawX drawY).toNat
  sawtoothQ := roms.sawtooth.read (sawtoothAddress drawX drawY).toNat
  harmonyQ := roms.harmony.read (harmonyAddress drawX drawY).toNat
  bitmaskQ := roms.bitmask.read ((bitmaskAddress drawX drawY).extractLsb' 0 8).toNat
  spaceQ := roms.space.read (spaceAddress drawX drawY).toNat

end

/-! ## Colours -/

def black : Rgb := ⟨0x00#8, 0x00#8, 0x00#8⟩

def white : Rgb := ⟨0xff#8, 0xff#8, 0xff#8⟩

/-- A note of the score. mirrors Modules/Color_Mapper.sv:116-118 -/
def orange : Rgb := ⟨0xff#8, 0x65#8, 0x00#8⟩

/-- `Space_palette`. mirrors Modules/ROMs/space/space_palette.sv:6-11 -/
def palette (index : BitVec 2) : BitVec 4 × BitVec 4 × BitVec 4 :=
  match index.toNat with
  | 0 => (0x7#4, 0x9#4, 0xC#4)
  | 1 => (0xE#4, 0x3#4, 0x6#4)
  | 2 => (0x4#4, 0x2#4, 0x5#4)
  | _ => (0xF#4, 0xD#4, 0xB#4)

/-- mirrors Modules/Color_Mapper.sv:122-124 -/
def spaceColour (index : BitVec 2) : Rgb :=
  let (r, g, b) := palette index
  ⟨r ++ 0x0#4, g ++ 0x0#4, b ++ 0x0#4⟩

/-- mirrors Modules/Color_Mapper.sv:71-94 -/
def sidebar (deltatime : BitVec 13) (drawY : BitVec 10) (q : Regs) : Rgb :=
  if q.bitmaskQ = 0 then
    if (q.sineQ = 1 ∧ drawY < 120#10) ∨
        (q.squareQ = 1 ∧ drawY > 120#10 ∧ drawY < 240#10) ∨
        (q.sawtoothQ = 1 ∧ drawY > 240#10 ∧ drawY < 360#10) ∨
        (q.harmonyQ = 1 ∧ drawY > 360#10 ∧ drawY < 480#10) then black
    else white
  else
    { red := deltatime.extractLsb' 2 4 ++ 0x0#4
      green := 0xff#8 - (deltatime.extractLsb' 3 4 ++ 0x0#4)
      blue := deltatime.extractLsb' 0 8 }

/-- mirrors Modules/Color_Mapper.sv:99-109 -/
def piano (q : Regs) : Rgb := if q.pianoQ = 0 then black else white

/-- mirrors Modules/Color_Mapper.sv:115-125 -/
def score (scoreQ : BitVec 1) (drawX : BitVec 10) (q : Regs) : Rgb :=
  if scoreQ = 1 ∧ drawX.setWidth 32 > (scoreBound drawX).setWidth 32 * 20#32 + 159#32 ∧
      (scoreBound drawX).setWidth 32 * 20#32 + 180#32 > drawX.setWidth 32 then orange
  else spaceColour q.spaceQ

/-- `RGB_Display`. mirrors Modules/Color_Mapper.sv:61-128 -/
def rgb (blank : Bool) (scoreQ : BitVec 1) (deltatime : BitVec 13)
    (anchorX anchorY drawX drawY : BitVec 10) (q : Regs) : Rgb :=
  if blank = false then black
  else if drawX.setWidth 32 < anchorX.setWidth 32 + 1#32 then sidebar deltatime drawY q
  else if drawY.setWidth 32 > anchorY.setWidth 32 - 1#32 then piano q
  else score scoreQ drawX q

/-! ## The mask -/

def fullRow : List (BitVec 1) := [1, 1, 1, 1, 1, 1, 1, 1]

def windowRow : List (BitVec 1) := [1, 0, 0, 0, 0, 0, 0, 1]

/-- mirrors Modules/ROMs/bitmask/bitmask.mif:8-199 -/
def bitmaskRows : List (List (BitVec 1)) :=
  [fullRow, windowRow, windowRow, windowRow, windowRow, fullRow,
   fullRow, windowRow, windowRow, windowRow, windowRow, fullRow,
   fullRow, windowRow, windowRow, windowRow, windowRow, fullRow,
   fullRow, windowRow, windowRow, windowRow, windowRow, fullRow]

/-- The contents of `bitmask_rom`: four windows of 4 by 6 words. -/
def bitmaskMif (i : Fin 192) : BitVec 1 := (bitmaskRows.getD (i.val / 8) []).getD (i.val % 8) 0

theorem bitmaskMif_zero (i : Fin 192) (h : bitmaskMif i = 0) :
    (1 ≤ i.val / 8 % 6 ∧ i.val / 8 % 6 ≤ 4) ∧ 1 ≤ i.val % 8 ∧ i.val % 8 ≤ 6 := by
  revert i; decide +kernel

/-- The mask's address as it reaches the port. -/
theorem bitmaskPort_toNat (drawX drawY : BitVec 10) :
    ((bitmaskAddress drawX drawY).extractLsb' 0 8).toNat =
      (drawY.toNat / 20 * 8 + drawX.toNat / 20) % 256 := by
  have hx := drawX.isLt
  have hy := drawY.isLt
  have hrow : (drawY.setWidth 32 * 24#32 / 480#32).toNat = drawY.toNat / 20 := by
    simp only [BitVec.toNat_udiv, BitVec.toNat_mul, BitVec.toNat_setWidth, BitVec.toNat_ofNat,
      Nat.reducePow, Nat.reduceMod]
    omega
  have hcol : (drawX.setWidth 32 * 8#32 / 160#32).toNat = drawX.toNat / 20 := by
    simp only [BitVec.toNat_udiv, BitVec.toNat_mul, BitVec.toNat_setWidth, BitVec.toNat_ofNat,
      Nat.reducePow, Nat.reduceMod]
    omega
  rw [BitVec.extractLsb'_toNat, bitmaskAddress, BitVec.toNat_setWidth, BitVec.toNat_add,
    BitVec.toNat_mul, hrow, hcol, Nat.shiftRight_zero, BitVec.toNat_ofNat]
  omega

/-! ## The four pictures -/

inductive Wave where
  | sine
  | square
  | sawtooth
  | harmony
  deriving DecidableEq, Repr

/-- The first line of the picture. -/
def Wave.top : Wave → Nat
  | .sine => 15
  | .square => 135
  | .sawtooth => 255
  | .harmony => 375

def Wave.address (drawX drawY : BitVec 10) : Wave → BitVec 14
  | .sine => sineAddress drawX drawY
  | .square => squareAddress drawX drawY
  | .sawtooth => sawtoothAddress drawX drawY
  | .harmony => harmonyAddress drawX drawY

/-- The lines on which the foreground test looks at the picture's word.
mirrors Modules/Color_Mapper.sv:75 -/
def Wave.InBand (drawY : BitVec 10) : Wave → Prop
  | .sine => drawY < 120#10
  | .square => drawY > 120#10 ∧ drawY < 240#10
  | .sawtooth => drawY > 240#10 ∧ drawY < 360#10
  | .harmony => drawY > 360#10 ∧ drawY < 480#10

/-- The picture's word replaced. -/
def Wave.set (b : BitVec 1) (q : Regs) : Wave → Regs
  | .sine => { q with sineQ := b }
  | .square => { q with squareQ := b }
  | .sawtooth => { q with sawtoothQ := b }
  | .harmony => { q with harmonyQ := b }

/-- Where nothing underflows, the address is the word of the place in a picture
120 pixels wide. -/
theorem waveAddress_toNat (drawX drawY : BitVec 10) (top : Nat) (hx : 20 ≤ drawX.toNat)
    (hx' : drawX.toNat < 140) (hy : top ≤ drawY.toNat) (hy' : drawY.toNat < top + 90) :
    (waveAddress drawX drawY (BitVec.ofNat 32 top)).toNat =
      (drawY.toNat - top) * 120 + (drawX.toNat - 20) := by
  have hrow := Width.toNat_sub_wide (w := 32) drawY top (by omega) hy
  rw [waveAddress, BitVec.toNat_setWidth, BitVec.toNat_sub, BitVec.toNat_add, BitVec.toNat_mul, hrow]
  simp only [BitVec.toNat_setWidth, BitVec.toNat_ofNat]
  omega

theorem Wave.address_eq (w : Wave) (drawX drawY : BitVec 10) :
    w.address drawX drawY = waveAddress drawX drawY (BitVec.ofNat 32 w.top) := by
  cases w <;> rfl

/-! ## The score area -/

/-- The column test of the note branch always holds there. -/
theorem score_eq (scoreQ : BitVec 1) (drawX : BitVec 10) (q : Regs) (h1 : 160 ≤ drawX.toNat)
    (h2 : drawX.toNat < 640) :
    score scoreQ drawX q = if scoreQ = 1 then orange else spaceColour q.spaceQ := by
  have hdiv : ((drawX.setWidth 32 - 160#32) / 20#32).toNat = (drawX.toNat - 160) / 20 := by
    rw [BitVec.toNat_udiv, Width.toNat_sub_wide drawX 160 (by omega) h1]; rfl
  have hb : ((scoreBound drawX).setWidth 32).toNat = (drawX.toNat - 160) / 20 := by
    rw [scoreBound, BitVec.toNat_setWidth, BitVec.toNat_setWidth, hdiv]
    omega
  have hx : (drawX.setWidth 32).toNat = drawX.toNat := by
    rw [BitVec.toNat_setWidth]; omega
  have hcol : drawX.setWidth 32 > (scoreBound drawX).setWidth 32 * 20#32 + 159#32 ∧
      (scoreBound drawX).setWidth 32 * 20#32 + 180#32 > drawX.setWidth 32 := by
    simp only [gt_iff_lt, BitVec.lt_def, BitVec.toNat_add, BitVec.toNat_mul, hb, hx,
      BitVec.toNat_ofNat]
    omega
  unfold score
  simp only [hcol, and_true]

/-- Which layer a displayed pixel shows. -/
theorem rgb_layer (scoreQ : BitVec 1) (deltatime : BitVec 13) (drawX drawY : BitVec 10) (q : Regs) :
    rgb true scoreQ deltatime 160#10 360#10 drawX drawY q =
      if drawX.toNat ≤ 160 then sidebar deltatime drawY q
      else if 360 ≤ drawY.toNat then piano q else score scoreQ drawX q := by
  have hx : drawX.setWidth 32 < (160#10).setWidth 32 + 1#32 ↔ drawX.toNat ≤ 160 := by
    simp only [BitVec.lt_def, BitVec.toNat_add, BitVec.toNat_setWidth, BitVec.toNat_ofNat]
    omega
  have hy : drawY.setWidth 32 > (360#10).setWidth 32 - 1#32 ↔ 360 ≤ drawY.toNat := by
    simp only [gt_iff_lt, BitVec.lt_def, BitVec.toNat_sub, BitVec.toNat_setWidth,
      BitVec.toNat_ofNat]
    omega
  unfold rgb
  simp only [hx, hy, Bool.true_eq_false, if_false]

/-- The space layer's address, where nothing underflows. -/
theorem spaceAddress_toNat (drawX drawY : BitVec 10) (h1 : 160 ≤ drawX.toNat)
    (h2 : drawX.toNat < 640) (h3 : drawY.toNat < 360) :
    (spaceAddress drawX drawY).toNat = 480 * drawY.toNat + (drawX.toNat - 160) := by
  simp only [spaceAddress, BitVec.toNat_setWidth, BitVec.toNat_sub, BitVec.toNat_add,
    BitVec.toNat_mul, BitVec.toNat_ofNat]
  omega

theorem spaceColour_inj (i j : BitVec 2) : spaceColour i = spaceColour j ↔ i = j := by
  revert i j; decide

theorem spaceColour_ne_orange (i : BitVec 2) : spaceColour i ≠ orange := by
  revert i; decide

end SonicCraft.L1.ColorMapper
