import SonicCraft.Core.Width

/-!
# Which score cell a pixel shows

`score_address` (Modules/synth_toplevel.sv:268-272) is one expression over
`DrawX`, `DrawY` and `deltatime`. Its decimal literals make it 32 bits wide and
`drawxsig` makes it unsigned; the result is cut to 18 bits. In the score area it
is row `deltatime + 90 - DrawY / 4`, column `(DrawX - 160) / 20` of rows of 24
cells.
-/
namespace SonicCraft.L3

/-- mirrors Modules/synth_toplevel.sv:272 -/
def scoreAddress (drawX drawY : BitVec 10) (deltatime : BitVec 13) : BitVec 18 :=
  ((drawX.setWidth 32 - 160#32) / 20#32 +
    (90#32 - (drawY.extractLsb' 2 8).setWidth 32) * 24#32 +
    deltatime.setWidth 32 * 24#32).setWidth 18

/-- A visible pixel of the score area. -/
structure ScorePixel where
  x : BitVec 10
  y : BitVec 10
  left : 160 ≤ x.toNat
  right : x.toNat ≤ 639
  bottom : y.toNat ≤ 359

namespace ScorePixel

/-- The score row of a pixel. -/
def row (p : ScorePixel) (deltatime : BitVec 13) : Nat := deltatime.toNat + 90 - p.y.toNat / 4

def col (p : ScorePixel) : Nat := (p.x.toNat - 160) / 20

theorem col_lt (p : ScorePixel) : p.col < 24 := by
  have := p.right
  unfold col; omega

/-- In the score area nothing underflows and nothing is cut off. -/
theorem address_toNat (p : ScorePixel) (deltatime : BitVec 13) :
    (scoreAddress p.x p.y deltatime).toNat = 24 * p.row deltatime + p.col := by
  obtain ⟨x, y, h1, h2, h3⟩ := p
  have hd := deltatime.isLt
  have hx : ((x.setWidth 32 - 160#32) / 20#32).toNat = (x.toNat - 160) / 20 := by
    rw [BitVec.toNat_udiv, Width.toNat_sub_wide x 160 (by omega) h1]; rfl
  have hy : (90#32 - (y.extractLsb' 2 8).setWidth 32).toNat = 90 - y.toNat / 4 := by
    rw [BitVec.toNat_sub, BitVec.toNat_setWidth, BitVec.extractLsb'_toNat,
      Nat.shiftRight_eq_div_pow]
    simp only [BitVec.toNat_ofNat]
    omega
  simp only [scoreAddress, row, col, BitVec.toNat_setWidth, BitVec.toNat_add, BitVec.toNat_mul, hx,
    hy, BitVec.toNat_ofNat]
  omega

end ScorePixel
end SonicCraft.L3
