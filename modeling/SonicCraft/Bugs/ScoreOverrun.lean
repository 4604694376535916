import SonicCraft.L1Rtl.GameLength
import SonicCraft.L3System.ScoreAddress

/-!
# The last seconds of a game read past the end of the score

`score_rom` has 196608 = 8192 * 24 cells, one row for each value of `deltatime`
(Modules/score_rom.sv:7, Scores/output.mif). The display looks up to 90 rows
ahead (Modules/synth_toplevel.sv:272), and a game only ends when `deltatime` is
at its last value (Modules/rhythmgame.sv:37, the literal `13'h1ffff`). From
`deltatime` 8102 on the top of the score area therefore shows words that do not
exist.

Counterexample (`past_the_end`): start a game and let it run to its end; the top
line asks for row 8281.

`inRange_iff`: the address itself is always the intended one, and it is inside
the ROM exactly when the row is. Ending the game 90 rows earlier, or 90 more
empty rows, would fix it.
-/
namespace SonicCraft.Bugs.ScoreOverrun
open L1.RhythmGame L3

/-- `score_rom`'s depth. mirrors Modules/score_rom.sv:7 -/
def depth : Nat := 196608

/-- The address is the intended cell of a row of 24, and the ROM has it. -/
def InRange (deltatime : BitVec 13) (p : ScorePixel) : Prop :=
  (scoreAddress p.x p.y deltatime).toNat =
      24 * (deltatime.toNat + 90 - p.y.toNat / 4) + (p.x.toNat - 160) / 20 ∧
    (p.x.toNat - 160) / 20 < 24 ∧ (scoreAddress p.x p.y deltatime).toNat < depth

theorem address_lt_iff (deltatime : BitVec 13) (p : ScorePixel) :
    (scoreAddress p.x p.y deltatime).toNat < depth ↔ p.row deltatime < 8192 := by
  have hc := p.col_lt
  rw [p.address_toNat]
  show 24 * p.row deltatime + p.col < 196608 ↔ _
  omega

/-- **Exactly when** a score pixel reads inside the ROM: in every state of every
run, when the row it looks ahead to is one of the 8192. -/
theorem inRange_iff (es : List Ev) (p : ScorePixel) :
    InRange (run es).deltatime p ↔ (run es).deltatime.toNat + 90 - p.y.toNat / 4 < 8192 := by
  have ha := p.address_toNat (run es).deltatime
  have hl := address_lt_iff (run es).deltatime p
  have hc := p.col_lt
  constructor
  · rintro ⟨-, -, h⟩; exact hl.mp h
  · intro h; exact ⟨ha, hc, hl.mpr h⟩

/-- Press and release of the start key, then `n` frames. -/
def play (n : Nat) : List Ev :=
  [.master false true, .master false false] ++ List.replicate n .frame

/-- The game keeps running and counts the frames, up to the last row. -/
theorem run_play (n : Nat) :
    (run (play n)).gameinprogress = true ∧ (run (play n)).deltatime.toNat = min n 8191 := by
  obtain ⟨hg, hd⟩ := running_frames n (run [.master false true, .master false false]) rfl
  have hzero : (run [.master false true, .master false false]).deltatime.toNat = 0 := rfl
  rw [play, run, exec_append]
  exact ⟨hg, by rw [hd, hzero, Nat.zero_add]⟩

/-- **Counterexample**: the top left pixel of the score, 8191 frames into a game. -/
theorem past_the_end : ¬ ∀ es p, InRange (run es).deltatime p := by
  intro h
  obtain ⟨-, -, hlt⟩ := h (play 8191) ⟨160, 0, by decide, by decide, by decide⟩
  rw [address_lt_iff, ScorePixel.row, (run_play 8191).2] at hlt
  exact absurd hlt (by decide)

end SonicCraft.Bugs.ScoreOverrun
