import SonicCraft.L1Rtl.RhythmGame
import SonicCraft.L1Rtl.VgaController
import SonicCraft.L3System.ScoreAddress

/-!
# Scrolling: the display counters clock the game

`VGA_VS` is `rhythm_game`'s `Frame_Clk` (Modules/synth_toplevel.sv:257). Both
modules run on `MAX10_CLK1_50`: an edge of it updates the game flag and, every
second time, raises the pixel clock; if that raises `VGA_VS`, `deltatime` is
clocked and sees the updated flag. `KEY[1]` is sampled at every edge.

`tear_free`: from reset on and without another reset, `deltatime` moves in the
vertical blanking only, once every 800 * 525 pixel clocks, and each step of it
moves every score row down by one band of four lines.
-/
namespace SonicCraft.L3.VideoPath
open L1

structure St where
  vga : VgaController.St
  game : RhythmGame.St

/-- An edge of `MAX10_CLK1_50` with `Reset_h` and `Press_Start`.
mirrors Modules/synth_toplevel.sv:224,257-259 -/
def clkEdge (resetH pressStart : Bool) (s : St) : St :=
  let game := RhythmGame.masterClk resetH pressStart s.game
  if resetH then { vga := VgaController.reset, game := game }
  else
    { vga := VgaController.clk s.vga
      game := if VgaController.vsRises s.vga then RhythmGame.frameClk game else game }

/-- A run without reset, driven by `Press_Start`. -/
def step (s : St) (pressStart : Bool) : St := clkEdge false pressStart s

/-- Just reset or powered up (the counters come up as 0), with any state of the
game. -/
def start (game : RhythmGame.St) : St := ⟨VgaController.reset, game⟩

/-- The edge is a rising edge of `Frame_Clk`. -/
def frameEdge (s : St) (_ : Bool) : Bool := VgaController.vsRises s.vga

def pixelEdge (s : St) (_ : Bool) : Bool := VgaController.pixelEdge s.vga

/-- The running flag that a `Frame_Clk` edge at this edge sees. -/
def gameSeen (s : St) (pressStart : Bool) : Bool :=
  (RhythmGame.masterClk false pressStart s.game).gameinprogress

theorem step_deltatime (s : St) (p : Bool) (h : frameEdge s p = false) :
    (step s p).game.deltatime = s.game.deltatime := by
  have hv : VgaController.vsRises s.vga = false := h
  simp [step, clkEdge, hv]

theorem step_advance (s : St) (p : Bool) (h : frameEdge s p = true) (hg : gameSeen s p = true)
    (hd : s.game.deltatime.toNat < 8191) :
    (step s p).game.deltatime.toNat = s.game.deltatime.toNat + 1 := by
  have hv : VgaController.vsRises s.vga = true := h
  have hrun := RhythmGame.frameClk_running (RhythmGame.masterClk false p s.game) hg
  rw [RhythmGame.masterClk_deltatime] at hrun
  simp only [step, clkEdge, hv, Bool.false_eq_true, if_false, if_true]
  rw [hrun]; omega

theorem clocked_run (game : RhythmGame.St) (ps : List Bool) :
    VgaController.Clocked ps.length (exec step (start game) ps).vga := by
  refine exec_hist (I := fun ps (s : St) => VgaController.Clocked ps.length s.vga)
    VgaController.clocked_reset (fun h p hI => ?_) ps
  rw [List.length_append]
  exact VgaController.clocked_clk hI

/-- Without a frame edge `deltatime` keeps its value. -/
theorem exec_deltatime : ∀ (ps : List Bool) (s : St), hits step frameEdge s ps = 0 →
    (exec step s ps).game.deltatime = s.game.deltatime
  | [], _, _ => rfl
  | p :: ps, s, h => by
    rw [hits, Nat.add_eq_zero_iff] at h
    have hp : frameEdge s p = false := by
      cases hf : frameEdge s p with
      | false => rfl
      | true => rw [hf] at h; simp at h
    rw [exec_cons, exec_deltatime ps _ h.2, step_deltatime s p hp]

/-! ## Counting edges -/

theorem frameEdge_run (game : RhythmGame.St) (ps : List Bool) (p : Bool) :
    frameEdge (exec step (start game) ps) p =
      decide (ps.length = 0 ∨ ps.length % 840000 = 785600) :=
  VgaController.vsRises_iff (clocked_run game ps)

/-- Frame edges of the first `n` edges: the start-up one, then one every 840000. -/
theorem count_frames (n : Nat) :
    Nat.count (fun k => k = 0 ∨ k % 840000 = 785600) n = min n 1 + (n + 54399) / 840000 := by
  induction n with
  | zero => rfl
  | succ n ih =>
    rw [Nat.count_succ, ih]
    split <;> omega

theorem count_pixels (n : Nat) : Nat.count (fun k => k % 2 = 0) n = (n + 1) / 2 := by
  induction n with
  | zero => rfl
  | succ n ih =>
    rw [Nat.count_succ, ih]
    split <;> omega

theorem frames_run (game : RhythmGame.St) (ps : List Bool) :
    hits step frameEdge (start game) ps = min ps.length 1 + (ps.length + 54399) / 840000 := by
  rw [hits_eq_count (Q := fun k => k = 0 ∨ k % 840000 = 785600) (frameEdge_run game),
    count_frames]

theorem pixels_run (game : RhythmGame.St) (ps : List Bool) :
    hits step pixelEdge (start game) ps = (ps.length + 1) / 2 := by
  rw [hits_eq_count (Q := fun k => k % 2 = 0) (fun es e => ?_), count_pixels]
  show (!(exec step (start game) es).vga.clkdiv) = _
  rw [(clocked_run game es).clkdiv]
  rcases Nat.mod_two_eq_zero_or_one es.length with h | h <;> simp [h]

/-- After the start-up edge, a frame edge comes at the pixel clock that finds
the counters at the start of line 491. -/
theorem frameEdge_pos (game : RhythmGame.St) (ps : List Bool) (p : Bool)
    (hps : 0 < hits step frameEdge (start game) ps)
    (hf : frameEdge (exec step (start game) ps) p = true) :
    pixelEdge (exec step (start game) ps) p = true ∧
      (exec step (start game) ps).vga.vc.toNat = 491 ∧
      (step (exec step (start game) ps) p).vga.vc.toNat = 491 := by
  have hlen : 0 < ps.length := by
    cases ps with
    | nil => simp [hits] at hps
    | cons => simp
  obtain ⟨h1, -, h3, -, h5⟩ := VgaController.vsRises_pos (clocked_run game ps) hf hlen
  exact ⟨h1, h3, h5⟩

/-! ## Tear-free scrolling -/

/-- What the display may rely on, for every run from reset without another
reset. "After the first frame edge" is `0 < hits step frameEdge (start game) ps`. -/
structure TearFree (game : RhythmGame.St) : Prop where
  /-- The first edge is a frame edge, and so is one in every 840000 after it. -/
  comes : ∀ ps, hits step frameEdge (start game) ps =
    min ps.length 1 + (ps.length + 54399) / 840000
  /-- `deltatime` changes at pixel clocks on line 491 only. -/
  blanking : ∀ ps p, 0 < hits step frameEdge (start game) ps →
    (step (exec step (start game) ps) p).game.deltatime ≠
      (exec step (start game) ps).game.deltatime →
    pixelEdge (exec step (start game) ps) p = true ∧
      (exec step (start game) ps).vga.vc.toNat = 491 ∧
      (step (exec step (start game) ps) p).vga.vc.toNat = 491
  /-- It keeps its value over any stretch of visible lines. -/
  visible : ∀ ps qs, 0 < hits step frameEdge (start game) ps →
    Along step (fun s _ => s.vga.vc.toNat < 480) (exec step (start game) ps) qs →
    (exec step (start game) (ps ++ qs)).game.deltatime =
      (exec step (start game) ps).game.deltatime
  /-- Any 800 * 525 consecutive pixel clocks have one frame edge. -/
  period : ∀ ps qs, 0 < hits step frameEdge (start game) ps →
    hits step pixelEdge (exec step (start game) ps) qs = 800 * 525 →
    hits step frameEdge (exec step (start game) ps) qs = 1
  /-- `ps` ends in the earlier frame, `a` is the rest of it, `p` the frame edge, `b`
  a part of the later frame: what band `b` showed, band `b + 1` shows now. -/
  scroll : ∀ ps a p b, hits step frameEdge (exec step (start game) ps) a = 0 →
    frameEdge (exec step (start game) (ps ++ a)) p = true →
    gameSeen (exec step (start game) (ps ++ a)) p = true →
    (exec step (start game) ps).game.deltatime.toNat < 8191 →
    hits step frameEdge (exec step (start game) (ps ++ a ++ [p])) b = 0 →
    ∀ u v : ScorePixel, v.x = u.x → v.y.toNat / 4 = u.y.toNat / 4 + 1 →
      scoreAddress v.x v.y (exec step (start game) (ps ++ a ++ [p] ++ b)).game.deltatime =
        scoreAddress u.x u.y (exec step (start game) ps).game.deltatime

theorem hits_pos_append {game : RhythmGame.St} {ps : List Bool} (qs : List Bool)
    (h : 0 < hits step frameEdge (start game) ps) :
    0 < hits step frameEdge (start game) (ps ++ qs) := by
  rw [hits_append]; omega

theorem visible_run (game : RhythmGame.St) (qs : List Bool) : ∀ ps,
    0 < hits step frameEdge (start game) ps →
    Along step (fun s _ => s.vga.vc.toNat < 480) (exec step (start game) ps) qs →
    (exec step (start game) (ps ++ qs)).game.deltatime =
      (exec step (start game) ps).game.deltatime := by
  induction qs with
  | nil => intro ps _ _; rw [List.append_nil]
  | cons q qs ih =>
    intro ps hps ha
    have hf : frameEdge (exec step (start game) ps) q = false := by
      by_contra hf
      have hv := (frameEdge_pos game ps q hps (by simpa using hf)).2.1
      have := ha.1
      omega
    have hq := exec_snoc step (start game) ps q
    have hrest := ih (ps ++ [q]) (hits_pos_append [q] hps) (by rw [hq]; exact ha.2)
    rw [List.append_assoc, List.singleton_append] at hrest
    rw [hrest, hq, step_deltatime _ q hf]

theorem period_run (game : RhythmGame.St) (ps qs : List Bool)
    (hps : 0 < hits step frameEdge (start game) ps)
    (hq : hits step pixelEdge (exec step (start game) ps) qs = 800 * 525) :
    hits step frameEdge (exec step (start game) ps) qs = 1 := by
  have h1 := frames_run game ps
  have h2 := frames_run game (ps ++ qs)
  have h3 := pixels_run game ps
  have h4 := pixels_run game (ps ++ qs)
  rw [hits_append, List.length_append] at h2 h4
  omega

/-- One more tick shows, one band lower, the row a pixel showed before. -/
theorem band_down (u v : ScorePixel) (d d' : BitVec 13) (hx : v.x = u.x)
    (hy : v.y.toNat / 4 = u.y.toNat / 4 + 1) (hd : d'.toNat = d.toNat + 1) :
    scoreAddress v.x v.y d' = scoreAddress u.x u.y d := by
  have hrow : v.row d' = u.row d := by
    unfold ScorePixel.row; omega
  have hcol : v.col = u.col := by
    unfold ScorePixel.col; rw [hx]
  apply BitVec.eq_of_toNat_eq
  rw [v.address_toNat, u.address_toNat, hrow, hcol]

/-- **Tear-free, uniform scrolling**, whatever the game is doing at reset. -/
theorem tear_free (game : RhythmGame.St) : TearFree game where
  comes := frames_run game
  blanking := by
    intro ps p hps hne
    have hf : frameEdge (exec step (start game) ps) p = true := by
      by_contra hf
      exact hne (step_deltatime _ p (by simpa using hf))
    exact frameEdge_pos game ps p hps hf
  visible := fun ps qs => visible_run game qs ps
  period := period_run game
  scroll := by
    intro ps a p b ha hf hg hd hb u v hx hy
    have h1 : (exec step (start game) (ps ++ a)).game.deltatime =
        (exec step (start game) ps).game.deltatime := by
      rw [exec_append]; exact exec_deltatime a _ ha
    have h2 : (exec step (start game) (ps ++ a ++ [p])).game.deltatime.toNat =
        (exec step (start game) ps).game.deltatime.toNat + 1 := by
      rw [exec_append, ← h1]; exact step_advance _ p hf hg (by rw [h1]; exact hd)
    have h3 : (exec step (start game) (ps ++ a ++ [p] ++ b)).game.deltatime =
        (exec step (start game) (ps ++ a ++ [p])).game.deltatime := by
      rw [exec_append _ _ (ps ++ a ++ [p])]; exact exec_deltatime b _ hb
    exact band_down u v _ _ hx hy (by rw [h3, h2])

end SonicCraft.L3.VideoPath
