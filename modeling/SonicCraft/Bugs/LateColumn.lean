import SonicCraft.L3System.Display

/-!
# The score area shows the pixel to its left

A ROM word arrives one pixel clock after its address (Modules/score_rom.sv:9-11),
so a layer has to ask for the pixel to the right of the current one. The piano
does, with `DrawX - 159` for an image that starts at 160 (Color_Mapper.sv:49).
The space image asks for `DrawX - 160` (Color_Mapper.sv:57) and the score for
column `(DrawX - 160) / 20` (synth_toplevel.sv:272): both layers appear one pixel
to the right of the anchor, 160.

Counterexample (`shifted_image`): a space image that is dark except for its first
pixel, with an empty score; the bright pixel is driven at `DrawX = 161`.

`shows_own_iff`: a pixel shows its own data exactly when its left neighbour has
the same score cell and, where no note covers it, the same image pixel. Using
159 in both addresses would fix it.
-/
namespace SonicCraft.Bugs.LateColumn
open L1 ColorMapper L3 Display

/-- The cell of the score a pixel lies in. -/
def cell (roms : Display.Roms) (deltatime : BitVec 13) (p : ScorePixel) : BitVec 1 :=
  roms.score.read (24 * p.row deltatime + p.col)

/-- The space image, 480 pixels wide, starts at the left of the score area. -/
def spacePixel (roms : Display.Roms) (p : ScorePixel) : BitVec 2 :=
  roms.layers.space.read (480 * p.y.toNat + (p.x.toNat - 160))

/-- The colour is the note colour iff the pixel's own cell is set, and otherwise
the colour of its own image pixel. -/
def ShowsOwn (roms : Display.Roms) (deltatime : BitVec 13) (p : ScorePixel) (c : Rgb) : Prop :=
  (c = orange ↔ cell roms deltatime p = 1) ∧
    (cell roms deltatime p ≠ 1 → c = spaceColour (spacePixel roms p))

theorem pred_toNat {x : BitVec 10} (h : 161 ≤ x.toNat) : (x - 1).toNat = x.toNat - 1 := by
  have hle : (1 : BitVec 10) ≤ x := by
    rw [BitVec.le_def]
    show 1 ≤ x.toNat
    omega
  rw [BitVec.toNat_sub_of_le hle]; rfl

/-- The pixel to the left. -/
def prev (p : ScorePixel) (h : 161 ≤ p.x.toNat) : ScorePixel where
  x := p.x - 1
  y := p.y
  left := by rw [pred_toNat h]; omega
  right := by rw [pred_toNat h]; have := p.right; omega
  bottom := p.bottom

/-- The counters are at `p`. -/
def AtPixel (p : ScorePixel) (s : Display.St) : Prop := s.vga.hc = p.x ∧ s.vga.vc = p.y

instance (p : ScorePixel) (s : Display.St) : Decidable (AtPixel p s) :=
  inferInstanceAs (Decidable (_ ∧ _))

/-- What is driven at `p`: the data of the pixel to the left. -/
theorem colour_at (roms : Display.Roms) (s : Display.St) (deltatime : BitVec 13) (p : ScorePixel)
    (hx : 161 ≤ p.x.toNat) (hp : AtPixel p (step roms s (.pixelClk deltatime))) :
    (step roms s (.pixelClk deltatime)).colour deltatime =
      if cell roms deltatime (prev p hx) = 1 then orange
      else spaceColour (spacePixel roms (prev p hx)) := by
  obtain ⟨hhc, hvc⟩ := hp
  have hr := p.right
  have hb := p.bottom
  obtain ⟨h1, h2⟩ := words_of_left roms s deltatime (by rw [hhc]; omega)
  rw [hhc] at h1
  rw [hvc] at h2
  have hprev : s.vga.hc = (prev p hx).x := by
    apply BitVec.eq_of_toNat_eq
    show _ = (p.x - 1).toNat
    rw [pred_toNat hx]; omega
  have hscore : (step roms s (.pixelClk deltatime)).scoreQ = cell roms deltatime (prev p hx) := by
    show roms.score.read (scoreAddress s.vga.hc s.vga.vc deltatime).toNat = _
    rw [hprev, h2]
    exact congrArg roms.score.read ((prev p hx).address_toNat deltatime)
  have hspace : (step roms s (.pixelClk deltatime)).q.spaceQ = spacePixel roms (prev p hx) := by
    show roms.layers.space.read (spaceAddress s.vga.hc s.vga.vc).toNat = _
    rw [spaceAddress_toNat _ _ (by omega) (by omega) (by rw [h2]; omega), hprev, h2]
    rfl
  rw [colour_score _ _ (by rw [hhc]; exact hx) (by rw [hhc]; omega) (by rw [hvc]; omega), hscore,
    hspace]

/-- A note or a background of one place shown at another place is right iff the
two places look alike. -/
theorem own_colour (c c' : BitVec 1) (k k' : BitVec 2) :
    (((if c' = 1 then orange else spaceColour k') = orange ↔ c = 1) ∧
      (c ≠ 1 → (if c' = 1 then orange else spaceColour k') = spaceColour k)) ↔
      c' = c ∧ (c = 1 ∨ k' = k) := by
  have hbit : ∀ b : BitVec 1, b = 0#1 ∨ b = 1#1 := by decide
  have hk := spaceColour_ne_orange k'
  have hk' := (spaceColour_ne_orange k).symm
  have hinj := spaceColour_inj k' k
  rcases hbit c' with rfl | rfl <;> rcases hbit c with rfl | rfl <;> simp [hk, hk', hinj]

/-- **Exactly when** a pixel of the score area shows its own data. -/
theorem shows_own_iff (roms : Display.Roms) (scoreQ : BitVec 1) (q : Regs) (es : List Display.Ev)
    (deltatime : BitVec 13) (p : ScorePixel) (hx : 161 ≤ p.x.toNat)
    (hp : AtPixel p (exec (step roms) (start scoreQ q) (es ++ [.pixelClk deltatime]))) :
    ShowsOwn roms deltatime p
        ((exec (step roms) (start scoreQ q) (es ++ [.pixelClk deltatime])).colour deltatime) ↔
      cell roms deltatime (prev p hx) = cell roms deltatime p ∧
        (cell roms deltatime p = 1 ∨ spacePixel roms (prev p hx) = spacePixel roms p) := by
  rw [exec_append] at hp ⊢
  have hc := colour_at roms (exec (step roms) (start scoreQ q) es) deltatime p hx hp
  rw [exec_cons, exec_nil, hc]
  exact own_colour _ _ _ _

/-- An empty score, and an image with one bright pixel at its top left. -/
def oneStar : Display.Roms :=
  { Display.Roms.blank with
    layers := { ColorMapper.Roms.blank with space := ⟨fun i => if i.val = 0 then 3 else 2, fun _ => 0⟩ } }

/-- From reset to `DrawX = n + 1` of the first line, between games. -/
def firstLine (n : Nat) : List Display.Ev := List.replicate n (.pixelClk 0) ++ [.pixelClk 0]

def secondPixel : ScorePixel := ⟨161, 0, by decide, by decide, by decide⟩

def thirdPixel : ScorePixel := ⟨162, 0, by decide, by decide, by decide⟩

/-- The third pixel of the image is like the second, and shows its own data. -/
theorem shows_own_example : ShowsOwn oneStar 0 thirdPixel
    ((exec (step oneStar) (start 0 ⟨0, 0, 0, 0, 0, 0, 0⟩) (firstLine 161)).colour 0) :=
  (shows_own_iff oneStar 0 ⟨0, 0, 0, 0, 0, 0, 0⟩ (List.replicate 161 (.pixelClk 0)) 0 thirdPixel
    (by decide) (by decide +kernel)).mpr ⟨by decide +kernel, .inr (by decide +kernel)⟩

/-- **Counterexample**: the first image pixel is driven in the place of the
second. -/
theorem shifted_image :
    ¬ ∀ roms scoreQ q es deltatime p, 161 ≤ p.x.toNat →
      AtPixel p (exec (step roms) (start scoreQ q) (es ++ [.pixelClk deltatime])) →
      p.row deltatime < 8192 →
      ShowsOwn roms deltatime p
        ((exec (step roms) (start scoreQ q) (es ++ [.pixelClk deltatime])).colour deltatime) := by
  intro h
  have hs := h oneStar 0 ⟨0, 0, 0, 0, 0, 0, 0⟩ (List.replicate 160 (.pixelClk 0)) 0 secondPixel
    (by decide) (by decide +kernel) (by decide)
  exact absurd (hs.2 (by decide +kernel)) (by decide +kernel)

end SonicCraft.Bugs.LateColumn
