import SonicCraft.Core.LTS
import SonicCraft.L1Rtl.ColorMapper
import SonicCraft.L1Rtl.VgaController
import SonicCraft.L3System.ScoreAddress

/-!
# The display pipeline

`vga_controller`, `score_rom` and `color_mapper` share the pixel clock
(Modules/synth_toplevel.sv:224,240-241,255). A pixel clock registers the ROM
words of the position it finds and moves the position on, so the colour of a
position is made from the words of the position before it (`words_of_left`).
`deltatime` is an input, sampled at each pixel clock.
-/
namespace SonicCraft.L3.Display
open L1

structure Roms where
  score : Rom 196608 1
  layers : ColorMapper.Roms

def Roms.blank : Roms := ⟨.fill 0, .blank⟩

structure St where
  vga : VgaController.St
  scoreQ : BitVec 1
  q : ColorMapper.Regs

inductive Ev where
  | pixelClk (deltatime : BitVec 13)
  | reset

def step (roms : Roms) (s : St) : Ev → St
  | .pixelClk deltatime =>
    { vga := VgaController.pixelClk s.vga
      scoreQ := roms.score.read (scoreAddress s.vga.hc s.vga.vc deltatime).toNat
      q := ColorMapper.fetch s.vga.hc s.vga.vc roms.layers }
  | .reset => { s with vga := VgaController.reset }

/-- Just reset, with any registered words. -/
def start (scoreQ : BitVec 1) (q : ColorMapper.Regs) : St := ⟨VgaController.reset, scoreQ, q⟩

/-- What is driven. mirrors Modules/synth_toplevel.sv:240-241 -/
def St.colour (s : St) (deltatime : BitVec 13) : ColorMapper.Rgb :=
  ColorMapper.rgb (VgaController.display s.vga) s.scoreQ deltatime 160#10 360#10 s.vga.hc s.vga.vc s.q

/-- The words behind a pixel that is not the first of its line were fetched at
the pixel to its left. -/
theorem words_of_left (roms : Roms) (s : St) (deltatime : BitVec 13)
    (h : (step roms s (.pixelClk deltatime)).vga.hc.toNat ≠ 0) :
    s.vga.hc.toNat + 1 = (step roms s (.pixelClk deltatime)).vga.hc.toNat ∧
      s.vga.vc = (step roms s (.pixelClk deltatime)).vga.vc :=
  VgaController.pixelClk_left s.vga h

/-- The counters stay within the frame, resets included. -/
theorem at_run (roms : Roms) (scoreQ : BitVec 1) (q : ColorMapper.Regs) (es : List Ev) :
    ∃ n, VgaController.At n (exec (step roms) (start scoreQ q) es).vga := by
  refine exec_inv (I := fun s : St => ∃ n, VgaController.At n s.vga) (fun s e h => ?_) es _
    ⟨0, VgaController.at_reset⟩
  obtain ⟨n, h⟩ := h
  cases e with
  | pixelClk deltatime => exact ⟨n + 1, VgaController.at_pixelClk h⟩
  | reset => exact ⟨0, VgaController.at_reset⟩

/-- Without one they count the pixel clocks. -/
theorem at_pixels (roms : Roms) (scoreQ : BitVec 1) (q : ColorMapper.Regs)
    (ds : List (BitVec 13)) :
    VgaController.At ds.length (exec (step roms) (start scoreQ q) (ds.map .pixelClk)).vga := by
  induction ds using List.reverseRecOn with
  | nil => exact VgaController.at_reset
  | append_singleton ds d ih =>
    rw [List.map_append, exec_append, List.length_append]
    exact VgaController.at_pixelClk ih

/-- The score area shows the score over the space image. -/
theorem colour_score (s : St) (deltatime : BitVec 13) (h1 : 161 ≤ s.vga.hc.toNat)
    (h2 : s.vga.hc.toNat < 640) (h3 : s.vga.vc.toNat < 360) :
    s.colour deltatime =
      if s.scoreQ = 1 then ColorMapper.orange else ColorMapper.spaceColour s.q.spaceQ := by
  have hd : VgaController.display s.vga = true := by
    rw [VgaController.display_eq, decide_eq_true_eq]; omega
  rw [St.colour, hd, ColorMapper.rgb_layer, if_neg (by omega), if_neg (by omega),
    ColorMapper.score_eq _ _ _ (by omega) h2]

end SonicCraft.L3.Display
