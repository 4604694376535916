import SonicCraft.L3System.Display

/-!
# The piano layer

The lower right of the screen shows `piano_rom`, an image of 120 lines of 480
pixels. Its address asks for the pixel to the right, `DrawX - 159` for an image
that starts at 160 (Modules/Color_Mapper.sv:49), which makes up for the clock the
word takes to arrive. `piano_exact`: every pixel right of the anchor is the image
pixel of its own place, whatever the run before, and the address survives the cut
from 32 bits to the 17 of `piano_address` and the 16 of the ROM's port.
-/
namespace SonicCraft.L3.PianoLayer
open L1 ColorMapper Display

/-- A pixel of the layer that is not in the anchor's own column. -/
structure PianoPixel where
  x : BitVec 10
  y : BitVec 10
  left : 161 ≤ x.toNat
  right : x.toNat < 640
  top : 360 ≤ y.toNat
  bottom : y.toNat < 480

/-- The image pixel of the place, always one of the ROM's. -/
def PianoPixel.index (p : PianoPixel) : Fin 57600 where
  val := (p.y.toNat - 360) * 480 + (p.x.toNat - 160)
  isLt := by
    have hr := p.right
    have hb := p.bottom
    omega

/-- The right-hand side of `piano_address`, before it is cut.
mirrors Modules/Color_Mapper.sv:49 -/
def wideAddress (drawX drawY : BitVec 10) : BitVec 32 :=
  (drawY.setWidth 32 - 360#32) * 480#32 + drawX.setWidth 32 - 159#32

theorem wideAddress_toNat (drawX drawY : BitVec 10) (hx : 159 ≤ drawX.toNat)
    (hy : 360 ≤ drawY.toNat) :
    (wideAddress drawX drawY).toNat = (drawY.toNat - 360) * 480 + (drawX.toNat - 159) := by
  have hxl := drawX.isLt
  have hyl := drawY.isLt
  have hrow := Width.toNat_sub_wide (w := 32) drawY 360 (by omega) hy
  rw [wideAddress, BitVec.toNat_sub, BitVec.toNat_add, BitVec.toNat_mul, hrow]
  simp only [BitVec.toNat_setWidth, BitVec.toNat_ofNat]
  omega

/-- All three widths of the address presented at a pixel clock are the number `n`. -/
structure Presents (s : Display.St) (n : Nat) : Prop where
  wide : (wideAddress s.vga.hc s.vga.vc).toNat = n
  wire : (pianoAddress s.vga.hc s.vga.vc).toNat = n
  port : ((pianoAddress s.vga.hc s.vga.vc).setWidth 16).toNat = n

/-- Nothing is cut off an address inside the ROM. -/
theorem presents_of_wide {s : Display.St} {n : Nat} (h : n < 57600)
    (hw : (wideAddress s.vga.hc s.vga.vc).toNat = n) : Presents s n := by
  have hwire : (pianoAddress s.vga.hc s.vga.vc).toNat = n := by
    show ((wideAddress s.vga.hc s.vga.vc).setWidth 17).toNat = n
    rw [BitVec.toNat_setWidth, hw]
    omega
  refine ⟨hw, hwire, ?_⟩
  rw [BitVec.toNat_setWidth, hwire]
  omega

/-- The counters are at `p`. -/
def Shown (p : PianoPixel) (s : Display.St) : Prop := s.vga.hc = p.x ∧ s.vga.vc = p.y

/-- The address of `p` was presented at the pixel clock that led to it. -/
theorem presented {roms : Display.Roms} {s : Display.St} {deltatime : BitVec 13} {p : PianoPixel}
    (hp : Shown p (step roms s (.pixelClk deltatime))) : Presents s p.index := by
  obtain ⟨hhc, hvc⟩ := hp
  have hl := p.left
  have ht := p.top
  obtain ⟨h1, h2⟩ := words_of_left roms s deltatime (by rw [hhc]; omega)
  rw [hhc] at h1
  rw [hvc] at h2
  refine presents_of_wide p.index.isLt ?_
  rw [wideAddress_toNat _ _ (by omega) (by rw [h2]; omega), h2]
  show (p.y.toNat - 360) * 480 + (s.vga.hc.toNat - 159) =
    (p.y.toNat - 360) * 480 + (p.x.toNat - 160)
  omega

/-- A run that shows a pixel of the layer ends with a pixel clock. -/
theorem last_pixelClk {roms : Display.Roms} {scoreQ : BitVec 1} {q : Regs} {es : List Display.Ev}
    {p : PianoPixel} (hp : Shown p (exec (step roms) (start scoreQ q) es)) :
    ∃ es' deltatime, es = es' ++ [.pixelClk deltatime] := by
  have hl := p.left
  have hx := congrArg BitVec.toNat hp.1
  rcases List.eq_nil_or_concat es with rfl | ⟨es', e, rfl⟩
  · have h0 : (exec (step roms) (start scoreQ q) []).vga.hc.toNat = 0 := rfl
    omega
  · rw [List.concat_eq_append] at hx ⊢
    cases e with
    | pixelClk deltatime => exact ⟨es', deltatime, rfl⟩
    | reset =>
      rw [exec_append] at hx
      have h0 : (step roms (exec (step roms) (start scoreQ q) es') .reset).vga.hc.toNat = 0 := rfl
      rw [exec_cons, exec_nil] at hx
      omega

/-- What is driven at a pixel of the layer. -/
theorem colour_piano (s : Display.St) (deltatime : BitVec 13) (p : PianoPixel) (hp : Shown p s) :
    s.colour deltatime = if s.q.pianoQ = 0 then black else white := by
  obtain ⟨hhc, hvc⟩ := hp
  have hl := p.left
  have hr := p.right
  have ht := p.top
  have hb := p.bottom
  have hd : VgaController.display s.vga = true := by
    rw [VgaController.display_eq, decide_eq_true_eq, hhc, hvc]; omega
  rw [St.colour, hd, rgb_layer, hhc, hvc, if_neg (by omega), if_pos ht, piano]

/-- **Pixel-exact**, for every image, every run (resets included) and every pixel
of the layer, whatever `deltatime` is by then. -/
theorem piano_exact (roms : Display.Roms) (scoreQ : BitVec 1) (q : Regs) (es : List Display.Ev)
    (p : PianoPixel) (hp : Shown p (exec (step roms) (start scoreQ q) es)) (deltatime : BitVec 13) :
    (∃ es' d, es = es' ++ [.pixelClk d] ∧
        Presents (exec (step roms) (start scoreQ q) es') p.index) ∧
      (exec (step roms) (start scoreQ q) es).colour deltatime =
        if roms.layers.piano.memory p.index = 1 then white else black := by
  obtain ⟨es', d, rfl⟩ := last_pixelClk hp
  rw [exec_append] at hp ⊢
  have hpres := presented hp
  refine ⟨⟨es', d, rfl, hpres⟩, ?_⟩
  have hq : (step roms (exec (step roms) (start scoreQ q) es') (.pixelClk d)).q.pianoQ =
      roms.layers.piano.memory p.index := by
    show roms.layers.piano.read _ = _
    rw [hpres.port]
    exact dif_pos p.index.isLt
  have hbit : ∀ b : BitVec 1, (if b = 0 then black else white) = if b = 1 then white else black := by
    decide
  rw [exec_cons, exec_nil] at hp ⊢
  rw [colour_piano _ _ _ hp, hq, hbit]

/-- The second pixel of the layer's top line. -/
def topLeft : PianoPixel := ⟨161, 360, by decide, by decide, by decide, by decide⟩

/-- An image with white on its left half; nothing else matters here. -/
def halfWhite : Display.Roms :=
  { Display.Roms.blank with
    layers := { ColorMapper.Roms.blank with
      piano := ⟨fun i => if i.val % 480 < 240 then 1 else 0, fun _ => 0⟩ } }

/-- `piano_exact` there, 360 lines after reset. -/
theorem piano_exact_example :
    (exec (step halfWhite) (start 0 ⟨0, 0, 0, 0, 0, 0, 0⟩)
      ((List.replicate (360 * 800 + 161) 0).map .pixelClk)).colour 0 = white := by
  have hat := at_pixels halfWhite 0 ⟨0, 0, 0, 0, 0, 0, 0⟩ (List.replicate (360 * 800 + 161) 0)
  rw [List.length_replicate] at hat
  exact (piano_exact halfWhite 0 ⟨0, 0, 0, 0, 0, 0, 0⟩ _ topLeft
    (hat.position (by decide) (by decide)) 0).2

end SonicCraft.L3.PianoLayer
