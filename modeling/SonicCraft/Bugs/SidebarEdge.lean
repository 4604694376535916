import SonicCraft.L3System.Display

/-!
# The first column of the sidebar looks past the end of the mask

ROM words arrive one pixel clock after their address, so at `DrawX = 0` the
sidebar uses words fetched at the end of the line before, at `DrawX = 799`. The
mask's address there is column 39 of a mask 8 words wide
(Modules/Color_Mapper.sv:55): it lands four rows further down, and on the lines
from 401 on, and on the first line of a frame, behind the last of the 192 words.
The piano's address makes up for the same clock (Color_Mapper.sv:49).

Counterexample (`past_the_mask`): the first pixel of line 401 asks for mask word
199.

`sidebar_iff` says that these pixels are the only ones. Everywhere else the mask
keeps the foreground test away from the four pictures' underflowing addresses:
where it is 0, the one picture the test looks at on that line was addressed
inside. Looking at the mask of `DrawX + 1`, or blanking the first column, would
fix it.
-/
namespace SonicCraft.Bugs.SidebarEdge
open L1 ColorMapper L3 Display

/-! ## What the foreground test looks at -/

/-- Inside the mask the colour of a line depends on the picture's word. -/
def Depends (drawY : BitVec 10) (w : Wave) : Prop :=
  ∃ deltatime q b, q.bitmaskQ = 0 ∧ sidebar deltatime drawY (w.set b q) ≠ sidebar deltatime drawY q

theorem depends_iff_inBand (drawY : BitVec 10) (w : Wave) : Depends drawY w ↔ w.InBand drawY := by
  constructor
  · rintro ⟨d, q, b, hm, hne⟩
    by_contra hout
    refine hne ?_
    cases w <;> simp only [Wave.InBand] at hout <;> simp [sidebar, Wave.set, hm, hout]
  · intro h
    refine ⟨0, ⟨0, 0, 0, 0, 0, 0, 0⟩, 1, rfl, ?_⟩
    cases w <;> simp only [Wave.InBand] at h <;> simp [sidebar, Wave.set, h, black, white]

/-! ## The words behind a sidebar pixel -/

/-- From `s` a pixel clock leads to a pixel of the sidebar: its mask word is one
of the 192, and where that is 0 every picture word the pixel can depend on is the
one of its own line at the previous `DrawX`. -/
structure Safe (roms : Display.Roms) (s : Display.St) (deltatime : BitVec 13) : Prop where
  mask : ((bitmaskAddress s.vga.hc s.vga.vc).extractLsb' 0 8).toNat < 192
  words : (step roms s (.pixelClk deltatime)).q.bitmaskQ = 0 → ∀ w : Wave,
    w.InBand (step roms s (.pixelClk deltatime)).vga.vc →
      w.top ≤ (step roms s (.pixelClk deltatime)).vga.vc.toNat ∧ 20 ≤ s.vga.hc.toNat ∧
      (w.address s.vga.hc s.vga.vc).toNat =
        ((step roms s (.pixelClk deltatime)).vga.vc.toNat - w.top) * 120 + (s.vga.hc.toNat - 20) ∧
      (w.address s.vga.hc s.vga.vc).toNat < 10800

variable {roms : Display.Roms}

/-- Inside the mask's words `bitmaskQ` is the one addressed. -/
theorem bitmaskQ_eq (hm : roms.layers.bitmask.memory = bitmaskMif) (s : Display.St)
    (deltatime : BitVec 13) {i : Fin 192}
    (hi : ((bitmaskAddress s.vga.hc s.vga.vc).extractLsb' 0 8).toNat = i.val) :
    (step roms s (.pixelClk deltatime)).q.bitmaskQ = bitmaskMif i := by
  show roms.layers.bitmask.read _ = _
  rw [hi, ← hm]
  exact dif_pos i.isLt

/-- A line in a window of the mask and in a picture's band is well inside the
picture. -/
theorem line_in_picture {w : Wave} {y : BitVec 10} (hb : w.InBand y)
    (hy : 1 ≤ y.toNat / 20 % 6 ∧ y.toNat / 20 % 6 ≤ 4) :
    w.top ≤ y.toNat ∧ y.toNat < w.top + 90 := by
  cases w <;> simp only [Wave.InBand, gt_iff_lt, BitVec.lt_def, BitVec.toNat_ofNat] at hb <;>
    simp only [Wave.top] <;> omega

/-- Right of the first column the words come from the pixel to the left. -/
theorem safe_inside (hm : roms.layers.bitmask.memory = bitmaskMif) (s : Display.St)
    (deltatime : BitVec 13) (hx : (step roms s (.pixelClk deltatime)).vga.hc.toNat ≤ 160)
    (hy : (step roms s (.pixelClk deltatime)).vga.vc.toNat ≤ 479)
    (h0 : (step roms s (.pixelClk deltatime)).vga.hc.toNat ≠ 0) : Safe roms s deltatime := by
  obtain ⟨h1, h2⟩ := words_of_left roms s deltatime h0
  rw [← h2] at hy
  have hport := bitmaskPort_toNat s.vga.hc s.vga.vc
  have hlt : s.vga.vc.toNat / 20 * 8 + s.vga.hc.toNat / 20 < 192 := by omega
  rw [Nat.mod_eq_of_lt (by omega)] at hport
  refine ⟨by omega, fun hq w hw => ?_⟩
  rw [bitmaskQ_eq hm s deltatime (i := ⟨_, hlt⟩) hport] at hq
  obtain ⟨hrow, hcol⟩ := bitmaskMif_zero _ hq
  simp only at hrow hcol
  rw [← h2] at hw ⊢
  obtain ⟨ht, hb⟩ := line_in_picture hw (by omega)
  have ha := waveAddress_toNat s.vga.hc s.vga.vc w.top (by omega) (by omega) ht hb
  rw [← w.address_eq] at ha
  exact ⟨ht, by omega, ha, by omega⟩

/-- In the first column the mask's words come from its right border, or from
behind its end. -/
theorem safe_first_column (hm : roms.layers.bitmask.memory = bitmaskMif) (s : Display.St)
    (deltatime : BitVec 13) (hx : s.vga.hc.toNat = 799) (hy : s.vga.vc.toNat < 525) :
    Safe roms s deltatime ↔ s.vga.vc.toNat < 400 := by
  have hport := bitmaskPort_toNat s.vga.hc s.vga.vc
  rw [hx, Nat.mod_eq_of_lt (by omega)] at hport
  constructor
  · intro h
    have hlt := h.mask
    omega
  · intro hlt
    have hi : s.vga.vc.toNat / 20 * 8 + 799 / 20 < 192 := by omega
    refine ⟨by omega, fun hq => ?_⟩
    rw [bitmaskQ_eq hm s deltatime (i := ⟨_, hi⟩) hport] at hq
    have hcol := (bitmaskMif_zero _ hq).2
    simp only at hcol
    omega

/-- **Exactly when** a sidebar pixel depends on no out-of-range word, in every run
and whatever its resets: unless it is in the first column of line 0 or of a line
from 401 on. -/
theorem sidebar_iff (hm : roms.layers.bitmask.memory = bitmaskMif) (scoreQ : BitVec 1) (q : Regs)
    (es : List Display.Ev) (deltatime : BitVec 13) :
    let s := exec (step roms) (start scoreQ q) es
    let s' := step roms s (.pixelClk deltatime)
    s'.vga.hc.toNat ≤ 160 → s'.vga.vc.toNat ≤ 479 →
      (Safe roms s deltatime ↔
        ¬ (s'.vga.hc.toNat = 0 ∧ (s'.vga.vc.toNat = 0 ∨ 401 ≤ s'.vga.vc.toNat))) := by
  intro s s' hx hy
  by_cases h0 : s'.vga.hc.toNat = 0
  · obtain ⟨n, hat⟩ := at_run roms scoreQ q es
    obtain ⟨hhc, hvc, hnext⟩ := VgaController.pixelClk_wrap hat h0
    have hline : s'.vga.vc.toNat = if s.vga.vc.toNat = 524 then 0 else s.vga.vc.toNat + 1 := hnext
    rw [safe_first_column hm s deltatime hhc hvc]
    by_cases hlast : s.vga.vc.toNat = 524
    · rw [if_pos hlast] at hline; omega
    · rw [if_neg hlast] at hline; omega
  · refine iff_of_true (safe_inside hm s deltatime hx hy h0) fun h => h0 h.1

/-- The mask of the design, and pictures that are all foreground. -/
def designMask : Display.Roms :=
  { Display.Roms.blank with
    layers := { ColorMapper.Roms.blank with
      sine := .fill 1
      square := .fill 1
      sawtooth := .fill 1
      harmony := .fill 1
      bitmask := ⟨bitmaskMif, fun _ => 0⟩ } }

/-- 60 lines after reset, at a pixel of the first picture. -/
def insideSine : Display.St :=
  exec (step designMask) (start 0 ⟨0, 0, 0, 0, 0, 0, 0⟩) ((List.replicate (60 * 800 + 64) 0).map .pixelClk)

theorem at_insideSine : VgaController.At (60 * 800 + 64) insideSine.vga := by
  have h := at_pixels designMask 0 ⟨0, 0, 0, 0, 0, 0, 0⟩ (List.replicate (60 * 800 + 64) 0)
  rw [List.length_replicate] at h
  exact h

theorem sidebar_iff_example : Safe designMask insideSine 0 ∧
    (step designMask insideSine (.pixelClk 0)).q.bitmaskQ = 0 ∧
    Wave.sine.InBand (step designMask insideSine (.pixelClk 0)).vga.vc := by
  have hnext := VgaController.at_pixelClk at_insideSine
  have hcol : (60 * 800 + 64 + 1) % 800 ≠ 0 := by decide
  refine ⟨(sidebar_iff rfl 0 ⟨0, 0, 0, 0, 0, 0, 0⟩ ((List.replicate (60 * 800 + 64) 0).map .pixelClk) 0
    (hnext.hc.trans_le (by decide)) (hnext.vc.trans_le (by decide))).mpr fun h =>
      hcol (hnext.hc.symm.trans h.1), ?_, ?_⟩
  · have hword : bitmaskMif 27 = 0 := by decide +kernel
    rw [← hword]
    refine bitmaskQ_eq rfl insideSine 0 ?_
    rw [bitmaskPort_toNat, at_insideSine.hc, at_insideSine.vc]
    rfl
  · show (VgaController.pixelClk insideSine.vga).vc < 120#10
    rw [BitVec.lt_def, hnext.vc]
    decide

/-- **Counterexample**: the pixel clock that leads to the start of line 401. -/
theorem past_the_mask :
    ¬ ∀ roms, roms.layers.bitmask.memory = bitmaskMif → ∀ scoreQ q es deltatime,
      (step roms (exec (step roms) (start scoreQ q) es) (.pixelClk deltatime)).vga.hc.toNat ≤ 160 →
      (step roms (exec (step roms) (start scoreQ q) es) (.pixelClk deltatime)).vga.vc.toNat ≤ 479 →
      Safe roms (exec (step roms) (start scoreQ q) es) deltatime := by
  intro h
  have hat := at_pixels designMask 0 ⟨0, 0, 0, 0, 0, 0, 0⟩ (List.replicate (400 * 800 + 799) 0)
  rw [List.length_replicate] at hat
  have hnext := VgaController.at_pixelClk hat
  have hs := h designMask rfl 0 ⟨0, 0, 0, 0, 0, 0, 0⟩
    ((List.replicate (400 * 800 + 799) 0).map .pixelClk) 0
    (hnext.hc.trans_le (by decide)) (hnext.vc.trans_le (by decide))
  rw [safe_first_column rfl _ 0 hat.hc (by rw [hat.vc]; decide), hat.vc] at hs
  exact absurd hs (by decide)

end SonicCraft.Bugs.SidebarEdge
