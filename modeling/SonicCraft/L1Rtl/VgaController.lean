import SonicCraft.Core.Width

/-!
# `vga_controller`: the pixel counters and the sync pulses

Modules/VGA_controller.sv. The 50 MHz clock is halved into the pixel clock, which
runs a horizontal counter over 800 pixels and a vertical one over 525 lines. The
sync pulses are registered, so they follow the counters one pixel clock later.
Reset is asynchronous and clears every register.

`Clocked k` gives the registers in closed form after `k` clock edges from reset,
and `vsRises_iff` says at which edges the vertical pulse ends.
-/
namespace SonicCraft.L1.VgaController

structure St where
  clkdiv : Bool
  hc : BitVec 10
  vc : BitVec 10
  hs : Bool
  vs : Bool
  deriving DecidableEq, Repr

/-- mirrors Modules/VGA_controller.sv:38-39 -/
def hpixels : BitVec 10 := 0b1100011111#10

def vlines : BitVec 10 := 0b1000001100#10

/-- The reset branches of all four processes. -/
def reset : St := ⟨false, 0, 0, false, false⟩

/-- The non-reset branch of `counter_proc`, for `hc`.
mirrors Modules/VGA_controller.sv:69-79 -/
def nextHc (s : St) : BitVec 10 := if s.hc == hpixels then 0 else s.hc + 1

/-- The non-reset branch of `counter_proc`, for `vc`. -/
def nextVc (s : St) : BitVec 10 :=
  if s.hc == hpixels then (if s.vc == vlines then 0 else s.vc + 1) else s.vc

/-- `hc + 1` is taken at 32 bits. mirrors Modules/VGA_controller.sv:92-95 -/
def nextHs (s : St) : Bool :=
  !(decide (0b1010010000#32 ≤ s.hc.setWidth 32 + 1#32) &&
    decide (s.hc.setWidth 32 + 1#32 < 0b1011110000#32))

/-- mirrors Modules/VGA_controller.sv:105-108 -/
def nextVs (s : St) : Bool :=
  !(s.vc.setWidth 32 + 1#32 == 0b111101010#32 || s.vc.setWidth 32 + 1#32 == 0b111101011#32)

/-- A rising edge of the pixel clock. -/
def pixelClk (s : St) : St :=
  { s with hc := nextHc s, vc := nextVc s, hs := nextHs s, vs := nextVs s }

/-- An edge of `Clk`; every second one raises the pixel clock.
mirrors Modules/VGA_controller.sv:52-58 -/
def clk (s : St) : St :=
  if s.clkdiv then { s with clkdiv := false } else { pixelClk s with clkdiv := true }

/-- `blank`: high where a pixel may be shown. mirrors Modules/VGA_controller.sv:113-121 -/
def display (s : St) : Bool := !(decide (0b1010000000#10 ≤ s.hc) || decide (0b0111100000#10 ≤ s.vc))

/-! ## Where the counters are -/

/-- The counters have seen `n` pixel clocks since reset. -/
structure At (n : Nat) (s : St) : Prop where
  hc : s.hc.toNat = n % 800
  vc : s.vc.toNat = n / 800 % 525

theorem at_reset : At 0 reset := ⟨rfl, rfl⟩

/-- The position after `n` pixel clocks. -/
theorem At.position {n : Nat} {s : St} (h : At n s) {x y : BitVec 10} (hx : x.toNat = n % 800)
    (hy : y.toNat = n / 800 % 525) : s.hc = x ∧ s.vc = y :=
  ⟨BitVec.eq_of_toNat_eq (h.hc.trans hx.symm), BitVec.eq_of_toNat_eq (h.vc.trans hy.symm)⟩

theorem nextHc_toNat (s : St) (h : s.hc.toNat < 800) :
    (nextHc s).toNat = if s.hc.toNat = 799 then 0 else s.hc.toNat + 1 := by
  have he : (s.hc == hpixels) = decide (s.hc.toNat = 799) := Width.beq_eq_decide _ _
  unfold nextHc
  rw [he]
  by_cases hc : s.hc.toNat = 799
  · simp [hc]
  · simp only [hc, decide_false, Bool.false_eq_true, if_false, BitVec.toNat_add]
    show (s.hc.toNat + 1) % 1024 = _
    omega

theorem nextVc_toNat (s : St) (h : s.vc.toNat < 525) :
    (nextVc s).toNat =
      if s.hc.toNat = 799 then (if s.vc.toNat = 524 then 0 else s.vc.toNat + 1)
      else s.vc.toNat := by
  have he : (s.hc == hpixels) = decide (s.hc.toNat = 799) := Width.beq_eq_decide _ _
  have hv : (s.vc == vlines) = decide (s.vc.toNat = 524) := Width.beq_eq_decide _ _
  unfold nextVc
  rw [he, hv]
  by_cases hc : s.hc.toNat = 799
  · by_cases hvc : s.vc.toNat = 524
    · simp [hc, hvc]
    · simp only [hc, hvc, decide_true, decide_false, Bool.false_eq_true, if_true, if_false,
        BitVec.toNat_add]
      show (s.vc.toNat + 1) % 1024 = _
      omega
  · simp [hc]

theorem at_pixelClk {n : Nat} {s : St} (h : At n s) : At (n + 1) (pixelClk s) := by
  obtain ⟨h1, h2⟩ := h
  have e1 := nextHc_toNat s (by omega)
  have e2 := nextVc_toNat s (by omega)
  refine ⟨?_, ?_⟩
  · show (nextHc s).toNat = _
    rw [e1, h1]; split <;> omega
  · show (nextVc s).toNat = _
    rw [e2, h1, h2]
    split
    · split <;> omega
    · omega

/-- Inside a line a pixel clock comes from the pixel to the left. -/
theorem pixelClk_left (s : St) (h : (pixelClk s).hc.toNat ≠ 0) :
    s.hc.toNat + 1 = (pixelClk s).hc.toNat ∧ s.vc = (pixelClk s).vc := by
  show s.hc.toNat + 1 = (nextHc s).toNat ∧ s.vc = nextVc s
  have h' : (nextHc s).toNat ≠ 0 := h
  unfold nextHc at h' ⊢
  unfold nextVc
  split at h'
  · exact absurd rfl h'
  · rename_i hne
    rw [if_neg hne, if_neg hne]
    have hl := s.hc.isLt
    rw [BitVec.toNat_add] at h' ⊢
    simp only [BitVec.ofNat_eq_ofNat, BitVec.toNat_ofNat] at h' ⊢
    exact ⟨by omega, trivial⟩

/-- A line begins with the pixel clock that found the end of the line before. -/
theorem pixelClk_wrap {n : Nat} {s : St} (h : At n s) (h0 : (pixelClk s).hc.toNat = 0) :
    s.hc.toNat = 799 ∧ s.vc.toNat < 525 ∧
      (pixelClk s).vc.toNat = if s.vc.toNat = 524 then 0 else s.vc.toNat + 1 := by
  have hhc : s.hc.toNat < 800 := by rw [h.hc]; omega
  have hvc : s.vc.toNat < 525 := by rw [h.vc]; omega
  have h1 : (nextHc s).toNat = 0 := h0
  rw [nextHc_toNat s hhc] at h1
  have hlast : s.hc.toNat = 799 := by
    by_contra hne
    rw [if_neg hne] at h1; omega
  refine ⟨hlast, hvc, ?_⟩
  show (nextVc s).toNat = _
  rw [nextVc_toNat s hvc, if_pos hlast]

theorem display_eq (s : St) : display s = decide (s.hc.toNat < 640 ∧ s.vc.toNat < 480) := by
  rw [display, Bool.eq_iff_iff, decide_eq_true_eq]
  simp only [Bool.not_eq_true', Bool.or_eq_false_iff, decide_eq_false_iff_not, BitVec.not_le]
  rfl

/-- The vertical pulse is low while the previous line number was 489 or 490. -/
theorem nextVs_eq (s : St) : nextVs s = !decide (s.vc.toNat = 489 ∨ s.vc.toNat = 490) := by
  have hv := s.vc.isLt
  have ht : (s.vc.setWidth 32 + 1#32).toNat = s.vc.toNat + 1 := by
    simp only [BitVec.toNat_add, BitVec.toNat_setWidth, BitVec.toNat_ofNat]; omega
  unfold nextVs
  rw [Width.beq_eq_decide, Width.beq_eq_decide, ht, Bool.eq_iff_iff]
  simp only [BitVec.toNat_ofNat, Bool.not_eq_true', Bool.or_eq_false_iff, decide_eq_false_iff_not]
  omega

/-! ## After `k` edges of `Clk` -/

/-- `k` edges since reset: `(k + 1) / 2` of them raised the pixel clock, and `vs`
tells of the line the last of these found. -/
structure Clocked (k : Nat) (s : St) : Prop where
  clkdiv : s.clkdiv = decide (k % 2 = 1)
  pos : At ((k + 1) / 2) s
  vs : s.vs = decide (0 < k ∧ (k - 1) / 2 / 800 % 525 ≠ 489 ∧ (k - 1) / 2 / 800 % 525 ≠ 490)

theorem clocked_reset : Clocked 0 reset := ⟨rfl, at_reset, rfl⟩

theorem clocked_clk {k : Nat} {s : St} (h : Clocked k s) : Clocked (k + 1) (clk s) := by
  obtain ⟨h1, h2, h3⟩ := h
  unfold clk
  rcases Nat.mod_two_eq_zero_or_one k with hk | hk
  · rw [h1, hk]
    have hp := at_pixelClk h2
    rw [show (k + 1) / 2 + 1 = (k + 1 + 1) / 2 by omega] at hp
    refine ⟨?_, ⟨hp.hc, hp.vc⟩, ?_⟩
    · simp; omega
    · show nextVs s = _
      rw [nextVs_eq, h2.vc, show (k + 1) / 2 = (k + 1 - 1) / 2 by omega]
      simp
  · rw [h1, hk]
    refine ⟨?_, ⟨?_, ?_⟩, ?_⟩
    · simp; omega
    · exact h2.hc.trans (by rw [show (k + 1 + 1) / 2 = (k + 1) / 2 by omega])
    · exact h2.vc.trans (by rw [show (k + 1 + 1) / 2 = (k + 1) / 2 by omega])
    · show s.vs = _
      rw [h3, show (k + 1 - 1) / 2 = (k - 1) / 2 by omega]
      simp; omega

/-- Pixel clock edges are every second edge of `Clk`. -/
def pixelEdge (s : St) : Bool := !s.clkdiv

/-- A rising edge of `vs`. -/
def vsRises (s : St) : Bool := !s.vs && (clk s).vs

/-- `vs` rises at the first edge after reset and then once every 840000 edges,
at the pixel clock that finds `hc = 0` and `vc = 491`. -/
theorem vsRises_iff {k : Nat} {s : St} (h : Clocked k s) :
    vsRises s = decide (k = 0 ∨ k % 840000 = 785600) := by
  have h' := (clocked_clk h).vs
  unfold vsRises
  rw [h.vs, h', Bool.eq_iff_iff]
  simp only [Bool.and_eq_true, Bool.not_eq_true', decide_eq_false_iff_not, decide_eq_true_eq,
    Nat.add_sub_cancel]
  omega

theorem vsRises_pos {k : Nat} {s : St} (h : Clocked k s) (hr : vsRises s = true) (hk : 0 < k) :
    pixelEdge s = true ∧ s.hc.toNat = 0 ∧ s.vc.toNat = 491 ∧
      (clk s).hc.toNat = 1 ∧ (clk s).vc.toNat = 491 := by
  rw [vsRises_iff h, decide_eq_true_eq] at hr
  have h' := (clocked_clk h).pos
  refine ⟨?_, ?_, ?_, ?_, ?_⟩
  · rw [pixelEdge, h.clkdiv]; simp; omega
  · rw [h.pos.hc]; omega
  · rw [h.pos.vc]; omega
  · rw [h'.hc]; omega
  · rw [h'.vc]; omega

end SonicCraft.L1.VgaController
