import SonicCraft.Core.LTS

/-!
# `rhythm_game`: the game flag and its frame counter

Modules/rhythmgame.sv. Two clocked processes share three registers: `Master_Clk`
owns `gameinprogress` and `temp_start`, `Frame_Clk` owns `deltatime`. Assignments
are non-blocking, so a process reads the registers as they were before its edge
and the last assignment to a register wins. A run is any interleaving of the two
clocks. `KeyOffsets` is not read.
-/
namespace SonicCraft.L1.RhythmGame

structure St where
  deltatime : BitVec 13
  gameinprogress : Bool
  tempStart : Bool
  deriving DecidableEq, Repr

/-- mirrors Modules/rhythmgame.sv:17-21 -/
def init : St := ⟨0x00000#13, false, false⟩

/-- `13'h1ffff`: seventeen bits written into thirteen. -/
def lastTick : BitVec 13 := 0x1ffff#13

/-- mirrors Modules/rhythmgame.sv:25-41 -/
def masterClk (gameReset pressStart : Bool) (s : St) : St :=
  if gameReset then { s with gameinprogress := false }
  else
    let s₁ :=
      if pressStart then { s with tempStart := true }
      else if s.tempStart && !pressStart then { s with gameinprogress := true, tempStart := false }
      else s
    if s.deltatime == lastTick then { s₁ with gameinprogress := false } else s₁

/-- mirrors Modules/rhythmgame.sv:45-52 -/
def frameClk (s : St) : St :=
  if s.gameinprogress then
    if s.deltatime != lastTick then { s with deltatime := s.deltatime + 1 } else s
  else { s with deltatime := 0x00000#13 }

/-- A rising edge of one of the two clocks, with the inputs the edge samples. -/
inductive Ev where
  | master (gameReset pressStart : Bool)
  | frame
  deriving DecidableEq, Repr

def step (s : St) : Ev → St
  | .master gameReset pressStart => masterClk gameReset pressStart s
  | .frame => frameClk s

/-- The registers after an interleaving of edges from power-up. -/
abbrev run (es : List Ev) : St := exec step init es

theorem run_snoc (es : List Ev) (e : Ev) : run (es ++ [e]) = step (run es) e :=
  exec_snoc step init es e

theorem lastTick_toNat : lastTick.toNat = 8191 := rfl

/-! ## `Master_Clk` edges -/

@[simp] theorem masterClk_deltatime (r p : Bool) (s : St) :
    (masterClk r p s).deltatime = s.deltatime := by
  unfold masterClk; simp only; repeat' split
  all_goals rfl

@[simp] theorem masterClk_reset (p : Bool) (s : St) :
    masterClk true p s = { s with gameinprogress := false } := rfl

theorem masterClk_press (s : St) :
    masterClk false true s =
      { s with tempStart := true
               gameinprogress := s.gameinprogress && !(s.deltatime == lastTick) } := by
  unfold masterClk
  cases h : s.deltatime == lastTick <;> simp

theorem masterClk_release (s : St) :
    masterClk false false s =
      { s with tempStart := false
               gameinprogress := (s.gameinprogress || s.tempStart) && !(s.deltatime == lastTick) } := by
  obtain ⟨d, g, t⟩ := s
  unfold masterClk
  cases t <;> cases h : d == lastTick <;> simp

/-! ## `Frame_Clk` edges -/

@[simp] theorem frameClk_gameinprogress (s : St) :
    (frameClk s).gameinprogress = s.gameinprogress := by
  unfold frameClk; repeat' split
  all_goals rfl

@[simp] theorem frameClk_tempStart (s : St) : (frameClk s).tempStart = s.tempStart := by
  unfold frameClk; repeat' split
  all_goals rfl

/-- During a game a frame counts up and saturates at 8191. -/
theorem frameClk_running (s : St) (h : s.gameinprogress = true) :
    (frameClk s).deltatime.toNat = min (s.deltatime.toNat + 1) 8191 := by
  have hd := s.deltatime.isLt
  unfold frameClk
  rw [if_pos h]
  split
  · rename_i hne
    have hne' : s.deltatime.toNat ≠ 8191 := fun he => by
      simp only [bne_iff_ne, ne_eq] at hne
      exact hne (BitVec.eq_of_toNat_eq he)
    simp only [BitVec.toNat_add, BitVec.ofNat_eq_ofNat, BitVec.toNat_ofNat]
    omega
  · rename_i he
    have he' : s.deltatime = lastTick := by simpa using he
    rw [he', lastTick_toNat]; rfl

/-- Between games a frame clears the counter. -/
theorem frameClk_idle (s : St) (h : s.gameinprogress = false) : (frameClk s).deltatime = 0 := by
  unfold frameClk; rw [h]; rfl

/-! ## Starting a game -/

/-- The edge that starts a game: `Press_Start` is seen low after it was seen
high, no reset, no game running, and the end condition does not overrule it. -/
def Starts (s : St) (e : Ev) : Prop :=
  e = .master false false ∧ s.tempStart = true ∧ s.gameinprogress = false ∧ s.deltatime ≠ lastTick

instance (s : St) (e : Ev) : Decidable (Starts s e) := by unfold Starts; exact inferInstance

/-- `gameinprogress` goes from 0 to 1 exactly there. -/
theorem starts_iff (s : St) (e : Ev) :
    (s.gameinprogress = false ∧ (step s e).gameinprogress = true) ↔ Starts s e := by
  unfold Starts
  cases e with
  | frame => simp [step]
  | master r p =>
    cases r with
    | true => simp [step]
    | false =>
      cases p with
      | true =>
        simp only [step, masterClk_press]
        cases h : s.gameinprogress <;> simp
      | false =>
        simp only [step, masterClk_release]
        cases h : s.gameinprogress <;> simp

end SonicCraft.L1.RhythmGame
