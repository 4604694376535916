import SonicCraft.L1Rtl.GameLength

/-!
# A start key released just after a game ended is lost

A game ends with `deltatime` at 8191, and only a `Frame_Clk` edge between games
clears it (Modules/rhythmgame.sv:50). Until then the end condition stays true,
and being the last assignment it overrules the start at the edge that sees the
key released (rhythmgame.sv:32-39): `temp_start` is consumed and no game starts.
The branch for the released key was written to start one whatever the counter
holds.

Counterexample (`lost_press`): a game runs to its end; the key is pressed and
released before the next frame.

`press_counts_iff` says exactly when a press counts: when the edge that sees the
release does not find `deltatime` at 8191. `idle_last_iff` says what that means
where no game runs in between: `deltatime` was not there to begin with, or a frame
edge has cleared it. Testing the end condition only while a game is running
would fix it.
-/
namespace SonicCraft.Bugs.LostPress
open L1.RhythmGame

/-- After `a`, the key is seen down, and then up for the first time. -/
def pressed (a b : List Ev) : List Ev := a ++ .master false true :: b

def released : Ev := .master false false

/-- The key is down and stays down: a press is remembered. -/
theorem temp_kept (b : List Ev) (hb : ∀ e ∈ b, e.NoReset) (hr : released ∉ b) (s : St)
    (ht : s.tempStart = true) : (exec step s b).tempStart = true := by
  induction b generalizing s with
  | nil => exact ht
  | cons e b ih =>
    have hb' : ∀ e ∈ b, e.NoReset := fun a ha => hb a (List.mem_cons_of_mem e ha)
    have hr' : released ∉ b := fun h => hr (List.mem_cons_of_mem e h)
    refine ih hb' hr' _ ?_
    cases e with
    | frame => exact (frameClk_tempStart s).trans ht
    | master r p =>
      obtain rfl : r = false := hb (.master r p) List.mem_cons_self
      cases p with
      | true => simp only [step, masterClk_press]
      | false => exact absurd List.mem_cons_self hr

theorem temp_pressed (a b : List Ev) (hb : ∀ e ∈ b, e.NoReset) (hr : released ∉ b) (s : St) :
    (exec step s (pressed a b)).tempStart = true := by
  rw [pressed, exec_append, exec_cons]
  refine temp_kept b hb hr _ ?_
  simp only [step, masterClk_press]

/-- The release of a remembered press starts a game, or keeps the running one,
unless it meets the end condition. -/
theorem release_iff (s : St) (ht : s.tempStart = true) :
    (step s released).gameinprogress = true ↔ s.deltatime ≠ lastTick := by
  show (masterClk false false s).gameinprogress = true ↔ _
  rw [masterClk_release, ht]
  simp

/-! ## Where no game runs -/

/-- The edge finds no game running. -/
def Idle (s : St) (_ : Ev) : Prop := s.gameinprogress = false

instance (s : St) (e : Ev) : Decidable (Idle s e) := inferInstanceAs (Decidable (_ = _))

/-- Between games `deltatime` is what it was, or 0 from the first frame edge on. -/
theorem idle_deltatime (c : List Ev) (s : St) (hg : Along step Idle s c) :
    (exec step s c).deltatime = if .frame ∈ c then 0 else s.deltatime := by
  induction c using List.reverseRecOn with
  | nil => rfl
  | append_singleton c e ih =>
    obtain ⟨hc, hi⟩ := (along_snoc s c e).mp hg
    rw [exec_snoc]
    cases e with
    | frame => simpa [step] using frameClk_idle _ hi
    | master r p => simpa [step] using ih hc

theorem idle_last_iff (c : List Ev) (s : St) (hg : Along step Idle s c) :
    (exec step s c).deltatime ≠ lastTick ↔ s.deltatime ≠ lastTick ∨ .frame ∈ c := by
  rw [idle_deltatime c s hg]
  by_cases hf : .frame ∈ c
  · simp [hf, lastTick]
  · simp [hf]

/-! ## The press -/

/-- After `es` no game runs; then, without a reset, comes a press, and `b` up to
just before the first `Master_Clk` edge that sees the key up again. -/
structure Press (es a b : List Ev) : Prop where
  idle : (run es).gameinprogress = false
  noReset : ∀ e ∈ pressed a b, e.NoReset
  held : released ∉ b

/-- The press counts: a game runs right after the release. -/
def Counts (es a b : List Ev) : Prop :=
  (step (exec step (run es) (pressed a b)) released).gameinprogress = true

/-- **Exactly when** a press counts: when the edge that sees the release does not
find `deltatime` at its last value. With no game in between, that is when
`deltatime` was elsewhere before or a frame edge has come since. -/
theorem press_counts_iff (es a b : List Ev) (h : Press es a b) :
    (Counts es a b ↔ (exec step (run es) (pressed a b)).deltatime ≠ lastTick) ∧
      (Along step Idle (run es) (pressed a b) →
        (Counts es a b ↔ (run es).deltatime ≠ lastTick ∨ .frame ∈ pressed a b)) := by
  have hb : ∀ e ∈ b, e.NoReset := fun e he => h.noReset e (by simp [pressed, he])
  have hcounts := release_iff _ (temp_pressed a b hb h.held (run es))
  exact ⟨hcounts, fun hg => hcounts.trans (idle_last_iff _ _ hg)⟩

/-- A press between two frame edges, long after the last game. -/
theorem press_counts_example :
    Counts [.frame] [.master false false] [.frame, .master false true] :=
  ((press_counts_iff [.frame] [.master false false] [.frame, .master false true]
    ⟨by decide, by decide, by decide⟩).2 (by decide)).mpr (.inl (by decide))

/-- A game played to its end. -/
def played : List Ev :=
  [.master false true, .master false false] ++ List.replicate 8191 .frame ++ [.master false true]

theorem run_played : (run played).gameinprogress = false ∧ (run played).deltatime = lastTick := by
  obtain ⟨-, hd⟩ := running_frames 8191 (run [.master false true, .master false false]) rfl
  have hzero : (run [.master false true, .master false false]).deltatime.toNat = 0 := rfl
  have hlast : (run ([.master false true, .master false false] ++
      List.replicate 8191 .frame)).deltatime = lastTick := by
    apply BitVec.eq_of_toNat_eq
    rw [run, exec_append, hd, hzero, lastTick_toNat]
    rfl
  rw [played, run_snoc]
  exact ⟨master_ends _ false true hlast, (masterClk_deltatime _ _ _).trans hlast⟩

/-- **Counterexample**: the key goes down and up before the next frame. -/
theorem lost_press : ¬ ∀ es a b, Press es a b → Counts es a b := by
  intro h
  obtain ⟨hg, hd⟩ := run_played
  have hc := h played [] [] ⟨hg, by decide, by decide⟩
  refine (release_iff _ (temp_pressed [] [] (by simp) (by simp) _)).mp hc ?_
  rw [pressed, List.nil_append, exec_cons, exec_nil]
  exact (masterClk_deltatime _ _ _).trans hd

end SonicCraft.Bugs.LostPress
