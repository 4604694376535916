import SonicCraft.L1Rtl.RhythmGame

/-!
# A game restarted between two frames resumes the old score position

`Game_Reset` clears `gameinprogress` (Modules/rhythmgame.sv:26-28) but not
`deltatime`, which only a `Frame_Clk` edge between games clears
(rhythmgame.sv:50). A reset and a new start that both fall between two frame
edges therefore start a game at the frame count of the old one.

Counterexample (`resumes_old_time`): start, one frame, reset, press, release;
the second game starts with `deltatime = 1`. The start key may even be held
through the reset.

`fromZero_iff` says exactly when a run is free of this: no game may start when
the last `Frame_Clk` edge before it still fell inside a game. A game that ended
by itself is no danger: its `deltatime` is 8191, at which no game can start
(`Starts`), so a frame edge between the games has cleared it first. Clearing
`deltatime` in the reset branch would fix it.
-/
namespace SonicCraft.Bugs.StaleTime
open L1.RhythmGame

/-- The game with a count of the `Frame_Clk` edges since `gameinprogress` last
went from 0 to 1. -/
structure Mon where
  st : St
  frames : Nat

def monStep (m : Mon) (e : Ev) : Mon :=
  let st := step m.st e
  { st := st
    frames :=
      if m.st.gameinprogress = false ∧ st.gameinprogress = true then 0
      else if e = .frame then m.frames + 1 else m.frames }

def monRun (es : List Ev) : Mon := exec monStep ⟨init, 0⟩ es

/-- `Frame_Clk` edges of `es` since the most recent start of a game. -/
def framesSinceStart (es : List Ev) : Nat := (monRun es).frames

theorem monRun_st (es : List Ev) : (monRun es).st = run es := by
  induction es using List.reverseRecOn with
  | nil => rfl
  | append_singleton es e ih =>
    rw [run_snoc, ← ih, monRun, exec_snoc]
    rfl

theorem framesSinceStart_snoc (es : List Ev) (e : Ev) :
    framesSinceStart (es ++ [e]) =
      if Starts (run es) e then 0
      else if e = .frame then framesSinceStart es + 1 else framesSinceStart es := by
  unfold framesSinceStart
  have h : monRun (es ++ [e]) = monStep (monRun es) e := exec_snoc monStep ⟨init, 0⟩ es e
  rw [h]; simp only [monStep, monRun_st, starts_iff]

/-- After `es`: a running game's `deltatime` counts the frames since its start. -/
def FromZero (es : List Ev) : Prop :=
  (run es).gameinprogress = true → (run es).deltatime.toNat = min (framesSinceStart es) 8191

/-- If the edge starts a game, it finds the counter at 0. -/
def CleanStart (s : St) (e : Ev) : Prop := Starts s e → s.deltatime = 0

instance (s : St) (e : Ev) : Decidable (CleanStart s e) := by unfold CleanStart; exact inferInstance

theorem fromZero_snoc {es : List Ev} {e : Ev} (hc : CleanStart (run es) e) (h : FromZero es) :
    FromZero (es ++ [e]) := by
  unfold FromZero
  rw [framesSinceStart_snoc, run_snoc]
  intro hg
  by_cases hs : Starts (run es) e
  · rw [if_pos hs]
    have h0 := hc hs
    obtain ⟨rfl, -⟩ := hs
    simp [step, h0]
  · rw [if_neg hs]
    -- no start, so the game was running before the edge
    have hrun : (run es).gameinprogress = true := by
      by_contra hn
      exact hs ((starts_iff _ _).mp ⟨by simpa using hn, hg⟩)
    have ih := h hrun
    cases e with
    | master r p => simpa [step] using ih
    | frame =>
      simp only [step, if_true]
      rw [frameClk_running _ hrun, ih]; omega

/-- **Clean starts suffice**: in a run whose games all start at 0, `deltatime`
counts the frames of the current game. -/
theorem fromZero_of_clean (es : List Ev) (h : Along step CleanStart init es) : FromZero es :=
  exec_hist_along (P := CleanStart) (I := fun es _ => FromZero es)
    (by intro hg; simp [init] at hg) (fun _ _ hc ih => fromZero_snoc hc ih) es h

/-- The last `Frame_Clk` edge of `es` fell inside a game. -/
def LastFrameInGame (es : List Ev) : Prop :=
  ∃ a b, es = a ++ .frame :: b ∧ .frame ∉ b ∧ (run a).gameinprogress = true

theorem lastFrameInGame_frame (es : List Ev) :
    LastFrameInGame (es ++ [.frame]) ↔ (run es).gameinprogress = true := by
  constructor
  · rintro ⟨a, b, he, hb, hg⟩
    rcases mem_snoc_cases he with ⟨rfl, -, -⟩ | ⟨b', rfl, -⟩
    · exact hg
    · simp at hb
  · intro hg; exact ⟨es, [], rfl, by simp, hg⟩

theorem lastFrameInGame_master (es : List Ev) (r p : Bool) :
    LastFrameInGame (es ++ [.master r p]) ↔ LastFrameInGame es := by
  constructor
  · rintro ⟨a, b, he, hb, hg⟩
    rcases mem_snoc_cases he with ⟨-, hx, -⟩ | ⟨b', rfl, rfl⟩
    · cases hx
    · exact ⟨a, b', rfl, fun h => hb (by simp [h]), hg⟩
  · rintro ⟨a, b, rfl, hb, hg⟩
    exact ⟨a, b ++ [.master r p], by simp, by simp [hb], hg⟩

/-- A frame inside a game leaves a count behind; only one between games clears it. -/
theorem deltatime_zero_iff (es : List Ev) : (run es).deltatime = 0 ↔ ¬ LastFrameInGame es := by
  induction es using List.reverseRecOn with
  | nil => simp [LastFrameInGame, init]
  | append_singleton es e ih =>
    rw [run_snoc]
    cases e with
    | master r p => rw [lastFrameInGame_master, ← ih]; simp [step]
    | frame =>
      rw [lastFrameInGame_frame]
      show (frameClk (run es)).deltatime = 0 ↔ _
      cases hg : (run es).gameinprogress with
      | false => simp [frameClk_idle _ hg]
      | true =>
        have h := frameClk_running _ hg
        simp only [not_true_eq_false, iff_false]
        intro h0
        rw [h0, show (0 : BitVec 13).toNat = 0 from rfl] at h
        omega

theorem along_clean_iff (es : List Ev) :
    Along step CleanStart init es ↔
      ∀ p e, p ++ [e] <+: es → Starts (run p) e → ¬ LastFrameInGame p := by
  rw [along_iff]
  constructor
  · intro h p e hp hs
    rw [← deltatime_zero_iff]; exact h p e hp hs
  · intro h p e hp hs
    exact (deltatime_zero_iff p).mpr (h p e hp hs)

/-- **Exactly when**: at every moment of a run the score position is the frame
count since the start of the game, if and only if no game starts while the last
frame edge is one of an earlier game. -/
theorem fromZero_iff (es : List Ev) :
    (∀ p, p <+: es → FromZero p) ↔
      ∀ p e, p ++ [e] <+: es → Starts (run p) e → ¬ LastFrameInGame p := by
  rw [← along_clean_iff]
  constructor
  · intro h
    rw [along_iff]
    intro p e hp hs
    have hz := h (p ++ [e]) hp
    unfold FromZero at hz
    rw [framesSinceStart_snoc, if_pos hs, run_snoc] at hz
    have hd := hz ((starts_iff _ _).mpr hs).2
    obtain ⟨rfl, -⟩ := hs
    simp only [step, masterClk_deltatime, Nat.zero_min] at hd
    exact BitVec.eq_of_toNat_eq hd
  · intro h p hp
    refine fromZero_of_clean p ?_
    rw [along_iff] at h ⊢
    exact fun q e hq => h q e (hq.trans hp)

/-- **Counterexample**: one frame into a game, a reset and a new start before
the next frame; the second game starts at 1. -/
theorem resumes_old_time : ¬ ∀ es, FromZero es := by
  intro h
  have hz := h [.master false true, .master false false, .frame, .master true false,
    .master false true, .master false false] (by decide)
  exact absurd hz (by decide)

end SonicCraft.Bugs.StaleTime
