import SonicCraft.L1Rtl.RhythmGame

/-!
# A start key pressed before a reset starts a game after it

`temp_start` remembers that `Press_Start` was seen high until it is seen low
(Modules/rhythmgame.sv:31-35). The reset branch clears `gameinprogress` only
(rhythmgame.sv:26-28), so a press from before the reset is still pending after
it, and the first `Master_Clk` edge that sees the key up starts a game. The
initial block clears both registers (rhythmgame.sv:18-20), the reset forgets one.

Counterexample (`pending_start`): press, reset, key up.

`cancels_iff` says exactly when a reset does cancel what is pending: either
nothing is pending, or the first `Master_Clk` edge after the reset sees the key
down (then it is a new press) or finds `deltatime` at its last value (then the
end-of-game branch overrules the start).
-/
namespace SonicCraft.Bugs.PendingStart
open L1.RhythmGame

/-- Some edge without reset saw the key down and a later one saw it up. -/
def PressedThenReleased (es : List Ev) : Prop :=
  ∃ a b, es = a ++ .master false true :: b ∧ .master false false ∈ b

/-- From a reset edge in state `s` (with the key at `press`) through `cont`: no
game runs until a key has been pressed and released after the reset. -/
def CancelsPending (s : St) (press : Bool) (cont : List Ev) : Prop :=
  ∀ q, q <+: cont → (exec step (masterClk true press s) q).gameinprogress = true →
    PressedThenReleased q

/-- The first edge of `cont` without reset sees the key up, with `deltatime`
below its last value. -/
def ReleaseFirst (s₀ : St) (cont : List Ev) : Prop :=
  ∃ a b, cont = a ++ .master false false :: b ∧ (∀ p, .master false p ∉ a) ∧
    (exec step s₀ a).deltatime ≠ lastTick

theorem PressedThenReleased.snoc {es : List Ev} (e : Ev) (h : PressedThenReleased es) :
    PressedThenReleased (es ++ [e]) := by
  obtain ⟨a, b, rfl, hb⟩ := h
  exact ⟨a, b ++ [e], by simp, by simp [hb]⟩

theorem pressedThenReleased_of_mem {es : List Ev} (h : .master false true ∈ es) :
    PressedThenReleased (es ++ [.master false false]) := by
  obtain ⟨a, b, rfl⟩ := List.append_of_mem h
  exact ⟨a, b ++ [.master false false], by simp, by simp⟩

/-- What a run after the reset may hold. -/
structure Inv (pending : Bool) (q : List Ev) (s : St) : Prop where
  running : s.gameinprogress = true → PressedThenReleased q
  temp : s.tempStart = true → .master false true ∈ q ∨ (pending = true ∧ ∀ p, .master false p ∉ q)

theorem inv_snoc {pending : Bool} {q : List Ev} {s : St} {e : Ev} (h : Inv pending q s)
    (hok : e = .master false false → pending = true → (∀ p, .master false p ∉ q) →
      s.deltatime = lastTick) : Inv pending (q ++ [e]) (step s e) := by
  obtain ⟨h1, h2⟩ := h
  have keep : s.gameinprogress = true → PressedThenReleased (q ++ [e]) := fun hg => (h1 hg).snoc e
  cases e with
  | frame =>
    refine ⟨fun hg => keep (by simpa [step] using hg), fun ht => ?_⟩
    simpa using h2 (by simpa [step] using ht)
  | master r p =>
    cases r with
    | true =>
      refine ⟨fun hg => by simp [step] at hg, fun ht => ?_⟩
      simpa using h2 (by simpa [step] using ht)
    | false =>
      cases p with
      | true =>
        refine ⟨fun hg => keep ?_, fun _ => .inl (by simp)⟩
        simp only [step, masterClk_press, Bool.and_eq_true] at hg; exact hg.1
      | false =>
        refine ⟨fun hg => ?_, fun ht => by simp [step, masterClk_release] at ht⟩
        simp only [step, masterClk_release, Bool.and_eq_true, Bool.or_eq_true] at hg
        obtain ⟨hg | ht, hd⟩ := hg
        · exact keep hg
        · rcases h2 ht with hm | ⟨hp, hn⟩
          · exact pressedThenReleased_of_mem hm
          · rw [hok rfl hp hn] at hd; simp at hd

/-- Resets and frames after a reset keep a pending press and start nothing. -/
theorem pending_kept (a : List Ev) (ha : ∀ p, .master false p ∉ a) (s : St)
    (hg : s.gameinprogress = false) (ht : s.tempStart = true) :
    (exec step s a).gameinprogress = false ∧ (exec step s a).tempStart = true := by
  induction a generalizing s with
  | nil => exact ⟨hg, ht⟩
  | cons e a ih =>
    have ha' : ∀ p, .master false p ∉ a := fun p hp => ha p (List.mem_cons_of_mem e hp)
    cases e with
    | frame => exact ih ha' _ (by simpa [step] using hg) (by simpa [step] using ht)
    | master r p =>
      cases r with
      | false => exact absurd List.mem_cons_self (ha p)
      | true => exact ih ha' _ rfl ht

/-- A pending press and a key that comes up first start a game nobody asked for. -/
theorem not_cancels {s : St} {press : Bool} {cont : List Ev} (ht : s.tempStart = true)
    (hf : ReleaseFirst (masterClk true press s) cont) : ¬ CancelsPending s press cont := by
  obtain ⟨a, b, rfl, ha, hd⟩ := hf
  intro h
  have hrun : (exec step (masterClk true press s) (a ++ [.master false false])).gameinprogress =
      true := by
    obtain ⟨-, ht'⟩ := pending_kept a ha (masterClk true press s) rfl ht
    rw [exec_snoc]
    generalize exec step (masterClk true press s) a = s₁ at hd ht' ⊢
    show (masterClk false false s₁).gameinprogress = true
    rw [masterClk_release, ht']
    simp [hd]
  obtain ⟨c, d, he, hmem⟩ := h (a ++ [.master false false]) (by simp) hrun
  -- the press would have to be among `a`
  rcases mem_snoc_cases he with ⟨-, hx, -⟩ | ⟨d', -, rfl⟩
  · cases hx
  · exact ha true (by simp)

theorem cancels_of {s : St} {press : Bool} {cont : List Ev}
    (hn : s.tempStart = true → ¬ ReleaseFirst (masterClk true press s) cont) :
    CancelsPending s press cont := by
  intro q hq hg
  refine (exec_hist_within (I := Inv s.tempStart) ⟨?_, ?_⟩ ?_ q hq).running hg
  · intro h; simp at h
  · intro h; exact .inr ⟨h, by simp⟩
  · intro h e hp hI
    refine inv_snoc hI fun he hpend hnone => ?_
    by_contra hd
    subst he
    obtain ⟨b, rfl⟩ := hp
    exact hn hpend ⟨h, b, by simp, hnone, hd⟩

/-- **Exactly when** a reset cancels everything pending. -/
theorem cancels_iff (s : St) (press : Bool) (cont : List Ev) :
    CancelsPending s press cont ↔
      ¬ (s.tempStart = true ∧ ReleaseFirst (masterClk true press s) cont) := by
  constructor
  · intro h hc; exact not_cancels hc.1 hc.2 h
  · intro hn; exact cancels_of fun ht hf => hn ⟨ht, hf⟩

/-- So a reset is safe whatever follows exactly when no press is pending. -/
theorem cancels_all_iff (s : St) (press : Bool) :
    (∀ cont, CancelsPending s press cont) ↔ s.tempStart = false := by
  constructor
  · intro h
    by_contra ht
    refine not_cancels (by simpa using ht) ⟨[.frame], [], rfl, by simp, ?_⟩
      (h [.frame, .master false false])
    simp [step, frameClk, lastTick]
  · intro ht cont
    exact cancels_of fun h => by rw [ht] at h; simp at h

/-- **Counterexample**: the key goes down, the reset comes and goes, the key
comes up. -/
theorem pending_start : ¬ ∀ es press cont, CancelsPending (run es) press cont := by
  intro h
  have hs := (cancels_all_iff (run [.master false true]) false).mp (h [.master false true] false)
  exact absurd hs (by decide)

end SonicCraft.Bugs.PendingStart
