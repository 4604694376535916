import SonicCraft.L1Rtl.RhythmGame

/-!
# How long a game lasts

`deltatime` is `rhythm_game`'s only clock: a `Frame_Clk` edge counts it up during
a game and stops at its last value, 8191, and the next `Master_Clk` edge that
finds it there ends the game (Modules/rhythmgame.sv:36-39,45-50). The end
condition is the last assignment of its process, so a start key that is pressed
or released at the same edge does not keep the game alive.

`on_time`: a frame edge never wraps the counter, and from any moment of a game,
without a reset, the game lasts up to the frame edge that takes `deltatime` to
8191 and ends at the first `Master_Clk` edge after it, whatever `Press_Start` does
and however the two clocks interleave.
-/
namespace SonicCraft.L1.RhythmGame

/-- The edge does not see `Game_Reset`. -/
def Ev.NoReset : Ev → Prop
  | .master gameReset _ => gameReset = false
  | .frame => True

instance : DecidablePred Ev.NoReset
  | .master gameReset _ => inferInstanceAs (Decidable (gameReset = false))
  | .frame => instDecidableTrue

/-- `Frame_Clk` edges of a continuation. -/
def frames (c : List Ev) : Nat := c.count .frame

theorem frames_frame (c : List Ev) : frames (c ++ [.frame]) = frames c + 1 := by
  simp [frames]

theorem frames_master (c : List Ev) (r p : Bool) : frames (c ++ [.master r p]) = frames c := by
  simp [frames]

/-- `c` ends with its `m`-th frame edge (for `m = 0`: has not begun). -/
def EndsAt (m : Nat) (c : List Ev) : Prop := frames c = m ∧ (c = [] ∨ ∃ a, c = a ++ [.frame])

/-- `c` is over before the `m`-th frame edge or with it. -/
def Until (m : Nat) (c : List Ev) : Prop := frames c < m ∨ EndsAt m c

theorem Until.of_frame {m : Nat} {c : List Ev} (h : Until m (c ++ [.frame])) : frames c < m := by
  rcases h with h | ⟨h, -⟩
  · rw [frames_frame] at h; omega
  · rw [frames_frame] at h; omega

/-- A `Master_Clk` edge is neither the last frame edge nor after it. -/
theorem Until.of_master {m : Nat} {c : List Ev} {r p : Bool} (h : Until m (c ++ [.master r p])) :
    frames c < m := by
  rcases h with h | ⟨-, he | ⟨a, he⟩⟩
  · rwa [frames_master] at h
  · simp at he
  · have := (List.append_inj' he rfl).2
    simp at this

/-! ## One edge -/

/-- What a frame edge can do to `deltatime`. -/
theorem frame_moves (s : St) :
    ((frameClk s).deltatime.toNat = s.deltatime.toNat + 1 ∧ s.deltatime.toNat < 8191) ∨
      (frameClk s).deltatime = s.deltatime ∨ (frameClk s).deltatime = 0 := by
  have hd := s.deltatime.isLt
  cases hg : s.gameinprogress with
  | false => exact .inr (.inr (frameClk_idle s hg))
  | true =>
    have h := frameClk_running s hg
    by_cases hl : s.deltatime.toNat < 8191
    · exact .inl ⟨by omega, hl⟩
    · exact .inr (.inl (BitVec.eq_of_toNat_eq (by omega)))

/-- The counter is cleared between games only. -/
theorem frame_clears (s : St) (h : (frameClk s).deltatime = 0) : s.gameinprogress = false := by
  by_contra hg
  have hrun := frameClk_running s (by simpa using hg)
  rw [h, show (0 : BitVec 13).toNat = 0 from rfl] at hrun
  omega

theorem ne_lastTick {d : BitVec 13} (h : d.toNat < 8191) : (d == lastTick) = false := by
  rw [beq_eq_false_iff_ne]
  rintro rfl
  exact absurd h (by decide)

/-- Before the last tick no `Master_Clk` edge without reset stops a game. -/
theorem master_keeps (s : St) (p : Bool) (hg : s.gameinprogress = true)
    (hd : s.deltatime.toNat < 8191) : (masterClk false p s).gameinprogress = true := by
  have hne := ne_lastTick hd
  cases p with
  | true => rw [masterClk_press]; simp [hg, hne]
  | false => rw [masterClk_release]; simp [hg, hne]

/-- At the last tick every `Master_Clk` edge does. -/
theorem master_ends (s : St) (r p : Bool) (hd : s.deltatime = lastTick) :
    (masterClk r p s).gameinprogress = false := by
  cases r with
  | true => rfl
  | false =>
    cases p with
    | true => rw [masterClk_press]; simp [hd]
    | false => rw [masterClk_release]; simp [hd]

/-! ## Runs -/

/-- A game goes on, and counts, up to the frame edge that brings the last tick. -/
theorem running_until (s : St) (hg : s.gameinprogress = true) (c : List Ev)
    (hc : ∀ e ∈ c, e.NoReset) (hu : Until (8191 - s.deltatime.toNat) c) :
    (exec step s c).gameinprogress = true ∧
      (exec step s c).deltatime.toNat = s.deltatime.toNat + frames c := by
  induction c using List.reverseRecOn with
  | nil => exact ⟨hg, rfl⟩
  | append_singleton c e ih =>
    have hc' : ∀ e ∈ c, e.NoReset := fun a ha => hc a (by simp [ha])
    rw [exec_snoc]
    cases e with
    | frame =>
      have hlt := hu.of_frame
      obtain ⟨h1, h2⟩ := ih hc' (.inl hlt)
      have hrun := frameClk_running _ h1
      rw [frames_frame]
      exact ⟨(frameClk_gameinprogress _).trans h1, by simp only [step]; omega⟩
    | master r p =>
      obtain rfl : r = false := hc (.master r p) (by simp)
      have hlt := hu.of_master
      obtain ⟨h1, h2⟩ := ih hc' (.inl hlt)
      rw [frames_master]
      simp only [step, masterClk_deltatime]
      exact ⟨master_keeps _ p h1 (by omega), h2⟩

/-- Frame edges alone keep a game running and count up to the last tick. -/
theorem running_frames (n : Nat) (s : St) (hg : s.gameinprogress = true) :
    (exec step s (List.replicate n .frame)).gameinprogress = true ∧
      (exec step s (List.replicate n .frame)).deltatime.toNat =
        min (s.deltatime.toNat + n) 8191 := by
  have hd := s.deltatime.isLt
  induction n with
  | zero => exact ⟨hg, by simp only [List.replicate_zero, exec_nil]; omega⟩
  | succ n ih =>
    obtain ⟨h1, h2⟩ := ih
    have hrun := frameClk_running _ h1
    rw [List.replicate_succ', exec_snoc]
    exact ⟨(frameClk_gameinprogress _).trans h1, by simp only [step]; omega⟩

/-- The first `Master_Clk` edge after that frame edge ends the game. -/
theorem ended_after (s : St) (hg : s.gameinprogress = true) (c : List Ev)
    (hc : ∀ e ∈ c, e.NoReset) (he : EndsAt (8191 - s.deltatime.toNat) c) (j : Nat) (p : Bool) :
    (exec step s (c ++ List.replicate j .frame ++ [.master false p])).gameinprogress = false := by
  have hd := s.deltatime.isLt
  obtain ⟨h1, h2⟩ := running_until s hg c hc (.inr he)
  obtain ⟨-, h3⟩ := running_frames j _ h1
  rw [exec_snoc, exec_append]
  refine master_ends _ false p (BitVec.eq_of_toNat_eq ?_)
  rw [h3, h2, he.1, lastTick_toNat]
  omega

/-- What holds in a state, whatever edges follow. -/
structure OnTime (s : St) : Prop where
  moves : ((frameClk s).deltatime.toNat = s.deltatime.toNat + 1 ∧ s.deltatime.toNat < 8191) ∨
    (frameClk s).deltatime = s.deltatime ∨ (frameClk s).deltatime = 0
  clears : (frameClk s).deltatime = 0 → s.gameinprogress = false
  runs : s.gameinprogress = true → ∀ c, (∀ e ∈ c, e.NoReset) →
    Until (8191 - s.deltatime.toNat) c → (exec step s c).gameinprogress = true
  ends : s.gameinprogress = true → ∀ c, (∀ e ∈ c, e.NoReset) →
    EndsAt (8191 - s.deltatime.toNat) c → ∀ j p,
    (exec step s (c ++ List.replicate j .frame ++ [.master false p])).gameinprogress = false

/-- **Every game ends on time**, in every reachable state and for every
interleaving of edges from there on. -/
theorem on_time (es : List Ev) : OnTime (run es) where
  moves := frame_moves _
  clears := frame_clears _
  runs hg c hc hu := (running_until _ hg c hc hu).1
  ends hg c hc he j p := ended_after _ hg c hc he j p

theorem frames_replicate (n : Nat) : frames (List.replicate n .frame) = n := by
  simp [frames]

theorem endsAt_replicate (n : Nat) : EndsAt n (List.replicate n .frame) := by
  refine ⟨frames_replicate n, ?_⟩
  cases n with
  | zero => exact .inl rfl
  | succ n => exact .inr ⟨List.replicate n .frame, List.replicate_succ'⟩

/-- A whole game with the start key held at its end: it runs up to the last tick, and
the edge after that ends it. -/
theorem on_time_example :
    (exec step (run [.master false true, .master false false])
      (List.replicate 8191 .frame)).gameinprogress = true ∧
    (exec step (run [.master false true, .master false false])
      (List.replicate 8191 .frame ++ List.replicate 0 .frame ++ [.master false true])).gameinprogress =
        false := by
  have hgame := on_time [.master false true, .master false false]
  have hreset : ∀ e ∈ List.replicate 8191 Ev.frame, e.NoReset := fun e he => by
    rw [List.eq_of_mem_replicate he]; trivial
  exact ⟨hgame.runs rfl _ hreset (.inr (endsAt_replicate 8191)),
    hgame.ends rfl _ hreset (endsAt_replicate 8191) 0 true⟩

end SonicCraft.L1.RhythmGame
