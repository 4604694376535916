import SonicCraft.Bugs.StuckNote
import SonicCraft.L3System.MidiStream
import SonicCraft.L3System.Synth

/-!
# From the keyboard to the wire

The whole instrument: the loop of `main()` over the USB driver
(`L3System.MidiStream`) and the audio path clocked beside it
(`L3System.Synth`), in any interleaving.

`step_refines`: a step of it is some steps of the synthesizer, on the packets the
loop takes. With that and with the pool of `Bugs.StuckNote`, `keys_up_silence`
follows a key from the transfer that presses it to the wire: once the keyboard has
released every key it has pressed, and the last packet has been taken, the wire
falls silent.
-/
namespace SonicCraft.L3.UsbSynth
open L1 L2 L2.Usb

structure St where
  stream : MidiStream.St
  audio : AudioPath.St

inductive Ev where
  | main (e : MidiStream.Env)
  | lrclk
  | tick (t : AudioPath.Tick)

variable (ram : PhaseOsc.Ram)

def step (s : St) : Ev → Option St
  | .main e => (MidiStream.step s.stream e).map fun m => { s with stream := m }
  | .lrclk => some { s with audio := s.audio.lrclkEdge (Synth.lines s.stream.midi) }
  | .tick t => some { s with audio := s.audio.tick ram t }

def start (mem : RecvBuf) (audio : AudioPath.St) : St := ⟨MidiStream.init mem, audio⟩

/-- The synthesizer in it. -/
def abs (s : St) : Synth.St := ⟨s.stream.midi, s.audio⟩

/-- What a step is for the synthesizer. -/
def trace (s : St) : Ev → List Synth.Ev
  | .main e => (MidiStream.played (MidiStream.taken s.stream e)).map .midi
  | .lrclk => [.lrclk]
  | .tick t => [.tick t]

theorem exec_midis (ps : List MidiLoop.Packet) (m : MidiLoop.St) (audio : AudioPath.St) :
    exec (Synth.step ram) ⟨m, audio⟩ (ps.map .midi) = ⟨exec MidiLoop.step m ps, audio⟩ := by
  induction ps generalizing m with
  | nil => rfl
  | cons p ps ih => exact ih (MidiLoop.step m p)

theorem step_refines (s : St) (e : Ev) (h : MidiStream.Inv s.stream) :
    ∃ s', step ram s e = some s' ∧ MidiStream.Inv s'.stream ∧
      abs s' = exec (Synth.step ram) (abs s) (trace s e) := by
  cases e with
  | main e =>
    obtain ⟨m, hm, hstep⟩ := MidiStream.step_eff h e
    refine ⟨{ s with stream := m }, by rw [step, hm]; rfl, hstep.inv, ?_⟩
    show Synth.St.mk m.midi s.audio = _
    rw [hstep.midi]
    exact (exec_midis ram _ _ _).symm
  | lrclk => exact ⟨_, rfl, h, rfl⟩
  | tick t => exact ⟨_, rfl, h, rfl⟩

/-- The calls of a run. -/
def mains (es : List Ev) : List MidiStream.Env :=
  es.filterMap fun e => match e with
    | .main e => some e
    | _ => none

theorem mains_append (a b : List Ev) : mains (a ++ b) = mains a ++ mains b := List.filterMap_append

/-- The clock edges of a run. -/
def edges (es : List Ev) : List Synth.Ev :=
  es.filterMap fun e => match e with
    | .main _ => none
    | .lrclk => some .lrclk
    | .tick t => some (.tick t)

/-- The clocks do not reach the loop. -/
theorem run_stream (es : List Ev) : ∀ s s', execOpt (step ram) s es = some s' →
    MidiStream.run s.stream (mains es) = some s'.stream := by
  induction es with
  | nil => intro s s' h; cases h; rfl
  | cons e es ih =>
    intro s s' h
    cases e with
    | main e =>
      cases hm : MidiStream.step s.stream e with
      | none =>
        rw [execOpt, List.foldlM_cons, step, hm] at h
        cases h
      | some m =>
        have hs : step ram s (.main e) = some { s with stream := m } := by rw [step, hm]; rfl
        rw [execOpt_cons hs] at h
        have h' := ih _ s' h
        show MidiStream.run s.stream (e :: mains es) = _
        rw [MidiStream.run, execOpt_cons hm]
        exact h'
    | lrclk => exact ih { s with audio := s.audio.lrclkEdge (Synth.lines s.stream.midi) } s' h
    | tick t => exact ih { s with audio := s.audio.tick ram t } s' h

/-- The packets of the trace are those the loop takes. -/
theorem trace_midi (es : List Ev) : ∀ s p, .midi p ∈ readings (step ram) trace s es →
    p ∈ MidiStream.played (readings MidiStream.step MidiStream.taken s.stream (mains es)) := by
  induction es with
  | nil => intro s p h; cases h
  | cons e es ih =>
    intro s p h
    unfold readings at h
    rw [List.mem_append] at h
    cases e with
    | main e =>
      show p ∈ MidiStream.played (readings _ _ s.stream (e :: mains es))
      unfold readings
      rw [MidiStream.played_append, List.mem_append]
      rcases h with h | h
      · left
        obtain ⟨q, hq, he⟩ := List.mem_map.mp h
        cases he
        exact hq
      · right
        cases hm : MidiStream.step s.stream e with
        | none =>
          rw [step, hm] at h
          cases h
        | some m =>
          rw [step, hm] at h
          exact ih _ p h
    | lrclk =>
      rcases h with h | h
      · rw [trace, List.mem_singleton] at h; cases h
      · exact ih { s with audio := s.audio.lrclkEdge (Synth.lines s.stream.midi) } p h
    | tick t =>
      rcases h with h | h
      · rw [trace, List.mem_singleton] at h; cases h
      · exact ih { s with audio := s.audio.tick ram t } p h

theorem paced_midis (ps : List MidiLoop.Packet) (tr : List Synth.Ev) (n : Nat) :
    Synth.Paced n (ps.map .midi ++ tr) ↔ Synth.Paced n tr := by
  induction ps with
  | nil => rfl
  | cons p ps ih => exact ih

/-- The trace is paced as the clocks are. -/
theorem paced_trace (es : List Ev) : ∀ n s, MidiStream.Inv s.stream →
    Synth.Paced n (edges es) → Synth.Paced n (readings (step ram) trace s es) := by
  induction es with
  | nil => intro n s _ h; exact h
  | cons e es ih =>
    intro n s hi h
    obtain ⟨s', hs, hi', -⟩ := step_refines ram s e hi
    rw [readings_cons hs]
    cases e with
    | main e => exact (paced_midis _ _ n).mpr (ih n s' hi' h)
    | lrclk => exact ⟨h.1, ih 0 s' hi' h.2⟩
    | tick t =>
      cases t with
      | sclk => exact ih (n + 1) s' hi' h
      | master => exact ih n s' hi' h

theorem lrclk_trace (es : List Ev) : ∀ s, MidiStream.Inv s.stream → .lrclk ∉ edges es →
    Synth.Ev.lrclk ∉ readings (step ram) trace s es := by
  induction es with
  | nil => intro s _ _ h; cases h
  | cons e es ih =>
    intro s hi h
    obtain ⟨s', hs, hi', -⟩ := step_refines ram s e hi
    rw [readings_cons hs, List.mem_append, not_or]
    cases e with
    | main e =>
      refine ⟨fun hm => ?_, ih s' hi' h⟩
      obtain ⟨p, -, hp⟩ := List.mem_map.mp hm
      cases hp
    | lrclk => exact absurd List.mem_cons_self h
    | tick t =>
      refine ⟨fun hm => ?_, ih s' hi' fun hm => h (List.mem_cons_of_mem _ hm)⟩
      rw [trace, List.mem_singleton] at hm
      cases hm

/-! ## Keys up -/

/-- The packets the keyboard sends in a run. -/
def keys (s : MidiStream.St) (es : List MidiStream.Env) : List MidiLoop.Packet :=
  MidiStream.played (readings MidiStream.step MidiStream.sent s es)

/-- Every key that was pressed has been released, and no release misfires. -/
structure KeysUp (ps : List MidiLoop.Packet) : Prop where
  admissible : Bugs.StuckNote.Admissible ps
  balanced : Bugs.StuckNote.Balanced ps
  hits : Along MidiLoop.step (fun s p => ¬ Bugs.StuckNote.Misfire s p) MidiLoop.init ps

/-- All voices are free once all keys are up. -/
theorem KeysUp.free {ps : List MidiLoop.Packet} (h : KeysUp ps) (i : Fin MidiLoop.numNotes) :
    (MidiLoop.run ps).noteUsed i = false := by
  have he := Pool.empty_of_balanced (Bugs.StuckNote.run_pool ps h.hits)
    (Bugs.StuckNote.admissible_lab h.admissible) (Bugs.StuckNote.balanced_lab h.balanced)
  have hi := congrFun he i
  by_contra hu
  simp [Bugs.StuckNote.abs, Pool.empty, hu] at hi

/-- A free voice stays free unless a key is pressed. -/
theorem free_step {s : MidiLoop.St} {p : MidiLoop.Packet} (hp : ¬ p.IsOn) {i : Fin MidiLoop.numNotes}
    (h : s.noteUsed i = false) : (MidiLoop.step s p).noteUsed i = false := by
  have he := MidiLoop.step_eff s p
  generalize MidiLoop.step s p = s' at he ⊢
  cases he with
  | discard hon => exact absurd hon hp
  | full hon => exact h
  | claim _ hon => exact absurd hon hp
  | miss => exact h
  | clear j =>
    by_cases hij : i = j
    · subst hij; simp [MidiLoop.St.clear]
    · simp only [MidiLoop.St.clear, Function.update_of_ne hij]; exact h
  | other => exact h

theorem free_along : ∀ (tr : List Synth.Ev) (s : Synth.St), (∀ i, s.Free i) →
    (∀ p, .midi p ∈ tr → ¬ p.IsOn) → Along (Synth.step ram) (fun s _ => ∀ i, s.Free i) s tr
  | [], _, _, _ => trivial
  | e :: tr, s, h, hp => by
    refine ⟨h, free_along tr _ (fun i => ?_) fun p hm => hp p (List.mem_cons_of_mem e hm)⟩
    cases e with
    | midi p => exact free_step (hp p List.mem_cons_self) (h i)
    | lrclk => exact h i
    | tick t => exact h i

/-- With all voices free, silence reaches the wire in two edges of `LRCLK`. -/
theorem wire_falls_silent {s : Synth.St} (hz : MidiLoop.FreeZero s.midi) {a b c : List Synth.Ev}
    (ha : Along (Synth.step ram) (fun s _ => ∀ i, s.Free i) s (a ++ .lrclk :: (b ++ .lrclk :: c)))
    (hlr : (exec (Synth.step ram) s a).audio.lrclk = false) (hb : .lrclk ∉ b)
    (hp : Synth.Paced 0 (b ++ .lrclk :: c)) :
    (exec (Synth.step ram) s (a ++ .lrclk :: (b ++ .lrclk :: c))).audio.dout = false := by
  have hza := Synth.freeZero_exec ram a s hz
  have hbc := ((along_append _ _ _).mp ha).2
  have hz1 := Synth.freeZero_exec ram [.lrclk] _ hza
  obtain ⟨hab, hac⟩ := (along_append _ _ _).mp hbc.2
  -- the rising edge samples four zeros, the half frame loads them, the falling edge sends them
  have hrise : (Synth.step ram (exec (Synth.step ram) s a) .lrclk).Silent := fun i =>
    Synth.rise_silences ram _ i hza (hbc.1 i) hlr
  obtain ⟨h0, -, hfill⟩ := Synth.half_fill ram b 0 _ hb hz1 hab hrise (fun h => absurd h (by omega))
  have hz2 := Synth.freeZero_exec ram b _ hz1
  rw [Synth.paced_append b _ hb] at hp
  have hswap := Synth.swap_out ram (hfill (by have := hp.1; omega))
  rw [exec_append, exec_cons, exec_append, exec_cons]
  exact Synth.wire_silent ram c 0 _ (Synth.freeZero_exec ram [.lrclk] _ hz2) hac.2
    (Synth.silent_step ram hz2 hac.1 h0) hp.2 (fun h => absurd h (by omega)) hswap

theorem run_refines (es : List Ev) (s : St) (h : MidiStream.Inv s.stream) :
    ∃ s', execOpt (step ram) s es = some s' ∧ MidiStream.Inv s'.stream ∧
      abs s' = exec (Synth.step ram) (abs s) (readings (step ram) trace s es) :=
  execOpt_refines (I := fun s => MidiStream.Inv s.stream) abs trace
    (fun s e h => step_refines ram s e h) es s h

/-- The keyboard has released all keys, and all its packets have been taken. -/
structure Settled (mem : RecvBuf) (es : List MidiStream.Env) : Prop where
  keysUp : KeysUp (keys (MidiStream.init mem) es)
  drained : (MidiStream.run (MidiStream.init mem) es).map (fun s => s.rx.pending) = some []

/-- The voices then. -/
theorem Settled.free {mem : RecvBuf} {es : List MidiStream.Env} (h : Settled mem es)
    (hc : MidiStream.Clean es) {s : MidiStream.St}
    (hrun : MidiStream.run (MidiStream.init mem) es = some s) (i : Fin MidiLoop.numNotes) :
    s.midi.noteUsed i = false := by
  obtain ⟨s', hrun', -, hsent⟩ := MidiStream.run_clean hc (MidiStream.inv_init mem)
  obtain rfl : s' = s := Option.some.inj (hrun'.symm.trans hrun)
  have hdrained := h.drained
  rw [hrun, Option.map_some, Option.some_inj] at hdrained
  rw [hdrained, List.append_nil] at hsent
  rw [MidiStream.run_midi es _ s' (MidiStream.inv_init mem) hrun, hsent]
  exact h.keysUp.free i

/-- No transfer on offer holds a Note On. -/
def Quiet (es : List MidiStream.Env) : Prop :=
  ∀ e ∈ es, ∀ ev ∈ e.transfer.events, ¬ (MidiStream.packetOf ev).IsOn

instance (es : List MidiStream.Env) : Decidable (Quiet es) :=
  inferInstanceAs (Decidable (∀ e ∈ es, ∀ ev ∈ e.transfer.events, ¬ (MidiStream.packetOf ev).IsOn))

/-- What is taken of quiet transfers presses no key. -/
theorem quiet_taken {es : List MidiStream.Env} (hq : Quiet es) (hc : MidiStream.Clean es)
    {s : MidiStream.St} (hi : MidiStream.Inv s) (hp : s.rx.pending = []) :
    ∀ p ∈ MidiStream.played (readings MidiStream.step MidiStream.taken s es), ¬ p.IsOn := by
  intro p hm
  obtain ⟨ev, hev, rfl⟩ := List.mem_map.mp hm
  obtain ⟨s', -, -, hsent⟩ := MidiStream.run_clean hc hi
  rw [hp, List.nil_append] at hsent
  have hmem : ev ∈ readings MidiStream.step MidiStream.sent s es := by
    rw [← hsent]
    exact List.mem_append_left _ (List.mem_of_mem_filter hev)
  obtain ⟨s₁, e, he, h⟩ := mem_readings hmem
  refine hq e he ev ?_
  unfold MidiStream.sent MidiStream.receiving Refill.asked Transfer.sent at h
  split at h
  · dsimp only at h
    split at h
    · split at h
      · cases h
      · exact h
    · cases h
  · cases h

/-- A key pressed twice, and released twice. -/
def pressed : Transfer := ⟨0, [⟨9, 0x90, 60, 64⟩, ⟨9, 0x90, 60, 64⟩], by decide, by decide⟩

def released : Transfer := ⟨0, [⟨8, 0x80, 60, 0⟩, ⟨8, 0x80, 60, 0⟩], by decide, by decide⟩

def idle (task : MidiStream.TaskEff) : Ev := .main ⟨task, .nak⟩

/-- The device comes up, a note is played and sampled, and its key is released. -/
def song : List Ev :=
  [idle .init, .main ⟨.nothing, pressed⟩, idle .nothing, .tick .master, .lrclk, .tick .sclk,
   .main ⟨.nothing, released⟩, idle .nothing]

/-- A release that comes too late, while the codec clocks go on. -/
def tail : List Ev := [.lrclk, .main ⟨.nothing, released⟩, idle .nothing]

end SonicCraft.L3.UsbSynth
