import SonicCraft.L1Rtl.KeyTables
import SonicCraft.L2Software.MidiLoop
import SonicCraft.L3System.AudioPath

/-!
# The synthesizer: the MIDI loop drives the audio path

The four `keyvol` registers the software writes are the oscillators' inputs
(Modules/synth_toplevel.sv:219-253): the pitch byte goes through the key tables,
the low seven bits are the velocity. A run is any interleaving of handled packets
with edges of the three audio clocks.

`silence`: a voice that is free and stays free puts out nothing from the next
rising edge of `LRCLK` on, whatever its phase and frequency registers hold; when
all four are, the wire is silent once the half frame after that is over, because
by then both shift registers have been loaded with the silent mix.
-/
namespace SonicCraft.L3.Synth
open L1 L2 AudioPath

structure St where
  midi : MidiLoop.St
  audio : AudioPath.St

inductive Ev where
  | midi (p : MidiLoop.Packet)
  | lrclk
  | tick (t : Tick)
  deriving DecidableEq

/-- `MIDIKey0..3`, split. mirrors Modules/synth_toplevel.sv:231-253 -/
def keyLines (keyvol : Fin 4 → BitVec 16) : Lines where
  freqReg i := KeyTables.frequencyMapper (KeyTables.midiKeyConverter ((keyvol i).extractLsb' 8 8))
  velocity i := (keyvol i).extractLsb' 0 7

def lines (m : MidiLoop.St) : Lines := keyLines m.noteVol

def step (ram : PhaseOsc.Ram) (s : St) : Ev → St
  | .midi p => { s with midi := MidiLoop.step s.midi p }
  | .lrclk => { s with audio := s.audio.lrclkEdge (lines s.midi) }
  | .tick t => { s with audio := s.audio.tick ram t }

/-- Power-up: the software's initial voices, any contents of the audio registers. -/
def start (audio : AudioPath.St) : St := ⟨MidiLoop.init, audio⟩

/-- Voice `i` is free. -/
def St.Free (i : Fin 4) (s : St) : Prop := s.midi.noteUsed i = false

instance (i : Fin 4) (s : St) : Decidable (s.Free i) := inferInstanceAs (Decidable (_ = _))

/-- Every half frame that ends has at least 32 `SCLK` edges; `n` of the current
one are over. -/
def Paced : Nat → List Ev → Prop
  | _, [] => True
  | n, .lrclk :: es => 32 ≤ n ∧ Paced 0 es
  | n, .tick .sclk :: es => Paced (n + 1) es
  | n, .tick .master :: es => Paced n es
  | n, .midi _ :: es => Paced n es

variable (ram : PhaseOsc.Ram)

/-! ## Voices -/

/-- The software keeps free voices' registers at zero, in every reachable state. -/
theorem freeZero_exec (es : List Ev) (s : St) (h : MidiLoop.FreeZero s.midi) :
    MidiLoop.FreeZero (exec (step ram) s es).midi := by
  refine exec_inv (I := fun s => MidiLoop.FreeZero s.midi) (fun s e hs => ?_) es s h
  cases e with
  | midi p => exact MidiLoop.freeZero_step s.midi p hs
  | lrclk => exact hs
  | tick t => exact hs

/-- A rising edge samples velocity 0 for a free voice. -/
theorem rise_silences (s : St) (i : Fin 4) (hz : MidiLoop.FreeZero s.midi) (hf : s.Free i)
    (hlr : s.audio.lrclk = false) : ((step ram s .lrclk).audio.osc i).wtout = 0 := by
  have hv : (lines s.midi).velocity i = 0 := by
    simp only [lines, keyLines, hz i hf]; rfl
  show ((s.audio.lrclkEdge (lines s.midi)).osc i).wtout = 0
  simp only [St.lrclkEdge, hlr, Bool.false_eq_true, if_false, sample]
  rw [hv]; exact PhaseOsc.fsClk_wtout_zero _ _

theorem step_silent (s : St) (e : Ev) (i : Fin 4) (hz : MidiLoop.FreeZero s.midi) (hf : s.Free i)
    (h0 : (s.audio.osc i).wtout = 0) : ((step ram s e).audio.osc i).wtout = 0 := by
  cases e with
  | midi p => exact h0
  | tick t => exact (tick_wtout ram s.audio t i).trans h0
  | lrclk =>
    cases hlr : s.audio.lrclk with
    | false => exact rise_silences ram s i hz hf hlr
    | true =>
      show ((s.audio.lrclkEdge (lines s.midi)).osc i).wtout = 0
      simp only [St.lrclkEdge, hlr, if_true]
      exact h0

/-- A silent voice stays silent while it is free. -/
theorem exec_silent (i : Fin 4) : ∀ (es : List Ev) (s : St), MidiLoop.FreeZero s.midi →
    Along (step ram) (fun s _ => s.Free i) s es → (s.audio.osc i).wtout = 0 →
    ((exec (step ram) s es).audio.osc i).wtout = 0
  | [], _, _, _, h0 => h0
  | e :: es, s, hz, ha, h0 =>
    exec_silent i es (step ram s e) (freeZero_exec ram [e] s hz) ha.2
      (step_silent ram s e i hz ha.1 h0)

/-! ## The wire -/

/-- All four voices put out nothing. -/
def St.Silent (s : St) : Prop := ∀ i, (s.audio.osc i).wtout = 0

theorem silent_mix {s : St} (h : s.Silent) : s.audio.mix = 0 := by
  show i2sDin s.audio.osc = 0
  simp only [i2sDin, h 0, h 1, h 2, h 3]
  rfl

theorem silent_step {s : St} {e : Ev} (hz : MidiLoop.FreeZero s.midi) (hf : ∀ i, s.Free i)
    (h0 : s.Silent) : (step ram s e).Silent :=
  fun i => step_silent ram s e i hz (hf i) (h0 i)

theorem paced_append (b c : List Ev) (hb : .lrclk ∉ b) (n : Nat) :
    Paced n (b ++ c) ↔ Paced (n + b.count (.tick .sclk)) c := by
  induction b generalizing n with
  | nil => rfl
  | cons e b ih =>
    have hb' : .lrclk ∉ b := fun h => hb (List.mem_cons_of_mem e h)
    cases e with
    | lrclk => exact absurd List.mem_cons_self hb
    | midi p => rw [List.count_cons_of_ne (by simp)]; exact ih hb' n
    | tick t =>
      cases t with
      | master => rw [List.count_cons_of_ne (by simp)]; exact ih hb' n
      | sclk =>
        rw [List.count_cons_self, ← Nat.add_assoc, Nat.add_right_comm]
        exact ih hb' (n + 1)

/-- An `SCLK` edge loads silence. -/
theorem sclk_silent {s : St} (h : s.Silent) :
    (step ram s (.tick .sclk)).audio.i2s.fill s.audio.lrclk = 0 :=
  (sclk_fill ram s.audio).trans (silent_mix h)

/-- Within a half, `SCLK` edges load the silent mix. -/
theorem half_fill : ∀ (b : List Ev) (n : Nat) (s : St), .lrclk ∉ b → MidiLoop.FreeZero s.midi →
    Along (step ram) (fun s _ => ∀ i, s.Free i) s b → s.Silent →
    (0 < n → s.audio.i2s.fill s.audio.lrclk = 0) →
    let s' := exec (step ram) s b
    s'.Silent ∧ s'.audio.lrclk = s.audio.lrclk ∧
      (0 < n + b.count (.tick .sclk) → s'.audio.i2s.fill s'.audio.lrclk = 0) := by
  intro b
  induction b with
  | nil => intro n s _ _ _ h0 hn; exact ⟨h0, rfl, hn⟩
  | cons e b ih =>
    intro n s hb hz ha h0 hn
    have hb' : .lrclk ∉ b := fun h => hb (List.mem_cons_of_mem e h)
    have hz' := freeZero_exec ram [e] s hz
    have h0' := silent_step ram (e := e) hz ha.1 h0
    cases e with
    | lrclk => exact absurd List.mem_cons_self hb
    | midi p =>
      rw [List.count_cons_of_ne (by simp)]
      exact ih n _ hb' hz' ha.2 h0' hn
    | tick t =>
      cases t with
      | master =>
        rw [List.count_cons_of_ne (by simp)]
        exact ih n _ hb' hz' ha.2 h0' hn
      | sclk =>
        rw [List.count_cons_self, ← Nat.add_assoc, Nat.add_right_comm]
        exact ih (n + 1) _ hb' hz' ha.2 h0' fun _ => sclk_silent ram h0

/-- An `LRCLK` edge turns the loaded register to the wire. -/
theorem swap_out {s : St} (h : s.audio.i2s.fill s.audio.lrclk = 0) :
    (step ram s .lrclk).audio.i2s.out (step ram s .lrclk).audio.lrclk = 0 := by
  show s.audio.i2s.out (!s.audio.lrclk) = 0
  rw [I2S.out_not, h]

/-- Once the register that is shifted out is zero, the wire stays silent. -/
theorem wire_silent : ∀ (es : List Ev) (n : Nat) (s : St), MidiLoop.FreeZero s.midi →
    Along (step ram) (fun s _ => ∀ i, s.Free i) s es → s.Silent → Paced n es →
    (0 < n → s.audio.i2s.fill s.audio.lrclk = 0) → s.audio.i2s.out s.audio.lrclk = 0 →
    (exec (step ram) s es).audio.dout = false := by
  intro es
  induction es with
  | nil =>
    intro n s _ _ _ _ _ hout
    show s.audio.i2s.dout s.audio.lrclk = false
    rw [I2S.dout_eq, hout]; rfl
  | cons e es ih =>
    intro n s hz ha h0 hp hn hout
    have hz' := freeZero_exec ram [e] s hz
    have h0' := silent_step ram (e := e) hz ha.1 h0
    cases e with
    | midi p => exact ih n _ hz' ha.2 h0' hp hn hout
    | lrclk =>
      -- the registers change turns; the half that ends has loaded zero
      have hswap := swap_out ram (hn (by have := hp.1; omega))
      exact ih 0 _ hz' ha.2 h0' hp.2 (fun h => absurd h (by omega)) hswap
    | tick t =>
      cases t with
      | master => exact ih n _ hz' ha.2 h0' hp hn hout
      | sclk =>
        have hshift : (step ram s (.tick .sclk)).audio.i2s.out s.audio.lrclk = 0 := by
          refine (sclk_out ram s.audio).trans ?_
          rw [hout]; rfl
        exact ih (n + 1) _ hz' ha.2 h0' hp (fun _ => sclk_silent ram h0) hshift

/-- **Silence is reached and kept**, after any run `pre` from power-up. Voice
`i`, free from then on, puts out 0 at every moment after the next rising edge of
`LRCLK`; and with all voices free from then on, `Dout` is 0 at every moment after
the falling edge that follows. -/
theorem silence (audio : AudioPath.St) (pre : List Ev) :
    let s := exec (step ram) (start audio) pre
    (∀ i a b, Along (step ram) (fun s _ => s.Free i) s (a ++ .lrclk :: b) →
      (exec (step ram) s a).audio.lrclk = false →
      ((exec (step ram) s (a ++ .lrclk :: b)).audio.osc i).wtout = 0) ∧
    (∀ a b c, Along (step ram) (fun s _ => ∀ i, s.Free i) s (a ++ .lrclk :: (b ++ .lrclk :: c)) →
      (exec (step ram) s a).audio.lrclk = false → .lrclk ∉ b → Paced 0 (b ++ .lrclk :: c) →
      (exec (step ram) s (a ++ .lrclk :: (b ++ .lrclk :: c))).audio.dout = false) := by
  intro s
  have hz : ∀ a, MidiLoop.FreeZero (exec (step ram) s a).midi := fun a =>
    freeZero_exec ram a s (freeZero_exec ram pre _ MidiLoop.freeZero_init)
  refine ⟨fun i a b ha hlr => ?_, fun a b c ha hlr hb hp => ?_⟩
  · have hb := ((along_append _ _ _).mp ha).2
    rw [exec_append, exec_cons]
    exact exec_silent ram i b _ (freeZero_exec ram [.lrclk] _ (hz a)) hb.2
      (rise_silences ram _ i (hz a) hb.1 hlr)
  · have hbc := ((along_append _ _ _).mp ha).2
    have hrise : (step ram (exec (step ram) s a) .lrclk).Silent := fun i =>
      rise_silences ram _ i (hz a) (hbc.1 i) hlr
    have hz1 := freeZero_exec ram [.lrclk] _ (hz a)
    obtain ⟨hab, hac⟩ := (along_append _ _ _).mp hbc.2
    obtain ⟨h0, -, hfill⟩ := half_fill ram b 0 _ hb hz1 hab hrise (fun h => absurd h (by omega))
    have hz2 := freeZero_exec ram b _ hz1
    rw [paced_append b _ hb] at hp
    have hswap := swap_out ram (hfill (by have := hp.1; omega))
    rw [exec_append, exec_cons, exec_append, exec_cons]
    exact wire_silent ram c 0 _ (freeZero_exec ram [.lrclk] _ hz2) hac.2
      (silent_step ram hz2 hac.1 h0) hp.2 (fun h => absurd h (by omega)) hswap

/-- Two presses (the first is discarded), a sample at full volume, a release. -/
def played : List Ev :=
  [.midi ⟨0x90, 60, 127⟩, .midi ⟨0x90, 60, 127⟩, .tick .master, .lrclk, .tick .sclk,
   .midi ⟨0x80, 60, 0⟩]

/-- The rest of a half frame. -/
def halfFrame : List Ev := List.replicate 32 (.tick .sclk)

/-- `silence` after a note was played and released in the middle of a frame. -/
theorem silence_example :
    let s := exec (step fun _ => 0x7fff#16) (start ⟨fun _ => PhaseOsc.init 1 1, ⟨1, 1⟩, false⟩) played
    ((exec (step fun _ => 0x7fff#16) s (halfFrame ++ [.lrclk] ++ halfFrame ++ .lrclk :: [])).audio.osc
        0).wtout = 0 ∧
      (exec (step fun _ => 0x7fff#16) s (halfFrame ++ [.lrclk] ++ halfFrame ++ .lrclk ::
        (halfFrame ++ .lrclk :: [.tick .sclk]))).audio.dout = false := by
  have hs := silence (fun _ => 0x7fff#16) ⟨fun _ => PhaseOsc.init 1 1, ⟨1, 1⟩, false⟩ played
  exact ⟨hs.1 0 _ [] (by decide +kernel) (by decide +kernel),
    hs.2 _ _ [.tick .sclk] (by decide +kernel) (by decide +kernel) (by decide +kernel)
      (by simp [halfFrame, Paced])⟩

end SonicCraft.L3.Synth
