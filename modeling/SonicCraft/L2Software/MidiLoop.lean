import Mathlib.Data.Fin.Tuple.Basic
import SonicCraft.Core.LTS
import SonicCraft.L1Rtl.Pio

/-!
# The MIDI loop of `main()`

SOC/software/space_jam/main.cpp:60-123. Each packet `Midi.RecvData` returns goes
through one `switch` on the high nibble of its first byte. The voice state is
kept twice: `note_used[i]` in RAM and pitch/velocity in the memory-mapped
register behind `note_vol_array[i]` (`L1.Pio`). Note On looks for a slot in
`note_used` only, Note Off in the registers only.

`note_clocks` is written and never read and `muted` is never set, so neither
changes anything here; the loop around the switch only fetches packets.

`step_eff` says once what a packet can do; every invariant below and in the
modules built on this one is a case analysis on it.
-/
namespace SonicCraft.L2.MidiLoop
open L1

abbrev numNotes : Nat := 4

/-- `uint8_t MIDI_packet[3]`. -/
structure Packet where
  status : BitVec 8
  data1 : BitVec 8
  data2 : BitVec 8
  deriving DecidableEq, Repr

/-- `noteVol i` is the PIO register behind `note_vol_array[i]`.
mirrors SOC/software/space_jam/main.cpp:58,72-79 -/
structure St where
  noteVol : Fin numNotes → BitVec 16
  noteUsed : Fin numNotes → Bool
  firstNote : Bool

/-- mirrors SOC/software/space_jam/main.cpp:72-79 -/
def init : St := ⟨fun _ => Pio.store 0 0, fun _ => false, true⟩

/-- The search loop of Note On: the first index with `!note_used[i]`; `none` is
`available_idx == -1`.
mirrors SOC/software/space_jam/main.cpp:99-106 -/
def availableIdx (s : St) : Option (Fin numNotes) := Fin.find? fun i => !s.noteUsed i

/-- `(MIDI_packet[1] << 8) + MIDI_packet[2]`, in `int`. -/
def packed (p : Packet) : BitVec 32 := (p.data1.setWidth 32 <<< 8) + p.data2.setWidth 32

/-- mirrors SOC/software/space_jam/main.cpp:91-113 -/
def noteOn (s : St) (p : Packet) : St :=
  if s.firstNote then { s with firstNote := false }
  else match availableIdx s with
    | none => s
    | some i =>
      { s with noteUsed := Function.update s.noteUsed i true
               noteVol := Function.update s.noteVol i (Pio.store (packed p) (s.noteVol i)) }

/-- The search loop of Note Off: the first register whose high byte is the
pitch. It does not look at `note_used`.
mirrors SOC/software/space_jam/main.cpp:116-117 -/
def offIdx (s : St) (p : Packet) : Option (Fin numNotes) :=
  Fin.find? fun i => Pio.load (s.noteVol i) >>> 8 == p.data1.setWidth 32

/-- mirrors SOC/software/space_jam/main.cpp:115-123 -/
def noteOff (s : St) (p : Packet) : St :=
  match offIdx s p with
  | none => s
  | some i =>
    { s with noteVol := Function.update s.noteVol i (Pio.store 0 (s.noteVol i))
             noteUsed := Function.update s.noteUsed i false }

/-- `switch(unsigned(MIDI_packet[0] >> 4))`; no other case is compiled in.
mirrors SOC/software/space_jam/main.cpp:90-164 -/
def step (s : St) (p : Packet) : St :=
  if p.status >>> 4 = 9 then noteOn s p
  else if p.status >>> 4 = 8 then noteOff s p
  else s

/-- The voice state after a stream of packets. -/
abbrev run (es : List Packet) : St := exec step init es

def Packet.IsOn (p : Packet) : Prop := p.status >>> 4 = 9

def Packet.IsOff (p : Packet) : Prop := p.status >>> 4 = 8

instance (p : Packet) : Decidable p.IsOn := inferInstanceAs (Decidable (_ = _))

instance (p : Packet) : Decidable p.IsOff := inferInstanceAs (Decidable (_ = _))

theorem Packet.IsOff.not_on {p : Packet} (h : p.IsOff) : ¬ p.IsOn := by
  unfold IsOff at h; unfold IsOn; rw [h]; decide

/-- Data bytes are MIDI data bytes. -/
def Data7 (es : List Packet) : Prop := ∀ e ∈ es, e.data1.toNat < 128 ∧ e.data2.toNat < 128

/-! ## Register words -/

/-- The pitch byte of a register. -/
def pitch (v : BitVec 16) : BitVec 8 := v.extractLsb' 8 8

/-- The velocity byte of a register. -/
def vel (v : BitVec 16) : BitVec 8 := v.extractLsb' 0 8

/-- The word Note On stores. -/
def vol (p : Packet) : BitVec 16 := (packed p).setWidth 16

theorem pitch_toNat (v : BitVec 16) : (pitch v).toNat = v.toNat / 256 := by
  have := v.isLt
  simp only [pitch, BitVec.extractLsb'_toNat, Nat.shiftRight_eq_div_pow]
  omega

theorem vel_toNat (v : BitVec 16) : (vel v).toNat = v.toNat % 256 := by
  simp [vel, BitVec.extractLsb'_toNat]

/-- Nothing is lost when the `int` is stored in 16 bits. -/
theorem vol_toNat (p : Packet) : (vol p).toNat = p.data1.toNat * 256 + p.data2.toNat := by
  have h1 := p.data1.isLt
  have h2 := p.data2.isLt
  simp only [vol, packed, BitVec.toNat_setWidth, BitVec.toNat_add, BitVec.toNat_shiftLeft,
    Nat.shiftLeft_eq]
  omega

@[simp] theorem pitch_vol (p : Packet) : pitch (vol p) = p.data1 := by
  apply BitVec.eq_of_toNat_eq
  have h2 := p.data2.isLt
  rw [pitch_toNat, vol_toNat]; omega

@[simp] theorem vel_vol (p : Packet) : vel (vol p) = p.data2 := by
  apply BitVec.eq_of_toNat_eq
  have h2 := p.data2.isLt
  rw [vel_toNat, vol_toNat]; omega

/-- The comparison of Note Off compares the pitch byte. -/
theorem off_test (v : BitVec 16) (d : BitVec 8) :
    (Pio.load v >>> 8 == d.setWidth 32) = decide (pitch v = d) := by
  have hd := d.isLt
  have hl : (Pio.load v >>> 8).toNat = (pitch v).toNat := by
    rw [BitVec.toNat_ushiftRight, Pio.load_toNat, pitch_toNat, Nat.shiftRight_eq_div_pow]
  have hr : (d.setWidth 32).toNat = d.toNat := by
    rw [BitVec.toNat_setWidth]; omega
  rw [Bool.eq_iff_iff, beq_iff_eq, decide_eq_true_eq, ← BitVec.toNat_inj, hl, hr, BitVec.toNat_inj]

/-! ## What one packet does -/

/-- Slot `i` takes the word `v`. -/
def St.claim (s : St) (i : Fin numNotes) (v : BitVec 16) : St :=
  { s with noteUsed := Function.update s.noteUsed i true, noteVol := Function.update s.noteVol i v }

/-- Slot `i` is cleared. -/
def St.clear (s : St) (i : Fin numNotes) : St :=
  { s with noteUsed := Function.update s.noteUsed i false, noteVol := Function.update s.noteVol i 0 }

/-- The effect of a packet, case by case. -/
inductive Eff (s : St) (p : Packet) : St → Prop
  | discard (hon : p.IsOn) (hf : s.firstNote = true) : Eff s p { s with firstNote := false }
  | full (hon : p.IsOn) (hf : s.firstNote = false) (hu : ∀ i, s.noteUsed i = true) : Eff s p s
  | claim (i : Fin numNotes) (hon : p.IsOn) (hf : s.firstNote = false) (hi : s.noteUsed i = false)
      (hlt : ∀ j < i, s.noteUsed j = true) : Eff s p (s.claim i (vol p))
  | miss (hoff : p.IsOff) (hp : ∀ i, pitch (s.noteVol i) ≠ p.data1) : Eff s p s
  | clear (i : Fin numNotes) (hoff : p.IsOff) (hi : pitch (s.noteVol i) = p.data1)
      (hlt : ∀ j < i, pitch (s.noteVol j) ≠ p.data1) : Eff s p (s.clear i)
  | other (hon : ¬ p.IsOn) (hoff : ¬ p.IsOff) : Eff s p s

theorem noteOn_eff (s : St) (p : Packet) (hon : p.IsOn) : Eff s p (noteOn s p) := by
  unfold noteOn
  split
  · rename_i hf; exact .discard hon hf
  · rename_i hf
    have hf' : s.firstNote = false := by simpa using hf
    cases ha : availableIdx s with
    | none =>
      refine .full hon hf' fun i => ?_
      have := Fin.find?_eq_none_iff.mp ha i
      simpa using this
    | some i =>
      obtain ⟨h1, h2⟩ := Fin.find?_eq_some_iff.mp ha
      exact .claim i hon hf' (by simpa using h1) (fun j hj => by simpa using h2 j hj)

theorem noteOff_eff (s : St) (p : Packet) (hoff : p.IsOff) : Eff s p (noteOff s p) := by
  unfold noteOff
  cases ha : offIdx s p with
  | none =>
    refine .miss hoff fun i => ?_
    have := Fin.find?_eq_none_iff.mp ha i
    rw [off_test] at this; simpa using this
  | some i =>
    obtain ⟨h1, h2⟩ := Fin.find?_eq_some_iff.mp ha
    refine .clear i hoff ?_ fun j hj => ?_
    · rw [off_test] at h1; simpa using h1
    · have := h2 j hj
      rw [off_test] at this; simpa using this

theorem step_eff (s : St) (p : Packet) : Eff s p (step s p) := by
  unfold step
  split
  · rename_i hon; exact noteOn_eff s p hon
  · rename_i hon
    split
    · rename_i hoff; exact noteOff_eff s p hoff
    · rename_i hoff; exact .other hon hoff

/-! ## Invariants -/

/-- A free slot's register is zero, so the two copies of "free" agree. -/
def FreeZero (s : St) : Prop := ∀ i, s.noteUsed i = false → s.noteVol i = 0

theorem freeZero_init : FreeZero init := fun _ _ => rfl

theorem freeZero_step (s : St) (p : Packet) (h : FreeZero s) : FreeZero (step s p) := by
  have he := step_eff s p
  generalize step s p = s' at he ⊢
  cases he with
  | discard => exact h
  | full => exact h
  | claim i =>
    intro j hj
    by_cases hji : j = i
    · subst hji; simp [St.claim] at hj
    · simp only [St.claim, Function.update_of_ne hji] at hj ⊢; exact h j hj
  | miss => exact h
  | clear i =>
    intro j hj
    by_cases hji : j = i
    · subst hji; simp [St.clear]
    · simp only [St.clear, Function.update_of_ne hji] at hj ⊢; exact h j hj
  | other => exact h

/-- In every reachable state. -/
theorem freeZero_run (es : List Packet) : FreeZero (run es) :=
  exec_inv freeZero_step es init freeZero_init

/-- `first_note` is set exactly until the first Note On. -/
theorem firstNote_run (es : List Packet) : (run es).firstNote = true ↔ ∀ e ∈ es, ¬ e.IsOn := by
  refine exec_hist (I := fun es (s : St) => s.firstNote = true ↔ ∀ e ∈ es, ¬ e.IsOn) ?_ ?_ es
  · simp [init]
  · intro h e ih
    have he := step_eff (exec step init h) e
    generalize exec step init h = s at he ih ⊢
    generalize step s e = s' at he ⊢
    simp only [List.mem_append, List.mem_singleton, or_imp, forall_and, forall_eq, ← ih]
    cases he with
    | discard hon => simp [hon]
    | full hon hf => simp [hf]
    | claim i hon hf => simp [St.claim, hf]
    | miss hoff => simp [hoff.not_on]
    | clear i hoff => simp [St.clear, hoff.not_on]
    | other hon => simp [hon]

end SonicCraft.L2.MidiLoop
