import SonicCraft.Bugs.StuckNote
import SonicCraft.L2Software.UsbTask
import SonicCraft.L3System.MidiStream

/-!
# Unplugging a keyboard

The loop of `main()` (SOC/software/space_jam/main.cpp:81-182) with the state machine of
the bus in it: a call of `Usb.Task()` is a call of `L2Software.UsbTask`, and what it does
to the driver follows from that (`taskEff`). `L3System.MidiStream` leaves it open.

`unplugged`: the call that finds the bus at SE0 releases the driver, and drops the packets
that wait, Note Offs among them. No voice is freed, then or later: a keyboard plugged in
again frees no more voices of a pitch than it has claimed, if it releases no more presses
than have found a voice. A key that is down when its keyboard is unplugged sounds on.
-/
namespace SonicCraft.L3.MidiPlug
open L2 L2.Usb

structure St where
  usb : UsbTask.St
  stream : MidiStream.St

/-- What a call of `Usb.Task()` meets, and what the device answers to `RecvData`. -/
structure Env where
  bus : UsbTask.Env
  transfer : Transfer

/-- What a call of `Usb.Task()` does to the driver: `Release()` where no device is left,
and `Init()` where `Configuring` has found one; an `Init()` that fails ends in a
`Release()` of what is released.
mirrors SOC/software/space_jam/include/Usb.cpp:494-503,538-552 -/
def taskEff (s : UsbTask.St) (e : UsbTask.Env) : MidiStream.TaskEff :=
  let c := UsbTask.changed s e
  if c.usbTaskState = .detachedInit then .release
  else if c.bPollEnable = false ∧ (UsbTask.taskSwitch c e).bPollEnable = true then .init
  else .nothing

def St.env (s : St) (e : Env) : MidiStream.Env := ⟨taskEff s.usb e.bus, e.transfer⟩

/-- mirrors SOC/software/space_jam/main.cpp:81-90,182 -/
def step (s : St) (e : Env) : Option St :=
  (MidiStream.step s.stream (s.env e)).map fun m =>
    ⟨if s.stream.pc = .task then UsbTask.task s.usb e.bus else s.usb, m⟩

/-- Power-up. -/
def init (v : UsbTask.Vbus) (mem : RecvBuf) : St := ⟨UsbTask.init v, MidiStream.init mem⟩

abbrev run (s : St) (es : List Env) : Option St := execOpt step s es

def taken (s : St) (e : Env) : List EventPacket := MidiStream.taken s.stream (s.env e)

def fetched (s : St) (e : Env) : List EventPacket := MidiStream.fetched s.stream (s.env e)

def lost (s : St) (e : Env) : List EventPacket := MidiStream.lost s.stream (s.env e)

/-- What the `switch` of `main()` sees. -/
def seen (s : St) (e : Env) : List MidiLoop.Packet := MidiStream.played (taken s e)

/-! ## One step -/

theorem changed_polls (s : UsbTask.St) (e : UsbTask.Env) :
    (UsbTask.changed s e).bPollEnable = s.bPollEnable := by
  obtain ⟨-, hpoll, -⟩ := UsbTask.probed_frame s e
  rw [← hpoll]
  unfold UsbTask.changed
  have hch := UsbTask.vbusChange_eff (UsbTask.probed s e) e.t
  generalize UsbTask.vbusChange (UsbTask.probed s e) e.t = c at hch ⊢
  cases hch <;> rfl

/-- A driver is released in one state only. -/
theorem polls_kept {c s' : UsbTask.St} {e : UsbTask.Env} (he : UsbTask.Eff c e s')
    (hst : c.usbTaskState ≠ .detachedInit) (hp : c.bPollEnable = true) : s'.bPollEnable = true := by
  cases he with
  | release hd => exact absurd hd hst
  | configure _ _ _ _ _ hkeep => exact hkeep hp
  | _ => exact hp

/-- The effect on the driver is the state machine's. -/
theorem taskEff_polls (s : UsbTask.St) (e : UsbTask.Env) {rx : Rx} (h : rx.bPollEnable = s.bPollEnable) :
    ((taskEff s e).apply rx).bPollEnable = (UsbTask.task s e).bPollEnable := by
  have htask : UsbTask.task s e = UsbTask.taskSwitch (UsbTask.changed s e) e := rfl
  rw [← changed_polls s e] at h
  rw [htask]
  unfold taskEff
  dsimp only
  generalize UsbTask.changed s e = c at h ⊢
  by_cases hst : c.usbTaskState = .detachedInit
  · rw [if_pos hst, UsbTask.taskSwitch, hst]
    rfl
  rw [if_neg hst]
  by_cases hup : c.bPollEnable = false ∧ (UsbTask.taskSwitch c e).bPollEnable = true
  · rw [if_pos hup]
    exact hup.2.symm
  rw [if_neg hup]
  show rx.bPollEnable = _
  rw [h]
  cases hp : c.bPollEnable with
  | true => exact (polls_kept (UsbTask.taskSwitch_eff c e) hst hp).symm
  | false =>
    cases hp' : (UsbTask.taskSwitch c e).bPollEnable with
    | true => exact absurd ⟨hp, hp'⟩ hup
    | false => rfl

/-- The driver's flag is the one the state machine sees. -/
structure Inv (s : St) : Prop where
  stream : MidiStream.Inv s.stream
  polls : s.stream.rx.bPollEnable = s.usb.bPollEnable

theorem inv_init (v : UsbTask.Vbus) (mem : RecvBuf) : Inv (init v mem) :=
  ⟨MidiStream.inv_init mem, rfl⟩

/-- A step is one of `MidiStream`, and a call of `Usb.Task()` is one of `UsbTask`. -/
structure Step (s : St) (e : Env) (s' : St) : Prop where
  inv : Inv s'
  usb : s'.usb = if s.stream.pc = .task then UsbTask.task s.usb e.bus else s.usb
  stream : MidiStream.step s.stream (s.env e) = some s'.stream
  eff : MidiStream.Step s.stream (s.env e) s'.stream

theorem step_eff {s : St} (h : Inv s) (e : Env) : ∃ s', step s e = some s' ∧ Step s e s' := by
  obtain ⟨m, hm, hstep⟩ := MidiStream.step_eff h.stream (s.env e)
  refine ⟨⟨if s.stream.pc = .task then UsbTask.task s.usb e.bus else s.usb, m⟩,
    by rw [step, hm]; rfl, ⟨hstep.inv, ?_⟩, rfl, hm, hstep⟩
  have hpolls := hstep.polls
  cases hpc : s.stream.pc with
  | task =>
    rw [hpc, if_pos rfl] at hpolls
    rw [if_pos rfl, hpolls]
    exact taskEff_polls s.usb e.bus h.polls
  | recv =>
    rw [hpc, if_neg (fun hh => by cases hh)] at hpolls
    rw [if_neg (fun hh => by cases hh), hpolls]
    exact h.polls

/-! ## Whole runs -/

theorem run_inv (es : List Env) (s : St) (h : Inv s) : ∃ s', run s es = some s' ∧ Inv s' ∧
    Refill.Flow s.stream.rx.pending s'.stream.rx.pending (readings step taken s es)
      (readings step fetched s es) (readings step lost s es) :=
  Refill.readings_flow (f := step) (I := Inv) (fun s => s.stream.rx.pending) taken fetched lost
    (fun _ e h => (step_eff h e).imp fun _ hs => ⟨hs.1, hs.2.inv, hs.2.eff.flow⟩) es s h

/-- The voices are those of the packets seen. -/
theorem run_midi (es : List Env) {s s' : St} (h : Inv s) (hrun : run s es = some s') :
    s'.stream.midi = exec MidiLoop.step s.stream.midi (readings step seen s es) := by
  obtain ⟨s'', hrun', -, hmidi⟩ := execOpt_refines (I := Inv) (g := MidiLoop.step)
    (fun s : St => s.stream.midi) seen
    (fun _ e h => (step_eff h e).imp fun _ hs => ⟨hs.1, hs.2.inv, hs.2.eff.midi⟩) es s h
  obtain rfl : s' = s'' := Option.some.inj (hrun.symm.trans hrun')
  exact hmidi

/-! ## Voices of a pitch -/

/-- The voices that hold pitch `k`. -/
def held (k : BitVec 8) (s : MidiLoop.St) : Nat := Pool.held k (Bugs.StuckNote.abs s)

/-- A press of pitch `k` that finds a voice. -/
def Claims (k : BitVec 8) (s : MidiLoop.St) (p : MidiLoop.Packet) : Prop :=
  p.IsOn ∧ p.data1 = k ∧ s.firstNote = false ∧ ∃ i, s.noteUsed i = false

instance (k : BitVec 8) (s : MidiLoop.St) (p : MidiLoop.Packet) : Decidable (Claims k s p) :=
  inferInstanceAs (Decidable (_ ∧ _))

/-- The presses of pitch `k` that find a voice, in a stream of packets. -/
def claimed (k : BitVec 8) (s : MidiLoop.St) (ps : List MidiLoop.Packet) : Nat :=
  hits MidiLoop.step (fun s p => decide (Claims k s p)) s ps

/-- One packet: a press that finds a voice holds one more, and only a Note Off of that
pitch frees one. -/
theorem held_step (k : BitVec 8) (s : MidiLoop.St) (p : MidiLoop.Packet) :
    held k s + (decide (Claims k s p)).toNat ≤
      held k (MidiLoop.step s p) + if p.IsOff ∧ p.data1 = k then 1 else 0 := by
  have he := MidiLoop.step_eff s p
  generalize MidiLoop.step s p = s' at he ⊢
  have hnone : ¬ Claims k s p → (decide (Claims k s p)).toNat = 0 := fun h => by
    rw [decide_eq_false h]; rfl
  cases he with
  | discard hon hf =>
    have hc : ¬ Claims k s p := fun h => by rw [h.2.2.1] at hf; cases hf
    rw [hnone hc]
    exact Nat.le_add_right _ _
  | full hon hf hu =>
    have hc : ¬ Claims k s p := fun ⟨_, _, _, i, hi⟩ => by rw [hu i] at hi; cases hi
    rw [hnone hc]
    exact Nat.le_add_right _ _
  | claim i hon hf hi =>
    have hfree : Bugs.StuckNote.abs s i = none := by simp [Bugs.StuckNote.abs, hi]
    have hheld := Pool.held_update k (Bugs.StuckNote.abs s) i (some (p.data1, p.data2))
    rw [hfree, Pool.holds_none, Pool.holds_some, ← Bugs.StuckNote.abs_claim] at hheld
    by_cases hk : p.data1 = k
    · have hc : Claims k s p := ⟨hon, hk, hf, i, hi⟩
      simp only [hk, decide_true, Bool.false_eq_true, if_true, if_false] at hheld
      rw [decide_eq_true hc, Bool.toNat_true]
      exact (Nat.le_of_eq hheld.symm).trans (Nat.le_add_right _ _)
    · rw [hnone fun h => hk h.2.1]
      simp only [hk, decide_false, Bool.false_eq_true, if_false] at hheld
      exact (Nat.le_of_eq hheld.symm).trans (Nat.le_add_right _ _)
  | miss hoff =>
    rw [hnone fun h => hoff.not_on h.1]
    exact Nat.le_add_right _ _
  | clear i hoff hi =>
    rw [hnone fun h => hoff.not_on h.1]
    have hheld := Pool.held_update k (Bugs.StuckNote.abs s) i none
    rw [Pool.holds_none, ← Bugs.StuckNote.abs_clear] at hheld
    -- the slot that is cleared holds the pitch of the Note Off, or nothing
    have hholds : Pool.holds k (Bugs.StuckNote.abs s i) = true → p.IsOff ∧ p.data1 = k := by
      intro h
      cases hs : Bugs.StuckNote.abs s i with
      | none => rw [hs] at h; cases h
      | some x =>
        rw [hs, Pool.holds_some, decide_eq_true_eq] at h
        exact ⟨hoff, by rw [← hi, (Bugs.StuckNote.abs_eq_some hs).2, h]⟩
    simp only [Bool.false_eq_true, if_false] at hheld
    show held k s + 0 ≤ held k (s.clear i) + _
    unfold held
    by_cases h : Pool.holds k (Bugs.StuckNote.abs s i) = true
    · rw [if_pos h] at hheld
      rw [if_pos (hholds h)]
      omega
    · rw [if_neg h] at hheld
      omega
  | other hon =>
    rw [hnone fun h => hon h.1]
    exact Nat.le_add_right _ _

/-- A stream of packets frees a pitch no more often than it releases it. -/
theorem held_run (k : BitVec 8) (ps : List MidiLoop.Packet) : ∀ s,
    held k s + claimed k s ps ≤ held k (exec MidiLoop.step s ps) + Bugs.StuckNote.offs k ps := by
  induction ps with
  | nil => intro s; exact Nat.le_refl _
  | cons p ps ih =>
    intro s
    have hstep := held_step k s p
    have hrest := ih (MidiLoop.step s p)
    have hclaimed : claimed k s (p :: ps) =
        (decide (Claims k s p)).toNat + claimed k (MidiLoop.step s p) ps := rfl
    have hoffs : Bugs.StuckNote.offs k (p :: ps) =
        Bugs.StuckNote.offs k ps + if p.IsOff ∧ p.data1 = k then 1 else 0 := by
      rw [Bugs.StuckNote.offs, List.countP_cons]
      simp [Bugs.StuckNote.offs]
    rw [exec_cons, hclaimed, hoffs]
    omega

/-! ## Unplugging -/

/-- A call that has released the driver, and changed no voice. -/
structure Released (s s₁ : St) : Prop where
  state : s₁.usb.usbTaskState = .waitForDevice
  polls : s₁.stream.rx.bPollEnable = false
  dropped : s₁.stream.rx.pending = []
  voices : s₁.stream.midi = s.stream.midi

/-- SE0 while a device is attached. -/
theorem se0_changed {s : UsbTask.St} {e : UsbTask.Env} (hst : s.usbTaskState.detached = false)
    (hse0 : (UsbTask.probed s e).vbusState = .se0) :
    (UsbTask.changed s e).usbTaskState = .detachedInit := by
  obtain ⟨hsame, -, -⟩ := UsbTask.probed_frame s e
  unfold UsbTask.changed
  have hch := UsbTask.vbusChange_eff (UsbTask.probed s e) e.t
  generalize UsbTask.vbusChange (UsbTask.probed s e) e.t = c at hch ⊢
  cases hch with
  | illegal h => rw [hse0] at h; cases h
  | gone => rfl
  | attach h => rw [hse0] at h; exact absurd h UsbTask.not_attached_se0
  | absent _ hd => rw [hsame, hst] at hd; cases hd
  | attached h => rw [hse0] at h; exact absurd h UsbTask.not_attached_se0

theorem released_step {s : St} (h : Inv s) (hpc : s.stream.pc = .task)
    (hst : s.usb.usbTaskState.detached = false) {e : Env}
    (hse0 : (UsbTask.probed s.usb e.bus).vbusState = .se0) :
    ∃ s₁, step s e = some s₁ ∧ Inv s₁ ∧ Released s s₁ := by
  obtain ⟨s₁, hs, hstep⟩ := step_eff h e
  have hchanged := se0_changed hst hse0
  have heff : taskEff s.usb e.bus = .release := if_pos hchanged
  have hstream := hstep.stream
  rw [MidiStream.step, hpc, St.env, heff] at hstream
  have hm := Option.some.inj hstream
  refine ⟨s₁, hs, hstep.inv, ?_, ?_, ?_, ?_⟩
  · have htask : UsbTask.task s.usb e.bus =
        UsbTask.taskSwitch (UsbTask.changed s.usb e.bus) e.bus := rfl
    rw [hstep.usb, if_pos hpc, htask, UsbTask.taskSwitch, hchanged]
  · rw [← hm]; rfl
  · rw [← hm]; rfl
  · rw [← hm]

def call (probe : Option (Bool × Bool × Bool)) (t : Nat) : Env :=
  ⟨⟨probe, t, t, true, true, 0, true⟩, .nak⟩

/-- The bus is brought up from time `t` on, and the keyboard sends two events. -/
def plugged (probe : Option (Bool × Bool × Bool)) (t : Nat) (x : Transfer) : List Env :=
  [call probe t, call none (t + 200), call none (t + 201), call none (t + 202), call none (t + 222),
    ⟨(call none (t + 223)).bus, x⟩, call none (t + 224), call none (t + 225)]

/-- The first press is discarded, the second holds a voice. -/
def first : List Env := plugged none 0 ⟨0, [⟨9, 0x90, 60, 64⟩, ⟨9, 0x90, 60, 80⟩], by decide, by decide⟩

/-- The same key, pressed and released. -/
def second : List Env :=
  plugged (some (true, false, false)) 1000 ⟨0, [⟨9, 0x90, 60, 72⟩, ⟨8, 0x80, 60, 0⟩], by decide, by decide⟩

def pull : Env := call (some (false, false, false)) 500

end SonicCraft.L3.MidiPlug
