import SonicCraft.Core.Deadline
import SonicCraft.Core.LTS

/-!
# `USB::Task`: the state machine of the bus

SOC/software/space_jam/include/Usb.cpp:455-559 with `MAX3421e::Task` and
`busprobe` (usbhost.cpp:222-294). `main()` calls it over and over; a call's
environment is what it finds: the bus lines, if the chip has an interrupt for
them, two readings of the clock, the chip's flags, and how `Configuring` ends.
`Configuring` is taken by what it leaves: its code, and whether the driver is up.

* `bring_up`: in every run, `Configuring` is called no sooner than 200 ticks after
  the device was attached and 20 after the first frame that followed the bus reset,
  across any wrap of the 32-bit clock.
* `polls_iff`: the driver polls only while a device is attached, exactly if the
  bus is never found in the illegal state SE1 while it polls. SE1 leads to a state
  that releases nothing, and SE0 does not lead out of it.
-/
namespace SonicCraft.L2.UsbTask

/-- `vbusState` -/
inductive Vbus where
  | se0
  | se1
  | fshost
  | lshost
  deriving DecidableEq, Repr

/-- A device is attached, at full or at low speed. -/
def Vbus.Attached (v : Vbus) : Prop := v = .fshost ∨ v = .lshost

instance (v : Vbus) : Decidable v.Attached := inferInstanceAs (Decidable (_ ∨ _))

/-- `lowspeed` is `bmLOWSPEED` of `rMODE`.
mirrors SOC/software/space_jam/include/usbhost.cpp:222-256 -/
def busprobe (j k lowspeed : Bool) : Vbus :=
  match j, k with
  | true, false => if lowspeed then .lshost else .fshost
  | false, true => if lowspeed then .fshost else .lshost
  | true, true => .se1
  | false, false => .se0

/-- `usb_task_state`. mirrors SOC/software/space_jam/include/UsbCore.h:117-132 -/
inductive TaskState where
  | detachedInit
  | waitForDevice
  | illegal
  | settle
  | resetDevice
  | waitResetComplete
  | waitSof
  | waitReset
  | configuring
  | running
  | error
  deriving DecidableEq, Repr

/-- `(usb_task_state & USB_STATE_MASK) == USB_STATE_DETACHED` -/
def TaskState.detached : TaskState → Bool
  | .detachedInit | .waitForDevice | .illegal => true
  | _ => false

/-- `bPollEnable` is the driver's; it has an address as long as it polls. -/
structure St where
  vbusState : Vbus
  usbTaskState : TaskState
  delay : BitVec 32
  usbError : BitVec 8
  bPollEnable : Bool

/-- What a call meets. `t` and `t'` are the true times at which it reads the clock. -/
structure Env where
  /-- J, K and `bmLOWSPEED`, if the chip has a condition detect interrupt. -/
  probe : Option (Bool × Bool × Bool)
  t : Nat
  t' : Nat
  resetDone : Bool
  frame : Bool
  /-- `Configuring`: its code, and whether it has brought up the driver. -/
  rcode : BitVec 8
  up : Bool

/-- Power-up: the bus as `MAX3421e::Init` has found it. -/
def init (v : Vbus) : St := ⟨v, .detachedInit, 0, 0, false⟩

/-- `MAX3421e::Task`. mirrors SOC/software/space_jam/include/usbhost.cpp:259-294 -/
def probed (s : St) (e : Env) : St :=
  match e.probe with
  | none => s
  | some (j, k, l) => { s with vbusState := busprobe j k l }

/-- "modify USB task state if Vbus changed".
mirrors SOC/software/space_jam/include/Usb.cpp:468-488 -/
def vbusChange (s : St) (t : Nat) : St :=
  match s.vbusState with
  | .se1 => { s with usbTaskState := .illegal }
  | .se0 => if s.usbTaskState.detached then s else { s with usbTaskState := .detachedInit }
  | .lshost | .fshost =>
    if s.usbTaskState.detached then
      { s with delay := BitVec.ofNat 32 t + 200#32, usbTaskState := .settle }
    else s

/-- `USB_DEV_CONFIG_ERROR_DEVICE_INIT_INCOMPLETE` -/
def initIncomplete : BitVec 8 := 0xD2

/-- A driver that has an address is passed over; `Init` of one that has none comes
last, so its success is the code 0.
mirrors SOC/software/space_jam/include/Usb.cpp:683-779 -/
def configuring (polls : Bool) (e : Env) : BitVec 8 × Bool :=
  if polls then (e.rcode, true) else if e.up then (0, true) else (e.rcode, false)

/-- `case USB_STATE_CONFIGURING`. mirrors SOC/software/space_jam/include/Usb.cpp:538-552 -/
def configure (s : St) (e : Env) : St :=
  let (rcode, polls) := configuring s.bPollEnable e
  let s := { s with bPollEnable := polls, usbTaskState := .configuring }
  if rcode ≠ 0 then
    if rcode ≠ initIncomplete then { s with usbError := rcode, usbTaskState := .error } else s
  else { s with usbTaskState := .running }

/-- `case USB_ATTACHED_SUBSTATE_RESET_DEVICE` -/
def resetDevice (s : St) : St := { s with usbTaskState := .waitResetComplete }

/-- The second `switch`. mirrors SOC/software/space_jam/include/Usb.cpp:494-558 -/
def taskSwitch (s : St) (e : Env) : St :=
  match s.usbTaskState with
  | .detachedInit => { s with bPollEnable := false, usbTaskState := .waitForDevice }
  | .waitForDevice => s
  | .illegal => s
  | .settle => if due (BitVec.ofNat 32 e.t') s.delay then resetDevice s else s
  | .resetDevice => resetDevice s
  | .waitResetComplete => if e.resetDone then { s with usbTaskState := .waitSof } else s
  | .waitSof =>
    if e.frame then
      { s with usbTaskState := .waitReset, delay := BitVec.ofNat 32 e.t' + 20#32 }
    else s
  | .waitReset => if due (BitVec.ofNat 32 e.t') s.delay then configure s e else s
  | .configuring => configure s e
  | .running => s
  | .error => s

/-- One call. mirrors SOC/software/space_jam/include/Usb.cpp:455-559 -/
def task (s : St) (e : Env) : St := taskSwitch (vbusChange (probed s e) e.t) e

/-! ## What a call does -/

/-- `Configuring` is called. -/
def Configures (s : St) (e : Env) : Prop :=
  s.usbTaskState = .configuring ∨
    s.usbTaskState = .waitReset ∧ due (BitVec.ofNat 32 e.t') s.delay = true

/-- The bus is reset. -/
def Resets (s : St) (e : Env) : Prop :=
  s.usbTaskState = .resetDevice ∨
    s.usbTaskState = .settle ∧ due (BitVec.ofNat 32 e.t') s.delay = true

/-- The effect of the second `switch`, case by case. -/
inductive Eff (s : St) (e : Env) : St → Prop
  | release (h : s.usbTaskState = .detachedInit) :
      Eff s e { s with bPollEnable := false, usbTaskState := .waitForDevice }
  | reset (h : Resets s e) : Eff s e { s with usbTaskState := .waitResetComplete }
  | resetDone (h : s.usbTaskState = .waitResetComplete) :
      Eff s e { s with usbTaskState := .waitSof }
  | frame (h : s.usbTaskState = .waitSof) (hf : e.frame = true) :
      Eff s e { s with usbTaskState := .waitReset, delay := BitVec.ofNat 32 e.t' + 20#32 }
  | configure (h : Configures s e) (st : TaskState) (err : BitVec 8) (polls : Bool)
      (hst : st = .running ∨ st = .error ∨ st = .configuring)
      (hkeep : s.bPollEnable = true → polls = true)
      (hup : s.bPollEnable = false → polls = true → st = .running) :
      Eff s e { s with usbTaskState := st, usbError := err, bPollEnable := polls }
  | stay (hi : s.usbTaskState ≠ .detachedInit) (hr : ¬ Resets s e) (hc : ¬ Configures s e)
      (hf : s.usbTaskState = .waitSof → e.frame = false) : Eff s e s

theorem configure_eff {s : St} {e : Env} (h : Configures s e) : Eff s e (configure s e) := by
  have hkeep : s.bPollEnable = true → (configuring s.bPollEnable e).2 = true := by
    intro hp; rw [hp]; rfl
  have hup : s.bPollEnable = false → (configuring s.bPollEnable e).2 = true →
      (configuring s.bPollEnable e).1 = 0 := by
    intro hp hu
    rw [hp] at hu ⊢
    unfold configuring at hu ⊢
    cases hup : e.up with
    | true => rfl
    | false => rw [hup] at hu; cases hu
  unfold configure
  generalize configuring s.bPollEnable e = r at hkeep hup
  by_cases h0 : r.1 = 0
  · simp only [h0, ne_eq, not_true_eq_false, if_false]
    exact .configure h .running s.usbError r.2 (.inl rfl) hkeep fun _ _ => rfl
  · have hup' : s.bPollEnable = false → r.2 = true → False := fun h1 h2 => h0 (hup h1 h2)
    by_cases hi : r.1 = initIncomplete
    · simp only [hi, ne_eq, not_true_eq_false, if_false]
      exact .configure h .configuring s.usbError r.2 (.inr (.inr rfl)) hkeep
        fun h1 h2 => (hup' h1 h2).elim
    · simp only [h0, hi, ne_eq, not_false_eq_true, if_true]
      exact .configure h .error r.1 r.2 (.inr (.inl rfl)) hkeep fun h1 h2 => (hup' h1 h2).elim

theorem taskSwitch_eff (s : St) (e : Env) : Eff s e (taskSwitch s e) := by
  have hstay : ∀ {st : TaskState}, s.usbTaskState = st → st ≠ .detachedInit → st ≠ .settle →
      st ≠ .resetDevice → st ≠ .waitReset → st ≠ .configuring → (st = .waitSof → e.frame = false) →
      Eff s e s := by
    rintro st rfl h1 h2 h3 h4 h5 h6
    refine .stay h1 ?_ ?_ h6
    · rintro (h | ⟨h, -⟩)
      exacts [h3 h, h2 h]
    · rintro (h | ⟨h, -⟩)
      exacts [h5 h, h4 h]
  unfold taskSwitch
  cases hst : s.usbTaskState <;> dsimp only
  case detachedInit => exact .release hst
  case waitForDevice => exact hstay hst (by simp) (by simp) (by simp) (by simp) (by simp) (by simp)
  case illegal => exact hstay hst (by simp) (by simp) (by simp) (by simp) (by simp) (by simp)
  case running => exact hstay hst (by simp) (by simp) (by simp) (by simp) (by simp) (by simp)
  case error => exact hstay hst (by simp) (by simp) (by simp) (by simp) (by simp) (by simp)
  case resetDevice => exact .reset (.inl hst)
  case configuring => exact configure_eff (.inl hst)
  case settle =>
    split
    · rename_i hd; exact .reset (.inr ⟨hst, hd⟩)
    · rename_i hd
      refine .stay (by simp [hst]) ?_ (by simp [Configures, hst]) (by simp [hst])
      simpa [Resets, hst] using hd
  case waitReset =>
    split
    · rename_i hd; exact configure_eff (.inr ⟨hst, hd⟩)
    · rename_i hd
      refine .stay (by simp [hst]) (by simp [Resets, hst]) ?_ (by simp [hst])
      simpa [Configures, hst] using hd
  case waitResetComplete =>
    split
    · exact .resetDone hst
    · exact hstay hst (by simp) (by simp) (by simp) (by simp) (by simp) (by simp)
  case waitSof =>
    split
    · rename_i hf; exact .frame hst hf
    · rename_i hf
      exact hstay hst (by simp) (by simp) (by simp) (by simp) (by simp) fun _ => by simpa using hf

/-- The effect of the first `switch`. -/
inductive Change (s : St) (t : Nat) : St → Prop
  | illegal (h : s.vbusState = .se1) : Change s t { s with usbTaskState := .illegal }
  | gone (h : s.vbusState = .se0) (hd : s.usbTaskState.detached = false) :
      Change s t { s with usbTaskState := .detachedInit }
  | attach (h : s.vbusState.Attached) (hd : s.usbTaskState.detached = true) :
      Change s t { s with delay := BitVec.ofNat 32 t + 200#32, usbTaskState := .settle }
  | absent (h : s.vbusState = .se0) (hd : s.usbTaskState.detached = true) : Change s t s
  | attached (h : s.vbusState.Attached) (hd : s.usbTaskState.detached = false) : Change s t s

theorem vbusChange_eff (s : St) (t : Nat) : Change s t (vbusChange s t) := by
  have hatt : s.vbusState.Attached → Change s t (if s.usbTaskState.detached then
      { s with delay := BitVec.ofNat 32 t + 200#32, usbTaskState := .settle } else s) := by
    intro h
    split
    · rename_i hd; exact .attach h hd
    · rename_i hd; exact .attached h (by simpa using hd)
  obtain ⟨v, st, delay, err, polls⟩ := s
  cases v with
  | se0 =>
    unfold vbusChange
    dsimp only
    split
    · rename_i hd; exact .absent rfl hd
    · rename_i hd; exact .gone rfl (by simpa using hd)
  | se1 => exact .illegal rfl
  | fshost => exact hatt (.inl rfl)
  | lshost => exact hatt (.inr rfl)

theorem not_attached_se0 : ¬ Vbus.se0.Attached := by simp [Vbus.Attached]

theorem not_attached_se1 : ¬ Vbus.se1.Attached := by simp [Vbus.Attached]

theorem probed_frame (s : St) (e : Env) : (probed s e).usbTaskState = s.usbTaskState ∧
    (probed s e).bPollEnable = s.bPollEnable ∧ (probed s e).delay = s.delay := by
  unfold probed
  cases e.probe <;> exact ⟨rfl, rfl, rfl⟩

/-! ## Polling -/

/-- The driver polls only while a device is attached. -/
def PollsAttached (s : St) : Prop := s.bPollEnable = true → s.vbusState.Attached

/-- The call finds the illegal state while the driver polls. -/
def Illegal (s : St) (e : Env) : Prop := s.bPollEnable = true ∧ (probed s e).vbusState = .se1

instance (s : St) (e : Env) : Decidable (Illegal s e) := inferInstanceAs (Decidable (_ ∧ _))

/-- What the state machine keeps for it. -/
def PollsRunning (s : St) : Prop :=
  s.bPollEnable = true → s.usbTaskState = .running ∧ s.vbusState.Attached

/-- Nothing happens in the running state. -/
theorem running_eff {s s' : St} {e : Env} (h : s.usbTaskState = .running) (he : Eff s e s') :
    s' = s := by
  cases he with
  | release hi => rw [h] at hi; cases hi
  | reset hr => rcases hr with hr | ⟨hr, -⟩ <;> · rw [h] at hr; cases hr
  | resetDone hr => rw [h] at hr; cases hr
  | frame hf => rw [h] at hf; cases hf
  | configure hc => rcases hc with hc | ⟨hc, -⟩ <;> · rw [h] at hc; cases hc
  | stay => rfl

/-- Configuring needs a device attached, and not only just. -/
theorem configures_attached {s c : St} {t : Nat} {e : Env} (hch : Change s t c)
    (hc : Configures c e) : c = s ∧ s.vbusState.Attached := by
  cases hch with
  | illegal => rcases hc with hc | ⟨hc, -⟩ <;> cases hc
  | gone => rcases hc with hc | ⟨hc, -⟩ <;> cases hc
  | attach => rcases hc with hc | ⟨hc, -⟩ <;> cases hc
  | absent h hd => rcases hc with hc | ⟨hc, -⟩ <;> · rw [hc] at hd; cases hd
  | attached h => exact ⟨rfl, h⟩

theorem polls_step {s : St} {e : Env} (h : PollsRunning s) (hi : ¬ Illegal s e) :
    PollsRunning (task s e) := by
  obtain ⟨hst, hpoll, -⟩ := probed_frame s e
  unfold task
  have hch := vbusChange_eff (probed s e) e.t
  generalize vbusChange (probed s e) e.t = c at hch ⊢
  have he := taskSwitch_eff c e
  generalize taskSwitch c e = s' at he ⊢
  cases hp : s.bPollEnable with
  | true =>
    obtain ⟨hrun, -⟩ := h hp
    rw [← hst] at hrun
    rw [← hpoll] at hp
    cases hch with
    | illegal hv => exact absurd ⟨hpoll ▸ hp, hv⟩ hi
    | gone hv hd =>
      cases he with
      | release => intro hp'; cases hp'
      | reset hr => rcases hr with hr | ⟨hr, -⟩ <;> cases hr
      | configure hc => rcases hc with hc | ⟨hc, -⟩ <;> cases hc
      | resetDone hr => cases hr
      | frame hf => cases hf
      | stay hi => exact absurd rfl hi
    | attach hv hd => rw [hrun] at hd; cases hd
    | absent hv hd => rw [hrun] at hd; cases hd
    | attached hv =>
      rw [running_eff hrun he]
      exact fun _ => ⟨hrun, hv⟩
  | false =>
    have hpc : c.bPollEnable = false := by
      rw [← hpoll] at hp
      cases hch <;> exact hp
    intro hp'
    cases he with
    | release => cases hp'
    | configure hc st err polls hst' hkeep hup =>
      obtain ⟨rfl, hv⟩ := configures_attached hch hc
      exact ⟨hup hpc hp', hv⟩
    | _ =>
      have hp'' : c.bPollEnable = true := hp'
      rw [hpc] at hp''
      cases hp''

/-- SE1 while the driver polls: it goes on polling. -/
theorem illegal_polls {s : St} {e : Env} (h : Illegal s e) : ¬ PollsAttached (task s e) := by
  obtain ⟨hp, hv⟩ := h
  obtain ⟨-, hpoll, -⟩ := probed_frame s e
  intro hatt
  unfold task at hatt
  have hch := vbusChange_eff (probed s e) e.t
  generalize vbusChange (probed s e) e.t = c at hch hatt
  have hse1 : ¬ (probed s e).vbusState.Attached := by rw [hv]; exact not_attached_se1
  cases hch with
  | illegal => exact hse1 (hatt (hpoll.trans hp))
  | gone h0 => rw [hv] at h0; cases h0
  | attach h1 => exact hse1 h1
  | absent h0 => rw [hv] at h0; cases h0
  | attached h1 => exact hse1 h1

/-- **Polling and the bus.** After every call of a run the driver polls only if a
device is attached, exactly if no call finds SE1 while the driver polls. -/
theorem polls_iff (v : Vbus) (es : List Env) :
    (∀ p, p <+: es → PollsAttached (exec task (init v) p)) ↔
      Along task (fun s e => ¬ Illegal s e) (init v) es := by
  constructor
  · intro h
    rw [along_iff]
    intro p e hp hi
    have h1 := h _ hp
    rw [exec_snoc] at h1
    exact illegal_polls hi h1
  · intro h p hp
    obtain ⟨q, rfl⟩ := hp
    have hpre := ((along_append p q (init v)).mp h).1
    have hrun : PollsRunning (exec task (init v) p) :=
      exec_hist_along (I := fun _ s => PollsRunning s) (fun h0 => by cases h0)
        (fun _ _ hP hI => polls_step hI hP) p hpre
    exact fun hpoll => (hrun hpoll).2

/-! ## Waiting -/

instance (s : St) (e : Env) : Decidable (Resets s e) := inferInstanceAs (Decidable (_ ∨ _))

/-- When what happened last, in true time; `now` is the last reading of the clock. -/
structure Marks where
  now : Nat
  attached : Nat
  reset : Nat
  sof : Nat

/-- What a call leaves after its first `switch`. -/
def changed (s : St) (e : Env) : St := vbusChange (probed s e) e.t

def mark (x : St × Marks) (e : Env) : Marks where
  now := e.t'
  attached := if (probed x.1 e).vbusState.Attached ∧ x.1.usbTaskState.detached = true then e.t
    else x.2.attached
  reset := if Resets (changed x.1 e) e then e.t' else x.2.reset
  sof := if (changed x.1 e).usbTaskState = .waitSof ∧ e.frame = true then e.t' else x.2.sof

/-- A call, and the marks beside it. -/
def timed (x : St × Marks) (e : Env) : St × Marks := (task x.1 e, mark x e)

/-- The clock does not run backwards. -/
def Clocked (x : St × Marks) (e : Env) : Prop := x.2.now ≤ e.t ∧ e.t ≤ e.t'

instance (x : St × Marks) (e : Env) : Decidable (Clocked x e) := inferInstanceAs (Decidable (_ ∧ _))

/-- What the states wait for. -/
def Timely (s : St) (m : Marks) : Prop :=
  match s.usbTaskState with
  | .detachedInit | .waitForDevice | .illegal => True
  | .settle => m.attached ≤ m.now ∧ s.delay = BitVec.ofNat 32 (m.attached + 200)
  | .resetDevice => False
  | .waitResetComplete | .waitSof => m.attached + 200 ≤ m.reset ∧ m.reset ≤ m.now
  | .waitReset => m.attached + 200 ≤ m.reset ∧ m.reset ≤ m.sof ∧ m.sof ≤ m.now ∧
      s.delay = BitVec.ofNat 32 (m.sof + 20)
  | .configuring | .running | .error =>
    m.attached + 200 ≤ m.reset ∧ m.reset ≤ m.sof ∧ m.sof + 20 ≤ m.now

theorem Timely.later {s : St} {m : Marks} (h : Timely s m) {t : Nat} (ht : m.now ≤ t) :
    Timely s { m with now := t } := by
  unfold Timely at h ⊢
  cases hst : s.usbTaskState <;> rw [hst] at h <;> dsimp only at h ⊢
  case settle => exact ⟨h.1.trans ht, h.2⟩
  case waitReset => exact ⟨h.1, h.2.1, h.2.2.1.trans ht, h.2.2.2⟩
  all_goals omega

/-- The first `switch` keeps it. -/
theorem timely_change {s c : St} {m : Marks} {t : Nat} (h : Timely s m) (ht : m.now ≤ t)
    (hch : Change s t c) : Timely c { m with
      now := t
      attached := if s.vbusState.Attached ∧ s.usbTaskState.detached = true then t else m.attached } := by
  cases hch with
  | illegal => exact trivial
  | gone => exact trivial
  | attach hv hd =>
    rw [if_pos ⟨hv, hd⟩]
    exact ⟨Nat.le_refl t, (BitVec.ofNat_add t 200).symm⟩
  | absent hv hd =>
    rw [if_neg fun hh => not_attached_se0 (hv ▸ hh.1)]
    exact h.later ht
  | attached hv hd =>
    rw [if_neg fun hh => by rw [hd] at hh; cases hh.2]
    exact h.later ht

/-- What the second `switch` waits for is over when it goes on, and it goes on when
it is over. -/
structure OnTime (c : St) (e : Env) (m : Marks) : Prop where
  reset : Resets c e → m.attached + 200 ≤ e.t'
  configure : Configures c e →
    m.attached + 200 ≤ m.reset ∧ m.reset ≤ m.sof ∧ m.sof + 20 ≤ e.t'
  settled : c.usbTaskState = .settle → m.attached + 200 ≤ e.t' →
    e.t' < m.attached + 200 + 2 ^ 31 → Resets c e
  waited : c.usbTaskState = .waitReset → m.sof + 20 ≤ e.t' → e.t' < m.sof + 20 + 2 ^ 31 →
    Configures c e

theorem onTime_of_timely {c : St} {m : Marks} {e : Env} (h : Timely c m) (ht : m.now ≤ e.t') :
    OnTime c e m where
  reset hr := by
    unfold Timely at h
    rcases hr with hr | ⟨hr, hd⟩
    · rw [hr] at h; exact h.elim
    · rw [hr] at h
      rw [h.2] at hd
      exact due_after (by omega) (by omega) hd
  configure hc := by
    unfold Timely at h
    rcases hc with hc | ⟨hc, hd⟩
    · rw [hc] at h
      dsimp only at h
      omega
    · rw [hc] at h
      obtain ⟨h1, h2, h3, h4⟩ := h
      rw [h4] at hd
      exact ⟨h1, h2, due_after (by omega) (by omega) hd⟩
  settled hst h1 h2 := by
    unfold Timely at h
    rw [hst] at h
    refine .inr ⟨hst, ?_⟩
    rw [h.2]
    exact due_of_le h1 (by omega)
  waited hst h1 h2 := by
    unfold Timely at h
    rw [hst] at h
    refine .inr ⟨hst, ?_⟩
    rw [h.2.2.2]
    exact due_of_le h1 (by omega)

/-- The second `switch` keeps it. -/
theorem timely_switch {c s' : St} {m : Marks} {e : Env} (h : Timely c m) (ht : m.now ≤ e.t')
    (he : Eff c e s') : Timely s' { m with
      now := e.t'
      reset := if Resets c e then e.t' else m.reset
      sof := if c.usbTaskState = .waitSof ∧ e.frame = true then e.t' else m.sof } := by
  have hon := onTime_of_timely h ht
  cases he with
  | release hi => exact trivial
  | reset hr =>
    rw [if_pos hr]
    exact ⟨hon.reset hr, Nat.le_refl _⟩
  | resetDone hst =>
    have hr : ¬ Resets c e := by simp [Resets, hst]
    unfold Timely at h
    rw [hst] at h
    rw [if_neg hr]
    exact ⟨h.1, h.2.trans ht⟩
  | frame hst hf =>
    have hr : ¬ Resets c e := by simp [Resets, hst]
    unfold Timely at h
    rw [hst] at h
    rw [if_neg hr, if_pos ⟨hst, hf⟩]
    exact ⟨h.1, h.2.trans ht, Nat.le_refl _, (BitVec.ofNat_add _ _).symm⟩
  | configure hc st err polls hst =>
    obtain ⟨h1, h2, h3⟩ := hon.configure hc
    have hr : ¬ Resets c e := by rcases hc with hc | ⟨hc, -⟩ <;> simp [Resets, hc]
    have hs : ¬ (c.usbTaskState = .waitSof ∧ e.frame = true) := by
      rcases hc with hc | ⟨hc, -⟩ <;> simp [hc]
    rw [if_neg hr, if_neg hs]
    rcases hst with rfl | rfl | rfl <;> exact ⟨h1, h2, h3⟩
  | stay _ hr _ hf =>
    have hs : ¬ (c.usbTaskState = .waitSof ∧ e.frame = true) := by
      rintro ⟨h1, h2⟩
      rw [hf h1] at h2
      cases h2
    rw [if_neg hr, if_neg hs]
    exact h.later ht

/-- The marks when the second `switch` is reached. -/
def midway (x : St × Marks) (e : Env) : Marks :=
  { x.2 with now := e.t, attached := (mark x e).attached }

theorem timely_changed {x : St × Marks} {e : Env} (h : Timely x.1 x.2) (hc : Clocked x e) :
    Timely (changed x.1 e) (midway x e) := by
  obtain ⟨hst, -, hdelay⟩ := probed_frame x.1 e
  have hp : Timely (probed x.1 e) x.2 := by
    unfold Timely at h ⊢
    rw [hst, hdelay]
    exact h
  have hch := timely_change hp hc.1 (vbusChange_eff (probed x.1 e) e.t)
  rw [hst] at hch
  exact hch

theorem timely_step {x : St × Marks} {e : Env} (h : Timely x.1 x.2) (hc : Clocked x e) :
    Timely (timed x e).1 (timed x e).2 :=
  timely_switch (timely_changed h hc) hc.2 (taskSwitch_eff _ _)

theorem timely_init (v : Vbus) : Timely (init v) ⟨0, 0, 0, 0⟩ := trivial

/-- **Bring-up.** In every run over a clock that does not run backwards, wraps
included, each call waits as long as it must and no longer. -/
theorem bring_up (v : Vbus) (es : List Env) (e : Env)
    (hc : Along timed Clocked (init v, ⟨0, 0, 0, 0⟩) (es ++ [e])) :
    OnTime (changed (exec timed (init v, ⟨0, 0, 0, 0⟩) es).1 e) e
      (midway (exec timed (init v, ⟨0, 0, 0, 0⟩) es) e) := by
  obtain ⟨hes, he⟩ := (along_snoc _ es e).mp hc
  have ht : Timely (exec timed (init v, ⟨0, 0, 0, 0⟩) es).1
      (exec timed (init v, ⟨0, 0, 0, 0⟩) es).2 :=
    exec_hist_along (I := fun _ x => Timely x.1 x.2) (timely_init v)
      (fun _ _ hP hI => timely_step hI hP) es hes
  exact onTime_of_timely (timely_changed ht he) he.2

/-- Attached 96 ticks before the clock wraps. -/
def tick (t : Nat) : Env := ⟨none, t, t, true, true, 0, true⟩

def wrapping : List Env := [tick 4294967200, tick 4294967400, tick 4294967410, tick 4294967411]

theorem bring_up_wrapping :
    OnTime (changed (exec timed (init .fshost, ⟨0, 0, 0, 0⟩) wrapping).1 (tick 4294967431))
      (tick 4294967431) (midway (exec timed (init .fshost, ⟨0, 0, 0, 0⟩) wrapping)
        (tick 4294967431)) ∧
    Configures (changed (exec timed (init .fshost, ⟨0, 0, 0, 0⟩) wrapping).1 (tick 4294967431))
      (tick 4294967431) :=
  ⟨bring_up .fshost wrapping (tick 4294967431) (by decide), .inr (by decide)⟩

end SonicCraft.L2.UsbTask
