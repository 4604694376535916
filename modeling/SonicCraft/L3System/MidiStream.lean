import SonicCraft.L2Software.MidiLoop
import SonicCraft.L2Software.MidiReceive

/-!
# From USB transfers to voices

The loop of `main()` (SOC/software/space_jam/main.cpp:81-182): `Usb.Task()`, then,
while a device is there, `Midi.RecvData` until it returns 0, each packet going
through the `switch` of `L2.MidiLoop`. A step of the model is one call of either;
its environment is what the call would meet: what `Task` does to the driver, and
the transfer the device would answer with.

`run_voices`: in every run the voices are those of the packets taken, and these
are what was fetched, in order, less what waited when a device was released;
no packet is made up but for the stale ones of `L2Software.MidiReceive`. Sizes 0
end the inner loop early and lose nothing.
-/
namespace SonicCraft.L3.MidiStream
open L2 L2.Usb

/-- What `Usb.Task()` does to the driver: nothing, `Release()`, or an `Init()`
that succeeds. -/
inductive TaskEff where
  | nothing
  | release
  | init
  deriving DecidableEq, Repr

/-- mirrors SOC/software/space_jam/include/usbh_midi.cpp:261,277-288 -/
def TaskEff.apply : TaskEff → Rx → Rx
  | .nothing, rx => rx
  | .release, rx => { rx with bPollEnable := false, readPtr := 0 }
  | .init, rx => { rx with bPollEnable := true }

/-- Which call comes next. -/
inductive Pc where
  | task
  | recv
  deriving DecidableEq, Repr

structure St where
  pc : Pc
  rx : Rx
  midi : MidiLoop.St

structure Env where
  task : TaskEff
  transfer : Transfer

/-- `MIDI_packet` after a call that has written it. -/
def midiPacket (outBuf : List Byte) : MidiLoop.Packet :=
  ⟨outBuf.getD 0 0, outBuf.getD 1 0, outBuf.getD 2 0⟩

/-- mirrors SOC/software/space_jam/main.cpp:81-90,182 -/
def step (s : St) (e : Env) : Option St :=
  match s.pc with
  | .task =>
    let rx := e.task.apply s.rx
    some { s with rx := rx, pc := if rx.bPollEnable then .recv else .task }
  | .recv =>
    (s.rx.recvData false e.transfer.reply).map fun (size, outBuf, rx) =>
      if size > 0 then { s with rx := rx, midi := MidiLoop.step s.midi (midiPacket outBuf) }
      else { s with rx := rx, pc := .task }

/-- Power-up. mirrors SOC/software/space_jam/include/usbh_midi.cpp:85-100 -/
def init (mem : RecvBuf) : St := ⟨.task, ⟨false, mem, 0⟩, MidiLoop.init⟩

/-! ## What a call takes -/

/-- The packet the `switch` sees. -/
def packetOf (e : EventPacket) : MidiLoop.Packet := ⟨e.midi0, e.midi1, e.midi2⟩

/-- The packets the `switch` sees of those taken. -/
def played (es : List EventPacket) : List MidiLoop.Packet :=
  (es.filter fun e => 0 < e.size).map packetOf

@[simp] theorem played_append (a b : List EventPacket) : played (a ++ b) = played a ++ played b := by
  unfold played; rw [List.filter_append, List.map_append]

/-- `RecvData` is called only while a device is there. -/
structure Inv (s : St) : Prop where
  aligned : s.rx.Aligned
  poll : s.pc = .recv → s.rx.bPollEnable = true

theorem inv_init (mem : RecvBuf) : Inv (init mem) :=
  ⟨⟨0, by omega, rfl⟩, fun h => by cases h⟩

theorem Inv.ready {s : St} (h : Inv s) (hpc : s.pc = .recv) : s.rx.Ready := ⟨h.poll hpc, h.aligned⟩

/-- What `f` reads of a call of `RecvData`. -/
def receiving (f : St → Env → List EventPacket) (s : St) (e : Env) : List EventPacket :=
  if s.pc = .recv then f s e else []

/-- What the device hands over. -/
def sent : St → Env → List EventPacket :=
  receiving fun s e => Refill.asked s.rx.pending e.transfer.sent

/-- What is handed out again. -/
def stale : St → Env → List EventPacket :=
  receiving fun s e => Refill.asked s.rx.pending (s.rx.stale e.transfer)

def fetched (s : St) (e : Env) : List EventPacket := sent s e ++ stale s e

def taken : St → Env → List EventPacket :=
  receiving fun s e => (Refill.out s.rx.pending (e.transfer.sent ++ s.rx.stale e.transfer)).toList

/-- What waits when the device is released. -/
def lost (s : St) (e : Env) : List EventPacket :=
  if s.pc = .task ∧ e.task = .release then s.rx.pending else []

/-- What one step does. -/
structure Step (s : St) (e : Env) (s' : St) : Prop where
  inv : Inv s'
  polls : s'.rx.bPollEnable = ((if s.pc = .task then e.task else .nothing).apply s.rx).bPollEnable
  midi : s'.midi = exec MidiLoop.step s.midi (played (taken s e))
  flow : Refill.Flow s.rx.pending s'.rx.pending (taken s e) (fetched s e) (lost s e)

theorem receiving_task {s : St} (hpc : s.pc = .task) (f : St → Env → List EventPacket) (e : Env) :
    receiving f s e = [] := if_neg (by rw [hpc]; decide)

/-- `Usb.Task()`. -/
theorem task_step {s : St} (h : Inv s) (hpc : s.pc = .task) (e : Env) :
    ∃ s', step s e = some s' ∧ Step s e s' := by
  have htaken : taken s e = [] := receiving_task hpc _ e
  have hfetched : fetched s e = [] := by
    rw [fetched, sent, stale, receiving_task hpc, receiving_task hpc]; rfl
  have hlost : lost s e = if e.task = .release then s.rx.pending else [] := by
    simp only [lost, hpc, true_and]
  refine ⟨_, by rw [step, hpc], ⟨?_, fun hp => ?_⟩, by rw [if_pos hpc], ?_, ?_⟩
  · cases e.task with
    | nothing => exact h.aligned
    | release => exact ⟨0, by omega, rfl⟩
    | init => exact h.aligned
  · by_contra hoff
    have hoff' : (e.task.apply s.rx).bPollEnable = false := by simpa using hoff
    simp only [hoff'] at hp
    cases hp
  · rw [htaken]; rfl
  · rw [htaken, hfetched, hlost]
    cases e.task with
    | nothing => exact .nil _
    | release => exact .reset _
    | init => exact .nil _

/-- A packet of size 0 is no packet to the `switch`. -/
theorem played_single (e : EventPacket) : played [e] = if e.size > 0 then [packetOf e] else [] := by
  unfold played
  by_cases h : e.size > 0
  · rw [if_pos h, List.filter_cons_of_pos (by simpa using h)]; rfl
  · rw [if_neg h, List.filter_cons_of_neg (by simpa using h)]; rfl

/-- `RecvData` and the `switch`. -/
theorem recv_step {s : St} (h : Inv s) (hpc : s.pc = .recv) (e : Env) :
    ∃ s', step s e = some s' ∧ Step s e s' := by
  obtain ⟨rx, hnext, hready, hp⟩ := nextOf_refines.call_eq s.rx e.transfer (h.ready hpc)
  have hflow := Refill.Flow.call s.rx.pending (e.transfer.sent ++ s.rx.stale e.transfer)
  have htaken : taken s e =
      (Refill.out s.rx.pending (e.transfer.sent ++ s.rx.stale e.transfer)).toList := if_pos hpc
  have hfetched : fetched s e =
      Refill.asked s.rx.pending (e.transfer.sent ++ s.rx.stale e.transfer) := by
    unfold fetched sent stale receiving Refill.asked
    rw [if_pos hpc, if_pos hpc]
    by_cases hq : s.rx.pending = [] <;> simp only [hq, if_true, if_false, List.append_nil]
  have hlost : lost s e = [] := if_neg fun hh => by rw [hpc] at hh; cases hh.1
  rw [← hp, ← htaken, ← hfetched, ← hlost] at hflow
  have hpoll : rx.bPollEnable =
      ((if s.pc = .task then e.task else .nothing).apply s.rx).bPollEnable := by
    rw [hpc, if_neg (by decide), hready.poll]
    exact (h.poll hpc).symm
  have hstep : step s e =
      some ((Refill.out s.rx.pending (e.transfer.sent ++ s.rx.stale e.transfer)).elim
        { s with rx := rx, pc := .task } fun ev =>
          if ev.size > 0 then { s with rx := rx, midi := MidiLoop.step s.midi (packetOf ev) }
          else { s with rx := rx, pc := .task }) := by
    rw [step, hpc]
    show (Option.map _ (Option.map _ (s.rx.nextOf e.transfer))) = _
    rw [hnext]
    generalize Refill.out s.rx.pending (e.transfer.sent ++ s.rx.stale e.transfer) = o
    cases o with
    | none => exact congrArg some (if_neg (by decide))
    | some ev => rfl
  refine ⟨_, hstep, ?_⟩
  cases hout : Refill.out s.rx.pending (e.transfer.sent ++ s.rx.stale e.transfer) with
  | none =>
    rw [hout] at htaken
    exact ⟨⟨hready.aligned, fun hh => by cases hh⟩, hpoll, by rw [htaken]; rfl, hflow⟩
  | some ev =>
    rw [hout, Option.toList_some] at htaken
    have hplayed := played_single ev
    rw [← htaken] at hplayed
    by_cases hsize : ev.size > 0
    · rw [if_pos hsize] at hplayed
      simp only [Option.elim_some, hsize, if_true]
      exact ⟨⟨hready.aligned, fun _ => hready.poll⟩, hpoll, by rw [hplayed]; rfl, hflow⟩
    · rw [if_neg hsize] at hplayed
      simp only [Option.elim_some, hsize, if_false]
      exact ⟨⟨hready.aligned, fun hh => by cases hh⟩, hpoll, by rw [hplayed]; rfl, hflow⟩

theorem step_eff {s : St} (h : Inv s) (e : Env) : ∃ s', step s e = some s' ∧ Step s e s' := by
  cases hpc : s.pc with
  | task => exact task_step h hpc e
  | recv => exact recv_step h hpc e

/-! ## Whole runs -/

abbrev run (s : St) (es : List Env) : Option St := execOpt step s es

/-- The voices are those of the packets taken. -/
theorem run_midi (es : List Env) : ∀ s s', Inv s → run s es = some s' →
    s'.midi = exec MidiLoop.step s.midi (played (readings step taken s es)) := by
  induction es with
  | nil => intro s s' _ h; cases h; rfl
  | cons e es ih =>
    intro s s' hi h
    obtain ⟨s₁, hs, hstep⟩ := step_eff hi e
    rw [run, execOpt_cons hs] at h
    rw [readings_cons hs, played_append, exec_append, ← hstep.midi]
    exact ih s₁ s' hstep.inv h

/-- What becomes of the packets, from any state between two calls. -/
theorem run_flow (es : List Env) : ∀ s, Inv s → ∃ s', run s es = some s' ∧ Inv s' ∧
    Refill.Flow s.rx.pending s'.rx.pending (readings step taken s es)
      (readings step fetched s es) (readings step lost s es) :=
  Refill.readings_flow (f := step) (I := Inv) (fun s => s.rx.pending) taken fetched lost
    (fun _ e h => (step_eff h e).imp fun _ hs => ⟨hs.1, hs.2.inv, hs.2.flow⟩) es

/-- Transfers that close themselves off leave nothing stale. -/
theorem stale_closed {es : List Env} (h : ∀ e ∈ es, e.transfer.Closed) (s : St) :
    readings step stale s es = [] :=
  readings_nil (fun s e he => by
    show (if s.pc = .recv then Refill.asked s.rx.pending (s.rx.stale e.transfer) else []) = []
    rw [(h e he).stale_nil, Refill.asked, ite_self, ite_self]) s

/-- Nothing is lost while no device is released. -/
theorem lost_connected {es : List Env} (h : ∀ e ∈ es, e.task ≠ .release) (s : St) :
    readings step lost s es = [] :=
  readings_nil (fun _ e he => if_neg fun hh => h e he hh.2) s

/-- A run in which no device is released and every transfer closes itself off. -/
structure Clean (es : List Env) : Prop where
  closed : ∀ e ∈ es, e.transfer.Closed
  connected : ∀ e ∈ es, e.task ≠ .release

theorem Clean.left {a b : List Env} (h : Clean (a ++ b)) : Clean a :=
  ⟨fun e he => h.closed e (List.mem_append_left b he),
    fun e he => h.connected e (List.mem_append_left b he)⟩

theorem Clean.right {a b : List Env} (h : Clean (a ++ b)) : Clean b :=
  ⟨fun e he => h.closed e (List.mem_append_right a he),
    fun e he => h.connected e (List.mem_append_right a he)⟩

/-- What is taken and what waits is what waited and what was sent. -/
theorem run_clean {es : List Env} (hc : Clean es) {s : St} (hi : Inv s) :
    ∃ s', run s es = some s' ∧ Inv s' ∧
      readings step taken s es ++ s'.rx.pending = s.rx.pending ++ readings step sent s es := by
  obtain ⟨s', hrun, hi', hflow⟩ := run_flow es s hi
  rw [lost_connected hc.connected] at hflow
  have hsent : readings step fetched s es = readings step sent s es :=
    (readings_append_iff es s).mpr (stale_closed hc.closed s)
  exact ⟨s', hrun, hi', by rw [hflow.exact, hsent]⟩

/-- The device has come up, and sends two notes and then an empty transfer. -/
def replay : List Env :=
  let two : Transfer := ⟨0, [⟨0x09, 0x90, 60, 64⟩, ⟨0x09, 0x90, 62, 64⟩], by decide, by decide⟩
  let nil : Transfer := ⟨0, [], by decide, by decide⟩
  [⟨.init, nil⟩, ⟨.nothing, two⟩, ⟨.nothing, nil⟩, ⟨.nothing, nil⟩, ⟨.nothing, nil⟩, ⟨.nothing, nil⟩]

/-- The second note is played twice. -/
example : (readings step taken (init fun _ => 0) replay).map EventPacket.midi1 = [60, 62, 60, 62] := by
  decide

end SonicCraft.L3.MidiStream
