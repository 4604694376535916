import SonicCraft.L2Software.MidiPoll
import SonicCraft.L3System.MidiStream

/-!
# From the bus to the voices

The loop of `main()` (SOC/software/space_jam/main.cpp:81-182) with the launches its calls
of `RecvData` make: NAKs, bus timeouts, toggle errors, transfers that fail, and packets.
`Meets` is what is asked of a step when it is taken: the launches are those the call
makes, and the device sends whole event packets, as many as one packet may have.

`step_refines`: such a step is one of `L3System.MidiStream`, whose transfer is the packet
that has been acknowledged. `bus_exact`: what has been acknowledged on the bus is taken,
once and in order, or waits.
-/
namespace SonicCraft.L3.MidiBus
open L2 L2.Usb

structure St where
  stream : MidiStream.St
  epInfo : EpTable

inductive Ev where
  /-- `Usb.Task()`; the table is what an `Init` leaves. -/
  | task (eff : MidiStream.TaskEff) (epInfo : EpTable)
  /-- A call of `RecvData`, with its launches. -/
  | recv (us : List Launch)

/-- What `main()` does with what a call returns.
mirrors SOC/software/space_jam/main.cpp:87-90,182 -/
def handle (m : MidiStream.St) (rx : Rx) : Option EventPacket → MidiStream.St
  | none => { m with rx := rx, pc := .task }
  | some e =>
    if e.size > 0 then { m with rx := rx, midi := MidiLoop.step m.midi (MidiStream.packetOf e) }
    else { m with rx := rx, pc := .task }

/-- `none`: an access outside `recvBuf`, or launches the call does not make. -/
def step (s : St) : Ev → Option St
  | .task eff epInfo =>
    if s.stream.pc = .task then
      (MidiStream.step s.stream ⟨eff, .nak⟩).map fun m =>
        ⟨m, if eff = .init then epInfo else s.epInfo⟩
    else none
  | .recv us =>
    if s.stream.pc = .recv then
      (s.stream.rx.poll s.epInfo us).bind fun r =>
        if r.2 = [] then r.1.2.map fun x => ⟨handle s.stream x.2 x.1, r.1.1⟩ else none
    else none

abbrev run (s : St) (es : List Ev) : Option St := execOpt step s es

/-- Power-up. -/
def init (mem : RecvBuf) (epInfo : EpTable) : St := ⟨MidiStream.init mem, epInfo⟩

/-! ## Event packets on the bus -/

/-- A packet of whole event packets, none of which looks like the end. -/
structure Speaks (packet : Nat) (p : List Byte) : Prop where
  whole : (eventPackets p).flatMap EventPacket.bytes = p
  live : ∀ e ∈ eventPackets p, e.Live
  few : p.length ≤ packet

/-- What the device has handed over. -/
def heard (us : List Launch) : List EventPacket := (packets us).flatMap eventPackets

def Ev.heard : Ev → List EventPacket
  | .task _ _ => []
  | .recv us => MidiBus.heard us

/-- The transfer of a call. -/
def transferOf (us : List Launch) : Transfer :=
  if h : (packets us).length = 1 ∧ (∀ e ∈ heard us, e.Live) ∧ (heard us).length ≤ 16 then
    ⟨0, heard us, h.2.1, h.2.2⟩
  else .nak

def Ev.env : Ev → MidiStream.Env
  | .task eff _ => ⟨eff, .nak⟩
  | .recv us => ⟨.nothing, transferOf us⟩

theorem transferOf_nil {us : List Launch} (h : packets us = []) : transferOf us = .nak :=
  dif_neg fun hh => by rw [h] at hh; cases hh.1

theorem Speaks.length {packet : Nat} {p : List Byte} (h : Speaks packet p) (h64 : packet ≤ 64) :
    (eventPackets p).length ≤ 16 := by
  have h1 := bytes_length (eventPackets p)
  rw [h.whole] at h1
  have h2 := h.few
  omega

theorem transferOf_one {us : List Launch} {packet : Nat} {p : List Byte} (hps : packets us = [p])
    (h : Speaks packet p) (h64 : packet ≤ 64) :
    (transferOf us).rcode = 0 ∧ (transferOf us).events = eventPackets p := by
  have hheard : heard us = eventPackets p := by
    rw [heard, hps, List.flatMap_singleton]
  have hcond : (packets us).length = 1 ∧ (∀ e ∈ heard us, e.Live) ∧ (heard us).length ≤ 16 := by
    rw [hheard, hps]
    exact ⟨rfl, h.live, h.length h64⟩
  rw [transferOf, dif_pos hcond]
  exact ⟨rfl, hheard⟩

/-- Errors are all alike to a call. -/
theorem next_error (s : Rx) {r r' : Reply} (h : r.rcode ≠ 0) (h' : r'.rcode ≠ 0)
    (hb : r.bytes = r'.bytes) : s.next r = s.next r' := by
  unfold Rx.next recvInto
  simp only [hb, h, h', ne_eq, not_false_eq_true, if_true]

/-- The packet of a call, as `MidiReceive` takes it. -/
theorem next_transferOf {packet : Nat} (h64 : packet ≤ 64) {us : List Launch} {r : Reply}
    (hb : r.bytes = (packets us).flatten.take packet)
    (hr : packets us = [] ∧ r.rcode ≠ 0 ∨ ∃ p, packets us = [p] ∧ r.rcode = 0)
    (hs : ∀ p ∈ packets us, Speaks packet p) (s : Rx) :
    s.next r = s.nextOf (transferOf us) := by
  rcases hr with ⟨hnil, hne⟩ | ⟨p, hps, h0⟩
  · rw [hnil, List.flatten_nil, List.take_nil] at hb
    rw [transferOf_nil hnil]
    exact next_error s hne (by decide) hb
  · rw [hps] at hs
    have hp := hs p List.mem_cons_self
    obtain ⟨hcode, hevents⟩ := transferOf_one hps hp h64
    rw [hps, List.flatten_singleton, List.take_of_length_le hp.few] at hb
    have heq : r = (transferOf us).reply := by
      obtain ⟨rcode, bytes, fits⟩ := r
      unfold Transfer.reply
      rw [Reply.mk.injEq]
      exact ⟨h0.trans hcode.symm, by rw [hevents, hp.whole]; exact hb⟩
    rw [heq]
    rfl

/-! ## One step -/

/-- What is asked of the bus, the device and the driver's `Init`. -/
inductive Meets (s : St) : Ev → Prop
  | task {eff : MidiStream.TaskEff} {epInfo : EpTable} (hpc : s.stream.pc = .task)
      (hinit : eff = .init → ∃ packet, DataIn packet epInfo) : Meets s (.task eff epInfo)
  | recv {us : List Launch} (hpc : s.stream.pc = .recv)
      (hruns : ∃ x, Client.Runs (s.stream.rx.poll s.epInfo) us x)
      (hspeaks : ∀ packet, DataIn packet s.epInfo → ∀ p ∈ packets us, Speaks packet p) :
      Meets s (.recv us)

/-- While a device is polled its record is the one it has. -/
structure Inv (s : St) : Prop where
  stream : MidiStream.Inv s.stream
  table : s.stream.rx.bPollEnable = true → ∃ packet, DataIn packet s.epInfo

theorem inv_init (mem : RecvBuf) (epInfo : EpTable) : Inv (init mem epInfo) :=
  ⟨MidiStream.inv_init mem, fun h => by cases h⟩

/-- `RecvData` and the `switch`, as `MidiStream` has them. -/
theorem stream_recv {m : MidiStream.St} (hpc : m.pc = .recv) (eff : MidiStream.TaskEff) (t : Transfer) :
    MidiStream.step m ⟨eff, t⟩ = (m.rx.nextOf t).map fun x => handle m x.2 x.1 := by
  obtain ⟨pc, rx₀, midi⟩ := m
  obtain rfl : pc = .recv := hpc
  show Option.map _ (Option.map _ (rx₀.nextOf t)) = _
  rw [Option.map_map]
  congr 1
  funext x
  obtain ⟨e, rx⟩ := x
  cases e <;> rfl

/-- What a step does to the table. -/
theorem table_task {s : St} (h : Inv s) {eff : MidiStream.TaskEff} {epInfo : EpTable}
    (hinit : eff = .init → ∃ packet, DataIn packet epInfo) :
    (eff.apply s.stream.rx).bPollEnable = true →
      ∃ packet, DataIn packet (if eff = .init then epInfo else s.epInfo) := by
  intro hp
  by_cases hi : eff = .init
  · rw [if_pos hi]; exact hinit hi
  · rw [if_neg hi]
    cases eff with
    | nothing => exact h.table hp
    | release => cases hp
    | init => exact absurd rfl hi

/-- What a call hears. -/
theorem sent_recv {s : St} (h : Inv s) (hpc : s.stream.pc = .recv) {us : List Launch} {packet : Nat}
    (hd : DataIn packet s.epInfo) {x : EpTable × Option (Option EventPacket × Rx)}
    (hr : Client.Runs (s.stream.rx.poll s.epInfo) us x) (hs : ∀ p ∈ packets us, Speaks packet p) :
    MidiStream.sent s.stream ⟨.nothing, transferOf us⟩ = heard us := by
  have hsent : MidiStream.sent s.stream ⟨.nothing, transferOf us⟩ =
      Refill.asked s.stream.rx.pending (transferOf us).sent := if_pos hpc
  rw [hsent]
  rcases poll_parts hd hr with ⟨rfl, -⟩ | ⟨r, hrun, -, hu, -⟩
  · rw [transferOf_nil rfl, Refill.asked]
    show (if _ then [] else []) = _
    rw [ite_self]
    rfl
  · rw [unprocessed_eq h.stream.aligned, Option.some.injEq, decide_eq_false_iff_not, not_not] at hu
    rw [Refill.asked, if_pos hu]
    obtain ⟨hone, -⟩ := inTransfer_one hd.size hd.nbytes hd.fits hrun
    rcases hone.few with ⟨hnil, -⟩ | ⟨p, hps, -⟩
    · rw [transferOf_nil hnil, heard, hnil]; rfl
    · have hp := hs p (by rw [hps]; exact List.mem_cons_self)
      obtain ⟨hcode, hevents⟩ := transferOf_one hps hp hd.fits
      rw [Transfer.sent, if_neg (not_not.mpr hcode), hevents, heard, hps, List.flatMap_singleton]

/-- **A step on the bus is a step of `MidiStream`**, with what has been acknowledged. -/
theorem step_refines {s : St} (h : Inv s) {e : Ev} (he : Meets s e) :
    ∃ s', step s e = some s' ∧ Inv s' ∧ MidiStream.step s.stream e.env = some s'.stream ∧
      MidiStream.sent s.stream e.env = e.heard := by
  cases he with
  | @task eff epInfo hpc hinit =>
    obtain ⟨m, hm, hstep⟩ := MidiStream.step_eff h.stream ⟨eff, .nak⟩
    have hrx : m.rx = eff.apply s.stream.rx := by
      rw [MidiStream.step, hpc] at hm
      exact (congrArg MidiStream.St.rx (Option.some.inj hm)).symm
    refine ⟨⟨m, if eff = .init then epInfo else s.epInfo⟩, ?_, ⟨hstep.inv, ?_⟩, hm,
      MidiStream.receiving_task hpc _ _⟩
    · rw [step, if_pos hpc, hm]; rfl
    · show m.rx.bPollEnable = true → _
      rw [hrx]
      exact table_task h hinit
  | @recv us hpc hruns hspeaks =>
    obtain ⟨x, hr⟩ := hruns
    obtain ⟨packet, hd⟩ := h.table (h.stream.poll hpc)
    obtain ⟨r, hx, hd', hb, hcode⟩ := poll_runs hd hr
    obtain ⟨m, hm, hstep⟩ := MidiStream.step_eff h.stream ⟨.nothing, transferOf us⟩
    have hm' := hm
    rw [stream_recv hpc, ← next_transferOf hd.fits hb hcode (hspeaks packet hd), ← hx] at hm'
    refine ⟨⟨m, x.1⟩, ?_, ⟨hstep.inv, fun _ => ⟨packet, hd'⟩⟩, hm, sent_recv h hpc hd hr (hspeaks packet hd)⟩
    rw [step, if_pos hpc, hr.eq, Option.bind_some, if_pos rfl]
    obtain ⟨y, hy, rfl⟩ := Option.map_eq_some_iff.mp hm'
    rw [hy]
    rfl

/-! ## Whole runs -/

/-- Every step meets what is asked of it when it is taken. -/
def Adm : St → List Ev → Prop
  | _, [] => True
  | s, e :: es => Meets s e ∧ ∀ s', step s e = some s' → Adm s' es

/-- **Refinement.** A run never leaves `recvBuf`, and is one of `MidiStream` in which the
device sends what has been acknowledged on the bus. -/
theorem run_bus (es : List Ev) : ∀ s, Inv s → Adm s es → ∃ s', run s es = some s' ∧ Inv s' ∧
    MidiStream.run s.stream (es.map Ev.env) = some s'.stream ∧
    readings MidiStream.step MidiStream.sent s.stream (es.map Ev.env) = es.flatMap Ev.heard := by
  induction es with
  | nil => intro s h _; exact ⟨s, rfl, h, rfl, rfl⟩
  | cons e es ih =>
    intro s h hadm
    obtain ⟨he, hrest⟩ := hadm
    obtain ⟨s₁, hs, h₁, hm, hsent⟩ := step_refines h he
    obtain ⟨s', hrun, h', hrun', hsent'⟩ := ih s₁ h₁ (hrest s₁ hs)
    refine ⟨s', by rw [run, execOpt_cons hs]; exact hrun, h', ?_, ?_⟩
    · rw [List.map_cons, MidiStream.run, execOpt_cons hm]; exact hrun'
    · rw [List.map_cons, readings_cons hm, hsent, hsent', List.flatMap_cons]

/-- A step that leaves nothing to be handed out again, of a device that stays. -/
def Clean : Ev → Prop
  | .task eff _ => eff ≠ .release
  | .recv us => ∀ p ∈ packets us, eventPackets p ≠ [] ∧ (eventPackets p).length ≠ 15

instance : DecidablePred Clean
  | .task eff _ => inferInstanceAs (Decidable (eff ≠ .release))
  | .recv us => inferInstanceAs (Decidable (∀ p ∈ packets us, _))

theorem nak_closed : Transfer.nak.Closed := .inl (by decide)

theorem transferOf_closed {us : List Launch} (h : Clean (.recv us)) : (transferOf us).Closed := by
  unfold transferOf
  split
  · rename_i hcond
    obtain ⟨p, hps⟩ := List.length_eq_one_iff.mp hcond.1
    refine .inr ?_
    show heard us ≠ [] ∧ (heard us).length ≠ 15
    rw [heard, hps, List.flatMap_singleton]
    exact h p (by rw [hps]; exact List.mem_cons_self)
  · exact nak_closed

theorem clean_env {es : List Ev} (h : ∀ e ∈ es, Clean e) : MidiStream.Clean (es.map Ev.env) where
  closed := by
    intro e he
    obtain ⟨ev, hev, rfl⟩ := List.mem_map.mp he
    cases ev with
    | task => exact nak_closed
    | recv us => exact transferOf_closed (h _ hev)
  connected := by
    intro e he
    obtain ⟨ev, hev, rfl⟩ := List.mem_map.mp he
    cases ev with
    | task eff => exact h _ hev
    | recv us => exact fun hh => by cases hh

instance (packet : Nat) (t : EpTable) : Decidable (DataIn packet t) :=
  decidable_of_iff ((t epDataInIndex).maxPktSize.toNat = packet ∧ packet ≤ 64 ∧
      (t epControlIndex).epAddr ≠ (t epDataInIndex).epAddr ∧ (t epDataInIndex).bmNakPower = 1)
    ⟨fun h => ⟨h.1, h.2.1, h.2.2.1, h.2.2.2⟩, fun h => ⟨h.size, h.fits, h.own, h.nowait⟩⟩

instance (packet : Nat) (p : List Byte) : Decidable (Speaks packet p) :=
  decidable_of_iff ((eventPackets p).flatMap EventPacket.bytes = p ∧
      (∀ e ∈ eventPackets p, e.Live) ∧ p.length ≤ packet)
    ⟨fun h => ⟨h.1, h.2.1, h.2.2⟩, fun h => ⟨h.whole, h.live, h.few⟩⟩

/-- `Meets`, to be evaluated. -/
def Check (s : St) : Ev → Prop
  | .task eff epInfo => s.stream.pc = .task ∧
      (eff = .init → DataIn (epInfo epDataInIndex).maxPktSize.toNat epInfo)
  | .recv us => s.stream.pc = .recv ∧ ((s.stream.rx.poll s.epInfo us).any fun r => r.2 = []) = true ∧
      ∀ p ∈ packets us, Speaks (s.epInfo epDataInIndex).maxPktSize.toNat p

instance (s : St) : DecidablePred (Check s)
  | .task _ _ => inferInstanceAs (Decidable (_ ∧ _))
  | .recv _ => inferInstanceAs (Decidable (_ ∧ _ ∧ _))

theorem Check.meets {s : St} {e : Ev} (h : Check s e) : Meets s e := by
  cases e with
  | task eff epInfo => exact .task h.1 fun hi => ⟨_, h.2 hi⟩
  | recv us =>
    obtain ⟨hpc, hany, hs⟩ := h
    obtain ⟨⟨x, rest⟩, hx, hnil⟩ := (Option.any_eq_true _ _).mp hany
    obtain rfl : rest = [] := of_decide_eq_true hnil
    exact .recv hpc ⟨x, (local_poll _ _).runs hx⟩ fun packet hd => by rw [← hd.size]; exact hs

def check : St → List Ev → Bool
  | _, [] => true
  | s, e :: es => decide (Check s e) && ((step s e).all fun s' => check s' es)

theorem adm_of_check : ∀ (es : List Ev) (s : St), check s es = true → Adm s es := by
  intro es
  induction es with
  | nil => intro s _; trivial
  | cons e es ih =>
    intro s h
    rw [check, Bool.and_eq_true] at h
    refine ⟨Check.meets (of_decide_eq_true h.1), fun s' hs => ih s' ?_⟩
    have h2 := h.2
    rw [hs] at h2
    exact h2

/-- Two keys go down in one packet; one comes up after a bus timeout and a toggle error. -/
def session : List Ev :=
  [.task .init epIn, .recv [epIdle hrNAK], .task .nothing epIn,
    .recv [epData [0x09, 0x90, 60, 64, 0x09, 0x90, 62, 64] (by decide)], .recv [],
    .recv [epIdle hrTIMEOUT, epIdle hrTOGERR, epData [0x08, 0x80, 60, 0] (by decide)]]

end SonicCraft.L3.MidiBus
