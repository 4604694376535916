import SonicCraft.L2Software.MidiReceive
import SonicCraft.L2Software.UsbTransfer

/-!
# `RecvData` on the bus

SOC/software/space_jam/include/usbh_midi.cpp:313-369 over `USB::inTransfer`
(Usb.cpp:44-59,209-222). `L2Software.MidiReceive` takes what the transfer gives back
as it comes; here a call is a client of launches, and the transfer is the one the driver
asks for, of as many bytes as one packet may have.

* `poll_runs`: a call is a call of `MidiReceive`, on the one packet that has been
  acknowledged or on none.
* `poll_launches`: a call never waits for a key. It returns at the first NAK, and without
  toggle errors it has returned after three launches.
-/
namespace SonicCraft.L2.Usb

/-! ## The driver -/

/-- What `USB::inTransfer` leaves: the table, `*nbytesptr`, and what is at `data`. -/
structure InCall where
  rcode : Byte
  epInfo : EpTable
  nbytesptr : BitVec 16
  data : List Byte

/-- `USB::inTransfer`, of an address the pool has.
mirrors SOC/software/space_jam/include/Usb.cpp:209-222 -/
def inTransferAt (t : EpTable) (ep : Byte) (nbytes : BitVec 16) : Client Launch InCall :=
  (getEpInfoEntry t ep).elim (pure ⟨0xDB, t, nbytes, []⟩) fun i => do
    let r ← inTransfer (t i) (t i).nakLimit nbytes
    pure ⟨r.1, Function.update t i r.2.2.pep, r.2.2.nbytesptr, r.2.2.data⟩

/-- `RecvData(uint16_t *, uint8_t *)` behind the transfer. -/
def closeOff (buf : RecvBuf) (r : InCall) : Option RecvBuf :=
  (buf.write 0 r.data).bind fun buf =>
    if r.nbytesptr.toNat < 64 - 4 then
      (buf.store r.nbytesptr.toNat 0).bind fun buf => buf.store (r.nbytesptr.toNat + 1) 0
    else some buf

/-- `RecvData(uint8_t *, bool)` behind the transfer. -/
def Rx.received (s : Rx) (r : InCall) : Option (Option EventPacket × Rx) :=
  (closeOff s.recvBuf r).bind fun buf =>
    let s := { s with readPtr := 0, recvBuf := buf }
    if r.rcode ≠ 0 then some (none, s)
    else if (slot buf firstSlot).IsZero then some (none, s)
    else s.returnFromBuffer

/-- A call of `RecvData`; `none` is an access outside `recvBuf`.
mirrors SOC/software/space_jam/include/usbh_midi.cpp:314-369 -/
def Rx.poll (s : Rx) (t : EpTable) : Client Launch (EpTable × Option (Option EventPacket × Rx)) :=
  if s.bPollEnable = false then pure (t, some (none, s))
  else s.unprocessed.elim (pure (t, none)) fun found =>
    if found then pure (t, s.returnFromBuffer)
    else do
      let r ← inTransferAt t (t epDataInIndex).epAddr ((t epDataInIndex).maxPktSize.setWidth 16)
      pure (r.epInfo, s.received r)

/-! ## One transfer -/

/-- The data IN endpoint has packets of up to `packet` bytes, and its own address. -/
structure DataIn (packet : Nat) (t : EpTable) : Prop where
  size : (t epDataInIndex).maxPktSize.toNat = packet
  fits : packet ≤ 64
  own : (t epControlIndex).epAddr ≠ (t epDataInIndex).epAddr
  nowait : (t epDataInIndex).bmNakPower = 1

variable {packet : Nat} {t : EpTable}

theorem DataIn.entry (h : DataIn packet t) :
    getEpInfoEntry t (t epDataInIndex).epAddr = some epDataInIndex := by
  refine Fin.find?_eq_some_iff.mpr ⟨beq_self_eq_true _, fun j hj => ?_⟩
  have hj1 : (j : Nat) < 1 := hj
  obtain rfl : j = 0 := Fin.ext (by show (j : Nat) = 0; omega)
  exact beq_eq_false_iff_ne.mpr h.own

theorem DataIn.nakLimit (h : DataIn packet t) : (t epDataInIndex).nakLimit = 1 := by
  rw [EpInfo.nakLimit, h.nowait]
  rfl

theorem DataIn.nbytes (h : DataIn packet t) :
    ((t epDataInIndex).maxPktSize.setWidth 16 : BitVec 16).toNat = packet := by
  rw [BitVec.toNat_setWidth, h.size]
  have := h.fits
  exact Nat.mod_eq_of_lt (by omega)

theorem DataIn.short (h : DataIn packet t) :
    ((t epDataInIndex).maxPktSize.setWidth 16 : BitVec 16).toNat < 2 ^ 15 := by
  rw [h.nbytes]
  have := h.fits
  omega

/-- Only the toggle of a record changes. -/
theorem DataIn.update (h : DataIn packet t) {pep : EpInfo}
    (hp : pep = { t epDataInIndex with bmRcvToggle := pep.bmRcvToggle }) :
    DataIn packet (Function.update t epDataInIndex pep) := by
  have h0 : Function.update t epDataInIndex pep 0 = t 0 :=
    Function.update_of_ne (by decide) _ _
  have h1 : Function.update t epDataInIndex pep epDataInIndex = pep := Function.update_self _ _ _
  refine ⟨?_, h.fits, ?_, ?_⟩
  · rw [h1, hp]; exact h.size
  · rw [h0, h1, hp]; exact h.own
  · rw [h1, hp]; exact h.nowait

/-- What a transfer of one packet's bytes comes to: an error, or one packet. -/
structure OnePacket (packet : Nat) (us : List Launch) (rcode : Byte) (count : BitVec 16)
    (data : List Byte) : Prop where
  few : packets us = [] ∧ rcode ≠ 0 ∨ ∃ p, packets us = [p] ∧ rcode = 0
  bytes : data = (packets us).flatten.take packet
  counted : count.toNat = data.length

/-- The first full packet is the last. -/
theorem Received.nil_of_full {nbytes : BitVec 16} {pep : EpInfo} {ps : List (List Byte)} {s : InSt}
    (h : Received nbytes pep ps s) (hn : nbytes.toNat ≤ pep.maxPktSize.toNat) : ps = [] := by
  cases ps with
  | nil => rfl
  | cons p ps =>
    have h1 := h.room (List.cons_ne_nil p ps)
    have h2 := h.full p List.mem_cons_self
    rw [List.flatten_cons, List.length_append] at h1
    omega

theorem inTransfer_one {pep : EpInfo} {k nbytes : BitVec 16} (hp : pep.maxPktSize.toNat = packet)
    (hn : nbytes.toNat = packet) (h64 : packet ≤ 64) {us : List Launch} {r : Byte × Launch × InSt}
    (h : Client.Runs (inTransfer pep k nbytes) us r) :
    OnePacket packet us r.1 r.2.2.nbytesptr r.2.2.data ∧
      r.2.2.pep = { pep with bmRcvToggle := r.2.2.pep.bmRcvToggle } := by
  obtain ⟨rcode, tail, s⟩ := r
  have hend := (inTransfer_runs (by omega) h).1
  generalize hps : packets us = qs at hend
  cases hend with
  | failed hI hr =>
    obtain rfl := hI.nil_of_full (by omega)
    refine ⟨⟨.inl ⟨hps, hr⟩, ?_, ?_⟩, hI.same⟩
    · rw [hps, hI.data, List.flatten_nil, List.take_nil]
    · rw [hI.count, hI.data]
  | @done ps s hI p toggle he =>
    obtain rfl := hI.nil_of_full (by omega)
    refine ⟨⟨.inr ⟨p, hps, rfl⟩, ?_, ?_⟩, rfl⟩
    · rw [hps, hn]; simp
    · show (BitVec.ofNat 16 (0 + min p.length nbytes.toNat)).toNat =
        (List.flatten [] ++ p.take (nbytes.toNat - 0)).length
      rw [List.flatten_nil, List.nil_append, List.length_take, BitVec.toNat_ofNat,
        Nat.mod_eq_of_lt (by omega)]
      omega

/-! ## How long it takes -/

theorem oneNak_ne_zero : (1 : BitVec 16) ≠ 0 := by decide

/-- One NAK is one too many. -/
theorem Waited.no_nak {token : Token} {ep : Byte} {us : List Launch} (h : Waited token ep 1 us) :
    ∀ u ∈ us, u.nak = false := by
  have hnaks : us.countP Launch.nak = 0 := Nat.lt_one_iff.mp (h.naks oneNak_ne_zero)
  intro u hu
  simpa using List.countP_eq_zero.mp hnaks u hu

theorem InRounds.no_nak {nbytes : BitVec 16} {pep : EpInfo} {us : List Launch} {s : InSt}
    (h : InRounds nbytes pep 1 us s) : ∀ u ∈ us, u.nak = false := by
  have hnaks : us.countP Launch.nak ≤ 0 * answers us := h.naks
  rw [Nat.zero_mul] at hnaks
  intro u hu
  simpa using List.countP_eq_zero.mp (Nat.le_zero.mp hnaks) u hu

section OneNak
variable {pep : EpInfo} {nbytes : BitVec 16} (hn : nbytes.toNat < 2 ^ 15)
include hn

theorem inTransfer_nak {us : List Launch} {r : Byte × Launch × InSt}
    (h : Client.Runs (inTransfer pep 1 nbytes) us r) : ∀ u ∈ us.dropLast, u.nak = false := by
  obtain ⟨us₁, s, us₂, rfl, hI, hlast⟩ := ((inTransfer_loop 1 nbytes).runs_loop.mp h).inv
    (I := InRounds nbytes pep 1) (fun h us s s' => inRounds_step hn oneNak_ne_zero)
    (inRounds_nil nbytes pep 1)
  obtain ⟨idle, u, rfl, hw, -⟩ := runs_inBody hlast
  rw [← List.append_assoc, List.dropLast_concat]
  exact List.forall_mem_append.mpr ⟨hI.no_nak, hw.no_nak⟩

/-- A transfer of one packet's bytes that has not ended: there was no NAK, and no packet. -/
theorem inTransfer_one_waits (hp : nbytes.toNat ≤ pep.maxPktSize.toNat) {ts : List Launch}
    (htok : ∀ u ∈ ts, u.token = .tokIN ∧ u.ep = pep.epAddr) (h : inTransfer pep 1 nbytes ts = none) :
    (∀ u ∈ ts, u.nak = false) ∧ ts.length < 3 * (ts.countP Launch.togerr + 1) := by
  obtain ⟨us, s, idle, hts, hI, hw⟩ := inTransfer_waits hn oneNak_ne_zero htok h
  have hpackets : packets ts = [] := by
    rw [hts, packets_append, hI.received.nil_of_full hp, packets_idle hw.idle, List.append_nil]
  refine ⟨?_, Nat.lt_of_not_le fun hle => inTransfer_returns hn oneNak_ne_zero htok ?_ h⟩
  · rw [hts]
    exact List.forall_mem_append.mpr ⟨hI.no_nak, hw.no_nak⟩
  · rw [answers, hpackets]
    exact hle

end OneNak

/-! ## One call -/

theorem local_inTransferAt (t : EpTable) (ep : Byte) (nbytes : BitVec 16) :
    Client.Local (inTransferAt t ep nbytes) := by
  unfold inTransferAt
  cases getEpInfoEntry t ep with
  | none => exact Client.local_pure _
  | some i => exact (local_inTransfer _ _ _).bind fun _ => Client.local_pure _

theorem local_poll (s : Rx) (t : EpTable) : Client.Local (s.poll t) := by
  refine (Client.local_pure _).ite ?_
  cases s.unprocessed with
  | none => exact Client.local_pure _
  | some found =>
    exact (Client.local_pure _).ite ((local_inTransferAt _ _ _).bind fun _ => Client.local_pure _)

/-- What a call does with what its transfer leaves. -/
def Rx.afterTransfer (s : Rx) (t : EpTable) (r : Byte × Launch × InSt) :
    EpTable × Option (Option EventPacket × Rx) :=
  (Function.update t epDataInIndex r.2.2.pep,
    s.received ⟨r.1, Function.update t epDataInIndex r.2.2.pep, r.2.2.nbytesptr, r.2.2.data⟩)

/-- A call takes nothing from the bus, or makes one transfer. -/
theorem poll_eq (h : DataIn packet t) (s : Rx) :
    (∃ x, s.poll t = pure (t, x) ∧ ∀ r, x = s.next r) ∨
    s.bPollEnable ≠ false ∧ s.unprocessed = some false ∧
      s.poll t = (inTransfer (t epDataInIndex) 1 ((t epDataInIndex).maxPktSize.setWidth 16) >>=
        fun r => pure (s.afterTransfer t r)) := by
  unfold Rx.poll
  by_cases hp : s.bPollEnable = false
  · exact .inl ⟨_, if_pos hp, fun r => by rw [Rx.next, if_pos hp]⟩
  rw [if_neg hp]
  cases hu : s.unprocessed with
  | none => exact .inl ⟨none, rfl, fun r => by rw [Rx.next, if_neg hp, hu]; rfl⟩
  | some found =>
    cases found with
    | true => exact .inl ⟨_, rfl, fun r => by rw [Rx.next, if_neg hp, hu]; rfl⟩
    | false =>
      refine .inr ⟨hp, rfl, ?_⟩
      rw [Option.elim_some, if_neg Bool.false_ne_true, inTransferAt, h.entry, Option.elim_some,
        h.nakLimit, Client.bind_pure_bind]
      rfl

/-- What a call that returns has taken from the bus. -/
theorem poll_parts (h : DataIn packet t) {s : Rx} {us : List Launch}
    {x : EpTable × Option (Option EventPacket × Rx)} (hr : Client.Runs (s.poll t) us x) :
    (us = [] ∧ x.1 = t ∧ ∀ r, x.2 = s.next r) ∨
    ∃ r : Byte × Launch × InSt,
      Client.Runs (inTransfer (t epDataInIndex) 1 ((t epDataInIndex).maxPktSize.setWidth 16)) us r ∧
      s.bPollEnable ≠ false ∧ s.unprocessed = some false ∧ x = s.afterTransfer t r := by
  rcases poll_eq h s with ⟨x', hpoll, hnext⟩ | ⟨hp, hu, hpoll⟩
  · rw [hpoll] at hr
    obtain ⟨rfl, rfl⟩ := Client.runs_pure.mp hr
    exact .inl ⟨rfl, rfl, hnext⟩
  · rw [hpoll] at hr
    obtain ⟨us₁, r, us₂, rfl, hrun, hend⟩ :=
      (Client.runs_bind (local_inTransfer _ _ _) fun _ => Client.local_pure _).mp hr
    obtain ⟨rfl, rfl⟩ := Client.runs_pure.mp hend
    rw [List.append_nil]
    exact .inr ⟨r, hrun, hp, hu, rfl⟩

/-- What a transfer gives back, as `MidiReceive` takes it. -/
theorem received_next {s : Rx} (hp : s.bPollEnable ≠ false) (hu : s.unprocessed = some false)
    (r : Reply) {c : InCall} (hcode : c.rcode = r.rcode) (hdata : c.data = r.bytes)
    (hcount : c.nbytesptr.toNat = c.data.length) : s.received c = s.next r := by
  rw [Rx.next, if_neg hp, hu, Option.bind_some, if_neg Bool.false_ne_true, Rx.received, closeOff,
    recvInto, hcount, hdata, hcode]
  rfl

/-- **A call on the bus** is a call of `MidiReceive`, on the packet that has been
acknowledged, if any; the endpoint keeps its record. -/
theorem poll_runs (h : DataIn packet t) {s : Rx} {us : List Launch}
    {x : EpTable × Option (Option EventPacket × Rx)} (hr : Client.Runs (s.poll t) us x) :
    ∃ r : Reply, x.2 = s.next r ∧ DataIn packet x.1 ∧ r.bytes = (packets us).flatten.take packet ∧
      (packets us = [] ∧ r.rcode ≠ 0 ∨ ∃ p, packets us = [p] ∧ r.rcode = 0) := by
  rcases poll_parts h hr with ⟨rfl, ht, hx⟩ | ⟨r, hrun, hp, hu, rfl⟩
  · exact ⟨⟨hrNAK, [], Nat.zero_le _⟩, hx _, ht ▸ h, List.take_nil.symm, .inl ⟨rfl, by decide⟩⟩
  · obtain ⟨hone, hsame⟩ := inTransfer_one h.size h.nbytes h.fits hrun
    have hle : r.2.2.data.length ≤ 64 := by
      rw [hone.bytes, List.length_take]
      have := h.fits
      omega
    exact ⟨⟨r.1, r.2.2.data, hle⟩, received_next hp hu _ rfl rfl hone.counted, h.update hsame,
      hone.bytes, hone.few⟩

/-- A call that has not ended is in its transfer. -/
theorem poll_waits (h : DataIn packet t) {s : Rx} {ts : List Launch} (hw : s.poll t ts = none) :
    inTransfer (t epDataInIndex) 1 ((t epDataInIndex).maxPktSize.setWidth 16) ts = none := by
  rcases poll_eq h s with ⟨x, hpoll, -⟩ | ⟨-, -, hpoll⟩
  · rw [hpoll] at hw; cases hw
  · rw [hpoll] at hw
    rcases Client.bind_none hw with htransfer | ⟨r, ts', -, hpure⟩
    · exact htransfer
    · cases hpure

/-- What a call takes from the bus: no launch but the last is NAKed, and there are three
for every toggle error, and three more. -/
structure Prompt (us : List Launch) : Prop where
  nak : ∀ u ∈ us.dropLast, u.nak = false
  packet : (packets us).length ≤ 1
  launches : us.length ≤ 3 * (us.countP Launch.togerr + 1)

theorem poll_prompt (h : DataIn packet t) {s : Rx} {us : List Launch}
    {x : EpTable × Option (Option EventPacket × Rx)} (hr : Client.Runs (s.poll t) us x) :
    Prompt us := by
  rcases poll_parts h hr with ⟨rfl, -⟩ | ⟨r, hrun, -⟩
  · exact ⟨List.forall_mem_nil _, Nat.zero_le _, Nat.zero_le _⟩
  · obtain ⟨hone, -⟩ := inTransfer_one h.size h.nbytes h.fits hrun
    have hlen := inTransfer_launches h.short oneNak_ne_zero hrun
    have h1 : (1 : BitVec 16).toNat = 1 := rfl
    refine ⟨inTransfer_nak h.short hrun, ?_, ?_⟩
    · rcases hone.few with ⟨hnil, -⟩ | ⟨p, hps, -⟩
      · rw [hnil]; exact Nat.zero_le _
      · rw [hps]; exact Nat.le_refl 1
    · rw [answers, h1] at hlen
      rcases hone.few with ⟨hnil, hne⟩ | ⟨p, hps, h0⟩
      · rw [hnil, if_neg hne] at hlen; exact hlen
      · rw [hps, if_pos h0] at hlen; exact hlen

/-- **A call never waits for a key.** It returns at a NAK, and after three launches for
every toggle error, and three more; and it takes no more than these. -/
theorem poll_launches (h : DataIn packet t) (s : Rx) :
    (∀ ts : List Launch, (∀ u ∈ ts, u.token = .tokIN ∧ u.ep = (t epDataInIndex).epAddr) →
      ((∃ u ∈ ts, u.nak = true) ∨ 3 * (ts.countP Launch.togerr + 1) ≤ ts.length) →
      ∃ x rest, s.poll t ts = some (x, rest)) ∧
    ∀ ts rest x, s.poll t ts = some (x, rest) → ∃ us, ts = us ++ rest ∧ Prompt us := by
  constructor
  · intro ts htok hend
    obtain ⟨r, hr⟩ : ∃ r, s.poll t ts = some r := by
      refine Option.ne_none_iff_exists'.mp fun hw => ?_
      obtain ⟨hnak, hlt⟩ :=
        inTransfer_one_waits h.short (h.nbytes.trans h.size.symm).le htok (poll_waits h hw)
      rcases hend with ⟨u, hu, hyes⟩ | hle
      · exact Bool.noConfusion ((hnak u hu).symm.trans hyes)
      · omega
    exact ⟨r.1, r.2, hr⟩
  · intro ts rest x hr
    obtain ⟨us, rfl, hruns⟩ := local_poll s t ts x rest hr
    exact ⟨us, rfl, poll_prompt h hruns⟩

/-- The data IN endpoint is endpoint 1, with packets of 64 bytes. -/
def epIn : EpTable := fun i => ⟨if i = epDataInIndex then 1 else 0, 64, false, false, 1⟩

/-- Launches at endpoint 1. -/
def epIdle (hrsl : Byte) : Launch := ⟨.tokIN, 1, hrsl, false, [], false, empty_fits⟩

def epData (p : List Byte) (h : p.length < 256) : Launch := ⟨.tokIN, 1, 0, true, p, false, h⟩

/-- A bus timeout, a toggle error, a Note On, and a keyboard that has no more to send. -/
def epNote : List Launch :=
  [epIdle hrTIMEOUT, epIdle hrTOGERR, epData [0x09, 0x90, 60, 64] (by decide), epIdle hrNAK]

theorem poll_launches_note : ∃ us rest x, epNote = us ++ rest ∧
    Rx.poll ⟨true, fun _ => 0, 0⟩ epIn epNote = some (x, rest) ∧ Prompt us := by
  obtain ⟨hreturns, hprompt⟩ :=
    @poll_launches 64 epIn ⟨rfl, Nat.le_refl 64, by decide, rfl⟩ ⟨true, fun _ => 0, 0⟩
  obtain ⟨x, rest, hr⟩ := hreturns epNote (by simp [epNote, epIdle, epData, epIn])
    (.inl ⟨epIdle hrNAK, by simp [epNote], rfl⟩)
  obtain ⟨us, hus, hp⟩ := hprompt epNote rest x hr
  exact ⟨us, rest, x, hus, hr, hp⟩

end SonicCraft.L2.Usb
