import SonicCraft.L2Software.MidiReceive
import SonicCraft.L2Software.OutTransfer

/-!
# `USBH_MIDI::SendData`: messages into event packets

SOC/software/space_jam/include/usbh_midi.cpp:371-551 and usbh_midi.h:100-105. A message
is one event packet; a system exclusive message is cut into packets of three bytes, which
are gathered in a buffer of 64 bytes and handed over when it holds `maxpkt` of them.
`maxpkt` is the IN endpoint's, and the record an OUT transfer uses is the first with the
endpoint's number.

* `sendSysEx_exact`: the buffer is never left, and what the device has been sent is the
  message, if the code is 0 and no packet was given up by `OutTransfer`.
* `sendData_sysEx`: `SendData` delivers a system exclusive message of up to 256 bytes. A
  longer one is not sent, and the code is 0 (`sendData_long`).
* `sendData_event`: any other message is one event packet.
-/
namespace SonicCraft.L2.Usb

/-! ## Codes -/

/-- `_ns_USBH_MIDI::sys2cin`. mirrors SOC/software/space_jam/include/usbh_midi.h:39 -/
def sys2cin : Fin 16 → Byte := ![0, 2, 3, 2, 0, 0, 5, 0, 0xf, 0, 0xf, 0xf, 0xf, 0, 0xf, 0xf]

/-- mirrors SOC/software/space_jam/include/usbh_midi.h:100-102 -/
def convertStatus2Cin (status : Byte) : Byte :=
  if status < 0xf0 then (status &&& 0xF0) >>> 4 else sys2cin (status.extractLsb' 0 4).toFin

/-- Byte 0 of an event packet. -/
def packetHeader (nCable cin : Byte) : Byte := nCable <<< 4 ||| cin

/-- mirrors SOC/software/space_jam/include/usbh_midi.cpp:522-551 -/
def extractSysExData (p : EventPacket) : List Byte :=
  let cin := p.header &&& 0x0f
  if cin &&& 0xc ≠ 4 then []
  else if cin = 4 ∨ cin = 7 then [p.midi0, p.midi1, p.midi2]
  else if cin = 6 then [p.midi0, p.midi1]
  else if cin = 5 then [p.midi0]
  else []

/-! ## `SendSysEx` -/

/-- `buf`, `wptr`, and the driver's table. -/
structure SysSt where
  buf : Buffer 64 Byte
  wptr : Nat
  epInfo : EpTable

/-- `USB::outTransfer`, of an address the pool has; `hrsl` is in the chip.
mirrors SOC/software/space_jam/include/Usb.cpp:303-313 -/
def outTransferAt (t : EpTable) (ep : Byte) (data : List Byte) (hrsl : Byte) :
    Client Launch (Byte × EpTable) :=
  (getEpInfoEntry t ep).elim (pure (0xDB, t)) fun i => do
    let r ← outTransfer (t i) (t i).nakLimit data hrsl
    pure (r.1, Function.update t i r.2)

/-- One event packet into `buf`. -/
def SysSt.put (s : SysSt) (e : EventPacket) : Option SysSt :=
  (s.buf.write s.wptr e.bytes).map fun buf => { s with buf := buf, wptr := s.wptr + 4 }

section SendSysEx
variable (nCable maxpkt hrsl : Byte)

/-- "Reach a maxPktSize or data end." -/
def SysSt.flush (s : SysSt) : Client Launch (Byte × Option SysSt) :=
  (s.buf.first s.wptr).elim (pure (0, none)) fun data => do
    let r ← outTransferAt s.epInfo (s.epInfo epDataOutIndex).epAddr data hrsl
    pure (r.1, some { s with wptr := 0, epInfo := r.2 })

/-- `while(n > 0)`, where `n` is the length of what `dataptr` points to; `none` is an
access outside `buf`. mirrors SOC/software/space_jam/include/usbh_midi.cpp:480-518 -/
def sendSysExLoop : List Byte → SysSt → Client Launch (Byte × Option SysSt)
  | [], s => pure (0, some s)
  | [b0], s => (s.put ⟨packetHeader nCable 5, b0, 0, 0⟩).elim (pure (0, none)) fun s => s.flush hrsl
  | [b0, b1], s =>
    (s.put ⟨packetHeader nCable 6, b0, b1, 0⟩).elim (pure (0, none)) fun s => s.flush hrsl
  | b0 :: b1 :: b2 :: rest, s =>
    (s.put ⟨packetHeader nCable (if rest = [] then 7 else 4), b0, b1, b2⟩).elim (pure (0, none)) fun s =>
      if s.wptr ≥ maxpkt.toNat ∨ rest = [] then do
        let r ← s.flush hrsl
        if r.1 ≠ 0 then pure r else r.2.elim (pure (0, none)) fun s => sendSysExLoop rest s
      else sendSysExLoop rest s

end SendSysEx

/-- mirrors SOC/software/space_jam/include/usbh_midi.cpp:465-520 -/
def sendSysEx (mem : Buffer 64 Byte) (hrsl nCable : Byte) (data : List Byte) (t : EpTable) :
    Client Launch (Byte × Option SysSt) :=
  sendSysExLoop nCable (t epDataInIndex).maxPktSize hrsl data ⟨mem, 0, t⟩

/-! ## `SendData` -/

/-- The search for the terminator, with a limit of `MIDI_MAX_SYSEX_SIZE`. -/
def countFrom : List Byte → Nat → Option Nat
  | [], _ => none
  | b :: bs, c => if b = 0xf7 then some c else if c + 1 > 256 then some 0 else countFrom bs (c + 1)

/-- `dataptr` points to these bytes; `none` is an access behind them.
mirrors SOC/software/space_jam/include/usbh_midi.cpp:443-462 -/
def countSysExDataSize : List Byte → Option Nat
  | [] => none
  | b :: bs => if b ≠ 0xf0 then some 0 else countFrom (b :: bs) 1

/-- mirrors SOC/software/space_jam/include/usbh_midi.h:103-105 -/
def getMsgSizeFromCin (cin : Byte) : Byte := cin2len (cin.extractLsb' 0 4).toFin

/-- "Building USB-MIDI Event Packets"; `junk` is what `buf` holds where nothing is written.
mirrors SOC/software/space_jam/include/usbh_midi.cpp:383-408 -/
def buildEvent (nCable : Byte) (junk : Byte × Byte) (status : Byte) (data : List Byte) :
    Option EventPacket :=
  let cin := convertStatus2Cin status
  let msglen := getMsgSizeFromCin cin
  if msglen = 3 then
    (data[0]?).bind fun d1 => (data[1]?).map fun d2 => ⟨packetHeader nCable cin, status, d1, d2⟩
  else if msglen = 2 then (data[0]?).map fun d1 => ⟨packetHeader nCable cin, status, d1, 0⟩
  else if msglen = 1 then some ⟨packetHeader nCable cin, status, 0, 0⟩
  else some ⟨packetHeader nCable cin, status, junk.1, junk.2⟩

/-- mirrors SOC/software/space_jam/include/usbh_midi.cpp:372-414 -/
def sendData (mem : Buffer 64 Byte) (hrsl nCable : Byte) (junk : Byte × Byte) (t : EpTable) :
    List Byte → Client Launch (Byte × Option EpTable)
  | [] => pure (0, none)
  | status :: data =>
    if status = 0xf0 then
      (countSysExDataSize (status :: data)).elim (pure (0, none)) fun n => do
        let r ← sendSysEx mem hrsl nCable ((status :: data).take n) t
        pure (r.1, r.2.map SysSt.epInfo)
    else
      (buildEvent nCable junk status data).elim (pure (0, none)) fun e => do
        let r ← outTransferAt t (t epDataOutIndex).epAddr e.bytes hrsl
        pure (r.1, some r.2)

/-! ## The format -/

/-- A system exclusive message in event packets. -/
def sysExEvents (nCable : Byte) : List Byte → List EventPacket
  | [] => []
  | [b0] => [⟨packetHeader nCable 5, b0, 0, 0⟩]
  | [b0, b1] => [⟨packetHeader nCable 6, b0, b1, 0⟩]
  | b0 :: b1 :: b2 :: rest =>
    ⟨packetHeader nCable (if rest = [] then 7 else 4), b0, b1, b2⟩ :: sysExEvents nCable rest

theorem packetHeader_cin (nCable : Byte) {cin : Byte} (h : cin &&& 0x0f = cin) :
    packetHeader nCable cin &&& 0x0f = cin := by
  have hlow : nCable <<< 4 &&& 0x0f = 0#8 := by
    apply BitVec.eq_of_toNat_eq
    rw [BitVec.toNat_and, BitVec.toNat_shiftLeft]
    show _ &&& 2 ^ 4 - 1 = 0
    rw [Nat.and_two_pow_sub_one_eq_mod, Nat.shiftLeft_eq]
    omega
  rw [packetHeader, BitVec.and_or_distrib_right, hlow, h, BitVec.zero_or]

/-- The cable's number is no matter. -/
theorem extract_header (nCable : Byte) {cin : Byte} (h : cin &&& 0x0f = cin) (b0 b1 b2 : Byte) :
    extractSysExData ⟨packetHeader nCable cin, b0, b1, b2⟩ = extractSysExData ⟨cin, b0, b1, b2⟩ := by
  unfold extractSysExData
  dsimp only
  rw [packetHeader_cin nCable h, h]

/-- **What is put in comes out.** -/
theorem extract_sysExEvents (nCable : Byte) : ∀ data : List Byte,
    (sysExEvents nCable data).flatMap extractSysExData = data
  | [] => rfl
  | [b0] => by
    rw [sysExEvents, List.flatMap_singleton, extract_header nCable rfl]
    simp [extractSysExData]
  | [b0, b1] => by
    rw [sysExEvents, List.flatMap_singleton, extract_header nCable rfl]
    simp [extractSysExData]
  | b0 :: b1 :: b2 :: rest => by
    rw [sysExEvents, List.flatMap_cons, extract_sysExEvents nCable rest]
    by_cases hrest : rest = []
    · rw [if_pos hrest, extract_header nCable rfl]
      simp [extractSysExData]
    · rw [if_neg hrest, extract_header nCable rfl]
      simp [extractSysExData]

/-- Every packet carries the cable's number. -/
theorem cable_sysExEvents (nCable : Byte) : ∀ data : List Byte,
    ∀ e ∈ sysExEvents nCable data, ∃ cin : Byte, e.header = packetHeader nCable cin
  | [], _, h => by cases h
  | [_], e, h => ⟨5, by rw [List.mem_singleton.mp h]⟩
  | [_, _], e, h => ⟨6, by rw [List.mem_singleton.mp h]⟩
  | _ :: _ :: _ :: rest, e, h => by
    rcases List.mem_cons.mp h with rfl | h
    · exact ⟨_, rfl⟩
    · exact cable_sysExEvents nCable rest e h

/-! ## Transfers one after another -/

theorem delivered_nil : delivered [] = [] := rfl

/-- Nothing has been launched, and the code says so. -/
theorem outDone_none {data : List Byte} (h : data ≠ []) {rcode : Byte} (hr : rcode ≠ 0) :
    OutDone data [] rcode where
  order := by rw [delivered_nil]; exact List.nil_sublist _
  inTime _ := ⟨data, rfl, iff_of_false hr h⟩
  lost h0 := absurd h0 hr

/-- A transfer that has failed is the last. -/
theorem OutDone.failed {data : List Byte} {us : List Launch} {rcode : Byte} (h : OutDone data us rcode)
    (hr : rcode ≠ 0) (more : List Byte) : OutDone (data ++ more) us rcode where
  order := h.order.trans (List.sublist_append_left _ _)
  inTime hin := by
    obtain ⟨rest, hdata, hiff⟩ := h.inTime hin
    have hrest : rest ≠ [] := fun h0 => hr (hiff.mpr h0)
    refine ⟨rest ++ more, ?_, iff_of_false hr fun h0 => hrest (List.append_eq_nil_iff.mp h0).1⟩
    rw [← List.append_assoc, ← hdata]
  lost h0 := absurd h0 hr

/-- One transfer and the next. -/
theorem OutDone.trans {data data' : List Byte} {us us' : List Launch} {rcode : Byte}
    (h : OutDone data us 0) (h' : OutDone data' us' rcode) :
    OutDone (data ++ data') (us ++ us') rcode where
  order := by rw [delivered_append]; exact h.order.append h'.order
  inTime hin := by
    obtain ⟨hin, hin'⟩ := inTime_append.mp hin
    obtain ⟨rest, hdata, hiff⟩ := h'.inTime hin'
    refine ⟨rest, ?_, hiff⟩
    rw [delivered_append, (h.lost rfl).mpr hin, List.append_assoc, ← hdata]
  lost h0 := by
    rw [delivered_append, inTime_append, ← h.lost rfl, ← h'.lost h0]
    constructor
    · intro he
      have hlen := congrArg List.length he
      rw [List.length_append, List.length_append] at hlen
      have h1 := h.order.length_le
      have h2 := h'.order.length_le
      exact ⟨h.order.eq_of_length (by omega), h'.order.eq_of_length (by omega)⟩
    · rintro ⟨h1, h2⟩
      rw [h1, h2]

theorem outTransferAt_done {t : EpTable} {ep : Byte} {data : List Byte} {hrsl : Byte} (hd : data ≠ [])
    {us : List Launch} {r : Byte × EpTable} (h : Client.Runs (outTransferAt t ep data hrsl) us r) :
    OutDone data us r.1 := by
  unfold outTransferAt at h
  cases he : getEpInfoEntry t ep with
  | none =>
    rw [he] at h
    obtain ⟨rfl, rfl⟩ := Client.runs_pure.mp h
    exact outDone_none hd (show (0xDB : Byte) ≠ 0 by decide)
  | some i =>
    rw [he, Option.elim_some] at h
    obtain ⟨us₁, x, us₂, rfl, h1, h2⟩ :=
      (Client.runs_bind (local_outTransfer _ _ _ _) fun _ => Client.local_pure _).mp h
    obtain ⟨rfl, rfl⟩ := Client.runs_pure.mp h2
    rw [List.append_nil]
    by_cases hm : (t i).maxPktSize < 1 ∨ (t i).maxPktSize > 64
    · rw [outTransfer, if_pos hm] at h1
      obtain ⟨rfl, rfl⟩ := Client.runs_pure.mp h1
      exact outDone_none hd (show (0xDA : Byte) ≠ 0 by decide)
    · exact (outTransfer_runs hm h1).1

theorem local_outTransferAt (t : EpTable) (ep : Byte) (data : List Byte) (hrsl : Byte) :
    Client.Local (outTransferAt t ep data hrsl) := by
  unfold outTransferAt
  cases getEpInfoEntry t ep with
  | none => exact Client.local_pure _
  | some i => exact (local_outTransfer _ _ _ _).bind fun _ => Client.local_pure _

/-! ## `SendSysEx` sends the message -/

/-- `p` waits in `buf`, and there is room for one packet more. -/
structure SysSt.Holds (s : SysSt) (p : List Byte) : Prop where
  buf : ∃ mem : Buffer 64 Byte, s.buf = mem.put p
  wptr : s.wptr = p.length
  packets : 4 ∣ p.length
  room : p.length < 64

theorem SysSt.Holds.put {s : SysSt} {p : List Byte} (h : s.Holds p) (e : EventPacket) :
    ∃ s', s.put e = some s' ∧ (∃ mem : Buffer 64 Byte, s'.buf = mem.put (p ++ e.bytes)) ∧
      s'.wptr = (p ++ e.bytes).length ∧ (p ++ e.bytes).length ≤ 64 ∧ s'.epInfo = s.epInfo := by
  obtain ⟨mem, hmem⟩ := h.buf
  have he : e.bytes.length = 4 := rfl
  have hlen : p.length + e.bytes.length ≤ 64 := by
    have := h.packets
    have := h.room
    omega
  refine ⟨{ s with buf := mem.put (p ++ e.bytes), wptr := s.wptr + 4 }, ?_, ⟨mem, rfl⟩, ?_, ?_, rfl⟩
  · rw [SysSt.put, hmem, h.wptr, Buffer.write_put mem _ _ hlen]
    rfl
  · show s.wptr + 4 = _
    rw [List.length_append, he, h.wptr]
  · rw [List.length_append]
    exact hlen

theorem flush_done {hrsl : Byte} {s : SysSt} {p : List Byte} (hbuf : ∃ mem : Buffer 64 Byte, s.buf = mem.put p)
    (hw : s.wptr = p.length) (h64 : p.length ≤ 64) (hp : p ≠ []) {us : List Launch}
    {r : Byte × Option SysSt} (h : Client.Runs (s.flush hrsl) us r) :
    OutDone p us r.1 ∧ ∃ s', r.2 = some s' ∧ s'.Holds [] := by
  obtain ⟨mem, hmem⟩ := hbuf
  unfold SysSt.flush at h
  rw [hmem, hw, Buffer.first_put mem h64, Option.elim_some] at h
  obtain ⟨us₁, x, us₂, rfl, h1, h2⟩ :=
    (Client.runs_bind (local_outTransferAt _ _ _ _) fun _ => Client.local_pure _).mp h
  obtain ⟨rfl, rfl⟩ := Client.runs_pure.mp h2
  rw [List.append_nil]
  exact ⟨outTransferAt_done hp h1, _, rfl, ⟨mem.put p, rfl⟩, rfl, ⟨0, rfl⟩, by decide⟩

theorem local_elim {A B : Type} {o : Option A} {b : B} {f : A → Client Launch B}
    (h : ∀ a, Client.Local (f a)) : Client.Local (o.elim (pure b) f) := by
  cases o with
  | none => exact Client.local_pure _
  | some a => exact h a

theorem local_flush (hrsl : Byte) (s : SysSt) : Client.Local (s.flush hrsl) :=
  local_elim fun _ => (local_outTransferAt _ _ _ _).bind fun _ => Client.local_pure _

theorem local_sendSysExLoop (nCable maxpkt hrsl : Byte) : ∀ (data : List Byte) (s : SysSt),
    Client.Local (sendSysExLoop nCable maxpkt hrsl data s)
  | [], _ => Client.local_pure _
  | [_], _ => local_elim fun s => local_flush hrsl s
  | [_, _], _ => local_elim fun s => local_flush hrsl s
  | _ :: _ :: _ :: rest, _ => local_elim fun s =>
    ((local_flush hrsl s).bind fun _ => (Client.local_pure _).ite (local_elim fun s =>
      local_sendSysExLoop nCable maxpkt hrsl rest s)).ite
        (local_sendSysExLoop nCable maxpkt hrsl rest s)

/-- The last packet, and what waits with it. -/
theorem last_done {hrsl : Byte} {s : SysSt} {p : List Byte} (hs : s.Holds p) (e : EventPacket)
    {us : List Launch} {r : Byte × Option SysSt}
    (h : Client.Runs ((s.put e).elim (pure (0, none)) fun s => s.flush hrsl) us r) :
    OutDone (p ++ e.bytes) us r.1 ∧ ∃ s', r.2 = some s' ∧ s'.Holds [] := by
  obtain ⟨s₁, hput, hbuf, hw, h64, -⟩ := hs.put e
  rw [hput, Option.elim_some] at h
  exact flush_done hbuf hw h64 (List.append_ne_nil_of_right_ne_nil p (List.cons_ne_nil _ _)) h

/-- The loop sends what waits in `buf` and the rest of the message. -/
theorem sendSysExLoop_done {nCable maxpkt hrsl : Byte} (hm : maxpkt.toNat ≤ 64) :
    ∀ (data : List Byte) (s : SysSt) (p : List Byte) (us : List Launch) (r : Byte × Option SysSt),
      s.Holds p → data ≠ [] → Client.Runs (sendSysExLoop nCable maxpkt hrsl data s) us r →
      OutDone (p ++ (sysExEvents nCable data).flatMap EventPacket.bytes) us r.1 ∧ r.2.isSome = true
  | [], _, _, _, _, _, hne, _ => absurd rfl hne
  | [b0], s, p, us, r, hs, _, h => by
    obtain ⟨hdone, s', hs', -⟩ := last_done hs _ h
    rw [sysExEvents, List.flatMap_singleton, hs']
    exact ⟨hdone, rfl⟩
  | [b0, b1], s, p, us, r, hs, _, h => by
    obtain ⟨hdone, s', hs', -⟩ := last_done hs _ h
    rw [sysExEvents, List.flatMap_singleton, hs']
    exact ⟨hdone, rfl⟩
  | b0 :: b1 :: b2 :: rest, s, p, us, r, hs, _, h => by
    obtain ⟨s₁, hput, hbuf, hw, h64, -⟩ :=
      hs.put ⟨packetHeader nCable (if rest = [] then 7 else 4), b0, b1, b2⟩
    rw [sendSysExLoop, hput, Option.elim_some] at h
    rw [sysExEvents, List.flatMap_cons, ← List.append_assoc]
    generalize hq : p ++ EventPacket.bytes
      ⟨packetHeader nCable (if rest = [] then 7 else 4), b0, b1, b2⟩ = q at hbuf hw h64 ⊢
    have hlen : q.length = p.length + 4 := by rw [← hq, List.length_append]; rfl
    by_cases hflush : s₁.wptr ≥ maxpkt.toNat ∨ rest = []
    · -- the buffer is handed over
      rw [if_pos hflush] at h
      have hne : q ≠ [] := List.ne_nil_of_length_pos (by omega)
      obtain ⟨us₁, x, us₂, rfl, h1, h2⟩ := Client.Runs.split (local_flush _ _) h
      obtain ⟨hdone, s₂, hx, hs₂⟩ := flush_done hbuf hw h64 hne h1
      by_cases hr : x.1 ≠ 0
      · rw [if_pos hr] at h2
        cases h2
        rw [List.append_nil, hx]
        exact ⟨hdone.failed hr _, rfl⟩
      rw [if_neg hr, hx, Option.elim_some] at h2
      rw [ne_eq, not_not] at hr
      rw [hr] at hdone
      by_cases hrest : rest = []
      · subst hrest
        cases h2
        rw [sysExEvents, List.flatMap_nil, List.append_nil, List.append_nil]
        exact ⟨hdone, rfl⟩
      · have hlocal := local_sendSysExLoop nCable maxpkt hrsl rest s₂
        obtain ⟨hdone', hsome⟩ := sendSysExLoop_done hm rest s₂ [] us₂ r hs₂ hrest (hlocal.runs h2)
        exact ⟨hdone.trans hdone', hsome⟩
    · -- there is room for the next packet
      rw [if_neg hflush] at h
      rw [not_or, not_le] at hflush
      have hs₁ : s₁.Holds q := ⟨hbuf, hw, by have := hs.packets; omega, by omega⟩
      exact sendSysExLoop_done hm rest s₁ q us r hs₁ hflush.2 h

section Exact
variable {mem : Buffer 64 Byte} {hrsl nCable : Byte} {t : EpTable}

theorem sendSysEx_runs (hm : (t epDataInIndex).maxPktSize.toNat ≤ 64) {data : List Byte}
    {us : List Launch} {r : Byte × Option SysSt}
    (h : Client.Runs (sendSysEx mem hrsl nCable data t) us r) :
    OutDone ((sysExEvents nCable data).flatMap EventPacket.bytes) us r.1 ∧ r.2.isSome = true := by
  by_cases hd : data = []
  · subst hd
    obtain ⟨rfl, rfl⟩ := Client.runs_pure.mp h
    exact ⟨⟨List.Sublist.refl _, fun _ => ⟨[], rfl, iff_of_true rfl rfl⟩,
      fun _ => iff_of_true rfl (List.forall_mem_nil _)⟩, rfl⟩
  · exact sendSysExLoop_done hm data ⟨mem, 0, t⟩ [] us r ⟨⟨mem, rfl⟩, rfl, ⟨0, rfl⟩, by decide⟩ hd h

/-- **A system exclusive message arrives**, if the code is 0 and nothing was given up. -/
theorem sendSysEx_exact (hm : (t epDataInIndex).maxPktSize.toNat ≤ 64) {data : List Byte}
    {ts rest : List Launch} {rcode : Byte} {x : Option SysSt}
    (h : sendSysEx mem hrsl nCable data t ts = some ((rcode, x), rest)) :
    ∃ us, ts = us ++ rest ∧ x ≠ none ∧
      (delivered us).Sublist ((sysExEvents nCable data).flatMap EventPacket.bytes) ∧
      (rcode = 0 → (delivered us = (sysExEvents nCable data).flatMap EventPacket.bytes ↔ InTime us)) ∧
      (rcode = 0 → InTime us → (eventPackets (delivered us)).flatMap extractSysExData = data) := by
  obtain ⟨us, rfl, hr⟩ := local_sendSysExLoop _ _ _ _ _ ts _ rest h
  obtain ⟨hdone, hsome⟩ := sendSysEx_runs hm hr
  refine ⟨us, rfl, ?_, hdone.order, hdone.lost, fun h0 hin => ?_⟩
  · rintro rfl
    cases hsome
  · rw [(hdone.lost h0).mpr hin, eventPackets_bytes, extract_sysExEvents]

/-- Where the terminator is. -/
theorem countFrom_eq (body more : List Byte) (hb : 0xf7 ∉ body) : ∀ c : Nat, c ≤ 256 →
    countFrom (body ++ 0xf7 :: more) c = some (if c + body.length ≤ 256 then c + body.length else 0) := by
  induction body with
  | nil =>
    intro c hc
    rw [List.nil_append, countFrom, if_pos rfl]
    exact congrArg some (if_pos hc).symm
  | cons b body ih =>
    intro c hc
    rw [List.mem_cons, not_or] at hb
    rw [List.cons_append, countFrom, if_neg (Ne.symm hb.1), List.length_cons]
    by_cases hlast : c + 1 > 256
    · rw [if_pos hlast, if_neg (by omega)]
    · rw [if_neg hlast, ih hb.2 (c + 1) (by omega)]
      congr 1
      have hadd : c + 1 + body.length = c + (body.length + 1) := by omega
      rw [hadd]

theorem countSysExDataSize_eq {body more : List Byte} (hb : 0xf7 ∉ body) :
    countSysExDataSize (0xf0 :: (body ++ 0xf7 :: more)) =
      some (if body.length + 2 ≤ 256 then body.length + 2 else 0) := by
  have h1 := countFrom_eq (0xf0 :: body) more
    (List.not_mem_cons_of_ne_of_not_mem (by decide) hb) 1 (by omega)
  have hadd : 1 + (0xf0 :: body).length = body.length + 2 := by rw [List.length_cons]; omega
  rw [hadd] at h1
  rw [countSysExDataSize, if_neg (not_not.mpr rfl)]
  exact h1

/-- **A message of more than 256 bytes is not sent**, and the code is 0: its size is taken
to be none. -/
theorem sendData_long {body more : List Byte} (hb : 0xf7 ∉ body) (hlong : 256 < body.length + 2)
    {junk : Byte × Byte} :
    sendData mem hrsl nCable junk t (0xf0 :: (body ++ 0xf7 :: more)) = pure (0, some t) := by
  rw [sendData, if_pos rfl, countSysExDataSize_eq hb, if_neg (Nat.not_le.mpr hlong),
    Option.elim_some, List.take_zero]
  rfl

theorem sendData_short (hm : (t epDataInIndex).maxPktSize.toNat ≤ 64) {body more : List Byte}
    (hb : 0xf7 ∉ body) (hshort : body.length + 2 ≤ 256) {junk : Byte × Byte} {us : List Launch}
    {rcode : Byte} {x : Option EpTable}
    (h : Client.Runs (sendData mem hrsl nCable junk t (0xf0 :: (body ++ 0xf7 :: more))) us (rcode, x)) :
    x ≠ none ∧ (rcode = 0 → InTime us →
      (eventPackets (delivered us)).flatMap extractSysExData = 0xf0 :: (body ++ [0xf7])) := by
  have htake : (0xf0 :: (body ++ 0xf7 :: more)).take (body.length + 2) = 0xf0 :: (body ++ [0xf7]) := by
    rw [List.take_succ_cons, List.take_append]
    simp
  rw [sendData, if_pos rfl, countSysExDataSize_eq hb, if_pos hshort, Option.elim_some, htake] at h
  obtain ⟨us₁, r, us₂, rfl, h1, h2⟩ :=
    (Client.runs_bind (local_sendSysExLoop _ _ _ _ _) fun _ => Client.local_pure _).mp h
  obtain ⟨rfl, hx⟩ := Client.runs_pure.mp h2
  obtain ⟨rfl, rfl⟩ := Prod.mk.inj hx
  rw [List.append_nil]
  obtain ⟨hdone, hsome⟩ := sendSysEx_runs hm h1
  refine ⟨fun hn => ?_, fun hcode hin => ?_⟩
  · rw [Option.map_eq_none_iff] at hn
    rw [hn] at hsome
    cases hsome
  · rw [(hdone.lost hcode).mpr hin, eventPackets_bytes, extract_sysExEvents]

/-- **`SendData` and system exclusive messages.** When it has returned 0, and nothing was
given up, the device has got the message exactly if that has up to 256 bytes. For a longer
one it returns 0 without a launch. -/
theorem sendData_sysEx (hm : (t epDataInIndex).maxPktSize.toNat ≤ 64) {body more : List Byte}
    (hb : 0xf7 ∉ body) (junk : Byte × Byte) :
    (∀ us rcode x,
      Client.Runs (sendData mem hrsl nCable junk t (0xf0 :: (body ++ 0xf7 :: more))) us (rcode, x) →
      x ≠ none ∧ (rcode = 0 → InTime us →
        ((eventPackets (delivered us)).flatMap extractSysExData = 0xf0 :: (body ++ [0xf7]) ↔
          body.length + 2 ≤ 256))) ∧
    (256 < body.length + 2 → ∀ us r,
      Client.Runs (sendData mem hrsl nCable junk t (0xf0 :: (body ++ 0xf7 :: more))) us r ↔
        us = [] ∧ r = (0, some t)) := by
  constructor
  · intro us rcode x h
    by_cases hlen : body.length + 2 ≤ 256
    · obtain ⟨hx, hsent⟩ := sendData_short hm hb hlen h
      exact ⟨hx, fun hcode hin => iff_of_true (hsent hcode hin) hlen⟩
    · rw [sendData_long hb (Nat.not_le.mp hlen)] at h
      obtain ⟨rfl, hr⟩ := Client.runs_pure.mp h
      obtain ⟨rfl, rfl⟩ := Prod.mk.inj hr
      exact ⟨Option.some_ne_none t, fun _ _ => iff_of_false (fun hn => by cases hn) hlen⟩
  · intro hlong us r
    rw [sendData_long hb hlong]
    exact Client.runs_pure

theorem header_size (nCable cin : Byte) :
    (packetHeader nCable cin).extractLsb' 0 4 = cin.extractLsb' 0 4 := by
  apply BitVec.eq_of_getLsbD_eq
  intro i hi
  rw [BitVec.getLsbD_extractLsb', BitVec.getLsbD_extractLsb', packetHeader, BitVec.getLsbD_or,
    BitVec.getLsbD_shiftLeft, Nat.zero_add]
  simp [hi]

/-- A message that is as long as its status says. -/
theorem buildEvent_whole (nCable : Byte) (junk : Byte × Byte) {status : Byte} {data : List Byte}
    (hlen : (getMsgSizeFromCin (convertStatus2Cin status)).toNat = data.length + 1) :
    ∃ e, buildEvent nCable junk status data = some e ∧ e.size.toNat = data.length + 1 ∧
      [e.midi0, e.midi1, e.midi2].take e.size.toNat = status :: data := by
  have hsize : ∀ b0 b1 b2 : Byte, (EventPacket.mk (packetHeader nCable (convertStatus2Cin status))
      b0 b1 b2).size = getMsgSizeFromCin (convertStatus2Cin status) := by
    intro b0 b1 b2
    unfold EventPacket.size getMsgSizeFromCin
    rw [header_size]
  have hthree : ∀ n : Byte, n = getMsgSizeFromCin (convertStatus2Cin status) →
      n.toNat = data.length + 1 := by rintro n rfl; exact hlen
  unfold buildEvent
  dsimp only
  split
  · rename_i h3
    have hd := hthree 3 h3.symm
    match data, hd with
    | [d1, d2], _ => exact ⟨_, rfl, by rw [hsize, hlen], by rw [hsize, h3]; rfl⟩
  · split
    · rename_i h2
      have hd := hthree 2 h2.symm
      match data, hd with
      | [d1], _ => exact ⟨_, rfl, by rw [hsize, hlen], by rw [hsize, h2]; rfl⟩
    · split
      · rename_i h1
        have hd := hthree 1 h1.symm
        match data, hd with
        | [], _ => exact ⟨_, rfl, by rw [hsize, hlen], by rw [hsize, h1]; rfl⟩
      · rename_i hn3 hn2 hn1
        exfalso
        have hcases : ∀ i : Fin 16, (cin2len i).toNat ≠ 0 →
            cin2len i = 1 ∨ cin2len i = 2 ∨ cin2len i = 3 := by decide
        have hne : (getMsgSizeFromCin (convertStatus2Cin status)).toNat ≠ 0 := by omega
        rcases hcases _ hne with h | h | h
        exacts [hn1 h, hn2 h, hn3 h]

/-- **A message arrives** as one event packet, from which `RecvData` hands it out again. -/
theorem sendData_event {status : Byte} {data : List Byte} (hstatus : status ≠ 0xf0)
    (hlen : (getMsgSizeFromCin (convertStatus2Cin status)).toNat = data.length + 1)
    {junk : Byte × Byte} {us : List Launch} {x : Option EpTable}
    (h : Client.Runs (sendData mem hrsl nCable junk t (status :: data)) us (0, x)) (hin : InTime us) :
    ∃ e, eventPackets (delivered us) = [e] ∧
      [e.midi0, e.midi1, e.midi2].take e.size.toNat = status :: data := by
  obtain ⟨e, he, -, hmsg⟩ := buildEvent_whole nCable junk hlen
  rw [sendData, if_neg hstatus, he, Option.elim_some] at h
  obtain ⟨us₁, r, us₂, rfl, h1, h2⟩ :=
    (Client.runs_bind (local_outTransferAt _ _ _ _) fun _ => Client.local_pure _).mp h
  obtain ⟨rfl, hx⟩ := Client.runs_pure.mp h2
  rw [List.append_nil] at hin ⊢
  have hdone := outTransferAt_done (List.cons_ne_nil _ _) h1
  have hcode : r.1 = 0 := (Prod.mk.inj hx).1.symm
  refine ⟨e, ?_, hmsg⟩
  rw [(hdone.lost hcode).mpr hin]
  exact eventPackets_bytes [e]

end Exact

/-! ## A reset of all sound modules -/

theorem local_sendData (mem : Buffer 64 Byte) (hrsl nCable : Byte) (junk : Byte × Byte) (t : EpTable) :
    ∀ dataptr : List Byte, Client.Local (sendData mem hrsl nCable junk t dataptr)
  | [] => Client.local_pure _
  | _ :: _ => (local_elim fun _ => (local_sendSysExLoop _ _ _ _ _).bind fun _ => Client.local_pure _).ite
    (local_elim fun _ => (local_outTransferAt _ _ _ _).bind fun _ => Client.local_pure _)

/-- Endpoints 1 and 2, with packets of 64 bytes. -/
def synthEp : EpTable := fun i =>
  ⟨if i = epDataInIndex then 1 else if i = epDataOutIndex then 2 else 0, 64, false, false, 1⟩

/-- "General MIDI System On" -/
def gmOn : List Byte := [0xf0, 0x7e, 0x7f, 0x09, 0x01, 0xf7]

/-- It is sent at the second attempt. -/
def gmLaunches : List Launch :=
  let bytes : List Byte := [0x04, 0xf0, 0x7e, 0x7f, 0x07, 0x09, 0x01, 0xf7]
  [epOut hrTOGERR false bytes, epOut 0 false bytes]

theorem gmOn_runs : ∃ x, Client.Runs (sendData (fun _ => 0) 0 0 (0, 0) synthEp gmOn) gmLaunches (0, x) := by
  obtain ⟨⟨rcode, x⟩, hcode, hr⟩ := (local_sendData (fun _ => 0) 0 0 (0, 0) synthEp gmOn).runs_shown
    (g := Prod.fst) (b := 0) (show Option.map _ (sendData _ _ _ _ _ _ gmLaunches) = _ by decide +kernel)
  obtain rfl : rcode = 0 := hcode
  exact ⟨x, hr⟩

/-- It is sent, and one of 257 bytes is not. -/
theorem sendData_sysEx_gmOn :
    (∃ x : Option EpTable, x ≠ none ∧
      ((eventPackets (delivered gmLaunches)).flatMap extractSysExData = gmOn ↔
        [0x7e, 0x7f, 0x09, 0x01].length + 2 ≤ 256)) ∧
    Client.Runs (sendData (fun _ => 0) 0 0 (0, 0) synthEp (0xf0 :: (List.replicate 255 0 ++ [0xf7])))
      [] (0, some synthEp) := by
  obtain ⟨x, hx⟩ := gmOn_runs
  have hm : (synthEp epDataInIndex).maxPktSize.toNat ≤ 64 := Nat.le_refl 64
  obtain ⟨hsome, hsent⟩ := (@sendData_sysEx _ _ _ synthEp hm [0x7e, 0x7f, 0x09, 0x01] []
    (by decide) (0, 0)).1 gmLaunches 0 x hx
  have hnone : (0xf7 : Byte) ∉ List.replicate 255 0 := fun h => by
    cases List.eq_of_mem_replicate h
  have hlong : 256 < (List.replicate 255 (0 : Byte)).length + 2 := by
    rw [List.length_replicate]; omega
  exact ⟨⟨x, hsome, hsent rfl (by decide)⟩,
    ((sendData_sysEx hm hnone (0, 0)).2 hlong [] (0, some synthEp)).mpr ⟨rfl, rfl⟩⟩

theorem sendSysEx_runs_gmOn : ∃ x,
    Client.Runs (sendSysEx (fun _ => 0) 0 0 gmOn synthEp) gmLaunches (0, x) := by
  obtain ⟨⟨rcode, x⟩, hcode, hr⟩ := (local_sendSysExLoop 0 64 0 gmOn ⟨fun _ => 0, 0, synthEp⟩).runs_shown
    (g := Prod.fst) (b := 0)
    (show Option.map _ (sendSysExLoop _ _ _ _ _ gmLaunches) = _ by decide +kernel)
  obtain rfl : rcode = 0 := hcode
  exact ⟨x, hr⟩

theorem sendSysEx_exact_gmOn : ∃ x : Option SysSt, ∃ us, gmLaunches = us ++ [] ∧ x ≠ none ∧
    (delivered us).Sublist ((sysExEvents 0 gmOn).flatMap EventPacket.bytes) ∧
    ((0 : Byte) = 0 →
      (delivered us = (sysExEvents 0 gmOn).flatMap EventPacket.bytes ↔ InTime us)) ∧
    ((0 : Byte) = 0 → InTime us → (eventPackets (delivered us)).flatMap extractSysExData = gmOn) := by
  obtain ⟨x, hx⟩ := sendSysEx_runs_gmOn
  exact ⟨x, sendSysEx_exact (t := synthEp) (by decide) hx.eq⟩

theorem sendData_event_note : ∃ e,
    eventPackets (delivered [epOut 0 false [0x09, 0x90, 60, 64]]) = [e] ∧
      [e.midi0, e.midi1, e.midi2].take e.size.toNat = [0x90, 60, 64] :=
  sendData_event (t := synthEp) (by decide) (by decide)
    ((local_sendData (fun _ => 0) 0 0 (0, 0) synthEp [0x90, 60, 64]).runs rfl) (by decide)

end SonicCraft.L2.Usb
