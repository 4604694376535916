import Mathlib.Data.Fin.VecNotation
import Mathlib.Data.List.OfFn
import Mathlib.Data.List.TakeWhile
import SonicCraft.Core.Buffer
import SonicCraft.Core.Refill
import SonicCraft.L2Software.EpInfo

/-!
# `USBH_MIDI::RecvData`: events out of transfers

SOC/software/space_jam/include/usbh_midi.cpp:313-369. One IN transfer brings up to
16 event packets into `recvBuf`; each call hands out one of them, and the next
transfer is asked for when `readPtr` comes to the end of the buffer or to two
zero bytes. Behind a transfer of less than 60 bytes the driver writes these
itself.

`none` is an access outside `recvBuf`. Over transfers of whole event packets the
driver is a `Refill` reader (`nextOf_refines`), with one defect: a transfer of 15
packets, or of none, is not closed off, and what an earlier transfer has left
there is handed out again (`stale`).
-/
namespace SonicCraft.L2.Usb

/-- One USB-MIDI event packet. -/
structure EventPacket where
  header : Byte
  midi0 : Byte
  midi1 : Byte
  midi2 : Byte
  deriving DecidableEq, Repr

namespace EventPacket

def bytes (e : EventPacket) : List Byte := [e.header, e.midi0, e.midi1, e.midi2]

/-- `readPtr` goes on to it. -/
def Live (e : EventPacket) : Prop := ¬ (e.header = 0 ∧ e.midi0 = 0)

instance : DecidablePred Live := fun _ => inferInstanceAs (Decidable (¬ _))

/-- Nothing at all. -/
def IsZero (e : EventPacket) : Prop := e.header = 0 ∧ e.midi0 = 0 ∧ e.midi1 = 0 ∧ e.midi2 = 0

instance : DecidablePred IsZero := fun _ => inferInstanceAs (Decidable (_ ∧ _))

theorem Live.not_isZero {e : EventPacket} (h : e.Live) : ¬ e.IsZero := fun hz => h ⟨hz.1, hz.2.1⟩

end EventPacket

/-- `_ns_USBH_MIDI::cin2len`. mirrors SOC/software/space_jam/include/usbh_midi.h:38 -/
def cin2len : Fin 16 → Byte := ![0, 0, 2, 3, 3, 1, 2, 3, 3, 3, 3, 3, 2, 2, 3, 1]

/-- `getMsgSizeFromCin(cin & 0x0f)` -/
def EventPacket.size (e : EventPacket) : Byte := cin2len (e.header.extractLsb' 0 4).toFin

/-! ## The driver -/

/-- `uint8_t recvBuf[MIDI_EVENT_PACKET_SIZE]`; the constant is 64. -/
abbrev RecvBuf := Buffer 64 Byte

/-- What `inTransfer` gives back: its code, and the bytes it has put at `dataptr`.
`inTransfer` is asked for `maxPktSize` bytes, so there are no more of them than
`recvBuf` has (`EpTable.Bounded`). -/
structure Reply where
  rcode : Byte
  bytes : List Byte
  fits : bytes.length ≤ 64

/-- mirrors SOC/software/space_jam/include/usbh_midi.h:90-97 -/
structure Rx where
  bPollEnable : Bool
  recvBuf : RecvBuf
  readPtr : Nat

/-- `RecvData(uint16_t *, uint8_t *)`, with `dataptr` the start of `recvBuf`.
mirrors SOC/software/space_jam/include/usbh_midi.cpp:314-327 -/
def recvInto (buf : RecvBuf) (r : Reply) : Option RecvBuf :=
  (buf.write 0 r.bytes).bind fun buf =>
    if r.bytes.length < 64 - 4 then
      (buf.store r.bytes.length 0).bind fun buf => buf.store (r.bytes.length + 1) 0
    else some buf

/-- "Checking unprocessed message in buffer": whether to go to
`RecvData_return_from_buffer` at once. -/
def Rx.unprocessed (s : Rx) : Option Bool :=
  if s.readPtr ≠ 0 ∧ s.readPtr < 64 then
    (s.recvBuf.load s.readPtr).bind fun b0 =>
      if b0 = 0 then (s.recvBuf.load (s.readPtr + 1)).map fun b1 => b1 != 0 else some true
  else some false

/-- From `RecvData_return_from_buffer` on. -/
def Rx.returnFromBuffer (s : Rx) : Option (Option EventPacket × Rx) :=
  (s.recvBuf.load s.readPtr).bind fun cin =>
    (s.recvBuf.load (s.readPtr + 1)).bind fun m =>
      (s.recvBuf.load (s.readPtr + 2)).bind fun d1 =>
        (s.recvBuf.load (s.readPtr + 3)).map fun d2 =>
          (some ⟨cin, m, d1, d2⟩, { s with readPtr := s.readPtr + 4 })

/-- The event packet a call takes; `r` is what the device answers, should it be
asked. mirrors SOC/software/space_jam/include/usbh_midi.cpp:330-369 -/
def Rx.next (s : Rx) (r : Reply) : Option (Option EventPacket × Rx) :=
  if s.bPollEnable = false then some (none, s)
  else s.unprocessed.bind fun found =>
    if found then s.returnFromBuffer
    else (recvInto s.recvBuf r).bind fun buf =>
      let s := { s with readPtr := 0, recvBuf := buf }
      if r.rcode ≠ 0 then some (none, s)
      else if buf 0 = 0 ∧ buf 1 = 0 ∧ buf 2 = 0 ∧ buf 3 = 0 then some (none, s)
      else s.returnFromBuffer

/-- `RecvData(uint8_t *outBuf, bool isRaw)`: the size it returns, and what it
writes at `outBuf`. -/
def Rx.recvData (s : Rx) (isRaw : Bool) (r : Reply) : Option (Byte × List Byte × Rx) :=
  (s.next r).map fun (e, s) =>
    match e with
    | none => (0, [], s)
    | some e => (e.size, (if isRaw then [e.header] else []) ++ [e.midi0, e.midi1, e.midi2], s)

/-! ## Slots -/

/-- Place `k` for an event packet. -/
def slot (buf : RecvBuf) (k : Fin 16) : EventPacket where
  header := buf ⟨4 * k, by omega⟩
  midi0 := buf ⟨4 * k + 1, by omega⟩
  midi1 := buf ⟨4 * k + 2, by omega⟩
  midi2 := buf ⟨4 * k + 3, by omega⟩

def firstSlot : Fin 16 := ⟨0, Nat.succ_pos 15⟩

def slots (buf : RecvBuf) : List EventPacket := List.ofFn (slot buf)

@[simp] theorem slots_length (buf : RecvBuf) : (slots buf).length = 16 := List.length_ofFn

theorem slots_get (buf : RecvBuf) {i : Nat} (h : i < (slots buf).length) :
    (slots buf)[i] = slot buf ⟨i, by rwa [slots_length] at h⟩ := List.getElem_ofFn _

theorem drop_slots (buf : RecvBuf) (k : Fin 16) :
    (slots buf).drop k = slot buf k :: (slots buf).drop (k + 1) := by
  rw [List.drop_eq_getElem_cons (by rw [slots_length]; exact k.isLt)]
  rw [slots_get]

/-- The packets from slot `k` on that are to be handed out. -/
def live (buf : RecvBuf) (k : Nat) : List EventPacket :=
  ((slots buf).drop k).takeWhile fun e => decide e.Live

theorem live_end (buf : RecvBuf) : live buf 16 = [] := by
  rw [live, List.drop_eq_nil_of_le (by rw [slots_length])]; rfl

theorem live_cons {buf : RecvBuf} {k : Fin 16} (h : (slot buf k).Live) :
    live buf k = slot buf k :: live buf (k + 1) := by
  rw [live, drop_slots, List.takeWhile_cons_of_pos (by simpa using h)]; rfl

theorem live_nil {buf : RecvBuf} {k : Fin 16} (h : ¬ (slot buf k).Live) : live buf k = [] := by
  rw [live, drop_slots, List.takeWhile_cons_of_neg (by simpa using h)]

namespace Rx

/-- `readPtr` is at a slot, or at the end. -/
def Aligned (s : Rx) : Prop := ∃ k ≤ 16, s.readPtr = 4 * k

/-- What is waiting in the buffer. -/
def pending (s : Rx) : List EventPacket :=
  if s.readPtr = 0 then [] else live s.recvBuf (s.readPtr / 4)

/-- `recvBuf` after a transfer. -/
def filled (buf : RecvBuf) (r : Reply) : RecvBuf :=
  buf.put (r.bytes ++ if r.bytes.length < 64 - 4 then [0, 0] else [])

/-- What a transfer brings. -/
def batch (s : Rx) (r : Reply) : List EventPacket :=
  if r.rcode ≠ 0 then []
  else if (slot (filled s.recvBuf r) firstSlot).IsZero then []
  else slot (filled s.recvBuf r) firstSlot :: live (filled s.recvBuf r) 1

end Rx

theorem recvInto_eq (buf : RecvBuf) (r : Reply) : recvInto buf r = some (Rx.filled buf r) := by
  have hfits := r.fits
  rw [recvInto, Buffer.write_start buf hfits, Option.bind_some]
  unfold Rx.filled
  split
  · rename_i hlt
    have h1 := Buffer.store_put buf r.bytes 0 (by omega)
    have h2 := Buffer.store_put buf (r.bytes ++ [0]) 0
    rw [List.length_append, List.length_singleton, List.append_assoc] at h2
    rw [h1, Option.bind_some]
    exact h2 (by omega)
  · rw [List.append_nil]

theorem returnFromBuffer_slot {s : Rx} {k : Fin 16} (h : s.readPtr = 4 * k) :
    s.returnFromBuffer =
      some (some (slot s.recvBuf k), { s with readPtr := 4 * (k + 1) }) := by
  have hk := k.isLt
  rw [Rx.returnFromBuffer, h, Buffer.load_lt _ (by omega), Buffer.load_lt _ (by omega),
    Buffer.load_lt _ (by omega), Buffer.load_lt _ (by omega)]
  rfl

theorem unprocessed_eq {s : Rx} (h : s.Aligned) :
    s.unprocessed = some (decide (s.pending ≠ [])) := by
  obtain ⟨k, hk, hr⟩ := h
  unfold Rx.unprocessed Rx.pending
  by_cases h0 : s.readPtr = 0
  · rw [if_neg (fun h => h.1 h0), if_pos h0]; rfl
  · by_cases h16 : k = 16
    · subst h16
      rw [if_neg (by rw [hr]; decide), if_neg h0, hr]
      show some false = some (decide (live s.recvBuf 16 ≠ []))
      rw [live_end]; rfl
    · have hlt : k < 16 := by omega
      obtain ⟨i, rfl⟩ : ∃ i : Fin 16, k = i := ⟨⟨k, hlt⟩, rfl⟩
      rw [if_pos ⟨h0, by omega⟩, if_neg h0, hr, Nat.mul_div_cancel_left _ (by decide),
        Buffer.load_lt _ (by omega), Option.bind_some]
      show (if (slot s.recvBuf i).header = 0 then _ else _) = _
      by_cases hb0 : (slot s.recvBuf i).header = 0
      · rw [if_pos hb0, Buffer.load_lt _ (by omega)]
        show some ((slot s.recvBuf i).midi0 != 0) = _
        by_cases hb1 : (slot s.recvBuf i).midi0 = 0
        · rw [live_nil (fun h => h ⟨hb0, hb1⟩), hb1]; rfl
        · have hl : (slot s.recvBuf i).Live := fun h => hb1 h.2
          rw [live_cons hl]
          simpa using hb1
      · have hl : (slot s.recvBuf i).Live := fun h => hb0 h.1
        rw [if_neg hb0, live_cons hl]
        simp

/-! ## The driver refines `Refill` -/

/-- What every call needs and keeps. -/
structure Rx.Ready (s : Rx) : Prop where
  poll : s.bPollEnable = true
  aligned : s.Aligned

/-- Handing out slot `k`. -/
theorem pending_after (s : Rx) (k : Fin 16) :
    ({ s with readPtr := 4 * (k + 1) } : Rx).pending = live s.recvBuf (k + 1) := by
  unfold Rx.pending
  rw [if_neg (by show ¬ 4 * ((k : Nat) + 1) = 0; omega)]
  show live s.recvBuf (4 * ((k : Nat) + 1) / 4) = _
  rw [Nat.mul_div_cancel_left _ (by decide)]

theorem aligned_after (s : Rx) (k : Fin 16) :
    ({ s with readPtr := 4 * (k + 1) } : Rx).Aligned := ⟨k + 1, by omega, rfl⟩

/-- A call that has a packet waiting. -/
theorem next_waiting {s : Rx} (r : Reply) (h : s.Ready) {e : EventPacket} {q : List EventPacket}
    (hp : s.pending = e :: q) : ∃ s', s.next r = some (some e, s') ∧ s'.Ready ∧ s'.pending = q ∧
      s'.recvBuf = s.recvBuf := by
  obtain ⟨k, hk, hr⟩ := h.aligned
  have h0 : s.readPtr ≠ 0 := by
    intro h0
    rw [Rx.pending, if_pos h0] at hp
    cases hp
  rw [Rx.pending, if_neg h0, hr, Nat.mul_div_cancel_left _ (by decide)] at hp
  have hlt : k < 16 := by
    by_contra hge
    obtain rfl : k = 16 := by omega
    rw [live_end] at hp
    cases hp
  obtain ⟨i, rfl⟩ : ∃ i : Fin 16, k = i := ⟨⟨k, hlt⟩, rfl⟩
  by_cases hl : (slot s.recvBuf i).Live
  · rw [live_cons hl, List.cons.injEq] at hp
    refine ⟨{ s with readPtr := 4 * (i + 1) }, ?_, ⟨h.poll, aligned_after s i⟩, ?_, rfl⟩
    · have hu : s.unprocessed = some true := by
        rw [unprocessed_eq h.aligned, Rx.pending, if_neg h0, hr,
          Nat.mul_div_cancel_left _ (by decide), live_cons hl]
        rfl
      rw [Rx.next, if_neg (by rw [h.poll]; decide), hu, Option.bind_some, if_pos rfl,
        returnFromBuffer_slot hr, hp.1]
    · rw [pending_after, hp.2]
  · rw [live_nil hl] at hp
    cases hp

/-- A call that asks the device. -/
theorem next_asked {s : Rx} (r : Reply) (h : s.Ready) (hp : s.pending = []) :
    ∃ s', s.next r = some ((s.batch r).head?, s') ∧ s'.Ready ∧ s'.pending = (s.batch r).tail ∧
      s'.recvBuf = Rx.filled s.recvBuf r := by
  have hu : s.unprocessed = some false := by
    rw [unprocessed_eq h.aligned, hp]; rfl
  have hnext : s.next r = if r.rcode ≠ 0 then some (none, { s with readPtr := 0, recvBuf := Rx.filled s.recvBuf r })
      else if (slot (Rx.filled s.recvBuf r) firstSlot).IsZero then
        some (none, { s with readPtr := 0, recvBuf := Rx.filled s.recvBuf r })
      else Rx.returnFromBuffer { s with readPtr := 0, recvBuf := Rx.filled s.recvBuf r } := by
    rw [Rx.next, if_neg (by rw [h.poll]; decide), hu, Option.bind_some, if_neg (by decide),
      recvInto_eq, Option.bind_some]
    rfl
  have hready : Rx.Ready { s with readPtr := 0, recvBuf := Rx.filled s.recvBuf r } :=
    ⟨h.poll, 0, by omega, rfl⟩
  unfold Rx.batch
  rw [hnext]
  split
  · exact ⟨_, rfl, hready, rfl, rfl⟩
  · split
    · exact ⟨_, rfl, hready, rfl, rfl⟩
    · have hret := returnFromBuffer_slot (s := { s with readPtr := 0, recvBuf := Rx.filled s.recvBuf r })
        (k := firstSlot) rfl
      refine ⟨_, hret, ⟨h.poll, aligned_after _ firstSlot⟩, ?_, rfl⟩
      exact pending_after { s with readPtr := 0, recvBuf := Rx.filled s.recvBuf r }
        firstSlot

/-- **`RecvData` is a `Refill` reader**, whatever is in `recvBuf`, and stays inside it. -/
theorem next_refines : Refill.Refines Rx.Ready Rx.pending Rx.batch Rx.next where
  call_eq s r h := by
    cases hp : s.pending with
    | nil =>
      obtain ⟨s', h1, h2, h3, -⟩ := next_asked r h hp
      exact ⟨s', h1, h2, h3⟩
    | cons e q =>
      obtain ⟨s', h1, h2, h3, -⟩ := next_waiting r h hp
      exact ⟨s', h1, h2, h3⟩

/-! ## Transfers of event packets -/

/-- A transfer of whole event packets, none of which looks like the end. -/
structure Transfer where
  rcode : Byte
  events : List EventPacket
  live : ∀ e ∈ events, e.Live
  few : events.length ≤ 16

theorem bytes_length (es : List EventPacket) :
    (es.flatMap EventPacket.bytes).length = 4 * es.length := by
  induction es with
  | nil => rfl
  | cons e es ih =>
    rw [List.flatMap_cons, List.length_append, ih, List.length_cons]
    show 4 + 4 * es.length = _
    omega

/-- The event packets in some bytes. -/
def eventPackets : List Byte → List EventPacket
  | b0 :: b1 :: b2 :: b3 :: bs => ⟨b0, b1, b2, b3⟩ :: eventPackets bs
  | _ => []

theorem eventPackets_bytes (es : List EventPacket) :
    eventPackets (es.flatMap EventPacket.bytes) = es := by
  induction es with
  | nil => rfl
  | cons e es ih =>
    rw [List.flatMap_cons]
    exact congrArg (e :: ·) ih

namespace Transfer

def reply (t : Transfer) : Reply where
  rcode := t.rcode
  bytes := t.events.flatMap EventPacket.bytes
  fits := by
    have := t.few
    rw [bytes_length]; omega

/-- NAK: the device has nothing to send. -/
def nak : Transfer := ⟨4, [], List.forall_mem_nil _, Nat.zero_le _⟩

/-- The packets the device has handed over. -/
def sent (t : Transfer) : List EventPacket := if t.rcode ≠ 0 then [] else t.events

end Transfer

/-- What a transfer of no bytes makes of the first slot. -/
def cleared (e : EventPacket) : EventPacket := { e with header := 0, midi0 := 0 }

/-- Packets of an earlier transfer that a transfer hands out again: one of 15
packets leaves the last slot as it was, an empty one closes nothing off unless the
first slot's last two bytes are zero. -/
def Rx.stale (s : Rx) (t : Transfer) : List EventPacket :=
  if t.rcode ≠ 0 then []
  else if t.events.length = 15 then live s.recvBuf 15
  else if t.events = [] ∧ ¬ (cleared (slot s.recvBuf firstSlot)).IsZero then
    cleared (slot s.recvBuf firstSlot) :: live s.recvBuf 1
  else []

theorem getD_events {es : List EventPacket} {j : Nat} (h : j < es.length) {i : Nat} (hi : i < 4)
    (z : List Byte) (d : Byte) :
    (es.flatMap EventPacket.bytes ++ z).getD (4 * j + i) d = es[j].bytes.getD i d := by
  induction es generalizing j with
  | nil => exact absurd h (Nat.not_lt_zero j)
  | cons e es ih =>
    have he : e.bytes.length = 4 := rfl
    rw [List.flatMap_cons, List.append_assoc]
    cases j with
    | zero => rw [List.getD_append _ _ _ _ (by omega), Nat.mul_zero, Nat.zero_add]; rfl
    | succ j =>
      have hj : 4 * (j + 1) + i - e.bytes.length = 4 * j + i := by omega
      rw [List.getD_append_right _ _ _ _ (by omega), hj, ih (Nat.lt_of_succ_lt_succ h)]
      rfl

/-- A slot that was written. -/
theorem slot_put (buf : RecvBuf) {es : List EventPacket} (z : List Byte) {k : Fin 16}
    (h : (k : Nat) < es.length) :
    slot (buf.put (es.flatMap EventPacket.bytes ++ z)) k = es[k] := by
  show EventPacket.mk _ _ _ _ = _
  unfold Buffer.put
  simp only [getD_events h (i := 1) (by decide), getD_events h (i := 2) (by decide),
    getD_events h (i := 3) (by decide)]
  have h0 := getD_events h (i := 0) (by decide) z
  simp only [Nat.add_zero] at h0
  rw [h0]
  rfl

/-- A slot behind what was written. -/
theorem slot_put_ge (buf : RecvBuf) {p : List Byte} {k : Fin 16} (h : p.length ≤ 4 * k) :
    slot (buf.put p) k = slot buf k := by
  unfold slot
  rw [Buffer.put_ge buf h, Buffer.put_ge buf (Nat.le_succ_of_le h),
    Buffer.put_ge buf (by show p.length ≤ 4 * (k : Nat) + 2; omega),
    Buffer.put_ge buf (by show p.length ≤ 4 * (k : Nat) + 3; omega)]

theorem live_congr {buf buf' : RecvBuf} {k : Nat}
    (h : ∀ i : Fin 16, k ≤ i → slot buf i = slot buf' i) : live buf k = live buf' k := by
  have hd : (slots buf).drop k = (slots buf').drop k := by
    apply List.ext_getElem
    · rw [List.length_drop, List.length_drop, slots_length, slots_length]
    · intro i h1 h2
      rw [List.length_drop, slots_length] at h1
      rw [List.getElem_drop, List.getElem_drop, slots_get, slots_get]
      exact h _ (Nat.le_add_right k i)
  rw [live, hd, live]

/-- What has been written is handed out, and then what is behind it. -/
theorem live_events {buf : RecvBuf} {es : List EventPacket} (hl : ∀ e ∈ es, e.Live)
    (hs : ∀ (k : Fin 16) (h : (k : Nat) < es.length), slot buf k = es[k]) :
    ∀ n j, j + n = es.length → es.length ≤ 16 → live buf j = es.drop j ++ live buf es.length := by
  intro n
  induction n with
  | zero =>
    intro j hj _
    obtain rfl : j = es.length := hj
    rw [List.drop_length, List.nil_append]
  | succ n ih =>
    intro j hj h16
    have hlt : j < es.length := by omega
    have hslot := hs ⟨j, by omega⟩ hlt
    have hlive : (slot buf ⟨j, by omega⟩).Live := by
      rw [hslot]; exact hl _ (List.getElem_mem hlt)
    have h1 := live_cons hlive
    rw [hslot] at h1
    rw [List.drop_eq_getElem_cons hlt, List.cons_append, ← ih (j + 1) (by omega) h16]
    exact h1

/-! ### `recvBuf` after a transfer -/

variable (buf : RecvBuf) (t : Transfer)

theorem filled_events {k : Fin 16} (h : (k : Nat) < t.events.length) :
    slot (Rx.filled buf t.reply) k = t.events[k] := slot_put buf _ h

/-- Fewer than 15 packets are closed off. -/
theorem filled_short (h : t.events.length < 15) :
    Rx.filled buf t.reply = buf.put (t.events.flatMap EventPacket.bytes ++ [0, 0]) := by
  have hlen : t.reply.bytes.length < 64 - 4 := by
    show (t.events.flatMap EventPacket.bytes).length < 60
    rw [bytes_length]; omega
  rw [Rx.filled, if_pos hlen]
  rfl

/-- 15 packets and 16 are not. -/
theorem filled_long (h : ¬ t.events.length < 15) :
    Rx.filled buf t.reply = buf.put (t.events.flatMap EventPacket.bytes) := by
  have hlen : ¬ t.reply.bytes.length < 64 - 4 := by
    show ¬ (t.events.flatMap EventPacket.bytes).length < 60
    rw [bytes_length]; omega
  rw [Rx.filled, if_neg hlen, List.append_nil]
  rfl

/-- The slot behind fewer than 15 packets. -/
theorem filled_end {k : Fin 16} (hk : (k : Nat) = t.events.length) (h : t.events.length < 15) :
    slot (Rx.filled buf t.reply) k = cleared (slot buf k) := by
  have hlen := bytes_length t.events
  rw [filled_short buf t h]
  unfold slot cleared Buffer.put
  have e0 : 4 * (k : Nat) - 4 * t.events.length = 0 := by omega
  have e1 : 4 * (k : Nat) + 1 - 4 * t.events.length = 1 := by omega
  have h0 : (t.events.flatMap EventPacket.bytes ++ [0, 0]).getD (4 * k) (buf ⟨4 * k, by omega⟩) = 0 := by
    rw [List.getD_append_right _ _ _ _ (by omega), hlen, e0]; rfl
  have h1 : (t.events.flatMap EventPacket.bytes ++ [0, 0]).getD (4 * k + 1)
      (buf ⟨4 * k + 1, by omega⟩) = 0 := by
    rw [List.getD_append_right _ _ _ _ (by omega), hlen, e1]; rfl
  rw [h0, h1, List.getD_eq_default, List.getD_eq_default]
  · rw [List.length_append, hlen]
    show 4 * t.events.length + 2 ≤ 4 * (k : Nat) + 3
    omega
  · rw [List.length_append, hlen]
    show 4 * t.events.length + 2 ≤ 4 * (k : Nat) + 2
    omega

/-- Behind the packets, and the two zero bytes if any. -/
theorem filled_behind {k : Fin 16} (hk : t.events.length < k ∨ t.events.length = 15 ∧ k = 15) :
    slot (Rx.filled buf t.reply) k = slot buf k := by
  have hlen := bytes_length t.events
  by_cases h : t.events.length < 15
  · rw [filled_short buf t h]
    apply slot_put_ge
    rw [List.length_append, hlen]
    show 4 * t.events.length + 2 ≤ _
    omega
  · rw [filled_long buf t h]
    apply slot_put_ge
    rw [hlen]
    rcases hk with hk | ⟨hk, rfl⟩
    · omega
    · rw [hk]; rfl

/-- What is handed out after the packets of a transfer. -/
theorem live_behind : live (Rx.filled buf t.reply) t.events.length =
    if t.events.length = 15 then live buf 15 else [] := by
  have hfew := t.few
  split
  · rename_i h15
    rw [h15]
    apply live_congr
    intro i hi
    exact filled_behind buf t (.inr ⟨h15, Fin.ext (by show (i : Nat) = 15; omega)⟩)
  · rename_i h15
    by_cases h16 : t.events.length = 16
    · rw [h16, live_end]
    · have hk := filled_end buf t (k := ⟨t.events.length, by omega⟩) rfl (by omega)
      exact live_nil (k := ⟨t.events.length, by omega⟩) (by rw [hk]; exact fun hl => hl ⟨rfl, rfl⟩)

/-- **What a transfer of event packets brings**: its packets, and stale ones. -/
theorem batch_eq (s : Rx) : s.batch t.reply = t.sent ++ s.stale t := by
  unfold Rx.batch Transfer.sent Rx.stale
  show (if t.rcode ≠ 0 then _ else _) = _
  split
  · rfl
  · cases he : t.events with
    | nil =>
      have h0 : slot (Rx.filled s.recvBuf t.reply) firstSlot = cleared (slot s.recvBuf firstSlot) :=
        filled_end s.recvBuf t (by rw [he]; rfl) (by rw [he]; decide)
      have h1 : live (Rx.filled s.recvBuf t.reply) 1 = live s.recvBuf 1 :=
        live_congr fun i hi => filled_behind s.recvBuf t (.inl (by rw [he]; exact hi))
      rw [h0, h1]
      by_cases hz : (cleared (slot s.recvBuf firstSlot)).IsZero <;> simp [hz]
    | cons e es =>
      have hlen : 0 < t.events.length := by rw [he, List.length_cons]; omega
      have h0 : slot (Rx.filled s.recvBuf t.reply) firstSlot = e := by
        have h := filled_events s.recvBuf t (k := firstSlot) hlen
        simp only [he] at h
        exact h
      have hlive : e.Live := t.live e (by rw [he]; exact List.mem_cons_self)
      have h1 : live (Rx.filled s.recvBuf t.reply) 1 =
          es ++ if (e :: es).length = 15 then live s.recvBuf 15 else [] := by
        have h := live_events t.live (fun k hk => filled_events s.recvBuf t hk)
          (t.events.length - 1) 1 (by omega) t.few
        rw [live_behind s.recvBuf t, he] at h
        exact h
      have hne : ¬ (e :: es = [] ∧ ¬ (cleared (slot s.recvBuf firstSlot)).IsZero) :=
        fun h => absurd h.1 (List.cons_ne_nil e es)
      rw [h0, h1, if_neg hlive.not_isZero, if_neg hne, List.cons_append]

/-! ## Calls while the device sends event packets -/

/-- A call, should the device be about to answer with `t`. -/
def Rx.nextOf (s : Rx) (t : Transfer) : Option (Option EventPacket × Rx) := s.next t.reply

theorem nextOf_refines :
    Refill.Refines Rx.Ready Rx.pending (fun s t => t.sent ++ s.stale t) Rx.nextOf where
  call_eq s t h := by
    obtain ⟨s', h1, h2, h3⟩ := next_refines.call_eq s t.reply h
    rw [batch_eq] at h1 h3
    exact ⟨s', h1, h2, h3⟩

/-- A transfer that closes itself off, or brings nothing. -/
def Transfer.Closed (t : Transfer) : Prop :=
  t.rcode ≠ 0 ∨ t.events ≠ [] ∧ t.events.length ≠ 15

instance (t : Transfer) : Decidable t.Closed := inferInstanceAs (Decidable (_ ∨ _))

theorem Transfer.Closed.stale_nil {t : Transfer} (h : t.Closed) (s : Rx) : s.stale t = [] := by
  rcases h with h | ⟨h1, h2⟩
  · rw [Rx.stale, if_pos h]
  · have hne : ¬ (t.events = [] ∧ ¬ (cleared (slot s.recvBuf firstSlot)).IsZero) := fun he => h1 he.1
    rw [Rx.stale, if_neg h2, if_neg hne, ite_self]

end SonicCraft.L2.Usb
