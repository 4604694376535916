import SonicCraft.Core.LTS
import SonicCraft.L2Software.UsbTransfer

/-!
# Control reads, host against device

`ctrlReqIn` of `UsbTransfer` against the other end of the bus. A `Device` keeps what
it has still to send and sends it in packets of `packet` bytes, a shorter one coming
last; behind a last packet that is full some devices send an empty one and others
nothing. Otherwise it does as it likes: it may answer with NAKs, not answer, fail, or
be misunderstood.

* `inTransfer_served`: one IN transfer gets the next `nbytes` bytes.
* `ctrlReqIn_served`: a request that succeeds has handed the parser what the device
  was asked for, whole, in order and nothing else.
* `ctrlReqIn_full`: from a device that sends no empty packet no request succeeds
  whose length is a multiple of the packets' and not of the buffer's.
-/
namespace SonicCraft.L2.Usb

/-! ## The device -/

/-- The device's end of the default pipe; `answer` is what it has to say to a request. -/
structure Device where
  packet : Nat
  /-- An empty packet comes after a last one that is full. -/
  zlp : Bool
  answer : SetupPkt → List Byte

namespace Device
variable (D : Device)

/-- A packet of `bs` is the last one. -/
def Last (bs : List Byte) : Prop :=
  bs.length < D.packet ∨ D.zlp = false ∧ bs.length = D.packet

instance : DecidablePred D.Last := fun _ => inferInstanceAs (Decidable (_ ∨ _))

/-- What it has to send, if it is sending, after a launch. -/
def serve (q : Option (List Byte)) (t : Launch) : Option (List Byte) :=
  if t.hrslt = 0 then
    match t.token with
    | .tokSETUP pkt => some ((D.answer pkt).take pkt.wLength.toNat)
    | .tokIN => q.bind fun bs => if D.Last bs then none else some (bs.drop D.packet)
    | .tokOUT _ => none
    | .tokINHS => none
    | .tokOUTHS => none
  else q

/-- An acknowledged data packet is the one that was to be sent. -/
def Serves (q : Option (List Byte)) (t : Launch) : Prop :=
  t.hrslt = 0 → t.token = .tokIN → q.map (·.take D.packet) = some t.fifo

instance (q : Option (List Byte)) (t : Launch) : Decidable (D.Serves q t) :=
  inferInstanceAs (Decidable (_ → _ → _))

/-- The bus with such a device. -/
def Served (q : Option (List Byte)) (us : List Launch) : Prop := Along D.serve D.Serves q us

instance (q : Option (List Byte)) (us : List Launch) : Decidable (D.Served q us) :=
  inferInstanceAs (Decidable (Along _ _ _ _))

variable {D} {q : Option (List Byte)}

theorem served_left (us us' : List Launch) (h : D.Served q (us ++ us')) : D.Served q us :=
  ((along_append us us' q).mp h).1

theorem served_right (us us' : List Launch) (h : D.Served q (us ++ us')) :
    D.Served (exec D.serve q us) us' := ((along_append us us' q).mp h).2

theorem serve_other {t : Launch} (h : t.hrslt ≠ 0) : D.serve q t = q := by rw [serve, if_neg h]

theorem serve_packet {bs : List Byte} {t : Launch} (h : t.hrslt = 0) (ht : t.token = .tokIN) :
    D.serve (some bs) t = if D.Last bs then none else some (bs.drop D.packet) := by
  rw [serve, if_pos h, ht]; rfl

theorem serve_setup {pkt : SetupPkt} {t : Launch} (h : t.hrslt = 0) (ht : t.token = .tokSETUP pkt) :
    D.serve q t = some ((D.answer pkt).take pkt.wLength.toNat) := by
  rw [serve, if_pos h, ht]

theorem serve_idle {us : List Launch} (h : ∀ t ∈ us, t.Idle) : exec D.serve q us = q := by
  induction us with
  | nil => rfl
  | cons t us ih =>
    have ht : t.hrslt ≠ 0 := by
      rcases h t List.mem_cons_self with h0 | h0 <;> simp [h0, hrNAK, hrTIMEOUT]
    rw [exec_cons, serve_other ht]
    exact ih fun u hu => h u (List.mem_cons_of_mem t hu)

/-- A dispatch, as the device sees it. -/
theorem served_dispatch {token : Token} {ep : Byte} {k : BitVec 16} {idle : List Launch} {t : Launch}
    (hw : Waited token ep k idle) (h : D.Served q (idle ++ [t])) :
    D.Serves q t ∧ exec D.serve q (idle ++ [t]) = D.serve q t := by
  have h1 := served_right idle [t] h
  rw [serve_idle hw.idle] at h1
  rw [exec_snoc, serve_idle hw.idle]
  exact ⟨h1.1, rfl⟩

/-- What it has to send after the first `n` of `bs`, in full packets. -/
def rest (D : Device) (bs : List Byte) (n : Nat) : Option (List Byte) :=
  if D.zlp = false ∧ 0 < n ∧ n = bs.length then none else some (bs.drop n)

theorem rest_zero (bs : List Byte) : D.rest bs 0 = some bs := by
  rw [rest, if_neg fun h => absurd h.2.1 (Nat.lt_irrefl 0), List.drop_zero]

/-- An acknowledged packet. -/
theorem served_packet {bs : List Byte} {n : Nat} {t : Launch} (h : t.hrslt = 0)
    (ht : t.token = .tokIN) (hs : D.Serves (D.rest bs n) t) :
    t.fifo = (bs.drop n).take D.packet ∧ D.rest bs n = some (bs.drop n) ∧
      ¬ (D.zlp = false ∧ 0 < n ∧ n = bs.length) := by
  have h1 := hs h ht
  unfold rest at h1 ⊢
  split at h1
  · cases h1
  · rename_i hn
    rw [Option.map_some, Option.some.injEq] at h1
    exact ⟨h1.symm, if_neg hn, hn⟩

/-- A full packet leads on. -/
theorem rest_full {bs : List Byte} {n : Nat} (hp : 0 < D.packet) (hle : n + D.packet ≤ bs.length) :
    (if D.Last (bs.drop n) then none else some ((bs.drop n).drop D.packet)) =
      D.rest bs (n + D.packet) := by
  unfold rest
  rw [List.drop_drop]
  congr 1
  rw [eq_iff_iff, Last, List.length_drop]
  constructor
  · rintro (h | ⟨h1, h2⟩)
    · omega
    · exact ⟨h1, by omega, by omega⟩
  · rintro ⟨h1, -, h2⟩
    exact .inr ⟨h1, by omega⟩

end Device

/-! ## IN transfers -/

/-- A host that takes packets of `maxPktSize` bytes asks for `nbytes` of the `len` the
device has: in whole packets of the same size, or for all there is, taking its
packets for longer ones only if there is but one. -/
structure Suits (m maxPktSize nbytes len : Nat) : Prop where
  pos : 0 < nbytes
  small : nbytes < 2 ^ 15
  packetPos : 0 < m
  fit : maxPktSize = m ∧ m ∣ nbytes ∨ len = nbytes ∧ (maxPktSize ≤ m ∨ nbytes ≤ m)

section Served
variable {D : Device} {pep : EpInfo} {k nbytes : BitVec 16} {bs : List Byte}

/-- Between two packets of the transfer. -/
structure Halfway (D : Device) (pep : EpInfo) (nbytes : BitVec 16) (bs : List Byte)
    (us : List Launch) (s : InSt) : Prop where
  device : exec D.serve (some bs) us = D.rest bs s.nbytesptr.toNat
  data : s.data = bs.take s.nbytesptr.toNat
  le : s.nbytesptr.toNat ≤ bs.length
  room : s.nbytesptr.toNat < nbytes.toNat
  whole : D.packet ∣ s.nbytesptr.toNat
  same : s.pep = { pep with bmRcvToggle := s.pep.bmRcvToggle }

theorem halfway_step (hs : Suits D.packet pep.maxPktSize.toNat nbytes.toNat bs.length)
    {h us : List Launch} {s s' : InSt} (hI : Halfway D pep nbytes bs h s)
    (hd : D.Served (some bs) (h ++ us)) (hr : Client.Runs (inBody k nbytes s) us (.inl s')) :
    Halfway D pep nbytes bs (h ++ us) s' := by
  obtain ⟨idle, t, rfl, hw, htok, he⟩ := inBody_eff hs.small hI.room.le hr
  have hd' := Device.served_right h _ hd
  rw [hI.device] at hd'
  obtain ⟨hserves, hnext⟩ := Device.served_dispatch hw hd'
  have hexec : exec D.serve (some bs) (h ++ (idle ++ [t])) =
      D.serve (D.rest bs s.nbytesptr.toNat) t := by
    rw [exec_append, hI.device, hnext]
  cases he with
  | togerr ht =>
    refine ⟨?_, hI.data, hI.le, hI.room, hI.whole, by rw [hI.same]⟩
    rw [hexec, Device.serve_other fun h0 => hrTOGERR_ne_zero (ht.symm.trans h0)]
  | more h0 hdav hfull hlt =>
    have hmax : s.pep.maxPktSize = pep.maxPktSize := by rw [hI.same]
    obtain ⟨hfifo, hrest, -⟩ := Device.served_packet h0 htok hserves
    have hle := hI.le
    have hpos := hs.packetPos
    have hlen : t.fifo.length = min D.packet (bs.length - s.nbytesptr.toNat) := by
      rw [hfifo, List.length_take, List.length_drop]
    have hm : t.fifo.length = D.packet := by
      rw [hmax] at hfull
      rcases hs.fit with ⟨h2, -⟩ | ⟨h2, -⟩ <;> omega
    have hcount : (BitVec.ofNat 16 (s.nbytesptr.toNat + t.fifo.length)).toNat =
        s.nbytesptr.toNat + D.packet := by
      have := hs.small
      rw [BitVec.toNat_ofNat, Nat.mod_eq_of_lt (by omega), hm]
    refine ⟨?_, ?_, ?_, ?_, ?_, hI.same⟩
    · show _ = D.rest bs (BitVec.ofNat 16 _).toNat
      rw [hexec, hrest, Device.serve_packet h0 htok, hcount, Device.rest_full hpos (by omega)]
    · show _ = bs.take (BitVec.ofNat 16 _).toNat
      rw [hcount, hI.data, hfifo, List.take_add]
    · show (BitVec.ofNat 16 _).toNat ≤ _
      omega
    · show (BitVec.ofNat 16 _).toNat < _
      omega
    · show D.packet ∣ (BitVec.ofNat 16 _).toNat
      rw [hcount]
      exact Nat.dvd_add_self_right.mpr hI.whole

/-- A transfer that has got its bytes. -/
structure Got (D : Device) (pep : EpInfo) (nbytes : BitVec 16) (bs : List Byte) (us : List Launch)
    (s : InSt) : Prop where
  data : s.data = bs.take nbytes.toNat
  count : s.nbytesptr.toNat = min nbytes.toNat bs.length
  same : s.pep = { pep with bmRcvToggle := s.pep.bmRcvToggle }
  device : nbytes.toNat < bs.length → exec D.serve (some bs) us = some (bs.drop nbytes.toNat)
  full : D.zlp = false → bs ≠ [] → nbytes.toNat ≤ bs.length ∨ ¬ D.packet ∣ bs.length

/-- **One IN transfer.** -/
theorem inTransfer_served (hs : Suits D.packet pep.maxPktSize.toNat nbytes.toNat bs.length)
    {us : List Launch} {r : Byte × Launch × InSt} (hd : D.Served (some bs) us)
    (hr : Client.Runs (inTransfer pep k nbytes) us r) (h0 : r.1 = 0) :
    Got D pep nbytes bs us r.2.2 := by
  obtain ⟨rcode, tail, s'⟩ := r
  obtain rfl : rcode = 0 := h0
  have hstart : Halfway D pep nbytes bs [] ⟨pep, 0, []⟩ :=
    ⟨(Device.rest_zero bs).symm, rfl, Nat.zero_le _, hs.pos, Nat.dvd_zero _, rfl⟩
  obtain ⟨us₁, s, us₂, rfl, hI, hlast⟩ := ((inTransfer_loop k nbytes).runs_loop.mp hr).inv_guard
    (G := D.Served (some bs)) (I := fun us s => Halfway D pep nbytes bs us s)
    (fun us us' => Device.served_left us us')
    (fun h s us s' hd hI hr => halfway_step hs hI hd hr) (h := []) hd hstart
  rw [List.nil_append] at hI
  obtain ⟨idle, t, rfl, hw, htok, he⟩ := inBody_eff hs.small hI.room.le hlast
  have hd' := Device.served_right us₁ _ hd
  rw [hI.device] at hd'
  obtain ⟨hserves, hnext⟩ := Device.served_dispatch hw hd'
  cases he with
  | failed err h0 => exact absurd rfl h0
  | last h0 hdav hend =>
    have hmax : s.pep.maxPktSize = pep.maxPktSize := by rw [hI.same]
    obtain ⟨hfifo, hrest, hnot⟩ := Device.served_packet h0 htok hserves
    have hle := hI.le
    have hroom := hI.room
    have hpos := hs.packetPos
    have hlen : tail.fifo.length = min D.packet (bs.length - s.nbytesptr.toNat) := by
      rw [hfifo, List.length_take, List.length_drop]
    -- no packet goes over the end
    have hin : s.nbytesptr.toNat + tail.fifo.length ≤ nbytes.toNat := by
      rcases hs.fit with ⟨-, hdvd⟩ | ⟨hall, -⟩
      · obtain ⟨a, ha⟩ := hI.whole
        obtain ⟨b, hb⟩ := hdvd
        have hab : a < b := by
          by_contra hba
          have := Nat.mul_le_mul_left D.packet (Nat.le_of_not_lt hba)
          omega
        have := Nat.mul_le_mul_left D.packet hab
        rw [Nat.mul_succ] at this
        omega
      · omega
    have hmin : min tail.fifo.length nbytes.toNat = tail.fifo.length := by omega
    rw [hmin, hmax] at hend
    have hend' : s.nbytesptr.toNat + tail.fifo.length = nbytes.toNat ∨
        tail.fifo.length < D.packet ∧ s.nbytesptr.toNat + tail.fifo.length = bs.length := by
      rcases hs.fit with ⟨h1, -⟩ | ⟨h1, h2 | h2⟩
      · omega
      · omega
      · -- one packet: nothing has come before it
        have hzero : s.nbytesptr.toNat = 0 := Nat.eq_zero_of_dvd_of_lt hI.whole (by omega)
        omega
    have hcount : (BitVec.ofNat 16 (s.nbytesptr.toNat + tail.fifo.length)).toNat =
        s.nbytesptr.toNat + tail.fifo.length := by
      have := hs.small
      rw [BitVec.toNat_ofNat, Nat.mod_eq_of_lt (by omega)]
    rw [hmin]
    refine ⟨?_, ?_, by rw [hI.same], fun hlt => ?_, fun hz hne => ?_⟩
    · have hwrite : tail.fifo.take (nbytes.toNat - s.nbytesptr.toNat) = tail.fifo :=
        List.take_of_length_le (by omega)
      show s.data ++ tail.fifo.take _ = _
      rw [hwrite, hI.data, hfifo, ← List.take_add, List.take_eq_take_iff]
      omega
    · show (BitVec.ofNat 16 _).toNat = _
      omega
    · have hm : s.nbytesptr.toNat + D.packet = nbytes.toNat := by omega
      have hnlast : ¬ (D.zlp = false ∧ 0 < nbytes.toNat ∧ nbytes.toNat = bs.length) := by omega
      rw [exec_append, hI.device, hnext, hrest, Device.serve_packet h0 htok,
        Device.rest_full hpos (by omega), hm, Device.rest, if_neg hnlast]
    · by_contra hcon
      rw [not_or, not_not] at hcon
      obtain ⟨hshort, hdvd⟩ := hcon
      have hsum : s.nbytesptr.toNat + tail.fifo.length = bs.length := by omega
      have hlt : tail.fifo.length < D.packet := by omega
      rw [← hsum] at hdvd
      have hzero := Nat.eq_zero_of_dvd_of_lt ((Nat.dvd_add_right hI.whole).mp hdvd) hlt
      have hbs := List.length_pos_of_ne_nil hne
      exact hnot ⟨hz, by omega, by omega⟩

/-! ## The data stage -/

variable {n : Nat} {P : Type} {parse : P → Nat → Buffer n Byte → Option P}
  {f : P → List Byte → Option P}

/-- A parser that looks at no more than it is given. -/
def Parses (parse : P → Nat → Buffer n Byte → Option P) (f : P → List Byte → Option P) : Prop :=
  ∀ p (mem : Buffer n Byte) data, data.length ≤ n → parse p data.length (mem.put data) = f p data

/-- Between two transfers of the stage: `chunks` have been parsed, `rest` is to come. -/
structure Staged (D : Device) (f : P → List Byte → Option P) (bs : List Byte) (nbytes : BitVec 16)
    (s₀ : Stage n P) (us : List Launch) (chunks : List (List Byte)) (rest : List Byte)
    (s : Stage n P) : Prop where
  split : chunks.flatten ++ rest = bs
  device : rest ≠ [] → exec D.serve (some bs) us = some rest
  left : s.left.toNat = rest.length
  parser : s.parser = s₀.parser.bind fun p => chunks.foldlM f p
  whole : nbytes.toNat ∣ chunks.flatten.length
  mem : bs.length = nbytes.toNat → rest = bs ∧ s.mem = s₀.mem ∨ rest = [] ∧ s.mem = s₀.mem.put bs
  same : s.pep = { s₀.pep with bmRcvToggle := s.pep.bmRcvToggle }

/-- What has been read when it is over. -/
structure ReadAll (D : Device) (f : P → List Byte → Option P) (bs : List Byte) (nbytes : BitVec 16)
    (s₀ s : Stage n P) : Prop where
  parser : ∃ chunks : List (List Byte), chunks.flatten = bs ∧
    s.parser = s₀.parser.bind fun p => chunks.foldlM f p
  mem : bs.length = nbytes.toNat → s.mem = s₀.mem.put bs
  same : s.pep = { s₀.pep with bmRcvToggle := s.pep.bmRcvToggle }
  full : D.zlp = false → nbytes.toNat ∣ bs.length ∨ ¬ D.packet ∣ bs.length

theorem local_dataBody (nbytes : BitVec 16) (s : Stage n P) :
    Client.Local (dataBody parse k nbytes s) :=
  (Client.local_pure _).ite ((local_inTransfer _ _ _).bind fun _ => Client.local_pure _)

theorem runs_dataBody {s : Stage n P} {us : List Launch} {x : Stage n P ⊕ Byte × Stage n P}
    (h : Client.Runs (dataBody parse k nbytes s) us x) :
    s.left = 0 ∧ us = [] ∧ x = .inr (0, s) ∨
    s.left ≠ 0 ∧ ∃ r, Client.Runs (inTransfer s.pep k nbytes) us r ∧ x = dataTurn parse nbytes s r := by
  unfold dataBody at h
  split at h
  · rename_i h0
    obtain ⟨rfl, rfl⟩ := Client.runs_pure.mp h
    exact .inl ⟨h0, rfl, rfl⟩
  · rename_i h0
    obtain ⟨us₁, r, us₂, rfl, h1, h2⟩ :=
      (Client.runs_bind (local_inTransfer _ _ _) fun _ => Client.local_pure _).mp h
    obtain ⟨rfl, rfl⟩ := Client.runs_pure.mp h2
    rw [List.append_nil]
    exact .inr ⟨h0, r, h1, rfl⟩

theorem inTransfer_takes {us : List Launch} {r : Byte × Launch × InSt}
    (h : Client.Runs (inTransfer pep k nbytes) us r) : us ≠ [] := by
  obtain ⟨us₁, s, us₂, rfl, -, hlast⟩ := ((inTransfer_loop k nbytes).runs_loop.mp h).inv
    (I := fun _ _ => True) (fun _ _ _ _ _ _ => trivial) trivial
  obtain ⟨idle, t, rfl, -⟩ := runs_inBody hlast
  simp

theorem data_loop (parse : P → Nat → Buffer n Byte → Option P) (k nbytes : BitVec 16) :
    Client.Body (dataBody parse k nbytes) where
  isLocal s := local_dataBody nbytes s
  takes s us s' h := by
    rcases runs_dataBody h with ⟨-, -, hx⟩ | ⟨-, r, hr, -⟩
    · cases hx
    · exact inTransfer_takes hr

section Stages
variable {s₀ : Stage n P}

/-- After a transfer that has succeeded. -/
def dataRead (parse : P → Nat → Buffer n Byte → Option P) (s : Stage n P)
    (r : Byte × Launch × InSt) : Stage n P where
  pep := r.2.2.pep
  left := s.left - r.2.2.nbytesptr
  mem := s.mem.put r.2.2.data
  parser := s.parser.bind fun p => parse p r.2.2.nbytesptr.toNat (s.mem.put r.2.2.data)

/-- The toggle errors of a transfer do not come out of it. -/
theorem dataTurn_eq {s : Stage n P} {r : Byte × Launch × InSt} (hr : r.1 ≠ hrTOGERR) :
    dataTurn parse nbytes s r =
      if r.1 ≠ 0 then .inr (r.1, { s with pep := r.2.2.pep, mem := s.mem.put r.2.2.data })
      else if r.2.2.nbytesptr < nbytes then .inr (0, dataRead parse s r)
      else .inl (dataRead parse s r) := by
  unfold dataTurn dataRead
  simp only [hr, if_false]

theorem Staged.suits {us : List Launch} {chunks : List (List Byte)} {rest : List Byte} {s : Stage n P}
    (hI : Staged D f bs nbytes s₀ us chunks rest s) (hne : rest ≠ [])
    (hs : Suits D.packet s₀.pep.maxPktSize.toNat nbytes.toNat bs.length) :
    Suits D.packet s.pep.maxPktSize.toNat nbytes.toNat rest.length := by
  have hmax : s.pep.maxPktSize = s₀.pep.maxPktSize := by rw [hI.same]
  rw [hmax]
  refine ⟨hs.pos, hs.small, hs.packetPos, hs.fit.imp_right fun ⟨hall, hle⟩ => ⟨?_, hle⟩⟩
  rcases hI.mem hall with ⟨rfl, -⟩ | ⟨rfl, -⟩
  exacts [hall, absurd rfl hne]

/-- A transfer of the stage that has succeeded. -/
theorem staged_got (hn : nbytes.toNat ≤ n) (hparse : Parses parse f) {us new : List Launch}
    {chunks : List (List Byte)} {rest : List Byte} {s s' : Stage n P} {r : Byte × Launch × InSt}
    (hI : Staged D f bs nbytes s₀ us chunks rest s) (hne : rest ≠ [])
    (hg : Got D s.pep nbytes rest new r.2.2) (hs' : s' = dataRead parse s r) :
    s'.parser = s₀.parser.bind (fun p => (chunks ++ [rest.take nbytes.toNat]).foldlM f p) ∧
      (bs.length = nbytes.toNat → rest.take nbytes.toNat = bs ∧ s'.mem = s₀.mem.put bs) ∧
      s'.pep = { s₀.pep with bmRcvToggle := s'.pep.bmRcvToggle } ∧
      s'.left.toNat = rest.length - nbytes.toNat := by
  have hlen : r.2.2.nbytesptr.toNat = (rest.take nbytes.toNat).length := by
    rw [hg.count, List.length_take]
  subst hs'
  refine ⟨?_, fun hall => ?_, ?_, ?_⟩
  · show s.parser.bind _ = _
    have hp : ∀ p, parse p r.2.2.nbytesptr.toNat (s.mem.put r.2.2.data) =
        f p (rest.take nbytes.toNat) := by
      intro p
      rw [hlen, hg.data]
      exact hparse p s.mem _ (by rw [List.length_take]; omega)
    simp only [hp, hI.parser, Option.bind_assoc, List.foldlM_append, List.foldlM_cons,
      List.foldlM_nil, Option.bind_eq_bind, Option.pure_def, Option.bind_fun_some]
  · rcases hI.mem hall with ⟨rfl, hmem⟩ | ⟨rfl, -⟩
    · have htake : rest.take nbytes.toNat = rest := List.take_of_length_le hall.le
      refine ⟨htake, ?_⟩
      show s.mem.put r.2.2.data = _
      rw [hmem, hg.data, htake]
    · exact absurd rfl hne
  · show r.2.2.pep = _
    rw [hg.same, hI.same]
    rfl
  · show (s.left - r.2.2.nbytesptr).toNat = _
    have hle : r.2.2.nbytesptr ≤ s.left := by
      rw [BitVec.le_def, hI.left, hg.count]
      omega
    rw [BitVec.toNat_sub_of_le hle, hI.left, hg.count]
    omega

theorem staged_step (hn : nbytes.toNat ≤ n) (hparse : Parses parse f)
    (hs : Suits D.packet s₀.pep.maxPktSize.toNat nbytes.toNat bs.length) {us new : List Launch}
    {chunks : List (List Byte)} {rest : List Byte} {s s' : Stage n P}
    (hI : Staged D f bs nbytes s₀ us chunks rest s) (hd : D.Served (some bs) (us ++ new))
    (hr : Client.Runs (dataBody parse k nbytes s) new (.inl s')) :
    Staged D f bs nbytes s₀ (us ++ new) (chunks ++ [rest.take nbytes.toNat])
      (rest.drop nbytes.toNat) s' := by
  rcases runs_dataBody hr with ⟨-, -, hx⟩ | ⟨h0, r, hrun, hx⟩
  · cases hx
  rw [dataTurn_eq (inTransfer_runs hs.small hrun).2] at hx
  split at hx
  · cases hx
  rename_i hok
  rw [ne_eq, not_not] at hok
  split at hx
  · cases hx
  rename_i hfull
  have hne : rest ≠ [] := by
    rintro rfl
    exact h0 (BitVec.eq_of_toNat_eq hI.left)
  have hd' := Device.served_right us new hd
  rw [hI.device hne] at hd'
  have hg := inTransfer_served (hI.suits hne hs) hd' hrun hok
  have hle : nbytes.toNat ≤ rest.length := by
    rw [BitVec.lt_def, hg.count] at hfull
    omega
  obtain ⟨h1, h2, h3, h4⟩ := staged_got hn hparse hI hne hg (Sum.inl.inj hx)
  refine ⟨?_, fun hdrop => ?_, ?_, h1, ?_, fun hall => .inr ⟨?_, (h2 hall).2⟩, h3⟩
  · rw [List.flatten_append, List.flatten_singleton, List.append_assoc, List.take_append_drop,
      hI.split]
  · have hlt : nbytes.toNat < rest.length := by
      by_contra hge
      exact hdrop (List.drop_eq_nil_of_le (Nat.le_of_not_lt hge))
    rw [exec_append, hI.device hne, hg.device hlt]
  · rw [h4, List.length_drop]
  · rw [List.flatten_append, List.flatten_singleton, List.length_append, List.length_take,
      Nat.min_eq_left hle]
    exact Nat.dvd_add_self_right.mpr hI.whole
  · rcases hI.mem hall with ⟨rfl, -⟩ | ⟨rfl, -⟩
    · exact List.drop_eq_nil_of_le hall.le
    · exact absurd rfl hne

/-- **The data stage.** -/
theorem dataStage_served (hn : nbytes.toNat ≤ n) (hparse : Parses parse f)
    (hs : Suits D.packet s₀.pep.maxPktSize.toNat nbytes.toNat bs.length)
    (hleft : s₀.left.toNat = bs.length) {us : List Launch} {s : Stage n P}
    (hd : D.Served (some bs) us)
    (hr : Client.Runs (Client.loop (dataBody parse k nbytes) s₀) us (0, s)) :
    ReadAll D f bs nbytes s₀ s := by
  have hstart : Staged D f bs nbytes s₀ [] [] bs s₀ :=
    ⟨rfl, fun _ => rfl, hleft, (Option.bind_fun_some _).symm, Nat.dvd_zero _,
      fun _ => .inl ⟨rfl, rfl⟩, rfl⟩
  obtain ⟨us₁, s', us₂, rfl, ⟨chunks, rest, hI⟩, hlast⟩ :=
    ((data_loop parse k nbytes).runs_loop.mp hr).inv_guard (G := D.Served (some bs))
      (I := fun us s => ∃ chunks rest, Staged D f bs nbytes s₀ us chunks rest s)
      (fun us us' => Device.served_left us us')
      (fun h s us s' hd ⟨chunks, rest, hI⟩ hr => ⟨_, _, staged_step hn hparse hs hI hd hr⟩)
      (h := []) hd ⟨[], bs, hstart⟩
  rw [List.nil_append] at hI
  rcases runs_dataBody hlast with ⟨h0, rfl, hx⟩ | ⟨h0, r, hrun, hx⟩
  · -- all of it came in full buffers
    cases hx
    have hnil : rest = [] := by
      rw [← List.length_eq_zero_iff, ← hI.left, h0]
      rfl
    subst hnil
    have hsplit := hI.split
    rw [List.append_nil] at hsplit
    refine ⟨⟨chunks, hsplit, hI.parser⟩, fun hall => ?_, hI.same, fun _ => .inl ?_⟩
    · rcases hI.mem hall with ⟨rfl, -⟩ | ⟨-, hmem⟩
      · have := hs.pos
        rw [List.length_nil] at hall
        omega
      · exact hmem
    · rw [← hsplit]; exact hI.whole
  · -- the last buffer was not full
    rw [dataTurn_eq (inTransfer_runs hs.small hrun).2] at hx
    split at hx
    · rename_i hbad
      have h1 := congrArg Prod.fst (Sum.inr.inj hx)
      exact absurd h1.symm hbad
    rename_i hok
    rw [ne_eq, not_not] at hok
    split at hx
    swap
    · cases hx
    rename_i hshort
    have hne : rest ≠ [] := by
      rintro rfl
      exact h0 (BitVec.eq_of_toNat_eq hI.left)
    have hd' := Device.served_right us₁ us₂ hd
    rw [hI.device hne] at hd'
    have hg := inTransfer_served (hI.suits hne hs) hd' hrun hok
    have hlt : rest.length < nbytes.toNat := by
      rw [BitVec.lt_def, hg.count] at hshort
      omega
    obtain ⟨h1, h2, h3, -⟩ :=
      staged_got hn hparse hI hne hg (congrArg Prod.snd (Sum.inr.inj hx))
    have htake : rest.take nbytes.toNat = rest := List.take_of_length_le hlt.le
    refine ⟨⟨_, ?_, h1⟩, fun hall => (h2 hall).2, h3, fun hz => .inr fun hdvd => ?_⟩
    · rw [List.flatten_append, List.flatten_singleton, htake, hI.split]
    · rcases hg.full hz hne with hge | hndvd
      · omega
      · rcases hs.fit with ⟨-, hm⟩ | ⟨hall, -⟩
        · rw [← hI.split, List.length_append] at hdvd
          exact hndvd ((Nat.dvd_add_right (Nat.dvd_trans hm hI.whole)).mp hdvd)
        · rw [(h2 hall).1.symm.trans htake] at hall
          omega

end Stages

/-! ## Requests -/

section Requests
variable {pkt : SetupPkt} {mem : Buffer n Byte} {parser : Option P}

theorem local_ctrlReqIn (parse : P → Nat → Buffer n Byte → Option P) (pep : EpInfo) (pkt : SetupPkt)
    (nbytes : BitVec 16) (mem : Buffer n Byte) (parser : Option P) :
    Client.Local (ctrlReqIn parse pep pkt nbytes mem parser) :=
  (local_dispatchPkt _ _ _).bind fun _ => (Client.local_pure _).ite
    (((data_loop parse pep.nakLimit nbytes).local_loop _).bind fun _ => (Client.local_pure _).ite
      ((local_dispatchPkt _ _ _).bind fun _ => Client.local_pure _))

/-- The stages of a request that has succeeded. -/
theorem ctrlReqIn_ok {us : List Launch} {s : Stage n P}
    (h : Client.Runs (ctrlReqIn parse pep pkt nbytes mem parser) us (0, s)) :
    ∃ setup data status t t', us = setup ++ (data ++ status) ∧
      Client.Runs (dispatchPkt (.tokSETUP pkt) pep.epAddr pep.nakLimit) setup (0, t) ∧
      Client.Runs (Client.loop (dataBody parse pep.nakLimit nbytes)
        ⟨{ pep with bmRcvToggle := true }, pkt.wLength, mem, parser⟩) data (0, s) ∧
      Client.Runs (dispatchPkt .tokOUTHS pep.epAddr pep.nakLimit) status (0, t') := by
  obtain ⟨setup, r, us', rfl, h1, h2⟩ := Client.Runs.split (local_dispatchPkt _ _ _) h
  obtain ⟨rcode, t⟩ := r
  obtain ⟨rfl, h2⟩ := Client.go_on h2
  obtain ⟨d, us'', h3, h4⟩ := Client.bind_some h2
  obtain ⟨data, rfl, hdata⟩ := (data_loop _ _ _).local_loop _ _ _ _ h3
  obtain ⟨rcode', s'⟩ := d
  obtain ⟨rfl, h4⟩ := Client.go_on h4
  obtain ⟨r', us₃, h5, h6⟩ := Client.bind_some h4
  obtain ⟨status, rfl, hstatus⟩ := local_dispatchPkt _ _ _ _ _ _ h5
  obtain ⟨rcode'', t'⟩ := r'
  cases h6
  exact ⟨setup, data, status, t, t', by rw [List.append_nil], h1, hdata, hstatus⟩

/-- **A request that succeeds** has read what the device has to say to it. -/
theorem ctrlReqIn_served (hn : nbytes.toNat ≤ n) (hparse : Parses parse f)
    (hlen : pkt.wLength.toNat ≤ (D.answer pkt).length)
    (hs : Suits D.packet pep.maxPktSize.toNat nbytes.toNat pkt.wLength.toNat)
    {q : Option (List Byte)} {us : List Launch} {s : Stage n P} (hd : D.Served q us)
    (h : Client.Runs (ctrlReqIn parse pep pkt nbytes mem parser) us (0, s)) :
    ReadAll D f ((D.answer pkt).take pkt.wLength.toNat) nbytes
      ⟨{ pep with bmRcvToggle := true }, pkt.wLength, mem, parser⟩ s := by
  obtain ⟨setup, data, status, t, t', rfl, h1, h2, -⟩ := ctrlReqIn_ok h
  obtain ⟨idle, rfl, hw, htok, -, hcode⟩ := dispatch_runs h1
  have hbs : ((D.answer pkt).take pkt.wLength.toNat).length = pkt.wLength.toNat := by
    rw [List.length_take]; omega
  have hsetup := (Device.served_dispatch hw (Device.served_left _ _ hd)).2
  rw [Device.serve_setup hcode.symm htok] at hsetup
  have hd' := Device.served_right _ _ hd
  rw [hsetup] at hd'
  refine dataStage_served hn hparse ?_ hbs.symm (Device.served_left data status hd') h2
  rw [hbs]
  exact hs

/-- **The empty packet.** From a device that has nothing more to send behind a last
packet that is full, no request succeeds whose length is a multiple of the packets'
but not of the buffer's: the driver asks for one packet more. -/
theorem ctrlReqIn_full (hn : nbytes.toNat ≤ n) (hparse : Parses parse f)
    (hlen : pkt.wLength.toNat ≤ (D.answer pkt).length)
    (hs : Suits D.packet pep.maxPktSize.toNat nbytes.toNat pkt.wLength.toNat) (hz : D.zlp = false)
    (hdvd : D.packet ∣ pkt.wLength.toNat) (hndvd : ¬ nbytes.toNat ∣ pkt.wLength.toNat)
    {q : Option (List Byte)} {us : List Launch} {s : Stage n P} (hd : D.Served q us) :
    ¬ Client.Runs (ctrlReqIn parse pep pkt nbytes mem parser) us (0, s) := by
  intro h
  have hbs : ((D.answer pkt).take pkt.wLength.toNat).length = pkt.wLength.toNat := by
    rw [List.length_take]; omega
  have hfull := (ctrlReqIn_served hn hparse hlen hs hd h).full hz
  rw [hbs] at hfull
  exact hfull.elim hndvd fun hcon => hcon hdvd

end Requests
end Served
end SonicCraft.L2.Usb
