import Mathlib.Algebra.Group.Nat.Defs
import SonicCraft.Core.Buffer
import SonicCraft.Core.Client
import SonicCraft.L2Software.EpInfo

/-!
# USB transfers: `dispatchPkt`, `InTransfer`, `ctrlReq`

SOC/software/space_jam/include/Usb.cpp:80-297,395-452. The driver launches one packet
after another and reads the chip's registers after each; a `Client` of launches is
what it makes of any behaviour of the chip and the device behind it. `launch` gives
the token with its endpoint, so a list of launches is what happened on the bus.

* `inTransfer_safe`: an IN transfer writes the beginning of what the acknowledged
  packets hold, in order, and never more than it was asked for.
* `inTransfer_launches`: how many launches it takes.
* `inTransfer_returns`: how many are enough for it to return.

Not modelled: the register writes, and the first test of the five seconds, which
follows on the reading that begins them.
-/
namespace SonicCraft.L2.Usb

/-- `HRSLT` codes. mirrors SOC/software/space_jam/include/max3421e.h:211-226 -/
def hrNAK : Byte := 0x04

def hrTOGERR : Byte := 0x06

def hrTIMEOUT : Byte := 0x0E

/-- `SETUP_PKT`. mirrors SOC/software/space_jam/include/UsbCore.h:176-199 -/
structure SetupPkt where
  bmRequestType : Byte
  bRequest : Byte
  wValueLo : Byte
  wValueHi : Byte
  wIndex : BitVec 16
  wLength : BitVec 16
  deriving DecidableEq, Repr

/-- What `rHXFR` is told to launch, with what lies in `rSUDFIFO` or `rSNDFIFO`. -/
inductive Token where
  | tokSETUP (pkt : SetupPkt)
  | tokIN
  | tokOUT (data : List Byte)
  | tokINHS
  | tokOUTHS
  deriving DecidableEq, Repr

/-- A launch, and what it leaves in the chip. -/
structure Launch where
  token : Token
  ep : Byte
  /-- `rHRSL` -/
  hrsl : Byte
  /-- `bmRCVDAVIRQ` of `rHIRQ` -/
  rcvdav : Bool
  /-- `rRCVFIFO`; its length is `rRCVBC`. -/
  fifo : List Byte
  /-- `USB_XFER_TIMEOUT` is over when it is tested next. -/
  late : Bool
  fits : fifo.length < 256

theorem empty_fits : ([] : List Byte).length < 256 := Nat.succ_pos 255

namespace Launch

def hrslt (t : Launch) : Byte := t.hrsl &&& 0x0f

def bmRCVTOGRD (t : Launch) : Bool := t.hrsl.getLsbD 4

def bmSNDTOGRD (t : Launch) : Bool := t.hrsl.getLsbD 5

end Launch

/-- The launch that was asked for. -/
def launch (token : Token) (ep : Byte) : Client Launch Launch :=
  Client.ask fun t => t.token = token ∧ t.ep = ep

/-- `SetAddress`: `nak_limit`. mirrors SOC/software/space_jam/include/Usb.cpp:94-95 -/
def EpInfo.nakLimit (pep : EpInfo) : BitVec 16 :=
  1#16 <<< (if pep.bmNakPower > 15 then 15 else pep.bmNakPower.toNat) - 1

/-! ## `dispatchPkt` -/

/-- Its counters. -/
structure Tries where
  retryCount : Byte
  nakCount : BitVec 16

/-- After a launch. mirrors SOC/software/space_jam/include/Usb.cpp:433-450 -/
def dispatchTurn (nakLimit : BitVec 16) (d : Tries) (t : Launch) : Tries ⊕ Byte × Launch :=
  if t.hrslt = hrNAK then
    let d := { d with nakCount := d.nakCount + 1 }
    if nakLimit ≠ 0 ∧ d.nakCount = nakLimit then .inr (t.hrslt, t)
    else if t.late then .inr (t.hrslt, t) else .inl d
  else if t.hrslt = hrTIMEOUT then
    let d := { d with retryCount := d.retryCount + 1 }
    if d.retryCount = 3 then .inr (t.hrslt, t)
    else if t.late then .inr (t.hrslt, t) else .inl d
  else .inr (t.hrslt, t)

def dispatchBody (token : Token) (ep : Byte) (nakLimit : BitVec 16) (d : Tries) :
    Client Launch (Tries ⊕ Byte × Launch) := do
  let t ← launch token ep
  pure (dispatchTurn nakLimit d t)

/-- Its code, and the launch whose registers are there to be read.
mirrors SOC/software/space_jam/include/Usb.cpp:401-452 -/
def dispatchPkt (token : Token) (ep : Byte) (nakLimit : BitVec 16) :
    Client Launch (Byte × Launch) :=
  Client.loop (dispatchBody token ep nakLimit) ⟨0, 0⟩

/-! ## `InTransfer` -/

/-- `*nbytesptr`, and what has been put at `data`. -/
structure InSt where
  pep : EpInfo
  nbytesptr : BitVec 16
  data : List Byte

/-- After a dispatch. mirrors SOC/software/space_jam/include/Usb.cpp:241-294 -/
def inTurn (nbytes : BitVec 16) (s : InSt) (r : Byte × Launch) : InSt ⊕ Byte × Launch × InSt :=
  if r.1 = hrTOGERR then
    -- flipped the wrong way, for the next one to be right
    .inl { s with pep := { s.pep with bmRcvToggle := !r.2.bmRCVTOGRD } }
  else if r.1 ≠ 0 then .inr (r.1, r.2, s)
  else if r.2.rcvdav = false then .inr (0xf0, r.2, s)
  else
    let pktsize := if r.2.fifo.length > nbytes.toNat then nbytes.toNat else r.2.fifo.length
    let memLeft := (nbytes - s.nbytesptr).toInt.toNat
    let s := { s with
      data := s.data ++ r.2.fifo.take (if pktsize > memLeft then memLeft else pktsize)
      nbytesptr := s.nbytesptr + BitVec.ofNat 16 pktsize }
    if pktsize < s.pep.maxPktSize.toNat ∨ s.nbytesptr ≥ nbytes then
      .inr (0, r.2, { s with pep := { s.pep with bmRcvToggle := r.2.bmRCVTOGRD } })
    else .inl s

def inBody (nakLimit nbytes : BitVec 16) (s : InSt) :
    Client Launch (InSt ⊕ Byte × Launch × InSt) := do
  let r ← dispatchPkt .tokIN s.pep.epAddr nakLimit
  pure (inTurn nbytes s r)

/-- mirrors SOC/software/space_jam/include/Usb.cpp:224-297 -/
def inTransfer (pep : EpInfo) (nakLimit nbytes : BitVec 16) :
    Client Launch (Byte × Launch × InSt) :=
  Client.loop (inBody nakLimit nbytes) ⟨pep, 0, []⟩

/-! ## `ctrlReq` -/

/-- What the data stage works on: `dataptr` points to a buffer, and the parser is at
`parser`, `none` once it has been made to leave a buffer. -/
structure Stage (n : Nat) (P : Type) where
  pep : EpInfo
  left : BitVec 16
  mem : Buffer n Byte
  parser : Option P

section CtrlReq
variable {n : Nat} {P : Type} (parse : P → Nat → Buffer n Byte → Option P)

/-- mirrors SOC/software/space_jam/include/Usb.cpp:174-191 -/
def dataTurn (nbytes : BitVec 16) (s : Stage n P) (r : Byte × Launch × InSt) :
    Stage n P ⊕ Byte × Stage n P :=
  let s := { s with pep := r.2.2.pep, mem := s.mem.put r.2.2.data }
  if r.1 = hrTOGERR then
    .inl { s with pep := { s.pep with bmRcvToggle := !r.2.1.bmSNDTOGRD } }
  else if r.1 ≠ 0 then .inr (r.1, s)
  else
    let s := { s with
      parser := s.parser.bind fun p => parse p r.2.2.nbytesptr.toNat s.mem
      left := s.left - r.2.2.nbytesptr }
    if r.2.2.nbytesptr < nbytes then .inr (0, s) else .inl s

/-- `while(left)` -/
def dataBody (nakLimit nbytes : BitVec 16) (s : Stage n P) :
    Client Launch (Stage n P ⊕ Byte × Stage n P) :=
  if s.left = 0 then pure (.inr (0, s))
  else do
    let r ← inTransfer s.pep nakLimit nbytes
    pure (dataTurn parse nbytes s r)

/-- A request that reads `total` bytes by way of `dataptr`.
mirrors SOC/software/space_jam/include/Usb.cpp:126-202 -/
def ctrlReqIn (pep : EpInfo) (pkt : SetupPkt) (nbytes : BitVec 16) (mem : Buffer n Byte)
    (parser : Option P) : Client Launch (Byte × Stage n P) := do
  let r ← dispatchPkt (.tokSETUP pkt) pep.epAddr pep.nakLimit
  if r.1 ≠ 0 then pure (r.1, ⟨pep, pkt.wLength, mem, parser⟩)
  else do
    let d ← Client.loop (dataBody parse pep.nakLimit nbytes)
      ⟨{ pep with bmRcvToggle := true }, pkt.wLength, mem, parser⟩
    if d.1 ≠ 0 then pure d
    else do
      let r ← dispatchPkt .tokOUTHS pep.epAddr pep.nakLimit
      pure (r.1, d.2)

end CtrlReq

/-- A request without data, `dataptr == NULL`, the host being the sender. -/
def ctrlReqSet (pep : EpInfo) (pkt : SetupPkt) : Client Launch Byte := do
  let r ← dispatchPkt (.tokSETUP pkt) pep.epAddr pep.nakLimit
  if r.1 ≠ 0 then pure r.1
  else do
    let r ← dispatchPkt .tokINHS pep.epAddr pep.nakLimit
    pure r.1

/-! ## What a dispatch does -/

/-- Neither acknowledged nor in error: it is launched again. -/
def Launch.Idle (t : Launch) : Prop := t.hrslt = hrNAK ∨ t.hrslt = hrTIMEOUT

theorem local_launch (token : Token) (ep : Byte) : Client.Local (launch token ep) :=
  Client.local_ask _

theorem runs_launch {token : Token} {ep : Byte} {us : List Launch} {t : Launch} :
    Client.Runs (launch token ep) us t ↔ us = [t] ∧ t.token = token ∧ t.ep = ep :=
  Client.runs_ask

theorem runs_dispatchBody {token : Token} {ep : Byte} {k : BitVec 16} {d : Tries}
    {us : List Launch} {r : Tries ⊕ Byte × Launch} :
    Client.Runs (dispatchBody token ep k d) us r ↔
      ∃ t, us = [t] ∧ t.token = token ∧ t.ep = ep ∧ r = dispatchTurn k d t := by
  unfold dispatchBody
  rw [Client.runs_bind (local_launch token ep) fun t => Client.local_pure _]
  constructor
  · rintro ⟨us₁, t, us₂, rfl, h1, h2⟩
    obtain ⟨rfl, htok, hep⟩ := runs_launch.mp h1
    obtain ⟨rfl, rfl⟩ := Client.runs_pure.mp h2
    exact ⟨t, rfl, htok, hep, rfl⟩
  · rintro ⟨t, rfl, htok, hep, rfl⟩
    exact ⟨[t], t, [], rfl, runs_launch.mpr ⟨rfl, htok, hep⟩, Client.runs_pure.mpr ⟨rfl, rfl⟩⟩

theorem dispatch_loop (token : Token) (ep : Byte) (k : BitVec 16) :
    Client.Body (dispatchBody token ep k) where
  isLocal d := (local_launch token ep).bind fun t => Client.local_pure _
  takes d us s h := by
    obtain ⟨t, rfl, -⟩ := runs_dispatchBody.mp h
    simp

theorem local_dispatchPkt (token : Token) (ep : Byte) (k : BitVec 16) :
    Client.Local (dispatchPkt token ep k) := (dispatch_loop token ep k).local_loop _

theorem dispatchTurn_inl {k : BitVec 16} {d d' : Tries} {t : Launch}
    (h : dispatchTurn k d t = .inl d') :
    (t.hrslt = hrNAK ∧ ¬ (k ≠ 0 ∧ d.nakCount + 1 = k) ∧ d' = { d with nakCount := d.nakCount + 1 }) ∨
    (t.hrslt = hrTIMEOUT ∧ d.retryCount + 1 ≠ 3 ∧ d' = { d with retryCount := d.retryCount + 1 }) := by
  unfold dispatchTurn at h
  split at h
  · rename_i hn
    dsimp only at h
    split at h
    · cases h
    · rename_i hk
      split at h
      · cases h
      · cases h; exact .inl ⟨hn, hk, rfl⟩
  · split at h
    · rename_i ht
      dsimp only at h
      split at h
      · cases h
      · rename_i hr
        split at h
        · cases h
        · cases h; exact .inr ⟨ht, hr, rfl⟩
    · cases h

theorem dispatchTurn_inr {k : BitVec 16} {d : Tries} {t : Launch} {r : Byte × Launch}
    (h : dispatchTurn k d t = .inr r) : r = (t.hrslt, t) := by
  unfold dispatchTurn at h
  split at h
  · dsimp only at h
    split at h
    · cases h; rfl
    · split at h <;> cases h
      rfl
  · split at h
    · dsimp only at h
      split at h
      · cases h; rfl
      · split at h <;> cases h
        rfl
    · cases h; rfl

def Launch.nak (t : Launch) : Bool := t.hrslt == hrNAK

def Launch.timeout (t : Launch) : Bool := t.hrslt == hrTIMEOUT

/-- The launches of a dispatch before its last one. -/
structure Waited (token : Token) (ep : Byte) (k : BitVec 16) (us : List Launch) : Prop where
  token : ∀ t ∈ us, t.token = token ∧ t.ep = ep
  idle : ∀ t ∈ us, t.Idle
  naks : k ≠ 0 → us.countP Launch.nak < k.toNat
  timeouts : us.countP Launch.timeout < 3

/-- The counters. -/
structure Counted (k : BitVec 16) (us : List Launch) (d : Tries) : Prop where
  naks : k ≠ 0 → d.nakCount.toNat = us.countP Launch.nak
  timeouts : d.retryCount.toNat = us.countP Launch.timeout

/-- One more launch. -/
theorem waited_step {token : Token} {ep : Byte} {k : BitVec 16} {us : List Launch} {d d' : Tries}
    {t : Launch} (h : Waited token ep k us ∧ Counted k us d) (ht : t.token = token ∧ t.ep = ep)
    (hd : dispatchTurn k d t = .inl d') :
    Waited token ep k (us ++ [t]) ∧ Counted k (us ++ [t]) d' := by
  obtain ⟨hw, hc⟩ := h
  have htok : ∀ u ∈ us ++ [t], u.token = token ∧ u.ep = ep :=
    List.forall_mem_append.mpr ⟨hw.token, List.forall_mem_singleton.mpr ht⟩
  have hidle : t.Idle → ∀ u ∈ us ++ [t], u.Idle := fun hi =>
    List.forall_mem_append.mpr ⟨hw.idle, List.forall_mem_singleton.mpr hi⟩
  have hcount : ∀ p : Launch → Bool, (us ++ [t]).countP p = us.countP p + [t].countP p :=
    fun p => List.countP_append
  have hnaks := hcount Launch.nak
  have htimeouts := hcount Launch.timeout
  rcases dispatchTurn_inl hd with ⟨hn, hk, rfl⟩ | ⟨hn, hk, rfl⟩
  · have h1 : t.nak = true := by simp [Launch.nak, hn]
    have h2 : t.timeout = false := by simp [Launch.timeout, hn, hrNAK, hrTIMEOUT]
    simp only [List.countP_singleton, h1, h2, if_true, if_false, Bool.false_eq_true] at hnaks htimeouts
    have hstep : k ≠ 0 → (d.nakCount + 1).toNat = us.countP Launch.nak + 1 ∧
        us.countP Launch.nak + 1 < k.toNat := by
      intro h0
      have hlt := hw.naks h0
      have heq := hc.naks h0
      have hne : (d.nakCount + 1).toNat ≠ k.toNat := fun he => hk ⟨h0, BitVec.eq_of_toNat_eq he⟩
      have hadd : (d.nakCount + 1).toNat = d.nakCount.toNat + 1 := by
        have := k.isLt
        rw [BitVec.toNat_add]
        exact Nat.mod_eq_of_lt (by simp; omega)
      omega
    refine ⟨⟨htok, hidle (.inl hn), fun h0 => ?_, ?_⟩, fun h0 => ?_, ?_⟩
    · rw [hnaks]; exact (hstep h0).2
    · rw [htimeouts]; exact hw.timeouts
    · rw [hnaks]; exact (hstep h0).1
    · rw [htimeouts]; exact hc.timeouts
  · have h1 : t.nak = false := by simp [Launch.nak, hn, hrNAK, hrTIMEOUT]
    have h2 : t.timeout = true := by simp [Launch.timeout, hn]
    simp only [List.countP_singleton, h1, h2, if_true, if_false, Bool.false_eq_true] at hnaks htimeouts
    have hlt := hw.timeouts
    have heq := hc.timeouts
    have hadd : (d.retryCount + 1).toNat = d.retryCount.toNat + 1 := by
      rw [BitVec.toNat_add]
      exact Nat.mod_eq_of_lt (by simp; omega)
    have hne : (d.retryCount + 1).toNat ≠ 3 := fun he => hk (BitVec.eq_of_toNat_eq he)
    refine ⟨⟨htok, hidle (.inr hn), fun h0 => ?_, ?_⟩, fun h0 => ?_, ?_⟩
    · rw [hnaks]; exact hw.naks h0
    · rw [htimeouts]; omega
    · rw [hnaks]; exact hc.naks h0
    · rw [htimeouts]; exact hadd.trans (congrArg (· + 1) heq)

theorem waited_nil (token : Token) (ep : Byte) (k : BitVec 16) :
    Waited token ep k [] ∧ Counted k [] ⟨0, 0⟩ :=
  ⟨⟨List.forall_mem_nil _, List.forall_mem_nil _, BitVec.toNat_pos_of_ne_zero, Nat.succ_pos 2⟩,
    fun _ => rfl, rfl⟩

theorem waited_round {token : Token} {ep : Byte} {k : BitVec 16} {us new : List Launch} {d d' : Tries}
    (h : Waited token ep k us ∧ Counted k us d)
    (hr : Client.Runs (dispatchBody token ep k d) new (.inl d')) :
    Waited token ep k (us ++ new) ∧ Counted k (us ++ new) d' := by
  obtain ⟨t, rfl, htok, hep, hd⟩ := runs_dispatchBody.mp hr
  exact waited_step h ⟨htok, hep⟩ hd.symm

/-- **What a dispatch does**: it launches again while there is nothing but NAKs and
bus timeouts, and reports the last launch. -/
theorem dispatch_runs {token : Token} {ep : Byte} {k : BitVec 16} {us : List Launch}
    {r : Byte × Launch} (h : Client.Runs (dispatchPkt token ep k) us r) :
    ∃ idle, us = idle ++ [r.2] ∧ Waited token ep k idle ∧ r.2.token = token ∧ r.2.ep = ep ∧
      r.1 = r.2.hrslt := by
  have hrounds := (dispatch_loop token ep k).runs_loop.mp h
  obtain ⟨idle, d, last, rfl, ⟨hw, -⟩, hlast⟩ := hrounds.inv
    (I := fun us d => Waited token ep k us ∧ Counted k us d)
    (fun us d new d' => waited_round) (waited_nil token ep k)
  obtain ⟨t, rfl, htok, hep, hd⟩ := runs_dispatchBody.mp hlast
  rw [dispatchTurn_inr hd.symm]
  exact ⟨idle, rfl, hw, htok, hep, rfl⟩

/-- A dispatch launches again as long as it has not ended. -/
theorem dispatchBody_waits {token : Token} {ep : Byte} {k : BitVec 16} {d : Tries} {ts : List Launch}
    (htok : ∀ t ∈ ts, t.token = token ∧ t.ep = ep) (h : dispatchBody token ep k d ts = none) :
    ts = [] := by
  cases ts with
  | nil => rfl
  | cons t ts =>
    have hlaunch : launch token ep (t :: ts) = some (t, ts) := if_pos (htok t List.mem_cons_self)
    rcases Client.bind_none h with hnone | ⟨u, ts', -, hpure⟩
    · rw [hlaunch] at hnone; cases hnone
    · cases hpure

/-- A dispatch that has not ended has launched nothing but what it launches again. -/
theorem dispatch_waits {token : Token} {ep : Byte} {k : BitVec 16} {ts : List Launch}
    (htok : ∀ t ∈ ts, t.token = token ∧ t.ep = ep) (h : dispatchPkt token ep k ts = none) :
    Waited token ep k ts := by
  obtain ⟨us, d, rest, rfl, ⟨hw, -⟩, hbody⟩ := (dispatch_loop token ep k).loop_waits
    (I := fun us d => Waited token ep k us ∧ Counted k us d)
    (fun us d new d' => waited_round) (waited_nil token ep k) h
  obtain rfl := dispatchBody_waits (fun t ht => htok t (List.mem_append_right us ht)) hbody
  rwa [List.append_nil]

/-- Without NAKs counted it has no bound of launches, only of time. -/
theorem Waited.length_le {token : Token} {ep : Byte} {k : BitVec 16} {us : List Launch}
    (h : Waited token ep k us) (hk : k ≠ 0) : us.length ≤ k.toNat + 1 := by
  have h1 := h.naks hk
  have h2 := h.timeouts
  have hsum : us.length ≤ us.countP Launch.nak + us.countP Launch.timeout := by
    have hidle := h.idle
    clear h h1 h2
    induction us with
    | nil => exact Nat.le_refl 0
    | cons t us ih =>
      have h3 := ih fun u hu => hidle u (List.mem_cons_of_mem t hu)
      rw [List.length_cons, List.countP_cons, List.countP_cons]
      rcases hidle t List.mem_cons_self with ht | ht
      · have hn : t.nak = true := by simp [Launch.nak, ht]
        rw [if_pos hn]
        omega
      · have hn : t.timeout = true := by simp [Launch.timeout, ht]
        rw [if_pos hn]
        omega
  omega

/-! ## What an IN transfer does -/

/-- A packet has come and is there to be read. -/
def Launch.acked (t : Launch) : Bool := t.hrslt == 0 && t.rcvdav

def Launch.togerr (t : Launch) : Bool := t.hrslt == hrTOGERR

/-- The packets of an IN transfer. -/
def packets (us : List Launch) : List (List Byte) := (us.filter Launch.acked).map Launch.fifo

theorem packets_append (us us' : List Launch) : packets (us ++ us') = packets us ++ packets us' := by
  unfold packets
  rw [List.filter_append, List.map_append]

theorem packets_idle {us : List Launch} (h : ∀ t ∈ us, t.Idle) : packets us = [] := by
  unfold packets
  rw [List.map_eq_nil_iff, List.filter_eq_nil_iff]
  intro t ht
  rcases h t ht with hn | hn <;> simp [Launch.acked, hn, hrNAK, hrTIMEOUT]

/-- The effect of a turn, case by case. -/
inductive InEff (nbytes : BitVec 16) (s : InSt) (rcode : Byte) (t : Launch) :
    InSt ⊕ Byte × Launch × InSt → Prop
  | togerr (h : rcode = hrTOGERR) :
      InEff nbytes s rcode t (.inl { s with pep := { s.pep with bmRcvToggle := !t.bmRCVTOGRD } })
  | failed (err : Byte) (h : err ≠ 0) (hne : err ≠ hrTOGERR) (hr : rcode = 0 → t.rcvdav = false) :
      InEff nbytes s rcode t (.inr (err, t, s))
  | last (h : rcode = 0) (hd : t.rcvdav = true)
      (he : min t.fifo.length nbytes.toNat < s.pep.maxPktSize.toNat ∨
        nbytes.toNat ≤ s.nbytesptr.toNat + min t.fifo.length nbytes.toNat) :
      InEff nbytes s rcode t (.inr (0, t,
        { pep := { s.pep with bmRcvToggle := t.bmRCVTOGRD }
          nbytesptr := BitVec.ofNat 16 (s.nbytesptr.toNat + min t.fifo.length nbytes.toNat)
          data := s.data ++ t.fifo.take (nbytes.toNat - s.nbytesptr.toNat) }))
  | more (h : rcode = 0) (hd : t.rcvdav = true) (hfull : s.pep.maxPktSize.toNat ≤ t.fifo.length)
      (hlt : s.nbytesptr.toNat + t.fifo.length < nbytes.toNat) :
      InEff nbytes s rcode t (.inl { s with
        nbytesptr := BitVec.ofNat 16 (s.nbytesptr.toNat + t.fifo.length)
        data := s.data ++ t.fifo })

/-- `mem_left` -/
theorem memLeft_eq {nbytes count : BitVec 16} (hn : nbytes.toNat < 2 ^ 15)
    (hc : count.toNat ≤ nbytes.toNat) :
    (nbytes - count).toInt.toNat = nbytes.toNat - count.toNat := by
  have hsub : (nbytes - count).toNat = nbytes.toNat - count.toNat := by
    rw [BitVec.toNat_sub_of_le (BitVec.le_def.mpr hc)]
  rw [BitVec.toInt_eq_toNat_of_lt (by omega), hsub, Int.toNat_natCast]

theorem inTurn_eff {nbytes : BitVec 16} {s : InSt} (hn : nbytes.toNat < 2 ^ 15)
    (hc : s.nbytesptr.toNat ≤ nbytes.toNat) (rcode : Byte) (t : Launch) :
    InEff nbytes s rcode t (inTurn nbytes s (rcode, t)) := by
  unfold inTurn
  by_cases h1 : rcode = hrTOGERR
  · rw [if_pos h1]; exact .togerr h1
  rw [if_neg h1]
  by_cases h2 : rcode ≠ 0
  · rw [if_pos h2]; exact .failed rcode h2 h1 fun h0 => absurd h0 h2
  rw [if_neg h2]
  rw [ne_eq, not_not] at h2
  by_cases h3 : t.rcvdav = false
  · rw [if_pos h3]; exact .failed 0xf0 (by decide) (by decide) fun _ => h3
  rw [if_neg h3]
  have hd : t.rcvdav = true := by simpa using h3
  -- the size of the packet, and what is written of it
  have hsize : (if t.fifo.length > nbytes.toNat then nbytes.toNat else t.fifo.length) =
      min t.fifo.length nbytes.toNat := by
    split <;> omega
  have hcount : s.nbytesptr + BitVec.ofNat 16 (min t.fifo.length nbytes.toNat) =
      BitVec.ofNat 16 (s.nbytesptr.toNat + min t.fifo.length nbytes.toNat) := by
    rw [BitVec.ofNat_add, BitVec.ofNat_toNat, BitVec.setWidth_eq]
  have hcountNat : (BitVec.ofNat 16 (s.nbytesptr.toNat + min t.fifo.length nbytes.toNat)).toNat =
      s.nbytesptr.toNat + min t.fifo.length nbytes.toNat := by
    rw [BitVec.toNat_ofNat]
    exact Nat.mod_eq_of_lt (by omega)
  have hwrite : t.fifo.take (if min t.fifo.length nbytes.toNat > nbytes.toNat - s.nbytesptr.toNat
      then nbytes.toNat - s.nbytesptr.toNat else min t.fifo.length nbytes.toNat) =
      t.fifo.take (nbytes.toNat - s.nbytesptr.toNat) := by
    split
    · rfl
    · rw [List.take_eq_take_iff]; omega
  dsimp only
  rw [hsize, memLeft_eq hn hc, hcount, hwrite]
  by_cases hend : min t.fifo.length nbytes.toNat < s.pep.maxPktSize.toNat ∨
      BitVec.ofNat 16 (s.nbytesptr.toNat + min t.fifo.length nbytes.toNat) ≥ nbytes
  · rw [if_pos hend]
    refine .last h2 hd (hend.imp_right fun hle => ?_)
    rw [← hcountNat]
    exact BitVec.le_def.mp hle
  · rw [if_neg hend]
    rw [not_or, ge_iff_le, BitVec.le_def, hcountNat] at hend
    have hmin : min t.fifo.length nbytes.toNat = t.fifo.length := by omega
    rw [hmin] at hend ⊢
    rw [List.take_of_length_le (by omega)]
    exact .more h2 hd (by omega) (by omega)

theorem runs_inBody {k nbytes : BitVec 16} {s : InSt} {us : List Launch}
    {x : InSt ⊕ Byte × Launch × InSt} (h : Client.Runs (inBody k nbytes s) us x) :
    ∃ idle t, us = idle ++ [t] ∧ Waited .tokIN s.pep.epAddr k idle ∧ t.token = .tokIN ∧
      t.ep = s.pep.epAddr ∧ x = inTurn nbytes s (t.hrslt, t) := by
  obtain ⟨us₁, r, us₂, rfl, h1, h2⟩ :=
    (Client.runs_bind (local_dispatchPkt _ _ _) fun r => Client.local_pure _).mp h
  obtain ⟨rfl, rfl⟩ := Client.runs_pure.mp h2
  obtain ⟨idle, rfl, hw, htok, hep, hr⟩ := dispatch_runs h1
  rw [List.append_nil]
  exact ⟨idle, r.2, rfl, hw, htok, hep, by rw [← hr]⟩

/-- A round ends with a launch that decides it. -/
theorem inBody_eff {k nbytes : BitVec 16} {s : InSt} (hn : nbytes.toNat < 2 ^ 15)
    (hc : s.nbytesptr.toNat ≤ nbytes.toNat) {us : List Launch} {x : InSt ⊕ Byte × Launch × InSt}
    (h : Client.Runs (inBody k nbytes s) us x) :
    ∃ idle t, us = idle ++ [t] ∧ Waited .tokIN s.pep.epAddr k idle ∧ t.token = .tokIN ∧
      InEff nbytes s t.hrslt t x := by
  obtain ⟨idle, t, rfl, hw, htok, -, rfl⟩ := runs_inBody h
  exact ⟨idle, t, rfl, hw, htok, inTurn_eff hn hc t.hrslt t⟩

theorem inTransfer_loop (k nbytes : BitVec 16) : Client.Body (inBody k nbytes) where
  isLocal s := (local_dispatchPkt _ _ _).bind fun r => Client.local_pure _
  takes s us s' h := by
    obtain ⟨idle, t, rfl, -⟩ := runs_inBody h
    simp

theorem local_inTransfer (pep : EpInfo) (k nbytes : BitVec 16) :
    Client.Local (inTransfer pep k nbytes) := (inTransfer_loop k nbytes).local_loop _

theorem packets_dispatch {token : Token} {ep : Byte} {k : BitVec 16} {idle : List Launch} {t : Launch}
    (h : Waited token ep k idle) : packets (idle ++ [t]) = if t.acked then [t.fifo] else [] := by
  rw [packets_append, packets_idle h.idle, List.nil_append]
  unfold packets
  cases ht : t.acked <;> simp [ht]

theorem acked_of {t : Launch} (h : t.hrslt = 0) (hd : t.rcvdav = true) : t.acked = true := by
  simp [Launch.acked, h, hd]

theorem not_acked_of {t : Launch} (h : t.hrslt = 0 → t.rcvdav = false) : t.acked = false := by
  by_cases h0 : t.hrslt = 0
  · simp [Launch.acked, h h0]
  · exact Bool.and_eq_false_imp.mpr fun h1 => absurd (eq_of_beq h1) h0

theorem hrTOGERR_ne_zero : hrTOGERR ≠ 0 := by decide

/-- An IN transfer between two packets. -/
structure Received (nbytes : BitVec 16) (pep : EpInfo) (ps : List (List Byte)) (s : InSt) : Prop where
  same : s.pep = { pep with bmRcvToggle := s.pep.bmRcvToggle }
  data : s.data = ps.flatten
  count : s.nbytesptr.toNat = ps.flatten.length
  room : ps ≠ [] → ps.flatten.length < nbytes.toNat
  full : ∀ p ∈ ps, pep.maxPktSize.toNat ≤ p.length

theorem Received.count_le {nbytes : BitVec 16} {pep : EpInfo} {ps : List (List Byte)} {s : InSt}
    (h : Received nbytes pep ps s) : s.nbytesptr.toNat ≤ nbytes.toNat := by
  rw [h.count]
  by_cases hps : ps = []
  · rw [hps]; exact Nat.zero_le _
  · exact (h.room hps).le

theorem received_nil (nbytes : BitVec 16) (pep : EpInfo) : Received nbytes pep [] ⟨pep, 0, []⟩ where
  same := rfl
  data := rfl
  count := rfl
  room h := absurd rfl h
  full := by simp

/-- How an IN transfer ends, after the packets `ps`. -/
inductive InEnd (nbytes : BitVec 16) (pep : EpInfo) : List (List Byte) → Byte → InSt → Prop
  | failed {ps : List (List Byte)} {rcode : Byte} {s : InSt} (h : Received nbytes pep ps s)
      (hr : rcode ≠ 0) : InEnd nbytes pep ps rcode s
  | done {ps : List (List Byte)} {s : InSt} (h : Received nbytes pep ps s) (p : List Byte)
      (toggle : Bool) (he : min p.length nbytes.toNat < pep.maxPktSize.toNat ∨
        nbytes.toNat ≤ ps.flatten.length + min p.length nbytes.toNat) :
      InEnd nbytes pep (ps ++ [p]) 0
        { pep := { pep with bmRcvToggle := toggle }
          nbytesptr := BitVec.ofNat 16 (ps.flatten.length + min p.length nbytes.toNat)
          data := ps.flatten ++ p.take (nbytes.toNat - ps.flatten.length) }

section InTransfer
variable {k nbytes : BitVec 16} {pep : EpInfo}

/-- A round of the loop. -/
theorem received_step (hn : nbytes.toNat < 2 ^ 15) {h us : List Launch} {s s' : InSt}
    (hI : Received nbytes pep (packets h) s) (hr : Client.Runs (inBody k nbytes s) us (.inl s')) :
    Received nbytes pep (packets (h ++ us)) s' := by
  obtain ⟨idle, t, rfl, hw, -, he⟩ := inBody_eff hn hI.count_le hr
  rw [packets_append, packets_dispatch hw]
  cases he with
  | togerr ht =>
    rw [not_acked_of fun h0 => absurd (ht ▸ h0) hrTOGERR_ne_zero, if_neg Bool.false_ne_true,
      List.append_nil]
    exact ⟨by rw [hI.same], hI.data, hI.count, hI.room, hI.full⟩
  | more h0 hd hfull hlt =>
    rw [acked_of h0 hd, if_pos rfl]
    have hlen : (packets h ++ [t.fifo]).flatten.length = s.nbytesptr.toNat + t.fifo.length := by
      rw [List.flatten_append, List.length_append, List.flatten_singleton, hI.count]
    have hmax : s.pep.maxPktSize = pep.maxPktSize := by rw [hI.same]
    refine ⟨hI.same, ?_, ?_, fun _ => ?_, ?_⟩
    · rw [List.flatten_append, List.flatten_singleton, hI.data]
    · rw [hlen, BitVec.toNat_ofNat]
      exact Nat.mod_eq_of_lt (by omega)
    · rw [hlen]; exact hlt
    · exact List.forall_mem_append.mpr ⟨hI.full, List.forall_mem_singleton.mpr (hmax ▸ hfull)⟩

/-- **What an IN transfer does.** -/
theorem inTransfer_runs (hn : nbytes.toNat < 2 ^ 15) {us : List Launch} {r : Byte × Launch × InSt}
    (h : Client.Runs (inTransfer pep k nbytes) us r) :
    InEnd nbytes pep (packets us) r.1 r.2.2 ∧ r.1 ≠ hrTOGERR := by
  obtain ⟨rcode, tail, s'⟩ := r
  obtain ⟨us₁, s, us₂, rfl, hI, hlast⟩ := ((inTransfer_loop k nbytes).runs_loop.mp h).inv
    (I := fun us s => Received nbytes pep (packets us) s)
    (fun h s us s' hI hr => received_step hn hI hr) (received_nil nbytes pep)
  obtain ⟨idle, t, rfl, hw, -, he⟩ := inBody_eff hn hI.count_le hlast
  rw [packets_append, packets_dispatch hw]
  cases he with
  | failed err h0 hne hd =>
    rw [not_acked_of hd, if_neg Bool.false_ne_true, List.append_nil]
    exact ⟨.failed hI h0, hne⟩
  | last h0 hd hend =>
    rw [acked_of h0 hd, if_pos rfl, hI.data, hI.count]
    have hmax : s.pep.maxPktSize = pep.maxPktSize := by rw [hI.same]
    rw [hI.count, hmax] at hend
    have hpep : { s.pep with bmRcvToggle := tail.bmRCVTOGRD } =
        { pep with bmRcvToggle := tail.bmRCVTOGRD } := by rw [hI.same]
    rw [hpep]
    exact ⟨.done hI tail.fifo tail.bmRCVTOGRD hend, hrTOGERR_ne_zero.symm⟩

/-- What it comes to. -/
structure Transferred (nbytes : BitVec 16) (pep : EpInfo) (us : List Launch) (rcode : Byte)
    (s : InSt) : Prop where
  data : s.data = (packets us).flatten.take nbytes.toNat
  count : s.data.length ≤ s.nbytesptr.toNat
  exact : (packets us).flatten.length ≤ nbytes.toNat → s.nbytesptr.toNat = s.data.length
  same : s.pep = { pep with bmRcvToggle := s.pep.bmRcvToggle }
  whole : rcode = 0 → nbytes.toNat ≤ (packets us).flatten.length ∨
    ∃ ps p, packets us = ps ++ [p] ∧ p.length < pep.maxPktSize.toNat

theorem Received.flatten_le {ps : List (List Byte)} {s : InSt} (h : Received nbytes pep ps s) :
    ps.flatten.length ≤ nbytes.toNat := h.count ▸ h.count_le

theorem InEnd.transferred (hn : nbytes.toNat < 2 ^ 15) {us : List Launch} {rcode : Byte} {s : InSt}
    (h : InEnd nbytes pep (packets us) rcode s) : Transferred nbytes pep us rcode s := by
  generalize hps : packets us = qs at h
  cases h with
  | failed hI hr =>
    refine ⟨?_, ?_, fun _ => ?_, hI.same, fun h0 => absurd h0 hr⟩
    · rw [hps, List.take_of_length_le hI.flatten_le, hI.data]
    · rw [hI.data, hI.count]
    · rw [hI.data, hI.count]
  | @done ps s hI p toggle he =>
    have hle := hI.flatten_le
    have hcount : (BitVec.ofNat 16 (ps.flatten.length + min p.length nbytes.toNat)).toNat =
        ps.flatten.length + min p.length nbytes.toNat := by
      rw [BitVec.toNat_ofNat]
      exact Nat.mod_eq_of_lt (by omega)
    have hflat : (packets us).flatten = ps.flatten ++ p := by
      rw [hps, List.flatten_append, List.flatten_singleton]
    have hlen : (ps.flatten ++ p.take (nbytes.toNat - ps.flatten.length)).length =
        ps.flatten.length + min (nbytes.toNat - ps.flatten.length) p.length := by
      rw [List.length_append, List.length_take]
    refine ⟨?_, ?_, fun hfit => ?_, rfl, fun _ => ?_⟩
    · rw [hflat, List.take_append, List.take_of_length_le hle]
    · rw [hlen, hcount]; omega
    · rw [hflat, List.length_append] at hfit
      rw [hlen, hcount]; omega
    · rw [hflat, List.length_append]
      by_cases hp : p.length < pep.maxPktSize.toNat
      · exact .inr ⟨ps, p, hps, hp⟩
      · exact .inl (by omega)

/-- **An IN transfer is safe.** Whatever the device sends, it writes the beginning of
what the acknowledged packets hold, and no more than it was asked for. -/
theorem inTransfer_safe (hn : nbytes.toNat < 2 ^ 15) {ts rest : List Launch} {rcode : Byte}
    {t : Launch} {s : InSt} (h : inTransfer pep k nbytes ts = some ((rcode, t, s), rest)) :
    ∃ us, ts = us ++ rest ∧ Transferred nbytes pep us rcode s := by
  obtain ⟨us, rfl, hr⟩ := local_inTransfer pep k nbytes ts _ rest h
  exact ⟨us, rfl, (inTransfer_runs hn hr).1.transferred hn⟩

/-- An endpoint with packets of eight bytes. -/
def nineIn : EpInfo := ⟨1, 8, false, false, 2⟩

/-- It is busy, out of step, and then sends more than nine bytes. -/
def nine : List Launch :=
  let t : Launch := ⟨.tokIN, 1, hrNAK, false, [], false, empty_fits⟩
  [t, { t with hrsl := hrTOGERR },
    { t with hrsl := 0, rcvdav := true, fifo := [1, 2, 3, 4, 5, 6, 7, 8], fits := by decide },
    { t with hrsl := 0x10, rcvdav := true, fifo := [9, 10, 11, 12, 13, 14, 15, 16], fits := by decide }]

theorem inTransfer_safe_nine : ∃ us, nine = us ++ [] ∧
    Transferred 9 nineIn us 0 ⟨{ nineIn with bmRcvToggle := true }, 16, [1, 2, 3, 4, 5, 6, 7, 8, 9]⟩ :=
  inTransfer_safe (k := 3) (by decide) (show inTransfer nineIn 3 9 nine = some ((0, _, _), []) from rfl)

/-- Toggle errors and packets. -/
def answers (us : List Launch) : Nat := us.countP Launch.togerr + (packets us).length

theorem answers_append (us us' : List Launch) : answers (us ++ us') = answers us + answers us' := by
  unfold answers
  rw [List.countP_append, packets_append, List.length_append]
  omega

theorem answers_acked {t : Launch} (h : t.acked = true) : 1 ≤ answers [t] := by
  have h1 : packets [t] = [t.fifo] := by simp [packets, h]
  have h2 : answers [t] = [t].countP Launch.togerr + 1 := by rw [answers, h1]; rfl
  omega

/-- A round that is not the last has been answered. -/
theorem answers_round (hn : nbytes.toNat < 2 ^ 15) {s s' : InSt} {us : List Launch}
    (hc : s.nbytesptr.toNat ≤ nbytes.toNat) (hr : Client.Runs (inBody k nbytes s) us (.inl s')) :
    1 ≤ answers us := by
  obtain ⟨idle, t, rfl, hw, -, he⟩ := inBody_eff hn hc hr
  rw [answers_append]
  cases he with
  | togerr ht =>
    have h1 : answers [t] = 1 + (packets [t]).length := by
      simp [answers, Launch.togerr, ht]
    omega
  | more h0 hd => exact (answers_acked (acked_of h0 hd)).trans (Nat.le_add_left _ _)

theorem inBody_length (hk : k ≠ 0) {s : InSt} {us : List Launch} {x : InSt ⊕ Byte × Launch × InSt}
    (hr : Client.Runs (inBody k nbytes s) us x) : us.length ≤ k.toNat + 2 := by
  obtain ⟨idle, t, rfl, hw, -⟩ := runs_inBody hr
  have h1 := hw.length_le hk
  rw [List.length_append, List.length_singleton]
  omega

/-- A round that is not the last ends with an answer. -/
theorem inBody_naks (hn : nbytes.toNat < 2 ^ 15) (hk : k ≠ 0) {s s' : InSt} {us : List Launch}
    (hc : s.nbytesptr.toNat ≤ nbytes.toNat) (hr : Client.Runs (inBody k nbytes s) us (.inl s')) :
    us.countP Launch.nak ≤ k.toNat - 1 := by
  obtain ⟨idle, t, rfl, hw, -, he⟩ := inBody_eff hn hc hr
  have hidle := hw.naks hk
  have hlast : t.nak = false := by
    cases he with
    | togerr ht => simp [Launch.nak, ht, hrTOGERR, hrNAK]
    | more h0 => simp [Launch.nak, h0, hrNAK]
  rw [List.countP_append, List.countP_singleton, if_neg (Bool.eq_false_iff.mp hlast)]
  omega

/-- A transfer after the rounds that `us` has taken. -/
structure InRounds (nbytes : BitVec 16) (pep : EpInfo) (k : BitVec 16) (us : List Launch) (s : InSt) :
    Prop where
  received : Received nbytes pep (packets us) s
  launches : us.length ≤ (k.toNat + 2) * answers us
  naks : us.countP Launch.nak ≤ (k.toNat - 1) * answers us

theorem inRounds_nil (nbytes : BitVec 16) (pep : EpInfo) (k : BitVec 16) :
    InRounds nbytes pep k [] ⟨pep, 0, []⟩ :=
  ⟨received_nil nbytes pep, Nat.zero_le _, Nat.zero_le _⟩

theorem inRounds_step (hn : nbytes.toNat < 2 ^ 15) (hk : k ≠ 0) {h us : List Launch} {s s' : InSt}
    (hI : InRounds nbytes pep k h s) (hr : Client.Runs (inBody k nbytes s) us (.inl s')) :
    InRounds nbytes pep k (h ++ us) s' := by
  have hone := answers_round hn hI.received.count_le hr
  have hlen := inBody_length hk hr
  have hnaks := inBody_naks hn hk hI.received.count_le hr
  have hmul : ∀ c, c * 1 ≤ c * answers us := fun c => Nat.mul_le_mul_left c hone
  refine ⟨received_step hn hI.received hr, ?_, ?_⟩
  · have h1 := hI.launches
    have h2 := hmul (k.toNat + 2)
    rw [answers_append, List.length_append, Nat.mul_add]
    omega
  · have h1 := hI.naks
    have h2 := hmul (k.toNat - 1)
    rw [answers_append, List.countP_append, Nat.mul_add]
    omega

/-- **The launches of an IN transfer**: those of one dispatch for every toggle error
and every packet, and of one that fails. -/
theorem inTransfer_launches (hn : nbytes.toNat < 2 ^ 15) (hk : k ≠ 0) {us : List Launch}
    {r : Byte × Launch × InSt} (h : Client.Runs (inTransfer pep k nbytes) us r) :
    us.length ≤ (k.toNat + 2) * (answers us + if r.1 = 0 then 0 else 1) := by
  obtain ⟨rcode, tail, s'⟩ := r
  obtain ⟨us₁, s, us₂, rfl, hI, hlast⟩ := ((inTransfer_loop k nbytes).runs_loop.mp h).inv
    (I := InRounds nbytes pep k) (fun h us s s' => inRounds_step hn hk) (inRounds_nil nbytes pep k)
  have hle := hI.launches
  have hlen := inBody_length hk hlast
  have hlastAnswers : 1 ≤ answers us₂ + if rcode = 0 then 0 else 1 := by
    obtain ⟨idle, t, rfl, hw, -, he⟩ := inBody_eff hn hI.received.count_le hlast
    cases he with
    | failed err h0 => rw [if_neg h0]; omega
    | last h0 hd =>
      have h1 := answers_acked (acked_of h0 hd)
      rw [answers_append]
      omega
  have h3 := Nat.mul_le_mul_left (k.toNat + 2) hlastAnswers
  dsimp only
  rw [answers_append, List.length_append, Nat.add_assoc, Nat.mul_add]
  omega

/-- A transfer that has not ended waits in the middle of a dispatch. -/
theorem inTransfer_waits (hn : nbytes.toNat < 2 ^ 15) (hk : k ≠ 0) {ts : List Launch}
    (htok : ∀ t ∈ ts, t.token = .tokIN ∧ t.ep = pep.epAddr) (h : inTransfer pep k nbytes ts = none) :
    ∃ us s idle, ts = us ++ idle ∧ InRounds nbytes pep k us s ∧ Waited .tokIN pep.epAddr k idle := by
  obtain ⟨us, s, idle, rfl, hI, hbody⟩ := (inTransfer_loop k nbytes).loop_waits
    (I := InRounds nbytes pep k) (fun h us s s' => inRounds_step hn hk) (inRounds_nil nbytes pep k) h
  have hep : s.pep.epAddr = pep.epAddr := by rw [hI.received.same]
  rcases Client.bind_none hbody with hwait | ⟨r, ts', -, hpure⟩
  · rw [hep] at hwait
    exact ⟨us, s, idle, rfl, hI, dispatch_waits (fun t ht => htok t (List.mem_append_right us ht)) hwait⟩
  · cases hpure

/-- **An IN transfer returns**: a dispatch's launches for every toggle error and every
packet, and those of one more, are enough for it. -/
theorem inTransfer_returns (hn : nbytes.toNat < 2 ^ 15) (hk : k ≠ 0) {ts : List Launch}
    (htok : ∀ t ∈ ts, t.token = .tokIN ∧ t.ep = pep.epAddr)
    (hlen : (k.toNat + 2) * (answers ts + 1) ≤ ts.length) : inTransfer pep k nbytes ts ≠ none := by
  intro h
  obtain ⟨us, s, idle, rfl, hI, hw⟩ := inTransfer_waits hn hk htok h
  have hidle := hw.length_le hk
  have hfew := hI.launches
  have hmono : (k.toNat + 2) * answers us ≤ (k.toNat + 2) * answers (us ++ idle) := by
    rw [answers_append]
    exact Nat.mul_le_mul_left _ (Nat.le_add_right _ _)
  rw [List.length_append, Nat.mul_succ] at hlen
  omega

end InTransfer

end SonicCraft.L2.Usb
