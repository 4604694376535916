import SonicCraft.L2Software.ControlRead
import SonicCraft.L2Software.Interfaces

/-!
# `USBH_MIDI::Init`: from a device on the bus to a driver that polls

SOC/software/space_jam/include/usbh_midi.cpp:103-311 with the requests of
Usb.cpp:796-845. The driver reads the device descriptor, gives the device an
address, reads configuration after configuration until the parser has found
endpoints, first those of MIDI streaming interfaces and then any, and selects the
configuration. What lies on the stack before is arbitrary (`Stack`), and so are the
endpoint records an earlier device has left.

* `getConfDescr_served`: the parser gets the configuration the device has.
* `init_served`: what a device is used for when `Init` succeeds, and what was said to
  it on the bus.
-/
namespace SonicCraft.L2.Usb
open DescParser

/-! ## Requests -/

/-- `USB_REQUEST_GET_DESCRIPTOR`; the bytes are the index and the descriptor's type. -/
def getDescriptor (wValLo wValHi : Byte) (total : BitVec 16) : SetupPkt :=
  ⟨0x80, 0x06, wValLo, wValHi, 0, total⟩

/-- `USB_REQUEST_SET_ADDRESS` -/
def setAddress (newaddr : Byte) : SetupPkt := ⟨0x00, 0x05, newaddr, 0x00, 0, 0⟩

/-- `USB_REQUEST_SET_CONFIGURATION` -/
def setConfiguration (conf_value : Byte) : SetupPkt := ⟨0x00, 0x09, conf_value, 0x00, 0, 0⟩

/-- No parser. -/
def noParse {n : Nat} (u : Unit) (_ : Nat) (_ : Buffer n Byte) : Option Unit := some u

/-- mirrors SOC/software/space_jam/include/Usb.cpp:796-798 -/
def getDevDescr {n : Nat} (pep : EpInfo) (nbytes : BitVec 16) (mem : Buffer n Byte) :
    Client Launch (Byte × Stage n Unit) :=
  ctrlReqIn noParse pep (getDescriptor 0 0x01 nbytes) nbytes mem (some ())

/-- `Parse(len, pbuf, ..)` -/
def parseBuffer (c : Cfg) (p : St) (len : Nat) (pbuf : Buffer 64 Byte) : Option St :=
  (pbuf.first len).bind (parse c p)

/-- `wTotalLength` -/
def totalLength (ucd : Buffer 64 Byte) : BitVec 16 := ucd ⟨3, by decide⟩ ++ ucd ⟨2, by decide⟩

/-- The endpoint record comes back with its toggle, and the parser.
mirrors SOC/software/space_jam/include/Usb.cpp:807-822 -/
def getConfDescr (c : Cfg) (pep : EpInfo) (conf : Byte) (mem : Buffer 64 Byte) (p : St) :
    Client Launch (Byte × EpInfo × Option St) := do
  let r ← ctrlReqIn noParse pep (getDescriptor conf 0x02 9) 9 mem (some ())
  if r.1 ≠ 0 then pure (r.1, r.2.pep, some p)
  else do
    let r' ← ctrlReqIn (parseBuffer c) r.2.pep (getDescriptor conf 0x02 (totalLength r.2.mem)) 64
      r.2.mem (some p)
    pure (r'.1, r'.2.pep, r'.2.parser)

/-! ## `Init` -/

/-- What lies on the stack: `Init`'s buffer, and in every turn of its loops the buffer
of `getConfDescr` and the parser's memory. -/
structure Stack where
  buf : Buffer 18 Byte
  confBuf : Bool → Byte → Buffer 64 Byte
  varBuffer : Bool → Byte → VarBuf
  confValue : Bool → Byte → Byte
  isGoodInterface : Bool → Byte → Bool

/-- The driver, with the record the address pool has for every new address. -/
structure Driver where
  bAddress : Byte
  bPollEnable : Bool
  readPtr : Byte
  vid : BitVec 16
  pid : BitVec 16
  bTransferTypeMask : Byte
  epInfo : EpTable
  dev0ep : EpInfo

/-- mirrors SOC/software/space_jam/include/usbh_midi.cpp:277-288 -/
def Driver.release (d : Driver) : Driver :=
  { d with bAddress := 0, bPollEnable := false, readPtr := 0 }

def EpTable.setControl (t : EpTable) (pep : EpInfo) : EpTable := Function.update t epControlIndex pep

/-- `setupDeviceSpecific`. mirrors SOC/software/space_jam/include/usbh_midi.cpp:291-311 -/
def transferTypeMask (vid pid : BitVec 16) : Byte :=
  if vid = 0x1235 then
    if pid = 0x20 ∨ pid = 0x36 ∨ pid = 0x51 ∨ pid = 0x69 then 2
    else if 0x30 ≤ pid ∧ pid ≤ 0x32 ∨ pid = 0x35 ∨ 0x7B ≤ pid ∧ pid ≤ 0x7D ∨ pid = 0x102 ∨
        0x113 ≤ pid ∧ pid ≤ 0x122 ∨ 0x134 ≤ pid ∧ pid ≤ 0x137 then 2
    else 0x03
  else 0x03

/-- What the loops over the configurations work on. -/
structure Search where
  epInfo : EpTable
  bNumEP : Byte
  bConfNum : Byte

/-- The table in the end, `none` after an access outside a buffer. -/
def searchedTable (s : Search) (pep : EpInfo) (p : Option St) : Option Search :=
  p.map fun p => { s with epInfo := p.found.epInfo.setControl pep }

/-- `k` configurations from the `i`th on.
mirrors SOC/software/space_jam/include/usbh_midi.cpp:215-225,231-241 -/
def searchConfs (st : Stack) (mask : Byte) (isMidiSearch : Bool) :
    Nat → Byte → Search → Client Launch (Byte × Option Search)
  | 0, _, s => pure (0, some s)
  | k + 1, i, s => do
    let r ← getConfDescr ⟨isMidiSearch, mask⟩ (s.epInfo epControlIndex) i (st.confBuf isMidiSearch i)
      (DescParser.init (st.varBuffer isMidiSearch i) (st.confValue isMidiSearch i)
        (st.isGoodInterface isMidiSearch i) s.epInfo)
    if r.1 ≠ 0 then pure (r.1, searchedTable s r.2.1 r.2.2)
    else r.2.2.elim (pure (0, none)) fun p =>
      let s := { s with
        epInfo := p.found.epInfo.setControl r.2.1
        bNumEP := s.bNumEP + p.found.nEPs }
      if s.bNumEP > 1 then pure (0, some { s with bConfNum := p.found.confValue })
      else searchConfs st mask isMidiSearch k (i + 1) s

/-- STEP1 and STEP2. mirrors SOC/software/space_jam/include/usbh_midi.cpp:213-243 -/
def findEndpoints (st : Stack) (mask : Byte) (num_of_conf : Byte) (epInfo : EpTable) :
    Client Launch (Byte × Option Search) := do
  let r ← searchConfs st mask true num_of_conf.toNat 0 ⟨epInfo, 1, 0⟩
  if r.1 ≠ 0 then pure r
  else r.2.elim (pure r) fun s =>
    if s.bNumEP = 1 then searchConfs st mask false num_of_conf.toNat 0 s else pure r

/-- Up to the whole device descriptor; `addr` is what the address pool gives.
mirrors SOC/software/space_jam/include/usbh_midi.cpp:134-193 -/
def firstRequests (st : Stack) (addr : Byte) (d : Driver) :
    Client Launch (Byte × Driver × Buffer 18 Byte) := do
  let r ← getDevDescr (d.epInfo epControlIndex) 8 st.buf
  let d := { d with epInfo := d.epInfo.setControl r.2.pep }
  if r.1 ≠ 0 then pure (r.1, d.release, r.2.mem)
  else if addr = 0 then pure (0xD4, d, r.2.mem)
  else
    let d := { d with
      bAddress := addr
      epInfo := d.epInfo.setControl { r.2.pep with maxPktSize := r.2.mem 7 } }
    do
    let a ← ctrlReqSet d.dev0ep (setAddress addr)
    if a ≠ 0 then pure (a, { d with bAddress := 0 }, r.2.mem)
    else do
      let r' ← getDevDescr d.dev0ep 18 r.2.mem
      let d := { d with dev0ep := r'.2.pep }
      if r'.1 ≠ 0 then pure (r'.1, d.release, r'.2.mem) else pure (0, d, r'.2.mem)

/-- "for reconnect" -/
def Driver.resetToggles (d : Driver) : Driver :=
  { d with epInfo := fun i =>
      if i = epControlIndex then d.epInfo i else { d.epInfo i with bmSndToggle := false, bmRcvToggle := false } }

/-- From `setConf` on. mirrors SOC/software/space_jam/include/usbh_midi.cpp:245-274 -/
def selectConf (d : Driver) (s : Search) : Client Launch (Byte × Driver) :=
  let d := { d with epInfo := s.epInfo }
  if s.bNumEP < 2 then pure (0xff, d.release)
  else do
    let a ← ctrlReqSet (d.epInfo epControlIndex) (setConfiguration s.bConfNum)
    if a ≠ 0 then pure (a, d.release) else pure (0, { d with bPollEnable := true })

/-- The fields of the device descriptor.
mirrors SOC/software/space_jam/include/usbh_midi.cpp:194-211 -/
def Driver.describe (d : Driver) (udd : Buffer 18 Byte) : Driver :=
  { d with
    vid := udd 9 ++ udd 8
    pid := udd 11 ++ udd 10
    bTransferTypeMask := transferTypeMask (udd 9 ++ udd 8) (udd 11 ++ udd 10) }

/-- `none`: after an access outside a buffer.
mirrors SOC/software/space_jam/include/usbh_midi.cpp:103-274 -/
def init (st : Stack) (addr : Byte) (d : Driver) : Client Launch (Byte × Option Driver) :=
  let d := d.resetToggles
  if d.bAddress ≠ 0 then pure (0xD9, some d)
  else do
    let r ← firstRequests st addr d
    if r.1 ≠ 0 then pure (r.1, some r.2.1)
    else
      let d := r.2.1.describe r.2.2
      do
      let f ← findEndpoints st d.bTransferTypeMask (r.2.2 17) d.epInfo
      f.2.elim (pure (f.1, none)) fun s =>
        if f.1 ≠ 0 then pure (f.1, some { d with epInfo := s.epInfo }.release)
        else do
          let x ← selectConf d s
          pure (x.1, some x.2)

/-! ## What the device has -/

/-- The device has the length it says. -/
structure Truthful (conf : Configuration) : Prop where
  long : 9 ≤ conf.bytes.length
  total : (conf.bytes.getD 3 0 ++ conf.bytes.getD 2 0 : BitVec 16).toNat = conf.bytes.length

/-- Configurations from the `i`th on. -/
def Offers (D : Device) : Byte → List Configuration → Prop
  | _, [] => True
  | i, conf :: confs =>
    ((∀ total, D.answer (getDescriptor i 0x02 total) = conf.bytes) ∧ Truthful conf) ∧
      Offers D (i + 1) confs

theorem parses_noParse {n : Nat} : Parses (noParse (n := n)) fun u _ => some u := fun _ _ _ _ => rfl

theorem parses_parseBuffer (c : Cfg) : Parses (parseBuffer c) (parse c) := by
  intro p mem data h
  rw [parseBuffer, Buffer.first_put mem h, Option.bind_some]

section
variable {D : Device} {c : Cfg} {pep : EpInfo} {i : Byte} {mem : Buffer 64 Byte} {q : Option (List Byte)}

theorem local_getConfDescr (c : Cfg) (pep : EpInfo) (i : Byte) (mem : Buffer 64 Byte) (p : St) :
    Client.Local (getConfDescr c pep i mem p) :=
  (local_ctrlReqIn _ _ _ _ _ _).bind fun _ => (Client.local_pure _).ite
    ((local_ctrlReqIn _ _ _ _ _ _).bind fun _ => Client.local_pure _)

/-- **A configuration comes over the bus** as the device has it, and the parser finds
what is in it. -/
theorem getConfDescr_served {conf : Configuration} (hp : pep.maxPktSize.toNat = D.packet)
    (hpos : 0 < D.packet) (h64 : D.packet ∣ 64)
    (hans : ∀ total, D.answer (getDescriptor i 0x02 total) = conf.bytes) (ht : Truthful conf)
    {varBuffer : VarBuf} {confValue : Byte} {isGood : Bool} {t : EpTable} {us : List Launch}
    {x : EpInfo × Option St} (hd : D.Served q us)
    (h : Client.Runs (getConfDescr c pep i mem (DescParser.init varBuffer confValue isGood t)) us
      (0, x)) :
    x.1 = { pep with bmRcvToggle := x.1.bmRcvToggle } ∧
      (∃ p, x.2 = some p ∧ p.found = conf.found c isGood t) ∧
      (D.zlp = false → 64 ∣ conf.bytes.length ∨ ¬ D.packet ∣ conf.bytes.length) := by
  obtain ⟨us₁, r, us₂, rfl, h1, h2⟩ := Client.Runs.split (local_ctrlReqIn _ _ _ _ _ _) h
  obtain ⟨rcode, s⟩ := r
  obtain ⟨rfl, h2⟩ := Client.go_on h2
  obtain ⟨r', us₄, h3, h4⟩ := Client.bind_some h2
  obtain ⟨us₃, rfl, hrun⟩ := local_ctrlReqIn _ _ _ _ _ _ _ _ _ h3
  obtain ⟨rcode', s'⟩ := r'
  cases h4
  -- the first nine bytes
  have hlong := ht.long
  have hshort : (getDescriptor i 0x02 9).wLength.toNat = 9 := rfl
  have hread := ctrlReqIn_served (f := fun u _ => some u) (show (9 : BitVec 16).toNat ≤ 64 by decide)
    parses_noParse (by rw [hans]; exact hlong)
    ⟨Nat.succ_pos 8, show 9 < 2 ^ 15 by decide, hpos, .inr ⟨hshort, .inl hp.le⟩⟩
    (Device.served_left _ _ hd) h1
  have hmem := hread.mem (by rw [hans, hshort, List.length_take]; exact Nat.min_eq_left hlong)
  rw [hans, hshort] at hmem
  have hbyte : ∀ j : Fin 64, (j : Nat) < 9 → s.mem j = conf.bytes.getD j 0 := by
    intro j hj
    rw [hmem]
    exact Buffer.put_take _ 0 hj (by omega)
  have htotal : (totalLength s.mem).toNat = conf.bytes.length := by
    rw [totalLength, hbyte ⟨3, by decide⟩ (by decide), hbyte ⟨2, by decide⟩ (by decide)]
    exact ht.total
  -- the configuration
  have hpep : s.pep.maxPktSize.toNat = D.packet := by rw [hread.same]; exact hp
  have hall := ctrlReqIn_served (show (64 : BitVec 16).toNat ≤ 64 by decide) (parses_parseBuffer c)
    (by rw [hans]; exact htotal.le)
    ⟨Nat.succ_pos 63, show 64 < 2 ^ 15 by decide, hpos, .inl ⟨hpep, h64⟩⟩
    (Device.served_left _ _ (Device.served_right _ _ hd)) hrun
  have htake : (D.answer (getDescriptor i 0x02 (totalLength s.mem))).take
      (totalLength s.mem).toNat = conf.bytes := by
    rw [hans, htotal, List.take_length]
  obtain ⟨chunks, hchunks, hparser⟩ := hall.parser
  obtain ⟨p, hfound⟩ := parse_configuration c varBuffer confValue isGood t conf (hchunks.trans htake)
  refine ⟨?_, ⟨p, hparser.trans hfound.1, hfound.2⟩, fun hz => ?_⟩
  · show s'.pep = _
    rw [hall.same, hread.same]
  · have hfull := hall.full hz
    rw [show (getDescriptor i 0x02 (totalLength s.mem)).wLength = totalLength s.mem from rfl,
      htake] at hfull
    exact hfull

end

/-! ## The search -/

/-- Records but that of endpoint 0 agree. -/
def Agree (t t' : EpTable) : Prop := ∀ i, i ≠ epControlIndex → t i = t' i

theorem Agree.trans {t t' t'' : EpTable} (h : Agree t t') (h' : Agree t' t'') : Agree t t'' :=
  fun i hi => (h i hi).trans (h' i hi)

theorem agree_setControl (t : EpTable) (pep : EpInfo) : Agree (t.setControl pep) t := by
  intro i hi
  unfold EpTable.setControl
  exact Function.update_of_ne hi pep t

theorem setControl_zero (t : EpTable) (pep : EpInfo) : t.setControl pep epControlIndex = pep :=
  Function.update_self _ _ _

theorem agree_record {t t' : EpTable} (h : Agree t t') (pep : EndpointDescriptor) :
    Agree (record t pep) (record t' pep) := by
  intro i hi
  unfold record
  by_cases hx : i = pep.index
  · subst hx
    rw [Function.update_self, Function.update_self, h _ hi]
  · rw [Function.update_of_ne hx, Function.update_of_ne hx, h i hi]

theorem agree_records {t t' : EpTable} (h : Agree t t') (ps : List EndpointDescriptor) :
    Agree (ps.foldl record t) (ps.foldl record t') := by
  induction ps generalizing t t' with
  | nil => exact h
  | cons p ps ih => exact ih (agree_record h p)

/-- The endpoints of the interface that was looked at last. -/
def lastSearched (c : Cfg) (conf : Configuration) : List EndpointDescriptor :=
  (searched c conf.interfaces).getLastD []

/-- The first configuration that has some, and the table in the end. -/
def findConf (c : Cfg) : List Configuration → EpTable → Option Configuration × EpTable
  | [], t => (none, t)
  | conf :: confs, t =>
    let t := (searched c conf.interfaces).flatten.foldl record t
    if lastSearched c conf = [] then findConf c confs t else (some conf, t)

/-- Those of MIDI streaming interfaces are tried first. -/
def chooseConf (mask : Byte) (confs : List Configuration) (t : EpTable) :
    Option Configuration × EpTable :=
  let r := findConf ⟨true, mask⟩ confs t
  if r.1.isSome then r else findConf ⟨false, mask⟩ confs r.2

theorem upToFull_length {α : Type} (gs : List (List α)) : ∀ g ∈ upToFull gs, g.length ≤ 2 := by
  induction gs with
  | nil => intro g hg; cases hg
  | cons es rest ih =>
    intro g hg
    rw [upToFull] at hg
    split at hg
    · rename_i hlt
      rcases List.mem_cons.mp hg with rfl | hg
      · exact hlt.le
      · exact ih g hg
    · rw [List.mem_singleton.mp hg, List.length_take]
      exact Nat.min_le_left _ _

theorem lastSearched_length (c : Cfg) (conf : Configuration) : (lastSearched c conf).length ≤ 2 := by
  unfold lastSearched
  by_cases h : searched c conf.interfaces = []
  · rw [h]; exact Nat.zero_le _
  · rw [List.getLastD_eq_getLast?, List.getLast?_eq_some_getLast h, Option.getD_some]
    exact upToFull_length _ _ (List.getLast_mem h)

/-- What is found does not depend on the table, nor the records on that of endpoint 0. -/
theorem findConf_agree (c : Cfg) (confs : List Configuration) {t t' : EpTable} (h : Agree t t') :
    (findConf c confs t).1 = (findConf c confs t').1 ∧
      Agree (findConf c confs t).2 (findConf c confs t').2 := by
  induction confs generalizing t t' with
  | nil => exact ⟨rfl, h⟩
  | cons conf confs ih =>
    have h1 := agree_records h (searched c conf.interfaces).flatten
    unfold findConf
    dsimp only
    by_cases he : lastSearched c conf = []
    · rw [if_pos he, if_pos he]
      exact ih h1
    · rw [if_neg he, if_neg he]
      exact ⟨rfl, h1⟩

theorem chooseConf_agree (mask : Byte) (confs : List Configuration) {t t' : EpTable} (h : Agree t t') :
    (chooseConf mask confs t).1 = (chooseConf mask confs t').1 ∧
      Agree (chooseConf mask confs t).2 (chooseConf mask confs t').2 := by
  have h1 := findConf_agree ⟨true, mask⟩ confs h
  unfold chooseConf
  dsimp only
  rw [h1.1]
  by_cases hs : (findConf ⟨true, mask⟩ confs t').1.isSome = true
  · rw [if_pos hs, if_pos hs]
    exact h1
  · rw [if_neg hs, if_neg hs]
    exact findConf_agree ⟨false, mask⟩ confs h1.2

theorem local_searchConfs (st : Stack) (mask : Byte) (isMidiSearch : Bool) (k : Nat) (i : Byte)
    (s : Search) : Client.Local (searchConfs st mask isMidiSearch k i s) := by
  induction k generalizing i s with
  | zero => exact Client.local_pure _
  | succ k ih =>
    refine (local_getConfDescr _ _ _ _ _).bind fun r => (Client.local_pure _).ite ?_
    cases r.2.2 with
    | none => exact Client.local_pure _
    | some p => exact (Client.local_pure _).ite (ih _ _)

section Search
variable {D : Device} {st : Stack} {mask : Byte} {isMidiSearch : Bool} {q : Option (List Byte)}

/-- What a search leaves that has found `r.1`. -/
structure Searched (s₀ : Search) (r : Option Configuration × EpTable) (s : Search) :
    Prop where
  table : Agree s.epInfo r.2
  control : (s.epInfo epControlIndex).maxPktSize = (s₀.epInfo 0).maxPktSize
  none : r.1 = none → s.bNumEP = 1
  some : ∀ conf, r.1 = some conf → 1 < s.bNumEP ∧ s.bConfNum = conf.head.field 5

/-- A turn of the loop. -/
theorem searchConfs_cons {k : Nat} {i : Byte} {s : Search} {conf : Configuration}
    (hp : (s.epInfo epControlIndex).maxPktSize.toNat = D.packet) (hpos : 0 < D.packet) (h64 : D.packet ∣ 64)
    (hans : ∀ total, D.answer (getDescriptor i 0x02 total) = conf.bytes) (ht : Truthful conf)
    {us : List Launch} {x : Option Search} (hd : D.Served q us)
    (h : Client.Runs (searchConfs st mask isMidiSearch (k + 1) i s) us (0, x)) :
    ∃ us₁ us₂ pep, us = us₁ ++ us₂ ∧ pep.maxPktSize = (s.epInfo epControlIndex).maxPktSize ∧
      let found := conf.found ⟨isMidiSearch, mask⟩ (st.isGoodInterface isMidiSearch i) s.epInfo
      let s' : Search := { s with
        epInfo := found.epInfo.setControl pep
        bNumEP := s.bNumEP + found.nEPs }
      if s'.bNumEP > 1 then x = some { s' with bConfNum := found.confValue }
      else Client.Runs (searchConfs st mask isMidiSearch k (i + 1) s') us₂ (0, x) := by
  obtain ⟨us₁, r, us₂, rfl, h1, h2⟩ := Client.Runs.split (local_getConfDescr _ _ _ _ _) h
  obtain ⟨rcode, pep, y⟩ := r
  obtain ⟨rfl, h2⟩ := Client.go_on h2
  obtain ⟨hpep, ⟨p, rfl, hfound⟩, -⟩ :=
    getConfDescr_served hp hpos h64 hans ht (Device.served_left _ _ hd) h1
  refine ⟨us₁, us₂, pep, rfl, by rw [show pep = _ from hpep], ?_⟩
  dsimp only at h2 ⊢
  rw [Option.elim_some, hfound] at h2
  split at h2
  · rename_i hgt
    rw [if_pos hgt]
    cases h2
    rfl
  · rename_i hgt
    rw [if_neg hgt]
    exact (local_searchConfs _ _ _ _ _ _).runs h2

/-- `bNumEP`, after a configuration. -/
theorem numEP_found (c : Cfg) (conf : Configuration) (isGood : Bool) (t : EpTable) :
    (lastSearched c conf = [] → 1 + (conf.found c isGood t).nEPs = 1) ∧
      (lastSearched c conf ≠ [] → 1 + (conf.found c isGood t).nEPs > 1) := by
  have hlen := lastSearched_length c conf
  have hn : (conf.found c isGood t).nEPs = BitVec.ofNat 8 (lastSearched c conf).length := rfl
  rw [hn]
  constructor
  · intro h
    rw [h]
    rfl
  · intro h
    have hpos := List.length_pos_of_ne_nil h
    generalize (lastSearched c conf).length = k at hlen hpos ⊢
    obtain rfl | rfl : k = 1 ∨ k = 2 := by omega
    · decide
    · decide

/-- **A search over configurations.** -/
theorem searchConfs_served (hpos : 0 < D.packet) (h64 : D.packet ∣ 64) (confs : List Configuration)
    {i : Byte} {s : Search} (hp : (s.epInfo epControlIndex).maxPktSize.toNat = D.packet) (hn : s.bNumEP = 1)
    (hoffers : Offers D i confs) {q : Option (List Byte)} {us : List Launch} {x : Option Search}
    (hd : D.Served q us)
    (h : Client.Runs (searchConfs st mask isMidiSearch confs.length i s) us (0, x)) :
    ∃ s', x = some s' ∧ Searched s (findConf ⟨isMidiSearch, mask⟩ confs s.epInfo) s' := by
  induction confs generalizing i s q us with
  | nil =>
    obtain ⟨-, he⟩ := Client.runs_pure.mp h
    exact ⟨s, congrArg Prod.snd he, ⟨fun _ _ => rfl, rfl, fun _ => hn, fun conf hc => (nomatch hc)⟩⟩
  | cons conf confs ih =>
    obtain ⟨⟨hans, ht⟩, hrest⟩ := hoffers
    obtain ⟨us₁, us₂, pep, rfl, hpep, hturn⟩ := searchConfs_cons hp hpos h64 hans ht hd h
    have hnum := numEP_found ⟨isMidiSearch, mask⟩ conf (st.isGoodInterface isMidiSearch i) s.epInfo
    rw [← hn] at hnum
    dsimp only at hturn
    have hcontrol := hpep.symm
    rw [← setControl_zero ((searched ⟨isMidiSearch, mask⟩ conf.interfaces).flatten.foldl
      record s.epInfo) pep] at hcontrol
    rw [findConf]
    by_cases hlast : lastSearched ⟨isMidiSearch, mask⟩ conf = []
    · -- no endpoints: on to the next one
      have h1 := hnum.1 hlast
      rw [if_pos hlast]
      rw [h1, if_neg (by rw [hn]; decide)] at hturn
      have hagree := agree_setControl ((searched ⟨isMidiSearch, mask⟩ conf.interfaces).flatten.foldl
        record s.epInfo) pep
      obtain ⟨s', hx, hs'⟩ := ih (s := { s with epInfo := EpTable.setControl _ pep })
        (hcontrol ▸ hp) hn hrest (Device.served_right _ _ hd) hturn
      obtain ⟨hfst, htable⟩ := findConf_agree ⟨isMidiSearch, mask⟩ confs hagree
      refine ⟨s', hx, ⟨hs'.table.trans htable, ?_, fun h0 => hs'.none (hfst.trans h0),
        fun conf' hc => hs'.some conf' (hfst.trans hc)⟩⟩
      exact hs'.control.trans hcontrol.symm
    · have h1 := hnum.2 hlast
      rw [if_neg hlast]
      rw [if_pos (by rw [hn] at h1 ⊢; exact h1)] at hturn
      refine ⟨_, hturn, ⟨agree_setControl _ _, ?_, fun h0 => (nomatch h0), fun conf' hc => ?_⟩⟩
      · exact hcontrol.symm
      · obtain rfl := Option.some.inj hc
        exact ⟨by rw [hn] at h1 ⊢; exact h1, rfl⟩

theorem local_findEndpoints (st : Stack) (mask num_of_conf : Byte) (epInfo : EpTable) :
    Client.Local (findEndpoints st mask num_of_conf epInfo) := by
  refine (local_searchConfs _ _ _ _ _ _).bind fun r => (Client.local_pure _).ite ?_
  cases r.2 with
  | none => exact Client.local_pure _
  | some s => exact (local_searchConfs _ _ _ _ _ _).ite (Client.local_pure _)

theorem findEndpoints_served (hpos : 0 < D.packet) (h64 : D.packet ∣ 64) {confs : List Configuration}
    {num_of_conf : Byte} (hnum : num_of_conf.toNat = confs.length) {epInfo : EpTable}
    (hp : (epInfo epControlIndex).maxPktSize.toNat = D.packet) (hoffers : Offers D 0 confs)
    {q : Option (List Byte)} {us : List Launch} {x : Option Search} (hd : D.Served q us)
    (h : Client.Runs (findEndpoints st mask num_of_conf epInfo) us (0, x)) :
    ∃ s, x = some s ∧ Searched ⟨epInfo, 1, 0⟩ (chooseConf mask confs epInfo) s := by
  obtain ⟨us₁, r, us₂, rfl, h1, h2⟩ := Client.Runs.split (local_searchConfs _ _ _ _ _ _) h
  obtain ⟨rcode, y⟩ := r
  obtain ⟨rfl, h2⟩ := Client.go_on h2
  rw [hnum] at h1 h2
  obtain ⟨s, rfl, hs⟩ := searchConfs_served (s := ⟨epInfo, 1, 0⟩) hpos h64 confs hp rfl hoffers
    (Device.served_left _ _ hd) h1
  rw [Option.elim_some] at h2
  unfold chooseConf
  dsimp only at hs ⊢
  by_cases hone : s.bNumEP = 1
  · -- nothing for MIDI streaming
    have hnone : (findConf ⟨true, mask⟩ confs epInfo).1 = none := by
      by_contra hsome
      obtain ⟨conf, hconf⟩ := Option.ne_none_iff_exists'.mp hsome
      have hgt := (hs.some conf hconf).1
      rw [hone] at hgt
      exact absurd hgt (by decide)
    rw [if_pos hone] at h2
    rw [hnone, Option.isSome_none, if_neg Bool.false_ne_true]
    obtain ⟨s', hx, hs'⟩ := searchConfs_served hpos h64 confs ((congrArg _ hs.control).trans hp) hone
      hoffers (Device.served_right _ _ hd) ((local_searchConfs _ _ _ _ _ _).runs h2)
    obtain ⟨hfst, htable⟩ := findConf_agree ⟨false, mask⟩ confs hs.table
    exact ⟨s', hx, hs'.table.trans htable, hs'.control.trans hs.control,
      fun h0 => hs'.none (hfst.trans h0), fun conf hc => hs'.some conf (hfst.trans hc)⟩
  · have hsome : (findConf ⟨true, mask⟩ confs epInfo).1.isSome = true := by
      rw [Option.isSome_iff_ne_none]
      exact fun h0 => hone (hs.none h0)
    rw [if_neg hone] at h2
    rw [if_pos hsome]
    cases h2
    exact ⟨s, rfl, hs⟩

end Search

/-! ## On the bus -/

/-- The setup packet of an acknowledged launch. -/
def Launch.request (t : Launch) : Option SetupPkt :=
  if t.hrslt = 0 then
    match t.token with
    | .tokSETUP pkt => some pkt
    | .tokIN => none
    | .tokOUT _ => none
    | .tokINHS => none
    | .tokOUTHS => none
  else none

def requests (us : List Launch) : List SetupPkt := us.filterMap Launch.request

theorem requests_append (us us' : List Launch) :
    requests (us ++ us') = requests us ++ requests us' := List.filterMap_append

theorem requests_dispatch {token : Token} {ep : Byte} {k : BitVec 16} {us : List Launch} {t : Launch}
    (h : Client.Runs (dispatchPkt token ep k) us (0, t)) :
    requests us = t.request.toList ∧ t.hrslt = 0 ∧ t.token = token := by
  obtain ⟨idle, rfl, hw, htok, -, hcode⟩ := dispatch_runs h
  refine ⟨?_, hcode.symm, htok⟩
  have hidle : requests idle = [] := by
    unfold requests
    rw [List.filterMap_eq_nil_iff]
    intro u hu
    have hne : u.hrslt ≠ 0 := by
      rcases hw.idle u hu with h0 | h0 <;> simp [h0, hrNAK, hrTIMEOUT]
    rw [Launch.request, if_neg hne]
  rw [requests_append, hidle, List.nil_append]
  unfold requests
  cases hreq : t.request <;> simp [hreq]

theorem local_ctrlReqSet (pep : EpInfo) (pkt : SetupPkt) : Client.Local (ctrlReqSet pep pkt) :=
  (local_dispatchPkt _ _ _).bind fun _ => (Client.local_pure _).ite
    ((local_dispatchPkt _ _ _).bind fun _ => Client.local_pure _)

/-- A request that has been acknowledged to the end. -/
theorem ctrlReqSet_ok {pep : EpInfo} {pkt : SetupPkt} {us : List Launch}
    (h : Client.Runs (ctrlReqSet pep pkt) us 0) : requests us = [pkt] := by
  obtain ⟨us₁, r, us₂, rfl, h1, h2⟩ := Client.Runs.split (local_dispatchPkt _ _ _) h
  obtain ⟨rcode, t⟩ := r
  by_cases hr : rcode ≠ 0
  · rw [if_pos hr] at h2
    cases h2
    exact absurd rfl hr
  rw [if_neg hr] at h2
  rw [ne_eq, not_not] at hr
  subst hr
  obtain ⟨⟨rcode, t'⟩, us₃, h3, h4⟩ := Client.bind_some h2
  cases h4
  obtain ⟨hreq, hcode, htok⟩ := requests_dispatch h1
  obtain ⟨hreq', hcode', htok'⟩ := requests_dispatch ((local_dispatchPkt _ _ _).runs h3)
  rw [requests_append, hreq, hreq', Launch.request, if_pos hcode, htok, Launch.request,
    if_pos hcode', htok']
  rfl

/-! ## `Init` -/

/-- A device with a device descriptor and configurations. -/
structure Offered (D : Device) (dev : List Byte) (confs : List Configuration) : Prop where
  packet : 8 ≤ D.packet
  packet_dvd : D.packet ∣ 64
  length : dev.length = 18
  answer : ∀ total, D.answer (getDescriptor 0 0x01 total) = dev
  size : (dev.getD 7 0).toNat = D.packet
  number : (dev.getD 17 0).toNat = confs.length
  offers : Offers D 0 confs

section Init
variable {D : Device} {dev : List Byte} {confs : List Configuration} {st : Stack} {addr : Byte}
  {d : Driver} {q : Option (List Byte)}

theorem getDevDescr_served (h : Offered D dev confs) {n : Nat} {pep : EpInfo} {nbytes : BitVec 16}
    {mem : Buffer n Byte} (hn : nbytes.toNat ≤ n) (hpos : 0 < nbytes.toNat) (hle : nbytes.toNat ≤ 18)
    (hfit : pep.maxPktSize.toNat ≤ D.packet ∨ nbytes.toNat ≤ D.packet) {us : List Launch}
    {s : Stage n Unit} (hd : D.Served q us)
    (hr : Client.Runs (getDevDescr pep nbytes mem) us (0, s)) :
    s.mem = mem.put (dev.take nbytes.toNat) ∧
      s.pep = { pep with bmRcvToggle := s.pep.bmRcvToggle } := by
  have hlen : (getDescriptor 0 0x01 nbytes).wLength = nbytes := rfl
  have hread := ctrlReqIn_served hn parses_noParse
    (by rw [h.answer, hlen, h.length]; exact hle)
    ⟨hpos, by omega, by have := h.packet; omega, .inr ⟨rfl, hfit⟩⟩ hd hr
  have hmem := hread.mem (by rw [h.answer, hlen, List.length_take, h.length]; omega)
  rw [h.answer] at hmem
  exact ⟨hmem, hread.same⟩

theorem local_getDevDescr {n : Nat} (pep : EpInfo) (nbytes : BitVec 16) (mem : Buffer n Byte) :
    Client.Local (getDevDescr pep nbytes mem) := local_ctrlReqIn _ _ _ _ _ _

/-- The first requests. -/
structure Begun (dev : List Byte) (addr : Byte) (d d' : Driver) (mem : Buffer 18 Byte) : Prop where
  mem : ∀ j : Fin 18, mem j = dev.getD j 0
  table : Agree d'.epInfo d.epInfo
  size : (d'.epInfo epControlIndex).maxPktSize = dev.getD 7 0
  address : d'.bAddress = addr

theorem firstRequests_served (h : Offered D dev confs) (h8 : d.dev0ep.maxPktSize = 8)
    {us : List Launch} {x : Driver × Buffer 18 Byte} (hd : D.Served q us)
    (hr : Client.Runs (firstRequests st addr d) us (0, x)) : Begun dev addr d x.1 x.2 := by
  obtain ⟨us₁, r, us', rfl, h1, h2⟩ := Client.Runs.split (local_getDevDescr _ _ _) hr
  obtain ⟨rcode, s⟩ := r
  obtain ⟨rfl, h2⟩ := Client.go_on h2
  obtain ⟨hmem, hsame⟩ := getDevDescr_served h (show (8 : BitVec 16).toNat ≤ 18 by decide)
    (Nat.succ_pos 7) (show 8 ≤ 18 by decide) (.inr h.packet) (Device.served_left _ _ hd) h1
  by_cases ha : addr = 0
  · rw [if_pos ha] at h2
    cases h2
  rw [if_neg ha] at h2
  obtain ⟨a, us'', h3, h4⟩ := Client.bind_some h2
  obtain ⟨rfl, h4⟩ := Client.go_on h4
  obtain ⟨us₂, rfl, -⟩ := local_ctrlReqSet _ _ _ _ _ h3
  obtain ⟨r', us₃, h5, h6⟩ := Client.bind_some h4
  obtain ⟨us₄, rfl, hrun⟩ := local_getDevDescr _ _ _ _ _ _ h5
  obtain ⟨rcode', s'⟩ := r'
  obtain ⟨rfl, h6⟩ := Client.go_on h6
  cases h6
  have hle8 : d.dev0ep.maxPktSize.toNat ≤ D.packet := by rw [h8]; exact h.packet
  obtain ⟨hmem', -⟩ := getDevDescr_served h (show (18 : BitVec 16).toNat ≤ 18 by decide)
    (Nat.succ_pos 17) (Nat.le_refl 18) (.inl hle8)
    (Device.served_left _ _ (Device.served_right _ _ (Device.served_right _ _ hd))) hrun
  have hdev := h.length
  refine ⟨fun j => ?_, ?_, ?_, rfl⟩
  · show s'.mem j = _
    rw [hmem']
    exact Buffer.put_take _ 0 j.isLt (by omega)
  · exact (agree_setControl _ _).trans (agree_setControl _ _)
  · have hz := setControl_zero (d.epInfo.setControl s.pep) { s.pep with maxPktSize := s.mem 7 }
    refine (congrArg EpInfo.maxPktSize hz).trans ?_
    show s.mem 7 = _
    rw [hmem]
    exact Buffer.put_take _ 0 (show 7 < 8 by decide) (by rw [hdev]; decide)

theorem local_firstRequests (st : Stack) (addr : Byte) (d : Driver) :
    Client.Local (firstRequests st addr d) :=
  (local_getDevDescr _ _ _).bind fun _ => (Client.local_pure _).ite ((Client.local_pure _).ite
    ((local_ctrlReqSet _ _).bind fun _ => (Client.local_pure _).ite
      ((local_getDevDescr _ _ _).bind fun _ => (Client.local_pure _).ite (Client.local_pure _))))

theorem local_selectConf (d : Driver) (s : Search) : Client.Local (selectConf d s) :=
  (Client.local_pure _).ite
    ((local_ctrlReqSet _ _).bind fun _ => (Client.local_pure _).ite (Client.local_pure _))

theorem selectConf_ok {s : Search} {us : List Launch} {d' : Driver}
    (h : Client.Runs (selectConf d s) us (0, d')) :
    ¬ s.bNumEP < 2 ∧ requests us = [setConfiguration s.bConfNum] ∧
      d' = { d with epInfo := s.epInfo, bPollEnable := true } := by
  unfold selectConf at h
  by_cases hn : s.bNumEP < 2
  · rw [if_pos hn] at h
    obtain ⟨-, he⟩ := Client.runs_pure.mp h
    cases he
  · rw [if_neg hn] at h
    obtain ⟨us₁, a, us₂, rfl, h1, h2⟩ := Client.Runs.split (local_ctrlReqSet _ _) h
    obtain ⟨rfl, h2⟩ := Client.go_on h2
    cases h2
    rw [List.append_nil]
    exact ⟨hn, ctrlReqSet_ok h1, rfl⟩

/-- What `setupDeviceSpecific` makes of a device descriptor. -/
def deviceMask (dev : List Byte) : Byte :=
  transferTypeMask (dev.getD 9 0 ++ dev.getD 8 0) (dev.getD 11 0 ++ dev.getD 10 0)

/-- The driver uses `conf`, and the device has been told so last. -/
structure InUse (addr : Byte) (conf : Configuration) (t : EpTable) (us : List Launch) (d : Driver) :
    Prop where
  polls : d.bPollEnable = true
  address : d.bAddress = addr
  table : Agree d.epInfo t
  told : ∃ before, requests us = before ++ [setConfiguration (conf.head.field 5)]

/-- The parts of an `Init` that has succeeded. -/
theorem init_ok (h : Offered D dev confs) (h0 : d.bAddress = 0) (h8 : d.dev0ep.maxPktSize = 8)
    {us : List Launch} {x : Option Driver} (hd : D.Served q us)
    (hr : Client.Runs (init st addr d) us (0, x)) :
    ∃ us₁ us₂ us₃ d₁ mem s d', us = us₁ ++ (us₂ ++ us₃) ∧ Begun dev addr d.resetToggles d₁ mem ∧
      Client.Runs (findEndpoints st (deviceMask dev) (dev.getD 17 0) d₁.epInfo) us₂ (0, some s) ∧
      Client.Runs (selectConf (d₁.describe mem) s) us₃ (0, d') ∧ x = some d' := by
  have h0' : ¬ d.resetToggles.bAddress ≠ 0 := not_not.mpr h0
  unfold init at hr
  dsimp only at hr
  rw [if_neg h0'] at hr
  obtain ⟨us₁, r, us', rfl, h1, h2⟩ := Client.Runs.split (local_firstRequests _ _ _) hr
  obtain ⟨rcode, d₁, mem⟩ := r
  obtain ⟨rfl, h2⟩ := Client.go_on h2
  have hbegun := firstRequests_served (d := d.resetToggles) h h8 (Device.served_left _ _ hd) h1
  have hmem : ∀ j, mem j = dev.getD j 0 := hbegun.mem
  have hmask : (d₁.describe mem).bTransferTypeMask = deviceMask dev := by
    show transferTypeMask _ _ = _
    rw [hmem, hmem, hmem, hmem]
    rfl
  dsimp only at h2
  rw [hmask, hmem 17] at h2
  obtain ⟨f, us'', h3, h4⟩ := Client.bind_some h2
  obtain ⟨us₂, rfl, hfind⟩ := local_findEndpoints _ _ _ _ _ _ _ h3
  obtain ⟨rcode, y⟩ := f
  cases y with
  | none =>
    cases h4
    have hpos : 0 < D.packet := by have := h.packet; omega
    obtain ⟨s, hs, -⟩ := findEndpoints_served hpos h.packet_dvd h.number
      ((congrArg _ hbegun.size).trans h.size) h.offers
      (Device.served_left _ _ (Device.served_right _ _ hd)) hfind
    cases hs
  | some s =>
    rw [Option.elim_some] at h4
    obtain ⟨rfl, h4⟩ := Client.go_on h4
    obtain ⟨y, us₃, h5, h6⟩ := Client.bind_some h4
    obtain ⟨us₄, rfl, hselect⟩ := local_selectConf _ _ _ _ _ h5
    obtain ⟨rcode, d'⟩ := y
    cases h6
    exact ⟨us₁, us₂, us₄, d₁, mem, s, d', by rw [List.append_nil], hbegun, hfind, hselect, rfl⟩

/-- The first configuration is read whatever comes after. -/
theorem findEndpoints_first {mask num_of_conf : Byte} {epInfo : EpTable} {k : Nat}
    (hnum : num_of_conf.toNat = k + 1) {us : List Launch} {x : Option Search}
    (h : Client.Runs (findEndpoints st mask num_of_conf epInfo) us (0, x)) :
    ∃ us₁ us₂ y, us = us₁ ++ us₂ ∧ Client.Runs (getConfDescr ⟨true, mask⟩ (epInfo epControlIndex) 0 (st.confBuf true 0)
      (DescParser.init (st.varBuffer true 0) (st.confValue true 0) (st.isGoodInterface true 0) epInfo))
      us₁ (0, y) := by
  obtain ⟨us', r, us'', rfl, h1, h2⟩ := Client.Runs.split (local_searchConfs _ _ _ _ _ _) h
  obtain ⟨rcode, y⟩ := r
  obtain ⟨rfl, -⟩ := Client.go_on h2
  rw [hnum] at h1
  obtain ⟨us₁, r, us₂, rfl, h3, h4⟩ := Client.Runs.split (local_getConfDescr _ _ _ _ _) h1
  obtain ⟨rcode, z⟩ := r
  obtain ⟨rfl, -⟩ := Client.go_on h4
  exact ⟨us₁, us₂ ++ us'', z, List.append_assoc _ _ _, h3⟩

/-- **The empty packet.** A device that sends none behind a last packet that is full
cannot be used if its first configuration's length is a multiple of the packets' but
not of 64. -/
theorem init_full {conf : Configuration} (h : Offered D dev (conf :: confs)) (h0 : d.bAddress = 0)
    (h8 : d.dev0ep.maxPktSize = 8) (hz : D.zlp = false) (hdvd : D.packet ∣ conf.bytes.length)
    (hndvd : ¬ 64 ∣ conf.bytes.length) {us : List Launch} {x : Option Driver} (hd : D.Served q us) :
    ¬ Client.Runs (init st addr d) us (0, x) := by
  intro hr
  obtain ⟨us₁, us₂, us₃, d₁, mem, s, d', rfl, hbegun, hfind, -, -⟩ := init_ok h h0 h8 hd hr
  obtain ⟨us₄, us₅, y, rfl, hget⟩ := findEndpoints_first (k := confs.length) h.number hfind
  have hpos : 0 < D.packet := by have := h.packet; omega
  obtain ⟨⟨hans, ht⟩, -⟩ := h.offers
  have hd' := Device.served_left _ _ (Device.served_left _ _ (Device.served_right _ _ hd))
  obtain ⟨-, -, hfull⟩ := getConfDescr_served ((congrArg _ hbegun.size).trans h.size) hpos
    h.packet_dvd hans ht hd' hget
  exact (hfull hz).elim hndvd fun hcon => hcon hdvd

theorem local_init (st : Stack) (addr : Byte) (d : Driver) : Client.Local (init st addr d) := by
  refine (Client.local_pure _).ite ((local_firstRequests _ _ _).bind fun r =>
    (Client.local_pure _).ite ((local_findEndpoints _ _ _ _).bind fun f => ?_))
  cases f.2 with
  | none => exact Client.local_pure _
  | some s =>
    exact (Client.local_pure _).ite ((local_selectConf _ _).bind fun _ => Client.local_pure _)

end Init

/-! ## A keyboard -/

namespace Keyboard

def dev : List Byte := [18, 1, 0, 2, 0, 0, 0, 8, 0x34, 0x12, 1, 0, 0, 1, 0, 0, 0, 1]

def device : Device where
  packet := 8
  zlp := false
  answer pkt := if pkt.wValueHi = 0x01 then dev else keyboard.bytes

/-- Acknowledged. -/
def ok (token : Token) : Launch := ⟨token, 0, 0, false, [], false, empty_fits⟩

def nak (token : Token) : Launch := ⟨token, 0, hrNAK, false, [], false, empty_fits⟩

/-- The `k`th packet. -/
def data (bs : List Byte) (k : Nat) : Launch where
  token := .tokIN
  ep := 0
  hrsl := 0
  rcvdav := true
  fifo := (bs.drop (8 * k)).take 8
  late := false
  fits := by rw [List.length_take]; omega

/-- Up to the length of a configuration `bs`, being busy at first. -/
def opening (bs : List Byte) : List Launch :=
  [ok (.tokSETUP (getDescriptor 0 1 8)), nak .tokIN, data dev 0, ok .tokOUTHS,
    ok (.tokSETUP (setAddress 1)), nak .tokINHS, ok .tokINHS,
    ok (.tokSETUP (getDescriptor 0 1 18)), data dev 0, data dev 1, data dev 2, ok .tokOUTHS,
    ok (.tokSETUP (getDescriptor 0 2 9)), data bs 0, data (bs.take 9) 1, ok .tokOUTHS]

def session : List Launch :=
  opening keyboard.bytes ++ [ok (.tokSETUP (getDescriptor 0 2 57))] ++
    (List.range 8).map (data keyboard.bytes) ++
      [ok .tokOUTHS, ok (.tokSETUP (setConfiguration 1)), ok .tokINHS]

def stack : Stack where
  buf _ := 0
  confBuf _ _ _ := 0
  varBuffer _ _ _ := 0
  confValue _ _ := 0
  isGoodInterface _ _ := false

def driver : Driver where
  bAddress := 0
  bPollEnable := false
  readPtr := 0
  vid := 0
  pid := 0
  bTransferTypeMask := 0
  epInfo := EpTable.init fun _ => ⟨0, 0, false, false, 0⟩
  dev0ep := ⟨0, 8, false, false, 15⟩

theorem offered : Offered device dev [keyboard] where
  packet := Nat.le_refl 8
  packet_dvd := by decide
  length := rfl
  answer _ := rfl
  size := rfl
  number := rfl
  offers := ⟨⟨fun _ => rfl, by decide, rfl⟩, trivial⟩

theorem served : device.Served none session := by decide +kernel

theorem comes_up : ∃ x, Client.Runs (init stack 1 driver) session (0, x) := by
  obtain ⟨⟨rcode, x⟩, hcode, hr⟩ := (local_init stack 1 driver).runs_shown (g := Prod.fst)
    (b := 0) (show Option.map _ (init stack 1 driver session) = _ by decide +kernel)
  obtain rfl : rcode = 0 := hcode
  exact ⟨x, hr⟩

/-- With a descriptor more, of 15 bytes: 72 in all. -/
def longer : Configuration where
  head := ⟨[9, 2, 72, 0, 2, 1, 0, 128, 50], by decide, by decide, by decide⟩
  others := [⟨15 :: 0x24 :: List.replicate 13 0, by decide, by decide, by decide⟩]
  interfaces := keyboard.interfaces
  is := rfl
  skipped := by decide

def longerDevice : Device where
  packet := 8
  zlp := false
  answer pkt := if pkt.wValueHi = 0x01 then dev else longer.bytes

theorem longer_offered : Offered longerDevice dev [longer] where
  packet := Nat.le_refl 8
  packet_dvd := by decide
  length := rfl
  answer _ := rfl
  size := rfl
  number := rfl
  offers := ⟨⟨fun _ => rfl, by decide, rfl⟩, trivial⟩

def longerSession : List Launch :=
  opening longer.bytes ++ [ok (.tokSETUP (getDescriptor 0 2 72))] ++
    (List.range 9).map (data longer.bytes) ++
      [ok .tokOUTHS, ok (.tokSETUP (setConfiguration 1)), ok .tokINHS]

theorem longer_served : longerDevice.Served none longerSession := by decide +kernel

end Keyboard

theorem init_full_keyboard :
    ¬ Client.Runs (init Keyboard.stack 1 Keyboard.driver) Keyboard.longerSession
      (0, some Keyboard.driver) :=
  init_full Keyboard.longer_offered rfl rfl rfl (by decide) (by decide) Keyboard.longer_served

end SonicCraft.L2.Usb
