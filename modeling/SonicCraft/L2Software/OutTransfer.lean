import SonicCraft.L2Software.UsbTransfer

/-!
# OUT transfers: `OutTransfer`

SOC/software/space_jam/include/Usb.cpp:300-394. The bytes go out in packets of
`maxPktSize`, each of them launched again while it is NAKed, not answered or met with a
toggle error. One limit of five seconds holds for the whole transfer, and it is not what
ends it: a packet that has failed when the time is over is given up, and the next one
follows.

* `outTransfer_exact`: what has been acknowledged is some of the bytes, in order; in
  time, it is all of them exactly when the code is 0. A transfer that returns 0 has lost
  bytes exactly if a packet was given up (`OutDone`).
-/
namespace SonicCraft.L2.Usb

/-! ## The code -/

/-- What the launches of a packet work on. -/
structure OutTry where
  tries : Tries
  pep : EpInfo

/-- After a launch; `true` is `goto breakout`.
mirrors SOC/software/space_jam/include/Usb.cpp:346-372 -/
def outTurn (nakLimit : BitVec 16) (s : OutTry) (t : Launch) : OutTry ⊕ Bool × EpInfo × Launch :=
  if t.hrslt = 0 ∨ t.late = true then .inr (false, s.pep, t)
  else if t.hrslt = hrNAK then
    let d := { s.tries with nakCount := s.tries.nakCount + 1 }
    if nakLimit ≠ 0 ∧ d.nakCount = nakLimit then .inr (true, s.pep, t) else .inl { s with tries := d }
  else if t.hrslt = hrTIMEOUT then
    let d := { s.tries with retryCount := s.tries.retryCount + 1 }
    if d.retryCount = 3 then .inr (true, s.pep, t) else .inl { s with tries := d }
  else if t.hrslt = hrTOGERR then
    .inl { s with pep := { s.pep with bmSndToggle := !t.bmSNDTOGRD } }
  else .inr (true, s.pep, t)

def outTryBody (nakLimit : BitVec 16) (pkt : List Byte) (s : OutTry) :
    Client Launch (OutTry ⊕ Bool × EpInfo × Launch) := do
  let t ← launch (.tokOUT pkt) s.pep.epAddr
  pure (outTurn nakLimit s t)

/-- One packet. -/
def outPacket (pep : EpInfo) (nakLimit : BitVec 16) (pkt : List Byte) :
    Client Launch (Bool × EpInfo × Launch) :=
  Client.loop (outTryBody nakLimit pkt) ⟨⟨0, 0⟩, pep⟩

/-- `left` is what `data_p` points to, `bytes_left` its length; `hrsl` is in the chip. -/
structure OutSt where
  pep : EpInfo
  left : List Byte
  rcode : Byte
  hrsl : Byte

/-- `while(bytes_left)` -/
def outBody (nakLimit : BitVec 16) (s : OutSt) : Client Launch (OutSt ⊕ Byte × EpInfo) :=
  if s.left = [] then pure (.inr (s.rcode, { s.pep with bmSndToggle := s.hrsl.getLsbD 5 }))
  else do
    let r ← outPacket s.pep nakLimit (s.left.take s.pep.maxPktSize.toNat)
    pure (if r.1 then .inr (r.2.2.hrslt, { r.2.1 with bmSndToggle := r.2.2.bmSNDTOGRD })
      else .inl ⟨r.2.1, s.left.drop s.pep.maxPktSize.toNat, r.2.2.hrslt, r.2.2.hrsl⟩)

/-- `nbytes` is the length of `data`.
mirrors SOC/software/space_jam/include/Usb.cpp:315-394 -/
def outTransfer (pep : EpInfo) (nakLimit : BitVec 16) (data : List Byte) (hrsl : Byte) :
    Client Launch (Byte × EpInfo) :=
  if pep.maxPktSize < 1 ∨ pep.maxPktSize > 64 then pure (0xDA, pep)
  else Client.loop (outBody nakLimit) ⟨pep, data, 0, hrsl⟩

/-! ## One packet -/

/-- The data of an acknowledged launch. -/
def Launch.out (t : Launch) : Option (List Byte) :=
  if t.hrslt = 0 then
    match t.token with
    | .tokOUT data => some data
    | .tokSETUP _ => none
    | .tokIN => none
    | .tokINHS => none
    | .tokOUTHS => none
  else none

/-- What the device has been sent. -/
def delivered (us : List Launch) : List Byte := (us.filterMap Launch.out).flatten

theorem delivered_append (us us' : List Launch) :
    delivered (us ++ us') = delivered us ++ delivered us' := by
  unfold delivered
  rw [List.filterMap_append, List.flatten_append]

theorem delivered_failed {us : List Launch} (h : ∀ t ∈ us, t.hrslt ≠ 0) : delivered us = [] := by
  have hnil : us.filterMap Launch.out = [] :=
    List.filterMap_eq_nil_iff.mpr fun t ht => if_neg (h t ht)
  rw [delivered, hnil, List.flatten_nil]

theorem delivered_ok {t : Launch} {pkt : List Byte} (h : t.hrslt = 0) (ht : t.token = .tokOUT pkt) :
    delivered [t] = pkt := by
  have hout : t.out = some pkt := by rw [Launch.out, if_pos h, ht]
  simp [delivered, hout]

/-- No launch has failed with the time over. -/
def InTime (us : List Launch) : Prop := ∀ t ∈ us, t.hrslt ≠ 0 → t.late = false

instance (us : List Launch) : Decidable (InTime us) :=
  inferInstanceAs (Decidable (∀ t ∈ us, _ → _))

theorem inTime_append {us us' : List Launch} : InTime (us ++ us') ↔ InTime us ∧ InTime us' :=
  List.forall_mem_append

/-- What a turn that is not the last can be. -/
theorem outTurn_inl {k : BitVec 16} {s s' : OutTry} {t : Launch} (h : outTurn k s t = .inl s') :
    t.hrslt ≠ 0 ∧ t.late = false ∧ s'.pep = { s.pep with bmSndToggle := s'.pep.bmSndToggle } := by
  unfold outTurn at h
  split at h
  · cases h
  rename_i hgo
  rw [not_or, Bool.not_eq_true] at hgo
  refine ⟨hgo.1, hgo.2, ?_⟩
  dsimp only at h
  split at h
  · split at h <;> cases h
    rfl
  · split at h
    · split at h <;> cases h
      rfl
    · split at h <;> cases h
      rfl

theorem outTurn_inr {k : BitVec 16} {s : OutTry} {t : Launch} {r : Bool × EpInfo × Launch}
    (h : outTurn k s t = .inr r) :
    r.2 = (s.pep, t) ∧ (r.1 = true → t.hrslt ≠ 0 ∧ t.late = false) ∧
      (r.1 = false → t.hrslt = 0 ∨ t.late = true) := by
  unfold outTurn at h
  split at h
  · rename_i hend
    cases h
    exact ⟨rfl, fun h => (nomatch h), fun _ => hend⟩
  rename_i hgo
  rw [not_or, Bool.not_eq_true] at hgo
  have hbreak : r = (true, s.pep, t) := by
    dsimp only at h
    split at h
    · split at h <;> cases h
      rfl
    · split at h
      · split at h <;> cases h
        rfl
      · split at h <;> cases h
        rfl
  subst hbreak
  exact ⟨rfl, fun _ => hgo, fun h => (nomatch h)⟩

theorem runs_outTryBody {k : BitVec 16} {pkt : List Byte} {s : OutTry} {us : List Launch}
    {x : OutTry ⊕ Bool × EpInfo × Launch} (h : Client.Runs (outTryBody k pkt s) us x) :
    ∃ t, us = [t] ∧ t.token = .tokOUT pkt ∧ x = outTurn k s t := by
  obtain ⟨us₁, t, us₂, rfl, h1, h2⟩ :=
    (Client.runs_bind (local_launch _ _) fun t => Client.local_pure _).mp h
  obtain ⟨rfl, htok, -⟩ := runs_launch.mp h1
  obtain ⟨rfl, rfl⟩ := Client.runs_pure.mp h2
  exact ⟨t, rfl, htok, rfl⟩

theorem outPacket_loop (k : BitVec 16) (pkt : List Byte) : Client.Body (outTryBody k pkt) where
  isLocal s := (local_launch _ _).bind fun t => Client.local_pure _
  takes s us s' h := by
    obtain ⟨t, rfl, -⟩ := runs_outTryBody h
    simp

theorem local_outPacket (pep : EpInfo) (k : BitVec 16) (pkt : List Byte) :
    Client.Local (outPacket pep k pkt) := (outPacket_loop k pkt).local_loop _

/-- What the launches of one packet come to. -/
structure OutPacket (pep : EpInfo) (pkt : List Byte) (us : List Launch)
    (r : Bool × EpInfo × Launch) : Prop where
  takes : us ≠ []
  same : r.2.1 = { pep with bmSndToggle := r.2.1.bmSndToggle }
  /-- Given up for good: the transfer has failed. -/
  broken : r.1 = true → r.2.2.hrslt ≠ 0 ∧ delivered us = [] ∧ InTime us
  /-- Acknowledged. -/
  acked : r.1 = false → r.2.2.hrslt = 0 → delivered us = pkt ∧ InTime us
  /-- Given up for the next one. -/
  passed : r.1 = false → r.2.2.hrslt ≠ 0 → delivered us = [] ∧ ¬ InTime us

theorem outPacket_runs {pep : EpInfo} {k : BitVec 16} {pkt : List Byte} {us : List Launch}
    {r : Bool × EpInfo × Launch} (h : Client.Runs (outPacket pep k pkt) us r) :
    OutPacket pep pkt us r := by
  obtain ⟨idle, s, us₂, rfl, ⟨hidle, hsame⟩, hlast⟩ := ((outPacket_loop k pkt).runs_loop.mp h).inv
    (I := fun us s => (∀ t ∈ us, t.hrslt ≠ 0 ∧ t.late = false) ∧
      s.pep = { pep with bmSndToggle := s.pep.bmSndToggle })
    (fun us s new s' hI hr => by
      obtain ⟨t, rfl, -, hx⟩ := runs_outTryBody hr
      obtain ⟨hne, hlate, hpep⟩ := outTurn_inl hx.symm
      refine ⟨List.forall_mem_append.mpr ⟨hI.1, List.forall_mem_singleton.mpr ⟨hne, hlate⟩⟩, ?_⟩
      rw [hpep, hI.2]) ⟨List.forall_mem_nil _, rfl⟩
  obtain ⟨t, rfl, htok, hx⟩ := runs_outTryBody hlast
  obtain ⟨hr, hbreak, hend⟩ := outTurn_inr hx.symm
  have hbefore : delivered (idle ++ [t]) = delivered [t] := by
    rw [delivered_append, delivered_failed fun t ht => (hidle t ht).1, List.nil_append]
  have htime : InTime (idle ++ [t]) ↔ InTime [t] := by
    rw [inTime_append]
    exact and_iff_right fun t ht _ => (hidle t ht).2
  have hfail : t.hrslt ≠ 0 → delivered [t] = [] := fun hne =>
    delivered_failed (List.forall_mem_singleton.mpr hne)
  obtain ⟨brk, rest⟩ := r
  obtain rfl : rest = (s.pep, t) := hr
  refine ⟨by simp, hsame, fun hb => ?_, fun hb h0 => ?_, fun hb hne => ?_⟩
  · obtain ⟨hne, hlate⟩ := hbreak hb
    rw [hbefore, htime]
    exact ⟨hne, hfail hne, List.forall_mem_singleton.mpr fun _ => hlate⟩
  · rw [hbefore, htime]
    exact ⟨delivered_ok h0 htok, List.forall_mem_singleton.mpr fun hne => absurd h0 hne⟩
  · rw [hbefore, htime]
    refine ⟨hfail hne, fun hin => ?_⟩
    have h1 := hin t List.mem_cons_self hne
    rcases hend hb with h0 | h2
    · exact hne h0
    · rw [h1] at h2; cases h2

/-! ## The whole transfer -/

/-- A packet before and after. -/
theorem runs_outBody {k : BitVec 16} {s : OutSt} (hs : s.left ≠ []) {us : List Launch}
    {x : OutSt ⊕ Byte × EpInfo} (h : Client.Runs (outBody k s) us x) :
    ∃ r, OutPacket s.pep (s.left.take s.pep.maxPktSize.toNat) us r ∧
      x = if r.1 then .inr (r.2.2.hrslt, { r.2.1 with bmSndToggle := r.2.2.bmSNDTOGRD })
        else .inl ⟨r.2.1, s.left.drop s.pep.maxPktSize.toNat, r.2.2.hrslt, r.2.2.hrsl⟩ := by
  unfold outBody at h
  rw [if_neg hs] at h
  obtain ⟨us₁, r, us₂, rfl, h1, h2⟩ :=
    (Client.runs_bind (local_outPacket _ _ _) fun r => Client.local_pure _).mp h
  obtain ⟨rfl, rfl⟩ := Client.runs_pure.mp h2
  rw [List.append_nil]
  exact ⟨r, outPacket_runs h1, rfl⟩

theorem outTransfer_loop (k : BitVec 16) : Client.Body (outBody k) where
  isLocal s := (Client.local_pure _).ite ((local_outPacket _ _ _).bind fun r => Client.local_pure _)
  takes s us s' h := by
    by_cases hs : s.left = []
    · rw [outBody, if_pos hs] at h
      obtain ⟨-, he⟩ := Client.runs_pure.mp h
      cases he
    · obtain ⟨r, hr, -⟩ := runs_outBody hs h
      exact hr.takes

theorem local_outTransfer (pep : EpInfo) (k : BitVec 16) (data : List Byte) (hrsl : Byte) :
    Client.Local (outTransfer pep k data hrsl) :=
  (Client.local_pure _).ite ((outTransfer_loop k).local_loop _)

/-- An OUT transfer between two packets; `sent` is what it has been through. -/
structure Sending (pep : EpInfo) (data : List Byte) (us : List Launch) (s : OutSt) : Prop where
  same : s.pep = { pep with bmSndToggle := s.pep.bmSndToggle }
  code : InTime us → s.rcode = 0
  parts : ∃ sent, data = sent ++ s.left ∧ (delivered us).Sublist sent ∧
    (delivered us = sent ↔ InTime us)

/-- What a whole transfer comes to. -/
structure OutDone (data : List Byte) (us : List Launch) (rcode : Byte) : Prop where
  order : (delivered us).Sublist data
  /-- In time, the code tells. -/
  inTime : InTime us → ∃ rest, data = delivered us ++ rest ∧ (rcode = 0 ↔ rest = [])
  /-- Success, and a packet has been given up. -/
  lost : rcode = 0 → (delivered us = data ↔ InTime us)

theorem sending_step {pep : EpInfo} {data : List Byte} (hm : 0 < pep.maxPktSize.toNat) {k : BitVec 16}
    {h us : List Launch} {s s' : OutSt} (hI : Sending pep data h s)
    (hr : Client.Runs (outBody k s) us (.inl s')) : Sending pep data (h ++ us) s' := by
  by_cases hs : s.left = []
  · rw [outBody, if_pos hs] at hr
    obtain ⟨-, he⟩ := Client.runs_pure.mp hr
    cases he
  obtain ⟨r, hp, hx⟩ := runs_outBody hs hr
  obtain ⟨brk, pep', t⟩ := r
  cases brk with
  | true => cases hx
  | false =>
    obtain rfl := Sum.inl.inj hx
    obtain ⟨sent, hdata, hsub, hiff⟩ := hI.parts
    have hmax : s.pep.maxPktSize = pep.maxPktSize := by rw [hI.same]
    have hpkt : (s.left.take s.pep.maxPktSize.toNat).length ≠ 0 := by
      have hpos := List.length_pos_of_ne_nil hs
      rw [List.length_take, hmax]
      omega
    have hsplit : data = (sent ++ s.left.take s.pep.maxPktSize.toNat) ++
        s.left.drop s.pep.maxPktSize.toNat := by
      rw [List.append_assoc, List.take_append_drop, hdata]
    have hsame : pep' = { pep with bmSndToggle := pep'.bmSndToggle } := by
      have h1 : pep' = { s.pep with bmSndToggle := pep'.bmSndToggle } := hp.same
      rw [h1, hI.same]
    by_cases h0 : t.hrslt = 0
    · obtain ⟨hdel, htime⟩ := hp.acked rfl h0
      refine ⟨hsame, fun _ => h0, _, hsplit, ?_, ?_⟩
      · rw [delivered_append, hdel]
        exact hsub.append_right _
      · rw [delivered_append, hdel, List.append_left_inj, inTime_append, hiff]
        exact (and_iff_left htime).symm
    · obtain ⟨hdel, htime⟩ := hp.passed rfl h0
      have hnot : ¬ InTime (h ++ us) := fun hin => htime (inTime_append.mp hin).2
      refine ⟨hsame, fun hin => absurd hin hnot, _, hsplit, ?_, ?_⟩
      · rw [delivered_append, hdel, List.append_nil]
        exact hsub.trans (List.sublist_append_left _ _)
      · rw [delivered_append, hdel, List.append_nil]
        refine ⟨fun he => ?_, fun hin => absurd hin hnot⟩
        have hlen := hsub.length_le
        rw [he, List.length_append] at hlen
        omega

/-- **What an OUT transfer does.** -/
theorem outTransfer_runs {pep : EpInfo} {k : BitVec 16} {data : List Byte} {hrsl : Byte}
    (hm : ¬ (pep.maxPktSize < 1 ∨ pep.maxPktSize > 64)) {us : List Launch} {r : Byte × EpInfo}
    (h : Client.Runs (outTransfer pep k data hrsl) us r) :
    OutDone data us r.1 ∧ r.2 = { pep with bmSndToggle := r.2.bmSndToggle } := by
  have hpos : 0 < pep.maxPktSize.toNat := by
    rw [not_or, BitVec.not_lt, BitVec.le_def] at hm
    exact hm.1
  rw [outTransfer, if_neg hm] at h
  obtain ⟨us₁, s, us₂, rfl, hI, hlast⟩ := ((outTransfer_loop k).runs_loop.mp h).inv
    (I := Sending pep data) (fun h s us s' hI hr => sending_step hpos hI hr)
    ⟨rfl, fun _ => rfl, [], rfl, List.Sublist.refl _, iff_of_true rfl fun t ht => by cases ht⟩
  obtain ⟨sent, hdata, hsub, hiff⟩ := hI.parts
  by_cases hs : s.left = []
  · rw [outBody, if_pos hs] at hlast
    obtain ⟨rfl, hx⟩ := Client.runs_pure.mp hlast
    obtain rfl := Sum.inr.inj hx
    rw [hs, List.append_nil] at hdata
    subst hdata
    rw [List.append_nil]
    refine ⟨⟨hsub, fun hin => ⟨[], ?_, iff_of_true (hI.code hin) rfl⟩, fun _ => hiff⟩, ?_⟩
    · rw [List.append_nil]; exact (hiff.mpr hin).symm
    · show _ = { pep with bmSndToggle := _ }
      rw [hI.same]
  · obtain ⟨x, hp, hx⟩ := runs_outBody hs hlast
    obtain ⟨brk, pep', t⟩ := x
    cases brk with
    | false => cases hx
    | true =>
      obtain rfl := Sum.inr.inj hx
      obtain ⟨hne, hdel, htime⟩ := hp.broken rfl
      have hall : delivered (us₁ ++ us₂) = delivered us₁ := by
        rw [delivered_append, hdel, List.append_nil]
      refine ⟨⟨?_, fun hin => ⟨s.left, ?_, iff_of_false hne hs⟩, fun h0 => absurd h0 hne⟩, ?_⟩
      · rw [hall, hdata]; exact hsub.trans (List.sublist_append_left _ _)
      · rw [hall, hiff.mpr (inTime_append.mp hin).1]; exact hdata
      · have h1 : pep' = { s.pep with bmSndToggle := pep'.bmSndToggle } := hp.same
        show { pep' with bmSndToggle := _ } = { pep with bmSndToggle := _ }
        rw [h1, hI.same]

/-- **An OUT transfer**: what it has delivered, and what its code says of that. -/
theorem outTransfer_exact {pep : EpInfo} {k : BitVec 16} {data : List Byte} {hrsl : Byte}
    (hm : ¬ (pep.maxPktSize < 1 ∨ pep.maxPktSize > 64)) {ts rest : List Launch} {rcode : Byte}
    {pep' : EpInfo} (h : outTransfer pep k data hrsl ts = some ((rcode, pep'), rest)) :
    ∃ us, ts = us ++ rest ∧ OutDone data us rcode ∧
      pep' = { pep with bmSndToggle := pep'.bmSndToggle } := by
  obtain ⟨us, rfl, hr⟩ := local_outTransfer pep k data hrsl ts _ rest h
  exact ⟨us, rfl, outTransfer_runs hm hr⟩

/-- A launch at endpoint 2. -/
def epOut (hrsl : Byte) (late : Bool) (data : List Byte) : Launch :=
  ⟨.tokOUT data, 2, hrsl, false, [], late, empty_fits⟩

/-- Endpoint 2, with packets of four bytes. -/
def four : EpInfo := ⟨2, 4, false, false, 1⟩

/-- The first of two packets is not answered before the time is over. -/
def late : List Launch :=
  [epOut hrTIMEOUT false [1, 2, 3, 4], epOut hrTIMEOUT true [1, 2, 3, 4], epOut 0 true [5, 6]]

theorem outTransfer_exact_late : ∃ us, late = us ++ [] ∧ OutDone [1, 2, 3, 4, 5, 6] us 0 ∧
    four = { four with bmSndToggle := four.bmSndToggle } :=
  outTransfer_exact (k := 1) (by decide)
    (show outTransfer four 1 [1, 2, 3, 4, 5, 6] 0 late = some ((0, four), []) from rfl)

example : delivered late = [5, 6] := by decide

end SonicCraft.L2.Usb
