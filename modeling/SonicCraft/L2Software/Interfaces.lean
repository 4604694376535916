import SonicCraft.L2Software.Descriptors

/-!
# What the parser finds in a configuration

Over any bytes `parse_sane` bounds what a device can make of the endpoint table.
Over a configuration (a configuration descriptor, then interfaces with their
endpoints, descriptors of other types anywhere between) `parse_configuration`
says which endpoints are taken: interface after interface of those the search is
for, until one of them has two; the endpoints of the interfaces before stay in
the table, but only the last interface looked at is counted.
-/
namespace SonicCraft.L2.DescParser
open Usb

/-! ## Over any bytes -/

/-- What no descriptor can break. -/
structure Sane (t : EpTable) (f : Found) : Prop where
  few : f.nEPs.toNat ≤ 2
  bounded : f.epInfo.Bounded
  control : f.epInfo 0 = t 0

theorem index_ne_zero (pep : EndpointDescriptor) : pep.index ≠ 0 := by
  unfold EndpointDescriptor.index
  split <;> decide

theorem Sane.of_enter {t : EpTable} {f : Found} {type : Byte} (h : Sane t f) :
    Sane t (enter type f) := by
  unfold enter
  split
  · exact ⟨h.few, h.bounded, h.control⟩
  · exact h

theorem Sane.onInterface {t : EpTable} {f : Found} (c : Cfg) (buf : VarBuf) (h : Sane t f) :
    Sane t (onInterface c buf f) := by
  unfold DescParser.onInterface
  split
  · exact h
  · refine ⟨?_, h.bounded, h.control⟩
    have := h.few
    show (if f.nEPs < 2 then 0 else f.nEPs).toNat ≤ 2
    split
    · decide
    · exact this

theorem Sane.onEndpoint {t : EpTable} {f : Found} (c : Cfg) (buf : VarBuf) (h : Sane t f) :
    Sane t (onEndpoint c buf f) := by
  unfold DescParser.onEndpoint
  split
  · rename_i hg
    have hlt : f.nEPs.toNat < 2 := by
      rw [Bool.and_eq_true, decide_eq_true_eq, BitVec.lt_def] at hg
      exact hg.2
    refine ⟨?_, bounded_xtract _ _ h.bounded, ?_⟩
    · show (if _ then f.nEPs + 1 else f.nEPs).toNat ≤ 2
      split
      · rw [BitVec.toNat_add]; simp only [BitVec.ofNat_eq_ofNat, BitVec.toNat_ofNat]; omega
      · omega
    · show (endpointXtract _ _ f.epInfo).2 0 = t 0
      unfold endpointXtract
      split
      · rw [← h.control]
        exact Function.update_of_ne (index_ne_zero _).symm _ _
      · exact h.control
  · exact h

theorem Sane.handle {t : EpTable} (c : Cfg) (x : VarBuf × Found) (p : List Byte) (h : Sane t x.2) :
    Sane t (handle c x p).2 := by
  unfold DescParser.handle
  split
  · rename_i l type q
    split
    · show Sane t (look c type _ _)
      unfold look
      split
      · exact ⟨h.of_enter.few, h.of_enter.bounded, h.of_enter.control⟩
      · split
        · exact h.of_enter.onInterface c _
        · exact h.of_enter.onEndpoint c _
    · exact h
  · exact h

/-- **Whatever the device sends**, cut into chunks in any way: the record of
endpoint 0 is as it was, the data records ask for no more than `recvBuf` holds,
and no more than two endpoints are counted. -/
theorem parse_sane (c : Cfg) (mem : VarBuf) (confValue : Byte) (isGood : Bool) {epInfo : EpTable}
    (hb : epInfo.Bounded) {chunks : List (List Byte)} {s : St}
    (hs : chunks.foldlM (parse c) (init mem confValue isGood epInfo) = some s) :
    Sane epInfo s.found := by
  obtain ⟨h1, h2⟩ := parse_chunks c mem confValue isGood epInfo chunks
  by_cases hf : (cut chunks.flatten).Fits Room
  · obtain ⟨s', hs', hfound⟩ := h1 hf
    obtain rfl : s' = s := Option.some.inj (hs'.symm.trans hs)
    rw [hfound]
    apply Sane.of_enter
    exact exec_inv (f := handle c) (I := fun x => Sane epInfo x.2)
      (fun x p h => h.handle c x p) (cut chunks.flatten).frames _ ⟨Nat.zero_le 2, hb, rfl⟩
  · rw [h2 hf] at hs
    cases hs

/-- An IN endpoint that asks for 1023 bytes, in two chunks. -/
theorem parse_sane_oversized : ∃ s : St,
    Sane (EpTable.init fun _ => ⟨0, 0, false, false, 0⟩) s.found ∧
    (s.found.epInfo epDataInIndex).maxPktSize = 64 :=
  ⟨_, parse_sane ⟨true, 3⟩ (fun _ => 0) 0 true (EpTable.bounded_init fun _ => ⟨0, 0, false, false, 0⟩)
    (show [[7, 5, 0x81, 2], [0xff, 3, 0]].foldlM _ _ = some _ from rfl), rfl⟩

/-! ## Descriptors with their fields -/

/-- How far the parser looks into a descriptor of a type. -/
def fields (t : Byte) : Nat :=
  if t = configuration then 6 else if t = interface then 7 else if t = endpoint then 6 else 2

/-- A descriptor that has the fields of its type and room in `varBuffer`. -/
structure Descriptor where
  bytes : List Byte
  whole : descriptors.Whole bytes
  room : Room bytes
  long : fields (bytes.getD 1 0) ≤ bytes.length

namespace Descriptor

def field (d : Descriptor) (i : Nat) : Byte := d.bytes.getD i 0

/-- `bDescriptorType` -/
def type (d : Descriptor) : Byte := d.field 1

/-- An endpoint descriptor's fields; words are little-endian. -/
def endpoint (d : Descriptor) : EndpointDescriptor where
  bEndpointAddress := d.field 2
  bmAttributes := d.field 3
  wMaxPacketSize := d.field 5 ++ d.field 4

theorem put_field (d : Descriptor) (buf : VarBuf) (i : Fin 16) (h : (i : Nat) < fields d.type) :
    buf.put d.bytes i = d.field i := by
  have hi : (i : Nat) < d.bytes.length := Nat.lt_of_lt_of_le h d.long
  rw [Buffer.put_lt buf hi, field, List.getD_eq_getElem _ _ hi]
  rfl

end Descriptor

/-- What a descriptor does, from its own fields. -/
def take (c : Cfg) (f : Found) (d : Descriptor) : Found :=
  if d.type = configuration then { f with confValue := d.field 5 }
  else if d.type = interface then
    if c.isMidiSearch && !isMidiStreaming (d.field 5) (d.field 6) then
      { f with isGoodInterface := false }
    else { f with isGoodInterface := true, nEPs := if f.nEPs < 2 then 0 else f.nEPs }
  else if d.type = endpoint then
    if f.isGoodInterface && f.nEPs < 2 && d.endpoint.selected c.bTransferTypeMask then
      { f with epInfo := Function.update f.epInfo d.endpoint.index
                 (d.endpoint.fill (f.epInfo d.endpoint.index))
               nEPs := f.nEPs + 1 }
    else f
  else f

/-- Old bytes of `varBuffer` are not looked at. -/
theorem handle_take (c : Cfg) (x : VarBuf × Found) (d : Descriptor) :
    (handle c x d.bytes).2 = take c x.2 d := by
  obtain ⟨l, t, q, hq⟩ := exists_header d.whole.head_le
  have ht : d.type = t := by rw [Descriptor.type, Descriptor.field, hq]; rfl
  have hf := d.put_field x.1
  rw [hq, handle, ← hq]
  unfold take
  rw [ht] at hf ⊢
  by_cases h1 : t = configuration
  · subst h1
    have h5 : Buffer.put x.1 d.bytes 5 = d.field 5 := hf 5 (by decide)
    rw [if_pos (.inl rfl), if_pos rfl]
    show { enter configuration x.2 with confValue := x.1.put d.bytes 5 } = _
    rw [h5]; rfl
  · by_cases h2 : t = interface
    · subst h2
      have h5 : Buffer.put x.1 d.bytes 5 = d.field 5 := hf 5 (by decide)
      have h6 : Buffer.put x.1 d.bytes 6 = d.field 6 := hf 6 (by decide)
      rw [if_pos (.inr (.inl rfl)), if_neg h1, if_pos rfl]
      show onInterface c (x.1.put d.bytes) { x.2 with isGoodInterface := false } = _
      unfold onInterface
      rw [h5, h6]
    · by_cases h3 : t = endpoint
      · subst h3
        have h2' : Buffer.put x.1 d.bytes 2 = d.field 2 := hf 2 (by decide)
        have h3' : Buffer.put x.1 d.bytes 3 = d.field 3 := hf 3 (by decide)
        have h4 : Buffer.put x.1 d.bytes 4 = d.field 4 := hf 4 (by decide)
        have h5 : Buffer.put x.1 d.bytes 5 = d.field 5 := hf 5 (by decide)
        rw [if_pos (.inr (.inr rfl)), if_neg h1, if_neg h2, if_pos rfl]
        have hpep : endpointDescriptor (x.1.put d.bytes) = d.endpoint := by
          unfold endpointDescriptor Descriptor.endpoint
          rw [h2', h3', h4, h5]
        show onEndpoint c (x.1.put d.bytes) x.2 = _
        unfold onEndpoint endpointXtract
        rw [hpep]
        cases hg : x.2.isGoodInterface && decide (x.2.nEPs < 2) <;>
          cases hs : d.endpoint.selected c.bTransferTypeMask <;> simp
      · have hb : ¬ Buffered t := by
          rintro (h | h | h)
          · exact h1 h
          · exact h2 h
          · exact h3 h
        rw [if_neg hb, if_neg h1, if_neg h2, if_neg h3]

/-! ## Interfaces -/

/-- An interface descriptor and what follows it, up to the next one. -/
structure Interface where
  head : Descriptor
  rest : List Descriptor
  is : head.type = interface
  within : ∀ d ∈ rest, d.type ≠ configuration ∧ d.type ≠ interface

/-- The search is for this interface. -/
def Interface.good (c : Cfg) (i : Interface) : Bool :=
  !c.isMidiSearch || isMidiStreaming (i.head.field 5) (i.head.field 6)

/-- The endpoints of the transfer type the driver asks for. -/
def selected (c : Cfg) (ds : List Descriptor) : List EndpointDescriptor :=
  ((ds.filter fun d => d.type == endpoint).map Descriptor.endpoint).filter
    fun pep => pep.selected c.bTransferTypeMask

/-- The record of an endpoint's direction takes its fields. -/
def record (t : EpTable) (pep : EndpointDescriptor) : EpTable :=
  Function.update t pep.index (pep.fill (t pep.index))

variable (c : Cfg)

theorem selected_cons (d : Descriptor) (ds : List Descriptor) : selected c (d :: ds) =
    (if d.type = endpoint ∧ d.endpoint.selected c.bTransferTypeMask then [d.endpoint] else []) ++
      selected c ds := by
  unfold selected
  by_cases h1 : d.type = endpoint
  · by_cases h2 : d.endpoint.selected c.bTransferTypeMask = true <;> simp [h1, h2]
  · simp [h1]

/-- In an interface nothing is searched in, or once two endpoints are found. -/
theorem take_idle {f : Found} {d : Descriptor} (hd : d.type ≠ configuration ∧ d.type ≠ interface)
    (h : f.isGoodInterface = false ∨ ¬ f.nEPs < 2) : take c f d = f := by
  unfold take
  rw [if_neg hd.1, if_neg hd.2]
  split
  · rw [if_neg]
    rw [Bool.and_eq_true, Bool.and_eq_true, decide_eq_true_eq]
    rintro ⟨⟨h1, h2⟩, -⟩
    rcases h with h | h
    · rw [h] at h1; cases h1
    · exact h h2
  · rfl

theorem rest_idle {f : Found} {ds : List Descriptor}
    (hd : ∀ d ∈ ds, d.type ≠ configuration ∧ d.type ≠ interface)
    (h : f.isGoodInterface = false ∨ ¬ f.nEPs < 2) : ds.foldl (take c) f = f := by
  induction ds with
  | nil => rfl
  | cons d ds ih =>
    rw [List.foldl_cons, take_idle c (hd d List.mem_cons_self) h]
    exact ih fun d hm => hd d (List.mem_cons_of_mem _ hm)

/-- An endpoint that is taken. -/
theorem take_endpoint {f : Found} {d : Descriptor} (hg : f.isGoodInterface = true)
    (hn : f.nEPs < 2) (hd : d.type = endpoint)
    (hs : d.endpoint.selected c.bTransferTypeMask = true) :
    take c f d = { f with epInfo := record f.epInfo d.endpoint, nEPs := f.nEPs + 1 } := by
  unfold take
  rw [hd, if_neg (by decide), if_neg (by decide), if_pos rfl, hg, hs, decide_eq_true hn]
  rfl

theorem take_other {f : Found} {d : Descriptor}
    (hd : d.type ≠ configuration ∧ d.type ≠ interface)
    (hs : ¬ (d.type = endpoint ∧ d.endpoint.selected c.bTransferTypeMask = true)) :
    take c f d = f := by
  unfold take
  rw [if_neg hd.1, if_neg hd.2]
  split
  · rename_i he
    rw [if_neg]
    rw [Bool.and_eq_true]
    exact fun h => hs ⟨he, h.2⟩
  · rfl

/-- The endpoints of an interface the search is for: `m` of them are still wanted. -/
theorem rest_good {f : Found} {ds : List Descriptor} {k m : Nat}
    (hd : ∀ d ∈ ds, d.type ≠ configuration ∧ d.type ≠ interface) (hg : f.isGoodInterface = true)
    (hk : k + m = 2) (hn : f.nEPs = BitVec.ofNat 8 k) :
    ds.foldl (take c) f =
      { f with nEPs := BitVec.ofNat 8 (k + ((selected c ds).take m).length)
               epInfo := ((selected c ds).take m).foldl record f.epInfo } := by
  induction ds generalizing f k m with
  | nil => simp [selected, ← hn]
  | cons d ds ih =>
    have hd' := hd d List.mem_cons_self
    have hds : ∀ d ∈ ds, d.type ≠ configuration ∧ d.type ≠ interface :=
      fun d hm => hd d (List.mem_cons_of_mem _ hm)
    cases m with
    | zero =>
      have hfull : ¬ f.nEPs < 2 := by
        obtain rfl : k = 2 := hk
        rw [hn]; decide
      rw [rest_idle c hd (.inr hfull), List.take_zero, List.foldl_nil, List.length_nil, Nat.add_zero,
        ← hn]
    | succ m =>
      by_cases hs : d.type = endpoint ∧ d.endpoint.selected c.bTransferTypeMask = true
      · have hlt : f.nEPs < 2 := by
          rw [hn, BitVec.lt_def]
          simp only [BitVec.toNat_ofNat, BitVec.ofNat_eq_ofNat]
          omega
        have hn' : f.nEPs + 1 = BitVec.ofNat 8 (k + 1) := by rw [hn, BitVec.ofNat_add]; rfl
        have hlen : k + (((selected c ds).take m).length + 1) =
            k + 1 + ((selected c ds).take m).length := by omega
        rw [List.foldl_cons, take_endpoint c hg hlt hs.1 hs.2, selected_cons, if_pos hs, hn',
          List.singleton_append, List.take_succ_cons, List.length_cons, List.foldl_cons, hlen]
        exact ih hds hg (by omega) rfl
      · rw [List.foldl_cons, take_other c hd' hs, selected_cons, if_neg hs, List.nil_append]
        exact ih hds hg hk hn

/-- What an interface adds. -/
theorem interface_good {f : Found} {i : Interface} (hg : i.good c = true) (hn : f.nEPs < 2) :
    (i.head :: i.rest).foldl (take c) f =
      { f with isGoodInterface := true
               nEPs := BitVec.ofNat 8 ((selected c i.rest).take 2).length
               epInfo := ((selected c i.rest).take 2).foldl record f.epInfo } := by
  have hhead : take c f i.head = { f with isGoodInterface := true, nEPs := 0 } := by
    have hg' : (c.isMidiSearch && !isMidiStreaming (i.head.field 5) (i.head.field 6)) = false := by
      rw [Interface.good, Bool.or_eq_true, Bool.not_eq_true'] at hg
      rcases hg with h | h <;> simp [h]
    unfold take
    rw [i.is, if_neg (by decide), if_pos rfl, hg', if_pos hn]
    rfl
  rw [List.foldl_cons, hhead, rest_good c (k := 0) (m := 2) i.within rfl rfl rfl, Nat.zero_add]

/-- An interface the search is not for, or one after the search has ended. -/
theorem interface_idle {f : Found} {i : Interface} (h : i.good c = false ∨ ¬ f.nEPs < 2) :
    (i.head :: i.rest).foldl (take c) f = { f with isGoodInterface := i.good c } := by
  have hhead : take c f i.head = { f with isGoodInterface := i.good c } := by
    unfold take
    rw [i.is, if_neg (by decide), if_pos rfl]
    cases hg : i.good c with
    | false =>
      rw [Interface.good, Bool.or_eq_false_iff] at hg
      rw [if_pos (by simpa using hg)]
    | true =>
      have hn : ¬ f.nEPs < 2 := h.resolve_left (by rw [hg]; decide)
      rw [Interface.good, Bool.or_eq_true, Bool.not_eq_true'] at hg
      rw [if_neg (by rcases hg with h | h <;> simp [h]), if_neg hn]
  rw [List.foldl_cons, hhead]
  apply rest_idle c i.within
  exact h

/-! ## Configurations -/

/-- The groups up to the first one with two members, of which two are taken. -/
def upToFull {α : Type} : List (List α) → List (List α)
  | [] => []
  | es :: rest => if es.length < 2 then es :: upToFull rest else [es.take 2]

/-- The endpoints taken, interface by interface. -/
def searched (is : List Interface) : List (List EndpointDescriptor) :=
  upToFull ((is.filter (Interface.good c)).map fun i => selected c i.rest)

/-- All the descriptors of interfaces. -/
def inside (is : List Interface) : List Descriptor := is.flatMap fun i => i.head :: i.rest

/-- Once two endpoints are found. -/
theorem inside_full {f : Found} (is : List Interface) (hn : ¬ f.nEPs < 2) :
    (inside is).foldl (take c) f =
      { f with isGoodInterface := (is.map (Interface.good c)).getLastD f.isGoodInterface } := by
  induction is generalizing f with
  | nil => rfl
  | cons i is ih =>
    rw [inside, List.flatMap_cons, List.foldl_append, interface_idle c (.inr hn)]
    rw [← inside, ih (f := { f with isGoodInterface := i.good c }) hn, List.map_cons, List.getLastD_cons]

/-- The search over interfaces; `es` are the endpoints of the last one so far. -/
theorem inside_found {f : Found} (is : List Interface) (es : List EndpointDescriptor)
    (hes : es.length < 2) (hn : f.nEPs = BitVec.ofNat 8 es.length) :
    (inside is).foldl (take c) f =
      { f with isGoodInterface := (is.map (Interface.good c)).getLastD f.isGoodInterface
               nEPs := BitVec.ofNat 8 ((searched c is).getLastD es).length
               epInfo := (searched c is).flatten.foldl record f.epInfo } := by
  induction is generalizing f es with
  | nil => simp [inside, searched, upToFull, ← hn]
  | cons i is ih =>
    have hlt : f.nEPs < 2 := by
      rw [hn, BitVec.lt_def]
      simp only [BitVec.toNat_ofNat, BitVec.ofNat_eq_ofNat]
      omega
    rw [inside, List.flatMap_cons, List.foldl_append, ← inside, List.map_cons, List.getLastD_cons]
    cases hg : i.good c with
    | false =>
      have hs : searched c (i :: is) = searched c is := by
        unfold searched; rw [List.filter_cons_of_neg (by rw [hg]; decide)]
      rw [interface_idle c (.inl hg), hs, hg]
      exact ih es hes hn
    | true =>
      have hs : searched c (i :: is) = if (selected c i.rest).length < 2
          then selected c i.rest :: searched c is else [(selected c i.rest).take 2] := by
        unfold searched; rw [List.filter_cons_of_pos hg]; rfl
      rw [interface_good c hg hlt, hs]
      by_cases hfew : (selected c i.rest).length < 2
      · rw [if_pos hfew, List.take_of_length_le (by omega), List.getLastD_cons, List.flatten_cons,
          List.foldl_append]
        exact ih (selected c i.rest) hfew rfl
      · have hlen : ((selected c i.rest).take 2).length = 2 := by
          rw [List.length_take]; omega
        rw [if_neg hfew, hlen, List.getLastD_cons, List.getLastD_nil, hlen, List.flatten_singleton]
        exact inside_full c is (show ¬ (2#8 < 2) by decide)

/-- A configuration descriptor, others the parser skips, and the interfaces. -/
structure Configuration where
  head : Descriptor
  others : List Descriptor
  interfaces : List Interface
  is : head.type = configuration
  skipped : ∀ d ∈ others, ¬ Buffered d.type

def Configuration.descriptors (conf : Configuration) : List Descriptor :=
  conf.head :: (conf.others ++ inside conf.interfaces)

/-- What the device sends. -/
def Configuration.bytes (conf : Configuration) : List Byte :=
  (conf.descriptors.map Descriptor.bytes).flatten

/-- What the search is to find, when the endpoint table was `epInfo` before. -/
def Configuration.found (conf : Configuration) (isGood : Bool) (epInfo : EpTable) : Found where
  confValue := conf.head.field 5
  isGoodInterface := (conf.interfaces.map (Interface.good c)).getLastD isGood
  nEPs := BitVec.ofNat 8 ((searched c conf.interfaces).getLastD []).length
  epInfo := (searched c conf.interfaces).flatten.foldl record epInfo

theorem others_idle {f : Found} {ds : List Descriptor} (h : ∀ d ∈ ds, ¬ Buffered d.type) :
    ds.foldl (take c) f = f := by
  induction ds with
  | nil => rfl
  | cons d ds ih =>
    have hd : ¬ (_ ∨ _ ∨ _) := h d List.mem_cons_self
    rw [not_or, not_or] at hd
    have hstep : take c f d = f := by
      unfold take
      rw [if_neg hd.1, if_neg hd.2.1, if_neg hd.2.2]
    rw [List.foldl_cons, hstep]
    exact ih fun d hm => h d (List.mem_cons_of_mem _ hm)

theorem configuration_found (conf : Configuration) (confValue : Byte) (isGood : Bool)
    (epInfo : EpTable) : conf.descriptors.foldl (take c) ⟨confValue, isGood, 0, epInfo⟩ =
      conf.found c isGood epInfo := by
  have hhead : take c ⟨confValue, isGood, 0, epInfo⟩ conf.head =
      ⟨conf.head.field 5, isGood, 0, epInfo⟩ := by
    unfold take
    rw [if_pos conf.is]
  rw [Configuration.descriptors, List.foldl_cons, hhead, List.foldl_append,
    others_idle c conf.skipped]
  exact inside_found c conf.interfaces [] (by decide) rfl

/-- Handling the frames is taking the descriptors. -/
theorem frames_take (x : VarBuf × Found) (ds : List Descriptor) :
    ((ds.map Descriptor.bytes).foldl (handle c) x).2 = ds.foldl (take c) x.2 := by
  induction ds generalizing x with
  | nil => rfl
  | cons d ds ih =>
    rw [List.map_cons, List.foldl_cons, List.foldl_cons, ih, handle_take]

theorem cut_bytes (conf : Configuration) :
    cut conf.bytes = ⟨conf.descriptors.map Descriptor.bytes, []⟩ := by
  have hw : ∀ f ∈ conf.descriptors.map Descriptor.bytes, descriptors.Whole f := by
    intro f hf
    obtain ⟨d, -, rfl⟩ := List.mem_map.mp hf
    exact d.whole
  have h := descriptors.split_flatten hw descriptors.open_nil
  rw [List.append_nil] at h
  exact h

theorem bytes_fit (conf : Configuration) : (cut conf.bytes).Fits Room := by
  rw [cut_bytes]
  refine ⟨fun f hf => ?_, (by decide : Room [])⟩
  obtain ⟨d, -, rfl⟩ := List.mem_map.mp hf
  exact d.room

/-- **Reading a configuration**, in chunks that end anywhere, with anything in
memory before: the parser stays in its buffer and finds what is there. -/
theorem parse_configuration (mem : VarBuf) (confValue : Byte) (isGood : Bool) (epInfo : EpTable)
    (conf : Configuration) {chunks : List (List Byte)} (h : chunks.flatten = conf.bytes) :
    ∃ s, chunks.foldlM (parse c) (init mem confValue isGood epInfo) = some s ∧
      s.found = conf.found c isGood epInfo := by
  have h1 := (parse_chunks c mem confValue isGood epInfo chunks).1
  rw [h, cut_bytes, frames_take, configuration_found, ← cut_bytes] at h1
  obtain ⟨s, hs, hfound⟩ := h1 (bytes_fit conf)
  rw [cut_bytes] at hfound
  exact ⟨s, hs, hfound⟩

/-- A keyboard: an audio control interface, then MIDI streaming with an IN and an
OUT endpoint and class-specific descriptors between. -/
def keyboard : Configuration where
  head := ⟨[9, 2, 57, 0, 2, 1, 0, 128, 50], by decide, by decide, by decide⟩
  others := []
  interfaces :=
    [{ head := ⟨[9, 4, 0, 0, 0, 1, 1, 0, 0], by decide, by decide, by decide⟩
       rest := [⟨[9, 0x24, 1, 0, 1, 9, 0, 1, 1], by decide, by decide, by decide⟩]
       is := by decide
       within := by decide },
     { head := ⟨[9, 4, 1, 0, 2, 1, 3, 0, 0], by decide, by decide, by decide⟩
       rest := [⟨[7, 5, 0x81, 2, 64, 0, 0], by decide, by decide, by decide⟩,
         ⟨[5, 0x25, 1, 1, 1], by decide, by decide, by decide⟩,
         ⟨[9, 5, 0x02, 2, 64, 0, 0, 0, 0], by decide, by decide, by decide⟩]
       is := by decide
       within := by decide }]
  is := by decide
  skipped := by decide

/-- In chunks of 8 and more. -/
theorem parse_configuration_keyboard :
    ∃ s, [keyboard.bytes.take 8, keyboard.bytes.drop 8].foldlM (parse ⟨true, 3⟩)
      (init (fun _ => 0) 0 false (EpTable.init fun _ => ⟨0, 0, false, false, 0⟩)) = some s ∧
      s.found = keyboard.found ⟨true, 3⟩ false (EpTable.init fun _ => ⟨0, 0, false, false, 0⟩) :=
  parse_configuration ⟨true, 3⟩ _ _ _ _ keyboard (by simp)

end SonicCraft.L2.DescParser
