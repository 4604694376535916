import SonicCraft.L2Software.DescParser

/-!
# The descriptor parser sees a stream of descriptors

The two bytes of a descriptor's header say how many follow, so a configuration is
a stream of frames (`SonicCraft.Framing`). The arithmetic is the parser's own: a
length below 2 wraps, at 8 bits for a descriptor that is copied into `varBuffer`
and at 16 bits for one that is skipped.

`Parked` is what the parser keeps between two chunks. `reads_descriptors` says
what one call of `ParseDescriptor` does; from it, over any chunks:

* `parse_chunks`: the parser handles every descriptor of the stream once and in
  order, wherever the chunks end;
* it leaves `varBuffer` exactly when a descriptor it copies has more than 16
  bytes, by then.
-/
namespace SonicCraft.L2.DescParser
open Usb

/-- The types that are copied into `varBuffer`. -/
def Buffered (t : Byte) : Prop := t = configuration ∨ t = interface ∨ t = endpoint

instance (t : Byte) : Decidable (Buffered t) := inferInstanceAs (Decidable (_ ∨ _))

/-- Bytes after the header. -/
def bodyLen (len type : Byte) : Nat :=
  if Buffered type then (len - 2).toNat else (len.setWidth 16 - 2#16).toNat

/-- A configuration as a stream of descriptors. -/
def descriptors : Framing Byte where
  head := 2
  body h := bodyLen (h.getD 0 0) (h.getD 1 0)
  head_pos := by decide

/-- There is room for the descriptor. -/
def Room (p : List Byte) : Prop := Buffered (p.getD 1 0) → p.length ≤ 16

instance (p : List Byte) : Decidable (Room p) := inferInstanceAs (Decidable (_ → _))

/-- The descriptors and the beginning of one more that a stream holds. -/
abbrev cut (bs : List Byte) : Framing.Split Byte := descriptors.split bs

theorem room_mono (p q : List Byte) (h : p <+: q) (hq : Room q) : Room p := by
  intro hp
  obtain ⟨r, rfl⟩ := h
  have hlen : 1 < p.length := by
    by_contra hlt
    rw [List.getD_eq_default _ _ (by omega)] at hp
    exact absurd hp (by decide)
  have h1 := hq (by rwa [List.getD_append _ _ _ _ hlen])
  rw [List.length_append] at h1; omega

theorem size_cons (l t : Byte) (q : List Byte) : descriptors.size (l :: t :: q) = 2 + bodyLen l t :=
  rfl

theorem whole_cons {l t : Byte} {q : List Byte} :
    descriptors.Whole (l :: t :: q) ↔ q.length = bodyLen l t := by
  unfold Framing.Whole
  rw [size_cons, List.length_cons, List.length_cons]; omega

theorem open_cons {l t : Byte} {q : List Byte} :
    descriptors.Open (l :: t :: q) ↔ q.length < bodyLen l t := by
  unfold Framing.Open
  rw [size_cons, List.length_cons, List.length_cons]
  exact ⟨fun h => by have := h (by show 2 ≤ _; omega); omega, fun h _ => by omega⟩

/-- A descriptor has a header. -/
theorem exists_header {p : List Byte} (h : 2 ≤ p.length) : ∃ l t q, p = l :: t :: q := by
  match p, h with
  | l :: t :: q, _ => exact ⟨l, t, q, rfl⟩

/-! ## Copying into `varBuffer` -/

/-- The value parser is about to write at the end of `p`. -/
structure Reading (v : MultiByteValueParser) (p : List Byte) : Prop where
  pos : v.pBuf + v.valueSize.toNat = p.length + v.countDown.toNat
  le : v.countDown.toNat ≤ v.valueSize.toNat

theorem Reading.offset {v : MultiByteValueParser} {p : List Byte} (h : Reading v p) :
    v.pBuf + (v.valueSize - v.countDown).toNat = p.length := by
  have h1 := h.pos
  have h2 := h.le
  have h3 := v.valueSize.isLt
  rw [BitVec.toNat_sub]; omega

theorem Reading.step {v : MultiByteValueParser} {p : List Byte} (h : Reading v p) (b : Byte)
    (hc : v.countDown ≠ 0) : Reading { v with countDown := v.countDown - 1 } (p ++ [b]) := by
  have hpos : (v.countDown - 1).toNat = v.countDown.toNat - 1 := by
    have h1 : v.countDown.toNat ≠ 0 := fun h0 => hc (BitVec.eq_of_toNat_eq h0)
    have h2 := v.countDown.isLt
    rw [BitVec.toNat_sub]; simp only [BitVec.ofNat_eq_ofNat, BitVec.toNat_ofNat]; omega
  have h1 := h.pos
  have h2 := h.le
  have h3 : v.countDown.toNat ≠ 0 := fun h0 => hc (BitVec.eq_of_toNat_eq h0)
  refine ⟨?_, ?_⟩
  · show v.pBuf + v.valueSize.toNat = _ + (v.countDown - 1).toNat
    rw [hpos, List.length_append, List.length_singleton]; omega
  · show (v.countDown - 1).toNat ≤ v.valueSize.toNat
    rw [hpos]; omega

/-- Bytes that are wanted and have room are written. -/
theorem copy_append (buf : VarBuf) (bs₂ : List Byte) : ∀ (bs₁ : List Byte)
    (v : MultiByteValueParser) (p : List Byte), Reading v p → bs₁.length ≤ v.countDown.toNat →
    p.length + bs₁.length ≤ 16 →
    ∃ v', v.copy (buf.put p) (bs₁ ++ bs₂) = v'.copy (buf.put (p ++ bs₁)) bs₂ ∧
      Reading v' (p ++ bs₁) ∧ v'.pBuf = v.pBuf ∧ v'.valueSize = v.valueSize := by
  intro bs₁
  induction bs₁ with
  | nil => intro v p h _ _; exact ⟨v, by rw [List.append_nil]; rfl, by rwa [List.append_nil], rfl, rfl⟩
  | cons b bs₁ ih =>
    intro v p h hle hroom
    rw [List.length_cons] at hle hroom
    have hc : v.countDown ≠ 0 := by
      intro h0
      rw [h0] at hle
      exact absurd hle (by simp)
    have h' := h.step b hc
    have hlen : bs₁.length ≤ (v.countDown - 1).toNat := by
      have h1 := h'.pos
      have h2 := h.pos
      simp only [List.length_append, List.length_singleton] at h1
      omega
    obtain ⟨v', h1, h2, h3, h4⟩ := ih { v with countDown := v.countDown - 1 } (p ++ [b]) h' hlen
      (by rw [List.length_append, List.length_singleton]; omega)
    rw [List.append_assoc, List.singleton_append] at h1 h2
    refine ⟨v', ?_, h2, h3, h4⟩
    rw [List.cons_append, MultiByteValueParser.copy, if_neg hc, h.offset,
      Buffer.store_put buf p b (by omega), Option.bind_some]
    exact h1

/-- The chunk ends before the value does. -/
theorem parse_more {v : MultiByteValueParser} {p bs : List Byte} (buf : VarBuf) (h : Reading v p)
    (hlt : bs.length < v.countDown.toNat) (hroom : p.length + bs.length ≤ 16) :
    ∃ v', v.parse (buf.put p) bs = some (false, v', buf.put (p ++ bs), []) ∧
      Reading v' (p ++ bs) ∧ v'.pBuf = v.pBuf ∧ v'.valueSize = v.valueSize := by
  obtain ⟨v', h1, h2, h3, h4⟩ := copy_append buf [] bs v p h (by omega) hroom
  rw [List.append_nil] at h1
  refine ⟨v', ?_, h2, h3, h4⟩
  have hc : v'.countDown ≠ 0 := by
    intro h0
    have e1 := h2.pos
    have e2 := h.pos
    rw [h0, h3, h4, List.length_append] at e1
    simp only [BitVec.ofNat_eq_ofNat, BitVec.toNat_ofNat] at e1
    omega
  rw [MultiByteValueParser.parse, h1]
  show some (if v'.countDown = 0 then _ else _) = _
  rw [if_neg hc]

/-- The value ends in the chunk. -/
theorem parse_done {v : MultiByteValueParser} {p bs₁ : List Byte} (buf : VarBuf) (bs₂ : List Byte)
    (h : Reading v p) (he : bs₁.length = v.countDown.toNat) (hroom : p.length + bs₁.length ≤ 16) :
    v.parse (buf.put p) (bs₁ ++ bs₂) =
      some (true, { v with countDown := v.valueSize }, buf.put (p ++ bs₁), bs₂) := by
  obtain ⟨v', h1, h2, h3, h4⟩ := copy_append buf bs₂ bs₁ v p h (by omega) hroom
  have hc : v'.countDown = 0 := by
    apply BitVec.eq_of_toNat_eq
    have e1 := h2.pos
    have e2 := h.pos
    rw [h3, h4, List.length_append] at e1
    simp only [BitVec.ofNat_eq_ofNat, BitVec.toNat_ofNat]
    omega
  have hcopy : v'.copy (buf.put (p ++ bs₁)) bs₂ = some (v', buf.put (p ++ bs₁), bs₂) := by
    cases bs₂ with
    | nil => rfl
    | cons b bs₂ => rw [MultiByteValueParser.copy, if_pos hc]
  rw [MultiByteValueParser.parse, h1, hcopy]
  show some (if v'.countDown = 0 then _ else _) = _
  rw [if_pos hc, h3, h4]

/-- A seventeenth byte of the value does not fit. -/
theorem parse_stuck {v : MultiByteValueParser} {p bs₁ : List Byte} (buf : VarBuf)
    (bs₂ : List Byte) (h : Reading v p) (hp : p.length ≤ 16) (hle : bs₁.length ≤ v.countDown.toNat)
    (hroom : 16 < p.length + bs₁.length) : v.parse (buf.put p) (bs₁ ++ bs₂) = none := by
  obtain ⟨a, b, r, rfl, ha⟩ : ∃ a b r, bs₁ = a ++ b :: r ∧ p.length + a.length = 16 := by
    have hlt : 16 - p.length < bs₁.length := by omega
    refine ⟨bs₁.take (16 - p.length), bs₁[16 - p.length], bs₁.drop (16 - p.length + 1), ?_, ?_⟩
    · rw [List.getElem_cons_drop, List.take_append_drop]
    · rw [List.length_take]; omega
  rw [List.length_append, List.length_cons] at hle
  obtain ⟨v', h1, h2, h3, h4⟩ := copy_append buf (b :: r ++ bs₂) a v p h (by omega) (by omega)
  have hc : v'.countDown ≠ 0 := by
    intro h0
    have e1 := h2.pos
    have e2 := h.pos
    rw [h0, h3, h4, List.length_append] at e1
    simp only [BitVec.ofNat_eq_ofNat, BitVec.toNat_ofNat] at e1
    omega
  rw [MultiByteValueParser.parse, List.append_assoc, h1, List.cons_append, MultiByteValueParser.copy,
    if_neg hc, h2.offset, List.length_append, ha, Buffer.store_ge _ b (Nat.le_refl 16)]
  rfl

/-! ## Skipping -/

theorem drop_append (bs₂ : List Byte) : ∀ (bs₁ : List Byte) (k : ByteSkipper),
    bs₁.length ≤ k.countDown.toNat →
    ∃ k' : ByteSkipper, k.drop (bs₁ ++ bs₂) = k'.drop bs₂ ∧ k'.nStage = k.nStage ∧
      k'.countDown.toNat + bs₁.length = k.countDown.toNat := by
  intro bs₁
  induction bs₁ with
  | nil => intro k _; exact ⟨k, rfl, rfl, rfl⟩
  | cons b bs₁ ih =>
    intro k hle
    rw [List.length_cons] at hle
    have hpos : (k.countDown - 1).toNat = k.countDown.toNat - 1 := by
      have h2 := k.countDown.isLt
      rw [BitVec.toNat_sub]; simp only [BitVec.ofNat_eq_ofNat, BitVec.toNat_ofNat]; omega
    have hc : k.countDown ≠ 0 := by
      intro h0
      rw [h0] at hle
      exact absurd hle (by simp)
    have hle' : bs₁.length ≤ (k.countDown - 1).toNat := by omega
    obtain ⟨k', h1, h2, h3⟩ := ih { k with countDown := k.countDown - 1 } hle'
    have h3' : k'.countDown.toNat + bs₁.length = (k.countDown - 1).toNat := h3
    refine ⟨k', ?_, h2, by rw [List.length_cons]; omega⟩
    rw [List.cons_append, ByteSkipper.drop, if_neg hc, h1]

theorem drop_more {k : ByteSkipper} {bs : List Byte} (h : bs.length < k.countDown.toNat) :
    ∃ k' : ByteSkipper, k.drop bs = (false, k', []) ∧ k'.nStage = k.nStage ∧
      k'.countDown.toNat + bs.length = k.countDown.toNat := by
  obtain ⟨k', h1, h2, h3⟩ := drop_append [] bs k (by omega)
  rw [List.append_nil] at h1
  refine ⟨k', ?_, h2, h3⟩
  have hc : k'.countDown ≠ 0 := by
    intro h0
    rw [h0] at h3
    simp only [BitVec.ofNat_eq_ofNat, BitVec.toNat_ofNat] at h3
    omega
  rw [h1, ByteSkipper.drop, if_neg hc]

theorem drop_done {k : ByteSkipper} {bs₁ : List Byte} (bs₂ : List Byte)
    (h : bs₁.length = k.countDown.toNat) :
    ∃ k' : ByteSkipper, k.drop (bs₁ ++ bs₂) = (true, k', bs₂) ∧ k'.nStage = 0 := by
  obtain ⟨k', h1, -, h3⟩ := drop_append bs₂ bs₁ k (by omega)
  have hc : k'.countDown = 0 := by
    apply BitVec.eq_of_toNat_eq
    simp only [BitVec.ofNat_eq_ofNat, BitVec.toNat_ofNat]
    omega
  refine ⟨{ k' with nStage := 0 }, ?_, rfl⟩
  rw [h1]
  cases bs₂ with
  | nil => rw [ByteSkipper.drop, if_pos hc]
  | cons b bs₂ => rw [ByteSkipper.drop, if_pos hc]

/-! ## What a whole descriptor does -/

/-- The case of the inner `switch` of case 4 that looks at a copied descriptor. -/
def look (c : Cfg) (type : Byte) : VarBuf → Found → Found :=
  if type = configuration then onConfiguration
  else if type = interface then onInterface c
  else onEndpoint c

/-- The header of an interface descriptor ends the interface before. -/
def enter (type : Byte) (f : Found) : Found :=
  if type = interface then { f with isGoodInterface := false } else f

/-- A whole descriptor, with what was in `varBuffer` before. -/
def handle (c : Cfg) (x : VarBuf × Found) : List Byte → VarBuf × Found
  | l :: t :: q =>
    if Buffered t then
      (x.1.put (l :: t :: q), look c t (x.1.put (l :: t :: q)) (enter t x.2))
    else (x.1.put [l, t], x.2)
  | _ => x

theorem enter_skipped {t : Byte} (h : ¬ Buffered t) (f : Found) : enter t f = f :=
  if_neg fun ht => h (.inr (.inl ht))

theorem case4_buffered {c : Cfg} {s : St} {bs : List Byte} (h : Buffered s.dscrType) :
    case4 c s bs = s.readBody (look c s.dscrType) bs := by
  unfold case4 look
  split
  · rfl
  · rename_i h1
    split
    · rfl
    · rename_i h2
      rw [if_pos ((h.resolve_left h1).resolve_left h2)]

theorem case4_skipped {c : Cfg} {s : St} {bs : List Byte} (h : ¬ Buffered s.dscrType) :
    case4 c s bs =
      let (ok, k, bs) := s.theSkipper.skip (s.dscrLen.setWidth 16 - 2) bs
      some (if ok then (true, St.done { s with theSkipper := k }, bs)
        else (false, { s with theSkipper := k }, bs)) := by
  unfold Buffered at h
  rw [not_or, not_or] at h
  unfold case4
  rw [if_neg h.1, if_neg h.2.1, if_neg h.2.2]

/-! ## Between two calls -/

/-- In case 4, after the header and `q` of a descriptor. -/
inductive Body (x : VarBuf × Found) : St → List Byte → Prop
  | copying {s : St} {q : List Byte} (ht : Buffered s.dscrType)
      (hst : s.stateParseDescr = .case4) (hk : s.theSkipper.nStage = 0)
      (hv : Reading s.valParser (s.dscrLen :: s.dscrType :: q))
      (hsize : s.valParser.pBuf = 2 ∧ s.valParser.valueSize = s.dscrLen - 2)
      (hb : s.varBuffer = x.1.put (s.dscrLen :: s.dscrType :: q))
      (hf : s.found = enter s.dscrType x.2) : Body x s (s.dscrLen :: s.dscrType :: q)
  | skipping {s : St} {q : List Byte} (ht : ¬ Buffered s.dscrType)
      (hst : s.stateParseDescr = .case4)
      (hk : s.theSkipper.nStage = 0 ∧ q = [] ∨ s.theSkipper.nStage = 1 ∧
        s.theSkipper.countDown.toNat + q.length = bodyLen s.dscrLen s.dscrType)
      (hb : s.varBuffer = x.1.put [s.dscrLen, s.dscrType]) (hf : s.found = x.2) :
      Body x s (s.dscrLen :: s.dscrType :: q)

/-- In case 1, after `p` of the header. -/
structure Header (x : VarBuf × Found) (s : St) (p : List Byte) : Prop where
  stage : s.stateParseDescr = .case1
  pValue : s.theBuffer.pValue = 0
  skipper : s.theSkipper.nStage = 0
  reading : Reading s.valParser p
  size : s.valParser.pBuf = 0 ∧ s.valParser.valueSize = 2
  buf : s.varBuffer = x.1.put p
  found : s.found = x.2

/-- Between two calls: nothing of a descriptor, its first byte, or more of it. -/
inductive Parked : St → VarBuf × Found → List Byte → Prop
  | fresh {s : St} {x : VarBuf × Found} (hst : s.stateParseDescr = .case0)
      (hp : s.theBuffer.pValue = 0) (hk : s.theSkipper.nStage = 0) (hb : s.varBuffer = x.1)
      (hf : s.found = x.2) : Parked s x []
  | length {s : St} {x : VarBuf × Found} {l : Byte} (h : Header x s [l]) : Parked s x [l]
  | body {s : St} {x : VarBuf × Found} {p : List Byte} (h : Body x s p)
      (ho : descriptors.Open p) : Parked s x p

theorem Body.stage {x : VarBuf × Found} {s : St} {p : List Byte} (h : Body x s p) :
    s.stateParseDescr = .case4 := by
  cases h <;> assumption

/-- The bytes still to be copied. -/
theorem Reading.left {v : MultiByteValueParser} {l t : Byte} {q : List Byte}
    (h : Reading v (l :: t :: q)) (hsize : v.pBuf = 2 ∧ v.valueSize = l - 2) (ht : Buffered t) :
    v.countDown.toNat + q.length = bodyLen l t := by
  have h1 := h.pos
  rw [hsize.1, hsize.2, List.length_cons, List.length_cons] at h1
  rw [bodyLen, if_pos ht]; omega

variable (c : Cfg)

/-- `Skip` starts or goes on. -/
theorem skip_eq_drop {k : ByteSkipper} {l t : Byte} {q : List Byte} (ht : ¬ Buffered t)
    (hk : k.nStage = 0 ∧ q = [] ∨ k.nStage = 1 ∧ k.countDown.toNat + q.length = bodyLen l t) :
    ∃ k' : ByteSkipper, (∀ bs, k.skip (l.setWidth 16 - 2) bs = k'.drop bs) ∧ k'.nStage = 1 ∧
      k'.countDown.toNat + q.length = bodyLen l t := by
  rcases hk with ⟨h0, rfl⟩ | ⟨h1, h2⟩
  · refine ⟨⟨k.nStage + 1, l.setWidth 16 - 2⟩, fun bs => ?_, by rw [h0]; rfl, ?_⟩
    · rw [ByteSkipper.skip, if_pos h0]
    · rw [bodyLen, if_neg ht]; rfl
  · refine ⟨k, fun bs => ?_, h1, h2⟩
    rw [ByteSkipper.skip, if_neg (by rw [h1]; decide), if_pos h1]

/-- Case 4, where the chunk ends before the descriptor does. -/
theorem case4_more {x : VarBuf × Found} {s : St} {p bs : List Byte} (h : Body x s p)
    (ho : descriptors.Open (p ++ bs)) (hr : Room (p ++ bs)) :
    ∃ s', case4 c s bs = some (false, s', []) ∧ Body x s' (p ++ bs) := by
  cases h with
  | @copying q ht hst hk hv hsize hb hf =>
    rw [List.cons_append, List.cons_append] at ho hr ⊢
    rw [open_cons, List.length_append] at ho
    have hleft := hv.left hsize ht
    have hroom := hr ht
    simp only [List.length_cons, List.length_append] at hroom
    obtain ⟨v, h1, h2, h3, h4⟩ := parse_more x.1 hv (show bs.length < _ by omega)
      (by simp only [List.length_cons]; omega)
    rw [← hb] at h1
    refine ⟨{ s with valParser := v
                     varBuffer := x.1.put (s.dscrLen :: s.dscrType :: (q ++ bs)) }, ?_, ?_⟩
    · rw [case4_buffered ht, St.readBody, h1]; rfl
    · exact .copying ht hst hk h2 ⟨h3.trans hsize.1, h4.trans hsize.2⟩ rfl hf
  | @skipping q ht hst hk hb hf =>
    rw [List.cons_append, List.cons_append] at ho ⊢
    rw [open_cons, List.length_append] at ho
    obtain ⟨k, hskip, hstage, hleft⟩ := skip_eq_drop ht hk
    obtain ⟨k', h1, h2, h3⟩ := drop_more (show bs.length < k.countDown.toNat by omega)
    have hleft' : k'.countDown.toNat + (q ++ bs).length = bodyLen s.dscrLen s.dscrType := by
      rw [List.length_append]; omega
    refine ⟨{ s with theSkipper := k' }, ?_, ?_⟩
    · rw [case4_skipped ht, hskip, h1]; rfl
    · exact .skipping ht hst (.inr ⟨h2.trans hstage, hleft'⟩) hb hf

/-- Case 4, where the descriptor ends in the chunk. -/
theorem case4_whole {x : VarBuf × Found} {s : St} {p bs₁ : List Byte} (bs₂ : List Byte)
    (h : Body x s p) (hw : descriptors.Whole (p ++ bs₁)) (hr : Room (p ++ bs₁)) :
    ∃ s', case4 c s (bs₁ ++ bs₂) = some (true, s', bs₂) ∧ Parked s' (handle c x (p ++ bs₁)) [] := by
  cases h with
  | @copying q ht hst hk hv hsize hb hf =>
    rw [List.cons_append, List.cons_append] at hw hr ⊢
    rw [whole_cons, List.length_append] at hw
    have hleft := hv.left hsize ht
    have hroom := hr ht
    simp only [List.length_cons, List.length_append] at hroom
    have h1 := parse_done x.1 bs₂ hv (show bs₁.length = _ by omega)
      (by simp only [List.length_cons]; omega)
    rw [← hb] at h1
    rw [case4_buffered ht, St.readBody, h1]
    refine ⟨_, rfl, .fresh rfl rfl hk ?_ ?_⟩
    · rw [handle, if_pos ht]; rfl
    · rw [handle, if_pos ht, ← hf]; rfl
  | @skipping q ht hst hk hb hf =>
    rw [List.cons_append, List.cons_append] at hw ⊢
    rw [whole_cons, List.length_append] at hw
    obtain ⟨k, hskip, -, hleft⟩ := skip_eq_drop ht hk
    obtain ⟨k', h1, h2⟩ := drop_done bs₂ (show bs₁.length = k.countDown.toNat by omega)
    rw [case4_skipped ht, hskip, h1]
    refine ⟨_, rfl, .fresh rfl rfl h2 ?_ ?_⟩
    · rw [handle, if_neg ht]; exact hb
    · rw [handle, if_neg ht]; exact hf

/-- Case 4, where `varBuffer` ends before the descriptor does. -/
theorem case4_stuck {x : VarBuf × Found} {s : St} {p bs₁ : List Byte} (bs₂ : List Byte)
    (h : Body x s p) (hr : Room p) (hin : descriptors.Open (p ++ bs₁) ∨ descriptors.Whole (p ++ bs₁))
    (hno : ¬ Room (p ++ bs₁)) : case4 c s (bs₁ ++ bs₂) = none := by
  cases h with
  | @copying q ht hst hk hv hsize hb hf =>
    rw [List.cons_append, List.cons_append] at hin hno
    rw [open_cons, whole_cons, List.length_append] at hin
    have hleft := hv.left hsize ht
    have hroom := hr ht
    have hlong : 16 < (s.dscrLen :: s.dscrType :: (q ++ bs₁)).length := by
      by_contra hle
      exact hno fun _ => by omega
    simp only [List.length_cons, List.length_append] at hroom hlong
    rw [case4_buffered ht, St.readBody, hb, parse_stuck x.1 bs₂ hv (by simp only [List.length_cons]; omega)
      (by omega) (by simp only [List.length_cons]; omega)]
    rfl
  | @skipping q ht hst hk hb hf => exact absurd (fun hb' => absurd hb' ht) hno

/-- Cases 2 and 3: the header is complete. -/
theorem case2_body {x : VarBuf × Found} {s : St} (bs : List Byte) (hk : s.theSkipper.nStage = 0)
    (hb : s.varBuffer = x.1.put [s.dscrLen, s.dscrType]) (hf : s.found = x.2) :
    ∃ s', case2 c s bs = case4 c s' bs ∧ Body x s' [s.dscrLen, s.dscrType] := by
  unfold case2 case3
  by_cases ht : s.dscrType = interface
  · simp only [ht, if_true]
    refine ⟨_, rfl, .copying (.inr (.inl rfl)) rfl hk ⟨?_, Nat.le_refl _⟩ ⟨rfl, rfl⟩ ?_ ?_⟩
    · rfl
    · rw [ht] at hb; exact hb
    · show { s.found with isGoodInterface := false } = _
      rw [hf]; rfl
  · simp only [ht, if_false]
    by_cases hbuf : Buffered s.dscrType
    · refine ⟨_, rfl, .copying hbuf rfl hk ⟨?_, Nat.le_refl _⟩ ⟨rfl, rfl⟩ hb ?_⟩
      · rfl
      · rw [enter, if_neg ht]; exact hf
    · exact ⟨_, rfl, .skipping hbuf rfl (.inl ⟨hk, rfl⟩) hb hf⟩

/-- Case 1, where the header ends in the chunk. -/
theorem case1_header {x : VarBuf × Found} {s : St} {p bs₀ : List Byte} {l t : Byte}
    (bs : List Byte) (h : Header x s p) (he : p ++ bs₀ = [l, t]) :
    ∃ s', case1 c s (bs₀ ++ bs) = case4 c s' bs ∧ Body x s' [l, t] := by
  have hlen := congrArg List.length he
  rw [List.length_append, List.length_cons, List.length_singleton] at hlen
  have hpos := h.reading.pos
  rw [h.size.1, h.size.2] at hpos
  have h2 : (2 : Byte).toNat = 2 := rfl
  have h1 := parse_done x.1 bs h.reading (show bs₀.length = _ by omega) (by omega)
  rw [← h.buf, he] at h1
  have hl : (x.1.put [l, t]).load 0 = some l := rfl
  have ht : (x.1.put [l, t]).load 1 = some t := rfl
  rw [case1, h1, Option.bind_some]
  simp only [if_true, h.pValue, Nat.zero_add, hl, ht, Option.bind_some]
  exact case2_body c bs h.skipper rfl h.found

/-- Case 1, where the chunk ends inside the header. -/
theorem case1_more {x : VarBuf × Found} {s : St} {p : List Byte} {l : Byte} {bs : List Byte}
    (h : Header x s p) (he : p ++ bs = [l]) :
    ∃ s', case1 c s bs = some (false, s', []) ∧ Header x s' [l] := by
  have hlen := congrArg List.length he
  rw [List.length_append, List.length_singleton] at hlen
  have hpos := h.reading.pos
  rw [h.size.1, h.size.2] at hpos
  have h2 : (2 : Byte).toNat = 2 := rfl
  obtain ⟨v, h1, h3, h4, h5⟩ := parse_more x.1 h.reading (show bs.length < _ by omega)
    (by omega)
  rw [← h.buf, he] at h1
  rw [he] at h3
  rw [case1, h1, Option.bind_some]
  exact ⟨_, rfl, h.stage, h.pValue, h.skipper, h3, ⟨h4.trans h.size.1, h5.trans h.size.2⟩, rfl, h.found⟩

/-- A call begins in the header or in the body of a descriptor. -/
theorem parseDescriptor_cases {s : St} {x : VarBuf × Found} {p : List Byte} (h : Parked s x p) :
    (∃ s₁, (∀ bs, parseDescriptor c s bs = case1 c s₁ bs) ∧ Header x s₁ p ∧ p.length < 2) ∨
      ((∀ bs, parseDescriptor c s bs = case4 c s bs) ∧ Body x s p ∧ 2 ≤ p.length) := by
  cases h with
  | fresh hst hp hk hb hf =>
    left
    refine ⟨{ s with theBuffer := { s.theBuffer with valueSize := 2 }
                     valParser := .initialise { s.theBuffer with valueSize := 2 }
                     stateParseDescr := .case1 }, fun bs => ?_, ?_, by simp⟩
    · rw [parseDescriptor, hst]; rfl
    · exact ⟨rfl, hp, hk, ⟨by rw [MultiByteValueParser.initialise]; simp [hp], Nat.le_refl _⟩,
        ⟨hp, rfl⟩, hb, hf⟩
  | @length l h =>
    left
    refine ⟨s, fun bs => ?_, h, by simp⟩
    rw [parseDescriptor, h.stage]
  | body h ho =>
    right
    refine ⟨fun bs => ?_, h, ?_⟩
    · rw [parseDescriptor, h.stage]
    · cases h <;> simp

/-- The part of a chunk that completes the header. -/
theorem split_header {p bs : List Byte} (hp : p.length < 2) (h : 2 ≤ (p ++ bs).length) :
    ∃ l t bs₀ q, bs = bs₀ ++ q ∧ p ++ bs₀ = [l, t] := by
  match p, bs, hp, h with
  | [], l :: t :: q, _, _ => exact ⟨l, t, [l, t], q, rfl, rfl⟩
  | [l], t :: q, _, _ => exact ⟨l, t, [t], q, rfl, rfl⟩

/-- **One call of `ParseDescriptor`**, between any two calls. -/
theorem reads_descriptors :
    descriptors.Reads Room (handle c) Parked (parseDescriptor c) where
  mono := room_mono
  more s x p bs hs hne ho hr := by
    rcases parseDescriptor_cases c hs with ⟨s₁, hpd, hh, hp⟩ | ⟨hpd, hb, -⟩
    · rw [hpd]
      by_cases hlen : (p ++ bs).length < 2
      · obtain ⟨l, hl⟩ : ∃ l, p ++ bs = [l] := by
          have hpos := List.length_pos_of_ne_nil hne
          rw [List.length_append] at hlen
          exact List.length_eq_one_iff.mp (by rw [List.length_append]; omega)
        obtain ⟨s', h1, h2⟩ := case1_more c hh hl
        exact ⟨s', h1, by rw [hl]; exact .length h2⟩
      · obtain ⟨l, t, bs₀, q, rfl, he⟩ := split_header hp (Nat.le_of_not_lt hlen)
        obtain ⟨s₂, h1, h2⟩ := case1_header c q hh he
        rw [← List.append_assoc, he] at ho hr ⊢
        obtain ⟨s', h3, h4⟩ := case4_more c h2 ho hr
        exact ⟨s', by rw [h1, h3], .body h4 ho⟩
    · obtain ⟨s', h1, h2⟩ := case4_more c hb ho hr
      exact ⟨s', by rw [hpd, h1], .body h2 ho⟩
  whole s x p bs₁ bs₂ hs hne hw hr := by
    rcases parseDescriptor_cases c hs with ⟨s₁, hpd, hh, hp⟩ | ⟨hpd, hb, -⟩
    · obtain ⟨l, t, bs₀, q, rfl, he⟩ := split_header hp hw.head_le
      obtain ⟨s₂, h1, h2⟩ := case1_header c (q ++ bs₂) hh he
      rw [← List.append_assoc, he] at hw hr ⊢
      rw [hpd, List.append_assoc, h1]
      exact case4_whole c bs₂ h2 hw hr
    · rw [hpd]
      exact case4_whole c bs₂ hb hw hr
  stuck s x p bs₁ bs₂ hs hp hne hin hno := by
    rcases parseDescriptor_cases c hs with ⟨s₁, hpd, hh, hlt⟩ | ⟨hpd, hb, -⟩
    · -- there is room for a header, so the bytes that have none come after it
      have hlen : 2 ≤ (p ++ bs₁).length := by
        by_contra hlen
        exact hno fun hb => by omega
      obtain ⟨l, t, bs₀, q, rfl, he⟩ := split_header hlt hlen
      obtain ⟨s₂, h1, h2⟩ := case1_header c (q ++ bs₂) hh he
      rw [← List.append_assoc, he] at hin hno
      rw [hpd, List.append_assoc, h1]
      exact case4_stuck c bs₂ h2 (fun _ => by simp) hin hno
    · rw [hpd]
      exact case4_stuck c bs₂ hb hp hin hno

theorem parked_init (mem : VarBuf) (confValue : Byte) (isGood : Bool) (epInfo : EpTable) :
    Parked (init mem confValue isGood epInfo) (mem, ⟨confValue, isGood, 0, epInfo⟩) [] :=
  .fresh rfl rfl rfl rfl rfl

/-- A header alone has no effect but to end the interface before. -/
theorem Parked.table {s : St} {x : VarBuf × Found} {p : List Byte} (h : Parked s x p) :
    s.found = enter (p.getD 1 0) x.2 := by
  cases h with
  | fresh hst hp hk hb hf => exact hf
  | length h => exact h.found
  | body h ho =>
    cases h with
    | copying ht hst hk hv hsize hb hf => exact hf
    | skipping ht hst hk hb hf => exact hf.trans (enter_skipped ht x.2).symm

/-- **The parser over chunks.** With the chunks put together and cut into
descriptors: if all of them have room the parser has handled each whole one once,
in order, and no other byte has had an effect but the header of an interface
descriptor at the end; if not, it has written past `varBuffer`. -/
theorem parse_chunks (mem : VarBuf) (confValue : Byte) (isGood : Bool) (epInfo : EpTable)
    (chunks : List (List Byte)) :
    let r := cut chunks.flatten
    (r.Fits Room → ∃ s, chunks.foldlM (parse c) (init mem confValue isGood epInfo) = some s ∧
      s.found = enter (r.rest.getD 1 0)
        (r.frames.foldl (handle c) (mem, ⟨confValue, isGood, 0, epInfo⟩)).2) ∧
    (¬ r.Fits Room → chunks.foldlM (parse c) (init mem confValue isGood epInfo) = none) := by
  intro r
  obtain ⟨h1, h2⟩ := Framing.feedAll_split (reads_descriptors c) chunks _ _ []
    (parked_init mem confValue isGood epInfo) descriptors.open_nil (fun h => absurd h (by decide))
  refine ⟨fun hf => ?_, h2⟩
  obtain ⟨s, hs, hp⟩ := h1 hf
  exact ⟨s, hs, hp.table⟩

end SonicCraft.L2.DescParser
