import SonicCraft.Core.LTS

/-!
# Frames whose length is known after a fixed head

A byte stream is cut into frames: after `head` bytes of a frame it is known how
many follow. `split` is the cut, one byte at a time; `split_flatten` and
`split_sound` say that it is the only one, so it does not depend on how the
stream was cut into chunks before.

A reader works on what is left of a chunk. It stops at the end of a frame, or at
the end of the chunk and goes on with the next one. `Reads` is what one call has
to keep; `feed_split` and `feedAll_split` are the loop over a chunk and over any
list of chunks: every whole frame is handled once, in order, and the reader gets
stuck exactly when the stream has a frame it has no room for.
-/
namespace SonicCraft

structure Framing (B : Type) where
  head : Nat
  /-- Bytes that follow the first `head` ones. -/
  body : List B → Nat
  head_pos : 0 < head

namespace Framing
variable {B : Type} (F : Framing B)

/-- The length of the frame that begins with `p`, once its head is there. -/
def size (p : List B) : Nat := F.head + F.body (p.take F.head)

def Whole (p : List B) : Prop := p.length = F.size p

/-- A frame that has begun, or nothing of it yet. -/
def Open (p : List B) : Prop := F.head ≤ p.length → p.length < F.size p

instance (p : List B) : Decidable (F.Whole p) := inferInstanceAs (Decidable (_ = _))

theorem size_append {p : List B} (q : List B) (h : F.head ≤ p.length) :
    F.size (p ++ q) = F.size p := by
  unfold size; rw [List.take_append_of_le_length h]

theorem open_nil : F.Open [] := by
  intro h
  have := F.head_pos
  simp only [List.length_nil] at h; omega

theorem Whole.head_le {p : List B} (h : F.Whole p) : F.head ≤ p.length := by
  unfold Whole size at h; omega

theorem Whole.ne_nil {p : List B} (h : F.Whole p) : p ≠ [] := by
  rintro rfl
  have h1 := h.head_le
  have := F.head_pos
  simp only [List.length_nil] at h1; omega

/-- A frame is open until its last byte. -/
theorem Whole.open_left {p q : List B} (h : F.Whole (p ++ q)) (hq : q ≠ []) : F.Open p := by
  intro hp
  have hl := List.length_pos_of_ne_nil hq
  unfold Whole at h
  rw [F.size_append q hp, List.length_append] at h
  omega

theorem Open.left {p q : List B} (h : F.Open (p ++ q)) : F.Open p := by
  intro hp
  have h1 := h (by rw [List.length_append]; omega)
  rw [F.size_append q hp, List.length_append] at h1
  omega

theorem Open.not_whole {p : List B} (h : F.Open p) : ¬ F.Whole p := by
  intro hw
  have h1 := h hw.head_le
  unfold Whole at hw; omega

/-- One more byte completes a frame or leaves it open. -/
theorem Open.snoc {p : List B} (h : F.Open p) (b : B) (hw : ¬ F.Whole (p ++ [b])) :
    F.Open (p ++ [b]) := by
  intro hp
  unfold Whole at hw
  by_cases hh : F.head ≤ p.length
  · have h1 := h hh
    rw [F.size_append [b] hh, List.length_append, List.length_singleton] at hw ⊢
    omega
  · unfold size at hw ⊢
    rw [List.length_append, List.length_singleton] at hw hp ⊢
    omega

/-- Bytes that follow an open frame leave it open or hold its end. -/
theorem Open.append_cases {p : List B} (h : F.Open p) (bs : List B) :
    F.Open (p ++ bs) ∨ ∃ bs₁ bs₂, bs = bs₁ ++ bs₂ ∧ bs₁ ≠ [] ∧ F.Whole (p ++ bs₁) := by
  induction bs generalizing p with
  | nil => left; rwa [List.append_nil]
  | cons b bs ih =>
    by_cases hw : F.Whole (p ++ [b])
    · exact .inr ⟨[b], bs, rfl, by simp, hw⟩
    · rcases ih (h.snoc F b hw) with ho | ⟨bs₁, bs₂, rfl, -, hw'⟩
      · left; rwa [List.append_assoc] at ho
      · exact .inr ⟨b :: bs₁, bs₂, rfl, by simp, by rwa [List.append_assoc] at hw'⟩

/-! ## The cut -/

/-- Whole frames and what follows them. -/
structure Split (B : Type) where
  frames : List (List B)
  rest : List B

def push (s : Split B) (b : B) : Split B :=
  if F.Whole (s.rest ++ [b]) then ⟨s.frames ++ [s.rest ++ [b]], []⟩ else ⟨s.frames, s.rest ++ [b]⟩

theorem push_whole {s : Split B} {b : B} (h : F.Whole (s.rest ++ [b])) :
    F.push s b = ⟨s.frames ++ [s.rest ++ [b]], []⟩ := if_pos h

theorem push_open {s : Split B} {b : B} (h : ¬ F.Whole (s.rest ++ [b])) :
    F.push s b = ⟨s.frames, s.rest ++ [b]⟩ := if_neg h

/-- The cut of `bs` where `p` of a frame has been seen. -/
def splitFrom (p bs : List B) : Split B := exec F.push ⟨[], p⟩ bs

def split (bs : List B) : Split B := F.splitFrom [] bs

/-- Frames seen before do not matter. -/
theorem exec_push (bs : List B) (fs : List (List B)) (p : List B) :
    exec F.push ⟨fs, p⟩ bs = ⟨fs ++ (F.splitFrom p bs).frames, (F.splitFrom p bs).rest⟩ := by
  induction bs generalizing fs p with
  | nil => simp [splitFrom]
  | cons b bs ih =>
    unfold splitFrom
    rw [exec_cons, exec_cons]
    by_cases hw : F.Whole (p ++ [b])
    · rw [F.push_whole hw, F.push_whole hw, ih (fs ++ [p ++ [b]]) [], ih ([] ++ [p ++ [b]]) []]
      simp
    · rw [F.push_open hw, F.push_open hw, ih fs (p ++ [b]), ih [] (p ++ [b])]
      simp

theorem splitFrom_append (p a b : List B) : F.splitFrom p (a ++ b) =
    ⟨(F.splitFrom p a).frames ++ (F.splitFrom (F.splitFrom p a).rest b).frames,
      (F.splitFrom (F.splitFrom p a).rest b).rest⟩ := by
  have h := exec_append F.push ⟨[], p⟩ a b
  rw [exec_push F b (exec F.push ⟨[], p⟩ a).frames (exec F.push ⟨[], p⟩ a).rest] at h
  exact h

theorem splitFrom_open {p bs : List B} (h : F.Open (p ++ bs)) :
    F.splitFrom p bs = ⟨[], p ++ bs⟩ := by
  induction bs using List.reverseRecOn with
  | nil => simp [splitFrom]
  | append_singleton bs b ih =>
    have h' : F.Open (p ++ bs ++ [b]) := by rwa [List.append_assoc]
    have h1 := ih h'.left
    rw [splitFrom_append, h1]
    show Split.mk _ _ = _
    simp [splitFrom, push, h.not_whole]

theorem splitFrom_whole {p bs : List B} (h : F.Whole (p ++ bs)) (hb : bs ≠ []) :
    F.splitFrom p bs = ⟨[p ++ bs], []⟩ := by
  obtain ⟨bs', b, rfl⟩ := List.eq_nil_or_concat bs |>.resolve_left hb
  rw [List.concat_eq_append] at h ⊢
  have ho : F.Open (p ++ bs') := by
    rw [← List.append_assoc] at h
    exact h.open_left F (by simp)
  rw [splitFrom_append, F.splitFrom_open ho]
  simp [splitFrom, push, h]

/-- The frame that is open is completed first. -/
theorem splitFrom_frame {p bs₁ : List B} (bs₂ : List B) (h : F.Whole (p ++ bs₁)) (hb : bs₁ ≠ []) :
    F.splitFrom p (bs₁ ++ bs₂) = ⟨(p ++ bs₁) :: (F.split bs₂).frames, (F.split bs₂).rest⟩ := by
  rw [splitFrom_append, F.splitFrom_whole h hb]
  rfl

/-- **Frames come back.** -/
theorem split_flatten {fs : List (List B)} {r : List B} (hf : ∀ f ∈ fs, F.Whole f)
    (hr : F.Open r) : F.split (fs.flatten ++ r) = ⟨fs, r⟩ := by
  induction fs with
  | nil => exact F.splitFrom_open (p := []) hr
  | cons f fs ih =>
    have hw := hf f List.mem_cons_self
    rw [List.flatten_cons, List.append_assoc]
    show F.splitFrom [] _ = _
    rw [F.splitFrom_frame (p := []) _ hw hw.ne_nil, ih fun g hg => hf g (List.mem_cons_of_mem f hg)]
    rfl

/-- **The cut is a cut**: whole frames, an open one, nothing lost. -/
theorem split_sound (bs : List B) : (∀ f ∈ (F.split bs).frames, F.Whole f) ∧
    F.Open (F.split bs).rest ∧ (F.split bs).frames.flatten ++ (F.split bs).rest = bs := by
  refine exec_hist (f := F.push) (s := ⟨[], []⟩) (I := fun bs (s : Split B) =>
    (∀ f ∈ s.frames, F.Whole f) ∧ F.Open s.rest ∧ s.frames.flatten ++ s.rest = bs) ?_ ?_ bs
  · exact ⟨by simp, F.open_nil, rfl⟩
  · rintro bs b ⟨h1, h2, h3⟩
    generalize exec F.push ⟨[], []⟩ bs = s at h1 h2 h3 ⊢
    by_cases hw : F.Whole (s.rest ++ [b])
    · rw [F.push_whole hw]
      refine ⟨fun f hf => ?_, F.open_nil, ?_⟩
      · rcases List.mem_append.mp hf with hf | hf
        · exact h1 f hf
        · rw [List.mem_singleton.mp hf]; exact hw
      · rw [List.flatten_append, List.append_nil, List.flatten_singleton, ← List.append_assoc, h3]
    · rw [F.push_open hw]
      exact ⟨h1, h2.snoc F b hw, by rw [← List.append_assoc, h3]⟩

/-! ## Readers -/

section Reader
variable {S T : Type}

/-- `read` may use the rest of the chunk; it returns whether it got to the end of
a frame, and what it left. `none`: no room. -/
def feed (read : S → List B → Option (Bool × S × List B)) : Nat → S → List B → Option S
  | 0, s, _ => some s
  | _, s, [] => some s
  | n + 1, s, b :: bs =>
    match read s (b :: bs) with
    | none => none
    | some (false, s', _) => some s'
    | some (true, s', bs') => feed read n s' bs'

/-- Chunk after chunk. -/
def feedAll (read : S → List B → Option (Bool × S × List B)) (s : S) (chunks : List (List B)) :
    Option S :=
  chunks.foldlM (fun s c => feed read (c.length + 1) s c) s

/-- `R s t p`: the reader `s` has handled what makes `t` and has seen `p` of the
next frame. `ok` is the room it has for a frame. -/
structure Reads (ok : List B → Prop) (handle : T → List B → T) (R : S → T → List B → Prop)
    (read : S → List B → Option (Bool × S × List B)) : Prop where
  mono : ∀ p q, p <+: q → ok q → ok p
  more : ∀ s t p bs, R s t p → bs ≠ [] → F.Open (p ++ bs) → ok (p ++ bs) →
    ∃ s', read s bs = some (false, s', []) ∧ R s' t (p ++ bs)
  whole : ∀ s t p bs₁ bs₂, R s t p → bs₁ ≠ [] → F.Whole (p ++ bs₁) → ok (p ++ bs₁) →
    ∃ s', read s (bs₁ ++ bs₂) = some (true, s', bs₂) ∧ R s' (handle t (p ++ bs₁)) []
  stuck : ∀ s t p bs₁ bs₂, R s t p → ok p → bs₁ ≠ [] → F.Open (p ++ bs₁) ∨ F.Whole (p ++ bs₁) →
    ¬ ok (p ++ bs₁) → read s (bs₁ ++ bs₂) = none

/-- Room for every frame of the cut, and for what follows. -/
def Split.Fits (ok : List B → Prop) (r : Split B) : Prop := (∀ f ∈ r.frames, ok f) ∧ ok r.rest

variable {F} {ok : List B → Prop} {handle : T → List B → T} {R : S → T → List B → Prop}
  {read : S → List B → Option (Bool × S × List B)}

/-- The loop over one chunk. -/
theorem feed_split (h : F.Reads ok handle R read) : ∀ (n : Nat) (bs : List B) (s : S) (t : T)
    (p : List B), bs.length < n → R s t p → F.Open p → ok p →
    ((F.splitFrom p bs).Fits ok → ∃ s', feed read n s bs = some s' ∧
      R s' ((F.splitFrom p bs).frames.foldl handle t) (F.splitFrom p bs).rest) ∧
    (¬ (F.splitFrom p bs).Fits ok → feed read n s bs = none) := by
  intro n
  induction n with
  | zero => intro bs s t p hn; omega
  | succ n ih =>
    intro bs s t p hn hR ho hok
    cases bs with
    | nil => exact ⟨fun _ => ⟨s, rfl, hR⟩, fun hf => absurd ⟨by simp [splitFrom], hok⟩ hf⟩
    | cons b bs =>
      rcases ho.append_cases F (b :: bs) with ho' | ⟨bs₁, bs₂, he, hne, hw⟩
      · -- the chunk ends inside the frame
        rw [F.splitFrom_open ho']
        by_cases hk : ok (p ++ b :: bs)
        · obtain ⟨s', hr, hR'⟩ := h.more s t p (b :: bs) hR (by simp) ho' hk
          exact ⟨fun _ => ⟨s', by rw [feed, hr], hR'⟩, fun hf => absurd ⟨by simp, hk⟩ hf⟩
        · have hr := h.stuck s t p (b :: bs) [] hR hok (by simp) (.inl ho') hk
          rw [List.append_nil] at hr
          exact ⟨fun hf => absurd hf.2 hk, fun _ => by rw [feed, hr]⟩
      · -- the frame ends inside the chunk
        rw [he, F.splitFrom_frame bs₂ hw hne]
        have hlen : bs₂.length < n := by
          have h1 := congrArg List.length he
          have h2 := List.length_pos_of_ne_nil hne
          simp only [List.length_cons, List.length_append] at h1 hn
          omega
        by_cases hk : ok (p ++ bs₁)
        · obtain ⟨s', hr, hR'⟩ := h.whole s t p bs₁ bs₂ hR hne hw hk
          have hfeed : feed read (n + 1) s (bs₁ ++ bs₂) = feed read n s' bs₂ := by
            rw [← he, feed, he, hr]
          have hnil : ok [] := h.mono [] p List.nil_prefix hok
          obtain ⟨h1, h2⟩ := ih bs₂ s' (handle t (p ++ bs₁)) [] hlen hR' F.open_nil hnil
          rw [hfeed]
          refine ⟨fun hf => h1 ⟨fun f hm => hf.1 f (List.mem_cons_of_mem _ hm), hf.2⟩, fun hf => ?_⟩
          refine h2 fun hf' => hf ⟨fun f hm => ?_, hf'.2⟩
          rcases List.mem_cons.mp hm with rfl | hm
          · exact hk
          · exact hf'.1 f hm
        · have hr := h.stuck s t p bs₁ bs₂ hR hok hne (.inr hw) hk
          refine ⟨fun hf => absurd (hf.1 _ List.mem_cons_self) hk, fun _ => ?_⟩
          rw [← he, feed, he, hr]

theorem splitFrom_rest_open {p bs : List B} (h : F.Open p) : F.Open (F.splitFrom p bs).rest := by
  refine exec_inv (f := F.push) (I := fun s => F.Open s.rest) (fun s b hs => ?_) bs ⟨[], p⟩ h
  by_cases hw : F.Whole (s.rest ++ [b])
  · rw [F.push_whole hw]; exact F.open_nil
  · rw [F.push_open hw]; exact hs.snoc F b hw

/-- What is left after a chunk begins the first frame of the next one. -/
theorem fits_left {p a b : List B} (hmono : ∀ p q, p <+: q → ok q → ok p) (hp : F.Open p)
    (h : (F.splitFrom p (a ++ b)).Fits ok) :
    (F.splitFrom p a).Fits ok ∧ (F.splitFrom (F.splitFrom p a).rest b).Fits ok := by
  rw [splitFrom_append] at h
  obtain ⟨h1, h2⟩ := h
  have hf : ∀ f ∈ (F.splitFrom (F.splitFrom p a).rest b).frames, ok f :=
    fun f hm => h1 f (List.mem_append_right _ hm)
  refine ⟨⟨fun f hm => h1 f (List.mem_append_left _ hm), ?_⟩, hf, h2⟩
  have hrest : F.Open (F.splitFrom p a).rest := splitFrom_rest_open hp
  rcases hrest.append_cases F b with ho | ⟨b₁, b₂, rfl, hne, hw⟩
  · rw [F.splitFrom_open ho] at h2
    exact hmono _ _ (List.prefix_append _ b) h2
  · rw [F.splitFrom_frame b₂ hw hne] at hf
    exact hmono _ _ (List.prefix_append _ b₁) (hf _ List.mem_cons_self)

theorem fits_append {p a b : List B} (hmono : ∀ p q, p <+: q → ok q → ok p) (hp : F.Open p) :
    (F.splitFrom p (a ++ b)).Fits ok ↔
      (F.splitFrom p a).Fits ok ∧ (F.splitFrom (F.splitFrom p a).rest b).Fits ok := by
  refine ⟨fits_left hmono hp, fun ⟨⟨h1, _⟩, h2, h3⟩ => ?_⟩
  rw [splitFrom_append]
  refine ⟨fun f hm => ?_, h3⟩
  rcases List.mem_append.mp hm with hm | hm
  · exact h1 f hm
  · exact h2 f hm

/-- **The loop over chunks**: only the stream counts, not its cut into chunks. -/
theorem feedAll_split (h : F.Reads ok handle R read) : ∀ (chunks : List (List B)) (s : S) (t : T)
    (p : List B), R s t p → F.Open p → ok p →
    ((F.splitFrom p chunks.flatten).Fits ok → ∃ s', feedAll read s chunks = some s' ∧
      R s' ((F.splitFrom p chunks.flatten).frames.foldl handle t)
        (F.splitFrom p chunks.flatten).rest) ∧
    (¬ (F.splitFrom p chunks.flatten).Fits ok → feedAll read s chunks = none) := by
  intro chunks
  induction chunks with
  | nil =>
    intro s t p hR _ hok
    exact ⟨fun _ => ⟨s, rfl, hR⟩, fun hf => absurd ⟨by simp [splitFrom], hok⟩ hf⟩
  | cons c chunks ih =>
    intro s t p hR ho hok
    obtain ⟨h1, h2⟩ := feed_split h (c.length + 1) c s t p (by omega) hR ho hok
    have hcons : feedAll read s (c :: chunks) =
        (feed read (c.length + 1) s c).bind fun s' => feedAll read s' chunks := rfl
    rw [List.flatten_cons, fits_append h.mono ho, splitFrom_append, hcons, List.foldl_append]
    by_cases hc : (F.splitFrom p c).Fits ok
    · obtain ⟨s', hs', hR'⟩ := h1 hc
      obtain ⟨h3, h4⟩ := ih s' _ _ hR' (splitFrom_rest_open ho) hc.2
      rw [hs', Option.bind_some]
      exact ⟨fun hf => h3 hf.2, fun hf => h4 fun hf' => hf ⟨hc, hf'⟩⟩
    · rw [h2 hc]
      exact ⟨fun hf => absurd hf.1 hc, fun _ => rfl⟩

end Reader
end Framing
end SonicCraft
