import SonicCraft.Core.Serial
import SonicCraft.L3System.AudioPath

/-!
# From the oscillators to the receiver

The codec is configured for 32-bit words with 64 `SCLK` edges a frame in I2S
format (SOC/software/space_jam/sgtl5000/sgtl5000_test.c:155-157): a word starts
one bit after the `LRCLK` change. `Rx` is such a receiver: it samples `Dout` just
before each rising `SCLK` edge, and the first bit it sees after `LRCLK` changed
completes the word of the half before.

`frames_received`: over any number of frames, with inputs that change at every
`LRCLK` edge and table reads anywhere, the receiver reads twice each mix, first
in the low half after the mix was taken and then in the next high half, and
nothing else. Each mix is the sum of the four outputs, which are held over its
frame (`mix_held`).
-/
namespace SonicCraft.L3.StereoFrames
open L1 AudioPath Serial

/-! ## The receiver -/

/-- The bits of the current word so far, and the finished words, each with the
channel it came from. -/
structure Rx where
  lrclk : Bool
  acc : List Bool
  words : List (Bool × List Bool)

def Rx.start : Rx := ⟨false, [], []⟩

def Rx.sample (lrclk : Bool) (rx : Rx) (bit : Bool) : Rx :=
  if lrclk = rx.lrclk then { rx with acc := rx.acc ++ [bit] }
  else { lrclk := lrclk, acc := [], words := rx.words ++ [(rx.lrclk, rx.acc ++ [bit])] }

/-- The words as numbers. -/
def Rx.received (rx : Rx) : List (Bool × Nat) := rx.words.map fun w => (w.1, ofBits w.2)

/-- The bits after the first one of a half are collected. -/
theorem sample_same (c : Bool) (bs : List Bool) (rx : Rx) (h : rx.lrclk = c) :
    bs.foldl (Rx.sample c) rx = { rx with acc := rx.acc ++ bs } := by
  induction bs generalizing rx with
  | nil => simp
  | cons b bs ih =>
    have hs : rx.sample c b = { rx with acc := rx.acc ++ [b] } := if_pos h.symm
    rw [List.foldl_cons, hs, ih { rx with acc := rx.acc ++ [b] } h]
    simp

/-- A half frame completes the word before it with its first bit. -/
theorem sample_half (c b : Bool) (bs : List Bool) (rx : Rx) (h : rx.lrclk = !c) :
    (b :: bs).foldl (Rx.sample c) rx =
      { lrclk := c, acc := bs, words := rx.words ++ [(!c, rx.acc ++ [b])] } := by
  have hs : rx.sample c b = ⟨c, [], rx.words ++ [(rx.lrclk, rx.acc ++ [b])]⟩ :=
    if_neg (by rw [h]; simp)
  rw [List.foldl_cons, hs, sample_same c bs ⟨c, [], _⟩ rfl, h]
  rfl

/-! ## The wire: the audio path watched by the receiver -/

structure Wire where
  sys : St
  rx : Rx

def wireStep (ram : PhaseOsc.Ram) (w : Wire) (e : Ev) : Wire where
  sys := step ram w.sys e
  rx :=
    match e with
    | .tick .sclk => w.rx.sample w.sys.lrclk w.sys.dout
    | _ => w.rx

/-- The edges between two changes of `LRCLK`: 32 of them are `SCLK`'s. -/
structure Half where
  ticks : List Tick
  full : ticks.count .sclk = 32

/-- From one rising edge of `LRCLK` to just before the next. -/
structure Frame where
  rise : Lines
  high : Half
  fall : Lines
  low : Half

def Half.events (h : Half) : List Ev := h.ticks.map .tick

def Frame.events (f : Frame) : List Ev :=
  .lrclk f.rise :: f.high.events ++ .lrclk f.fall :: f.low.events

/-- The mixes: `S` is what the `n`-th rising edge leaves. -/
def mixes (ram : PhaseOsc.Ram) (s : St) : List Frame → List (BitVec 32)
  | [] => []
  | f :: fs => (s.lrclkEdge f.rise).mix :: mixes ram (exec (step ram) s f.events) fs

variable (ram : PhaseOsc.Ram)

theorem wire_sys (es : List Ev) (w : Wire) :
    (exec (wireStep ram) w es).sys = exec (step ram) w.sys es := by
  induction es generalizing w with
  | nil => rfl
  | cons e es ih => exact ih _

/-! ## One half frame -/

/-- `k` `SCLK` edges with table reads among them: the receiver gets the top `k`
bits of the register that is shifted out, and the other one takes the mix. -/
structure HalfRun (k : Nat) (w w' : Wire) : Prop where
  lrclk : w'.sys.lrclk = w.sys.lrclk
  mix : w'.sys.mix = w.sys.mix
  fill : w'.sys.i2s.fill w.sys.lrclk = if k = 0 then w.sys.i2s.fill w.sys.lrclk else w.sys.mix
  rx : w'.rx = (shiftOut k (w.sys.i2s.out w.sys.lrclk)).foldl (Rx.sample w.sys.lrclk) w.rx

theorem half_run (ts : List Tick) (w : Wire) :
    HalfRun (ts.count .sclk) w (exec (wireStep ram) w (ts.map .tick)) := by
  induction ts generalizing w with
  | nil => exact ⟨rfl, rfl, rfl, rfl⟩
  | cons t ts ih =>
    obtain ⟨h1, h2, h3, h4⟩ := ih (wireStep ram w (.tick t))
    rw [List.map_cons, exec_cons]
    cases t with
    | master =>
      rw [List.count_cons_of_ne (by decide)]
      exact ⟨h1, h2, h3, h4⟩
    | sclk =>
      have hfill : (wireStep ram w (.tick .sclk)).sys.i2s.fill w.sys.lrclk = w.sys.mix :=
        sclk_fill ram w.sys
      have hout : (wireStep ram w (.tick .sclk)).sys.i2s.out w.sys.lrclk =
          w.sys.i2s.out w.sys.lrclk <<< 1 := sclk_out ram w.sys
      have hrx : (wireStep ram w (.tick .sclk)).rx =
          w.rx.sample w.sys.lrclk (w.sys.i2s.out w.sys.lrclk).msb := by
        rw [← I2S.dout_eq]; rfl
      have hlr : (wireStep ram w (.tick .sclk)).sys.lrclk = w.sys.lrclk := tick_lrclk ram w.sys .sclk
      have hmix : (wireStep ram w (.tick .sclk)).sys.mix = w.sys.mix := tick_mix ram w.sys .sclk
      rw [List.count_cons_self]
      refine ⟨h1, h2, ?_, ?_⟩
      · rw [hlr, hfill, hmix, ite_self] at h3
        rw [h3, if_neg (by omega)]
      · rw [h4, hlr, hout, hrx]; rfl

/-- A whole half frame, for a receiver that has seen the half before it: the
word before gets its last bit, and all but the first bit of the register that is
shifted out are collected. -/
theorem half_received (h : Half) (c : Bool) (w : Wire) (hlr : w.sys.lrclk = c)
    (hrx : w.rx.lrclk = !c) :
    let w' := exec (wireStep ram) w h.events
    w'.sys.lrclk = c ∧ w'.sys.mix = w.sys.mix ∧ w'.sys.i2s.fill c = w.sys.mix ∧
      w'.rx = ⟨c, (shiftOut 32 (w.sys.i2s.out c)).tail,
        w.rx.words ++ [(!c, w.rx.acc ++ [(w.sys.i2s.out c).msb])]⟩ := by
  obtain ⟨h1, h2, h3, h4⟩ := half_run ram h.ticks w
  rw [h.full] at h3 h4
  rw [hlr] at h1 h3 h4
  refine ⟨h1, h2, h3, ?_⟩
  rw [Half.events, h4, shiftOut_succ, sample_half _ _ _ _ hrx]
  rfl

/-! ## One frame -/

/-- Between frames: both the system and the receiver are in a low half, the mix
`S` has been loaded into `L`, and all its bits but the first are collected. -/
structure Boundary (S : BitVec 32) (w : Wire) : Prop where
  lrclk : w.sys.lrclk = false
  rx : w.rx.lrclk = false
  l : w.sys.i2s.l = S
  acc : w.rx.acc = (shiftOut 32 S).tail

/-- From any state with `LRCLK` low, one frame reaches a boundary with its own
mix and finishes two words: what was pending, and what `L` held. -/
theorem frame_run (f : Frame) (w : Wire) (hlr : w.sys.lrclk = false) (hrx : w.rx.lrclk = false) :
    Boundary (w.sys.lrclkEdge f.rise).mix (exec (wireStep ram) w f.events) ∧
    (exec (wireStep ram) w f.events).rx.words = w.rx.words ++
      [(false, w.rx.acc ++ [w.sys.i2s.l.msb]),
       (true, delayed w.sys.i2s.l (w.sys.lrclkEdge f.rise).mix.msb)] := by
  have hup : (wireStep ram w (.lrclk f.rise)).sys.lrclk = true := by
    show (!w.sys.lrclk) = true
    rw [hlr]; rfl
  have hmix : (wireStep ram w (.lrclk f.rise)).sys.mix = (w.sys.lrclkEdge f.rise).mix := rfl
  obtain ⟨a1, a2, a3, a4⟩ :=
    half_received ram f.high true (wireStep ram w (.lrclk f.rise)) hup hrx
  rw [Frame.events, List.cons_append, exec_cons, exec_append, exec_cons]
  generalize exec (wireStep ram) (wireStep ram w (.lrclk f.rise)) f.high.events = w2 at a1 a2 a3 a4 ⊢
  have hdown : (wireStep ram w2 (.lrclk f.fall)).sys.lrclk = false := by
    show (!w2.sys.lrclk) = false
    rw [a1]; rfl
  have hkeep : (wireStep ram w2 (.lrclk f.fall)).sys.mix = (w.sys.lrclkEdge f.rise).mix := by
    rw [← hmix, ← a2]; exact fall_mix f.fall w2.sys a1
  have hr : (wireStep ram w2 (.lrclk f.fall)).sys.i2s.out false = (w.sys.lrclkEdge f.rise).mix := a3
  obtain ⟨b1, -, b3, b4⟩ :=
    half_received ram f.low false (wireStep ram w2 (.lrclk f.fall)) hdown (by
      show w2.rx.lrclk = true
      rw [a4])
  rw [hkeep] at b3
  rw [hr] at b4
  refine ⟨⟨b1, by rw [b4], b3, by rw [b4]⟩, ?_⟩
  rw [b4]
  show w2.rx.words ++ [(true, w2.rx.acc ++ [_])] = _
  rw [a4]
  show (w.rx.words ++ [(false, w.rx.acc ++ [w.sys.i2s.l.msb])]) ++
    [(true, (shiftOut 32 w.sys.i2s.l).tail ++ [(w.sys.lrclkEdge f.rise).mix.msb])] = _
  rw [List.append_assoc]
  rfl

/-! ## Any number of frames -/

/-- What a mix should be received as. -/
def bothChannels (S : BitVec 32) : List (Bool × Nat) :=
  [(false, 2 * S.toNat), (true, 2 * S.toNat)]

theorem mix_after_rise_lt (lines : Lines) (s : St) (h : s.lrclk = false) :
    (s.lrclkEdge lines).mix.toNat < 2 ^ 30 := by
  rw [rise_mix _ _ h]; exact i2sDin_lt lines s.osc

/-- A word below `2 ^ 31` reads as its double when a zero follows. -/
theorem received_delayed {S T : BitVec 32} (hS : S.toNat < 2 ^ 30) (hT : T.toNat < 2 ^ 30) :
    ofBits (delayed S T.msb) = 2 * S.toNat := by
  have hm : T.msb = false := by
    rw [BitVec.msb_eq_decide]; simp only [decide_eq_false_iff_not]; omega
  rw [ofBits_delayed_of_lt S _ (by omega) (by omega), hm]
  rfl

/-- From a boundary, every frame delivers the mix before it. -/
theorem frames_run (fs : List Frame) (S : BitVec 32) (w : Wire) (hb : Boundary S w)
    (hS : S.toNat < 2 ^ 30) :
    (exec (wireStep ram) w (fs.flatMap Frame.events)).rx.received =
      w.rx.received ++ ((S :: mixes ram w.sys fs).dropLast).flatMap bothChannels := by
  induction fs generalizing S w with
  | nil => simp [mixes]
  | cons f fs ih =>
    obtain ⟨hb', hw⟩ := frame_run ram f w hb.lrclk hb.rx
    have hS' := mix_after_rise_lt f.rise w.sys hb.lrclk
    have hfirst : ofBits (w.rx.acc ++ [w.sys.i2s.l.msb]) = 2 * S.toNat := by
      rw [hb.acc, hb.l]; exact received_delayed hS hS
    have hsecond : ofBits (delayed w.sys.i2s.l (w.sys.lrclkEdge f.rise).mix.msb) = 2 * S.toNat := by
      rw [hb.l]; exact received_delayed hS hS'
    have hrec : (exec (wireStep ram) w f.events).rx.received = w.rx.received ++ bothChannels S := by
      simp only [Rx.received, hw, List.map_append, List.map_cons, List.map_nil, hfirst, hsecond]
      rfl
    rw [List.flatMap_cons, exec_append, ih _ _ hb' hS', hrec, wire_sys, mixes, List.append_assoc]
    simp

/-- Every mix leaves the two top bits free. -/
theorem mixes_lt (fs : List Frame) (w : Wire) (hlr : w.sys.lrclk = false)
    (hrx : w.rx.lrclk = false) : ∀ S ∈ mixes ram w.sys fs, S.toNat < 2 ^ 30 := by
  induction fs generalizing w with
  | nil => simp [mixes]
  | cons f fs ih =>
    intro S hS
    rcases List.mem_cons.mp hS with rfl | hS
    · exact mix_after_rise_lt f.rise w.sys hlr
    · obtain ⟨hb, -⟩ := frame_run ram f w hlr hrx
      rw [← wire_sys] at hS
      exact ih _ hb.lrclk hb.rx S hS

/-- Between two edges of `LRCLK` no oscillator's output changes. -/
theorem ticks_wtout (ts : List Tick) (s : St) (i : Fin 4) :
    ((exec (step ram) s (ts.map .tick)).osc i).wtout = (s.osc i).wtout ∧
      (exec (step ram) s (ts.map .tick)).lrclk = s.lrclk := by
  induction ts generalizing s with
  | nil => exact ⟨rfl, rfl⟩
  | cons t ts ih =>
    obtain ⟨h1, h2⟩ := ih (s.tick ram t)
    exact ⟨h1.trans (tick_wtout ram s t i), h2.trans (tick_lrclk ram s t)⟩

theorem half_wtout (h : Half) (es : List Ev) (hp : es <+: h.events) (s : St) (i : Fin 4) :
    ((exec (step ram) s es).osc i).wtout = (s.osc i).wtout ∧
      (exec (step ram) s es).lrclk = s.lrclk := by
  obtain ⟨ts, -, rfl⟩ := List.prefix_map_iff.mp hp
  exact ticks_wtout ram ts s i

/-- The outputs are held from a rising edge of `LRCLK` to the next. -/
theorem wtout_held (f : Frame) (s : St) (hlr : s.lrclk = false) (es : List Ev)
    (hp : .lrclk f.rise :: es <+: f.events) (i : Fin 4) :
    ((exec (step ram) s (.lrclk f.rise :: es)).osc i).wtout = (sample f.rise s.osc i).wtout := by
  have hp' : es <+: f.high.events ++ .lrclk f.fall :: f.low.events := by
    simpa [Frame.events] using hp
  have hrise : (step ram s (.lrclk f.rise)).osc = sample f.rise s.osc := rise_osc _ _ hlr
  rw [exec_cons, ← hrise]
  rcases List.prefix_or_prefix_of_prefix hp' (List.prefix_append _ _) with h | ⟨q, rfl⟩
  · exact (half_wtout ram f.high es h _ i).1
  · obtain ⟨h1, h2⟩ := half_wtout ram f.high _ (List.prefix_refl _) (step ram s (.lrclk f.rise)) i
    have hq : q <+: .lrclk f.fall :: f.low.events := by simpa using hp'
    rw [exec_append]
    rcases List.prefix_cons_iff.mp hq with rfl | ⟨t, rfl, ht⟩
    · exact h1
    · rw [exec_cons, (half_wtout ram f.low t ht _ i).1]
      -- the falling edge clocks no oscillator
      have hhigh : (exec (step ram) (step ram s (.lrclk f.rise)) f.high.events).lrclk = true := by
        rw [h2]
        show (!s.lrclk) = true
        rw [hlr]; rfl
      rw [← h1]
      exact congrArg (fun osc => (osc i).wtout) (fall_osc f.fall _ hhigh)

/-- The mix is held with them, and is their sum. -/
theorem mix_held (f : Frame) (s : St) (hlr : s.lrclk = false) (es : List Ev)
    (hp : .lrclk f.rise :: es <+: f.events) :
    (exec (step ram) s (.lrclk f.rise :: es)).mix = (s.lrclkEdge f.rise).mix ∧
      (exec (step ram) s (.lrclk f.rise :: es)).mix.toNat =
        ∑ i, ((exec (step ram) s (.lrclk f.rise :: es)).osc i).wtout.toNat := by
  have hheld := wtout_held ram f s hlr es hp
  constructor
  · rw [rise_mix _ _ hlr]
    simp only [St.mix, i2sDin, hheld]
  · refine i2sDin_sum _ fun i => ?_
    rw [hheld i]
    exact sample_wtout_lt _ _ i

theorem frames_lrclk (fs : List Frame) (s : St) (hlr : s.lrclk = false) :
    (exec (step ram) s (fs.flatMap Frame.events)).lrclk = false := by
  induction fs generalizing s with
  | nil => exact hlr
  | cons f fs ih =>
    obtain ⟨hb, -⟩ := frame_run ram f ⟨s, Rx.start⟩ hlr rfl
    have h := hb.lrclk
    rw [wire_sys] at h
    rw [List.flatMap_cons, exec_append]
    exact ih _ h

theorem mixes_at (pre : List Frame) (f : Frame) (post : List Frame) (s : St) :
    (mixes ram s (pre ++ f :: post))[pre.length]? =
      some ((exec (step ram) s (pre.flatMap Frame.events)).lrclkEdge f.rise).mix := by
  induction pre generalizing s with
  | nil => rfl
  | cons g pre ih =>
    rw [List.flatMap_cons, exec_append]
    exact ih (exec (step ram) s g.events)

/-- **Every sample reaches both channels exactly once, in order.** From any
contents of the oscillators and the serialiser, after the two words of start-up
the receiver has read, for every mix but the last one (its words are still on the
wire), twice the mix from a low half and twice the mix from the high half after
it, and nothing else; all of it below `2 ^ 31`. At any moment of a frame the mix
is the sum of the four outputs, and the one that is received. -/
theorem frames_received (osc : Fin 4 → PhaseOsc.St) (i2s : I2S.St) (fs : List Frame) :
    let s : St := ⟨osc, i2s, false⟩
    (exec (wireStep ram) ⟨s, Rx.start⟩ (fs.flatMap Frame.events)).rx.received.drop 2 =
        (mixes ram s fs).dropLast.flatMap bothChannels ∧
      (∀ S ∈ mixes ram s fs, 2 * S.toNat < 2 ^ 31) ∧
      ∀ pre f post es, fs = pre ++ f :: post → .lrclk f.rise :: es <+: f.events →
        let s' := exec (step ram) s (pre.flatMap Frame.events ++ .lrclk f.rise :: es)
        (mixes ram s fs)[pre.length]? = some s'.mix ∧
          s'.mix.toNat = ∑ i, (s'.osc i).wtout.toNat := by
  intro s
  refine ⟨?_, fun S hS => ?_, ?_⟩
  · cases fs with
    | nil => rfl
    | cons f fs =>
      obtain ⟨hb, hw⟩ := frame_run ram f ⟨s, Rx.start⟩ rfl rfl
      have hS := mix_after_rise_lt f.rise s rfl
      rw [List.flatMap_cons, exec_append, frames_run ram fs _ _ hb hS, wire_sys, mixes]
      rw [Rx.received, hw]
      rfl
  · have := mixes_lt ram fs ⟨s, Rx.start⟩ rfl rfl S hS
    omega
  · rintro pre f post es rfl hp
    dsimp only
    obtain ⟨hmix, hsum⟩ := mix_held ram f _ (frames_lrclk ram pre s rfl) es hp
    rw [exec_append, mixes_at, hmix]
    exact ⟨rfl, hmix ▸ hsum⟩

end SonicCraft.L3.StereoFrames
