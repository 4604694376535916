import SonicCraft.Core.LTS
import SonicCraft.Core.Serial

/-!
# `I2S`: the stereo serialiser

Modules/I2S.sv. Two 32-bit registers take turns: while `LRCLK` is high `R` is
loaded from `Din` at every `SCLK` edge and `L` is shifted out, while it is low
`L` is loaded and `R` is shifted out. `out` and `fill` name the two registers by
their turn; an `LRCLK` edge swaps the turns and moves no data.

`word_on_wire`: whatever came before, the edges of one half show the word that
`Din` had at the last edge of the half before, top bit first, and zeros after
its 32 bits.
-/
namespace SonicCraft.L1.I2S

structure St where
  l : BitVec 32
  r : BitVec 32
  deriving DecidableEq, Repr

/-- mirrors Modules/I2S.sv:9-18 -/
def St.posedge (lrclk : Bool) (din : BitVec 32) (s : St) : St :=
  if lrclk then { r := din, l := s.l.extractLsb' 0 31 ++ 0#1 }
  else { l := din, r := s.r.extractLsb' 0 31 ++ 0#1 }

/-- mirrors Modules/I2S.sv:20-23 -/
def St.dout (lrclk : Bool) (s : St) : Bool := if lrclk then s.l.getLsbD 31 else s.r.getLsbD 31

/-- The register being shifted out. -/
def St.out (lrclk : Bool) (s : St) : BitVec 32 := if lrclk then s.l else s.r

/-- The register being loaded. -/
def St.fill (lrclk : Bool) (s : St) : BitVec 32 := if lrclk then s.r else s.l

@[simp] theorem out_not (c : Bool) (s : St) : s.out (!c) = s.fill c := by cases c <;> rfl

theorem dout_eq (c : Bool) (s : St) : s.dout c = (s.out c).msb := by
  cases c <;> rw [BitVec.msb_eq_getLsbD_last] <;> rfl

/-- `{x[30:0], 1'b0}` is a shift. -/
theorem shift_eq (x : BitVec 32) : x.extractLsb' 0 31 ++ 0#1 = x <<< 1 := by
  apply BitVec.eq_of_toNat_eq
  rw [BitVec.toNat_append, BitVec.toNat_shiftLeft, BitVec.extractLsb'_toNat, Nat.shiftRight_zero,
    BitVec.toNat_ofNat, Nat.or_zero, Nat.shiftLeft_eq, Nat.shiftLeft_eq]
  omega

@[simp] theorem posedge_out (c : Bool) (din : BitVec 32) (s : St) :
    (s.posedge c din).out c = s.out c <<< 1 := by
  cases c <;> simp [St.posedge, St.out, shift_eq]

@[simp] theorem posedge_fill (c : Bool) (din : BitVec 32) (s : St) :
    (s.posedge c din).fill c = din := by
  cases c <;> rfl

/-! ## Runs -/

/-- A rising `SCLK` edge with `LRCLK` and `Din` at it. -/
structure Edge where
  lrclk : Bool
  din : BitVec 32
  deriving DecidableEq, Repr

def step (s : St) (e : Edge) : St := s.posedge e.lrclk e.din

/-- `Dout` just before each edge of a run from `s`. -/
abbrev douts (s : St) (es : List Edge) : List Bool := samples step (fun s e => s.dout e.lrclk) s es

theorem douts_append (s : St) (es es' : List Edge) :
    douts s (es ++ es') = douts s es ++ douts (exec step s es) es' := samples_append _ _ _ _ _

/-- While `LRCLK` keeps its value the wire shows one register being shifted out,
whatever `Din` does. -/
theorem douts_half (c : Bool) (dins : List (BitVec 32)) (s : St) :
    douts s (dins.map (Edge.mk c)) = Serial.shiftOut dins.length (s.out c) := by
  induction dins generalizing s with
  | nil => rfl
  | cons d dins ih =>
    show s.dout c :: douts (s.posedge c d) (dins.map (Edge.mk c)) = _
    rw [ih, posedge_out, dout_eq]
    rfl

/-- The register that is shifted out next holds the last word it was loaded with. -/
theorem out_after_other (s : St) (c : Bool) (din : BitVec 32) :
    (step s ⟨!c, din⟩).out c = din := by
  rw [← Bool.not_not c, out_not, Bool.not_not]
  exact posedge_fill (!c) din s

/-- **Round trip.** In every run, an edge of the other channel with `Din = D` and
then `k` edges of channel `c`: the bit before the `j`-th of these is bit `31 - j`
of `D`, and 0 from the 33rd on, whatever `Din` is there; so the first 32 bits
read as `D`. -/
theorem word_on_wire (s : St) (pre post : List Edge) (c : Bool) (D : BitVec 32)
    (dins : List (BitVec 32)) :
    let half := ((douts s (pre ++ ⟨!c, D⟩ :: (dins.map (Edge.mk c) ++ post))).drop
      (pre.length + 1)).take dins.length
    half = (List.range dins.length).map (fun j => decide (j < 32) && D.getLsbD (31 - j)) ∧
      (32 ≤ dins.length → Serial.ofBits (half.take 32) = D.toNat) := by
  intro half
  have hhalf : half = Serial.shiftOut dins.length D := by
    have hsplit : pre ++ ⟨!c, D⟩ :: (dins.map (Edge.mk c) ++ post) =
        (pre ++ [⟨!c, D⟩]) ++ (dins.map (Edge.mk c) ++ post) := by simp
    have hlen : (douts s (pre ++ [⟨!c, D⟩])).length = pre.length + 1 := by simp
    have hloaded : (exec step s (pre ++ [⟨!c, D⟩])).out c = D := by
      rw [exec_snoc]
      exact out_after_other _ c D
    -- behind the edges that load `D`
    have hdrop : (douts s (pre ++ ⟨!c, D⟩ :: (dins.map (Edge.mk c) ++ post))).drop (pre.length + 1) =
        douts (exec step s (pre ++ [⟨!c, D⟩])) (dins.map (Edge.mk c) ++ post) := by
      rw [hsplit, douts_append, ← hlen, List.drop_left]
    have htake : (douts (exec step s (pre ++ [⟨!c, D⟩])) (dins.map (Edge.mk c) ++ post)).take
        dins.length = douts (exec step s (pre ++ [⟨!c, D⟩])) (dins.map (Edge.mk c)) := by
      rw [douts_append]
      exact List.take_left' (by simp)
    calc half = douts (exec step s (pre ++ [⟨!c, D⟩])) (dins.map (Edge.mk c)) := by
          rw [← htake, ← hdrop]
      _ = Serial.shiftOut dins.length D := by rw [douts_half, hloaded]
  refine ⟨hhalf.trans (Serial.shiftOut_eq_map _ _), fun hk => ?_⟩
  rw [hhalf, Serial.take_shiftOut _ hk]
  exact Serial.ofBits_word D

/-- A half of 33 edges in which `Din` changes, after one that ended with
`0xdeadbeef`. -/
theorem word_on_wire_example :
    Serial.ofBits ((((douts ⟨0, 0⟩ ([] ++ ⟨!true, 0xdeadbeef#32⟩ ::
      ((List.replicate 33 1#32).map (Edge.mk true) ++ []))).drop 1).take 33).take 32) =
        0xdeadbeef :=
  (word_on_wire ⟨0, 0⟩ [] [] true 0xdeadbeef#32 (List.replicate 33 1#32)).2 (by decide)

end SonicCraft.L1.I2S
