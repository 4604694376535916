import SonicCraft.Core.Accumulator
import SonicCraft.L1Rtl.PhaseOsc

/-!
# `Phase_OSC` over whole runs

The two clocks of one oscillator in any order. Between the frequency input and
the output lie four registers: an `FSCLK` edge takes `FreqRegInputVal` into
`FreqReg`, the next one adds it to `PhaseReg`, a `MasterCLK` edge reads the table
there, and the `FSCLK` edge after that multiplies the word with the velocity it
sees itself.

`PhaseReg` is a wrapping accumulator (`SonicCraft.Accumulator`), which gives the
phase as a plain sum of the inputs one edge earlier (`phase_after`).
`osc_trace` puts the pipeline together: the output at an edge in terms of all
inputs so far, and the number of wraps under a held frequency.
-/
namespace SonicCraft.L1.PhaseOsc

/-- A rising edge of one of the two clocks, with the inputs the edge samples. -/
inductive Ev where
  | fsClk (freqRegInputVal : BitVec 24) (velocity : BitVec 7)
  | masterClk
  deriving DecidableEq, Repr

def step (ram : Ram) (s : St) : Ev → St
  | .fsClk freqRegInputVal velocity => s.fsClk freqRegInputVal velocity
  | .masterClk => s.masterClk ram

def Ev.isFs : Ev → Bool
  | .fsClk _ _ => true
  | .masterClk => false

/-- `FSCLK` edges of a run. -/
def edges (es : List Ev) : Nat := es.countP Ev.isFs

@[simp] theorem edges_nil : edges [] = 0 := rfl

@[simp] theorem edges_fsClk (f : BitVec 24) (v : BitVec 7) (es : List Ev) :
    edges (.fsClk f v :: es) = edges es + 1 := List.countP_cons_of_pos rfl

@[simp] theorem edges_masterClk (es : List Ev) : edges (.masterClk :: es) = edges es :=
  List.countP_cons_of_neg (by decide)

@[simp] theorem edges_append (es es' : List Ev) : edges (es ++ es') = edges es + edges es' :=
  List.countP_append

/-- The frequencies presented at the `FSCLK` edges of a run. -/
def freqs (es : List Ev) : List Nat :=
  es.filterMap fun
    | .fsClk f _ => some f.toNat
    | .masterClk => none

@[simp] theorem freqs_fsClk (f : BitVec 24) (v : BitVec 7) (es : List Ev) :
    freqs (.fsClk f v :: es) = f.toNat :: freqs es := rfl

@[simp] theorem freqs_masterClk (es : List Ev) : freqs (.masterClk :: es) = freqs es := rfl

/-! ## The phase -/

/-- What an edge adds to the phase. -/
def inc (s : St) : Ev → BitVec 24
  | .fsClk _ _ => s.freqReg
  | .masterClk => 0

variable (ram : Ram)

theorem adds : Accumulator.Adds (step ram) St.phaseReg inc := by
  intro s e
  cases e with
  | fsClk f v => rfl
  | masterClk => exact (BitVec.add_zero _).symm

/-- The edge wraps the phase. -/
def wraps (s : St) (e : Ev) : Bool := Accumulator.carries St.phaseReg inc s e

/-- `FreqReg` delays the inputs by one edge. -/
theorem total_freqReg (es : List Ev) (s : St) :
    Accumulator.total (step ram) inc s es + (exec (step ram) s es).freqReg.toNat =
      s.freqReg.toNat + (freqs es).sum := by
  induction es generalizing s with
  | nil => simp [Accumulator.total, samples, freqs]
  | cons e es ih =>
    have hes := ih (step ram s e)
    rw [Accumulator.total_cons, exec_cons]
    cases e with
    | fsClk f v =>
      have hr : (step ram s (.fsClk f v)).freqReg = f := rfl
      have hi : inc s (.fsClk f v) = s.freqReg := rfl
      rw [hr] at hes
      rw [freqs_fsClk, List.sum_cons, hi]; omega
    | masterClk =>
      have hr : (step ram s .masterClk).freqReg = s.freqReg := rfl
      have hi : (inc s .masterClk).toNat = 0 := rfl
      rw [hr] at hes
      rw [freqs_masterClk, hi]; omega

/-- The phase after an `FSCLK` edge: the sum of the frequencies presented before
it, from the register's initial one on. -/
theorem phase_after (a : List Ev) (f : BitVec 24) (v : BitVec 7) (s : St) :
    (exec (step ram) s (a ++ [.fsClk f v])).phaseReg.toNat =
      (s.phaseReg.toNat + (s.freqReg.toNat + (freqs a).sum)) % 2 ^ 24 := by
  rw [(adds ram).value_run, Accumulator.total_snoc, ← total_freqReg ram a s]
  rfl

/-- Table reads leave everything but `WTTemp` alone. -/
theorem masters (k : Nat) (s : St) :
    exec (step ram) s (List.replicate (k + 1) .masterClk) = s.masterClk ram := by
  induction k with
  | zero => rfl
  | succ k ih => rw [List.replicate_succ', exec_snoc, ih]; rfl

theorem addr_toNat (s : St) : s.addr.toNat = s.phaseReg.toNat / 4096 := by
  have := s.phaseReg.isLt
  simp only [St.addr, BitVec.extractLsb'_toNat, Nat.shiftRight_eq_div_pow]
  omega

/-- The output at the edge after the table was read. -/
theorem fsClk_after_read (k : Nat) (f : BitVec 24) (v : BitVec 7) (s : St) :
    (exec (step ram) s (List.replicate (k + 1) .masterClk ++ [.fsClk f v])).wtout.toNat =
      32 * ((ram s.addr).toNat * v.toNat) := by
  rw [exec_snoc, masters]
  exact fsClk_wtout_toNat f v (s.masterClk ram)

/-! ## A held frequency -/

/-- If the edge accumulates, it adds `f`. -/
def Held (f : BitVec 24) (s : St) (e : Ev) : Prop := e.isFs = true → s.freqReg = f

instance (f : BitVec 24) (s : St) (e : Ev) : Decidable (Held f s e) := by
  unfold Held; exact inferInstance

theorem total_held (f : BitVec 24) (es : List Ev) (s : St) (h : Along (step ram) (Held f) s es) :
    Accumulator.total (step ram) inc s es = edges es * f.toNat := by
  induction es generalizing s with
  | nil => simp [Accumulator.total, samples]
  | cons e es ih =>
    rw [Accumulator.total_cons, ih _ h.2]
    cases e with
    | fsClk f' v =>
      have hf : inc s (.fsClk f' v) = f := h.1 rfl
      rw [hf, edges_fsClk]; ring
    | masterClk =>
      have hi : (inc s .masterClk).toNat = 0 := rfl
      rw [edges_masterClk, hi, Nat.zero_add]

/-! ## The trace -/

/-- What every run from power-up shows. -/
structure Trace (s₀ : St) : Prop where
  /-- After edge `n`, whose predecessors presented `freqs a`. -/
  phase : ∀ a f v, (exec (step ram) s₀ (a ++ [.fsClk f v])).phaseReg.toNat =
    (s₀.freqReg.toNat + (freqs a).sum) % 2 ^ 24
  /-- At edge `n + 1`, with at least one table read since edge `n`. -/
  output : ∀ a f v k f' v',
    (exec (step ram) s₀
        (a ++ .fsClk f v :: (List.replicate (k + 1) .masterClk ++ [.fsClk f' v']))).wtout.toNat =
      32 * (ram (BitVec.ofNat 12 ((s₀.freqReg.toNat + (freqs a).sum) % 2 ^ 24 / 4096))).toNat *
        v'.toNat
  addr : ∀ es, (exec (step ram) s₀ es).addr.toNat =
    (exec (step ram) s₀ es).phaseReg.toNat / 4096 ∧ (exec (step ram) s₀ es).addr.toNat < 4096
  /-- While `f` is held, from any moment of the run. -/
  pitch : ∀ a es f, Along (step ram) (Held f) (exec (step ram) s₀ a) es →
    hits (step ram) wraps (exec (step ram) s₀ a) es =
      ((exec (step ram) s₀ a).phaseReg.toNat + edges es * f.toNat) / 2 ^ 24

/-- **Exact oscillator trace**, for every sequence of inputs and every table. -/
theorem osc_trace (wtTemp : BitVec 16) (wtout : BitVec 32) : Trace ram (init wtTemp wtout) where
  phase a f v := by
    rw [phase_after]
    show (0 + _) % 2 ^ 24 = _
    rw [Nat.zero_add]
  output a f v k f' v' := by
    have hphase := phase_after ram a f v (init wtTemp wtout)
    have hzero : (init wtTemp wtout).phaseReg.toNat = 0 := rfl
    rw [hzero, Nat.zero_add] at hphase
    rw [← List.singleton_append, ← List.append_assoc, exec_append, fsClk_after_read, Nat.mul_assoc,
      ← hphase, ← addr_toNat, BitVec.ofNat_toNat, BitVec.setWidth_eq]
  addr es := ⟨addr_toNat _, (exec (step ram) _ es).addr.isLt⟩
  pitch a es f h := by
    show hits (step ram) (Accumulator.carries St.phaseReg inc) _ es = _
    rw [(adds ram).wraps_run, total_held ram f es _ h]

/-- Half a turn per edge wraps at every second one. -/
theorem osc_trace_example :
    hits (step fun _ => 0) wraps
        (exec (step fun _ => 0) (init 0 0) [.fsClk 0 0, .fsClk 0x800000#24 1])
        [.masterClk, .fsClk 0x800000#24 1, .masterClk, .fsClk 0x800000#24 1] =
      ((exec (step fun _ => 0) (init 0 0) [.fsClk 0 0, .fsClk 0x800000#24 1]).phaseReg.toNat +
        2 * (0x800000#24).toNat) / 2 ^ 24 :=
  (osc_trace (fun _ => 0) 0 0).pitch [.fsClk 0 0, .fsClk 0x800000#24 1]
    [.masterClk, .fsClk 0x800000#24 1, .masterClk, .fsClk 0x800000#24 1] 0x800000#24 (by decide)

end SonicCraft.L1.PhaseOsc
