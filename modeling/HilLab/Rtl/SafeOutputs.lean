import HilLab.Rtl.EventDelivery
import HilLab.Rtl.SpiFraming

namespace HilLab.Rtl.SafeOutputs

open Lib.Clocked EventFifo Generators DigitalCore EventPipeline EventDelivery

section Encoder

def Coherent (s : AbzEncoder) : Prop :=
  s.encA = s.phase.getLsbD 1 ∧ s.encB = s.phase.getLsbD 0

theorem abz_step_coherent {s : AbzEncoder} (h : Coherent s) (countsPerRev : Nat)
    (i : AbzInput) : Coherent (s.step countsPerRev i) := by
  rw [AbzEncoder.step]
  split
  · exact h
  · split
    · exact ⟨rfl, rfl⟩
    · exact h

theorem phase_eq_zero_iff {s : AbzEncoder} (h : Coherent s) :
    s.phase = 0 ↔ s.encA = false ∧ s.encB = false := by
  rw [h.1, h.2]
  generalize s.phase = phase
  revert phase
  decide

theorem abz_step_disabled {s : AbzEncoder} {i : AbzInput} (h : i.enable = false)
    (countsPerRev : Nat) :
    (s.step countsPerRev i).encA = s.encA ∧ (s.step countsPerRev i).encB = s.encB ∧
      (s.step countsPerRev i).encZ = false := by
  simp [AbzEncoder.step, h]

end Encoder

section Spi

variable {F : Nat}

def startsHigh (s : SpiEncoder F) (i : SpiInput F) : Bool :=
  s.csFall && (effectiveFrame i).getLsbD (F - 1)

def advances (s : SpiEncoder F) : Bool :=
  !s.csFall && s.frameActive && !s.csN && s.sclkFall

def shiftsHigh (s : SpiEncoder F) : Bool :=
  advances s && decide (1 < s.remainingBits) && s.shiftReg.getLsbD (F - 2)

def rests (s : SpiEncoder F) : Bool :=
  !s.csFall && !advances s && !(s.csRise && s.frameActive)

theorem shift_miso (s : SpiEncoder F) (i : SpiInput F) :
    (s.shift i).miso =
      if s.csFall then (effectiveFrame i).getLsbD (F - 1)
      else if advances s then
        decide (1 < s.remainingBits) && s.shiftReg.getLsbD (F - 2)
      else s.miso := by
  rw [SpiEncoder.shift, advances]
  cases s.csFall with
  | true => rfl
  | false =>
      simp only [Bool.not_false, Bool.true_and, Bool.false_eq_true, if_false]
      by_cases hadv : (s.frameActive && !s.csN && s.sclkFall) = true
      · rw [if_pos hadv, if_pos hadv]
        split
        · rename_i hrem
          rw [decide_eq_true hrem, Bool.true_and]
        · rename_i hrem
          rw [decide_eq_false hrem, Bool.false_and]
      · rw [if_neg hadv, if_neg hadv]

theorem step_miso (s : SpiEncoder F) (i : SpiInput F) :
    (s.step i).miso = if s.csRise && s.frameActive then false else (s.shift i).miso := by
  rw [SpiEncoder.step]
  by_cases hend : (s.csRise && s.frameActive) = true
  · rw [if_pos hend, if_pos hend]
  · rw [if_neg hend, if_neg hend]
    split <;> rfl

/-- MISO is driven by the frame alone: it is 1 after a clock edge when the
frame has moved to a 1, or rests on one. -/
theorem step_miso_iff (s : SpiEncoder F) (i : SpiInput F) :
    (s.step i).miso = true ↔
      startsHigh s i = true ∨ shiftsHigh s = true ∨
        rests s = true ∧ s.miso = true := by
  rw [step_miso, shift_miso]
  rw [startsHigh, shiftsHigh, rests]
  cases hfall : s.csFall with
  | true =>
      have hrise : s.csRise = false := by
        simp only [SpiEncoder.csFall, Bool.and_eq_true] at hfall
        simp [SpiEncoder.csRise, hfall.1]
      simp [hrise, advances, hfall]
  | false =>
      cases hadv : advances s with
      | true =>
          have hrise : s.csRise = false := by
            simp only [advances, Bool.and_eq_true, Bool.not_eq_true'] at hadv
            simp [SpiEncoder.csRise, hadv.1.2]
          simp [hrise]
      | false => simp

end Spi

section Core

variable {F W : Nat} (c : Params F) (mem : Nat → Event W 16) (x : Nat → CoreInput)

def activeAt (n : Nat) : Bool := (coreAt (W := W) c mem x n).hilActive (x n)

def abzAt (n : Nat) : AbzEncoder := (coreAt (W := W) c mem x n).abz

def spiAt (n : Nat) : SpiEncoder F := (coreAt (W := W) c mem x n).spi

/-- The law of the board tops: one clock after HIL goes inactive, and as long as
it stays so, every stimulus output is 0. -/
def OutputsSafe : Prop :=
  ∀ n, activeAt (W := W) c mem x n = false → activeAt (W := W) c mem x (n + 1) = false →
    (abzAt (W := W) c mem x (n + 1)).encA = false ∧
      (abzAt (W := W) c mem x (n + 1)).encB = false ∧
      (abzAt (W := W) c mem x (n + 1)).encZ = false ∧
      (spiAt (W := W) c mem x (n + 1)).miso = false ∧
      (coreAt (W := W) c mem x (n + 1)).dio.dioOut = 0

def FallsAfter (n : Nat) : Prop :=
  activeAt (W := W) c mem x n = true ∧ activeAt (W := W) c mem x (n + 1) = false ∧
    activeAt (W := W) c mem x (n + 2) = false

/-- HIL only goes inactive with the encoder in phase 00 and no 1 resting on MISO,
and no SPI frame drives a 1 while it is inactive. -/
structure StopsLow : Prop where
  encoder : ∀ n, FallsAfter (W := W) c mem x n → (abzAt (W := W) c mem x (n + 1)).phase = 0
  resting : ∀ n, FallsAfter (W := W) c mem x n →
    rests (spiAt (W := W) c mem x (n + 1)) = true →
      (spiAt (W := W) c mem x (n + 1)).miso = false
  frame : ∀ n, activeAt (W := W) c mem x n = false → activeAt (W := W) c mem x (n + 1) = false →
    startsHigh (spiAt (W := W) c mem x n) (spiInput c (x n)) = false ∧
      shiftsHigh (spiAt (W := W) c mem x n) = false

theorem abzAt_coherent (n : Nat) : Coherent (abzAt (W := W) c mem x n) :=
  wave_invariant (P := fun s : Core F W => Coherent s.abz) (by simp [Coherent, Core.reset, AbzEncoder.reset])
    (fun s i h => abz_step_coherent h encoderCountsPerRev (s.abzInput i)) x n

theorem abzAt_succ_inactive {n : Nat} (h : activeAt (W := W) c mem x n = false) :
    (abzAt (W := W) c mem x (n + 1)).encA = (abzAt (W := W) c mem x n).encA ∧
      (abzAt (W := W) c mem x (n + 1)).encB = (abzAt (W := W) c mem x n).encB ∧
      (abzAt (W := W) c mem x (n + 1)).encZ = false := by
  have hen : ((coreAt (W := W) c mem x n).abzInput (x n)).enable = false := by
    have hact : (coreAt (W := W) c mem x n).hilActive (x n) = false := h
    simp [Core.abzInput, hact]
  exact abz_step_disabled hen encoderCountsPerRev

theorem dioOut_succ_inactive {n : Nat} (h : activeAt (W := W) c mem x n = false) :
    (coreAt (W := W) c mem x (n + 1)).dio.dioOut = 0 := by
  have hidle : (pipelineInputAt (W := W) c mem x n).hilActive = false := h
  have hsafe := (sched_safe (p := pipelineAt (W := W) c mem x n) hidle).2.1
  rw [← pipelineAt_succ] at hsafe
  exact hsafe

theorem misoAt_succ_iff (n : Nat) :
    (spiAt (W := W) c mem x (n + 1)).miso = true ↔
      startsHigh (spiAt (W := W) c mem x n) (spiInput c (x n)) = true ∨
        shiftsHigh (spiAt (W := W) c mem x n) = true ∨
          rests (spiAt (W := W) c mem x n) = true ∧
            (spiAt (W := W) c mem x n).miso = true :=
  step_miso_iff (spiAt (W := W) c mem x n) (spiInput c (x n))

theorem inactive_step {n : Nat} (h : StopsLow (W := W) c mem x)
    (h0 : activeAt (W := W) c mem x n = false)
    (h1 : activeAt (W := W) c mem x (n + 1) = false)
    (ha : (abzAt (W := W) c mem x n).encA = false) (hb : (abzAt (W := W) c mem x n).encB = false)
    (hm : rests (spiAt (W := W) c mem x n) = true →
      (spiAt (W := W) c mem x n).miso = false) :
    (abzAt (W := W) c mem x (n + 1)).encA = false ∧
      (abzAt (W := W) c mem x (n + 1)).encB = false ∧
      (abzAt (W := W) c mem x (n + 1)).encZ = false ∧
      (spiAt (W := W) c mem x (n + 1)).miso = false ∧
      (coreAt (W := W) c mem x (n + 1)).dio.dioOut = 0 := by
  obtain ⟨ha', hb', hz'⟩ := abzAt_succ_inactive c mem x h0
  refine ⟨ha'.trans ha, hb'.trans hb, hz', ?_, dioOut_succ_inactive c mem x h0⟩
  rw [← Bool.not_eq_true, misoAt_succ_iff]
  rintro (hs | hs | ⟨hr, hs⟩)
  · rw [(h.frame n h0 h1).1] at hs
    cases hs
  · rw [(h.frame n h0 h1).2] at hs
    cases hs
  · rw [hm hr] at hs
    cases hs

theorem outputsSafe_of_stopsLow (h : StopsLow (W := W) c mem x) : OutputsSafe (W := W) c mem x := by
  intro n
  induction n with
  | zero => exact fun h0 h1 => inactive_step c mem x h h0 h1 rfl rfl (fun _ => rfl)
  | succ n ih =>
      intro h1 h2
      cases h0 : activeAt (W := W) c mem x n with
      | false =>
          obtain ⟨ha, hb, _, hm, _⟩ := ih h0 h1
          exact inactive_step c mem x h h1 h2 ha hb (fun _ => hm)
      | true =>
          have hfall : FallsAfter (W := W) c mem x n := ⟨h0, h1, h2⟩
          obtain ⟨ha, hb⟩ :=
            (phase_eq_zero_iff (abzAt_coherent c mem x (n + 1))).mp (h.encoder n hfall)
          exact inactive_step c mem x h h1 h2 ha hb (h.resting n hfall)

/-- The core meets the law of the board tops exactly in the runs that stop the
encoder and the SPI frame at low levels by themselves: nothing gates A, B and
MISO. -/
theorem outputsSafe_iff_stopsLow : OutputsSafe (W := W) c mem x ↔ StopsLow (W := W) c mem x := by
  refine ⟨fun h => ⟨?_, ?_, ?_⟩, outputsSafe_of_stopsLow c mem x⟩
  · rintro n ⟨_, h1, h2⟩
    obtain ⟨ha, hb, _⟩ := h (n + 1) h1 h2
    obtain ⟨ha', hb', _⟩ := abzAt_succ_inactive c mem x h1
    exact (phase_eq_zero_iff (abzAt_coherent c mem x (n + 1))).mpr
      ⟨ha'.symm.trans ha, hb'.symm.trans hb⟩
  · rintro n ⟨_, h1, h2⟩ hr
    have hlow := (h (n + 1) h1 h2).2.2.2.1
    rw [← Bool.not_eq_true] at hlow ⊢
    exact fun hm => hlow ((misoAt_succ_iff c mem x (n + 1)).mpr (Or.inr (Or.inr ⟨hr, hm⟩)))
  · intro n h0 h1
    have hlow := (h n h0 h1).2.2.2.1
    rw [← Bool.not_eq_true, misoAt_succ_iff] at hlow
    exact ⟨Bool.not_eq_true _ ▸ fun hs => hlow (Or.inl hs),
      Bool.not_eq_true _ ▸ fun hs => hlow (Or.inr (Or.inl hs))⟩

/-- CS falls out of reset, so a frame whose first bit is 1 is never at rest while HIL is. -/
theorem StopsLow.frame_low (h : StopsLow (W := W) c mem x) : c.spiFrameData.getLsbD (F - 1) = false := by
  have hfirst := (h.frame 0 rfl rfl).1
  rw [startsHigh, Bool.and_eq_false_iff] at hfirst
  have hfall : (spiAt (W := W) c mem x 0).csFall = true := by
    change (true && !(0#3).getLsbD 2) = true
    decide
  exact hfirst.resolve_left (fun h => nomatch hfall.symm.trans h)

theorem frame_rests (hcs : ∀ n, (x n).spiCsNIn = true) (n : Nat) :
    startsHigh (spiAt (W := W) c mem x (n + 2)) (spiInput c (x (n + 2))) = false ∧
      shiftsHigh (spiAt (W := W) c mem x (n + 2)) = false := by
  have hcsN : (spiAt (W := W) c mem x (n + 2)).csN = true := by
    have hsync : (spiAt (W := W) c mem x (n + 2)).sync.syncReg =
        BitVec.ofBool (x n).spiCsNIn ++ BitVec.ofBool (x n).spiSclkIn ++
          BitVec.ofBool (x n).spiMosiIn := by
      have hnext (k : Nat) := (SpiFraming.step_sync (spiAt (W := W) c mem x k) (spiInput c (x k))).1
      have hlast : (spiAt (W := W) c mem x (n + 2)).sync = _ := hnext (n + 1)
      have hfirst : (spiAt (W := W) c mem x (n + 1)).sync = _ := hnext n
      rw [hlast, hfirst]
      rfl
    rw [SpiEncoder.csN, Common.Sync2ff.bit, hsync, hcs n]
    cases (x n).spiSclkIn <;> cases (x n).spiMosiIn <;> decide
  simp [startsHigh, shiftsHigh, advances, SpiEncoder.csFall, hcsN]

/-- Software starts the encoder at one edge per clock and asserts FORCE_SAFE two
edges later. -/
def stopMidPhase : List (BitVec 12 × BitVec 32) :=
  [(ControlPlane.regAbzStep, 1), (ControlPlane.regControl, 0x19), (ControlPlane.regControl, 0x1A)]

/-- The encoder stays in phase 11 under FORCE_SAFE. -/
theorem stopMidPhase_leaves_enc_high :
    (activeAt (W := 16) sampleParams sampleMem (writeWave stopMidPhase) 6 = false ∧
      activeAt (W := 16) sampleParams sampleMem (writeWave stopMidPhase) 7 = false ∧
      (abzAt (W := 16) sampleParams sampleMem (writeWave stopMidPhase) 7).encA = true ∧
      (abzAt (W := 16) sampleParams sampleMem (writeWave stopMidPhase) 7).encB = true) ∧
    ¬ OutputsSafe (W := 16) sampleParams sampleMem (writeWave stopMidPhase) := by
  have hrun : activeAt (W := 16) sampleParams sampleMem (writeWave stopMidPhase) 6 = false ∧
      activeAt (W := 16) sampleParams sampleMem (writeWave stopMidPhase) 7 = false ∧
      (abzAt (W := 16) sampleParams sampleMem (writeWave stopMidPhase) 7).encA = true ∧
      (abzAt (W := 16) sampleParams sampleMem (writeWave stopMidPhase) 7).encB = true := by
    decide +kernel
  refine ⟨hrun, fun h => ?_⟩
  have hhigh := hrun.2.2.1
  rw [(h 6 hrun.1 hrun.2.1).1] at hhigh
  cases hhigh

/-- A frame whose first bit is 0. -/
def lowFrame : Params 24 := { sampleParams with spiFrameData := 0x255A3C }

/-- The encoder turns twice round its phases, and the board's pin stops it in phase 00. -/
def stopAtZero (n : Nat) : CoreInput :=
  if n < 12 then writeWave [(ControlPlane.regAbzStep, 1), (ControlPlane.regControl, 0x19)] n
  else { CoreInput.quiet with externalForceSafe := true }

theorem outputsSafe_iff_stopsLow_zero :
    activeAt (W := 16) lowFrame sampleMem stopAtZero 11 = true ∧
      OutputsSafe (W := 16) lowFrame sampleMem stopAtZero := by
  have hcs : ∀ n, (stopAtZero n).spiCsNIn = true := by
    intro n
    rw [stopAtZero, writeWave]
    split_ifs
    · split <;> rfl
    · rfl
    · rfl
  have hoff : ∀ n, 12 ≤ n → activeAt (W := 16) lowFrame sampleMem stopAtZero n = false := by
    intro n hn
    have hpin : (stopAtZero n).externalForceSafe = true := by
      rw [stopAtZero, if_neg (Nat.not_lt_of_ge hn)]
    have hsafe : (coreAt (W := 16) lowFrame sampleMem stopAtZero n).cfgForceSafe (stopAtZero n) = true :=
      Bool.or_eq_true_iff.mpr (.inr hpin)
    rw [activeAt, Core.hilActive, hsafe, Bool.not_true, Bool.and_false]
  have hlow : ∀ n < 12, FallsAfter (W := 16) lowFrame sampleMem stopAtZero n →
      (abzAt (W := 16) lowFrame sampleMem stopAtZero (n + 1)).phase = 0 ∧
        (spiAt (W := 16) lowFrame sampleMem stopAtZero (n + 1)).miso = false := by
    unfold FallsAfter
    decide +kernel
  have hfirst : ∀ n < 2, startsHigh (spiAt (W := 16) lowFrame sampleMem stopAtZero n)
      (spiInput lowFrame (stopAtZero n)) = false ∧
        shiftsHigh (spiAt (W := 16) lowFrame sampleMem stopAtZero n) = false := by
    decide +kernel
  have hbefore : ∀ n, FallsAfter (W := 16) lowFrame sampleMem stopAtZero n → n < 12 := by
    intro n hfall
    by_contra hge
    have hon := hfall.1
    rw [hoff n (Nat.le_of_not_lt hge)] at hon
    cases hon
  refine ⟨by decide +kernel, (outputsSafe_iff_stopsLow lowFrame sampleMem stopAtZero).mpr
    ⟨fun n hfall => (hlow n (hbefore n hfall) hfall).1,
      fun n hfall _ => (hlow n (hbefore n hfall) hfall).2, fun n _ _ => ?_⟩⟩
  by_cases hn : n < 2
  · exact hfirst n hn
  · obtain ⟨k, rfl⟩ := Nat.exists_eq_add_of_le' (Nat.le_of_not_lt hn)
    exact frame_rests lowFrame sampleMem stopAtZero hcs k

end Core

end HilLab.Rtl.SafeOutputs
