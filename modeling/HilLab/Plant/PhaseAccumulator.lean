import HilLab.Lib.Clocked
import HilLab.Plant.PmsmDqPlant

namespace HilLab.Plant.PhaseAccumulator

open Lib.Clocked Lib.FixedPoint PmsmDqPlant

def deltaPhaseExt (omegaRadSQ16 kRadToTurnQ32 : BitVec 32) : BitVec 48 :=
  ((omegaRadSQ16.signExtend 64 * kRadToTurnQ32.signExtend 64).sshiftRight 16).setWidth 48

/-- One clock of phase_accumulator_q32. -/
def accumulate (clear updateEn : Bool) (omegaRadSQ16 kRadToTurnQ32 phaseTurnQ32 : BitVec 32) :
    BitVec 32 :=
  if clear then 0
  else if updateEn then
    phaseTurnQ32 + (deltaPhaseExt omegaRadSQ16 kRadToTurnQ32).extractLsb' 0 32
  else phaseTurnQ32

structure AngleInput where
  clearFaults : Bool
  modelUpdate : Bool
  omegaMQ16 : BitVec 32

/-- The electrical and the mechanical accumulator of pmsm_closed_loop_hil_q16. -/
structure Angles where
  electricalPhaseQ32 : BitVec 32
  mechanicalPhaseQ32 : BitVec 32

def Angles.reset : Angles := { electricalPhaseQ32 := 0, mechanicalPhaseQ32 := 0 }

def Angles.step (polePairs : BitVec 16) (k : BitVec 32) (s : Angles) (i : AngleInput) : Angles :=
  { electricalPhaseQ32 :=
      accumulate i.clearFaults i.modelUpdate (omegaEQ16 polePairs i.omegaMQ16) k
        s.electricalPhaseQ32
    mechanicalPhaseQ32 :=
      accumulate i.clearFaults i.modelUpdate i.omegaMQ16 k s.mechanicalPhaseQ32 }

def Angles.encoderWord24 (s : Angles) : BitVec 24 :=
  s.mechanicalPhaseQ32.extractLsb' 16 16 ++ (0 : BitVec 8)

def Angles.difference (polePairs : BitVec 16) (s : Angles) : BitVec 32 :=
  s.electricalPhaseQ32 - BitVec.ofInt 32 polePairs.toNat * s.mechanicalPhaseQ32

/-- What one update adds to the difference: the fraction the mechanical
increment drops, multiplied by the pole pairs and rounded down again. -/
def driftStep (polePairs : Nat) (omegaM k : Int) : Int := polePairs * (omegaM * k % 2 ^ 16) / 2 ^ 16

/-- The sum of the drift steps since the last clear, before cycle n. -/
def drift (polePairs : BitVec 16) (k : BitVec 32) (x : Nat → AngleInput) : Nat → Int
  | 0 => 0
  | n + 1 =>
      if (x n).clearFaults then 0
      else if (x n).modelUpdate then
        drift polePairs k x n + driftStep polePairs.toNat (x n).omegaMQ16.toInt k.toInt
      else drift polePairs k x n

def updates (x : Nat → AngleInput) : Nat → Nat
  | 0 => 0
  | n + 1 =>
      if (x n).clearFaults then 0
      else if (x n).modelUpdate then updates x n + 1
      else updates x n

theorem deltaPhase_eq (omega k : BitVec 32) :
    (deltaPhaseExt omega k).extractLsb' 0 32 = BitVec.ofInt 32 (floorMul 16 omega.toInt k.toInt) := by
  rw [← mul_eq_ofInt, mul, deltaPhaseExt]
  ext j hj
  have hj' : j < 48 := by omega
  simp only [BitVec.getElem_extractLsb', BitVec.getLsbD_setWidth, BitVec.getElem_setWidth,
    Nat.zero_add, hj', decide_true, Bool.true_and]

theorem floorMul_sub (p ω k : Int) :
    floorMul 16 (p * ω) k - p * floorMul 16 ω k = p * (ω * k % 2 ^ 16) / 2 ^ 16 := by
  have hsplit : p * ω * k = p * (ω * k % 2 ^ 16) + 2 ^ 16 * (p * (ω * k / 2 ^ 16)) := by
    calc p * ω * k = p * (ω * k % 2 ^ 16 + 2 ^ 16 * (ω * k / 2 ^ 16)) := by
          rw [Int.emod_add_mul_ediv, Int.mul_assoc]
      _ = p * (ω * k % 2 ^ 16) + 2 ^ 16 * (p * (ω * k / 2 ^ 16)) := by
          rw [Int.mul_add, Int.mul_left_comm]
  rw [floorMul, floorMul, hsplit, Int.add_mul_ediv_left _ _ (by decide)]
  omega

theorem driftStep_nonneg (p : Nat) (ω k : Int) : 0 ≤ driftStep p ω k := by
  have hr : 0 ≤ ω * k % 2 ^ 16 := Int.emod_nonneg _ (by decide)
  exact Int.ediv_nonneg (Int.mul_nonneg (Int.natCast_nonneg p) hr) (by decide)

theorem driftStep_le (p : Nat) (ω k : Int) : driftStep p ω k ≤ ((p - 1 : Nat) : Int) := by
  have hr : ω * k % 2 ^ 16 < 2 ^ 16 := Int.emod_lt_of_pos _ (by decide)
  cases p with
  | zero => simp [driftStep]
  | succ q =>
      have hlt : ((q + 1 : Nat) : Int) * (ω * k % 2 ^ 16) < ((q + 1 : Nat) : Int) * 2 ^ 16 :=
        Int.mul_lt_mul_of_pos_left hr (by omega)
      have := Int.ediv_lt_of_lt_mul (by decide) hlt
      rw [driftStep]
      omega

section Run

variable {polePairs : BitVec 16} {k : BitVec 32} {x : Nat → AngleInput}

theorem difference_step (s : Angles) (i : AngleInput)
    (hω : (omegaEQ16 polePairs i.omegaMQ16).toInt = polePairs.toNat * i.omegaMQ16.toInt) :
    (s.step polePairs k i).difference polePairs =
      if i.clearFaults then 0
      else if i.modelUpdate then
        s.difference polePairs +
          BitVec.ofInt 32 (driftStep polePairs.toNat i.omegaMQ16.toInt k.toInt)
      else s.difference polePairs := by
  rw [Angles.difference, Angles.step]
  cases i.clearFaults with
  | true => simp [accumulate]
  | false =>
      cases i.modelUpdate with
      | false => rfl
      | true =>
          have hstep : driftStep polePairs.toNat i.omegaMQ16.toInt k.toInt =
              floorMul 16 (polePairs.toNat * i.omegaMQ16.toInt) k.toInt -
                polePairs.toNat * floorMul 16 i.omegaMQ16.toInt k.toInt :=
            (floorMul_sub _ _ _).symm
          simp only [accumulate, deltaPhase_eq, hω, hstep, Angles.difference, Int.sub_eq_add_neg,
            BitVec.ofInt_add, BitVec.ofInt_neg, BitVec.ofInt_mul, BitVec.mul_add,
            BitVec.sub_eq_add_neg, BitVec.neg_add, Bool.false_eq_true, if_false, if_true]
          ac_rfl

/-- The electrical speed is the pole pairs times the mechanical one, unwrapped. -/
def NoOverflow (polePairs : BitVec 16) (x : Nat → AngleInput) : Prop :=
  ∀ n, (omegaEQ16 polePairs (x n).omegaMQ16).toInt = polePairs.toNat * (x n).omegaMQ16.toInt

theorem difference_wave (hω : NoOverflow polePairs x) (n : Nat) :
    (wave (Angles.step polePairs k) .reset x n).difference polePairs =
      BitVec.ofInt 32 (drift polePairs k x n) := by
  induction n with
  | zero => simp [wave, Angles.reset, Angles.difference, drift]
  | succ n ih =>
      rw [wave_succ, difference_step _ _ (hω n), ih, drift]
      split_ifs
      · rfl
      · rw [BitVec.ofInt_add]
      · rfl

theorem drift_nonneg (n : Nat) : 0 ≤ drift polePairs k x n := by
  induction n with
  | zero => exact Int.le_refl 0
  | succ n ih =>
      rw [drift]
      split_ifs
      · exact Int.le_refl 0
      · exact Int.add_nonneg ih (driftStep_nonneg _ _ _)
      · exact ih

theorem drift_le (n : Nat) :
    drift polePairs k x n ≤ ((updates x n * (polePairs.toNat - 1) : Nat) : Int) := by
  induction n with
  | zero => simp [drift, updates]
  | succ n ih =>
      rw [drift, updates]
      split_ifs
      · simp
      · rw [Nat.succ_mul, Int.natCast_add]
        exact Int.add_le_add ih (driftStep_le _ _ _)
      · exact ih

theorem natAbs_bmod_le {z : Int} (hz : 0 ≤ z) {m : Nat} (hm : 0 < m) : (z.bmod m).natAbs ≤ z.natAbs := by
  have hlo : -((m : Int) / 2) ≤ z.bmod m := Int.le_bmod hm
  have hhi : z.bmod m < ((m : Int) + 1) / 2 := Int.bmod_lt hm
  by_cases hsmall : z * 2 < m
  · rw [Int.bmod_eq_of_le_mul_two (by omega) hsmall]
  · omega

/-- The signed difference of the two angles is the rounding accumulated since
the last clear, at most one unit short of a pole pair for each update. -/
theorem angle_difference_bounded (polePairs : BitVec 16) (k : BitVec 32) (x : Nat → AngleInput)
    (hω : NoOverflow polePairs x) (n : Nat) :
    ((wave (Angles.step polePairs k) .reset x n).difference polePairs).toInt =
        (drift polePairs k x n).bmod (2 ^ 32) ∧
      0 ≤ drift polePairs k x n ∧
      drift polePairs k x n ≤ updates x n * (polePairs.toNat - 1 : Nat) ∧
      (updates x n * (polePairs.toNat - 1) ≤ polePairs.toNat * 2 ^ 16 →
        ((wave (Angles.step polePairs k) .reset x n).difference polePairs).toInt.natAbs ≤
          polePairs.toNat * 2 ^ 16) := by
  have hnonneg : 0 ≤ drift polePairs k x n := drift_nonneg n
  have hle : drift polePairs k x n ≤ ((updates x n * (polePairs.toNat - 1) : Nat) : Int) := drift_le n
  have hdiff := difference_wave (k := k) hω n
  refine ⟨by rw [hdiff, BitVec.toInt_ofInt], hnonneg, by exact_mod_cast hle, ?_⟩
  intro hn
  rw [hdiff, BitVec.toInt_ofInt]
  exact (natAbs_bmod_le hnonneg (Nat.two_pow_pos 32)).trans (by omega)

def steady (ω : BitVec 32) : Nat → AngleInput := fun _ => ⟨false, true, ω⟩

theorem drift_steady (ω : BitVec 32) (n : Nat) :
    drift polePairs k (steady ω) n = n * driftStep polePairs.toNat ω.toInt k.toInt := by
  induction n with
  | zero => simp [drift]
  | succ n ih =>
      have hstep : drift polePairs k (steady ω) (n + 1) =
          drift polePairs k (steady ω) n + driftStep polePairs.toNat ω.toInt k.toInt := rfl
      rw [hstep, ih, Int.natCast_succ, Int.add_mul, Int.one_mul]

end Run

theorem noOverflow_steady : NoOverflow 10 (steady 12991) := by
  have hω : (omegaEQ16 10 12991).toInt = (10 : BitVec 16).toNat * (12991 : BitVec 32).toInt := by
    decide
  exact fun _ => hω

theorem angle_difference_bounded_steady :
    ((wave (Angles.step 10 34178) .reset (steady 12991) 3).difference 10).toInt.natAbs ≤
      10 * 2 ^ 16 :=
  (angle_difference_bounded 10 34178 (steady 12991) noOverflow_steady 3).2.2.2 (by decide)

/-- With the default pole pairs and phase gain of axu2cgb_hil_top, at about
0.2 rad/s, every update adds nine units. -/
theorem angle_drift_exceeds :
    ¬ ∀ (polePairs : BitVec 16) (k : BitVec 32) (x : Nat → AngleInput), 0 < k.toInt →
      NoOverflow polePairs x → ∀ n,
        ((wave (Angles.step polePairs k) .reset x n).difference polePairs).toInt.natAbs ≤
          polePairs.toNat * 2 ^ 16 := by
  intro h
  have hbound := h 10 34178 (steady 12991) (by decide) noOverflow_steady 72818
  have hdrift : drift 10 34178 (steady 12991) 72818 = 72818 * 9 := by
    rw [drift_steady]
    rfl
  rw [difference_wave noOverflow_steady, BitVec.toInt_ofInt, hdrift] at hbound
  exact absurd hbound (by decide)

end HilLab.Plant.PhaseAccumulator
