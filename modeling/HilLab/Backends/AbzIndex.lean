import HilLab.Backends.AbzRoundTrip
import HilLab.Pru.IndexTurns
import Mathlib.Algebra.Ring.Divisibility.Basic
import Mathlib.Algebra.Ring.Int.Defs

namespace HilLab.Backends.AbzIndex

open Lib.Clocked Lib.Duty Pru.Stimulus Pru.StimulusInvariant Pru.IndexTurns
open Rtl.Generators AbzDirection AbzRoundTrip

section Emulator

variable (countsPerRev : Nat) (x : Nat → AbzInput)

def taken (n : Nat) : Nat := Nat.count (fun k => steps countsPerRev x k = true) n
def reversed (n : Nat) : Nat := Nat.count (fun k => stepsReverse countsPerRev x k = true) n

theorem taken_succ (n : Nat) :
    taken countsPerRev x (n + 1) =
      taken countsPerRev x n + if steps countsPerRev x n then 1 else 0 :=
  Nat.count_succ _ n

theorem net_eq (n : Nat) :
    emulatorNet countsPerRev x n = taken countsPerRev x n - 2 * reversed countsPerRev x n := by
  induction n with
  | zero =>
      rw [emulatorNet, net_zero, taken, reversed, Nat.count_zero, Nat.count_zero]
      rfl
  | succ n ih =>
      have hreverse : stepsReverse countsPerRev x n =
          (steps countsPerRev x n && !(x n).directionForward) := rfl
      rw [emulatorNet_succ, taken_succ, reversed, Nat.count_succ, ← reversed, ih, hreverse]
      cases steps countsPerRev x n with
      | false => simp
      | true => cases (x n).directionForward <;> simp <;> omega

theorem reversed_eq_zero (h : ∀ n, stepsReverse countsPerRev x n = false) (n : Nat) :
    2 * reversed countsPerRev x n = 0 := by
  have hnone : reversed countsPerRev x n = 0 := by
    rw [reversed, Nat.count_iff_forall_not]
    intro m _
    rw [h m]
    exact Bool.false_ne_true
  rw [hnone]

theorem encoderAt_succ (n : Nat) :
    encoderAt countsPerRev x (n + 1) = (encoderAt countsPerRev x n).step countsPerRev (x n) := rfl

variable {s : AbzEncoder} {i : AbzInput}

theorem step_taken (h : (i.enable && s.stepDue i) = true) :
    (s.step countsPerRev i).revolutionEdgeCount =
        (if countsPerRev - 1 ≤ s.revolutionEdgeCount.toNat then 0
        else s.revolutionEdgeCount + 1) ∧
      (s.step countsPerRev i).encZ =
        decide (countsPerRev - 1 ≤ s.revolutionEdgeCount.toNat) := by
  rw [Bool.and_eq_true] at h
  rw [AbzEncoder.step, h.1, h.2]
  by_cases hlast : countsPerRev - 1 ≤ s.revolutionEdgeCount.toNat <;> simp [hlast]

theorem step_idle (h : (i.enable && s.stepDue i) = false) :
    (s.step countsPerRev i).revolutionEdgeCount = s.revolutionEdgeCount ∧
      (s.step countsPerRev i).positionEdges = s.positionEdges ∧
      ((s.step countsPerRev i).encZ = true → s.encZ = true) := by
  rw [AbzEncoder.step]
  cases he : i.enable with
  | false => exact ⟨rfl, rfl, fun hz => absurd hz Bool.false_ne_true⟩
  | true =>
      rw [he, Bool.true_and] at h
      rw [h]
      exact ⟨rfl, rfl, fun hz => hz⟩

/-- The index is up only at whole revolutions of the position. -/
def EmulatorIndex : Prop :=
  ∀ n, (encoderAt countsPerRev x n).encZ = true →
    countsPerRev ∣ (encoderAt countsPerRev x n).positionEdges.toNat

section Revolutions

variable {countsPerRev} (hcounts : countsPerRev ∣ 2 ^ 32)

include hcounts

theorem countsPerRev_pos : 0 < countsPerRev := Nat.pos_of_dvd_of_pos hcounts (by decide)

theorem revolution_eq (n : Nat) :
    (encoderAt countsPerRev x n).revolutionEdgeCount.toNat =
      taken countsPerRev x n % countsPerRev := by
  have hpos := countsPerRev_pos hcounts
  have hle := Nat.le_of_dvd (by decide) hcounts
  induction n with
  | zero => exact (Nat.zero_mod _).symm
  | succ n ih =>
      have hmod := Nat.mod_lt (taken countsPerRev x n) hpos
      rw [encoderAt_succ, taken_succ]
      cases h : steps countsPerRev x n with
      | false => rw [(step_idle countsPerRev h).1, ih, if_neg Bool.false_ne_true, Nat.add_zero]
      | true =>
          rw [(step_taken countsPerRev h).1, ih, if_pos rfl, succ_mod _ hpos]
          by_cases hwrap : taken countsPerRev x n % countsPerRev + 1 = countsPerRev
          · have hlast : countsPerRev - 1 ≤ taken countsPerRev x n % countsPerRev := by omega
            rw [if_pos hlast, if_pos hwrap]
            rfl
          · have hlast : ¬ countsPerRev - 1 ≤ taken countsPerRev x n % countsPerRev := by omega
            rw [if_neg hlast, if_neg hwrap, BitVec.toNat_add, ih]
            change (taken countsPerRev x n % countsPerRev + 1) % 2 ^ 32 = _
            rw [Nat.mod_eq_of_lt (by omega)]

theorem encZ_step (n : Nat) (h : steps countsPerRev x n = true) :
    (encoderAt countsPerRev x (n + 1)).encZ =
      decide (countsPerRev ∣ taken countsPerRev x (n + 1)) := by
  have hpos := countsPerRev_pos hcounts
  have hmod := Nat.mod_lt (taken countsPerRev x n) hpos
  rw [encoderAt_succ, (step_taken countsPerRev h).2, revolution_eq x hcounts, decide_eq_decide,
    taken_succ, h, if_pos rfl, Nat.dvd_iff_mod_eq_zero, succ_mod _ hpos]
  by_cases hwrap : taken countsPerRev x n % countsPerRev + 1 = countsPerRev
  · rw [if_pos hwrap]
    omega
  · rw [if_neg hwrap]
    omega

theorem dvd_position_iff (n : Nat) :
    countsPerRev ∣ (encoderAt countsPerRev x n).positionEdges.toNat ↔
      (countsPerRev : Int) ∣ emulatorNet countsPerRev x n := by
  have hpow : (countsPerRev : Int) ∣ ((2 ^ 32 : Nat) : Int) := Int.natCast_dvd_natCast.mpr hcounts
  have hnonneg : 0 ≤ emulatorNet countsPerRev x n % ((2 ^ 32 : Nat) : Int) :=
    Int.emod_nonneg _ (by decide)
  rw [position_eq, BitVec.toNat_ofInt, ← Int.natCast_dvd_natCast, Int.toNat_of_nonneg hnonneg,
    Int.dvd_iff_emod_eq_zero, Int.emod_emod_of_dvd _ hpow, Int.dvd_iff_emod_eq_zero]

theorem dvd_position_of_taken (n : Nat) (h : countsPerRev ∣ taken countsPerRev x n) :
    countsPerRev ∣ (encoderAt countsPerRev x n).positionEdges.toNat ↔
      countsPerRev ∣ 2 * reversed countsPerRev x n := by
  have hcast : (countsPerRev : Int) ∣ (taken countsPerRev x n : Int) :=
    Int.natCast_dvd_natCast.mpr h
  have hdouble : (2 * reversed countsPerRev x n : Int) =
      ((2 * reversed countsPerRev x n : Nat) : Int) := by
    push_cast
    rfl
  rw [dvd_position_iff x hcounts, net_eq, dvd_sub_right hcast, hdouble,
    Int.natCast_dvd_natCast]

theorem emulator_index_iff :
    EmulatorIndex countsPerRev x ↔
      ∀ n, steps countsPerRev x n = true → countsPerRev ∣ taken countsPerRev x (n + 1) →
        countsPerRev ∣ 2 * reversed countsPerRev x (n + 1) := by
  constructor
  · intro hindex n hstep htaken
    apply (dvd_position_of_taken x hcounts (n + 1) htaken).mp
    apply hindex
    rw [encZ_step x hcounts n hstep, decide_eq_true htaken]
  · intro hcancel n
    induction n with
    | zero =>
        intro hz
        cases hz
    | succ n ih =>
        intro hz
        cases hstep : steps countsPerRev x n with
        | false =>
            rw [encoderAt_succ] at hz ⊢
            obtain ⟨-, hposition, hkeep⟩ := step_idle countsPerRev hstep
            rw [hposition]
            exact ih (hkeep hz)
        | true =>
            rw [encZ_step x hcounts n hstep, decide_eq_true_iff] at hz
            exact (dvd_position_of_taken x hcounts (n + 1) hz).mpr (hcancel n hstep hz)

end Revolutions

end Emulator

section Engine

/-- A position in the index window, the first w of every p; p = 0 is no index. -/
def InWindow (p w : BitVec 32) (z : Int) : Prop := p ≠ 0 ∧ z % p.toNat < w.toNat

instance (p w : BitVec 32) (z : Int) : Decidable (InWindow p w z) := instDecidableAnd

theorem encZ_eq {s : Stim} (h : LoopHead s) (hruns : RunsAbz s) : encZ s = s.indexActive := by
  have hlevels : outputs s = abzBits s.phase s.indexActive := by
    rw [h.outputs, levels, if_pos hruns.1, hruns.2]
  rw [encZ, outputs_bit s (by decide), hlevels]
  rcases phase_cases s.phase h.phase with hp | hp | hp | hp <;>
    rw [hp] <;> cases s.indexActive <;> decide

theorem encZ_total {o : Turning} (h : Indexed o) (hruns : RunsAbz o.stim) :
    encZ o.stim = true ↔
      InWindow o.stim.indexPeriodTransitions o.stim.indexWidthTransitions o.turns.total := by
  rw [encZ_eq h.toLoopHead hruns, Stim.indexActive, indexIsActive, InWindow, Bool.and_eq_true,
    Bool.and_eq_true, bne_iff_ne, bne_iff_ne, decide_eq_true_iff, BitVec.lt_def, and_assoc]
  refine and_congr_right (fun hp => ?_)
  rw [← Int.natCast_emod, ← h.index hruns hp, Int.ofNat_lt]
  constructor
  · intro hlt
    exact hlt.2
  · intro hlt
    refine ⟨fun hw => ?_, hlt⟩
    rw [hw] at hlt
    exact absurd hlt (Nat.not_lt_zero _)

theorem total_eq (t : Turns) : (t.total : Int) = t.net + 2 * t.reverse := by
  rw [Turns.total, Turns.net]
  push_cast
  omega

variable (r30 : BitVec 32) (y : Nat → Iteration)

def Due (o : Turning) (z : Int) : Prop :=
  InWindow o.stim.indexPeriodTransitions o.stim.indexWidthTransitions z

instance (o : Turning) (z : Int) : Decidable (Due o z) := instDecidableAnd

/-- In an ABZ run the index is up just where it is due at the net position. -/
def EngineIndex : Prop :=
  ∀ n, RunsAbz (turningAt r30 y n).stim →
    (encZ (turningAt r30 y n).stim = true ↔
      Due (turningAt r30 y n) (turningAt r30 y n).turns.net)

theorem engine_index_iff :
    EngineIndex r30 y ↔
      ∀ n, RunsAbz (turningAt r30 y n).stim →
        (Due (turningAt r30 y n)
            ((turningAt r30 y n).turns.net + 2 * (turningAt r30 y n).turns.reverse) ↔
          Due (turningAt r30 y n) (turningAt r30 y n).turns.net) := by
  refine forall_congr' (fun n => forall_congr' (fun hruns => ?_))
  rw [encZ_total (turningAt_indexed r30 y n) hruns, total_eq]
  exact Iff.rfl

theorem serve_reverse {o : Turning} (h : o.turns.reverse = 0) (r : Reception) :
    (o.serve r).turns.reverse = 0 := by
  rw [Turning.serve]
  dsimp only
  split_ifs
  · rfl
  · exact h

theorem drain_reverse {o : Turning} (h : o.turns.reverse = 0) (received : List Reception) :
    (received.foldl Turning.serve o).turns.reverse = 0 := by
  induction received generalizing o with
  | nil => exact h
  | cons r received ih => exact ih (serve_reverse h r)

variable {r30 y}

theorem reverse_eq_zero (h : ∀ n, transitionsReverse (stimAt r30 y n) (y n) = false) (n : Nat) :
    (turningAt r30 y n).turns.reverse = 0 := by
  induction n with
  | zero => rfl
  | succ n ih =>
      have hstep : turningAt r30 y (n + 1) = (turningAt r30 y n).iterate (y n) := rfl
      have hn := h n
      rw [← turningAt_stim, transitionsReverse] at hn
      rw [hstep, Turning.iterate]
      cases hb : (turningAt r30 y n).stim.branch (y n) with
      | armedStart => rfl
      | applyUpdate | hallTransition | idle => exact ih
      | drain => exact drain_reverse ih _
      | abzTransition =>
          rw [hb] at hn
          have hforward : (turningAt r30 y n).stim.direction = 0 := by
            simpa using hn
          dsimp only
          rw [Turns.turn, if_pos hforward]
          exact ih

end Engine

/-- The index of either generator marks a fixed angle in the runs in which the reverse
steps cancel out of its count, and so in those without a reverse step. -/
theorem index_at_angle_iff (countsPerRev : Nat) (hcounts : countsPerRev ∣ 2 ^ 32)
    (x : Nat → AbzInput) (r30 : BitVec 32) (y : Nat → Iteration) :
    (EmulatorIndex countsPerRev x ↔
        ∀ n, steps countsPerRev x n = true → countsPerRev ∣ taken countsPerRev x (n + 1) →
          countsPerRev ∣ 2 * reversed countsPerRev x (n + 1)) ∧
      (EngineIndex r30 y ↔
        ∀ n, RunsAbz (turningAt r30 y n).stim →
          (Due (turningAt r30 y n)
              ((turningAt r30 y n).turns.net + 2 * (turningAt r30 y n).turns.reverse) ↔
            Due (turningAt r30 y n) (turningAt r30 y n).turns.net)) ∧
      ((∀ n, stepsReverse countsPerRev x n = false) → EmulatorIndex countsPerRev x) ∧
      ((∀ n, transitionsReverse (stimAt r30 y n) (y n) = false) → EngineIndex r30 y) := by
  refine ⟨emulator_index_iff x hcounts, engine_index_iff r30 y, fun hforward => ?_,
    fun hforward => ?_⟩
  · apply (emulator_index_iff x hcounts).mpr
    intro n _ _
    rw [reversed_eq_zero countsPerRev x hforward]
    exact Nat.dvd_zero _
  · apply (engine_index_iff r30 y).mpr
    intro n _
    rw [reverse_eq_zero hforward n, Int.natCast_zero, Int.mul_zero, Int.add_zero]

/-- A full forward revolution of four counts ends with the index up at position 4. -/
theorem index_at_angle_revolution :
    (encoderAt 4 (fun _ => ⟨true, true, 1⟩) 4).encZ = true ∧
      EmulatorIndex 4 (fun _ => ⟨true, true, 1⟩) :=
  ⟨by decide, (index_at_angle_iff 4 (by decide) _ 0 forwardRun).2.2.1 (fun _ => Bool.and_false _)⟩

/-- Three steps forward and one back raise the emulator's index at position 2. -/
def reversal (n : Nat) : AbzInput := ⟨true, decide (n ≠ 3), 1⟩

/-- An index every four transitions; one transition forward, and one back. -/
def indexRun : Nat → Iteration
  | 0 => ⟨0, true, [sampleRequest .abzConfig 100 4 1 0 0, sampleRequest .abzStart 0 0 0 0 0]⟩
  | 1 => ⟨100, false, []⟩
  | 2 => ⟨100, true, [sampleRequest .abzDirection 1 0 0 0 100]⟩
  | k + 3 => ⟨200 + 100 * BitVec.ofNat 32 k, false, []⟩

/-- Back at the start of the run, the engine's index is down. -/
theorem index_lost_in_reverse :
    ¬ (∀ countsPerRev, countsPerRev ∣ 2 ^ 32 → ∀ x, EmulatorIndex countsPerRev x) ∧
      ¬ ∀ r30 y, EngineIndex r30 y := by
  constructor
  · intro h
    have hindex := h 4 (by decide) reversal 4 (by decide)
    exact absurd hindex (by decide)
  · intro h
    have hindex := (h 0 indexRun 4 (by decide)).mpr (by decide)
    exact absurd hindex (by decide)

end HilLab.Backends.AbzIndex
