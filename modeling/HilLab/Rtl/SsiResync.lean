import HilLab.Rtl.SsiEncoder

namespace HilLab.Rtl.SsiResync

open Lib.Clocked SsiEncoder

variable {W : Nat}

section Step

variable {s : Emulator W} {i : EmulatorInput W}

/-- The registers of an emulator that shows the first bit of a new frame. -/
structure StartsFrame (i : EmulatorInput W) (next : Emulator W) : Prop where
  data : next.ssiData = i.selectedFrame.msb
  bits : next.bitCount = 1
  active : next.frameActive = true

section Assignments

variable (s) (next : Emulator W) (i)

theorem expire_active :
    (s.expire next i).frameActive = (next.frameActive && !(s.frameActive && s.gapElapsed i)) := by
  rw [Emulator.expire]
  cases s.frameActive && s.gapElapsed i <;> simp

theorem shift_active :
    (s.shift next i).frameActive = (next.frameActive || s.clkFall && !s.frameActive) := by
  rw [Emulator.shift]
  cases s.clkFall <;> cases hactive : s.frameActive <;> simp
  split <;> rfl

theorem finish_active :
    (s.finish next).frameActive =
      (next.frameActive && !(s.frameActive && s.clkRise && decide (W ≤ s.bitCount.toNat))) := by
  rw [Emulator.finish]
  cases s.frameActive && s.clkRise && decide (W ≤ s.bitCount.toNat) <;> simp

theorem expire_gapCount : (s.expire next i).gapCount = next.gapCount := by
  rw [Emulator.expire]
  split <;> rfl

theorem shift_gapCount : (s.shift next i).gapCount = next.gapCount := by
  rw [Emulator.shift]
  split_ifs <;> rfl

theorem finish_gapCount : (s.finish next).gapCount = next.gapCount := by
  rw [Emulator.finish]
  split <;> rfl

end Assignments

theorem step_active (hi : i.enable = true) :
    (s.step i).frameActive =
      if s.frameActive then !s.gapElapsed i && !(s.clkRise && decide (W ≤ s.bitCount.toNat))
      else s.clkFall := by
  have hcount : (s.count (s.sampled i)).frameActive = s.frameActive := rfl
  rw [step_enabled hi, finish_active, shift_active, expire_active, hcount]
  cases s.frameActive <;> simp

theorem fall_restarts_gap (hi : i.enable = true) (hfall : s.clkFall = true) :
    (s.step i).gapCount = 0 := by
  rw [step_enabled hi, finish_gapCount, shift_gapCount, expire_gapCount, Emulator.count, hfall,
    Bool.or_true]
  rfl

theorem disabled_idle (hi : i.enable = false) : (s.step i).frameActive = false := by
  rw [Emulator.step, hi]
  rfl

theorem idle_starts_frame (hi : i.enable = true) (hfall : s.clkFall = true)
    (h : s.frameActive = false) : StartsFrame i (s.step i) := by
  rw [step_enabled hi, expire_none (.inl h), Emulator.shift, hfall, h, finish_none (.inl h)]
  exact ⟨(BitVec.msb_eq_getLsbD_last _).symm, rfl, rfl⟩

/-- The timeout of a frame goes before the edge that meets it. -/
theorem starts_frame_iff (hi : i.enable = true) (hfall : s.clkFall = true)
    (hgap : s.gapElapsed i = true) : StartsFrame i (s.step i) ↔ s.frameActive = false := by
  constructor
  · intro h
    have hactive := h.active
    rw [step_active hi, hgap] at hactive
    cases hframe : s.frameActive with
    | true =>
        rw [hframe] at hactive
        cases hactive
    | false => rfl
  · exact idle_starts_frame hi hfall

end Step

section Runs

variable (x : Nat → EmulatorInput W)

def emulated (n : Nat) : Emulator W := wave Emulator.step .reset x n

/-- A falling edge of the clock that is detected in clock n, where the gap has elapsed. -/
structure GapEdge (n : Nat) : Prop where
  enable : (x n).enable = true
  gap : 2 ≤ (x n).frameGapTicks.toNat
  elapsed : (emulated x n).gapElapsed (x n) = true
  fall : (emulated x n).clkFall = true

/-- A frame is under way in clock n, the first in which its gap has elapsed. -/
structure Expiring (n : Nat) : Prop where
  active : (emulated x n).frameActive = true
  elapsed : (emulated x n).gapElapsed (x n) = true
  first : ∃ m, n = m + 1 ∧ (x m).enable = true ∧ (emulated x m).gapElapsed (x m) = false

variable {x}

/-- A frame that its gap finds under way was so in the clock before, with the gap open: the
fall that starts a frame also restarts the gap. -/
theorem expiring_of_active {n : Nat} (hgap : 2 ≤ (x n).frameGapTicks.toNat)
    (helapsed : (emulated x n).gapElapsed (x n) = true)
    (h : (emulated x n).frameActive = true) : Expiring x n := by
  refine ⟨h, helapsed, ?_⟩
  cases n with
  | zero => cases h
  | succ m =>
      have hstep : (emulated x (m + 1)) = (emulated x m).step (x m) := rfl
      have hi : (x m).enable = true := by
        cases hi : (x m).enable with
        | true => rfl
        | false =>
            rw [hstep, disabled_idle hi] at h
            cases h
      refine ⟨m, rfl, hi, ?_⟩
      rw [hstep, step_active hi] at h
      cases hactive : (emulated x m).frameActive with
      | true =>
          rw [hactive, if_pos rfl, Bool.and_eq_true, Bool.not_eq_true'] at h
          exact h.1
      | false =>
          rw [hactive, if_neg Bool.false_ne_true] at h
          have hopen : (emulated x (m + 1)).gapElapsed (x (m + 1)) = false := by
            apply gap_open
            rw [hstep, fall_restarts_gap hi h]
            exact Nat.lt_of_lt_of_le Nat.zero_lt_two hgap
          rw [hopen] at helapsed
          cases helapsed

/-- Every falling edge past the gap starts a frame exactly when none meets the clock in which
a frame under way expires. -/
theorem gap_edges_start_frames_iff (x : Nat → EmulatorInput W) (N : Nat) :
    (∀ n, n < N → GapEdge x n → StartsFrame (x n) (emulated x (n + 1))) ↔
      ∀ n, n < N → GapEdge x n → ¬ Expiring x n := by
  have hedge {n : Nat} (h : GapEdge x n) :
      StartsFrame (x n) (emulated x (n + 1)) ↔ ¬ Expiring x n := by
    refine (starts_frame_iff h.enable h.fall h.elapsed).trans ?_
    constructor
    · intro hidle hexpiring
      rw [hexpiring.active] at hidle
      cases hidle
    · intro hquiet
      cases hactive : (emulated x n).frameActive with
      | true => exact absurd (expiring_of_active h.gap h.elapsed hactive) hquiet
      | false => rfl
  constructor
  · exact fun h n hn hgap => (hedge hgap).mp (h n hn hgap)
  · exact fun h n hn hgap => (hedge hgap).mpr (h n hn hgap)

/-- A frame of four bits broken off after its first: the clock rises, and falls again in the
clock in which the gap of two ticks is reached. -/
def brokenOff (n : Nat) : EmulatorInput 4 :=
  { enable := true
    ssiClkAsync := decide (n < 3 ∨ 5 ≤ n ∧ n < 8)
    frameData := 0b1010
    frameGapTicks := 2
    faultFlipMask := 0
    faultEnable := false }

theorem broken_off_frame_not_restarted :
    GapEdge brokenOff 5 ∧ (emulated brokenOff 6).frameActive = false ∧
      (emulated brokenOff 6).bitCount = 2 ∧
      ¬ StartsFrame (brokenOff 5) (emulated brokenOff 6) := by
  refine ⟨⟨rfl, by decide, by decide, by decide⟩, by decide, by decide, fun h => ?_⟩
  exact absurd h.active (by decide)

end Runs

end HilLab.Rtl.SsiResync
