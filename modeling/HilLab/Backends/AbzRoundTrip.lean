import HilLab.Backends.AbzDirection

namespace HilLab.Backends.AbzRoundTrip

open Lib.Clocked Lib.Quadrature Rtl.AbzEncoderCapture Rtl.Generators AbzDirection

section Decoder

theorem count_pulse {s : AbzCapture} {c d : Int} (hprev : s.abPrev = gray c)
    (hnow : s.abNow = gray d) (h : Adjacent c d) (i : CaptureInput) :
    (s.count i).stepPulse = decide (d ≠ c) ∧
      (s.count i).directionForward = if d = c then s.directionForward else decide (c < d) := by
  rw [AbzCapture.count, hprev, hnow]
  rcases h with rfl | rfl | rfl
  · simp
  · have hne : c + 1 ≠ c := by omega
    have hlt : c < c + 1 := by omega
    rw [if_neg hne, decide_eq_true hne, decide_eq_true hlt]
    rcases gray_cases c with ⟨h1, h2⟩ | ⟨h1, h2⟩ | ⟨h1, h2⟩ | ⟨h1, h2⟩ <;>
      simp [h1, h2, isForward]
  · have hc : c - 1 + 1 = c := by omega
    have hne : c - 1 ≠ c := by omega
    have hle : ¬ c < c - 1 := by omega
    rw [if_neg hne, decide_eq_true hne, decide_eq_false hle]
    rcases gray_cases (c - 1) with ⟨h1, h2⟩ | ⟨h1, h2⟩ | ⟨h1, h2⟩ | ⟨h1, h2⟩ <;>
      rw [hc] at h2 <;> simp [h1, h2, isForward, isReverse]

variable {s : AbzCapture} {x : Nat → CaptureInput} {c₀ : Int} {c : Nat → Int}

theorem wave_pulse (hs : Settled s c₀) (h0 : Adjacent c₀ (c 0))
    (hc : ∀ n, Adjacent (c n) (c (n + 1))) (hx : ∀ n, (x n).ab = gray (c n)) (n : Nat) :
    (wave AbzCapture.step s x (n + 1)).stepPulse =
        decide (lag c₀ c 2 n ≠ lag c₀ c 3 n) ∧
      (wave AbzCapture.step s x (n + 1)).directionForward =
        if lag c₀ c 2 n = lag c₀ c 3 n then (wave AbzCapture.step s x n).directionForward
        else decide (lag c₀ c 3 n < lag c₀ c 2 n) := by
  have h := wave_follows hs h0 hc hx n
  exact count_pulse h.prev h.now (lag_adjacent h0 hc 2 n) (x n)

end Decoder

section Emulator

variable (countsPerRev : Nat) (x : Nat → AbzInput)

def steps (n : Nat) : Bool := (x n).enable && (encoderAt countsPerRev x n).stepDue (x n)

theorem emulatorNet_succ (n : Nat) :
    emulatorNet countsPerRev x (n + 1) =
      if steps countsPerRev x n then
        if (x n).directionForward then emulatorNet countsPerRev x n + 1
        else emulatorNet countsPerRev x n - 1
      else emulatorNet countsPerRev x n := by
  rw [emulatorNet, net_succ, ← emulatorNet, stepsForward, stepsReverse, ← steps]
  cases steps countsPerRev x n <;> cases (x n).directionForward <;> simp

theorem steps_iff (n : Nat) :
    decide (emulatorNet countsPerRev x (n + 1) ≠ emulatorNet countsPerRev x n) =
      steps countsPerRev x n := by
  rw [emulatorNet_succ]
  cases steps countsPerRev x n with
  | false => exact decide_eq_false (fun h => h rfl)
  | true =>
      cases (x n).directionForward with
      | false =>
          have hback : emulatorNet countsPerRev x n - 1 ≠ emulatorNet countsPerRev x n := by omega
          exact decide_eq_true hback
      | true =>
          have hon : emulatorNet countsPerRev x n + 1 ≠ emulatorNet countsPerRev x n := by omega
          exact decide_eq_true hon

theorem steps_direction (d : Bool) (n : Nat) :
    (if emulatorNet countsPerRev x (n + 1) = emulatorNet countsPerRev x n then d
      else decide (emulatorNet countsPerRev x n < emulatorNet countsPerRev x (n + 1))) =
      if steps countsPerRev x n then (x n).directionForward else d := by
  rw [emulatorNet_succ]
  cases steps countsPerRev x n with
  | false => exact if_pos rfl
  | true =>
      cases (x n).directionForward with
      | false =>
          have hback : emulatorNet countsPerRev x n - 1 ≠ emulatorNet countsPerRev x n := by omega
          have hless : ¬ emulatorNet countsPerRev x n < emulatorNet countsPerRev x n - 1 := by
            omega
          exact (if_neg hback).trans (decide_eq_false hless)
      | true =>
          have hon : emulatorNet countsPerRev x n + 1 ≠ emulatorNet countsPerRev x n := by omega
          have hless : emulatorNet countsPerRev x n < emulatorNet countsPerRev x n + 1 := by
            omega
          exact (if_neg hon).trans (decide_eq_true hless)

theorem ofInt_add_one (z : Int) : BitVec.ofInt 32 (z + 1) = BitVec.ofInt 32 z + 1 :=
  BitVec.ofInt_add z 1

theorem ofInt_sub_one (z : Int) : BitVec.ofInt 32 (z - 1) = BitVec.ofInt 32 z - 1 := by
  rw [Int.sub_eq_add_neg, BitVec.ofInt_add, BitVec.sub_eq_add_neg]
  rfl

theorem position_eq (n : Nat) :
    (encoderAt countsPerRev x n).positionEdges =
      BitVec.ofInt 32 (emulatorNet countsPerRev x n) := by
  induction n with
  | zero =>
      rw [emulatorNet, net_zero]
      rfl
  | succ n ih =>
      have hstep : encoderAt countsPerRev x (n + 1) =
          (encoderAt countsPerRev x n).step countsPerRev (x n) := rfl
      rw [hstep, emulatorNet_succ, steps, AbzEncoder.step]
      cases (x n).enable with
      | false => exact ih
      | true =>
          cases (encoderAt countsPerRev x n).stepDue (x n) with
          | false => exact ih
          | true =>
              cases (x n).directionForward with
              | true => exact (congrArg (· + 1) ih).trans (ofInt_add_one _).symm
              | false => exact (congrArg (· - 1) ih).trans (ofInt_sub_one _).symm

end Emulator

/-- Three clocks behind, the decoder reports what the emulator does: its position, one
pulse a step, and from a step to the next the direction of the step. -/
theorem emulator_round_trip (countsPerRev : Nat) (x : Nat → AbzInput)
    (timestamp : Nat → BitVec 64) (n : Nat) :
    let decoder := wave AbzCapture.step .reset
      (emulatorPins countsPerRev x timestamp (fun _ => false))
    ((decoder n).positionEdges =
        if n < 3 then 0 else (encoderAt countsPerRev x (n - 3)).positionEdges) ∧
      (decoder n).illegalTransitionLatched = false ∧
      (n < 4 → (decoder n).stepPulse = false) ∧
      (decoder (n + 4)).stepPulse = steps countsPerRev x n ∧
      (decoder (n + 4)).directionForward =
        if steps countsPerRev x n then (x n).directionForward
        else (decoder (n + 3)).directionForward := by
  intro decoder
  have hzero : emulatorNet countsPerRev x 0 = 0 := net_zero _ _
  have hwalk := emulatorNet_adjacent countsPerRev x
  have hpins := emulatorPins_gray countsPerRev x timestamp (fun _ => false)
  have hfollows := wave_follows reset_settled (.inl hzero) hwalk hpins
  have hpulse := wave_pulse reset_settled (.inl hzero) hwalk hpins
  refine ⟨?_, (hfollows n).legal, ?_, ?_, ?_⟩
  · rw [(hfollows n).position, Int.sub_zero, lag]
    split_ifs
    · rfl
    · rw [position_eq]
      exact BitVec.zero_add _
  · intro hn
    cases n with
    | zero => rfl
    | succ k =>
        rw [(hpulse k).1, lag_early hzero (by omega), lag_early hzero (by omega)]
        rfl
  · rw [(hpulse (n + 3)).1, lag_at, lag_at]
    exact steps_iff countsPerRev x n
  · rw [(hpulse (n + 3)).2, lag_at, lag_at]
    exact steps_direction countsPerRev x _ n

end HilLab.Backends.AbzRoundTrip
