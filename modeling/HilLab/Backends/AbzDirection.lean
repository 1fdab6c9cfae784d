import HilLab.Pru.StimulusStop
import HilLab.Rtl.AbzEncoderCapture
import HilLab.Rtl.Generators
import Mathlib.Algebra.Group.Int.Defs
import Mathlib.Data.Nat.Count

namespace HilLab.Backends.AbzDirection

open Lib.Clocked Lib.Quadrature Pru.Protocol Pru.Stimulus Pru.StimulusInvariant Pru.StimulusStop
open Rtl.AbzEncoderCapture Rtl.Generators

/-- The net position after n cycles with these forward and reverse steps. -/
def net (forward reverse : Nat → Bool) (n : Nat) : Int :=
  Nat.count (fun k => forward k = true) n - Nat.count (fun k => reverse k = true) n

theorem net_zero (forward reverse : Nat → Bool) : net forward reverse 0 = 0 := by
  simp [net]

theorem net_succ (forward reverse : Nat → Bool) (n : Nat) :
    net forward reverse (n + 1) =
      net forward reverse n + (if forward n then 1 else 0) - (if reverse n then 1 else 0) := by
  rw [net, net, Nat.count_succ, Nat.count_succ]
  split_ifs <;> omega

section Emulator

variable (countsPerRev : Nat) (x : Nat → AbzInput)

def encoderAt (n : Nat) : AbzEncoder := wave (AbzEncoder.step countsPerRev) .reset x n

def stepsForward (n : Nat) : Bool :=
  (x n).enable && (encoderAt countsPerRev x n).stepDue (x n) && (x n).directionForward

def stepsReverse (n : Nat) : Bool :=
  (x n).enable && (encoderAt countsPerRev x n).stepDue (x n) && !(x n).directionForward

def emulatorNet (n : Nat) : Int := net (stepsForward countsPerRev x) (stepsReverse countsPerRev x) n

def emulatorPins (timestamp : Nat → BitVec 64) (clearFaults : Nat → Bool) (n : Nat) :
    CaptureInput :=
  { encAAsync := (encoderAt countsPerRev x n).encA
    encBAsync := (encoderAt countsPerRev x n).encB
    encZAsync := (encoderAt countsPerRev x n).encZ
    timestamp := timestamp n
    clearFaults := clearFaults n }

theorem nextPhase_forward (c : Int) : nextPhase true (gray c) = gray (c + 1) := by
  rcases gray_cases c with ⟨h1, h2⟩ | ⟨h1, h2⟩ | ⟨h1, h2⟩ | ⟨h1, h2⟩ <;> rw [h1, h2] <;> rfl

theorem nextPhase_reverse (c : Int) : nextPhase false (gray c) = gray (c - 1) := by
  have hc : c - 1 + 1 = c := by omega
  rcases gray_cases (c - 1) with ⟨h1, h2⟩ | ⟨h1, h2⟩ | ⟨h1, h2⟩ | ⟨h1, h2⟩ <;>
    rw [hc] at h2 <;> rw [h1, h2] <;> rfl

/-- The outputs show the phase, and the phase walks along the net steps. -/
structure OnTrack (s : AbzEncoder) (c : Int) : Prop where
  phase : s.phase = gray c
  encA : s.encA = s.phase.getLsbD 1
  encB : s.encB = s.phase.getLsbD 0

theorem reset_onTrack : OnTrack .reset 0 := ⟨rfl, by decide, by decide⟩

theorem step_onTrack {s : AbzEncoder} {c : Int} (h : OnTrack s c) (i : AbzInput) :
    OnTrack (s.step countsPerRev i)
      (c + (if i.enable && s.stepDue i && i.directionForward then 1 else 0) -
        (if i.enable && s.stepDue i && !i.directionForward then 1 else 0)) := by
  obtain ⟨hphase, hA, hB⟩ := h
  rw [AbzEncoder.step]
  cases i.enable with
  | false => simpa using ⟨hphase, hA, hB⟩
  | true =>
      cases s.stepDue i with
      | false => simpa using ⟨hphase, hA, hB⟩
      | true =>
          refine ⟨?_, rfl, rfl⟩
          cases i.directionForward with
          | true => simp [hphase, nextPhase_forward]
          | false => simp [hphase, nextPhase_reverse]

theorem encoder_onTrack (n : Nat) :
    OnTrack (encoderAt countsPerRev x n) (emulatorNet countsPerRev x n) := by
  induction n with
  | zero =>
      rw [emulatorNet, net_zero]
      exact reset_onTrack
  | succ n ih =>
      rw [emulatorNet, net_succ]
      exact step_onTrack countsPerRev ih (x n)

theorem ofBool_bits (b : BitVec 2) :
    BitVec.ofBool (b.getLsbD 1) ++ BitVec.ofBool (b.getLsbD 0) = b := by
  revert b
  decide

theorem adjacent_net {forward reverse : Nat → Bool} {n : Nat}
    (h : (forward n && reverse n) = false) :
    Adjacent (net forward reverse n) (net forward reverse (n + 1)) := by
  rw [net_succ]
  cases hf : forward n with
  | true =>
      rw [hf, Bool.true_and] at h
      simp [h, Adjacent]
  | false => cases hr : reverse n <;> simp [Adjacent]

theorem emulatorNet_adjacent (n : Nat) :
    Adjacent (emulatorNet countsPerRev x n) (emulatorNet countsPerRev x (n + 1)) := by
  apply adjacent_net
  rw [stepsForward, stepsReverse]
  cases (x n).directionForward <;> simp

theorem emulatorPins_gray (timestamp : Nat → BitVec 64) (clearFaults : Nat → Bool) (n : Nat) :
    (emulatorPins countsPerRev x timestamp clearFaults n).ab =
      gray (emulatorNet countsPerRev x n) := by
  obtain ⟨hphase, hA, hB⟩ := encoder_onTrack countsPerRev x n
  rw [CaptureInput.ab, emulatorPins, hA, hB, ofBool_bits, hphase]

theorem emulator_decoded (timestamp : Nat → BitVec 64) (clearFaults : Nat → Bool) (n : Nat) :
    (wave AbzCapture.step .reset (emulatorPins countsPerRev x timestamp clearFaults)
        (n + 3)).positionEdges = BitVec.ofInt 32 (emulatorNet countsPerRev x n) ∧
      (wave AbzCapture.step .reset (emulatorPins countsPerRev x timestamp clearFaults)
        (n + 3)).illegalTransitionLatched = false := by
  have hstart : Adjacent 0 (emulatorNet countsPerRev x 0) := Or.inl (net_zero _ _)
  have hpins := emulatorPins_gray countsPerRev x timestamp clearFaults
  have h := wave_counts reset_settled hstart (emulatorNet_adjacent countsPerRev x) hpins n
  rw [Int.sub_zero] at h
  exact ⟨h.1.trans (BitVec.zero_add _), h.2⟩

end Emulator

section Engine

structure InRun (s : Stim) : Prop extends LoopHead s where
  isRunning : s.running = true
  isAbz : s.activeMode = .abz

/-- An ABZ run of the firmware from pass m on, which no stop ends. -/
structure AbzRun (r30 : BitVec 32) (y : Nat → Iteration) (m : Nat) : Prop where
  isRunning : (stimAt r30 y m).running = true
  isAbz : (stimAt r30 y m).activeMode = .abz
  unstopped : ∀ k, ∀ v ∈ served (stimAt r30 y (m + k)) (y (m + k)), ¬ StopAccepted v

variable {s : Stim}

def transitionsForward (s : Stim) (i : Iteration) : Bool :=
  s.branch i == .abzTransition && s.direction == 0

def transitionsReverse (s : Stim) (i : Iteration) : Bool :=
  s.branch i == .abzTransition && s.direction != 0

theorem phase_transition (now : BitVec 32) (h : s.phase < 4) :
    ((s.abzTransition now).phase.toNat : Int) % 4 =
      (s.phase.toNat + (if s.direction == 0 then 1 else 0) -
        (if s.direction != 0 then 1 else 0)) % 4 := by
  have hphase : (s.abzTransition now).phase =
      if s.direction = 0 then (s.phase + 1) &&& 3 else (s.phase + 3) &&& 3 := rfl
  rw [BitVec.lt_def] at h
  have hlt : s.phase.toNat < 4 := h
  rw [hphase]
  by_cases hd : s.direction = 0
  · have hand : ((s.phase + 1) &&& 3).toNat = (s.phase.toNat + 1) % 4 := by
      rw [BitVec.toNat_and, BitVec.toNat_add]
      have := Nat.and_two_pow_sub_one_eq_mod ((s.phase.toNat + 1) % 2 ^ 32) 2
      exact this.trans (by omega)
    rw [if_pos hd, hand, hd]
    simp
  · have hand : ((s.phase + 3) &&& 3).toNat = (s.phase.toNat + 3) % 4 := by
      rw [BitVec.toNat_and, BitVec.toNat_add]
      have := Nat.and_two_pow_sub_one_eq_mod ((s.phase.toNat + 3) % 2 ^ 32) 2
      exact this.trans (by omega)
    rw [if_neg hd, hand]
    have hne : (s.direction == 0) = false := by simpa using hd
    simp only [hne, bne, Bool.not_false, if_true, Bool.false_eq_true, if_false]
    omega

theorem iterate_inRun (h : InRun s) {i : Iteration}
    (hr : ∀ v ∈ served s i, ¬ StopAccepted v) :
    InRun (s.iterate i) ∧
      ((s.iterate i).phase.toNat : Int) % 4 =
        (s.phase.toNat + (if transitionsForward s i then 1 else 0) -
          (if transitionsReverse s i then 1 else 0)) % 4 := by
  have hg := branch_guard s i
  have hhead := iterate_loopHead h.toLoopHead i
  rw [transitionsForward, transitionsReverse]
  rw [Stim.iterate] at hhead ⊢
  cases hb : s.branch i with
  | armedStart =>
      rw [hb] at hg
      have hidle := h.armed_idle (by rw [hg.1]; decide)
      exact absurd (h.isRunning.symm.trans hidle) (by decide)
  | applyUpdate =>
      rw [hb] at hhead
      exact ⟨⟨hhead, h.isRunning, h.isAbz⟩, by simp [Stim.applyUpdate]⟩
  | abzTransition =>
      rw [hb] at hhead
      exact ⟨⟨hhead, h.isRunning, h.isAbz⟩, phase_transition i.now h.phase⟩
  | hallTransition =>
      rw [hb] at hg
      exact absurd (h.isAbz.symm.trans hg.2) (by decide)
  | drain =>
      rw [served, if_pos hb] at hr
      obtain ⟨_, _, hsteered⟩ := drain_running h.toLoopHead h.isRunning hr
      rw [hb] at hhead
      dsimp only at hhead ⊢
      rw [hsteered] at hhead ⊢
      exact ⟨⟨hhead, h.isRunning, h.isAbz⟩, by simp⟩
  | idle => exact ⟨h, by simp⟩

def encA (s : Stim) : Bool := s.r30.getLsbD 0
def encB (s : Stim) : Bool := s.r30.getLsbD 1
def encZ (s : Stim) : Bool := s.r30.getLsbD 2

theorem outputs_bit (s : Stim) {k : Nat} (hk : stimOutputMask.getLsbD k = true) :
    s.r30.getLsbD k = (outputs s).getLsbD k := by
  rw [outputs, BitVec.getLsbD_and, hk, Bool.and_true]

theorem phase_cases (phase : BitVec 32) (h : phase < 4) :
    phase = 0 ∨ phase = 1 ∨ phase = 2 ∨ phase = 3 := by
  rw [BitVec.lt_def] at h
  have hlt : phase.toNat < 4 := h
  have hcases : phase.toNat = 0 ∨ phase.toNat = 1 ∨ phase.toNat = 2 ∨ phase.toNat = 3 := by omega
  simpa [← BitVec.toNat_inj] using hcases

/-- Phase by phase, the engine leads with A where the emulator leads with B:
its track runs backwards. -/
theorem pins_gray (h : InRun s) :
    BitVec.ofBool (encA s) ++ BitVec.ofBool (encB s) = gray (-s.phase.toNat) := by
  have hlevels : outputs s = abzBits s.phase s.indexActive := by
    rw [h.outputs, levels, if_pos h.isRunning, h.isAbz]
  rw [encA, encB, outputs_bit s (by decide), outputs_bit s (by decide), hlevels]
  rcases phase_cases s.phase h.phase with hp | hp | hp | hp <;>
    rw [hp] <;> cases s.indexActive <;> decide

variable (r30 : BitVec 32) (y : Nat → Iteration) (m : Nat)

def engineForward (k : Nat) : Bool := transitionsForward (stimAt r30 y (m + k)) (y (m + k))
def engineReverse (k : Nat) : Bool := transitionsReverse (stimAt r30 y (m + k)) (y (m + k))

def engineNet (k : Nat) : Int := net (engineForward r30 y m) (engineReverse r30 y m) k

def transitions (k : Nat) : Nat :=
  Nat.count (fun j => engineForward r30 y m j = true) k +
    Nat.count (fun j => engineReverse r30 y m j = true) k

/-- The decoder looks at the pins often enough to see every transition: before
its clock n it sees them as they stand before pass m + seen n. -/
structure Sampled (seen : Nat → Nat) : Prop where
  start : seen 0 = 0
  forward : ∀ n, seen n ≤ seen (n + 1)
  fast : ∀ n, transitions r30 y m (seen (n + 1)) ≤ transitions r30 y m (seen n) + 1

def enginePins (seen : Nat → Nat) (timestamp : Nat → BitVec 64) (clearFaults : Nat → Bool)
    (n : Nat) : CaptureInput :=
  { encAAsync := encA (stimAt r30 y (m + seen n))
    encBAsync := encB (stimAt r30 y (m + seen n))
    encZAsync := encZ (stimAt r30 y (m + seen n))
    timestamp := timestamp n
    clearFaults := clearFaults n }

variable {r30 y m}

theorem abzRun_track (h : AbzRun r30 y m) (k : Nat) :
    InRun (stimAt r30 y (m + k)) ∧
      ((stimAt r30 y (m + k)).phase.toNat : Int) % 4 =
        ((stimAt r30 y m).phase.toNat + engineNet r30 y m k) % 4 := by
  induction k with
  | zero =>
      rw [engineNet, net_zero, Int.add_zero]
      exact ⟨⟨stimAt_loopHead r30 y m, h.isRunning, h.isAbz⟩, rfl⟩
  | succ k ih =>
      obtain ⟨hrun, hphase⟩ := iterate_inRun ih.1 (h.unstopped k)
      refine ⟨hrun, hphase.trans ?_⟩
      rw [engineNet, net_succ, ← engineNet]
      have hk := ih.2
      rw [engineForward, engineReverse]
      omega

theorem engine_adjacent {seen : Nat → Nat} (h : Sampled r30 y m seen) (n : Nat) :
    Adjacent (engineNet r30 y m (seen n)) (engineNet r30 y m (seen (n + 1))) := by
  have hfast := h.fast n
  have hF := Nat.count_monotone (fun j => engineForward r30 y m j = true) (h.forward n)
  have hR := Nat.count_monotone (fun j => engineReverse r30 y m j = true) (h.forward n)
  rw [transitions, transitions] at hfast
  rw [Adjacent, engineNet, engineNet, net, net]
  omega

theorem engine_decoded (h : AbzRun r30 y m) {seen : Nat → Nat} (hat : Sampled r30 y m seen)
    {d : AbzCapture} (hd : Settled d (-(stimAt r30 y m).phase.toNat)) (hp : d.positionEdges = 0)
    (timestamp : Nat → BitVec 64) (clearFaults : Nat → Bool) (n : Nat) :
    (wave AbzCapture.step d (enginePins r30 y m seen timestamp clearFaults) (n + 3)).positionEdges =
        BitVec.ofInt 32 (-engineNet r30 y m (seen n)) ∧
      (wave AbzCapture.step d (enginePins r30 y m seen timestamp clearFaults)
        (n + 3)).illegalTransitionLatched = false := by
  have hpins : ∀ n, (enginePins r30 y m seen timestamp clearFaults n).ab =
      gray (-(stimAt r30 y m).phase.toNat - engineNet r30 y m (seen n)) := by
    intro n
    obtain ⟨hrun, hphase⟩ := abzRun_track h (seen n)
    refine (pins_gray hrun).trans (gray_congr ?_)
    omega
  have hwalk : ∀ n, Adjacent (-((stimAt r30 y m).phase.toNat : Int) - engineNet r30 y m (seen n))
      (-(stimAt r30 y m).phase.toNat - engineNet r30 y m (seen (n + 1))) := by
    intro n
    have hn := engine_adjacent hat n
    rw [Adjacent] at hn ⊢
    omega
  have hstart : Adjacent (-((stimAt r30 y m).phase.toNat : Int))
      (-(stimAt r30 y m).phase.toNat - engineNet r30 y m (seen 0)) := by
    rw [hat.start, engineNet, net_zero]
    exact Or.inl (Int.sub_zero _)
  obtain ⟨hposition, hlegal⟩ := wave_counts hd hstart hwalk hpins n
  refine ⟨hposition.trans ?_, hlegal⟩
  rw [hp]
  exact (BitVec.zero_add _).trans (congrArg _ (by omega))

end Engine

theorem ofInt_neg_eq_iff (z : Int) :
    BitVec.ofInt 32 (-z) = BitVec.ofInt 32 z ↔ z % 2 ^ 31 = 0 := by
  rw [← BitVec.toInt_inj, BitVec.toInt_ofInt, BitVec.toInt_ofInt, Int.bmod_eq_bmod_iff_bmod_sub_eq_zero]
  rw [← Int.dvd_iff_bmod_eq_zero]
  omega

theorem sampled_every_pass (r30 : BitVec 32) (y : Nat → Iteration) (m : Nat) :
    Sampled r30 y m (fun n => n) := by
  refine ⟨rfl, fun n => Nat.le_succ n, fun n => ?_⟩
  have hexcl : engineForward r30 y m n = true → engineReverse r30 y m n = false := by
    intro hf
    rw [engineForward, transitionsForward, Bool.and_eq_true] at hf
    rw [engineReverse, transitionsReverse, bne, hf.2]
    simp
  rw [transitions, transitions, Nat.count_succ, Nat.count_succ]
  cases hf : engineForward r30 y m n with
  | true =>
      rw [hexcl hf]
      simp only [Bool.false_eq_true, if_false, if_true]
      omega
  | false =>
      simp only [Bool.false_eq_true, if_false]
      split_ifs <;> omega

/-- Decoded alike, the two generators agree with their step counts just when
the engine's forward and reverse transitions cancel modulo 2^31. -/
theorem abz_directions_agree_iff (countsPerRev : Nat) (x : Nat → AbzInput) (r30 : BitVec 32)
    (y : Nat → Iteration) (m : Nat) (hrun : AbzRun r30 y m) (seen : Nat → Nat)
    (hseen : Sampled r30 y m seen) (d : AbzCapture)
    (hd : Settled d (-(stimAt r30 y m).phase.toNat)) (hp : d.positionEdges = 0)
    (timestamp : Nat → BitVec 64) (clearFaults : Nat → Bool) (n k : Nat) :
    (((wave AbzCapture.step .reset (emulatorPins countsPerRev x timestamp clearFaults)
          (n + 3)).positionEdges = BitVec.ofInt 32 (emulatorNet countsPerRev x n) ∧
        (wave AbzCapture.step .reset (emulatorPins countsPerRev x timestamp clearFaults)
          (n + 3)).illegalTransitionLatched = false) ∧
      (wave AbzCapture.step d (enginePins r30 y m seen timestamp clearFaults)
          (k + 3)).positionEdges = BitVec.ofInt 32 (engineNet r30 y m (seen k)) ∧
        (wave AbzCapture.step d (enginePins r30 y m seen timestamp clearFaults)
          (k + 3)).illegalTransitionLatched = false) ↔
      engineNet r30 y m (seen k) % 2 ^ 31 = 0 := by
  obtain ⟨hposition, hlegal⟩ := engine_decoded hrun hseen hd hp timestamp clearFaults k
  rw [hposition, ofInt_neg_eq_iff]
  constructor
  · intro h
    exact h.2.1
  · intro h
    exact ⟨emulator_decoded countsPerRev x timestamp clearFaults n, h, hlegal⟩

theorem reset_settled_at {s : Stim} (h : s.phase = 0) : Settled .reset (-s.phase.toNat) := by
  rw [h]
  exact reset_settled

/-- The default configuration started in pass 0, one forward transition, a turn of the direction in
pass 2, and then reverse transitions. -/
def turnedRun : Nat → Iteration
  | 0 => ⟨0, true, [sampleRequest .abzStart 0 0 0 0 0]⟩
  | 1 => ⟨200000, false, []⟩
  | 2 => ⟨200001, true, [sampleRequest .abzDirection 1 0 0 0 200001]⟩
  | k + 3 => ⟨200000 * BitVec.ofNat 32 (k + 2), false, []⟩

theorem turnedRun_abzRun : AbzRun 0 turnedRun 1 := by
  refine ⟨by decide, by decide, ?_⟩
  intro k v hv
  have hmem : v ∈ visits (stimAt 0 turnedRun (1 + k)) (turnedRun (1 + k)).received := by
    rw [served] at hv
    split_ifs at hv with hb
    · exact hv
    · cases hv
  have hreceived := visits_received hmem
  rcases k with _ | _ | k
  · cases hreceived
  · rintro ⟨command, hc, haccept, -⟩
    rw [List.mem_singleton.mp hreceived] at haccept
    cases haccept
    cases hc
  · rw [show 1 + (k + 1 + 1) = k + 3 by omega] at hreceived
    cases hreceived

/-- One transition each way is decoded as no movement. -/
theorem abz_directions_agree_after_turn :
    engineForward 0 turnedRun 1 0 = true ∧ engineReverse 0 turnedRun 1 2 = true ∧
      (wave AbzCapture.step .reset
        (enginePins 0 turnedRun 1 (fun n => n) (fun _ => 0) (fun _ => false)) 6).positionEdges = 0 ∧
      (wave AbzCapture.step .reset
        (enginePins 0 turnedRun 1 (fun n => n) (fun _ => 0) (fun _ => false))
          6).illegalTransitionLatched = false := by
  have hagree := (abz_directions_agree_iff 4096 (fun _ => ⟨true, true, 1⟩) 0 turnedRun 1
    turnedRun_abzRun (fun n => n) (sampled_every_pass 0 turnedRun 1) .reset
    (reset_settled_at (by decide)) rfl (fun _ => 0) (fun _ => false) 5 3).mpr (by decide)
  have hnet : engineNet 0 turnedRun 1 3 = 0 := by decide
  rw [hnet] at hagree
  exact ⟨by decide, by decide, hagree.2⟩

/-- The default configuration started in pass 0, and then one transition a pass. -/
def forwardRun : Nat → Iteration
  | 0 => ⟨0, true, [sampleRequest .abzStart 0 0 0 0 0]⟩
  | k + 1 => ⟨200000 * BitVec.ofNat 32 (k + 1), false, []⟩

theorem forwardRun_abzRun : AbzRun 0 forwardRun 1 := by
  refine ⟨by decide, by decide, ?_⟩
  intro k v hv
  have hreceived : (forwardRun (1 + k)).received = [] := by
    rw [Nat.add_comm]
    rfl
  rw [served, hreceived, visits, ite_self] at hv
  cases hv

/-- One forward transition of the engine is decoded as one reverse edge. -/
theorem engine_forward_counts_down :
    ¬ ∀ (r30 : BitVec 32) (y : Nat → Iteration) (m : Nat), AbzRun r30 y m →
      ∀ seen : Nat → Nat, Sampled r30 y m seen →
      ∀ d : AbzCapture, Settled d (-(stimAt r30 y m).phase.toNat) → d.positionEdges = 0 →
      ∀ (timestamp : Nat → BitVec 64) (clearFaults : Nat → Bool) (k : Nat),
        (wave AbzCapture.step d (enginePins r30 y m seen timestamp clearFaults)
          (k + 3)).positionEdges = BitVec.ofInt 32 (engineNet r30 y m (seen k)) := by
  intro h
  have hclaim := h 0 forwardRun 1 forwardRun_abzRun (fun n => n) (sampled_every_pass 0 forwardRun 1)
    .reset (reset_settled_at (by decide)) rfl (fun _ => 0) (fun _ => false) 1
  have hdecoded := (engine_decoded forwardRun_abzRun (sampled_every_pass 0 forwardRun 1)
    (reset_settled_at (by decide)) rfl (fun _ => 0) (fun _ => false) 1).1
  have hnet : engineNet 0 forwardRun 1 1 = 1 := by decide
  rw [hdecoded, hnet] at hclaim
  exact absurd hclaim (by decide)

end HilLab.Backends.AbzDirection
