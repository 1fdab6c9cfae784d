import HilLab.Lib.Clocked
import HilLab.Pru.Stimulus
import Mathlib.Tactic.SplitIfs

namespace HilLab.Pru.StimulusInvariant

open Lib.Clocked Protocol Stimulus

def TicksOk (ticks : BitVec 32) : Prop := minTransitionTicks ≤ ticks ∧ ticks < 0x80000000

/-- The levels that belong to the mode and the position of the emulators. -/
def levels (s : Stim) : BitVec 32 :=
  if s.running then
    match s.activeMode with
    | .abz => abzBits s.phase s.indexActive
    | .hall => hallStepToBits s.hallStep
    | .none => 0
  else 0

def outputs (s : Stim) : BitVec 32 := s.r30 &&& stimOutputMask

/-- What holds of the variables of main between any two statements that handle a
request or take a branch. -/
structure Coherent (s : Stim) : Prop where
  running_iff : s.running = true ↔ s.activeMode = .abz ∨ s.activeMode = .hall
  armed : s.armedMode = .none ∨ s.armedMode = .abz
  armed_idle : s.armedMode ≠ .none → s.running = false
  start_idle : s.startPendingMode ≠ .none → s.running = false ∧ s.armedMode = .none
  ticks : TicksOk s.transitionTicks
  hallTicks : TicksOk s.hallTransitionTicks
  updateTicks : s.updateFlags &&& schedTransitionValid ≠ 0 → TicksOk s.updateTransitionTicks
  initialPhase : s.initialPhase < 4
  phase : s.phase < 4
  hallInitialStep : s.hallInitialStep < 6
  hallStep : s.hallStep < 6
  indexPhase : s.indexPhase.toNat < max 1 s.indexPeriodTransitions.toNat
  indexWidth : s.indexWidthTransitions ≤ s.indexPeriodTransitions
  outputs : outputs s = levels s

section Pins

theorem clear_outputs (r30 : BitVec 32) : (r30 &&& ~~~stimOutputMask) &&& stimOutputMask = 0 := by
  refine BitVec.eq_of_getLsbD_eq (fun i hi => ?_)
  cases h : stimOutputMask.getLsbD i <;> simp [h]

theorem outputs_forceSafe (s : Stim) : outputs s.forceSafeOutputs = 0 := clear_outputs s.r30

theorem outputs_apply (s : Stim) {bits : BitVec 32} (h : bits &&& stimOutputMask = bits) :
    outputs (s.applyOutputs bits) = bits := by
  refine BitVec.eq_of_getLsbD_eq (fun i hi => ?_)
  have hb : (bits.getLsbD i && stimOutputMask.getLsbD i) = bits.getLsbD i := by
    rw [← BitVec.getLsbD_and, h]
  cases hm : stimOutputMask.getLsbD i with
  | false =>
      rw [hm, Bool.and_false] at hb
      simp [outputs, Stim.applyOutputs, hm, ← hb]
  | true => simp [outputs, Stim.applyOutputs, hm]

theorem abzBits_masked (phase : BitVec 32) (indexActive : Bool) :
    abzBits phase indexActive &&& stimOutputMask = abzBits phase indexActive := by
  unfold abzBits phaseToAb
  dsimp only
  split_ifs <;> decide

theorem hallStepToBits_masked (step : BitVec 32) :
    hallStepToBits step &&& stimOutputMask = hallStepToBits step := by
  unfold hallStepToBits
  dsimp only
  split_ifs <;> decide

end Pins

theorem and_three_lt (x : BitVec 32) : x &&& 3 < 4 := by
  rw [BitVec.lt_def, BitVec.toNat_and]
  exact Nat.and_lt_two_pow x.toNat (by decide : (3 : BitVec 32).toNat < 2 ^ 2)

theorem umod_six_lt (x : BitVec 32) : x % 6 < 6 := BitVec.umod_lt x (by decide)

theorem nextIndexPhase_lt (period indexPhase : BitVec 32) :
    (nextIndexPhase period indexPhase).toNat < max 1 period.toNat := by
  rw [nextIndexPhase]
  split_ifs with h0 hwrap
  · exact Nat.lt_of_lt_of_le Nat.zero_lt_one (Nat.le_max_left 1 _)
  · have hlt : indexPhase + 1 < period := BitVec.not_le.mp hwrap
    exact Nat.lt_of_lt_of_le (BitVec.lt_def.mp hlt) (Nat.le_max_right 1 _)
  · exact Nat.lt_of_lt_of_le Nat.zero_lt_one (Nat.le_max_left 1 _)

theorem zero_lt_max (period : BitVec 32) : (0 : BitVec 32).toNat < max 1 period.toNat :=
  Nat.lt_of_lt_of_le Nat.zero_lt_one (Nat.le_max_left 1 _)

theorem defaultTicks_ok : TicksOk defaultTransitionTicks := by
  rw [TicksOk]
  decide

theorem init_coherent (r30 : BitVec 32) : Coherent (Stim.init r30) where
  running_iff := by simp [Stim.init]
  armed := Or.inl rfl
  armed_idle h := absurd rfl h
  start_idle h := absurd rfl h
  ticks := defaultTicks_ok
  hallTicks := defaultTicks_ok
  updateTicks h := absurd (rfl : (0 : BitVec 32) &&& schedTransitionValid = 0) h
  initialPhase := (by decide : (0 : BitVec 32) < 4)
  phase := (by decide : (0 : BitVec 32) < 4)
  hallInitialStep := (by decide : (0 : BitVec 32) < 6)
  hallStep := (by decide : (0 : BitVec 32) < 6)
  indexPhase := zero_lt_max 0
  indexWidth := BitVec.le_refl _
  outputs := clear_outputs r30

theorem busy_eq_false {s : Stim} :
    s.busy = false ↔ s.running = false ∧ s.armedMode = .none ∧ s.startPendingMode = .none := by
  simp [Stim.busy, and_assoc]

theorem stopped_coherent {s t : Stim} (h : Coherent s) (hr : t.running = false)
    (hm : t.activeMode = .none) (ha : t.armedMode = .none ∨ t.armedMode = s.armedMode)
    (hs : t.startPendingMode = .none) (hout : outputs t = 0)
    (hkeep : t.transitionTicks = s.transitionTicks ∧ t.hallTransitionTicks = s.hallTransitionTicks ∧
      t.updateFlags = s.updateFlags ∧ t.updateTransitionTicks = s.updateTransitionTicks ∧
      t.initialPhase = s.initialPhase ∧ t.phase = s.phase ∧ t.hallInitialStep = s.hallInitialStep ∧
      t.hallStep = s.hallStep ∧ t.indexPhase = s.indexPhase ∧
      t.indexPeriodTransitions = s.indexPeriodTransitions ∧
      t.indexWidthTransitions = s.indexWidthTransitions) : Coherent t := by
  obtain ⟨k1, k2, k3, k4, k5, k6, k7, k8, k9, k10, k11⟩ := hkeep
  refine ⟨?_, ?_, fun _ => hr, fun hn => absurd hs hn, k1 ▸ h.ticks, k2 ▸ h.hallTicks, ?_,
    k5 ▸ h.initialPhase, k6 ▸ h.phase, k7 ▸ h.hallInitialStep, k8 ▸ h.hallStep, ?_, ?_, ?_⟩
  · simp [hr, hm]
  · rcases ha with ha | ha
    · exact Or.inl ha
    · exact ha ▸ h.armed
  · rw [k3, k4]
    exact h.updateTicks
  · rw [k9, k10]
    exact h.indexPhase
  · rw [k10, k11]
    exact h.indexWidth
  · rw [hout, levels, hr]
    rfl

section Requests

variable {s : Stim} (request : Msg) (now : BitVec 32)

theorem outputs_of_stopped {t : Stim} (h : t.running = false) (ho : outputs t = 0) :
    outputs t = levels t := by
  rw [ho, levels, h]
  rfl

theorem abzConfig_coherent (h : Coherent s) : Coherent (abzConfig request s).1 := by
  rw [abzConfig]
  dsimp only
  split_ifs with hb ht hi
  · exact h
  · exact h
  · exact h
  · obtain ⟨hr, _, _⟩ := busy_eq_false.mp (Bool.not_eq_true _ ▸ hb)
    rw [not_or, BitVec.not_lt, BitVec.not_le] at ht
    have hwidth : request.arg2 ≤ request.arg1 := by
      simp only [not_or, not_and, BitVec.not_lt] at hi
      by_cases h1 : request.arg1 = 0
      · have h2 := Decidable.not_not.mp (hi.1 h1)
        rw [h1, h2]
        exact BitVec.le_refl _
      · exact hi.2 h1
    exact ⟨h.running_iff, h.armed, h.armed_idle, h.start_idle, ht, h.hallTicks, h.updateTicks,
      and_three_lt _, and_three_lt _, h.hallInitialStep, h.hallStep, zero_lt_max _, hwidth,
      outputs_of_stopped hr (outputs_forceSafe s)⟩

theorem hallConfig_coherent (h : Coherent s) : Coherent (hallConfig request s).1 := by
  rw [hallConfig]
  split_ifs with hb hv
  · exact h
  · exact h
  · obtain ⟨hr, _, _⟩ := busy_eq_false.mp (Bool.not_eq_true _ ▸ hb)
    simp only [not_or, BitVec.not_lt, BitVec.not_le] at hv
    exact ⟨h.running_iff, h.armed, h.armed_idle, h.start_idle, h.ticks, ⟨hv.1, hv.2.1⟩,
      h.updateTicks, h.initialPhase, h.phase, hv.2.2.2, hv.2.2.2, h.indexPhase, h.indexWidth,
      outputs_of_stopped hr (outputs_forceSafe s)⟩

theorem abzStart_coherent (h : Coherent s) : Coherent (abzStart now s).1 := by
  rw [abzStart]
  split
  · exact h
  · rename_i hb
    obtain ⟨hr, ha, _⟩ := busy_eq_false.mp (Bool.not_eq_true _ ▸ hb)
    exact { h with start_idle := fun _ => ⟨hr, ha⟩ }

theorem hallStart_coherent (h : Coherent s) : Coherent (hallStart now s).1 := by
  rw [hallStart]
  split_ifs with hb
  · exact h
  · obtain ⟨hr, ha, _⟩ := busy_eq_false.mp (Bool.not_eq_true _ ▸ hb)
    exact { h with start_idle := fun _ => ⟨hr, ha⟩ }

theorem abzArm_coherent (h : Coherent s) : Coherent (abzArm request now s).1 := by
  rw [abzArm]
  split_ifs with hb hv
  · exact h
  · exact h
  · obtain ⟨hr, _, hs⟩ := busy_eq_false.mp (Bool.not_eq_true _ ▸ hb)
    exact
      { h with
        armed := Or.inr rfl
        armed_idle := fun _ => hr
        start_idle := fun hn => absurd hs hn }

theorem abzSchedule_coherent (h : Coherent s) : Coherent (abzSchedule request now s).1 := by
  rw [abzSchedule]
  split_ifs with hr ha hp hv ht hd
  · exact h
  · exact h
  · exact h
  · exact h
  · exact h
  · exact h
  · refine { h with updateTicks := fun hf => ?_ }
    have hvalid : request.arg3 &&& schedTransitionValid ≠ 0 := by
      have hmask : (schedTransitionValid ||| schedDirectionValid) &&& schedTransitionValid =
          schedTransitionValid := by decide
      rwa [BitVec.and_assoc, hmask] at hf
    simp only [not_and, not_or, BitVec.not_lt, BitVec.not_le] at ht
    exact ht hvalid

theorem abzDirection_coherent (h : Coherent s) : Coherent (abzDirection request now s).1 := by
  rw [abzDirection]
  split_ifs
  · exact h
  · exact { h with }

theorem dispatch_coherent (h : Coherent s) (command : Command) :
    Coherent (dispatch request now s command).1 := by
  cases command with
  | hello | time | ping | abzStatus | hallStatus | stimStatus => exact h
  | forceSafe =>
      exact stopped_coherent h rfl rfl (Or.inl rfl) rfl (outputs_forceSafe s)
        ⟨rfl, rfl, rfl, rfl, rfl, rfl, rfl, rfl, rfl, rfl, rfl⟩
  | abzStop =>
      exact stopped_coherent h rfl rfl (Or.inl rfl) rfl (outputs_forceSafe s)
        ⟨rfl, rfl, rfl, rfl, rfl, rfl, rfl, rfl, rfl, rfl, rfl⟩
  | hallStop =>
      exact stopped_coherent h rfl rfl (Or.inr rfl) rfl (outputs_forceSafe s)
        ⟨rfl, rfl, rfl, rfl, rfl, rfl, rfl, rfl, rfl, rfl, rfl⟩
  | abzConfig => exact abzConfig_coherent request h
  | abzStart => exact abzStart_coherent now h
  | abzDirection => exact abzDirection_coherent request now h
  | abzArm => exact abzArm_coherent request now h
  | abzSchedule => exact abzSchedule_coherent request now h
  | hallConfig => exact hallConfig_coherent request h
  | hallStart => exact hallStart_coherent now h

/-- The case of the switch changes the state only if it leaves the status OK. -/
def KeepsOnError (s : Stim) (r : Stim × Reply) : Prop := r.2.flags = statusOk ∨ r.1 = s

theorem reject_keeps (s : Stim) (flags : BitVec 32) : KeepsOnError s (s.reject flags) := Or.inr rfl

theorem KeepsOnError.ite {c : Prop} [Decidable c] {a b : Stim × Reply} (ha : KeepsOnError s a)
    (hb : KeepsOnError s b) : KeepsOnError s (if c then a else b) := by
  split
  · exact ha
  · exact hb

theorem dispatch_keeps (command : Command) : KeepsOnError s (dispatch request now s command) := by
  have hr := reject_keeps s
  cases command with
  | hello | time | ping | abzStatus | hallStatus | stimStatus => exact Or.inr rfl
  | forceSafe | abzStop | hallStop => exact Or.inl rfl
  | abzConfig => exact (hr _).ite ((hr _).ite ((hr _).ite (Or.inl rfl)))
  | abzStart | hallStart => exact (hr _).ite (Or.inl rfl)
  | abzDirection => exact (hr _).ite (Or.inl rfl)
  | abzArm | hallConfig => exact (hr _).ite ((hr _).ite (Or.inl rfl))
  | abzSchedule =>
      exact (hr _).ite ((hr _).ite ((hr _).ite ((hr _).ite ((hr _).ite ((hr _).ite (Or.inl rfl))))))

end Requests

theorem handle_coherent {s : Stim} (h : Coherent s) (request : Msg) (now : BitVec 32)
    (len : BitVec 16) : Coherent (handle request now s len).1 := by
  rw [handle]
  split
  · exact dispatch_coherent request now h _
  · exact h

theorem handleRequest_fst (request : Msg) (now : BitVec 32) (s : Stim) (len : BitVec 16) :
    (handleRequest request now s len).1 = (handle request now s len).1 := by
  rw [handleRequest]
  dsimp only
  split <;> rfl

theorem handleRequest_flags (request : Msg) (now : BitVec 32) (s : Stim) (len : BitVec 16) :
    (handleRequest request now s len).2.flags = (handle request now s len).2.flags := by
  rw [handleRequest]
  dsimp only
  split <;> rfl

theorem handle_keeps (request : Msg) (now : BitVec 32) (s : Stim) (len : BitVec 16) :
    KeepsOnError s (handle request now s len) := by
  rw [handle]
  split
  · exact dispatch_keeps request now _
  · exact reject_keeps s _

structure LoopHead (s : Stim) : Prop extends Coherent s where
  start_none : s.startPendingMode = .none

theorem init_loopHead (r30 : BitVec 32) : LoopHead (Stim.init r30) := ⟨init_coherent r30, rfl⟩

section Steps

variable {s : Stim} (now : BitVec 32)

theorem startPending_loopHead (h : Coherent s) : LoopHead (s.startPending now) := by
  rw [Stim.startPending]
  cases hm : s.startPendingMode with
  | none => exact ⟨h, hm⟩
  | abz =>
      obtain ⟨_, ha⟩ := h.start_idle (by rw [hm]; decide)
      refine ⟨⟨by simp, Or.inl ha, fun hn => absurd ha hn, fun hn => absurd rfl hn, h.ticks,
        h.hallTicks, h.updateTicks, h.initialPhase, h.initialPhase, h.hallInitialStep, h.hallStep,
        zero_lt_max _, h.indexWidth, ?_⟩, rfl⟩
      exact outputs_apply _ (abzBits_masked _ _)
  | hall =>
      obtain ⟨_, ha⟩ := h.start_idle (by rw [hm]; decide)
      refine ⟨⟨by simp, Or.inl ha, fun hn => absurd ha hn, fun hn => absurd rfl hn, h.ticks,
        h.hallTicks, h.updateTicks, h.initialPhase, h.phase, h.hallInitialStep, h.hallInitialStep,
        h.indexPhase, h.indexWidth, ?_⟩, rfl⟩
      exact outputs_apply _ (hallStepToBits_masked _)

theorem serve_loopHead (h : LoopHead s) (r : Reception) : LoopHead (s.serve r) := by
  rw [Stim.serve]
  rw [handleRequest_fst]
  exact startPending_loopHead _ (handle_coherent h.toCoherent _ _ _)

theorem drain_loopHead (h : LoopHead s) (received : List Reception) :
    LoopHead (received.foldl Stim.serve s) := by
  induction received generalizing s with
  | nil => exact h
  | cons r received ih => exact ih (serve_loopHead h r)

theorem armedStart_loopHead (h : LoopHead s) : LoopHead (s.armedStart now) := by
  refine ⟨⟨by simp [Stim.armedStart], Or.inl rfl, fun hn => absurd rfl hn,
    fun hn => absurd h.start_none hn, h.ticks, h.hallTicks, h.updateTicks, h.initialPhase,
    h.initialPhase, h.hallInitialStep, h.hallStep, zero_lt_max _, h.indexWidth, ?_⟩, h.start_none⟩
  exact outputs_apply _ (abzBits_masked _ _)

theorem applyUpdate_loopHead (h : LoopHead s) : LoopHead (s.applyUpdate now) := by
  refine ⟨⟨h.running_iff, h.armed, h.armed_idle, h.start_idle, ?_, h.hallTicks, h.updateTicks,
    h.initialPhase, h.phase, h.hallInitialStep, h.hallStep, h.indexPhase, h.indexWidth, h.outputs⟩,
    h.start_none⟩
  rw [Stim.applyUpdate]
  dsimp only
  split
  · rename_i hf
    exact h.updateTicks hf
  · exact h.ticks

theorem abzTransition_loopHead (h : LoopHead s) (hr : s.running = true)
    (hm : s.activeMode = .abz) : LoopHead (s.abzTransition now) := by
  refine ⟨⟨h.running_iff, h.armed, h.armed_idle, h.start_idle, h.ticks, h.hallTicks, h.updateTicks,
    h.initialPhase, ?_, h.hallInitialStep, h.hallStep, nextIndexPhase_lt _ _, h.indexWidth, ?_⟩,
    h.start_none⟩
  · rw [Stim.abzTransition]
    dsimp only
    split <;> exact and_three_lt _
  · refine (outputs_apply _ (abzBits_masked _ _)).trans ?_
    simp [levels, Stim.abzTransition, Stim.applyAbz, Stim.applyOutputs, hr, hm, Stim.indexActive]

theorem hallTransition_loopHead (h : LoopHead s) (hr : s.running = true)
    (hm : s.activeMode = .hall) : LoopHead (s.hallTransition now) := by
  refine ⟨⟨h.running_iff, h.armed, h.armed_idle, h.start_idle, h.ticks, h.hallTicks, h.updateTicks,
    h.initialPhase, h.phase, h.hallInitialStep, ?_, h.indexPhase, h.indexWidth, ?_⟩, h.start_none⟩
  · rw [Stim.hallTransition]
    dsimp only
    split <;> exact umod_six_lt _
  · refine (outputs_apply _ (hallStepToBits_masked _)).trans ?_
    simp [levels, Stim.hallTransition, Stim.applyOutputs, hr, hm]

end Steps

theorem branch_guard (s : Stim) (i : Iteration) :
    match s.branch i with
    | .armedStart => s.armedMode = .abz ∧ timeDue i.now s.armedApplyTicks = true
    | .applyUpdate => s.running = true ∧ s.activeMode = .abz ∧ s.updatePending = true
    | .abzTransition => s.running = true ∧ s.activeMode = .abz
    | .hallTransition => s.running = true ∧ s.activeMode = .hall
    | .drain | .idle => True := by
  rw [Stim.branch]
  split_ifs with h1 h2 h3 h4
  · exact h1
  · exact ⟨h2.1, h2.2.1, h2.2.2.1⟩
  · exact ⟨h3.1, h3.2.1⟩
  · exact ⟨h4.1, h4.2.1⟩
  · trivial
  · trivial

theorem iterate_loopHead {s : Stim} (h : LoopHead s) (i : Iteration) : LoopHead (s.iterate i) := by
  have hg := branch_guard s i
  rw [Stim.iterate]
  cases hb : s.branch i with
  | armedStart => exact armedStart_loopHead _ h
  | applyUpdate => exact applyUpdate_loopHead _ h
  | abzTransition =>
      rw [hb] at hg
      exact abzTransition_loopHead _ h hg.1 hg.2
  | hallTransition =>
      rw [hb] at hg
      exact hallTransition_loopHead _ h hg.1 hg.2
  | drain => exact drain_loopHead h i.received
  | idle => exact h

theorem serve_keeps {s : Stim} (h : LoopHead s) (r : Reception)
    (hf : (s.answer r).flags ≠ statusOk) : s.serve r = s := by
  rw [Stim.answer] at hf
  rw [handleRequest_flags] at hf
  have hkeep : (handleRequest r.request r.now s r.len).1 = s := by
    rw [handleRequest_fst]
    exact (handle_keeps r.request r.now s r.len).resolve_left hf
  rw [Stim.serve, Stim.startPending]
  rw [hkeep, h.start_none]

def Answered (s : Stim) (r : Reception) (command : Command) : Prop :=
  accept r.request r.len = .ok command ∧ (s.answer r).flags = statusOk

theorem answered_iff {s : Stim} {r : Reception} {command : Command} :
    Answered s r command ↔
      accept r.request r.len = .ok command ∧
        (dispatch r.request r.now s command).2.flags = statusOk := by
  refine and_congr_right (fun hc => ?_)
  rw [Stim.answer, handleRequest_flags, handle, hc]

theorem serve_answered {s : Stim} {r : Reception} {command : Command}
    (h : Answered s r command) :
    s.serve r = (dispatch r.request r.now s command).1.startPending r.startNow := by
  rw [Stim.serve, handleRequest_fst, handle, h.1]

/-- A buffer either changes nothing or was a request answered with OK. -/
theorem serve_cases {s : Stim} (h : LoopHead s) (r : Reception) :
    s.serve r = s ∨ ∃ command, Answered s r command := by
  by_cases hf : (s.answer r).flags = statusOk
  · cases hc : accept r.request r.len with
    | ok command => exact Or.inr ⟨command, hc, hf⟩
    | error flags =>
        left
        have hkeep : (handle r.request r.now s r.len).1 = s := by
          rw [handle, hc]
          rfl
        rw [Stim.serve, handleRequest_fst, hkeep, Stim.startPending, h.start_none]
  · exact Or.inl (serve_keeps h r hf)

instance (s : Stim) (r : Reception) (command : Command) : Decidable (Answered s r command) :=
  match h : accept r.request r.len with
  | .ok reached =>
      decidable_of_iff (reached = command ∧ (s.answer r).flags = statusOk) (by simp [Answered, h])
  | .error _ => isFalse (by simp [Answered, h])

def sampleRequest (command : Command) (arg0 arg1 arg2 arg3 : BitVec 32) (now : BitVec 32) :
    Reception :=
  { len := sizeofMsg
    request :=
      { magic := hilPruMagic, version := hilPruProtocolVersion, type := command.code, seq := 0,
        flags := 0, arg0 := arg0, arg1 := arg1, arg2 := arg2, arg3 := arg3 }
    now := now
    startNow := now }

/-- The states in which the buffers of a drain are handled. -/
def visits : Stim → List Reception → List (Stim × Reception)
  | _, [] => []
  | s, r :: received => (s, r) :: visits (s.serve r) received

theorem visits_received {s : Stim} {received : List Reception} {v : Stim × Reception}
    (h : v ∈ visits s received) : v.2 ∈ received := by
  induction received generalizing s with
  | nil => cases h
  | cons r received ih =>
      rcases List.mem_cons.mp h with rfl | hrest
      · exact List.mem_cons_self
      · exact List.mem_cons_of_mem _ (ih hrest)

def served (s : Stim) (i : Iteration) : List (Stim × Reception) :=
  if s.branch i = .drain then visits s i.received else []

/-- The state at the loop head before pass n, when the passes get the ticks and
buffers of x. -/
def stimAt (r30 : BitVec 32) (x : Nat → Iteration) (n : Nat) : Stim :=
  wave Stim.iterate (Stim.init r30) x n

theorem stimAt_loopHead (r30 : BitVec 32) (x : Nat → Iteration) (n : Nat) :
    LoopHead (stimAt r30 x n) :=
  wave_invariant (init_loopHead r30) (fun _ i h => iterate_loopHead h i) x n

/-- Whatever is received at whatever ticks, every loop head is coherent, modes
against outputs included, and a request answered with an error changes
nothing. -/
theorem loop_heads_coherent (r30 : BitVec 32) (x : Nat → Iteration) :
    (∀ n, LoopHead (stimAt r30 x n)) ∧
      ∀ n (earlier : List Reception) (r : Reception),
        (((earlier.foldl Stim.serve (stimAt r30 x n)).answer r).flags ≠ statusOk →
          (earlier.foldl Stim.serve (stimAt r30 x n)).serve r =
            earlier.foldl Stim.serve (stimAt r30 x n)) :=
  ⟨stimAt_loopHead r30 x, fun n earlier r hf =>
    serve_keeps (drain_loopHead (stimAt_loopHead r30 x n) earlier) r hf⟩

end HilLab.Pru.StimulusInvariant
