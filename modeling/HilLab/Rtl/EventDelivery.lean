import HilLab.Lib.Clocked
import HilLab.Rtl.EventPipeline

namespace HilLab.Rtl.EventDelivery

open Lib.Clocked EventFifo ControlPlane DioEventScheduler EventPipeline

variable {D W I : Nat}

/-- The cycle discards an event: HIL_ENABLE is 0 without FORCE_SAFE, so the
scheduler is held safe while the dispatcher is not. -/
def drops (p : Pipeline D W I) (i : PipeInput W I) : Bool :=
  !i.forceSafe && !i.hilEnable && (p.dispatch.armPulse || p.sched.armed)

theorem sched_safe {p : Pipeline D W I} {i : PipeInput W I} (h : i.hilActive = false) :
    (p.step i).sched.armed = false ∧ (p.step i).sched.dioOut = 0 ∧ p.applied i = [] := by
  have hf : (p.schedInput i).forceSafe = true := by simp [Pipeline.schedInput, h]
  refine ⟨?_, ?_, ?_⟩
  · rw [Pipeline.step, step_forceSafe hf]
  · rw [Pipeline.step, step_forceSafe hf]
    rfl
  · simp [Pipeline.applied, Scheduler.fires, hf]

/-- With HIL active the scheduler loses nothing: what it held or is handed is
applied or held. -/
theorem sched_flow {p : Pipeline D W I} {i : PipeInput W I} (hv : p.Valid) (h : i.hilActive = true) :
    p.applied i ++ (p.step i).scheduled = p.scheduled ++ p.inArm := by
  have hf : (p.schedInput i).forceSafe = false := by simp [Pipeline.schedInput, h]
  cases ha : p.dispatch.armPulse with
  | true =>
      have hn := hv.arm_unarmed ha
      have hfire : p.sched.fires (p.schedInput i) = false := by
        simp [Scheduler.fires, Scheduler.due, hn]
      have harm : (p.schedInput i).arm = true := ha
      simp only [Pipeline.applied, hfire, Pipeline.scheduled, Pipeline.step, step_waits hf hfire,
        Scheduler.takeArm, harm, hn, Pipeline.inArm, ha]
      rfl
  | false =>
      have harm : (p.schedInput i).arm = false := ha
      cases hfire : p.sched.fires (p.schedInput i) with
      | true =>
          have harmed : p.sched.armed = true := by
            simp only [Scheduler.fires, Scheduler.due, Bool.and_eq_true] at hfire
            exact hfire.2.1
          simp [Pipeline.applied, hfire, Pipeline.scheduled, Pipeline.step,
            (step_fires hfire).2.1, harmed, Pipeline.inArm, ha]
      | false =>
          simp [Pipeline.applied, hfire, Pipeline.scheduled, Pipeline.step, step_waits hf hfire,
            Scheduler.takeArm, harm, Pipeline.inArm, ha]

theorem inFlight_step {p : Pipeline D W I} {i : PipeInput W I} (hD : D < 65536) (hv : p.Valid)
    (h : i.forceSafe = false) :
    (p.step i).inFlight = (p.step i).scheduled ++ p.queued ++ p.accepted i := by
  rw [inFlight_eq (step_valid hD hv i), step_contents_of_active hD hv h, List.append_assoc]

theorem inFlight_flush {p : Pipeline D W I} {i : PipeInput W I} (hD : D < 65536) (hv : p.Valid)
    (h : i.forceSafe = true) : (p.step i).inFlight = [] := by
  have ha : i.hilActive = false := by simp [PipeInput.hilActive, h]
  rw [inFlight_eq (step_valid hD hv i), step_contents_of_clear h, Pipeline.scheduled,
    (sched_safe ha).1]
  rfl

/-- A cycle that discards nothing conserves the events. -/
theorem step_conserves {p : Pipeline D W I} {i : PipeInput W I} (hD : D < 65536) (hv : p.Valid)
    (hs : i.forceSafe = false) (hd : drops p i = false) :
    p.inFlight ++ p.accepted i = p.applied i ++ (p.step i).inFlight := by
  rw [inFlight_step hD hv hs]
  cases ha : i.hilActive with
  | true =>
      rw [← List.append_assoc, ← List.append_assoc, sched_flow hv ha]
      rfl
  | false =>
      have he : i.hilEnable = false := by simpa [PipeInput.hilActive, hs] using ha
      obtain ⟨harmed, _, happ⟩ := sched_safe (p := p) ha
      simp only [drops, hs, he, Bool.not_false, Bool.true_and, Bool.or_eq_false_iff] at hd
      simp [happ, Pipeline.scheduled, harmed, Pipeline.inFlight, Pipeline.inArm, hd.1, hd.2]

/-- Whatever the inputs, events are neither made up nor reordered. -/
theorem step_sublist {p : Pipeline D W I} (hD : D < 65536) (hv : p.Valid) (i : PipeInput W I) :
    (p.applied i ++ (p.step i).inFlight).Sublist (p.inFlight ++ p.accepted i) := by
  cases hs : i.forceSafe with
  | true =>
      have ha : i.hilActive = false := by simp [PipeInput.hilActive, hs]
      rw [inFlight_flush hD hv hs, (sched_safe ha).2.2]
      exact List.nil_sublist _
  | false =>
      cases hd : drops p i with
      | false => exact (step_conserves hD hv hs hd).symm ▸ List.Sublist.refl _
      | true =>
          have ha : i.hilActive = false := by
            simp only [drops, hs, Bool.and_eq_true, Bool.not_eq_true'] at hd
            simp [PipeInput.hilActive, hd.1.2]
          obtain ⟨harmed, _, happ⟩ := sched_safe (p := p) ha
          rw [inFlight_step hD hv hs, happ, Pipeline.scheduled, harmed]
          simp only [Bool.false_eq_true, if_false, List.nil_append, Pipeline.inFlight,
            List.append_assoc]
          exact (List.sublist_append_right _ _).trans (List.sublist_append_right _ _)

theorem step_loses {p : Pipeline D W I} {i : PipeInput W I} (hD : D < 65536) (hv : p.Valid)
    (hd : drops p i = true) :
    p.inFlight ++ p.accepted i ≠ p.applied i ++ (p.step i).inFlight := by
  simp only [drops, Bool.and_eq_true, Bool.not_eq_true', Bool.or_eq_true] at hd
  obtain ⟨⟨hs, he⟩, hheld⟩ := hd
  have ha : i.hilActive = false := by simp [PipeInput.hilActive, he]
  obtain ⟨harmed, _, happ⟩ := sched_safe (p := p) ha
  rw [inFlight_step hD hv hs, happ, Pipeline.scheduled, harmed]
  intro h
  have hlen := congrArg List.length h
  simp only [Pipeline.inFlight, Bool.false_eq_true, if_false, List.nil_append,
    List.length_append] at hlen
  rcases hheld with harm | harm
  · have h1 : p.inArm.length = 1 := by simp [Pipeline.inArm, harm]
    omega
  · have h1 : p.scheduled.length = 1 := by simp [Pipeline.scheduled, harm]
    omega

def Live (p : Pipeline D W I) : Prop :=
  p.dispatch.inflight = true → p.dispatch.armPulse = true ∨ p.sched.armed = true

theorem live_step {p : Pipeline D W I} {i : PipeInput W I} (hl : Live p)
    (hd : drops p i = false) : Live (p.step i) := by
  intro hi
  cases hload : p.loads i with
  | true => exact Or.inl (by simp only [Pipeline.step, dispatch_loads _ hload])
  | false =>
      simp only [Pipeline.step, dispatch_rests _ hload, Bool.and_eq_true, Bool.not_eq_true',
        Bool.or_eq_false_iff] at hi
      obtain ⟨⟨hs, hin⟩, harmed, _⟩ := hi
      have harm : p.dispatch.armPulse = true := by
        rcases hl hin with h | h
        · exact h
        · simp [harmed] at h
      have ha : i.hilActive = true := by
        simpa [drops, hs, harm, PipeInput.hilActive] using hd
      have hf : (p.schedInput i).forceSafe = false := by simp [Pipeline.schedInput, ha]
      have hfire : p.sched.fires (p.schedInput i) = false := by
        simp [Scheduler.fires, Scheduler.due, harmed]
      have hin : (p.schedInput i).arm = true := harm
      right
      simp [Pipeline.step, step_waits hf hfire, Scheduler.takeArm, hin]

theorem dioOut_step {p : Pipeline D W I} {i : PipeInput W I} (h : i.hilActive = true) :
    (p.step i).sched.dioOut = (p.applied i).foldl (fun dio a => a.apply dio) p.sched.dioOut := by
  have hf : (p.schedInput i).forceSafe = false := by simp [Pipeline.schedInput, h]
  cases hfire : p.sched.fires (p.schedInput i) with
  | true => simp [Pipeline.applied, hfire, Pipeline.step, (step_fires hfire).1, Action.apply]
  | false =>
      simp [Pipeline.applied, hfire, Pipeline.step, step_waits hf hfire, takeArm_dioOut]

section Core

open DigitalCore

def sampleParams : Params 24 :=
  { backendId := 0x00007010, buildId := 1, capabilities := 0xC37, spiFrameData := 0xA55A3C }

def sampleMem : Nat → Event 16 16 := fun _ => Event.zero 16 16

/-- A software run with HIL disabled: release FORCE_SAFE, stage an event that
sets output 0, push it. -/
def disabledPush : List (BitVec 12 × BitVec 32) :=
  [(regControl, 0), (regEvtMask, 1), (regEvtValue, 1), (regEvtPush, 1)]

def enabledPush : List (BitVec 12 × BitVec 32) :=
  [(regControl, 1), (regEvtMask, 1), (regEvtValue, 1), (regEvtPush, 1)]

def safeAt (x : Nat → CoreInput) (t n : Nat) : CoreInput :=
  if n = t then { x n with externalForceSafe := true } else x n

variable {F : Nat} (c : Params F) (mem : Nat → Event W 16) (x : Nat → CoreInput)

def coreAt (n : Nat) : Core F W := wave (Core.step c) (Core.reset mem) x n

def pipelineAt (n : Nat) : Pipeline eventDepth W 16 := ofCore (coreAt c mem x n)

def pipelineInputAt (n : Nat) : PipeInput W 16 := coreInput (coreAt c mem x n) (x n)

def forceSafeAt (n : Nat) : Bool := (coreAt (W := W) c mem x n).cfgForceSafe (x n)

def inFlightAt (n : Nat) : List (Action W) := (pipelineAt c mem x n).inFlight

def acceptedAt (n : Nat) : List (Action W) :=
  (pipelineAt c mem x n).accepted (pipelineInputAt c mem x n)

def appliedAt (n : Nat) : List (Action W) :=
  (pipelineAt c mem x n).applied (pipelineInputAt c mem x n)

/-- As long as FORCE_SAFE stays deasserted, the events in flight and those
accepted later are all applied or still in flight, in order. -/
def NothingLost : Prop :=
  ∀ i j, i ≤ j → (∀ n, i ≤ n → n < j → forceSafeAt c mem x n = false) →
    inFlightAt c mem x i ++ between (acceptedAt c mem x) i j =
      between (appliedAt c mem x) i j ++ inFlightAt c mem x j

def NeverWedges : Prop :=
  ∀ n, (coreAt (W := W) c mem x n).control.dispatch.inflight = true →
    (coreAt (W := W) c mem x n).control.dispatch.armPulse = true ∨
      (coreAt (W := W) c mem x n).dio.armed = true

/-- Cycle n has HIL_ENABLE at 0 without FORCE_SAFE while an event is in the
arm pulse or in the scheduler. -/
def DisabledMidEvent (n : Nat) : Prop :=
  forceSafeAt c mem x n = false ∧ (coreAt (W := W) c mem x n).control.config.hilEnable = false ∧
    ((coreAt (W := W) c mem x n).control.dispatch.armPulse = true ∨
      (coreAt (W := W) c mem x n).dio.armed = true)

theorem pipelineAt_valid (n : Nat) : (pipelineAt c mem x n).Valid := by
  have h0 : (ofCore (Core.reset (F := F) mem)).Valid := reset_valid (by decide) mem
  refine wave_invariant (P := fun s : Core F W => (ofCore s).Valid) h0 ?_ x n
  intro s i hv
  rw [ofCore_step]
  exact step_valid (by decide) hv (coreInput s i)

theorem pipelineAt_succ (n : Nat) :
    pipelineAt c mem x (n + 1) = (pipelineAt c mem x n).step (pipelineInputAt c mem x n) :=
  ofCore_step c (coreAt c mem x n) (x n)

theorem disabledMidEvent_iff (n : Nat) :
    DisabledMidEvent c mem x n ↔
      drops (pipelineAt c mem x n) (pipelineInputAt c mem x n) = true := by
  simp only [drops, Bool.and_eq_true, Bool.not_eq_true', Bool.or_eq_true, and_assoc]
  rfl

/-- The core delivers every accepted event and keeps dispatching exactly when
software never disables HIL in the middle of an event. -/
theorem delivers_iff_not_disabledMidEvent :
    (NothingLost c mem x ∧ NeverWedges c mem x) ↔ ∀ n, ¬ DisabledMidEvent c mem x n := by
  simp only [disabledMidEvent_iff, Bool.not_eq_true]
  constructor
  · intro h n
    cases hd : drops (pipelineAt c mem x n) (pipelineInputAt c mem x n) with
    | false => rfl
    | true =>
        have hs : forceSafeAt c mem x n = false := by
          have hd' := hd
          simp only [drops, Bool.and_eq_true, Bool.not_eq_true'] at hd'
          exact hd'.1.1
        have hflow := h.1 n (n + 1) (Nat.le_succ n) (fun k hk hk' => by
          have hkn : k = n := by omega
          rw [hkn]
          exact hs)
        rw [between_one, between_one] at hflow
        rw [inFlightAt, inFlightAt, pipelineAt_succ] at hflow
        exact absurd hflow (step_loses (by decide) (pipelineAt_valid c mem x n) hd)
  · intro h
    constructor
    · intro i j hij hs
      refine between_conserves _ _ _ hij (fun n hi hj => ?_)
      have hstep := step_conserves (i := pipelineInputAt c mem x n) (by decide)
        (pipelineAt_valid c mem x n) (hs n hi hj) (h n)
      rw [inFlightAt, inFlightAt, pipelineAt_succ]
      exact hstep
    · intro n
      have hlive : Live (pipelineAt c mem x n) := by
        induction n with
        | zero => intro hi; exact Bool.noConfusion hi
        | succ n ih => rw [pipelineAt_succ]; exact live_step ih (h n)
      exact hlive

/-- Software clears FORCE_SAFE with HIL still disabled and pushes one event: the
arm pulse is lost and the dispatcher waits for it for good. -/
theorem push_while_disabled_wedges :
    ¬ (NothingLost sampleParams sampleMem (writeWave disabledPush) ∧
      NeverWedges sampleParams sampleMem (writeWave disabledPush)) := by
  intro h
  have hn := h.2 11
  have hi : (coreAt sampleParams sampleMem (writeWave disabledPush) 11).control.dispatch.inflight =
      true := by decide +kernel
  have hs : (coreAt sampleParams sampleMem (writeWave disabledPush)
      11).control.dispatch.armPulse = false ∧
      (coreAt sampleParams sampleMem (writeWave disabledPush) 11).dio.armed = false := by
    decide +kernel
  rcases hn hi with h' | h'
  · rw [hs.1] at h'; cases h'
  · rw [hs.2] at h'; cases h'

/-- FORCE_SAFE empties every stage within one clock, and nothing accepted
before it is applied after it. -/
theorem forceSafe_flushes (t : Nat) (ht : forceSafeAt c mem x t = true) :
    (coreAt (W := W) c mem x (t + 1)).control.fifo.empty = true ∧
      (coreAt (W := W) c mem x (t + 1)).control.fifo.overflowLatched = false ∧
      (coreAt (W := W) c mem x (t + 1)).control.fifo.orderErrorLatched = false ∧
      (coreAt (W := W) c mem x (t + 1)).dio.armed = false ∧
      (coreAt (W := W) c mem x (t + 1)).dio.dioOut = 0 ∧
      inFlightAt c mem x (t + 1) = [] ∧
      ∀ n, t < n →
        (between (appliedAt c mem x) (t + 1) n).Sublist
          (between (acceptedAt c mem x) (t + 1) n) := by
  have hv := pipelineAt_valid c mem x t
  have hclear : ((pipelineAt c mem x t).fifoInput (pipelineInputAt c mem x t)).clear = true := ht
  have hfifo : (coreAt (W := W) c mem x (t + 1)).control.fifo =
      (pipelineAt c mem x t).fifo.cleared := by
    have hs := congrArg Pipeline.fifo (pipelineAt_succ c mem x t)
    rw [Pipeline.step, step_clear hclear] at hs
    exact hs
  have hidle : (pipelineInputAt c mem x t).hilActive = false := by
    have hs : (pipelineInputAt c mem x t).forceSafe = true := ht
    simp [PipeInput.hilActive, hs]
  have hsched := sched_safe (p := pipelineAt c mem x t) hidle
  rw [← pipelineAt_succ] at hsched
  have hempty : inFlightAt c mem x (t + 1) = [] := by
    rw [inFlightAt, pipelineAt_succ]
    exact inFlight_flush (by decide) hv ht
  refine ⟨?_, ?_, ?_, hsched.1, hsched.2.1, hempty, ?_⟩
  · rw [hfifo]; rfl
  · rw [hfifo]; rfl
  · rw [hfifo]; rfl
  · intro n hn
    have hrun := between_sublist (inFlightAt c mem x) (acceptedAt c mem x) (appliedAt c mem x) hn
      (fun k _ _ => by
        have hstep := step_sublist (by decide) (pipelineAt_valid c mem x k)
          (pipelineInputAt c mem x k)
        rw [← pipelineAt_succ] at hstep
        exact hstep)
    rw [hempty, List.nil_append] at hrun
    exact (List.sublist_append_left _ _).trans hrun

theorem forceSafe_flushes_arm_pulse :
    inFlightAt sampleParams sampleMem (safeAt (writeWave enabledPush) 10) 11 = [] :=
  (forceSafe_flushes sampleParams sampleMem (safeAt (writeWave enabledPush) 10) 10
    (by decide +kernel)).2.2.2.2.2.1

end Core

end HilLab.Rtl.EventDelivery
