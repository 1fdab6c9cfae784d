import HilLab.Rtl.DigitalCore

namespace HilLab.Rtl.EventPipeline

open EventFifo ControlPlane DioEventScheduler

/-- What a queued event does to the outputs; the scheduler drops the id. -/
structure Action (W : Nat) where
  timestamp : BitVec 64
  mask : BitVec W
  value : BitVec W
deriving DecidableEq, Repr

variable {D W I : Nat}

def actionOf (e : Event W I) : Action W := ⟨e.timestamp, e.mask, e.value⟩

/-- Event queue, dispatch registers and scheduler: every place an event can be
in between its push and the outputs. -/
structure Pipeline (D W I : Nat) where
  fifo : Fifo D W I
  dispatch : Dispatch W I
  sched : Scheduler W

structure PipeInput (W I : Nat) where
  push : Bool
  event : Event W I
  hilEnable : Bool
  forceSafe : Bool
  timestamp : BitVec 64

def PipeInput.hilActive (i : PipeInput W I) : Bool := i.hilEnable && !i.forceSafe

def Pipeline.fifoInput (p : Pipeline D W I) (i : PipeInput W I) : FifoInput W I :=
  { clear := i.forceSafe, push := i.push, pushEvent := i.event, pop := p.dispatch.pop }

def Pipeline.schedInput (p : Pipeline D W I) (i : PipeInput W I) : SchedulerInput W :=
  { timestamp := i.timestamp, arm := p.dispatch.armPulse,
    targetTimestamp := p.dispatch.event.timestamp, eventMask := p.dispatch.event.mask,
    eventValue := p.dispatch.event.value, safeValue := 0, forceSafe := !i.hilActive }

def Pipeline.step (p : Pipeline D W I) (i : PipeInput W I) : Pipeline D W I :=
  { fifo := p.fifo.step (p.fifoInput i)
    dispatch := p.dispatch.step i.forceSafe p.sched.armed p.sched.eventDonePulse p.fifo
    sched := p.sched.step (p.schedInput i) }

def Pipeline.reset (mem : Nat → Event W I) : Pipeline D W I :=
  { fifo := (Plane.reset mem).fifo, dispatch := .reset, sched := .reset }

section Core

open DigitalCore

variable {F : Nat}

def ofCore (s : Core F W) : Pipeline eventDepth W 16 := ⟨s.control.fifo, s.control.dispatch, s.dio⟩

def coreInput (s : Core F W) (i : CoreInput) : PipeInput W 16 :=
  { push := s.control.stage.pushPulse, event := s.control.stage.event,
    hilEnable := s.control.config.hilEnable, forceSafe := s.cfgForceSafe i,
    timestamp := s.timestamp }

/-- Inside the digital core the pipeline steps by itself, on the register
writes, the safe inputs and the timestamp. -/
theorem ofCore_step (p : Params F) (s : Core F W) (i : CoreInput) :
    ofCore (s.step p i) = (ofCore s).step (coreInput s i) := rfl

end Core

def Pipeline.scheduled (p : Pipeline D W I) : List (Action W) :=
  if p.sched.armed then
    [⟨p.sched.pendingTimestamp, p.sched.pendingMask, p.sched.pendingValue⟩]
  else []

def Pipeline.inArm (p : Pipeline D W I) : List (Action W) :=
  if p.dispatch.armPulse then [actionOf p.dispatch.event] else []

/-- The events that stay in the queue once the registered pop is done. -/
def Pipeline.queued (p : Pipeline D W I) : List (Action W) :=
  (if p.dispatch.pop then p.fifo.contents.tail else p.fifo.contents).map actionOf

/-- Every event accepted and not yet applied, the next one to apply first. -/
def Pipeline.inFlight (p : Pipeline D W I) : List (Action W) := p.scheduled ++ p.inArm ++ p.queued

def Pipeline.accepted (p : Pipeline D W I) (i : PipeInput W I) : List (Action W) :=
  (p.fifo.accepted (p.fifoInput i)).map actionOf

def Pipeline.applied (p : Pipeline D W I) (i : PipeInput W I) : List (Action W) :=
  if p.sched.fires (p.schedInput i) then
    [⟨p.sched.pendingTimestamp, p.sched.pendingMask, p.sched.pendingValue⟩]
  else []

def Action.apply (a : Action W) (dio : BitVec W) : BitVec W := maskedUpdate dio a.mask a.value

structure Pipeline.Valid (p : Pipeline D W I) : Prop where
  queue : p.fifo.Valid
  pop_eq : p.dispatch.pop = p.dispatch.armPulse
  arm_inflight : p.dispatch.armPulse = true → p.dispatch.inflight = true
  arm_unarmed : p.dispatch.armPulse = true → p.sched.armed = false
  arm_head : p.dispatch.armPulse = true → ∃ q, p.fifo.contents = p.dispatch.event :: q

theorem dispatch_loads {d : Dispatch W I} {forceSafe armed : Bool} (done : Bool) {fifo : Fifo D W I}
    (h : (!forceSafe && !d.inflight && !armed && !fifo.empty) = true) :
    d.step forceSafe armed done fifo =
      { armPulse := true, event := fifo.head, pop := true, inflight := true } := by
  simp only [Bool.and_eq_true, Bool.not_eq_true'] at h
  simp [Dispatch.step, h.1.1.1, h.1.1.2, h.1.2, h.2]

theorem dispatch_rests {d : Dispatch W I} {forceSafe armed : Bool} (done : Bool) {fifo : Fifo D W I}
    (h : (!forceSafe && !d.inflight && !armed && !fifo.empty) = false) :
    d.step forceSafe armed done fifo =
      { armPulse := false, event := d.event, pop := false,
        inflight := !forceSafe && d.inflight && !(armed || done) } := by
  cases forceSafe with
  | true => rfl
  | false =>
      have hn : (!d.inflight && !armed && !fifo.empty) = false := by simpa using h
      simp only [Dispatch.step, hn, Bool.false_eq_true, if_false]
      cases d.inflight <;> cases armed <;> cases done <;> rfl

def Pipeline.loads (p : Pipeline D W I) (i : PipeInput W I) : Bool :=
  !i.forceSafe && !p.dispatch.inflight && !p.sched.armed && !p.fifo.empty

theorem step_contents_of_clear {p : Pipeline D W I} {i : PipeInput W I} (h : i.forceSafe = true) :
    (p.step i).fifo.contents = [] := by
  have hc : (p.fifoInput i).clear = true := h
  rw [Pipeline.step, step_clear hc, contents_cleared]

theorem step_contents_of_active {p : Pipeline D W I} {i : PipeInput W I} (hD : D < 65536)
    (hv : p.Valid) (h : i.forceSafe = false) :
    (p.step i).fifo.contents.map actionOf = p.queued ++ p.accepted i := by
  have hc : (p.fifoInput i).clear = false := h
  have hs := step_contents hD hv.queue hc
  simp only [Pipeline.step, Pipeline.queued, Pipeline.accepted, hs, List.map_append]
  rfl

theorem not_arm_of_loads {p : Pipeline D W I} {i : PipeInput W I} (hv : p.Valid)
    (h : p.loads i = true) : p.dispatch.armPulse = false := by
  cases ha : p.dispatch.armPulse with
  | false => rfl
  | true =>
      have hi := hv.arm_inflight ha
      simp [Pipeline.loads, hi] at h

theorem unarmed_step {p : Pipeline D W I} {i : PipeInput W I} (ha : p.sched.armed = false)
    (hp : p.dispatch.armPulse = false) : (p.step i).sched.armed = false := by
  have hd : p.sched.due i.timestamp = false := by simp [Scheduler.due, ha]
  have harm : (p.schedInput i).arm = false := hp
  cases hf : (p.schedInput i).forceSafe with
  | true => rw [Pipeline.step, step_forceSafe hf]
  | false =>
      have hfire : p.sched.fires (p.schedInput i) = false := by
        simp only [Scheduler.fires, hf, Bool.not_false, Bool.true_and]
        exact hd
      rw [Pipeline.step, step_waits hf hfire]
      simp [Scheduler.takeArm, harm, ha]

theorem step_valid {p : Pipeline D W I} (hD : D < 65536) (hv : p.Valid) (i : PipeInput W I) :
    (p.step i).Valid := by
  have hq := EventFifo.step_valid hD hv.queue (p.fifoInput i)
  cases hl : p.loads i with
  | true =>
      have hd := dispatch_loads p.sched.eventDonePulse hl
      have hna := not_arm_of_loads hv hl
      simp only [Pipeline.loads, Bool.and_eq_true, Bool.not_eq_true'] at hl
      obtain ⟨⟨⟨hf, _⟩, harmed⟩, hne⟩ := hl
      have hcont : p.fifo.contents ≠ [] := fun h => by simp [empty_iff.mpr h] at hne
      obtain ⟨e, q, he⟩ := List.exists_cons_of_ne_nil hcont
      refine ⟨hq, ?_, ?_, ?_, ?_⟩
      · simp only [Pipeline.step, hd]
      · intro _
        simp only [Pipeline.step, hd]
      · intro _
        exact unarmed_step harmed hna
      · intro _
        have hc : (p.fifoInput i).clear = false := hf
        have hpop : (p.fifoInput i).pop = false := hv.pop_eq.trans hna
        refine ⟨q ++ p.fifo.accepted (p.fifoInput i), ?_⟩
        simp only [Pipeline.step, hd, (head_contents hv.queue he).2,
          step_contents hD hv.queue hc, hpop, he, List.cons_append, Bool.false_eq_true, if_false]
  | false =>
      have hd := dispatch_rests p.sched.eventDonePulse hl
      have hna : (p.step i).dispatch.armPulse = false := by simp only [Pipeline.step, hd]
      have hnp : (p.step i).dispatch.pop = false := by simp only [Pipeline.step, hd]
      refine ⟨hq, hnp.trans hna.symm, ?_, ?_, ?_⟩ <;> intro h <;> simp [hna] at h

theorem reset_valid (hD : 0 < D) (mem : Nat → Event W I) :
    (Pipeline.reset mem : Pipeline D W I).Valid where
  queue := cleared_valid hD (Plane.reset mem).fifo
  pop_eq := rfl
  arm_inflight h := Bool.noConfusion h
  arm_unarmed h := Bool.noConfusion h
  arm_head h := Bool.noConfusion h

/-- The events in flight are the scheduled one and the queue contents: an
event in the arm pulse is still the head of the queue. -/
theorem inFlight_eq {p : Pipeline D W I} (hv : p.Valid) :
    p.inFlight = p.scheduled ++ p.fifo.contents.map actionOf := by
  rw [Pipeline.inFlight, Pipeline.inArm, Pipeline.queued]
  rw [hv.pop_eq]
  cases ha : p.dispatch.armPulse with
  | false => simp
  | true =>
      obtain ⟨q, hq⟩ := hv.arm_head ha
      simp [hq]

end HilLab.Rtl.EventPipeline
