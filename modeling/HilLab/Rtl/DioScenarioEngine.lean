import HilLab.Rtl.DioEventScheduler
import HilLab.Rtl.EventFifo

namespace HilLab.Rtl.DioScenarioEngine

open EventFifo DioEventScheduler

variable {D W I : Nat}

section Queue

structure QueueInput (W I : Nat) where
  clearQueue : Bool
  clearErrors : Bool
  push : Bool
  pushEvent : Event W I
  pop : Bool

/-- The ports that hil_event_queue shares with hil_axi_event_fifo, in a clock without clear. -/
def QueueInput.fifo (i : QueueInput W I) : FifoInput W I :=
  { clear := false, push := i.push, pushEvent := i.pushEvent, pop := i.pop }

def clearErrors (q : Fifo D W I) : Fifo D W I :=
  { q with overflowLatched := false, orderErrorLatched := false }

/-- hil_event_queue. Its registers are those of hil_axi_event_fifo; the errors have a clear of
their own, which an error of the same clock wins over. -/
def queueStep (q : Fifo D W I) (i : QueueInput W I) : Fifo D W I :=
  let q := if i.clearErrors then clearErrors q else q
  if i.clearQueue then { q with writePtr := 0, readPtr := 0, count := 0, lastTimestamp := 0 }
  else { q.release i.fifo (q.store i.fifo) with count := q.nextCount i.fifo }

variable {q : Fifo D W I} {i : QueueInput W I}

theorem clearErrors_valid (h : q.Valid) : (clearErrors q).Valid :=
  ⟨h.read_lt, h.count_le, h.write_eq, h.last_eq, h.ordered⟩

def queueAccepted (q : Fifo D W I) (i : QueueInput W I) : List (Event W I) :=
  if i.clearQueue then [] else q.accepted i.fifo

theorem queueStep_flows (h : i.clearQueue = false) :
    queueStep q i = (if i.clearErrors then clearErrors q else q).step i.fifo := by
  simp [queueStep, h, Fifo.step, QueueInput.fifo]

theorem queueStep_contents (hD : D < 65536) (hv : q.Valid) :
    (queueStep q i).contents =
      if i.clearQueue then []
      else (if i.pop then q.contents.tail else q.contents) ++ queueAccepted q i := by
  cases h : i.clearQueue with
  | true =>
      rw [queueStep, h]
      simp only [if_true]
      rfl
  | false =>
      rw [queueStep_flows h, queueAccepted, h]
      cases i.clearErrors with
      | true => exact step_contents hD (clearErrors_valid hv) rfl
      | false => exact step_contents hD hv rfl

theorem queueStep_valid (hD : D < 65536) (hv : q.Valid) (i : QueueInput W I) :
    (queueStep q i).Valid := by
  have hD0 : 0 < D := Nat.lt_of_le_of_lt (Nat.zero_le _) hv.read_lt
  cases h : i.clearQueue with
  | true =>
      rw [queueStep, h]
      simp only [if_true]
      exact ⟨hD0, Nat.zero_le D, (Nat.zero_mod D).symm, rfl, List.Pairwise.nil⟩
  | false =>
      rw [queueStep_flows h]
      cases i.clearErrors with
      | true => exact step_valid hD (clearErrors_valid hv) i.fifo
      | false => exact step_valid hD hv i.fifo

theorem store_overflowLatched (q : Fifo D W I) (i : FifoInput W I) :
    (q.store i).overflowLatched = (i.push && q.full || q.overflowLatched) := by
  rw [Fifo.store]
  cases i.push <;> cases q.full <;> cases q.pushOrderOk i.pushEvent <;> rfl

theorem store_orderErrorLatched (q : Fifo D W I) (i : FifoInput W I) :
    (q.store i).orderErrorLatched =
      (i.push && !q.full && !q.pushOrderOk i.pushEvent || q.orderErrorLatched) := by
  rw [Fifo.store]
  cases i.push <;> cases q.full <;> cases q.pushOrderOk i.pushEvent <;> rfl

theorem release_latched (q n : Fifo D W I) (i : FifoInput W I) :
    (q.release i n).overflowLatched = n.overflowLatched ∧
      (q.release i n).orderErrorLatched = n.orderErrorLatched := by
  rw [Fifo.release]
  split <;> exact ⟨rfl, rfl⟩

theorem queueStep_cleared (h : i.clearQueue = true) :
    (queueStep q i).overflowLatched = (q.overflowLatched && !i.clearErrors) ∧
      (queueStep q i).orderErrorLatched = (q.orderErrorLatched && !i.clearErrors) := by
  rw [queueStep, h]
  cases i.clearErrors with
  | true => simp [clearErrors]
  | false => simp

theorem queueStep_overflowLatched :
    (queueStep q i).overflowLatched =
      (!i.clearQueue && i.push && q.full || q.overflowLatched && !i.clearErrors) := by
  cases h : i.clearQueue with
  | true => simp [(queueStep_cleared h).1]
  | false =>
      rw [queueStep, h]
      simp only [Bool.false_eq_true, if_false, (release_latched _ _ _).1, store_overflowLatched]
      cases i.clearErrors with
      | true => simp [clearErrors, QueueInput.fifo, Fifo.full]
      | false => simp [QueueInput.fifo]

theorem queueStep_orderErrorLatched :
    (queueStep q i).orderErrorLatched =
      (!i.clearQueue && i.push && !q.full && !q.pushOrderOk i.pushEvent ||
        q.orderErrorLatched && !i.clearErrors) := by
  cases h : i.clearQueue with
  | true => simp [(queueStep_cleared h).2]
  | false =>
      rw [queueStep, h]
      simp only [Bool.false_eq_true, if_false, (release_latched _ _ _).2, store_orderErrorLatched]
      cases i.clearErrors with
      | true => simp [clearErrors, QueueInput.fifo, Fifo.full, Fifo.pushOrderOk, Fifo.empty]
      | false => simp [QueueInput.fifo]

end Queue

section Engine

structure EngineInput (W I : Nat) where
  timestamp : BitVec 64
  enqueueEvent : Bool
  event : Event W I
  clearQueue : Bool
  clearStatus : Bool
  safeValue : BitVec W
  forceSafe : Bool

/-- What the engine shows of the event it has applied last. -/
structure Evidence (I : Nat) where
  appliedEventId : BitVec I
  requestedTimestamp : BitVec 64
  actualTimestamp : BitVec 64
  lateTicks : BitVec 64

structure Engine (D W I : Nat) where
  queue : Fifo D W I
  dioOut : BitVec W
  eventAppliedPulse : Bool
  evidence : Evidence I
  lateEventLatched : Bool

def Engine.reset (mem : Nat → Event W I) : Engine D W I :=
  { queue :=
      { mem := mem, writePtr := 0, readPtr := 0, count := 0, lastTimestamp := 0,
        overflowLatched := false, orderErrorLatched := false }
    dioOut := 0, eventAppliedPulse := false, evidence := ⟨0, 0, 0, 0⟩, lateEventLatched := false }

def EngineInput.flush (i : EngineInput W I) : Bool := i.clearQueue || i.forceSafe

def Engine.eventDue (s : Engine D W I) (i : EngineInput W I) : Bool :=
  !s.queue.empty && !i.clearQueue && !i.forceSafe &&
    decide (s.queue.head.timestamp ≤ i.timestamp)

def Engine.queueInput (s : Engine D W I) (i : EngineInput W I) : QueueInput W I :=
  { clearQueue := i.flush, clearErrors := i.clearStatus, push := i.enqueueEvent,
    pushEvent := i.event, pop := s.eventDue i }

def Engine.step (s : Engine D W I) (i : EngineInput W I) : Engine D W I :=
  let head := s.queue.head
  let next :=
    { s with
      queue := queueStep s.queue (s.queueInput i)
      eventAppliedPulse := false
      lateEventLatched := if i.clearStatus then false else s.lateEventLatched }
  if i.forceSafe then { next with dioOut := i.safeValue }
  else if s.eventDue i then
    { next with
      dioOut := maskedUpdate s.dioOut head.mask head.value
      eventAppliedPulse := true
      evidence := ⟨head.id, head.timestamp, i.timestamp, i.timestamp - head.timestamp⟩
      lateEventLatched :=
        if head.timestamp < i.timestamp then true else next.lateEventLatched }
  else next

def Engine.accepted (s : Engine D W I) (i : EngineInput W I) : List (Event W I) :=
  queueAccepted s.queue (s.queueInput i)

def Engine.applied (s : Engine D W I) (i : EngineInput W I) : List (Event W I) :=
  if s.eventDue i then [s.queue.head] else []

variable {s : Engine D W I} {i : EngineInput W I}

theorem step_queue : (s.step i).queue = queueStep s.queue (s.queueInput i) := by
  rw [Engine.step]
  cases i.forceSafe <;> cases s.eventDue i <;> rfl

theorem eventDue_flush (h : i.flush = true) : s.eventDue i = false := by
  rw [EngineInput.flush] at h
  rw [Engine.eventDue]
  cases hc : i.clearQueue with
  | true => simp
  | false =>
      rw [hc, Bool.false_or] at h
      simp [h]

theorem eventDue_safe (h : s.eventDue i = true) : i.forceSafe = false := by
  cases hf : i.forceSafe with
  | false => rfl
  | true =>
      rw [eventDue_flush (by simp [EngineInput.flush, hf])] at h
      cases h

theorem step_dioOut :
    (s.step i).dioOut =
      if i.forceSafe then i.safeValue
      else (s.applied i).foldl (fun dio e => maskedUpdate dio e.mask e.value) s.dioOut := by
  rw [Engine.step, Engine.applied]
  cases i.forceSafe <;> cases s.eventDue i <;> rfl

theorem step_pulse : (s.step i).eventAppliedPulse = s.eventDue i := by
  rw [Engine.step]
  cases h : s.eventDue i with
  | true =>
      rw [eventDue_safe h]
      rfl
  | false => cases i.forceSafe <;> rfl

theorem step_evidence :
    (s.step i).evidence =
      (s.applied i).foldl (fun _ e =>
        ⟨e.id, e.timestamp, i.timestamp, i.timestamp - e.timestamp⟩) s.evidence := by
  rw [Engine.step, Engine.applied]
  cases h : s.eventDue i with
  | true =>
      rw [eventDue_safe h]
      rfl
  | false => cases i.forceSafe <;> rfl

def Engine.late (s : Engine D W I) (i : EngineInput W I) : Bool :=
  (s.applied i).any (fun e => decide (e.timestamp < i.timestamp))

theorem step_late :
    (s.step i).lateEventLatched = (s.late i || s.lateEventLatched && !i.clearStatus) := by
  rw [Engine.step, Engine.late, Engine.applied]
  cases h : s.eventDue i with
  | true =>
      rw [eventDue_safe h]
      by_cases hlate : s.queue.head.timestamp < i.timestamp
      · simp [hlate]
      · cases i.clearStatus <;> simp [hlate]
  | false => cases i.forceSafe <;> cases i.clearStatus <;> simp

end Engine

end HilLab.Rtl.DioScenarioEngine
