import Mathlib.Data.Nat.Notation

namespace HilLab.Rtl.DioEventScheduler

structure SchedulerInput (W : Nat) where
  timestamp : BitVec 64
  arm : Bool
  targetTimestamp : BitVec 64
  eventMask : BitVec W
  eventValue : BitVec W
  safeValue : BitVec W
  forceSafe : Bool

structure Scheduler (W : Nat) where
  dioOut : BitVec W
  armed : Bool
  eventDonePulse : Bool
  pendingTimestamp : BitVec 64
  pendingMask : BitVec W
  pendingValue : BitVec W

variable {W : Nat}

def Scheduler.reset : Scheduler W :=
  { dioOut := 0, armed := false, eventDonePulse := false,
    pendingTimestamp := 0, pendingMask := 0, pendingValue := 0 }

def maskedUpdate (dio mask value : BitVec W) : BitVec W := (dio &&& ~~~mask) ||| (value &&& mask)

def Scheduler.due (s : Scheduler W) (timestamp : BitVec 64) : Bool :=
  s.armed && decide (s.pendingTimestamp ≤ timestamp)

def Scheduler.takeArm (s : Scheduler W) (i : SchedulerInput W) : Scheduler W :=
  if i.arm then
    { s with
      pendingTimestamp := i.targetTimestamp
      pendingMask := i.eventMask
      pendingValue := i.eventValue
      armed := true }
  else s

/-- The due event, if any, is the one pending before the edge, also in a cycle
that arms the next one. -/
def Scheduler.step (s : Scheduler W) (i : SchedulerInput W) : Scheduler W :=
  let idle := { s with eventDonePulse := false }
  if i.forceSafe then { idle with dioOut := i.safeValue, armed := false }
  else
    let loaded := idle.takeArm i
    if s.due i.timestamp then
      { loaded with
        dioOut := maskedUpdate s.dioOut s.pendingMask s.pendingValue
        armed := false
        eventDonePulse := true }
    else loaded

def Scheduler.fires (s : Scheduler W) (i : SchedulerInput W) : Bool := !i.forceSafe && s.due i.timestamp

theorem step_forceSafe {s : Scheduler W} {i : SchedulerInput W} (h : i.forceSafe = true) :
    s.step i = { s with eventDonePulse := false, dioOut := i.safeValue, armed := false } := by
  simp [Scheduler.step, h]

theorem step_fires {s : Scheduler W} {i : SchedulerInput W} (h : s.fires i = true) :
    (s.step i).dioOut = maskedUpdate s.dioOut s.pendingMask s.pendingValue ∧
      (s.step i).armed = false ∧ (s.step i).eventDonePulse = true := by
  simp only [Scheduler.fires, Bool.and_eq_true, Bool.not_eq_true'] at h
  simp [Scheduler.step, h.1, h.2]

theorem step_waits {s : Scheduler W} {i : SchedulerInput W} (hf : i.forceSafe = false)
    (h : s.fires i = false) :
    s.step i = { s with eventDonePulse := false }.takeArm i := by
  simp only [Scheduler.fires, hf, Bool.not_false, Bool.true_and] at h
  simp [Scheduler.step, hf, h]

theorem takeArm_dioOut (s : Scheduler W) (i : SchedulerInput W) : (s.takeArm i).dioOut = s.dioOut := by
  rw [Scheduler.takeArm]
  split <;> rfl

end HilLab.Rtl.DioEventScheduler
