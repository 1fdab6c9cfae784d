import HilLab.Rtl.Common

namespace HilLab.Rtl.PwmCapture

open Common

structure Capture where
  sync : Sync2ff 1
  pwmSyncD : Bool
  periodTicks : BitVec 32
  highTicks : BitVec 32
  lowTicks : BitVec 32
  lastRiseTimestamp : BitVec 64
  lastFallTimestamp : BitVec 64
  periodValid : Bool
  highValid : Bool
  lowValid : Bool
  haveRise : Bool
  haveFall : Bool

def Capture.reset : Capture :=
  { sync := .reset, pwmSyncD := false, periodTicks := 0, highTicks := 0, lowTicks := 0,
    lastRiseTimestamp := 0, lastFallTimestamp := 0, periodValid := false, highValid := false,
    lowValid := false, haveRise := false, haveFall := false }

def saturate (delta : BitVec 64) : BitVec 32 :=
  if delta.extractLsb' 32 32 ≠ 0 then 0xffffffff else delta.extractLsb' 0 32

def Capture.riseEdge (s : Capture) : Bool := s.sync.bit 0 && !s.pwmSyncD
def Capture.fallEdge (s : Capture) : Bool := !s.sync.bit 0 && s.pwmSyncD

def Capture.onRise (s : Capture) (timestamp : BitVec 64) : Capture :=
  { s with
    periodTicks :=
      if s.haveRise then saturate (timestamp - s.lastRiseTimestamp) else s.periodTicks
    periodValid := s.haveRise
    lowTicks := if s.haveFall then saturate (timestamp - s.lastFallTimestamp) else s.lowTicks
    lowValid := s.haveFall
    lastRiseTimestamp := timestamp
    haveRise := true }

def Capture.onFall (s : Capture) (timestamp : BitVec 64) : Capture :=
  { s with
    highTicks := if s.haveRise then saturate (timestamp - s.lastRiseTimestamp) else s.highTicks
    highValid := s.haveRise
    lastFallTimestamp := timestamp
    haveFall := true }

/-- At most one of the two edges is seen in a cycle. -/
def Capture.step (s : Capture) (pwmAsync : Bool) (timestamp : BitVec 64) : Capture :=
  let idle := { s with periodValid := false, highValid := false, lowValid := false }
  let measured :=
    if s.riseEdge then idle.onRise timestamp
    else if s.fallEdge then idle.onFall timestamp
    else idle
  { measured with
    sync := s.sync.step (BitVec.ofBool pwmAsync)
    pwmSyncD := s.sync.bit 0 }

structure MonitorInput where
  highAsync : Bool
  lowAsync : Bool
  timestamp : BitVec 64
  minDeadtimeTicks : BitVec 32
  clearFaults : Bool

structure Monitor where
  sync : Sync2ff 2
  highD : Bool
  lowD : Bool
  deadtimeHighToLowTicks : BitVec 32
  deadtimeLowToHighTicks : BitVec 32
  deadtimeHighToLowValid : Bool
  deadtimeLowToHighValid : Bool
  shootThroughLatched : Bool
  deadtimeViolationLatched : Bool
  highFallTimestamp : BitVec 64
  lowFallTimestamp : BitVec 64
  highFallSeen : Bool
  lowFallSeen : Bool

def Monitor.reset : Monitor :=
  { sync := .reset, highD := false, lowD := false, deadtimeHighToLowTicks := 0,
    deadtimeLowToHighTicks := 0, deadtimeHighToLowValid := false,
    deadtimeLowToHighValid := false, shootThroughLatched := false,
    deadtimeViolationLatched := false, highFallTimestamp := 0, lowFallTimestamp := 0,
    highFallSeen := false, lowFallSeen := false }

def Monitor.high (s : Monitor) : Bool := s.sync.bit 1
def Monitor.low (s : Monitor) : Bool := s.sync.bit 0
def Monitor.highRise (s : Monitor) : Bool := s.high && !s.highD
def Monitor.highFall (s : Monitor) : Bool := !s.high && s.highD
def Monitor.lowRise (s : Monitor) : Bool := s.low && !s.lowD
def Monitor.lowFall (s : Monitor) : Bool := !s.low && s.lowD

def Monitor.observe (s : Monitor) (i : MonitorInput) : Monitor :=
  { s with
    deadtimeHighToLowValid := false
    deadtimeLowToHighValid := false
    shootThroughLatched :=
      if s.high && s.low then true else if i.clearFaults then false else s.shootThroughLatched
    deadtimeViolationLatched := if i.clearFaults then false else s.deadtimeViolationLatched
    highFallTimestamp := if s.highFall then i.timestamp else s.highFallTimestamp
    highFallSeen := if s.highFall then true else s.highFallSeen
    lowFallTimestamp := if s.lowFall then i.timestamp else s.lowFallTimestamp
    lowFallSeen := if s.lowFall then true else s.lowFallSeen }

/-- The dead-time sample at a turn-on: its length, and whether it is too short.
A simultaneous turn-off of the other switch counts as zero. -/
def sample (sameCycle seen : Bool) (since timestamp : BitVec 64) (minDeadtimeTicks : BitVec 32) :
    Option (BitVec 32 × Bool) :=
  if sameCycle then some (0, minDeadtimeTicks != 0)
  else if seen then
    let delta := timestamp - since
    some (delta.extractLsb' 0 32, decide (delta < minDeadtimeTicks.setWidth 64))
  else none

def Monitor.onLowRise (s next : Monitor) (i : MonitorInput) : Monitor :=
  match sample s.highFall s.highFallSeen s.highFallTimestamp i.timestamp i.minDeadtimeTicks with
  | none => next
  | some (ticks, short) =>
      { next with
        deadtimeHighToLowTicks := ticks
        deadtimeHighToLowValid := true
        deadtimeViolationLatched := if short then true else next.deadtimeViolationLatched }

def Monitor.onHighRise (s next : Monitor) (i : MonitorInput) : Monitor :=
  match sample s.lowFall s.lowFallSeen s.lowFallTimestamp i.timestamp i.minDeadtimeTicks with
  | none => next
  | some (ticks, short) =>
      { next with
        deadtimeLowToHighTicks := ticks
        deadtimeLowToHighValid := true
        deadtimeViolationLatched := if short then true else next.deadtimeViolationLatched }

def Monitor.step (s : Monitor) (i : MonitorInput) : Monitor :=
  let observed := s.observe i
  let low := if s.lowRise then s.onLowRise observed i else observed
  let high := if s.highRise then s.onHighRise low i else low
  { high with
    sync := s.sync.step (BitVec.ofBool i.highAsync ++ BitVec.ofBool i.lowAsync)
    highD := s.high
    lowD := s.low }

end HilLab.Rtl.PwmCapture
