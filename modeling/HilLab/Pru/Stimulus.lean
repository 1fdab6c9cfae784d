import HilLab.Pru.Protocol

namespace HilLab.Pru.Stimulus

open Protocol

inductive StimMode
  | none | abz | hall
deriving DecidableEq, Repr

def StimMode.code : StimMode → BitVec 32
  | .none => 0
  | .abz => 1
  | .hall => 2

def abzAMask : BitVec 32 := 1 <<< 0
def abzBMask : BitVec 32 := 1 <<< 1
def abzZMask : BitVec 32 := 1 <<< 2
def stimOutputMask : BitVec 32 := abzAMask ||| abzBMask ||| abzZMask

def minTransitionTicks : BitVec 32 := 100
def defaultTransitionTicks : BitVec 32 := 200000

def schedTransitionValid : BitVec 32 := 1 <<< 0
def schedDirectionValid : BitVec 32 := 1 <<< 1

/-- The tick counter wraps, so deadlines are compared by signed difference. -/
def timeDue (now deadline : BitVec 32) : Bool := decide (0 ≤ (now - deadline).toInt)

def timeIsFuture (now deadline : BitVec 32) : Bool := decide (0 < (deadline - now).toInt)

def phaseToAb (phase : BitVec 32) : BitVec 32 :=
  let p := phase &&& 3
  if p = 1 then abzAMask else if p = 2 then abzAMask ||| abzBMask else if p = 3 then abzBMask else 0

def hallStepToBits (step : BitVec 32) : BitVec 32 :=
  let k := step % 6
  if k = 0 then 0x1 else if k = 1 then 0x5 else if k = 2 then 0x4 else if k = 3 then 0x6
  else if k = 4 then 0x2 else 0x3

def indexIsActive (period width indexPhase : BitVec 32) : Bool :=
  period != 0 && width != 0 && decide (indexPhase < width)

structure Stim where
  r30 : BitVec 32
  activeMode : StimMode
  running : Bool
  startPendingMode : StimMode
  armedMode : StimMode
  armedApplyTicks : BitVec 32
  lastApplyTicks : BitVec 32
  scheduleLateCount : BitVec 32
  transitionTicks : BitVec 32
  indexPeriodTransitions : BitVec 32
  indexWidthTransitions : BitVec 32
  initialPhase : BitVec 32
  phase : BitVec 32
  direction : BitVec 32
  transitionCount : BitVec 32
  indexPhase : BitVec 32
  nextTransitionTicks : BitVec 32
  lateTransitionCount : BitVec 32
  updatePending : Bool
  updateApplyTicks : BitVec 32
  updateTransitionTicks : BitVec 32
  updateDirection : BitVec 32
  updateFlags : BitVec 32
  hallTransitionTicks : BitVec 32
  hallInitialStep : BitVec 32
  hallStep : BitVec 32
  hallDirection : BitVec 32
  hallTransitionCount : BitVec 32
  hallNextTransitionTicks : BitVec 32
  hallLateTransitionCount : BitVec 32
deriving DecidableEq, Repr

def Stim.applyOutputs (s : Stim) (bits : BitVec 32) : Stim :=
  { s with r30 := (s.r30 &&& ~~~stimOutputMask) ||| (bits &&& stimOutputMask) }

def abzBits (phase : BitVec 32) (indexActive : Bool) : BitVec 32 :=
  if indexActive then phaseToAb phase ||| abzZMask else phaseToAb phase

def Stim.applyAbz (s : Stim) (phase : BitVec 32) (indexActive : Bool) : Stim :=
  s.applyOutputs (abzBits phase indexActive)

def Stim.forceSafeOutputs (s : Stim) : Stim := { s with r30 := s.r30 &&& ~~~stimOutputMask }

def Stim.init (r30 : BitVec 32) : Stim :=
  { r30 := r30 &&& ~~~stimOutputMask, activeMode := .none, running := false,
    startPendingMode := .none, armedMode := .none, armedApplyTicks := 0, lastApplyTicks := 0,
    scheduleLateCount := 0, transitionTicks := defaultTransitionTicks, indexPeriodTransitions := 0,
    indexWidthTransitions := 0, initialPhase := 0, phase := 0, direction := 0,
    transitionCount := 0, indexPhase := 0, nextTransitionTicks := 0, lateTransitionCount := 0,
    updatePending := false, updateApplyTicks := 0, updateTransitionTicks := 0,
    updateDirection := 0, updateFlags := 0, hallTransitionTicks := defaultTransitionTicks,
    hallInitialStep := 0, hallStep := 0, hallDirection := 0, hallTransitionCount := 0,
    hallNextTransitionTicks := 0, hallLateTransitionCount := 0 }

/-- What a case of the switch writes over the cleared response. -/
structure Reply where
  flags : BitVec 32 := statusOk
  arg0 : BitVec 32 := 0
  arg1 : BitVec 32 := 0
  arg2 : BitVec 32 := 0
  arg3 : BitVec 32 := 0

def Stim.reject (s : Stim) (flags : BitVec 32) : Stim × Reply := (s, { flags := flags })

def Stim.busy (s : Stim) : Bool :=
  s.running || s.armedMode != .none || s.startPendingMode != .none

def Stim.indexActive (s : Stim) : Bool :=
  indexIsActive s.indexPeriodTransitions s.indexWidthTransitions s.indexPhase

section Requests

variable (request : Msg) (now : BitVec 32) (s : Stim)

def hello : Stim × Reply :=
  (s, { arg0 := hilPruB2Capabilities, arg1 := iepTickHz, arg2 := iepCounterBits,
        arg3 := hilPruB2FirmwareVersion })

def time : Stim × Reply := (s, { arg0 := now, arg1 := iepTickHz, arg2 := iepCounterBits })

def ping : Stim × Reply := (s, { arg0 := now })

def forceSafe : Stim × Reply :=
  ({ s.forceSafeOutputs with
      running := false, activeMode := .none, startPendingMode := .none, armedMode := .none,
      updatePending := false, lastApplyTicks := now },
    { arg0 := now, arg1 := s.transitionCount, arg2 := s.hallTransitionCount })

def abzConfig : Stim × Reply :=
  let requestedDirection := request.arg3 &&& 1
  let requestedPhase := (request.arg3 >>> 8) &&& 3
  if s.busy then s.reject errCaptureRunning
  else if request.arg0 < minTransitionTicks ∨ 0x80000000 ≤ request.arg0 then
    s.reject errInvalidArgument
  else if (request.arg1 = 0 ∧ request.arg2 ≠ 0) ∨
      (request.arg1 ≠ 0 ∧ request.arg1 < request.arg2) then
    s.reject errInvalidArgument
  else
    ({ s.forceSafeOutputs with
        transitionTicks := request.arg0
        indexPeriodTransitions := request.arg1
        indexWidthTransitions := request.arg2
        direction := requestedDirection
        initialPhase := requestedPhase
        phase := requestedPhase
        transitionCount := 0
        indexPhase := 0
        lateTransitionCount := 0
        scheduleLateCount := 0
        updatePending := false },
      { arg0 := request.arg0, arg1 := request.arg1, arg2 := request.arg2,
        arg3 := (requestedDirection &&& 1) ||| ((requestedPhase &&& 3) <<< 8) })

def abzStart : Stim × Reply :=
  if s.busy then s.reject errCaptureRunning
  else
    ({ s with startPendingMode := .abz },
      { arg0 := now
        arg1 :=
          phaseToAb s.initialPhase |||
            (if indexIsActive s.indexPeriodTransitions s.indexWidthTransitions 0 then abzZMask else 0)
        arg2 := s.transitionTicks
        arg3 := s.direction })

def abzArm : Stim × Reply :=
  if s.busy then s.reject errCaptureRunning
  else if request.arg0 = 0 ∨ !timeIsFuture now request.arg0 then s.reject errInvalidArgument
  else
    ({ s with armedMode := .abz, armedApplyTicks := request.arg0 },
      { arg0 := now, arg1 := request.arg0, arg2 := s.transitionTicks, arg3 := s.direction })

def abzSchedule : Stim × Reply :=
  if s.running then s.reject errCaptureRunning
  else if s.armedMode ≠ .abz then s.reject errNotArmed
  else if s.updatePending then s.reject errScheduleBusy
  else if request.arg0 = 0 ∨ !timeIsFuture now request.arg0 ∨
      !timeIsFuture s.armedApplyTicks request.arg0 then
    s.reject errInvalidArgument
  else if request.arg3 &&& schedTransitionValid ≠ 0 ∧
      (request.arg1 < minTransitionTicks ∨ 0x80000000 ≤ request.arg1) then
    s.reject errInvalidArgument
  else if request.arg3 &&& schedDirectionValid ≠ 0 ∧ 1 < request.arg2 then
    s.reject errInvalidArgument
  else
    let flags := request.arg3 &&& (schedTransitionValid ||| schedDirectionValid)
    ({ s with
        updateApplyTicks := request.arg0
        updateTransitionTicks := request.arg1
        updateDirection := request.arg2
        updateFlags := flags
        updatePending := true },
      { arg0 := now, arg1 := request.arg0, arg2 := request.arg1,
        arg3 := flags ||| ((request.arg2 &&& 1) <<< 8) })

def abzStop : Stim × Reply :=
  ({ s.forceSafeOutputs with
      running := false, activeMode := .none, armedMode := .none, startPendingMode := .none,
      updatePending := false, lastApplyTicks := now },
    { arg0 := now, arg1 := s.transitionCount, arg2 := s.lateTransitionCount,
      arg3 := s.scheduleLateCount })

def abzDirection : Stim × Reply :=
  if 1 < request.arg0 then s.reject errInvalidArgument
  else
    ({ s with direction := request.arg0, lastApplyTicks := now },
      { arg0 := now, arg1 := request.arg0, arg2 := s.transitionCount })

def abzStatus : Stim × Reply :=
  (s,
    { arg0 :=
        if s.running ∧ s.activeMode = .abz then 1 else if s.armedMode = .abz then 2 else 0
      arg1 := s.transitionTicks
      arg2 := s.transitionCount
      arg3 := s.lateTransitionCount })

def hallConfig : Stim × Reply :=
  if s.busy then s.reject errCaptureRunning
  else if request.arg0 < minTransitionTicks ∨ 0x80000000 ≤ request.arg0 ∨ 1 < request.arg1 ∨
      6 ≤ request.arg2 then
    s.reject errInvalidArgument
  else
    ({ s.forceSafeOutputs with
        hallTransitionTicks := request.arg0
        hallDirection := request.arg1
        hallInitialStep := request.arg2
        hallStep := request.arg2
        hallTransitionCount := 0
        hallLateTransitionCount := 0 },
      { arg0 := request.arg0, arg1 := request.arg1, arg2 := request.arg2,
        arg3 := hallStepToBits request.arg2 })

def hallStart : Stim × Reply :=
  if s.busy then s.reject errCaptureRunning
  else
    ({ s with startPendingMode := .hall },
      { arg0 := now, arg1 := hallStepToBits s.hallInitialStep, arg2 := s.hallTransitionTicks,
        arg3 := s.hallDirection })

/-- Unlike the other two stops, this one keeps an armed start and a pending
update. -/
def hallStop : Stim × Reply :=
  ({ s.forceSafeOutputs with
      running := false, activeMode := .none, startPendingMode := .none, lastApplyTicks := now },
    { arg0 := now, arg1 := s.hallTransitionCount, arg2 := s.hallLateTransitionCount })

def hallStatus : Stim × Reply :=
  (s,
    { arg0 := if s.running ∧ s.activeMode = .hall then 1 else 0
      arg1 := s.hallTransitionTicks
      arg2 := s.hallTransitionCount
      arg3 := s.hallLateTransitionCount })

def stimStatus : Stim × Reply :=
  (s,
    { arg0 := if s.running then 1 else if s.armedMode ≠ .none then 2 else 0
      arg1 := (if s.running then s.activeMode else s.armedMode).code
      arg2 := s.lastApplyTicks
      arg3 := s.scheduleLateCount })

def dispatch : Command → Stim × Reply
  | .hello => hello s
  | .time => time now s
  | .forceSafe => forceSafe now s
  | .ping => ping now s
  | .abzConfig => abzConfig request s
  | .abzStart => abzStart now s
  | .abzStop => abzStop now s
  | .abzStatus => abzStatus s
  | .abzDirection => abzDirection request now s
  | .abzArm => abzArm request now s
  | .abzSchedule => abzSchedule request now s
  | .hallConfig => hallConfig request s
  | .hallStart => hallStart now s
  | .hallStop => hallStop now s
  | .hallStatus => hallStatus s
  | .stimStatus => stimStatus s

def clearResponse (requestType : BitVec 16) (seq : BitVec 32) (reply : Reply) : Msg :=
  { magic := hilPruMagic, version := hilPruProtocolVersion, type := requestType ||| responseBit,
    seq := seq, flags := reply.flags, arg0 := reply.arg0, arg1 := reply.arg1, arg2 := reply.arg2,
    arg3 := reply.arg3 }

/-- The case a received buffer reaches, or the flags of its refusal. -/
def accept (len : BitVec 16) : Except (BitVec 32) Command :=
  if len ≠ sizeofMsg then .error errBadLength
  else if request.magic ≠ hilPruMagic then .error errBadMagic
  else if request.version ≠ hilPruProtocolVersion then .error errBadVersion
  else
    match Command.ofCode request.type with
    | some command => .ok command
    | none => .error errBadCommand

def handle (len : BitVec 16) : Stim × Reply :=
  match accept request len with
  | .ok command => dispatch request now s command
  | .error flags => s.reject flags

/-- A buffer of the wrong length is not read: its response names no request. -/
def handleRequest (len : BitVec 16) : Stim × Msg :=
  let (next, reply) := handle request now s len
  if len ≠ sizeofMsg then (next, clearResponse 0 0 reply)
  else (next, clearResponse request.type request.seq reply)

end Requests

/-- A received buffer, with the ticks read while it is handled and, after the
response is sent, for a start. -/
structure Reception where
  len : BitVec 16
  request : Msg
  now : BitVec 32
  startNow : BitVec 32
deriving DecidableEq, Repr

/-- The run that a pending start begins once it has been acknowledged. -/
def Stim.startPending (s : Stim) (startNow : BitVec 32) : Stim :=
  match s.startPendingMode with
  | .abz =>
      let s :=
        { s with
          phase := s.initialPhase, transitionCount := 0, indexPhase := 0,
          lateTransitionCount := 0, scheduleLateCount := 0 }
      { s.applyAbz s.phase s.indexActive with
        lastApplyTicks := startNow
        nextTransitionTicks := startNow + s.transitionTicks
        activeMode := .abz
        running := true
        startPendingMode := .none }
  | .hall =>
      let s :=
        { s with
          hallStep := s.hallInitialStep, hallTransitionCount := 0, hallLateTransitionCount := 0 }
      { s.applyOutputs (hallStepToBits s.hallStep) with
        lastApplyTicks := startNow
        hallNextTransitionTicks := startNow + s.hallTransitionTicks
        activeMode := .hall
        running := true
        startPendingMode := .none }
  | .none => s

def Stim.serve (s : Stim) (r : Reception) : Stim :=
  (handleRequest r.request r.now s r.len).1.startPending r.startNow

def Stim.answer (s : Stim) (r : Reception) : Msg := (handleRequest r.request r.now s r.len).2

def Stim.armedStart (s : Stim) (now : BitVec 32) : Stim :=
  let lateness := now - s.armedApplyTicks
  let s :=
    { s with
      phase := s.initialPhase, transitionCount := 0, indexPhase := 0, lateTransitionCount := 0 }
  { s.applyAbz s.phase s.indexActive with
    scheduleLateCount :=
      if s.transitionTicks ≤ lateness then s.scheduleLateCount + 1 else s.scheduleLateCount
    lastApplyTicks := now
    nextTransitionTicks := now + s.transitionTicks
    activeMode := .abz
    running := true
    armedMode := .none }

def Stim.applyUpdate (s : Stim) (now : BitVec 32) : Stim :=
  let lateness := now - s.updateApplyTicks
  let s :=
    { s with
      transitionTicks :=
        if s.updateFlags &&& schedTransitionValid ≠ 0 then s.updateTransitionTicks
        else s.transitionTicks
      direction :=
        if s.updateFlags &&& schedDirectionValid ≠ 0 then s.updateDirection else s.direction }
  { s with
    scheduleLateCount :=
      if s.transitionTicks ≤ lateness then s.scheduleLateCount + 1 else s.scheduleLateCount
    lastApplyTicks := now
    nextTransitionTicks := now + s.transitionTicks
    updatePending := false }

def nextIndexPhase (period indexPhase : BitVec 32) : BitVec 32 :=
  if period ≠ 0 then if period ≤ indexPhase + 1 then 0 else indexPhase + 1 else 0

def Stim.abzTransition (s : Stim) (now : BitVec 32) : Stim :=
  let lateness := now - s.nextTransitionTicks
  let late := decide (s.transitionTicks ≤ lateness)
  let s :=
    { s with
      lateTransitionCount :=
        if late then s.lateTransitionCount + 1 else s.lateTransitionCount
      phase := if s.direction = 0 then (s.phase + 1) &&& 3 else (s.phase + 3) &&& 3
      transitionCount := s.transitionCount + 1
      indexPhase := nextIndexPhase s.indexPeriodTransitions s.indexPhase }
  { s.applyAbz s.phase s.indexActive with
    lastApplyTicks := now
    nextTransitionTicks :=
      if late then now + s.transitionTicks else s.nextTransitionTicks + s.transitionTicks }

def Stim.hallTransition (s : Stim) (now : BitVec 32) : Stim :=
  let lateness := now - s.hallNextTransitionTicks
  let late := decide (s.hallTransitionTicks ≤ lateness)
  let s :=
    { s with
      hallLateTransitionCount :=
        if late then s.hallLateTransitionCount + 1 else s.hallLateTransitionCount
      hallStep := if s.hallDirection = 0 then (s.hallStep + 1) % 6 else (s.hallStep + 5) % 6
      hallTransitionCount := s.hallTransitionCount + 1 }
  { s.applyOutputs (hallStepToBits s.hallStep) with
    lastApplyTicks := now
    hallNextTransitionTicks :=
      if late then now + s.hallTransitionTicks
      else s.hallNextTransitionTicks + s.hallTransitionTicks }

/-- One pass of the main loop: its tick, the host interrupt flag and the
buffers received while it drains the channel. -/
structure Iteration where
  now : BitVec 32
  hostInt : Bool
  received : List Reception
deriving DecidableEq, Repr

/-- What a pass does, in the order of the branches of the source. -/
inductive Branch
  | armedStart | applyUpdate | abzTransition | hallTransition | drain | idle
deriving DecidableEq, Repr

def Stim.branch (s : Stim) (i : Iteration) : Branch :=
  if s.armedMode = .abz ∧ timeDue i.now s.armedApplyTicks then .armedStart
  else if s.running ∧ s.activeMode = .abz ∧ s.updatePending ∧ timeDue i.now s.updateApplyTicks then
    .applyUpdate
  else if s.running ∧ s.activeMode = .abz ∧ timeDue i.now s.nextTransitionTicks then .abzTransition
  else if s.running ∧ s.activeMode = .hall ∧ timeDue i.now s.hallNextTransitionTicks then
    .hallTransition
  else if i.hostInt then .drain
  else .idle

def Stim.iterate (s : Stim) (i : Iteration) : Stim :=
  match s.branch i with
  | .armedStart => s.armedStart i.now
  | .applyUpdate => s.applyUpdate i.now
  | .abzTransition => s.abzTransition i.now
  | .hallTransition => s.hallTransition i.now
  | .drain => i.received.foldl Stim.serve s
  | .idle => s

end HilLab.Pru.Stimulus
