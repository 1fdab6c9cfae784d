import HilLab.Pru.Stimulus
import Mathlib.Logic.Function.Basic

namespace HilLab.Pru.RawCapture

open Protocol
open Stimulus (Reply clearResponse)

abbrev Word := BitVec 32

def hilRawCaptureMagic : Word := 0x31574152
def hilRawCaptureVersion : Word := 1
def hilRawCaptureCapacity : Word := 1024

def stopNone : Word := 0
def stopEventLimit : Word := 1
def stopHostRequest : Word := 2
def stopForceSafe : Word := 3

def hostInt : Word := 1 <<< 30

def r31PwmInputMask : Word := 1 <<< 1 ||| 1 <<< 2 ||| 1 <<< 3 ||| 1 <<< 5 ||| 1 <<< 14 ||| 1 <<< 15

def hilPruB1RawFirmwareVersion : Word := 0x00020200

/-- TIMEBASE, RPMSG, FORCE_SAFE, RAW_EDGE_CAPTURE and SHARED_SNAPSHOT. -/
def hilPruB1RawCapabilities : Word := 1 <<< 0 ||| 1 <<< 1 ||| 1 <<< 3 ||| 1 <<< 8 ||| 1 <<< 7

structure EdgeRecord where
  timestampTicks : Word
  rawInputs : Word

/-- hil_raw_capture_shared. Only the PRU writes it. -/
structure Shared where
  magic : Word
  version : Word
  totalSize : Word
  tickHz : Word
  capacity : Word
  running : Word
  configuredEventLimit : Word
  eventCount : Word
  initialRawInputs : Word
  finalRawInputs : Word
  startTicks : Word
  stopTicks : Word
  stopReason : Word
  inputMask : Word
  generation : Word
  overflowCount : Word
  ring : Nat → EdgeRecord

structure Raw where
  shared : Shared
  captureRunning : Bool
  startPending : Bool
  lastInputs : Word
  eventCount : Word
  eventLimit : Word

def sharedInit (g : Shared) : Shared :=
  { magic := hilRawCaptureMagic, version := hilRawCaptureVersion
    totalSize := 4 * 16 + 8 * hilRawCaptureCapacity, tickHz := iepTickHz
    capacity := hilRawCaptureCapacity, running := 0
    configuredEventLimit := hilRawCaptureCapacity, eventCount := 0, initialRawInputs := 0
    finalRawInputs := 0, startTicks := 0, stopTicks := 0, stopReason := stopNone
    inputMask := r31PwmInputMask
    generation :=
      if g.magic = hilRawCaptureMagic ∧ g.version = hilRawCaptureVersion then g.generation + 1
      else 1
    overflowCount := 0, ring := g.ring }

def publishStop (stopReason stopTicks rawInputs eventCount : Word) (g : Shared) : Shared :=
  { g with
    finalRawInputs := rawInputs, eventCount := eventCount, stopTicks := stopTicks,
    stopReason := stopReason, running := 0 }

def Raw.boot (mem : Shared) (r31 : Word) : Raw :=
  let lastInputs := r31 &&& r31PwmInputMask
  { shared :=
      { sharedInit mem with initialRawInputs := lastInputs, finalRawInputs := lastInputs }
    captureRunning := false, startPending := false, lastInputs := lastInputs, eventCount := 0
    eventLimit := hilRawCaptureCapacity }

section Window

structure Sample where
  r31 : Word
  ticks : Word

/-- The variables of run_capture_window, and the ring it fills. -/
structure Window where
  eventCount : Word
  lastInputs : Word
  lastTimestamp : Word
  ring : Nat → EdgeRecord

def Window.record (w : Window) (ticks rawInputs : Word) : Window :=
  { eventCount := w.eventCount + 1
    lastInputs := rawInputs
    lastTimestamp := ticks
    ring := Function.update w.ring w.eventCount.toNat ⟨ticks, rawInputs⟩ }

/-- The loop of the kernel; it does not end before it has taken enough edges. -/
def captureWindow (eventLimit : Word) : List Sample → Window → Option Window
  | [], _ => none
  | x :: xs, w =>
      let rawInputs := x.r31 &&& r31PwmInputMask
      if rawInputs = w.lastInputs then captureWindow eventLimit xs w
      else
        let w := w.record x.ticks rawInputs
        if eventLimit ≤ w.eventCount then some w else captureWindow eventLimit xs w

/-- The fresh baseline that main takes after it has acknowledged the start. -/
def Raw.arm (s : Raw) (r31 ticks : Word) : Raw :=
  let baseline := r31 &&& r31PwmInputMask
  { s with
    eventCount := 0, lastInputs := baseline, captureRunning := true, startPending := false
    shared :=
      { s.shared with
        eventCount := 0, initialRawInputs := baseline, finalRawInputs := baseline,
        startTicks := ticks, stopTicks := 0, stopReason := stopNone, overflowCount := 0,
        running := 1 } }

def Raw.window (s : Raw) : Window :=
  { eventCount := 0, lastInputs := s.lastInputs, lastTimestamp := s.shared.startTicks,
    ring := s.shared.ring }

/-- What run_capture_window leaves, once its loop has ended. -/
def Raw.captured (s : Raw) (w : Window) : Raw :=
  { s with
    shared :=
      publishStop stopEventLimit w.lastTimestamp w.lastInputs w.eventCount
        { s.shared with ring := w.ring }
    eventCount := w.eventCount
    captureRunning := false }

end Window

inductive Command
  | hello | time | ping | forceSafe | rawConfig | rawClear | rawStart | rawStop | rawStatus
deriving DecidableEq

def Command.code : Command → BitVec 16
  | .hello => 1
  | .time => 2
  | .ping => 5
  | .forceSafe => 4
  | .rawConfig => 11
  | .rawClear => 14
  | .rawStart => 12
  | .rawStop => 13
  | .rawStatus => 15

def Command.all : List Command :=
  [.hello, .time, .ping, .forceSafe, .rawConfig, .rawClear, .rawStart, .rawStop, .rawStatus]

def Command.ofCode (type : BitVec 16) : Option Command := Command.all.find? (fun c => c.code == type)

section Requests

variable (request : Msg) (rawInputs now : Word) (s : Raw)

def Raw.busy (s : Raw) : Bool := s.captureRunning || s.startPending

def forceSafe : Raw × Reply :=
  let s := { s with startPending := false }
  let s :=
    if s.captureRunning then
      { s with
        shared := publishStop stopForceSafe now rawInputs s.eventCount s.shared
        captureRunning := false }
    else s
  (s, { arg0 := now, arg1 := s.eventCount })

def rawConfig : Raw × Reply :=
  if s.busy then (s, { flags := errCaptureRunning })
  else if request.arg0 = 0 ∨ hilRawCaptureCapacity < request.arg0 then
    (s, { flags := errInvalidArgument })
  else
    ({ s with
        eventLimit := request.arg0
        shared := { s.shared with configuredEventLimit := request.arg0 } },
      { arg0 := request.arg0, arg1 := hilRawCaptureCapacity })

def rawClear : Raw × Reply :=
  if s.busy then (s, { flags := errCaptureRunning })
  else
    let shared := { sharedInit s.shared with configuredEventLimit := s.eventLimit }
    ({ s with shared := shared, eventCount := 0, lastInputs := rawInputs },
      { arg0 := shared.generation })

def rawStart : Raw × Reply :=
  if s.busy then (s, { flags := errCaptureRunning })
  else
    ({ s with
        eventCount := 0, startPending := true
        shared :=
          { s.shared with
            eventCount := 0, stopTicks := 0, stopReason := stopNone, overflowCount := 0,
            running := 0 } },
      { arg0 := now, arg1 := rawInputs, arg2 := s.eventLimit })

def rawStop : Raw × Reply :=
  let s :=
    if s.startPending then
      { s with
        startPending := false
        shared :=
          { s.shared with stopTicks := now, stopReason := stopHostRequest, running := 0 } }
    else s
  let s :=
    if s.captureRunning then
      { s with
        shared := publishStop stopHostRequest now rawInputs s.eventCount s.shared
        captureRunning := false }
    else s
  (s, { arg0 := now, arg1 := s.eventCount, arg2 := s.shared.stopReason })

def rawStatus : Raw × Reply :=
  ({ s with
      shared := { s.shared with eventCount := s.eventCount, finalRawInputs := rawInputs } },
    { arg0 := if s.busy then 1 else 0
      arg1 := s.eventCount
      arg2 := s.eventLimit
      arg3 := s.shared.stopReason })

def dispatch : Command → Raw × Reply
  | .hello =>
      (s, { arg0 := hilPruB1RawCapabilities, arg1 := iepTickHz, arg2 := iepCounterBits,
            arg3 := hilPruB1RawFirmwareVersion })
  | .time => (s, { arg0 := now, arg1 := iepTickHz, arg2 := iepCounterBits })
  | .ping => (s, { arg0 := now })
  | .forceSafe => forceSafe rawInputs now s
  | .rawConfig => rawConfig request s
  | .rawClear => rawClear rawInputs s
  | .rawStart => rawStart rawInputs now s
  | .rawStop => rawStop rawInputs now s
  | .rawStatus => rawStatus rawInputs s

/-- The case a received buffer reaches, or the flags of its refusal. -/
def accept (len : BitVec 16) : Except Word Command :=
  if len ≠ sizeofMsg then .error errBadLength
  else if request.magic ≠ hilPruMagic then .error errBadMagic
  else if request.version ≠ hilPruProtocolVersion then .error errBadVersion
  else
    match Command.ofCode request.type with
    | some command => .ok command
    | none => .error errBadCommand

def handle (len : BitVec 16) : Raw × Reply :=
  match accept request len with
  | .ok command => dispatch request rawInputs now s command
  | .error flags => (s, { flags := flags })

def handleRequest (len : BitVec 16) : Raw × Msg :=
  let (next, reply) := handle request rawInputs now s len
  if len ≠ sizeofMsg then (next, clearResponse 0 0 reply)
  else (next, clearResponse request.type request.seq reply)

end Requests

structure Received where
  len : BitVec 16
  request : Msg
  now : Word

/-- One pass of the main loop: its reading of R31 and, for a pass that starts a capture, of the
counter and of R31 in the kernel; for the others the buffers it drains from the channel. -/
structure Pass where
  r31 : Word
  ticks : Word
  samples : List Sample
  received : List Received

def Raw.serve (s : Raw) (rawInputs : Word) (r : Received) : Raw :=
  (handleRequest r.request rawInputs r.now s r.len).1

def Raw.loop (s : Raw) (i : Pass) : Option Raw :=
  if s.startPending then
    let s := s.arm i.r31 i.ticks
    (captureWindow s.eventLimit i.samples s.window).map s.captured
  else if i.r31 &&& hostInt ≠ 0 then
    some (i.received.foldl (fun s r => s.serve (i.r31 &&& r31PwmInputMask) r) s)
  else some s

def Raw.run (s : Raw) : List Pass → Option Raw
  | [] => some s
  | i :: is => (s.loop i).bind (fun s => s.run is)

structure Exchange where
  received : Received
  rawInputs : Word
  response : Msg

def Raw.answers (s : Raw) (rawInputs : Word) : List Received → List Exchange
  | [] => []
  | r :: rs =>
      ⟨r, rawInputs, (handleRequest r.request rawInputs r.now s r.len).2⟩ ::
        (s.serve rawInputs r).answers rawInputs rs

def Raw.exchanges (s : Raw) (i : Pass) : List Exchange :=
  if s.startPending then []
  else if i.r31 &&& hostInt ≠ 0 then s.answers (i.r31 &&& r31PwmInputMask) i.received
  else []

/-- The exchanges of a run. -/
def Raw.log (s : Raw) : List Pass → List Exchange
  | [] => []
  | i :: is => s.exchanges i ++ (s.loop i).elim [] (fun s => s.log is)

/-- The request reached the case of a command and was not refused there. -/
def Exchange.Accepted (e : Exchange) (c : Command) : Prop :=
  accept e.received.request e.received.len = .ok c ∧ e.response.flags = statusOk

end HilLab.Pru.RawCapture
