import HilLab.Host.PruProtocol

namespace HilLab.Host.RawShared

open Host.Core PruProtocol

abbrev Word := BitVec 32

def rawMagic : Nat := 0x31574152
def rawVersion : Nat := 1
def rawCapacity : Nat := 1024

/-- Sixteen header words and the ring of two-word records. -/
def rawSharedSize : Nat := 4 * 16 + 8 * rawCapacity

def rawMasks : List Word := [1 <<< 1, 1 <<< 2, 1 <<< 3, 1 <<< 5, 1 <<< 14, 1 <<< 15]

structure RawEdgeRecord where
  timestampTicks : Word
  rawInputs : Word

structure RawCaptureShared where
  magic : Nat := rawMagic
  version : Nat := rawVersion
  totalSize : Nat := rawSharedSize
  capacity : Nat := rawCapacity
  eventCount : Nat
  initialRawInputs : Word
  ring : Nat → RawEdgeRecord

def addLogical (rawInputs logical : Word) (mask : Word × Nat) : Word :=
  if rawInputs &&& mask.1 ≠ 0 then logical ||| (1 <<< mask.2) else logical

def rawToLogical (rawInputs : Word) : Word := rawMasks.zipIdx.foldl (addLogical rawInputs) 0

def validate (shared : RawCaptureShared) : Except HostError Unit :=
  if shared.magic ≠ rawMagic then
    .error (.runtimeError s!"raw capture magic 0x{hexPad 8 shared.magic}, expected 0x{hexPad 8 rawMagic}")
  else if shared.version ≠ rawVersion then
    .error (.runtimeError s!"raw capture version {shared.version}, expected {rawVersion}")
  else if shared.totalSize ≠ rawSharedSize then
    .error (.runtimeError s!"raw capture size {shared.totalSize}, host expects {rawSharedSize}")
  else if shared.capacity ≠ rawCapacity then
    .error (.runtimeError s!"raw capture capacity {shared.capacity}, host expects {rawCapacity}")
  else if rawCapacity < shared.eventCount then
    .error (.runtimeError
      s!"raw capture event_count {shared.eventCount} exceeds capacity {rawCapacity}")
  else .ok ()

structure RawRecord where
  index : Nat
  timestampTicks : Word
  rawInputs : Word
  logicalInputs : Word
  changedInputs : Word
deriving DecidableEq

def RawRecord.of (index : Nat) (previousLogical : Word) (item : RawEdgeRecord) : RawRecord :=
  let logical := rawToLogical item.rawInputs
  { index
    timestampTicks := item.timestampTicks
    rawInputs := item.rawInputs
    logicalInputs := logical
    changedInputs := logical ^^^ previousLogical }

def readRecords (index : Nat) (previousLogical : Word) : List RawEdgeRecord → List RawRecord
  | [] => []
  | item :: items =>
      .of index previousLogical item ::
        readRecords (index + 1) (rawToLogical item.rawInputs) items

def rawRecords (shared : RawCaptureShared) : Except HostError (List RawRecord) := do
  validate shared
  let count := min shared.eventCount rawCapacity
  return readRecords 0 (rawToLogical shared.initialRawInputs) ((List.range count).map shared.ring)

def appendDelta (destination : List Word) (now : Word) (previous : Option Word) : List Word :=
  match previous with
  | none => destination
  | some previous => destination ++ [now - previous]

/-- The lists that one channel index selects. -/
structure ChannelLog where
  riseLast : Option Word
  fallLast : Option Word
  periodTicks : List Word
  highTicks : List Word
  lowTicks : List Word
  riseCount : Nat
  fallCount : Nat

def ChannelLog.rise (timestamp : Word) (l : ChannelLog) : ChannelLog :=
  { l with
    periodTicks := appendDelta l.periodTicks timestamp l.riseLast
    lowTicks := appendDelta l.lowTicks timestamp l.fallLast
    riseLast := some timestamp
    riseCount := l.riseCount + 1 }

def ChannelLog.fall (timestamp : Word) (l : ChannelLog) : ChannelLog :=
  { l with
    highTicks := appendDelta l.highTicks timestamp l.riseLast
    fallLast := some timestamp
    fallCount := l.fallCount + 1 }

def ChannelLog.edges (timestamp riseBits fallBits bit : Word) (l : ChannelLog) : ChannelLog :=
  let l := if riseBits &&& bit ≠ 0 then l.rise timestamp else l
  if fallBits &&& bit ≠ 0 then l.fall timestamp else l

/-- The dead times of one direction, and the turn-off still to be paired. -/
structure DeadLog where
  pending : Option Word
  deadTicks : List Word

def DeadLog.turnOff (timestamp : Word) (d : DeadLog) : DeadLog := { d with pending := some timestamp }

def DeadLog.turnOn (timestamp : Word) (d : DeadLog) : DeadLog :=
  { pending := none, deadTicks := appendDelta d.deadTicks timestamp d.pending }

/-- The lists that one pair index selects. -/
structure PairLog where
  hl : DeadLog
  lh : DeadLog
  overlapCount : Nat
  overlapActive : Bool

def DeadLog.edges (timestamp : Word) (off on : Prop) [Decidable off] [Decidable on] (d : DeadLog) :
    DeadLog :=
  let d := if off then d.turnOff timestamp else d
  if on then d.turnOn timestamp else d

def PairLog.edges (timestamp state riseBits fallBits hiBit loBit : Word) (l : PairLog) : PairLog :=
  let overlapNow := decide (state &&& hiBit ≠ 0 ∧ state &&& loBit ≠ 0)
  { hl := l.hl.edges timestamp (fallBits &&& hiBit ≠ 0) (riseBits &&& loBit ≠ 0)
    lh := l.lh.edges timestamp (fallBits &&& loBit ≠ 0) (riseBits &&& hiBit ≠ 0)
    overlapCount := if overlapNow && !l.overlapActive then l.overlapCount + 1 else l.overlapCount
    overlapActive := overlapNow }

structure Analysis where
  channels : Nat → ChannelLog
  pairs : Nat → PairLog
  previousState : Word

def Analysis.initial (state : Word) : Analysis :=
  { channels := fun _ => ⟨none, none, [], [], [], 0, 0⟩
    pairs := fun _ => ⟨⟨none, []⟩, ⟨none, []⟩, 0, false⟩
    previousState := state }

/-- One record: no channel or pair reads another's lists. -/
def Analysis.record (a : Analysis) (r : RawRecord) : Analysis :=
  let state := r.logicalInputs
  let riseBits := r.changedInputs &&& state
  let fallBits := r.changedInputs &&& a.previousState
  { channels := fun channel =>
      (a.channels channel).edges r.timestampTicks riseBits fallBits (1 <<< channel)
    pairs := fun pair =>
      (a.pairs pair).edges r.timestampTicks state riseBits fallBits (1 <<< (pair * 2))
        (1 <<< (pair * 2 + 1))
    previousState := state }

/-- The part of the analysis that counts ticks: what it makes of them in ns
and us is floating point. -/
def analyzeRawCapture (shared : RawCaptureShared) : Except HostError Analysis := do
  validate shared
  let records ← rawRecords shared
  return records.foldl Analysis.record (.initial (rawToLogical shared.initialRawInputs))

end HilLab.Host.RawShared
