import HilLab.Lib.Seqlock

namespace HilLab.Pru.PwmCaptureCore

open Lib.Seqlock

abbrev Word := BitVec 32

def sharedMagic : Word := 0x314D5750
def sharedVersion : Word := 1
def channelCount : Nat := 6
def pairCount : Nat := 3
def ringCapacity : Nat := 128
def logicalMask : Word := 0x3F

def chRiseSeen : Word := 1 <<< 0
def chFallSeen : Word := 1 <<< 1
def chPeriodValid : Word := 1 <<< 2
def chHighValid : Word := 1 <<< 3
def chLowValid : Word := 1 <<< 4

def pairDtHlValid : Word := 1 <<< 0
def pairDtLhValid : Word := 1 <<< 1
def pairOverlapActive : Word := 1 <<< 2
def pairOverlapLatched : Word := 1 <<< 3
def pairViolationLatched : Word := 1 <<< 4

def faultOverlap (pairIndex : Nat) : Word := 1 <<< pairIndex
def faultDeadtime (pairIndex : Nat) : Word := 1 <<< (8 + pairIndex)

/-- The first of the 20 header words of struct hil_pwm_shared; the channels, the pairs and the edge
ring follow them. -/
def magic : Nat := 0
def version : Nat := 1
def totalSize : Nat := 2
def seqLock : Nat := 3
def tickHz : Nat := 4
def channelCountWord : Nat := 5
def pairCountWord : Nat := 6
def ringCapacityWord : Nat := 7
def running : Nat := 8
def minDeadtimeTicks : Nat := 9
def inputBits : Nat := 10
def changedBits : Nat := 11
def lastTimestampTicks : Nat := 12
def eventSeq : Nat := 13
def ringHead : Nat := 14
def ringCount : Nat := 15
def faultFlags : Nat := 16

def channelWord (i field : Nat) : Nat := 20 + 8 * i + field
def periodTicks (i : Nat) : Nat := channelWord i 0
def highTicks (i : Nat) : Nat := channelWord i 1
def lowTicks (i : Nat) : Nat := channelWord i 2
def lastRiseTicks (i : Nat) : Nat := channelWord i 3
def lastFallTicks (i : Nat) : Nat := channelWord i 4
def riseCount (i : Nat) : Nat := channelWord i 5
def fallCount (i : Nat) : Nat := channelWord i 6
def channelFlags (i : Nat) : Nat := channelWord i 7

def pairWord (i field : Nat) : Nat := 68 + 8 * i + field
def deadtimeHighToLowTicks (i : Nat) : Nat := pairWord i 0
def deadtimeLowToHighTicks (i : Nat) : Nat := pairWord i 1
def deadtimeHighToLowCount (i : Nat) : Nat := pairWord i 2
def deadtimeLowToHighCount (i : Nat) : Nat := pairWord i 3
def overlapCount (i : Nat) : Nat := pairWord i 4
def violationCount (i : Nat) : Nat := pairWord i 5
def pairFlags (i : Nat) : Nat := pairWord i 6

/-- The summary prefix of 368 bytes ends where the ring begins. -/
def summaryWords : Nat := 92

def ringWord (slot field : Nat) : Nat := summaryWords + 4 * slot + field

def sharedWords : Nat := summaryWords + 4 * ringCapacity

structure EdgeRecord where
  timestampTicks : Word
  logicalInputs : Word
  changedInputs : Word
  faultFlags : Word
deriving DecidableEq

def recordAt (m : Memory 32) (slot : Nat) : EdgeRecord :=
  { timestampTicks := m (ringWord slot 0)
    logicalInputs := m (ringWord slot 1)
    changedInputs := m (ringWord slot 2)
    faultFlags := m (ringWord slot 3) }

def set (addr : Nat) (value : Word) : Code 32 := store addr (fun _ => value)
def increment (addr : Nat) : Code 32 := store addr (fun m => m addr + 1)
def setFlags (addr : Nat) (bits : Word) : Code 32 := store addr (fun m => m addr ||| bits)
def clearFlags (addr : Nat) (bits : Word) : Code 32 := store addr (fun m => m addr &&& ~~~bits)

def forEach (n : Nat) (body : Nat → Code 32) : Code 32 := seq ((List.range n).map body)

def beginUpdate : Code 32 := bump seqLock
def endUpdate : Code 32 := bump seqLock

def clearWords (wordCount : Nat) : Code 32 := forEach wordCount (fun i => set i 0)

def pushEdgeRecord (timestampTicks logicalInputs changedInputs : Word) : Code 32 :=
  reading (fun m => m ringHead) (fun head =>
    let slot := head.toNat
    seq
      [set (ringWord slot 0) timestampTicks,
        set (ringWord slot 1) logicalInputs,
        set (ringWord slot 2) changedInputs,
        store (ringWord slot 3) (fun m => m faultFlags),
        set ringHead (if ringCapacity ≤ (head + 1).toNat then 0 else head + 1),
        whenever (fun m => decide ((m ringCount).toNat < ringCapacity)) (increment ringCount)])

def recordDeadtime (pairIndex : Nat) (highToLow : Bool) (deadtimeTicks : Word) : Code 32 :=
  seq
    [if highToLow then
        seq
          [set (deadtimeHighToLowTicks pairIndex) deadtimeTicks,
            increment (deadtimeHighToLowCount pairIndex),
            setFlags (pairFlags pairIndex) pairDtHlValid]
      else
        seq
          [set (deadtimeLowToHighTicks pairIndex) deadtimeTicks,
            increment (deadtimeLowToHighCount pairIndex),
            setFlags (pairFlags pairIndex) pairDtLhValid],
      whenever
        (fun m => m minDeadtimeTicks != 0 && decide (deadtimeTicks < m minDeadtimeTicks))
        (seq
          [increment (violationCount pairIndex),
            setFlags (pairFlags pairIndex) pairViolationLatched,
            setFlags faultFlags (faultDeadtime pairIndex)])]

def init (hz minDeadtime : Word) : Code 32 :=
  seq
    [clearWords sharedWords,
      set magic sharedMagic,
      set version sharedVersion,
      set totalSize (BitVec.ofNat 32 (4 * sharedWords)),
      set tickHz hz,
      set channelCountWord (BitVec.ofNat 32 channelCount),
      set pairCountWord (BitVec.ofNat 32 pairCount),
      set ringCapacityWord (BitVec.ofNat 32 ringCapacity),
      set minDeadtimeTicks minDeadtime]

def start (timestampTicks logicalInputs : Word) : Code 32 :=
  seq
    [beginUpdate,
      seq
        [set running 1,
          set inputBits (logicalInputs &&& logicalMask),
          set changedBits 0,
          set lastTimestampTicks timestampTicks],
      endUpdate]

def stop : Code 32 := seq [beginUpdate, set running 0, endUpdate]

/-- The one operation without a begin and an end: it runs init over the block. -/
def clear (logicalInputs : Word) : Code 32 :=
  reading (fun m => (m tickHz, m minDeadtimeTicks, m running)) (fun kept =>
    seq
      [init kept.1 kept.2.1,
        set inputBits (logicalInputs &&& logicalMask),
        set running kept.2.2])

def setMinDeadtime (minDeadtime : Word) : Code 32 :=
  seq [beginUpdate, set minDeadtimeTicks minDeadtime, endUpdate]

def channelEdges (timestampTicks riseBits fallBits : Word) (i : Nat) : Code 32 :=
  let bit : Word := 1 <<< i
  let seen (flag : Word) (m : Memory 32) : Bool := m (channelFlags i) &&& flag != 0
  seq
    [if riseBits &&& bit ≠ 0 then
        seq
          [whenever (seen chRiseSeen)
              (seq
                [store (periodTicks i) (fun m => timestampTicks - m (lastRiseTicks i)),
                  setFlags (channelFlags i) chPeriodValid]),
            whenever (seen chFallSeen)
              (seq
                [store (lowTicks i) (fun m => timestampTicks - m (lastFallTicks i)),
                  setFlags (channelFlags i) chLowValid]),
            set (lastRiseTicks i) timestampTicks,
            increment (riseCount i),
            setFlags (channelFlags i) chRiseSeen]
      else skip,
      if fallBits &&& bit ≠ 0 then
        seq
          [whenever (seen chRiseSeen)
              (seq
                [store (highTicks i) (fun m => timestampTicks - m (lastRiseTicks i)),
                  setFlags (channelFlags i) chHighValid]),
            set (lastFallTicks i) timestampTicks,
            increment (fallCount i),
            setFlags (channelFlags i) chFallSeen]
      else skip]

/-- A switch of the pair: the opposite input falls in the same sample, or has
fallen before. -/
def pairSwitch (timestampTicks riseBits fallBits : Word) (pairIndex risen fallen : Nat)
    (highToLow : Bool) : Code 32 :=
  if riseBits &&& (1 <<< risen) ≠ 0 then
    if fallBits &&& (1 <<< fallen) ≠ 0 then recordDeadtime pairIndex highToLow 0
    else
      whenever (fun m => m (channelFlags fallen) &&& chFallSeen != 0)
        (reading (fun m => timestampTicks - m (lastFallTicks fallen))
          (recordDeadtime pairIndex highToLow))
  else skip

def pairEdges (timestampTicks logicalInputs riseBits fallBits : Word) (pairIndex : Nat) : Code 32 :=
  let highIndex := pairIndex * 2
  let lowIndex := highIndex + 1
  let overlapNow :=
    logicalInputs &&& (1 <<< highIndex) ≠ 0 ∧ logicalInputs &&& (1 <<< lowIndex) ≠ 0
  seq
    [pairSwitch timestampTicks riseBits fallBits pairIndex lowIndex highIndex true,
      pairSwitch timestampTicks riseBits fallBits pairIndex highIndex lowIndex false,
      if overlapNow then
        seq
          [whenever (fun m => m (pairFlags pairIndex) &&& pairOverlapActive == 0)
              (increment (overlapCount pairIndex)),
            setFlags (pairFlags pairIndex) (pairOverlapActive ||| pairOverlapLatched),
            setFlags faultFlags (faultOverlap pairIndex)]
      else clearFlags (pairFlags pairIndex) pairOverlapActive]

def process (timestampTicks logicalInputs : Word) : Code 32 :=
  whenever (fun m => m running != 0)
    (reading (fun m => m inputBits) (fun previousInputs =>
      let logicalInputs := logicalInputs &&& logicalMask
      let changedInputs := (logicalInputs ^^^ previousInputs) &&& logicalMask
      let riseBits := changedInputs &&& logicalInputs
      let fallBits := changedInputs &&& previousInputs
      whenever (fun _ => changedInputs != 0)
        (seq
          [beginUpdate,
            seq
              [set inputBits logicalInputs,
                set changedBits changedInputs,
                set lastTimestampTicks timestampTicks,
                increment eventSeq,
                forEach channelCount (channelEdges timestampTicks riseBits fallBits),
                forEach pairCount (pairEdges timestampTicks logicalInputs riseBits fallBits),
                pushEdgeRecord timestampTicks logicalInputs changedInputs],
            endUpdate])))

inductive Op
  | start (timestampTicks logicalInputs : Word)
  | stop
  | setMinDeadtime (minDeadtime : Word)
  | process (timestampTicks logicalInputs : Word)
  | clear (logicalInputs : Word)
deriving DecidableEq, Repr

def Op.code : Op → Code 32
  | .start timestampTicks logicalInputs => PwmCaptureCore.start timestampTicks logicalInputs
  | .stop => PwmCaptureCore.stop
  | .setMinDeadtime minDeadtime => PwmCaptureCore.setMinDeadtime minDeadtime
  | .process timestampTicks logicalInputs => PwmCaptureCore.process timestampTicks logicalInputs
  | .clear logicalInputs => PwmCaptureCore.clear logicalInputs

def calls (ops : List Op) : Code 32 := seq (ops.map Op.code)

def initialised (m : Memory 32) (hz minDeadtime : Word) : Memory 32 := run m (init hz minDeadtime m)

section Footprints

variable {addr : Nat}

theorem avoids_set {a : Nat} (h : a ≠ addr) (value : Word) : Avoids addr (set a value) :=
  avoids_store h _

theorem avoids_increment {a : Nat} (h : a ≠ addr) : Avoids addr (increment a) := avoids_store h _

theorem avoids_setFlags {a : Nat} (h : a ≠ addr) (bits : Word) : Avoids addr (setFlags a bits) :=
  avoids_store h _

theorem avoids_clearFlags {a : Nat} (h : a ≠ addr) (bits : Word) :
    Avoids addr (clearFlags a bits) := avoids_store h _

theorem avoids_forEach {n : Nat} {body : Nat → Code 32} (h : ∀ i, Avoids addr (body i)) :
    Avoids addr (forEach n body) := by
  refine avoids_seq (fun c hc => ?_)
  obtain ⟨i, _, rfl⟩ := List.mem_map.mp hc
  exact h i

theorem recordDeadtime_avoids {i : Nat} (hp : ∀ field, field < 8 → pairWord i field ≠ addr)
    (hf : faultFlags ≠ addr) (highToLow : Bool) (ticks : Word) :
    Avoids addr (recordDeadtime i highToLow ticks) := by
  refine avoids_cons (avoids_ite ?_ ?_) (avoids_cons (avoids_whenever ?_) avoids_skip)
  · exact avoids_cons (avoids_set (hp _ (by decide)) _)
      (avoids_cons (avoids_increment (hp _ (by decide)))
        (avoids_cons (avoids_setFlags (hp _ (by decide)) _) avoids_skip))
  · exact avoids_cons (avoids_set (hp _ (by decide)) _)
      (avoids_cons (avoids_increment (hp _ (by decide)))
        (avoids_cons (avoids_setFlags (hp _ (by decide)) _) avoids_skip))
  · exact avoids_cons (avoids_increment (hp _ (by decide)))
      (avoids_cons (avoids_setFlags (hp _ (by decide)) _)
        (avoids_cons (avoids_setFlags hf _) avoids_skip))

theorem channelEdges_avoids {i : Nat} (hn : ∀ field, field < 8 → channelWord i field ≠ addr)
    (ticks rise fall : Word) : Avoids addr (channelEdges ticks rise fall i) := by
  have hpair {a flags : Nat} (ha : a ≠ addr) (hf : flags ≠ addr) (value : Memory 32 → Word)
      (bits : Word) : Avoids addr (seq [store a value, setFlags flags bits]) :=
    avoids_cons (avoids_store ha _) (avoids_cons (avoids_setFlags hf _) avoids_skip)
  refine avoids_cons (avoids_ite ?_ avoids_skip) (avoids_cons (avoids_ite ?_ avoids_skip) avoids_skip)
  · exact avoids_cons (avoids_whenever (hpair (hn _ (by decide)) (hn _ (by decide)) _ _))
      (avoids_cons (avoids_whenever (hpair (hn _ (by decide)) (hn _ (by decide)) _ _))
        (avoids_cons (avoids_set (hn _ (by decide)) _)
          (avoids_cons (avoids_increment (hn _ (by decide)))
            (avoids_cons (avoids_setFlags (hn _ (by decide)) _) avoids_skip))))
  · exact avoids_cons (avoids_whenever (hpair (hn _ (by decide)) (hn _ (by decide)) _ _))
      (avoids_cons (avoids_set (hn _ (by decide)) _)
        (avoids_cons (avoids_increment (hn _ (by decide)))
          (avoids_cons (avoids_setFlags (hn _ (by decide)) _) avoids_skip)))

theorem pairSwitch_avoids {i : Nat} (hp : ∀ field, field < 8 → pairWord i field ≠ addr)
    (hf : faultFlags ≠ addr) (ticks rise fall : Word) (risen fallen : Nat) (highToLow : Bool) :
    Avoids addr (pairSwitch ticks rise fall i risen fallen highToLow) :=
  avoids_ite
    (avoids_ite (recordDeadtime_avoids hp hf _ _)
      (avoids_whenever (avoids_reading (recordDeadtime_avoids hp hf _))))
    avoids_skip

theorem pairEdges_avoids {i : Nat} (hp : ∀ field, field < 8 → pairWord i field ≠ addr)
    (hf : faultFlags ≠ addr) (ticks inputs rise fall : Word) :
    Avoids addr (pairEdges ticks inputs rise fall i) := by
  refine avoids_cons (pairSwitch_avoids hp hf _ _ _ _ _ _) (avoids_cons
    (pairSwitch_avoids hp hf _ _ _ _ _ _) (avoids_cons (avoids_ite ?_ ?_) avoids_skip))
  · exact avoids_cons (avoids_whenever (avoids_increment (hp _ (by decide)))) (avoids_cons
      (avoids_setFlags (hp _ (by decide)) _) (avoids_cons (avoids_setFlags hf _) avoids_skip))
  · exact avoids_clearFlags (hp _ (by decide)) _

theorem pushEdgeRecord_avoids (hr : ∀ slot field, field < 4 → ringWord slot field ≠ addr)
    (hh : ringHead ≠ addr) (hc : ringCount ≠ addr) (ticks inputs changed : Word) :
    Avoids addr (pushEdgeRecord ticks inputs changed) := by
  refine avoids_reading (fun head => ?_)
  have hn := hr head.toNat
  exact avoids_cons (avoids_set (hn _ (by decide)) _)
    (avoids_cons (avoids_set (hn _ (by decide)) _)
      (avoids_cons (avoids_set (hn _ (by decide)) _)
        (avoids_cons (avoids_store (hn _ (by decide)) _)
          (avoids_cons (avoids_set hh _)
            (avoids_cons (avoids_whenever (avoids_increment hc)) avoids_skip)))))

end Footprints

end HilLab.Pru.PwmCaptureCore
