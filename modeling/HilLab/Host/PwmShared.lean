import HilLab.Host.PruProtocol
import HilLab.Pru.PwmCaptureCore

namespace HilLab.Host.PwmShared

open Host.Core Lib.Seqlock Pru.PwmCaptureCore

abbrev Shared := Memory 32

def sharedSize : Nat := 4 * sharedWords

def validateSnapshot (s : Shared) : Except HostError Unit :=
  if s magic ≠ sharedMagic then
    .error (.runtimeError
      s!"shared PWM magic 0x{hexPad 8 (s magic).toNat}, expected 0x{hexPad 8 sharedMagic.toNat}")
  else if s version ≠ sharedVersion then
    .error (.runtimeError
      s!"shared PWM version {(s version).toNat}, expected {sharedVersion.toNat}")
  else if (s totalSize).toNat ≠ sharedSize then
    .error (.runtimeError
      s!"shared PWM size {(s totalSize).toNat}, host expects {sharedSize}")
  else if (s channelCountWord).toNat ≠ channelCount then
    .error (.runtimeError
      s!"shared PWM channel_count {(s channelCountWord).toNat}, host expects {channelCount}")
  else if (s pairCountWord).toNat ≠ pairCount then
    .error (.runtimeError
      s!"shared PWM pair_count {(s pairCountWord).toNat}, host expects {pairCount}")
  else if (s ringCapacityWord).toNat ≠ ringCapacity then
    .error (.runtimeError
      s!"shared PWM ring_capacity {(s ringCapacityWord).toNat}, host expects {ringCapacity}")
  else .ok ()

abbrev View := Nat → Memory 32

/-- A slice of words, each loaded by itself, the first one by load i. -/
def copyWords (view : View) (i addr count : Nat) (blob : Shared) : Shared := fun a =>
  if addr ≤ a ∧ a < addr + count then view (i + (a - addr)) a else blob a

def copyRingWindow (view : View) (i : Nat) (fullBlob : Shared) (startSlot recordCount : Nat) :
    Shared × Nat :=
  if recordCount = 0 then (fullBlob, i)
  else
    let firstCount := min recordCount (ringCapacity - startSlot)
    let first := copyWords view i (ringWord startSlot 0) (4 * firstCount) fullBlob
    let secondCount := recordCount - firstCount
    if secondCount = 0 then (first, i + 4 * firstCount)
    else
      (copyWords view (i + 4 * firstCount) summaryWords (4 * secondCount) first,
        i + 4 * firstCount + 4 * secondCount)

def emitCount (s : Shared) (ringLimit : Nat) : Nat :=
  min (min (s ringCount).toNat ringCapacity) ringLimit

def startSlot (s : Shared) (emit : Nat) : Nat :=
  ((((s ringHead).toNat : Int) - emit) % ringCapacity).toNat

inductive Attempt
  | retry
  | done (result : Except HostError Shared)

def fullRing : HostError :=
  .runtimeError ("a full 128-record ring cannot be snapshotted consistently " ++
    "while capture is running; stop capture first or use --ring-limit < 128")

/-- The rest of a pass, from a summary whose lock is the same before and after. -/
def window (view : View) (ringLimit i : Nat) (summary : Shared) : Attempt × Nat :=
  match validateSnapshot summary with
  | .error e => (.done (.error e), i)
  | .ok () =>
      let emit := emitCount summary ringLimit
      if emit = 0 then (.done (.ok summary), i)
      else if summary running ≠ 0 ∧ ringCapacity ≤ emit then (.done (.error fullRing), i)
      else
        let copied := copyRingWindow view i summary (startSlot summary emit) emit
        let eventSeqAfter := view copied.2 eventSeq
        let advanced := eventSeqAfter - summary eventSeq
        if ringCapacity - emit < advanced.toNat then (.retry, copied.2 + 1)
        else
          match validateSnapshot copied.1 with
          | .error e => (.done (.error e), copied.2 + 1)
          | .ok () => (.done (.ok copied.1), copied.2 + 1)

/-- One pass of the retry loop, from load i, and the number of the next load. -/
def attempt (view : View) (ringLimit i : Nat) : Attempt × Nat :=
  let seq0 := view i seqLock
  if odd seq0 then (.retry, i + 1)
  else
    let summary := copyWords view (i + 1) 0 summaryWords (fun _ => 0)
    let seq1 := view (i + 1 + summaryWords) seqLock
    if seq0 ≠ summary seqLock ∨ seq0 ≠ seq1 ∨ odd seq1 then (.retry, i + 1 + summaryWords + 1)
    else window view ringLimit (i + 1 + summaryWords + 1) summary

def unstable (ringLimit : Nat) : HostError :=
  if ringLimit ≠ 0 then
    .runtimeError ("could not obtain a stable PWM summary/recent-edge window; " ++
      "use --ring-limit 0 for live statistics or stop capture before " ++
      "requesting a large ring snapshot")
  else
    .runtimeError ("could not obtain a stable PWM summary; input update rate is too high " ++
      "for the current host reader")

def attempts (view : View) (ringLimit : Nat) : Nat → Nat → Except HostError Shared × Nat
  | 0, i => (.error (unstable ringLimit), i)
  | n + 1, i =>
      match attempt view ringLimit i with
      | (.retry, j) => attempts view ringLimit n j
      | (.done result, j) => (result, j)

/-- The result of a call, and how many loads it has made. -/
def readConsistentSnapshotFromBuffer (view : View) (retries ringLimit : Int) :
    Except HostError Shared × Nat :=
  if retries ≤ 0 then (.error (.valueError "retries must be > 0"), 0)
  else if ringLimit < 0 then (.error (.valueError "ring_limit must be >= 0"), 0)
  else attempts view ringLimit.toNat retries.toNat 0

def recentEdges (snapshot : Shared) (ringLimit : Int) : List EdgeRecord :=
  let emit := emitCount snapshot ringLimit.toNat
  (List.range emit).map
    (fun offset => recordAt snapshot ((startSlot snapshot emit + offset) % ringCapacity))

end HilLab.Host.PwmShared
