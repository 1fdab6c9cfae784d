import HilLab.Lib.ShiftRegister

namespace HilLab.Rtl.Ad3542rQuadStream

open Lib.ShiftRegister

structure Params where
  startupDelayCycles : BitVec 32
  outputRangeConfig : BitVec 8
  safeCode : BitVec 16

structure Sample where
  ch0 : BitVec 16
  ch1 : BitVec 16
  ch2 : BitVec 16
  ch3 : BitVec 16
deriving DecidableEq

def Sample.wordA (c : Sample) : BitVec 32 := c.ch1 ++ c.ch0
def Sample.wordB (c : Sample) : BitVec 32 := c.ch3 ++ c.ch2

inductive State
  | delay | cfgStart | cfgShift | cfgGap | waitSample | streamInstr | streamData
deriving DecidableEq

structure DacInput where
  enable : Bool
  forceSafe : Bool
  code : Sample
  sampleValid : Bool

structure Dac where
  state : State
  configIndex : BitVec 2
  startupCount : BitVec 32
  bitsRemaining : BitVec 6
  shiftA : BitVec 31
  shiftB : BitVec 31
  active : Sample
  pending : Sample
  pendingValid : Bool
  sampleAcceptedPulse : Bool
  sampleUpdatePulse : Bool
  dacSclk : Bool
  dacCsN : Bool
  dacSdio0A : Bool
  dacSdio0B : Bool
  dacResetN : Bool
  initialized : Bool
  streamActive : Bool

variable (p : Params)

def Params.safe : Sample :=
  { ch0 := p.safeCode, ch1 := p.safeCode, ch2 := p.safeCode, ch3 := p.safeCode }

def Params.safeWord : BitVec 32 := p.safeCode ++ p.safeCode

def Dac.reset : Dac :=
  { state := .delay, configIndex := 0, startupCount := 0, bitsRemaining := 0, shiftA := 0,
    shiftB := 0, active := p.safe, pending := p.safe, pendingValid := false,
    sampleAcceptedPulse := false, sampleUpdatePulse := false, dacSclk := false, dacCsN := true,
    dacSdio0A := false, dacSdio0B := false, dacResetN := false, initialized := false,
    streamActive := false }

def configWord (index : BitVec 2) : BitVec 16 :=
  if index = 0 then 0x0E04 else if index = 1 then 0x0F04
  else if index = 2 then (0x19 : BitVec 8) ++ p.outputRangeConfig else 0

def Dac.sampleReady (s : Dac) (i : DacInput) : Bool :=
  s.initialized && !s.pendingValid && !i.forceSafe

def Dac.dacOutputEnable (s : Dac) (i : DacInput) : Bool :=
  s.initialized && s.streamActive && i.enable && !i.forceSafe

def Dac.accepts (s : Dac) (i : DacInput) : Bool := i.sampleValid && s.sampleReady i

/-- The assignments before the case of the state. -/
def Dac.accept (s : Dac) (i : DacInput) : Dac :=
  { s with
    sampleAcceptedPulse := s.accepts i
    sampleUpdatePulse := false
    dacResetN := true
    pending := if s.accepts i then i.code else s.pending
    pendingValid :=
      if i.forceSafe then false else if s.accepts i then true else s.pendingValid }

def Dac.idleBus (s : Dac) : Dac := { s with dacCsN := true, dacSclk := false }

def Dac.shift (s : Dac) : Dac :=
  { s with
    dacSclk := false
    shiftA := s.shiftA <<< 1
    shiftB := s.shiftB <<< 1
    dacSdio0A := s.shiftA.getLsbD 30
    dacSdio0B := s.shiftB.getLsbD 30
    bitsRemaining := s.bitsRemaining - 1 }

/-- The first bit of the next group goes out with its falling clock edge. -/
def Dac.load (s : Dac) (wordA wordB : BitVec 32) : Dac :=
  { s with
    dacSclk := false
    bitsRemaining := 32
    shiftA := wordA.setWidth 31
    shiftB := wordB.setWidth 31
    dacSdio0A := wordA.getLsbD 31
    dacSdio0B := wordB.getLsbD 31 }

def Dac.delay (s next : Dac) : Dac :=
  if p.startupDelayCycles = 0 ∨ p.startupDelayCycles - 1 ≤ s.startupCount then
    { next.idleBus with startupCount := 0, configIndex := 0, state := .cfgStart }
  else { next.idleBus with startupCount := s.startupCount + 1 }

def Dac.cfgStart (s next : Dac) : Dac :=
  let configCurrent := configWord p s.configIndex
  { next with
    dacCsN := false
    dacSclk := false
    shiftA := configCurrent.setWidth 15 ++ (0 : BitVec 16)
    shiftB := configCurrent.setWidth 15 ++ (0 : BitVec 16)
    bitsRemaining := 16
    dacSdio0A := configCurrent.getLsbD 15
    dacSdio0B := configCurrent.getLsbD 15
    state := .cfgShift }

def Dac.cfgShift (s next : Dac) : Dac :=
  if !s.dacSclk then { next with dacSclk := true }
  else if 1 < s.bitsRemaining then next.shift
  else
    { next with
      dacSclk := false, bitsRemaining := 0, dacCsN := true, dacSdio0A := false,
      dacSdio0B := false, state := .cfgGap }

def Dac.cfgGap (s next : Dac) : Dac :=
  if s.configIndex < 2 then
    { next.idleBus with configIndex := s.configIndex + 1, state := .cfgStart }
  else { next.idleBus with initialized := true, state := .waitSample }

def Dac.waitSample (s next : Dac) : Dac :=
  if s.pendingValid then
    { next.idleBus with
      active := s.pending
      pendingValid := false
      shiftA := (0x2C : BitVec 7) ++ (0 : BitVec 24)
      shiftB := (0x2C : BitVec 7) ++ (0 : BitVec 24)
      bitsRemaining := 8
      dacSdio0A := false
      dacSdio0B := false
      dacCsN := false
      streamActive := true
      state := .streamInstr }
  else next.idleBus

def DacInput.live (i : DacInput) : Bool := !i.forceSafe && i.enable

def Dac.streamInstr (s next : Dac) (i : DacInput) : Dac :=
  if !s.dacSclk then { next with dacSclk := true }
  else if 1 < s.bitsRemaining then next.shift
  else if i.live then
    { next.load s.active.wordA s.active.wordB with state := .streamData }
  else { next.load p.safeWord p.safeWord with state := .streamData }

def Dac.streamData (s next : Dac) (i : DacInput) : Dac :=
  if !s.dacSclk then { next with dacSclk := true }
  else if 1 < s.bitsRemaining then next.shift
  else if !i.live then
    { next.load p.safeWord p.safeWord with sampleUpdatePulse := true, active := p.safe }
  else if s.pendingValid then
    { next.load s.pending.wordA s.pending.wordB with
      sampleUpdatePulse := true, active := s.pending, pendingValid := false }
  else { next.load s.active.wordA s.active.wordB with sampleUpdatePulse := true }

def Dac.step (s : Dac) (i : DacInput) : Dac :=
  match s.state with
  | .delay => s.delay p (s.accept i)
  | .cfgStart => s.cfgStart p (s.accept i)
  | .cfgShift => s.cfgShift (s.accept i)
  | .cfgGap => s.cfgGap (s.accept i)
  | .waitSample => s.waitSample (s.accept i)
  | .streamInstr => s.streamInstr p (s.accept i) i
  | .streamData => s.streamData p { s.accept i with dacCsN := false } i

/-- The last bit of the instruction or of a group has been clocked out. -/
def Dac.atBoundary (s : Dac) : Bool :=
  (s.state == .streamInstr || s.state == .streamData) && s.dacSclk &&
    !decide (1 < s.bitsRemaining)

def Dac.groupWords (s : Dac) (i : DacInput) : BitVec 32 × BitVec 32 :=
  if !i.live then (p.safeWord, p.safeWord)
  else if s.state == .streamData && s.pendingValid then (s.pending.wordA, s.pending.wordB)
  else (s.active.wordA, s.active.wordB)

/-- The words of the group that begins in this clock, if one does. -/
def Dac.groupBegun (s : Dac) (i : DacInput) : Option (BitVec 32 × BitVec 32) :=
  if s.atBoundary then some (s.groupWords p i) else none

end HilLab.Rtl.Ad3542rQuadStream
