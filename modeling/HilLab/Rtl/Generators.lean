import HilLab.Rtl.Common

namespace HilLab.Rtl.Generators

open Common

structure AbzInput where
  enable : Bool
  directionForward : Bool
  stepPeriodTicks : BitVec 32

structure AbzEncoder where
  encA : Bool
  encB : Bool
  encZ : Bool
  positionEdges : BitVec 32
  tickCount : BitVec 32
  revolutionEdgeCount : BitVec 32
  phase : BitVec 2

def AbzEncoder.reset : AbzEncoder :=
  { encA := false, encB := false, encZ := false, positionEdges := 0, tickCount := 0,
    revolutionEdgeCount := 0, phase := 0 }

def AbzEncoder.stepDue (s : AbzEncoder) (i : AbzInput) : Bool :=
  if i.stepPeriodTicks ≤ 1 then true else decide (i.stepPeriodTicks - 1 ≤ s.tickCount)

def nextPhase (directionForward : Bool) (phase : BitVec 2) : BitVec 2 :=
  if directionForward then
    if phase = 0b00 then 0b01 else if phase = 0b01 then 0b11 else if phase = 0b11 then 0b10
    else 0b00
  else
    if phase = 0b00 then 0b10 else if phase = 0b10 then 0b11 else if phase = 0b11 then 0b01
    else 0b00

/-- A disabled encoder keeps its phase and its A and B levels. -/
def AbzEncoder.step (countsPerRev : Nat) (s : AbzEncoder) (i : AbzInput) : AbzEncoder :=
  if !i.enable then { s with tickCount := 0, encZ := false }
  else if s.stepDue i then
    let phase := nextPhase i.directionForward s.phase
    let wraps := decide (countsPerRev - 1 ≤ s.revolutionEdgeCount.toNat)
    { tickCount := 0
      phase := phase
      encA := phase.getLsbD 1
      encB := phase.getLsbD 0
      positionEdges :=
        if i.directionForward then s.positionEdges + 1 else s.positionEdges - 1
      revolutionEdgeCount := if wraps then 0 else s.revolutionEdgeCount + 1
      encZ := wraps }
  else { s with tickCount := s.tickCount + 1 }

structure SpiInput (F : Nat) where
  sclkAsync : Bool
  csNAsync : Bool
  mosiAsync : Bool
  frameData : BitVec F
  faultFlipMask : BitVec F
  faultEnable : Bool

structure SpiEncoder (F : Nat) where
  sync : Sync2ff 3
  csND : Bool
  sclkD : Bool
  miso : Bool
  frameActive : Bool
  frameDonePulse : Bool
  receivedBitCount : BitVec 16
  receivedMosiData : BitVec F
  shiftReg : BitVec F
  remainingBits : BitVec 16

variable {F : Nat}

def SpiEncoder.reset : SpiEncoder F :=
  { sync := .reset, csND := true, sclkD := false, miso := false, frameActive := false,
    frameDonePulse := false, receivedBitCount := 0, receivedMosiData := 0, shiftReg := 0,
    remainingBits := 0 }

def SpiEncoder.csN (s : SpiEncoder F) : Bool := s.sync.bit 2
def SpiEncoder.sclk (s : SpiEncoder F) : Bool := s.sync.bit 1
def SpiEncoder.mosi (s : SpiEncoder F) : Bool := s.sync.bit 0
def SpiEncoder.csFall (s : SpiEncoder F) : Bool := s.csND && !s.csN
def SpiEncoder.csRise (s : SpiEncoder F) : Bool := !s.csND && s.csN
def SpiEncoder.sclkFall (s : SpiEncoder F) : Bool := s.sclkD && !s.sclk
def SpiEncoder.sclkRise (s : SpiEncoder F) : Bool := !s.sclkD && s.sclk

def effectiveFrame (i : SpiInput F) : BitVec F :=
  if i.faultEnable then i.frameData ^^^ i.faultFlipMask else i.frameData

def SpiEncoder.shift (s : SpiEncoder F) (i : SpiInput F) : SpiEncoder F :=
  if s.csFall then
    { s with
      shiftReg := effectiveFrame i
      remainingBits := BitVec.ofNat 16 F
      receivedBitCount := 0
      receivedMosiData := 0
      frameActive := true
      miso := (effectiveFrame i).getLsbD (F - 1) }
  else if s.frameActive && !s.csN && s.sclkFall then
    if 1 < s.remainingBits then
      { s with
        shiftReg := s.shiftReg <<< 1
        remainingBits := s.remainingBits - 1
        miso := s.shiftReg.getLsbD (F - 2) }
    else { s with remainingBits := 0, miso := false }
  else s

/-- The clocked blocks in source order: a later assignment overrides an
earlier one, and every right-hand side reads the old registers s. -/
def SpiEncoder.step (s : SpiEncoder F) (i : SpiInput F) : SpiEncoder F :=
  let sampled :=
    { s.shift i with
      sync := s.sync.step
        (BitVec.ofBool i.csNAsync ++ BitVec.ofBool i.sclkAsync ++ BitVec.ofBool i.mosiAsync)
      csND := s.csN
      sclkD := s.sclk
      frameDonePulse := false }
  let received :=
    if s.frameActive && !s.csN && s.sclkRise then
      { sampled with
        receivedMosiData := s.receivedMosiData <<< 1 ||| (BitVec.ofBool s.mosi).setWidth F
        receivedBitCount := s.receivedBitCount + 1 }
    else sampled
  if s.csRise && s.frameActive then
    { received with frameActive := false, frameDonePulse := true, miso := false }
  else received

end HilLab.Rtl.Generators
