import HilLab.Plant.ClosedLoop
import HilLab.Rtl.Ad3542rQuadStream
import HilLab.Rtl.HilDigitalCore

namespace HilLab.Boards.Axu2cgbHilTop

open Plant.ClosedLoop Rtl.Common Rtl.Generators Rtl.HilDigitalCore
open Rtl.Ad3542rQuadStream (Dac DacInput Sample)

structure TopParams where
  encoderCountsPerRev : Nat
  encoderStepPeriodTicks : BitVec 32
  spiFrameData : BitVec 24
  minDeadtimeTicks : BitVec 32
  dac : Rtl.Ad3542rQuadStream.Params
  plant : LoopParams

def axu2cgb : TopParams :=
  { encoderCountsPerRev := 4096
    encoderStepPeriodTicks := 5000
    spiFrameData := 0xA55A3C
    minDeadtimeTicks := 50
    dac := { startupDelayCycles := 1000000, outputRangeConfig := 0x11, safeCode := 0x0000 }
    plant :=
      { coefficients := Plant.PmsmDqPlant.axu2cgbCoefficients
        vbusQ16 := Plant.PmsmDqPlant.vbusQ16
        loadTorqueQ16 := 0
        kRadToTurnQ32 := 34178
        currentGainQ16 := 52428800
        currentOffsetCode := 0x547B
        vbusGainQ16 := 53673984
        vbusOffsetCode := 0
        currentLimitQ16 := Plant.PmsmDqPlant.currentLimitQ16
        speedLimitQ16 := Plant.PmsmDqPlant.speedLimitQ16 } }

structure TopInput where
  pwmHighIn : BitVec 3
  pwmLowIn : BitVec 3
  spiSclkIn : Bool
  spiCsNIn : Bool
  spiMosiIn : Bool
  hilEnableIn : Bool
  encoderDirectionIn : Bool
  clearFaultsIn : Bool
  forceSafeIn : Bool
  testPatternEnableIn : Bool
  dacPatternSelectIn : BitVec 2

/-- The registers of axu2cgb_hil_top in the domain of core_rst_n, by instance. -/
structure Top where
  controlSync : Sync2ff 7
  core : HilCore 24 16
  plant : Loop
  dac : Dac
  dacSubmitPending : Bool
  dacPatternSeen : BitVec 2
  outputsEnabledD : Bool
  pwmSeenLatched : Bool

variable (p : TopParams) (s : Top)

def Top.reset : Top :=
  { controlSync := .reset, core := .reset, plant := .reset, dac := .reset p.dac,
    dacSubmitPending := true, dacPatternSeen := 0, outputsEnabledD := false,
    pwmSeenLatched := false }

def Top.hilEnable : Bool := s.controlSync.bit 0
def Top.encoderDirection : Bool := s.controlSync.bit 1
def Top.clearFaults : Bool := s.controlSync.bit 2
def Top.forceSafe : Bool := s.controlSync.bit 3
def Top.testPatternEnable : Bool := s.controlSync.bit 4
def Top.dacPatternSelect : BitVec 2 := s.controlSync.syncReg.extractLsb' 5 2
def Top.outputsEnabled : Bool := s.hilEnable && !s.forceSafe

def controlBus (i : TopInput) : BitVec 7 :=
  i.dacPatternSelectIn ++ BitVec.ofBool i.testPatternEnableIn ++ BitVec.ofBool i.forceSafeIn ++
    BitVec.ofBool i.clearFaultsIn ++ BitVec.ofBool i.encoderDirectionIn ++
    BitVec.ofBool i.hilEnableIn

def Top.plantUpdate : Bool :=
  s.core.pwmMeasurementValid.getLsbD 0 && s.pwmSeenLatched && s.outputsEnabled

def Top.loopInput : LoopInput :=
  { clearFaults := s.clearFaults
    modelUpdate := s.plantUpdate
    pwmPeriodTicks := s.core.pwmPeriodTicks
    pwmHighTicks := s.core.pwmHighTicks
    pwmValid := s.core.pwmMeasurementValid }

def Top.spiFrameDataMux : BitVec 24 :=
  if s.testPatternEnable then p.spiFrameData else s.plant.angles.encoderWord24

def Top.coreInput (i : TopInput) : HilInput 24 16 :=
  { pwmHigh := i.pwmHighIn
    pwmLow := i.pwmLowIn
    minDeadtimeTicks := p.minDeadtimeTicks
    clearPwmFaults := s.clearFaults
    encoder :=
      { enable := s.outputsEnabled
        directionForward := s.encoderDirection
        stepPeriodTicks := p.encoderStepPeriodTicks }
    spi :=
      { sclkAsync := i.spiSclkIn
        csNAsync := i.spiCsNIn
        mosiAsync := i.spiMosiIn
        frameData := s.spiFrameDataMux p
        faultFlipMask := 0
        faultEnable := false }
    dioEventArm := false
    dioEventTimestamp := 0
    dioEventMask := 0
    dioEventValue := 0
    dioSafeValue := 0
    dioForceSafe := !s.outputsEnabled }

/-- The calibration vectors of dac_eval_pattern_generator. -/
def dacPattern (select : BitVec 2) : Sample :=
  if select = 0b00 then ⟨0x0CCD, 0x547B, 0x9999, 0xA8F5⟩
  else if select = 0b01 then ⟨0x547B, 0x9999, 0xA8F5, 0x0CCD⟩
  else if select = 0b10 then ⟨0x9999, 0xA8F5, 0x0CCD, 0x547B⟩
  else ⟨0xA8F5, 0x0CCD, 0x547B, 0x9999⟩

def Top.plantCodes : Sample :=
  { ch0 := Loop.currentCode p.plant s.plant.currents.u
    ch1 := Loop.currentCode p.plant s.plant.currents.v
    ch2 := Loop.currentCode p.plant s.plant.currents.w
    ch3 := Loop.vbusCode p.plant }

def Top.dacInput : DacInput :=
  { enable := s.hilEnable
    forceSafe := s.forceSafe
    code := if s.testPatternEnable then dacPattern s.dacPatternSelect else s.plantCodes p
    sampleValid := s.dacSubmitPending && s.outputsEnabled }

/-- The assignments to dac_submit_pending, the last one that applies winning. -/
def Top.submitPendingNext : Bool :=
  if s.dac.accepts (s.dacInput p) then false
  else if s.outputsEnabled && !s.outputsEnabledD then true
  else if s.plantUpdate && !s.testPatternEnable then true
  else if s.dacPatternSelect != s.dacPatternSeen then true
  else if !s.outputsEnabled then true
  else s.dacSubmitPending

def Top.step (i : TopInput) : Top :=
  { controlSync := s.controlSync.step (controlBus i)
    core := s.core.step p.encoderCountsPerRev (s.coreInput p i)
    plant := s.plant.step p.plant s.loopInput
    dac := s.dac.step p.dac (s.dacInput p)
    dacSubmitPending := s.submitPendingNext p
    dacPatternSeen := s.dacPatternSelect
    outputsEnabledD := s.outputsEnabled
    pwmSeenLatched :=
      if s.clearFaults then false
      else if s.core.pwmMeasurementValid != 0 then true
      else s.pwmSeenLatched }

end HilLab.Boards.Axu2cgbHilTop
