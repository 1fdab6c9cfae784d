import HilLab.Rtl.ControlPlane
import HilLab.Rtl.DioEventScheduler
import HilLab.Rtl.Generators
import HilLab.Rtl.PwmCapture

namespace HilLab.Rtl.DigitalCore

open ControlPlane DioEventScheduler Generators PwmCapture

/-- The default queue depth, counts per revolution and tick rate: the AXI core
leaves these parameters of its instances alone. -/
def eventDepth : Nat := 64
def encoderCountsPerRev : Nat := 4096
def tickHz : BitVec 32 := 100000000

structure Params (F : Nat) where
  backendId : BitVec 32
  buildId : BitVec 32
  capabilities : BitVec 32
  spiFrameData : BitVec F

def Params.identity {F : Nat} (p : Params F) : Identity :=
  { backendId := p.backendId, capabilities := p.capabilities, tickHz := tickHz,
    buildId := p.buildId }

def idleAxi : AxiInput :=
  { awaddr := 0, awvalid := false, wdata := 0, wstrb := 0, wvalid := false, bready := true,
    araddr := 0, arvalid := false, rready := true }

structure CoreInput where
  externalForceSafe : Bool
  axi : AxiInput
  pwmHighIn : BitVec 3
  pwmLowIn : BitVec 3
  spiSclkIn : Bool
  spiCsNIn : Bool
  spiMosiIn : Bool

/-- The registers of hil_axi_digital_core, by instance. -/
structure Core (F W : Nat) where
  timestamp : BitVec 64
  capture : Fin 3 → Capture
  monitor : Fin 3 → Monitor
  abz : AbzEncoder
  spi : SpiEncoder F
  dio : Scheduler W
  control : Plane eventDepth W 16

variable {F W : Nat}

def Core.reset (mem : Nat → EventFifo.Event W 16) : Core F W :=
  { timestamp := 0, capture := fun _ => .reset, monitor := fun _ => .reset, abz := .reset,
    spi := .reset, dio := .reset, control := .reset mem }

def perPhase (f : Fin 3 → BitVec 32) : BitVec 96 := f 2 ++ f 1 ++ f 0

def flags (f : Fin 3 → Bool) : BitVec 3 :=
  BitVec.ofBool (f 2) ++ BitVec.ofBool (f 1) ++ BitVec.ofBool (f 0)

def Core.plantInput (s : Core F W) (i : CoreInput) : PlantInput :=
  { externalForceSafe := i.externalForceSafe
    timestamp := s.timestamp
    pwmPeriodTicks := perPhase (fun k => (s.capture k).periodTicks)
    pwmHighTicks := perPhase (fun k => (s.capture k).highTicks)
    pwmLowTicks := perPhase (fun k => (s.capture k).lowTicks)
    pwmMeasurementValid := flags (fun k => (s.capture k).periodValid)
    pwmFaultFlags :=
      flags (fun k => (s.monitor k).deadtimeViolationLatched) ++
        flags (fun k => (s.monitor k).shootThroughLatched)
    encoderPositionEdges := s.abz.positionEdges
    dioEventArmed := s.dio.armed
    dioEventDonePulse := s.dio.eventDonePulse }

def Core.cfgForceSafe (s : Core F W) (i : CoreInput) : Bool := s.control.cfgForceSafe (s.plantInput i)

def Core.hilActive (s : Core F W) (i : CoreInput) : Bool :=
  s.control.config.hilEnable && !s.cfgForceSafe i

def Core.abzInput (s : Core F W) (i : CoreInput) : AbzInput :=
  { enable := s.hilActive i && s.control.config.abzEnable
    directionForward := s.control.config.abzDirectionForward
    stepPeriodTicks := s.control.config.abzStepPeriodTicks }

def spiInput (p : Params F) (i : CoreInput) : SpiInput F :=
  { sclkAsync := i.spiSclkIn, csNAsync := i.spiCsNIn, mosiAsync := i.spiMosiIn,
    frameData := p.spiFrameData, faultFlipMask := 0, faultEnable := false }

def Core.dioInput (s : Core F W) (i : CoreInput) : SchedulerInput W :=
  { timestamp := s.timestamp
    arm := s.control.dispatch.armPulse
    targetTimestamp := s.control.dispatch.event.timestamp
    eventMask := s.control.dispatch.event.mask
    eventValue := s.control.dispatch.event.value
    safeValue := 0
    forceSafe := !s.hilActive i }

def Core.monitorInput (s : Core F W) (i : CoreInput) (k : Fin 3) : MonitorInput :=
  { highAsync := i.pwmHighIn.getLsbD k
    lowAsync := i.pwmLowIn.getLsbD k
    timestamp := s.timestamp
    minDeadtimeTicks := s.control.config.minDeadtimeTicks
    clearFaults := s.control.config.clearFaultsPulse }

/-- One clock of every instance on the wires of the others. -/
def Core.step (p : Params F) (s : Core F W) (i : CoreInput) : Core F W :=
  { timestamp := Common.timebaseStep s.timestamp
    capture := fun k => (s.capture k).step (i.pwmHighIn.getLsbD k) s.timestamp
    monitor := fun k => (s.monitor k).step (s.monitorInput i k)
    abz := s.abz.step encoderCountsPerRev (s.abzInput i)
    spi := s.spi.step (spiInput p i)
    dio := s.dio.step (s.dioInput i)
    control := s.control.step p.identity ⟨i.axi, s.plantInput i⟩ }

def CoreInput.quiet : CoreInput :=
  { externalForceSafe := false, axi := idleAxi, pwmHighIn := 0, pwmLowIn := 0, spiSclkIn := false,
    spiCsNIn := true, spiMosiIn := false }

/-- A bus master that writes whole words, one every second cycle. -/
def writeWave (writes : List (BitVec 12 × BitVec 32)) (n : Nat) : CoreInput :=
  if n % 2 = 0 then
    match writes[n / 2]? with
    | some (addr, data) =>
        { CoreInput.quiet with
          axi := { idleAxi with
            awaddr := addr, awvalid := true, wdata := data, wstrb := 0xF, wvalid := true } }
    | none => CoreInput.quiet
  else CoreInput.quiet

end HilLab.Rtl.DigitalCore
