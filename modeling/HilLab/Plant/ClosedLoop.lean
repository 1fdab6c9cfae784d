import HilLab.Plant.PhaseAccumulator
import HilLab.Plant.Transforms
import HilLab.Rtl.Common

namespace HilLab.Plant.ClosedLoop

open PhaseAccumulator PmsmDqPlant Transforms

/-- The inputs of pmsm_closed_loop_hil_q16 that its instance ties off. -/
structure LoopParams where
  coefficients : Coefficients
  vbusQ16 : BitVec 32
  loadTorqueQ16 : BitVec 32
  kRadToTurnQ32 : BitVec 32
  currentGainQ16 : BitVec 32
  currentOffsetCode : BitVec 16
  vbusGainQ16 : BitVec 32
  vbusOffsetCode : BitVec 16
  currentLimitQ16 : BitVec 32
  speedLimitQ16 : BitVec 32

structure LoopInput where
  clearFaults : Bool
  modelUpdate : Bool
  pwmPeriodTicks : BitVec 96
  pwmHighTicks : BitVec 96
  pwmValid : BitVec 3

structure Loop where
  angles : Angles
  plant : Pmsm
  stateLimitLatched : Bool

def Loop.reset : Loop := { angles := .reset, plant := .reset, stateLimitLatched := false }

def phaseWord (bus : BitVec 96) (k : Fin 3) : BitVec 32 := bus.extractLsb' (32 * k) 32

def LoopInput.dutyQ16 (i : LoopInput) (k : Fin 3) : BitVec 32 :=
  pwmTicksToDutyQ16 (phaseWord i.pwmPeriodTicks k) (phaseWord i.pwmHighTicks k)
    (i.pwmValid.getLsbD k)

variable (p : LoopParams) (s : Loop)

def Loop.phaseVoltages (i : LoopInput) : Phases :=
  averagedInverterAbcQ16 ⟨i.dutyQ16 0, i.dutyQ16 1, i.dutyQ16 2⟩ p.vbusQ16

def Loop.sinCos : SinCos := sincosLutQ16 s.angles.electricalPhaseQ32

def Loop.voltage (i : LoopInput) : DirectQuadrature :=
  parkAlphabetaQ16 (clarkeAbcQ16 (Loop.phaseVoltages p i)) s.sinCos

def Loop.plantInput (i : LoopInput) : PlantInput :=
  { updateEn := i.modelUpdate
    vdQ16 := (s.voltage p i).d
    vqQ16 := (s.voltage p i).q
    loadTorqueQ16 := p.loadTorqueQ16 }

def Loop.angleInput (i : LoopInput) : AngleInput :=
  { clearFaults := i.clearFaults, modelUpdate := i.modelUpdate, omegaMQ16 := s.plant.omegaMQ16 }

def Loop.step (i : LoopInput) : Loop :=
  { angles := s.angles.step p.coefficients.polePairs p.kRadToTurnQ32 (s.angleInput i)
    plant := s.plant.step p.coefficients (s.plantInput p i)
    stateLimitLatched :=
      if i.clearFaults then false
      else if i.modelUpdate && s.plant.overLimit p.currentLimitQ16 p.speedLimitQ16 then true
      else s.stateLimitLatched }

def Loop.currents : Phases :=
  inverseClarkeQ16 (inverseParkQ16 ⟨s.plant.idQ16, s.plant.iqQ16⟩ s.sinCos)

def Loop.currentCode (signalQ16 : BitVec 32) : BitVec 16 :=
  q16ToDacCode signalQ16 p.currentGainQ16 p.currentOffsetCode

def Loop.vbusCode : BitVec 16 := q16ToDacCode p.vbusQ16 p.vbusGainQ16 p.vbusOffsetCode

end HilLab.Plant.ClosedLoop
