import HilLab.Rtl.DigitalCore

namespace HilLab.Rtl.HilDigitalCore

open DigitalCore (perPhase flags)
open DioEventScheduler Generators PwmCapture

variable {F W : Nat}

structure HilInput (F W : Nat) where
  pwmHigh : BitVec 3
  pwmLow : BitVec 3
  minDeadtimeTicks : BitVec 32
  clearPwmFaults : Bool
  encoder : AbzInput
  spi : SpiInput F
  dioEventArm : Bool
  dioEventTimestamp : BitVec 64
  dioEventMask : BitVec W
  dioEventValue : BitVec W
  dioSafeValue : BitVec W
  dioForceSafe : Bool

/-- The registers of hil_digital_core, by instance. -/
structure HilCore (F W : Nat) where
  timestamp : BitVec 64
  capture : Fin 3 → Capture
  monitor : Fin 3 → Monitor
  abz : AbzEncoder
  spi : SpiEncoder F
  dio : Scheduler W

def HilCore.reset : HilCore F W :=
  { timestamp := 0, capture := fun _ => .reset, monitor := fun _ => .reset, abz := .reset,
    spi := .reset, dio := .reset }

def HilCore.dioInput (s : HilCore F W) (i : HilInput F W) : SchedulerInput W :=
  { timestamp := s.timestamp
    arm := i.dioEventArm
    targetTimestamp := i.dioEventTimestamp
    eventMask := i.dioEventMask
    eventValue := i.dioEventValue
    safeValue := i.dioSafeValue
    forceSafe := i.dioForceSafe }

def HilCore.monitorInput (s : HilCore F W) (i : HilInput F W) (k : Fin 3) : MonitorInput :=
  { highAsync := i.pwmHigh.getLsbD k
    lowAsync := i.pwmLow.getLsbD k
    timestamp := s.timestamp
    minDeadtimeTicks := i.minDeadtimeTicks
    clearFaults := i.clearPwmFaults }

def HilCore.step (countsPerRev : Nat) (s : HilCore F W) (i : HilInput F W) : HilCore F W :=
  { timestamp := Common.timebaseStep s.timestamp
    capture := fun k => (s.capture k).step (i.pwmHigh.getLsbD k) s.timestamp
    monitor := fun k => (s.monitor k).step (s.monitorInput i k)
    abz := s.abz.step countsPerRev i.encoder
    spi := s.spi.step i.spi
    dio := s.dio.step (s.dioInput i) }

def HilCore.pwmPeriodTicks (s : HilCore F W) : BitVec 96 :=
  perPhase (fun k => (s.capture k).periodTicks)

def HilCore.pwmHighTicks (s : HilCore F W) : BitVec 96 :=
  perPhase (fun k => (s.capture k).highTicks)

def HilCore.pwmMeasurementValid (s : HilCore F W) : BitVec 3 :=
  flags (fun k => (s.capture k).periodValid)

theorem extract_perPhase (f : Fin 3 → BitVec 32) (k : Fin 3) :
    (perPhase f).extractLsb' (32 * k) 32 = f k := by
  rw [perPhase]
  match k with
  | 0 => exact (BitVec.extractLsb'_append_eq_of_add_le (by decide)).trans BitVec.extractLsb'_eq_self
  | 1 =>
      refine (BitVec.extractLsb'_append_eq_of_le (by decide)).trans ?_
      exact (BitVec.extractLsb'_append_eq_of_add_le (by decide)).trans BitVec.extractLsb'_eq_self
  | 2 =>
      refine (BitVec.extractLsb'_append_eq_of_le (by decide)).trans ?_
      exact (BitVec.extractLsb'_append_eq_of_le (by decide)).trans BitVec.extractLsb'_eq_self

theorem getLsbD_flags (f : Fin 3 → Bool) (k : Fin 3) : (flags f).getLsbD k = f k := by
  have hall : ∀ a b c : Bool, (BitVec.ofBool c ++ BitVec.ofBool b ++ BitVec.ofBool a).getLsbD 0 = a ∧
      (BitVec.ofBool c ++ BitVec.ofBool b ++ BitVec.ofBool a).getLsbD 1 = b ∧
      (BitVec.ofBool c ++ BitVec.ofBool b ++ BitVec.ofBool a).getLsbD 2 = c := by decide
  obtain ⟨hu, hv, hw⟩ := hall (f 0) (f 1) (f 2)
  match k with
  | 0 => exact hu
  | 1 => exact hv
  | 2 => exact hw

end HilLab.Rtl.HilDigitalCore
