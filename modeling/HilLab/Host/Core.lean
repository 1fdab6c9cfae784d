import Mathlib.Data.Nat.Notation

namespace HilLab.Host.Core

/-- The format specification 0{width}x; a width of 0 pads nothing. -/
def hexPad (width n : Nat) : String := String.ofList (List.leftpad width '0' (Nat.toDigits 16 n))

inductive Capability
  | timebase | forceSafe | pwmCapture | pwmGenerator | pwmComplementaryMonitor
  | abzGenerator | abzCapture | ssiSensorEmulator | ssiSensorCapture | bissSensorEmulator
  | spiSensorEmulator | dioScheduler | faultInjection | dacFeedback | pmsmPlantLite | pmsmPlant
  | dualInertiaPlant
deriving DecidableEq, Repr

def Capability.value : Capability → String
  | .timebase => "timebase"
  | .forceSafe => "force_safe"
  | .pwmCapture => "pwm_capture"
  | .pwmGenerator => "pwm_generator"
  | .pwmComplementaryMonitor => "pwm_complementary_monitor"
  | .abzGenerator => "abz_generator"
  | .abzCapture => "abz_capture"
  | .ssiSensorEmulator => "ssi_sensor_emulator"
  | .ssiSensorCapture => "ssi_sensor_capture"
  | .bissSensorEmulator => "biss_sensor_emulator"
  | .spiSensorEmulator => "spi_sensor_emulator"
  | .dioScheduler => "dio_scheduler"
  | .faultInjection => "fault_injection"
  | .dacFeedback => "dac_feedback"
  | .pmsmPlantLite => "pmsm_plant_lite"
  | .pmsmPlant => "pmsm_plant"
  | .dualInertiaPlant => "dual_inertia_plant"

/-- The exceptions the host code raises, by Python class. -/
inductive HostError
  | valueError (message : String)
  | structError (message : String)
  | osError (message : String)
  | timeoutError (message : String)
  | runtimeError (message : String)
  | unsupportedCapability (capability : Capability)
  | infrastructure (message : String)
  | invalidConfiguration (message : String)
deriving DecidableEq, Repr

def HostError.str : HostError → String
  | .unsupportedCapability c => s!"backend does not support capability: {c.value}"
  | .valueError m | .structError m | .osError m | .timeoutError m | .runtimeError m
  | .infrastructure m | .invalidConfiguration m => m

/-- REQUIRED_BACKEND_CAPABILITIES, in the order of their names. -/
def requiredBackendCapabilities : List Capability := [.forceSafe, .timebase]

/-- HilBackend.validate_contract on a set of capabilities. -/
def validateContract (capabilities : List Capability) : Except HostError Unit :=
  let missing := requiredBackendCapabilities.filter (fun c => c ∉ capabilities)
  let names := ", ".intercalate (missing.map Capability.value)
  if missing = [] then .ok ()
  else .error (.invalidConfiguration s!"backend missing required capabilities: {names}")

def require (capabilities : List Capability) (c : Capability) : Except HostError Unit :=
  if c ∈ capabilities then .ok () else .error (.unsupportedCapability c)

theorem require_of_contract {capabilities : List Capability}
    (h : validateContract capabilities = .ok ()) {c : Capability}
    (hc : c ∈ requiredBackendCapabilities) : require capabilities c = .ok () := by
  by_cases hmem : c ∈ capabilities
  · exact if_pos hmem
  · have hmissing : c ∈ requiredBackendCapabilities.filter (fun c => c ∉ capabilities) :=
      List.mem_filter.mpr ⟨hc, decide_eq_true hmem⟩
    have hne := List.ne_nil_of_mem hmissing
    rw [validateContract, if_neg hne] at h
    cases h

structure PwmMeasurement where
  channel : Int
  sequence : Nat
  periodTicks : Nat
  highTicks : Nat
  lowTicks : Nat
  valid : Bool
  overflow : Bool

structure Timestamp where
  ticks : Nat
  tickHz : Nat
  counterBits : Nat
  tickHz_pos : 0 < tickHz
  counterBits_pos : 0 < counterBits

theorem toNat_pos {n : Int} (h : ¬ n ≤ 0) : 0 < n.toNat := by omega

/-- Timestamp with the checks of its __post_init__. -/
def Timestamp.make (ticks tickHz counterBits : Int) : Except HostError Timestamp :=
  if ticks < 0 then .error (.valueError "ticks must be non-negative")
  else if hz : tickHz ≤ 0 then .error (.valueError "tick_hz must be positive")
  else if hb : counterBits ≤ 0 then .error (.valueError "counter_bits must be positive")
  else .ok ⟨ticks.toNat, tickHz.toNat, counterBits.toNat, toNat_pos hz, toNat_pos hb⟩

/-- A DioEvent; its constructor refuses negative fields, and Python's integers
have no upper bound. -/
structure DioEvent where
  eventId : Nat
  targetTicks : Nat
  mask : Nat
  value : Nat
deriving DecidableEq, Repr

end HilLab.Host.Core
