import HilLab.Host.Core
import HilLab.Lib.Effect
import HilLab.Rtl.AxiMaster
import Mathlib.Data.Nat.Bits

namespace HilLab.Host.Uio

open Host.Core Lib.Effect Rtl.AxiMaster Rtl.ControlPlane

namespace Reg

def mapSize : Nat := 0x1000
def timestampLo : Nat := 0x018
def timestampHi : Nat := 0x01C
def control : Nat := 0x020
def abzStep : Nat := 0x028
def status : Nat := 0x030
def pwmSeq : Nat := 0x034
def pwmBase : Nat := 0x040
def pwmStride : Nat := 0x10
def pwmValid : Nat := 0x06C
def pwmFaults : Nat := 0x070
def evtTsLo : Nat := 0x100
def evtTsHi : Nat := 0x104
def evtMask : Nat := 0x108
def evtValue : Nat := 0x10C
def evtId : Nat := 0x110
def evtPush : Nat := 0x114
def evtStatus : Nat := 0x118
def ctrlHilEnable : Nat := 1 <<< 0
def ctrlForceSafe : Nat := 1 <<< 1
def ctrlClearFaults : Nat := 1 <<< 2
def ctrlAbzEnable : Nat := 1 <<< 3
def ctrlAbzDirectionForward : Nat := 1 <<< 4
def evtStatusFull : Nat := 1 <<< 1
def evtStatusOverflow : Nat := 1 <<< 2
def evtStatusOrderError : Nat := 1 <<< 3

end Reg

def without (value mask : Nat) : Nat := Nat.ldiff value mask

/-- The keyword arguments of configure_abz that its body looks up. -/
structure AbzConfig where
  transitionTicks : Option Int
  stepPeriodTicks : Option Int
  initialPhase : Option Int
  indexInterval : Option Int
  indexIntervalEdges : Option Int
  directionForward : Option Bool
  direction : Option String

def AbzConfig.ticks (c : AbzConfig) : Int :=
  c.transitionTicks.getD (c.stepPeriodTicks.getD 0)

def AbzConfig.forward (c : AbzConfig) : Bool :=
  c.directionForward.getD (c.direction.getD "forward" != "reverse")

def AbzConfig.check (c : AbzConfig) : Except HostError Unit :=
  if c.ticks ≤ 0 then .error (.invalidConfiguration "ABZ transition_ticks must be > 0")
  else if c.initialPhase.getD 0 ≠ 0 then
    .error (.invalidConfiguration "AXI digital core v1 supports initial_phase=0 only")
  else if c.indexInterval.getD (c.indexIntervalEdges.getD 0) ≠ 0 then
    .error (.invalidConfiguration "AXI digital core v1 has compile-time index period only")
  else .ok ()

/-- Mmio32, over the state of whatever the window shows. -/
structure Mmio32 (σ : Type) where
  read32 : Nat → Eff σ HostError Nat
  write32 : Nat → Nat → Eff σ HostError Unit

namespace ZynqTransport

variable {σ : Type} (mmio : Mmio32 σ)

section Operations

def updateControl (change : Nat → Nat) : Eff σ HostError Unit := do
  let value ← mmio.read32 Reg.control
  mmio.write32 Reg.control (change value)

def forceSafe (asserted : Bool) : Eff σ HostError Unit :=
  updateControl mmio (fun value =>
    if asserted then value ||| Reg.ctrlForceSafe else without value Reg.ctrlForceSafe)

def configureAbz (c : AbzConfig) : Eff σ HostError Unit := do
  liftExcept c.check
  mmio.write32 Reg.abzStep c.ticks.toNat
  updateControl mmio (fun value =>
    if c.forward then value ||| Reg.ctrlAbzDirectionForward
    else without value Reg.ctrlAbzDirectionForward)

def startAbz : Eff σ HostError Unit :=
  updateControl mmio (fun value =>
    without (value ||| Reg.ctrlHilEnable ||| Reg.ctrlAbzEnable) Reg.ctrlForceSafe)

def stopAbz : Eff σ HostError Unit :=
  updateControl mmio (fun value => without value Reg.ctrlAbzEnable)

def clearFaults : Eff σ HostError Unit :=
  updateControl mmio (fun value => value ||| Reg.ctrlClearFaults)

def scheduleDio (event : DioEvent) : Eff σ HostError Unit := do
  let status ← mmio.read32 Reg.evtStatus
  if status &&& Reg.evtStatusFull ≠ 0 then
    throw (.infrastructure "HIL AXI event FIFO is full")
  else
    mmio.write32 Reg.evtTsLo (event.targetTicks &&& 0xFFFFFFFF)
    mmio.write32 Reg.evtTsHi ((event.targetTicks >>> 32) &&& 0xFFFFFFFF)
    mmio.write32 Reg.evtMask event.mask
    mmio.write32 Reg.evtValue event.value
    mmio.write32 Reg.evtId event.eventId
    mmio.write32 Reg.evtPush 1

def readPwm (channel : Int) : Eff σ HostError PwmMeasurement :=
  if ¬ (0 ≤ channel ∧ channel < 3) then
    throw (.invalidConfiguration "Zynq AXI PWM channel must be 0..2")
  else do
    let base := Reg.pwmBase + channel.toNat * Reg.pwmStride
    let validBits ← mmio.read32 Reg.pwmValid
    let sequence ← mmio.read32 Reg.pwmSeq
    let periodTicks ← mmio.read32 (base + 0x0)
    let highTicks ← mmio.read32 (base + 0x4)
    let lowTicks ← mmio.read32 (base + 0x8)
    pure
      { channel, sequence, periodTicks, highTicks, lowTicks
        valid := validBits &&& (1 <<< channel.toNat) ≠ 0
        overflow := false }

def readTimestampRounds (tickHz : Nat) : Nat → Eff σ HostError Timestamp
  | 0 => throw (.infrastructure "could not obtain stable 64-bit AXI timestamp")
  | n + 1 => do
      let hi0 ← mmio.read32 Reg.timestampHi
      let lo ← mmio.read32 Reg.timestampLo
      let hi1 ← mmio.read32 Reg.timestampHi
      if hi0 = hi1 then
        liftExcept (Timestamp.make ((hi0 <<< 32 ||| lo : Nat) : Int) tickHz 64)
      else readTimestampRounds tickHz n

def readTimestamp (tickHz : Nat) : Eff σ HostError Timestamp := readTimestampRounds mmio tickHz 8

structure Health where
  control : Nat
  status : Nat
  eventStatus : Nat
  eventQueueLevel : Nat
  eventQueueFull : Bool
  eventQueueOverflow : Bool
  eventQueueOrderError : Bool
  pwmFaultFlags : Nat

def health : Eff σ HostError Health := do
  let status ← mmio.read32 Reg.status
  let eventStatus ← mmio.read32 Reg.evtStatus
  let control ← mmio.read32 Reg.control
  let pwmFaults ← mmio.read32 Reg.pwmFaults
  pure
    { control, status, eventStatus
      eventQueueLevel := (eventStatus >>> 8) &&& 0xFFFF
      eventQueueFull := eventStatus &&& Reg.evtStatusFull ≠ 0
      eventQueueOverflow := eventStatus &&& Reg.evtStatusOverflow ≠ 0
      eventQueueOrderError := eventStatus &&& Reg.evtStatusOrderError ≠ 0
      pwmFaultFlags := pwmFaults &&& 0x3F }

end Operations

section Keeping

variable {mmio : Mmio32 σ} {P : σ → Prop} (hread : ∀ offset, Preserves P (mmio.read32 offset))

include hread

theorem preserves_bind_read {α : Type} {k : Nat → Eff σ HostError α} (offset : Nat)
    (hk : ∀ v, Preserves P (k v)) : Preserves P (mmio.read32 offset >>= k) :=
  preserves_bind (hread offset) hk

theorem preserves_readTimestampRounds (tickHz n : Nat) :
    Preserves P (readTimestampRounds mmio tickHz n) := by
  induction n with
  | zero => exact preserves_throw _
  | succ n ih =>
      refine preserves_bind_read hread _ (fun hi0 => preserves_bind_read hread _ (fun lo =>
        preserves_bind_read hread _ (fun hi1 => ?_)))
      split
      · exact preserves_liftExcept _
      · exact ih

theorem preserves_readPwm (channel : Int) : Preserves P (readPwm mmio channel) := by
  rw [readPwm]
  split
  · exact preserves_throw _
  · exact preserves_bind_read hread _ (fun _ => preserves_bind_read hread _ (fun _ =>
      preserves_bind_read hread _ (fun _ => preserves_bind_read hread _ (fun _ =>
        preserves_bind_read hread _ (fun _ _ h => h)))))

theorem preserves_health : Preserves P (health mmio) :=
  preserves_bind_read hread _ (fun _ => preserves_bind_read hread _ (fun _ =>
    preserves_bind_read hread _ (fun _ => preserves_bind_read hread _ (fun _ _ h => h))))

theorem preserves_updateControl {change : Nat → Nat}
    (hwrite : ∀ value, Preserves P (mmio.write32 Reg.control value)) :
    Preserves P (updateControl mmio change) :=
  preserves_bind_read hread _ (fun _ => hwrite _)

theorem preserves_configureAbz {config : AbzConfig}
    (hstep : ∀ value, Preserves P (mmio.write32 Reg.abzStep value))
    (hcontrol : ∀ value, Preserves P (mmio.write32 Reg.control value)) :
    Preserves P (configureAbz mmio config) :=
  preserves_bind (preserves_liftExcept _) (fun _ => preserves_bind (hstep _) (fun _ =>
    preserves_updateControl hread hcontrol))

def eventRegs : List Nat :=
  [Reg.evtTsLo, Reg.evtTsHi, Reg.evtMask, Reg.evtValue, Reg.evtId, Reg.evtPush]

theorem preserves_scheduleDio (event : DioEvent)
    (hwrite : ∀ offset ∈ eventRegs, ∀ value, Preserves P (mmio.write32 offset value)) :
    Preserves P (scheduleDio mmio event) := by
  refine preserves_bind_read hread _ (fun status => ?_)
  split
  · exact preserves_throw _
  · refine preserves_bind (hwrite _ ?_ _) (fun _ => preserves_bind (hwrite _ ?_ _) (fun _ =>
      preserves_bind (hwrite _ ?_ _) (fun _ => preserves_bind (hwrite _ ?_ _) (fun _ =>
        preserves_bind (hwrite _ ?_ _) (fun _ => hwrite _ ?_ _)))))
    all_goals decide

end Keeping

end ZynqTransport

/-- The mapped register window; open refuses a map smaller than it. -/
structure UioMmio where
  mapped : Nat
  covers : Reg.mapSize ≤ mapped

def UioMmio.check (m : UioMmio) (offset : Nat) : Except HostError Unit :=
  if m.mapped < offset + 4 ∨ offset &&& 3 ≠ 0 then
    .error (.valueError s!"invalid MMIO offset 0x{hexPad 0 offset}")
  else .ok ()

section Transport

variable {D W I : Nat} (p : Identity) (env : Env)

def UioMmio.read32 (m : UioMmio) (offset : Nat) : Eff (Bus D W I) HostError Nat := do
  liftExcept (m.check offset)
  let bus ← get
  let (data, bus) := bus.read32 p env (BitVec.ofNat 12 offset)
  set bus
  pure data.toNat

def UioMmio.write32 (m : UioMmio) (offset value : Nat) : Eff (Bus D W I) HostError Unit := do
  liftExcept (m.check offset)
  modify (fun bus =>
    bus.write32 p env (BitVec.ofNat 12 offset) (BitVec.ofNat 32 (value &&& 0xFFFFFFFF)))

abbrev UioMmio.window (m : UioMmio) : Mmio32 (Bus D W I) := ⟨m.read32 p env, m.write32 p env⟩

variable (m : UioMmio)

def updateControl (change : Nat → Nat) : Eff (Bus D W I) HostError Unit :=
  ZynqTransport.updateControl (m.window p env) change

def forceSafe (asserted : Bool) : Eff (Bus D W I) HostError Unit :=
  ZynqTransport.forceSafe (m.window p env) asserted

def configureAbz (c : AbzConfig) : Eff (Bus D W I) HostError Unit :=
  ZynqTransport.configureAbz (m.window p env) c

def startAbz : Eff (Bus D W I) HostError Unit := ZynqTransport.startAbz (m.window p env)
def stopAbz : Eff (Bus D W I) HostError Unit := ZynqTransport.stopAbz (m.window p env)
def clearFaults : Eff (Bus D W I) HostError Unit := ZynqTransport.clearFaults (m.window p env)

def scheduleDio (event : DioEvent) : Eff (Bus D W I) HostError Unit :=
  ZynqTransport.scheduleDio (m.window p env) event

def readPwm (channel : Int) : Eff (Bus D W I) HostError PwmMeasurement :=
  ZynqTransport.readPwm (m.window p env) channel

theorem check_ok {offset : Nat} (h : offset + 4 ≤ Reg.mapSize)
    (ha : offset &&& 3 = 0) : m.check offset = .ok () := by
  have hc := m.covers
  have hlt : ¬ m.mapped < offset + 4 := by omega
  simp [UioMmio.check, hlt, ha]

theorem exec_read32 {offset : Nat} {addr : BitVec 12} (h : offset + 4 ≤ Reg.mapSize)
    (ha : offset &&& 3 = 0) (ho : BitVec.ofNat 12 offset = addr) (s : Bus D W I) :
    exec (m.read32 p env offset) s = (.ok (s.read32 p env addr).1.toNat, (s.read32 p env addr).2) := by
  rw [UioMmio.read32]
  rw [check_ok m h ha, ho]
  rfl

theorem word_mask (n : Nat) : BitVec.ofNat 32 (n &&& 0xFFFFFFFF) = BitVec.ofNat 32 n := by
  apply BitVec.eq_of_toNat_eq
  have hm : n &&& 0xFFFFFFFF = n % 2 ^ 32 := Nat.and_two_pow_sub_one_eq_mod n 32
  rw [hm, BitVec.toNat_ofNat, BitVec.toNat_ofNat, Nat.mod_mod]

theorem exec_write32 {offset : Nat} {addr : BitVec 12} (h : offset + 4 ≤ Reg.mapSize)
    (ha : offset &&& 3 = 0) (ho : BitVec.ofNat 12 offset = addr) (value : Nat) (s : Bus D W I) :
    exec (m.write32 p env offset value) s = (.ok (), s.write32 p env addr (BitVec.ofNat 32 value)) := by
  rw [UioMmio.write32]
  rw [check_ok m h ha, word_mask, ho]
  rfl

theorem exec_updateControl (change : Nat → Nat) (s : Bus D W I) :
    exec (updateControl p env m change) s =
      (.ok (), (s.read32 p env regControl).2.write32 p env regControl
        (BitVec.ofNat 32 (change (s.read32 p env regControl).1.toNat))) := by
  rw [updateControl, ZynqTransport.updateControl]
  rw [exec_bind_ok (exec_read32 p env m (by decide) (by decide) rfl s)]
  exact exec_write32 p env m (by decide) (by decide) rfl _ _

end Transport

end HilLab.Host.Uio
