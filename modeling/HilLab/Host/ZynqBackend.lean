import HilLab.Host.PruProtocol
import HilLab.Host.Timeline

namespace HilLab.Host.ZynqBackend

open Host.Core Uio ZynqTransport Timeline PruProtocol Lib.Effect Lib.Clocked Rtl.EventFifo
open Rtl.ControlPlane Rtl.AxiMaster Rtl.DigitalCore Rtl.CoreMaster ControlFrame

namespace RegisterMap

def magic : Nat := 0x48494C32
def abiVersion : Nat := 0x00010000

def regMagic : Nat := 0x000
def regAbiVersion : Nat := 0x004
def regBackendId : Nat := 0x008
def regCapabilities : Nat := 0x00C
def regTickHz : Nat := 0x010
def regCounterBits : Nat := 0x014
def regBuildId : Nat := 0x02C

def backendIdAx7010 : Nat := 0x00007010
def backendIdAxu2cgb : Nat := 0x0002C600

def backendTypes : List (Nat × String) :=
  [(backendIdAx7010, "zynq7010_ax7010"), (backendIdAxu2cgb, "zu2cg_axu2cgb")]

def capabilityBits : List (Capability × Nat) :=
  [(.timebase, 0), (.forceSafe, 1), (.pwmCapture, 2), (.pwmGenerator, 3),
    (.pwmComplementaryMonitor, 4), (.abzGenerator, 5), (.abzCapture, 6), (.ssiSensorEmulator, 7),
    (.ssiSensorCapture, 8), (.bissSensorEmulator, 9), (.spiSensorEmulator, 10),
    (.dioScheduler, 11), (.faultInjection, 12), (.dacFeedback, 13), (.pmsmPlantLite, 14),
    (.pmsmPlant, 15), (.dualInertiaPlant, 16)]

def decodeCapabilities (bits : Nat) : List Capability :=
  (capabilityBits.filter (fun entry => bits &&& (1 <<< entry.2) ≠ 0)).map Prod.fst

end RegisterMap

def apiVersion : String := "0.1"

/-- A BackendIdentity passed the checks of its __post_init__. -/
structure BackendIdentity where
  backendType : String
  hardwareRevision : String
  firmwareRevision : String
  apiVersion : String
  capabilities : List Capability
  tickHz : Nat
  counterBits : Nat
  backendType_ne : backendType ≠ ""
  tickHz_pos : 0 < tickHz
  counterBits_pos : 0 < counterBits

def BackendIdentity.make (backendType hardwareRevision firmwareRevision : String)
    (capabilities : List Capability) (tickHz counterBits : Nat) :
    Except HostError BackendIdentity :=
  if ht : backendType = "" then .error (.valueError "backend_type must be non-empty")
  else if hz : tickHz = 0 then .error (.valueError "tick_hz must be positive")
  else if hb : counterBits = 0 then .error (.valueError "counter_bits must be positive")
  else .ok
    { backendType, hardwareRevision, firmwareRevision, apiVersion := ZynqBackend.apiVersion, capabilities,
      tickHz, counterBits, backendType_ne := ht, tickHz_pos := Nat.pos_of_ne_zero hz,
      counterBits_pos := Nat.pos_of_ne_zero hb }

def quoted (s : String) : String := "'" ++ s ++ "'"

section Handshake

variable {σ : Type} (mmio : Mmio32 σ)

def readIdentity (expectedBackendType : Option String) (hardwareRevision : String) :
    Eff σ HostError BackendIdentity := do
  let magic ← mmio.read32 RegisterMap.regMagic
  let abi ← mmio.read32 RegisterMap.regAbiVersion
  if magic ≠ RegisterMap.magic then
    throw (.infrastructure
      s!"HIL AXI magic 0x{hexPad 8 magic}, expected 0x{hexPad 8 RegisterMap.magic}")
  else if abi >>> 16 ≠ RegisterMap.abiVersion >>> 16 then
    throw (.infrastructure s!"incompatible HIL AXI ABI 0x{hexPad 8 abi}")
  else do
    let backendId ← mmio.read32 RegisterMap.regBackendId
    match RegisterMap.backendTypes.lookup backendId with
    | none => throw (.infrastructure s!"unknown HIL AXI backend id 0x{hexPad 8 backendId}")
    | some backendType =>
        match expectedBackendType.filter (fun expected => backendType ≠ expected) with
        | some expected =>
            throw (.invalidConfiguration
              s!"UIO backend {quoted backendType} does not match {quoted expected}")
        | none =>
            let tickHz ← mmio.read32 RegisterMap.regTickHz
            let counterBits ← mmio.read32 RegisterMap.regCounterBits
            if tickHz ≤ 0 ∨ counterBits ≠ 64 then
              throw (.infrastructure "invalid HIL AXI timestamp metadata")
            else do
              let capabilities ← mmio.read32 RegisterMap.regCapabilities
              let buildId ← mmio.read32 RegisterMap.regBuildId
              liftExcept (BackendIdentity.make backendType hardwareRevision
                s!"axi-build-0x{hexPad 8 buildId}" (RegisterMap.decodeCapabilities capabilities)
                tickHz counterBits)

/-- A backend that came out of its constructor: validate_contract passed. -/
structure Backend where
  identity : BackendIdentity
  contract : validateContract identity.capabilities = .ok ()

def Backend.make (expectedBackendTypes : List String) (identity : BackendIdentity) :
    Except HostError Backend :=
  let expected := ", ".intercalate (expectedBackendTypes.map quoted)
  if expectedBackendTypes ≠ [] ∧ identity.backendType ∉ expectedBackendTypes then
    .error (.invalidConfiguration
      s!"transport backend_type {quoted identity.backendType} does not match [{expected}]")
  else
    match h : validateContract identity.capabilities with
    | .error e => .error e
    | .ok () => .ok ⟨identity, h⟩

/-- The two classes of backends. -/
inductive BackendClass
  | axu2cgbBackend | ax7010Backend

def BackendClass.uioType : BackendClass → String
  | .axu2cgbBackend => "zu2cg_axu2cgb"
  | .ax7010Backend => "zynq7010_ax7010"

def BackendClass.expectedBackendTypes : BackendClass → List String
  | .axu2cgbBackend => ["zu2cg_axu2cgb", "zynq_axu2cgb"]
  | .ax7010Backend => ["zynq7010_ax7010", "zynq_ax7010"]

def openUio (cls : BackendClass) (hardwareRevision : String) : Eff σ HostError Backend := do
  let identity ← readIdentity mmio (some cls.uioType) hardwareRevision
  liftExcept (Backend.make cls.expectedBackendTypes identity)

end Handshake

section Methods

variable {σ : Type} (mmio : Mmio32 σ) (backend : Backend)

/-- What _call makes of an exception of the transport. -/
def Backend.wrap (method : String) : HostError → HostError
  | .invalidConfiguration message => .invalidConfiguration message
  | .infrastructure message => .infrastructure message
  | exc => .infrastructure s!"{backend.identity.backendType} transport {method} failed: {exc.str}"

def Backend.call {α : Type} (capability : Capability) (method : String)
    (handler : Eff σ HostError α) : Eff σ HostError α := do
  liftExcept (require backend.identity.capabilities capability)
  match ← attempt handler with
  | .ok value => pure value
  | .error exc => throw (backend.wrap method exc)

def Backend.readTimestamp : Eff σ HostError Timestamp := do
  let value ← backend.call .timebase "read_timestamp"
    (ZynqTransport.readTimestamp mmio backend.identity.tickHz)
  if value.tickHz ≠ backend.identity.tickHz ∨ value.counterBits ≠ backend.identity.counterBits then
    throw (.infrastructure "Zynq timestamp metadata differs from identity handshake")
  else pure value

def Backend.forceSafe (asserted : Bool) : Eff σ HostError Unit :=
  backend.call .forceSafe "force_safe" (ZynqTransport.forceSafe mmio asserted)

def Backend.health : Eff σ HostError Health := do
  match ← attempt (ZynqTransport.health mmio) with
  | .ok result => pure result
  | .error exc => throw (.infrastructure s!"Zynq transport health failed: {exc.str}")

def Backend.readPwm (channel : Int) : Eff σ HostError PwmMeasurement :=
  backend.call .pwmCapture "read_pwm" (ZynqTransport.readPwm mmio channel)

def Backend.configureAbz (config : AbzConfig) : Eff σ HostError Unit :=
  backend.call .abzGenerator "configure_abz" (ZynqTransport.configureAbz mmio config)

def Backend.startAbz : Eff σ HostError Unit :=
  backend.call .abzGenerator "start_abz" (ZynqTransport.startAbz mmio)

def Backend.stopAbz : Eff σ HostError Unit :=
  backend.call .abzGenerator "stop_abz" (ZynqTransport.stopAbz mmio)

def Backend.scheduleDio (event : DioEvent) : Eff σ HostError Unit :=
  backend.call .dioScheduler "schedule_dio" (ZynqTransport.scheduleDio mmio event)

inductive Method
  | readTimestamp
  | forceSafe (asserted : Bool)
  | health
  | readPwm (channel : Int)
  | configureAbz (config : AbzConfig)
  | startAbz
  | stopAbz
  | scheduleDio (event : DioEvent)

def Method.run : Method → Eff σ HostError Unit
  | .readTimestamp => Timeline.discard (backend.readTimestamp mmio)
  | .forceSafe asserted => backend.forceSafe mmio asserted
  | .health => Timeline.discard (Backend.health mmio)
  | .readPwm channel => Timeline.discard (backend.readPwm mmio channel)
  | .configureAbz config => backend.configureAbz mmio config
  | .startAbz => backend.startAbz mmio
  | .stopAbz => backend.stopAbz mmio
  | .scheduleDio event => backend.scheduleDio mmio event

def Method.capability : Method → Option Capability
  | .readTimestamp => some .timebase
  | .forceSafe _ => some .forceSafe
  | .health => none
  | .readPwm _ => some .pwmCapture
  | .configureAbz _ | .startAbz | .stopAbz => some .abzGenerator
  | .scheduleDio _ => some .dioScheduler

end Methods

section Dispatch

variable {σ : Type} {mmio : Mmio32 σ} {backend : Backend} {P : σ → Prop}

theorem preserves_attempt {ε α : Type} {x : Eff σ ε α} (h : Preserves P x) :
    Preserves P (attempt x) := h

theorem preserves_call {α : Type} {capability : Capability} {method : String}
    {handler : Eff σ HostError α} (h : Preserves P handler) :
    Preserves P (backend.call capability method handler) := by
  refine preserves_bind (preserves_liftExcept _) (fun _ => preserves_bind (preserves_attempt h)
    (fun result => ?_))
  cases result with
  | error exc => exact preserves_throw _
  | ok value => exact fun s hs => hs

theorem exec_call {α : Type} (capability : Capability) (method : String)
    (handler : Eff σ HostError α) (s : σ) :
    exec (backend.call capability method handler) s =
      if capability ∈ backend.identity.capabilities then
        ((exec handler s).1.mapError (backend.wrap method), (exec handler s).2)
      else (.error (.unsupportedCapability capability), s) := by
  rw [Backend.call, require]
  split
  · rw [exec_bind_ok (exec_liftExcept _ _), exec_bind_ok (exec_attempt _ _)]
    cases (exec handler s).1 <;> rfl
  · exact exec_bind_error (exec_liftExcept _ _)

theorem wrap_supported (method : String) (exc : HostError) (c : Capability) :
    backend.wrap method exc ≠ .unsupportedCapability c := by
  cases exc <;> exact fun h => nomatch h

theorem call_supported {α : Type} {capability : Capability} (method : String)
    (handler : Eff σ HostError α) (s : σ) (hc : capability ∈ backend.identity.capabilities)
    (c : Capability) :
    (exec (backend.call capability method handler) s).1 ≠ .error (.unsupportedCapability c) := by
  rw [exec_call, if_pos hc]
  cases (exec handler s).1 with
  | error exc => exact fun h => wrap_supported method exc c (Except.error.inj h)
  | ok value => exact fun h => nomatch h

theorem call_refused {α : Type} {capability : Capability} {method : String}
    {handler : Eff σ HostError α} (hc : capability ∉ backend.identity.capabilities) (s : σ) :
    exec (backend.call capability method handler) s =
      (.error (.unsupportedCapability capability), s) := by
  rw [exec_call, if_neg hc]

theorem exec_discard {α : Type} (x : Eff σ HostError α) (s : σ) :
    exec (Timeline.discard x) s = ((exec x s).1.map (fun _ => ()), (exec x s).2) := by
  rw [Timeline.discard, exec_bind]
  rcases exec x s with ⟨exc | value, t⟩ <;> rfl

/-- A call without its capability leaves the window alone. -/
theorem run_refused {method : Method} {c : Capability} (hm : method.capability = some c)
    (hc : c ∉ backend.identity.capabilities) (s : σ) :
    exec (method.run mmio backend) s = (.error (.unsupportedCapability c), s) := by
  cases method <;> cases hm
  case readTimestamp =>
    rw [Method.run, exec_discard, Backend.readTimestamp, exec_bind_error (call_refused hc s)]
    rfl
  case readPwm channel =>
    rw [Method.run, exec_discard, Backend.readPwm, call_refused hc s]
    rfl
  all_goals exact call_refused hc s

theorem run_supported {method : Method} {c : Capability} (hm : method.capability = some c)
    (hc : c ∈ backend.identity.capabilities) (s : σ) :
    (exec (method.run mmio backend) s).1 ≠ .error (.unsupportedCapability c) := by
  cases method <;> cases hm
  case readTimestamp =>
    have hcall := call_supported "read_timestamp"
      (ZynqTransport.readTimestamp mmio backend.identity.tickHz) s hc .timebase
    rw [Method.run, exec_discard, Backend.readTimestamp, exec_bind]
    rcases hx : exec (backend.call .timebase "read_timestamp"
        (ZynqTransport.readTimestamp mmio backend.identity.tickHz)) s with
      ⟨exc | value, t⟩ <;> rw [hx] at hcall
    · exact fun h => hcall (congrArg Except.error (Except.error.inj h))
    · dsimp only
      split <;> exact fun h => nomatch h
  case readPwm channel =>
    have hcall := call_supported "read_pwm" (ZynqTransport.readPwm mmio channel) s hc .pwmCapture
    rw [Method.run, exec_discard, Backend.readPwm]
    rcases hx : exec (backend.call .pwmCapture "read_pwm" (ZynqTransport.readPwm mmio channel)) s with
      ⟨exc | value, t⟩ <;> rw [hx] at hcall
    · exact fun h => hcall (congrArg Except.error (Except.error.inj h))
    · exact fun h => nomatch h
  all_goals exact call_supported _ _ s hc _

end Dispatch

section Window

variable {F W : Nat} {b : Board F} {m : UioMmio} {r₀ r : Rig F W} {addr : BitVec 12}

def SettingsKept (c c' : Config) : Prop := ∀ f, f ≠ Field.forceSafeSw → f.Kept c c'

theorem settingsKept_rfl (c : Config) : SettingsKept c c := fun f _ => kept_rfl c f

theorem SettingsKept.trans {c c' c'' : Config} (h : SettingsKept c c') (h' : SettingsKept c' c'') :
    SettingsKept c c'' :=
  fun f hf => (h f hf).trans (h' f hf)

/-- The outputs have been 0 since, but for the clock in which they went out. -/
structure Dark (r₀ r : Rig F W) : Prop where
  since : r₀.cycle ≤ r.cycle
  outputs : ∀ n, r₀.cycle < n → n < r.cycle → r.outputs[n]? = some 0
  dio : r₀.cycle < r.cycle → r.core.dio.dioOut = 0

theorem dark_refl (r : Rig F W) : Dark r r :=
  ⟨Nat.le_refl _, fun _ h hn => absurd hn (Nat.lt_asymm h), fun h => absurd h (Nat.lt_irrefl _)⟩

theorem dark_tick (axi : AxiInput) (h : Dark r₀ r) (hoff : r.bus.settings.hilEnable = false) :
    Dark r₀ (r.tick b axi) := by
  have hactive : r.core.hilActive (b.input r.cycle axi) = false := by
    have hen : r.core.control.config.hilEnable = false := hoff
    rw [Core.hilActive, hen, Bool.false_and]
  have hforce : (r.core.dioInput (b.input r.cycle axi)).forceSafe = true := by
    rw [Core.dioInput, hactive]
    rfl
  refine ⟨?_, fun n hn hlt => ?_, fun _ => ?_⟩
  · rw [tick_cycle]
    exact Nat.le_succ_of_le h.since
  · rw [tick_cycle] at hlt
    rcases Nat.lt_succ_iff_lt_or_eq.mp hlt with hlt | rfl
    · rw [Rig.tick, List.getElem?_append_left hlt]
      exact h.outputs n hn hlt
    · rw [Rig.tick, Rig.cycle, List.getElem?_append_right (Nat.le_refl _), Nat.sub_self]
      exact congrArg some (h.dio hn)
  · have hdio : (r.tick b axi).core.dio =
        r.core.dio.step (r.core.dioInput (b.input r.cycle axi)) := rfl
    rw [hdio, Rtl.DioEventScheduler.step_forceSafe hforce]
    rfl

theorem dark_run {axi : Nat → AxiInput} (h : Dark r₀ r)
    (hoff : ∀ k, (r.run b axi k).bus.settings.hilEnable = false) (k : Nat) :
    Dark r₀ (r.run b axi k) :=
  wave_invariant_of (P := Dark r₀) (G := fun t _ => t.bus.settings.hilEnable = false) h
    (fun _ i ht hi => dark_tick i ht hi) axi k (fun j _ => hoff j)

/-- What a backend without ABZ_GENERATOR leaves of the core. -/
structure Untouched (r₀ r : Rig F W) : Prop where
  idle : r.bus.Idle
  kept : SettingsKept r₀.bus.settings r.bus.settings
  dark : r₀.bus.settings.hilEnable = false → Dark r₀ r

theorem Untouched.off (h : Untouched r₀ r) (hoff : r₀.bus.settings.hilEnable = false) :
    r.bus.settings.hilEnable = false :=
  Eq.trans (h.kept .hilEnable (by decide)) hoff

theorem untouched_wait (h : Untouched r₀ r) (clocks : Nat) : Untouched r₀ (r.wait b clocks) := by
  have hrun : ∀ k, (r.run b (fun _ => idleAxi) k).bus.Idle ∧
      (r.run b (fun _ => idleAxi) k).bus.settings = r.bus.settings := by
    intro k
    rw [bus_run]
    exact ⟨(idle_run _ _ h.idle k).1, (idle_run _ _ h.idle k).2.1⟩
  refine ⟨(hrun clocks).1, ?_, fun hoff => dark_run (h.dark hoff) (fun k => ?_) clocks⟩
  · rw [Rig.wait, (hrun clocks).2]
    exact h.kept
  · rw [(hrun k).2]
    exact h.off hoff

theorem idle_read (h : r.bus.Idle) (addr : BitVec 12) :
    (r.read32 b addr).2.bus.Idle := by
  rw [bus_read32]
  exact read32_idle _ _ h addr

theorem untouched_read (h : Untouched r₀ r) (addr : BitVec 12) :
    Untouched r₀ (r.read32 b addr).2 := by
  refine ⟨idle_read h.idle addr, ?_, fun hoff => dark_run (h.dark hoff) (fun k => ?_) _⟩
  · rw [Rig.read32, settings_reading h.idle]
    exact h.kept
  · rw [settings_reading h.idle]
    exact h.off hoff

theorem untouched_write (h : Untouched r₀ r) {addr : BitVec 12} {data : BitVec 32}
    (hc : SettingsKept r.bus.settings (settled (r.bus.settings.commit (request addr data)))) :
    Untouched r₀ (r.write32 b addr data) := by
  have hrun : ∀ k, SettingsKept r.bus.settings
      (r.run b (writeInput (b.write r.cycle) addr data) k).bus.settings := by
    intro k
    rw [settings_writing h.idle]
    split
    · exact settingsKept_rfl _
    · exact hc
  refine ⟨?_, h.kept.trans (hrun _), fun hoff => dark_run (h.dark hoff) (fun k => ?_) _⟩
  · rw [bus_write32]
    exact write32_idle h.idle addr data
  · exact Eq.trans (hrun k .hilEnable (by decide)) (h.off hoff)

variable (b) in
/-- The bus has carried these reads and nothing else. -/
def OnlyRead (r₀ r : Rig F W) : Prop :=
  ∃ addrs : List (BitVec 12), r = addrs.foldl (fun r addr => (r.read32 b addr).2) r₀

theorem onlyRead_refl (r : Rig F W) : OnlyRead b r r := ⟨[], rfl⟩

theorem onlyRead_read (h : OnlyRead b r₀ r) (addr : BitVec 12) : OnlyRead b r₀ (r.read32 b addr).2 := by
  obtain ⟨addrs, rfl⟩ := h
  refine ⟨addrs ++ [addr], ?_⟩
  rw [List.foldl_append]
  rfl

theorem OnlyRead.settings (h : OnlyRead b r₀ r) (hidle : r₀.bus.Idle) :
    r.bus.settings = r₀.bus.settings := by
  obtain ⟨addrs, rfl⟩ := h
  induction addrs generalizing r₀ with
  | nil => rfl
  | cons addr addrs ih =>
      have hread : (r₀.read32 b addr).2.bus.settings = r₀.bus.settings :=
        settings_reading hidle addr _
      rw [List.foldl_cons, ih (idle_read hidle addr), hread]

/-- What a backend without DIO_SCHEDULER leaves of the queue. -/
structure Unqueued (r₀ r : Rig F W) : Prop where
  idle : r.bus.Idle
  accepted : r.bus.accepted = r₀.bus.accepted

theorem unqueued_wait (h : Unqueued r₀ r) (clocks : Nat) : Unqueued r₀ (r.wait b clocks) := by
  obtain ⟨hidle, -, haccepted⟩ := idle_run b.params.identity (r.env b (fun _ => idleAxi)) h.idle clocks
  rw [← bus_run] at hidle haccepted
  exact ⟨hidle, haccepted.trans h.accepted⟩

theorem unqueued_read (h : Unqueued r₀ r) (addr : BitVec 12) :
    Unqueued r₀ (r.read32 b addr).2 := by
  refine ⟨idle_read h.idle addr, ?_⟩
  rw [bus_read32, read32_accepted h.idle]
  exact h.accepted

theorem unqueued_write (h : Unqueued r₀ r) {addr : BitVec 12} (ha : addr ≠ regEvtPush)
    (data : BitVec 32) : Unqueued r₀ (r.write32 b addr data) := by
  have hquiet : (r.bus.plane.stage.commit (request addr data)).pushPulse = false :=
    (commit_pushPulse _ ha data).trans h.idle.pushPulse
  refine ⟨?_, ?_⟩ <;> rw [bus_write32]
  · exact write32_idle h.idle addr data
  · rw [(write32_quiet _ _ h.idle addr data hquiet).1]
    exact h.accepted

end Window

section Session

variable {F W : Nat} {b : Board F} {m : UioMmio} {backend : Backend} {r₀ r : Rig F W}

theorem preserves_coreRead {P : Rig F W → Prop} (hread : ∀ r addr, P r → P (r.read32 b addr).2)
    (offset : Nat) : Preserves P ((coreMmio b m).read32 offset) :=
  preserves_bind (preserves_liftExcept _) (fun _ r hr => hread r _ hr)

theorem preserves_coreWrite {P : Rig F W → Prop} {offset value : Nat}
    (hwrite : ∀ r data, P r → P (r.write32 b (BitVec.ofNat 12 offset) data)) :
    Preserves P ((coreMmio b m).write32 offset value) :=
  preserves_bind (preserves_liftExcept _) (fun _ r hr => hwrite r _ hr)

theorem commit_event (c : Config) {offset : Nat} (h : offset ∈ eventRegs) (data : BitVec 32) :
    settled (c.commit (request (BitVec.ofNat 12 offset) data)) = settled c := by
  have hne : BitVec.ofNat 12 offset ≠ regControl ∧ BitVec.ofNat 12 offset ≠ regMinDeadtime ∧
      BitVec.ofNat 12 offset ≠ regAbzStep := by
    revert offset
    decide
  have haddr : (request (BitVec.ofNat 12 offset) data).awaddrHold = BitVec.ofNat 12 offset := rfl
  rw [Config.commit, haddr, if_neg hne.1, if_neg hne.2.1, if_neg hne.2.2]

/-- force_safe writes back the bits it read, but for its own. -/
theorem untouched_forceSafe (asserted : Bool) :
    Preserves (Untouched r₀) (ZynqTransport.forceSafe (coreMmio b m : Mmio32 (Rig F W)) asserted) := by
  intro r h
  have hspares : ∀ f, f ≠ Field.forceSafeSw → Spares (fun value =>
      if asserted then value ||| Reg.ctrlForceSafe else without value Reg.ctrlForceSafe) f := by
    intro f hf
    have h1 : f.bit ≠ some 1 := by rintro hb; cases f <;> simp_all [Field.bit]
    cases asserted with
    | true => exact spares_set h1
    | false => exact spares_without h1
  have hdata : (r.read32 b regControl).1 = (r.bus.read32 b.params.identity
      (r.env b (readInput (b.read r.cycle) regControl)) regControl).1 :=
    congrArg (fun s : Bus eventDepth W 16 => s.plane.read.rdata) (bus_run b r _ _)
  obtain ⟨h0, -, h3, h4⟩ := control_bits b.params.identity
    (r.env b (readInput (b.read r.cycle) regControl)) h.idle
  rw [← hdata] at h0 h3 h4
  have hsettings : (r.read32 b regControl).2.bus.settings = r.bus.settings :=
    settings_reading h.idle regControl _
  rw [ZynqTransport.forceSafe, exec_update]
  refine untouched_write (untouched_read h regControl) ?_
  rw [hsettings, commit_control]
  intro f hf
  cases f with
  | hilEnable =>
      exact (getLsbD_word _ (by decide)).trans ((hspares .hilEnable hf 0 rfl _).trans h0)
  | forceSafeSw => exact absurd rfl hf
  | abzEnable =>
      exact (getLsbD_word _ (by decide)).trans ((hspares .abzEnable hf 3 rfl _).trans h3)
  | abzDirectionForward =>
      exact (getLsbD_word _ (by decide)).trans ((hspares .abzDirectionForward hf 4 rfl _).trans h4)
  | abzStepPeriodTicks => rfl
  | minDeadtimeTicks => rfl

theorem preserves_readTimestamp {P : Rig F W → Prop}
    (hread : ∀ r addr, P r → P (r.read32 b addr).2) :
    Preserves P (backend.readTimestamp (coreMmio b m)) := by
  refine preserves_bind (preserves_call (preserves_readTimestampRounds (preserves_coreRead hread) _ 8))
    (fun value => ?_)
  split
  · exact preserves_throw _
  · exact fun r hr => hr

theorem preserves_backendHealth {P : Rig F W → Prop}
    (hread : ∀ r addr, P r → P (r.read32 b addr).2) :
    Preserves P (Backend.health (coreMmio b m)) := by
  refine preserves_bind (preserves_attempt (preserves_health (preserves_coreRead hread)))
    (fun result => ?_)
  cases result with
  | error exc => exact preserves_throw _
  | ok value => exact fun r hr => hr

theorem untouched_run {method : Method} (h : method.capability ≠ some .abzGenerator) :
    Preserves (Untouched r₀) (method.run (coreMmio b m : Mmio32 (Rig F W)) backend) := by
  have hread : ∀ (r : Rig F W) addr, Untouched r₀ r → Untouched r₀ (r.read32 b addr).2 :=
    fun _ addr hr => untouched_read hr addr
  cases method with
  | readTimestamp => exact preserves_discard (preserves_readTimestamp hread)
  | forceSafe asserted => exact preserves_call (untouched_forceSafe asserted)
  | health => exact preserves_discard (preserves_backendHealth hread)
  | readPwm channel =>
      exact preserves_discard (preserves_call (preserves_readPwm (preserves_coreRead hread) channel))
  | configureAbz config => exact absurd rfl h
  | startAbz => exact absurd rfl h
  | stopAbz => exact absurd rfl h
  | scheduleDio event =>
      refine preserves_call (preserves_scheduleDio (preserves_coreRead hread) event
        (fun offset hoffset _ => preserves_coreWrite (fun r data hr => untouched_write hr ?_)))
      rw [commit_event _ hoffset]
      exact settingsKept_rfl _

theorem unqueued_run {method : Method} (h : method.capability ≠ some .dioScheduler) :
    Preserves (Unqueued r₀) (method.run (coreMmio b m : Mmio32 (Rig F W)) backend) := by
  have hread : ∀ (r : Rig F W) addr, Unqueued r₀ r → Unqueued r₀ (r.read32 b addr).2 :=
    fun _ addr hr => unqueued_read hr addr
  have hstep : ∀ value, Preserves (Unqueued r₀)
      ((coreMmio b m : Mmio32 (Rig F W)).write32 Reg.abzStep value) :=
    fun _ => preserves_coreWrite (fun r data hr => unqueued_write hr (by decide) data)
  have hcontrol : ∀ value, Preserves (Unqueued r₀)
      ((coreMmio b m : Mmio32 (Rig F W)).write32 Reg.control value) :=
    fun _ => preserves_coreWrite (fun r data hr => unqueued_write hr (by decide) data)
  have hupdate : ∀ change, Preserves (Unqueued r₀)
      (ZynqTransport.updateControl (coreMmio b m : Mmio32 (Rig F W)) change) :=
    fun _ => preserves_updateControl (preserves_coreRead hread) hcontrol
  cases method with
  | readTimestamp => exact preserves_discard (preserves_readTimestamp hread)
  | forceSafe asserted => exact preserves_call (hupdate _)
  | health => exact preserves_discard (preserves_backendHealth hread)
  | readPwm channel =>
      exact preserves_discard (preserves_call (preserves_readPwm (preserves_coreRead hread) channel))
  | configureAbz config =>
      exact preserves_call
        (ZynqTransport.preserves_configureAbz (preserves_coreRead hread) hstep hcontrol)
  | startAbz => exact preserves_call (hupdate _)
  | stopAbz => exact preserves_call (hupdate _)
  | scheduleDio event => exact absurd rfl h

/-- What can happen to an open backend: time passes, or a method is called. -/
inductive Step
  | wait (clocks : Nat)
  | call (method : Method)

variable (b m backend) in
def session : List Step → Rig F W → List (Method × Except HostError Unit) × Rig F W
  | [], r => ([], r)
  | .wait clocks :: steps, r => session steps (r.wait b clocks)
  | .call method :: steps, r =>
      let (result, next) := exec (method.run (coreMmio b m) backend) r
      let (results, last) := session steps next
      ((method, result) :: results, last)

theorem session_preserves {P : Rig F W → Prop} {c : Capability}
    (hwait : ∀ r clocks, P r → P (r.wait b clocks))
    (hrun : ∀ method : Method, method.capability ≠ some c →
      Preserves P (method.run (coreMmio b m) backend))
    (hc : c ∉ backend.identity.capabilities) (steps : List Step) (r : Rig F W) (h : P r) :
    P (session b m backend steps r).2 := by
  induction steps generalizing r with
  | nil => exact h
  | cons step steps ih =>
      cases step with
      | wait clocks => exact ih _ (hwait r clocks h)
      | call method =>
          have hnext : P (exec (method.run (coreMmio b m) backend) r).2 := by
            by_cases hm : method.capability = some c
            · rw [run_refused hm hc]
              exact h
            · exact hrun method hm r h
          exact ih _ hnext

theorem session_results (steps : List Step) (r : Rig F W) {method : Method} {c : Capability}
    {result : Except HostError Unit} (hm : method.capability = some c)
    (hmem : (method, result) ∈ (session b m backend steps r).1) :
    result = .error (.unsupportedCapability c) ↔ c ∉ backend.identity.capabilities := by
  induction steps generalizing r with
  | nil => cases hmem
  | cons step steps ih =>
      cases step with
      | wait clocks => exact ih _ hmem
      | call next =>
          rcases List.mem_cons.mp hmem with heq | hrest
          · obtain ⟨rfl, rfl⟩ := Prod.mk.inj heq
            by_cases hc : c ∈ backend.identity.capabilities
            · exact iff_of_false (run_supported hm hc r) (fun h => h hc)
            · exact iff_of_true (congrArg Prod.fst (run_refused hm hc r)) hc
          · exact ih _ hrest

end Session

section Opening

theorem masked_iff (v k : Nat) : v &&& (1 <<< k) ≠ 0 ↔ v.testBit k = true := by
  rw [Nat.one_shiftLeft, Nat.and_two_pow]
  cases v.testBit k <;> simp

def capabilityBit (c : Capability) : Nat := (RegisterMap.capabilityBits.lookup c).getD 0

theorem mem_decode (bits : Nat) (c : Capability) :
    c ∈ RegisterMap.decodeCapabilities bits ↔ bits.testBit (capabilityBit c) = true := by
  rw [RegisterMap.decodeCapabilities]
  simp only [masked_iff]
  cases c <;> simp [RegisterMap.capabilityBits, -Nat.testBit_zero] <;> rfl

theorem contract_iff (capabilities : List Capability) :
    validateContract capabilities = .ok () ↔
      Capability.timebase ∈ capabilities ∧ Capability.forceSafe ∈ capabilities := by
  rw [validateContract]
  by_cases ht : Capability.timebase ∈ capabilities <;>
    by_cases hf : Capability.forceSafe ∈ capabilities <;>
    simp [requiredBackendCapabilities, ht, hf]

theorem make_iff {expectedBackendTypes : List String} {identity : BackendIdentity}
    (ht : identity.backendType ∈ expectedBackendTypes) (backend : Backend) :
    Backend.make expectedBackendTypes identity = .ok backend ↔
      validateContract identity.capabilities = .ok () ∧ backend.identity = identity := by
  have hok : ¬ (expectedBackendTypes ≠ [] ∧ identity.backendType ∉ expectedBackendTypes) :=
    fun h => h.2 ht
  rw [Backend.make]
  simp only [if_neg hok]
  split
  · rename_i e he
    simp [he]
  · rename_i hcontract
    constructor
    · intro h
      cases h
      exact ⟨hcontract, rfl⟩
    · rintro ⟨-, rfl⟩
      rfl

variable {F W : Nat} {b : Board F} {m : UioMmio}

theorem exec_identity {r : Rig F W} (h : r.bus.Idle) {offset : Nat} {v : BitVec 32}
    (ho : offset + 4 ≤ Reg.mapSize) (ha : offset &&& 3 = 0)
    (hv : ∀ (c : Plane eventDepth W 16) i,
      c.readData b.params.identity i (BitVec.ofNat 12 offset) = v) :
    exec ((coreMmio b m).read32 offset) r =
      (.ok v.toNat, (r.read32 b (BitVec.ofNat 12 offset)).2) := by
  have hdata : (r.read32 b (BitVec.ofNat 12 offset)).1 = (r.bus.read32 b.params.identity
      (r.env b (readInput (b.read r.cycle) (BitVec.ofNat 12 offset))) (BitVec.ofNat 12 offset)).1 :=
    congrArg (fun s : Bus eventDepth W 16 => s.plane.read.rdata) (bus_run b r _ _)
  rw [exec_read ho ha, hdata, read32_data h, hv]

def identified (cls : BackendClass) (hardwareRevision : String) (params : Params F) :
    Except HostError BackendIdentity :=
  match RegisterMap.backendTypes.lookup params.backendId.toNat with
  | none =>
      .error (.infrastructure s!"unknown HIL AXI backend id 0x{hexPad 8 params.backendId.toNat}")
  | some backendType =>
      if backendType ≠ cls.uioType then
        .error (.invalidConfiguration
          s!"UIO backend {quoted backendType} does not match {quoted cls.uioType}")
      else
        BackendIdentity.make backendType hardwareRevision
          s!"axi-build-0x{hexPad 8 params.buildId.toNat}"
          (RegisterMap.decodeCapabilities params.capabilities.toNat) tickHz.toNat 64

/-- In whatever state the core is, the handshake depends on the parameters of its bitstream alone. -/
theorem exec_readIdentity (cls : BackendClass) (hardwareRevision : String) {r : Rig F W}
    (h : r.bus.Idle) :
    (exec (readIdentity (coreMmio b m) (some cls.uioType) hardwareRevision) r).1 =
      identified cls hardwareRevision b.params := by
  have h1 := idle_read (b := b) h (BitVec.ofNat 12 RegisterMap.regMagic)
  have h2 := idle_read (b := b) h1 (BitVec.ofNat 12 RegisterMap.regAbiVersion)
  have h3 := idle_read (b := b) h2 (BitVec.ofNat 12 RegisterMap.regBackendId)
  have h4 := idle_read (b := b) h3 (BitVec.ofNat 12 RegisterMap.regTickHz)
  have h5 := idle_read (b := b) h4 (BitVec.ofNat 12 RegisterMap.regCounterBits)
  have h6 := idle_read (b := b) h5 (BitVec.ofNat 12 RegisterMap.regCapabilities)
  have hmagic : ¬ (Rtl.ControlPlane.magic.toNat ≠ RegisterMap.magic) := by decide
  have habi : ¬ (Rtl.ControlPlane.abiVersion.toNat >>> 16 ≠ RegisterMap.abiVersion >>> 16) := by
    decide
  have htime : ¬ (tickHz.toNat ≤ 0 ∨ (64#32).toNat ≠ 64) := by decide
  rw [readIdentity, exec_bind_ok (exec_identity (v := Rtl.ControlPlane.magic) h (by decide)
      (by decide) (fun _ _ => rfl)),
    exec_bind_ok (exec_identity (v := Rtl.ControlPlane.abiVersion) h1 (by decide) (by decide)
      (fun _ _ => rfl)), if_neg hmagic, if_neg habi,
    exec_bind_ok (exec_identity (v := b.params.backendId) h2 (by decide) (by decide)
      (fun _ _ => rfl)), identified]
  cases RegisterMap.backendTypes.lookup b.params.backendId.toNat with
  | none => rfl
  | some backendType =>
      dsimp only
      by_cases hne : backendType ≠ cls.uioType
      · rw [if_pos hne, Option.filter_some, if_pos (decide_eq_true hne)]
        rfl
      · rw [if_neg hne, Option.filter_some, if_neg (fun hd => hne (of_decide_eq_true hd))]
        dsimp only
        rw [exec_bind_ok (exec_identity (v := tickHz) h3 (by decide) (by decide) (fun _ _ => rfl)),
          exec_bind_ok (exec_identity (v := 64#32) h4 (by decide) (by decide) (fun _ _ => rfl)),
          if_neg htime,
          exec_bind_ok (exec_identity (v := b.params.capabilities) h5 (by decide) (by decide)
            (fun _ _ => rfl)),
          exec_bind_ok (exec_identity (v := b.params.buildId) h6 (by decide) (by decide)
            (fun _ _ => rfl)), exec_liftExcept]
        rfl

/-- The parameter by which a board says that it is the one of the class. -/
def BackendClass.backendId : BackendClass → BitVec 32
  | .axu2cgbBackend => 0x2C600
  | .ax7010Backend => 0x7010

theorem lookup_eq (id : BitVec 32) :
    RegisterMap.backendTypes.lookup id.toNat =
      if id = 0x7010 then some "zynq7010_ax7010" else if id = 0x2C600 then some "zu2cg_axu2cgb"
      else none := by
  by_cases hid : id = 0x7010
  · subst hid
    rfl
  by_cases hid' : id = 0x2C600
  · subst hid'
    rfl
  have hbeq : ∀ v : BitVec 32, id ≠ v → (id.toNat == v.toNat) = false :=
    fun v hv => beq_eq_false_iff_ne.mpr (fun h => hv (BitVec.toNat_inj.mp h))
  have h1 : (id.toNat == RegisterMap.backendIdAx7010) = false := hbeq 0x7010 hid
  have h2 : (id.toNat == RegisterMap.backendIdAxu2cgb) = false := hbeq 0x2C600 hid'
  rw [if_neg hid, if_neg hid', RegisterMap.backendTypes, List.lookup_cons, h1]
  dsimp only
  rw [List.lookup_cons, h2]
  rfl

theorem uioType_mem (cls : BackendClass) : cls.uioType ∈ cls.expectedBackendTypes := by
  cases cls <;> decide

/-- The handshake accepts the board of its class and no other. -/
theorem identified_iff (cls : BackendClass) (hardwareRevision : String) (params : Params F)
    (identity : BackendIdentity) :
    identified cls hardwareRevision params = .ok identity ↔
      params.backendId = cls.backendId ∧
        BackendIdentity.make cls.uioType hardwareRevision
          s!"axi-build-0x{hexPad 8 params.buildId.toNat}"
          (RegisterMap.decodeCapabilities params.capabilities.toNat) tickHz.toNat 64 = .ok identity := by
  rw [identified, lookup_eq]
  cases cls <;> by_cases h1 : params.backendId = 0x7010#32 <;>
    by_cases h2 : params.backendId = 0x2C600#32 <;>
    simp [h1, h2, BackendClass.uioType, BackendClass.backendId]

theorem make_fields {backendType hardwareRevision firmwareRevision : String}
    {capabilities : List Capability} {tickHz counterBits : Nat} {identity : BackendIdentity}
    (h : BackendIdentity.make backendType hardwareRevision firmwareRevision capabilities tickHz
      counterBits = .ok identity) :
    identity.backendType = backendType ∧ identity.capabilities = capabilities := by
  rw [BackendIdentity.make] at h
  split_ifs at h
  cases h
  exact ⟨rfl, rfl⟩

theorem make_ok {backendType : String} (hardwareRevision firmwareRevision : String)
    (capabilities : List Capability) {tickHz counterBits : Nat} (ht : backendType ≠ "")
    (hz : tickHz ≠ 0) (hb : counterBits ≠ 0) :
    ∃ identity, BackendIdentity.make backendType hardwareRevision firmwareRevision capabilities tickHz
      counterBits = .ok identity := by
  rw [BackendIdentity.make, dif_neg ht, dif_neg hz, dif_neg hb]
  exact ⟨_, rfl⟩

theorem preserves_openUio {P : Rig F W → Prop} (hread : ∀ r addr, P r → P (r.read32 b addr).2)
    (cls : BackendClass) (hardwareRevision : String) :
    Preserves P (openUio (coreMmio b m) cls hardwareRevision) := by
  have hcore : ∀ offset, Preserves P ((coreMmio b m).read32 offset) := preserves_coreRead hread
  refine preserves_bind ?_ (fun _ => preserves_liftExcept _)
  refine preserves_bind_read hcore _ (fun magic => preserves_bind_read hcore _ (fun abi => ?_))
  split
  · exact preserves_throw _
  split
  · exact preserves_throw _
  refine preserves_bind_read hcore _ (fun backendId => ?_)
  split
  · exact preserves_throw _
  split
  · exact preserves_throw _
  refine preserves_bind_read hcore _ (fun tickHz => preserves_bind_read hcore _ (fun bits => ?_))
  split
  · exact preserves_throw _
  exact preserves_bind_read hcore _ (fun _ => preserves_bind_read hcore _ (fun _ =>
    preserves_liftExcept _))

/-- open_uio gives a backend for the boards of the class that have the required capabilities. -/
theorem opens_iff (cls : BackendClass) (hardwareRevision : String) {r : Rig F W} (h : r.bus.Idle)
    (backend : Backend) :
    (exec (openUio (coreMmio b m) cls hardwareRevision) r).1 = .ok backend ↔
      identified cls hardwareRevision b.params = .ok backend.identity := by
  rw [openUio, exec_bind]
  have hidentity := exec_readIdentity (b := b) (m := m) cls hardwareRevision h
  rcases hx : exec (readIdentity (coreMmio b m) (some cls.uioType) hardwareRevision) r with
    ⟨exc | identity, t⟩ <;> rw [hx] at hidentity <;> rw [← hidentity]
  · exact iff_of_false (fun h => nomatch h) (fun h => nomatch h)
  · have htype : identity.backendType = cls.uioType :=
      (make_fields ((identified_iff _ _ _ _).mp hidentity.symm).2).1
    dsimp only
    rw [exec_liftExcept, make_iff (htype ▸ uioType_mem cls)]
    constructor
    · rintro ⟨-, rfl⟩
      rfl
    · intro heq
      cases heq
      exact ⟨backend.contract, rfl⟩

theorem capabilities_iff {cls : BackendClass} {hardwareRevision : String} {r : Rig F W}
    (h : r.bus.Idle) {backend : Backend}
    (hopen : (exec (openUio (coreMmio b m) cls hardwareRevision) r).1 = .ok backend) (c : Capability) :
    c ∈ backend.identity.capabilities ↔
      b.params.capabilities.getLsbD (capabilityBit c) = true := by
  have hidentified := (identified_iff _ _ _ _).mp ((opens_iff cls hardwareRevision h backend).mp hopen)
  rw [(make_fields hidentified.2).2, mem_decode, BitVec.testBit_toNat]

theorem exists_opened (cls : BackendClass) (hardwareRevision : String) {r : Rig F W}
    (h : r.bus.Idle) :
    (∃ backend, (exec (openUio (coreMmio b m) cls hardwareRevision) r).1 = .ok backend) ↔
      b.params.backendId = cls.backendId ∧
        b.params.capabilities.getLsbD (capabilityBit .timebase) = true ∧
        b.params.capabilities.getLsbD (capabilityBit .forceSafe) = true := by
  constructor
  · rintro ⟨backend, hopen⟩
    have hcontract := (contract_iff _).mp backend.contract
    rw [capabilities_iff h hopen, capabilities_iff h hopen] at hcontract
    exact ⟨((identified_iff _ _ _ _).mp ((opens_iff cls hardwareRevision h backend).mp hopen)).1,
      hcontract⟩
  · rintro ⟨hid, htimebase, hsafe⟩
    have hname : cls.uioType ≠ "" := by cases cls <;> decide
    have hticks : tickHz.toNat ≠ 0 := by decide
    have hbits : 64 ≠ 0 := by decide
    obtain ⟨identity, hmake⟩ := make_ok hardwareRevision s!"axi-build-0x{hexPad 8 b.params.buildId.toNat}"
      (RegisterMap.decodeCapabilities b.params.capabilities.toNat) hname hticks hbits
    have hcontract : validateContract identity.capabilities = .ok () := by
      rw [contract_iff, (make_fields hmake).2, mem_decode, mem_decode, BitVec.testBit_toNat,
        BitVec.testBit_toNat]
      exact ⟨htimebase, hsafe⟩
    exact ⟨⟨identity, hcontract⟩,
      (opens_iff cls hardwareRevision h _).mpr ((identified_iff _ _ _ _).mpr ⟨hid, hmake⟩)⟩

/-- A backend on the core, in whatever state that is when it is opened on an idle bus. It opens on
the boards of its class that advertise time and safe state, and all it does to the core is read
registers. From then on, for any calls in any order and any time between them, a call is refused
just for want of its capability, and then nothing reaches the bus; without DIO_SCHEDULER nothing is
queued; without ABZ_GENERATOR the settings but FORCE_SAFE stay as they were, and if HIL was not
enabled then, no event ever reaches the outputs. -/
theorem uio_session (b : Board F) (m : UioMmio) (cls : BackendClass) (hardwareRevision : String)
    (steps : List Step) (r : Rig F W) (h : r.bus.Idle) :
    let opening := exec (openUio (coreMmio b m) cls hardwareRevision) r
    let advertised := fun c => b.params.capabilities.getLsbD (capabilityBit c)
    ((∃ backend, opening.1 = .ok backend) ↔ b.params.backendId = cls.backendId ∧
      advertised .timebase = true ∧ advertised .forceSafe = true) ∧
    OnlyRead b r opening.2 ∧ opening.2.bus.settings = r.bus.settings ∧
    Untouched r opening.2 ∧ Unqueued r opening.2 ∧
    ∀ backend, opening.1 = .ok backend →
      let played := session b m backend steps opening.2
      (∀ method c result, method.capability = some c → (method, result) ∈ played.1 →
        (result = .error (.unsupportedCapability c) ↔ advertised c = false)) ∧
      (∀ (method : Method) c, method.capability = some c → advertised c = false →
        exec (method.run (coreMmio b m) backend) played.2 =
          (.error (.unsupportedCapability c), played.2)) ∧
      (advertised .dioScheduler = false → Unqueued r played.2) ∧
      (advertised .abzGenerator = false → Untouched r played.2) := by
  intro opening advertised
  have hread : OnlyRead b r opening.2 :=
    preserves_openUio (P := OnlyRead b r) (fun _ addr hr => onlyRead_read hr addr) cls
      hardwareRevision r (onlyRead_refl r)
  have huntouched : Untouched r opening.2 :=
    preserves_openUio (P := Untouched r) (fun _ addr hr => untouched_read hr addr) cls
      hardwareRevision r ⟨h, settingsKept_rfl _, fun _ => dark_refl r⟩
  have hunqueued : Unqueued r opening.2 :=
    preserves_openUio (P := Unqueued r) (fun _ addr hr => unqueued_read hr addr) cls
      hardwareRevision r ⟨h, rfl⟩
  refine ⟨exists_opened cls hardwareRevision h, hread, hread.settings h, huntouched, hunqueued, ?_⟩
  intro backend hopen played
  have hcapabilities : ∀ c, c ∉ backend.identity.capabilities ↔ advertised c = false := by
    intro c
    rw [capabilities_iff h hopen, Bool.not_eq_true]
  refine ⟨fun method c result hm hmem => ?_, fun method c hm hc => ?_, fun hc => ?_, fun hc => ?_⟩
  · rw [session_results steps _ hm hmem]
    exact hcapabilities c
  · exact run_refused hm ((hcapabilities c).mpr hc) played.2
  · exact session_preserves (P := Unqueued r) (fun _ clocks hr => unqueued_wait hr clocks)
      (fun _ hm => unqueued_run hm) ((hcapabilities _).mpr hc) steps _ hunqueued
  · exact session_preserves (P := Untouched r) (fun _ clocks hr => untouched_wait hr clocks)
      (fun _ hm => untouched_run hm) ((hcapabilities _).mpr hc) steps _ huntouched

/-- A bitstream that captures and schedules but has no ABZ generator. -/
def captureBoard : Board 24 :=
  { sampleBoard with params := { Rtl.EventDelivery.sampleParams with capabilities := 0x807 } }

def captureSteps : List Step :=
  [.call (.forceSafe false), .call (.scheduleDio ⟨7, 30, 1, 1⟩), .wait 40, .call .startAbz]

theorem uio_session_capture :
    ∃ backend, (exec (openUio (coreMmio captureBoard ScheduleDio.sampleMmio) .ax7010Backend "AX7010")
        (Rig.reset Rtl.EventDelivery.sampleMem : Rig 24 16)).1 = .ok backend ∧
      Untouched (Rig.reset Rtl.EventDelivery.sampleMem : Rig 24 16)
        (session captureBoard ScheduleDio.sampleMmio backend captureSteps
          (exec (openUio (coreMmio captureBoard ScheduleDio.sampleMmio) .ax7010Backend "AX7010")
            (Rig.reset Rtl.EventDelivery.sampleMem)).2).2 := by
  obtain ⟨hopens, -, -, -, -, hsession⟩ := uio_session captureBoard ScheduleDio.sampleMmio .ax7010Backend
    "AX7010" captureSteps (Rig.reset Rtl.EventDelivery.sampleMem : Rig 24 16)
    ⟨rfl, rfl, rfl, rfl, rfl⟩
  obtain ⟨backend, hopen⟩ := hopens.mpr (by decide)
  exact ⟨backend, hopen, (hsession backend hopen).2.2.2 (by decide)⟩

end Opening

end HilLab.Host.ZynqBackend
