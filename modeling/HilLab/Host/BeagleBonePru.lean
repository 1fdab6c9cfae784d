import HilLab.Host.Rpmsg

namespace HilLab.Host.BeagleBonePru

open Host.Core PruProtocol Rpmsg Lib.Effect

/-- The two ends of the backend: PRU0 captures, PRU1 drives the stimulus. -/
inductive Pru
  | capture | stimulus
deriving DecidableEq, Repr

def Pru.label : Pru → String
  | .capture => "PRU0"
  | .stimulus => "PRU1"

abbrev Links := Pru → HilPru

/-- The exchanges of each link, by the sequence number of the request. -/
abbrev Wires := Pru → Nat → Exchange

def checkResponse (response : Message) (operation : String) : Except HostError Unit :=
  if response.flags = 0 then .ok ()
  else if response.flags &&& errInvalidArgument ≠ 0 then
    .error (.invalidConfiguration
      s!"{operation} rejected configuration: status=0x{hexPad 8 response.flags}")
  else .error (.infrastructure s!"{operation} failed: status=0x{hexPad 8 response.flags}")

structure Hello where
  capabilitiesRaw : Nat
  tickHz : Int
  counterBits : Int

def checkHello (response : Message) (label : String) : Except HostError Hello :=
  if response.arg1 ≤ 0 ∨ response.arg2 ≤ 0 then
    .error (.infrastructure s!"{label} returned invalid timestamp metadata")
  else
    .ok { capabilitiesRaw := response.arg0.toNat
          tickHz := response.arg1
          counterBits := response.arg2 }

def mapping : List (Nat × Capability) :=
  [(capTimebase, .timebase), (capForceSafe, .forceSafe), (capPwmCapture, .pwmCapture),
    (capPwmComplementaryMonitor, .pwmComplementaryMonitor), (capAbzEmulator, .abzGenerator),
    (capSsiEmulator, .ssiSensorEmulator), (capBissEmulator, .bissSensorEmulator),
    (capSpiSensorEmulator, .spiSensorEmulator)]

def mapCapabilities (pru0Caps pru1Caps : Nat) : List Capability :=
  (mapping.filter (fun entry => (pru0Caps ||| pru1Caps) &&& entry.1 ≠ 0)).map Prod.snd

def stimulusCaps : List Nat :=
  [capAbzEmulator, capHallEmulator, capSsiEmulator, capBissEmulator, capSpiSensorEmulator]

def checkStimulus (capture stimulus : Hello) : Except HostError Unit :=
  if stimulus.tickHz ≠ capture.tickHz ∨ stimulus.counterBits ≠ capture.counterBits then
    .error (.infrastructure
      "PRU0/PRU1 timestamp metadata mismatch; shared-time semantics cannot be claimed")
  else if stimulusCaps.any (fun bit => stimulus.capabilitiesRaw &&& bit ≠ 0) ∧
      stimulus.capabilitiesRaw &&& capForceSafe = 0 then
    .error (.infrastructure "PRU1 advertises stimulus capability without FORCE_SAFE")
  else .ok ()

/-- A backend that came out of its constructor: validate_contract passed. -/
structure BeagleBonePruBackend where
  stimulus : Bool
  capabilities : List Capability
  contract : validateContract capabilities = .ok ()

def BeagleBonePruBackend.clients (b : BeagleBonePruBackend) : List Pru :=
  if b.stimulus then [.capture, .stimulus] else [.capture]

section Operations

variable (wires : Wires)

def hello (c : Pru) : Eff Links HostError Hello := do
  match ← attempt (within c (HilPru.request (wires c) msgHello {})) with
  | .error exc => throw (.infrastructure s!"{c.label} HELLO failed: {exc.str}")
  | .ok response =>
      liftExcept (checkResponse response s!"{c.label} HELLO")
      liftExcept (checkHello response c.label)

def construct (capture : Hello) (stimulus : Option Hello) :
    Except HostError BeagleBonePruBackend := do
  if let some stim := stimulus then checkStimulus capture stim
  let capabilities := mapCapabilities capture.capabilitiesRaw
    (stimulus.elim 0 Hello.capabilitiesRaw)
  match h : validateContract capabilities with
  | .error e => .error e
  | .ok () => .ok { stimulus := stimulus.isSome, capabilities, contract := h }

def init (stimulus : Bool) : Eff Links HostError BeagleBonePruBackend := do
  let captureHello ← hello wires .capture
  let stimulusHello ← if stimulus then some <$> hello wires .stimulus else pure none
  liftExcept (construct captureHello stimulusHello)

def request (c : Pru) (type : Nat) (operation : String) (args : Args) :
    Eff Links HostError Message := do
  match ← attempt (within c (HilPru.request (wires c) type args)) with
  | .error exc => throw (.infrastructure s!"{operation} transport failure: {exc.str}")
  | .ok response =>
      liftExcept (checkResponse response operation)
      return response

def forceSafeClients : List Pru → Eff Links HostError Unit
  | [] => pure ()
  | c :: cs => do
      let _ ← request wires c msgForceSafe s!"{c.label} FORCE_SAFE" {}
      forceSafeClients cs

def BeagleBonePruBackend.forceSafe (b : BeagleBonePruBackend) (asserted : Bool) :
    Eff Links HostError Unit := do
  liftExcept (require b.capabilities .forceSafe)
  if asserted then forceSafeClients wires b.clients
  else
    throw (.invalidConfiguration <|
      "BBB PRU wire protocol has no generic FORCE_SAFE deassert command; " ++
        "release stimulus through its explicit configure/start lifecycle")

end Operations

section Spec

variable {wires : Wires} {c : Pru} {type : Nat} {operation : String} {args : Args} {links : Links}

theorem checkResponse_ok_iff {response : Message} :
    checkResponse response operation = .ok () ↔ response.flags = 0 := by
  by_cases hf : response.flags = 0
  · simp [checkResponse, hf]
  · by_cases hi : response.flags &&& errInvalidArgument = 0 <;> simp [checkResponse, hf, hi]

def outcome (operation : String) : Except HostError Message → Except HostError Message
  | .error exc => .error (.infrastructure s!"{operation} transport failure: {exc.str}")
  | .ok response => (checkResponse response operation).map (fun _ => response)

theorem outcome_ok_iff {r : Except HostError Message} {response : Message} :
    outcome operation r = .ok response ↔ r = .ok response ∧ response.flags = 0 := by
  cases r with
  | error exc => simp [outcome]
  | ok m =>
      cases hc : checkResponse m operation with
      | error e =>
          have hf : m.flags ≠ 0 := fun h0 => by
            rw [checkResponse_ok_iff.mpr h0] at hc
            cases hc
          rw [outcome, hc]
          refine ⟨fun heq => (by cases heq), ?_⟩
          rintro ⟨heq, h0⟩
          cases heq
          exact absurd h0 hf
      | ok _ =>
          have hf := checkResponse_ok_iff.mp hc
          rw [outcome, hc]
          constructor
          · intro heq
            cases heq
            exact ⟨rfl, hf⟩
          · rintro ⟨heq, _⟩
            cases heq
            rfl

variable (operation) in
theorem exec_request {r : Except HostError Message} {link : HilPru}
    (h : exec (HilPru.request (wires c) type args) (links c) = (r, link)) :
    exec (request wires c type operation args) links =
      (outcome operation r, Function.update links c link) := by
  have hin : exec (attempt (within c (HilPru.request (wires c) type args))) links =
      (.ok r, Function.update links c link) := by
    rw [exec_attempt, exec_within, h]
  rw [request, exec_bind_ok hin]
  cases r with
  | error exc => rfl
  | ok response =>
      dsimp only
      rw [exec_bind, exec_liftExcept, outcome]
      cases checkResponse response operation <;> rfl

end Spec

end HilLab.Host.BeagleBonePru
