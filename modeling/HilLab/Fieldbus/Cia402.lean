import HilLab.Fieldbus.Sdo
import HilLab.Lib.EdgeRelease

namespace HilLab.Fieldbus.Cia402

open Lib.LittleEndian Lib.Edges Lib.EdgeRelease Lib.Effect SocketCan Pdo Sdo

section Sdo

variable {σ : Type} (c : CanopenSdoClient) (bus : CanBus σ)

def downloadI8 (index subindex value : Int) : Eff σ CanError PUnit :=
  c.downloadInt bus 1 true index subindex value

def downloadU16 (index subindex value : Int) : Eff σ CanError PUnit :=
  c.downloadInt bus 2 false index subindex value

def uploadU16 (index subindex : Int) : Eff σ CanError Nat := do
  let result ← c.upload bus index subindex
  if result.data.length ≠ 2 then
    throw (.runtimeError s!"expected uint16 SDO, got {result.data.length} bytes")
  else return ofBytes result.data

end Sdo

section Nmt

inductive NmtCommand
  | startRemoteNode | stopRemoteNode | enterPreOperational | resetNode | resetCommunication
deriving DecidableEq, Repr

def NmtCommand.value : NmtCommand → Int
  | .startRemoteNode => 0x01
  | .stopRemoteNode => 0x02
  | .enterPreOperational => 0x80
  | .resetNode => 0x81
  | .resetCommunication => 0x82

def buildNmtFrame (command : NmtCommand) (nodeId : Int) : Except CanError CanFrame :=
  if ¬(0 ≤ nodeId ∧ nodeId ≤ 127) then .error (.valueError "NMT node_id must be 0..127")
  else do
    let data ← pyBytes [command.value, nodeId]
    CanFrame.new 0x000 data

end Nmt

inductive CiA402State
  | notReady | switchOnDisabled | readyToSwitchOn | switchedOn | operationEnabled | quickStopActive
  | faultReactionActive | fault | unknown
deriving DecidableEq, Repr

def decodeState (statusword : Nat) : CiA402State :=
  if statusword &&& 0x004F = 0x0000 then .notReady
  else if statusword &&& 0x004F = 0x0040 then .switchOnDisabled
  else if statusword &&& 0x006F = 0x0021 then .readyToSwitchOn
  else if statusword &&& 0x006F = 0x0023 then .switchedOn
  else if statusword &&& 0x006F = 0x0027 then .operationEnabled
  else if statusword &&& 0x006F = 0x0007 then .quickStopActive
  else if statusword &&& 0x004F = 0x000F then .faultReactionActive
  else if statusword &&& 0x004F = 0x0008 then .fault
  else .unknown

def nextControlword (statusword : Nat) : Nat :=
  match decodeState statusword with
  | .fault => 0x0080
  | .switchOnDisabled => 0x0006
  | .readyToSwitchOn => 0x0007
  | .switchedOn | .operationEnabled => 0x000F
  | .quickStopActive => 0x000F
  | .notReady | .faultReactionActive | .unknown => 0x0000

def faultReset (controlword : Nat) : Bool := controlword.testBit 7

theorem faultReset_nextControlword (statusword : Nat) :
    faultReset (nextControlword statusword) = true ↔ decodeState statusword = .fault := by
  rw [nextControlword]
  cases decodeState statusword <;> decide

structure CanopenCiA402Node where
  nodeId : Int
  sdo : CanopenSdoClient

namespace CanopenCiA402Node

def create (nodeId : Int) : Except CanError CanopenCiA402Node := do
  let sdo ← CanopenSdoClient.new nodeId 32
  return ⟨nodeId, sdo⟩

variable {σ : Type} (node : CanopenCiA402Node) (bus : CanBus σ)

def setMode (mode : Int) : Eff σ CanError PUnit :=
  if mode ∉ [1, 3, 4, 6, 8, 9, 10] then throw (.valueError "unsupported/unknown CiA402 mode")
  else downloadI8 node.sdo bus 0x6060 0 mode

def startNmt : Eff σ CanError PUnit := do
  let frame ← liftExcept (buildNmtFrame .startRemoteNode node.nodeId)
  bus.send frame

def statusword : Eff σ CanError Nat := uploadU16 node.sdo bus 0x6041 0

def quickStop : Eff σ CanError PUnit := downloadU16 node.sdo bus 0x6040 0 0x000B

def disableVoltage : Eff σ CanError PUnit := downloadU16 node.sdo bus 0x6040 0 0x0000

/-- What one pass of the loop read, and what it wrote. -/
structure Pass where
  statusword : Nat
  controlword : Nat
deriving DecidableEq, Repr

def enablePass : Eff σ CanError (CiA402State ⊕ Pass) := do
  let sw ← node.statusword bus
  let state := decodeState sw
  if state = .operationEnabled then return .inl state
  else do
    let controlword := nextControlword sw
    downloadU16 node.sdo bus 0x6040 0 controlword
    return .inr ⟨sw, controlword⟩

def enableLoop : Nat → Eff σ CanError CiA402State
  | 0 => throw (.runtimeError "CiA402 did not reach Operation Enabled")
  | n + 1 => do
      match ← node.enablePass bus with
      | .inl state => return state
      | .inr _ => enableLoop n

def enableOperation (mode maxSteps : Int) : Eff σ CanError CiA402State :=
  if maxSteps ≤ 0 then throw (.valueError "max_steps must be > 0")
  else do
    node.setMode bus mode
    node.startNmt bus
    node.enableLoop bus maxSteps.toNat

/-- The passes of the loop: those whose controlword the drive has acknowledged. -/
def loopPasses : Nat → σ → List Pass
  | 0, _ => []
  | n + 1, s =>
      match exec (node.enablePass bus) s with
      | (.ok (.inr pass), t) => pass :: loopPasses n t
      | (_, _) => []

def enablePasses (mode maxSteps : Int) (s : σ) : List Pass :=
  if maxSteps ≤ 0 then []
  else
    match exec (do node.setMode bus mode; node.startNmt bus) s with
    | (.ok _, t) => node.loopPasses bus maxSteps.toNat t
    | (.error _, _) => []

variable {node} {bus}

theorem enablePass_eq {s t : σ} {pass : Pass}
    (h : exec (node.enablePass bus) s = (.ok (.inr pass), t)) :
    decodeState pass.statusword ≠ .operationEnabled ∧
      pass.controlword = nextControlword pass.statusword := by
  rw [enablePass] at h
  rcases hsw : exec (node.statusword bus) s with ⟨error | sw, u⟩
  · rw [exec_bind_error hsw] at h
    cases h
  · rw [exec_bind_ok hsw] at h
    dsimp only at h
    by_cases hstate : decodeState sw = .operationEnabled
    · rw [if_pos hstate] at h
      cases h
    · rw [if_neg hstate] at h
      rcases hdown : exec (downloadU16 node.sdo bus 0x6040 0 (nextControlword sw)) u with
        ⟨error | _, v⟩
      · rw [exec_bind_error hdown] at h
        cases h
      · rw [exec_bind_ok hdown] at h
        cases h
        exact ⟨hstate, rfl⟩

theorem loopPasses_controlword (n : Nat) (s : σ) :
    ∀ pass ∈ node.loopPasses bus n s, pass.controlword = nextControlword pass.statusword := by
  induction n generalizing s with
  | zero =>
      intro pass hpass
      cases hpass
  | succ n ih =>
      intro pass hpass
      rw [loopPasses] at hpass
      split at hpass
      · next first t hfirst =>
          rcases List.mem_cons.mp hpass with rfl | hrest
          · exact (enablePass_eq hfirst).2
          · exact ih t pass hrest
      · cases hpass

theorem length_loopPasses_le (n : Nat) (s : σ) : (node.loopPasses bus n s).length ≤ n := by
  induction n generalizing s with
  | zero => exact Nat.le_refl 0
  | succ n ih =>
      rw [loopPasses]
      split
      · exact Nat.succ_le_succ (ih _)
      · exact Nat.zero_le _

theorem enableLoop_exhausted (n : Nat) (s : σ) (h : (node.loopPasses bus n s).length = n) :
    (exec (node.enableLoop bus n) s).1 =
      .error (.runtimeError "CiA402 did not reach Operation Enabled") := by
  induction n generalizing s with
  | zero => rfl
  | succ n ih =>
      rw [loopPasses] at h
      split at h
      · next pass t hpass =>
          rw [enableLoop, exec_bind_ok hpass]
          exact ih t (Nat.succ.inj h)
      · cases h

theorem enablePasses_controlword (mode maxSteps : Int) (s : σ) :
    ∀ pass ∈ node.enablePasses bus mode maxSteps s,
      pass.controlword = nextControlword pass.statusword := by
  intro pass hpass
  rw [enablePasses] at hpass
  split at hpass
  · cases hpass
  · split at hpass
    · exact loopPasses_controlword _ _ pass hpass
    · cases hpass

theorem length_enablePasses_le (mode maxSteps : Int) (s : σ) :
    (node.enablePasses bus mode maxSteps s).length ≤ maxSteps.toNat := by
  rw [enablePasses]
  split
  · exact Nat.zero_le _
  · split
    · exact length_loopPasses_le _ _
    · exact Nat.zero_le _

end CanopenCiA402Node

section Reset

open CanopenCiA402Node

/-- Bit 7 as the drive sees it: before the first pass that of the controlword written before,
then that of each pass. -/
def level (previous : Nat) (ps : List Pass) (k : Nat) : Bool :=
  faultReset ((previous :: ps.map Pass.controlword).getD k 0)

/-- A drive that acts on the edges of bit 7. It is in fault, or not, when a pass reads its
statusword, and the cause is there, or not, when the controlword of the pass arrives. -/
structure Drive (previous : Nat) (ps : List Pass) (fault cause : Nat → Prop) : Prop extends
    Holding (level previous ps) ps.length fault cause where
  reports : ∀ (k : Nat) (hk : k < ps.length), fault k ↔ decodeState ps[k].statusword = .fault

/-- Every pass that reads a fault makes an edge of bit 7, or the next one does, and so every
fault whose cause is gone is reset by one of the passes. -/
structure FaultsReset (previous : Nat) (ps : List Pass) : Prop where
  edges : ∀ (k : Nat) (hk : k < ps.length), decodeState ps[k].statusword = .fault →
    rise (level previous ps) (k + 1) = true ∨ rise (level previous ps) (k + 2) = true
  resets : ∀ fault cause, Drive previous ps fault cause → ∀ k < ps.length, fault k →
    (∀ j, k ≤ j → ¬cause j) →
      ∃ j, k ≤ j ∧ j < ps.length ∧ Released (level previous ps) fault cause j

/-- No fault is read twice in a row, and none right after a controlword that has bit 7. -/
structure FaultsApart (previous : Nat) (sws : List Nat) : Prop where
  first : ∀ sw, sws[0]? = some sw → decodeState sw = .fault → faultReset previous = false
  apart : ∀ k sw next, sws[k]? = some sw → sws[k + 1]? = some next → decodeState sw = .fault →
    decodeState next ≠ .fault

variable {previous : Nat} {ps : List Pass}

variable (previous) in
theorem level_succ (hps : ∀ pass ∈ ps, pass.controlword = nextControlword pass.statusword) {k : Nat}
    (hk : k < ps.length) :
    level previous ps (k + 1) = true ↔ decodeState ps[k].statusword = .fault := by
  have hpass : (previous :: ps.map Pass.controlword).getD (k + 1) 0 =
      nextControlword ps[k].statusword := by
    simp [List.getD, hk, hps ps[k] (List.getElem_mem hk)]
  rw [level, hpass]
  exact faultReset_nextControlword ps[k].statusword

theorem low_iff_apart (hps : ∀ pass ∈ ps, pass.controlword = nextControlword pass.statusword) :
    (∀ (k : Nat) (hk : k < ps.length), decodeState ps[k].statusword = .fault →
      level previous ps k = false) ↔ FaultsApart previous (ps.map Pass.statusword) := by
  constructor
  · intro hlow
    constructor
    · intro sw hsw hfault
      obtain ⟨hk, rfl⟩ := List.getElem?_eq_some_iff.mp hsw
      simp only [List.length_map] at hk
      simp only [List.getElem_map] at hfault
      exact hlow 0 hk hfault
    · intro k sw next hsw hnext hfault hfaultNext
      obtain ⟨hk, rfl⟩ := List.getElem?_eq_some_iff.mp hsw
      obtain ⟨hk', rfl⟩ := List.getElem?_eq_some_iff.mp hnext
      simp only [List.length_map] at hk hk'
      simp only [List.getElem_map] at hfault hfaultNext
      have hhigh := (level_succ previous hps hk).mpr hfault
      have := hlow (k + 1) hk' hfaultNext
      rw [hhigh] at this
      cases this
  · intro hapart k hk hfault
    have hread : (ps.map Pass.statusword)[k]? = some ps[k].statusword := by simp [hk]
    cases k with
    | zero => exact hapart.first _ hread hfault
    | succ k =>
        have hk' : k < ps.length := Nat.lt_of_succ_lt hk
        have hbefore : (ps.map Pass.statusword)[k]? = some ps[k].statusword := by simp [hk']
        rw [← Bool.not_eq_true, level_succ previous hps hk']
        intro hfaultBefore
        exact hapart.apart k _ _ hbefore hread hfaultBefore hfault

theorem faultsReset_of_low (hps : ∀ pass ∈ ps, pass.controlword = nextControlword pass.statusword)
    (hlow : ∀ (k : Nat) (hk : k < ps.length), decodeState ps[k].statusword = .fault →
      level previous ps k = false) : FaultsReset previous ps := by
  constructor
  · intro k hk hfault
    exact (rise_iff_low ((level_succ previous hps hk).mpr hfault)).mpr (hlow k hk hfault)
  · intro fault cause hdrive k hk hheld hgone
    have hfault := (hdrive.reports k hk).mp hheld
    have hhigh := (level_succ previous hps hk).mpr hfault
    exact ⟨k, Nat.le_refl k, hk, released_of_edge hheld (hlow k hk hfault) hhigh
      (hgone k (Nat.le_refl k))⟩

theorem fault_stays (hps : ∀ pass ∈ ps, pass.controlword = nextControlword pass.statusword)
    {fault cause : Nat → Prop} (hdrive : Drive previous ps fault cause) {k : Nat} (hk : fault k)
    (hup : level previous ps k = true) {m : Nat} (hkm : k ≤ m) (hm : m ≤ ps.length) :
    fault m ∧ level previous ps m = true := by
  apply hdrive.stuck _ hk hup hkm hm
  intro j hj hheld
  exact (level_succ previous hps hj).mpr ((hdrive.reports j hj).mp hheld)

variable {σ : Type}

/-- The faults of a call, of at most max_steps passes, are all reset just if no fault is read
while bit 7 is still up from before. -/
theorem enableOperation_faultsReset_iff (node : CanopenCiA402Node) (bus : CanBus σ)
    (mode maxSteps : Int) (s : σ) (previous : Nat) :
    let ps := node.enablePasses bus mode maxSteps s
    ps.length ≤ maxSteps.toNat ∧
      (FaultsReset previous ps ↔ FaultsApart previous (ps.map Pass.statusword)) := by
  intro ps
  refine ⟨length_enablePasses_le mode maxSteps s, ?_⟩
  have hps : ∀ pass ∈ ps, pass.controlword = nextControlword pass.statusword :=
    enablePasses_controlword mode maxSteps s
  rw [← low_iff_apart hps]
  constructor
  · intro hreset k hk hfault
    exact (rise_iff_low ((level_succ previous hps hk).mpr hfault)).mp (hreset.edges k hk hfault)
  · exact faultsReset_of_low hps

end Reset

section Simulated

open CanopenCiA402Node

structure SimulatedDrive where
  fault : Bool
  causeReads : Nat
  controlword : Nat
  answer : List UInt8

def SimulatedDrive.statusword (d : SimulatedDrive) : UInt8 :=
  if d.fault then 0x08
  else
    match d.controlword with
    | 0x0006 => 0x21
    | 0x0007 => 0x23
    | 0x000F => 0x27
    | _ => 0x40

def SimulatedDrive.write (d : SimulatedDrive) (controlword : Nat) : SimulatedDrive :=
  let edge := faultReset controlword && !faultReset d.controlword
  { d with
    fault := d.fault && !(edge && d.causeReads == 0)
    controlword }

def simulatedBus : CanBus SimulatedDrive where
  send frame := modify fun d =>
    match frame.data with
    | [0x40, 0x41, 0x60, 0x00, _, _, _, _] =>
        { d with
          answer := [0x4B, 0x41, 0x60, 0x00, d.statusword, 0, 0, 0]
          causeReads := d.causeReads - 1 }
    | [0x2B, 0x40, 0x60, 0x00, low, high, _, _] =>
        { d.write (ofBytes [low, high]) with answer := [0x60, 0x40, 0x60, 0x00, 0, 0, 0, 0] }
    | [0x2F, 0x60, 0x60, 0x00, _, _, _, _] =>
        { d with answer := [0x60, 0x60, 0x60, 0x00, 0, 0, 0, 0] }
    | _ => d
  recv := do
    let d ← get
    liftExcept (CanFrame.new 0x581 d.answer)

theorem defaultMaxFrames_pos : 0 < 32 := by decide

theorem nodeOne_mem : 1 ≤ 1 ∧ 1 ≤ 127 := by decide

def simulatedNode : CanopenCiA402Node :=
  { nodeId := 1, sdo := ⟨1, 32, nodeOne_mem, defaultMaxFrames_pos⟩ }

/-- The cause is gone after the second read: the first pass comes too early, and all that follow
write the same controlword. -/
theorem enableOperation_fault_kept :
    let s : SimulatedDrive := ⟨true, 2, 0x0000, []⟩
    let run := exec (simulatedNode.enableOperation simulatedBus 8 16) s
    run.1 = .error (.runtimeError "CiA402 did not reach Operation Enabled") ∧
      run.2.fault = true ∧ run.2.causeReads = 0 ∧
        ¬FaultsReset s.controlword (simulatedNode.enablePasses simulatedBus 8 16 s) := by
  intro s run
  have hpasses : simulatedNode.enablePasses simulatedBus 8 16 s = List.replicate 16 ⟨0x08, 0x80⟩ := by
    decide +kernel
  refine ⟨by decide +kernel, by decide +kernel, by decide +kernel, fun hreset => ?_⟩
  rw [hpasses] at hreset
  have hedge := hreset.edges 1 (by decide) (by decide)
  revert hedge
  decide

end Simulated

end HilLab.Fieldbus.Cia402
