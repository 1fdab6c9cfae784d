import HilLab.Backends.AbzRoundTrip
import HilLab.Boards.GatedLoopback
import HilLab.Rtl.SsiEncoder

namespace HilLab.Boards.Ax7010FpgaLiteTop

open Lib.Clocked Lib.Quadrature Rtl.Common Rtl.PwmCapture Rtl.PwmGenerator Rtl.Generators
open Rtl.AbzEncoderCapture Rtl.SsiEncoder GatedLoopback Backends.AbzDirection
open Rtl.PwmLoopback (watched)

structure LiteParams (W : Nat) where
  pwmPeriodTicks : BitVec 32
  pwmHighTicks : Fin 3 → BitVec 32
  pwmDeadtimeTicks : BitVec 32
  encoderCountsPerRev : Nat
  encoderStepPeriodTicks : BitVec 32
  ssiFrameData : BitVec W

def ax7010 : LiteParams 24 :=
  { pwmPeriodTicks := 5000
    pwmHighTicks := fun
      | 0 => 2500
      | 1 => 1667
      | 2 => 3333
    pwmDeadtimeTicks := 80
    encoderCountsPerRev := 4096
    encoderStepPeriodTicks := 1000
    ssiFrameData := 0xA55A3C }

structure Panel where
  hilEnableIn : Bool
  forceSafeIn : Bool
  clearFaultsIn : Bool
  encoderDirectionIn : Bool
  ssiMasterStartIn : Bool

structure Dut where
  pwmHighIn : Fin 3 → Bool
  pwmLowIn : Fin 3 → Bool
  encAIn : Bool
  encBIn : Bool
  encZIn : Bool
  ssiClkIn : Bool
  ssiDataIn : Bool

structure Stimulus where
  pwmHighOut : Fin 3 → Bool
  pwmLowOut : Fin 3 → Bool
  encAOut : Bool
  encBOut : Bool
  encZOut : Bool
  ssiClkOut : Bool
  ssiDataOut : Bool

/-- The registers of ax7010_fpga_lite_top in the domain of core_rst_n, by instance. -/
structure Lite (W : Nat) where
  controlSync : Sync2ff 5
  ssiMasterStartD : Bool
  timestamp : BitVec 64
  pwmGen : Fin 3 → Generator
  pwmCap : Fin 3 → Capture
  deadtime : Fin 3 → Monitor
  abzGenerator : AbzEncoder
  abzCapture : AbzCapture
  ssiEmulator : Emulator W
  ssiMaster : Master W
  pwmSeenLatched : Bool
  ssiSeenLatched : Bool

variable {W : Nat} (p : LiteParams W) (s : Lite W)

def Lite.reset : Lite W :=
  { controlSync := .reset, ssiMasterStartD := false, timestamp := 0, pwmGen := fun _ => .reset,
    pwmCap := fun _ => .reset, deadtime := fun _ => .reset, abzGenerator := .reset,
    abzCapture := .reset, ssiEmulator := .reset, ssiMaster := .reset, pwmSeenLatched := false,
    ssiSeenLatched := false }

def Lite.hilEnable : Bool := s.controlSync.bit 0
def Lite.forceSafe : Bool := s.controlSync.bit 1
def Lite.clearFaults : Bool := s.controlSync.bit 2
def Lite.encoderDirection : Bool := s.controlSync.bit 3
def Lite.ssiMasterStartSync : Bool := s.controlSync.bit 4
def Lite.outputsEnabled : Bool := s.hilEnable && !s.forceSafe
def Lite.ssiMasterStartPulse : Bool := s.ssiMasterStartSync && !s.ssiMasterStartD

def Panel.controlBus (i : Panel) : BitVec 5 :=
  BitVec.ofBool i.ssiMasterStartIn ++ BitVec.ofBool i.encoderDirectionIn ++
    BitVec.ofBool i.clearFaultsIn ++ BitVec.ofBool i.forceSafeIn ++ BitVec.ofBool i.hilEnableIn

theorem Panel.controlBus_bits (i : Panel) :
    i.controlBus[0] = i.hilEnableIn ∧ i.controlBus[1] = i.forceSafeIn := by
  obtain ⟨hilEnableIn, forceSafeIn, clearFaultsIn, encoderDirectionIn, ssiMasterStartIn⟩ := i
  cases hilEnableIn <;> cases forceSafeIn <;> cases clearFaultsIn <;> cases encoderDirectionIn <;>
    cases ssiMasterStartIn <;> decide

def Lite.generatorInput (k : Fin 3) : GeneratorInput :=
  { enable := s.outputsEnabled, periodTicks := p.pwmPeriodTicks, highTicks := p.pwmHighTicks k,
    deadtimeTicks := p.pwmDeadtimeTicks }

def Lite.monitorInput (i : Dut) (k : Fin 3) : MonitorInput :=
  { highAsync := i.pwmHighIn k, lowAsync := i.pwmLowIn k, timestamp := s.timestamp,
    minDeadtimeTicks := p.pwmDeadtimeTicks, clearFaults := s.clearFaults }

def Lite.abzInput : AbzInput :=
  { enable := s.outputsEnabled, directionForward := s.encoderDirection,
    stepPeriodTicks := p.encoderStepPeriodTicks }

def Lite.abzCaptureInput (i : Dut) : CaptureInput :=
  { encAAsync := i.encAIn, encBAsync := i.encBIn, encZAsync := i.encZIn, timestamp := s.timestamp,
    clearFaults := s.clearFaults }

def Lite.emulatorInput (i : Dut) : EmulatorInput W :=
  { enable := s.outputsEnabled, ssiClkAsync := i.ssiClkIn, frameData := p.ssiFrameData,
    frameGapTicks := 200, faultFlipMask := 0, faultEnable := false }

def Lite.masterInput (i : Dut) : MasterInput :=
  { start := s.ssiMasterStartPulse && s.outputsEnabled, halfPeriodTicks := 50,
    ssiDataAsync := i.ssiDataIn }

def Lite.pwmValid : Bool :=
  (s.pwmCap 0).periodValid || (s.pwmCap 1).periodValid || (s.pwmCap 2).periodValid

def Lite.ssiDone : Bool := s.ssiEmulator.frameDonePulse || s.ssiMaster.donePulse

def Lite.step (i : Panel) (d : Dut) : Lite W :=
  { controlSync := s.controlSync.step i.controlBus
    ssiMasterStartD := s.ssiMasterStartSync
    timestamp := timebaseStep s.timestamp
    pwmGen := fun k => (s.pwmGen k).step (s.generatorInput p k)
    pwmCap := fun k => (s.pwmCap k).step (d.pwmHighIn k) s.timestamp
    deadtime := fun k => (s.deadtime k).step (s.monitorInput p d k)
    abzGenerator := s.abzGenerator.step p.encoderCountsPerRev (s.abzInput p)
    abzCapture := s.abzCapture.step (s.abzCaptureInput d)
    ssiEmulator := s.ssiEmulator.step (s.emulatorInput p d)
    ssiMaster := s.ssiMaster.step (s.masterInput d)
    pwmSeenLatched := !s.clearFaults && (s.pwmValid || s.pwmSeenLatched)
    ssiSeenLatched := !s.clearFaults && (s.ssiDone || s.ssiSeenLatched) }

def Lite.stimulus : Stimulus :=
  { pwmHighOut := fun k => if s.outputsEnabled then (s.pwmGen k).pwmHigh else false
    pwmLowOut := fun k => if s.outputsEnabled then (s.pwmGen k).pwmLow else false
    encAOut := if s.outputsEnabled then s.abzGenerator.encA else false
    encBOut := if s.outputsEnabled then s.abzGenerator.encB else false
    encZOut := if s.outputsEnabled then s.abzGenerator.encZ else false
    ssiClkOut := if s.outputsEnabled then s.ssiMaster.ssiClk else true
    ssiDataOut := if s.outputsEnabled then s.ssiEmulator.ssiData else true }

def Lite.shoot (k : Fin 3) : Bool := (s.deadtime k).shootThroughLatched
def Lite.deadFault (k : Fin 3) : Bool := (s.deadtime k).deadtimeViolationLatched

def Lite.faultSummary : Bool :=
  s.shoot 0 || s.shoot 1 || s.shoot 2 || s.deadFault 0 || s.deadFault 1 || s.deadFault 2 ||
    s.abzCapture.illegalTransitionLatched

def Lite.faultOut : Bool := if s.outputsEnabled then s.faultSummary else false

/-- The connector loopback: every stimulus pin wired to the input of its name. -/
def Stimulus.jumpered (o : Stimulus) : Dut :=
  { pwmHighIn := o.pwmHighOut, pwmLowIn := o.pwmLowOut, encAIn := o.encAOut, encBIn := o.encBOut,
    encZIn := o.encZOut, ssiClkIn := o.ssiClkOut, ssiDataIn := o.ssiDataOut }

def Lite.loopStep (i : Panel) : Lite W := s.step p i s.stimulus.jumpered

structure BoardInput where
  extResetN : Bool
  clkLocked : Bool
  panel : Panel

/-- The board: the reset shift register and the domain it releases. -/
structure Top (W : Nat) where
  resetRelease : BitVec 4
  lite : Lite W

def Top.reset : Top W := ⟨0, .reset⟩

def Top.coreRstN (t : Top W) : Bool := t.resetRelease.getLsbD 3

def nextRelease (release : BitVec 4) (i : BoardInput) : BitVec 4 :=
  if !i.extResetN then 0
  else if !i.clkLocked then 0
  else release.extractLsb' 0 3 ++ 1#1

/-- One clock of the board with its connectors looped. The reset is asynchronous: it clears the
domain as soon as it is asserted, and the domain first moves in the clock after its release. -/
def Top.loopStep (t : Top W) (i : BoardInput) : Top W :=
  let release := nextRelease t.resetRelease i
  { resetRelease := release
    lite := if t.coreRstN && release.getLsbD 3 then t.lite.loopStep p i.panel else .reset }

section Runs

variable (x : Nat → Panel)

def liteAt (n : Nat) : Lite W := wave (Lite.loopStep p) .reset x n

def gateAt (n : Nat) : Bool := (liteAt p x n).outputsEnabled

def netAt (n : Nat) : Int :=
  emulatorNet p.encoderCountsPerRev (fun k => (liteAt p x k).abzInput p) n

theorem timestamp_eq (n : Nat) : (liteAt p x n).timestamp = BitVec.ofNat 64 n := by
  induction n with
  | zero => rfl
  | succ n ih =>
      rw [BitVec.ofNat_add, ← ih]
      rfl

theorem pwmGen_eq (k : Fin 3) (n : Nat) :
    (liteAt p x n).pwmGen k = generated
      (enabledBy (gateAt p x) p.pwmPeriodTicks (p.pwmHighTicks k) p.pwmDeadtimeTicks) n :=
  wave_part (Lite.loopStep p) Generator.step (fun s => s.pwmGen k)
    (fun s _ => s.generatorInput p k) (fun _ _ => rfl) .reset x n

theorem deadtime_eq (k : Fin 3) (n : Nat) :
    (liteAt p x n).deadtime k = watched (fun j => (liteAt p x j).stimulus.pwmHighOut k)
      (fun j => (liteAt p x j).stimulus.pwmLowOut k) (fun _ => p.pwmDeadtimeTicks)
      (fun j => (liteAt p x j).clearFaults) n := by
  have hpart := wave_part (Lite.loopStep p) Monitor.step (fun s => s.deadtime k)
    (fun s _ => s.monitorInput p s.stimulus.jumpered k) (fun _ _ => rfl) .reset x n
  refine hpart.trans ?_
  rw [watched]
  refine congrArg (fun y => wave Monitor.step .reset y n) (funext fun j => ?_)
  rw [← timestamp_eq p x j]
  rfl

theorem abzGenerator_eq (n : Nat) :
    (liteAt p x n).abzGenerator =
      encoderAt p.encoderCountsPerRev (fun k => (liteAt p x k).abzInput p) n :=
  wave_part (Lite.loopStep p) (AbzEncoder.step p.encoderCountsPerRev) Lite.abzGenerator
    (fun s _ => s.abzInput p) (fun _ _ => rfl) .reset x n

theorem abzCapture_eq (n : Nat) :
    (liteAt p x n).abzCapture = wave AbzCapture.step .reset
      (fun k => (liteAt p x k).abzCaptureInput (liteAt p x k).stimulus.jumpered) n :=
  wave_part (Lite.loopStep p) AbzCapture.step Lite.abzCapture
    (fun s _ => s.abzCaptureInput s.stimulus.jumpered) (fun _ _ => rfl) .reset x n

section Legs

variable (k : Fin 3) {m n : Nat}

theorem pwmHighOut_on (h : (liteAt p x n).stimulus.pwmHighOut k = true) :
    (generated (enabledBy (gateAt p x) p.pwmPeriodTicks (p.pwmHighTicks k) p.pwmDeadtimeTicks)
      n).pwmHigh = true := by
  rw [← pwmGen_eq]
  simp only [Lite.stimulus, Bool.if_false_right, Bool.and_eq_true] at h
  exact h.2

theorem pwmLowOut_on (h : (liteAt p x n).stimulus.pwmLowOut k = true) :
    (generated (enabledBy (gateAt p x) p.pwmPeriodTicks (p.pwmHighTicks k) p.pwmDeadtimeTicks)
      n).pwmLow = true := by
  rw [← pwmGen_eq]
  simp only [Lite.stimulus, Bool.if_false_right, Bool.and_eq_true] at h
  exact h.2

theorem legs_exclusive (n : Nat) : ¬ ((liteAt p x n).stimulus.pwmHighOut k = true ∧
    (liteAt p x n).stimulus.pwmLowOut k = true) :=
  fun ⟨hhigh, hlow⟩ => generated_exclusive _ n ⟨pwmHighOut_on p x k hhigh, pwmLowOut_on p x k hlow⟩

theorem legs_faultless (hn : n ≤ 0x10000000000000000) :
    (liteAt p x n).shoot k = false ∧ (liteAt p x n).deadFault k = false := by
  rw [Lite.shoot, Lite.deadFault, deadtime_eq]
  refine watched_kept (legs_exclusive p x k) (fun i j hi hj hij => ?_) (fun i j hi hj hij => ?_) n hn
  · exact high_then_low (pwmHighOut_on p x k hi) (pwmLowOut_on p x k hj) hij
  · exact low_then_high (pwmLowOut_on p x k hi) (pwmHighOut_on p x k hj) hij

end Legs

section Encoder

/-- The outputs are switched on or off while A and B are both up. -/
def switchedUp (s t : Lite W) : Bool :=
  s.outputsEnabled && !t.outputsEnabled && (s.abzGenerator.encA && s.abzGenerator.encB) ||
    !s.outputsEnabled && t.outputsEnabled && (t.abzGenerator.encA && t.abzGenerator.encB)

theorem levels_eq (n : Nat) :
    BitVec.ofBool (liteAt p x n).abzGenerator.encA ++
      BitVec.ofBool (liteAt p x n).abzGenerator.encB = gray (netAt p x n) := by
  rw [abzGenerator_eq]
  exact emulatorPins_gray p.encoderCountsPerRev (fun k => (liteAt p x k).abzInput p) (fun _ => 0)
    (fun _ => false) n

theorem up_iff (n : Nat) :
    ((liteAt p x n).abzGenerator.encA && (liteAt p x n).abzGenerator.encB) =
      decide (netAt p x n % 4 = 2) := by
  have hlevels := levels_eq p x n
  have hc : netAt p x n % 4 = 0 ∨ netAt p x n % 4 = 1 ∨ netAt p x n % 4 = 2 ∨ netAt p x n % 4 = 3 := by
    omega
  rw [gray] at hlevels
  revert hlevels
  rcases hc with hc | hc | hc | hc <;> simp only [hc] <;>
    cases (liteAt p x n).abzGenerator.encA <;> cases (liteAt p x n).abzGenerator.encB <;> decide

theorem switchedUp_eq (n : Nat) :
    switchedUp (liteAt p x n) (liteAt p x (n + 1)) = cut (gateAt p x) (netAt p x) n := by
  rw [switchedUp, up_iff, up_iff]
  rfl

theorem pins_gray (n : Nat) :
    ((liteAt p x n).abzCaptureInput (liteAt p x n).stimulus.jumpered).ab =
      gray (gated (gateAt p x) (netAt p x) n) := by
  have hlevels := levels_eq p x n
  rw [gated]
  cases hg : gateAt p x n with
  | false =>
      rw [gateAt] at hg
      simp [CaptureInput.ab, Lite.abzCaptureInput, Stimulus.jumpered, Lite.stimulus, hg, gray]
  | true =>
      rw [gateAt] at hg
      simpa [CaptureInput.ab, Lite.abzCaptureInput, Stimulus.jumpered, Lite.stimulus, hg]
        using hlevels

theorem netAt_zero : netAt p x 0 = 0 := net_zero _ _

theorem gated_start : gated (gateAt p x) (netAt p x) 0 = 0 := by
  rw [gated, netAt_zero, ite_self]

theorem net_adjacent (n : Nat) : Adjacent (netAt p x n) (netAt p x (n + 1)) :=
  emulatorNet_adjacent p.encoderCountsPerRev (fun k => (liteAt p x k).abzInput p) n

theorem net_held (n : Nat) (h : gateAt p x n = false) : netAt p x (n + 1) = netAt p x n := by
  have hoff : ((liteAt p x n).abzInput p).enable = false := h
  rw [netAt, netAt, Backends.AbzRoundTrip.emulatorNet_succ, Backends.AbzRoundTrip.steps, hoff]
  simp

theorem illegal_iff (n : Nat) :
    (liteAt p x n).abzCapture.illegalTransitionLatched = true ↔
      ∃ m, m + 3 < n ∧ switchedUp (liteAt p x m) (liteAt p x (m + 1)) = true ∧
        ∀ k, m + 3 < k → k < n → (liteAt p x k).clearFaults = false := by
  rw [abzCapture_eq, decoder_illegal (gated_start p x) (pins_gray p x)]
  simp only [struck_gated (net_adjacent p x), switchedUp_eq]
  rfl

theorem position_follows {n : Nat} (hon : gateAt p x n = true)
    (hcut : ∀ m, m < n → switchedUp (liteAt p x m) (liteAt p x (m + 1)) = false) :
    (liteAt p x (n + 3)).abzCapture.positionEdges = (liteAt p x n).abzGenerator.positionEdges := by
  have hfaithful := faithful_of_uncut (net_adjacent p x) (net_held p x) (netAt_zero p x)
    (fun m hm => (switchedUp_eq p x m).symm.trans (hcut m hm))
  rw [Faithful, hon] at hfaithful
  rw [abzCapture_eq, decoder_position (gated_start p x) (pins_gray p x), hfaithful, abzGenerator_eq]
  exact (Backends.AbzRoundTrip.position_eq p.encoderCountsPerRev _ n).symm

end Encoder

end Runs

section Board

variable (x : Nat → BoardInput)

def topAt (n : Nat) : Top W := wave (Top.loopStep p) .reset x n

def held (n : Nat) : Bool := !((topAt p x n).coreRstN && (topAt p x (n + 1)).coreRstN)

/-- The domain runs from clock m to clock n. -/
def Running (m n : Nat) : Prop := ∀ k, m ≤ k → k < n → held p x k = false

def panelAt (n k : Nat) : Panel := (x (since (held p x) n + k)).panel

theorem lite_eq (n : Nat) :
    (topAt p x n).lite = liteAt p (panelAt p x n) (n - since (held p x) n) := by
  have hreset : ∀ k, held p x k = true → (topAt p x (k + 1)).lite = .reset := by
    intro k hk
    refine if_neg (fun hrun => ?_)
    rw [held, Bool.not_eq_true'] at hk
    exact absurd (hrun.symm.trans hk) (by decide)
  have hrun : ∀ k, held p x k = false →
      (topAt p x (k + 1)).lite = (topAt p x k).lite.loopStep p (x k).panel := by
    intro k hk
    rw [held, Bool.not_eq_false'] at hk
    exact if_pos hk
  exact @wave_since _ _ (Lite.loopStep p) _ (fun k => (x k).panel) _ (fun k => (topAt p x k).lite)
    rfl hreset hrun n

theorem running_iff {m n : Nat} (h : m ≤ n) : Running p x m n ↔ since (held p x) n ≤ m :=
  (since_le_iff (held p x) h).symm

theorem lite_since {n k : Nat} (h : since (held p x) n + k ≤ n) :
    (topAt p x (since (held p x) n + k)).lite = liteAt p (panelAt p x n) k := by
  have hsame : since (held p x) (since (held p x) n + k) = since (held p x) n :=
    since_eq _ (Nat.le_add_right _ _) h
  have hpanel : panelAt p x (since (held p x) n + k) = panelAt p x n := by
    funext j
    rw [panelAt, panelAt, hsame]
  rw [lite_eq, hpanel, hsame, Nat.add_sub_cancel_left]

theorem board_legs (k : Fin 3) (n : Nat) (hn : n ≤ 0x10000000000000000) :
    ¬ ((topAt p x n).lite.stimulus.pwmHighOut k = true ∧
        (topAt p x n).lite.stimulus.pwmLowOut k = true) ∧
      (topAt p x n).lite.shoot k = false ∧ (topAt p x n).lite.deadFault k = false := by
  rw [lite_eq]
  exact ⟨legs_exclusive p _ k _, legs_faultless p _ k (Nat.le_trans (Nat.sub_le _ _) hn)⟩

theorem board_illegal (n : Nat) :
    (topAt p x n).lite.abzCapture.illegalTransitionLatched = true ↔
      ∃ m, m + 3 < n ∧ Running p x m n ∧
        switchedUp (topAt p x m).lite (topAt p x (m + 1)).lite = true ∧
        ∀ k, m + 3 < k → k < n → (topAt p x k).lite.clearFaults = false := by
  have hstart := since_le (held p x) n
  rw [lite_eq, illegal_iff]
  constructor
  · rintro ⟨m, hm, hswitch, hquiet⟩
    refine ⟨since (held p x) n + m, by omega, (running_iff p x (by omega)).mpr (by omega), ?_, ?_⟩
    · rw [lite_since p x (by omega), Nat.add_assoc, lite_since p x (by omega)]
      exact hswitch
    · intro k hk hkn
      obtain ⟨j, rfl⟩ := Nat.exists_eq_add_of_le (by omega : since (held p x) n ≤ k)
      rw [lite_since p x (Nat.le_of_lt hkn)]
      exact hquiet j (by omega) (by omega)
  · rintro ⟨m, hm, hrun, hswitch, hquiet⟩
    obtain ⟨j, rfl⟩ := Nat.exists_eq_add_of_le ((running_iff p x (by omega)).mp hrun)
    rw [lite_since p x (by omega), Nat.add_assoc, lite_since p x (by omega)] at hswitch
    refine ⟨j, by omega, hswitch, fun k hk hkn => ?_⟩
    have hclear := hquiet (since (held p x) n + k) (by omega) (by omega)
    rw [lite_since p x (by omega)] at hclear
    exact hclear

theorem board_position {m : Nat} (hrun : Running p x m (m + 3))
    (hon : (topAt p x m).lite.outputsEnabled = true)
    (hcut : ∀ k, k < m → Running p x k m →
      switchedUp (topAt p x k).lite (topAt p x (k + 1)).lite = false) :
    (topAt p x (m + 3)).lite.abzCapture.positionEdges =
      (topAt p x m).lite.abzGenerator.positionEdges := by
  have hle := (running_iff p x (Nat.le_add_right m 3)).mp hrun
  have hsame : since (held p x) m = since (held p x) (m + 3) :=
    since_eq _ hle (Nat.le_add_right m 3)
  obtain ⟨j, hj⟩ := Nat.exists_eq_add_of_le hle
  have hlater : (topAt p x (m + 3)).lite = liteAt p (panelAt p x (m + 3)) (j + 3) := by
    rw [lite_eq]
    exact congrArg _ (by omega)
  have hnow : (topAt p x m).lite = liteAt p (panelAt p x (m + 3)) j := by
    exact (congrArg (fun k => (topAt p x k).lite) hj).trans (lite_since p x (by omega))
  rw [hnow] at hon ⊢
  rw [hlater]
  refine position_follows p _ hon (fun k hk => ?_)
  have hswitch := hcut (since (held p x) (m + 3) + k) (by omega)
    ((running_iff p x (by omega)).mpr (by omega))
  rw [lite_since p x (by omega), Nat.add_assoc, lite_since p x (by omega)] at hswitch
  exact hswitch

/-- The switch on the panel and the emergency input act after the two clocks of their
synchronisers, and no reset between lets the outputs on. -/
theorem board_outputs (n : Nat) :
    (topAt p x (n + 2)).lite.outputsEnabled = true ↔
      Running p x n (n + 2) ∧ (x n).panel.hilEnableIn = true ∧ (x n).panel.forceSafeIn = false := by
  have hstep : ∀ k, (topAt p x (k + 1)).lite =
      if held p x k then .reset else (topAt p x k).lite.loopStep p (x k).panel := by
    intro k
    rw [held]
    cases hk : (topAt p x k).coreRstN && (topAt p x (k + 1)).coreRstN with
    | true => exact if_pos hk
    | false => exact if_neg (fun hrun => absurd (hrun.symm.trans hk) (by decide))
  have hrun : Running p x n (n + 2) ↔ held p x n = false ∧ held p x (n + 1) = false := by
    constructor
    · exact fun h => ⟨h n (Nat.le_refl n) (by omega), h (n + 1) (Nat.le_succ n) (by omega)⟩
    · rintro ⟨hn, hnext⟩ k hk hkn
      rcases (by omega : k = n ∨ k = n + 1) with rfl | rfl
      · exact hn
      · exact hnext
  rw [hrun, hstep (n + 1), hstep n]
  cases held p x (n + 1) with
  | true => simp [Lite.reset, Lite.outputsEnabled, Lite.hilEnable, Sync2ff.reset, Sync2ff.bit]
  | false =>
      cases held p x n with
      | true =>
          simp [Lite.loopStep, Lite.step, Lite.reset, Lite.outputsEnabled, Lite.hilEnable,
            Sync2ff.reset, Sync2ff.step, Sync2ff.bit]
      | false =>
          obtain ⟨henable, hsafe⟩ := (x n).panel.controlBus_bits
          simp [Lite.loopStep, Lite.step, Lite.outputsEnabled, Lite.hilEnable, Lite.forceSafe,
            Sync2ff.step, Sync2ff.bit, henable, hsafe]

theorem board_faults {n : Nat} (hn : n ≤ 0x10000000000000000) :
    (topAt p x n).lite.faultSummary = (topAt p x n).lite.abzCapture.illegalTransitionLatched := by
  have hlegs := fun k => (board_legs p x k n hn).2
  simp only [Lite.faultSummary, hlegs, Bool.or_self, Bool.false_or]

/-- The board with its stimulus pins wired to its inputs, whatever the panel, the resets and the
settings. Its outputs follow the panel. The legs never meet, and no monitor latches a shoot-through
or a short dead time. The fault lamp lights for one reason: the outputs were switched while A and B
were both up. Until that happens the captured position is the generated one. -/
theorem connector_loopback (n : Nat) (hn : n ≤ 0x10000000000000000) :
    ((topAt p x (n + 2)).lite.outputsEnabled = true ↔ Running p x n (n + 2) ∧
      (x n).panel.hilEnableIn = true ∧ (x n).panel.forceSafeIn = false) ∧
    (∀ k, ¬ ((topAt p x n).lite.stimulus.pwmHighOut k = true ∧
        (topAt p x n).lite.stimulus.pwmLowOut k = true) ∧
      (topAt p x n).lite.shoot k = false ∧ (topAt p x n).lite.deadFault k = false) ∧
    ((topAt p x n).lite.faultSummary = true ↔ ∃ m, m + 3 < n ∧ Running p x m n ∧
      switchedUp (topAt p x m).lite (topAt p x (m + 1)).lite = true ∧
      ∀ k, m + 3 < k → k < n → (topAt p x k).lite.clearFaults = false) ∧
    (Running p x n (n + 3) → (topAt p x n).lite.outputsEnabled = true →
      (∀ k, k < n → Running p x k n →
        switchedUp (topAt p x k).lite (topAt p x (k + 1)).lite = false) →
      (topAt p x (n + 3)).lite.abzCapture.positionEdges =
        (topAt p x n).lite.abzGenerator.positionEdges) := by
  refine ⟨board_outputs p x n, fun k => board_legs p x k n hn, ?_, ?_⟩
  · rw [board_faults p x hn, board_illegal]
  · exact fun hrun hon hcut => board_position p x hrun hon hcut

def bench : LiteParams 2 :=
  { pwmPeriodTicks := 8, pwmHighTicks := fun _ => 4, pwmDeadtimeTicks := 1,
    encoderCountsPerRev := 16, encoderStepPeriodTicks := 2, ssiFrameData := 1 }

def switchedOn (_ : Nat) : BoardInput := ⟨true, true, ⟨true, false, false, true, false⟩⟩

theorem connector_loopback_on :
    (topAt bench switchedOn 11).lite.abzCapture.positionEdges = 1 := by
  have hheld : ∀ k, k < 11 → 4 ≤ k → held bench switchedOn k = false := by decide
  have hcut : ∀ k, k < 8 →
      switchedUp (topAt bench switchedOn k).lite (topAt bench switchedOn (k + 1)).lite = false := by
    decide
  have hon : (topAt bench switchedOn 8).lite.outputsEnabled = true := by decide
  have hgenerated : (topAt bench switchedOn 8).lite.abzGenerator.positionEdges = 1 := by decide
  have hposition := (connector_loopback bench switchedOn 8 (by decide)).2.2.2
    (fun k hk hlt => hheld k hlt (by omega)) hon (fun k hk _ => hcut k hk)
  rw [hgenerated] at hposition
  exact hposition

end Board

end HilLab.Boards.Ax7010FpgaLiteTop
