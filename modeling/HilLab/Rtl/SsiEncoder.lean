import HilLab.Lib.Clocked
import HilLab.Rtl.Common
import Mathlib.Tactic.SplitIfs

namespace HilLab.Rtl.SsiEncoder

open Common

variable {W : Nat}

structure MasterInput where
  start : Bool
  halfPeriodTicks : BitVec 32
  ssiDataAsync : Bool

structure Master (W : Nat) where
  sync : Sync2ff 1
  ssiClk : Bool
  capturedData : BitVec W
  busy : Bool
  donePulse : Bool
  bitCount : BitVec 16
  tickCount : BitVec 32
  phaseLow : Bool

def Master.reset : Master W :=
  { sync := .reset, ssiClk := true, capturedData := 0, busy := false, donePulse := false,
    bitCount := 0, tickCount := 0, phaseLow := false }

def Master.halfPeriodDue (s : Master W) (i : MasterInput) : Bool :=
  if i.halfPeriodTicks ≤ 1 then true else decide (i.halfPeriodTicks - 1 ≤ s.tickCount)

/-- The word moves up one place, and a new bit comes in below. -/
def shiftIn (data : BitVec W) (bit : Bool) : BitVec W := (data.concat bit).setWidth W

def Master.onRise (s next : Master W) : Master W :=
  let sampled :=
    { next with
      ssiClk := true
      phaseLow := false
      capturedData := shiftIn s.capturedData (s.sync.bit 0) }
  if W - 1 ≤ s.bitCount.toNat then
    { sampled with bitCount := BitVec.ofNat 16 W, busy := false, donePulse := true }
  else { sampled with bitCount := s.bitCount + 1 }

def Master.step (s : Master W) (i : MasterInput) : Master W :=
  let next := { s with sync := s.sync.step (BitVec.ofBool i.ssiDataAsync), donePulse := false }
  if !s.busy then
    let idle := { next with ssiClk := true, tickCount := 0, phaseLow := false }
    if i.start then { idle with capturedData := 0, bitCount := 0, busy := true } else idle
  else if s.halfPeriodDue i then
    let due := { next with tickCount := 0 }
    if !s.phaseLow then { due with ssiClk := false, phaseLow := true } else s.onRise due
  else { next with tickCount := s.tickCount + 1 }

structure EmulatorInput (W : Nat) where
  enable : Bool
  ssiClkAsync : Bool
  frameData : BitVec W
  frameGapTicks : BitVec 32
  faultFlipMask : BitVec W
  faultEnable : Bool

structure Emulator (W : Nat) where
  sync : Sync2ff 1
  ssiClkD : Bool
  gapCount : BitVec 32
  shiftData : BitVec W
  ssiData : Bool
  frameActive : Bool
  bitCount : BitVec 16
  frameDonePulse : Bool

def Emulator.reset : Emulator W :=
  { sync := .reset, ssiClkD := true, gapCount := 0xffffffff, shiftData := 0, ssiData := true,
    frameActive := false, bitCount := 0, frameDonePulse := false }

def Emulator.clkRise (s : Emulator W) : Bool := s.sync.bit 0 && !s.ssiClkD
def Emulator.clkFall (s : Emulator W) : Bool := !s.sync.bit 0 && s.ssiClkD

def Emulator.gapElapsed (s : Emulator W) (i : EmulatorInput W) : Bool :=
  i.frameGapTicks == 0 || decide (i.frameGapTicks ≤ s.gapCount)

def EmulatorInput.selectedFrame (i : EmulatorInput W) : BitVec W :=
  if i.faultEnable then i.frameData ^^^ i.faultFlipMask else i.frameData

/-- The assignments of an enabled emulator in source order: a later one overrides an
earlier one, and every right-hand side reads the old registers s. -/
def Emulator.count (s next : Emulator W) : Emulator W :=
  { next with
    gapCount :=
      if s.clkRise || s.clkFall then 0
      else if s.gapCount ≠ 0xffffffff then s.gapCount + 1 else s.gapCount }

def Emulator.expire (s next : Emulator W) (i : EmulatorInput W) : Emulator W :=
  if s.frameActive && s.gapElapsed i then
    { next with frameActive := false, bitCount := 0, ssiData := true }
  else next

def Emulator.shift (s next : Emulator W) (i : EmulatorInput W) : Emulator W :=
  if s.clkFall then
    if !s.frameActive then
      { next with
        shiftData := i.selectedFrame
        ssiData := i.selectedFrame.getLsbD (W - 1)
        frameActive := true
        bitCount := 1 }
    else if s.bitCount.toNat < W then
      { next with
        shiftData := s.shiftData <<< 1
        ssiData := s.shiftData.getLsbD (W - 2)
        bitCount := s.bitCount + 1 }
    else next
  else next

def Emulator.finish (s next : Emulator W) : Emulator W :=
  if s.frameActive && s.clkRise && decide (W ≤ s.bitCount.toNat) then
    { next with frameDonePulse := true, frameActive := false, bitCount := 0, ssiData := true }
  else next

def Emulator.step (s : Emulator W) (i : EmulatorInput W) : Emulator W :=
  let next :=
    { s with
      sync := s.sync.step (BitVec.ofBool i.ssiClkAsync)
      ssiClkD := s.sync.bit 0
      frameDonePulse := false }
  if !i.enable then
    { next with
      gapCount := 0xffffffff, shiftData := 0, ssiData := true, frameActive := false,
      bitCount := 0 }
  else s.finish (s.shift (s.expire (s.count next) i) i)

section Master

/-- A half period q of a transaction, r ticks into it. -/
structure Clocking (H : BitVec 32) (s : Master W) (q r : Nat) : Prop where
  busy : s.busy = true
  notLast : q < 2 * W
  early : r < H.toNat
  tick : s.tickCount.toNat = r
  phase : s.phaseLow = decide (q % 2 = 1)
  clock : s.ssiClk = decide (q % 2 = 0)
  bits : s.bitCount.toNat = q / 2

/-- Between two transactions. -/
structure Idle (s : Master W) : Prop where
  busy : s.busy = false
  clock : s.ssiClk = true

variable {s : Master W} {H : BitVec 32} {q r : Nat} (start data : Bool)

theorem due_iff (hH : 2 ≤ H.toNat) :
    s.halfPeriodDue ⟨start, H, data⟩ = decide (H.toNat ≤ s.tickCount.toNat + 1) := by
  have hone : ¬ H ≤ 1 := by
    rw [BitVec.le_def]
    change ¬ H.toNat ≤ 1
    omega
  have hsub : (H - 1).toNat = H.toNat - 1 := by
    rw [BitVec.toNat_sub]
    change (2 ^ 32 - 1 + H.toNat) % 2 ^ 32 = H.toNat - 1
    have hlt := H.isLt
    omega
  rw [Master.halfPeriodDue, if_neg hone, decide_eq_decide, BitVec.le_def, hsub]
  omega

theorem idle_waits (h : Idle s) :
    Idle (s.step ⟨false, H, data⟩) ∧ (s.step ⟨false, H, data⟩).donePulse = false := by
  rw [Master.step, h.busy]
  exact ⟨⟨rfl, rfl⟩, rfl⟩

theorem idle_starts (h : Idle s) (hW : 0 < W) (hH : 2 ≤ H.toNat) :
    Clocking H (s.step ⟨true, H, data⟩) 0 0 ∧ (s.step ⟨true, H, data⟩).donePulse = false ∧
      (s.step ⟨true, H, data⟩).capturedData = 0 := by
  rw [Master.step, h.busy]
  exact ⟨⟨rfl, by omega, by omega, rfl, rfl, rfl, rfl⟩, rfl, rfl⟩

theorem clocking_ticks (h : Clocking H s q r) (hH : 2 ≤ H.toNat) (hr : r + 1 < H.toNat) :
    Clocking H (s.step ⟨start, H, data⟩) q (r + 1) ∧
      (s.step ⟨start, H, data⟩).donePulse = false ∧
      (s.step ⟨start, H, data⟩).capturedData = s.capturedData := by
  have hdue : s.halfPeriodDue ⟨start, H, data⟩ = false := by
    rw [due_iff start data hH, h.tick]
    exact decide_eq_false (by omega)
  have hlt := H.isLt
  have htick : (s.tickCount + 1).toNat = r + 1 := by
    rw [BitVec.toNat_add, h.tick]
    change (r + 1) % 2 ^ 32 = _
    rw [Nat.mod_eq_of_lt (by omega)]
  rw [Master.step, h.busy, hdue]
  exact ⟨⟨rfl, h.notLast, hr, htick, h.phase, h.clock, h.bits⟩, rfl, rfl⟩

theorem clocking_falls (h : Clocking H s q r) (hH : 2 ≤ H.toNat) (hr : r + 1 = H.toNat)
    (hq : q % 2 = 0) :
    Clocking H (s.step ⟨start, H, data⟩) (q + 1) 0 ∧
      (s.step ⟨start, H, data⟩).donePulse = false ∧
      (s.step ⟨start, H, data⟩).capturedData = s.capturedData := by
  have hdue : s.halfPeriodDue ⟨start, H, data⟩ = true := by
    rw [due_iff start data hH, h.tick]
    exact decide_eq_true (by omega)
  have hphase : s.phaseLow = false := h.phase.trans (decide_eq_false (by omega))
  have hlast := h.notLast
  rw [Master.step, h.busy, hdue, hphase]
  refine ⟨⟨rfl, by omega, by omega, rfl, ?_, ?_, ?_⟩, rfl, rfl⟩
  · exact (decide_eq_true (by omega)).symm
  · exact (decide_eq_false (by omega)).symm
  · exact h.bits.trans (by omega)

theorem step_rises (hbusy : s.busy = true) (hdue : s.halfPeriodDue ⟨start, H, data⟩ = true)
    (hphase : s.phaseLow = true) :
    s.step ⟨start, H, data⟩ =
      s.onRise { s with sync := s.sync.step (BitVec.ofBool data), donePulse := false, tickCount := 0 } := by
  rw [Master.step, hbusy, hdue, hphase]
  rfl

theorem clocking_rises (h : Clocking H s q r) (hH : 2 ≤ H.toNat) (hW : W < 2 ^ 16)
    (hr : r + 1 = H.toNat) (hq : q % 2 = 1) (hlast : q + 1 < 2 * W) :
    Clocking H (s.step ⟨start, H, data⟩) (q + 1) 0 ∧
      (s.step ⟨start, H, data⟩).donePulse = false ∧
      (s.step ⟨start, H, data⟩).capturedData = shiftIn s.capturedData (s.sync.bit 0) := by
  have hdue : s.halfPeriodDue ⟨start, H, data⟩ = true := by
    rw [due_iff start data hH, h.tick]
    exact decide_eq_true (by omega)
  have hphase : s.phaseLow = true := h.phase.trans (decide_eq_true hq)
  have hbits := h.bits
  have hmore : ¬ W - 1 ≤ s.bitCount.toNat := by omega
  have hcount : (s.bitCount + 1).toNat = q / 2 + 1 := by
    rw [BitVec.toNat_add, hbits]
    change (q / 2 + 1) % 2 ^ 16 = _
    rw [Nat.mod_eq_of_lt (by omega)]
  rw [step_rises start data h.busy hdue hphase, Master.onRise, if_neg hmore]
  refine ⟨⟨h.busy, hlast, by omega, rfl, ?_, ?_, ?_⟩, rfl, rfl⟩
  · exact (decide_eq_false (by omega)).symm
  · exact (decide_eq_true (by omega)).symm
  · exact hcount.trans (by omega)

theorem clocking_ends (h : Clocking H s q r) (hH : 2 ≤ H.toNat) (hr : r + 1 = H.toNat)
    (hlast : q + 1 = 2 * W) :
    Idle (s.step ⟨start, H, data⟩) ∧ (s.step ⟨start, H, data⟩).donePulse = true ∧
      (s.step ⟨start, H, data⟩).capturedData = shiftIn s.capturedData (s.sync.bit 0) := by
  have hdue : s.halfPeriodDue ⟨start, H, data⟩ = true := by
    rw [due_iff start data hH, h.tick]
    exact decide_eq_true (by omega)
  have hphase : s.phaseLow = true := h.phase.trans (decide_eq_true (by omega))
  have hbits := h.bits
  have hdone : W - 1 ≤ s.bitCount.toNat := by omega
  rw [step_rises start data h.busy hdue hphase, Master.onRise, if_pos hdone]
  exact ⟨⟨rfl, rfl⟩, rfl, rfl⟩

end Master

section Emulator

/-- The emulator shows bit p of the frame F, counted from 1, g ticks after the last edge. -/
structure Sending (F : BitVec W) (s : Emulator W) (p g : Nat) : Prop where
  active : s.frameActive = true
  some : 0 < p
  bits : s.bitCount.toNat = p
  gap : s.gapCount.toNat = g
  shifted : s.shiftData = F <<< (p - 1)
  shown : s.ssiData = F.getMsbD (p - 1)

variable {s : Emulator W} {i : EmulatorInput W} {F : BitVec W} {p g : Nat}

def Emulator.sampled (s : Emulator W) (i : EmulatorInput W) : Emulator W :=
  { s with
    sync := s.sync.step (BitVec.ofBool i.ssiClkAsync)
    ssiClkD := s.sync.bit 0
    frameDonePulse := false }

theorem step_enabled (h : i.enable = true) :
    s.step i = s.finish (s.shift (s.expire (s.count (s.sampled i)) i) i) := by
  rw [Emulator.step, h]
  rfl

theorem expire_none {next : Emulator W} (h : s.frameActive = false ∨ s.gapElapsed i = false) :
    s.expire next i = next := by
  rw [Emulator.expire]
  rcases h with h | h
  · rw [h]
    rfl
  · rw [h, Bool.and_false]
    rfl

theorem shift_none {next : Emulator W} (h : s.clkFall = false) : s.shift next i = next := by
  rw [Emulator.shift, h]
  rfl

theorem finish_none {next : Emulator W}
    (h : s.frameActive = false ∨ s.clkRise = false ∨ s.bitCount.toNat < W) :
    s.finish next = next := by
  rw [Emulator.finish]
  rcases h with h | h | h
  · rw [h]
    rfl
  · rw [h, Bool.and_false]
    rfl
  · rw [decide_eq_false (Nat.not_le_of_lt h), Bool.and_false]
    rfl

theorem not_rise_of_fall (h : s.clkFall = true) : s.clkRise = false := by
  rw [Emulator.clkFall, Bool.and_eq_true, Bool.not_eq_true'] at h
  rw [Emulator.clkRise, h.1]
  rfl

theorem not_fall_of_rise (h : s.clkRise = true) : s.clkFall = false := by
  rw [Emulator.clkRise, Bool.and_eq_true] at h
  rw [Emulator.clkFall, h.1]
  rfl

theorem gap_open (h : s.gapCount.toNat < i.frameGapTicks.toNat) : s.gapElapsed i = false := by
  rw [Emulator.gapElapsed, Bool.or_eq_false_iff, beq_eq_false_iff_ne, decide_eq_false_iff_not,
    BitVec.le_def]
  refine ⟨fun hz => ?_, by omega⟩
  rw [hz] at h
  exact absurd h (Nat.not_lt_zero _)

theorem waiting_waits (hi : i.enable = true) (h : s.frameActive = false) (hfall : s.clkFall = false) :
    (s.step i).frameActive = false ∧ (s.step i).frameDonePulse = false := by
  rw [step_enabled hi, expire_none (.inl h), shift_none hfall, finish_none (.inl h)]
  exact ⟨h, rfl⟩

theorem waiting_loads (hi : i.enable = true) (h : s.frameActive = false) (hfall : s.clkFall = true)
    (hW : 0 < W) :
    Sending i.selectedFrame (s.step i) 1 0 ∧ (s.step i).frameDonePulse = false := by
  rw [step_enabled hi, expire_none (.inl h), Emulator.shift, hfall, h, finish_none (.inl h)]
  refine ⟨⟨rfl, by omega, rfl, ?_, (BitVec.shiftLeft_zero _).symm, ?_⟩, rfl⟩
  · change (s.count (s.sampled i)).gapCount.toNat = 0
    rw [Emulator.count, hfall, Bool.or_true]
    rfl
  · change i.selectedFrame.getLsbD (W - 1) = _
    rw [BitVec.getMsbD_eq_getLsbD, decide_eq_true (by omega), Bool.true_and]
    rfl

theorem sending_holds (hi : i.enable = true) (h : Sending F s p g)
    (hgap : g < i.frameGapTicks.toNat) (hrise : s.clkRise = false) (hfall : s.clkFall = false) :
    Sending F (s.step i) p (g + 1) ∧ (s.step i).frameDonePulse = false := by
  have hopen : s.gapElapsed i = false := gap_open (by rwa [h.gap])
  have hlt := i.frameGapTicks.isLt
  have hmax : s.gapCount ≠ 0xffffffff := by
    intro hz
    have hg : g = 4294967295 := by
      rw [← h.gap, hz]
      rfl
    omega
  rw [step_enabled hi, expire_none (.inr hopen), shift_none hfall, finish_none (.inr (.inl hrise))]
  refine ⟨⟨h.active, h.some, h.bits, ?_, h.shifted, h.shown⟩, rfl⟩
  rw [Emulator.count, hrise, hfall, Bool.or_self, if_neg Bool.false_ne_true, if_pos hmax]
  change (s.gapCount + 1).toNat = g + 1
  rw [BitVec.toNat_add, h.gap]
  change (g + 1) % 2 ^ 32 = _
  rw [Nat.mod_eq_of_lt (by omega)]

theorem sending_rises (hi : i.enable = true) (h : Sending F s p g)
    (hgap : g < i.frameGapTicks.toNat) (hrise : s.clkRise = true) (hp : p < W) :
    Sending F (s.step i) p 0 ∧ (s.step i).frameDonePulse = false := by
  have hopen : s.gapElapsed i = false := gap_open (by rwa [h.gap])
  have hmore : s.bitCount.toNat < W := by rwa [h.bits]
  rw [step_enabled hi, expire_none (.inr hopen), shift_none (not_fall_of_rise hrise),
    finish_none (.inr (.inr hmore))]
  refine ⟨⟨h.active, h.some, h.bits, ?_, h.shifted, h.shown⟩, rfl⟩
  rw [Emulator.count, hrise, Bool.true_or]
  rfl

theorem sending_shifts (hi : i.enable = true) (h : Sending F s p g)
    (hgap : g < i.frameGapTicks.toNat) (hfall : s.clkFall = true) (hp : p < W)
    (hW : W < 2 ^ 16) :
    Sending F (s.step i) (p + 1) 0 ∧ (s.step i).frameDonePulse = false := by
  have hopen : s.gapElapsed i = false := gap_open (by rwa [h.gap])
  have hmore : s.bitCount.toNat < W := by rwa [h.bits]
  have hsome := h.some
  rw [step_enabled hi, expire_none (.inr hopen), finish_none (.inr (.inl (not_rise_of_fall hfall))),
    Emulator.shift, hfall, h.active, if_pos hmore]
  refine ⟨⟨h.active, by omega, ?_, ?_, ?_, ?_⟩, rfl⟩
  · change (s.bitCount + 1).toNat = p + 1
    rw [BitVec.toNat_add, h.bits]
    change (p + 1) % 2 ^ 16 = _
    rw [Nat.mod_eq_of_lt (by omega)]
  · change (s.count (s.sampled i)).gapCount.toNat = 0
    rw [Emulator.count, hfall, Bool.or_true]
    rfl
  · change s.shiftData <<< 1 = F <<< (p + 1 - 1)
    have hsum : p + 1 - 1 = p - 1 + 1 := by omega
    rw [h.shifted, hsum, BitVec.shiftLeft_add]
  · change s.shiftData.getLsbD (W - 2) = F.getMsbD (p + 1 - 1)
    have hplace : W - 2 - (p - 1) = W - 1 - (p + 1 - 1) := by omega
    rw [h.shifted, BitVec.getLsbD_shiftLeft, BitVec.getMsbD_eq_getLsbD, hplace,
      decide_eq_true (by omega : W - 2 < W), decide_eq_false (by omega : ¬ W - 2 < p - 1),
      decide_eq_true (by omega : p + 1 - 1 < W)]
    rfl

theorem sending_ends (hi : i.enable = true) (h : Sending F s p g) (hrise : s.clkRise = true)
    (hp : p = W) :
    (s.step i).frameActive = false ∧ (s.step i).frameDonePulse = true := by
  have hlast : decide (W ≤ s.bitCount.toNat) = true := decide_eq_true (Nat.le_of_eq (hp.symm.trans h.bits.symm))
  rw [step_enabled hi, Emulator.finish, h.active, hrise, hlast]
  exact ⟨rfl, rfl⟩

end Emulator

end HilLab.Rtl.SsiEncoder
