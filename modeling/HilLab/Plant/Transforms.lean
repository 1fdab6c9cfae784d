import HilLab.Plant.PmsmDqPlant

namespace HilLab.Plant.Transforms

open PmsmDqPlant

def pwmTicksToDutyQ16 (periodTicks highTicks : BitVec 32) (valid : Bool) : BitVec 32 :=
  if !valid || periodTicks == 0 then 0
  else if periodTicks ≤ highTicks then 0x00010000
  else ((highTicks.setWidth 64 <<< 16) / periodTicks.setWidth 64).setWidth 32

structure Phases where
  u : BitVec 32
  v : BitVec 32
  w : BitVec 32

def centeredDuty (duty : BitVec 32) : BitVec 32 :=
  let clamped := if 0x00010000 < duty then 0x00010000 else duty
  clamped - 0x00008000

def legQ16 (vbusQ16 duty : BitVec 32) : BitVec 32 := qmul vbusQ16 (centeredDuty duty)

/-- Verilog divides signed words towards zero, as sdiv does. -/
def commonModeQ16 (leg : Phases) : BitVec 32 :=
  let legSum := leg.u.signExtend 34 + leg.v.signExtend 34 + leg.w.signExtend 34
  (legSum.sdiv 3).setWidth 32

def averagedInverterAbcQ16 (duty : Phases) (vbusQ16 : BitVec 32) : Phases :=
  let leg : Phases := ⟨legQ16 vbusQ16 duty.u, legQ16 vbusQ16 duty.v, legQ16 vbusQ16 duty.w⟩
  { u := leg.u - commonModeQ16 leg
    v := leg.v - commonModeQ16 leg
    w := leg.w - commonModeQ16 leg }

structure AlphaBeta where
  alpha : BitVec 32
  beta : BitVec 32

structure DirectQuadrature where
  d : BitVec 32
  q : BitVec 32

structure SinCos where
  sin : BitVec 32
  cos : BitVec 32

/-- The third phase is an input that the transform does not read. -/
def clarkeAbcQ16 (abc : Phases) : AlphaBeta :=
  let betaSumExt := abc.u.signExtend 33 + (abc.v.signExtend 33 <<< 1)
  { alpha := abc.u
    beta := qmul (betaSumExt.setWidth 32) 37837 }

def parkAlphabetaQ16 (x : AlphaBeta) (e : SinCos) : DirectQuadrature :=
  { d := qmul x.alpha e.cos + qmul x.beta e.sin
    q := -qmul x.alpha e.sin + qmul x.beta e.cos }

def inverseParkQ16 (x : DirectQuadrature) (e : SinCos) : AlphaBeta :=
  { alpha := qmul x.d e.cos - qmul x.q e.sin
    beta := qmul x.d e.sin + qmul x.q e.cos }

def inverseClarkeQ16 (x : AlphaBeta) : Phases :=
  let halfAlpha := qmul x.alpha 32768
  let betaTerm := qmul x.beta 56756
  { u := x.alpha
    v := -halfAlpha + betaTerm
    w := -halfAlpha - betaTerm }

def sinTable : List (BitVec 32) :=
  [0, 1634, 3267, 4898, 6525, 8149, 9768, 11380, 12986, 14583, 16171, 17750, 19317, 20872,
    22415, 23943, 25456, 26954, 28435, 29898, 31343, 32768, 34173, 35556, 36918, 38256, 39571,
    40861, 42126, 43364, 44576, 45760, 46915, 48041, 49138, 50203, 51238, 52241, 53211, 54148,
    55052, 55921, 56756, 57555, 58319, 59046, 59736, 60390, 61006, 61584, 62123, 62624, 63087,
    63509, 63893, 64237, 64540, 64804, 65027, 65210, 65353, 65455, 65516, 65536]

def sinLut (index : BitVec 6) : BitVec 32 := sinTable.getD index.toNat 0

def sincosLutQ16 (phaseTurnQ32 : BitVec 32) : SinCos :=
  let quadrant := phaseTurnQ32.extractLsb' 30 2
  let index := phaseTurnQ32.extractLsb' 24 6
  let sinBase := sinLut index
  let cosBase := sinLut (63 - index)
  if quadrant = 0b00 then ⟨sinBase, cosBase⟩
  else if quadrant = 0b01 then ⟨cosBase, -sinBase⟩
  else if quadrant = 0b10 then ⟨-sinBase, -cosBase⟩
  else ⟨-cosBase, sinBase⟩

def q16ToDacCode (signalQ16 gainCodesPerUnitQ16 : BitVec 32) (offsetCode : BitVec 16) : BitVec 16 :=
  let product := signalQ16.signExtend 64 * gainCodesPerUnitQ16.signExtend 64
  let codeExt := offsetCode.setWidth 64 + product.sshiftRight 32
  if codeExt.slt 0 then 0x0000
  else if (65535 : BitVec 64).slt codeExt then 0xffff
  else codeExt.setWidth 16

/-- The share of a period, in 1/65536, that the duty of a leg stands for. -/
def shareQ16 (periodTicks highTicks : BitVec 32) : Nat :=
  min 65536 (highTicks.toNat * 65536 / periodTicks.toNat)

theorem pwmTicksToDutyQ16_valid (periodTicks highTicks : BitVec 32) :
    (pwmTicksToDutyQ16 periodTicks highTicks true).toNat = shareQ16 periodTicks highTicks := by
  have hhigh := highTicks.isLt
  have hperiod := periodTicks.isLt
  rw [pwmTicksToDutyQ16, shareQ16]
  by_cases hzero : periodTicks = 0
  · subst hzero
    simp
  have hpos : 0 < periodTicks.toNat := by
    apply Nat.pos_of_ne_zero
    intro h
    exact hzero (BitVec.eq_of_toNat_eq h)
  rw [if_neg (by simpa using hzero)]
  by_cases hfull : periodTicks ≤ highTicks
  · have hle : periodTicks.toNat ≤ highTicks.toNat := hfull
    have hshare : 65536 ≤ highTicks.toNat * 65536 / periodTicks.toNat :=
      (Nat.le_div_iff_mul_le hpos).mpr (by omega)
    rw [if_pos hfull, Nat.min_eq_left hshare]
    rfl
  · have hlt : highTicks.toNat < periodTicks.toNat := Nat.lt_of_not_le hfull
    have hshare : highTicks.toNat * 65536 / periodTicks.toNat < 65536 :=
      (Nat.div_lt_iff_lt_mul hpos).mpr (by omega)
    have hnumerator : (highTicks.setWidth 64 <<< 16).toNat = highTicks.toNat * 65536 := by
      rw [BitVec.toNat_shiftLeft, BitVec.toNat_setWidth, Nat.shiftLeft_eq]
      omega
    have hdenominator : (periodTicks.setWidth 64).toNat = periodTicks.toNat := by
      rw [BitVec.toNat_setWidth]
      omega
    rw [if_neg hfull, BitVec.toNat_setWidth, BitVec.toNat_udiv, hnumerator, hdenominator,
      Nat.min_eq_right (Nat.le_of_lt hshare), Nat.mod_eq_of_lt (by omega)]

theorem pwmTicksToDutyQ16_invalid (periodTicks highTicks : BitVec 32) :
    pwmTicksToDutyQ16 periodTicks highTicks false = 0 := rfl

theorem shareQ16_eq_zero_iff (periodTicks highTicks : BitVec 32) :
    shareQ16 periodTicks highTicks = 0 ↔
      periodTicks = 0 ∨ highTicks.toNat * 65536 < periodTicks.toNat := by
  have hzero : periodTicks.toNat = 0 ↔ periodTicks = 0 :=
    ⟨fun h => BitVec.eq_of_toNat_eq h, fun h => h ▸ rfl⟩
  rw [shareQ16, ← hzero, ← Nat.div_eq_zero_iff]
  omega

end HilLab.Plant.Transforms
