import HilLab.Plant.Transforms
import Mathlib.Algebra.Order.Field.Rat
import Mathlib.Tactic.Linarith
import Mathlib.Tactic.NormNum
import Mathlib.Tactic.Ring

namespace HilLab.Plant.VoltagePath

open Lib.FixedPoint PmsmDqPlant Transforms

def legSumQ16 (leg : Phases) : BitVec 34 :=
  leg.u.signExtend 34 + leg.v.signExtend 34 + leg.w.signExtend 34

def commonExtQ16 (leg : Phases) : BitVec 34 := (legSumQ16 leg).sdiv 3

def betaSumExt (abc : Phases) : BitVec 33 := abc.u.signExtend 33 + (abc.v.signExtend 33 <<< 1)

/-- A wire of clarke_abc_q16 that drives no output. -/
def zeroSumExt (abc : Phases) : BitVec 33 :=
  abc.u.signExtend 33 + abc.v.signExtend 33 + abc.w.signExtend 33

theorem commonModeQ16_eq_cut (leg : Phases) :
    commonModeQ16 leg = (commonExtQ16 leg).setWidth 32 := rfl

theorem clarkeAbcQ16_beta (abc : Phases) :
    (clarkeAbcQ16 abc).beta = qmul ((betaSumExt abc).setWidth 32) 37837 := rfl

def leg (duty : Phases) (vbusQ16 : BitVec 32) : Phases :=
  ⟨legQ16 vbusQ16 duty.u, legQ16 vbusQ16 duty.v, legQ16 vbusQ16 duty.w⟩

def lineNeutral (x : Phases) : Phases :=
  ⟨x.u - commonModeQ16 x, x.v - commonModeQ16 x, x.w - commonModeQ16 x⟩

theorem averagedInverterAbcQ16_eq (duty : Phases) (vbusQ16 : BitVec 32) :
    averagedInverterAbcQ16 duty vbusQ16 = lineNeutral (leg duty vbusQ16) := rfl

/-- No word between the inputs and the outputs of the two modules wraps: each
stands for its expression over unbounded integers. -/
structure NoWrap (vbusQ16 : BitVec 32) (x abc : Phases) : Prop where
  centered : ∀ d, (centeredDuty d).toInt = min d.toNat 65536 - 32768
  leg : ∀ d, (legQ16 vbusQ16 d).toInt = floorMul 16 vbusQ16.toInt (centeredDuty d).toInt
  legPair : (x.u.signExtend 34 + x.v.signExtend 34).toInt = x.u.toInt + x.v.toInt
  legSum : (legSumQ16 x).toInt = x.u.toInt + x.v.toInt + x.w.toInt
  commonExt : (commonExtQ16 x).toInt = (legSumQ16 x).toInt.tdiv 3
  commonMode : (commonModeQ16 x).toInt = (commonExtQ16 x).toInt
  phaseU : abc.u.toInt = x.u.toInt - (commonModeQ16 x).toInt
  phaseV : abc.v.toInt = x.v.toInt - (commonModeQ16 x).toInt
  phaseW : abc.w.toInt = x.w.toInt - (commonModeQ16 x).toInt
  twiceV : (abc.v.signExtend 33 <<< 1).toInt = 2 * abc.v.toInt
  betaSumExt : (betaSumExt abc).toInt = abc.u.toInt + 2 * abc.v.toInt
  betaSum : ((VoltagePath.betaSumExt abc).setWidth 32).toInt = (VoltagePath.betaSumExt abc).toInt
  beta : (clarkeAbcQ16 abc).beta.toInt =
    floorMul 16 (VoltagePath.betaSumExt abc).toInt 37837
  zeroPair : (abc.u.signExtend 33 + abc.v.signExtend 33).toInt = abc.u.toInt + abc.v.toInt
  zeroSum : (zeroSumExt abc).toInt = abc.u.toInt + abc.v.toInt + abc.w.toInt

section Sums

variable {abc : Phases} {u v w : Int} {A B C : Nat}

theorem twice_holds {a : BitVec 32} (ha : Holds a v B) (h : 2 * (B + B) < 0x200000000) :
    Holds (a.signExtend 33 <<< 1) (v + v) (B + B) :=
  (ha.signExtend (by decide)).shiftLeft_one h

theorem betaSumExt_holds (hu : Holds abc.u u A) (hv : Holds abc.v v B)
    (h : 2 * (A + (B + B)) < 0x200000000) : Holds (betaSumExt abc) (u + (v + v)) (A + (B + B)) :=
  (hu.signExtend (by decide)).add (twice_holds hv (by omega)) h

theorem zeroPair_holds (hu : Holds abc.u u A) (hv : Holds abc.v v B)
    (h : 2 * (A + B) < 0x200000000) :
    Holds (abc.u.signExtend 33 + abc.v.signExtend 33) (u + v) (A + B) :=
  (hu.signExtend (by decide)).add (hv.signExtend (by decide)) h

theorem zeroSumExt_holds (hu : Holds abc.u u A) (hv : Holds abc.v v B) (hw : Holds abc.w w C)
    (h : 2 * (A + B + C) < 0x200000000) : Holds (zeroSumExt abc) (u + v + w) (A + B + C) :=
  (zeroPair_holds hu hv (by omega)).add (hw.signExtend (by decide)) h

end Sums

theorem centeredDuty_holds (duty : BitVec 32) :
    Holds (centeredDuty duty) (min duty.toNat 65536 - 32768 : Int) (2 ^ 15) := by
  have hclamped : (if 0x00010000 < duty then 0x00010000 else duty : BitVec 32).toNat =
      min duty.toNat 65536 := by
    split
    · rename_i h
      have : 65536 < duty.toNat := h
      simpa using (Nat.min_eq_right (Nat.le_of_lt this)).symm
    · rename_i h
      have : ¬ 65536 < duty.toNat := h
      omega
  have hvalue : (if 0x00010000 < duty then 0x00010000 else duty : BitVec 32).toInt =
      min duty.toNat 65536 := by
    rw [BitVec.toInt_eq_toNat_of_lt (by omega), hclamped]
  have hhalf : Holds (0x00008000 : BitVec 32) 32768 32768 := ⟨rfl, le_refl _⟩
  have h := Holds.sub ⟨hvalue, show _ ≤ 65536 by omega⟩ hhalf (by decide)
  exact ⟨h.value, by omega⟩

theorem legQ16_holds {vbusQ16 : BitVec 32} (hvbus : vbusQ16.toInt.natAbs ≤ 2 ^ 30) (d : BitVec 32) :
    Holds (legQ16 vbusQ16 d) (floorMul 16 vbusQ16.toInt (centeredDuty d).toInt) (2 ^ 29 + 1) := by
  have hcentered := centeredDuty_holds d
  have hword : Holds (centeredDuty d) (centeredDuty d).toInt (2 ^ 15) :=
    ⟨rfl, hcentered.value ▸ hcentered.bound⟩
  exact Holds.mul (f := 16) ⟨rfl, hvbus⟩ hword (by decide)

structure Bounded (x : Phases) : Prop where
  u : x.u.toInt.natAbs ≤ 2 ^ 29 + 1
  v : x.v.toInt.natAbs ≤ 2 ^ 29 + 1
  w : x.w.toInt.natAbs ≤ 2 ^ 29 + 1

def legSum (x : Phases) : Int := x.u.toInt + x.v.toInt + x.w.toInt

def centre (x : Phases) : Int := (legSum x).tdiv 3

def remainder (x : Phases) : Int := (legSum x).tmod 3

theorem legSum_eq (x : Phases) : legSum x = 3 * centre x + remainder x :=
  (Int.mul_tdiv_add_tmod (legSum x) 3).symm

theorem natAbs_remainder_le (x : Phases) : (remainder x).natAbs ≤ 2 := by
  have h : (remainder x).natAbs < 3 := by
    rw [remainder, Int.natAbs_tmod]
    exact Nat.mod_lt _ (by decide)
  omega

namespace Bounded

variable {x : Phases} (hx : Bounded x)

include hx

theorem legPair : Holds (x.u.signExtend 34 + x.v.signExtend 34) (x.u.toInt + x.v.toInt)
    (2 * (2 ^ 29 + 1)) := by
  have hu : Holds x.u x.u.toInt (2 ^ 29 + 1) := ⟨rfl, hx.u⟩
  have hv : Holds x.v x.v.toInt (2 ^ 29 + 1) := ⟨rfl, hx.v⟩
  exact (hu.signExtend (by decide)).add (hv.signExtend (by decide)) (by decide)

theorem legSum : Holds (legSumQ16 x) (VoltagePath.legSum x) (3 * (2 ^ 29 + 1)) := by
  have hw : Holds x.w x.w.toInt (2 ^ 29 + 1) := ⟨rfl, hx.w⟩
  exact hx.legPair.add (hw.signExtend (by decide)) (by decide)

theorem commonExt : Holds (commonExtQ16 x) (centre x) (2 ^ 29 + 1) := by
  have hthree : Holds (3 : BitVec 34) 3 3 := ⟨by decide, by decide⟩
  exact hx.legSum.sdiv hthree (by decide)

theorem commonMode : Holds (commonModeQ16 x) (centre x) (2 ^ 29 + 1) := by
  rw [commonModeQ16_eq_cut]
  exact hx.commonExt.cut (by decide) (by decide)

theorem phase {a : BitVec 32} (ha : a.toInt.natAbs ≤ 2 ^ 29 + 1) :
    Holds (a - commonModeQ16 x) (a.toInt - centre x) (2 * (2 ^ 29 + 1)) := by
  have hleg : Holds a a.toInt (2 ^ 29 + 1) := ⟨rfl, ha⟩
  exact hleg.sub hx.commonMode (by decide)

theorem phaseU : Holds (lineNeutral x).u (x.u.toInt - centre x) (2 * (2 ^ 29 + 1)) := hx.phase hx.u

theorem phaseV : Holds (lineNeutral x).v (x.v.toInt - centre x) (2 * (2 ^ 29 + 1)) := hx.phase hx.v

theorem phaseW : Holds (lineNeutral x).w (x.w.toInt - centre x) (2 * (2 ^ 29 + 1)) := hx.phase hx.w

theorem twiceV : Holds ((lineNeutral x).v.signExtend 33 <<< 1)
    ((x.v.toInt - centre x) + (x.v.toInt - centre x)) (4 * (2 ^ 29 + 1)) :=
  (twice_holds hx.phaseV (by decide)).le (by decide)

theorem phaseSum : Holds (VoltagePath.betaSumExt (lineNeutral x))
    ((x.u.toInt - centre x) + ((x.v.toInt - centre x) + (x.v.toInt - centre x)))
    (6 * (2 ^ 29 + 1)) :=
  (betaSumExt_holds hx.phaseU hx.phaseV (by decide)).le (by decide)

theorem betaSumExt : Holds (VoltagePath.betaSumExt (lineNeutral x))
    (x.v.toInt - x.w.toInt + remainder x) (2 ^ 30 + 4) := by
  have hsum := hx.phaseSum
  have hlegs := legSum_eq x
  have hrest := natAbs_remainder_le x
  have hv := hx.v
  have hw := hx.w
  refine ⟨hsum.value.trans ?_, ?_⟩
  · rw [VoltagePath.legSum] at hlegs
    omega
  · omega

theorem betaSum : Holds ((VoltagePath.betaSumExt (lineNeutral x)).setWidth 32)
    (x.v.toInt - x.w.toInt + remainder x) (2 ^ 30 + 4) :=
  hx.betaSumExt.cut (by decide) (by decide)

theorem beta : Holds (clarkeAbcQ16 (lineNeutral x)).beta
    (floorMul 16 (x.v.toInt - x.w.toInt + remainder x) 37837)
    ((2 ^ 30 + 4) * 37837 / 2 ^ 16 + 1) := by
  have hroot : Holds (37837 : BitVec 32) 37837 37837 := ⟨by decide, by decide⟩
  rw [clarkeAbcQ16_beta]
  exact hx.betaSum.mul hroot (by decide)

theorem zeroPair : Holds ((lineNeutral x).u.signExtend 33 + (lineNeutral x).v.signExtend 33)
    ((x.u.toInt - centre x) + (x.v.toInt - centre x)) (4 * (2 ^ 29 + 1)) :=
  (zeroPair_holds hx.phaseU hx.phaseV (by decide)).le (by decide)

theorem zeroSum : Holds (zeroSumExt (lineNeutral x))
    ((x.u.toInt - centre x) + (x.v.toInt - centre x) + (x.w.toInt - centre x))
    (6 * (2 ^ 29 + 1)) :=
  (zeroSumExt_holds hx.phaseU hx.phaseV hx.phaseW (by decide)).le (by decide)

end Bounded

theorem bounded_leg {vbusQ16 : BitVec 32} (hvbus : vbusQ16.toInt.natAbs ≤ 2 ^ 30) (duty : Phases) :
    Bounded (leg duty vbusQ16) := by
  have hleg (d : BitVec 32) : (legQ16 vbusQ16 d).toInt.natAbs ≤ 2 ^ 29 + 1 := by
    have h := legQ16_holds hvbus d
    rw [h.value]
    exact h.bound
  exact ⟨hleg duty.u, hleg duty.v, hleg duty.w⟩

theorem noWrap {vbusQ16 : BitVec 32} (hvbus : vbusQ16.toInt.natAbs ≤ 2 ^ 30) (duty : Phases) :
    NoWrap vbusQ16 (leg duty vbusQ16) (lineNeutral (leg duty vbusQ16)) := by
  have hx := bounded_leg hvbus duty
  have hu := hx.phaseU.value
  have hv := hx.phaseV.value
  have hw := hx.phaseW.value
  have hcommon := hx.commonMode.value
  constructor
  case centered => exact fun d => (centeredDuty_holds d).value
  case leg => exact fun d => (legQ16_holds hvbus d).value
  case legPair => exact hx.legPair.value
  case legSum => exact hx.legSum.value
  case commonExt => rw [hx.legSum.value]; exact hx.commonExt.value
  case commonMode => rw [hcommon, hx.commonExt.value]
  case phaseU => rw [hcommon]; exact hu
  case phaseV => rw [hcommon]; exact hv
  case phaseW => rw [hcommon]; exact hw
  case twiceV =>
    have h := hx.twiceV.value
    omega
  case betaSumExt =>
    have h := hx.phaseSum.value
    omega
  case betaSum => rw [hx.betaSum.value, hx.betaSumExt.value]
  case beta => rw [hx.beta.value, hx.betaSumExt.value]
  case zeroPair =>
    have h := hx.zeroPair.value
    omega
  case zeroSum =>
    have h := hx.zeroSum.value
    omega

theorem abs_alpha_sub_lt {x : Phases} {a : Int} (ha : a = x.u.toInt - centre x) :
    |(a : ℚ) - (2 * x.u.toInt - x.v.toInt - x.w.toInt) / 3| < 1 := by
  have hlegs := legSum_eq x
  have hrest := natAbs_remainder_le x
  have hthree : (a : ℚ) - (2 * x.u.toInt - x.v.toInt - x.w.toInt) / 3 = remainder x / 3 := by
    have hint : 3 * a - (2 * x.u.toInt - x.v.toInt - x.w.toInt) = remainder x := by
      rw [legSum] at hlegs
      omega
    have hcast : 3 * (a : ℚ) - (2 * x.u.toInt - x.v.toInt - x.w.toInt) = remainder x := by
      exact_mod_cast hint
    linarith
  have hlow : (-2 : ℚ) ≤ remainder x := by exact_mod_cast (show -2 ≤ remainder x by omega)
  have hhigh : (remainder x : ℚ) ≤ 2 := by exact_mod_cast (show remainder x ≤ 2 by omega)
  rw [hthree, abs_lt]
  constructor <;> linarith

theorem abs_floorMul_sub_le {y r : Int} (hr : r.natAbs ≤ 2) :
    |(floorMul 16 (y + r) 37837 : ℚ) - y * 37837 / 65536| ≤ 3 := by
  have hfloor : 65536 * floorMul 16 (y + r) 37837 + (y + r) * 37837 % 65536 = (y + r) * 37837 :=
    Int.mul_ediv_add_emod _ _
  have hrest : 0 ≤ (y + r) * 37837 % 65536 ∧ (y + r) * 37837 % 65536 < 65536 := by omega
  have hint : |65536 * floorMul 16 (y + r) 37837 - y * 37837| ≤ 3 * 65536 := by
    rw [abs_le]
    omega
  have hcast : |65536 * (floorMul 16 (y + r) 37837 : ℚ) - y * 37837| ≤ 3 * 65536 := by
    exact_mod_cast hint
  rw [abs_le] at hcast ⊢
  constructor <;> linarith

theorem voltagePath_exact (duty : Phases) (vbusQ16 : BitVec 32)
    (hvbus : vbusQ16.toInt.natAbs ≤ 2 ^ 30) :
    let x := leg duty vbusQ16
    let abc := averagedInverterAbcQ16 duty vbusQ16
    NoWrap vbusQ16 x abc ∧
      abc.u.toInt - abc.v.toInt = x.u.toInt - x.v.toInt ∧
      abc.v.toInt - abc.w.toInt = x.v.toInt - x.w.toInt ∧
      |abc.u.toInt + abc.v.toInt + abc.w.toInt| ≤ 2 ∧
      |((clarkeAbcQ16 abc).alpha.toInt : ℚ) - (2 * x.u.toInt - x.v.toInt - x.w.toInt) / 3| < 1 ∧
      |((clarkeAbcQ16 abc).beta.toInt : ℚ) - (x.v.toInt - x.w.toInt) * 37837 / 65536| ≤ 3 := by
  intro x abc
  have hx : Bounded x := bounded_leg hvbus duty
  have habc : abc = lineNeutral x := averagedInverterAbcQ16_eq duty vbusQ16
  have hwords : NoWrap vbusQ16 x abc := by
    rw [habc]
    exact noWrap hvbus duty
  have hu : abc.u.toInt = x.u.toInt - centre x := hx.phaseU.value
  have hv : abc.v.toInt = x.v.toInt - centre x := hx.phaseV.value
  have hw : abc.w.toInt = x.w.toInt - centre x := hx.phaseW.value
  have hlegs : x.u.toInt + x.v.toInt + x.w.toInt = 3 * centre x + remainder x := legSum_eq x
  have hrest := natAbs_remainder_le x
  refine ⟨hwords, by omega, by omega, ?_, abs_alpha_sub_lt hu, ?_⟩
  · rw [abs_le]
    omega
  · rw [show (clarkeAbcQ16 abc).beta.toInt = _ from hx.beta.value]
    exact_mod_cast abs_floorMul_sub_le hrest

theorem voltagePath_exact_half_bus :
    (0x40000000 : BitVec 32).toInt.natAbs ≤ 2 ^ 30 ∧
      let x := leg ⟨0x8000, 0x10000, 1⟩ 0x40000000
      let abc := averagedInverterAbcQ16 ⟨0x8000, 0x10000, 1⟩ 0x40000000
      abc.u.toInt - abc.v.toInt = x.u.toInt - x.v.toInt ∧
        |abc.u.toInt + abc.v.toInt + abc.w.toInt| ≤ 2 := by
  have hvbus : (0x40000000 : BitVec 32).toInt.natAbs ≤ 2 ^ 30 := by decide
  have h := voltagePath_exact ⟨0x8000, 0x10000, 1⟩ 0x40000000 hvbus
  exact ⟨hvbus, h.2.1, h.2.2.2.1⟩

end HilLab.Plant.VoltagePath
