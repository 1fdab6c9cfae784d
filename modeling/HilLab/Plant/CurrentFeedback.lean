import HilLab.Lib.ErrorBound
import HilLab.Plant.VoltagePath

namespace HilLab.Plant.CurrentFeedback

open Lib.FixedPoint Lib.ErrorBound PmsmDqPlant Transforms VoltagePath

section Rotation

variable {K : Type*} [CommRing K]

theorem rotate_back (d q s c : K) :
    (d * c - q * s) * c + (d * s + q * c) * s = d * (s * s + c * c) ∧
      (d * s + q * c) * c - (d * c - q * s) * s = q * (s * s + c * c) := by
  constructor <;> ring

end Rotation

section Table

/-- A sine and a cosine in Q16, of a unit vector up to the rounding of the table. -/
structure UnitVector (e : SinCos) : Prop where
  sin : e.sin.toInt.natAbs ≤ 65536
  cos : e.cos.toInt.natAbs ≤ 65536
  square : (e.sin.toInt ^ 2 + e.cos.toInt ^ 2 - 2 ^ 32).natAbs ≤ 72974

theorem UnitVector.swap {s c : BitVec 32} (h : UnitVector ⟨s, c⟩) : UnitVector ⟨c, s⟩ := by
  refine ⟨h.cos, h.sin, ?_⟩
  rw [Int.add_comm (c.toInt ^ 2)]
  exact h.square

theorem UnitVector.neg_sin {s c : BitVec 32} (h : UnitVector ⟨s, c⟩) : UnitVector ⟨-s, c⟩ := by
  have hword : Holds s s.toInt 65536 := ⟨rfl, h.sin⟩
  have hneg := hword.neg (by decide)
  refine ⟨?_, h.cos, ?_⟩
  · rw [hneg.value]
    exact hneg.bound
  · change ((-s).toInt ^ 2 + c.toInt ^ 2 - 2 ^ 32).natAbs ≤ 72974
    rw [hneg.value, neg_sq]
    exact h.square

theorem sinLut_unit (index : BitVec 6) : UnitVector ⟨sinLut index, sinLut (63 - index)⟩ := by
  have h : ∀ n < 64,
      (sinLut (BitVec.ofNat 6 n)).toInt.natAbs ≤ 65536 ∧
        ((sinLut (BitVec.ofNat 6 n)).toInt ^ 2 + (sinLut (63 - BitVec.ofNat 6 n)).toInt ^ 2 -
          2 ^ 32).natAbs ≤ 72974 := by
    decide +kernel
  have hindex := h index.toNat index.isLt
  have hreverse := h (63 - index).toNat (63 - index).isLt
  rw [BitVec.ofNat_toNat, BitVec.setWidth_eq] at hindex hreverse
  exact ⟨hindex.1, hreverse.1, hindex.2⟩

/-- Every quadrant reads the table with its signs, so that it stays on the circle. -/
theorem sincosLutQ16_unit (phase : BitVec 32) : UnitVector (sincosLutQ16 phase) := by
  have h := sinLut_unit (phase.extractLsb' 24 6)
  rw [sincosLutQ16]
  split_ifs
  · exact h
  · exact h.neg_sin.swap
  · exact h.neg_sin.swap.neg_sin.swap
  · exact h.swap.neg_sin

end Table

section Words

/-- No word of the four transforms wraps: each stands for its expression over unbounded
integers. -/
structure NoWrap (x : DirectQuadrature) (e : SinCos) (y : AlphaBeta) (abc : Phases)
    (z : AlphaBeta) (x' : DirectQuadrature) : Prop where
  dCos : (qmul x.d e.cos).toInt = floorMul 16 x.d.toInt e.cos.toInt
  qSin : (qmul x.q e.sin).toInt = floorMul 16 x.q.toInt e.sin.toInt
  dSin : (qmul x.d e.sin).toInt = floorMul 16 x.d.toInt e.sin.toInt
  qCos : (qmul x.q e.cos).toInt = floorMul 16 x.q.toInt e.cos.toInt
  alpha : y.alpha.toInt = (qmul x.d e.cos).toInt - (qmul x.q e.sin).toInt
  beta : y.beta.toInt = (qmul x.d e.sin).toInt + (qmul x.q e.cos).toInt
  halfAlpha : (qmul y.alpha 32768).toInt = floorMul 16 y.alpha.toInt 32768
  negHalfAlpha : (-qmul y.alpha 32768).toInt = -(qmul y.alpha 32768).toInt
  betaTerm : (qmul y.beta 56756).toInt = floorMul 16 y.beta.toInt 56756
  phaseU : abc.u.toInt = y.alpha.toInt
  phaseV : abc.v.toInt = -(qmul y.alpha 32768).toInt + (qmul y.beta 56756).toInt
  phaseW : abc.w.toInt = -(qmul y.alpha 32768).toInt - (qmul y.beta 56756).toInt
  twiceV : (abc.v.signExtend 33 <<< 1).toInt = 2 * abc.v.toInt
  betaSumExt : (betaSumExt abc).toInt = abc.u.toInt + 2 * abc.v.toInt
  betaSum : ((VoltagePath.betaSumExt abc).setWidth 32).toInt = (VoltagePath.betaSumExt abc).toInt
  zeroPair : (abc.u.signExtend 33 + abc.v.signExtend 33).toInt = abc.u.toInt + abc.v.toInt
  zeroSum : (zeroSumExt abc).toInt = abc.u.toInt + abc.v.toInt + abc.w.toInt
  alphaBack : z.alpha.toInt = abc.u.toInt
  betaBack : z.beta.toInt = floorMul 16 (VoltagePath.betaSumExt abc).toInt 37837
  alphaCos : (qmul z.alpha e.cos).toInt = floorMul 16 z.alpha.toInt e.cos.toInt
  betaSin : (qmul z.beta e.sin).toInt = floorMul 16 z.beta.toInt e.sin.toInt
  alphaSin : (qmul z.alpha e.sin).toInt = floorMul 16 z.alpha.toInt e.sin.toInt
  negAlphaSin : (-qmul z.alpha e.sin).toInt = -(qmul z.alpha e.sin).toInt
  betaCos : (qmul z.beta e.cos).toInt = floorMul 16 z.beta.toInt e.cos.toInt
  d : x'.d.toInt = (qmul z.alpha e.cos).toInt + (qmul z.beta e.sin).toInt
  q : x'.q.toInt = -(qmul z.alpha e.sin).toInt + (qmul z.beta e.cos).toInt

theorem qmul_holds {a b : BitVec 32} {A : Nat} (ha : a.toInt.natAbs ≤ A)
    (hb : b.toInt.natAbs ≤ 65536) (hA : 2 * (A + 1) < 0x100000000) :
    Holds (qmul a b) (floorMul 16 a.toInt b.toInt) (A + 1) := by
  have hdiv : A * 65536 / 2 ^ 16 = A := Nat.mul_div_cancel A (by decide)
  have h := Holds.mul (f := 16) (A := A) (B := 65536) ⟨rfl, ha⟩ ⟨rfl, hb⟩ (by rw [hdiv]; exact hA)
  rw [hdiv] at h
  exact h

section Inverse

variable {x : DirectQuadrature} {e : SinCos}

theorem inversePark_alpha (he : UnitVector e) (hd : x.d.toInt.natAbs ≤ 2 ^ 28)
    (hq : x.q.toInt.natAbs ≤ 2 ^ 28) :
    Holds (inverseParkQ16 x e).alpha
      (floorMul 16 x.d.toInt e.cos.toInt - floorMul 16 x.q.toInt e.sin.toInt) (2 ^ 29 + 2) :=
  (qmul_holds hd he.cos (by decide)).sub (qmul_holds hq he.sin (by decide)) (by decide)

theorem inversePark_beta (he : UnitVector e) (hd : x.d.toInt.natAbs ≤ 2 ^ 28)
    (hq : x.q.toInt.natAbs ≤ 2 ^ 28) :
    Holds (inverseParkQ16 x e).beta
      (floorMul 16 x.d.toInt e.sin.toInt + floorMul 16 x.q.toInt e.cos.toInt) (2 ^ 29 + 2) :=
  (qmul_holds hd he.sin (by decide)).add (qmul_holds hq he.cos (by decide)) (by decide)

end Inverse

def phaseV (alpha beta : Int) : Int := -floorMul 16 alpha 32768 + floorMul 16 beta 56756

def phaseW (alpha beta : Int) : Int := -floorMul 16 alpha 32768 - floorMul 16 beta 56756

def betaBack (alpha beta : Int) : Int := floorMul 16 (alpha + 2 * phaseV alpha beta) 37837

theorem clarke_alpha (y : AlphaBeta) : (clarkeAbcQ16 (inverseClarkeQ16 y)).alpha = y.alpha := by
  rw [clarkeAbcQ16, inverseClarkeQ16]

structure Bounded (y : AlphaBeta) : Prop where
  alpha : y.alpha.toInt.natAbs ≤ 2 ^ 29 + 2
  beta : y.beta.toInt.natAbs ≤ 2 ^ 29 + 2

namespace Bounded

variable {y : AlphaBeta} (hy : Bounded y)

include hy

theorem halfAlpha : Holds (qmul y.alpha 32768) (floorMul 16 y.alpha.toInt 32768) (2 ^ 28 + 2) := by
  have hhalf : Holds (32768 : BitVec 32) 32768 32768 := ⟨by decide, by decide⟩
  exact Holds.mul (f := 16) (A := 2 ^ 29 + 2) ⟨rfl, hy.alpha⟩ hhalf (by decide)

theorem betaTerm : Holds (qmul y.beta 56756) (floorMul 16 y.beta.toInt 56756) 464945154 := by
  have hroot : Holds (56756 : BitVec 32) 56756 56756 := ⟨by decide, by decide⟩
  exact Holds.mul (f := 16) (A := 2 ^ 29 + 2) ⟨rfl, hy.beta⟩ hroot (by decide)

theorem phaseV : Holds (inverseClarkeQ16 y).v (CurrentFeedback.phaseV y.alpha.toInt y.beta.toInt)
    733380612 :=
  (hy.halfAlpha.neg (by decide)).add hy.betaTerm (by decide)

theorem phaseW : Holds (inverseClarkeQ16 y).w (CurrentFeedback.phaseW y.alpha.toInt y.beta.toInt)
    733380612 :=
  (hy.halfAlpha.neg (by decide)).sub hy.betaTerm (by decide)

theorem phaseU : Holds (inverseClarkeQ16 y).u y.alpha.toInt (2 ^ 29 + 2) := ⟨rfl, hy.alpha⟩

theorem twiceV : Holds ((inverseClarkeQ16 y).v.signExtend 33 <<< 1)
    (CurrentFeedback.phaseV y.alpha.toInt y.beta.toInt +
      CurrentFeedback.phaseV y.alpha.toInt y.beta.toInt) 1466761224 :=
  twice_holds hy.phaseV (by decide)

/-- The sum of two phases has 33 bits, and with these bounds it needs no more than 32. -/
theorem betaSumExt : Holds (VoltagePath.betaSumExt (inverseClarkeQ16 y))
    (y.alpha.toInt + 2 * CurrentFeedback.phaseV y.alpha.toInt y.beta.toInt) 2003632138 := by
  have hsum := betaSumExt_holds hy.phaseU hy.phaseV (by decide)
  have htwo := Int.two_mul (CurrentFeedback.phaseV y.alpha.toInt y.beta.toInt)
  rw [htwo]
  exact hsum

theorem betaSum : Holds ((VoltagePath.betaSumExt (inverseClarkeQ16 y)).setWidth 32)
    (y.alpha.toInt + 2 * CurrentFeedback.phaseV y.alpha.toInt y.beta.toInt) 2003632138 :=
  hy.betaSumExt.cut (by decide) (by decide)

theorem betaBack : Holds (clarkeAbcQ16 (inverseClarkeQ16 y)).beta
    (CurrentFeedback.betaBack y.alpha.toInt y.beta.toInt) 1156790607 := by
  have hroot : Holds (37837 : BitVec 32) 37837 37837 := ⟨by decide, by decide⟩
  rw [clarkeAbcQ16_beta]
  exact hy.betaSum.mul hroot (by decide)

theorem zeroPair :
    Holds ((inverseClarkeQ16 y).u.signExtend 33 + (inverseClarkeQ16 y).v.signExtend 33)
      (y.alpha.toInt + CurrentFeedback.phaseV y.alpha.toInt y.beta.toInt) 1270251526 :=
  zeroPair_holds hy.phaseU hy.phaseV (by decide)

theorem zeroSum : Holds (zeroSumExt (inverseClarkeQ16 y))
    (y.alpha.toInt + CurrentFeedback.phaseV y.alpha.toInt y.beta.toInt +
      CurrentFeedback.phaseW y.alpha.toInt y.beta.toInt) 2003632138 :=
  zeroSumExt_holds hy.phaseU hy.phaseV hy.phaseW (by decide)

end Bounded

section Forward

variable {z : AlphaBeta} {e : SinCos}

theorem park_d (he : UnitVector e) (halpha : z.alpha.toInt.natAbs ≤ 2 ^ 29 + 2)
    (hbeta : z.beta.toInt.natAbs ≤ 1156790607) :
    Holds (parkAlphabetaQ16 z e).d
      (floorMul 16 z.alpha.toInt e.cos.toInt + floorMul 16 z.beta.toInt e.sin.toInt)
      1693661523 :=
  (qmul_holds halpha he.cos (by decide)).add (qmul_holds hbeta he.sin (by decide)) (by decide)

theorem park_q (he : UnitVector e) (halpha : z.alpha.toInt.natAbs ≤ 2 ^ 29 + 2)
    (hbeta : z.beta.toInt.natAbs ≤ 1156790607) :
    Holds (parkAlphabetaQ16 z e).q
      (-floorMul 16 z.alpha.toInt e.sin.toInt + floorMul 16 z.beta.toInt e.cos.toInt)
      1693661523 :=
  ((qmul_holds halpha he.sin (by decide)).neg (by decide)).add
    (qmul_holds hbeta he.cos (by decide)) (by decide)

end Forward

theorem bounded_inversePark {x : DirectQuadrature} {e : SinCos} (he : UnitVector e)
    (hd : x.d.toInt.natAbs ≤ 2 ^ 28) (hq : x.q.toInt.natAbs ≤ 2 ^ 28) :
    Bounded (inverseParkQ16 x e) := by
  have halpha := inversePark_alpha he hd hq
  have hbeta := inversePark_beta he hd hq
  refine ⟨?_, ?_⟩
  · rw [halpha.value]
    exact halpha.bound
  · rw [hbeta.value]
    exact hbeta.bound

theorem noWrap {x : DirectQuadrature} {e : SinCos} (he : UnitVector e)
    (hd : x.d.toInt.natAbs ≤ 2 ^ 28) (hq : x.q.toInt.natAbs ≤ 2 ^ 28) :
    NoWrap x e (inverseParkQ16 x e) (inverseClarkeQ16 (inverseParkQ16 x e))
      (clarkeAbcQ16 (inverseClarkeQ16 (inverseParkQ16 x e)))
      (parkAlphabetaQ16 (clarkeAbcQ16 (inverseClarkeQ16 (inverseParkQ16 x e))) e) := by
  have hy := bounded_inversePark he hd hq
  have halpha : (clarkeAbcQ16 (inverseClarkeQ16 (inverseParkQ16 x e))).alpha.toInt.natAbs ≤
      2 ^ 29 + 2 := by
    rw [clarke_alpha]
    exact hy.alpha
  have hbeta : (clarkeAbcQ16 (inverseClarkeQ16 (inverseParkQ16 x e))).beta.toInt.natAbs ≤
      1156790607 := by
    rw [hy.betaBack.value]
    exact hy.betaBack.bound
  have hdCos := qmul_holds hd he.cos (by decide)
  have hqSin := qmul_holds hq he.sin (by decide)
  have hdSin := qmul_holds hd he.sin (by decide)
  have hqCos := qmul_holds hq he.cos (by decide)
  have halphaCos := qmul_holds halpha he.cos (by decide)
  have halphaSin := qmul_holds halpha he.sin (by decide)
  have hbetaCos := qmul_holds hbeta he.cos (by decide)
  have hbetaSin := qmul_holds hbeta he.sin (by decide)
  have hhalf := hy.halfAlpha
  have hphaseV := hy.phaseV.value
  have hphaseW := hy.phaseW.value
  constructor
  case dCos => exact hdCos.value
  case qSin => exact hqSin.value
  case dSin => exact hdSin.value
  case qCos => exact hqCos.value
  case alpha => rw [hdCos.value, hqSin.value]; exact (inversePark_alpha he hd hq).value
  case beta => rw [hdSin.value, hqCos.value]; exact (inversePark_beta he hd hq).value
  case halfAlpha => exact hhalf.value
  case negHalfAlpha => rw [hhalf.value]; exact (hhalf.neg (by decide)).value
  case betaTerm => exact hy.betaTerm.value
  case phaseU => rfl
  case phaseV => rw [hhalf.value, hy.betaTerm.value]; exact hphaseV
  case phaseW => rw [hhalf.value, hy.betaTerm.value]; exact hphaseW
  case twiceV => rw [hphaseV, Int.two_mul]; exact hy.twiceV.value
  case betaSumExt => rw [hphaseV]; exact hy.betaSumExt.value
  case betaSum => rw [hy.betaSum.value, hy.betaSumExt.value]
  case zeroPair => rw [hphaseV]; exact hy.zeroPair.value
  case zeroSum => rw [hphaseV, hphaseW]; exact hy.zeroSum.value
  case alphaBack => rw [clarke_alpha, inverseClarkeQ16]
  case betaBack => rw [hy.betaSumExt.value]; exact hy.betaBack.value
  case alphaCos => exact halphaCos.value
  case betaSin => exact hbetaSin.value
  case alphaSin => exact halphaSin.value
  case negAlphaSin => rw [halphaSin.value]; exact (halphaSin.neg (by decide)).value
  case betaCos => exact hbetaCos.value
  case d => rw [halphaCos.value, hbetaSin.value]; exact (park_d he halpha hbeta).value
  case q => rw [halphaSin.value, hbetaCos.value]; exact (park_q he halpha hbeta).value

end Words

section Errors

theorem near_rotate_sub (d q s c : Int) :
    Near (2 : ℚ) (floorMul 16 d c - floorMul 16 q s : Int) (d * (c / 2 ^ 16) - q * (s / 2 ^ 16)) := by
  have h := (near_floorMul (K := ℚ) 16 d c).sub (near_floorMul 16 q s)
  push_cast
  exact h.le (by norm_num)

theorem near_rotate_add (d q s c : Int) :
    Near (2 : ℚ) (floorMul 16 d s + floorMul 16 q c : Int) (d * (s / 2 ^ 16) + q * (c / 2 ^ 16)) := by
  have h := (near_floorMul (K := ℚ) 16 d s).add (near_floorMul 16 q c)
  push_cast
  exact h.le (by norm_num)

/-- The two constants of the Clarke transforms are inverse to each other up to 13752 in 2^32. -/
theorem near_betaBack (alpha beta : Int) :
    Near (K := ℚ) (3 + |(beta : ℚ)| / 2 ^ 18) (betaBack alpha beta : Int) beta := by
  have hterm : Near (1 : ℚ) (floorMul 16 beta 56756 : Int) (beta * (56756 / 2 ^ 16)) :=
    near_floorMul 16 beta 56756
  have hodd : alpha + 2 * phaseV alpha beta = alpha % 2 + 2 * floorMul 16 beta 56756 := by
    rw [phaseV, floorMul]
    omega
  have hsum : Near (3 : ℚ) ((alpha + 2 * phaseV alpha beta : Int) : ℚ)
      (beta * (56756 / 2 ^ 16) * 2) := by
    have hbit : Near (1 : ℚ) ((alpha % 2 : Int) : ℚ) 0 := by
      have h := Int.emod_two_eq_zero_or_one alpha
      rcases h with h | h <;> simp [Near, h]
    have h := hbit.add (hterm.mul 2)
    rw [zero_add] at h
    rw [hodd, Int.cast_add, Int.cast_mul, mul_comm ((2 : Int) : ℚ)]
    exact h.le (by norm_num)
  have hback := (near_floorMul (K := ℚ) 16 (alpha + 2 * phaseV alpha beta) 37837).trans
    (hsum.mul (37837 / 2 ^ 16))
  have hconst : Near (K := ℚ) (|(beta : ℚ)| / 2 ^ 18) (beta * (56756 / 2 ^ 16) * 2 * (37837 / 2 ^ 16))
      beta := by
    have hgap : (beta : ℚ) * (56756 / 2 ^ 16) * 2 * (37837 / 2 ^ 16) - beta =
        beta * (-13752 / 2 ^ 32) := by ring
    rw [Near, hgap, abs_mul]
    have := abs_nonneg (beta : ℚ)
    norm_num
    linarith
  exact (hback.trans hconst).le (by norm_num)

section Turn

variable {d q s c alpha beta b : ℚ}

theorem near_stretch (x : ℚ) (h : |s * s + c * c - 1| ≤ 1 / 2 ^ 15) :
    Near (|x| / 2 ^ 15) (x * (s * s + c * c)) x := by
  have hsplit : x * (s * s + c * c) - x = x * (s * s + c * c - 1) := by ring
  rw [Near, hsplit, abs_mul, div_eq_mul_one_div]
  exact mul_le_mul_of_nonneg_left h (abs_nonneg x)

theorem abs_rotate_le (hs : |s| ≤ 1) (hc : |c| ≤ 1) : |d * s + q * c| ≤ |d| + |q| := by
  have hd : |d * s| ≤ |d| := by
    rw [abs_mul]
    exact mul_le_of_le_one_right (abs_nonneg d) hs
  have hq : |q * c| ≤ |q| := by
    rw [abs_mul]
    exact mul_le_of_le_one_right (abs_nonneg q) hc
  exact (abs_add_le _ _).trans (add_le_add hd hq)

theorem near_turnBack (hs : |s| ≤ 1) (hc : |c| ≤ 1) (hunit : |s * s + c * c - 1| ≤ 1 / 2 ^ 15)
    (halpha : Near 2 alpha (d * c - q * s)) (hbeta : Near 2 beta (d * s + q * c))
    (hb : Near (3 + |beta| / 2 ^ 18) b beta) :
    Near ((|d| + |q|) / 2 ^ 14 + 14) (alpha * c + b * s) d ∧
      Near ((|d| + |q|) / 2 ^ 14 + 14) (b * c - alpha * s) q := by
  have hmagnitude : |beta| ≤ |d| + |q| + 2 := hbeta.abs_le (abs_rotate_le hs hc)
  have hd := abs_nonneg d
  have hq := abs_nonneg q
  have hback : Near (3 + |beta| / 2 ^ 18 + 2) b (d * s + q * c) := hb.trans hbeta
  constructor
  · have hsum := (halpha.mul_le hc).add (hback.mul_le hs)
    rw [(rotate_back d q s c).1] at hsum
    apply (hsum.trans (near_stretch d hunit)).le
    linarith
  · have hdiff := (hback.mul_le hc).sub (halpha.mul_le hs)
    rw [(rotate_back d q s c).2] at hdiff
    apply (hdiff.trans (near_stretch q hunit)).le
    linarith

end Turn

end Errors

section UnitRange

theorem abs_cast_le {v : Int} {B : Nat} (h : v.natAbs ≤ B) : |(v : ℚ)| ≤ B := by
  rw [← Int.cast_abs, Int.abs_eq_natAbs]
  exact_mod_cast h

theorem abs_q16_le {v : Int} (h : v.natAbs ≤ 65536) : |(v / 2 ^ 16 : ℚ)| ≤ 1 := by
  rw [abs_div, div_le_one (by norm_num)]
  exact (abs_cast_le h).trans (by norm_num)

theorem abs_square_sub_le {e : SinCos} (he : UnitVector e) :
    |(e.sin.toInt / 2 ^ 16 : ℚ) * (e.sin.toInt / 2 ^ 16) +
      (e.cos.toInt / 2 ^ 16) * (e.cos.toInt / 2 ^ 16) - 1| ≤ 1 / 2 ^ 15 := by
  have hscale : (e.sin.toInt / 2 ^ 16 : ℚ) * (e.sin.toInt / 2 ^ 16) +
      (e.cos.toInt / 2 ^ 16) * (e.cos.toInt / 2 ^ 16) - 1 =
        ((e.sin.toInt ^ 2 + e.cos.toInt ^ 2 - 2 ^ 32 : Int) : ℚ) / 2 ^ 32 := by
    push_cast
    ring
  rw [hscale, abs_div, abs_of_pos (by norm_num : (0 : ℚ) < 2 ^ 32), div_le_iff₀ (by norm_num)]
  exact (abs_cast_le he.square).trans (by norm_num)

end UnitRange

namespace NoWrap

variable {x : DirectQuadrature} {e : SinCos} {y : AlphaBeta} {abc : Phases} {z : AlphaBeta}
  {x' : DirectQuadrature} (h : NoWrap x e y abc z x')

include h

theorem near_alpha : Near (K := ℚ) 2 y.alpha.toInt
    (x.d.toInt * (e.cos.toInt / 2 ^ 16) - x.q.toInt * (e.sin.toInt / 2 ^ 16)) := by
  rw [h.alpha, h.dCos, h.qSin]
  exact near_rotate_sub x.d.toInt x.q.toInt e.sin.toInt e.cos.toInt

theorem near_beta : Near (K := ℚ) 2 y.beta.toInt
    (x.d.toInt * (e.sin.toInt / 2 ^ 16) + x.q.toInt * (e.cos.toInt / 2 ^ 16)) := by
  rw [h.beta, h.dSin, h.qCos]
  exact near_rotate_add x.d.toInt x.q.toInt e.sin.toInt e.cos.toInt

theorem z_alpha : z.alpha.toInt = y.alpha.toInt := by
  rw [h.alphaBack, h.phaseU]

theorem v_eq : abc.v.toInt = CurrentFeedback.phaseV y.alpha.toInt y.beta.toInt := by
  rw [h.phaseV, h.halfAlpha, h.betaTerm, CurrentFeedback.phaseV]

theorem z_beta : z.beta.toInt = CurrentFeedback.betaBack y.alpha.toInt y.beta.toInt := by
  rw [h.betaBack, h.betaSumExt, h.phaseU, h.v_eq, CurrentFeedback.betaBack]

theorem near_d : Near (K := ℚ) 2 x'.d.toInt
    (y.alpha.toInt * (e.cos.toInt / 2 ^ 16) + z.beta.toInt * (e.sin.toInt / 2 ^ 16)) := by
  rw [h.d, h.alphaCos, h.betaSin, h.z_alpha]
  exact near_rotate_add y.alpha.toInt z.beta.toInt e.cos.toInt e.sin.toInt

theorem near_q : Near (K := ℚ) 2 x'.q.toInt
    (z.beta.toInt * (e.cos.toInt / 2 ^ 16) - y.alpha.toInt * (e.sin.toInt / 2 ^ 16)) := by
  rw [h.q, h.alphaSin, h.betaCos, h.z_alpha, neg_add_eq_sub]
  exact near_rotate_sub z.beta.toInt y.alpha.toInt e.sin.toInt e.cos.toInt

theorem phaseSum : abc.u.toInt + abc.v.toInt + abc.w.toInt = y.alpha.toInt % 2 := by
  have hhalf : (qmul y.alpha 32768).toInt = y.alpha.toInt / 2 := by
    rw [h.halfAlpha, floorMul]
    omega
  rw [h.phaseU, h.phaseV, h.phaseW, hhalf]
  omega

theorem near_back (he : UnitVector e) :
    Near (K := ℚ) ((|(x.d.toInt : ℚ)| + |(x.q.toInt : ℚ)|) / 2 ^ 14 + 16)
      x'.d.toInt x.d.toInt ∧
      Near (K := ℚ) ((|(x.d.toInt : ℚ)| + |(x.q.toInt : ℚ)|) / 2 ^ 14 + 16)
        x'.q.toInt x.q.toInt := by
  have hbeta := near_betaBack y.alpha.toInt y.beta.toInt
  rw [← h.z_beta] at hbeta
  obtain ⟨hd, hq⟩ := near_turnBack (abs_q16_le he.sin) (abs_q16_le he.cos)
    (abs_square_sub_le he) h.near_alpha h.near_beta hbeta
  constructor
  · apply (h.near_d.trans hd).le
    linarith
  · apply (h.near_q.trans hq).le
    linarith

end NoWrap

/-- The feedback currents are those of the plant, up to the rounding of the table and the
products, and no word wraps on the way. -/
theorem currentFeedback_closes (phaseTurnQ32 idQ16 iqQ16 : BitVec 32)
    (hid : idQ16.toInt.natAbs ≤ 2 ^ 28) (hiq : iqQ16.toInt.natAbs ≤ 2 ^ 28) :
    let e := sincosLutQ16 phaseTurnQ32
    let y := inverseParkQ16 ⟨idQ16, iqQ16⟩ e
    let abc := inverseClarkeQ16 y
    let z := clarkeAbcQ16 abc
    let back := parkAlphabetaQ16 z e
    NoWrap ⟨idQ16, iqQ16⟩ e y abc z back ∧
      |(back.d.toInt - idQ16.toInt : ℚ)| ≤
        (|(idQ16.toInt : ℚ)| + |(iqQ16.toInt : ℚ)|) / 2 ^ 14 + 16 ∧
      |(back.q.toInt - iqQ16.toInt : ℚ)| ≤
        (|(idQ16.toInt : ℚ)| + |(iqQ16.toInt : ℚ)|) / 2 ^ 14 + 16 ∧
      |abc.u.toInt + abc.v.toInt + abc.w.toInt| ≤ 2 := by
  intro e y abc z back
  have he : UnitVector e := sincosLutQ16_unit phaseTurnQ32
  have hwords : NoWrap ⟨idQ16, iqQ16⟩ e y abc z back := noWrap he hid hiq
  obtain ⟨hd, hq⟩ := hwords.near_back he
  refine ⟨hwords, hd, hq, ?_⟩
  have hsum := hwords.phaseSum
  rw [abs_le]
  omega

theorem currentFeedback_closes_quarter :
    (0x10000000 : BitVec 32).toInt.natAbs ≤ 2 ^ 28 ∧ (0xfffffff9 : BitVec 32).toInt.natAbs ≤ 2 ^ 28 ∧
      let e := sincosLutQ16 0x40000000
      let abc := inverseClarkeQ16 (inverseParkQ16 ⟨0x10000000, 0xfffffff9⟩ e)
      let back := parkAlphabetaQ16 (clarkeAbcQ16 abc) e
      |(back.d.toInt - 0x10000000 : ℚ)| ≤ (0x10000000 + 7) / 2 ^ 14 + 16 ∧
        |abc.u.toInt + abc.v.toInt + abc.w.toInt| ≤ 2 := by
  have hid : (0x10000000 : BitVec 32).toInt = 0x10000000 := by decide
  have hiq : (0xfffffff9 : BitVec 32).toInt = -7 := by decide
  have hid28 : (0x10000000 : BitVec 32).toInt.natAbs ≤ 2 ^ 28 := by decide
  have hiq28 : (0xfffffff9 : BitVec 32).toInt.natAbs ≤ 2 ^ 28 := by decide
  have h := currentFeedback_closes 0x40000000 0x10000000 0xfffffff9 hid28 hiq28
  rw [hid, hiq] at h
  refine ⟨hid28, hiq28, ?_, h.2.2.2⟩
  have hd := h.2.1
  norm_num at hd ⊢
  exact hd

end HilLab.Plant.CurrentFeedback
