import Mathlib.Algebra.Order.Ring.Int
import Mathlib.Algebra.Order.Group.Unbundled.Int

namespace HilLab.Lib.FixedPoint

variable {w : Nat}

def Fits (w : Nat) (x : Int) : Prop := -(2 ^ w : Nat) ≤ x * 2 ∧ x * 2 < (2 ^ w : Nat)

instance (x : Int) : Decidable (Fits w x) := inferInstanceAs (Decidable (_ ∧ _))

theorem bmod_eq_self_iff {x : Int} (hw : 0 < w) : x.bmod (2 ^ w) = x ↔ Fits w x := by
  constructor
  · intro h
    have hpow : 2 ^ w = 2 * 2 ^ (w - 1) := by
      rw [← Nat.pow_succ']
      congr 1
      omega
    have hpos : 0 < 2 ^ w := Nat.two_pow_pos w
    have hlo : -((2 ^ w : Nat) / 2 : Int) ≤ x.bmod (2 ^ w) := Int.le_bmod hpos
    have hhi : x.bmod (2 ^ w) < (((2 ^ w : Nat) : Int) + 1) / 2 := Int.bmod_lt hpos
    rw [h] at hlo hhi
    rw [Fits]
    omega
  · intro h
    exact Int.bmod_eq_of_le_mul_two h.1 h.2

theorem fits_toInt (a : BitVec w) : Fits w a.toInt := by
  have hlo : -2 ^ w ≤ 2 * a.toInt := BitVec.le_two_mul_toInt
  have hhi : 2 * a.toInt < 2 ^ w := BitVec.two_mul_toInt_lt
  constructor <;> push_cast <;> omega

theorem toInt_add_eq {a b : BitVec w} (h : Fits w (a.toInt + b.toInt)) :
    (a + b).toInt = a.toInt + b.toInt := by
  rw [BitVec.toInt_add]
  exact Int.bmod_eq_of_le_mul_two h.1 h.2

theorem toInt_sub_eq {a b : BitVec w} (h : Fits w (a.toInt - b.toInt)) :
    (a - b).toInt = a.toInt - b.toInt := by
  rw [BitVec.toInt_sub]
  exact Int.bmod_eq_of_le_mul_two h.1 h.2

/-- The product of two numbers with f fractional bits, rounded down. -/
def floorMul (f : Nat) (x y : Int) : Int := x * y / 2 ^ f

/-- The same product in words of w bits: in double width, shifted, and cut. -/
def mul (f : Nat) (a b : BitVec w) : BitVec w :=
  ((a.signExtend (w + w) * b.signExtend (w + w)).sshiftRight f).setWidth w

theorem toInt_double_mul (a b : BitVec w) :
    (a.signExtend (w + w) * b.signExtend (w + w)).toInt = a.toInt * b.toInt := by
  have hle : w ≤ w + w := Nat.le_add_right w w
  rw [BitVec.toInt_mul, BitVec.toInt_signExtend_of_le hle, BitVec.toInt_signExtend_of_le hle]
  cases w with
  | zero => simp [BitVec.toInt_zero_length]
  | succ v =>
      have hlo : -(2 ^ ((v + 1) * 2 - 2)) ≤ a.toInt * b.toInt := BitVec.le_toInt_mul_toInt
      have hhi : a.toInt * b.toInt ≤ 2 ^ ((v + 1) * 2 - 2) := BitVec.toInt_mul_toInt_le
      have hexp : v + 1 + (v + 1) = ((v + 1) * 2 - 2) + 2 := by omega
      have hpos : (0 : Int) < 2 ^ ((v + 1) * 2 - 2) := Int.pow_pos (by decide)
      rw [hexp, Nat.pow_add]
      apply Int.bmod_eq_of_le_mul_two
      · push_cast
        omega
      · push_cast
        omega

theorem toInt_setWidth_of_le {v : Nat} (a : BitVec v) (h : w ≤ v) :
    (a.setWidth w).toInt = a.toInt.bmod (2 ^ w) := by
  rw [BitVec.toInt_setWidth, BitVec.toInt_eq_toNat_bmod,
    Int.bmod_bmod_of_dvd (Nat.pow_dvd_pow 2 h)]

theorem toInt_mul (f : Nat) (a b : BitVec w) :
    (mul f a b).toInt = (floorMul f a.toInt b.toInt).bmod (2 ^ w) := by
  rw [mul, toInt_setWidth_of_le _ (Nat.le_add_right w w), BitVec.toInt_sshiftRight,
    toInt_double_mul, Int.shiftRight_eq_div_pow]
  rfl

theorem toInt_mul_eq_iff (hw : 0 < w) (f : Nat) (a b : BitVec w) :
    (mul f a b).toInt = floorMul f a.toInt b.toInt ↔ Fits w (floorMul f a.toInt b.toInt) := by
  rw [toInt_mul]
  exact bmod_eq_self_iff hw

theorem toInt_mul_eq {f : Nat} {a b : BitVec w} (h : Fits w (floorMul f a.toInt b.toInt)) :
    (mul f a b).toInt = floorMul f a.toInt b.toInt := by
  rw [toInt_mul]
  exact Int.bmod_eq_of_le_mul_two h.1 h.2

theorem mul_eq_ofInt (f : Nat) (a b : BitVec w) :
    mul f a b = BitVec.ofInt w (floorMul f a.toInt b.toInt) := by
  apply BitVec.eq_of_toInt_eq
  rw [toInt_mul, BitVec.toInt_ofInt]

/-- The word a stands for the integer x, of magnitude at most B. -/
structure Holds (a : BitVec w) (x : Int) (B : Nat) : Prop where
  value : a.toInt = x
  bound : x.natAbs ≤ B

theorem fits_of_natAbs_le {x : Int} {B : Nat} (h : x.natAbs ≤ B) (hB : 2 * B < 2 ^ w) : Fits w x := by
  constructor <;> omega

namespace Holds

variable {f : Nat} {a b : BitVec w} {x y : Int} {A B : Nat}

theorem le (h : Holds a x A) (hAB : A ≤ B) : Holds a x B := ⟨h.value, h.bound.trans hAB⟩

theorem word (a : BitVec w) : Holds a a.toInt (2 ^ (w - 1)) := by
  refine ⟨rfl, ?_⟩
  have h := fits_toInt a
  cases w with
  | zero => simp [BitVec.toInt_zero_length]
  | succ v =>
      rw [Fits, Nat.pow_succ] at h
      rw [Nat.add_sub_cancel]
      omega

theorem add (ha : Holds a x A) (hb : Holds b y B) (h : 2 * (A + B) < 2 ^ w) :
    Holds (a + b) (x + y) (A + B) := by
  obtain ⟨rfl, hA⟩ := ha
  obtain ⟨rfl, hB⟩ := hb
  have hsum : (a.toInt + b.toInt).natAbs ≤ A + B :=
    (Int.natAbs_add_le _ _).trans (Nat.add_le_add hA hB)
  exact ⟨toInt_add_eq (fits_of_natAbs_le hsum h), hsum⟩

theorem sub (ha : Holds a x A) (hb : Holds b y B) (h : 2 * (A + B) < 2 ^ w) :
    Holds (a - b) (x - y) (A + B) := by
  obtain ⟨rfl, hA⟩ := ha
  obtain ⟨rfl, hB⟩ := hb
  have hdiff : (a.toInt - b.toInt).natAbs ≤ A + B :=
    (Int.natAbs_sub_le _ _).trans (Nat.add_le_add hA hB)
  exact ⟨toInt_sub_eq (fits_of_natAbs_le hdiff h), hdiff⟩

theorem neg (ha : Holds a x A) (h : 2 * A < 2 ^ w) : Holds (-a) (-x) A := by
  obtain ⟨rfl, hA⟩ := ha
  have hneg : (-a.toInt).natAbs ≤ A := by
    rw [Int.natAbs_neg]
    exact hA
  have hfits := fits_of_natAbs_le hneg h
  refine ⟨?_, hneg⟩
  rw [BitVec.toInt_neg]
  exact Int.bmod_eq_of_le_mul_two hfits.1 hfits.2

theorem natAbs_ediv_le {z : Int} {m N : Nat} (hm : 0 < m) (hz : z.natAbs ≤ N) :
    (z / m).natAbs ≤ N / m + 1 := by
  have hpos : (0 : Int) < m := Int.natCast_pos.mpr hm
  have hhi : z / m ≤ ((N / m : Nat) : Int) := by
    rw [Int.natCast_ediv]
    exact Int.ediv_le_ediv hpos (by omega)
  have hlo : -((N / m + 1 : Nat) : Int) ≤ z / m := by
    rw [Int.le_ediv_iff_mul_le hpos]
    have hN : (N : Int) < ((N / m + 1 : Nat) : Int) * m := by
      exact_mod_cast Nat.lt_mul_of_div_lt (Nat.lt_succ_self _) hm
    rw [Int.neg_mul]
    omega
  omega

theorem mul (ha : Holds a x A) (hb : Holds b y B) (h : 2 * (A * B / 2 ^ f + 1) < 2 ^ w) :
    Holds (FixedPoint.mul f a b) (floorMul f x y) (A * B / 2 ^ f + 1) := by
  obtain ⟨rfl, hA⟩ := ha
  obtain ⟨rfl, hB⟩ := hb
  have hprod : (a.toInt * b.toInt).natAbs ≤ A * B := by
    rw [Int.natAbs_mul]
    exact Nat.mul_le_mul hA hB
  have hfloor : (floorMul f a.toInt b.toInt).natAbs ≤ A * B / 2 ^ f + 1 := by
    have := natAbs_ediv_le (Nat.two_pow_pos f) hprod
    rwa [Nat.cast_pow] at this
  exact ⟨toInt_mul_eq (fits_of_natAbs_le hfloor h), hfloor⟩

theorem signExtend {v : Nat} (ha : Holds a x A) (h : w ≤ v) : Holds (a.signExtend v) x A := by
  refine ⟨?_, ha.bound⟩
  rw [BitVec.toInt_signExtend_of_le h]
  exact ha.value

theorem cut {v : Nat} (ha : Holds a x A) (hv : v ≤ w) (h : 2 * A < 2 ^ v) :
    Holds (a.setWidth v) x A := by
  have hfits : Fits v x := fits_of_natAbs_le ha.bound h
  refine ⟨?_, ha.bound⟩
  rw [toInt_setWidth_of_le a hv, ha.value]
  exact Int.bmod_eq_of_le_mul_two hfits.1 hfits.2

theorem shiftLeft_one (ha : Holds a x A) (h : 2 * (A + A) < 2 ^ w) :
    Holds (a <<< 1) (x + x) (A + A) := by
  have hdouble : a <<< 1 = a + a := by
    apply BitVec.eq_of_toNat_eq
    simp [Nat.shiftLeft_eq, Nat.mul_two]
  rw [hdouble]
  exact ha.add ha h

theorem sdiv (ha : Holds a x A) (hb : Holds b y B) (h : 2 * A < 2 ^ w) :
    Holds (a.sdiv b) (x.tdiv y) (A / y.natAbs) := by
  obtain ⟨rfl, hA⟩ := ha
  obtain ⟨rfl, hB⟩ := hb
  have hquotient : (a.toInt.tdiv b.toInt).natAbs ≤ A / b.toInt.natAbs := by
    rw [Int.natAbs_tdiv]
    exact Nat.div_le_div_right hA
  have hfits : Fits w (a.toInt.tdiv b.toInt) :=
    fits_of_natAbs_le (hquotient.trans (Nat.div_le_self A _)) h
  refine ⟨?_, hquotient⟩
  rw [BitVec.toInt_sdiv]
  exact Int.bmod_eq_of_le_mul_two hfits.1 hfits.2

end Holds

end HilLab.Lib.FixedPoint
