import HilLab.Lib.FixedPoint
import Mathlib.Algebra.Order.Field.Basic
import Mathlib.Algebra.Order.Ring.Abs
import Mathlib.Tactic.Linarith
import Mathlib.Tactic.Ring

namespace HilLab.Lib.ErrorBound

open FixedPoint

variable {K : Type*} [Field K] [LinearOrder K] [IsStrictOrderedRing K]

/-- The computed x misses the exact y by at most e. -/
def Near (e x y : K) : Prop := |x - y| ≤ e

namespace Near

variable {e e' x x' y y' z : K}

omit [IsStrictOrderedRing K] in
theorem le (h : Near e x y) (he : e ≤ e') : Near e' x y := le_trans h he

theorem trans (h : Near e x y) (h' : Near e' y z) : Near (e + e') x z :=
  (abs_sub_le x y z).trans (add_le_add h h')

omit [IsStrictOrderedRing K] in
theorem neg (h : Near e x y) : Near e (-x) (-y) := by
  rw [Near, neg_sub_neg, abs_sub_comm]
  exact h

theorem add (h : Near e x y) (h' : Near e' x' y') : Near (e + e') (x + x') (y + y') := by
  rw [Near, add_sub_add_comm]
  exact (abs_add_le _ _).trans (add_le_add h h')

theorem sub (h : Near e x y) (h' : Near e' x' y') : Near (e + e') (x - x') (y - y') := by
  rw [sub_eq_add_neg, sub_eq_add_neg]
  exact h.add h'.neg

theorem mul (h : Near e x y) (c : K) : Near (e * |c|) (x * c) (y * c) := by
  rw [Near, ← sub_mul, abs_mul]
  exact mul_le_mul_of_nonneg_right h (abs_nonneg c)

theorem mul_le (h : Near e x y) {c : K} (hc : |c| ≤ 1) : Near e (x * c) (y * c) := by
  have he : 0 ≤ e := (abs_nonneg _).trans h
  exact (h.mul c).le (mul_le_of_le_one_right he hc)

theorem abs_le (h : Near e x y) {B : K} (hB : |y| ≤ B) : |x| ≤ B + e := by
  have hsum : |x| ≤ |x - y| + |y| := by
    have htri := abs_add_le (x - y) y
    rwa [sub_add_cancel] at htri
  have herror : |x - y| ≤ e := h
  linarith

end Near

theorem near_div (n : Int) {m : Nat} (hm : 0 < m) : Near (1 : K) ((n / m : Int) : K) (n / m) := by
  have hpos : (0 : K) < m := by exact_mod_cast hm
  have hsplit : (m : K) * (n / m : Int) + (n % m : Int) = n := by
    exact_mod_cast Int.mul_ediv_add_emod n m
  have hlo : (0 : K) ≤ (n % m : Int) := by
    exact_mod_cast Int.emod_nonneg n (Int.natCast_ne_zero.mpr (Nat.ne_of_gt hm))
  have hhi : ((n % m : Int) : K) < m := by
    exact_mod_cast Int.emod_lt_of_pos n (Int.natCast_pos.mpr hm)
  have herror : ((n / m : Int) : K) - n / m = -((n % m : Int) : K) / m := by
    rw [eq_div_iff (ne_of_gt hpos), sub_mul, div_mul_cancel₀ _ (ne_of_gt hpos)]
    linarith
  rw [Near, herror, abs_div, abs_neg, abs_of_nonneg hlo, abs_of_pos hpos]
  exact (div_le_one hpos).mpr (le_of_lt hhi)

/-- A product of fixed-point numbers drops less than one unit in the last place. -/
theorem near_floorMul (f : Nat) (x c : Int) :
    Near (1 : K) (floorMul f x c : Int) ((x : K) * (c / 2 ^ f)) := by
  have h := near_div (K := K) (x * c) (Nat.two_pow_pos f)
  have hexact : ((x * c : Int) : K) / ((2 ^ f : Nat) : K) = (x : K) * (c / 2 ^ f) := by
    push_cast
    rw [mul_div_assoc]
  have hfloor : floorMul f x c = x * c / ((2 ^ f : Nat) : Int) := by
    rw [floorMul]
    push_cast
    rfl
  rw [hfloor, ← hexact]
  exact h

end HilLab.Lib.ErrorBound
