import Mathlib.Algebra.CharP.Two
import Mathlib.Algebra.Field.ZMod
import Mathlib.Algebra.Polynomial.Coeff
import Mathlib.Algebra.Polynomial.Div
import Mathlib.Algebra.Polynomial.FieldDivision
import Mathlib.RingTheory.PrincipalIdealDomain

namespace HilLab.Lib.Crc

open Polynomial

section Words

/-- The polynomial over GF(2) whose coefficients are the bits of a number. -/
noncomputable def poly (v : Nat) : (ZMod 2)[X] :=
  ∑ i ∈ Finset.range v, if v.testBit i then X ^ i else 0

theorem coeff_poly (v i : Nat) : (poly v).coeff i = if v.testBit i then 1 else 0 := by
  have hterm (k : Nat) : (if v.testBit k then (X ^ k : (ZMod 2)[X]) else 0).coeff i =
      if i = k then (if v.testBit i then 1 else 0) else 0 := by
    rw [apply_ite (fun p : (ZMod 2)[X] => p.coeff i), coeff_X_pow, coeff_zero]
    by_cases hik : i = k
    · rw [hik]
      simp
    · simp [hik]
  rw [poly, finsetSum_coeff]
  simp only [hterm, Finset.sum_ite_eq, Finset.mem_range]
  by_cases hi : i < v
  · rw [if_pos hi]
  · have hlt : v < 2 ^ i := Nat.lt_of_le_of_lt (Nat.le_of_not_lt hi) i.lt_two_pow_self
    rw [if_neg hi, Nat.testBit_lt_two_pow hlt]
    rfl

theorem poly_injective : Function.Injective poly := by
  intro u v h
  apply Nat.eq_of_testBit_eq
  intro i
  have hcoeff := congrArg (fun p => p.coeff i) h
  simp only [coeff_poly] at hcoeff
  revert hcoeff
  cases u.testBit i <;> cases v.testBit i <;> decide

theorem poly_xor (u v : Nat) : poly (u ^^^ v) = poly u + poly v := by
  ext i
  rw [coeff_add, coeff_poly, coeff_poly, coeff_poly, Nat.testBit_xor]
  cases u.testBit i <;> cases v.testBit i <;> decide

theorem poly_shiftLeft (v k : Nat) : poly (v <<< k) = X ^ k * poly v := by
  ext i
  rw [coeff_X_pow_mul', coeff_poly, coeff_poly, Nat.testBit_shiftLeft]
  by_cases hk : k ≤ i
  · simp [hk]
  · simp [hk]

@[simp] theorem poly_zero : poly 0 = 0 := rfl

theorem poly_two_pow (k : Nat) : poly (2 ^ k) = X ^ k := by
  ext i
  rw [coeff_poly, coeff_X_pow, Nat.testBit_two_pow]
  simp [eq_comm]

theorem poly_one : poly 1 = 1 := by
  simpa using poly_two_pow 0

theorem degree_poly_lt {v w : Nat} (h : v < 2 ^ w) : (poly v).degree < w := by
  rw [degree_lt_iff_coeff_zero]
  intro i hi
  have hlt : v < 2 ^ i := Nat.lt_of_lt_of_le h (Nat.pow_le_pow_right (by decide) hi)
  rw [coeff_poly, Nat.testBit_lt_two_pow hlt]
  rfl

end Words

section Fields

variable {u k : Nat} (v : Nat) (h : u < 2 ^ k)

theorem mod_eq_append (n k : Nat) : v % 2 ^ (n + k) = (v >>> k % 2 ^ n) <<< k ||| v % 2 ^ k := by
  have hlow : v % 2 ^ k < 2 ^ k := Nat.mod_lt v (Nat.two_pow_pos k)
  rw [Nat.shiftLeft_eq, Nat.mul_comm, ← Nat.two_pow_add_eq_or_of_lt hlow, Nat.shiftRight_eq_div_pow,
    Nat.add_comm n k, Nat.pow_add, Nat.mod_mul, Nat.add_comm]

include h

theorem append_eq : v <<< k ||| u = 2 ^ k * v + u := by
  rw [Nat.shiftLeft_eq, Nat.mul_comm, Nat.two_pow_add_eq_or_of_lt h]

theorem append_shiftRight : (v <<< k ||| u) >>> k = v := by
  rw [append_eq v h, Nat.shiftRight_eq_div_pow, Nat.mul_add_div (Nat.two_pow_pos k),
    Nat.div_eq_of_lt h, Nat.add_zero]

theorem append_mod : (v <<< k ||| u) % 2 ^ k = u := by
  rw [append_eq v h, Nat.mul_add_mod, Nat.mod_eq_of_lt h]

theorem append_lt {n : Nat} {v : Nat} (hv : v < 2 ^ n) : v <<< k ||| u < 2 ^ (n + k) := by
  rw [append_eq v h, Nat.pow_add]
  calc 2 ^ k * v + u < 2 ^ k * v + 2 ^ k := Nat.add_lt_add_left h _
    _ = 2 ^ k * (v + 1) := (Nat.mul_succ _ _).symm
    _ ≤ 2 ^ k * 2 ^ n := Nat.mul_le_mul_left _ hv
    _ = 2 ^ n * 2 ^ k := Nat.mul_comm _ _

theorem poly_append : poly (v <<< k ||| u) = X ^ k * poly v + poly u := by
  have hxor : v <<< k ||| u = v <<< k ^^^ u := by
    apply Nat.eq_of_testBit_eq
    intro i
    rw [Nat.testBit_or, Nat.testBit_xor, Nat.testBit_shiftLeft]
    by_cases hi : k ≤ i
    · rw [Nat.testBit_lt_two_pow (Nat.lt_of_lt_of_le h (Nat.pow_le_pow_right (by decide) hi))]
      simp
    · simp [hi]
  rw [hxor, poly_xor, poly_shiftLeft]

end Fields

theorem poly_low_succ (v n : Nat) :
    poly (v % 2 ^ (n + 1)) = X ^ n * poly (v.testBit n).toNat + poly (v % 2 ^ n) := by
  have htop : v >>> n % 2 ^ 1 = (v.testBit n).toNat := by
    rw [Nat.shiftRight_eq_div_pow, Nat.toNat_testBit, Nat.pow_one]
  rw [Nat.add_comm, mod_eq_append, htop, poly_append _ (Nat.mod_lt v (Nat.two_pow_pos n))]

section Division

/-- The monic polynomial x^width + low. -/
structure Generator where
  width : Nat
  low : Nat
  width_pos : 0 < width
  low_lt : low < 2 ^ width

namespace Generator

variable (g : Generator)

noncomputable def polynomial : (ZMod 2)[X] := X ^ g.width + poly g.low

theorem monic : g.polynomial.Monic := monic_X_pow_add (degree_poly_lt g.low_lt)

theorem degree_polynomial : g.polynomial.degree = g.width := by
  have hlow : (poly g.low).degree < (X ^ g.width : (ZMod 2)[X]).degree := by
    rw [degree_X_pow]
    exact degree_poly_lt g.low_lt
  rw [polynomial, degree_add_eq_left_of_degree_lt hlow, degree_X_pow]

def shift (crc : Nat) (bit : Bool) : Nat :=
  let next := crc <<< 1 % 2 ^ g.width
  if crc.testBit (g.width - 1) ^^ bit then next ^^^ g.low else next

theorem shift_lt (crc : Nat) (bit : Bool) : g.shift crc bit < 2 ^ g.width := by
  have hnext : crc <<< 1 % 2 ^ g.width < 2 ^ g.width := Nat.mod_lt _ (Nat.two_pow_pos _)
  rw [shift]
  split
  · exact Nat.xor_lt_two_pow hnext g.low_lt
  · exact hnext

variable {g}

theorem dvd_shift {crc : Nat} (h : crc < 2 ^ g.width) (bit : Bool) :
    g.polynomial ∣ X * poly crc + poly bit.toNat * X ^ g.width + poly (g.shift crc bit) := by
  have htop : X * poly crc = poly (crc <<< 1 % 2 ^ g.width) +
      poly (crc.testBit (g.width - 1)).toNat * X ^ g.width := by
    have hlt : crc <<< 1 < 2 ^ (g.width + 1) := by
      rw [Nat.shiftLeft_eq, Nat.pow_succ]
      exact Nat.mul_lt_mul_of_pos_right h (by decide)
    have hbit : (crc <<< 1).testBit g.width = crc.testBit (g.width - 1) := by
      rw [Nat.testBit_shiftLeft, decide_eq_true (Nat.succ_le_of_lt g.width_pos), Bool.true_and]
    have hlow := poly_low_succ (crc <<< 1) g.width
    rw [Nat.mod_eq_of_lt hlt, hbit, poly_shiftLeft, pow_one] at hlow
    rw [hlow, add_comm, mul_comm (X ^ g.width)]
  have hfeedback : poly (crc.testBit (g.width - 1)).toNat + poly bit.toNat =
      poly (crc.testBit (g.width - 1) ^^ bit).toNat := by
    rw [← poly_xor]
    cases crc.testBit (g.width - 1) <;> cases bit <;> rfl
  have hshift : poly (g.shift crc bit) = poly (crc <<< 1 % 2 ^ g.width) +
      poly (crc.testBit (g.width - 1) ^^ bit).toNat * poly g.low := by
    rw [shift]
    cases crc.testBit (g.width - 1) ^^ bit with
    | true => rw [if_pos rfl, poly_xor, Bool.toNat_true, poly_one, one_mul]
    | false => rw [if_neg Bool.false_ne_true, Bool.toNat_false, poly_zero, zero_mul, add_zero]
  refine ⟨poly (crc.testBit (g.width - 1) ^^ bit).toNat, ?_⟩
  calc X * poly crc + poly bit.toNat * X ^ g.width + poly (g.shift crc bit)
      = (poly (crc.testBit (g.width - 1)).toNat + poly bit.toNat) * X ^ g.width +
          poly (crc.testBit (g.width - 1) ^^ bit).toNat * poly g.low +
          (poly (crc <<< 1 % 2 ^ g.width) + poly (crc <<< 1 % 2 ^ g.width)) := by
        rw [htop, hshift]
        ring
    _ = g.polynomial * poly (crc.testBit (g.width - 1) ^^ bit).toNat := by
        rw [CharTwo.add_self_eq_zero, hfeedback, polynomial]
        ring

/-- The register holds the remainder for a message. -/
structure Remains (g : Generator) (message : (ZMod 2)[X]) (crc : Nat) : Prop where
  lt : crc < 2 ^ g.width
  dvd : g.polynomial ∣ message * X ^ g.width + poly crc

variable {message : (ZMod 2)[X]} {crc : Nat}

theorem remains_zero : g.Remains 0 0 := by
  refine ⟨Nat.two_pow_pos _, ?_⟩
  rw [zero_mul, poly_zero, add_zero]
  exact dvd_zero _

theorem Remains.shift (h : g.Remains message crc) (bit : Bool) :
    g.Remains (X * message + poly bit.toNat) (g.shift crc bit) := by
  refine ⟨g.shift_lt crc bit, ?_⟩
  have hsum : (X * message + poly bit.toNat) * X ^ g.width + poly (g.shift crc bit) =
      X * (message * X ^ g.width + poly crc) +
        (X * poly crc + poly bit.toNat * X ^ g.width + poly (g.shift crc bit)) -
        (X * poly crc + X * poly crc) := by ring
  rw [hsum, CharTwo.add_self_eq_zero, sub_zero]
  exact dvd_add (h.dvd.mul_left X) (dvd_shift h.lt bit)

def feed (g : Generator) (v : Nat) : Nat → Nat → Nat
  | 0, crc => crc
  | n + 1, crc => feed g v n (g.shift crc (v.testBit n))

theorem Remains.feed (h : g.Remains message crc) (v n : Nat) :
    g.Remains (X ^ n * message + poly (v % 2 ^ n)) (g.feed v n crc) := by
  induction n generalizing message crc with
  | zero =>
      rw [pow_zero, one_mul, pow_zero, Nat.mod_one, poly_zero, add_zero]
      exact h
  | succ n ih =>
      have hrest := ih (h.shift (v.testBit n))
      have hmessage : X ^ n * (X * message + poly (v.testBit n).toNat) + poly (v % 2 ^ n) =
          X ^ (n + 1) * message + poly (v % 2 ^ (n + 1)) := by
        rw [poly_low_succ]
        ring
      rw [hmessage] at hrest
      exact hrest

theorem Remains.modByMonic (h : g.Remains message crc) :
    poly crc = (message * X ^ g.width) %ₘ g.polynomial := by
  have hself : poly crc %ₘ g.polynomial = poly crc := by
    rw [modByMonic_eq_self_iff g.monic, degree_polynomial]
    exact degree_poly_lt h.lt
  have hsub : g.polynomial ∣ message * X ^ g.width - poly crc := by
    rw [CharTwo.sub_eq_add]
    exact h.dvd
  rw [modByMonic_eq_of_dvd_sub g.monic hsub, hself]

theorem Remains.unique {crc' : Nat} (h : g.Remains message crc) (h' : g.Remains message crc') :
    crc = crc' := poly_injective (h.modByMonic.trans h'.modByMonic.symm)

end Generator

end Division

section Detection

/-- One bit of the lowest n, or two. -/
def OneOrTwo (n e : Nat) : Prop :=
  (∃ i, i < n ∧ e = 2 ^ i) ∨ ∃ i j, i < j ∧ j < n ∧ e = 2 ^ i ^^^ 2 ^ j

namespace Generator

/-- No power of x below the n-th but the first leaves the remainder one. -/
def Separates (g : Generator) (n : Nat) : Prop :=
  ∀ d, d < n → 0 < d → (fun crc => g.shift crc false)^[d] 1 ≠ 1

instance (g : Generator) (n : Nat) : Decidable (g.Separates n) :=
  inferInstanceAs (Decidable (∀ d, d < n → 0 < d → (fun crc => g.shift crc false)^[d] 1 ≠ 1))

variable {g : Generator}

theorem one_lt : 1 < 2 ^ g.width := Nat.one_lt_two_pow (Nat.ne_of_gt g.width_pos)

theorem dvd_iterate (d : Nat) :
    (fun crc => g.shift crc false)^[d] 1 < 2 ^ g.width ∧
      g.polynomial ∣ X ^ d + poly ((fun crc => g.shift crc false)^[d] 1) := by
  induction d with
  | zero =>
      rw [Function.iterate_zero_apply, pow_zero, poly_one, CharTwo.add_self_eq_zero]
      exact ⟨one_lt, dvd_zero _⟩
  | succ d ih =>
      obtain ⟨hlt, hdvd⟩ := ih
      rw [Function.iterate_succ_apply']
      generalize (fun crc => g.shift crc false)^[d] 1 = crc at hlt hdvd
      refine ⟨g.shift_lt crc false, ?_⟩
      have hshift := dvd_shift hlt false
      rw [Bool.toNat_false, poly_zero, zero_mul, add_zero] at hshift
      have hsum : X ^ (d + 1) + poly (g.shift crc false) =
          X * (X ^ d + poly crc) + (X * poly crc + poly (g.shift crc false)) -
            (X * poly crc + X * poly crc) := by ring
      rw [hsum, CharTwo.add_self_eq_zero, sub_zero]
      exact dvd_add (hdvd.mul_left X) hshift

theorem not_dvd_pow_add_one {n d : Nat} (h : g.Separates n) (hd : d < n) (hpos : 0 < d) :
    ¬ g.polynomial ∣ X ^ d + 1 := by
  intro hone
  obtain ⟨hlt, hdvd⟩ := dvd_iterate (g := g) d
  have hne := h d hd hpos
  generalize (fun crc => g.shift crc false)^[d] 1 = crc at hlt hdvd hne
  have hsum : X ^ d + poly crc + (X ^ d + 1) = poly (crc ^^^ 1) + (X ^ d + X ^ d) := by
    rw [poly_xor, poly_one]
    ring
  have hrest := dvd_add hdvd hone
  rw [hsum, CharTwo.add_self_eq_zero, add_zero] at hrest
  have hdegree : (poly (crc ^^^ 1)).degree < g.polynomial.degree := by
    rw [degree_polynomial]
    exact degree_poly_lt (Nat.xor_lt_two_pow hlt one_lt)
  have hzero := eq_zero_of_dvd_of_degree_lt hrest hdegree
  rw [poly_xor, CharTwo.add_eq_zero] at hzero
  exact hne (poly_injective hzero)

variable (hodd : g.low.testBit 0 = true)
include hodd

theorem coprime_X_pow (i : Nat) : IsCoprime g.polynomial (X ^ i) := by
  have hcoeff : g.polynomial.coeff 0 = 1 := by
    rw [polynomial, coeff_add, coeff_X_pow, if_neg (Nat.ne_of_lt g.width_pos), coeff_poly, hodd,
      zero_add]
    rfl
  apply IsCoprime.pow_right
  apply IsCoprime.symm
  have hX : Irreducible (X : (ZMod 2)[X]) := irreducible_X
  rw [hX.coprime_iff_not_dvd, X_dvd_iff, hcoeff]
  exact one_ne_zero

theorem not_dvd_X_pow (i : Nat) : ¬ g.polynomial ∣ X ^ i := by
  intro hdvd
  have hunit := (coprime_X_pow hodd i).isUnit_of_dvd' (dvd_refl _) hdvd
  have hdegree := degree_eq_zero_of_isUnit hunit
  rw [degree_polynomial] at hdegree
  exact Nat.ne_of_gt g.width_pos (by exact_mod_cast hdegree)

theorem not_dvd_oneOrTwo {n e : Nat} (h : g.Separates n) (he : OneOrTwo n e) :
    ¬ g.polynomial ∣ poly e := by
  rcases he with ⟨i, -, rfl⟩ | ⟨i, j, hij, hj, rfl⟩
  · rw [poly_two_pow]
    exact not_dvd_X_pow hodd i
  · intro hdvd
    have hfactor : poly (2 ^ i ^^^ 2 ^ j) = X ^ i * (X ^ (j - i) + 1) := by
      rw [poly_xor, poly_two_pow, poly_two_pow, mul_add, ← pow_add, Nat.add_sub_cancel' hij.le,
        mul_one, add_comm]
    rw [hfactor] at hdvd
    exact not_dvd_pow_add_one h (Nat.lt_of_le_of_lt (Nat.sub_le j i) hj) (Nat.sub_pos_of_lt hij)
      ((coprime_X_pow hodd i).dvd_of_dvd_mul_left hdvd)

end Generator

end Detection

section Codewords

namespace Generator

/-- A message above its remainder, which is sent with the bits of the mask inverted. -/
def Codeword (g : Generator) (mask v : Nat) : Prop := g.polynomial ∣ poly v + poly mask

variable {g : Generator} {mask : Nat}

theorem codeword_iff {message check : Nat} (hcheck : check < 2 ^ g.width)
    (hmask : mask < 2 ^ g.width) :
    g.Codeword mask (message <<< g.width ||| check) ↔ g.Remains (poly message) (check ^^^ mask) := by
  have hsum : poly (message <<< g.width ||| check) + poly mask =
      poly message * X ^ g.width + poly (check ^^^ mask) := by
    rw [poly_append _ hcheck, poly_xor]
    ring
  rw [Codeword, hsum]
  exact ⟨fun h => ⟨Nat.xor_lt_two_pow hcheck hmask, h⟩, fun h => h.dvd⟩

/-- A changed codeword is no codeword. -/
theorem Codeword.detects {v n e : Nat} (h : g.Codeword mask v) (hodd : g.low.testBit 0 = true)
    (hseparates : g.Separates n) (he : OneOrTwo n e) : ¬ g.Codeword mask (v ^^^ e) := by
  intro h'
  have hsum : poly v + poly mask + (poly (v ^^^ e) + poly mask) =
      poly e + (poly v + poly v) + (poly mask + poly mask) := by
    rw [poly_xor]
    ring
  have hdvd := dvd_add h h'
  rw [hsum, CharTwo.add_self_eq_zero, CharTwo.add_self_eq_zero, add_zero, add_zero] at hdvd
  exact not_dvd_oneOrTwo hodd hseparates he hdvd

end Generator

end Codewords

end HilLab.Lib.Crc
