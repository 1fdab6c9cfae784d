import Mathlib.Algebra.Order.Ring.Nat
import Mathlib.Data.List.Forall2

namespace HilLab.Lib.LittleEndian

def toBytes : Nat → Nat → List UInt8
  | 0, _ => []
  | k + 1, n => UInt8.ofNat n :: toBytes k (n / 256)

def ofBytes : List UInt8 → Nat
  | [] => 0
  | b :: bs => b.toNat + 256 * ofBytes bs

@[simp]
theorem length_toBytes (k n : Nat) : (toBytes k n).length = k := by
  induction k generalizing n with
  | zero => rfl
  | succ k ih => rw [toBytes, List.length_cons, ih]

theorem ofBytes_toBytes {k n : Nat} (h : n < 256 ^ k) : ofBytes (toBytes k n) = n := by
  induction k generalizing n with
  | zero =>
      rw [Nat.pow_zero] at h
      rw [toBytes, ofBytes]
      omega
  | succ k ih =>
      have hdiv : n / 256 < 256 ^ k := by
        rw [Nat.div_lt_iff_lt_mul (by decide), ← Nat.pow_succ]
        exact h
      have hbyte : (UInt8.ofNat n).toNat = n % 256 := UInt8.toNat_ofNat'
      rw [toBytes, ofBytes, ih hdiv, hbyte]
      exact Nat.mod_add_div n 256

theorem ofBytes_lt (bs : List UInt8) : ofBytes bs < 256 ^ bs.length := by
  induction bs with
  | nil => decide
  | cons b bs ih =>
      have hb : b.toNat < 256 := b.toNat_lt
      rw [ofBytes, List.length_cons, Nat.pow_succ]
      omega

theorem toBytes_ofBytes (bs : List UInt8) : toBytes bs.length (ofBytes bs) = bs := by
  induction bs with
  | nil => rfl
  | cons b bs ih =>
      have hb : b.toNat < 256 := b.toNat_lt
      have hlow : UInt8.ofNat (b.toNat + 256 * ofBytes bs) = b := by
        apply UInt8.toNat_inj.mp
        rw [UInt8.toNat_ofNat']
        omega
      have hhigh : (b.toNat + 256 * ofBytes bs) / 256 = ofBytes bs := by omega
      rw [ofBytes, List.length_cons, toBytes, hlow, hhigh, ih]

section Integers

variable (signed : Bool)

/-- What k bytes can hold of the integers; 2 z keeps the signed range whole at k = 0. -/
def Representable (k : Nat) (z : Int) : Prop :=
  if signed then -(256 ^ k : Nat) ≤ 2 * z ∧ 2 * z < (256 ^ k : Nat) else 0 ≤ z ∧ z < (256 ^ k : Nat)

instance (k : Nat) (z : Int) : Decidable (Representable signed k z) :=
  inferInstanceAs (Decidable (if signed then _ else _))

def ofInt (k : Nat) (z : Int) : List UInt8 := toBytes k (z % (256 ^ k : Nat)).toNat

def toInt (bs : List UInt8) : Int :=
  if signed ∧ 256 ^ bs.length ≤ 2 * ofBytes bs then (ofBytes bs : Int) - (256 ^ bs.length : Nat)
  else ofBytes bs

variable {signed}

theorem length_ofInt (k : Nat) (z : Int) : (ofInt k z).length = k := length_toBytes k _

theorem ofBytes_ofInt (k : Nat) (z : Int) :
    (ofBytes (ofInt k z) : Int) = z % (256 ^ k : Nat) := by
  have hpos : (0 : Int) < (256 ^ k : Nat) := Int.natCast_pos.mpr (Nat.pow_pos (by decide))
  have hlow := Int.emod_nonneg z (Int.ne_of_gt hpos)
  have hhigh := Int.emod_lt_of_pos z hpos
  rw [ofInt, ofBytes_toBytes (by omega), Int.toNat_of_nonneg hlow]

theorem toInt_ofInt {k : Nat} {z : Int} (h : Representable signed k z) :
    toInt signed (ofInt k z) = z := by
  have hword := ofBytes_ofInt k z
  rw [toInt, length_ofInt]
  rw [Representable] at h
  generalize (256 ^ k : Nat) = N at h hword ⊢
  cases signed with
  | false =>
      rw [if_neg Bool.false_ne_true] at h
      rw [if_neg (fun hs => absurd hs.1 Bool.false_ne_true), hword, Int.emod_eq_of_lt h.1 h.2]
  | true =>
      rw [if_pos rfl] at h
      rcases Int.lt_or_le z 0 with hneg | hpos
      · have hmod : z % (N : Int) = z + N := by
          rw [← Int.add_emod_right, Int.emod_eq_of_lt (by omega) (by omega)]
        rw [if_pos ⟨rfl, by omega⟩, hword, hmod]
        omega
      · rw [Int.emod_eq_of_lt hpos (by omega)] at hword
        rw [if_neg (fun hs => by omega), hword]

variable (signed) in
theorem representable_toInt (bs : List UInt8) :
    Representable signed bs.length (toInt signed bs) := by
  have hlt := ofBytes_lt bs
  rw [Representable, toInt]
  generalize (256 ^ bs.length : Nat) = N at hlt ⊢
  cases signed with
  | false =>
      rw [if_neg Bool.false_ne_true, if_neg (fun hs => absurd hs.1 Bool.false_ne_true)]
      omega
  | true =>
      rw [if_pos rfl]
      by_cases hbig : N ≤ 2 * ofBytes bs
      · rw [if_pos ⟨rfl, hbig⟩]
        omega
      · rw [if_neg (fun hs => hbig hs.2)]
        omega

variable (signed) in
theorem ofInt_toInt (bs : List UInt8) : ofInt bs.length (toInt signed bs) = bs := by
  have hlt := ofBytes_lt bs
  have hword : (toInt signed bs) % (256 ^ bs.length : Nat) = ofBytes bs := by
    rw [toInt]
    split
    · rw [Int.sub_emod_right, Int.emod_eq_of_lt (by omega) (by exact_mod_cast hlt)]
    · exact Int.emod_eq_of_lt (by omega) (by exact_mod_cast hlt)
  rw [ofInt, hword, Int.toNat_natCast, toBytes_ofBytes]

end Integers

/-- A record of unsigned fields, each a width in bytes, with no padding. -/
def encode : List Nat → List Nat → List UInt8
  | w :: ws, v :: vs => toBytes w v ++ encode ws vs
  | _, _ => []

def size : List Nat → Nat
  | [] => 0
  | w :: ws => w + size ws

def decode : List Nat → List UInt8 → List Nat
  | [], _ => []
  | w :: ws, bs => ofBytes (bs.take w) :: decode ws (bs.drop w)

abbrev Fits (ws vs : List Nat) : Prop := List.Forall₂ (fun w v => v < 256 ^ w) ws vs

theorem length_encode {ws vs : List Nat} (h : Fits ws vs) : (encode ws vs).length = size ws := by
  induction h with
  | nil => rfl
  | cons _ _ ih => rw [encode, List.length_append, length_toBytes, ih, size]

/-- The decoder reads back every record the encoder writes. -/
theorem decode_encode {ws vs : List Nat} (h : Fits ws vs) : decode ws (encode ws vs) = vs := by
  induction h with
  | nil => rfl
  | @cons w v ws vs hv _ ih =>
      have htake : (toBytes w v ++ encode ws vs).take w = toBytes w v :=
        List.take_left' (length_toBytes w v)
      have hdrop : (toBytes w v ++ encode ws vs).drop w = encode ws vs :=
        List.drop_left' (length_toBytes w v)
      rw [encode, decode, htake, hdrop, ih, ofBytes_toBytes hv]

end HilLab.Lib.LittleEndian
