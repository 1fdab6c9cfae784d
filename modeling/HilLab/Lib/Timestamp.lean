import Mathlib.Algebra.Group.Nat.Defs

namespace HilLab.Lib.Timestamp

variable {w v : Nat}

/-- The time now is less than one round of a counter of v bits after since. -/
def Near (v : Nat) (now since : BitVec w) : Prop := (now - since).toNat < 2 ^ v

theorem setWidth_sub (h : v ≤ w) (now since : BitVec w) :
    (now - since).setWidth v = now.setWidth v - since.setWidth v := by
  rw [BitVec.sub_eq_add_neg, BitVec.setWidth_add _ _ h, BitVec.setWidth_neg_of_le h,
    BitVec.sub_eq_add_neg]

theorem toNat_sub_of_near (h : v ≤ w) {now since : BitVec w} (hnear : Near v now since) :
    (now.setWidth v - since.setWidth v).toNat = (now - since).toNat := by
  rw [← setWidth_sub h, BitVec.toNat_setWidth]
  exact Nat.mod_eq_of_lt hnear

theorem sub_lt_iff (h : v ≤ w) {now since : BitVec w} (hnear : Near v now since) (d : BitVec v) :
    now - since < d.setWidth w ↔ now.setWidth v - since.setWidth v < d := by
  have hd : d.toNat < 2 ^ w := Nat.lt_of_lt_of_le d.isLt (Nat.pow_le_pow_right (by decide) h)
  rw [BitVec.lt_def, BitVec.lt_def, toNat_sub_of_near h hnear, BitVec.toNat_setWidth,
    Nat.mod_eq_of_lt hd]

theorem extract_high_of_near {now since : BitVec w} (hnear : Near v now since) (n : Nat) :
    (now - since).extractLsb' v n = 0 := by
  apply BitVec.eq_of_toNat_eq
  rw [BitVec.extractLsb'_toNat, Nat.shiftRight_eq_div_pow, Nat.div_eq_of_lt hnear]
  rfl

def low (x : BitVec 64) : BitVec 32 := x.extractLsb' 0 32
def high (x : BitVec 64) : BitVec 32 := x.extractLsb' 32 32

theorem toNat_low (x : BitVec 64) : (low x).toNat = x.toNat % 2 ^ 32 := by
  simp [low]

theorem toNat_high (x : BitVec 64) : (high x).toNat = x.toNat / 2 ^ 32 := by
  have hx : x.toNat / 2 ^ 32 < 2 ^ 32 := Nat.div_lt_of_lt_mul x.isLt
  simp only [high, BitVec.extractLsb'_toNat, Nat.shiftRight_eq_div_pow]
  exact Nat.mod_eq_of_lt hx

theorem joined (x : BitVec 64) : (high x).toNat <<< 32 ||| (low x).toNat = x.toNat := by
  have hlow : (low x).toNat < 2 ^ 32 := (low x).isLt
  rw [← Nat.shiftLeft_add_eq_or_of_lt hlow, Nat.shiftLeft_eq, toNat_low, toNat_high]
  omega

/-- A counter that shows one high word twice shows it all the time in between. -/
theorem high_between {x y z : BitVec 64} (hxy : x ≤ y) (hyz : y ≤ z) (h : high x = high z) :
    high y = high x := by
  have hx : x.toNat ≤ y.toNat := hxy
  have hz : y.toNat ≤ z.toNat := hyz
  have hword : x.toNat / 2 ^ 32 = z.toNat / 2 ^ 32 := by
    rw [← toNat_high, ← toNat_high, h]
  apply BitVec.eq_of_toNat_eq
  rw [toNat_high, toNat_high]
  omega

end HilLab.Lib.Timestamp
