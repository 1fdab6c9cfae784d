import Mathlib.Data.List.Basic

namespace HilLab.Lib.ShiftRegister

variable {w v : Nat}

/-- An output flip-flop and the shift register behind it, as one word. -/
def line (out : Bool) (shift : BitVec w) : BitVec (w + 1) := BitVec.cons out shift

theorem line_load (a : BitVec (w + 1)) : line a.msb (a.setWidth w) = a :=
  BitVec.cons_msb_setWidth a

theorem line_shift (out : Bool) (shift : BitVec w) : line shift.msb (shift <<< 1) = line out shift <<< 1 := by
  apply BitVec.eq_of_getMsbD_eq
  intro k hk
  rw [BitVec.getMsbD_shiftLeft]
  cases k with
  | zero =>
      rw [line, line, BitVec.getMsbD_cons_zero, BitVec.getMsbD_cons_succ, BitVec.msb]
  | succ k =>
      rw [line, line, BitVec.getMsbD_cons_succ, BitVec.getMsbD_cons_succ, BitVec.getMsbD_shiftLeft]

/-- The bits i, i + 1, .. of two words sent side by side, most significant first. -/
def lanes (a b : BitVec w) (i n : Nat) : List (Bool × Bool) :=
  (List.range' i n).map (fun k => (a.getMsbD k, b.getMsbD k))

theorem lanes_succ (a b : BitVec w) (i n : Nat) :
    lanes a b i (n + 1) = (a.getMsbD i, b.getMsbD i) :: lanes a b (i + 1) n := rfl

theorem lanes_shift (a b : BitVec w) (i n : Nat) :
    lanes (a <<< 1) (b <<< 1) i n = lanes a b (i + 1) n := by
  induction n generalizing i with
  | zero => rfl
  | succ n ih =>
      rw [lanes_succ, lanes_succ, ih, BitVec.getMsbD_shiftLeft, BitVec.getMsbD_shiftLeft]

/-- Padding below a word does not show while the word itself is sent. -/
theorem lanes_append (a b : BitVec w) (c d : BitVec v) {i n : Nat} (h : i + n ≤ w) :
    lanes (a ++ c) (b ++ d) i n = lanes a b i n := by
  induction n generalizing i with
  | zero => rfl
  | succ n ih =>
      have hi : ¬ w ≤ i := by omega
      rw [lanes_succ, lanes_succ, ih (by omega), BitVec.getMsbD_append, BitVec.getMsbD_append,
        if_neg hi, if_neg hi]

end HilLab.Lib.ShiftRegister
