import Mathlib.Data.Int.Notation
import Mathlib.Tactic.SplitIfs

namespace HilLab.Lib.Quadrature

/-- The two levels of a quadrature track after a net number of steps. -/
def gray (c : Int) : BitVec 2 :=
  if c % 4 = 0 then 0b00 else if c % 4 = 1 then 0b01 else if c % 4 = 2 then 0b11 else 0b10

def Adjacent (c d : Int) : Prop := d = c ∨ d = c + 1 ∨ d = c - 1

theorem gray_congr {c d : Int} (h : c % 4 = d % 4) : gray c = gray d := by
  rw [gray, gray, h]

theorem gray_cases (c : Int) :
    (gray c = 0b00 ∧ gray (c + 1) = 0b01) ∨ (gray c = 0b01 ∧ gray (c + 1) = 0b11) ∨
      (gray c = 0b11 ∧ gray (c + 1) = 0b10) ∨ (gray c = 0b10 ∧ gray (c + 1) = 0b00) := by
  have hc : c % 4 = 0 ∨ c % 4 = 1 ∨ c % 4 = 2 ∨ c % 4 = 3 := by omega
  rcases hc with hc | hc | hc | hc
  · have hs : (c + 1) % 4 = 1 := by omega
    simp [gray, hc, hs]
  · have hs : (c + 1) % 4 = 2 := by omega
    simp [gray, hc, hs]
  · have hs : (c + 1) % 4 = 3 := by omega
    simp [gray, hc, hs]
  · have hs : (c + 1) % 4 = 0 := by omega
    simp [gray, hc, hs]

/-- What was at position c some cycles ago, or c₀ before the first one. -/
def lag (c₀ : Int) (c : Nat → Int) (k n : Nat) : Int := if n < k then c₀ else c (n - k)

variable {c₀ : Int} {c : Nat → Int}

theorem lag_zero (n : Nat) : lag c₀ c 0 n = c n := by
  simp [lag]

theorem lag_at (k n : Nat) : lag c₀ c k (n + k) = c n := by
  rw [lag, if_neg (by omega), Nat.add_sub_cancel]

theorem lag_succ (k n : Nat) : lag c₀ c (k + 1) (n + 1) = lag c₀ c k n := by
  simp [lag]

theorem lag_start (k : Nat) : lag c₀ c (k + 1) 0 = c₀ := by
  simp [lag]

theorem lag_early {k n : Nat} (h0 : c 0 = c₀) (hn : n ≤ k) : lag c₀ c k n = c₀ := by
  rw [lag]
  split_ifs with hk
  · rfl
  · have hlast : n - k = 0 := by omega
    rw [hlast, h0]

theorem lag_adjacent (h0 : Adjacent c₀ (c 0)) (hc : ∀ n, Adjacent (c n) (c (n + 1))) (k n : Nat) :
    Adjacent (lag c₀ c (k + 1) n) (lag c₀ c k n) := by
  induction k generalizing n with
  | zero =>
      cases n with
      | zero => rwa [lag_start, lag_zero]
      | succ n =>
          rw [lag_succ, lag_zero, lag_zero]
          exact hc n
  | succ k ih =>
      cases n with
      | zero =>
          rw [lag_start, lag_start]
          exact Or.inl rfl
      | succ n =>
          rw [lag_succ, lag_succ]
          exact ih n

end HilLab.Lib.Quadrature
