import HilLab.Lib.Clocked
import Mathlib.Tactic.Ring
import Mathlib.Tactic.SplitIfs

namespace HilLab.Lib.Deadline

open Clocked

section Counter

variable {v w t d : Nat}

theorem toInt_difference (hlate : t < d + 2 ^ v) (hearly : d ≤ t + 2 ^ v) :
    (BitVec.ofNat (v + 1) t - BitVec.ofNat (v + 1) d).toInt = (t : Int) - d := by
  have hpow : 2 ^ (v + 1) = 2 * 2 ^ v := Nat.pow_succ'
  rw [BitVec.toInt_sub, BitVec.toInt_ofNat', BitVec.toInt_ofNat', ← Int.sub_bmod, hpow]
  generalize 2 ^ v = m at *
  exact Int.bmod_eq_of_le (by omega) (by omega)

theorem due_iff (hlate : t < d + 2 ^ v) (hearly : d ≤ t + 2 ^ v) :
    0 ≤ (BitVec.ofNat (v + 1) t - BitVec.ofNat (v + 1) d).toInt ↔ d ≤ t := by
  rw [toInt_difference hlate hearly]
  omega

theorem elapsed (h : d ≤ t) (hlt : t < d + 2 ^ w) :
    (BitVec.ofNat w t - BitVec.ofNat w d).toNat = t - d := by
  have hsub : BitVec.ofNat w t - BitVec.ofNat w d = BitVec.ofNat w (t - d) := by
    rw [BitVec.sub_eq_iff_eq_add, ← BitVec.ofNat_add, Nat.sub_add_cancel h]
  rw [hsub, BitVec.toNat_ofNat]
  exact Nat.mod_eq_of_lt (by omega)

/-- A count that is ahead by less than half a range is that of a time to come. -/
theorem future {a : BitVec (v + 1)} (h : 0 < (a - BitVec.ofNat (v + 1) t).toInt) :
    ∃ d, a = BitVec.ofNat (v + 1) d ∧ t < d ∧ d < t + 2 ^ v := by
  have hpow : 2 ^ (v + 1) = 2 * 2 ^ v := Nat.pow_succ'
  refine ⟨t + (a - BitVec.ofNat (v + 1) t).toNat, ?_, ?_⟩
  · rw [BitVec.ofNat_add, BitVec.ofNat_toNat, BitVec.setWidth_eq]
    rw [BitVec.add_comm, BitVec.sub_add_cancel]
  · rw [BitVec.toInt_eq_toNat_cond] at h
    split_ifs at h with hsmall
    · omega
    · have hlt := (a - BitVec.ofNat (v + 1) t).isLt
      omega

end Counter

section Timer

/-- The deadline of a periodic event, how often it has happened and how often late. -/
structure Timer where
  deadline : Nat
  taken : Nat
  late : Nat

def Timer.start (T s : Nat) : Timer := ⟨s + T, 0, 0⟩

/-- At a reading of the time the event happens if its deadline has come. A reading that is late
by a period or more starts the periods anew. -/
def Timer.read (T : Nat) (c : Timer) (t : Nat) : Timer :=
  if t < c.deadline then c
  else if c.deadline + T ≤ t then ⟨t + T, c.taken + 1, c.late + 1⟩
  else ⟨c.deadline + T, c.taken + 1, c.late⟩

variable {T s t : Nat} {c : Timer}

/-- What holds after a reading at time t. -/
structure Timer.Ahead (T t : Nat) (c : Timer) : Prop where
  lt : t < c.deadline
  le : c.deadline ≤ t + T

theorem Timer.Ahead.read (h : c.Ahead T t) (hT : 0 < T) {u : Nat} (htu : t ≤ u) :
    (c.read T u).Ahead T u := by
  obtain ⟨hlt, hle⟩ := h
  rw [Timer.read]
  split_ifs
  · exact ⟨by omega, by omega⟩
  · exact ⟨Nat.lt_add_of_pos_right hT, Nat.le_refl _⟩
  · exact ⟨by dsimp only; omega, by dsimp only; omega⟩

/-- Without a late event the deadlines are s + T, s + 2 T, and so on. -/
def Timer.Exact (T s : Nat) (c : Timer) : Prop := c.late = 0 → c.deadline = s + (c.taken + 1) * T

theorem Timer.Exact.read (h : c.Exact T s) (t : Nat) : (c.read T t).Exact T s := by
  intro hlate
  rw [Timer.read] at hlate ⊢
  by_cases hwait : t < c.deadline
  · rw [if_pos hwait] at hlate ⊢
    exact h hlate
  · rw [if_neg hwait] at hlate ⊢
    by_cases hanew : c.deadline + T ≤ t
    · rw [if_pos hanew] at hlate
      exact absurd hlate (Nat.succ_ne_zero _)
    · rw [if_neg hanew] at hlate ⊢
      rw [h hlate]
      ring

theorem Timer.Exact.taken (h : c.Exact T s) (hahead : c.Ahead T t) (hlate : c.late = 0) :
    c.taken = (t - s) / T := by
  have hdeadline := h hlate
  obtain ⟨hlt, hle⟩ := hahead
  rw [Nat.add_mul, Nat.one_mul] at hdeadline
  symm
  apply Nat.div_eq_of_lt_le
  · omega
  · rw [Nat.add_mul, Nat.one_mul]
    omega

variable {time : Nat → Nat}

theorem run_ahead (hT : 0 < T) (hs : s ≤ time 0) (hmono : ∀ k, time k ≤ time (k + 1)) (n : Nat) :
    (wave (Timer.read T) (.start T s) time (n + 1)).Ahead T (time n) := by
  induction n with
  | zero => exact Timer.Ahead.read ⟨Nat.lt_add_of_pos_right hT, Nat.le_refl _⟩ hT hs
  | succ n ih => exact ih.read hT (hmono n)

theorem run_exact (T s : Nat) (time : Nat → Nat) (n : Nat) :
    (wave (Timer.read T) (.start T s) time n).Exact T s :=
  wave_invariant (P := Timer.Exact T s) (fun _ => by rw [Timer.start, Nat.zero_add, Nat.one_mul])
    (fun _ t h => h.read t) time n

end Timer

end HilLab.Lib.Deadline
