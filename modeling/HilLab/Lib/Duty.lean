import HilLab.Lib.Edges
import Mathlib.Data.Nat.ModEq

namespace HilLab.Lib.Duty

open Edges

def duty (P s a b n : Nat) : Bool := decide (s ≤ n ∧ a ≤ (n - s) % P ∧ (n - s) % P < b)

section Modulus

variable {P base x g : Nat}

theorem succ_mod (m : Nat) (hP : 0 < P) :
    (m + 1) % P = if m % P + 1 = P then 0 else m % P + 1 := by
  have hlt := Nat.mod_lt m hP
  rw [← Nat.mod_add_mod]
  split_ifs with h
  · rw [h, Nat.mod_self]
  · exact Nat.mod_eq_of_lt (by omega)

theorem gap_unique (hx0 : 0 < x) (hx : x ≤ P) (hg0 : 0 < g) (hg : g ≤ P)
    (h : (base + x) % P = (base + g) % P) : x = g := by
  have hmod : x % P = g % P := Nat.ModEq.add_left_cancel' base h
  rcases Nat.lt_or_eq_of_le hx with hlt | rfl
  · rcases Nat.lt_or_eq_of_le hg with hlt' | rfl
    · rwa [Nat.mod_eq_of_lt hlt, Nat.mod_eq_of_lt hlt'] at hmod
    · rw [Nat.mod_eq_of_lt hlt, Nat.mod_self] at hmod
      omega
  · rcases Nat.lt_or_eq_of_le hg with hlt' | rfl
    · rw [Nat.mod_eq_of_lt hlt', Nat.mod_self] at hmod
      omega
    · rfl

end Modulus

section Edges

variable {P s a b n : Nat}

theorem duty_iff : duty P s a b n = true ↔ s ≤ n ∧ a ≤ (n - s) % P ∧ (n - s) % P < b :=
  decide_eq_true_iff

theorem before_duty (hs : 0 < s) (n : Nat) :
    before false (duty P s a b) n = duty P (s + 1) a b n := by
  cases n with
  | zero => rw [before, eq_comm, duty, decide_eq_false (by omega)]
  | succ n => simp only [before, duty, Nat.add_le_add_iff_right, Nat.add_sub_add_right]

theorem rise_duty_iff (hs : 0 < s) (hab : a < b) (hshort : b < P + a) :
    rise (duty P s a b) n = true ↔ s ≤ n ∧ (n - s) % P = a := by
  rw [rise, before_duty hs, Bool.and_eq_true, Bool.not_eq_true', duty_iff, duty, decide_eq_false_iff_not]
  rcases Nat.lt_trichotomy n s with hlt | rfl | hlt
  · omega
  · have hzero : (n - n) % P = 0 := by rw [Nat.sub_self, Nat.zero_mod]
    omega
  · have hpred : n - s = n - (s + 1) + 1 := by omega
    rw [hpred, succ_mod _ (by omega)]
    have hmod := Nat.mod_lt (n - (s + 1)) (by omega : 0 < P)
    split_ifs <;> omega

theorem fall_duty_iff (hs : 0 < s) (hab : a < b) (hbP : b ≤ P) (hshort : b < P + a) :
    fall (duty P s a b) n = true ↔ s < n ∧ (n - (s + 1)) % P + 1 = b := by
  rw [fall, before_duty hs, Bool.and_eq_true, Bool.not_eq_true', duty_iff, duty, decide_eq_false_iff_not]
  rcases Nat.lt_or_ge s n with hlt | hge
  · have hpred : n - s = n - (s + 1) + 1 := by omega
    rw [hpred, succ_mod _ (by omega)]
    have hmod := Nat.mod_lt (n - (s + 1)) (by omega : 0 < P)
    split_ifs <;> omega
  · omega

theorem phase_of_fall (h : s < n ∧ (n - (s + 1)) % P + 1 = b) :
    s ≤ n ∧ (n - s) % P = b % P := by
  refine ⟨Nat.le_of_lt h.1, ?_⟩
  have hpred : n - s = n - (s + 1) + 1 := by omega
  rw [hpred, ← Nat.mod_add_mod, h.2]

theorem fall_of_phase (hs : 0 < s) (hab : a < b) (hbP : b ≤ P) (hshort : b < P + a)
    (hlt : s < n) (h : (n - s) % P = b % P) : fall (duty P s a b) n = true := by
  apply (fall_duty_iff hs hab hbP hshort).mpr
  refine ⟨hlt, ?_⟩
  have hpred : n - s = n - (s + 1) + 1 := by omega
  rw [hpred, succ_mod _ (by omega)] at h
  rcases Nat.lt_or_eq_of_le hbP with hbP | rfl
  · rw [Nat.mod_eq_of_lt hbP] at h
    split_ifs at h <;> omega
  · rw [Nat.mod_self] at h
    split_ifs at h with hwrap
    · exact hwrap

theorem phase_of_rise (haP : a < P) (h : s ≤ n ∧ (n - s) % P = a) :
    s ≤ n ∧ (n - s) % P = a % P :=
  ⟨h.1, h.2.trans (Nat.mod_eq_of_lt haP).symm⟩

theorem rise_recurs (hs : 0 < s) (hab : a < b) (hshort : b < P + a)
    (h : rise (duty P s a b) n = true) : rise (duty P s a b) (n + P) = true := by
  rw [rise_duty_iff hs hab hshort] at h ⊢
  have hshift : n + P - s = n - s + P := by omega
  rw [hshift, Nat.add_mod_right]
  exact ⟨by omega, h.2⟩

theorem fall_recurs (hs : 0 < s) (hab : a < b) (hbP : b ≤ P) (hshort : b < P + a)
    (h : fall (duty P s a b) n = true) : fall (duty P s a b) (n + P) = true := by
  rw [fall_duty_iff hs hab hbP hshort] at h ⊢
  have hshift : n + P - (s + 1) = n - (s + 1) + P := by omega
  rw [hshift, Nat.add_mod_right]
  exact ⟨by omega, h.2⟩

/-- How far back the last of the recurring events is, at a phase that is g behind theirs. -/
theorem latest_gap {event : Nat → Bool} {m c g : Nat} (h : Latest event m n)
    (hrecurs : event m = true → event (m + P) = true) (hm : s ≤ m ∧ (m - s) % P = c % P)
    (hn : (n - s) % P = (c + g) % P) (hg0 : 0 < g) (hg : g ≤ P) : n = m + g := by
  have hlt := h.lt
  have hle : n ≤ m + P := by
    rcases Nat.lt_or_ge (m + P) n with hlt' | hge
    · have hquiet := h.quiet (m + P) (by omega) hlt'
      rw [hrecurs h.holds] at hquiet
      cases hquiet
    · exact hge
  have hsplit : n - s = (m - s) + (n - m) := by omega
  rw [hsplit, ← Nat.mod_add_mod, hm.2, Nat.mod_add_mod] at hn
  have hgap : n - m = g := gap_unique (by omega) (by omega) hg0 hg hn
  omega

section Gaps

variable (hs : 0 < s) (hab : a < b) (hbP : b ≤ P) (hshort : b < P + a) {m : Nat}

include hs hab hshort

theorem rise_rise_gap (haP : a < P) (hn : rise (duty P s a b) n = true)
    (h : Latest (rise (duty P s a b)) m n) : n = m + P := by
  have hm := (rise_duty_iff hs hab hshort).mp h.holds
  have hphase := (rise_duty_iff hs hab hshort).mp hn
  refine latest_gap h (rise_recurs hs hab hshort) (phase_of_rise haP hm) ?_ (by omega)
    (Nat.le_refl P)
  rw [Nat.add_mod_right, hphase.2, Nat.mod_eq_of_lt haP]

include hbP

theorem rise_fall_gap (haP : a < P) (hn : fall (duty P s a b) n = true)
    (h : Latest (rise (duty P s a b)) m n) : n = m + (b - a) := by
  have hm := (rise_duty_iff hs hab hshort).mp h.holds
  have hphase := phase_of_fall ((fall_duty_iff hs hab hbP hshort).mp hn)
  refine latest_gap h (rise_recurs hs hab hshort) (phase_of_rise haP hm) ?_ (by omega) (by omega)
  rw [hphase.2, Nat.add_sub_cancel' (Nat.le_of_lt hab)]

theorem fall_rise_gap (haP : a < P) (hn : rise (duty P s a b) n = true)
    (h : Latest (fall (duty P s a b)) m n) : n = m + (P - (b - a)) := by
  have hm := phase_of_fall ((fall_duty_iff hs hab hbP hshort).mp h.holds)
  have hphase := (rise_duty_iff hs hab hshort).mp hn
  refine latest_gap h (fall_recurs hs hab hbP hshort) hm ?_ (by omega) (by omega)
  have hsum : b + (P - (b - a)) = a + P := by omega
  rw [hphase.2, hsum, Nat.add_mod_right, Nat.mod_eq_of_lt haP]

end Gaps

section Following

variable {g m : Nat} (hs : 0 < s) (hab : a < b) (hbP : b ≤ P) (hshort : b < P + a)
  (hphase : (n - s) % P = (b + g) % P) (hgP : g < P)

include hs hab hbP hshort hphase hgP

/-- A cycle that follows the fall by g is the cycle of the fall itself only for g = 0. -/
theorem gap_of_fall (h : fall (duty P s a b) n = true) : g = 0 := by
  have hfall := phase_of_fall ((fall_duty_iff hs hab hbP hshort).mp h)
  rw [hphase] at hfall
  have hmod : (b + g) % P = (b + 0) % P := hfall.2
  have hcancel : g % P = 0 % P := Nat.ModEq.add_left_cancel' b hmod
  rwa [Nat.mod_eq_of_lt hgP, Nat.zero_mod] at hcancel

theorem gap_of_latest_fall (hn : fall (duty P s a b) n = false)
    (h : Latest (fall (duty P s a b)) m n) : n = m + g := by
  have hm := phase_of_fall ((fall_duty_iff hs hab hbP hshort).mp h.holds)
  have hlt := Nat.lt_of_le_of_lt hm.1 h.lt
  have hg0 : 0 < g := by
    rcases Nat.eq_zero_or_pos g with rfl | hpos
    · rw [fall_of_phase hs hab hbP hshort hlt hphase] at hn
      cases hn
    · exact hpos
  exact latest_gap h (fall_recurs hs hab hbP hshort) hm hphase hg0 (Nat.le_of_lt hgP)

end Following

end Edges

end HilLab.Lib.Duty
