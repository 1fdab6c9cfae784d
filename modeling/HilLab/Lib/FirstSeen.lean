import Mathlib.Data.Nat.Find

namespace HilLab.Lib.FirstSeen

variable {α : Type} {p : Nat → Prop} {m n : Nat}

structure FirstAt (p : Nat → Prop) (n : Nat) : Prop where
  holds : p n
  none : ∀ k < n, ¬p k

theorem exists_firstAt (h : p n) : ∃ k, FirstAt p k := by
  classical
  exact ⟨Nat.find ⟨n, h⟩, Nat.find_spec ⟨n, h⟩, fun _ hk => Nat.find_min ⟨n, h⟩ hk⟩

theorem FirstAt.le (h : FirstAt p m) (hn : p n) : m ≤ n := by
  by_contra hlt
  exact h.none n (Nat.lt_of_not_le hlt) hn

theorem FirstAt.unique (hm : FirstAt p m) (hn : FirstAt p n) : m = n :=
  Nat.le_antisymm (hm.le hn.holds) (hn.le hm.holds)

/-- A flag for nothing seen, and a register with the mark of the first sight. -/
structure Reports (flag : Prop) (seen : Nat → Prop) (mark : Nat → α) (register : α) : Prop where
  flag : flag ↔ ∀ k, ¬seen k
  first : ∀ k, FirstAt seen k → register = mark k

section Reserved

variable {flag : Prop} {seen : Nat → Prop} {mark : Nat → α} {reserved register : α}

/-- Where a reserved mark stands for nothing seen, the first sight must not have that mark. -/
theorem Reports.first_ne (h : Reports flag seen mark register) (hflag : flag ↔ register = reserved) :
    ∀ k, FirstAt seen k → mark k ≠ reserved := by
  intro k hk hmark
  have hnone := h.flag.mp (hflag.mpr ((h.first k hk).trans hmark))
  exact hnone k hk.holds

theorem reports_iff_of_loaded (hflag : flag ↔ register = reserved)
    (hfirst : ∀ k, FirstAt seen k → register = mark k) (hnone : (∀ k, ¬seen k) → register = reserved) :
    Reports flag seen mark register ↔ ∀ k, FirstAt seen k → mark k ≠ reserved := by
  constructor
  · intro h
    exact h.first_ne hflag
  · intro hmark
    refine ⟨⟨fun h k hk => ?_, fun h => hflag.mpr (hnone h)⟩, hfirst⟩
    obtain ⟨j, hj⟩ := exists_firstAt hk
    exact hmark j hj ((hfirst j hj).symm.trans (hflag.mp h))

variable [DecidableEq α] (seen) [DecidablePred seen] (mark) (reserved)

/-- A register that loads every sight while it has the reserved value. -/
def noted : Nat → α
  | 0 => reserved
  | n + 1 => if noted n = reserved ∧ seen n then mark n else noted n

variable {seen} in
theorem noted_of_none (h : ∀ k < n, ¬seen k) : noted seen mark reserved n = reserved := by
  induction n with
  | zero => rfl
  | succ n ih =>
      rw [noted, if_neg (fun hn => h n (Nat.lt_succ_self n) hn.2)]
      exact ih (fun k hk => h k (Nat.lt_succ_of_lt hk))

theorem noted_cases (n : Nat) :
    (noted seen mark reserved n = reserved ∧ ∀ k < n, seen k → mark k = reserved) ∨
      ∃ k < n, seen k ∧ mark k ≠ reserved ∧ noted seen mark reserved n = mark k ∧
        ∀ j < k, seen j → mark j = reserved := by
  induction n with
  | zero => exact .inl ⟨rfl, fun k hk => absurd hk (Nat.not_lt_zero k)⟩
  | succ n ih =>
      rw [noted]
      rcases ih with ⟨hreserved, hall⟩ | ⟨k, hk, hseen, hmark, hnoted, hbefore⟩
      · by_cases hseen : seen n
        · rw [if_pos ⟨hreserved, hseen⟩]
          by_cases hmark : mark n = reserved
          · refine .inl ⟨hmark, fun k hk hsight => ?_⟩
            rcases Nat.lt_succ_iff_lt_or_eq.mp hk with hlt | rfl
            · exact hall k hlt hsight
            · exact hmark
          · exact .inr ⟨n, Nat.lt_succ_self n, hseen, hmark, rfl, hall⟩
        · rw [if_neg (fun h => hseen h.2)]
          refine .inl ⟨hreserved, fun k hk hsight => ?_⟩
          rcases Nat.lt_succ_iff_lt_or_eq.mp hk with hlt | rfl
          · exact hall k hlt hsight
          · exact absurd hsight hseen
      · have hkeep : ¬(noted seen mark reserved n = reserved ∧ seen n) := by
          rintro ⟨hreserved, -⟩
          exact hmark (hnoted.symm.trans hreserved)
        rw [if_neg hkeep]
        exact .inr ⟨k, Nat.lt_succ_of_lt hk, hseen, hmark, hnoted, hbefore⟩

theorem reports_noted_iff (hflag : flag ↔ noted seen mark reserved n = reserved) :
    Reports flag (fun k => k < n ∧ seen k) mark (noted seen mark reserved n) ↔
      ∀ k, FirstAt (fun k => k < n ∧ seen k) k → mark k ≠ reserved := by
  constructor
  · intro h
    exact h.first_ne hflag
  · intro hmark
    rcases noted_cases seen mark reserved n with ⟨hreserved, hall⟩ | ⟨k, hk, hseen, hne, hnoted, hbefore⟩
    · have hnone : ∀ k, ¬(k < n ∧ seen k) := by
        intro k hk
        obtain ⟨j, hj⟩ := exists_firstAt (p := fun k => k < n ∧ seen k) hk
        exact hmark j hj (hall j hj.holds.1 hj.holds.2)
      exact ⟨⟨fun _ => hnone, fun _ => hflag.mpr hreserved⟩, fun j hj => absurd hj.holds (hnone j)⟩
    · refine ⟨⟨fun h => ?_, fun h => absurd ⟨hk, hseen⟩ (h k)⟩, fun j hj => ?_⟩
      · exact absurd (hnoted.symm.trans (hflag.mp h)) hne
      · have hjk : j ≤ k := hj.le ⟨hk, hseen⟩
        rcases Nat.lt_or_eq_of_le hjk with hlt | rfl
        · exact absurd (hbefore j hlt hj.holds.2) (hmark j hj)
        · exact hnoted

end Reserved

end HilLab.Lib.FirstSeen
