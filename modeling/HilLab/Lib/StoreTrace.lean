import HilLab.Lib.Seqlock

namespace HilLab.Lib.StoreTrace

open Seqlock

variable {w : Nat}

section Instants

def stretch (t : Stores w) (i j : Nat) : Stores w := (t.take j).drop i

theorem take_stretch (t : Stores w) {i j : Nat} (h : i ≤ j) :
    t.take i ++ stretch t i j = t.take j := by
  have htake : (t.take j).take i = t.take i := by
    rw [List.take_take, Nat.min_eq_left h]
  rw [stretch, ← htake, List.take_append_drop]

theorem stretch_drop (t : Stores w) {i j : Nat} (h : i ≤ j) :
    stretch t i j ++ t.drop j = t.drop i := by
  have hdrop : t.drop j = (t.drop i).drop (j - i) := by
    rw [List.drop_drop, Nat.add_sub_cancel' h]
  rw [stretch, List.drop_take, hdrop, List.take_append_drop]

theorem stretch_append (t : Stores w) {i j k : Nat} (hij : i ≤ j) (hjk : j ≤ k) :
    stretch t i j ++ stretch t j k = stretch t i k := by
  have htake : (t.take k).take j = t.take j := by
    rw [List.take_take, Nat.min_eq_left hjk]
  have hdrop := stretch_drop (t.take k) hij
  rw [stretch, htake] at hdrop
  exact hdrop

theorem lockStores_stretch_le (addr : Nat) (t : Stores w) {i i' j j' : Nat} (hi : i' ≤ i)
    (hij : i ≤ j) (hj : j ≤ j') :
    lockStores addr (stretch t i j) ≤ lockStores addr (stretch t i' j') := by
  rw [← stretch_append t hi (Nat.le_trans hij hj), ← stretch_append t hij hj, lockStores_append,
    lockStores_append]
  omega

theorem lockStores_stretch_all (addr : Nat) (t : Stores w) (i j : Nat) :
    lockStores addr (stretch t i j) ≤ lockStores addr t :=
  ((List.drop_sublist i _).trans (List.take_sublist j t)).countP_le

theorem take_of_stretch_nil {t : Stores w} {i j : Nat} (h : stretch t i j = []) (hij : i ≤ j)
    {k : Nat} (hik : i ≤ k) (hkj : k ≤ j) : t.take k = t.take i := by
  have hends : t.take j = t.take i := by
    rw [← take_stretch t hij, h, List.append_nil]
  calc t.take k = (t.take j).take k := by rw [List.take_take, Nat.min_eq_left hkj]
    _ = (t.take i).take k := by rw [hends]
    _ = t.take i := by rw [List.take_take, Nat.min_eq_right hik]

/-- The memory that each of a sequence of loads finds, made at the given instants. -/
def viewAt (m : Memory w) (t : Stores w) (instant : Nat → Nat) (n : Nat) : Memory w :=
  run m (t.take (instant n))

theorem viewAt_later (m : Memory w) (t : Stores w) {instant : Nat → Nat} {i n : Nat}
    (h : instant i ≤ instant n) :
    viewAt m t instant n = run (viewAt m t instant i) (stretch t (instant i) (instant n)) := by
  rw [viewAt, viewAt, ← run_append, take_stretch t h]

end Instants

section Tickets

variable {ticket : Nat} {own : Nat → Nat → Prop} {x : BitVec w}

/-- Every store counts the next ticket, or goes where the tickets counted so
far allow; n of them have been counted since the word was x. -/
def Ticketed (ticket : Nat) (own : Nat → Nat → Prop) (x : BitVec w) : Nat → Stores w → Prop
  | _, [] => True
  | n, s :: t =>
      if s.1 = ticket then s.2 = x + BitVec.ofNat w (n + 1) ∧ Ticketed ticket own x (n + 1) t
      else own n s.1 ∧ Ticketed ticket own x n t

theorem ticketed_append {n : Nat} {a b : Stores w} :
    Ticketed ticket own x n (a ++ b) ↔
      Ticketed ticket own x n a ∧ Ticketed ticket own x (n + lockStores ticket a) b := by
  induction a generalizing n with
  | nil => simp [Ticketed, lockStores]
  | cons s a ih =>
      by_cases hs : s.1 = ticket
      · have hcount : n + 1 + lockStores ticket a = n + (lockStores ticket a + 1) := by omega
        simp only [List.cons_append, Ticketed, hs, if_true, ih, and_assoc, lockStores_cons_lock hs,
          hcount]
      · simp only [List.cons_append, Ticketed, hs, if_false, ih, and_assoc, lockStores_cons_other hs]

/-- Code that counts nothing and stays where it may. -/
theorem ticketed_of_owned {n : Nat} {t : Stores w} (h : ∀ s ∈ t, s.1 ≠ ticket ∧ own n s.1) :
    Ticketed ticket own x n t := by
  induction t with
  | nil => trivial
  | cons s t ih =>
      obtain ⟨hne, hown⟩ := h s List.mem_cons_self
      rw [Ticketed, if_neg hne]
      exact ⟨hown, ih (fun u hu => h u (List.mem_cons_of_mem s hu))⟩

theorem Ticketed.owned (hmono : ∀ n addr, own n addr → own (n + 1) addr) {n : Nat} {t : Stores w}
    (h : Ticketed ticket own x n t) :
    ∀ s ∈ t, s.1 = ticket ∨ own (n + lockStores ticket t) s.1 := by
  have hle {a b addr : Nat} (hab : a ≤ b) (hown : own a addr) : own b addr := by
    induction hab with
    | refl => exact hown
    | step _ ih => exact hmono _ addr ih
  induction t generalizing n with
  | nil => exact fun s hs => absurd hs List.not_mem_nil
  | cons s t ih =>
      intro u hu
      rw [Ticketed] at h
      split at h
      · next hs =>
          rcases List.mem_cons.mp hu with rfl | hu
          · exact .inl hs
          · have hrest := ih h.2 u hu
            rw [lockStores_cons_lock hs, ← Nat.add_assoc, Nat.add_right_comm]
            exact hrest
      · next hs =>
          rw [lockStores_cons_other hs]
          rcases List.mem_cons.mp hu with rfl | hu
          · exact .inr (hle (Nat.le_add_right n _) h.1)
          · exact ih h.2 u hu

theorem Ticketed.run_ticket {n : Nat} {t : Stores w} (h : Ticketed ticket own x n t) {m : Memory w}
    (hm : m ticket = x + BitVec.ofNat w n) :
    run m t ticket = x + BitVec.ofNat w (n + lockStores ticket t) := by
  induction t generalizing n m with
  | nil => exact hm
  | cons s t ih =>
      rw [Ticketed] at h
      split at h
      · next hs =>
          have hstored : Function.update m s.1 s.2 ticket = x + BitVec.ofNat w (n + 1) := by
            rw [hs, Function.update_self]
            exact h.1
          have hrun := ih h.2 hstored
          rw [lockStores_cons_lock hs, ← Nat.add_assoc, Nat.add_right_comm]
          exact hrun
      · next hs =>
          have hother : Function.update m s.1 s.2 ticket = x + BitVec.ofNat w n :=
            (Function.update_of_ne (Ne.symm hs) _ _).trans hm
          rw [lockStores_cons_other hs]
          exact ih h.2 hother

end Tickets

theorem run_untouched {t : Stores w} {addr : Nat} (h : ∀ s ∈ t, s.1 ≠ addr) (m : Memory w) :
    run m t addr = m addr := by
  have hcode : Avoids addr (fun _ : Memory w => t) := fun _ => h
  exact run_of_avoids hcode m

end HilLab.Lib.StoreTrace
