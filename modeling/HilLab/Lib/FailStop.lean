import Mathlib.Logic.Function.Basic

namespace HilLab.Lib.FailStop

variable {α β : Type} [DecidableEq α]

section Writes

def writes (s : α → β) (ws : List (α × β)) : α → β :=
  ws.foldl (fun s w => Function.update s w.1 w.2) s

variable {s : α → β} {a : α}

theorem writes_append (xs ys : List (α × β)) : writes s (xs ++ ys) = writes (writes s xs) ys :=
  List.foldl_append

theorem writes_other {ws : List (α × β)} (h : ∀ w ∈ ws, w.1 ≠ a) : writes s ws a = s a := by
  induction ws generalizing s with
  | nil => rfl
  | cons w ws ih =>
      obtain ⟨hw, hws⟩ := List.forall_mem_cons.mp h
      exact (ih hws).trans (Function.update_of_ne hw.symm _ _)

theorem writes_last {xs ys : List (α × β)} {b : β} (h : ∀ w ∈ ys, w.1 ≠ a) :
    writes s (xs ++ (a, b) :: ys) a = b := by
  have hself : Function.update (writes s xs) a b a = b := Function.update_self a b (writes s xs)
  rw [writes_append]
  exact (writes_other h).trans hself

end Writes

section Runs

/-- What becomes of one write: it is applied and known to be, it is applied but its writer
never hears of it, or it is not applied. -/
inductive Fate
  | done | unheard | failed
deriving DecidableEq, Repr

def run : List (α × β) → (Nat → Fate) → (α → β) → Bool × (α → β)
  | [], _, s => (true, s)
  | w :: ws, fates, s =>
      match fates 0 with
      | .done => run ws (fun n => fates (n + 1)) (Function.update s w.1 w.2)
      | .unheard => (false, Function.update s w.1 w.2)
      | .failed => (false, s)

variable {s : α → β} {fates : Nat → Fate}

theorem run_append (xs ys : List (α × β)) :
    run (xs ++ ys) fates s =
      if (run xs fates s).1 then run ys (fun n => fates (n + xs.length)) (run xs fates s).2
      else run xs fates s := by
  induction xs generalizing fates s with
  | nil => rfl
  | cons x xs ih =>
      rw [List.cons_append, run, run]
      cases fates 0 with
      | done =>
          dsimp only
          rw [ih]
          simp only [List.length_cons, Nat.add_assoc]
      | unheard => rfl
      | failed => rfl

/-- A run leaves the writes of a prefix applied, and those of the whole if all went through. -/
theorem run_prefix (ws : List (α × β)) (fates : Nat → Fate) (s : α → β) :
    ∃ k, k ≤ ws.length ∧ (run ws fates s).2 = writes s (ws.take k) ∧
      ((run ws fates s).1 = true → k = ws.length) := by
  induction ws generalizing fates s with
  | nil => exact ⟨0, Nat.le_refl 0, rfl, fun _ => rfl⟩
  | cons w ws ih =>
      rw [run]
      cases fates 0 with
      | done =>
          obtain ⟨k, hk, hstore, hall⟩ := ih (fun n => fates (n + 1)) (Function.update s w.1 w.2)
          exact ⟨k + 1, Nat.succ_le_succ hk, hstore, fun h => congrArg (· + 1) (hall h)⟩
      | unheard => exact ⟨1, Nat.succ_le_succ (Nat.zero_le _), rfl, fun h => Bool.noConfusion h⟩
      | failed => exact ⟨0, Nat.zero_le _, rfl, fun h => Bool.noConfusion h⟩

theorem run_upTo (ws : List (α × β)) {k : Nat} (hk : k ≤ ws.length) (s : α → β) :
    run ws (fun n => if n < k then .done else .failed) s =
      (decide (k = ws.length), writes s (ws.take k)) := by
  induction ws generalizing k s with
  | nil =>
      obtain rfl := Nat.le_zero.mp hk
      rfl
  | cons w ws ih =>
      cases k with
      | zero => rfl
      | succ k =>
          have hrest := ih (Nat.le_of_succ_le_succ hk) (Function.update s w.1 w.2)
          rw [run, if_pos (Nat.succ_pos k)]
          simp only [Nat.add_lt_add_iff_right, List.length_cons, Nat.add_right_cancel_iff]
          exact hrest

end Runs

end HilLab.Lib.FailStop
