import Mathlib.Data.Nat.ModEq
import Mathlib.Logic.Function.Basic

namespace HilLab.Lib.RingLog

variable {α : Type} {D : Nat}

/-- Entry j of the log is in slot j mod D until entry j + D takes the slot. -/
def Logs (D : Nat) (slots : Nat → α) (log : List α) : Prop :=
  ∀ j (h : j < log.length), log.length ≤ j + D → slots (j % D) = log[j]

theorem logs_nil (slots : Nat → α) : Logs D slots [] := fun _ h => absurd h (Nat.not_lt_zero _)

theorem slot_ne {i j : Nat} (hlt : i < j) (hround : j < i + D) : i % D ≠ j % D := by
  intro h
  have hmod : j ≡ i [MOD D] := h.symm
  have hdvd := (Nat.modEq_iff_dvd' (Nat.le_of_lt hlt)).mp hmod.symm
  exact absurd (Nat.le_of_dvd (by omega) hdvd) (by omega)

theorem logs_push {slots : Nat → α} {log : List α} (h : Logs D slots log) (a : α) :
    Logs D (Function.update slots (log.length % D) a) (log ++ [a]) := by
  intro j hj hround
  rw [List.length_append, List.length_singleton] at hj hround
  rcases Nat.lt_succ_iff_lt_or_eq.mp hj with hlt | rfl
  · rw [Function.update_of_ne (slot_ne hlt (by omega)), List.getElem_append_left hlt]
    exact h j hlt (by omega)
  · rw [Function.update_self, List.getElem_append_right (Nat.le_refl _)]
    simp

/-- The n slots before the one that comes next hold the last n entries. -/
theorem Logs.window {slots : Nat → α} {log : List α} (h : Logs D slots log) {n : Nat}
    (hn : n ≤ log.length) (hD : n ≤ D) :
    (List.range n).map (fun k => slots ((log.length - n + k) % D)) = log.drop (log.length - n) := by
  apply List.ext_getElem
  · rw [List.length_map, List.length_range, List.length_drop]
    omega
  · intro k hk _
    rw [List.length_map, List.length_range] at hk
    rw [List.getElem_map, List.getElem_range, List.getElem_drop]
    exact h _ (by omega) (by omega)

end HilLab.Lib.RingLog
