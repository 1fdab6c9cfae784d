import Mathlib.Data.Nat.ModEq

namespace HilLab.Lib.RingQueue

variable {α : Type}

/-- The n entries of a circular buffer of D slots, oldest first, when the
oldest one is in slot r. -/
def ring (mem : Nat → α) (D r n : Nat) : List α :=
  (List.range n).map (fun k => mem ((r + k) % D))

def next (D r : Nat) : Nat := if r = D - 1 then 0 else r + 1

theorem next_lt {D r : Nat} (hr : r < D) : next D r < D := by
  rw [next]
  split <;> omega

theorem next_eq_mod {D r : Nat} (hr : r < D) : next D r = (r + 1) % D := by
  rw [next]
  split
  · have hd : r + 1 = D := by omega
    rw [hd, Nat.mod_self]
  · rw [Nat.mod_eq_of_lt (by omega)]

theorem ring_length (mem : Nat → α) (D r n : Nat) : (ring mem D r n).length = n := by
  simp [ring]

theorem ring_pop (mem : Nat → α) {D r : Nat} (hr : r < D) (n : Nat) :
    ring mem D r (n + 1) = mem r :: ring mem D (next D r) n := by
  have h0 : (r + 0) % D = r := by rw [Nat.add_zero, Nat.mod_eq_of_lt hr]
  have hs (k : Nat) : (r + (k + 1)) % D = (next D r + k) % D := by
    rw [next_eq_mod hr, Nat.mod_add_mod, Nat.add_assoc, Nat.add_comm 1 k]
  simp only [ring, List.range_succ_eq_map, List.map_cons, h0, List.map_map, Function.comp_def,
    Nat.succ_eq_add_one, hs]

theorem slot_ne {D r j k : Nat} (hj : j < D) (hk : k < D) (h : j ≠ k) :
    (r + j) % D ≠ (r + k) % D := by
  intro he
  have hm : j ≡ k [MOD D] := Nat.ModEq.add_left_cancel' r he
  have hjk : j % D = k % D := hm
  rw [Nat.mod_eq_of_lt hj, Nat.mod_eq_of_lt hk] at hjk
  exact h hjk

theorem ring_push (mem : Nat → α) {D n : Nat} (hn : n < D) (r : Nat) (a : α) :
    ring (Function.update mem ((r + n) % D) a) D r (n + 1) = ring mem D r n ++ [a] := by
  have hold (k : Nat) (hk : k ∈ List.range n) :
      Function.update mem ((r + n) % D) a ((r + k) % D) = mem ((r + k) % D) := by
    have hkn : k < n := List.mem_range.mp hk
    exact Function.update_of_ne (slot_ne (by omega) hn (by omega)) _ _
  simp only [ring, List.range_succ, List.map_append, List.map_cons, List.map_nil,
    Function.update_self]
  rw [List.map_congr_left hold]

end HilLab.Lib.RingQueue
