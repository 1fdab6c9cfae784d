import HilLab.Lib.CodeView

namespace HilLab.Lib.StoredValues

open Seqlock CodeView

variable {w : Nat} {β : Type}

/-- The values that a trace stores at an address, in order. -/
def storedAt (addr : Nat) (t : Stores w) : List (BitVec w) :=
  t.filterMap (fun s => if s.1 = addr then some s.2 else none)

variable {addr : Nat}

theorem mem_storedAt {t : Stores w} {value : BitVec w} :
    value ∈ storedAt addr t ↔ (addr, value) ∈ t := by
  rw [storedAt, List.mem_filterMap]
  constructor
  · rintro ⟨⟨a, v⟩, hs, hv⟩
    rw [Option.ite_none_right_eq_some] at hv
    obtain ⟨ha, hv⟩ := hv
    rw [← ha, ← Option.some.inj hv]
    exact hs
  · intro hs
    exact ⟨(addr, value), hs, if_pos rfl⟩

theorem storedAt_append (s t : Stores w) :
    storedAt addr (s ++ t) = storedAt addr s ++ storedAt addr t := List.filterMap_append

theorem storedAt_avoids {c : Code w} (h : Avoids addr c) (m : Memory w) :
    storedAt addr (c m) = [] := by
  rw [storedAt, List.filterMap_eq_nil_iff]
  exact fun s hs => if_neg (h m s hs)

/-- What code stores at an address is the function g of what the view shows before it. -/
def Emits (view : Memory w → β) (addr : Nat) (c : Code w) (g : β → List (BitVec w)) : Prop :=
  ∀ m, storedAt addr (c m) = g (view m)

variable {view : Memory w → β}

theorem emits_avoids {c : Code w} (h : Avoids addr c) : Emits view addr c (fun _ => []) :=
  fun m => storedAt_avoids h m

theorem emits_store {value : Memory w → BitVec w} {q : β → BitVec w}
    (h : ∀ m, value m = q (view m)) : Emits view addr (store addr value) (fun s => [q s]) := by
  intro m
  dsimp only
  rw [store, ← h]
  exact List.filterMap_cons_some (if_pos rfl)

theorem emits_cons {c : Code w} {cs : List (Code w)} {f : β → β} {g h : β → List (BitVec w)}
    (hc : Emits view addr c g) (hf : Acts view c f) (hcs : Emits view addr (seq cs) h) :
    Emits view addr (seq (c :: cs)) (fun s => g s ++ h (f s)) := by
  intro m
  dsimp only
  rw [seq, storedAt_append, hc, hcs]
  exact congrArg (fun s => g (view m) ++ h s) (hf m)

theorem emits_head {c : Code w} {cs : List (Code w)} {g : β → List (BitVec w)}
    (hc : Emits view addr c g) (hcs : Avoids addr (seq cs)) :
    Emits view addr (seq (c :: cs)) g := by
  intro m
  rw [seq, storedAt_append, hc, storedAt_avoids hcs, List.append_nil]

theorem emits_last {c : Code w} {g : β → List (BitVec w)} (hc : Emits view addr c g) :
    Emits view addr (seq [c]) g := emits_head hc avoids_skip

theorem emits_tail {c : Code w} {cs : List (Code w)} {f : β → β} {g : β → List (BitVec w)}
    (hc : Avoids addr c) (hf : Acts view c f) (hcs : Emits view addr (seq cs) g) :
    Emits view addr (seq (c :: cs)) (fun s => g (f s)) :=
  emits_cons (emits_avoids hc) hf hcs

theorem emits_whenever {b : Memory w → Bool} {p : β → Bool} {c : Code w}
    {g : β → List (BitVec w)} (hb : ∀ m, b m = p (view m)) (hc : Emits view addr c g) :
    Emits view addr (whenever b c) (fun s => if p s then g s else []) := by
  intro m
  dsimp only
  rw [whenever, ← hb]
  split
  · exact hc m
  · rfl

theorem emits_reading {α : Type} {f : Memory w → α} {q : β → α} {c : α → Code w}
    {g : α → β → List (BitVec w)} (hf : ∀ m, f m = q (view m))
    (hc : ∀ a, Emits view addr (c a) (g a)) :
    Emits view addr (reading f c) (fun s => g (q s) s) := by
  intro m
  dsimp only
  rw [← hf]
  exact hc (f m) m

theorem emits_ite {p : Prop} [Decidable p] {a b : Code w} {g h : β → List (BitVec w)}
    (ha : Emits view addr a g) (hb : Emits view addr b h) :
    Emits view addr (if p then a else b) (fun s => if p then g s else h s) := by
  split
  · exact ha
  · exact hb

theorem emits_congr {c : Code w} {g h : β → List (BitVec w)} (hc : Emits view addr c g)
    (hgh : ∀ s, g s = h s) : Emits view addr c h := fun m => (hc m).trans (hgh (view m))

/-- A loop of which only the pass k stores at the address or can be seen. -/
theorem emits_pass {body : Nat → Code w} {k : Nat} {f : β → β} {g : β → List (BitVec w)}
    (hk : Emits view addr (body k) g) (hf : Acts view (body k) f)
    (hother : ∀ j, j ≠ k → Avoids addr (body j) ∧ Acts view (body j) id) (n : Nat) :
    Emits view addr (seq ((List.range n).map body)) (fun s => if k < n then g s else []) := by
  induction n with
  | zero => exact emits_avoids avoids_skip
  | succ n ih =>
      intro m
      have hfirst := ih m
      dsimp only at hfirst ⊢
      rw [List.range_succ, List.map_append, List.map_singleton, seq_append, storedAt_append, hfirst]
      by_cases hn : n = k
      · subst hn
        have hview := acts_pass hf (fun j hj => (hother j hj).2) n m
        dsimp only at hview
        rw [if_neg (Nat.lt_irrefl n)] at hview
        rw [if_neg (Nat.lt_irrefl n), if_pos (Nat.lt_succ_self n), List.nil_append, ← hview]
        exact emits_last hk _
      · have hlt : k < n + 1 ↔ k < n := by omega
        have hlast : Avoids addr (seq [body n]) := avoids_cons (hother n hn).1 avoids_skip
        rw [storedAt_avoids hlast, List.append_nil]
        simp only [hlt]

end HilLab.Lib.StoredValues
