import HilLab.Lib.CodeView

namespace HilLab.Lib.Latch

open Seqlock CodeView

variable {w : Nat}

def Keeps (x y : BitVec w) : Prop := ∀ i, x.getLsbD i = true → y.getLsbD i = true

theorem keeps_rfl {x : BitVec w} : Keeps x x := fun _ h => h

theorem Keeps.trans {x y z : BitVec w} (hxy : Keeps x y) (hyz : Keeps y z) : Keeps x z :=
  fun i h => hyz i (hxy i h)

theorem keeps_or (x bits : BitVec w) : Keeps x (x ||| bits) := by
  intro i h
  rw [BitVec.getLsbD_or, h, Bool.true_or]

/-- Code that never takes a flag of a word back. -/
def Latches (addr : Nat) (c : Code w) : Prop := ∀ m, Keeps (m addr) (after c m addr)

/-- Code after which a flag of a word is set. -/
def Raises (addr i : Nat) (c : Code w) : Prop := ∀ m, (after c m addr).getLsbD i = true

variable {addr : Nat}

theorem latches_of_avoids {c : Code w} (h : Avoids addr c) : Latches addr c := by
  intro m
  have hsame : after c m addr = m addr := run_of_avoids h m
  rw [hsame]
  exact keeps_rfl

theorem latches_skip : Latches addr (skip : Code w) := fun _ => keeps_rfl

theorem latches_nil : Latches addr (seq ([] : List (Code w))) := fun _ => keeps_rfl

theorem latches_or (a : Nat) (bits : BitVec w) : Latches addr (store a (fun m => m a ||| bits)) := by
  by_cases h : a = addr
  · intro m
    rw [h, after_store]
    exact keeps_or _ _
  · exact latches_of_avoids (avoids_store h _)

theorem latches_cons {c : Code w} {cs : List (Code w)} (hc : Latches addr c)
    (hcs : Latches addr (seq cs)) : Latches addr (seq (c :: cs)) := by
  intro m
  rw [after_cons]
  exact (hc m).trans (hcs _)

theorem latches_seq {cs : List (Code w)} (h : ∀ c ∈ cs, Latches addr c) : Latches addr (seq cs) := by
  induction cs with
  | nil => exact latches_nil
  | cons c cs ih =>
      apply latches_cons
      · exact h c List.mem_cons_self
      · exact ih (fun d hd => h d (List.mem_cons_of_mem c hd))

theorem latches_whenever {b : Memory w → Bool} {c : Code w} (h : Latches addr c) :
    Latches addr (whenever b c) := by
  intro m
  rw [after, whenever]
  split
  · exact h m
  · exact keeps_rfl

theorem latches_reading {α : Type} {f : Memory w → α} {c : α → Code w}
    (h : ∀ a, Latches addr (c a)) : Latches addr (reading f c) := fun m => h (f m) m

theorem latches_ite {p : Prop} [Decidable p] {a b : Code w} (ha : Latches addr a)
    (hb : Latches addr b) : Latches addr (if p then a else b) := by
  split
  · exact ha
  · exact hb

variable {i : Nat}

theorem raises_or {bits : BitVec w} (h : bits.getLsbD i = true) :
    Raises addr i (store addr (fun m => m addr ||| bits)) := by
  intro m
  rw [after_store, BitVec.getLsbD_or, h, Bool.or_true]

theorem raises_head {c : Code w} {cs : List (Code w)} (hc : Raises addr i c)
    (hcs : Latches addr (seq cs)) : Raises addr i (seq (c :: cs)) := by
  intro m
  rw [after_cons]
  exact hcs _ i (hc m)

theorem raises_tail {c : Code w} {cs : List (Code w)} (hcs : Raises addr i (seq cs)) :
    Raises addr i (seq (c :: cs)) := by
  intro m
  rw [after_cons]
  exact hcs _

/-- One part of a sequence raises the flag and no part takes it back. -/
theorem raises_seq {cs : List (Code w)} {c : Code w} (hmem : c ∈ cs) (hc : Raises addr i c)
    (h : ∀ d ∈ cs, Latches addr d) : Raises addr i (seq cs) := by
  induction cs with
  | nil => cases hmem
  | cons d cs ih =>
      have hrest : ∀ e ∈ cs, Latches addr e := fun e he => h e (List.mem_cons_of_mem d he)
      rcases List.mem_cons.mp hmem with rfl | hmem
      · exact raises_head hc (latches_seq hrest)
      · exact raises_tail (ih hmem hrest)

end HilLab.Lib.Latch
