import HilLab.Lib.Seqlock

namespace HilLab.Lib.CodeView

open Seqlock

variable {w : Nat} {β : Type}

def after (c : Code w) (m : Memory w) : Memory w := run m (c m)

/-- Seen through the view, the code is the function f. -/
def Acts (view : Memory w → β) (c : Code w) (f : β → β) : Prop :=
  ∀ m, view (after c m) = f (view m)

variable {view : Memory w → β}

theorem after_nil (m : Memory w) : after (seq []) m = m := rfl

theorem after_cons (c : Code w) (cs : List (Code w)) (m : Memory w) :
    after (seq (c :: cs)) m = after (seq cs) (after c m) := run_append m (c m) _

theorem seq_nest (bs cs ds : List (Code w)) : seq (bs ++ seq cs :: ds) = seq (bs ++ (cs ++ ds)) := by
  funext m
  have hnest := fun m' : Memory w => seq_append cs ds m'
  rw [seq_append bs, seq_append bs, hnest]
  rfl

theorem after_concat (cs : List (Code w)) (c : Code w) (m : Memory w) :
    after (seq (cs ++ [c])) m = after c (after (seq cs) m) := by
  rw [after, seq_append, run_append]
  exact after_cons c [] _

theorem after_store (addr : Nat) (value : Memory w → BitVec w) (m : Memory w) :
    after (store addr value) m addr = value m := by
  change Function.update m addr (value m) addr = value m
  exact Function.update_self addr (value m) m

theorem acts_skip : Acts view (skip : Code w) id := fun _ => rfl

theorem acts_nil : Acts view (seq ([] : List (Code w))) id := fun _ => rfl

theorem acts_store {addr : Nat} {value : Memory w → BitVec w} {f : β → β}
    (h : ∀ m, view (Function.update m addr (value m)) = f (view m)) :
    Acts view (store addr value) f := h

theorem acts_cons {c : Code w} {cs : List (Code w)} {f g : β → β} (hc : Acts view c f)
    (hcs : Acts view (seq cs) g) : Acts view (seq (c :: cs)) (fun s => g (f s)) := by
  intro m
  rw [after_cons, hcs, hc]

theorem acts_whenever {b : Memory w → Bool} {p : β → Bool} {c : Code w} {f : β → β}
    (hb : ∀ m, b m = p (view m)) (hc : Acts view c f) :
    Acts view (whenever b c) (fun s => if p s then f s else s) := by
  intro m
  dsimp only
  rw [after, whenever, ← hb]
  split
  · exact hc m
  · rfl

theorem acts_reading {α : Type} {g : Memory w → α} {q : β → α} {c : α → Code w} {f : α → β → β}
    (hg : ∀ m, g m = q (view m)) (hc : ∀ a, Acts view (c a) (f a)) :
    Acts view (reading g c) (fun s => f (q s) s) := by
  intro m
  dsimp only
  rw [← hg]
  exact hc (g m) m

theorem acts_ite {p : Prop} [Decidable p] {a b : Code w} {f g : β → β} (ha : Acts view a f)
    (hb : Acts view b g) : Acts view (if p then a else b) (fun s => if p then f s else g s) := by
  split
  · exact ha
  · exact hb

theorem acts_congr {c : Code w} {f g : β → β} (h : Acts view c f) (hfg : ∀ s, f s = g s) :
    Acts view c g := fun m => (h m).trans (hfg (view m))

theorem acts_map {γ : Type} {c : Code w} {f : β → β} {g : γ → γ} (coarse : β → γ)
    (h : Acts view c f) (hg : ∀ s, coarse (f s) = g (coarse s)) :
    Acts (fun m => coarse (view m)) c g := by
  intro m
  dsimp only
  rw [h, hg]

theorem acts_pass {body : Nat → Code w} {k : Nat} {f : β → β} (hk : Acts view (body k) f)
    (hother : ∀ j, j ≠ k → Acts view (body j) id) (n : Nat) :
    Acts view (seq ((List.range n).map body)) (fun s => if k < n then f s else s) := by
  induction n with
  | zero => exact acts_nil
  | succ n ih =>
      intro m
      rw [List.range_succ, List.map_append, List.map_singleton, after_concat]
      by_cases hn : n = k
      · rw [hn] at ih ⊢
        rw [hk, ih m]
        dsimp only
        rw [if_neg (Nat.lt_irrefl k), if_pos (Nat.lt_succ_self k)]
      · have hlt : k < n + 1 ↔ k < n := by omega
        rw [hother n hn, id_eq, ih m]
        dsimp only
        simp only [hlt]

section Preserves

def Preserves (P : Memory w → Prop) (c : Code w) : Prop := ∀ m, P m → P (after c m)

variable {P : Memory w → Prop}

theorem preserves_skip : Preserves P (skip : Code w) := fun _ h => h

theorem preserves_nil : Preserves P (seq ([] : List (Code w))) := fun _ h => h

theorem preserves_cons {c : Code w} {cs : List (Code w)} (hc : Preserves P c)
    (hcs : Preserves P (seq cs)) : Preserves P (seq (c :: cs)) := by
  intro m h
  rw [after_cons]
  exact hcs _ (hc m h)

theorem preserves_seq {cs : List (Code w)} (h : ∀ c ∈ cs, Preserves P c) : Preserves P (seq cs) := by
  induction cs with
  | nil => exact preserves_nil
  | cons c cs ih =>
      apply preserves_cons
      · exact h c List.mem_cons_self
      · exact ih (fun d hd => h d (List.mem_cons_of_mem c hd))

theorem preserves_whenever {b : Memory w → Bool} {c : Code w} (h : Preserves P c) :
    Preserves P (whenever b c) := by
  intro m hm
  rw [after, whenever]
  split
  · exact h m hm
  · exact hm

theorem preserves_reading {α : Type} {f : Memory w → α} {c : α → Code w}
    (h : ∀ a, Preserves P (c a)) : Preserves P (reading f c) := fun m hm => h (f m) m hm

theorem preserves_ite {p : Prop} [Decidable p] {a b : Code w} (ha : Preserves P a)
    (hb : Preserves P b) : Preserves P (if p then a else b) := by
  split
  · exact ha
  · exact hb

end Preserves

end HilLab.Lib.CodeView
