import Mathlib.Data.List.Basic

namespace HilLab.Lib.Pairing

variable {α : Type} (arms fires : α → Bool)

/-- A sequence of events, some of which arm a trigger and some of which fire it. -/
def Armed (ts : List α) : Prop := ∃ e ∈ ts, arms e = true

/-- The trigger has been fired since it was last armed. -/
def Spent (ts : List α) : Prop :=
  ∃ u e b, ts = u ++ e :: b ∧ fires e = true ∧ Armed arms (u ++ [e]) ∧ ∀ f ∈ b, arms f = false

/-- Somewhere the trigger is fired again without having been armed again. -/
def Refires (ts : List α) : Prop :=
  ∃ u e b, ts = u ++ e :: b ∧ fires e = true ∧ arms e = false ∧ Spent arms fires u

variable {arms fires}

theorem not_armed_nil : ¬ Armed arms [] := by
  rintro ⟨e, he, -⟩
  cases he

theorem not_refires_nil : ¬ Refires arms fires [] := by
  rintro ⟨u, e, b, hts, -⟩
  simp at hts

theorem armed_concat {ts : List α} {e : α} :
    Armed arms (ts ++ [e]) ↔ Armed arms ts ∨ arms e = true := by
  simp only [Armed, List.mem_append, List.mem_singleton, or_and_right, exists_or, exists_eq_left]

theorem concat_split {ts u b : List α} {e a : α} (h : ts ++ [e] = u ++ a :: b) :
    (b = [] ∧ ts = u ∧ e = a) ∨ ∃ b', b = b' ++ [e] ∧ ts = u ++ a :: b' := by
  rcases List.eq_nil_or_concat b with rfl | ⟨b', l, rfl⟩
  · obtain ⟨hts, he⟩ := List.append_inj' h rfl
    exact Or.inl ⟨rfl, hts, (List.cons.inj he).1⟩
  · rw [List.concat_eq_append] at h ⊢
    rw [← List.cons_append, ← List.append_assoc] at h
    obtain ⟨hts, he⟩ := List.append_inj' h rfl
    rw [(List.cons.inj he).1]
    exact Or.inr ⟨b', rfl, hts⟩

theorem spent_concat {ts : List α} {e : α} :
    Spent arms fires (ts ++ [e]) ↔
      (fires e = true ∧ (Armed arms ts ∨ arms e = true)) ∨ (arms e = false ∧ Spent arms fires ts) := by
  constructor
  · rintro ⟨u, a, b, hts, hfires, harmed, hb⟩
    rcases concat_split hts with ⟨rfl, rfl, rfl⟩ | ⟨b', rfl, rfl⟩
    · exact Or.inl ⟨hfires, armed_concat.mp harmed⟩
    · refine Or.inr ⟨hb e (by simp), u, a, b', rfl, hfires, harmed, fun f hf => hb f ?_⟩
      exact List.mem_append_left _ hf
  · rintro (⟨hfires, harmed⟩ | ⟨hquiet, u, a, b, rfl, hfires, harmed, hb⟩)
    · refine ⟨ts, e, [], rfl, hfires, armed_concat.mpr harmed, fun f hf => ?_⟩
      cases hf
    · refine ⟨u, a, b ++ [e], by simp, hfires, harmed, fun f hf => ?_⟩
      rcases List.mem_append.mp hf with hf | hf
      · exact hb f hf
      · rw [List.mem_singleton.mp hf]
        exact hquiet

theorem refires_concat {ts : List α} {e : α} :
    Refires arms fires (ts ++ [e]) ↔
      Refires arms fires ts ∨ (fires e = true ∧ arms e = false ∧ Spent arms fires ts) := by
  constructor
  · rintro ⟨u, a, b, hts, hfires, hquiet, hspent⟩
    rcases concat_split hts with ⟨rfl, rfl, rfl⟩ | ⟨b', rfl, rfl⟩
    · exact Or.inr ⟨hfires, hquiet, hspent⟩
    · exact Or.inl ⟨u, a, b', rfl, hfires, hquiet, hspent⟩
  · rintro (⟨u, a, b, rfl, hfires, hquiet, hspent⟩ | ⟨hfires, hquiet, hspent⟩)
    · exact ⟨u, a, b ++ [e], by simp, hfires, hquiet, hspent⟩
    · exact ⟨ts, e, [], rfl, hfires, hquiet, hspent⟩

theorem Spent.armed {ts : List α} (h : Spent arms fires ts) : Armed arms ts := by
  obtain ⟨u, e, b, rfl, -, ⟨f, hf, harms⟩, -⟩ := h
  refine ⟨f, ?_, harms⟩
  rw [List.append_cons]
  exact List.mem_append_left b hf

end HilLab.Lib.Pairing
