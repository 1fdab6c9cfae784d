import HilLab.Lib.Edges

namespace HilLab.Lib.EdgeRelease

open Edges

/-- A receiver that acts on the edges of a command's level: what it holds at step k it still
holds at the next, unless the k-th command is an edge that finds the cause gone. -/
structure Holding (level : Nat → Bool) (n : Nat) (held cause : Nat → Prop) : Prop where
  stays : ∀ k < n, held k → ¬(rise level (k + 1) = true ∧ ¬cause k) → held (k + 1)

/-- The step at which the receiver lets go. -/
structure Released (level : Nat → Bool) (held cause : Nat → Prop) (k : Nat) : Prop where
  held : held k
  edge : rise level (k + 1) = true
  gone : ¬cause k

variable {level : Nat → Bool} {n k : Nat} {held cause : Nat → Prop}

theorem rise_succ (level : Nat → Bool) (k : Nat) :
    rise level (k + 1) = true ↔ level k = false ∧ level (k + 1) = true := by
  rw [rise, before]
  cases level k <;> simp

theorem not_rise_of_high (h : level k = true) : ¬rise level (k + 1) = true := by
  intro hrise
  have hlow := ((rise_succ level k).mp hrise).1
  rw [h] at hlow
  cases hlow

/-- Every command is an edge, at once or at the next step, only if none finds the level up. -/
theorem rise_iff_low (hk : level (k + 1) = true) :
    rise level (k + 1) = true ∨ rise level (k + 2) = true ↔ level k = false := by
  constructor
  · rintro (hrise | hrise)
    · exact ((rise_succ level k).mp hrise).1
    · exact absurd hrise (not_rise_of_high hk)
  · intro hlow
    exact .inl ((rise_succ level k).mpr ⟨hlow, hk⟩)

/-- A command that is up whenever something is held goes up once: what it misses then is
held for good. -/
theorem Holding.stuck (h : Holding level n held cause)
    (hcommand : ∀ m < n, held m → level (m + 1) = true) (hk : held k) (hup : level k = true) {m : Nat}
    (hkm : k ≤ m) (hmn : m ≤ n) : held m ∧ level m = true := by
  induction m, hkm using Nat.le_induction with
  | base => exact ⟨hk, hup⟩
  | succ m hkm ih =>
      have hlt : m < n := hmn
      obtain ⟨hheld, hhigh⟩ := ih (Nat.le_of_lt hlt)
      have hedge : ¬rise level (m + 1) = true := not_rise_of_high hhigh
      exact ⟨h.stays m hlt hheld (fun hrelease => hedge hrelease.1), hcommand m hlt hheld⟩

theorem released_of_edge (hk : held k) (hlow : level k = false) (hhigh : level (k + 1) = true)
    (hgone : ¬cause k) : Released level held cause k :=
  ⟨hk, (rise_succ level k).mpr ⟨hlow, hhigh⟩, hgone⟩

end HilLab.Lib.EdgeRelease
