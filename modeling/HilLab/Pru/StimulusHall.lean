import HilLab.Pru.StimulusStop

namespace HilLab.Pru.StimulusHall

open Lib.Clocked Protocol Stimulus StimulusInvariant StimulusStop

section Code

/-- The position in the six-step sequence that a receiver of the Hall lines reads off them. -/
def sector (lines : BitVec 32) : Option Nat :=
  if lines = 0x1 then some 0 else if lines = 0x5 then some 1 else if lines = 0x4 then some 2
  else if lines = 0x6 then some 3 else if lines = 0x2 then some 4 else if lines = 0x3 then some 5
  else none

/-- Exactly one of the three lines differs. -/
def OneLine (a b : BitVec 32) : Prop := a ^^^ b = 1 ∨ a ^^^ b = 2 ∨ a ^^^ b = 4

variable {s : BitVec 32}

theorem lt_six_cases (h : s < 6) : s = 0 ∨ s = 1 ∨ s = 2 ∨ s = 3 ∨ s = 4 ∨ s = 5 := by
  have hs : s.toNat < 6 := h
  have hcases : s.toNat = 0 ∨ s.toNat = 1 ∨ s.toNat = 2 ∨ s.toNat = 3 ∨ s.toNat = 4 ∨ s.toNat = 5 := by
    omega
  simpa [← BitVec.toNat_inj] using hcases

theorem sector_step (h : s < 6) : sector (hallStepToBits s) = some s.toNat := by
  rcases lt_six_cases h with rfl | rfl | rfl | rfl | rfl | rfl <;> rfl

/-- One step of the sequence, forward for direction 0. -/
def turn (direction s : BitVec 32) : BitVec 32 := if direction = 0 then (s + 1) % 6 else (s + 5) % 6

def gain (direction : BitVec 32) : Nat := if direction = 0 then 1 else 5

theorem turn_toNat (h : s < 6) (direction : BitVec 32) :
    (turn direction s).toNat = (s.toNat + gain direction) % 6 := by
  rw [turn, gain]
  split_ifs <;> rcases lt_six_cases h with rfl | rfl | rfl | rfl | rfl | rfl <;> rfl

theorem turn_oneLine (h : s < 6) (direction : BitVec 32) :
    OneLine (hallStepToBits (turn direction s)) (hallStepToBits s) := by
  rw [turn, OneLine]
  split_ifs <;> rcases lt_six_cases h with rfl | rfl | rfl | rfl | rfl | rfl <;> decide

end Code

section Steps

variable {s t : Stim}

structure HallRun (s : Stim) : Prop extends LoopHead s where
  run : s.running = true
  hall : s.activeMode = .hall

theorem HallRun.outputs_eq (h : HallRun s) : outputs s = hallStepToBits s.hallStep := by
  rw [h.outputs, levels, h.run, h.hall]
  rfl

theorem HallRun.steered (h : HallRun s) (ht : LoopHead t) (hst : Steered s t) : HallRun t := by
  obtain ⟨_, _, rfl⟩ := hst
  exact ⟨ht, h.run, h.hall⟩

theorem steered_hallDirection (h : Steered s t) : t.hallDirection = s.hallDirection := by
  obtain ⟨_, _, rfl⟩ := h
  rfl

/-- A pass of the main loop turns the position where a transition is due, and otherwise keeps it. -/
theorem iterate_hall (h : HallRun s) {i : Iteration} (hi : ∀ v ∈ served s i, ¬StopAccepted v) :
    HallRun (s.iterate i) ∧ (s.iterate i).hallDirection = s.hallDirection ∧
      (if s.branch i = .hallTransition then
        (s.iterate i).hallStep = turn s.hallDirection s.hallStep ∧
          (s.iterate i).hallTransitionCount = s.hallTransitionCount + 1
      else Steered s (s.iterate i)) := by
  have hg := branch_guard s i
  have hhead := iterate_loopHead h.toLoopHead i
  cases hb : s.branch i with
  | armedStart =>
      rw [hb] at hg
      have hidle := h.armed_idle (by simp [hg.1])
      cases hidle.symm.trans h.run
  | applyUpdate | abzTransition =>
      rw [hb] at hg
      have hmode := hg.2
      rw [h.hall] at hmode
      simp at hmode
  | hallTransition =>
      rw [Stim.iterate, hb] at hhead ⊢
      exact ⟨⟨hhead, h.run, h.hall⟩, rfl, rfl, rfl⟩
  | drain =>
      have hsame : Steered s (s.iterate i) := by
        rw [Stim.iterate, hb]
        exact drain_running h.toLoopHead h.run (fun v hv => hi v (by rw [served, if_pos hb]; exact hv))
      exact ⟨h.steered hhead hsame, steered_hallDirection hsame, by simpa using hsame⟩
  | idle =>
      have hsame : Steered s (s.iterate i) := by
        rw [Stim.iterate, hb]
        exact .refl s
      exact ⟨h.steered hhead hsame, steered_hallDirection hsame, by simpa using hsame⟩

end Steps

section Runs

variable {r30 : BitVec 32} {x : Nat → Iteration} {m n : Nat}

/-- The Hall transitions of the passes from m up to, not including, n. -/
def moves (r30 : BitVec 32) (x : Nat → Iteration) (m n : Nat) : Nat :=
  (between (fun k => if (stimAt r30 x k).branch (x k) = .hallTransition then [k] else []) m n).length

theorem moves_self (m : Nat) : moves r30 x m m = 0 := by rw [moves, between_self, List.length_nil]

theorem moves_succ (h : m ≤ n) : moves r30 x m (n + 1) =
    moves r30 x m n + if (stimAt r30 x n).branch (x n) = .hallTransition then 1 else 0 := by
  rw [moves, between_succ _ h, List.length_append, moves]
  split_ifs <;> rfl

/-- No stop is accepted in the passes from m up to, not including, n. -/
def Undisturbed (r30 : BitVec 32) (x : Nat → Iteration) (m n : Nat) : Prop :=
  ∀ k, m ≤ k → k < n → ∀ v ∈ served (stimAt r30 x k) (x k), ¬StopAccepted v

/-- Where the emulator stands after a stretch, against where it stood before it. -/
structure Walked (s t : Stim) (moves : Nat) : Prop where
  run : HallRun t
  direction : t.hallDirection = s.hallDirection
  step : t.hallStep.toNat = (s.hallStep.toNat + moves * gain s.hallDirection) % 6
  count : t.hallTransitionCount = s.hallTransitionCount + BitVec.ofNat 32 moves

theorem Walked.next {s t : Stim} {k : Nat} (h : Walked s t k) {i : Iteration}
    (hi : ∀ v ∈ served t i, ¬StopAccepted v) :
    Walked s (t.iterate i) (k + if t.branch i = .hallTransition then 1 else 0) := by
  obtain ⟨hrun, hdirection, hmove⟩ := iterate_hall h.run hi
  split_ifs at hmove ⊢ with hb
  · obtain ⟨hstep, hcount⟩ := hmove
    refine ⟨hrun, hdirection.trans h.direction, ?_, ?_⟩
    · rw [hstep, turn_toNat h.run.hallStep, h.direction, h.step, Nat.mod_add_mod, Nat.add_assoc,
        Nat.add_mul, Nat.one_mul]
    · rw [hcount, h.count, BitVec.ofNat_add, BitVec.add_assoc]
      rfl
  · obtain ⟨_, _, hsteered⟩ := hmove
    refine ⟨hrun, hdirection.trans h.direction, ?_, ?_⟩
    · rw [hsteered, Nat.add_zero]
      exact h.step
    · rw [hsteered, Nat.add_zero]
      exact h.count

theorem walked (hm : HallRun (stimAt r30 x m)) (hmn : m ≤ n) (hquiet : Undisturbed r30 x m n) :
    Walked (stimAt r30 x m) (stimAt r30 x n) (moves r30 x m n) := by
  induction n, hmn using Nat.le_induction with
  | base =>
      rw [moves_self]
      exact ⟨hm, rfl, by simp [Nat.mod_eq_of_lt (show (stimAt r30 x m).hallStep.toNat < 6 from hm.hallStep)],
        by simp⟩
  | succ n hmn ih =>
      rw [moves_succ hmn]
      exact (ih (fun k hk hkn => hquiet k hk (Nat.lt_succ_of_lt hkn))).next
        (hquiet n hmn (Nat.lt_succ_self n))

theorem iterate_lines {s : Stim} (h : HallRun s) {i : Iteration} (hi : ∀ v ∈ served s i, ¬StopAccepted v) :
    if s.branch i = .hallTransition then OneLine (outputs (s.iterate i)) (outputs s)
    else outputs (s.iterate i) = outputs s := by
  obtain ⟨hrun, -, hmove⟩ := iterate_hall h hi
  rw [hrun.outputs_eq, h.outputs_eq]
  split_ifs at hmove ⊢
  · rw [hmove.1]
    exact turn_oneLine h.hallStep _
  · obtain ⟨_, _, hsteered⟩ := hmove
    rw [hsteered]

/-- While Hall runs and is not stopped, whatever else is requested at whatever ticks: a receiver
reads one of the six positions off the lines at every loop head, the start position turned by the
transitions so far in the configured direction; a transition changes exactly one line and nothing
else changes any; and hall_transition_count has counted the transitions. -/
theorem hall_walks (hrun : (stimAt r30 x m).running = true) (hhall : (stimAt r30 x m).activeMode = .hall)
    (hmn : m ≤ n) (hquiet : Undisturbed r30 x m n) :
    (stimAt r30 x n).running = true ∧ (stimAt r30 x n).activeMode = .hall ∧
      (∀ k, m ≤ k → k ≤ n → sector (outputs (stimAt r30 x k)) =
        some (((stimAt r30 x m).hallStep.toNat +
          moves r30 x m k * gain (stimAt r30 x m).hallDirection) % 6)) ∧
      (∀ k, m ≤ k → k < n →
        if (stimAt r30 x k).branch (x k) = .hallTransition then
          OneLine (outputs (stimAt r30 x (k + 1))) (outputs (stimAt r30 x k))
        else outputs (stimAt r30 x (k + 1)) = outputs (stimAt r30 x k)) ∧
      (stimAt r30 x n).hallTransitionCount =
        (stimAt r30 x m).hallTransitionCount + BitVec.ofNat 32 (moves r30 x m n) := by
  have hm : HallRun (stimAt r30 x m) := ⟨stimAt_loopHead r30 x m, hrun, hhall⟩
  have hwalk : ∀ k, m ≤ k → k ≤ n → Walked (stimAt r30 x m) (stimAt r30 x k) (moves r30 x m k) :=
    fun k hk hkn => walked hm hk (fun j hj hjk => hquiet j hj (Nat.lt_of_lt_of_le hjk hkn))
  have hend := hwalk n hmn (Nat.le_refl n)
  refine ⟨hend.run.run, hend.run.hall, fun k hk hkn => ?_, fun k hk hkn => ?_, hend.count⟩
  · have hat := hwalk k hk hkn
    rw [hat.run.outputs_eq, sector_step hat.run.hallStep, hat.step]
  · exact iterate_lines (hwalk k hk (Nat.le_of_lt hkn)).run (hquiet k hk hkn)

/-- A Hall start in the first pass, and a transition in each later one. -/
def sampleHall (k : Nat) : Iteration :=
  { now := BitVec.ofNat 32 (200000 * k), hostInt := true
    received := if k = 0 then [sampleRequest .hallStart 0 0 0 0 0] else [] }

theorem sampleHall_undisturbed : Undisturbed 0 sampleHall 1 4 := by
  intro k hk _ v hv
  have hnone : (sampleHall k).received = [] := if_neg (Nat.ne_of_gt hk)
  rw [served] at hv
  split at hv
  · rw [hnone] at hv
    cases hv
  · cases hv

theorem hall_walks_sample :
    (stimAt 0 sampleHall 4).running = true ∧ (stimAt 0 sampleHall 4).activeMode = .hall := by
  have hrun : (stimAt 0 sampleHall 1).running = true := rfl
  have hhall : (stimAt 0 sampleHall 1).activeMode = .hall := rfl
  obtain ⟨hrun', hhall', -⟩ := hall_walks hrun hhall (by decide) sampleHall_undisturbed
  exact ⟨hrun', hhall'⟩

end Runs

end HilLab.Pru.StimulusHall
