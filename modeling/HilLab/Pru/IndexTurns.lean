import HilLab.Lib.Duty
import HilLab.Pru.StimulusInvariant

namespace HilLab.Pru.IndexTurns

open Lib.Clocked Lib.Duty Protocol Stimulus StimulusInvariant

def RunsAbz (s : Stim) : Prop := s.running = true ∧ s.activeMode = .abz

instance (s : Stim) : Decidable (RunsAbz s) := instDecidableAnd

/-- The transitions of the current run, which the firmware does not keep apart. -/
structure Turns where
  forward : Nat
  reverse : Nat
deriving DecidableEq, Repr

def Turns.none : Turns := { forward := 0, reverse := 0 }

def Turns.total (t : Turns) : Nat := t.forward + t.reverse
def Turns.net (t : Turns) : Int := t.forward - t.reverse

structure Turning where
  stim : Stim
  turns : Turns

def Turning.init (r30 : BitVec 32) : Turning := ⟨Stim.init r30, .none⟩

/-- A request that leaves a start pending begins a run. -/
def Turning.serve (o : Turning) (r : Reception) : Turning :=
  ⟨o.stim.serve r,
    if (handleRequest r.request r.now o.stim r.len).1.startPendingMode = .abz then .none
    else o.turns⟩

def Turns.turn (t : Turns) (direction : BitVec 32) : Turns :=
  if direction = 0 then { t with forward := t.forward + 1 }
  else { t with reverse := t.reverse + 1 }

def Turning.iterate (o : Turning) (i : Iteration) : Turning :=
  match o.stim.branch i with
  | .armedStart => ⟨o.stim.armedStart i.now, .none⟩
  | .applyUpdate => ⟨o.stim.applyUpdate i.now, o.turns⟩
  | .abzTransition => ⟨o.stim.abzTransition i.now, o.turns.turn o.stim.direction⟩
  | .hallTransition => ⟨o.stim.hallTransition i.now, o.turns⟩
  | .drain => i.received.foldl Turning.serve o
  | .idle => o

theorem foldl_serve_stim (received : List Reception) (o : Turning) :
    (received.foldl Turning.serve o).stim = received.foldl Stim.serve o.stim := by
  induction received generalizing o with
  | nil => rfl
  | cons r received ih => exact ih (o.serve r)

theorem iterate_stim (o : Turning) (i : Iteration) : (o.iterate i).stim = o.stim.iterate i := by
  rw [Turning.iterate, Stim.iterate]
  cases o.stim.branch i with
  | drain => exact foldl_serve_stim i.received o
  | armedStart | applyUpdate | abzTransition | hallTransition | idle => rfl

def turningAt (r30 : BitVec 32) (y : Nat → Iteration) (n : Nat) : Turning :=
  wave Turning.iterate (Turning.init r30) y n

theorem turningAt_stim (r30 : BitVec 32) (y : Nat → Iteration) (n : Nat) :
    (turningAt r30 y n).stim = stimAt r30 y n :=
  wave_part Turning.iterate Stim.iterate Turning.stim (fun _ i => i) iterate_stim _ y n

section Requests

variable {s : Stim} (request : Msg) (now : BitVec 32)

/-- The index of a run that goes on is not touched. -/
structure SameIndex (s t : Stim) : Prop where
  runs : RunsAbz s
  indexPhase : t.indexPhase = s.indexPhase
  period : t.indexPeriodTransitions = s.indexPeriodTransitions

theorem dispatch_sameIndex (command : Command)
    (hruns : RunsAbz (dispatch request now s command).1) :
    SameIndex s (dispatch request now s command).1 := by
  cases command with
  | hello | time | ping | abzStatus | hallStatus | stimStatus => exact ⟨hruns, rfl, rfl⟩
  | forceSafe | abzStop | hallStop => exact absurd hruns.1 Bool.false_ne_true
  | abzConfig =>
      rw [dispatch, abzConfig] at hruns ⊢
      dsimp only at hruns ⊢
      split_ifs at hruns ⊢ with hb
      · exact ⟨hruns, rfl, rfl⟩
      · exact ⟨hruns, rfl, rfl⟩
      · exact ⟨hruns, rfl, rfl⟩
      · obtain ⟨hr, -⟩ := busy_eq_false.mp (Bool.not_eq_true _ ▸ hb)
        exact absurd (hr.symm.trans hruns.1) Bool.false_ne_true
  | hallConfig =>
      rw [dispatch, hallConfig] at hruns ⊢
      split_ifs at hruns ⊢
      · exact ⟨hruns, rfl, rfl⟩
      · exact ⟨hruns, rfl, rfl⟩
      · exact ⟨hruns, rfl, rfl⟩
  | abzStart =>
      rw [dispatch, abzStart] at hruns ⊢
      by_cases hb : s.busy = true
      · rw [if_pos hb] at hruns ⊢
        exact ⟨hruns, rfl, rfl⟩
      · rw [if_neg hb] at hruns ⊢
        exact ⟨hruns, rfl, rfl⟩
  | hallStart =>
      rw [dispatch, hallStart] at hruns ⊢
      split_ifs at hruns ⊢
      · exact ⟨hruns, rfl, rfl⟩
      · exact ⟨hruns, rfl, rfl⟩
  | abzArm =>
      rw [dispatch, abzArm] at hruns ⊢
      split_ifs at hruns ⊢
      · exact ⟨hruns, rfl, rfl⟩
      · exact ⟨hruns, rfl, rfl⟩
      · exact ⟨hruns, rfl, rfl⟩
  | abzSchedule =>
      rw [dispatch, abzSchedule] at hruns ⊢
      dsimp only at hruns ⊢
      split_ifs at hruns ⊢ <;> exact ⟨hruns, rfl, rfl⟩
  | abzDirection =>
      rw [dispatch, abzDirection] at hruns ⊢
      split_ifs at hruns ⊢
      · exact ⟨hruns, rfl, rfl⟩
      · exact ⟨hruns, rfl, rfl⟩

theorem handle_sameIndex (len : BitVec 16)
    (hruns : RunsAbz (handle request now s len).1) :
    SameIndex s (handle request now s len).1 := by
  rw [handle] at hruns ⊢
  cases hc : accept request len with
  | ok command =>
      rw [hc] at hruns
      exact dispatch_sameIndex request now command hruns
  | error flags =>
      rw [hc] at hruns
      exact ⟨hruns, rfl, rfl⟩

end Requests

/-- The index counts every transition of the run, whichever way it goes. -/
structure Indexed (o : Turning) : Prop extends LoopHead o.stim where
  index : RunsAbz o.stim → o.stim.indexPeriodTransitions ≠ 0 →
    o.stim.indexPhase.toNat = o.turns.total % o.stim.indexPeriodTransitions.toNat

theorem init_indexed (r30 : BitVec 32) : Indexed (.init r30) :=
  ⟨init_loopHead r30, fun h => absurd h.1 Bool.false_ne_true⟩

section Steps

variable {o : Turning}

theorem serve_indexed (h : Indexed o) (r : Reception) : Indexed (o.serve r) := by
  refine ⟨serve_loopHead h.toLoopHead r, ?_⟩
  rw [Turning.serve, handleRequest_fst]
  dsimp only
  rw [Stim.serve, handleRequest_fst, Stim.startPending]
  cases hm : (handle r.request r.now o.stim r.len).1.startPendingMode with
  | none =>
      intro hruns hp
      have hsame := handle_sameIndex r.request r.now r.len hruns
      dsimp only at hp ⊢
      rw [hsame.period] at hp
      rw [if_neg (by decide), hsame.indexPhase, hsame.period]
      exact h.index hsame.runs hp
  | abz =>
      intro _ _
      rw [if_pos rfl]
      exact (Nat.zero_mod _).symm
  | hall =>
      intro hruns
      have hmode : StimMode.hall = .abz := hruns.2
      cases hmode

theorem drain_indexed (h : Indexed o) (received : List Reception) :
    Indexed (received.foldl Turning.serve o) := by
  induction received generalizing o with
  | nil => exact h
  | cons r received ih => exact ih (serve_indexed h r)

theorem turn_total (t : Turns) (direction : BitVec 32) :
    (t.turn direction).total = t.total + 1 := by
  rw [Turns.turn]
  split_ifs
  · exact Nat.add_right_comm _ _ _
  · rfl

theorem nextIndexPhase_toNat {period indexPhase : BitVec 32} {m : Nat} (hp : period ≠ 0)
    (h : indexPhase.toNat = m % period.toNat) :
    (nextIndexPhase period indexPhase).toNat = (m + 1) % period.toNat := by
  have hlt := period.isLt
  have hpos : 0 < period.toNat := by
    rw [Nat.pos_iff_ne_zero]
    intro hz
    exact hp (BitVec.eq_of_toNat_eq hz)
  have hmod := Nat.mod_lt m hpos
  have hsucc : (indexPhase + 1).toNat = m % period.toNat + 1 := by
    rw [BitVec.toNat_add, h]
    change (m % period.toNat + 1) % 2 ^ 32 = _
    rw [Nat.mod_eq_of_lt (by omega)]
  rw [nextIndexPhase, if_pos hp, succ_mod m hpos]
  by_cases hwrap : m % period.toNat + 1 = period.toNat
  · have hle : period ≤ indexPhase + 1 := by
      rw [BitVec.le_def, hsucc, hwrap]
    rw [if_pos hle, if_pos hwrap]
    rfl
  · have hle : ¬ period ≤ indexPhase + 1 := by
      rw [BitVec.le_def, hsucc]
      omega
    rw [if_neg hle, if_neg hwrap, hsucc]

theorem iterate_indexed (h : Indexed o) (i : Iteration) : Indexed (o.iterate i) := by
  have hg := branch_guard o.stim i
  refine ⟨?_, ?_⟩
  · rw [iterate_stim]
    exact iterate_loopHead h.toLoopHead i
  · rw [Turning.iterate]
    cases hb : o.stim.branch i with
    | armedStart =>
        intro _ _
        exact (Nat.zero_mod _).symm
    | applyUpdate => exact h.index
    | abzTransition =>
        rw [hb] at hg
        intro _ hp
        dsimp only
        rw [turn_total]
        exact nextIndexPhase_toNat hp (h.index hg hp)
    | hallTransition => exact h.index
    | drain => exact (drain_indexed h i.received).index
    | idle => exact h.index

end Steps

theorem turningAt_indexed (r30 : BitVec 32) (y : Nat → Iteration) (n : Nat) :
    Indexed (turningAt r30 y n) :=
  wave_invariant (init_indexed r30) (fun _ i h => iterate_indexed h i) y n

end HilLab.Pru.IndexTurns
