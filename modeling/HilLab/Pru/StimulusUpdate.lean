import HilLab.Pru.StimulusInvariant

namespace HilLab.Pru.StimulusUpdate

open Lib.Clocked Protocol Stimulus StimulusInvariant

/-- One applied update: its number, the arm it was accepted under, and the arm
that started the run it was applied in (none for a run begun by a START). -/
structure Applied where
  update : Nat
  arm : Nat
  run : Option Nat
deriving DecidableEq, Repr

/-- History that the firmware does not keep: accepted arms and updates are
numbered. -/
structure Ghost where
  arms : Nat
  updates : Nat
  updateArm : Nat
  runArm : Option Nat
  applied : List Applied

structure Observed where
  stim : Stim
  ghost : Ghost

def Observed.init (r30 : BitVec 32) : Observed := ⟨Stim.init r30, ⟨0, 0, 0, none, []⟩⟩

def Ghost.accepts (g : Ghost) : Command → Ghost
  | .abzArm => { g with arms := g.arms + 1 }
  | .abzSchedule => { g with updates := g.updates + 1, updateArm := g.arms }
  | .abzStart | .hallStart => { g with runArm := none }
  | _ => g

def Ghost.request (g : Ghost) (s : Stim) (r : Reception) : Ghost :=
  match accept r.request r.len with
  | .ok command => if (s.answer r).flags = statusOk then g.accepts command else g
  | .error _ => g

def Observed.serve (o : Observed) (r : Reception) : Observed :=
  ⟨o.stim.serve r, o.ghost.request o.stim r⟩

def Observed.iterate (o : Observed) (i : Iteration) : Observed :=
  match o.stim.branch i with
  | .armedStart => ⟨o.stim.armedStart i.now, { o.ghost with runArm := some o.ghost.arms }⟩
  | .applyUpdate =>
      ⟨o.stim.applyUpdate i.now,
        { o.ghost with
          applied := o.ghost.applied ++ [⟨o.ghost.updates, o.ghost.updateArm, o.ghost.runArm⟩] }⟩
  | .abzTransition => ⟨o.stim.abzTransition i.now, o.ghost⟩
  | .hallTransition => ⟨o.stim.hallTransition i.now, o.ghost⟩
  | .drain => i.received.foldl Observed.serve o
  | .idle => o

theorem foldl_serve_stim (received : List Reception) (o : Observed) :
    (received.foldl Observed.serve o).stim = received.foldl Stim.serve o.stim := by
  induction received generalizing o with
  | nil => rfl
  | cons r received ih => exact ih (o.serve r)

theorem iterate_stim (o : Observed) (i : Iteration) :
    (o.iterate i).stim = o.stim.iterate i := by
  rw [Observed.iterate, Stim.iterate]
  cases o.stim.branch i with
  | drain => exact foldl_serve_stim i.received o
  | armedStart | applyUpdate | abzTransition | hallTransition | idle => rfl

def observedAt (r30 : BitVec 32) (x : Nat → Iteration) (n : Nat) : Observed :=
  wave Observed.iterate (Observed.init r30) x n

theorem observedAt_stim (r30 : BitVec 32) (x : Nat → Iteration) (n : Nat) :
    (observedAt r30 x n).stim = stimAt r30 x n :=
  wave_part Observed.iterate Stim.iterate Observed.stim (fun _ i => i) iterate_stim _ x n

/-- A pending update belongs to the armed start, or to the run that start began;
every update is applied at most once, in the run of the arm it was accepted
under. -/
structure Owned (o : Observed) : Prop where
  pending : o.stim.updatePending = true →
    (o.stim.armedMode = .abz ∧ o.ghost.updateArm = o.ghost.arms) ∨
      (o.stim.running = true ∧ o.stim.activeMode = .abz ∧
        o.ghost.runArm = some o.ghost.updateArm)
  run_eq : ∀ e ∈ o.ghost.applied, e.run = some e.arm
  once : o.ghost.applied.Pairwise (fun a b => a.update < b.update)

structure Tracked (o : Observed) : Prop extends Owned o where
  le_updates : ∀ e ∈ o.ghost.applied, e.update ≤ o.ghost.updates
  lt_updates : o.stim.updatePending = true → ∀ e ∈ o.ghost.applied, e.update < o.ghost.updates

/-- A HALL_STOP that ends a run with its update still pending. -/
def StopsMidUpdate (v : Stim × Reception) : Prop :=
  Answered v.1 v.2 .hallStop ∧ v.1.running = true ∧ v.1.updatePending = true

instance (v : Stim × Reception) : Decidable (StopsMidUpdate v) :=
  inferInstanceAs (Decidable (_ ∧ _))

theorem init_tracked (r30 : BitVec 32) : Tracked (Observed.init r30) where
  pending h := Bool.noConfusion h
  run_eq _ he := absurd he List.not_mem_nil
  once := List.Pairwise.nil
  le_updates _ he := absurd he List.not_mem_nil
  lt_updates h := Bool.noConfusion h

section Accepted

variable {request : Msg} {now : BitVec 32} {s : Stim}

theorem ok_of_ite_reject {c : Prop} [Decidable c] {flags : BitVec 32} {b : Stim × Reply}
    (hf : flags ≠ statusOk) (h : (if c then s.reject flags else b).2.flags = statusOk) : ¬ c := by
  intro hc
  rw [if_pos hc] at h
  exact hf h

theorem abzStart_ok (h : (abzStart now s).2.flags = statusOk) :
    s.busy = false ∧ (abzStart now s).1 = { s with startPendingMode := .abz } := by
  have hb := ok_of_ite_reject (by decide) h
  refine ⟨Bool.not_eq_true _ ▸ hb, ?_⟩
  rw [abzStart, if_neg hb]

theorem hallStart_ok (h : (hallStart now s).2.flags = statusOk) :
    s.busy = false ∧ (hallStart now s).1 = { s with startPendingMode := .hall } := by
  have hb := ok_of_ite_reject (by decide) h
  refine ⟨Bool.not_eq_true _ ▸ hb, ?_⟩
  rw [hallStart, if_neg hb]

theorem abzArm_ok (h : (abzArm request now s).2.flags = statusOk) :
    s.busy = false ∧
      (abzArm request now s).1 = { s with armedMode := .abz, armedApplyTicks := request.arg0 } := by
  have hb := ok_of_ite_reject (by decide) h
  rw [abzArm, if_neg hb] at h
  have hv := ok_of_ite_reject (by decide) h
  refine ⟨Bool.not_eq_true _ ▸ hb, ?_⟩
  rw [abzArm, if_neg hb, if_neg hv]

theorem abzSchedule_ok (h : (abzSchedule request now s).2.flags = statusOk) :
    s.armedMode = .abz ∧ s.updatePending = false ∧
      (abzSchedule request now s).1.armedMode = s.armedMode ∧
      (abzSchedule request now s).1.startPendingMode = s.startPendingMode := by
  have hr := ok_of_ite_reject (by decide) h
  rw [abzSchedule, if_neg hr] at h
  have ha := ok_of_ite_reject (by decide) h
  rw [if_neg ha] at h
  have hp := ok_of_ite_reject (by decide) h
  refine ⟨Decidable.not_not.mp ha, Bool.not_eq_true _ ▸ hp, ?_, ?_⟩
  · rw [abzSchedule]
    split_ifs <;> rfl
  · rw [abzSchedule]
    split_ifs <;> rfl

theorem abzConfig_ok (h : (abzConfig request s).2.flags = statusOk) :
    (abzConfig request s).1.updatePending = false := by
  rw [abzConfig] at h ⊢
  dsimp only at h ⊢
  have hb := ok_of_ite_reject (by decide) h
  rw [if_neg hb] at h
  have ht := ok_of_ite_reject (by decide) h
  rw [if_neg ht] at h
  have hi := ok_of_ite_reject (by decide) h
  rw [if_neg hb, if_neg ht, if_neg hi]

end Accepted

theorem startPending_updatePending (s : Stim) (t : BitVec 32) :
    (s.startPending t).updatePending = s.updatePending := by
  rw [Stim.startPending]
  split <;> rfl

theorem request_answered {s : Stim} {r : Reception} {command : Command} (g : Ghost)
    (h : Answered s r command) : g.request s r = g.accepts command := by
  rw [Ghost.request, h.1]
  exact if_pos h.2

theorem request_refused {s : Stim} {r : Reception} (g : Ghost)
    (h : ∀ command, ¬ Answered s r command) : g.request s r = g := by
  rw [Ghost.request]
  split
  · rename_i command hc
    exact if_neg (fun hf => h command ⟨hc, hf⟩)
  · rfl

theorem not_pending_of_idle {o : Observed} (h : Owned o) (hb : o.stim.busy = false) :
    o.stim.updatePending = false := by
  obtain ⟨hr, ha, _⟩ := busy_eq_false.mp hb
  cases hp : o.stim.updatePending with
  | false => rfl
  | true =>
      rcases h.pending hp with ⟨ha', _⟩ | ⟨hr', _⟩
      · rw [ha] at ha'
        cases ha'
      · rw [hr] at hr'
        cases hr'

theorem tracked_of_not_pending {o t : Observed} (h : Tracked o) (hp : t.stim.updatePending = false)
    (hlog : t.ghost.applied = o.ghost.applied) (hle : o.ghost.updates ≤ t.ghost.updates) :
    Tracked t := by
  refine ⟨⟨fun hq => ?_, hlog ▸ h.run_eq, hlog ▸ h.once⟩, ?_, fun hq => ?_⟩
  · rw [hp] at hq
    cases hq
  · intro e he
    exact Nat.le_trans (h.le_updates e (hlog ▸ he)) hle
  · rw [hp] at hq
    cases hq

theorem tracked_of_idle {o t : Observed} (h : Tracked o) (hb : o.stim.busy = false)
    (hp : t.stim.updatePending = o.stim.updatePending)
    (hlog : t.ghost.applied = o.ghost.applied) (hle : o.ghost.updates ≤ t.ghost.updates) :
    Tracked t :=
  tracked_of_not_pending h (hp.trans (not_pending_of_idle h.toOwned hb)) hlog hle

/-- The variables that say who owns a pending update. -/
structure SameOwner (s t : Stim) : Prop where
  pending : t.updatePending = s.updatePending
  armed : t.armedMode = s.armedMode
  running : t.running = s.running
  active : t.activeMode = s.activeMode

theorem tracked_of_same {o t : Observed} (h : Tracked o) (hg : t.ghost = o.ghost)
    (hs : SameOwner o.stim t.stim) : Tracked t := by
  refine ⟨⟨?_, ?_, ?_⟩, ?_, ?_⟩
  · rw [hs.pending, hs.armed, hs.running, hs.active, hg]
    exact h.pending
  · rw [hg]
    exact h.run_eq
  · rw [hg]
    exact h.once
  · rw [hg]
    exact h.le_updates
  · rw [hs.pending, hg]
    exact h.lt_updates

theorem abzDirection_same (request : Msg) (now : BitVec 32) (s : Stim) :
    (abzDirection request now s).1.startPendingMode = s.startPendingMode ∧
      SameOwner s (abzDirection request now s).1 := by
  rw [abzDirection]
  split_ifs <;> exact ⟨rfl, rfl, rfl, rfl, rfl⟩

theorem hallConfig_same (request : Msg) (s : Stim) :
    (hallConfig request s).1.startPendingMode = s.startPendingMode ∧
      SameOwner s (hallConfig request s).1 := by
  rw [hallConfig]
  split_ifs <;> exact ⟨rfl, rfl, rfl, rfl, rfl⟩

section Serve

variable {o : Observed} {r : Reception}

theorem serve_unstarted {command : Command} (hans : Answered o.stim r command)
    (hs : (dispatch r.request r.now o.stim command).1.startPendingMode = .none) :
    (o.serve r).stim = (dispatch r.request r.now o.stim command).1 := by
  rw [Observed.serve, serve_answered hans, Stim.startPending, hs]

theorem serve_updatePending {command : Command} (hans : Answered o.stim r command) :
    (o.serve r).stim.updatePending =
      (dispatch r.request r.now o.stim command).1.updatePending := by
  rw [Observed.serve, serve_answered hans, startPending_updatePending]

theorem serve_same {command : Command} (hl : LoopHead o.stim) (h : Tracked o)
    (hans : Answered o.stim r command) (hg : o.ghost.accepts command = o.ghost)
    (hs : (dispatch r.request r.now o.stim command).1.startPendingMode = o.stim.startPendingMode ∧
      SameOwner o.stim (dispatch r.request r.now o.stim command).1) : Tracked (o.serve r) := by
  refine tracked_of_same h ((request_answered o.ghost hans).trans hg) ?_
  rw [serve_unstarted hans (hs.1.trans hl.start_none)]
  exact hs.2

/-- Outside a run the pending update waits for an armed start, which HALL_STOP
leaves alone. -/
theorem hallStop_tracked (h : Tracked o) (hr : ¬ StopsMidUpdate (o.stim, r))
    (hans : Answered o.stim r .hallStop) : Tracked (o.serve r) := by
  have hg : (o.serve r).ghost = o.ghost := request_answered o.ghost hans
  cases hp : o.stim.updatePending with
  | false =>
      exact tracked_of_not_pending h ((serve_updatePending hans).trans hp)
        (congrArg Ghost.applied hg) (Nat.le_of_eq (congrArg Ghost.updates hg.symm))
  | true =>
      have hrun : o.stim.running = false := by
        cases hrun : o.stim.running with
        | false => rfl
        | true => exact absurd ⟨hans, hrun, hp⟩ hr
      have harm : o.stim.armedMode = .abz ∧ o.ghost.updateArm = o.ghost.arms := by
        rcases h.pending hp with harm | ⟨hrun', _⟩
        · exact harm
        · rw [hrun] at hrun'
          cases hrun'
      have hstim := serve_unstarted hans rfl
      refine ⟨⟨fun _ => Or.inl ?_, ?_, ?_⟩, ?_, fun _ => ?_⟩
      · rw [hstim, hg]
        exact harm
      · rw [hg]
        exact h.run_eq
      · rw [hg]
        exact h.once
      · rw [hg]
        exact h.le_updates
      · rw [hg]
        exact h.lt_updates hp

theorem abzSchedule_tracked (hl : LoopHead o.stim) (h : Tracked o)
    (hans : Answered o.stim r .abzSchedule) : Tracked (o.serve r) := by
  have hg : (o.serve r).ghost = o.ghost.accepts .abzSchedule := request_answered o.ghost hans
  obtain ⟨ha, hp, hkeep, hstart⟩ := abzSchedule_ok (answered_iff.mp hans).2
  have hstim := serve_unstarted hans (hstart.trans hl.start_none)
  have hlog : ∀ e ∈ (o.serve r).ghost.applied, e.update < (o.serve r).ghost.updates := by
    rw [hg]
    exact fun e he => Nat.lt_succ_of_le (h.le_updates e he)
  refine ⟨⟨fun _ => Or.inl ⟨?_, ?_⟩, ?_, ?_⟩, ?_, fun _ => hlog⟩
  · rw [hstim]
    exact hkeep.trans ha
  · rw [hg]
    rfl
  · rw [hg]
    exact h.run_eq
  · rw [hg]
    exact h.once
  · exact fun e he => Nat.le_of_lt (hlog e he)

theorem serve_answered_tracked (hl : LoopHead o.stim) (h : Tracked o)
    (hr : ¬ StopsMidUpdate (o.stim, r)) {command : Command}
    (hans : Answered o.stim r command) : Tracked (o.serve r) := by
  have hf := (answered_iff.mp hans).2
  have hg : (o.serve r).ghost = o.ghost.accepts command := request_answered o.ghost hans
  have hpend := serve_updatePending hans
  cases command with
  | hello | time | ping | abzStatus | hallStatus | stimStatus =>
      exact serve_same hl h hans rfl ⟨rfl, rfl, rfl, rfl, rfl⟩
  | abzDirection => exact serve_same hl h hans rfl (abzDirection_same r.request r.now o.stim)
  | hallConfig => exact serve_same hl h hans rfl (hallConfig_same r.request o.stim)
  | forceSafe | abzStop =>
      exact tracked_of_not_pending h hpend (by rw [hg]; rfl) (by rw [hg]; exact Nat.le_refl _)
  | abzConfig =>
      exact tracked_of_not_pending h (hpend.trans (abzConfig_ok hf)) (by rw [hg]; rfl)
        (by rw [hg]; exact Nat.le_refl _)
  | abzStart =>
      obtain ⟨hb, hs⟩ := abzStart_ok hf
      exact tracked_of_idle h hb (by rw [hpend, dispatch, hs]) (by rw [hg]; rfl)
        (by rw [hg]; exact Nat.le_refl _)
  | hallStart =>
      obtain ⟨hb, hs⟩ := hallStart_ok hf
      exact tracked_of_idle h hb (by rw [hpend, dispatch, hs]) (by rw [hg]; rfl)
        (by rw [hg]; exact Nat.le_refl _)
  | abzArm =>
      obtain ⟨hb, hs⟩ := abzArm_ok hf
      exact tracked_of_idle h hb (by rw [hpend, dispatch, hs]) (by rw [hg]; rfl)
        (by rw [hg]; exact Nat.le_refl _)
  | hallStop => exact hallStop_tracked h hr hans
  | abzSchedule => exact abzSchedule_tracked hl h hans

theorem serve_tracked (hl : LoopHead o.stim) (h : Tracked o)
    (hr : ¬ StopsMidUpdate (o.stim, r)) : Tracked (o.serve r) := by
  by_cases hans : ∃ command, Answered o.stim r command
  · obtain ⟨command, hans⟩ := hans
    exact serve_answered_tracked hl h hr hans
  · have hs : (o.serve r).stim = o.stim := (serve_cases hl r).resolve_right hans
    have hg : (o.serve r).ghost = o.ghost := request_refused o.ghost (not_exists.mp hans)
    exact tracked_of_same h hg (by rw [hs]; exact ⟨rfl, rfl, rfl, rfl⟩)

theorem drain_tracked {received : List Reception} (hl : LoopHead o.stim) (h : Tracked o)
    (hr : ∀ v ∈ visits o.stim received, ¬ StopsMidUpdate v) :
    Tracked (received.foldl Observed.serve o) := by
  induction received generalizing o with
  | nil => exact h
  | cons r received ih =>
      refine ih (serve_loopHead hl r) (serve_tracked hl h (hr _ List.mem_cons_self)) (fun v hv => ?_)
      exact hr v (List.mem_cons_of_mem _ hv)

end Serve

section Iterate

variable {o : Observed}

theorem armedStart_tracked (hl : LoopHead o.stim) (h : Tracked o)
    (ha : o.stim.armedMode = .abz) (now : BitVec 32) :
    Tracked ⟨o.stim.armedStart now, { o.ghost with runArm := some o.ghost.arms }⟩ := by
  refine ⟨⟨fun hp => Or.inr ⟨rfl, rfl, ?_⟩, h.run_eq, h.once⟩, h.le_updates, h.lt_updates⟩
  rcases h.pending hp with ⟨_, harm⟩ | ⟨hrun, _⟩
  · exact congrArg some harm.symm
  · have hstop := hl.armed_idle (by rw [ha]; decide)
    rw [hstop] at hrun
    cases hrun

theorem applyUpdate_tracked (hl : LoopHead o.stim) (h : Tracked o) (hr : o.stim.running = true)
    (hp : o.stim.updatePending = true) (now : BitVec 32) :
    Tracked ⟨o.stim.applyUpdate now,
      { o.ghost with
        applied := o.ghost.applied ++ [⟨o.ghost.updates, o.ghost.updateArm, o.ghost.runArm⟩] }⟩ := by
  have hrun : o.ghost.runArm = some o.ghost.updateArm := by
    rcases h.pending hp with ⟨ha, _⟩ | ⟨_, _, hrun⟩
    · have hstop := hl.armed_idle (by rw [ha]; decide)
      rw [hr] at hstop
      cases hstop
    · exact hrun
  refine ⟨⟨fun hq => Bool.noConfusion hq, ?_, ?_⟩, ?_, fun hq => Bool.noConfusion hq⟩
  · intro e he
    rcases List.mem_append.mp he with he | he
    · exact h.run_eq e he
    · rw [List.mem_singleton.mp he]
      exact hrun
  · refine List.pairwise_append.mpr ⟨h.once, List.pairwise_singleton _ _, fun a ha b hb => ?_⟩
    rw [List.mem_singleton.mp hb]
    exact h.lt_updates hp a ha
  · intro e he
    rcases List.mem_append.mp he with he | he
    · exact h.le_updates e he
    · cases List.mem_singleton.mp he
      exact Nat.le_refl _

theorem iterate_tracked (hl : LoopHead o.stim) (h : Tracked o) {i : Iteration}
    (hr : ∀ v ∈ served o.stim i, ¬ StopsMidUpdate v) : Tracked (o.iterate i) := by
  have hg := branch_guard o.stim i
  rw [Observed.iterate]
  cases hb : o.stim.branch i with
  | armedStart =>
      rw [hb] at hg
      exact armedStart_tracked hl h hg.1 i.now
  | applyUpdate =>
      rw [hb] at hg
      exact applyUpdate_tracked hl h hg.1 hg.2.2 i.now
  | abzTransition | hallTransition => exact tracked_of_same h rfl ⟨rfl, rfl, rfl, rfl⟩
  | drain =>
      refine drain_tracked hl h (fun v hv => hr v ?_)
      rw [served, if_pos hb]
      exact hv
  | idle => exact h

end Iterate

/-- In every run in which no HALL_STOP ends a run with its update pending, a
pending update waits for its own arm, and is applied at most once and only in
the run of that arm. -/
theorem updates_owned (r30 : BitVec 32) (x : Nat → Iteration) (n : Nat)
    (hr : ∀ k, k < n → ∀ v ∈ served (stimAt r30 x k) (x k), ¬ StopsMidUpdate v) :
    Owned (observedAt r30 x n) := by
  have htracked : LoopHead (observedAt r30 x n).stim ∧ Tracked (observedAt r30 x n) := by
    refine wave_invariant_of (P := fun o : Observed => LoopHead o.stim ∧ Tracked o)
      (G := fun o i => ∀ v ∈ served o.stim i, ¬ StopsMidUpdate v)
      ⟨init_loopHead r30, init_tracked r30⟩ ?_ x n ?_
    · rintro o i ⟨hl, h⟩ hi
      exact ⟨iterate_stim o i ▸ iterate_loopHead hl i, iterate_tracked hl h hi⟩
    · intro k hk
      have hstim : (wave Observed.iterate (Observed.init r30) x k).stim = stimAt r30 x k :=
        observedAt_stim r30 x k
      rw [hstim]
      exact hr k hk
  exact htracked.2.toOwned

section Sample

def scheduledRun (k : Nat) : Iteration :=
  match k with
  | 0 =>
      ⟨0, true, [sampleRequest .abzArm 1000 0 0 0 10, sampleRequest .abzSchedule 5000 500 0 1 20]⟩
  | 1 => ⟨1000, false, []⟩
  | _ => ⟨5000, false, []⟩

def stoppedRun (k : Nat) : Iteration :=
  if k = 2 then ⟨1001, true, [sampleRequest .hallStop 0 0 0 0 1001]⟩ else scheduledRun k

theorem scheduledRun_owned :
    (observedAt 0 scheduledRun 3).ghost.applied = [⟨1, 1, some 1⟩] ∧
      Owned (observedAt 0 scheduledRun 3) := by
  refine ⟨by decide +kernel, updates_owned 0 scheduledRun 3 ?_⟩
  decide +kernel

/-- After the HALL_STOP the update is pending with nothing armed or running. -/
theorem stoppedRun_orphans_update :
    ¬ ∀ (r30 : BitVec 32) (x : Nat → Iteration) (n : Nat), Owned (observedAt r30 x n) := by
  intro h
  have hp : (observedAt 0 stoppedRun 3).stim.updatePending = true := by decide +kernel
  have hidle : (observedAt 0 stoppedRun 3).stim.armedMode = .none ∧
      (observedAt 0 stoppedRun 3).stim.running = false := by decide +kernel
  rcases (h 0 stoppedRun 3).pending hp with ⟨ha, _⟩ | ⟨hr, _⟩
  · rw [hidle.1] at ha
    cases ha
  · rw [hidle.2] at hr
    cases hr

end Sample

end HilLab.Pru.StimulusUpdate
