import HilLab.Pru.StimulusInvariant

namespace HilLab.Pru.StimulusStop

open Lib.Clocked Protocol Stimulus StimulusInvariant

def isStop : Command → Bool
  | .abzStop | .hallStop | .forceSafe => true
  | _ => false

def isStart : Command → Bool
  | .abzStart | .abzArm | .hallStart => true
  | _ => false

/-- The request is an accepted ABZ_START, ABZ_ARM or HALL_START. -/
def StartAccepted (v : Stim × Reception) : Prop :=
  ∃ command, isStart command = true ∧ Answered v.1 v.2 command

/-- The request is an accepted FORCE_SAFE, ABZ_STOP or HALL_STOP. -/
def StopAccepted (v : Stim × Reception) : Prop :=
  ∃ command, isStop command = true ∧ Answered v.1 v.2 command

section Running

variable {s t u : Stim}

/-- All that requests other than a stop change of a run. -/
def Steered (s t : Stim) : Prop :=
  ∃ direction lastApplyTicks, t = { s with direction, lastApplyTicks }

theorem Steered.refl (s : Stim) : Steered s s := ⟨s.direction, s.lastApplyTicks, rfl⟩

theorem Steered.trans (h : Steered s t) (h' : Steered t u) : Steered s u := by
  obtain ⟨_, _, rfl⟩ := h
  obtain ⟨direction, lastApplyTicks, rfl⟩ := h'
  exact ⟨direction, lastApplyTicks, rfl⟩

theorem dispatch_busy (hb : s.busy = true) (request : Msg) (now : BitVec 32) {command : Command}
    (hc : command ∈ [.abzConfig, .abzStart, .abzArm, .hallConfig, .hallStart]) :
    (dispatch request now s command).1 = s := by
  simp only [List.mem_cons, List.not_mem_nil, or_false] at hc
  rcases hc with rfl | rfl | rfl | rfl | rfl
  · rw [dispatch, abzConfig, hb]
    rfl
  · rw [dispatch, abzStart, hb]
    rfl
  · rw [dispatch, abzArm, hb]
    rfl
  · rw [dispatch, hallConfig, hb]
    rfl
  · rw [dispatch, hallStart, hb]
    rfl

theorem dispatch_running (hr : s.running = true) (request : Msg) (now : BitVec 32) {command : Command}
    (hc : isStop command = false) : Steered s (dispatch request now s command).1 := by
  have hbusy : s.busy = true := by rw [Stim.busy, hr, Bool.true_or, Bool.true_or]
  cases command with
  | hello | time | ping | abzStatus | hallStatus | stimStatus => exact .refl s
  | forceSafe | abzStop | hallStop => cases hc
  | abzConfig | abzStart | abzArm | hallConfig | hallStart =>
      rw [dispatch_busy hbusy request now (by decide)]
      exact .refl s
  | abzSchedule =>
      rw [dispatch, abzSchedule, hr]
      exact .refl s
  | abzDirection =>
      rw [dispatch, abzDirection]
      split
      · exact .refl s
      · exact ⟨request.arg0, now, rfl⟩

theorem serve_running (hl : LoopHead s) (hr : s.running = true) {r : Reception}
    (h : ¬ StopAccepted (s, r)) : Steered s (s.serve r) := by
  rcases serve_cases hl r with hkeep | ⟨command, hans⟩
  · rw [hkeep]
    exact .refl s
  · have hc : isStop command = false := by
      cases hc : isStop command with
      | false => rfl
      | true => exact absurd ⟨command, hc, hans⟩ h
    obtain ⟨direction, lastApplyTicks, hsteered⟩ := dispatch_running hr r.request r.now hc
    refine ⟨direction, lastApplyTicks, ?_⟩
    rw [serve_answered hans, hsteered, Stim.startPending, hl.start_none]

theorem drain_running (hl : LoopHead s) (hr : s.running = true) {received : List Reception}
    (h : ∀ v ∈ visits s received, ¬ StopAccepted v) : Steered s (received.foldl Stim.serve s) := by
  induction received generalizing s with
  | nil => exact .refl s
  | cons r received ih =>
      have hfirst := serve_running hl hr (h _ List.mem_cons_self)
      have hrunning : (s.serve r).running = true := by
        obtain ⟨_, _, heq⟩ := hfirst
        rw [heq]
        exact hr
      exact hfirst.trans (ih (serve_loopHead hl r) hrunning (fun v hv => h v (List.mem_cons_of_mem _ hv)))

end Running

/-- From a state in the middle of a drain on, the outputs are 0 at every later
loop head until a start is accepted. -/
def StaysSafe (s : Stim) : Prop :=
  ∀ (later : List Reception) (y : Nat → Iteration) (m : Nat),
    (∀ v ∈ visits s later, ¬ StartAccepted v) →
    (∀ k, k < m → ∀ v ∈ served (wave Stim.iterate (later.foldl Stim.serve s) y k) (y k),
      ¬ StartAccepted v) →
    outputs (wave Stim.iterate (later.foldl Stim.serve s) y m) = 0

/-- Nothing is running, armed or pending. -/
structure Quiet (s : Stim) : Prop extends LoopHead s where
  stopped : s.running = false
  unarmed : s.armedMode = .none

theorem Quiet.outputs_eq {s : Stim} (h : Quiet s) : outputs s = 0 := by
  rw [h.outputs, levels, h.stopped]
  rfl

theorem Quiet.busy_eq {s : Stim} (h : Quiet s) : s.busy = false :=
  busy_eq_false.mpr ⟨h.stopped, h.unarmed, h.start_none⟩

theorem dispatch_quiet {s : Stim} (h : Quiet s) (request : Msg) (now : BitVec 32)
    {command : Command} (hs : isStart command = false) :
    (dispatch request now s command).1.running = false ∧
      (dispatch request now s command).1.armedMode = .none ∧
      (dispatch request now s command).1.startPendingMode = .none := by
  have hq := busy_eq_false.mp h.busy_eq
  cases command with
  | hello | time | ping | abzStatus | hallStatus | stimStatus => exact hq
  | forceSafe | abzStop => exact ⟨rfl, rfl, rfl⟩
  | hallStop => exact ⟨rfl, h.unarmed, rfl⟩
  | abzStart | abzArm | hallStart => cases hs
  | abzConfig =>
      rw [dispatch, abzConfig]
      dsimp only
      split_ifs <;> exact hq
  | hallConfig =>
      rw [dispatch, hallConfig]
      split_ifs <;> exact hq
  | abzDirection =>
      rw [dispatch, abzDirection]
      split_ifs <;> exact hq
  | abzSchedule =>
      have hne : s.armedMode ≠ .abz := by rw [h.unarmed]; decide
      rw [dispatch, abzSchedule]
      rw [if_neg (by rw [h.stopped]; decide), if_pos hne]
      exact hq

theorem serve_quiet {s : Stim} (h : Quiet s) {r : Reception} (hr : ¬ StartAccepted (s, r)) :
    Quiet (s.serve r) := by
  rcases serve_cases h.toLoopHead r with hkeep | ⟨command, hans⟩
  · rw [hkeep]
    exact h
  · have hs : isStart command = false := by
      cases hc : isStart command with
      | false => rfl
      | true => exact absurd ⟨command, hc, hans⟩ hr
    obtain ⟨h1, h2, h3⟩ := dispatch_quiet h r.request r.now hs
    have hpend : ((dispatch r.request r.now s command).1.startPending r.startNow) =
        (dispatch r.request r.now s command).1 := by
      rw [Stim.startPending, h3]
    refine ⟨serve_loopHead h.toLoopHead r, ?_, ?_⟩
    · rw [serve_answered hans, hpend, h1]
    · rw [serve_answered hans, hpend, h2]

theorem drain_quiet {s : Stim} (h : Quiet s) {received : List Reception}
    (hr : ∀ v ∈ visits s received, ¬ StartAccepted v) : Quiet (received.foldl Stim.serve s) := by
  induction received generalizing s with
  | nil => exact h
  | cons r received ih =>
      refine ih (serve_quiet h (hr _ List.mem_cons_self)) (fun v hv => hr v ?_)
      exact List.mem_cons_of_mem _ hv

theorem iterate_quiet {s : Stim} (h : Quiet s) {i : Iteration}
    (hr : ∀ v ∈ served s i, ¬ StartAccepted v) : Quiet (s.iterate i) := by
  have hg := branch_guard s i
  rw [Stim.iterate]
  cases hb : s.branch i with
  | armedStart =>
      rw [hb] at hg
      exact absurd (h.unarmed.symm.trans hg.1) (by decide)
  | applyUpdate | abzTransition | hallTransition =>
      rw [hb] at hg
      exact absurd (h.stopped.symm.trans hg.1) (by decide)
  | drain =>
      refine drain_quiet h (fun v hv => hr v ?_)
      rw [served, if_pos hb]
      exact hv
  | idle => exact h

theorem quiet_staysSafe {s : Stim} (h : Quiet s) : StaysSafe s := by
  intro later y m hlater hy
  refine Quiet.outputs_eq (wave_invariant_of (P := Quiet)
    (G := fun s i => ∀ v ∈ served s i, ¬ StartAccepted v) (drain_quiet h hlater) ?_ y m hy)
  exact fun t i ht hi => iterate_quiet ht hi

/-- A run of passes without requests leads to a loop head with an output up. -/
def Fires (s : Stim) : Prop :=
  ∃ (y : Nat → Iteration) (m : Nat),
    (∀ k, k < m → served (wave Stim.iterate s y k) (y k) = []) ∧
      outputs (wave Stim.iterate s y m) ≠ 0

theorem fires_now {s : Stim} (h : outputs s ≠ 0) : Fires s :=
  ⟨fun _ => ⟨0, false, []⟩, 0, fun _ hk => absurd hk (Nat.not_lt_zero _), h⟩

theorem fires_after {s : Stim} (i : Iteration) (hi : s.branch i ≠ .drain)
    (h : Fires (s.iterate i)) : Fires s := by
  obtain ⟨y, m, hserved, hout⟩ := h
  refine ⟨cons i y, m + 1, ?_, by rwa [wave_cons]⟩
  intro k hk
  cases k with
  | zero => exact if_neg hi
  | succ k =>
      rw [wave_cons]
      exact hserved k (by omega)

theorem abzBits_ne_zero {phase : BitVec 32} (hlt : phase < 4) (hne : phase ≠ 0)
    (indexActive : Bool) : abzBits phase indexActive ≠ 0 := by
  have hcases : phase = 1 ∨ phase = 2 ∨ phase = 3 := by bv_omega
  rcases hcases with rfl | rfl | rfl <;> cases indexActive <;> decide

theorem timeDue_self (t : BitVec 32) : timeDue t t = true := by
  simp [timeDue]

theorem abzTransition_fires {s : Stim} (h : LoopHead s) (hr : s.running = true)
    (hm : s.activeMode = .abz) (hp : s.phase = 0) (now : BitVec 32) :
    outputs (s.abzTransition now) ≠ 0 := by
  have hl := abzTransition_loopHead now h hr hm
  have hlev : levels (s.abzTransition now) =
      abzBits (s.abzTransition now).phase (s.abzTransition now).indexActive := by
    have hr' : (s.abzTransition now).running = true := hr
    have hm' : (s.abzTransition now).activeMode = .abz := hm
    simp [levels, hr', hm']
  rw [hl.outputs, hlev]
  refine abzBits_ne_zero hl.phase ?_ _
  have hphase : (s.abzTransition now).phase =
      if s.direction = 0 then (s.phase + 1) &&& 3 else (s.phase + 3) &&& 3 := rfl
  rw [hphase, hp]
  split <;> decide

theorem branch_at_deadline {s : Stim} (h : LoopHead s) (hr : s.running = true)
    (hm : s.activeMode = .abz) :
    s.branch ⟨s.nextTransitionTicks, false, []⟩ =
      if s.updatePending = true ∧ timeDue s.nextTransitionTicks s.updateApplyTicks = true then
        .applyUpdate
      else .abzTransition := by
  have ha : s.armedMode ≠ .abz := by
    intro ha
    rw [h.armed_idle (by rw [ha]; decide)] at hr
    cases hr
  simp [Stim.branch, ha, hr, hm, timeDue_self]

theorem updated_fires {s : Stim} (h : LoopHead s) (hr : s.running = true)
    (hm : s.activeMode = .abz) (hp : s.phase = 0) (hu : s.updatePending = false) : Fires s := by
  have hb : s.branch ⟨s.nextTransitionTicks, false, []⟩ = .abzTransition := by
    rw [branch_at_deadline h hr hm, hu, if_neg (fun hc => Bool.false_ne_true hc.1)]
  refine fires_after ⟨s.nextTransitionTicks, false, []⟩ (by rw [hb]; decide) (fires_now ?_)
  rw [Stim.iterate, hb]
  exact abzTransition_fires h hr hm hp _

theorem running_fires {s : Stim} (h : LoopHead s) (hr : s.running = true)
    (hm : s.activeMode = .abz) : Fires s := by
  by_cases hp : s.phase = 0
  · have hb := branch_at_deadline h hr hm
    by_cases hu : s.updatePending = true ∧
        timeDue s.nextTransitionTicks s.updateApplyTicks = true
    · rw [if_pos hu] at hb
      refine fires_after ⟨s.nextTransitionTicks, false, []⟩ (by rw [hb]; decide) ?_
      rw [Stim.iterate, hb]
      exact updated_fires (applyUpdate_loopHead _ h) hr hm hp rfl
    · rw [if_neg hu] at hb
      refine fires_after ⟨s.nextTransitionTicks, false, []⟩ (by rw [hb]; decide) (fires_now ?_)
      rw [Stim.iterate, hb]
      exact abzTransition_fires h hr hm hp _
  · refine fires_now ?_
    have hlev : levels s = abzBits s.phase s.indexActive := by simp [levels, hr, hm]
    rw [h.outputs, hlev]
    exact abzBits_ne_zero h.phase hp _

theorem armed_fires {s : Stim} (h : LoopHead s) (ha : s.armedMode = .abz) : Fires s := by
  have hb : s.branch ⟨s.armedApplyTicks, false, []⟩ = .armedStart := by
    simp [Stim.branch, ha, timeDue_self]
  refine fires_after ⟨s.armedApplyTicks, false, []⟩ (by rw [hb]; decide) ?_
  rw [Stim.iterate, hb]
  exact running_fires (armedStart_loopHead _ h) rfl rfl

theorem not_staysSafe_of_fires {s : Stim} (h : Fires s) : ¬ StaysSafe s := by
  obtain ⟨y, m, hserved, hout⟩ := h
  intro hsafe
  refine hout (hsafe [] y m (fun v hv => ?_) (fun k hk v hv => ?_))
  · cases hv
  · have hnone : served (wave Stim.iterate s y k) (y k) = [] := hserved k hk
    rw [List.foldl_nil, hnone] at hv
    cases hv

/-- After any stop but a HALL_STOP over an armed start the machine is quiet. -/
theorem stop_quiet {s : Stim} (h : LoopHead s) {r : Reception} {command : Command}
    (hc : isStop command = true) (hr : Answered s r command)
    (hn : ¬ (command = .hallStop ∧ s.armedMode = .abz)) : Quiet (s.serve r) := by
  have hl := serve_loopHead h r
  have hs := serve_answered hr
  cases command with
  | forceSafe | abzStop =>
      refine ⟨hl, ?_, ?_⟩
      · rw [hs]
        rfl
      · rw [hs]
        rfl
  | hallStop =>
      have ha : s.armedMode = .none := h.armed.resolve_right (fun ha => hn ⟨rfl, ha⟩)
      refine ⟨hl, ?_, ?_⟩
      · rw [hs]
        rfl
      · rw [hs]
        exact ha
  | hello | time | ping | abzConfig | abzStart | abzStatus | abzDirection | abzArm | abzSchedule
  | hallConfig | hallStart | hallStatus | stimStatus => cases hc

/-- An accepted stop is final, in every reachable state and for all later ticks
and requests, exactly unless it is a HALL_STOP that meets an armed start. -/
theorem stop_final_iff (r30 : BitVec 32) (x : Nat → Iteration) (n : Nat) (earlier : List Reception)
    (stop : Reception) (command : Command) (hc : isStop command = true)
    (hans : Answered (earlier.foldl Stim.serve (stimAt r30 x n)) stop command) :
    StaysSafe ((earlier.foldl Stim.serve (stimAt r30 x n)).serve stop) ↔
      ¬ (command = .hallStop ∧
        (earlier.foldl Stim.serve (stimAt r30 x n)).armedMode = .abz) := by
  have h := drain_loopHead (stimAt_loopHead r30 x n) earlier
  constructor
  · rintro hsafe ⟨rfl, ha⟩
    refine not_staysSafe_of_fires (armed_fires (serve_loopHead h stop) ?_) hsafe
    rw [serve_answered hans]
    exact ha
  · exact fun hn => quiet_staysSafe (stop_quiet h hc hans hn)

section Sample

/-- ABZ_STOP right after an ABZ_ARM cancels it. -/
theorem abzStop_final :
    StaysSafe (([sampleRequest .abzArm 1000 0 0 0 10].foldl Stim.serve
      (stimAt 0 (fun _ => ⟨0, false, []⟩) 0)).serve (sampleRequest .abzStop 0 0 0 0 20)) :=
  (stop_final_iff 0 (fun _ => ⟨0, false, []⟩) 0 [sampleRequest .abzArm 1000 0 0 0 10]
    (sampleRequest .abzStop 0 0 0 0 20) .abzStop rfl ⟨rfl, by decide +kernel⟩).mpr
    (by decide)

/-- ABZ_ARM for tick 1000, then an accepted HALL_STOP: the start still fires, and
its first transition raises A. -/
theorem hallStop_leaves_armed_start :
    ¬ ∀ (r30 : BitVec 32) (x : Nat → Iteration) (n : Nat) (earlier : List Reception)
      (stop : Reception) (command : Command), isStop command = true →
      Answered (earlier.foldl Stim.serve (stimAt r30 x n)) stop command →
        StaysSafe ((earlier.foldl Stim.serve (stimAt r30 x n)).serve stop) := by
  intro h
  have hsafe := h 0 (fun _ => ⟨0, false, []⟩) 0 [sampleRequest .abzArm 1000 0 0 0 10]
    (sampleRequest .hallStop 0 0 0 0 20) .hallStop rfl ⟨rfl, by decide +kernel⟩
  have hout := hsafe [] (fun k => ⟨if k = 0 then 1000 else 201000, false, []⟩) 2 (by simp [visits])
    (fun k _ => ?_)
  · revert hout
    decide +kernel
  · simp [served, visits]

end Sample

end HilLab.Pru.StimulusStop
