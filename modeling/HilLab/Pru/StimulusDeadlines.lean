import HilLab.Pru.StimulusTimers
import HilLab.Pru.StimulusUpdate

namespace HilLab.Pru.StimulusDeadlines

open Lib.Clocked Lib.Deadline Protocol Stimulus StimulusInvariant StimulusStop StimulusTimers
open StimulusUpdate

section Starts

/-- The pass bases the deadlines of a mode on a time: the armed start and an applied update on its
reading, and an accepted start on the ticks read once it has been acknowledged. -/
inductive Bases (t : Nat) (s : Stim) (i : Iteration) : StimMode → Nat → Prop
  | armed : s.branch i = .armedStart → Bases t s i .abz t
  | updated : s.branch i = .applyUpdate → Bases t s i .abz t
  | started {m : StimMode} {c : Command} {earlier later : List Reception} {r : Reception} {u : Nat} :
      s.branch i = .drain → i.received = earlier ++ r :: later →
      (m = .abz ∧ c = .abzStart ∨ m = .hall ∧ c = .hallStart) →
      Answered (earlier.foldl Stim.serve s) r c → r.startNow = BitVec.ofNat 32 u →
      (∀ r' ∈ later, ¬ Stops r') → Bases t s i m u

variable {s : Stim} {i : Iteration} {m : StimMode} {t u : Nat}

structure Based (m : StimMode) (u : Nat) (s : Stim) : Prop where
  running : s.running = true
  mode : s.activeMode = m
  next : (ticker m s).next = BitVec.ofNat 32 u + (ticker m s).ticks

theorem serve_start_based {r : Reception} {c : Command}
    (hm : m = .abz ∧ c = .abzStart ∨ m = .hall ∧ c = .hallStart) (h : Answered s r c)
    (hstart : r.startNow = BitVec.ofNat 32 u) : Based m u (s.serve r) := by
  rw [serve_answered h]
  obtain ⟨-, hok⟩ := answered_iff.mp h
  rcases hm with ⟨rfl, rfl⟩ | ⟨rfl, rfl⟩
  · have hstarted : (dispatch r.request r.now s .abzStart).1 = { s with startPendingMode := .abz } :=
      (abzStart_ok hok).2
    rw [hstarted, Stim.startPending, hstart]
    exact ⟨rfl, rfl, rfl⟩
  · have hstarted : (dispatch r.request r.now s .hallStart).1 = { s with startPendingMode := .hall } :=
      (hallStart_ok hok).2
    rw [hstarted, Stim.startPending, hstart]
    exact ⟨rfl, rfl, rfl⟩

/-- A pass that drains, split at one of its requests. -/
theorem iterate_split {earlier later : List Reception} {r : Reception} (hb : s.branch i = .drain)
    (hreceived : i.received = earlier ++ r :: later) :
    s.iterate i = later.foldl Stim.serve ((earlier.foldl Stim.serve s).serve r) := by
  rw [Stim.iterate, hb]
  change i.received.foldl Stim.serve s = _
  rw [hreceived, List.foldl_append]
  rfl

theorem bases_based (hl : LoopHead s) (h : Bases t s i m u) (hnow : i.now = BitVec.ofNat 32 t) :
    Based m u (s.iterate i) := by
  cases h with
  | armed hb =>
      rw [Stim.iterate, hb, hnow]
      exact ⟨rfl, rfl, rfl⟩
  | updated hb =>
      have hguard := branch_guard s i
      rw [hb] at hguard
      rw [Stim.iterate, hb, hnow]
      exact ⟨hguard.1, hguard.2.1, rfl⟩
  | @started m c earlier later r u hb hreceived hm hanswered hstart hstop =>
      have hearlier := drain_loopHead hl earlier
      have hbased := serve_start_based hm hanswered hstart
      obtain ⟨_, _, hsteered⟩ := drain_unstopped (serve_loopHead hearlier r) hbased.running hstop
      rw [iterate_split hb hreceived, hsteered]
      exact ⟨hbased.running, hbased.mode, hbased.next⟩

theorem Based.runs (h : Based m u s) :
    Runs m (shown (ticker m s).ticks.toNat (ticker m s) (.start (ticker m s).ticks.toNat u)) s := by
  have hticker : ticker m s =
      shown (ticker m s).ticks.toNat (ticker m s) (.start (ticker m s).ticks.toNat u) := by
    have hnext := h.next
    generalize ticker m s = k at *
    obtain ⟨next, ticks, count, late⟩ := k
    change next = BitVec.ofNat 32 u + ticks at hnext
    subst hnext
    simp [shown, Timer.start, BitVec.ofNat_add]
  exact ⟨h.running, h.mode, hticker⟩

theorem ticks_pos (hl : LoopHead s) (m : StimMode) : 0 < (ticker m s).ticks.toNat := by
  have hmin : minTransitionTicks.toNat = 100 := rfl
  have habz : minTransitionTicks ≤ s.transitionTicks := hl.ticks.1
  have hhall : minTransitionTicks ≤ s.hallTransitionTicks := hl.hallTicks.1
  rw [BitVec.le_def, hmin] at habz hhall
  rw [ticker]
  split
  · exact Nat.lt_of_lt_of_le (by decide) hhall
  · exact Nat.lt_of_lt_of_le (by decide) habz

end Starts

section Arming

/-- The buffer holds a request that cancels an armed start. -/
def Cancels (r : Reception) : Prop :=
  accept r.request r.len = .ok .forceSafe ∨ accept r.request r.len = .ok .abzStop

structure Armed (a : Nat) (s : Stim) : Prop where
  mode : s.armedMode = .abz
  ticks : s.armedApplyTicks = BitVec.ofNat 32 a

structure Queued (u : Nat) (s : Stim) : Prop where
  pending : s.updatePending = true
  ticks : s.updateApplyTicks = BitVec.ofNat 32 u

/-- What no request but a cancelling one changes of an armed start. -/
structure StaysArmed (s t : Stim) : Prop where
  mode : t.armedMode = s.armedMode
  ticks : t.armedApplyTicks = s.armedApplyTicks
  update : s.updatePending = true →
    t.updatePending = true ∧ t.updateApplyTicks = s.updateApplyTicks

theorem StaysArmed.refl (s : Stim) : StaysArmed s s := ⟨rfl, rfl, fun h => ⟨h, rfl⟩⟩

theorem StaysArmed.trans {s t u : Stim} (h : StaysArmed s t) (h' : StaysArmed t u) :
    StaysArmed s u := by
  refine ⟨h'.mode.trans h.mode, h'.ticks.trans h.ticks, fun hs => ?_⟩
  obtain ⟨ht, hticks⟩ := h.update hs
  obtain ⟨hu, hticks'⟩ := h'.update ht
  exact ⟨hu, hticks'.trans hticks⟩

theorem StaysArmed.armed {s t : Stim} (h : StaysArmed s t) {a : Nat} (ha : Armed a s) : Armed a t :=
  ⟨h.mode.trans ha.mode, h.ticks.trans ha.ticks⟩

theorem StaysArmed.queued {s t : Stim} (h : StaysArmed s t) {u : Nat} (hu : Queued u s) :
    Queued u t :=
  ⟨(h.update hu.pending).1, (h.update hu.pending).2.trans hu.ticks⟩

variable {s : Stim} {r : Reception}

theorem dispatch_armed (ha : s.armedMode = .abz) (request : Msg) (now : BitVec 32) {c : Command}
    (hsafe : c ≠ .forceSafe) (hstop : c ≠ .abzStop) (hpending : s.startPendingMode = .none) :
    StaysArmed s (dispatch request now s c).1 ∧
      (dispatch request now s c).1.startPendingMode = .none := by
  have hbusy : s.busy = true := by
    rw [Stim.busy, ha]
    cases s.running <;> rfl
  have hsame : StaysArmed s s ∧ s.startPendingMode = .none := ⟨.refl s, hpending⟩
  cases c with
  | hello | time | ping | abzStatus | hallStatus | stimStatus => exact hsame
  | forceSafe => exact absurd rfl hsafe
  | abzStop => exact absurd rfl hstop
  | hallStop => exact ⟨⟨rfl, rfl, fun h => ⟨h, rfl⟩⟩, rfl⟩
  | abzConfig | abzStart | abzArm | hallConfig | hallStart =>
      rw [dispatch_busy hbusy request now (by decide)]
      exact hsame
  | abzSchedule =>
      rcases dispatch_keeps request now (s := s) .abzSchedule with hok | hkeep
      · obtain ⟨-, hnone, hmode, hstart⟩ := abzSchedule_ok hok
        refine ⟨⟨hmode, ?_, fun h => Bool.noConfusion (hnone.symm.trans h)⟩, hstart.trans hpending⟩
        rw [dispatch, abzSchedule]
        split_ifs <;> rfl
      · rw [hkeep]
        exact hsame
  | abzDirection =>
      rw [dispatch, abzDirection]
      split
      · exact hsame
      · exact ⟨⟨rfl, rfl, fun h => ⟨h, rfl⟩⟩, hpending⟩

theorem serve_armed (hl : LoopHead s) (ha : s.armedMode = .abz) (h : ¬ Cancels r) :
    StaysArmed s (s.serve r) := by
  have hhandle : StaysArmed s (handle r.request r.now s r.len).1 ∧
      (handle r.request r.now s r.len).1.startPendingMode = .none := by
    rw [handle]
    cases haccept : accept r.request r.len with
    | error flags => exact ⟨.refl s, hl.start_none⟩
    | ok c =>
        refine dispatch_armed ha r.request r.now ?_ ?_ hl.start_none
        · rintro rfl
          exact h (Or.inl haccept)
        · rintro rfl
          exact h (Or.inr haccept)
  obtain ⟨hsame, hpending⟩ := hhandle
  rw [Stim.serve, handleRequest_fst, Stim.startPending, hpending]
  exact hsame

theorem drain_armed (hl : LoopHead s) (ha : s.armedMode = .abz) {received : List Reception}
    (h : ∀ r ∈ received, ¬ Cancels r) : StaysArmed s (received.foldl Stim.serve s) := by
  induction received generalizing s with
  | nil => exact .refl s
  | cons r received ih =>
      obtain ⟨hfirst, hrest⟩ := List.forall_mem_cons.mp h
      have hsame := serve_armed hl ha hfirst
      exact hsame.trans (ih (serve_loopHead hl r) (hsame.mode.trans ha) hrest)

/-- An armed start is taken at the readings that are due; until then it stays armed. -/
theorem armed_pass (hl : LoopHead s) (ha : s.armedMode = .abz) (i : Iteration) :
    (s.branch i = .armedStart ↔ timeDue i.now s.armedApplyTicks = true) ∧
      (s.branch i ≠ .armedStart → (∀ r ∈ drained s i, ¬ Cancels r) →
        s.branch i ≠ .applyUpdate ∧ StaysArmed s (s.iterate i)) := by
  have hstopped : s.running = false := hl.armed_idle (by rw [ha]; decide)
  have hguard := branch_guard s i
  constructor
  · constructor
    · intro hb
      rw [hb] at hguard
      exact hguard.2
    · intro hdue
      exact if_pos ⟨ha, hdue⟩
  · intro hb hcancel
    have hnot : ¬ s.running = true := by
      rw [hstopped]
      exact Bool.false_ne_true
    have hrest : s.branch i = .drain ∨ s.branch i = .idle := by
      cases hbranch : s.branch i with
      | drain => exact Or.inl rfl
      | idle => exact Or.inr rfl
      | armedStart => exact absurd hbranch hb
      | applyUpdate | abzTransition | hallTransition =>
          rw [hbranch] at hguard
          exact absurd hguard.1 hnot
    rw [iterate_drained hrest]
    refine ⟨?_, drain_armed hl ha hcancel⟩
    rcases hrest with hrest | hrest
    · rw [hrest]
      decide
    · rw [hrest]
      decide

end Arming

section Waiting

variable {r30 : BitVec 32} {t : Nat → Nat} {x : Nat → Iteration} {s : Stim} {lo hi : Nat}

theorem timed_le {rs : List Reception} (h : Timed lo rs hi) : lo ≤ hi := by
  induction rs generalizing lo with
  | nil => exact h
  | cons r rs ih =>
      obtain ⟨handled, started, hlo, hle, -, -, hrest⟩ := h
      exact Nat.le_trans hlo (Nat.le_trans hle (ih hrest))

theorem timed_split {earlier later : List Reception} {r : Reception}
    (h : Timed lo (earlier ++ r :: later) hi) :
    ∃ mid handled, Timed lo earlier mid ∧ mid ≤ handled ∧ handled ≤ hi ∧
      r.now = BitVec.ofNat 32 handled := by
  induction earlier generalizing lo with
  | nil =>
      obtain ⟨handled, started, hlo, hle, hnow, -, hrest⟩ := h
      exact ⟨lo, handled, Nat.le_refl lo, hlo, Nat.le_trans hle (timed_le hrest), hnow⟩
  | cons e earlier ih =>
      obtain ⟨handled, started, hlo, hle, hnow, hstart, hrest⟩ := h
      obtain ⟨mid, handled', hmid, hrest⟩ := ih hrest
      exact ⟨mid, handled', ⟨handled, started, hlo, hle, hnow, hstart, hmid⟩, hrest⟩

/-- What is armed is armed for a time after lo and within half a range of hi. -/
def ArmAhead (lo hi : Nat) (s : Stim) : Prop :=
  s.armedMode = .abz → ∃ a, s.armedApplyTicks = BitVec.ofNat 32 a ∧ lo < a ∧ a < hi + 2 ^ 31

theorem arm_future {request : Msg} {now : BitVec 32} {h : Nat} (hnow : now = BitVec.ofNat 32 h)
    (hok : (abzArm request now s).2.flags = statusOk) :
    (abzArm request now s).1.armedApplyTicks = request.arg0 ∧
      ∃ a, request.arg0 = BitVec.ofNat 32 a ∧ h < a ∧ a < h + 2 ^ 31 := by
  obtain ⟨-, hstate⟩ := abzArm_ok hok
  have hb := ok_of_ite_reject (by decide) hok
  rw [abzArm, if_neg hb] at hok
  have hv := ok_of_ite_reject (by decide) hok
  rw [not_or, Bool.not_eq_true, Bool.not_eq_false', timeIsFuture, decide_eq_true_iff, hnow] at hv
  rw [hstate]
  exact ⟨rfl, future hv.2⟩

theorem dispatch_arms (hn : s.armedMode ≠ .abz) {request : Msg} {now : BitVec 32} {c : Command}
    (h : (dispatch request now s c).1.armedMode = .abz) :
    c = .abzArm ∧ (abzArm request now s).2.flags = statusOk := by
  rcases dispatch_keeps request now (s := s) c with hok | hkeep
  · cases c with
    | abzArm => exact ⟨rfl, hok⟩
    | hello | time | ping | abzStatus | hallStatus | stimStatus | hallStop => exact absurd h hn
    | forceSafe | abzStop => exact StimMode.noConfusion h
    | abzSchedule => exact absurd (abzSchedule_ok hok).1 hn
    | abzStart =>
        rw [dispatch, (abzStart_ok hok).2] at h
        exact absurd h hn
    | hallStart =>
        rw [dispatch, (hallStart_ok hok).2] at h
        exact absurd h hn
    | abzConfig =>
        rw [dispatch, abzConfig] at h
        dsimp only at h
        split_ifs at h <;> exact absurd h hn
    | abzDirection =>
        rw [dispatch, abzDirection] at h
        split_ifs at h <;> exact absurd h hn
    | hallConfig =>
        rw [dispatch, hallConfig] at h
        split_ifs at h <;> exact absurd h hn
  · rw [hkeep] at h
    exact absurd h hn

theorem startPending_armed (s : Stim) (startNow : BitVec 32) :
    (s.startPending startNow).armedMode = s.armedMode ∧
      (s.startPending startNow).armedApplyTicks = s.armedApplyTicks := by
  rw [Stim.startPending]
  cases s.startPendingMode <;> exact ⟨rfl, rfl⟩

theorem serve_armAhead (hl : LoopHead s) {c h u : Nat} {r : Reception} (hahead : ArmAhead lo c s)
    (hlo : lo ≤ h) (hc : c ≤ h) (hu : h ≤ u) (hnow : r.now = BitVec.ofNat 32 h) :
    ArmAhead lo u (s.serve r) := by
  intro harmed
  by_cases hbefore : s.armedMode = .abz
  · obtain ⟨a, hticks, hla, hac⟩ := hahead hbefore
    by_cases hcancel : Cancels r
    · have hnone : (s.serve r).armedMode = .none := by
        rw [Stim.serve, handleRequest_fst, (startPending_armed _ _).1, handle]
        rcases hcancel with hc | hc
        · rw [hc]
          rfl
        · rw [hc]
          rfl
      rw [hnone] at harmed
      cases harmed
    · have hstays := serve_armed hl hbefore hcancel
      exact ⟨a, hstays.ticks.trans hticks, hla, by omega⟩
  · rw [Stim.serve, handleRequest_fst] at harmed ⊢
    rw [(startPending_armed _ _).1, handle] at harmed
    rw [(startPending_armed _ _).2, handle]
    cases haccept : accept r.request r.len with
    | error flags =>
        rw [haccept] at harmed
        exact absurd harmed hbefore
    | ok command =>
        rw [haccept] at harmed
        obtain ⟨rfl, hok⟩ := dispatch_arms hbefore harmed
        obtain ⟨hticks, a, ha, hha, hah⟩ := arm_future hnow hok
        exact ⟨a, hticks.trans ha, by omega, by omega⟩

theorem drain_armAhead (hl : LoopHead s) {c : Nat} {rs : List Reception}
    (hahead : ArmAhead lo c s) (hlo : lo ≤ c) (h : Timed c rs hi) :
    ArmAhead lo hi (rs.foldl Stim.serve s) := by
  induction rs generalizing s c with
  | nil =>
      intro harmed
      obtain ⟨a, hticks, hla, hac⟩ := hahead harmed
      exact ⟨a, hticks, hla, Nat.lt_of_lt_of_le hac (Nat.add_le_add_right h _)⟩
  | cons r rs ih =>
      obtain ⟨handled, started, hle, hstarted, hnow, -, hrest⟩ := h
      have hserve := serve_armAhead hl hahead (Nat.le_trans hlo hle) hle hstarted hnow
      exact ih (serve_loopHead hl r) hserve (by omega) hrest

theorem armAhead_reading (hl : LoopHead s) {now : Nat} {i : Iteration} (hahead : ArmAhead lo now s)
    (hgap : now < lo + 2 ^ 30) (hnow : i.now = BitVec.ofNat 32 now)
    (hb : s.branch i ≠ .armedStart) : ArmAhead now now s := by
  intro harmed
  obtain ⟨a, hticks, hla, han⟩ := hahead harmed
  refine ⟨a, hticks, ?_, han⟩
  by_contra hcome
  apply hb
  rw [(armed_pass hl harmed i).1, hticks, hnow]
  exact (timeDue_iff (by omega) (by omega)).mpr (Nat.le_of_not_lt hcome)

theorem armAhead_running (hl : LoopHead s) (hr : s.running = true) : ArmAhead lo hi s := by
  intro harmed
  have hstopped := hl.armed_idle (by rw [harmed]; decide)
  rw [hr] at hstopped
  cases hstopped

theorem armAhead_pass (h : Paced t x) (n : Nat)
    (hb : (stimAt r30 x n).branch (x n) ≠ .armedStart) :
    ArmAhead (t n) (t n) (stimAt r30 x n) := by
  induction n with
  | zero => exact fun harmed => StimMode.noConfusion harmed
  | succ n ih =>
      have hl := stimAt_loopHead r30 x n
      apply armAhead_reading (stimAt_loopHead r30 x (n + 1)) _ (h.gap n) (h.reading (n + 1)) hb
      have hnext : stimAt r30 x (n + 1) = (stimAt r30 x n).iterate (x n) := rfl
      have hguard := branch_guard (stimAt r30 x n) (x n)
      rw [hnext, Stim.iterate]
      cases hbranch : (stimAt r30 x n).branch (x n) with
      | armedStart => exact fun harmed => StimMode.noConfusion harmed
      | applyUpdate | abzTransition | hallTransition =>
          rw [hbranch] at hguard
          have hbefore : ArmAhead (t n) (t (n + 1)) (stimAt r30 x n) := armAhead_running hl hguard.1
          exact hbefore
      | drain =>
          have hahead := ih (by rw [hbranch]; decide)
          exact drain_armAhead hl hahead (Nat.le_refl _) (h.handled n)
      | idle =>
          have hahead := ih (by rw [hbranch]; decide)
          intro harmed
          obtain ⟨a, hticks, hla, han⟩ := hahead harmed
          have hmono := h.mono n
          exact ⟨a, hticks, hla, by omega⟩

/-- From the pass after the request on, an armed start waits for its time, and is then taken. -/
theorem armed_waits (h : Paced t x) {n a : Nat} (ha : Armed a (stimAt r30 x (n + 1)))
    (hlo : t n < a) (hhi : a < t (n + 1) + 2 ^ 31) {d : Nat}
    (hwait : ∀ k, k < d →
      (t (n + 1 + k) < a ∨
        (stimAt r30 x (n + 1 + k)).branch (x (n + 1 + k)) ≠ .armedStart) ∧
      ∀ r ∈ drained (stimAt r30 x (n + 1 + k)) (x (n + 1 + k)), ¬ Cancels r) :
    (StaysArmed (stimAt r30 x (n + 1)) (stimAt r30 x (n + 1 + d)) ∧ t (n + d) < a) ∧
      ((stimAt r30 x (n + 1 + d)).branch (x (n + 1 + d)) = .armedStart ↔ a ≤ t (n + 1 + d)) := by
  have hreading (d : Nat)
      (hstays : StaysArmed (stimAt r30 x (n + 1)) (stimAt r30 x (n + 1 + d)))
      (hbefore : t (n + d) < a) (hmono : t (n + 1) ≤ t (n + 1 + d)) :
      (stimAt r30 x (n + 1 + d)).branch (x (n + 1 + d)) = .armedStart ↔ a ≤ t (n + 1 + d) := by
    have harmed := hstays.armed ha
    have hgap := h.gap (n + d)
    have hindex : n + 1 + d = n + d + 1 := by omega
    rw [(armed_pass (stimAt_loopHead r30 x _) harmed.mode _).1, harmed.ticks, h.reading]
    rw [hindex] at hmono ⊢
    exact timeDue_iff (by omega) (by omega)
  have hrun : (StaysArmed (stimAt r30 x (n + 1)) (stimAt r30 x (n + 1 + d)) ∧ t (n + d) < a) ∧
      t (n + 1) ≤ t (n + 1 + d) := by
    induction d with
    | zero => exact ⟨⟨.refl _, hlo⟩, Nat.le_refl _⟩
    | succ d ih =>
        obtain ⟨⟨hstays, hbefore⟩, hmono⟩ := ih (fun k hk => hwait k (Nat.lt_succ_of_lt hk))
        obtain ⟨hnot, hcancel⟩ := hwait d (Nat.lt_succ_self d)
        have hiff := hreading d hstays hbefore hmono
        have hb : (stimAt r30 x (n + 1 + d)).branch (x (n + 1 + d)) ≠ .armedStart := by
          rcases hnot with hearly | hb
          · exact fun hb => Nat.not_le_of_lt hearly (hiff.mp hb)
          · exact hb
        have hpass := (armed_pass (stimAt_loopHead r30 x (n + 1 + d)) (hstays.armed ha).mode
          (x (n + 1 + d))).2 hb hcancel
        have hindex : n + 1 + d = n + (d + 1) := by omega
        refine ⟨⟨hstays.trans hpass.2, ?_⟩, Nat.le_trans hmono (h.mono (n + 1 + d))⟩
        rw [← hindex]
        exact Nat.lt_of_not_le (fun hle => hb (hiff.mpr hle))
  exact ⟨hrun.1, hreading d hrun.1.1 hrun.1.2 hrun.2⟩

theorem queued_pass (hl : LoopHead s) (hr : s.running = true) (hmode : s.activeMode = .abz)
    {i : Iteration} {u : Nat} (hu : Queued u s) :
    (s.branch i = .applyUpdate ↔ timeDue i.now (BitVec.ofNat 32 u) = true) ∧
      (Undisturbed s i →
        (s.iterate i).running = true ∧ (s.iterate i).activeMode = .abz ∧ Queued u (s.iterate i)) := by
  have hruns : Runs .abz (ticker .abz s) s := ⟨hr, hmode, rfl⟩
  have hnone := hruns.not_armed hl
  constructor
  · have harmed : ¬ (s.armedMode = .abz ∧ timeDue i.now s.armedApplyTicks = true) := by
      rw [hnone]
      exact fun ha => StimMode.noConfusion ha.1
    have hbranch : s.branch i = _ := if_neg harmed
    rw [hr, hmode, hu.pending, hu.ticks] at hbranch
    rw [hbranch]
    cases timeDue i.now (BitVec.ofNat 32 u) with
    | true => simp
    | false => cases timeDue i.now s.nextTransitionTicks <;> cases i.hostInt <;> simp
  · intro hpass
    have hnext := hruns.iterate hl hpass
    refine ⟨hnext.running, hnext.mode, ?_⟩
    have hguard := branch_guard s i
    rw [Stim.iterate]
    cases hb : s.branch i with
    | armedStart =>
        rw [hb, hnone] at hguard
        exact StimMode.noConfusion hguard.1
    | applyUpdate => exact absurd hb hpass.1
    | abzTransition => exact ⟨hu.pending, hu.ticks⟩
    | hallTransition => exact ⟨hu.pending, hu.ticks⟩
    | idle => exact hu
    | drain =>
        have hstop := hpass.2
        rw [drained, if_pos hb] at hstop
        obtain ⟨_, _, hsteered⟩ := drain_unstopped hl hr hstop
        dsimp only
        rw [hsteered]
        exact ⟨hu.pending, hu.ticks⟩

/-- A queued update of a run waits for its time, and is then applied. -/
theorem update_waits (h : Paced t x) {m u : Nat} (hr : (stimAt r30 x (m + 1)).running = true)
    (hmode : (stimAt r30 x (m + 1)).activeMode = .abz) (hu : Queued u (stimAt r30 x (m + 1)))
    (hlo : t m < u + 2 ^ 30) (hhi : u < t (m + 1) + 2 ^ 31) {d : Nat}
    (hwait : ∀ k, k < d → t (m + 1 + k) < u ∧
      ∀ r ∈ drained (stimAt r30 x (m + 1 + k)) (x (m + 1 + k)), ¬ Stops r) :
    (stimAt r30 x (m + 1 + d)).branch (x (m + 1 + d)) = .applyUpdate ↔ u ≤ t (m + 1 + d) := by
  have hreading (d : Nat) (hr : (stimAt r30 x (m + 1 + d)).running = true)
      (hmode : (stimAt r30 x (m + 1 + d)).activeMode = .abz)
      (hu : Queued u (stimAt r30 x (m + 1 + d))) (hbefore : t (m + d) < u + 2 ^ 30)
      (hmono : t (m + 1) ≤ t (m + 1 + d)) :
      (stimAt r30 x (m + 1 + d)).branch (x (m + 1 + d)) = .applyUpdate ↔ u ≤ t (m + 1 + d) := by
    have hgap := h.gap (m + d)
    have hindex : m + 1 + d = m + d + 1 := by omega
    rw [(queued_pass (stimAt_loopHead r30 x _) hr hmode hu).1, h.reading]
    rw [hindex] at hmono ⊢
    exact timeDue_iff (by omega) (by omega)
  have hrun : ((stimAt r30 x (m + 1 + d)).running = true ∧
      (stimAt r30 x (m + 1 + d)).activeMode = .abz ∧ Queued u (stimAt r30 x (m + 1 + d))) ∧
      t (m + d) < u + 2 ^ 30 ∧ t (m + 1) ≤ t (m + 1 + d) := by
    induction d with
    | zero => exact ⟨⟨hr, hmode, hu⟩, hlo, Nat.le_refl _⟩
    | succ d ih =>
        obtain ⟨⟨hr, hmode, hu⟩, hbefore, hmono⟩ := ih (fun k hk => hwait k (Nat.lt_succ_of_lt hk))
        obtain ⟨hearly, hstop⟩ := hwait d (Nat.lt_succ_self d)
        have hiff := hreading d hr hmode hu hbefore hmono
        have hb : (stimAt r30 x (m + 1 + d)).branch (x (m + 1 + d)) ≠ .applyUpdate :=
          fun hb => Nat.not_le_of_lt hearly (hiff.mp hb)
        have hnext := (queued_pass (stimAt_loopHead r30 x (m + 1 + d)) hr hmode hu).2 ⟨hb, hstop⟩
        have hindex : m + (d + 1) = m + 1 + d := by omega
        refine ⟨hnext, ?_, Nat.le_trans hmono (h.mono (m + 1 + d))⟩
        rw [hindex]
        omega
  exact hreading d hrun.1.1 hrun.1.2.1 hrun.1.2.2 hrun.2.1 hrun.2.2

end Waiting

section Runs

/-- A request among the buffers of a pass is accepted, and none after it in the pass cancels. -/
structure Accepted (c : Command) (s : Stim) (i : Iteration) (r : Reception)
    (earlier later : List Reception) : Prop where
  drains : s.branch i = .drain
  received : i.received = earlier ++ r :: later
  answered : Answered (earlier.foldl Stim.serve s) r c
  kept : ∀ r' ∈ later, ¬ Cancels r'

/-- The requested ticks are those of a time to come, less than half a range after the request is
handled between two readings. -/
structure Requests (lo hi : Nat) (r : Reception) (handled time : Nat) : Prop where
  within : lo ≤ handled ∧ handled ≤ hi
  now : r.now = BitVec.ofNat 32 handled
  ticks : r.request.arg0 = BitVec.ofNat 32 time
  ahead : handled < time ∧ time < handled + 2 ^ 31

variable (r30 : BitVec 32) (t : Nat → Nat) (x : Nat → Iteration)

/-- An accepted ABZ_ARM starts its run at the first reading at or after its time, unless it is
cancelled before. -/
def ArmsOnTime : Prop :=
  ∀ n earlier r later, Accepted .abzArm (stimAt r30 x n) (x n) r earlier later →
    ∃ handled a, Requests (t n) (t (n + 1)) r handled a ∧
      ∀ j, n < j →
        (∀ i, n < i → i < j →
          t i < a ∧ ∀ r' ∈ drained (stimAt r30 x i) (x i), ¬ Cancels r') →
        ((stimAt r30 x j).branch (x j) = .armedStart ↔ a ≤ t j)

/-- An accepted ABZ_SCHEDULE is not applied before the armed start, and then at the first later
reading at or after its time, unless it is cancelled or the run stopped before. -/
def UpdatesOnTime : Prop :=
  ∀ n earlier r later, Accepted .abzSchedule (stimAt r30 x n) (x n) r earlier later →
    ∃ handled u, Requests (t n) (t (n + 1)) r handled u ∧
      ∀ m, n < m → (stimAt r30 x m).branch (x m) = .armedStart →
        (∀ i, n < i → i < m → (stimAt r30 x i).branch (x i) ≠ .armedStart ∧
          ∀ r' ∈ drained (stimAt r30 x i) (x i), ¬ Cancels r') →
        (∀ i, n < i → i ≤ m → (stimAt r30 x i).branch (x i) ≠ .applyUpdate) ∧
          ∀ j, m < j →
            (∀ i, m < i → i < j →
              t i < u ∧ ∀ r' ∈ drained (stimAt r30 x i) (x i), ¬ Stops r') →
            ((stimAt r30 x j).branch (x j) = .applyUpdate ↔ u ≤ t j)

/-- A run based on a time u with the period T does what the timer does, as long as no update is
applied and no stop handled: it takes a transition at the readings at or after the deadline; while
none is late by a period the deadlines are u + T, u + 2 T, .. and every one up to the reading has
been taken; and one that is late so much counts once and bases the next deadline on its reading. -/
def DeadlinesKept : Prop :=
  ∀ n m u, Bases (t n) (stimAt r30 x n) (x n) m u → t n ≤ u → u ≤ t (n + 1) →
    let base := ticker m (stimAt r30 x (n + 1))
    let T := base.ticks.toNat
    T < 2 ^ 30 → ∀ d,
      (∀ k, k < d → Undisturbed (stimAt r30 x (n + 1 + k)) (x (n + 1 + k))) →
      let c := timerAt T u t n d
      let j := n + 1 + d
      Runs m (shown T base c) (stimAt r30 x j) ∧
        (c.late = 0 →
          c.deadline = u + (c.taken + 1) * T ∧ (0 < d → c.taken = (t (n + d) - u) / T)) ∧
        (Undisturbed (stimAt r30 x j) (x j) →
          ((stimAt r30 x j).branch (x j) = fires m ↔ c.deadline ≤ t j) ∧
            (c.deadline + T ≤ t j →
              (ticker m (stimAt r30 x (j + 1))).late = (ticker m (stimAt r30 x j)).late + 1 ∧
                (ticker m (stimAt r30 x (j + 1))).next = BitVec.ofNat 32 (t j + T)))

variable {r30 t x}

theorem Accepted.handled {c : Command} {n : Nat} {earlier later : List Reception} {r : Reception}
    (h : Paced t x) (hc : Accepted c (stimAt r30 x n) (x n) r earlier later) :
    ∃ mid handled, (ArmAhead (t n) mid (earlier.foldl Stim.serve (stimAt r30 x n)) ∧ mid ≤ handled) ∧
      (t n ≤ handled ∧ handled ≤ t (n + 1) ∧ r.now = BitVec.ofNat 32 handled) ∧
      LoopHead (earlier.foldl Stim.serve (stimAt r30 x n)) ∧
      (((earlier.foldl Stim.serve (stimAt r30 x n)).serve r).armedMode = .abz →
        StaysArmed ((earlier.foldl Stim.serve (stimAt r30 x n)).serve r) (stimAt r30 x (n + 1))) := by
  have hl := stimAt_loopHead r30 x n
  have htimed := h.handled n
  rw [hc.received] at htimed
  obtain ⟨mid, handled, hmid, hle, hhi, hnow⟩ := timed_split htimed
  have hahead : ArmAhead (t n) (t n) (stimAt r30 x n) :=
    armAhead_pass h n (by rw [hc.drains]; decide)
  have hearlier := drain_loopHead hl earlier
  refine ⟨mid, handled, ⟨drain_armAhead hl hahead (Nat.le_refl _) hmid, hle⟩,
    ⟨Nat.le_trans (timed_le hmid) hle, hhi, hnow⟩, hearlier, fun harmed => ?_⟩
  have hnext : stimAt r30 x (n + 1) = (stimAt r30 x n).iterate (x n) := rfl
  rw [hnext, iterate_split hc.drains hc.received]
  exact drain_armed (serve_loopHead hearlier r) harmed hc.kept

theorem arms_on_time (r30 : BitVec 32) (h : Paced t x) : ArmsOnTime r30 t x := by
  intro n earlier r later hc
  obtain ⟨-, handled, -, ⟨hlo, hhi, hnow⟩, hl, hstays⟩ := hc.handled h
  obtain ⟨-, hok⟩ := answered_iff.mp hc.answered
  obtain ⟨hticks, a, ha, hahead⟩ := arm_future hnow hok
  have harmed : Armed a ((earlier.foldl Stim.serve (stimAt r30 x n)).serve r) := by
    rw [serve_answered hc.answered]
    have hmode : (abzArm r.request r.now (earlier.foldl Stim.serve (stimAt r30 x n))).1.armedMode =
        .abz := by
      rw [(abzArm_ok hok).2]
    obtain ⟨hkeepMode, hkeepTicks⟩ := startPending_armed
      (abzArm r.request r.now (earlier.foldl Stim.serve (stimAt r30 x n))).1 r.startNow
    exact ⟨hkeepMode.trans hmode, hkeepTicks.trans (hticks.trans ha)⟩
  refine ⟨handled, a, ⟨⟨hlo, hhi⟩, hnow, ha, hahead⟩, fun j hj hwait => ?_⟩
  obtain ⟨d, rfl⟩ : ∃ d, j = n + 1 + d := ⟨j - (n + 1), by omega⟩
  have hwaits := armed_waits h ((hstays harmed.mode).armed harmed) (by omega) (by omega) (d := d)
    (fun k hk => ⟨Or.inl (hwait (n + 1 + k) (by omega) (by omega)).1,
      (hwait (n + 1 + k) (by omega) (by omega)).2⟩)
  exact hwaits.2

theorem schedule_future {s : Stim} {request : Msg} {now : BitVec 32} {handled : Nat}
    (hnow : now = BitVec.ofNat 32 handled) (hok : (abzSchedule request now s).2.flags = statusOk) :
    ((abzSchedule request now s).1.updatePending = true ∧
        (abzSchedule request now s).1.updateApplyTicks = request.arg0 ∧
        (abzSchedule request now s).1.armedApplyTicks = s.armedApplyTicks) ∧
      (∃ u, request.arg0 = BitVec.ofNat 32 u ∧ handled < u ∧ u < handled + 2 ^ 31) ∧
      timeIsFuture s.armedApplyTicks request.arg0 = true := by
  have hr := ok_of_ite_reject (by decide) hok
  rw [abzSchedule, if_neg hr] at hok
  have ha := ok_of_ite_reject (by decide) hok
  rw [if_neg ha] at hok
  have hp := ok_of_ite_reject (by decide) hok
  rw [if_neg hp] at hok
  have hv := ok_of_ite_reject (by decide) hok
  rw [if_neg hv] at hok
  have ht := ok_of_ite_reject (by decide) hok
  rw [if_neg ht] at hok
  have hd := ok_of_ite_reject (by decide) hok
  rw [abzSchedule, if_neg hr, if_neg ha, if_neg hp, if_neg hv, if_neg ht, if_neg hd]
  refine ⟨⟨rfl, rfl, rfl⟩, ?_, ?_⟩
  · simp only [not_or, Bool.not_eq_true, Bool.not_eq_false'] at hv
    have hfuture := hv.2.1
    rw [timeIsFuture, decide_eq_true_iff, hnow] at hfuture
    exact future hfuture
  · simp only [not_or, Bool.not_eq_true, Bool.not_eq_false'] at hv
    exact hv.2.2

theorem lt_of_future {a u handled : Nat} (ha : a < handled + 2 ^ 31)
    (hu : handled < u ∧ u < handled + 2 ^ 31)
    (h : timeIsFuture (BitVec.ofNat 32 a) (BitVec.ofNat 32 u) = true) : a < u := by
  rcases Nat.lt_or_ge handled a with hlt | hge
  · have hdifference := toInt_difference (v := 31) (t := u) (d := a) (by omega) (by omega)
    rw [timeIsFuture, decide_eq_true_iff, hdifference] at h
    omega
  · omega

/-- An accepted ABZ_SCHEDULE leaves the start armed and queues its update for a later time. -/
theorem Accepted.scheduled {n : Nat} {earlier later : List Reception} {r : Reception}
    (h : Paced t x) (hc : Accepted .abzSchedule (stimAt r30 x n) (x n) r earlier later) :
    ∃ handled a u, Requests (t n) (t (n + 1)) r handled u ∧
      (t n < a ∧ a < t (n + 1) + 2 ^ 31 ∧ a < u) ∧
      Armed a (stimAt r30 x (n + 1)) ∧ Queued u (stimAt r30 x (n + 1)) := by
  obtain ⟨mid, handled, ⟨harmAhead, hmid⟩, ⟨hlo, hhi, hnow⟩, hl, hstays⟩ := hc.handled h
  obtain ⟨-, hok⟩ := answered_iff.mp hc.answered
  obtain ⟨⟨hpending, hupdate, hkept⟩, ⟨u, hu, hahead⟩, hfuture⟩ := schedule_future hnow hok
  obtain ⟨harmed, -, hmode, hstart⟩ := abzSchedule_ok hok
  obtain ⟨a, ha, hna, ham⟩ := harmAhead harmed
  rw [ha, hu] at hfuture
  have hau : a < u := lt_of_future (by omega) hahead hfuture
  have hserve : (earlier.foldl Stim.serve (stimAt r30 x n)).serve r =
      (abzSchedule r.request r.now (earlier.foldl Stim.serve (stimAt r30 x n))).1 := by
    have hnone := hstart.trans hl.start_none
    rw [serve_answered hc.answered, dispatch, Stim.startPending, hnone]
  have hkeeps := hstays (by rw [hserve, hmode, harmed])
  rw [hserve] at hkeeps
  exact ⟨handled, a, u, ⟨⟨hlo, hhi⟩, hnow, hu, hahead⟩, ⟨hna, by omega, hau⟩,
    hkeeps.armed ⟨hmode.trans harmed, hkept.trans ha⟩, hkeeps.queued ⟨hpending, hupdate.trans hu⟩⟩

theorem started_update (h : Paced t x) {m u : Nat}
    (hstarts : (stimAt r30 x m).branch (x m) = .armedStart) (hu : Queued u (stimAt r30 x m))
    (hlo : t m < u + 2 ^ 30) (hhi : u < t (m + 1) + 2 ^ 31) {d : Nat}
    (hwait : ∀ k, k < d → t (m + 1 + k) < u ∧
      ∀ r ∈ drained (stimAt r30 x (m + 1 + k)) (x (m + 1 + k)), ¬ Stops r) :
    (stimAt r30 x (m + 1 + d)).branch (x (m + 1 + d)) = .applyUpdate ↔ u ≤ t (m + 1 + d) := by
  have hiterate : stimAt r30 x (m + 1) = (stimAt r30 x m).iterate (x m) := rfl
  have hnext : stimAt r30 x (m + 1) = (stimAt r30 x m).armedStart (x m).now := by
    rw [hiterate, Stim.iterate, hstarts]
  apply update_waits h _ _ _ hlo hhi hwait
  · rw [hnext]
    rfl
  · rw [hnext]
    rfl
  · rw [hnext]
    exact ⟨hu.pending, hu.ticks⟩

theorem updates_on_time (r30 : BitVec 32) (h : Paced t x) : UpdatesOnTime r30 t x := by
  intro n earlier r later hc
  obtain ⟨handled, a, u, hrequests, ⟨hna, han, hau⟩, harm, hqueued⟩ := hc.scheduled h
  have hahead := hrequests.ahead.2
  have hhandled := hrequests.within.2
  refine ⟨handled, u, hrequests, fun m hm hstarts hwait => ?_⟩
  obtain ⟨d, rfl⟩ : ∃ d, m = n + 1 + d := ⟨m - (n + 1), by omega⟩
  have hwaits (k : Nat) (hk : k ≤ d) := armed_waits h harm hna han (d := k)
    (fun i hi => ⟨Or.inr (hwait (n + 1 + i) (by omega) (by omega)).1,
      (hwait (n + 1 + i) (by omega) (by omega)).2⟩)
  constructor
  · intro i hni him
    obtain ⟨k, rfl⟩ : ∃ k, i = n + 1 + k := ⟨i - (n + 1), by omega⟩
    rcases Nat.lt_or_ge k d with hlt | hge
    · obtain ⟨hnot, hcancel⟩ := hwait (n + 1 + k) hni (by omega)
      have hmode := ((hwaits k (by omega)).1.1.armed harm).mode
      exact ((armed_pass (stimAt_loopHead r30 x _) hmode _).2 hnot hcancel).1
    · have hkd : k = d := by omega
      rw [hkd, hstarts]
      decide
  · intro j hj hstop
    obtain ⟨e, rfl⟩ : ∃ e, j = n + 1 + d + 1 + e := ⟨j - (n + 1 + d + 1), by omega⟩
    obtain ⟨⟨hstill, hbefore⟩, -⟩ := hwaits d (Nat.le_refl d)
    have hgap := h.gap (n + d)
    have hlate : t (n + 1 + d) < u + 2 ^ 30 := by
      rw [show n + 1 + d = n + d + 1 by omega]
      omega
    have hlater : t (n + 1) ≤ t (n + 1 + d + 1) := monotone_nat_of_le_succ h.mono (by omega)
    apply started_update h hstarts (hstill.queued hqueued) hlate (by omega)
    exact fun k hk => hstop (n + 1 + d + 1 + k) (by omega) (by omega)

theorem deadlines_kept (r30 : BitVec 32) (h : Paced t x) : DeadlinesKept r30 t x := by
  intro n m u hbases hlo hhi base T hT d hu c j
  have hl := stimAt_loopHead r30 x n
  have hbased : Based m u (stimAt r30 x (n + 1)) := bases_based hl hbases (h.reading n)
  have hpos : 0 < T := ticks_pos (stimAt_loopHead r30 x (n + 1)) m
  obtain ⟨hruns, hpass⟩ := runs_timer ⟨hpos, hT⟩ h hlo hhi hbased.runs hu
  have hexact : c.Exact T u := run_exact T u (fun k => t (n + 1 + k)) d
  refine ⟨hruns, fun hlate => ⟨hexact hlate, fun hd => ?_⟩, fun hundisturbed => ?_⟩
  · obtain ⟨k, rfl⟩ : ∃ k, d = k + 1 := ⟨d - 1, by omega⟩
    have hahead := run_ahead hpos hhi (fun k => h.mono (n + 1 + k)) k
    rw [show n + (k + 1) = n + 1 + k by omega]
    exact hexact.taken hahead hlate
  · obtain ⟨hiff, hnext⟩ := hpass hundisturbed
    refine ⟨hiff, fun hlate => ?_⟩
    have hread : timerAt T u t n (d + 1) = ⟨t j + T, c.taken + 1, c.late + 1⟩ := by
      change Timer.read T c (t j) = _
      rw [Timer.read, if_neg (by omega), if_pos hlate]
    rw [hread] at hnext
    rw [hnext.ticker, hruns.ticker]
    refine ⟨?_, rfl⟩
    change base.late + BitVec.ofNat 32 (c.late + 1) = base.late + BitVec.ofNat 32 c.late + 1
    rw [BitVec.ofNat_add, BitVec.add_assoc]
    rfl

/-- In every run whose readings are less than 2 ^ 30 ticks apart. -/
theorem deadlines_wrap_safe (r30 : BitVec 32) (t : Nat → Nat) (x : Nat → Iteration)
    (h : Paced t x) : ArmsOnTime r30 t x ∧ UpdatesOnTime r30 t x ∧ DeadlinesKept r30 t x :=
  ⟨arms_on_time r30 h, updates_on_time r30 h, deadlines_kept r30 h⟩

end Runs

section Samples

def scheduledTimes (n : Nat) : Nat := if n = 0 then 0 else if n = 1 then 1000 else 5000

theorem scheduledRun_paced : Paced scheduledTimes scheduledRun where
  reading n := by
    rcases n with _ | _ | n <;> rfl
  mono n := by
    rcases n with _ | _ | n <;> simp [scheduledTimes]
  gap n := by
    rcases n with _ | _ | n <;> simp [scheduledTimes]
  handled n := by
    rcases n with _ | _ | n
    · exact ⟨10, 10, by decide, by decide, rfl, rfl, 20, 20, by decide, by decide, rfl, rfl,
        (by decide : 20 ≤ scheduledTimes 1)⟩
    · exact (by decide : scheduledTimes 1 ≤ scheduledTimes 2)
    · exact Nat.le_refl 5000

/-- The run of an ABZ_ARM for 1000 starts at the reading of 1000, and its update for 5000 is
applied at the reading of 5000. -/
theorem deadlines_wrap_safe_scheduled :
    (stimAt 0 scheduledRun 1).branch (scheduledRun 1) = .armedStart ∧
      (stimAt 0 scheduledRun 2).branch (scheduledRun 2) = .applyUpdate := by
  obtain ⟨harms, hupdates, -⟩ := deadlines_wrap_safe 0 scheduledTimes scheduledRun scheduledRun_paced
  have hcancel : ∀ r' ∈ [sampleRequest .abzSchedule 5000 500 0 1 20], ¬ Cancels r' := by
    intro r' hr'
    rw [List.mem_singleton] at hr'
    subst hr'
    rintro (hc | hc) <;> exact Command.noConfusion (Except.ok.inj hc)
  have hstarts : (stimAt 0 scheduledRun 1).branch (scheduledRun 1) = .armedStart := by
    obtain ⟨handled, a, hrequest, heffect⟩ := harms 0 [] (sampleRequest .abzArm 1000 0 0 0 10)
      [sampleRequest .abzSchedule 5000 500 0 1 20]
      ⟨by decide +kernel, rfl, by decide +kernel, hcancel⟩
    have hhandled : handled ≤ 1000 := hrequest.within.2
    have hahead := hrequest.ahead.2
    have ha : a % 2 ^ 32 = 1000 := (congrArg BitVec.toNat hrequest.ticks).symm
    apply (heffect 1 (by decide) (fun i hi hlt => by omega)).mpr
    change a ≤ 1000
    omega
  refine ⟨hstarts, ?_⟩
  obtain ⟨handled, u, hrequest, heffect⟩ := hupdates 0 [sampleRequest .abzArm 1000 0 0 0 10]
    (sampleRequest .abzSchedule 5000 500 0 1 20) []
    ⟨by decide +kernel, rfl, by decide +kernel, fun r' hr' => absurd hr' List.not_mem_nil⟩
  have hhandled : handled ≤ 1000 := hrequest.within.2
  have hahead := hrequest.ahead.2
  have hu : u % 2 ^ 32 = 5000 := (congrArg BitVec.toNat hrequest.ticks).symm
  obtain ⟨-, hafter⟩ := heffect 1 (by decide) hstarts (fun i hi hlt => by omega)
  apply (hafter 2 (by decide) (fun i hi hlt => by omega)).mpr
  change u ≤ 5000
  omega

/-- An arm for 1000 and a change of direction for 1100, both passed by the second reading. -/
def passedRun (n : Nat) : Iteration :=
  match n with
  | 0 =>
      ⟨0, true, [sampleRequest .abzArm 1000 0 0 0 10, sampleRequest .abzSchedule 1100 0 1 2 20]⟩
  | 1 => ⟨2000, false, []⟩
  | 2 => ⟨2010, false, []⟩
  | _ => ⟨202005, false, []⟩

def passedTimes (n : Nat) : Nat :=
  if n = 0 then 0 else if n = 1 then 2000 else if n = 2 then 2010 else 202005

theorem passedRun_paced : Paced passedTimes passedRun where
  reading n := by
    rcases n with _ | _ | _ | n <;> rfl
  mono n := by
    rcases n with _ | _ | _ | n <;> simp [passedTimes]
  gap n := by
    rcases n with _ | _ | _ | n <;> simp [passedTimes]
  handled n := by
    rcases n with _ | _ | _ | n
    · exact ⟨10, 10, by decide, by decide, rfl, rfl, 20, 20, by decide, by decide, rfl, rfl,
        (by decide : 20 ≤ passedTimes 1)⟩
    · exact (by decide : passedTimes 1 ≤ passedTimes 2)
    · exact (by decide : passedTimes 2 ≤ passedTimes 3)
    · exact Nat.le_refl 202005

/-- The update for 1100 does not take effect at the first reading at or after it, that of 2000,
which starts the run, but at the next. It keeps the period of 200000, and yet the deadline 202000
of the run passes without a transition. -/
theorem update_waits_and_rebases :
    Paced passedTimes passedRun ∧
      Answered ((stimAt 0 passedRun 0).serve (sampleRequest .abzArm 1000 0 0 0 10))
        (sampleRequest .abzSchedule 1100 0 1 2 20) .abzSchedule ∧
      (1100 ≤ passedTimes 1 ∧ (stimAt 0 passedRun 1).branch (passedRun 1) = .armedStart ∧
        (stimAt 0 passedRun 2).branch (passedRun 2) = .applyUpdate) ∧
      ((stimAt 0 passedRun 2).nextTransitionTicks = BitVec.ofNat 32 (passedTimes 1 + 200000) ∧
        (∀ n ∈ [2, 3, 4], (stimAt 0 passedRun n).transitionTicks = 200000) ∧
        passedTimes 1 + 200000 ≤ passedTimes 3 ∧
        (stimAt 0 passedRun 3).branch (passedRun 3) = .idle) :=
  ⟨passedRun_paced, by decide +kernel, ⟨by decide, by decide +kernel, by decide +kernel⟩,
    by decide +kernel, by decide +kernel, by decide, by decide +kernel⟩

end Samples

end HilLab.Pru.StimulusDeadlines
