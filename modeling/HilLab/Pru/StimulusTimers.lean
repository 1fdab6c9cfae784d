import HilLab.Lib.Deadline
import HilLab.Pru.StimulusStop

namespace HilLab.Pru.StimulusTimers

open Lib.Clocked Lib.Deadline Protocol Stimulus StimulusInvariant StimulusStop

section Tickers

structure Ticker where
  next : BitVec 32
  ticks : BitVec 32
  count : BitVec 32
  late : BitVec 32

def Ticker.fire (k : Ticker) (now : BitVec 32) : Ticker :=
  let late := decide (k.ticks ≤ now - k.next)
  { next := if late then now + k.ticks else k.next + k.ticks
    ticks := k.ticks
    count := k.count + 1
    late := if late then k.late + 1 else k.late }

def ticker (m : StimMode) (s : Stim) : Ticker :=
  if m = .hall then
    ⟨s.hallNextTransitionTicks, s.hallTransitionTicks, s.hallTransitionCount,
      s.hallLateTransitionCount⟩
  else ⟨s.nextTransitionTicks, s.transitionTicks, s.transitionCount, s.lateTransitionCount⟩

def fires (m : StimMode) : Branch := if m = .hall then .hallTransition else .abzTransition

structure Runs (m : StimMode) (k : Ticker) (s : Stim) : Prop where
  running : s.running = true
  mode : s.activeMode = m
  ticker : ticker m s = k

variable {m : StimMode} {k : Ticker} {s : Stim}

theorem Runs.mode_cases (h : Runs m k s) (hl : LoopHead s) : m = .abz ∨ m = .hall := by
  have hmode := hl.running_iff.mp h.running
  rw [h.mode] at hmode
  exact hmode

theorem Runs.not_armed (h : Runs m k s) (hl : LoopHead s) : s.armedMode = .none := by
  by_contra hn
  have hstopped := hl.armed_idle hn
  rw [h.running] at hstopped
  cases hstopped

theorem Runs.fire (h : Runs m k s) {i : Iteration} (hb : s.branch i = fires m)
    (hm : m = .abz ∨ m = .hall) : Runs m (k.fire i.now) (s.iterate i) := by
  obtain ⟨hr, hmode, rfl⟩ := h
  rw [Stim.iterate, hb]
  rcases hm with rfl | rfl
  · exact ⟨hr, hmode, rfl⟩
  · exact ⟨hr, hmode, rfl⟩

theorem Runs.branch_iff (h : Runs m k s) (hl : LoopHead s) {i : Iteration}
    (hb : s.branch i ≠ .applyUpdate) : s.branch i = fires m ↔ timeDue i.now k.next = true := by
  have hnone := h.not_armed hl
  have hm := h.mode_cases hl
  obtain ⟨hr, hmode, rfl⟩ := h
  have harmed : ¬ (s.armedMode = .abz ∧ timeDue i.now s.armedApplyTicks = true) := by
    rw [hnone]
    exact fun ha => StimMode.noConfusion ha.1
  have hbranch : s.branch i = _ := if_neg harmed
  by_cases hupdate : s.running = true ∧ s.activeMode = .abz ∧ s.updatePending = true ∧
      timeDue i.now s.updateApplyTicks = true
  · exact absurd (hbranch.trans (if_pos hupdate)) hb
  · rw [if_neg hupdate] at hbranch
    rw [hbranch]
    rcases hm with rfl | rfl
    · change _ = Branch.abzTransition ↔ timeDue i.now s.nextTransitionTicks = true
      rw [hr, hmode]
      cases timeDue i.now s.nextTransitionTicks <;> cases i.hostInt <;> simp
    · change _ = Branch.hallTransition ↔ timeDue i.now s.hallNextTransitionTicks = true
      rw [hr, hmode]
      cases timeDue i.now s.hallNextTransitionTicks <;> cases i.hostInt <;> simp

end Tickers

section Requests

/-- The buffer holds a request that ends a run. -/
def Stops (r : Reception) : Prop := ∃ c, accept r.request r.len = .ok c ∧ isStop c = true

variable {m : StimMode} {k : Ticker} {s t : Stim}

theorem Runs.steered (h : Runs m k s) (hst : Steered s t) : Runs m k t := by
  obtain ⟨_, _, rfl⟩ := hst
  exact ⟨h.running, h.mode, h.ticker⟩

theorem drain_unstopped (hl : LoopHead s) (hr : s.running = true) {received : List Reception}
    (h : ∀ r ∈ received, ¬ Stops r) : Steered s (received.foldl Stim.serve s) := by
  refine drain_running hl hr (fun v hv => ?_)
  rintro ⟨command, hc, hans⟩
  exact h v.2 (visits_received hv) ⟨command, hans.1, hc⟩

def drained (s : Stim) (i : Iteration) : List Reception :=
  if s.branch i = .drain then i.received else []

/-- No update is applied in the pass and no stop handled. -/
def Undisturbed (s : Stim) (i : Iteration) : Prop :=
  s.branch i ≠ .applyUpdate ∧ ∀ r ∈ drained s i, ¬ Stops r

theorem iterate_drained {i : Iteration} (h : s.branch i = .drain ∨ s.branch i = .idle) :
    s.iterate i = (drained s i).foldl Stim.serve s := by
  rw [Stim.iterate, drained]
  rcases h with h | h
  · rw [h]
    rfl
  · rw [h]
    rfl

theorem Runs.iterate (h : Runs m k s) (hl : LoopHead s) {i : Iteration} (hu : Undisturbed s i) :
    Runs m (if timeDue i.now k.next then k.fire i.now else k) (s.iterate i) := by
  obtain ⟨hupdate, hstop⟩ := hu
  have hiff := h.branch_iff hl hupdate
  have hm := h.mode_cases hl
  cases hdue : timeDue i.now k.next with
  | true => exact h.fire (hiff.mpr hdue) hm
  | false =>
      have hguard := branch_guard s i
      have hnot : s.branch i ≠ fires m := fun hb => by
        rw [hiff, hdue] at hb
        cases hb
      have hrest : s.branch i = .drain ∨ s.branch i = .idle := by
        cases hb : s.branch i with
        | drain => exact Or.inl rfl
        | idle => exact Or.inr rfl
        | applyUpdate => exact absurd hb hupdate
        | armedStart =>
            rw [hb, h.not_armed hl] at hguard
            exact StimMode.noConfusion hguard.1
        | abzTransition =>
            rw [hb, h.mode] at hguard
            rw [hb, hguard.2] at hnot
            exact absurd rfl hnot
        | hallTransition =>
            rw [hb, h.mode] at hguard
            rw [hb, hguard.2] at hnot
            exact absurd rfl hnot
      rw [iterate_drained hrest]
      exact h.steered (drain_unstopped hl h.running hstop)

end Requests

section Times

theorem timeDue_iff {t d : Nat} (hlate : t < d + 2 ^ 31) (hearly : d ≤ t + 2 ^ 31) :
    timeDue (BitVec.ofNat 32 t) (BitVec.ofNat 32 d) = true ↔ d ≤ t := by
  rw [timeDue, decide_eq_true_iff]
  exact due_iff hlate hearly

/-- The buffers are handled one after the other between two times. -/
def Timed : Nat → List Reception → Nat → Prop
  | lo, [], hi => lo ≤ hi
  | lo, r :: rs, hi => ∃ handled started, lo ≤ handled ∧ handled ≤ started ∧
      r.now = BitVec.ofNat 32 handled ∧ r.startNow = BitVec.ofNat 32 started ∧ Timed started rs hi

/-- The ticks that the passes read are those of a time that goes on by less than 2 ^ 30 between
two readings of the loop, and the buffers of a pass are handled before the next one. -/
structure Paced (t : Nat → Nat) (x : Nat → Iteration) : Prop where
  reading : ∀ n, (x n).now = BitVec.ofNat 32 (t n)
  mono : ∀ n, t n ≤ t (n + 1)
  gap : ∀ n, t (n + 1) < t n + 2 ^ 30
  handled : ∀ n, Timed (t n) (x n).received (t (n + 1))

/-- The ticker of a timer whose counters started from those of another ticker. -/
def shown (T : Nat) (base : Ticker) (c : Timer) : Ticker :=
  { next := BitVec.ofNat 32 c.deadline
    ticks := BitVec.ofNat 32 T
    count := base.count + BitVec.ofNat 32 c.taken
    late := base.late + BitVec.ofNat 32 c.late }

variable {T t : Nat} {base : Ticker} {c : Timer} {m : StimMode} {s : Stim}

theorem fire_shown (h : c.deadline ≤ t) (hlt : t < c.deadline + 2 ^ 32) (hT : T < 2 ^ 32) :
    (shown T base c).fire (BitVec.ofNat 32 t) = shown T base (c.read T t) := by
  have hlateness := elapsed h hlt
  have hlate : (BitVec.ofNat 32 T ≤ BitVec.ofNat 32 t - BitVec.ofNat 32 c.deadline) ↔
      c.deadline + T ≤ t := by
    rw [BitVec.le_def, hlateness, BitVec.toNat_ofNat, Nat.mod_eq_of_lt hT]
    omega
  rw [Ticker.fire, Timer.read, if_neg (Nat.not_lt_of_le h)]
  simp only [shown, hlate]
  by_cases hanew : c.deadline + T ≤ t
  · simp only [hanew, decide_true, if_true, BitVec.ofNat_add, BitVec.add_assoc]
    rfl
  · simp only [hanew, decide_false, Bool.false_eq_true, if_false, BitVec.ofNat_add, BitVec.add_assoc]
    rfl

theorem Runs.reading (h : Runs m (shown T base c) s) (hl : LoopHead s) {i : Iteration} {lo : Nat}
    (hu : Undisturbed s i) (hT : T < 2 ^ 30) (hahead : c.Ahead T lo) (hlo : lo ≤ t)
    (hgap : t < lo + 2 ^ 30) (hnow : i.now = BitVec.ofNat 32 t) :
    (s.branch i = fires m ↔ c.deadline ≤ t) ∧ Runs m (shown T base (c.read T t)) (s.iterate i) := by
  obtain ⟨hlt, hle⟩ := hahead
  have hdue : timeDue i.now (shown T base c).next = true ↔ c.deadline ≤ t := by
    rw [hnow]
    exact timeDue_iff (by omega) (by omega)
  have hiterate := h.iterate hl hu
  refine ⟨(h.branch_iff hl hu.1).trans hdue, ?_⟩
  by_cases hcome : c.deadline ≤ t
  · rw [if_pos (hdue.mpr hcome), hnow, fire_shown hcome (by omega) (by omega)] at hiterate
    exact hiterate
  · rw [if_neg (fun hd => hcome (hdue.mp hd))] at hiterate
    rw [Timer.read, if_pos (Nat.lt_of_not_le hcome)]
    exact hiterate

variable {r30 : BitVec 32} {t : Nat → Nat} {x : Nat → Iteration}

/-- The timer of a run that starts in pass n at time s, after d more readings. -/
def timerAt (T s : Nat) (t : Nat → Nat) (n d : Nat) : Timer :=
  wave (Timer.read T) (.start T s) (fun k => t (n + 1 + k)) d

theorem timerAt_ahead (hT : 0 < T) (h : Paced t x) {n s : Nat} (hlo : t n ≤ s)
    (hs : s ≤ t (n + 1)) (d : Nat) :
    ∃ lo, (timerAt T s t n d).Ahead T lo ∧ lo ≤ t (n + 1 + d) ∧ t (n + 1 + d) < lo + 2 ^ 30 := by
  cases d with
  | zero =>
      have hgap : t (n + 1) < s + 2 ^ 30 :=
        Nat.lt_of_lt_of_le (h.gap n) (Nat.add_le_add_right hlo _)
      exact ⟨s, ⟨Nat.lt_add_of_pos_right hT, Nat.le_refl _⟩, hs, hgap⟩
  | succ d =>
      exact ⟨t (n + 1 + d), run_ahead hT hs (fun k => h.mono (n + 1 + k)) d, h.mono (n + 1 + d),
        h.gap (n + 1 + d)⟩

/-- The run of the firmware is the run of the timer. -/
theorem runs_timer (hT : 0 < T ∧ T < 2 ^ 30) (h : Paced t x) {n s : Nat} (hlo : t n ≤ s)
    (hs : s ≤ t (n + 1)) (hstart : Runs m (shown T base (.start T s)) (stimAt r30 x (n + 1)))
    {d : Nat} (hu : ∀ k, k < d → Undisturbed (stimAt r30 x (n + 1 + k)) (x (n + 1 + k))) :
    Runs m (shown T base (timerAt T s t n d)) (stimAt r30 x (n + 1 + d)) ∧
      (Undisturbed (stimAt r30 x (n + 1 + d)) (x (n + 1 + d)) →
        ((stimAt r30 x (n + 1 + d)).branch (x (n + 1 + d)) = fires m ↔
          (timerAt T s t n d).deadline ≤ t (n + 1 + d)) ∧
        Runs m (shown T base (timerAt T s t n (d + 1))) (stimAt r30 x (n + 1 + d + 1))) := by
  have hreading (d : Nat)
      (hruns : Runs m (shown T base (timerAt T s t n d)) (stimAt r30 x (n + 1 + d)))
      (hpass : Undisturbed (stimAt r30 x (n + 1 + d)) (x (n + 1 + d))) :
      ((stimAt r30 x (n + 1 + d)).branch (x (n + 1 + d)) = fires m ↔
          (timerAt T s t n d).deadline ≤ t (n + 1 + d)) ∧
        Runs m (shown T base (timerAt T s t n (d + 1))) (stimAt r30 x (n + 1 + d + 1)) := by
    obtain ⟨lo, hahead, hle, hgap⟩ := timerAt_ahead hT.1 h hlo hs d
    exact hruns.reading (stimAt_loopHead r30 x _) hpass hT.2 hahead hle hgap (h.reading _)
  have hruns : Runs m (shown T base (timerAt T s t n d)) (stimAt r30 x (n + 1 + d)) := by
    induction d with
    | zero => exact hstart
    | succ d ih =>
        exact (hreading d (ih (fun k hk => hu k (Nat.lt_succ_of_lt hk))) (hu d (Nat.lt_succ_self d))).2
  exact ⟨hruns, hreading d hruns⟩

end Times

end HilLab.Pru.StimulusTimers
