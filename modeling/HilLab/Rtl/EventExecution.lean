import HilLab.Rtl.EventDelivery
import Mathlib.Order.Bounds.Basic

namespace HilLab.Rtl.EventExecution

open Lib.Clocked EventFifo ControlPlane DioEventScheduler EventPipeline EventDelivery

variable {D W I : Nat}

/-- One executed event: the cycle of its push, the cycle it fired in, and what
it did. -/
structure Execution (W : Nat) where
  pushed : Nat
  fired : Nat
  action : Action W
deriving DecidableEq

/-- The cycle f is the first from the cycle start on whose timestamp has
reached the target. -/
def FirstDue (ts : Nat → BitVec 64) (start : Nat) (target : BitVec 64) (f : Nat) : Prop :=
  IsLeast {c | start ≤ c ∧ target ≤ ts c} f

/-- The firing rule: event k fires in the first due cycle from
max(p_k, f_(k-1)) + 3 on. The argument last is the firing cycle before the
list, or the start of the run. -/
def Timely (ts : Nat → BitVec 64) : Nat → List (Execution W) → Prop
  | _, [] => True
  | last, e :: es =>
      FirstDue ts (max e.pushed last + 3) e.action.timestamp e.fired ∧ Timely ts e.fired es

def lastFired (last : Nat) : List (Execution W) → Nat
  | [] => last
  | e :: es => lastFired e.fired es

theorem lastFired_append (last : Nat) (es : List (Execution W)) (e : Execution W) :
    lastFired last (es ++ [e]) = e.fired := by
  induction es generalizing last with
  | nil => rfl
  | cons d es ih => exact ih d.fired

theorem timely_append (ts : Nat → BitVec 64) (last : Nat) (es : List (Execution W))
    (e : Execution W) :
    Timely ts last (es ++ [e]) ↔
      Timely ts last es ∧
        FirstDue ts (max e.pushed (lastFired last es) + 3) e.action.timestamp e.fired := by
  induction es generalizing last with
  | nil => simp [Timely, lastFired]
  | cons d es ih => simp [Timely, lastFired, ih, and_assoc]

/-- The cycle from which on the next waiting event may fire is b + 3 with b its
ready cycle; before that the dispatcher and the arm pulse each take a cycle. -/
def Phase (n last : Nat) (p : Pipeline D W I) : List (Nat × Action W) → Prop
  | [] => p.dispatch.armPulse = false ∧ p.sched.armed = false ∧ p.dispatch.inflight = false
  | head :: _ =>
      let b := max head.1 last
      b < n ∧ p.dispatch.armPulse = decide (n = b + 2) ∧ p.sched.armed = decide (b + 3 ≤ n) ∧
        p.dispatch.inflight = decide (n = b + 2 ∨ n = b + 3)

/-- In cycle n the pipeline holds the waiting events, pushed in the cycles
given with them, after an event fired in the cycle last. -/
structure Tracks (n last : Nat) (waiting : List (Nat × Action W)) (p : Pipeline D W I) : Prop where
  valid : p.Valid
  flight : p.inFlight = waiting.map Prod.snd
  pushed_lt : ∀ e ∈ waiting, e.1 < n
  last_le : last ≤ n
  phase : Phase n last p waiting
  done : p.sched.eventDonePulse = true → n ≤ last + 1

theorem scheduled_eq {n last : Nat} {head : Nat × Action W} {rest : List (Nat × Action W)}
    {p : Pipeline D W I} (h : Tracks n last (head :: rest) p) (ha : p.sched.armed = true) :
    (⟨p.sched.pendingTimestamp, p.sched.pendingMask, p.sched.pendingValue⟩ : Action W) =
      head.2 := by
  have hf := h.flight
  simp only [inFlight_eq h.valid, Pipeline.scheduled, ha, if_true, List.map_cons,
    List.cons_append, List.nil_append] at hf
  exact (List.cons.inj hf).1

theorem applied_eq {n last : Nat} {waiting : List (Nat × Action W)} {p : Pipeline D W I}
    {i : PipeInput W I} (h : Tracks n last waiting p) (hi : i.hilActive = true) :
    p.applied i =
      match waiting with
      | [] => []
      | head :: _ =>
          if max head.1 last + 3 ≤ n ∧ head.2.timestamp ≤ i.timestamp then [head.2] else [] := by
  have hf : (p.schedInput i).forceSafe = false := by simp [Pipeline.schedInput, hi]
  cases waiting with
  | nil =>
      have harmed : p.sched.armed = false := h.phase.2.1
      simp [Pipeline.applied, Scheduler.fires, Scheduler.due, harmed]
  | cons head rest =>
      have harmed : p.sched.armed = decide (max head.1 last + 3 ≤ n) := h.phase.2.2.1
      by_cases hn : max head.1 last + 3 ≤ n
      · have ha : p.sched.armed = true := by simp [harmed, hn]
        have hs := scheduled_eq h ha
        have hts : p.sched.pendingTimestamp = head.2.timestamp := congrArg Action.timestamp hs
        have hdue : p.sched.fires (p.schedInput i) = decide (head.2.timestamp ≤ i.timestamp) := by
          rw [Scheduler.fires, Scheduler.due, hf, ha, hts]
          rfl
        simp only [Pipeline.applied, hdue, hs, hn, true_and, decide_eq_true_eq]
      · have ha : p.sched.armed = false := by simp [harmed, hn]
        simp [Pipeline.applied, Scheduler.fires, Scheduler.due, ha, hn]

theorem step_armPulse (p : Pipeline D W I) (i : PipeInput W I) :
    (p.step i).dispatch.armPulse = p.loads i := by
  cases h : p.loads i with
  | true => simp only [Pipeline.step, dispatch_loads _ h]
  | false => simp only [Pipeline.step, dispatch_rests _ h]

theorem step_inflight (p : Pipeline D W I) {i : PipeInput W I} (hs : i.forceSafe = false) :
    (p.step i).dispatch.inflight =
      (p.loads i ||
        p.dispatch.inflight && !(p.sched.armed || p.sched.eventDonePulse)) := by
  cases h : p.loads i with
  | true => simp only [Pipeline.step, dispatch_loads _ h, Bool.true_or]
  | false =>
      simp only [Pipeline.step, dispatch_rests _ h]
      simp [hs]

theorem step_armed_of_waits {p : Pipeline D W I} {i : PipeInput W I} (hi : i.hilActive = true)
    (ha : p.applied i = []) :
    (p.step i).sched.armed = (p.sched.armed || p.dispatch.armPulse) ∧
      (p.step i).sched.eventDonePulse = false := by
  have hf : (p.schedInput i).forceSafe = false := by simp [Pipeline.schedInput, hi]
  have hfire : p.sched.fires (p.schedInput i) = false := by
    cases h : p.sched.fires (p.schedInput i) with
    | false => rfl
    | true => simp [Pipeline.applied, h] at ha
  have harm : (p.schedInput i).arm = p.dispatch.armPulse := rfl
  rw [Pipeline.step, step_waits hf hfire, Scheduler.takeArm, harm]
  cases p.dispatch.armPulse <;> simp

theorem step_armed_of_fires {p : Pipeline D W I} {i : PipeInput W I} (ha : p.applied i ≠ []) :
    p.sched.armed = true ∧ (p.step i).sched.armed = false := by
  have hfire : p.sched.fires (p.schedInput i) = true := by
    cases h : p.sched.fires (p.schedInput i) with
    | true => rfl
    | false => simp [Pipeline.applied, h] at ha
  refine ⟨?_, (step_fires hfire).2.1⟩
  simp only [Scheduler.fires, Scheduler.due, Bool.and_eq_true] at hfire
  exact hfire.2.1

theorem active_iff {i : PipeInput W I} :
    i.hilActive = true ↔ i.hilEnable = true ∧ i.forceSafe = false := by
  simp [PipeInput.hilActive]

theorem empty_of_tracks {n last : Nat} {waiting : List (Nat × Action W)} {p : Pipeline D W I}
    (h : Tracks n last waiting p) (ha : p.sched.armed = false) :
    p.fifo.empty = waiting.isEmpty := by
  have hf := h.flight
  simp only [inFlight_eq h.valid, Pipeline.scheduled, ha, Bool.false_eq_true, if_false,
    List.nil_append] at hf
  cases waiting with
  | nil => exact empty_iff.mpr (List.map_eq_nil_iff.mp hf)
  | cons head rest =>
      cases he : p.fifo.empty with
      | false => rfl
      | true => simp [empty_iff.mp he] at hf

theorem loads_eq {n last : Nat} {waiting : List (Nat × Action W)} {p : Pipeline D W I}
    {i : PipeInput W I} (h : Tracks n last waiting p) (hs : i.forceSafe = false) :
    p.loads i =
      match waiting with
      | [] => false
      | head :: _ => decide (n = max head.1 last + 1) := by
  cases waiting with
  | nil =>
      have he := empty_of_tracks h h.phase.2.1
      simp [Pipeline.loads, he]
  | cons head rest =>
      obtain ⟨hlt, _, harmed, hin⟩ := h.phase
      by_cases hn : n = max head.1 last + 1
      · have ha : p.sched.armed = false := by rw [harmed]; simp; omega
        have hfl : p.dispatch.inflight = false := by rw [hin]; simp; omega
        have he := empty_of_tracks h ha
        simp [Pipeline.loads, hs, hfl, ha, he, hn]
      · have hbusy : p.dispatch.inflight = true ∨ p.sched.armed = true := by
          rw [hin, harmed]
          simp only [decide_eq_true_eq]
          omega
        rcases hbusy with hb | hb <;> simp [Pipeline.loads, hb, hn]

section Step

variable {n last : Nat} {waiting : List (Nat × Action W)} {p : Pipeline D W I} {i : PipeInput W I}

def stamp (n : Nat) (es : List (Action W)) : List (Nat × Action W) := es.map (fun a => (n, a))

theorem stamp_map_snd (n : Nat) (es : List (Action W)) : (stamp n es).map Prod.snd = es := by
  simp [stamp]

theorem stamp_fst {n : Nat} {es : List (Action W)} {e : Nat × Action W} (h : e ∈ stamp n es) :
    e.1 = n := by
  obtain ⟨a, _, rfl⟩ := List.mem_map.mp h
  rfl

theorem phase_waits (h : Tracks n last waiting p) (hi : i.hilActive = true)
    (ha : p.applied i = []) :
    Phase (n + 1) last (p.step i) (waiting ++ stamp n (p.accepted i)) := by
  obtain ⟨_, hs⟩ := active_iff.mp hi
  have harmed := (step_armed_of_waits hi ha).1
  have hloads := loads_eq h hs
  have hpulse := step_armPulse p i
  have hin := step_inflight p hs
  have hlast := h.last_le
  cases waiting with
  | nil =>
      obtain ⟨h1, h2, h3⟩ := h.phase
      simp only [h1, h2, h3, hloads] at harmed hpulse hin
      cases hacc : stamp n (p.accepted i) with
      | nil => exact ⟨hpulse, harmed, hin⟩
      | cons head rest =>
          have hb : max head.1 last = n := by
            have hfst : head.1 = n := stamp_fst (by rw [hacc]; exact List.mem_cons_self)
            omega
          simp only [List.nil_append, Phase, hb, hpulse, harmed, hin]
          refine ⟨by omega, ?_, ?_, ?_⟩ <;> simp
  | cons head rest =>
      obtain ⟨hlt, h1, h2, h3⟩ := h.phase
      have hdone : n = max head.1 last + 2 → p.sched.eventDonePulse = false := by
        intro hn
        cases hd : p.sched.eventDonePulse with
        | false => rfl
        | true =>
            have hle := h.done hd
            omega
      simp only [h1, h2, h3, hloads] at harmed hpulse hin
      refine ⟨by omega, ?_, ?_, ?_⟩
      · rw [hpulse, decide_eq_decide]
        omega
      · rw [harmed, ← Bool.decide_or, decide_eq_decide]
        omega
      · rw [hin]
        by_cases hn : n = max head.1 last + 2
        · simp [hn, hdone hn]
        · by_cases hn' : n = max head.1 last + 1
          · simp [hn']
          · simp [hn, hn']
            omega

theorem tracks_waits (hD : D < 65536) (h : Tracks n last waiting p) (hi : i.hilActive = true)
    (ha : p.applied i = []) :
    Tracks (n + 1) last (waiting ++ stamp n (p.accepted i)) (p.step i) := by
  obtain ⟨he, hs⟩ := active_iff.mp hi
  have hflow := step_conserves hD h.valid hs (by simp [drops, hs, he])
  refine ⟨step_valid hD h.valid i, ?_, ?_, ?_, phase_waits h hi ha, ?_⟩
  · rw [List.map_append, stamp_map_snd, ← h.flight, hflow, ha, List.nil_append]
  · intro e hmem
    rcases List.mem_append.mp hmem with hw | hw
    · exact Nat.lt_succ_of_lt (h.pushed_lt e hw)
    · rw [stamp_fst hw]
      exact Nat.lt_succ_self n
  · exact Nat.le_succ_of_le h.last_le
  · intro hd
    rw [(step_armed_of_waits hi ha).2] at hd
    cases hd

theorem tracks_fires {head : Nat × Action W} {rest : List (Nat × Action W)} (hD : D < 65536)
    (h : Tracks n last (head :: rest) p) (hi : i.hilActive = true)
    (ha : p.applied i = [head.2]) :
    Tracks (n + 1) n (rest ++ stamp n (p.accepted i)) (p.step i) := by
  obtain ⟨he, hs⟩ := active_iff.mp hi
  have hflow := step_conserves hD h.valid hs (by simp [drops, hs, he])
  have hfired := step_armed_of_fires (p := p) (i := i) (by simp [ha])
  have hidle : (p.step i).dispatch.armPulse = false ∧ (p.step i).dispatch.inflight = false := by
    have hl : p.loads i = false := by simp [Pipeline.loads, hfired.1]
    rw [step_armPulse, step_inflight p hs, hl, hfired.1]
    simp
  have hpushed : ∀ e ∈ rest ++ stamp n (p.accepted i), e.1 ≤ n := by
    intro e hmem
    rcases List.mem_append.mp hmem with hw | hw
    · exact Nat.le_of_lt (h.pushed_lt e (List.mem_cons_of_mem _ hw))
    · exact Nat.le_of_eq (stamp_fst hw)
  refine ⟨step_valid hD h.valid i, ?_, ?_, Nat.le_succ n, ?_, ?_⟩
  · rw [h.flight, ha, List.map_cons, List.cons_append, List.cons_append, List.nil_append] at hflow
    rw [List.map_append, stamp_map_snd]
    exact (List.cons.inj hflow).2.symm
  · intro e hmem
    exact Nat.lt_succ_of_le (hpushed e hmem)
  · cases hw : rest ++ stamp n (p.accepted i) with
    | nil => exact ⟨hidle.1, hfired.2, hidle.2⟩
    | cons next later =>
        have hle := hpushed next (by rw [hw]; exact List.mem_cons_self)
        have hb : max next.1 n = n := by omega
        simp only [Phase, hb, hidle.1, hidle.2, hfired.2]
        refine ⟨by omega, ?_, ?_, ?_⟩ <;> simp
  · intro _
    exact Nat.le_refl _

end Step

def NotDue (ts : Nat → BitVec 64) (n last : Nat) (waiting : List (Nat × Action W)) : Prop :=
  ∀ head ∈ waiting.head?, ∀ c, max head.1 last + 3 ≤ c → c < n → ¬ head.2.timestamp ≤ ts c

def Execution.push (e : Execution W) : Nat × Action W := (e.pushed, e.action)

def Execution.firing (e : Execution W) : Nat × Action W := (e.fired, e.action)

section Run

variable (p : Nat → Pipeline D W I) (x : Nat → PipeInput W I)

def pushes (s n : Nat) : List (Nat × Action W) :=
  between (fun k => stamp k ((p k).accepted (x k))) s n

def firings (s n : Nat) : List (Nat × Action W) :=
  between (fun k => stamp k ((p k).applied (x k))) s n

/-- The history of a run from cycle s: what was executed and what waits. -/
structure History (s n : Nat) (log : List (Execution W)) (waiting : List (Nat × Action W)) :
    Prop where
  pushed : pushes p x s n = log.map Execution.push ++ waiting
  fired : firings p x s n = log.map Execution.firing
  timely : Timely (fun k => (x k).timestamp) s log
  notDue : NotDue (fun k => (x k).timestamp) n (lastFired s log) waiting
  tracks : Tracks n (lastFired s log) waiting (p n)

variable {p x} {s n : Nat} {log : List (Execution W)} {waiting : List (Nat × Action W)}

theorem history_waits (hD : D < 65536) (hsn : s ≤ n) (h : History p x s n log waiting)
    (hp : p (n + 1) = (p n).step (x n)) (hi : (x n).hilActive = true)
    (ha : (p n).applied (x n) = []) :
    History p x s (n + 1) log (waiting ++ stamp n ((p n).accepted (x n))) := by
  refine ⟨?_, ?_, h.timely, ?_, ?_⟩
  · rw [pushes, between_succ _ hsn, ← pushes, h.pushed, List.append_assoc]
  · rw [firings, between_succ _ hsn, ← firings, h.fired, ha]
    exact List.append_nil _
  · intro head hhead c hc hcn
    cases waiting with
    | nil =>
        have hfst : head.1 = n := stamp_fst (List.mem_of_mem_head? hhead)
        omega
    | cons first rest =>
        rw [List.cons_append, List.head?_cons, Option.mem_some_iff] at hhead
        subst hhead
        by_cases hlt : c < n
        · exact h.notDue first rfl c hc hlt
        · have hcn : c = n := by omega
          have happ := applied_eq h.tracks hi
          intro hdue
          rw [hcn] at hc hdue
          simp [ha, hc, hdue] at happ
  · rw [hp]
    exact tracks_waits hD h.tracks hi ha

theorem history_fires {head : Nat × Action W} {rest : List (Nat × Action W)} (hD : D < 65536)
    (hsn : s ≤ n) (h : History p x s n log (head :: rest))
    (hp : p (n + 1) = (p n).step (x n)) (hi : (x n).hilActive = true)
    (hn : max head.1 (lastFired s log) + 3 ≤ n) (hdue : head.2.timestamp ≤ (x n).timestamp) :
    History p x s (n + 1) (log ++ [⟨head.1, n, head.2⟩])
      (rest ++ stamp n ((p n).accepted (x n))) := by
  have ha : (p n).applied (x n) = [head.2] := by
    have happ := applied_eq h.tracks hi
    simpa only [hn, hdue, and_self, if_true] using happ
  refine ⟨?_, ?_, ?_, ?_, ?_⟩
  · rw [pushes, between_succ _ hsn, ← pushes, h.pushed]
    simp [Execution.push]
  · rw [firings, between_succ _ hsn, ← firings, h.fired, ha]
    simp [Execution.firing, stamp]
  · refine (timely_append _ _ _ _).mpr ⟨h.timely, ⟨hn, hdue⟩, ?_⟩
    intro c hc
    by_contra hlt
    exact h.notDue head rfl c hc.1 (not_le.mp hlt) hc.2
  · intro next hnext c hc hcn
    rw [lastFired_append] at hc
    have hfired : max next.1 n + 3 ≤ c := hc
    omega
  · rw [hp, lastFired_append]
    exact tracks_fires hD h.tracks hi ha

theorem history_step (hD : D < 65536) (hsn : s ≤ n) (h : History p x s n log waiting)
    (hp : p (n + 1) = (p n).step (x n)) (hi : (x n).hilActive = true) :
    ∃ log' waiting', History p x s (n + 1) log' waiting' := by
  have happ := applied_eq h.tracks hi
  cases waiting with
  | nil => exact ⟨_, _, history_waits hD hsn h hp hi happ⟩
  | cons head rest =>
      by_cases hfire : max head.1 (lastFired s log) + 3 ≤ n ∧ head.2.timestamp ≤ (x n).timestamp
      · exact ⟨_, _, history_fires hD hsn h hp hi hfire.1 hfire.2⟩
      · exact ⟨_, _, history_waits hD hsn h hp hi (by simpa only [hfire, if_false] using happ)⟩

theorem history_start (hv : (p s).Valid) (he : (p s).fifo.empty = true)
    (ha : (p s).dispatch.armPulse = false) (hn : (p s).dispatch.inflight = false)
    (hs : (p s).sched.armed = false) : History p x s s [] [] := by
  refine ⟨between_self _ s, between_self _ s, trivial, ?_, ?_⟩
  · intro head hhead
    cases hhead
  · refine ⟨hv, ?_, ?_, Nat.le_refl s, ⟨ha, hs, hn⟩, fun _ => Nat.le_succ s⟩
    · simp [inFlight_eq hv, Pipeline.scheduled, hs, empty_iff.mp he]
    · intro e hmem
      cases hmem

/-- A run with HIL active from an idle pipeline has a history. -/
theorem history_run (hD : D < 65536) (h : History p x s s [] []) (hsn : s ≤ n)
    (hp : ∀ k, p (k + 1) = (p k).step (x k))
    (hi : ∀ k, s ≤ k → k < n → (x k).hilActive = true) :
    ∃ log waiting, History p x s n log waiting := by
  induction n, hsn using Nat.le_induction with
  | base => exact ⟨[], [], h⟩
  | succ n hsn ih =>
      obtain ⟨log, waiting, hlog⟩ := ih (fun k hk hkn => hi k hk (by omega))
      exact history_step hD hsn hlog (hp n) (hi n hsn (Nat.lt_succ_self n))

theorem mem_firings {k : Nat} {a : Action W} :
    (k, a) ∈ firings p x s n ↔ s ≤ k ∧ k < n ∧ a ∈ (p k).applied (x k) := by
  simp only [firings, mem_between, stamp, List.mem_map, Prod.mk.injEq]
  constructor
  · rintro ⟨m, hs, hn, b, hb, rfl, rfl⟩
    exact ⟨hs, hn, hb⟩
  · rintro ⟨hs, hn, ha⟩
    exact ⟨k, hs, hn, a, ha, rfl, rfl⟩

theorem applied_unique {k : Nat} {a : Action W} (ha : a ∈ (p k).applied (x k)) :
    (p k).applied (x k) = [a] := by
  rw [Pipeline.applied] at ha ⊢
  split
  · rename_i hfire
    rw [if_pos hfire] at ha
    rw [List.mem_singleton.mp ha]
  · rename_i hfire
    rw [if_neg hfire] at ha
    cases ha

end Run

section Core

open DigitalCore

variable {F : Nat} (c : Params F) (mem : Nat → Event W 16) (x : Nat → CoreInput)

def Idle (s : Core F W) : Prop :=
  s.control.fifo.empty = true ∧ s.control.dispatch.armPulse = false ∧
    s.control.dispatch.pop = false ∧ s.control.dispatch.inflight = false ∧ s.dio.armed = false

def hilEnableAt (n : Nat) : Bool := (coreAt (W := W) c mem x n).control.config.hilEnable

def timestampAt (n : Nat) : BitVec 64 := (coreAt (W := W) c mem x n).timestamp

def dioOutAt (n : Nat) : BitVec W := (coreAt c mem x n).dio.dioOut

/-- With HIL active from an idle state on, the accepted events are applied
exactly once and in push order, each at its first due cycle, and the outputs
change at no other time. -/
theorem executes_in_push_order (s n : Nat) (hsn : s ≤ n) (hidle : Idle (coreAt c mem x s))
    (hact : ∀ k, s ≤ k → k < n →
      hilEnableAt (W := W) c mem x k = true ∧ forceSafeAt (W := W) c mem x k = false) :
    ∃ (log : List (Execution W)) (waiting : List (Nat × Action W)),
      pushes (pipelineAt c mem x) (pipelineInputAt c mem x) s n =
        log.map Execution.push ++ waiting ∧
      firings (pipelineAt c mem x) (pipelineInputAt c mem x) s n = log.map Execution.firing ∧
      Timely (timestampAt (W := W) c mem x) s log ∧
      NotDue (timestampAt (W := W) c mem x) n (lastFired s log) waiting ∧
      (∀ e ∈ log, dioOutAt c mem x (e.fired + 1) = e.action.apply (dioOutAt c mem x e.fired)) ∧
      ∀ k, s ≤ k → k < n → (∀ e ∈ log, e.fired ≠ k) →
        dioOutAt (W := W) c mem x (k + 1) = dioOutAt c mem x k := by
  have hi : ∀ k, s ≤ k → k < n → (pipelineInputAt (W := W) c mem x k).hilActive = true :=
    fun k hs hn => active_iff.mpr (hact k hs hn)
  have hdio : ∀ k, s ≤ k → k < n → dioOutAt (W := W) c mem x (k + 1) =
      (appliedAt c mem x k).foldl (fun dio a => a.apply dio) (dioOutAt c mem x k) := by
    intro k hs hn
    have hstep := dioOut_step (p := pipelineAt (W := W) c mem x k) (hi k hs hn)
    rw [← pipelineAt_succ] at hstep
    exact hstep
  have hstart : History (pipelineAt (W := W) c mem x) (pipelineInputAt c mem x) s s [] [] :=
    history_start (pipelineAt_valid c mem x s) hidle.1 hidle.2.1 hidle.2.2.2.1 hidle.2.2.2.2
  obtain ⟨log, waiting, h⟩ :=
    history_run (by decide) hstart hsn (pipelineAt_succ c mem x) hi
  refine ⟨log, waiting, h.pushed, h.fired, h.timely, h.notDue, ?_, ?_⟩
  · intro e he
    have hmem : (e.fired, e.action) ∈ firings (pipelineAt c mem x) (pipelineInputAt c mem x) s n := by
      rw [h.fired]
      exact List.mem_map_of_mem he
    obtain ⟨hs, hn, ha⟩ := mem_firings.mp hmem
    rw [hdio e.fired hs hn, appliedAt, applied_unique ha]
    rfl
  · intro k hs hn hk
    have hnone : appliedAt (W := W) c mem x k = [] := by
      refine List.eq_nil_iff_forall_not_mem.mpr (fun a ha => ?_)
      have hmem := mem_firings.mpr ⟨hs, hn, ha⟩
      rw [h.fired] at hmem
      obtain ⟨e, he, heq⟩ := List.mem_map.mp hmem
      exact hk e he (congrArg Prod.fst heq)
    rw [hdio k hs hn, hnone]
    rfl

theorem enabledPush_executes :
    ∃ log : List (Execution 16),
      [(11, ⟨0, 1, 1⟩)] = log.map Execution.firing ∧
        Timely (timestampAt (W := 16) sampleParams sampleMem (writeWave enabledPush)) 2 log := by
  have hact : ∀ k, k < 14 → 2 ≤ k →
      hilEnableAt (W := 16) sampleParams sampleMem (writeWave enabledPush) k = true ∧
        forceSafeAt (W := 16) sampleParams sampleMem (writeWave enabledPush) k = false := by
    decide +kernel
  have hidle : Idle (coreAt (W := 16) sampleParams sampleMem (writeWave enabledPush) 2) := by
    rw [Idle]
    decide +kernel
  obtain ⟨log, _, _, hfired, htimely, _⟩ :=
    executes_in_push_order sampleParams sampleMem (writeWave enabledPush) 2 14 (by decide) hidle
      (fun k hs hn => hact k hn hs)
  refine ⟨log, ?_, htimely⟩
  rw [← hfired]
  decide +kernel

end Core

end HilLab.Rtl.EventExecution
