import HilLab.Lib.Clocked
import HilLab.Lib.Edges
import HilLab.Rtl.DioScenarioEngine

namespace HilLab.Rtl.ScenarioExecution

open Lib.Clocked Lib.Edges EventFifo DioEventScheduler DioScenarioEngine

variable {D W I : Nat}

/-- What became of an accepted event: the cycle of its push, and the cycle in which it was applied
or flushed. -/
structure Entry (W I : Nat) where
  pushed : Nat
  event : Event W I
  ended : Nat
  applied : Bool

def Entry.push (e : Entry W I) : Nat × Event W I := (e.pushed, e.event)

def Entry.ending (e : Entry W I) : Nat × Event W I := (e.ended, e.event)

section Rules

variable (x : Nat → EngineInput W I)

/-- An event pushed in cycle pushed is not due in the cycles before n, and none of them flushes
it. The argument last is the cycle of the application before it. -/
structure Waits (last pushed : Nat) (e : Event W I) (n : Nat) : Prop where
  pushed_lt : pushed < n
  notDue : ∀ j, max pushed last < j → j < n → ¬ e.timestamp ≤ (x j).timestamp
  unflushed : ∀ j, pushed < j → j < n → (x j).flush = false

/-- The event waits until its end: the first due cycle, or a flush. -/
structure Ends (last : Nat) (e : Entry W I) : Prop where
  waits : Waits x last e.pushed e.event e.ended
  last_lt : last < e.ended
  due : e.applied = true →
    e.event.timestamp ≤ (x e.ended).timestamp ∧ (x e.ended).flush = false
  flushed : e.applied = false → (x e.ended).flush = true

def next (last : Nat) (e : Entry W I) : Nat := if e.applied then e.ended else last

def Ruled : Nat → List (Entry W I) → Prop
  | _, [] => True
  | last, e :: es => Ends x last e ∧ Ruled (next last e) es

theorem ruled_append {last : Nat} {es es' : List (Entry W I)} :
    Ruled x last (es ++ es') ↔ Ruled x last es ∧ Ruled x (es.foldl next last) es' := by
  induction es generalizing last with
  | nil => exact (and_iff_right trivial).symm
  | cons e es ih => rw [List.cons_append, Ruled, Ruled, ih, List.foldl_cons, and_assoc]

/-- The events that a flush in cycle n ends. -/
def flushedAt (n : Nat) (e : Nat × Event W I) : Entry W I := ⟨e.1, e.2, n, false⟩

theorem ruled_flushed {last n : Nat} {es : List (Nat × Event W I)} (hlast : last < n)
    (hflush : (x n).flush = true) (h : ∀ e ∈ es, Waits x last e.1 e.2 n) :
    Ruled x last (es.map (flushedAt n)) := by
  induction es with
  | nil => trivial
  | cons e es ih =>
      refine ⟨⟨h e List.mem_cons_self, hlast, fun ha => ?_, fun _ => hflush⟩,
        ih (fun e he => h e (List.mem_cons_of_mem _ he))⟩
      cases ha

theorem foldl_flushed (last n : Nat) (es : List (Nat × Event W I)) :
    (es.map (flushedAt n)).foldl next last = last := by
  induction es with
  | nil => rfl
  | cons e es ih => exact ih

end Rules

section Runs

variable (mem : Nat → Event W I) (x : Nat → EngineInput W I)

def engineAt (n : Nat) : Engine D W I := wave Engine.step (Engine.reset mem) x n

variable (D) in
def pushes (n : Nat) : List (Nat × Event W I) :=
  between (fun k => ((engineAt mem x k : Engine D W I).accepted (x k)).map (fun e => (k, e))) 0 n

variable (D) in
def applications (n : Nat) : List (Nat × Event W I) :=
  between (fun k => ((engineAt mem x k : Engine D W I).applied (x k)).map (fun e => (k, e))) 0 n

/-- The history of a run up to cycle n: the accepted events that have ended, in the order of their
pushes, and those that wait in the queue. -/
structure History (D : Nat) (n : Nat) (log : List (Entry W I)) (waiting : List (Nat × Event W I)) :
    Prop where
  pushed : pushes D mem x n = log.map Entry.push ++ waiting
  applied : applications D mem x n = (log.filter Entry.applied).map Entry.ending
  ruled : Ruled x 0 log
  last_le : log.foldl next 0 ≤ n - 1
  waits : ∀ e ∈ waiting, Waits x (log.foldl next 0) e.1 e.2 n
  queued : (engineAt mem x n : Engine D W I).queue.contents = waiting.map Prod.snd

variable {mem x}

theorem engineAt_valid (h0 : 0 < D) (hD : D < 65536) (n : Nat) :
    (engineAt mem x n : Engine D W I).queue.Valid := by
  refine wave_invariant (P := fun s : Engine D W I => s.queue.Valid) ?_ (fun s i hs => ?_) x n
  · exact ⟨h0, Nat.zero_le D, (Nat.zero_mod D).symm, rfl, List.Pairwise.nil⟩
  · rw [step_queue]
    exact queueStep_valid hD hs _

section Step

variable {n : Nat} {log : List (Entry W I)} {waiting : List (Nat × Event W I)}

theorem pushes_succ (n : Nat) :
    pushes D mem x (n + 1) = pushes D mem x n ++
      ((engineAt mem x n : Engine D W I).accepted (x n)).map (fun e => (n, e)) :=
  between_succ _ (Nat.zero_le n)

theorem applications_succ (n : Nat) :
    applications D mem x (n + 1) = applications D mem x n ++
      ((engineAt mem x n : Engine D W I).applied (x n)).map (fun e => (n, e)) :=
  between_succ _ (Nat.zero_le n)

theorem contents_succ (h0 : 0 < D) (hD : D < 65536) (n : Nat) :
    (engineAt mem x (n + 1) : Engine D W I).queue.contents =
      if (x n).flush then []
      else (if (engineAt mem x n : Engine D W I).eventDue (x n) then
          (engineAt mem x n : Engine D W I).queue.contents.tail
        else (engineAt mem x n : Engine D W I).queue.contents) ++
        (engineAt mem x n : Engine D W I).accepted (x n) := by
  have hqueue : (engineAt mem x (n + 1) : Engine D W I).queue =
      queueStep (engineAt mem x n : Engine D W I).queue
        ((engineAt mem x n : Engine D W I).queueInput (x n)) := step_queue
  rw [hqueue, queueStep_contents hD (engineAt_valid h0 hD n)]
  rfl

theorem waits_pushed (last : Nat) {es : List (Event W I)} {e : Nat × Event W I}
    (he : e ∈ es.map (fun e => (n, e))) : Waits x last e.1 e.2 (n + 1) := by
  obtain ⟨event, -, rfl⟩ := List.mem_map.mp he
  refine ⟨Nat.lt_succ_self n, fun j hj hjn => ?_, fun j hj hjn => ?_⟩
  · exact absurd (Nat.lt_of_le_of_lt (Nat.le_max_left _ _) hj) (by omega)
  · exact absurd hj (by omega)

theorem history_flush (h0 : 0 < D) (hD : D < 65536) (h : History mem x D n log waiting)
    (hflush : (x n).flush = true) :
    History mem x D (n + 1) (log ++ waiting.map (flushedAt n)) [] := by
  have hdue : (engineAt mem x n : Engine D W I).eventDue (x n) = false := eventDue_flush hflush
  have haccepted : (engineAt mem x n : Engine D W I).accepted (x n) = [] := if_pos hflush
  have happlied : (engineAt mem x n : Engine D W I).applied (x n) = [] :=
    if_neg (by rw [hdue]; exact Bool.false_ne_true)
  have hlast := h.last_le
  refine ⟨?_, ?_, (ruled_append x).mpr ⟨h.ruled, ?_⟩, ?_, fun e he => ?_, ?_⟩
  · rw [pushes_succ, haccepted, h.pushed, List.map_append, List.map_map]
    simp [Function.comp_def, flushedAt, Entry.push]
  · rw [applications_succ, happlied, h.applied, List.filter_append]
    simp [List.filter_map, Function.comp_def, flushedAt]
  · cases waiting with
    | nil => trivial
    | cons e es =>
        have hn := (h.waits e List.mem_cons_self).pushed_lt
        exact ruled_flushed x (by omega) hflush h.waits
  · rw [List.foldl_append, foldl_flushed]
    omega
  · cases he
  · rw [contents_succ h0 hD, if_pos hflush]
    rfl

/-- The head of the queue decides: no event waiting behind it is due before it. -/
theorem not_due_behind (h0 : 0 < D) (hD : D < 65536) (h : History mem x D n log waiting)
    (hflush : (x n).flush = false)
    (hdue : (engineAt mem x n : Engine D W I).eventDue (x n) = false)
    {e : Nat × Event W I} (he : e ∈ waiting) : ¬ e.2.timestamp ≤ (x n).timestamp := by
  cases waiting with
  | nil => cases he
  | cons head rest =>
      have hv : (engineAt mem x n : Engine D W I).queue.Valid := engineAt_valid h0 hD n
      obtain ⟨hempty, hhead⟩ := head_contents hv h.queued
      rw [EngineInput.flush, Bool.or_eq_false_iff] at hflush
      have hnot : ¬ head.2.timestamp ≤ (x n).timestamp := by
        rw [Engine.eventDue, hempty, hhead, hflush.1, hflush.2] at hdue
        simpa using hdue
      have hordered := hv.ordered
      rw [h.queued, List.map_cons, List.pairwise_cons] at hordered
      rcases List.mem_cons.mp he with rfl | he
      · exact hnot
      · intro hle
        exact hnot (BitVec.le_trans (hordered.1 e.2 (List.mem_map_of_mem he)) hle)

theorem history_waits (h0 : 0 < D) (hD : D < 65536) (h : History mem x D n log waiting)
    (hflush : (x n).flush = false)
    (hdue : (engineAt mem x n : Engine D W I).eventDue (x n) = false) :
    History mem x D (n + 1) log (waiting ++
      ((engineAt mem x n : Engine D W I).accepted (x n)).map (fun e => (n, e))) := by
  have happlied : (engineAt mem x n : Engine D W I).applied (x n) = [] :=
    if_neg (by rw [hdue]; exact Bool.false_ne_true)
  have hlast := h.last_le
  refine ⟨?_, ?_, h.ruled, by omega, fun e he => ?_, ?_⟩
  · rw [pushes_succ, h.pushed, List.append_assoc]
  · rw [applications_succ, happlied, h.applied]
    exact List.append_nil _
  · rcases List.mem_append.mp he with hold | hnew
    · obtain ⟨hlt, hnotDue, hunflushed⟩ := h.waits e hold
      refine ⟨Nat.lt_succ_of_lt hlt, fun j hj hjn => ?_, fun j hj hjn => ?_⟩
      · rcases Nat.lt_succ_iff_lt_or_eq.mp hjn with hjn | rfl
        · exact hnotDue j hj hjn
        · exact not_due_behind h0 hD h hflush hdue hold
      · rcases Nat.lt_succ_iff_lt_or_eq.mp hjn with hjn | rfl
        · exact hunflushed j hj hjn
        · exact hflush
    · exact waits_pushed _ hnew
  · rw [contents_succ h0 hD, if_neg (by simp [hflush]), if_neg (by simp [hdue]), h.queued]
    simp [Function.comp_def]

theorem history_applies (h0 : 0 < D) (hD : D < 65536) {head : Nat × Event W I}
    {rest : List (Nat × Event W I)} (h : History mem x D n log (head :: rest))
    (hflush : (x n).flush = false)
    (hdue : (engineAt mem x n : Engine D W I).eventDue (x n) = true) :
    History mem x D (n + 1) (log ++ [⟨head.1, head.2, n, true⟩]) (rest ++
      ((engineAt mem x n : Engine D W I).accepted (x n)).map (fun e => (n, e))) := by
  have hv : (engineAt mem x n : Engine D W I).queue.Valid := engineAt_valid h0 hD n
  obtain ⟨hempty, hhead⟩ := head_contents hv h.queued
  have happlied : (engineAt mem x n : Engine D W I).applied (x n) = [head.2] := by
    rw [Engine.applied, if_pos hdue, hhead]
  have hts : head.2.timestamp ≤ (x n).timestamp := by
    rw [Engine.eventDue, hhead, Bool.and_eq_true, decide_eq_true_eq] at hdue
    exact hdue.2
  have hwaits := h.waits head List.mem_cons_self
  have hn := hwaits.pushed_lt
  have hlast := h.last_le
  have hlt : log.foldl next 0 < n := by omega
  have hfold : (log ++ [(⟨head.1, head.2, n, true⟩ : Entry W I)]).foldl next 0 = n := by
    rw [List.foldl_append]
    rfl
  refine ⟨?_, ?_, (ruled_append x).mpr ⟨h.ruled, ⟨hwaits, hlt, fun _ => ⟨hts, hflush⟩, ?_⟩,
    trivial⟩, ?_, fun e he => ?_, ?_⟩
  · rw [pushes_succ, h.pushed]
    simp [Entry.push]
  · rw [applications_succ, happlied, h.applied]
    simp [Entry.ending]
  · intro ha
    cases ha
  · rw [hfold]
    exact Nat.le_refl n
  · rw [hfold]
    rcases List.mem_append.mp he with he | he
    · obtain ⟨hlt, -, hunflushed⟩ := h.waits e (List.mem_cons_of_mem _ he)
      refine ⟨Nat.lt_succ_of_lt hlt, fun j hj hjn => ?_, fun j hj hjn => ?_⟩
      · exact absurd (Nat.lt_of_le_of_lt (Nat.le_max_right _ _) hj) (by omega)
      · rcases Nat.lt_succ_iff_lt_or_eq.mp hjn with hjn | rfl
        · exact hunflushed j hj hjn
        · exact hflush
    · exact waits_pushed _ he
  · rw [contents_succ h0 hD, if_neg (by simp [hflush]), if_pos hdue, h.queued]
    simp [Function.comp_def]

theorem due_waits (h : History mem x D n log waiting)
    (hdue : (engineAt mem x n : Engine D W I).eventDue (x n) = true) :
    ∃ head rest, waiting = head :: rest := by
  cases waiting with
  | nil =>
      have hempty : (engineAt mem x n : Engine D W I).queue.empty = true := empty_iff.mpr h.queued
      rw [Engine.eventDue, hempty] at hdue
      cases hdue
  | cons head rest => exact ⟨head, rest, rfl⟩

theorem history_run (h0 : 0 < D) (hD : D < 65536) (n : Nat) :
    ∃ log waiting, History mem x D n log waiting := by
  induction n with
  | zero => exact ⟨[], [], rfl, rfl, trivial, Nat.le_refl 0, fun _ he => absurd he List.not_mem_nil, rfl⟩
  | succ n ih =>
      obtain ⟨log, waiting, h⟩ := ih
      cases hflush : (x n).flush with
      | true => exact ⟨_, _, history_flush h0 hD h hflush⟩
      | false =>
          cases hdue : (engineAt mem x n : Engine D W I).eventDue (x n) with
          | false => exact ⟨_, _, history_waits h0 hD h hflush hdue⟩
          | true =>
              obtain ⟨head, rest, rfl⟩ := due_waits h hdue
              exact ⟨_, _, history_applies h0 hD h hflush hdue⟩

end Step

section Status

/-- The pushes that the queue refuses because it is full, and those that are out of order. -/
def overflows (s : Engine D W I) (i : EngineInput W I) : Bool :=
  !i.flush && i.enqueueEvent && decide (s.queue.contents.length = D)

def disorders (s : Engine D W I) (i : EngineInput W I) : Bool :=
  !i.flush && i.enqueueEvent && decide (s.queue.contents.length < D) &&
    decide (∃ e ∈ s.queue.contents.getLast?, i.event.timestamp < e.timestamp)

theorem full_eq {q : Fifo D W I} (hv : q.Valid) : q.full = decide (q.contents.length = D) := by
  have hle := hv.count_le
  rw [Fifo.full, contents_length, decide_eq_decide]
  omega

theorem pushOrderOk_eq {q : Fifo D W I} (hv : q.Valid) (e : Event W I) :
    q.pushOrderOk e = !decide (∃ last ∈ q.contents.getLast?, e.timestamp < last.timestamp) := by
  rw [Fifo.pushOrderOk, hv.last_eq, newest]
  cases hlast : q.contents.getLast? with
  | none =>
      rw [empty_iff.mpr (List.getLast?_eq_none_iff.mp hlast)]
      simp
  | some last =>
      have hempty : q.empty = false := by
        cases hempty : q.empty with
        | false => rfl
        | true =>
            rw [empty_iff.mp hempty] at hlast
            cases hlast
      rw [hempty, ← decide_not]
      simp [BitVec.not_lt]

theorem overflowLatched_succ (h0 : 0 < D) (hD : D < 65536) (n : Nat) :
    (engineAt mem x (n + 1) : Engine D W I).queue.overflowLatched =
      (overflows (engineAt mem x n : Engine D W I) (x n) ||
        (engineAt mem x n : Engine D W I).queue.overflowLatched && !(x n).clearStatus) := by
  have hqueue : (engineAt mem x (n + 1) : Engine D W I).queue =
      queueStep (engineAt mem x n : Engine D W I).queue
        ((engineAt mem x n : Engine D W I).queueInput (x n)) := step_queue
  rw [hqueue, queueStep_overflowLatched, full_eq (engineAt_valid h0 hD n)]
  rfl

theorem orderErrorLatched_succ (h0 : 0 < D) (hD : D < 65536) (n : Nat) :
    (engineAt mem x (n + 1) : Engine D W I).queue.orderErrorLatched =
      (disorders (engineAt mem x n : Engine D W I) (x n) ||
        (engineAt mem x n : Engine D W I).queue.orderErrorLatched && !(x n).clearStatus) := by
  have hqueue : (engineAt mem x (n + 1) : Engine D W I).queue =
      queueStep (engineAt mem x n : Engine D W I).queue
        ((engineAt mem x n : Engine D W I).queueInput (x n)) := step_queue
  have hv : (engineAt mem x n : Engine D W I).queue.Valid := engineAt_valid h0 hD n
  have hnotFull : (!(engineAt mem x n : Engine D W I).queue.full) =
      decide ((engineAt mem x n : Engine D W I).queue.contents.length < D) := by
    rw [Fifo.full, contents_length, ← decide_not]
    simp only [Nat.not_le]
  rw [hqueue, queueStep_orderErrorLatched, hnotFull, pushOrderOk_eq hv, Bool.not_not]
  rfl

end Status

variable (mem x) in
/-- What the engine promises of a run. -/
structure Executes (D : Nat) : Prop where
  history : ∀ n, ∃ log waiting, History mem x D n log waiting
  pulses : ∀ n, (engineAt mem x (n + 1) : Engine D W I).eventAppliedPulse = true ↔
    (engineAt mem x n : Engine D W I).applied (x n) ≠ []
  evidence : ∀ n e, (engineAt mem x n : Engine D W I).applied (x n) = [e] →
    (engineAt mem x (n + 1) : Engine D W I).evidence =
      ⟨e.id, e.timestamp, (x n).timestamp, (x n).timestamp - e.timestamp⟩
  evidenceKept : ∀ n, (engineAt mem x n : Engine D W I).applied (x n) = [] →
    (engineAt mem x (n + 1) : Engine D W I).evidence = (engineAt mem x n : Engine D W I).evidence
  late : ∀ n, (engineAt mem x n : Engine D W I).lateEventLatched = true ↔
    ∃ m, m < n ∧
      (∃ e ∈ (engineAt mem x m : Engine D W I).applied (x m), e.timestamp < (x m).timestamp) ∧
      ∀ k, m < k → k < n → (x k).clearStatus = false
  safe : ∀ n, (x n).forceSafe = true →
    (engineAt mem x (n + 1) : Engine D W I).dioOut = (x n).safeValue
  outputs : ∀ m n, m ≤ n → (∀ k, m ≤ k → k < n → (x k).forceSafe = false) →
    (engineAt mem x n : Engine D W I).dioOut =
      (between (fun k => (engineAt mem x k : Engine D W I).applied (x k)) m n).foldl
        (fun dio e => maskedUpdate dio e.mask e.value) (engineAt mem x m : Engine D W I).dioOut
  overflow : ∀ n, (engineAt mem x n : Engine D W I).queue.overflowLatched = true ↔
    ∃ m, m < n ∧ overflows (engineAt mem x m : Engine D W I) (x m) = true ∧
      ∀ k, m < k → k < n → (x k).clearStatus = false
  order : ∀ n, (engineAt mem x n : Engine D W I).queue.orderErrorLatched = true ↔
    ∃ m, m < n ∧ disorders (engineAt mem x m : Engine D W I) (x m) = true ∧
      ∀ k, m < k → k < n → (x k).clearStatus = false

theorem engineAt_succ (n : Nat) :
    (engineAt mem x (n + 1) : Engine D W I) = (engineAt mem x n).step (x n) := rfl

theorem outputs_fold {m n : Nat} (hmn : m ≤ n)
    (hsafe : ∀ k, m ≤ k → k < n → (x k).forceSafe = false) :
    (engineAt mem x n : Engine D W I).dioOut =
      (between (fun k => (engineAt mem x k : Engine D W I).applied (x k)) m n).foldl
        (fun dio e => maskedUpdate dio e.mask e.value)
        (engineAt mem x m : Engine D W I).dioOut := by
  induction n, hmn using Nat.le_induction with
  | base => rw [between_self, List.foldl_nil]
  | succ n hmn ih =>
      rw [engineAt_succ, step_dioOut, if_neg (by simp [hsafe n hmn (Nat.lt_succ_self n)]),
        between_succ _ hmn, List.foldl_append, ih fun k hk hkn => hsafe k hk (by omega)]

theorem late_iff (s : Engine D W I) (i : EngineInput W I) :
    s.late i = true ↔ ∃ e ∈ s.applied i, e.timestamp < i.timestamp := by
  simp [Engine.late]

/-- A queue of fewer than 65536 events executes every scenario, whatever is enqueued, cleared or
forced safe in whichever clock. -/
theorem scenario_executes (h2 : 2 ≤ D) (hD : D < 65536) (mem : Nat → Event W I)
    (x : Nat → EngineInput W I) : Executes mem x D := by
  have h0 : 0 < D := by omega
  refine ⟨history_run h0 hD, fun n => ?_, fun n e he => ?_, fun n hnone => ?_, fun n => ?_,
    fun n hsafe => ?_, fun m n => outputs_fold, fun n => ?_, fun n => ?_⟩
  · rw [engineAt_succ, step_pulse, Engine.applied]
    split <;> simp_all
  · rw [engineAt_succ, step_evidence, he]
    rfl
  · rw [engineAt_succ, step_evidence, hnone]
    rfl
  · simp only [← late_iff]
    exact sticky_iff (fun n => (engineAt mem x n : Engine D W I).lateEventLatched) rfl
      (fun k => step_late)
  · rw [engineAt_succ, step_dioOut, if_pos hsafe]
  · exact sticky_iff (fun n => (engineAt mem x n : Engine D W I).queue.overflowLatched) rfl
      (overflowLatched_succ h0 hD)
  · exact sticky_iff (fun n => (engineAt mem x n : Engine D W I).queue.orderErrorLatched) rfl
      (orderErrorLatched_succ h0 hD)

end Runs

section Samples

def noEvents (_ : Nat) : Event 1 1 := Event.zero 1 1

def onTime : Event 1 1 := ⟨3, 1, 1, 0⟩
def lateByOne : Event 1 1 := ⟨3, 1, 0, 1⟩
def flushed : Event 1 1 := ⟨9, 1, 1, 0⟩

/-- The three events are enqueued in the first three clocks, and clock 5 clears the queue. -/
def scene (k : Nat) : EngineInput 1 1 :=
  { timestamp := BitVec.ofNat 64 k, enqueueEvent := decide (k < 3)
    event := if k = 0 then onTime else if k = 1 then lateByOne else flushed
    clearQueue := decide (k = 5), clearStatus := false, safeValue := 0, forceSafe := false }

/-- Two events for the same time are applied in clocks 3 and 4, the second one late, and the third
is flushed. -/
theorem scenario_executes_scene :
    applications 8 noEvents scene 6 = [(3, onTime), (4, lateByOne)] ∧
      (engineAt noEvents scene 5 : Engine 8 1 1).evidence = ⟨1, 3, 4, 1⟩ ∧
      (engineAt noEvents scene 6 : Engine 8 1 1).lateEventLatched = true ∧
      ∃ log, History noEvents scene 8 6 log [] ∧
        ∃ e ∈ log, e.push = (2, flushed) ∧ e.applied = false := by
  have hexec : Executes noEvents scene 8 := scenario_executes (by decide) (by decide) noEvents scene
  have happlications : applications 8 noEvents scene 6 = [(3, onTime), (4, lateByOne)] := by
    decide +kernel
  have hpushes : pushes 8 noEvents scene 6 = [(0, onTime), (1, lateByOne), (2, flushed)] := by
    decide +kernel
  have hsecond : (engineAt noEvents scene 4 : Engine 8 1 1).applied (scene 4) = [lateByOne] := by
    decide +kernel
  have hempty : (engineAt noEvents scene 6 : Engine 8 1 1).queue.contents = [] := by decide +kernel
  obtain ⟨log, waiting, hhistory⟩ := hexec.history 6
  have hnone : waiting = [] := List.map_eq_nil_iff.mp (hhistory.queued.symm.trans hempty)
  subst hnone
  refine ⟨happlications, hexec.evidence 4 _ hsecond, (hexec.late 6).mpr ?_, log, hhistory, ?_⟩
  · refine ⟨4, by decide, ⟨lateByOne, ?_, by decide⟩, fun _ _ _ => rfl⟩
    rw [hsecond]
    exact List.mem_singleton_self _
  · have hpushed := hhistory.pushed
    rw [hpushes, List.append_nil] at hpushed
    have hmem : (2, flushed) ∈ log.map Entry.push := by
      rw [← hpushed]
      simp
    obtain ⟨e, he, hpush⟩ := List.mem_map.mp hmem
    refine ⟨e, he, hpush, ?_⟩
    cases ha : e.applied with
    | false => rfl
    | true =>
        have hending : e.ending ∈ applications 8 noEvents scene 6 := by
          rw [hhistory.applied]
          exact List.mem_map_of_mem (List.mem_filter.mpr ⟨he, ha⟩)
        have hevent : e.event = flushed := congrArg Prod.snd hpush
        have hother : ∀ a ∈ applications 8 noEvents scene 6, a.2 ≠ flushed := by
          rw [happlications]
          decide
        exact absurd hevent (hother _ hending)

def pulseEvent : Event 1 1 := ⟨1, 1, 1, 0⟩

/-- Time stands still before the target of an event that is enqueued in every clock. -/
def flood (_ : Nat) : EngineInput 1 1 :=
  { timestamp := 0, enqueueEvent := true, event := pulseEvent, clearQueue := false,
    clearStatus := false, safeValue := 0, forceSafe := false }

/-- The queue of 65536 slots after n pushes. -/
structure Flooded (n : Nat) (q : Fifo 65536 1 1) : Prop where
  readPtr : q.readPtr = 0
  writePtr : n = 0 → q.writePtr = 0
  count : q.count = BitVec.ofNat 16 n
  first : 0 < n → q.mem 0 = pulseEvent
  last_le : q.lastTimestamp ≤ 1

variable {n : Nat} {s : Engine 65536 1 1}

theorem flooded_waits (h : Flooded n s.queue) : s.eventDue (flood n) = false := by
  rw [Engine.eventDue]
  cases hempty : s.queue.empty with
  | true => rfl
  | false =>
      have hpos : 0 < n := by
        refine Nat.pos_of_ne_zero fun hzero => ?_
        rw [Fifo.empty, h.count, hzero] at hempty
        cases hempty
      have hhead : s.queue.head = pulseEvent := by
        rw [Fifo.head, hempty, if_neg Bool.false_ne_true, h.readPtr]
        exact h.first hpos
      rw [hhead]
      rfl

theorem flooded_accepts (h : Flooded n s.queue) :
    s.queue.acceptPush (s.queueInput (flood n)).fifo = true := by
  have hfull : s.queue.full = false := full_eq_false.mpr s.queue.count.isLt
  have horder : s.queue.pushOrderOk pulseEvent = true := by
    have hle : decide (s.queue.lastTimestamp ≤ pulseEvent.timestamp) = true :=
      decide_eq_true h.last_le
    rw [Fifo.pushOrderOk, hle, Bool.or_true]
  exact congrArg₂ (fun a b => true && !a && b) hfull horder

theorem flooded_step (h : Flooded n s.queue) : Flooded (n + 1) (s.step (flood n)).queue := by
  have hpop : s.queue.acceptPop (s.queueInput (flood n)).fifo = false :=
    congrArg (· && !s.queue.empty) (flooded_waits h)
  have hrelease : s.queue.release (s.queueInput (flood n)).fifo
      (s.queue.store (s.queueInput (flood n)).fifo) =
      s.queue.store (s.queueInput (flood n)).fifo := if_neg (Bool.eq_false_iff.mp hpop)
  have hstep : (s.step (flood n)).queue =
      { s.queue.release (s.queueInput (flood n)).fifo
          (s.queue.store (s.queueInput (flood n)).fifo) with
        count := s.queue.nextCount (s.queueInput (flood n)).fifo } := step_queue
  rw [hstep, hrelease, store_accept (flooded_accepts h), Fifo.nextCount, flooded_accepts h, hpop]
  refine ⟨h.readPtr, fun hzero => absurd hzero (Nat.succ_ne_zero n), ?_, fun _ => ?_,
    BitVec.le_refl _⟩
  · change s.queue.count + 1 = _
    rw [h.count, BitVec.ofNat_add]
    rfl
  · change Function.update s.queue.mem s.queue.writePtr.toNat pulseEvent 0 = pulseEvent
    by_cases hw : s.queue.writePtr.toNat = 0
    · rw [hw, Function.update_self]
    · rw [Function.update_of_ne (Ne.symm hw)]
      refine h.first (Nat.pos_of_ne_zero fun hzero => hw ?_)
      rw [h.writePtr hzero]
      rfl

theorem flooded (n : Nat) : Flooded n (engineAt noEvents flood n : Engine 65536 1 1).queue := by
  induction n with
  | zero => exact ⟨rfl, fun _ => rfl, rfl, fun h => absurd h (Nat.lt_irrefl 0), by decide⟩
  | succ n ih => exact flooded_step ih

/-- The count of a queue of 65536 slots wraps when the queue is full, and its events are lost. -/
theorem full_count_wraps :
    ¬ ∀ D, 2 ≤ D → ∀ (mem : Nat → Event 1 1) (x : Nat → EngineInput 1 1),
      (∀ n, (x n).timestamp ≤ (x (n + 1)).timestamp) → Executes mem x D := by
  intro hall
  have hexec := hall 65536 (by decide) noEvents flood (fun _ => BitVec.le_refl _)
  obtain ⟨log, waiting, hpushed, happlied, hruled, -, -, hqueued⟩ := hexec.history 65536
  have hempty : (engineAt noEvents flood 65536 : Engine 65536 1 1).queue.contents = [] := by
    apply List.eq_nil_of_length_eq_zero
    rw [contents_length, (flooded 65536).count]
    rfl
  rw [hempty] at hqueued
  rw [List.map_eq_nil_iff.mp hqueued.symm, List.append_nil] at hpushed
  -- the push of the first clock has been accepted, so it has ended
  have hfirst : (0, pulseEvent) ∈ pushes 65536 noEvents flood 65536 := by
    refine mem_between.mpr ⟨0, Nat.le_refl 0, by decide, ?_⟩
    have haccepted : (engineAt noEvents flood 0 : Engine 65536 1 1).accepted (flood 0) =
        [pulseEvent] := rfl
    rw [haccepted]
    exact List.mem_singleton.mpr rfl
  rw [hpushed] at hfirst
  cases log with
  | nil => cases hfirst
  | cons e es =>
      cases ha : e.applied with
      | false => exact Bool.false_ne_true (hruled.1.flushed ha)
      | true =>
          have hmem : e.ending ∈ applications 65536 noEvents flood 65536 := by
            rw [happlied, List.filter_cons, if_pos ha]
            exact List.mem_cons_self
          obtain ⟨k, -, -, hend⟩ := mem_between.mp hmem
          rw [Engine.applied, flooded_waits (flooded k)] at hend
          cases hend

end Samples

end HilLab.Rtl.ScenarioExecution
