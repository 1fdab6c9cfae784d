import HilLab.Host.Session
import HilLab.Lib.Tenancy

namespace HilLab.Host.BenchSharing

open Host.Core Lib.Effect Lib.Tenancy

/-- How a call made in __enter__ ended. What is raised past `except Exception`
(KeyboardInterrupt) is an interruption. -/
inductive Outcome
  | returned | raised | interrupted
deriving DecidableEq, Repr

/-- Where a session's process is in ServoHilSession.__enter__, in the body of the
with statement or in __exit__. -/
inductive Phase
  | outside
  /-- flock has returned; the holder's record is being written to the lock file. -/
  | recording
  /-- Writing the record raised: the open handle is still in the traceback's frame. -/
  | orphaned
  | leasing
  | entering
  | undoingLease
  | inside
  | leaving
  | returningLease
  | unlocking
  /-- __enter__ was interrupted or LOCK_UN raised: the handle is still in _file. -/
  | leaked
deriving DecidableEq, Repr

/-- What the backend is asked to do, and the end of the process that asked. -/
inductive Call (Op : Type)
  | forceSafe
  | operate (op : Op)
  | killed
deriving DecidableEq, Repr

inductive Event (Op : Type)
  | enter
  | writeRecord (o : Outcome)
  | acquireLease (o : Outcome)
  | enterSafe (o : Outcome)
  | undoLease (o : Outcome)
  | operate (op : Op)
  | leave
  | exitSafe
  | exitLease
  | unlock (freed : Bool)
  | collect
  | kill
deriving DecidableEq, Repr

/-- Sessions ι of several processes and the bench they share: who holds the lock
of the file, where each session is, whether its LabgridPlaceLease is marked
acquired, and what the backend was asked to do, by whom. -/
structure Shared (ι Op : Type) where
  lock : Option ι
  phase : ι → Phase
  acquired : ι → Bool
  log : List (ι × Call Op)

section Steps

variable {ι Op : Type} [DecidableEq ι]

def Shared.idle : Shared ι Op := ⟨none, fun _ => .outside, fun _ => false, []⟩

def Shared.goto (b : Shared ι Op) (i : ι) (p : Phase) : Shared ι Op :=
  { b with phase := Function.update b.phase i p }

def Shared.send (b : Shared ι Op) (i : ι) (c : Call Op) : Shared ι Op := { b with log := b.log ++ [(i, c)] }

def Shared.mark (b : Shared ι Op) (i : ι) (acquired : Bool) : Shared ι Op :=
  { b with acquired := Function.update b.acquired i acquired }

/-- The handle is closed or unlocked, and its session is where it was before __enter__. -/
def Shared.free (b : Shared ι Op) (i : ι) : Shared ι Op := { b.goto i .outside with lock := none }

/-- ResourceLock.acquire up to flock: LOCK_EX | LOCK_NB raises ResourceBusy while any
open handle, also one of the same session, has the lock. -/
def flock (b : Shared ι Op) (i : ι) : Option (Shared ι Op) :=
  match b.lock, b.phase i with
  | some _, _ => some b
  | none, .outside => some { b.goto i .recording with lock := some i }
  | none, _ => none

/-- One step of session i; leased tells whether it has a labgrid_lease. None where
the code of the session is not at such a step. -/
def step (leased : ι → Bool) (b : Shared ι Op) (i : ι) (e : Event Op) : Option (Shared ι Op) :=
  match e, b.phase i with
  | .enter, _ => flock b i
  | .writeRecord o, .recording =>
      match o with
      | .returned => some (b.goto i (if leased i then .leasing else .entering))
      | .raised | .interrupted => some (b.goto i .orphaned)
  | .acquireLease o, .leasing =>
      match o with
      | .returned => some ((b.mark i true).goto i .entering)
      | .raised => some (b.goto i .undoingLease)
      | .interrupted => some (b.goto i .leaked)
  | .enterSafe o, .entering =>
      match o with
      | .returned => some ((b.send i .forceSafe).goto i .inside)
      | .raised => some ((b.send i .forceSafe).goto i (if leased i then .undoingLease else .unlocking))
      | .interrupted => some ((b.send i .forceSafe).goto i .leaked)
  -- LabgridPlaceLease.release clears acquired whether or not the client raised
  | .undoLease o, .undoingLease =>
      match o with
      | .returned | .raised => some ((b.mark i false).goto i .unlocking)
      | .interrupted => some ((b.mark i false).goto i .leaked)
  | .operate op, .inside => some (b.send i (.operate op))
  | .leave, .inside => some (b.goto i .leaving)
  -- however force_safe and the lease's release end, the finally blocks of __exit__ go on
  | .exitSafe, .leaving =>
      some ((b.send i .forceSafe).goto i (if leased i then .returningLease else .unlocking))
  | .exitLease, .returningLease => some ((b.mark i false).goto i .unlocking)
  | .unlock freed, .unlocking => some (if freed then b.free i else b.goto i .leaked)
  | .collect, .orphaned => some (b.free i)
  | .collect, .leaked => some (b.free i)
  | .kill, p =>
      if p = .outside then some (b.mark i false) else some (((b.send i .killed).mark i false).free i)
  | _, _ => none

/-- The steps of all sessions, in the order in which they happened. -/
def run (leased : ι → Bool) (b : Shared ι Op) (steps : List (ι × Event Op)) : Option (Shared ι Op) :=
  steps.foldlM (fun b s => step leased b s.1 s.2) b

end Steps

section Invariant

variable {ι Op : Type}

def served (ops : List Op) : List (Call Op) := .forceSafe :: ops.map .operate ++ [.forceSafe]

/-- A whole stay: __enter__ failed before or at force_safe, or the body was run. -/
inductive Whole : List (Call Op) → Prop
  | refused : Whole []
  | unsafe_entry : Whole [.forceSafe]
  | served (ops : List Op) : Whole (served ops)

def Sent : Phase → List (Call Op) → Prop
  | .outside, _ => False
  | .recording, calls | .orphaned, calls | .leasing, calls | .entering, calls => calls = []
  | .inside, calls | .leaving, calls => ∃ ops, calls = .forceSafe :: List.map .operate ops
  | .undoingLease, calls | .returningLease, calls | .unlocking, calls | .leaked, calls => Whole calls

def Ended (calls : List (Call Op)) : Prop :=
  Whole calls ∨ ∃ p sent, Sent p sent ∧ calls = sent ++ [.killed]

/-- Session i has the lock, is alone in using the bench, and has asked what its phase says. -/
def Holds (b : Shared ι Op) (i : ι) : Prop :=
  b.lock = some i ∧ (∀ j, j ≠ i → b.phase j = .outside) ∧ Occupied Ended (Sent (b.phase i)) i b.log

def Vacant (b : Shared ι Op) : Prop := b.lock = none ∧ (∀ i, b.phase i = .outside) ∧ Stays Ended b.log

/-- The sessions take turns: only the holder of the lock is on its way through
__enter__, the body or __exit__, and the log is that of whole stays one after the
other, with that of the holder so far. -/
def TakingTurns (b : Shared ι Op) : Prop := Vacant b ∨ ∃ i, Holds b i

theorem vacant_idle : Vacant (Shared.idle : Shared ι Op) := ⟨rfl, fun _ => rfl, stays_nil⟩

theorem Holds.turn {b : Shared ι Op} {i : ι} (h : Holds b i) : TakingTurns b := Or.inr ⟨i, h⟩

theorem Vacant.turn {b : Shared ι Op} (h : Vacant b) : TakingTurns b := Or.inl h

theorem Holds.sendStay {b : Shared ι Op} {i : ι} (h : Holds b i) (c : Call Op)
    (hp : ∀ calls : List (Call Op), Sent (b.phase i) calls → Sent (b.phase i) (calls ++ [c])) :
    Holds (b.send i c) i :=
  ⟨h.1, h.2.1, h.2.2.call c hp⟩

theorem TakingTurns.holds {b : Shared ι Op} (h : TakingTurns b) {i : ι} (hi : b.phase i ≠ .outside) :
    Holds b i := by
  rcases h with ⟨_, hall, _⟩ | ⟨j, hj⟩
  · exact absurd (hall i) hi
  · by_cases hji : i = j
    · exact hji ▸ hj
    · exact absurd (hj.2.1 i hji) hi

end Invariant

section Operations

variable {ι Op : Type} [DecidableEq ι] {b : Shared ι Op} {i : ι}

theorem goto_phase (b : Shared ι Op) (i : ι) (p : Phase) : (b.goto i p).phase i = p := by
  simp [Shared.goto]

theorem goto_phase_ne (b : Shared ι Op) {i j : ι} (p : Phase) (h : j ≠ i) :
    (b.goto i p).phase j = b.phase j := by
  simp [Shared.goto, h]

theorem Holds.goto (h : Holds b i) {p : Phase}
    (hp : ∀ calls : List (Call Op), Sent (b.phase i) calls → Sent p calls) :
    Holds (b.goto i p) i := by
  obtain ⟨hlock, hothers, hlog⟩ := h
  refine ⟨hlock, fun j hj => ?_, ?_⟩
  · rw [goto_phase_ne b p hj]
    exact hothers j hj
  · rw [goto_phase]
    exact hlog.mono hp

theorem Holds.mark (h : Holds b i) (j : ι) (acquired : Bool) : Holds (b.mark j acquired) i := h

theorem Holds.send (h : Holds b i) (c : Call Op) {p : Phase}
    (hp : ∀ calls : List (Call Op), Sent (b.phase i) calls → Sent p (calls ++ [c])) :
    Holds ((b.send i c).goto i p) i := by
  obtain ⟨hlock, hothers, hlog⟩ := h
  refine ⟨hlock, fun j hj => ?_, ?_⟩
  · rw [goto_phase_ne _ p hj]
    exact hothers j hj
  · rw [goto_phase]
    exact hlog.call c hp

theorem Holds.free (h : Holds b i) (hp : ∀ calls : List (Call Op), Sent (b.phase i) calls → Ended calls) :
    Vacant (b.free i) := by
  obtain ⟨_, hothers, hlog⟩ := h
  refine ⟨rfl, fun j => ?_, hlog.vacate hp⟩
  by_cases hj : j = i
  · rw [hj]
    exact goto_phase b i .outside
  · exact (goto_phase_ne b .outside hj).trans (hothers j hj)

theorem Holds.kill (h : Holds b i) : Vacant (((b.send i .killed).mark i false).free i) := by
  obtain ⟨_, hothers, hlog⟩ := h
  refine ⟨rfl, fun j => ?_, ?_⟩
  · by_cases hj : j = i
    · rw [hj]
      exact goto_phase _ i .outside
    · exact (goto_phase_ne _ .outside hj).trans (hothers j hj)
  · have hkilled : Occupied Ended Ended i (b.log ++ [(i, .killed)]) :=
      hlog.call .killed (fun calls hc => Or.inr ⟨b.phase i, calls, hc, rfl⟩)
    exact hkilled.vacate (fun _ hc => hc)

theorem flock_takes_turns {b' : Shared ι Op} (h : TakingTurns b) (hstep : flock b i = some b') :
    TakingTurns b' := by
  rw [flock] at hstep
  split at hstep
  · cases hstep
    exact h
  · rename_i hlock hphase
    cases hstep
    rcases h with ⟨_, hall, hlog⟩ | ⟨j, hj, _⟩
    · refine Or.inr ⟨i, rfl, fun j hj => (goto_phase_ne b _ hj).trans (hall j), ?_⟩
      have hp : ({ b.goto i .recording with lock := some i } : Shared ι Op).phase i = .recording :=
        goto_phase b i .recording
      rw [hp]
      exact hlog.occupy rfl
    · exact absurd (hlock.symm.trans hj) (Option.some_ne_none j).symm
  · cases hstep

end Operations

section Handover

variable {ι Op : Type} {b : Shared ι Op}

/-- What the backend may be left with, and what a session starts with. -/
def Secures (c : Call Op) : Prop := c = .forceSafe ∨ c = .killed

theorem secures_mem_served {ops : List Op} :
    (∀ c ∈ (served ops).head?, Secures c) ∧ ∀ c ∈ (served ops).getLast?, Secures c := by
  refine ⟨by simp [served, Secures], ?_⟩
  rw [served, List.getLast?_concat]
  simp [Secures]

theorem Whole.secures {calls : List (Call Op)} (h : Whole calls) :
    (∀ c ∈ calls.head?, Secures c) ∧ ∀ c ∈ calls.getLast?, Secures c := by
  cases h with
  | refused => simp
  | unsafe_entry => simp [Secures]
  | served ops => exact secures_mem_served

theorem Sent.secures {p : Phase} {calls : List (Call Op)} (h : Sent p calls) :
    ∀ c ∈ calls.head?, Secures c := by
  cases p with
  | outside => exact h.elim
  | recording | orphaned | leasing | entering =>
      cases h
      simp
  | inside | leaving =>
      obtain ⟨ops, rfl⟩ := h
      simp [Secures]
  | undoingLease | returningLease | unlocking | leaked => exact (Whole.secures h).1

theorem Ended.secures {calls : List (Call Op)} (h : Ended calls) :
    (∀ c ∈ calls.head?, Secures c) ∧ ∀ c ∈ calls.getLast?, Secures c := by
  rcases h with h | ⟨p, sent, hsent, rfl⟩
  · exact h.secures
  · refine ⟨?_, by simp [Secures]⟩
    cases sent with
    | nil => simp [Secures]
    | cons c sent => exact hsent.secures

theorem TakingTurns.isChain (h : TakingTurns b) : b.log.IsChain (Follows Secures Secures) := by
  have hopen : ∀ calls : List (Call Op), Ended calls → ∀ c ∈ calls.head?, Secures c :=
    fun _ hc => hc.secures.1
  have hclose : ∀ calls : List (Call Op), Ended calls → ∀ c ∈ calls.getLast?, Secures c :=
    fun _ hc => hc.secures.2
  rcases h with ⟨_, _, hlog⟩ | ⟨i, _, _, hlog⟩
  · exact (hlog.isChain hopen hclose).1
  · exact hlog.isChain hopen hclose (fun _ hc => hc.secures)

end Handover

section Turns

variable {ι Op : Type} [DecidableEq ι] {leased : ι → Bool} {b b' : Shared ι Op} {i : ι}

theorem whole_append_forceSafe {calls : List (Call Op)}
    (h : ∃ ops, calls = .forceSafe :: List.map .operate ops) : Whole (calls ++ [.forceSafe]) := by
  obtain ⟨ops, rfl⟩ := h
  exact Whole.served ops

theorem operate_append (op : Op) (calls : List (Call Op))
    (h : ∃ ops, calls = .forceSafe :: List.map .operate ops) :
    ∃ ops, calls ++ [.operate op] = .forceSafe :: List.map .operate ops := by
  obtain ⟨ops, rfl⟩ := h
  exact ⟨ops ++ [op], by simp⟩

theorem step_takes_turns (h : TakingTurns b) {e : Event Op} (hstep : step leased b i e = some b') :
    TakingTurns b' := by
  cases e with
  | enter => exact flock_takes_turns h hstep
  | writeRecord o =>
      cases hp : b.phase i with
      | recording =>
          have hi : Holds b i := h.holds (by simp [hp])
          simp only [step, hp] at hstep
          cases o with
          | returned =>
              cases hstep
              cases leased i <;> exact (hi.goto (by simp [hp, Sent])).turn
          | raised | interrupted =>
              cases hstep
              exact (hi.goto (by simp [hp, Sent])).turn
      | _ => simp [step, hp] at hstep
  | acquireLease o =>
      cases hp : b.phase i with
      | leasing =>
          have hi : Holds b i := h.holds (by simp [hp])
          simp only [step, hp] at hstep
          cases o with
          | returned =>
              cases hstep
              exact ((hi.mark i true).goto (by simp [Shared.mark, hp, Sent])).turn
          | raised | interrupted =>
              cases hstep
              exact (hi.goto (by simp [hp, Sent, Whole.refused])).turn
      | _ => simp [step, hp] at hstep
  | enterSafe o =>
      cases hp : b.phase i with
      | entering =>
          have hi : Holds b i := h.holds (by simp [hp])
          simp only [step, hp] at hstep
          cases o with
          | returned =>
              cases hstep
              refine (hi.send .forceSafe ?_).turn
              simp only [hp, Sent]
              rintro calls rfl
              exact ⟨[], rfl⟩
          | raised =>
              cases hstep
              cases leased i <;> exact (hi.send .forceSafe (by simp [hp, Sent, Whole.unsafe_entry])).turn
          | interrupted =>
              cases hstep
              exact (hi.send .forceSafe (by simp [hp, Sent, Whole.unsafe_entry])).turn
      | _ => simp [step, hp] at hstep
  | undoLease o =>
      cases hp : b.phase i with
      | undoingLease =>
          have hi : Holds b i := h.holds (by simp [hp])
          simp only [step, hp] at hstep
          cases o with
          | returned | raised | interrupted =>
              cases hstep
              exact ((hi.mark i false).goto (by simp [Shared.mark, hp, Sent])).turn
      | _ => simp [step, hp] at hstep
  | operate op =>
      cases hp : b.phase i with
      | inside =>
          have hi : Holds b i := h.holds (by simp [hp])
          simp only [step, hp] at hstep
          cases hstep
          exact (hi.sendStay (.operate op) (by simp only [hp, Sent]; exact operate_append op)).turn
      | _ => simp [step, hp] at hstep
  | leave =>
      cases hp : b.phase i with
      | inside =>
          have hi : Holds b i := h.holds (by simp [hp])
          simp only [step, hp] at hstep
          cases hstep
          exact (hi.goto (by simp [hp, Sent])).turn
      | _ => simp [step, hp] at hstep
  | exitSafe =>
      cases hp : b.phase i with
      | leaving =>
          have hi : Holds b i := h.holds (by simp [hp])
          simp only [step, hp] at hstep
          cases hstep
          refine (hi.send .forceSafe (fun calls hc => ?_)).turn
          rw [hp] at hc
          cases leased i <;> exact whole_append_forceSafe hc
      | _ => simp [step, hp] at hstep
  | exitLease =>
      cases hp : b.phase i with
      | returningLease =>
          have hi : Holds b i := h.holds (by simp [hp])
          simp only [step, hp] at hstep
          cases hstep
          exact ((hi.mark i false).goto (by simp [Shared.mark, hp, Sent])).turn
      | _ => simp [step, hp] at hstep
  | unlock freed =>
      cases hp : b.phase i with
      | unlocking =>
          have hi : Holds b i := h.holds (by simp [hp])
          simp only [step, hp] at hstep
          cases hstep
          cases freed with
          | true => exact (hi.free (by simp only [hp, Sent]; exact fun _ => Or.inl)).turn
          | false => exact (hi.goto (by simp [hp, Sent])).turn
      | _ => simp [step, hp] at hstep
  | collect =>
      cases hp : b.phase i with
      | orphaned =>
          have hi : Holds b i := h.holds (by simp [hp])
          simp only [step, hp] at hstep
          cases hstep
          exact (hi.free (by simp [hp, Sent, Ended, Whole.refused])).turn
      | leaked =>
          have hi : Holds b i := h.holds (by simp [hp])
          simp only [step, hp] at hstep
          cases hstep
          exact (hi.free (by simp only [hp, Sent]; exact fun _ => Or.inl)).turn
      | _ => simp [step, hp] at hstep
  | kill =>
      by_cases hp : b.phase i = .outside
      · rw [step, if_pos hp] at hstep
        cases hstep
        exact h
      · rw [step, if_neg hp] at hstep
        cases hstep
        exact (h.holds hp).kill.turn

theorem run_takes_turns {steps : List (ι × Event Op)} (h : TakingTurns b)
    (hrun : run leased b steps = some b') : TakingTurns b' := by
  induction steps generalizing b with
  | nil =>
      cases hrun
      exact h
  | cons s steps ih =>
      rw [run, List.foldlM_cons] at hrun
      obtain ⟨c, hc, hrest⟩ := Option.bind_eq_some_iff.mp hrun
      exact ih (step_takes_turns h hc) hrest

/-- Whatever the order of the sessions' steps, and whatever raises, is interrupted or is
killed: at most one session is past its flock, the backend was asked for whole stays one
after the other, and another session's calls come in only where the one before asked for
force_safe(True) last or its process ended. -/
theorem sessions_take_turns {steps : List (ι × Event Op)} (hrun : run leased .idle steps = some b) :
    TakingTurns b ∧ (∀ i j, b.phase i ≠ .outside → b.phase j ≠ .outside → i = j) ∧
      ∀ past i c j d rest, b.log = past ++ (i, c) :: (j, d) :: rest → i ≠ j → Secures c ∧ Secures d := by
  have hturns : TakingTurns b := run_takes_turns vacant_idle.turn hrun
  refine ⟨hturns, fun i j hi hj => ?_, fun past i c j d rest hlog hij => ?_⟩
  · exact Option.some.inj ((hturns.holds hi).1.symm.trans (hturns.holds hj).1)
  · have hchain := hturns.isChain
    rw [hlog] at hchain
    exact (List.isChain_append_cons_cons.mp hchain).2.1.resolve_left hij

def sampleSteps : List (Bool × Event Nat) :=
  [(false, .enter), (false, .writeRecord .returned), (false, .acquireLease .returned),
    (false, .enterSafe .returned), (true, .enter), (false, .operate 7), (false, .leave),
    (false, .exitSafe), (false, .exitLease), (false, .unlock true), (true, .enter),
    (true, .writeRecord .returned), (true, .acquireLease .returned), (true, .enterSafe .raised)]

theorem sessions_take_turns_sample :
    ∃ b, run (fun _ => true) Shared.idle sampleSteps = some b ∧ b.phase true = .undoingLease ∧
      TakingTurns b :=
  ⟨_, rfl, rfl, (sessions_take_turns (show run (fun _ => true) Shared.idle sampleSteps = some _ from rfl)).1⟩

end Turns

section Exit

variable {ι Op : Type} [DecidableEq ι] {leased : ι → Bool} {b : Shared ι Op} {i : ι}

theorem lockRelease_held (t : Session.Teardown) (bench : Session.Bench) :
    (exec (Session.lockRelease t) bench).2 = { bench with lockHeld := t.lock.isSome && bench.lockHeld } := by
  rw [Session.lockRelease, exec_bind_ok (exec_get bench)]
  rcases bench with ⟨links, lease, held⟩
  cases held with
  | false => simp
  | true => cases hl : t.lock <;> simp [exec_bind, Session.raises]

theorem leaseRelease_acquired (t : Session.Teardown) (bench : Session.Bench) :
    (exec (Session.leaseRelease t) bench).2 = { bench with leaseAcquired := false } := by
  rw [Session.leaseRelease, exec_bind_ok (exec_get bench)]
  rcases bench with ⟨links, lease, held⟩
  cases lease with
  | false => simp
  | true => cases hl : t.lease <;> simp [exec_bind, Session.raises]

theorem release_result (s : Session.ServoHilSession) (t : Session.Teardown) (bench : Session.Bench) :
    (exec (s.release t) bench).2 =
      { bench with
        lockHeld := t.lock.isSome && bench.lockHeld
        leaseAcquired := !s.labgridLease && bench.leaseAcquired } := by
  rw [Session.ServoHilSession.release]
  cases s.labgridLease with
  | false => simp [lockRelease_held]
  | true =>
      rw [if_pos rfl, exec_bind_ok (exec_attempt _ _), leaseRelease_acquired, exec_bind]
      have hlock := lockRelease_held t { bench with leaseAcquired := false }
      cases hr : exec (Session.lockRelease t) { bench with leaseAcquired := false } with
      | mk r bench' =>
          rw [hr] at hlock
          cases r <;> simpa using hlock

/-- The steps of one __exit__ in which the client and the unlocking end as t says. -/
def exitSteps (s : Session.ServoHilSession) (t : Session.Teardown) (i : ι) : List (ι × Event Op) :=
  [(i, .leave), (i, .exitSafe)] ++ (if s.labgridLease then [(i, .exitLease)] else []) ++
    [(i, .unlock t.lock.isNone)]

theorem exit_result (wires : BeagleBonePru.Wires) (s : Session.ServoHilSession) (t : Session.Teardown)
    (exc : Bool) (bench : Session.Bench) :
    (exec (s.exit wires t exc) bench).2.lockHeld = (t.lock.isSome && bench.lockHeld) ∧
      (exec (s.exit wires t exc) bench).2.leaseAcquired = (!s.labgridLease && bench.leaseAcquired) := by
  rw [Session.ServoHilSession.exit, exec_bind_ok (exec_attempt _ _), exec_zoom, exec_bind]
  have hrelease := release_result s t
    { bench with links := (exec (s.backend.forceSafe wires true) bench.links).2 }
  cases hr : exec (s.release t)
      { bench with links := (exec (s.backend.forceSafe wires true) bench.links).2 } with
  | mk r bench' =>
      rw [hr] at hrelease
      dsimp only at hrelease
      cases r with
      | error e => simp [hrelease]
      | ok u =>
          cases (exec (s.backend.forceSafe wires true) bench.links).1 with
          | ok v => simp [hrelease]
          | error e => cases exc <;> simp [hrelease]

theorem exitSteps_agrees (wires : BeagleBonePru.Wires) {s : Session.ServoHilSession} (t : Session.Teardown)
    (exc : Bool) {bench : Session.Bench} (hheld : bench.lockHeld = true)
    (hlease : bench.leaseAcquired = b.acquired i) (hs : s.labgridLease = leased i)
    (hlock : b.lock = some i) (hp : b.phase i = .inside) :
    ∃ b', run leased b (exitSteps s t i) = some b' ∧ b'.log = b.log ++ [(i, .forceSafe)] ∧
      (b'.lock = some i ↔ (exec (s.exit wires t exc) bench).2.lockHeld = true) ∧
      b'.acquired i = (exec (s.exit wires t exc) bench).2.leaseAcquired := by
  rw [(exit_result wires s t exc bench).1, (exit_result wires s t exc bench).2, hheld, hlease]
  cases hl : leased i <;> cases ht : t.lock <;>
    simp [exitSteps, run, step, hs, hl, ht, hp, hlock, Shared.goto, Shared.send, Shared.mark, Shared.free]

end Exit

end HilLab.Host.BenchSharing
