import HilLab.Lib.Clocked
import HilLab.Lib.OrderedQueue
import HilLab.Rtl.DioScenarioEngine

namespace HilLab.Rtl.QueueRefinement

open Lib Lib.Clocked EventFifo DioScenarioEngine

variable {D W I : Nat}

def ticks (e : Event W I) : Nat := e.timestamp.toNat

def fifoInput (i : FifoInput W I) : OrderedQueue.Input (Event W I) :=
  { clear := i.clear, push := if i.push then some i.pushEvent else none, pop := i.pop }

/-- hil_event_queue clears its errors apart from its entries. -/
def queueInput (i : QueueInput W I) : OrderedQueue.Input (Event W I) :=
  { clear := i.clearQueue, push := if i.push then some i.pushEvent else none, pop := i.pop }

def fifoReset (mem : Nat → Event W I) : Fifo D W I :=
  { mem, writePtr := 0, readPtr := 0, count := 0, lastTimestamp := 0,
    overflowLatched := false, orderErrorLatched := false }

section Step

variable {f : Fifo D W I}

theorem pushOrderOk_iff (hv : f.Valid) (e : Event W I) :
    f.pushOrderOk e = f.contents.getLast?.all (fun b => decide (ticks b ≤ ticks e)) := by
  rw [Fifo.pushOrderOk]
  rcases List.eq_nil_or_concat f.contents with hnil | ⟨front, last, hlast⟩
  · rw [empty_iff.mpr hnil, hnil]
    rfl
  · rw [List.concat_eq_append] at hlast
    have hne : f.empty = false := by
      rw [Bool.eq_false_iff, ne_eq, empty_iff, hlast]
      exact List.append_ne_nil_of_right_ne_nil _ (List.cons_ne_nil _ _)
    rw [hne, hv.last_eq, hlast, newest_append, List.getLast?_concat, Option.all_some, Bool.false_or,
      decide_eq_decide]
    exact BitVec.le_def

theorem accepted_fifo (hv : f.Valid) {i : FifoInput W I} (h : i.clear = false) :
    f.accepted i = OrderedQueue.accepted ticks D f.contents (fifoInput i) := by
  have hroom : (!f.full) = decide (f.contents.length < D) := by
    rw [contents_length, Fifo.full, ← decide_not, decide_eq_decide, Nat.not_le]
  rw [accepted_eq h, Fifo.acceptPush, hroom, pushOrderOk_iff hv, OrderedQueue.accepted, fifoInput]
  cases i.push with
  | false => rfl
  | true =>
      rw [Bool.true_and, if_pos rfl, Option.filter_some, OrderedQueue.accepts]
      split <;> rfl

theorem step_refines (hD : D < 65536) (hv : f.Valid) (i : FifoInput W I) :
    (f.step i).contents = OrderedQueue.step ticks D f.contents (fifoInput i) := by
  rw [OrderedQueue.step, fifoInput]
  cases h : i.clear with
  | true =>
      rw [step_clear h]
      exact contents_cleared f
  | false =>
      rw [step_contents hD hv h, accepted_fifo hv h]
      rfl

theorem queueStep_refines (hD : D < 65536) (hv : f.Valid) (i : QueueInput W I) :
    (queueStep f i).contents = OrderedQueue.step ticks D f.contents (queueInput i) := by
  rw [queueStep_contents hD hv, OrderedQueue.step, queueAccepted]
  cases h : i.clearQueue with
  | true =>
      rw [if_pos rfl, queueInput, h]
      rfl
  | false =>
      rw [accepted_fifo hv rfl, queueInput, h]
      rfl

end Step

/-- The registers and the outputs of a FIFO are those of a queue of at most D events in
the order of their timestamps. -/
structure Shows (f : Fifo D W I) (q : List (Event W I)) : Prop where
  count_le : f.count.toNat ≤ D
  write_eq : f.writePtr.toNat = (f.readPtr.toNat + f.count.toNat) % D
  level : f.level.toNat = q.length
  head : f.head = q.headD (Event.zero W I)
  empty : f.empty = q.isEmpty
  full : f.full = decide (D ≤ q.length)
  ordered : q.Pairwise (fun a b => a.timestamp ≤ b.timestamp)

theorem shows_contents {f : Fifo D W I} (hv : f.Valid) (hlength : f.contents.length ≤ D)
    (hordered : OrderedQueue.Ordered ticks f.contents) : Shows f f.contents where
  count_le := contents_length f ▸ hlength
  write_eq := hv.write_eq
  level := (contents_length f).symm
  head := by
    cases hq : f.contents with
    | nil => exact if_pos (empty_iff.mpr hq)
    | cons e q => exact (head_contents hv hq).2
  empty := by
    rw [Bool.eq_iff_iff, empty_iff, List.isEmpty_iff]
  full := by
    rw [Fifo.full, contents_length]
  ordered := hordered.imp (fun h => BitVec.le_def.mpr h)

/-- A machine of these registers that takes the steps of the queue shows it in every run. -/
theorem run_shows {κ : Type} {machine : Fifo D W I → κ → Fifo D W I}
    {input : κ → OrderedQueue.Input (Event W I)} (hD : 0 < D)
    (hvalid : ∀ f i, f.Valid → (machine f i).Valid)
    (hstep : ∀ f i, f.Valid →
      (machine f i).contents = OrderedQueue.step ticks D f.contents (input i))
    (mem : Nat → Event W I) (x : Nat → κ) (n : Nat) :
    Shows (wave machine (fifoReset mem) x n)
      (wave (OrderedQueue.step ticks D) [] (fun k => input (x k)) n) := by
  have hreset : (fifoReset mem : Fifo D W I).Valid :=
    ⟨hD, Nat.zero_le D, (Nat.zero_mod D).symm, rfl, List.Pairwise.nil⟩
  have hv : ∀ k, (wave machine (fifoReset mem) x k).Valid := wave_invariant hreset hvalid x
  have hcontents : ∀ k, (wave machine (fifoReset mem) x k).contents =
      wave (OrderedQueue.step ticks D) [] (fun k => input (x k)) k := by
    intro k
    induction k with
    | zero => rfl
    | succ k ih => rw [wave_succ, wave_succ, hstep _ _ (hv k), ih]
  have hlength : (wave (OrderedQueue.step ticks D) ([] : List (Event W I))
      (fun k => input (x k)) n).length ≤ D := by
    apply wave_invariant (P := fun q : List (Event W I) => q.length ≤ D)
    · exact Nat.zero_le D
    · exact fun _ _ h => OrderedQueue.length_step h
  have hordered : OrderedQueue.Ordered ticks (wave (OrderedQueue.step ticks D)
      ([] : List (Event W I)) (fun k => input (x k)) n) := by
    apply wave_invariant (P := OrderedQueue.Ordered ticks)
    · exact List.Pairwise.nil
    · exact fun _ _ h => OrderedQueue.ordered_step h
  rw [← hcontents] at hlength hordered ⊢
  exact shows_contents (hv n) hlength hordered

/-- Both event queues are one bounded queue in the order of its timestamps, at every depth
and in every clock of every run. -/
theorem queues_refine (hD : 2 ≤ D) (hD' : D ≤ 65535) (mem : Nat → Event W I)
    (x : Nat → FifoInput W I) (y : Nat → QueueInput W I) (n : Nat) :
    Shows (wave Fifo.step (fifoReset (D := D) mem) x n)
        (wave (OrderedQueue.step ticks D) [] (fun k => fifoInput (x k)) n) ∧
      Shows (wave queueStep (fifoReset (D := D) mem) y n)
        (wave (OrderedQueue.step ticks D) [] (fun k => queueInput (y k)) n) := by
  have hpos : 0 < D := by omega
  have hlt : D < 65536 := by omega
  exact ⟨run_shows hpos (fun _ i hv => step_valid hlt hv i) (fun _ i hv => step_refines hlt hv i)
      mem x n,
    run_shows hpos (fun _ i hv => queueStep_valid hlt hv i)
      (fun _ i hv => queueStep_refines hlt hv i) mem y n⟩

theorem queues_refine_three :
    Shows (wave Fifo.step (fifoReset (D := 3) (fun _ => Event.zero 1 1))
          (fun k => ⟨false, true, ⟨BitVec.ofNat 64 k, 1, 1, 0⟩, decide (k % 2 = 1)⟩) 9)
        (wave (OrderedQueue.step ticks 3) [] (fun k => fifoInput
          ⟨false, true, ⟨BitVec.ofNat 64 k, 1, 1, 0⟩, decide (k % 2 = 1)⟩) 9) ∧
      Shows (wave queueStep (fifoReset (D := 3) (fun _ => Event.zero 1 1))
          (fun _ => ⟨false, false, true, ⟨7, 1, 1, 0⟩, false⟩) 9)
        (wave (OrderedQueue.step ticks 3) [] (fun _ => queueInput
          ⟨false, false, true, ⟨7, 1, 1, 0⟩, false⟩) 9) :=
  queues_refine (by decide) (by decide) (fun _ => Event.zero 1 1) _ _ 9

end HilLab.Rtl.QueueRefinement
