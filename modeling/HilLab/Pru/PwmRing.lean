import HilLab.Pru.PwmBridge
import HilLab.Pru.PwmFaultFlags

namespace HilLab.Pru.PwmRing

open Lib.Seqlock Lib.CodeView Lib.RingLog Lib.Latch PwmCaptureCore PwmEdgeLog PwmFaultFlags
open PwmBridge

def eventsAfter (op : Op) (m : Memory 32) (log : List EdgeRecord) : List EdgeRecord :=
  match op with
  | .clear _ => []
  | _ => log ++ pushed op m

def eventsSince : List Op → Memory 32 → List EdgeRecord → List EdgeRecord
  | [], _, log => log
  | op :: ops, m, log => eventsSince ops (after op.code m) (eventsAfter op m log)

section Clear

theorem clear_logged (inputs : Word) (m : Memory 32) : Logged (after (clear inputs) m) [] := by
  rw [after_clear]
  apply (logged_initialised m (m tickHz) (m minDeadtimeTicks)).quiet
  apply quiet_seq
  simp only [List.forall_mem_cons]
  exact ⟨quiet_store (by decide) _, quiet_store (by decide) _, fun _ h => absurd h List.not_mem_nil⟩

end Clear

/-- The ring holds a log in which fault flags only accumulate, up to those of the block. -/
structure Accumulates (m : Memory 32) (log : List EdgeRecord) : Prop extends Logged m log where
  latched : ∀ record ∈ log, Keeps record.faultFlags (m faultFlags)
  ordered : log.Pairwise (fun a b => Keeps a.faultFlags b.faultFlags)

variable {m : Memory 32} {log : List EdgeRecord}

theorem accumulates_nil (h : Logged m []) : Accumulates m [] :=
  { toLogged := h
    latched := fun _ hmem => absurd hmem List.not_mem_nil
    ordered := List.Pairwise.nil }

theorem pushed_faultFlags {op : Op} {record : EdgeRecord} (h : record ∈ pushed op m) :
    record.faultFlags = after op.code m faultFlags := by
  cases op with
  | process ticks inputs =>
      rw [pushed] at h
      split_ifs at h
      · rw [List.mem_singleton.mp h]
      · cases h
  | start | stop | setMinDeadtime | clear => cases h

theorem pushed_ordered (op : Op) :
    (pushed op m).Pairwise (fun a b => Keeps a.faultFlags b.faultFlags) := by
  apply List.pairwise_of_forall_mem_list
  intro a ha b hb
  rw [pushed_faultFlags ha, pushed_faultFlags hb]
  exact keeps_rfl

theorem op_accumulates (h : Accumulates m log) (op : Op) :
    Accumulates (after op.code m) (eventsAfter op m log) := by
  by_cases hclear : ∃ inputs, op = .clear inputs
  · obtain ⟨inputs, rfl⟩ := hclear
    exact accumulates_nil (clear_logged inputs m)
  · have hop : ∀ inputs, op ≠ .clear inputs := fun inputs heq => hclear ⟨inputs, heq⟩
    have hgrow : Keeps (m faultFlags) (after op.code m faultFlags) := op_latches hop m
    have hlog : eventsAfter op m log = log ++ pushed op m := by
      cases op with
      | clear inputs => exact absurd rfl (hop inputs)
      | start | stop | setMinDeadtime | process => rfl
    rw [hlog]
    refine ⟨op_logged h.toLogged hop, fun record hmem => ?_, ?_⟩
    · rcases List.mem_append.mp hmem with hold | hnew
      · exact (h.latched record hold).trans hgrow
      · rw [pushed_faultFlags hnew]
        exact keeps_rfl
    · refine List.pairwise_append.mpr ⟨h.ordered, pushed_ordered op, fun a ha b hb => ?_⟩
      rw [pushed_faultFlags hb]
      exact (h.latched a ha).trans hgrow

theorem calls_accumulate (h : Accumulates m log) (ops : List Op) :
    Accumulates (after (calls ops) m) (eventsSince ops m log) := by
  induction ops generalizing m log with
  | nil => exact h
  | cons op ops ih =>
      rw [after_calls_cons, eventsSince]
      exact ih (op_accumulates h op)

def slotBack (m : Memory 32) (j : Nat) : Nat := ((m ringHead).toNat + ringCapacity - j) % ringCapacity

theorem record_back (h : Logged m log) {j : Nat} (hpos : 1 ≤ j) (hj : j ≤ (m ringCount).toNat) :
    log[log.length - j]? = some (recordAt m (slotBack m j)) := by
  have hcount := h.count
  have hlt : log.length - j < log.length := by omega
  have hslot : slotBack m j = (log.length - j) % ringCapacity := by
    rw [slotBack, h.head]
    rw [ringCapacity] at hcount ⊢
    omega
  rw [hslot, List.getElem?_eq_getElem hlt]
  exact congrArg some (h.records _ hlt (by omega)).symm

/-- After any calls since an init the three counters and the ring tell the events since the
last clear, latest first behind the head, and the fault flags of a record hold those of the
older ones. -/
theorem ring_holds_history (m : Memory 32) (hz minDeadtime : Word) (ops : List Op) :
    let events := eventsSince ops (initialised m hz minDeadtime) []
    let block := after (calls ops) (initialised m hz minDeadtime)
    block eventSeq = BitVec.ofNat 32 events.length ∧
      (block ringCount).toNat = min events.length 128 ∧
      (block ringHead).toNat = events.length % 128 ∧
      (∀ j, 1 ≤ j → j ≤ (block ringCount).toNat →
        events[events.length - j]? = some (recordAt block (slotBack block j))) ∧
      ∀ i j, 1 ≤ i → i ≤ j → j ≤ (block ringCount).toNat →
        Keeps (recordAt block (slotBack block j)).faultFlags
          (recordAt block (slotBack block i)).faultFlags := by
  intro events block
  have h : Accumulates block events :=
    calls_accumulate (accumulates_nil (logged_initialised m hz minDeadtime)) ops
  refine ⟨h.events, h.count, h.head, fun j hpos hj => record_back h.toLogged hpos hj,
    fun i j hpos hij hj => ?_⟩
  have holder := record_back h.toLogged (Nat.le_trans hpos hij) hj
  have hnewer := record_back h.toLogged hpos (Nat.le_trans hij hj)
  rcases Nat.eq_or_lt_of_le hij with rfl | hlt
  · exact keeps_rfl
  · have hcount := h.count
    obtain ⟨hold, hold'⟩ := List.getElem?_eq_some_iff.mp holder
    obtain ⟨hnew, hnew'⟩ := List.getElem?_eq_some_iff.mp hnewer
    rw [← hold', ← hnew']
    exact List.pairwise_iff_getElem.mp h.ordered _ _ hold hnew (by omega)

end HilLab.Pru.PwmRing
