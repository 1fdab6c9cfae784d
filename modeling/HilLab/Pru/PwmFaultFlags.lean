import HilLab.Lib.Latch
import HilLab.Pru.PwmEdgeLog
import HilLab.Pru.PwmMeasure

namespace HilLab.Pru.PwmFaultFlags

open Lib.Seqlock Lib.CodeView Lib.Latch PwmCaptureCore PwmEdgeLog PwmMeasure

section Latching

variable (i : Nat) (ticks inputs rise fall : Word)

theorem recordDeadtime_latches (highToLow : Bool) :
    Latches faultFlags (recordDeadtime i highToLow ticks) := by
  have hsample {a b c : Nat} (ha : a ≠ faultFlags) (hb : b ≠ faultFlags) (bits : Word) :
      Latches faultFlags (seq [set a ticks, increment b, setFlags c bits]) := by
    apply latches_cons (latches_of_avoids (avoids_set ha ticks))
    apply latches_cons (latches_of_avoids (avoids_increment hb))
    exact latches_cons (latches_or c bits) latches_nil
  have hpair (field : Nat) : pairWord i field ≠ faultFlags := by
    rw [pairWord, faultFlags]
    omega
  apply latches_cons
  · apply latches_ite
    · exact hsample (hpair 0) (hpair 2) pairDtHlValid
    · exact hsample (hpair 1) (hpair 3) pairDtLhValid
  · refine latches_cons (latches_whenever ?_) latches_nil
    apply latches_cons (latches_of_avoids (avoids_increment (hpair 5)))
    apply latches_cons (latches_or _ _)
    exact latches_cons (latches_or _ _) latches_nil

theorem pairSwitch_latches (risen fallen : Nat) (highToLow : Bool) :
    Latches faultFlags (pairSwitch ticks rise fall i risen fallen highToLow) := by
  refine latches_ite (latches_ite ?_ (latches_whenever (latches_reading fun t => ?_))) latches_skip
  · exact recordDeadtime_latches i 0 highToLow
  · exact recordDeadtime_latches i t highToLow

/-- The last part of a pass over a pair. -/
def overlapCheck (overlapNow : Prop) [Decidable overlapNow] : Code 32 :=
  if overlapNow then
    seq
      [whenever (fun m => m (pairFlags i) &&& pairOverlapActive == 0) (increment (overlapCount i)),
        setFlags (pairFlags i) (pairOverlapActive ||| pairOverlapLatched),
        setFlags faultFlags (faultOverlap i)]
  else clearFlags (pairFlags i) pairOverlapActive

theorem overlapCheck_latches (overlapNow : Prop) [Decidable overlapNow] :
    Latches faultFlags (overlapCheck i overlapNow) := by
  have hpair (field : Nat) : pairWord i field ≠ faultFlags := by
    rw [pairWord, faultFlags]
    omega
  apply latches_ite
  · apply latches_cons (latches_of_avoids (avoids_whenever (avoids_increment (hpair 4))))
    apply latches_cons (latches_or _ _)
    exact latches_cons (latches_or _ _) latches_nil
  · exact latches_of_avoids (avoids_clearFlags (hpair 6) _)

theorem pairEdges_latches : Latches faultFlags (pairEdges ticks inputs rise fall i) := by
  apply latches_cons (pairSwitch_latches i ticks rise fall _ _ true)
  apply latches_cons (pairSwitch_latches i ticks rise fall _ _ false)
  exact latches_cons (overlapCheck_latches i _) latches_nil

theorem measure_parts {c : Code 32} (hc : c ∈ [forEach channelCount (channelEdges ticks rise fall),
    forEach pairCount (pairEdges ticks inputs rise fall)]) : Latches faultFlags c := by
  simp only [List.mem_cons, List.not_mem_nil, or_false] at hc
  rcases hc with rfl | rfl
  · exact latches_of_avoids (channels_avoid (by decide) ticks rise fall)
  · apply latches_seq
    intro c hc
    obtain ⟨k, -, rfl⟩ := List.mem_map.mp hc
    exact pairEdges_latches k ticks inputs rise fall

theorem measure_latches : Latches faultFlags (measure ticks inputs rise fall) :=
  latches_seq (fun _ hc => measure_parts ticks inputs rise fall hc)

theorem pieces_latch (changed previous : Word) {c : Code 32}
    (hc : c ∈ pieces ticks inputs changed previous) : Latches faultFlags c := by
  simp only [pieces, List.mem_cons, List.not_mem_nil, or_false] at hc
  rcases hc with rfl | rfl | rfl | rfl | rfl
  · exact latches_of_avoids (avoids_cons (avoids_store (by decide) _) (avoids_cons
      (avoids_set (by decide) _) (avoids_cons (avoids_set (by decide) _) (avoids_cons
        (avoids_set (by decide) _) avoids_skip))))
  · exact latches_of_avoids (avoids_increment (by decide))
  · exact measure_latches ticks inputs _ _
  · exact latches_of_avoids (push_avoid (by decide) (by decide) (by decide) _ _ _)
  · exact latches_of_avoids (avoids_store (by decide) _)

theorem process_latches : Latches faultFlags (process ticks inputs) := by
  intro m
  by_cases hactive : Active m inputs
  · have hrun : after (process ticks inputs) m =
        after (seq (pieces ticks (inputs &&& logicalMask) (changedBy m inputs) (m inputBits))) m :=
      congrArg (run m) (process_active ticks inputs hactive)
    rw [hrun]
    exact latches_seq (fun _ hc => pieces_latch ticks _ _ _ hc) m
  · have hidle : after (process ticks inputs) m = m := congrArg (run m) (process_idle ticks inputs hactive)
    rw [hidle]
    exact keeps_rfl

omit i in
theorem start_avoids {addr : Nat} (h : addr ∉ [seqLock, running, inputBits, changedBits,
    lastTimestampTicks]) : Avoids addr (start ticks inputs) := by
  have hne {a : Nat} (ha : a ∈ [seqLock, running, inputBits, changedBits, lastTimestampTicks]) :
      a ≠ addr := fun heq => h (heq ▸ ha)
  have hbump : Avoids addr beginUpdate := avoids_store (hne (by decide)) _
  apply avoids_cons hbump
  refine avoids_cons ?_ (avoids_cons hbump avoids_skip)
  exact avoids_cons (avoids_set (hne (by decide)) _) (avoids_cons (avoids_set (hne (by decide)) _)
    (avoids_cons (avoids_set (hne (by decide)) _)
      (avoids_cons (avoids_set (hne (by decide)) _) avoids_skip)))

/-- Only a clear takes fault flags back. -/
theorem op_latches {op : Op} (h : ∀ inputs, op ≠ .clear inputs) : Latches faultFlags op.code := by
  have hbump : Avoids faultFlags beginUpdate := avoids_store (by decide) _
  cases op with
  | start ticks inputs => exact latches_of_avoids (start_avoids ticks inputs (by decide))
  | stop =>
      exact latches_of_avoids (avoids_cons hbump (avoids_cons (avoids_set (by decide) _)
        (avoids_cons hbump avoids_skip)))
  | setMinDeadtime ticks =>
      exact latches_of_avoids (avoids_cons hbump (avoids_cons (avoids_set (by decide) _)
        (avoids_cons hbump avoids_skip)))
  | process ticks inputs => exact process_latches ticks inputs
  | clear inputs => exact absurd rfl (h inputs)

end Latching

section Raising

variable {i : Nat} (ticks : Word) {inputs : Word} (rise fall : Word)

def overlapped (i : Nat) (inputs : Word) : Bool := bit inputs (i * 2) && bit inputs (i * 2 + 1)

theorem overlapped_iff (hi : i < pairCount) :
    overlapped i inputs = true ↔
      inputs &&& (1 <<< (i * 2)) ≠ 0 ∧ inputs &&& (1 <<< (i * 2 + 1)) ≠ 0 := by
  have hthree : i < 3 := hi
  rw [overlapped, Bool.and_eq_true]
  exact and_congr (masked_iff inputs (by omega)).symm (masked_iff inputs (by omega)).symm

theorem faultOverlap_bit (hi : i < pairCount) (j : Nat) : bit (faultOverlap i) j = decide (j = i) := by
  have hall : ∀ k, k < pairCount → faultOverlap k = mask k := by decide
  have hlt : pairCount < 32 := by decide
  rw [hall i hi]
  exact mask_bit (by omega) j

theorem pairEdges_raises (hi : i < pairCount) (h : overlapped i inputs = true) :
    Raises faultFlags i (pairEdges ticks inputs rise fall i) := by
  have hcheck : Raises faultFlags i (overlapCheck i
      (inputs &&& (1 <<< (i * 2)) ≠ 0 ∧ inputs &&& (1 <<< (i * 2 + 1)) ≠ 0)) := by
    rw [overlapCheck, if_pos ((overlapped_iff hi).mp h)]
    apply raises_tail
    apply raises_tail
    have hbit : (faultOverlap i).getLsbD i = true := (faultOverlap_bit hi i).trans (decide_eq_true rfl)
    exact raises_head (raises_or hbit) latches_nil
  apply raises_tail
  apply raises_tail
  exact raises_head hcheck latches_nil

theorem measure_raises (hi : i < pairCount) (h : overlapped i inputs = true) :
    Raises faultFlags i (measure ticks inputs rise fall) := by
  have hpass : pairEdges ticks inputs rise fall i ∈
      (List.range pairCount).map (pairEdges ticks inputs rise fall) :=
    List.mem_map_of_mem (List.mem_range.mpr hi)
  have hpairs : Raises faultFlags i (forEach pairCount (pairEdges ticks inputs rise fall)) := by
    apply raises_seq hpass (pairEdges_raises ticks rise fall hi h)
    intro c hc
    obtain ⟨k, -, rfl⟩ := List.mem_map.mp hc
    exact pairEdges_latches k ticks inputs rise fall
  apply raises_tail
  exact raises_head hpairs latches_nil

/-- A sample that changes the inputs into an overlap raises the fault of the pair. -/
theorem process_raises (hi : i < pairCount) {m : Memory 32} (hactive : Active m inputs)
    (h : overlapped i (inputs &&& logicalMask) = true) :
    (after (process ticks inputs) m faultFlags).getLsbD i = true := by
  have hrun : after (process ticks inputs) m =
      after (seq (pieces ticks (inputs &&& logicalMask) (changedBy m inputs) (m inputBits))) m :=
    congrArg (run m) (process_active ticks inputs hactive)
  have hmeasure := measure_raises ticks (changedBy m inputs &&& (inputs &&& logicalMask))
    (changedBy m inputs &&& m inputBits) hi h
  rw [hrun]
  refine raises_seq ?_ hmeasure (fun c hc => pieces_latch ticks _ _ _ hc) m
  exact List.mem_cons_of_mem _ (List.mem_cons_of_mem _ List.mem_cons_self)

end Raising

end HilLab.Pru.PwmFaultFlags
