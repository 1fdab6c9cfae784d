import HilLab.Pru.PwmRing
import Mathlib.Tactic.IntervalCases

namespace HilLab.Pru.PwmMonitor

open Lib.Seqlock Lib.CodeView PwmCaptureCore PwmSeqlock PwmEdgeLog PwmMeasure PwmBridge
open PwmRing (clear_logged)
open PwmFaultFlags (faultOverlap_bit start_avoids)

/-- The faults that a pair has latched, in the place the summary word has for the pair k. -/
def pairFaults (k : Nat) (p : Pair) : Word :=
  (if p.overlapLatched then faultOverlap k else 0) |||
    if p.violationLatched then faultDeadtime k else 0

def faults (leg : Nat → Leg) : Word :=
  pairFaults 0 (leg 0).pair ||| pairFaults 1 (leg 1).pair ||| pairFaults 2 (leg 2).pair

/-- What a capture is for: the three half bridges as their inputs have shown them while it ran,
and every change of the inputs since the last clear. -/
structure Monitor where
  running : Bool
  inputs : Word
  minDeadtime : Word
  leg : Nat → Leg
  events : List EdgeRecord

namespace Monitor

def idle (inputs minDeadtime : Word) : Monitor :=
  { running := false, inputs, minDeadtime, leg := fun _ => .clear minDeadtime, events := [] }

def turn (w : Monitor) (ticks inputs : Word) (k : Nat) : Leg :=
  (w.leg k).edges ticks (edgesOf w.inputs inputs (k * 2)) (edgesOf w.inputs inputs (k * 2 + 1))

def see (w : Monitor) (ticks inputs : Word) : Monitor :=
  if w.running = true ∧ inputs ≠ w.inputs then
    { w with
      inputs
      leg := w.turn ticks inputs
      events := w.events ++
        [⟨ticks, inputs, inputs ^^^ w.inputs, faults (w.turn ticks inputs)⟩] }
  else w

def start (w : Monitor) (inputs : Word) : Monitor := { w with running := true, inputs }

def stop (w : Monitor) : Monitor := { w with running := false }

def config (w : Monitor) (minDeadtime : Word) : Monitor :=
  { w with minDeadtime, leg := fun k => { w.leg k with minDeadtime } }

def clear (w : Monitor) (inputs : Word) : Monitor :=
  { idle inputs w.minDeadtime with running := w.running }

def op (w : Monitor) : Op → Monitor
  | .start _ inputs => w.start (inputs &&& logicalMask)
  | .stop => w.stop
  | .setMinDeadtime minDeadtime => w.config minDeadtime
  | .process ticks inputs => w.see ticks (inputs &&& logicalMask)
  | .clear inputs => w.clear (inputs &&& logicalMask)

def bridge (w : Monitor) (k : Nat) : Bridge :=
  { running := if w.running then 1 else 0, inputBits := w.inputs, leg := w.leg k }

end Monitor

section Bridges

variable {w : Monitor}

/-- The inputs are six bits, and one policy stands for all legs. -/
structure Coherent (w : Monitor) : Prop where
  masked : w.inputs &&& logicalMask = w.inputs
  policy : ∀ k, (w.leg k).minDeadtime = w.minDeadtime

theorem coherent_op (h : Coherent w) (op : Op) : Coherent (w.op op) := by
  cases op with
  | start ticks inputs => exact ⟨masked_mask inputs, h.policy⟩
  | stop => exact ⟨h.masked, h.policy⟩
  | setMinDeadtime minDeadtime => exact ⟨h.masked, fun _ => rfl⟩
  | process ticks inputs =>
      rw [Monitor.op, Monitor.see]
      split
      · exact ⟨masked_mask inputs, h.policy⟩
      · exact h
  | clear inputs => exact ⟨masked_mask inputs, fun _ => rfl⟩

theorem bridge_see (hmask : w.inputs &&& logicalMask = w.inputs) (k : Nat) (ticks inputs : Word) :
    Bridge.process k ticks inputs (w.bridge k) =
      (w.see ticks (inputs &&& logicalMask)).bridge k := by
  rw [Bridge.process, Monitor.see, Monitor.bridge]
  cases hrun : w.running with
  | false => simp [Monitor.bridge, hrun]
  | true =>
      by_cases hsame : inputs &&& logicalMask = w.inputs
      · simp [Monitor.bridge, hrun, hsame, hmask]
      · simp [Monitor.bridge, Monitor.turn, hsame, hmask]

theorem bridge_op (h : Coherent w) (k : Nat) (op : Op) :
    Bridge.op k op (w.bridge k) = (w.op op).bridge k := by
  cases op with
  | start ticks inputs => rfl
  | stop => rfl
  | setMinDeadtime minDeadtime => rfl
  | process ticks inputs => exact bridge_see h.masked k ticks inputs
  | clear inputs =>
      rw [Bridge.op, Monitor.bridge, h.policy]
      rfl

end Bridges

section Summary

/-- The flag j of the summary word, by the flags of the pairs. -/
def flagged (m : Memory 32) (j : Nat) : Bool :=
  (decide (j < 3) && bit (m (pairFlags j)) 3) ||
    (decide (8 ≤ j ∧ j < 11) && bit (m (pairFlags (j - 8))) 4)

/-- The summary word tells what the pairs have latched, and nothing else. -/
def Summed (m : Memory 32) : Prop := ∀ j, bit (m faultFlags) j = flagged m j

theorem summed_congr {m m' : Memory 32} (h : Summed m) (hf : m' faultFlags = m faultFlags)
    (hp : ∀ k, k < 3 → bit (m' (pairFlags k)) 3 = bit (m (pairFlags k)) 3 ∧
      bit (m' (pairFlags k)) 4 = bit (m (pairFlags k)) 4) : Summed m' := by
  intro j
  rw [hf, h j, flagged, flagged]
  congr 1
  · by_cases hj : j < 3
    · rw [(hp j hj).1]
    · rw [decide_eq_false hj, Bool.false_and, Bool.false_and]
  · by_cases hj : 8 ≤ j ∧ j < 11
    · rw [(hp (j - 8) (by omega)).2]
    · rw [decide_eq_false hj, Bool.false_and, Bool.false_and]

theorem summed_avoids {c : Code 32} (hf : Avoids faultFlags c)
    (hp : ∀ k, k < 3 → Avoids (pairFlags k) c) : Preserves Summed c := by
  intro m h
  have hsame (k : Nat) (hk : k < 3) : after c m (pairFlags k) = m (pairFlags k) :=
    run_of_avoids (hp k hk) m
  refine summed_congr h (run_of_avoids hf m) (fun k hk => ?_)
  rw [hsame k hk]
  exact ⟨rfl, rfl⟩

theorem pairFlags_inj {i k : Nat} : pairFlags k = pairFlags i ↔ k = i := by
  rw [pairFlags, pairFlags, pairWord, pairWord]
  omega

theorem pairFlags_ne (k : Nat) : pairFlags k ≠ faultFlags := by
  rw [pairFlags, pairWord, faultFlags]
  omega

theorem summed_pairFlags (i : Nat) {value : Memory 32 → Word}
    (h : ∀ m, bit (value m) 3 = bit (m (pairFlags i)) 3 ∧ bit (value m) 4 = bit (m (pairFlags i)) 4) :
    Preserves Summed (store (pairFlags i) value) := by
  intro m hm
  have hafter : after (store (pairFlags i) value) m = Function.update m (pairFlags i) (value m) := rfl
  rw [hafter]
  refine summed_congr hm (Function.update_of_ne (pairFlags_ne i).symm _ _) (fun k _ => ?_)
  by_cases hk : k = i
  · rw [hk, Function.update_self]
    exact h m
  · rw [Function.update_of_ne (fun heq => hk (pairFlags_inj.mp heq))]
    exact ⟨rfl, rfl⟩

theorem summed_latch {i : Nat} (hi : i < 3) {own sum : Word}
    (h : ∀ j, bit sum j = ((decide (j = i) && bit own 3) || (decide (j = 8 + i) && bit own 4))) :
    Preserves Summed (seq [setFlags (pairFlags i) own, setFlags faultFlags sum]) := by
  intro m hm j
  have hafter : after (seq [setFlags (pairFlags i) own, setFlags faultFlags sum]) m =
      Function.update (Function.update m (pairFlags i) (m (pairFlags i) ||| own)) faultFlags
        (Function.update m (pairFlags i) (m (pairFlags i) ||| own) faultFlags ||| sum) := rfl
  have hpair (k : Nat) : Function.update (Function.update m (pairFlags i) (m (pairFlags i) ||| own))
      faultFlags (m faultFlags ||| sum) (pairFlags k) =
        if k = i then m (pairFlags k) ||| own else m (pairFlags k) := by
    rw [Function.update_of_ne (pairFlags_ne k)]
    by_cases hk : k = i
    · rw [hk, Function.update_self, if_pos rfl]
    · rw [Function.update_of_ne (fun heq => hk (pairFlags_inj.mp heq)), if_neg hk]
  rw [hafter, Function.update_of_ne (pairFlags_ne i).symm, Function.update_self, bit_or, hm j, h j,
    flagged, flagged, hpair, hpair]
  by_cases hj : j = i
  · subst hj
    have hlow : ¬(8 ≤ j ∧ j < 11) := by omega
    have hhigh : j ≠ 8 + j := by omega
    simp [hi, hlow, bit_or]
  · by_cases hj' : j = 8 + i
    · subst hj'
      have hlow : ¬(8 + i < 3) := by omega
      have hhigh : 8 + i < 11 := by omega
      simp [hhigh, bit_or, hlow]
    · have hother : 8 ≤ j ∧ j < 11 → j - 8 ≠ i := by omega
      by_cases hin : 8 ≤ j ∧ j < 11
      · simp [hj, hj', hother hin]
      · simp [hj, hj', hin]

end Summary

section Latching

theorem summed_header {addr : Nat} (h : addr < 20) (hf : addr ≠ faultFlags)
    (value : Memory 32 → Word) : Preserves Summed (store addr value) := by
  apply summed_avoids
  · exact avoids_store hf value
  · intro k _
    apply avoids_store
    rw [pairFlags, pairWord]
    omega

theorem summed_pairWord (k : Nat) {field : Nat} (hfield : field < 6) (value : Memory 32 → Word) :
    Preserves Summed (store (pairWord k field) value) := by
  apply summed_avoids
  · apply avoids_store
    rw [pairWord, faultFlags]
    omega
  · intro i _
    apply avoids_store
    rw [pairFlags, pairWord, pairWord]
    omega

theorem faultDeadtime_bit {i : Nat} (hi : i < 3) (j : Nat) :
    bit (faultDeadtime i) j = decide (j = 8 + i) := by
  have hmask : faultDeadtime i = mask (8 + i) := by
    interval_cases i <;> rfl
  rw [hmask]
  exact mask_bit (by omega) j

theorem summed_recordDeadtime {i : Nat} (hi : i < 3) (highToLow : Bool) (ticks : Word) :
    Preserves Summed (recordDeadtime i highToLow ticks) := by
  have hvalid (bits : Word) (h3 : bit bits 3 = false) (h4 : bit bits 4 = false) :
      Preserves Summed (setFlags (pairFlags i) bits) := by
    apply summed_pairFlags
    intro m
    rw [bit_or, bit_or, h3, h4, Bool.or_false, Bool.or_false]
    exact ⟨rfl, rfl⟩
  have hlatch : Preserves Summed
      (seq [setFlags (pairFlags i) pairViolationLatched, setFlags faultFlags (faultDeadtime i)]) := by
    apply summed_latch hi
    intro j
    have h3 : bit pairViolationLatched 3 = false := by decide
    have h4 : bit pairViolationLatched 4 = true := by decide
    rw [faultDeadtime_bit hi, h3, h4, Bool.and_false, Bool.false_or, Bool.and_true]
  apply preserves_cons
  · apply preserves_ite
    · apply preserves_cons (summed_pairWord i (by decide) _)
      apply preserves_cons (summed_pairWord i (by decide) _)
      exact preserves_cons (hvalid pairDtHlValid (by decide) (by decide)) preserves_nil
    · apply preserves_cons (summed_pairWord i (by decide) _)
      apply preserves_cons (summed_pairWord i (by decide) _)
      exact preserves_cons (hvalid pairDtLhValid (by decide) (by decide)) preserves_nil
  · refine preserves_cons (preserves_whenever ?_) preserves_nil
    exact preserves_cons (summed_pairWord i (by decide) _) hlatch

theorem summed_pairSwitch {i : Nat} (hi : i < 3) (ticks rise fall : Word) (risen fallen : Nat)
    (highToLow : Bool) : Preserves Summed (pairSwitch ticks rise fall i risen fallen highToLow) := by
  refine preserves_ite (preserves_ite ?_ (preserves_whenever (preserves_reading fun t => ?_)))
    preserves_skip
  · exact summed_recordDeadtime hi highToLow 0
  · exact summed_recordDeadtime hi highToLow t

theorem summed_pairEdges {i : Nat} (hi : i < 3) (ticks inputs rise fall : Word) :
    Preserves Summed (pairEdges ticks inputs rise fall i) := by
  apply preserves_cons (summed_pairSwitch hi _ _ _ _ _ _)
  apply preserves_cons (summed_pairSwitch hi _ _ _ _ _ _)
  refine preserves_cons (preserves_ite ?_ ?_) preserves_nil
  · apply preserves_cons (preserves_whenever (summed_pairWord i (by decide) _))
    apply summed_latch hi
    intro j
    have h3 : bit (pairOverlapActive ||| pairOverlapLatched) 3 = true := by decide
    have h4 : bit (pairOverlapActive ||| pairOverlapLatched) 4 = false := by decide
    rw [faultOverlap_bit hi, h3, h4, Bool.and_false, Bool.or_false, Bool.and_true]
  · apply summed_pairFlags
    intro m
    have h3 : bit (~~~pairOverlapActive) 3 = true := by decide
    have h4 : bit (~~~pairOverlapActive) 4 = true := by decide
    rw [bit_and, bit_and, h3, h4, Bool.and_true, Bool.and_true]
    exact ⟨rfl, rfl⟩

theorem summed_measure (ticks inputs rise fall : Word) :
    Preserves Summed (measure ticks inputs rise fall) := by
  refine preserves_cons ?_ (preserves_cons ?_ preserves_nil)
  · apply summed_avoids
    · exact channels_avoid (by decide) ticks rise fall
    · intro k hk
      refine avoids_seq (fun c hc => ?_)
      obtain ⟨i, hi, rfl⟩ := List.mem_map.mp hc
      have hsix : i < 6 := List.mem_range.mp hi
      refine channelEdges_avoids (fun field hfield => ?_) ticks rise fall
      rw [channelWord, pairFlags, pairWord]
      omega
  · apply preserves_seq
    intro c hc
    obtain ⟨i, hi, rfl⟩ := List.mem_map.mp hc
    exact summed_pairEdges (List.mem_range.mp hi) ticks inputs rise fall

theorem summed_push (ticks inputs changed : Word) :
    Preserves Summed (pushEdgeRecord ticks inputs changed) := by
  apply summed_avoids
  · exact push_avoid (by decide) (by decide) (by decide) _ _ _
  · intro k hk
    refine push_avoid ?_ ?_ ?_ _ _ _
    · rw [pairFlags, pairWord, summaryWords]
      omega
    · rw [pairFlags, pairWord, ringHead]
      omega
    · rw [pairFlags, pairWord, ringCount]
      omega

theorem summed_process (ticks inputs : Word) : Preserves Summed (process ticks inputs) := by
  intro m hm
  by_cases hactive : Active m inputs
  · have hrun : after (process ticks inputs) m =
        after (seq (pieces ticks (inputs &&& logicalMask) (changedBy m inputs) (m inputBits))) m :=
      congrArg (run m) (process_active ticks inputs hactive)
    rw [hrun]
    refine preserves_cons ?_ (preserves_cons ?_ (preserves_cons ?_ (preserves_cons ?_
      (preserves_cons ?_ preserves_nil)))) m hm
    · apply preserves_cons (summed_header (by decide) (by decide) _)
      apply preserves_cons (summed_header (by decide) (by decide) _)
      apply preserves_cons (summed_header (by decide) (by decide) _)
      exact preserves_cons (summed_header (by decide) (by decide) _) preserves_nil
    · exact summed_header (by decide) (by decide) _
    · exact summed_measure _ _ _ _
    · exact summed_push _ _ _
    · exact summed_header (by decide) (by decide) _
  · have hidle : after (process ticks inputs) m = m := congrArg (run m) (process_idle ticks inputs hactive)
    rw [hidle]
    exact hm

theorem summed_initialised (m : Memory 32) (hz minDeadtime : Word) :
    Summed (initialised m hz minDeadtime) := by
  have hzero {addr : Nat} (h : 16 ≤ addr) (hlt : addr < sharedWords) :
      initialised m hz minDeadtime addr = 0 := by
    apply initialised_zero hlt
    have hheader : ∀ a ∈ [magic, version, totalSize, tickHz, channelCountWord, pairCountWord,
        ringCapacityWord, minDeadtimeTicks], a < 16 := by decide
    intro a ha
    exact Nat.ne_of_lt (Nat.lt_of_lt_of_le (hheader a ha) h)
  have hpair (k : Nat) (hk : k < 3) : initialised m hz minDeadtime (pairFlags k) = 0 := by
    apply hzero
    · rw [pairFlags, pairWord]
      omega
    · rw [pairFlags, pairWord, sharedWords, summaryWords, ringCapacity]
      omega
  have hbit (j : Nat) : bit 0 j = false := BitVec.getLsbD_zero
  intro j
  rw [hzero (by decide) (by decide), hbit, flagged]
  by_cases hj : j < 3
  · have hlow : ¬(8 ≤ j ∧ j < 11) := by omega
    rw [hpair j hj, hbit, decide_eq_false hlow, Bool.and_false, Bool.false_and, Bool.or_false]
  · by_cases hj' : 8 ≤ j ∧ j < 11
    · rw [hpair (j - 8) (by omega), hbit, decide_eq_false hj, Bool.and_false, Bool.false_and,
        Bool.or_false]
    · rw [decide_eq_false hj, decide_eq_false hj']
      rfl

theorem summed_op (op : Op) : Preserves Summed op.code := by
  have hbracket {a : Nat} (h : a < 20) (hf : a ≠ faultFlags) (value : Word) :
      Preserves Summed (seq [beginUpdate, set a value, endUpdate]) := by
    apply preserves_cons (summed_header (by decide) (by decide) _)
    apply preserves_cons (summed_header h hf _)
    exact preserves_cons (summed_header (by decide) (by decide) _) preserves_nil
  cases op with
  | start ticks inputs =>
      apply preserves_cons (summed_header (by decide) (by decide) _)
      refine preserves_cons ?_ (preserves_cons (summed_header (by decide) (by decide) _) preserves_nil)
      apply preserves_cons (summed_header (by decide) (by decide) _)
      apply preserves_cons (summed_header (by decide) (by decide) _)
      apply preserves_cons (summed_header (by decide) (by decide) _)
      exact preserves_cons (summed_header (by decide) (by decide) _) preserves_nil
  | stop => exact hbracket (by decide) (by decide) 0
  | setMinDeadtime minDeadtime => exact hbracket (by decide) (by decide) minDeadtime
  | process ticks inputs => exact summed_process ticks inputs
  | clear inputs =>
      intro m _
      have hcode : after (Op.clear inputs).code m = _ := after_clear inputs m
      rw [hcode]
      refine preserves_cons (summed_header (by decide) (by decide) _)
        (preserves_cons (summed_header (by decide) (by decide) _) preserves_nil) _ ?_
      exact summed_initialised m (m tickHz) (m minDeadtimeTicks)

/-- The summary word is the one of the legs. -/
theorem summed_faults {m : Memory 32} (h : Summed m) : m faultFlags = faults (fun k => legAt k m) := by
  have hoverlap (k : Nat) : (legAt k m).pair.overlapLatched = bit (m (pairFlags k)) 3 := rfl
  have hviolation (k : Nat) : (legAt k m).pair.violationLatched = bit (m (pairFlags k)) 4 := rfl
  have hif (b : Bool) (x : Word) (j : Nat) : bit (if b then x else 0) j = (b && bit x j) := by
    cases b with
    | false => exact BitVec.getLsbD_zero
    | true => rfl
  apply BitVec.eq_of_getLsbD_eq
  intro j _
  refine (h j).trans ?_
  change _ = bit _ j
  simp only [faults, pairFaults, bit_or, hif, hoverlap, hviolation, faultOverlap_bit (by decide : 0 < 3),
    faultOverlap_bit (by decide : 1 < 3), faultOverlap_bit (by decide : 2 < 3),
    faultDeadtime_bit (by decide : 0 < 3), faultDeadtime_bit (by decide : 1 < 3),
    faultDeadtime_bit (by decide : 2 < 3), flagged]
  by_cases hj : j < 11
  · interval_cases j <;> simp
  · have h3 : ¬ j < 3 := by omega
    simp [hj, h3]
    omega

end Latching

section Header

/-- The words of the header that tell what kind of block it is. -/
def headerWords (hz : Word) : List (Nat × Word) :=
  [(magic, sharedMagic), (version, sharedVersion), (totalSize, BitVec.ofNat 32 (4 * sharedWords)),
    (tickHz, hz), (channelCountWord, BitVec.ofNat 32 channelCount),
    (pairCountWord, BitVec.ofNat 32 pairCount), (ringCapacityWord, BitVec.ofNat 32 ringCapacity)]

def Headed (hz : Word) (m : Memory 32) : Prop := ∀ p ∈ headerWords hz, m p.1 = p.2

theorem sets_read {l : List (Nat × Word)} (hnodup : (l.map Prod.fst).Nodup) {p : Nat × Word}
    (hp : p ∈ l) (m : Memory 32) : after (seq (l.map (fun p => set p.1 p.2))) m p.1 = p.2 := by
  induction l generalizing m with
  | nil => cases hp
  | cons q l ih =>
      rw [List.map_cons, List.nodup_cons] at hnodup
      rw [List.map_cons, after_cons]
      rcases List.mem_cons.mp hp with rfl | hp
      · have hrest : Avoids p.1 (seq (l.map (fun p => set p.1 p.2))) := by
          refine avoids_seq (fun c hc => ?_)
          obtain ⟨r, hr, rfl⟩ := List.mem_map.mp hc
          have hfst : r.1 ∈ l.map Prod.fst := List.mem_map_of_mem hr
          refine avoids_set (fun heq => hnodup.1 ?_) r.2
          rw [← heq]
          exact hfst
        have hsame := run_of_avoids hrest (after (set p.1 p.2) m)
        exact hsame.trans (after_store p.1 _ m)
      · exact ih hnodup.2 hp _

theorem headed_initialised (m : Memory 32) (hz minDeadtime : Word) :
    Headed hz (initialised m hz minDeadtime) := by
  intro p hp
  have hinit : initialised m hz minDeadtime =
      after (seq ((headerWords hz ++ [(minDeadtimeTicks, minDeadtime)]).map
        (fun p => set p.1 p.2))) (after (clearWords sharedWords) m) :=
    after_cons (clearWords sharedWords) _ m
  rw [hinit]
  have hnodup : ((headerWords hz ++ [(minDeadtimeTicks, minDeadtime)]).map Prod.fst).Nodup := by
    change [magic, version, totalSize, tickHz, channelCountWord, pairCountWord, ringCapacityWord,
      minDeadtimeTicks].Nodup
    decide
  exact sets_read hnodup (List.mem_append_left _ hp) _

theorem headerWords_lt {hz : Word} {p : Nat × Word} (hp : p ∈ headerWords hz) :
    p.1 < 8 ∧ seqLock ≠ p.1 := by
  have hall : ∀ a ∈ [magic, version, totalSize, tickHz, channelCountWord, pairCountWord,
      ringCapacityWord], a < 8 ∧ seqLock ≠ a := by decide
  exact hall p.1 (List.mem_map_of_mem hp)

theorem op_avoids {addr : Nat} (h : addr < 8) (hl : seqLock ≠ addr) {op : Op}
    (hclear : ∀ inputs, op ≠ .clear inputs) : Avoids addr op.code := by
  have hne {a : Nat} (ha : 8 ≤ a) : a ≠ addr := by omega
  have hbump : Avoids addr beginUpdate := avoids_store hl _
  have hbracket (a : Nat) (ha : 8 ≤ a) (value : Word) :
      Avoids addr (seq [beginUpdate, set a value, endUpdate]) :=
    avoids_cons hbump (avoids_cons (avoids_set (hne ha) _) (avoids_cons hbump avoids_skip))
  cases op with
  | start ticks inputs =>
      apply start_avoids
      simp only [List.mem_cons, List.not_mem_nil, or_false, not_or]
      exact ⟨hl.symm, (hne (by decide)).symm, (hne (by decide)).symm, (hne (by decide)).symm,
        (hne (by decide)).symm⟩
  | stop => exact hbracket running (by decide) 0
  | setMinDeadtime minDeadtime => exact hbracket minDeadtimeTicks (by decide) minDeadtime
  | process ticks inputs =>
      refine avoids_whenever (avoids_reading (fun previous => avoids_whenever ?_))
      refine avoids_cons hbump (avoids_cons ?_ (avoids_cons hbump avoids_skip))
      apply avoids_cons (avoids_set (hne (by decide)) _)
      apply avoids_cons (avoids_set (hne (by decide)) _)
      apply avoids_cons (avoids_set (hne (by decide)) _)
      apply avoids_cons (avoids_increment (hne (by decide)))
      apply avoids_cons (channels_avoid (by omega) _ _ _)
      apply avoids_cons (pairs_avoid (by omega) (hne (by decide)).symm _ _ _ _)
      refine avoids_cons (push_avoid ?_ (hne (by decide)) (hne (by decide)) _ _ _) avoids_skip
      rw [summaryWords]
      omega
  | clear inputs => exact absurd rfl (hclear inputs)

theorem clear_read {addr : Nat} (hi : inputBits ≠ addr) (hr : running ≠ addr) (inputs : Word) (m : Memory 32) :
    after (Op.clear inputs).code m addr = initialised m (m tickHz) (m minDeadtimeTicks) addr := by
  have hcode : after (Op.clear inputs).code m = _ := after_clear inputs m
  rw [hcode]
  exact run_of_avoids (avoids_cons (avoids_set hi (inputs &&& logicalMask))
    (avoids_cons (avoids_set hr (m running)) avoids_skip)) _

theorem headed_op {hz : Word} (op : Op) : Preserves (Headed hz) op.code := by
  intro m h p hp
  obtain ⟨hlt, hlock⟩ := headerWords_lt hp
  by_cases hclear : ∃ inputs, op = .clear inputs
  · obtain ⟨inputs, rfl⟩ := hclear
    have htick : m tickHz = hz := h (tickHz, hz) (by simp [headerWords])
    have hbeyond {a : Nat} (ha : 8 ≤ a) : a ≠ p.1 := by omega
    rw [clear_read (hbeyond (by decide)) (hbeyond (by decide)), htick]
    exact headed_initialised m hz _ p hp
  · have havoids := op_avoids hlt hlock (fun inputs heq => hclear ⟨inputs, heq⟩)
    exact (run_of_avoids havoids m).trans (h p hp)

theorem op_even (op : Op) : Preserves (fun m => odd (m seqLock) = false) op.code := by
  intro m h
  by_cases hclear : ∃ inputs, op = .clear inputs
  · obtain ⟨inputs, rfl⟩ := hclear
    have hzero : after (Op.clear inputs).code m seqLock = 0 := by
      rw [clear_read (by decide) (by decide)]
      exact initialised_seqLock m _ _
    change odd (after (Op.clear inputs).code m seqLock) = false
    rw [hzero]
    rfl
  · exact (op_publishes (fun inputs heq => hclear ⟨inputs, heq⟩) m h).2

end Header

section Represents

/-- The block tells the monitor: every word that a reader of the block uses. -/
structure Represents (w : Monitor) (hz : Word) (m : Memory 32) : Prop where
  coherent : Coherent w
  header : Headed hz m
  even : odd (m seqLock) = false
  policy : m minDeadtimeTicks = w.minDeadtime
  bridge : ∀ k, k < pairCount → bridgeAt k m = w.bridge k
  summed : Summed m
  ring : Logged m w.events

variable {w : Monitor} {hz : Word} {m : Memory 32}

theorem Represents.running (h : Represents w hz m) : m running = if w.running then 1 else 0 :=
  congrArg Bridge.running (h.bridge 0 (by decide))

theorem Represents.inputs (h : Represents w hz m) : m inputBits = w.inputs :=
  congrArg Bridge.inputBits (h.bridge 0 (by decide))

theorem Represents.leg (h : Represents w hz m) {k : Nat} (hk : k < pairCount) : legAt k m = w.leg k :=
  congrArg Bridge.leg (h.bridge k hk)

theorem Represents.faults (h : Represents w hz m) : m faultFlags = faults w.leg := by
  rw [summed_faults h.summed, PwmMonitor.faults, PwmMonitor.faults, h.leg (by decide : 0 < pairCount),
    h.leg (by decide : 1 < pairCount), h.leg (by decide : 2 < pairCount)]

theorem represents_initialised (m : Memory 32) (hz minDeadtime : Word) :
    Represents (.idle 0 minDeadtime) hz (initialised m hz minDeadtime) where
  coherent := ⟨BitVec.zero_and, fun _ => rfl⟩
  header := headed_initialised m hz minDeadtime
  even := by
    rw [initialised_seqLock]
    rfl
  policy := initialised_minDeadtimeTicks m hz minDeadtime
  bridge k hk := initialised_bridge hk m hz minDeadtime
  summed := summed_initialised m hz minDeadtime
  ring := logged_initialised m hz minDeadtime

theorem represents_inputBits {inputs minDeadtime : Word}
    (h : Represents (.idle inputs minDeadtime) hz m) {x : Word} (hx : x &&& logicalMask = x) :
    Represents (.idle x minDeadtime) hz (after (set inputBits x) m) := by
  have havoids {addr : Nat} (ha : inputBits ≠ addr) : after (set inputBits x) m addr = m addr :=
    run_of_avoids (avoids_set ha x) m
  refine ⟨⟨hx, fun _ => rfl⟩, fun p hp => ?_, ?_, ?_, fun k hk => ?_, ?_, ?_⟩
  · rw [havoids (Nat.ne_of_gt (Nat.lt_of_lt_of_le (headerWords_lt hp).1 (by decide)))]
    exact h.header p hp
  · rw [havoids (by decide)]
    exact h.even
  · rw [havoids (by decide)]
    exact h.policy
  · rw [acts_inputBits hk x m, h.bridge k hk]
    rfl
  · exact summed_header (by decide) (by decide) _ m h.summed
  · exact h.ring.quiet (quiet_store (by decide) _)

theorem changedBy_eq (h : Represents w hz m) (inputs : Word) :
    changedBy m inputs = (inputs &&& logicalMask) ^^^ w.inputs := by
  rw [changedBy, h.inputs]
  apply BitVec.eq_of_getLsbD_eq
  intro i _
  have hmasked : bit w.inputs i = (bit w.inputs i && bit logicalMask i) := by
    rw [← bit_and, h.coherent.masked]
  change bit _ i = bit _ i
  rw [bit_and, bit_xor, bit_and, hmasked]
  cases bit logicalMask i <;> simp

theorem active_eq (h : Represents w hz m) (inputs : Word) :
    Active m inputs ↔ w.running = true ∧ inputs &&& logicalMask ≠ w.inputs := by
  rw [Active, changedBy_eq h, h.running]
  apply and_congr
  · cases w.running <;> simp
  · exact not_congr BitVec.xor_eq_zero_iff

theorem ring_op (h : Represents w hz m) (op : Op)
    (hfaults : after op.code m faultFlags = faults (w.op op).leg) :
    Logged (after op.code m) (w.op op).events := by
  by_cases hclear : ∃ inputs, op = .clear inputs
  · obtain ⟨inputs, rfl⟩ := hclear
    exact clear_logged inputs m
  · have hlogged := op_logged h.ring (fun inputs heq => hclear ⟨inputs, heq⟩)
    have hevents : (w.op op).events = w.events ++ pushed op m := by
      cases op with
      | start | stop | setMinDeadtime => exact (List.append_nil _).symm
      | clear inputs => exact absurd ⟨inputs, rfl⟩ hclear
      | process ticks inputs =>
          rw [Monitor.op, Monitor.see] at hfaults ⊢
          by_cases hactive : w.running = true ∧ inputs &&& logicalMask ≠ w.inputs
          · have hpushed : pushed (.process ticks inputs) m =
                [⟨ticks, inputs &&& logicalMask, changedBy m inputs,
                  after (Op.process ticks inputs).code m faultFlags⟩] :=
              if_pos ((active_eq h inputs).mpr hactive)
            rw [if_pos hactive] at hfaults ⊢
            rw [hpushed, changedBy_eq h, hfaults]
          · have hpushed : pushed (.process ticks inputs) m = [] :=
              if_neg (fun hm => hactive ((active_eq h inputs).mp hm))
            rw [if_neg hactive, hpushed, List.append_nil]
    rw [hevents]
    exact hlogged

theorem represents_op (h : Represents w hz m) (op : Op) : Represents (w.op op) hz (after op.code m) := by
  have hbridge (k : Nat) (hk : k < pairCount) : bridgeAt k (after op.code m) = (w.op op).bridge k := by
    rw [acts_op hk op m, h.bridge k hk, bridge_op h.coherent]
  have hcoherent := coherent_op h.coherent op
  have hsummed := summed_op op m h.summed
  have hleg (k : Nat) (hk : k < pairCount) : legAt k (after op.code m) = (w.op op).leg k :=
    congrArg Bridge.leg (hbridge k hk)
  refine ⟨hcoherent, headed_op op m h.header, op_even op m h.even, ?_, hbridge, hsummed, ?_⟩
  · have hpolicy : (legAt 0 (after op.code m)).minDeadtime = after op.code m minDeadtimeTicks := rfl
    rw [← hpolicy, hleg 0 (by decide), hcoherent.policy]
  · apply ring_op h
    rw [summed_faults hsummed, PwmMonitor.faults, PwmMonitor.faults, hleg 0 (by decide),
      hleg 1 (by decide), hleg 2 (by decide)]

theorem represents_clear (h : Represents w hz m) (inputs : Word) :
    Represents (w.op (.clear inputs)) hz (after (clear inputs) m) := represents_op h (.clear inputs)

end Represents

end HilLab.Pru.PwmMonitor
