import HilLab.Lib.StoredValues
import HilLab.Pru.PwmFaultFlags

namespace HilLab.Pru.PwmStored

open Lib.Seqlock Lib.CodeView Lib.StoredValues PwmCaptureCore PwmEdgeLog PwmMeasure
open PwmFaultFlags

section Channel

def rose (c : Channel) : Option Word := if c.riseSeen then some c.lastRiseTicks else none

def fell (c : Channel) : Option Word := if c.fallSeen then some c.lastFallTicks else none

def distances (ticks : Word) (last : Option Word) : List Word := last.toList.map (ticks - ·)

theorem mem_distances {ticks value : Word} {last : Option Word} :
    value ∈ distances ticks last ↔ ∃ t, last = some t ∧ value = ticks - t := by
  rw [distances, List.mem_map]
  simp only [Option.mem_toList, eq_comm]

def measureSince (i field since : Nat) (seen valid ticks : Word) : Code 32 :=
  whenever (fun m => m (channelFlags i) &&& seen != 0)
    (seq
      [store (channelWord i field) (fun m => ticks - m (channelWord i since)),
        setFlags (channelFlags i) valid])

def noteEdge (i last count : Nat) (seen ticks : Word) : List (Code 32) :=
  [set (channelWord i last) ticks, increment (channelWord i count), setFlags (channelFlags i) seen]

theorem channelEdges_parts (ticks rise fall : Word) (i : Nat) :
    channelEdges ticks rise fall i =
      seq
        [if rise &&& (1 <<< i) ≠ 0 then
            seq (measureSince i 0 3 chRiseSeen chPeriodValid ticks ::
              measureSince i 2 4 chFallSeen chLowValid ticks :: noteEdge i 3 5 chRiseSeen ticks)
          else skip,
          if fall &&& (1 <<< i) ≠ 0 then
            seq (measureSince i 1 3 chRiseSeen chHighValid ticks :: noteEdge i 4 6 chFallSeen ticks)
          else skip] := rfl

variable {i : Nat} (ticks rise fall : Word)

theorem channelWord_inj {field other : Nat} (h : field ≠ other) :
    channelWord i field ≠ channelWord i other := by
  rw [channelWord, channelWord]
  omega

theorem measureSince_avoids {field other : Nat} (since : Nat) (seen valid : Word)
    (hfield : field ≠ other) (hflags : 7 ≠ other) :
    Avoids (channelWord i other) (measureSince i field since seen valid ticks) := by
  apply avoids_whenever
  apply avoids_cons (avoids_store (channelWord_inj hfield) _)
  exact avoids_cons (avoids_setFlags (channelWord_inj hflags) _) avoids_skip

theorem noteEdge_avoids {last count other : Nat} (seen : Word) (hlast : last ≠ other)
    (hcount : count ≠ other) (hflags : 7 ≠ other) :
    Avoids (channelWord i other) (seq (noteEdge i last count seen ticks)) := by
  apply avoids_cons (avoids_set (channelWord_inj hlast) _)
  apply avoids_cons (avoids_increment (channelWord_inj hcount))
  exact avoids_cons (avoids_setFlags (channelWord_inj hflags) _) avoids_skip

theorem emits_measureSince {field since s : Nat} (valid : Word) (hs : s < 32) (hflags : 7 ≠ field)
    (last : Channel → Option Word)
    (hlast : ∀ m, last (channelAt i m) =
      if bit (m (channelFlags i)) s then some (m (channelWord i since)) else none) :
    Emits (channelAt i) (channelWord i field) (measureSince i field since (mask s) valid ticks)
      (fun c => distances ticks (last c)) := by
  intro m
  dsimp only
  rw [measureSince, whenever, hlast, masked_bne _ hs]
  split
  · have hstore : Emits id (channelWord i field)
        (store (channelWord i field) (fun m => ticks - m (channelWord i since)))
        (fun m => [ticks - m (channelWord i since)]) := emits_store (fun _ => rfl)
    have hflag : Avoids (channelWord i field) (seq [setFlags (channelFlags i) valid]) :=
      avoids_cons (avoids_setFlags (channelWord_inj hflags) _) avoids_skip
    exact emits_head hstore hflag m
  · rfl

theorem emits_masked {β : Type} {view : Memory 32 → β} {addr : Nat} {a b : Code 32}
    {g h : β → List Word} (x : Word) (hi : i < 32) (ha : Emits view addr a g)
    (hb : Emits view addr b h) :
    Emits view addr (if x &&& mask i ≠ 0 then a else b)
      (fun s => if bit x i then g s else h s) := by
  refine emits_congr (emits_ite ha hb) (fun s => ?_)
  simp only [masked_iff x hi]

theorem emits_period (hi : i < 32) :
    Emits (channelAt i) (periodTicks i) (channelEdges ticks rise fall i)
      (fun c => if bit rise i then distances ticks (rose c) else []) := by
  have hperiod := emits_measureSince (i := i) ticks chPeriodValid (by decide : 0 < 32)
    (by decide : 7 ≠ 0) rose (fun _ => rfl)
  have hrest : Avoids (periodTicks i) (seq (measureSince i 2 4 chFallSeen chLowValid ticks ::
      noteEdge i 3 5 chRiseSeen ticks)) :=
    avoids_cons (measureSince_avoids ticks _ _ _ (by decide) (by decide))
      (noteEdge_avoids ticks _ (by decide) (by decide) (by decide))
  have hfall : Avoids (periodTicks i) (seq (measureSince i 1 3 chRiseSeen chHighValid ticks ::
      noteEdge i 4 6 chFallSeen ticks)) :=
    avoids_cons (measureSince_avoids ticks _ _ _ (by decide) (by decide))
      (noteEdge_avoids ticks _ (by decide) (by decide) (by decide))
  rw [channelEdges_parts]
  apply emits_head
  · exact emits_masked rise hi (emits_head hperiod hrest) (emits_avoids avoids_skip)
  · exact avoids_cons (avoids_ite hfall avoids_skip) avoids_skip

theorem emits_low (hi : i < 32) :
    Emits (channelAt i) (lowTicks i) (channelEdges ticks rise fall i)
      (fun c => if bit rise i then distances ticks (fell c) else []) := by
  have hperiod : Acts (channelAt i) (measureSince i 0 3 chRiseSeen chPeriodValid ticks)
      (fun c => { c with
        periodTicks := if c.riseSeen then ticks - c.lastRiseTicks else c.periodTicks
        periodValid := c.periodValid || c.riseSeen }) := by
    refine acts_map Channel.ofWords (acts_interval (i := i) ticks 0 3 (by decide : 0 < 32) 2) ?_
    intro b
    cases hseen : bit (b 7) 0 <;> simp [Channel.ofWords, interval, hseen, bit_or, bit_mask]
  have hlow := emits_measureSince (i := i) ticks chLowValid (by decide : 1 < 32)
    (by decide : 7 ≠ 2) fell (fun _ => rfl)
  have hrest : Avoids (lowTicks i) (seq (noteEdge i 3 5 chRiseSeen ticks)) :=
    noteEdge_avoids ticks _ (by decide) (by decide) (by decide)
  have hfall : Avoids (lowTicks i) (seq (measureSince i 1 3 chRiseSeen chHighValid ticks ::
      noteEdge i 4 6 chFallSeen ticks)) :=
    avoids_cons (measureSince_avoids ticks _ _ _ (by decide) (by decide))
      (noteEdge_avoids ticks _ (by decide) (by decide) (by decide))
  rw [channelEdges_parts]
  apply emits_head
  · apply emits_masked rise hi ?_ (emits_avoids avoids_skip)
    apply emits_tail _ hperiod (emits_head hlow hrest)
    exact measureSince_avoids ticks _ _ _ (by decide) (by decide)
  · exact avoids_cons (avoids_ite hfall avoids_skip) avoids_skip

theorem emits_high (hi : i < 32) :
    Emits (channelAt i) (highTicks i) (channelEdges ticks rise fall i)
      (fun c => if bit fall i then distances ticks (rose (if bit rise i then c.rise ticks else c))
        else []) := by
  have hhigh := emits_measureSince (i := i) ticks chHighValid (by decide : 0 < 32)
    (by decide : 7 ≠ 1) rose (fun _ => rfl)
  have hrest : Avoids (highTicks i) (seq (noteEdge i 4 6 chFallSeen ticks)) :=
    noteEdge_avoids ticks _ (by decide) (by decide) (by decide)
  have hrise : Avoids (highTicks i) (seq (measureSince i 0 3 chRiseSeen chPeriodValid ticks ::
      measureSince i 2 4 chFallSeen chLowValid ticks :: noteEdge i 3 5 chRiseSeen ticks)) :=
    avoids_cons (measureSince_avoids ticks _ _ _ (by decide) (by decide))
      (avoids_cons (measureSince_avoids ticks _ _ _ (by decide) (by decide))
        (noteEdge_avoids ticks _ (by decide) (by decide) (by decide)))
  have hbranch := emits_masked fall hi (emits_head hhigh hrest) (emits_avoids avoids_skip)
  rw [channelEdges_parts]
  exact emits_tail (avoids_ite hrise avoids_skip)
    (acts_masked rise hi (acts_rise ticks) acts_skip) (emits_last hbranch)

end Channel

section Pair

def deadtimeTicks (k : Nat) (highToLow : Bool) : Nat :=
  if highToLow then deadtimeHighToLowTicks k else deadtimeLowToHighTicks k

variable {k : Nat} (ticks rise fall : Word)

theorem pairWord_inj {field other : Nat} (h : field ≠ other) : pairWord k field ≠ pairWord k other := by
  rw [pairWord, pairWord]
  omega

theorem pairWord_body (hk : k < pairCount) {field : Nat} (hf : field < 8) :
    20 ≤ pairWord k field ∧ pairWord k field < summaryWords := by
  have hthree : k < 3 := hk
  rw [pairWord, summaryWords]
  omega

theorem faultFlags_ne (field : Nat) : faultFlags ≠ pairWord k field := by
  rw [pairWord, faultFlags]
  omega

theorem violation_avoids {field : Nat} (hcount : 5 ≠ field) (hflags : 6 ≠ field) :
    Avoids (pairWord k field)
      (seq
        [whenever (fun m => m minDeadtimeTicks != 0 && decide (ticks < m minDeadtimeTicks))
          (seq
            [increment (violationCount k), setFlags (pairFlags k) pairViolationLatched,
              setFlags faultFlags (faultDeadtime k)])]) := by
  refine avoids_cons (avoids_whenever ?_) avoids_skip
  apply avoids_cons (avoids_increment (pairWord_inj hcount))
  apply avoids_cons (avoids_setFlags (pairWord_inj hflags) _)
  exact avoids_cons (avoids_setFlags (faultFlags_ne field) _) avoids_skip

theorem sample_avoids {field sample count : Nat} (hs : sample ≠ field) (hc : count ≠ field)
    (hflags : 6 ≠ field) (valid : Word) :
    Avoids (pairWord k field)
      (seq [set (pairWord k sample) ticks, increment (pairWord k count),
        setFlags (pairFlags k) valid]) := by
  apply avoids_cons (avoids_set (pairWord_inj hs) _)
  apply avoids_cons (avoids_increment (pairWord_inj hc))
  exact avoids_cons (avoids_setFlags (pairWord_inj hflags) _) avoids_skip

theorem recordDeadtime_other (highToLow : Bool) :
    Avoids (deadtimeTicks k (!highToLow)) (recordDeadtime k highToLow ticks) := by
  cases highToLow with
  | true =>
      exact avoids_cons (sample_avoids ticks (by decide) (by decide) (by decide) _)
        (violation_avoids ticks (by decide) (by decide))
  | false =>
      exact avoids_cons (sample_avoids ticks (by decide) (by decide) (by decide) _)
        (violation_avoids ticks (by decide) (by decide))

theorem emits_recordDeadtime {β : Type} {view : Memory 32 → β} (highToLow : Bool) :
    Emits view (deadtimeTicks k highToLow) (recordDeadtime k highToLow ticks)
      (fun _ => [ticks]) := by
  have hsample {field count : Nat} (hc : count ≠ field) (hflags : 6 ≠ field) (valid : Word) :
      Emits view (pairWord k field)
        (seq [set (pairWord k field) ticks, increment (pairWord k count),
          setFlags (pairFlags k) valid]) (fun _ => [ticks]) := by
    apply emits_head (emits_store (fun _ => rfl))
    apply avoids_cons (avoids_increment (pairWord_inj hc))
    exact avoids_cons (avoids_setFlags (pairWord_inj hflags) _) avoids_skip
  cases highToLow with
  | true =>
      exact emits_head (hsample (by decide) (by decide) _)
        (violation_avoids ticks (by decide) (by decide))
  | false =>
      exact emits_head (hsample (by decide) (by decide) _)
        (violation_avoids ticks (by decide) (by decide))

theorem pairSwitch_other (risen fallen : Nat) (highToLow : Bool) :
    Avoids (deadtimeTicks k (!highToLow)) (pairSwitch ticks rise fall k risen fallen highToLow) :=
  avoids_ite
    (avoids_ite (recordDeadtime_other 0 highToLow)
      (avoids_whenever (avoids_reading (fun t => recordDeadtime_other t highToLow))))
    avoids_skip

theorem emits_pairSwitch {risen fallen : Nat} (hrisen : risen < 32) (hfallen : fallen < 32)
    (other : Leg → Channel) (hother : ∀ m, channelAt fallen m = other (legAt k m))
    (highToLow : Bool) :
    Emits (legAt k) (deadtimeTicks k highToLow)
      (pairSwitch ticks rise fall k risen fallen highToLow)
      (fun s => (switchTicks ticks (bit rise risen) (bit fall fallen) (other s)).toList) := by
  have hseen := seen_of_view hother
  have hticks := ticks_of_view hother ticks
  have hcode := emits_masked rise hrisen
    (emits_masked fall hfallen (emits_recordDeadtime (k := k) 0 highToLow)
      (emits_whenever (p := fun s => (other s).fallSeen) hseen
        (emits_reading (q := fun s => ticks - (other s).lastFallTicks) hticks
          (fun t => emits_recordDeadtime t highToLow))))
    (emits_avoids avoids_skip)
  refine emits_congr hcode (fun s => ?_)
  rw [switchTicks]
  cases bit rise risen <;> cases bit fall fallen <;> cases (other s).fallSeen <;> rfl

theorem overlapCheck_avoids {field : Nat} (hcount : 4 ≠ field) (hflags : 6 ≠ field) (now : Prop)
    [Decidable now] : Avoids (pairWord k field) (overlapCheck k now) := by
  apply avoids_ite
  · apply avoids_cons (avoids_whenever (avoids_increment (pairWord_inj hcount)))
    apply avoids_cons (avoids_setFlags (pairWord_inj hflags) _)
    exact avoids_cons (avoids_setFlags (faultFlags_ne field) _) avoids_skip
  · exact avoids_clearFlags (pairWord_inj hflags) _

def onBit (k : Nat) (highToLow : Bool) : Nat := if highToLow then k * 2 + 1 else k * 2
def offBit (k : Nat) (highToLow : Bool) : Nat := if highToLow then k * 2 else k * 2 + 1

def offChannel (highToLow : Bool) (s : Leg) : Channel := if highToLow then s.high else s.low

variable (hk : k < pairCount)
include hk

theorem emits_pairEdges (inputs : Word) (highToLow : Bool) :
    Emits (legAt k) (deadtimeTicks k highToLow) (pairEdges ticks inputs rise fall k)
      (fun s => (switchTicks ticks (bit rise (onBit k highToLow)) (bit fall (offBit k highToLow))
        (offChannel highToLow s)).toList) := by
  have hhigh : k * 2 < 32 := Nat.lt_trans (high_lt hk) (by decide)
  have hlow : k * 2 + 1 < 32 := Nat.lt_trans (low_lt hk) (by decide)
  have hcheck {field : Nat} (hcount : 4 ≠ field) (hflags : 6 ≠ field) :
      Avoids (pairWord k field) (seq [overlapCheck k
        (inputs &&& mask (k * 2) ≠ 0 ∧ inputs &&& mask (k * 2 + 1) ≠ 0)]) :=
    avoids_cons (overlapCheck_avoids hcount hflags _) avoids_skip
  have hon := emits_pairSwitch ticks rise fall hlow hhigh Leg.high (fun _ => rfl) true
  have hoff := emits_pairSwitch ticks rise fall hhigh hlow Leg.low (fun _ => rfl) false
  cases highToLow with
  | true =>
      apply emits_head hon
      exact avoids_cons (pairSwitch_other ticks rise fall _ _ false)
        (hcheck (by decide) (by decide))
  | false =>
      have hfirst := acts_pairSwitch hk hlow hhigh Leg.high (fun _ => rfl) true ticks rise fall
      exact emits_tail (pairSwitch_other ticks rise fall _ _ true) hfirst
        (emits_head hoff (hcheck (by decide) (by decide)))

end Pair

section Process

variable (ticks inputs rise fall : Word)

theorem edges_rose (c : Channel) (rises falls : Bool) :
    rose (c.edges ticks rises falls) = if rises then some ticks else rose c := by
  cases rises <;> cases falls <;> rfl

theorem edges_fell (c : Channel) (rises falls : Bool) :
    fell (c.edges ticks rises falls) = if falls then some ticks else fell c := by
  cases rises <;> cases falls <;> rfl

theorem switchTicks_edges (c : Channel) (on rises falls : Bool) :
    (switchTicks ticks on falls (c.edges ticks rises falls)).toList =
      if on then distances ticks (if falls then some ticks else fell c) else [] := by
  obtain ⟨hseen, hlast⟩ := edges_fall c ticks rises falls
  rw [switchTicks, hseen, hlast, fell]
  cases on with
  | false => rfl
  | true =>
      cases falls with
      | true => simp [distances]
      | false => cases c.fallSeen <;> rfl

theorem channels_avoid_pair (k field : Nat) :
    Avoids (pairWord k field) (forEach channelCount (channelEdges ticks rise fall)) := by
  apply avoids_seq
  intro c hc
  obtain ⟨i, hi, rfl⟩ := List.mem_map.mp hc
  apply channelEdges_avoids
  intro f hf
  have hlt := (channelWord_lt (List.mem_range.mp hi) hf).2
  rw [pairWord]
  omega

theorem pairs_avoid_channel {i field : Nat} (hi : i < channelCount) (hf : field < 8) :
    Avoids (channelWord i field) (forEach pairCount (pairEdges ticks inputs rise fall)) := by
  have hlt := channelWord_lt hi hf
  apply avoids_forEach
  intro k
  apply pairEdges_avoids
  · intro f _
    rw [pairWord]
    omega
  · rw [faultFlags]
    omega

theorem emits_channel {i field : Nat} (hi : i < channelCount) (hf : field < 8)
    {g : Channel → List Word}
    (h : Emits (channelAt i) (channelWord i field) (channelEdges ticks rise fall i) g) :
    Emits (channelAt i) (channelWord i field) (measure ticks inputs rise fall) g := by
  have hi32 : i < 32 := Nat.lt_trans hi (by decide)
  have hother {j : Nat} (hj : j ≠ i) {f : Nat} (hf : f < 8) :
      Avoids (channelWord i f) (channelEdges ticks rise fall j) := by
    apply channelEdges_avoids
    intro f' hf'
    rw [channelWord, channelWord]
    omega
  have hloop := emits_pass h (acts_channelEdges hi32 ticks rise fall)
    (fun j hj => ⟨hother hj hf, channelAt_avoids (fun f hf => hother hj hf)⟩) channelCount
  apply emits_head
  · exact emits_congr hloop (fun _ => if_pos hi)
  · exact avoids_cons (pairs_avoid_channel ticks inputs rise fall hi hf) avoids_skip

variable {k : Nat} (hk : k < pairCount)

include hk

theorem emits_deadtime (highToLow : Bool) :
    Emits (legAt k) (deadtimeTicks k highToLow) (measure ticks inputs rise fall)
      (fun s => if bit rise (onBit k highToLow) then
          distances ticks (if bit fall (offBit k highToLow) then some ticks
            else fell (offChannel highToLow s))
        else []) := by
  have hother {j : Nat} (hj : j ≠ k) (field : Nat) (hf : field < 8) :
      Avoids (pairWord k field) (pairEdges ticks inputs rise fall j) := by
    apply pairEdges_avoids (fun f hf => ?_) (faultFlags_ne field)
    rw [pairWord, pairWord]
    omega
  have hloop := emits_pass (emits_pairEdges ticks rise fall hk inputs highToLow)
    (acts_pairEdges hk ticks inputs rise fall)
    (fun j hj => ⟨by cases highToLow <;> exact hother hj _ (by decide),
      pairEdges_unseen hk hj ticks inputs rise fall⟩) pairCount
  have hchannels : Avoids (deadtimeTicks k highToLow)
      (forEach channelCount (channelEdges ticks rise fall)) := by
    cases highToLow <;> exact channels_avoid_pair ticks rise fall k _
  have hmeasure := emits_tail hchannels (acts_legChannels hk ticks rise fall)
    (emits_last hloop)
  refine emits_congr hmeasure (fun s => ?_)
  rw [if_pos hk]
  cases highToLow <;> exact switchTicks_edges ticks _ _ _ _

omit hk in
/-- What an active process call stores is what the pass stores: the rest of the call only
writes the header and the ring. -/
theorem stored_process {β : Type} {view : Memory 32 → β} {addr : Nat} (hlow : 20 ≤ addr)
    (hhigh : addr < summaryWords)
    (hview : ∀ a value, a < 20 → a ≠ minDeadtimeTicks → Acts view (store a value) id)
    {g : β → List Word} {m : Memory 32} (hactive : Active m inputs)
    (h : Emits view addr (measure ticks (inputs &&& logicalMask)
      (changedBy m inputs &&& (inputs &&& logicalMask)) (changedBy m inputs &&& m inputBits)) g) :
    storedAt addr (process ticks inputs m) = g (view m) := by
  have hheader {a : Nat} (ha : a < 20) (value : Memory 32 → Word) : Avoids addr (store a value) :=
    avoids_store (by omega) value
  have hannounce (changed : Word) : Avoids addr (announce ticks (inputs &&& logicalMask) changed) :=
    avoids_cons (hheader (by decide) _) (avoids_cons (hheader (by decide) _)
      (avoids_cons (hheader (by decide) _) (avoids_cons (hheader (by decide) _) avoids_skip)))
  have hshown (changed : Word) : Acts view (announce ticks (inputs &&& logicalMask) changed) id :=
    acts_cons (hview _ _ (by decide) (by decide)) (acts_cons (hview _ _ (by decide) (by decide))
      (acts_cons (hview _ _ (by decide) (by decide))
        (acts_cons (hview _ _ (by decide) (by decide)) acts_nil)))
  have hpush : Avoids addr (seq [pushEdgeRecord ticks (inputs &&& logicalMask) (changedBy m inputs),
      endUpdate]) := by
    have hring : Avoids addr
        (pushEdgeRecord ticks (inputs &&& logicalMask) (changedBy m inputs)) := by
      apply push_avoid hhigh
      · rw [ringHead]
        omega
      · rw [ringCount]
        omega
    exact avoids_cons hring (avoids_cons (hheader (by decide) _) avoids_skip)
  rw [process_active ticks inputs hactive]
  exact emits_tail (hannounce _) (hshown _)
    (emits_tail (hheader (by decide) _) (hview _ _ (by decide) (by decide)) (emits_head h hpush)) m

end Process

end HilLab.Pru.PwmStored
