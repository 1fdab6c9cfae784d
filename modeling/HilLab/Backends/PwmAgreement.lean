import Mathlib.Data.List.Induction
import HilLab.Lib.Pairing
import HilLab.Pru.PwmMeasure
import HilLab.Host.RawShared

namespace HilLab.Backends.PwmAgreement

open Lib.Seqlock Lib.CodeView Lib.Pairing Pru.PwmCaptureCore Pru.PwmMeasure Host.Core
open Host.RawShared hiding Word

section Records

theorem addLogical_masked {raw logical : Word} {m : Word × Nat}
    (hm : mask m.2 &&& logicalMask = mask m.2) (h : logical &&& logicalMask = logical) :
    addLogical raw logical m &&& logicalMask = addLogical raw logical m := by
  rw [addLogical]
  split
  · rw [BitVec.and_or_distrib_right, h]
    exact congrArg (logical ||| ·) hm
  · exact h

theorem rawToLogical_masked (raw : Word) : rawToLogical raw &&& logicalMask = rawToLogical raw := by
  have hfold : ∀ (masks : List (Word × Nat)) (logical : Word),
      (∀ m ∈ masks, mask m.2 &&& logicalMask = mask m.2) → logical &&& logicalMask = logical →
      masks.foldl (addLogical raw) logical &&& logicalMask = masks.foldl (addLogical raw) logical := by
    intro masks
    induction masks with
    | nil => exact fun _ _ h => h
    | cons m masks ih =>
        intro logical hmasks h
        exact ih _ (fun m' hm => hmasks m' (List.mem_cons_of_mem _ hm))
          (addLogical_masked (hmasks m List.mem_cons_self) h)
  exact hfold rawMasks.zipIdx 0 (by decide) (by decide)

structure Holds (shared : RawCaptureShared) (initial : Word) (records : List (Word × Word)) : Prop where
  valid : validate shared = .ok ()
  initial : rawToLogical shared.initialRawInputs = initial
  records : (List.range shared.eventCount).map
    (fun i => ((shared.ring i).timestampTicks, rawToLogical (shared.ring i).rawInputs)) = records

variable {shared : RawCaptureShared} {initial : Word} {records : List (Word × Word)}

theorem Holds.count_le (h : Holds shared initial records) : shared.eventCount ≤ rawCapacity := by
  have hvalid := h.valid
  rw [validate] at hvalid
  split_ifs at hvalid with h1 h2 h3 h4 h5
  exact Nat.le_of_not_lt h5

theorem Holds.length_le (h : Holds shared initial records) : records.length ≤ 1024 := by
  rw [← h.records, List.length_map, List.length_range]
  exact h.count_le

theorem Holds.masked (h : Holds shared initial records) : ∀ r ∈ records, r.2 &&& logicalMask = r.2 := by
  intro r hr
  rw [← h.records] at hr
  obtain ⟨i, -, rfl⟩ := List.mem_map.mp hr
  exact rawToLogical_masked _

/-- A record as the analysis sees it: it reads neither the index nor the raw inputs. -/
def observe (a : Analysis) (r : Word × Word) : Analysis :=
  a.record
    { index := 0
      timestampTicks := r.1
      rawInputs := 0
      logicalInputs := r.2
      changedInputs := r.2 ^^^ a.previousState }

theorem foldl_readRecords (index : Nat) (items : List RawEdgeRecord) (a : Analysis) :
    (readRecords index a.previousState items).foldl Analysis.record a =
      (items.map (fun item => (item.timestampTicks, rawToLogical item.rawInputs))).foldl observe a := by
  induction items generalizing index a with
  | nil => rfl
  | cons item items ih =>
      rw [readRecords, List.foldl_cons, List.map_cons, List.foldl_cons]
      exact ih (index + 1) (observe a (item.timestampTicks, rawToLogical item.rawInputs))

theorem Holds.analyzed (h : Holds shared initial records) :
    analyzeRawCapture shared = .ok (records.foldl observe (.initial initial)) := by
  have hread := foldl_readRecords 0 ((List.range shared.eventCount).map shared.ring)
    (.initial (rawToLogical shared.initialRawInputs))
  rw [List.map_map] at hread
  rw [analyzeRawCapture, rawRecords, h.valid, Nat.min_eq_left h.count_le, ← h.initial, ← h.records]
  exact congrArg Except.ok hread

end Records

section Channel

def latest (valid : Bool) (ticks : Word) : Option Word := if valid then some ticks else none

/-- What the firmware holds of a channel after n records, and what the
analysis has made of them. -/
structure ChannelTracks (c : Channel) (l : ChannelLog) (n : Nat) : Prop where
  riseCount : c.riseCount.toNat = l.riseCount
  fallCount : c.fallCount.toNat = l.fallCount
  riseBound : l.riseCount ≤ n
  fallBound : l.fallCount ≤ n
  riseLast : l.riseLast = latest c.riseSeen c.lastRiseTicks
  fallLast : l.fallLast = latest c.fallSeen c.lastFallTicks
  period : l.periodTicks.getLast? = latest c.periodValid c.periodTicks
  high : l.highTicks.getLast? = latest c.highValid c.highTicks
  low : l.lowTicks.getLast? = latest c.lowValid c.lowTicks

variable {c : Channel} {l : ChannelLog} {n : Nat}

theorem count_succ {x : Word} {m : Nat} (h : x.toNat = m) (hm : m < 1024) : (x + 1).toNat = m + 1 := by
  rw [BitVec.toNat_add, h]
  exact Nat.mod_eq_of_lt (Nat.lt_of_lt_of_le (Nat.succ_lt_succ hm) (by decide))

theorem appendDelta_getLast {ticks : List Word} {valid seen : Bool} {last since now : Word}
    {previous : Option Word} (h : ticks.getLast? = latest valid last)
    (hprevious : previous = latest seen since) :
    (appendDelta ticks now previous).getLast? =
      latest (valid || seen) (if seen then now - since else last) := by
  rw [hprevious]
  cases seen with
  | false => rw [Bool.or_false]; exact h
  | true =>
      rw [Bool.or_true]
      exact List.getLast?_concat

theorem ChannelTracks.rise (h : ChannelTracks c l n) (hn : n < 1024) (ticks : Word) :
    ChannelTracks (c.rise ticks) (l.rise ticks) (n + 1) where
  riseCount := count_succ h.riseCount (Nat.lt_of_le_of_lt h.riseBound hn)
  fallCount := h.fallCount
  riseBound := Nat.succ_le_succ h.riseBound
  fallBound := Nat.le_succ_of_le h.fallBound
  riseLast := rfl
  fallLast := h.fallLast
  period := appendDelta_getLast h.period h.riseLast
  high := h.high
  low := appendDelta_getLast h.low h.fallLast

theorem ChannelTracks.fall (h : ChannelTracks c l n) (hn : n < 1024) (ticks : Word) :
    ChannelTracks (c.fall ticks) (l.fall ticks) (n + 1) where
  riseCount := h.riseCount
  fallCount := count_succ h.fallCount (Nat.lt_of_le_of_lt h.fallBound hn)
  riseBound := Nat.le_succ_of_le h.riseBound
  fallBound := Nat.succ_le_succ h.fallBound
  riseLast := h.riseLast
  fallLast := rfl
  period := h.period
  high := appendDelta_getLast h.high h.riseLast
  low := h.low

theorem ChannelTracks.later (h : ChannelTracks c l n) : ChannelTracks c l (n + 1) :=
  { h with riseBound := Nat.le_succ_of_le h.riseBound, fallBound := Nat.le_succ_of_le h.fallBound }

theorem ChannelTracks.edges (h : ChannelTracks c l n) (hn : n < 1024) (ticks : Word)
    {rise fall : Word} {i : Nat} {e : Edges} (hi : i < 32) (hrise : bit rise i = e.rises)
    (hfall : bit fall i = e.falls) (hone : (e.rises && e.falls) = false) :
    ChannelTracks (c.edges ticks e.rises e.falls) (l.edges ticks rise fall (mask i)) (n + 1) := by
  rw [ChannelLog.edges, Channel.edges]
  simp only [masked_iff _ hi, hrise, hfall]
  cases hr : e.rises <;> cases hf : e.falls
  · exact h.later
  · exact h.fall hn ticks
  · exact h.rise hn ticks
  · rw [hr, hf] at hone
    cases hone

end Channel

section Pair

/-- What the firmware holds of one direction. -/
structure Deadtime where
  ticks : Word
  count : Word
  valid : Bool

def dead (p : Pair) (highToLow : Bool) : Deadtime :=
  if highToLow then ⟨p.deadtimeHighToLowTicks, p.deadtimeHighToLowCount, p.highToLowValid⟩
  else ⟨p.deadtimeLowToHighTicks, p.deadtimeLowToHighCount, p.lowToHighValid⟩

def Deadtime.sampled (d : Deadtime) (sample : Option Word) : Deadtime :=
  match sample with
  | some ticks => ⟨ticks, d.count + 1, true⟩
  | none => d

theorem dead_switch (p : Pair) (minDeadtime : Word) (way highToLow : Bool) (sample : Option Word) :
    dead (p.switch minDeadtime way sample) highToLow =
      if way = highToLow then (dead p highToLow).sampled sample else dead p highToLow := by
  cases sample with
  | none => cases way <;> cases highToLow <;> rfl
  | some ticks =>
      rw [Pair.switch, Pair.record]
      cases tooShort minDeadtime ticks <;> cases way <;> cases highToLow <;> rfl

theorem dead_overlap (p : Pair) (now highToLow : Bool) : dead (p.overlap now) highToLow = dead p highToLow := by
  cases now <;> rfl

theorem overlap_switch (p : Pair) (minDeadtime : Word) (way : Bool) (sample : Option Word) :
    (p.switch minDeadtime way sample).overlapCount = p.overlapCount ∧
      (p.switch minDeadtime way sample).overlapActive = p.overlapActive := by
  cases sample with
  | none => exact ⟨rfl, rfl⟩
  | some ticks =>
      rw [Pair.switch, Pair.record]
      cases tooShort minDeadtime ticks <;> cases way <;> exact ⟨rfl, rfl⟩

variable {α : Type} {off on : α → Bool} {ts : List α}

/-- The firmware takes a sample at every turn-on after a turn-off, the
analysis at the first only. -/
structure DeadTracks (off on : α → Bool) (ts : List α) (other : Channel) (f : Deadtime) (d : DeadLog) :
    Prop where
  seen : other.fallSeen = true ↔ Armed off ts
  last : ∀ since, d.pending = some since → since = other.lastFallTicks
  pending : d.pending.isSome = true ↔ Armed off ts ∧ ¬ Spent off on ts
  bound : f.count.toNat ≤ ts.length
  fewer : d.deadTicks.length ≤ f.count.toNat
  same : d.deadTicks.length = f.count.toNat ↔ ¬ Refires off on ts
  latest : ¬ Refires off on ts → d.deadTicks.getLast? = latest f.valid f.ticks

section Step

variable {other next : Channel} {f : Deadtime} {d : DeadLog} {e : α} {ticks : Word}

theorem pending_none (h : DeadTracks off on ts other f d) (hnot : ¬ (Armed off ts ∧ ¬ Spent off on ts)) :
    d.pending = none :=
  Option.not_isSome_iff_eq_none.mp (fun hsome => hnot (h.pending.mp hsome))

theorem turnOff_tracks (h : DeadTracks off on ts other f d) (hoff : off e = true) (hon : on e = false)
    (hseen : next.fallSeen = true) (hlast : next.lastFallTicks = ticks) :
    DeadTracks off on (ts ++ [e]) next f (d.turnOff ticks) where
  seen := by simp [hseen, armed_concat, hoff]
  last since hsince := (Option.some.inj hsince).symm.trans hlast.symm
  pending := by simp [DeadLog.turnOff, armed_concat, spent_concat, hoff, hon]
  bound := by
    rw [List.length_append]
    exact Nat.le_succ_of_le h.bound
  fewer := h.fewer
  same := by
    rw [refires_concat, hoff, hon]
    simpa [DeadLog.turnOff] using h.same
  latest hnot := h.latest (fun hre => hnot (refires_concat.mpr (Or.inl hre)))

theorem quiet_tracks (h : DeadTracks off on ts other f d) (hoff : off e = false) (hon : on e = false)
    (hseen : next.fallSeen = other.fallSeen) (hlast : next.lastFallTicks = other.lastFallTicks) :
    DeadTracks off on (ts ++ [e]) next f d where
  seen := by
    rw [hseen, armed_concat, hoff]
    simpa using h.seen
  last since hsince := (h.last since hsince).trans hlast.symm
  pending := by
    rw [armed_concat, spent_concat, hoff, hon]
    simpa using h.pending
  bound := by
    rw [List.length_append]
    exact Nat.le_succ_of_le h.bound
  fewer := h.fewer
  same := by
    rw [refires_concat, hoff, hon]
    simpa using h.same
  latest hnot := h.latest (fun hre => hnot (refires_concat.mpr (Or.inl hre)))

theorem paired_tracks {since : Word} (h : DeadTracks off on ts other f d) (hn : ts.length < 1024)
    (hon : on e = true) (harmed : Armed off (ts ++ [e]))
    (hfresh : off e = true ∨ ¬ Spent off on ts) (hseen : next.fallSeen = true) :
    DeadTracks off on (ts ++ [e]) next (f.sampled (some (ticks - since)))
      { pending := none, deadTicks := d.deadTicks ++ [ticks - since] } := by
  have hcount : (f.count + 1).toNat = f.count.toNat + 1 :=
    count_succ rfl (Nat.lt_of_le_of_lt h.bound hn)
  have hrefires : Refires off on (ts ++ [e]) ↔ Refires off on ts := by
    rw [refires_concat]
    refine ⟨?_, Or.inl⟩
    rintro (hre | ⟨-, hquiet, hspent⟩)
    · exact hre
    · rcases hfresh with hoff | hunspent
      · rw [hoff] at hquiet
        cases hquiet
      · exact absurd hspent hunspent
  refine ⟨?_, ?_, ?_, ?_, ?_, ?_, ?_⟩
  · exact ⟨fun _ => harmed, fun _ => hseen⟩
  · rintro since' hsince
    cases hsince
  · refine ⟨fun hsome => (by cases hsome), ?_⟩
    rintro ⟨-, hunspent⟩
    exact absurd (spent_concat.mpr (Or.inl ⟨hon, armed_concat.mp harmed⟩)) hunspent
  · rw [Deadtime.sampled, List.length_append]
    exact hcount.trans_le (Nat.succ_le_succ h.bound)
  · rw [Deadtime.sampled, List.length_append]
    exact (Nat.succ_le_succ h.fewer).trans hcount.ge
  · rw [hrefires, ← h.same, Deadtime.sampled, List.length_append]
    dsimp only
    rw [hcount]
    exact Nat.succ_inj
  · intro _
    exact List.getLast?_concat

theorem repeated_tracks (h : DeadTracks off on ts other f d) (hn : ts.length < 1024)
    (hoff : off e = false) (hon : on e = true) (hspent : Spent off on ts)
    (hseen : next.fallSeen = true) (value : Word) :
    DeadTracks off on (ts ++ [e]) next (f.sampled (some value))
      { pending := none, deadTicks := d.deadTicks } := by
  have hcount : (f.count + 1).toNat = f.count.toNat + 1 :=
    count_succ rfl (Nat.lt_of_le_of_lt h.bound hn)
  have harmed : Armed off (ts ++ [e]) := armed_concat.mpr (Or.inl hspent.armed)
  have hrefires : Refires off on (ts ++ [e]) := refires_concat.mpr (Or.inr ⟨hon, hoff, hspent⟩)
  refine ⟨⟨fun _ => harmed, fun _ => hseen⟩, ?_, ?_, ?_, ?_, ?_, fun hnot => absurd hrefires hnot⟩
  · rintro since hsince
    cases hsince
  · refine ⟨fun hsome => (by cases hsome), ?_⟩
    rintro ⟨-, hunspent⟩
    exact absurd (spent_concat.mpr (Or.inl ⟨hon, armed_concat.mp harmed⟩)) hunspent
  · rw [Deadtime.sampled, List.length_append]
    exact hcount.trans_le (Nat.succ_le_succ h.bound)
  · exact Nat.le_trans h.fewer (Nat.le_of_lt (Nat.lt_of_lt_of_eq (Nat.lt_succ_self _) hcount.symm))
  · refine ⟨fun heq => ?_, fun hnot => absurd hrefires hnot⟩
    have hle := h.fewer
    have hcount' : d.deadTicks.length = (f.count + 1).toNat := heq
    omega

theorem unarmed_tracks (h : DeadTracks off on ts other f d) (hoff : off e = false)
    (hunarmed : ¬ Armed off ts) (hseen : next.fallSeen = other.fallSeen) :
    DeadTracks off on (ts ++ [e]) next f { pending := none, deadTicks := d.deadTicks } where
  seen := by
    rw [hseen, armed_concat, hoff]
    simpa using h.seen
  last since hsince := by cases hsince
  pending := by
    rw [armed_concat, hoff]
    simp [hunarmed]
  bound := by
    rw [List.length_append]
    exact Nat.le_succ_of_le h.bound
  fewer := h.fewer
  same := by
    have hunspent : ¬ Spent off on ts := fun hspent => hunarmed hspent.armed
    rw [refires_concat]
    simpa [hunspent] using h.same
  latest hnot := h.latest (fun hre => hnot (refires_concat.mpr (Or.inl hre)))

end Step

theorem DeadTracks.step {other next : Channel} {f : Deadtime} {d : DeadLog} {e : α}
    (h : DeadTracks off on ts other f d) (hn : ts.length < 1024) (ticks : Word)
    (hseen : next.fallSeen = (off e || other.fallSeen))
    (hlast : next.lastFallTicks = if off e then ticks else other.lastFallTicks) :
    DeadTracks off on (ts ++ [e]) next (f.sampled (switchTicks ticks (on e) (off e) next))
      (d.edges ticks (off e = true) (on e = true)) := by
  rw [switchTicks, DeadLog.edges]
  cases hon : on e <;> cases hoff : off e <;> rw [hoff] at hseen hlast
  · exact quiet_tracks h hoff hon hseen hlast
  · exact turnOff_tracks h hoff hon hseen hlast
  · change DeadTracks off on (ts ++ [e]) next
      (f.sampled (if next.fallSeen then some (ticks - next.lastFallTicks) else none)) (d.turnOn ticks)
    rw [DeadLog.turnOn]
    cases hold : other.fallSeen with
    | false =>
        have hunarmed : ¬ Armed off ts := fun harmed => by
          rw [h.seen.mpr harmed] at hold
          cases hold
        have hnext : next.fallSeen = false := hseen.trans hold
        rw [hnext, pending_none h (fun hboth => hunarmed hboth.1)]
        exact unarmed_tracks h hoff hunarmed (hnext.trans hold.symm)
    | true =>
        have harmed : Armed off ts := h.seen.mp hold
        have hnext : next.fallSeen = true := hseen.trans hold
        rw [hnext]
        by_cases hspent : Spent off on ts
        · rw [pending_none h (fun hboth => hboth.2 hspent)]
          exact repeated_tracks h hn hoff hon hspent hnext _
        · obtain ⟨since, hsince⟩ := Option.isSome_iff_exists.mp (h.pending.mpr ⟨harmed, hspent⟩)
          have hlast' : next.lastFallTicks = since := hlast.trans (h.last since hsince).symm
          rw [hsince, hlast']
          exact paired_tracks h hn hon (armed_concat.mpr (Or.inl harmed)) (Or.inr hspent) hnext
  · change DeadTracks off on (ts ++ [e]) next (f.sampled (some 0)) ((d.turnOff ticks).turnOn ticks)
    have hzero : (0 : Word) = ticks - ticks := (BitVec.sub_self ticks).symm
    rw [hzero]
    exact paired_tracks (d := d) h hn hon (armed_concat.mpr (Or.inr hoff)) (Or.inl hoff) hseen

end Pair

section Run

def transitions (state : Word) : List Word → List (Word × Word)
  | [] => []
  | next :: rest => (state, next) :: transitions next rest

def lastState (state : Word) (states : List Word) : Word := states.foldl (fun _ next => next) state

theorem transitions_concat (state : Word) (states : List Word) (next : Word) :
    transitions state (states ++ [next]) =
      transitions state states ++ [(lastState state states, next)] := by
  induction states generalizing state with
  | nil => rfl
  | cons s states ih =>
      rw [List.cons_append, transitions, transitions, ih]
      rfl

theorem lastState_concat (state : Word) (states : List Word) (next : Word) :
    lastState state (states ++ [next]) = next := List.foldl_concat _ _ _ _

theorem length_transitions (state : Word) (states : List Word) :
    (transitions state states).length = states.length := by
  induction states generalizing state with
  | nil => rfl
  | cons s states ih => rw [transitions, List.length_cons, List.length_cons, ih]

def turnsOn (i : Nat) (e : Word × Word) : Bool := (edgesOf e.1 e.2 i).rises
def turnsOff (i : Nat) (e : Word × Word) : Bool := (edgesOf e.1 e.2 i).falls

/-- A switch of the pair is turned on again with no turn-off of the other since. -/
def DoublePulse (initial : Word) (states : List Word) (other switch : Nat) : Prop :=
  Refires (turnsOff other) (turnsOn switch) (transitions initial states)

/-- What the firmware holds of a leg and of its inputs, and what the analysis
has made of the same records. -/
structure Tracks (k : Nat) (initial : Word) (states : List Word) (b : Bridge) (a : Analysis) : Prop where
  running : b.running = 1
  inputBits : b.inputBits = lastState initial states
  previousState : a.previousState = lastState initial states
  high : ChannelTracks b.leg.high (a.channels (k * 2)) states.length
  low : ChannelTracks b.leg.low (a.channels (k * 2 + 1)) states.length
  hl : DeadTracks (turnsOff (k * 2)) (turnsOn (k * 2 + 1)) (transitions initial states) b.leg.high
    (dead b.leg.pair true) (a.pairs k).hl
  lh : DeadTracks (turnsOff (k * 2 + 1)) (turnsOn (k * 2)) (transitions initial states) b.leg.low
    (dead b.leg.pair false) (a.pairs k).lh
  overlapCount : b.leg.pair.overlapCount.toNat = (a.pairs k).overlapCount
  overlapBound : (a.pairs k).overlapCount ≤ states.length
  overlapActive : b.leg.pair.overlapActive = (a.pairs k).overlapActive

theorem tracks_initial (k : Nat) {initial : Word} :
    Tracks k initial [] { running := 1, inputBits := initial, leg := .clear 0 }
      (.initial initial) := by
  have hchannel : ChannelTracks .clear ⟨none, none, [], [], [], 0, 0⟩ 0 :=
    ⟨rfl, rfl, Nat.le_refl 0, Nat.le_refl 0, rfl, rfl, rfl, rfl, rfl⟩
  have hdead {other switch : Nat} : DeadTracks (turnsOff other) (turnsOn switch) [] .clear
      ⟨0, 0, false⟩ ⟨none, []⟩ :=
    ⟨⟨fun h => (by cases h), fun h => absurd h not_armed_nil⟩, fun _ h => (by cases h),
      ⟨fun h => (by cases h), fun h => absurd h.1 not_armed_nil⟩, Nat.le_refl 0, Nat.le_refl 0,
      ⟨fun _ => not_refires_nil, fun _ => rfl⟩, fun _ => rfl⟩
  exact ⟨rfl, rfl, rfl, hchannel, hchannel, hdead, hdead, rfl, Nat.le_refl 0, rfl⟩

theorem changed_bits (previous next : Word) (i : Nat) :
    bit ((next ^^^ previous) &&& next) i = (edgesOf previous next i).rises ∧
      bit ((next ^^^ previous) &&& previous) i = (edgesOf previous next i).falls := by
  simp only [bit_and, bit_xor, edgesOf]
  cases bit next i <;> cases bit previous i <;> exact ⟨rfl, rfl⟩

theorem edges_one (previous next : Word) (i : Nat) :
    ((edgesOf previous next i).rises && (edgesOf previous next i).falls) = false := by
  rw [edgesOf]
  cases bit next i <;> cases bit previous i <;> rfl

variable {k : Nat} {initial : Word} {states : List Word} {b : Bridge} {a : Analysis}

theorem overlap_now {state : Word} (hk : k < pairCount) :
    decide (state &&& mask (k * 2) ≠ 0 ∧ state &&& mask (k * 2 + 1) ≠ 0) =
      (bit state (k * 2) && bit state (k * 2 + 1)) := by
  rw [Bool.eq_iff_iff, decide_eq_true_iff, Bool.and_eq_true,
    masked_iff state (Nat.lt_trans (high_lt hk) (by decide)),
    masked_iff state (Nat.lt_trans (low_lt hk) (by decide))]

theorem process_changed (h : Tracks k initial states b a) {r : Word × Word}
    (hmasked : r.2 &&& logicalMask = r.2)
    (hlast : lastState initial states &&& logicalMask = lastState initial states)
    (hne : lastState initial states ≠ r.2) :
    b.record k r =
      { b with
        inputBits := r.2
        leg := b.leg.edges r.1 (edgesOf (lastState initial states) r.2 (k * 2))
          (edgesOf (lastState initial states) r.2 (k * 2 + 1)) } := by
  have hrunning : b.running ≠ 0 := by
    rw [h.running]
    decide
  have hchanged : r.2 &&& logicalMask ≠ b.inputBits &&& logicalMask := by
    rw [hmasked, h.inputBits, hlast]
    exact hne.symm
  rw [Bridge.record, Bridge.process]
  rw [if_neg (not_or.mpr ⟨hrunning, hchanged⟩), hmasked, h.inputBits]

theorem deadLog_edges_congr (d : DeadLog) (ticks : Word) {p p' q q' : Prop} [Decidable p]
    [Decidable p'] [Decidable q] [Decidable q'] (hp : p ↔ p') (hq : q ↔ q') :
    d.edges ticks p q = d.edges ticks p' q' := by
  simp only [DeadLog.edges, hp, hq]

theorem leg_overlap (s : Leg) (ticks : Word) (high low : Edges) :
    ∃ p : Pair, (s.edges ticks high low).pair = p.overlap (high.level && low.level) ∧
      p.overlapCount = s.pair.overlapCount ∧ p.overlapActive = s.pair.overlapActive := by
  refine ⟨_, rfl, ?_, ?_⟩
  · rw [(overlap_switch _ _ _ _).1, (overlap_switch _ _ _ _).1]
  · rw [(overlap_switch _ _ _ _).2, (overlap_switch _ _ _ _).2]

theorem overlap_tracks {p : Pair} {count n : Nat} {active : Bool} (hcount : p.overlapCount.toNat = count)
    (hbound : count ≤ n) (hactive : p.overlapActive = active) (hn : n < 1024) (now : Bool) :
    (p.overlap now).overlapCount.toNat = (if now && !active then count + 1 else count) ∧
      (if now && !active then count + 1 else count) ≤ n + 1 ∧ (p.overlap now).overlapActive = now := by
  have hsucc := count_succ hcount (Nat.lt_of_le_of_lt hbound hn)
  rw [Pair.overlap, hactive]
  cases now <;> cases active
  · exact ⟨hcount, Nat.le_succ_of_le hbound, rfl⟩
  · exact ⟨hcount, Nat.le_succ_of_le hbound, rfl⟩
  · exact ⟨hsucc, Nat.succ_le_succ hbound, rfl⟩
  · exact ⟨hcount, Nat.le_succ_of_le hbound, rfl⟩

theorem tracks_step (hk : k < pairCount) (h : Tracks k initial states b a)
    (hn : states.length < 1024) {r : Word × Word} (hmasked : r.2 &&& logicalMask = r.2)
    (hlast : lastState initial states &&& logicalMask = lastState initial states)
    (hne : lastState initial states ≠ r.2) :
    Tracks k initial (states ++ [r.2]) (b.record k r) (observe a r) := by
  have hlength : (states ++ [r.2]).length = states.length + 1 := List.length_append
  have hprevious := h.previousState
  have hts : (transitions initial states).length < 1024 := by
    rw [length_transitions]
    exact hn
  have hchannel {i : Nat} (hi : i < channelCount) {c : Channel}
      (hc : ChannelTracks c (a.channels i) states.length) :
      ChannelTracks (c.edges r.1 (edgesOf (lastState initial states) r.2 i).rises
          (edgesOf (lastState initial states) r.2 i).falls)
        ((observe a r).channels i) (states.length + 1) := by
    obtain ⟨hrise, hfall⟩ := changed_bits (lastState initial states) r.2 i
    rw [← hprevious] at hrise hfall ⊢
    exact hc.edges hn r.1 (Nat.lt_trans hi (by decide)) hrise hfall (edges_one _ _ _)
  have hdead {other switch : Nat} (ho : other < channelCount) (hs : switch < channelCount)
      {c : Channel} {f : Deadtime} {d : DeadLog}
      (hd : DeadTracks (turnsOff other) (turnsOn switch) (transitions initial states) c f d) :
      DeadTracks (turnsOff other) (turnsOn switch) (transitions initial (states ++ [r.2]))
        (c.edges r.1 (edgesOf (lastState initial states) r.2 other).rises
          (edgesOf (lastState initial states) r.2 other).falls)
        (f.sampled (switchTicks r.1 (edgesOf (lastState initial states) r.2 switch).rises
          (edgesOf (lastState initial states) r.2 other).falls
          (c.edges r.1 (edgesOf (lastState initial states) r.2 other).rises
            (edgesOf (lastState initial states) r.2 other).falls)))
        (d.edges r.1 ((r.2 ^^^ a.previousState) &&& a.previousState &&& mask other ≠ 0)
          ((r.2 ^^^ a.previousState) &&& r.2 &&& mask switch ≠ 0)) := by
    obtain ⟨hseen, hfall⟩ := edges_fall c r.1 (edgesOf (lastState initial states) r.2 other).rises
      (edgesOf (lastState initial states) r.2 other).falls
    have hoff : (r.2 ^^^ a.previousState) &&& a.previousState &&& mask other ≠ 0 ↔
        turnsOff other (lastState initial states, r.2) = true := by
      rw [masked_iff _ (Nat.lt_trans ho (by decide)), hprevious,
        (changed_bits (lastState initial states) r.2 other).2, turnsOff]
    have hon : (r.2 ^^^ a.previousState) &&& r.2 &&& mask switch ≠ 0 ↔
        turnsOn switch (lastState initial states, r.2) = true := by
      rw [masked_iff _ (Nat.lt_trans hs (by decide)), hprevious,
        (changed_bits (lastState initial states) r.2 switch).1, turnsOn]
    rw [transitions_concat, deadLog_edges_congr d r.1 hoff hon]
    exact hd.step hts r.1 (e := (lastState initial states, r.2)) hseen hfall
  have hoverlap : ∀ p : Pair, p.overlapCount = b.leg.pair.overlapCount →
      p.overlapActive = b.leg.pair.overlapActive → _ := fun p hcount hactive =>
    overlap_tracks (p := p) ((congrArg BitVec.toNat hcount).trans h.overlapCount) h.overlapBound
      (hactive.trans h.overlapActive) hn
      (decide (r.2 &&& mask (k * 2) ≠ 0 ∧ r.2 &&& mask (k * 2 + 1) ≠ 0))
  obtain ⟨p, hpair, hcount, hactive⟩ := leg_overlap b.leg r.1
    (edgesOf (lastState initial states) r.2 (k * 2))
    (edgesOf (lastState initial states) r.2 (k * 2 + 1))
  have hlevels : ((edgesOf (lastState initial states) r.2 (k * 2)).level &&
      (edgesOf (lastState initial states) r.2 (k * 2 + 1)).level) =
      decide (r.2 &&& mask (k * 2) ≠ 0 ∧ r.2 &&& mask (k * 2 + 1) ≠ 0) := (overlap_now hk).symm
  rw [hlevels] at hpair
  rw [process_changed h hmasked hlast hne]
  refine ⟨h.running, ?_, ?_, ?_, ?_, ?_, ?_, ?_, ?_, ?_⟩
  · rw [lastState_concat]
  · rw [lastState_concat]
    rfl
  · rw [hlength]
    exact hchannel (high_lt hk) h.high
  · rw [hlength]
    exact hchannel (low_lt hk) h.low
  · rw [Leg.edges]
    dsimp only
    rw [dead_overlap, dead_switch, dead_switch, if_neg (by decide), if_pos rfl]
    exact hdead (high_lt hk) (low_lt hk) h.hl
  · rw [Leg.edges]
    dsimp only
    rw [dead_overlap, dead_switch, dead_switch, if_pos rfl, if_neg (by decide)]
    exact hdead (low_lt hk) (high_lt hk) h.lh
  · dsimp only
    rw [hpair]
    exact (hoverlap p hcount hactive).1
  · rw [hlength]
    exact (hoverlap p hcount hactive).2.1
  · dsimp only
    rw [hpair]
    exact (hoverlap p hcount hactive).2.2

theorem lastState_masked {state : Word} (h : state &&& logicalMask = state)
    (hstates : ∀ s ∈ states, s &&& logicalMask = s) :
    lastState state states &&& logicalMask = lastState state states := by
  induction states generalizing state with
  | nil => exact h
  | cons s states ih =>
      exact ih (hstates s List.mem_cons_self) (fun s' hs => hstates s' (List.mem_cons_of_mem s hs))

def Distinct (initial : Word) (states : List Word) : Prop :=
  ∀ e ∈ transitions initial states, e.1 ≠ e.2

instance (initial : Word) (states : List Word) : Decidable (Distinct initial states) :=
  List.decidableBAll _ _

theorem tracks_run (hk : k < pairCount) {records : List (Word × Word)}
    (hinitial : initial &&& logicalMask = initial)
    (hmasked : ∀ r ∈ records, r.2 &&& logicalMask = r.2) (hlength : records.length ≤ 1024)
    (hdistinct : Distinct initial (records.map Prod.snd)) :
    Tracks k initial (records.map Prod.snd)
      (records.foldl (Bridge.record k) { running := 1, inputBits := initial, leg := .clear 0 })
      (records.foldl observe (.initial initial)) := by
  induction records using List.reverseRecOn with
  | nil => exact tracks_initial k
  | append_singleton records r ih =>
      have hrest : ∀ r' ∈ records, r'.2 &&& logicalMask = r'.2 :=
        fun r' hr => hmasked r' (List.mem_append_left _ hr)
      have hstates : (records ++ [r]).map Prod.snd = records.map Prod.snd ++ [r.2] := List.map_append
      rw [List.length_append] at hlength
      rw [hstates, Distinct, transitions_concat] at hdistinct
      have htracks := ih hrest (Nat.le_of_succ_le hlength)
        (fun e he => hdistinct e (List.mem_append_left _ he))
      have hlast : lastState initial (records.map Prod.snd) &&& logicalMask =
          lastState initial (records.map Prod.snd) := by
        refine lastState_masked hinitial (fun s hs => ?_)
        obtain ⟨r', hr, rfl⟩ := List.mem_map.mp hs
        exact hrest r' hr
      rw [List.foldl_concat, List.foldl_concat, hstates]
      refine tracks_step hk htracks ?_ (hmasked r (by simp)) hlast ?_
      · rw [List.length_map]
        exact hlength
      · exact hdistinct (lastState initial (records.map Prod.snd), r.2) (by simp)

end Run

section Agreement

structure ChannelAgrees (c : Channel) (l : ChannelLog) : Prop where
  riseCount : c.riseCount.toNat = l.riseCount
  fallCount : c.fallCount.toNat = l.fallCount
  period : latest c.periodValid c.periodTicks = l.periodTicks.getLast?
  high : latest c.highValid c.highTicks = l.highTicks.getLast?
  low : latest c.lowValid c.lowTicks = l.lowTicks.getLast?

def DeadAgrees (f : Deadtime) (d : DeadLog) : Prop :=
  f.count.toNat = d.deadTicks.length ∧ latest f.valid f.ticks = d.deadTicks.getLast?

structure PairAgrees (p : Pair) (l : PairLog) : Prop where
  overlapCount : p.overlapCount.toNat = l.overlapCount
  hl : DeadAgrees (dead p true) l.hl
  lh : DeadAgrees (dead p false) l.lh

structure Agrees (m : Memory 32) (a : Analysis) : Prop where
  channels : ∀ i, i < channelCount → ChannelAgrees (channelAt i m) (a.channels i)
  pairs : ∀ k, k < pairCount → PairAgrees (legAt k m).pair (a.pairs k)

def captured (m : Memory 32) (hz startTicks initial : Word) (records : List (Word × Word)) : Memory 32 :=
  after (calls (.start startTicks initial :: records.map (fun r => .process r.1 r.2)))
    (initialised m hz 0)

theorem ChannelTracks.agrees {c : Channel} {l : ChannelLog} {n : Nat} (h : ChannelTracks c l n) :
    ChannelAgrees c l :=
  ⟨h.riseCount, h.fallCount, h.period.symm, h.high.symm, h.low.symm⟩

theorem DeadTracks.agrees_iff {α : Type} {off on : α → Bool} {ts : List α} {other : Channel}
    {f : Deadtime} {d : DeadLog} (h : DeadTracks off on ts other f d) :
    DeadAgrees f d ↔ ¬ Refires off on ts :=
  ⟨fun hagrees => h.same.mp hagrees.1.symm,
    fun hnot => ⟨(h.same.mpr hnot).symm, (h.latest hnot).symm⟩⟩

variable {shared : RawCaptureShared} {initial : Word} {records : List (Word × Word)}

theorem captured_tracks (m : Memory 32) (hz startTicks : Word) (h : Holds shared initial records)
    (hdistinct : Distinct initial (records.map Prod.snd)) {k : Nat} (hk : k < pairCount) :
    Tracks k initial (records.map Prod.snd) (bridgeAt k (captured m hz startTicks initial records))
      (records.foldl observe (.initial initial)) := by
  have hinitial : initial &&& logicalMask = initial := by
    rw [← h.initial]
    exact rawToLogical_masked _
  have hbridge : bridgeAt k (captured m hz startTicks initial records) = _ :=
    captured_bridge hk m hz 0 startTicks initial records
  rw [hbridge, hinitial]
  exact tracks_run hk hinitial h.masked h.length_le hdistinct

theorem channels_agree (m : Memory 32) (hz startTicks : Word) (h : Holds shared initial records)
    (hdistinct : Distinct initial (records.map Prod.snd)) {i : Nat} (hi : i < channelCount) :
    ChannelAgrees (channelAt i (captured m hz startTicks initial records))
      ((records.foldl observe (.initial initial)).channels i) := by
  have hsix : i < 6 := hi
  have hk : i / 2 < pairCount := by
    rw [pairCount]
    omega
  have htracks := captured_tracks m hz startTicks h hdistinct hk
  rcases Nat.mod_two_eq_zero_or_one i with hodd | hodd
  · have hindex : i / 2 * 2 = i := by omega
    have hagrees := htracks.high.agrees
    rw [hindex] at hagrees
    have hview : (bridgeAt (i / 2) (captured m hz startTicks initial records)).leg.high =
        channelAt (i / 2 * 2) (captured m hz startTicks initial records) := rfl
    rw [hview, hindex] at hagrees
    exact hagrees
  · have hindex : i / 2 * 2 + 1 = i := by omega
    have hagrees := htracks.low.agrees
    have hview : (bridgeAt (i / 2) (captured m hz startTicks initial records)).leg.low =
        channelAt (i / 2 * 2 + 1) (captured m hz startTicks initial records) := rfl
    rw [hview, hindex] at hagrees
    exact hagrees

theorem captured_agrees_iff (m : Memory 32) (hz startTicks : Word) (h : Holds shared initial records)
    (hdistinct : Distinct initial (records.map Prod.snd)) :
    Agrees (captured m hz startTicks initial records) (records.foldl observe (.initial initial)) ↔
      ∀ k, k < pairCount →
        ¬ DoublePulse initial (records.map Prod.snd) (k * 2) (k * 2 + 1) ∧
          ¬ DoublePulse initial (records.map Prod.snd) (k * 2 + 1) (k * 2) := by
  constructor
  · intro hagrees k hk
    have htracks := captured_tracks m hz startTicks h hdistinct hk
    have hpair := hagrees.pairs k hk
    exact ⟨htracks.hl.agrees_iff.mp hpair.hl, htracks.lh.agrees_iff.mp hpair.lh⟩
  · intro hpulses
    refine ⟨fun i hi => channels_agree m hz startTicks h hdistinct hi, fun k hk => ?_⟩
    have htracks := captured_tracks m hz startTicks h hdistinct hk
    exact ⟨htracks.overlapCount, htracks.hl.agrees_iff.mpr (hpulses k hk).1,
      htracks.lh.agrees_iff.mpr (hpulses k hk).2⟩

/-- The streaming and the offline measurement of the same records agree exactly
when no switch is turned on twice with no turn-off of the other in between. -/
theorem streaming_agrees_iff (m : Memory 32) (hz startTicks : Word) (h : Holds shared initial records)
    (hdistinct : Distinct initial (records.map Prod.snd)) :
    ∃ a, analyzeRawCapture shared = .ok a ∧
      (Agrees (captured m hz startTicks initial records) a ↔
        ∀ k, k < pairCount →
          ¬ DoublePulse initial (records.map Prod.snd) (k * 2) (k * 2 + 1) ∧
            ¬ DoublePulse initial (records.map Prod.snd) (k * 2 + 1) (k * 2)) :=
  ⟨_, h.analyzed, captured_agrees_iff m hz startTicks h hdistinct⟩

def doublePulse : RawCaptureShared :=
  { eventCount := 5
    initialRawInputs := 0
    ring := fun i =>
      { timestampTicks := BitVec.ofNat 32 (10 * i)
        rawInputs := if i = 0 then 2 else if i = 2 ∨ i = 4 then 4 else 0 } }

theorem doublePulse_holds : Holds doublePulse 0 [(0, 1), (10, 0), (20, 2), (30, 0), (40, 2)] :=
  ⟨rfl, by decide, by decide⟩

theorem streaming_agrees_iff_doublePulse :
    ∃ a, analyzeRawCapture doublePulse = .ok a ∧
      (Agrees (captured (fun _ => 0) 200000000 0 0 [(0, 1), (10, 0), (20, 2), (30, 0), (40, 2)]) a ↔
        ∀ k, k < pairCount →
          ¬ DoublePulse 0 [1, 0, 2, 0, 2] (k * 2) (k * 2 + 1) ∧
            ¬ DoublePulse 0 [1, 0, 2, 0, 2] (k * 2 + 1) (k * 2)) :=
  streaming_agrees_iff (fun _ => 0) 200000000 0 doublePulse_holds (by decide)

theorem doublePulse_disagrees :
    ∃ a, analyzeRawCapture doublePulse = .ok a ∧
      ¬ Agrees (captured (fun _ => 0) 200000000 0 0 [(0, 1), (10, 0), (20, 2), (30, 0), (40, 2)]) a := by
  refine ⟨_, doublePulse_holds.analyzed, fun hagrees => ?_⟩
  have hdistinct : Distinct 0 [1, 0, 2, 0, 2] := by decide
  have hpulses := (captured_agrees_iff (fun _ => 0) 200000000 0 doublePulse_holds hdistinct).mp hagrees
  refine (hpulses 0 (by decide)).1 ⟨[(0, 1), (1, 0), (0, 2), (2, 0)], (0, 2), [], rfl, by decide,
    by decide, ?_⟩
  exact ⟨[(0, 1), (1, 0)], (0, 2), [(2, 0)], rfl, by decide, ⟨(1, 0), by decide, by decide⟩,
    List.forall_mem_singleton.mpr (by decide)⟩

end Agreement

end HilLab.Backends.PwmAgreement
