import HilLab.Lib.Clocked
import HilLab.Lib.Timestamp
import HilLab.Pru.PwmMeasure
import HilLab.Rtl.PwmCapture

namespace HilLab.Backends.PwmConformance

open Lib.Clocked Lib.CodeView Lib.Seqlock Lib.Timestamp Pru.PwmCaptureCore Pru.PwmMeasure Rtl.PwmCapture

section Ticks

/-- What the 32-bit counter shows at a timestamp. -/
def ticksOf (timestamp : BitVec 64) : Word := timestamp.setWidth 32

theorem sub_low (now since : BitVec 64) :
    (now - since).extractLsb' 0 32 = ticksOf now - ticksOf since :=
  (BitVec.setWidth_eq_extractLsb' (by decide)).symm.trans (setWidth_sub (by decide) now since)

theorem saturate_near {now since : BitVec 64} (h : Near 32 now since) :
    saturate (now - since) = ticksOf now - ticksOf since := by
  rw [saturate, extract_high_of_near h 32, if_neg (fun hne => hne rfl), sub_low]

theorem short_near {now since : BitVec 64} (h : Near 32 now since) (minDeadtime : Word) :
    decide (now - since < minDeadtime.setWidth 64) =
      tooShort minDeadtime (ticksOf now - ticksOf since) := by
  have hlt := sub_lt_iff (by decide) h minDeadtime
  rw [tooShort, Bool.eq_iff_iff, Bool.and_eq_true, decide_eq_true_iff, decide_eq_true_iff, hlt,
    bne_iff_ne]
  refine ⟨fun hless => ⟨fun hzero => ?_, hless⟩, And.right⟩
  rw [hzero, BitVec.lt_def] at hless
  exact absurd hless (Nat.not_lt_zero _)

theorem short_zero (minDeadtime : Word) : (minDeadtime != 0) = tooShort minDeadtime 0 := by
  rw [tooShort, Bool.eq_iff_iff, Bool.and_eq_true, decide_eq_true_iff, bne_iff_ne]
  refine ⟨fun hne => ⟨hne, ?_⟩, And.left⟩
  rw [BitVec.lt_def]
  exact Nat.pos_of_ne_zero (fun hzero => hne (BitVec.eq_of_toNat_eq hzero))

def Stamped (times : BitVec 64 → Prop) (seen : Bool) (timestamp : BitVec 64) (ticks : Word) : Prop :=
  seen = true → times timestamp ∧ ticks = ticksOf timestamp

variable {times : BitVec 64 → Prop} {now : BitVec 64}

theorem Stamped.later {seen : Bool} {timestamp : BitVec 64} {ticks : Word}
    (h : Stamped times seen timestamp ticks) :
    Stamped (fun t => times t ∨ t = now) seen timestamp ticks :=
  fun hseen => ⟨.inl (h hseen).1, (h hseen).2⟩

theorem stamped_now : Stamped (fun t => times t ∨ t = now) true now (ticksOf now) :=
  fun _ => ⟨.inr rfl, rfl⟩

theorem Stamped.saturated (hnear : ∀ t, times t → Near 32 now t) {seen : Bool}
    {timestamp : BitVec 64} {ticks : Word} (h : Stamped times seen timestamp ticks) (old : Word) :
    (if seen then saturate (now - timestamp) else old) = if seen then ticksOf now - ticks else old := by
  cases hseen : seen with
  | false => rfl
  | true =>
      obtain ⟨htimes, hticks⟩ := h hseen
      rw [if_pos rfl, if_pos rfl, saturate_near (hnear _ htimes), hticks]

end Ticks

section Channel

structure SameChannel (times : BitVec 64 → Prop) (s : Capture) (c : Channel) : Prop where
  periodTicks : s.periodTicks = c.periodTicks
  highTicks : s.highTicks = c.highTicks
  lowTicks : s.lowTicks = c.lowTicks
  riseSeen : s.haveRise = c.riseSeen
  fallSeen : s.haveFall = c.fallSeen
  rise : Stamped times c.riseSeen s.lastRiseTimestamp c.lastRiseTicks
  fall : Stamped times c.fallSeen s.lastFallTimestamp c.lastFallTicks

variable {times : BitVec 64 → Prop} {now : BitVec 64} {s : Capture} {c : Channel}

theorem SameChannel.onRise (h : SameChannel times s c) (hnear : ∀ t, times t → Near 32 now t) :
    SameChannel (fun t => times t ∨ t = now) (s.onRise now) (c.rise (ticksOf now)) := by
  have hperiod := h.rise.saturated hnear c.periodTicks
  have hlow := h.fall.saturated hnear c.lowTicks
  rw [← h.riseSeen, ← h.periodTicks] at hperiod
  rw [← h.fallSeen, ← h.lowTicks] at hlow
  rw [Capture.onRise, Channel.rise, ← h.riseSeen, ← h.fallSeen, ← h.periodTicks, ← h.lowTicks]
  exact ⟨hperiod, h.highTicks, hlow, rfl, rfl, stamped_now, h.fallSeen ▸ h.fall.later⟩

theorem SameChannel.onFall (h : SameChannel times s c) (hnear : ∀ t, times t → Near 32 now t) :
    SameChannel (fun t => times t ∨ t = now) (s.onFall now) (c.fall (ticksOf now)) := by
  have hhigh := h.rise.saturated hnear c.highTicks
  rw [← h.riseSeen, ← h.highTicks] at hhigh
  rw [Capture.onFall, Channel.fall, ← h.riseSeen, ← h.highTicks]
  exact ⟨h.periodTicks, hhigh, h.lowTicks, rfl, rfl, h.riseSeen ▸ h.rise.later, stamped_now⟩

theorem SameChannel.idle (h : SameChannel times s c) :
    SameChannel (fun t => times t ∨ t = now) s c :=
  ⟨h.periodTicks, h.highTicks, h.lowTicks, h.riseSeen, h.fallSeen, h.rise.later, h.fall.later⟩

theorem SameChannel.step (h : SameChannel times s c) (hnear : ∀ t, times t → Near 32 now t)
    (pwmAsync : Bool) :
    SameChannel (fun t => times t ∨ t = now) (s.step pwmAsync now)
      (c.edges (ticksOf now) s.riseEdge s.fallEdge) := by
  have hflags : SameChannel times { s with periodValid := false, highValid := false, lowValid := false } c :=
    ⟨h.periodTicks, h.highTicks, h.lowTicks, h.riseSeen, h.fallSeen, h.rise, h.fall⟩
  have hlater {s' : Capture} {c' : Channel} (h' : SameChannel (fun t => times t ∨ t = now) s' c') :
      SameChannel (fun t => times t ∨ t = now)
        { s' with sync := s.sync.step (BitVec.ofBool pwmAsync), pwmSyncD := s.sync.bit 0 } c' :=
    ⟨h'.periodTicks, h'.highTicks, h'.lowTicks, h'.riseSeen, h'.fallSeen, h'.rise, h'.fall⟩
  have hone : (s.riseEdge && s.fallEdge) = false := by
    rw [Capture.riseEdge, Capture.fallEdge]
    cases s.sync.bit 0 <;> cases s.pwmSyncD <;> rfl
  rw [Capture.step, Channel.edges]
  cases hrise : s.riseEdge <;> cases hfall : s.fallEdge
  · exact hlater hflags.idle
  · exact hlater (hflags.onFall hnear)
  · exact hlater (hflags.onRise hnear)
  · rw [hrise, hfall] at hone
    cases hone

end Channel

section Pair

structure SameDeadtimes (s : Monitor) (p : Pair) : Prop where
  highToLow : s.deadtimeHighToLowTicks = p.deadtimeHighToLowTicks
  lowToHigh : s.deadtimeLowToHighTicks = p.deadtimeLowToHighTicks
  violation : s.deadtimeViolationLatched = p.violationLatched

structure SamePair (times : BitVec 64 → Prop) (s : Monitor) (leg : Leg) : Prop where
  deadtimes : SameDeadtimes s leg.pair
  overlap : s.shootThroughLatched = leg.pair.overlapLatched
  highSeen : s.highFallSeen = leg.high.fallSeen
  lowSeen : s.lowFallSeen = leg.low.fallSeen
  highFall : Stamped times leg.high.fallSeen s.highFallTimestamp leg.high.lastFallTicks
  lowFall : Stamped times leg.low.fallSeen s.lowFallTimestamp leg.low.lastFallTicks

variable {times : BitVec 64 → Prop} {s next : Monitor} {i : MonitorInput} {p : Pair}

theorem sample_same (hnear : ∀ t, times t → Near 32 i.timestamp t) {c : Channel} {seen : Bool}
    {since : BitVec 64} (hseen : seen = c.fallSeen) (h : Stamped times c.fallSeen since c.lastFallTicks)
    (rises falls : Bool) :
    sample falls seen since i.timestamp i.minDeadtimeTicks =
      (switchTicks (ticksOf i.timestamp) true falls (c.edges (ticksOf i.timestamp) rises falls)).map
        (fun ticks => (ticks, tooShort i.minDeadtimeTicks ticks)) := by
  obtain ⟨hedge, hlast⟩ := edges_fall c (ticksOf i.timestamp) rises falls
  rw [sample, switchTicks, hedge, hlast, hseen]
  cases falls with
  | true =>
      rw [short_zero]
      rfl
  | false =>
      cases hc : c.fallSeen with
      | false => rfl
      | true =>
          obtain ⟨htimes, hticks⟩ := h hc
          rw [hticks]
          dsimp only
          rw [sub_low, short_near (hnear _ htimes)]
          rfl

/-- What a clock shows of the levels is left alone by the samples at turn-ons. -/
structure Observed (s t : Monitor) : Prop where
  shootThrough : t.shootThroughLatched = s.shootThroughLatched
  highSeen : t.highFallSeen = s.highFallSeen
  lowSeen : t.lowFallSeen = s.lowFallSeen
  highFall : t.highFallTimestamp = s.highFallTimestamp
  lowFall : t.lowFallTimestamp = s.lowFallTimestamp

theorem observed_onLowRise : Observed next (s.onLowRise next i) := by
  rw [Monitor.onLowRise]
  cases sample s.highFall s.highFallSeen s.highFallTimestamp i.timestamp i.minDeadtimeTicks <;>
    exact ⟨rfl, rfl, rfl, rfl, rfl⟩

theorem observed_onHighRise : Observed next (s.onHighRise next i) := by
  rw [Monitor.onHighRise]
  cases sample s.lowFall s.lowFallSeen s.lowFallTimestamp i.timestamp i.minDeadtimeTicks <;>
    exact ⟨rfl, rfl, rfl, rfl, rfl⟩

theorem Observed.trans {t u : Monitor} (h : Observed s t) (h' : Observed t u) : Observed s u :=
  ⟨h'.shootThrough.trans h.shootThrough, h'.highSeen.trans h.highSeen, h'.lowSeen.trans h.lowSeen,
    h'.highFall.trans h.highFall, h'.lowFall.trans h.lowFall⟩

theorem Observed.ite {t : Monitor} (h : Observed s t) (b : Bool) : Observed s (if b then t else s) := by
  cases b
  · exact ⟨rfl, rfl, rfl, rfl, rfl⟩
  · exact h

theorem observed_step : Observed (s.observe i) (s.step i) := by
  have hrise : Observed (s.observe i) (s.onLowRise (s.observe i) i) := observed_onLowRise
  have hlow := hrise.ite s.lowRise
  have hhigh := hlow.trans ((observed_onHighRise (s := s) (i := i)).ite s.highRise)
  exact ⟨hhigh.shootThrough, hhigh.highSeen, hhigh.lowSeen, hhigh.highFall, hhigh.lowFall⟩

theorem SameDeadtimes.onLowRise (h : SameDeadtimes next p) {o : Option Word}
    (hs : sample s.highFall s.highFallSeen s.highFallTimestamp i.timestamp i.minDeadtimeTicks =
      o.map (fun ticks => (ticks, tooShort i.minDeadtimeTicks ticks))) :
    SameDeadtimes (s.onLowRise next i) (p.switch i.minDeadtimeTicks true o) := by
  rw [Monitor.onLowRise, hs]
  cases o with
  | none => exact h
  | some ticks =>
      have hlatch := congrArg (fun latched => if tooShort i.minDeadtimeTicks ticks then true else latched)
        h.violation
      rw [Pair.switch]
      refine ⟨?_, ?_, hlatch.trans ?_⟩
      · rw [Pair.record]
        cases tooShort i.minDeadtimeTicks ticks <;> rfl
      · rw [Pair.record]
        cases tooShort i.minDeadtimeTicks ticks <;> exact h.lowToHigh
      · rw [Pair.record]
        cases tooShort i.minDeadtimeTicks ticks <;> rfl

theorem SameDeadtimes.onHighRise (h : SameDeadtimes next p) {o : Option Word}
    (hs : sample s.lowFall s.lowFallSeen s.lowFallTimestamp i.timestamp i.minDeadtimeTicks =
      o.map (fun ticks => (ticks, tooShort i.minDeadtimeTicks ticks))) :
    SameDeadtimes (s.onHighRise next i) (p.switch i.minDeadtimeTicks false o) := by
  rw [Monitor.onHighRise, hs]
  cases o with
  | none => exact h
  | some ticks =>
      have hlatch := congrArg (fun latched => if tooShort i.minDeadtimeTicks ticks then true else latched)
        h.violation
      rw [Pair.switch]
      refine ⟨?_, ?_, hlatch.trans ?_⟩
      · rw [Pair.record]
        cases tooShort i.minDeadtimeTicks ticks <;> exact h.highToLow
      · rw [Pair.record]
        cases tooShort i.minDeadtimeTicks ticks <;> rfl
      · rw [Pair.record]
        cases tooShort i.minDeadtimeTicks ticks <;> rfl

theorem SameDeadtimes.lowTurnOn (h : SameDeadtimes next p) {ticks : Word} {falls : Bool} {c : Channel}
    (hs : sample s.highFall s.highFallSeen s.highFallTimestamp i.timestamp i.minDeadtimeTicks =
      (switchTicks ticks true falls c).map (fun t => (t, tooShort i.minDeadtimeTicks t)))
    (rises : Bool) :
    SameDeadtimes (if rises then s.onLowRise next i else next)
      (p.switch i.minDeadtimeTicks true (switchTicks ticks rises falls c)) := by
  cases rises
  · exact h
  · exact h.onLowRise hs

theorem SameDeadtimes.highTurnOn (h : SameDeadtimes next p) {ticks : Word} {falls : Bool} {c : Channel}
    (hs : sample s.lowFall s.lowFallSeen s.lowFallTimestamp i.timestamp i.minDeadtimeTicks =
      (switchTicks ticks true falls c).map (fun t => (t, tooShort i.minDeadtimeTicks t)))
    (rises : Bool) :
    SameDeadtimes (if rises then s.onHighRise next i else next)
      (p.switch i.minDeadtimeTicks false (switchTicks ticks rises falls c)) := by
  cases rises
  · exact h
  · exact h.onHighRise hs

theorem switch_overlapLatched (minDeadtime : Word) (highToLow : Bool) (o : Option Word) (p : Pair) :
    (p.switch minDeadtime highToLow o).overlapLatched = p.overlapLatched := by
  cases o with
  | none => rfl
  | some ticks =>
      rw [Pair.switch, Pair.record]
      cases tooShort minDeadtime ticks <;> cases highToLow <;> rfl

theorem overlap_latched (now : Bool) (p : Pair) :
    (p.overlap now).overlapLatched = (now || p.overlapLatched) := by
  cases now <;> rfl

theorem SameDeadtimes.overlap (h : SameDeadtimes s p) (now : Bool) : SameDeadtimes s (p.overlap now) := by
  rw [Pair.overlap]
  cases now
  · exact ⟨h.highToLow, h.lowToHigh, h.violation⟩
  · exact ⟨h.highToLow, h.lowToHigh, h.violation⟩

def highEdges (s : Monitor) : Edges := ⟨s.highRise, s.highFall, s.high⟩
def lowEdges (s : Monitor) : Edges := ⟨s.lowRise, s.lowFall, s.low⟩

theorem fall_same {c : Channel} {seen : Bool} {since : BitVec 64} (hseen : seen = c.fallSeen)
    (h : Stamped times c.fallSeen since c.lastFallTicks) (now : BitVec 64) (rises falls : Bool) :
    (if falls then true else seen) = (c.edges (ticksOf now) rises falls).fallSeen ∧
      Stamped (fun t => times t ∨ t = now) (c.edges (ticksOf now) rises falls).fallSeen
        (if falls then now else since) (c.edges (ticksOf now) rises falls).lastFallTicks := by
  obtain ⟨hedge, hlast⟩ := edges_fall c (ticksOf now) rises falls
  rw [hedge, hlast, hseen]
  cases falls
  · exact ⟨rfl, h.later⟩
  · exact ⟨rfl, stamped_now⟩

theorem SamePair.step {leg : Leg} (h : SamePair times s leg)
    (hnear : ∀ t, times t → Near 32 i.timestamp t) (hpolicy : leg.minDeadtime = i.minDeadtimeTicks)
    (hclear : i.clearFaults = false) :
    SamePair (fun t => times t ∨ t = i.timestamp) (s.step i)
      (leg.edges (ticksOf i.timestamp) (highEdges s) (lowEdges s)) := by
  have hlowSample := sample_same hnear h.highSeen h.highFall s.highRise s.highFall
  have hhighSample := sample_same hnear h.lowSeen h.lowFall s.lowRise s.lowFall
  have hobserved : SameDeadtimes (s.observe i) leg.pair := by
    refine ⟨h.deadtimes.highToLow, h.deadtimes.lowToHigh, ?_⟩
    rw [Monitor.observe, hclear]
    exact h.deadtimes.violation
  have hturned := (hobserved.lowTurnOn hlowSample s.lowRise).highTurnOn hhighSample s.highRise
  rw [← hpolicy] at hturned
  have hobserves := observed_step (s := s) (i := i)
  obtain ⟨hhighSeen, hhighFall⟩ := fall_same h.highSeen h.highFall i.timestamp s.highRise s.highFall
  obtain ⟨hlowSeen, hlowFall⟩ := fall_same h.lowSeen h.lowFall i.timestamp s.lowRise s.lowFall
  have hdeadtimes := hturned.overlap (s.high && s.low)
  refine ⟨⟨hdeadtimes.highToLow, hdeadtimes.lowToHigh, hdeadtimes.violation⟩, ?_,
    hobserves.highSeen.trans hhighSeen, hobserves.lowSeen.trans hlowSeen, ?_, ?_⟩
  · rw [hobserves.shootThrough, Monitor.observe, Leg.edges, hclear, h.overlap]
    dsimp only
    rw [overlap_latched, switch_overlapLatched, switch_overlapLatched, highEdges, lowEdges]
    cases s.high && s.low <;> rfl
  · rw [hobserves.highFall]
    exact hhighFall
  · rw [hobserves.lowFall]
    exact hlowFall

end Pair

section Run

/-- The two pins and the time in one clock. -/
structure Pins where
  highAsync : Bool
  lowAsync : Bool
  timestamp : BitVec 64

/-- The capture of the high side and the monitor of the pair, on the same pins. -/
structure Fabric where
  capture : Capture
  monitor : Monitor

def Fabric.reset : Fabric := { capture := .reset, monitor := .reset }

def Fabric.step (minDeadtimeTicks : Word) (s : Fabric) (i : Pins) : Fabric :=
  { capture := s.capture.step i.highAsync i.timestamp
    monitor := s.monitor.step
      { highAsync := i.highAsync
        lowAsync := i.lowAsync
        timestamp := i.timestamp
        minDeadtimeTicks
        clearFaults := false } }

/-- The logical inputs of the PRU when only the pair k is driven. -/
def levels (k : Nat) (high low : Bool) : Word :=
  (if high then mask (k * 2) else 0) ||| (if low then mask (k * 2 + 1) else 0)

def Fabric.inputs (k : Nat) (s : Fabric) : Word := levels k s.monitor.high s.monitor.low

def changes (ticks inputs : Nat → Word) : Nat → List (Word × Word)
  | 0 => []
  | n + 1 =>
      if inputs (n + 1) = inputs n then changes ticks inputs n
      else changes ticks inputs n ++ [(ticks (n + 1), inputs (n + 1))]

variable {k : Nat}

theorem levels_low : levels k false false = 0 := BitVec.or_zero

theorem bit_levels (hk : k < pairCount) (high low : Bool) :
    bit (levels k high low) (k * 2) = high ∧ bit (levels k high low) (k * 2 + 1) = low := by
  have hall : ∀ j, j < pairCount → ∀ h l,
      bit (levels j h l) (j * 2) = h ∧ bit (levels j h l) (j * 2 + 1) = l := by decide
  exact hall k hk high low

theorem levels_masked (hk : k < pairCount) (high low : Bool) :
    levels k high low &&& logicalMask = levels k high low := by
  have hall : ∀ j, j < pairCount → ∀ h l, levels j h l &&& logicalMask = levels j h l := by decide
  exact hall k hk high low

theorem record_same {b : Bridge} {r : Word × Word} (h : r.2 = b.inputBits) : b.record k r = b := by
  rw [Bridge.record, Bridge.process, h]
  exact if_pos (.inr rfl)

/-- The two backends after the same samples, seen at the given times. -/
structure Conforms (k : Nat) (minDeadtime : Word) (times : BitVec 64 → Prop) (s : Fabric)
    (b : Bridge) : Prop where
  running : b.running = 1
  minDeadtime : b.leg.minDeadtime = minDeadtime
  inputBits : b.inputBits = levels k s.monitor.highD s.monitor.lowD
  sync : s.capture.sync.bit 0 = s.monitor.high
  first : s.capture.sync.first.getLsbD 0 = s.monitor.sync.first.getLsbD 1
  previous : s.capture.pwmSyncD = s.monitor.highD
  channel : SameChannel times s.capture b.leg.high
  pair : SamePair times s.monitor b.leg
  latched : s.monitor.highD = true → s.monitor.lowD = true → b.leg.pair.overlapLatched = true

theorem conforms_reset (minDeadtime : Word) :
    Conforms k minDeadtime (fun _ => False) .reset
      { running := 1, inputBits := 0, leg := .clear minDeadtime } := by
  have hstamped {timestamp : BitVec 64} {ticks : Word} :
      Stamped (fun _ => False) false timestamp ticks := fun h => (by cases h)
  have hchannel : SameChannel (fun _ => False) .reset .clear :=
    ⟨rfl, rfl, rfl, rfl, rfl, hstamped, hstamped⟩
  have hpair : SamePair (fun _ => False) .reset (.clear minDeadtime) :=
    ⟨⟨rfl, rfl, rfl⟩, rfl, rfl, rfl, hstamped, hstamped⟩
  exact ⟨rfl, rfl, levels_low.symm, rfl, rfl, rfl, hchannel, hpair, fun h => (by cases h)⟩

variable {minDeadtime : Word} {times : BitVec 64 → Prop} {s : Fabric} {b : Bridge}

theorem SamePair.idle {t : Monitor} {leg : Leg} {ticks : Word} {high low : Bool}
    (h : SamePair times t (leg.edges ticks ⟨false, false, high⟩ ⟨false, false, low⟩))
    (hlatched : high = true → low = true → leg.pair.overlapLatched = true) :
    SamePair times t leg := by
  have hoverlap := h.overlap
  rw [Leg.edges] at hoverlap
  dsimp only at hoverlap
  rw [overlap_latched, switch_overlapLatched, switch_overlapLatched] at hoverlap
  refine ⟨?_, ?_, h.highSeen, h.lowSeen, h.highFall, h.lowFall⟩
  · cases high <;> cases low <;>
      exact ⟨h.deadtimes.highToLow, h.deadtimes.lowToHigh, h.deadtimes.violation⟩
  · cases high
    · exact hoverlap
    · cases low
      · exact hoverlap
      · exact hoverlap.trans (hlatched rfl rfl).symm

theorem edgesOf_levels (hk : k < pairCount) (h : Conforms k minDeadtime times s b) :
    edgesOf b.inputBits (s.inputs k) (k * 2) = highEdges s.monitor ∧
      edgesOf b.inputBits (s.inputs k) (k * 2 + 1) = lowEdges s.monitor := by
  obtain ⟨hhigh, hlow⟩ := bit_levels hk s.monitor.high s.monitor.low
  obtain ⟨hhighD, hlowD⟩ := bit_levels hk s.monitor.highD s.monitor.lowD
  rw [h.inputBits, Fabric.inputs, edgesOf, edgesOf, hhigh, hlow, hhighD, hlowD]
  exact ⟨rfl, rfl⟩

theorem record_inputs (hk : k < pairCount) (h : Conforms k minDeadtime times s b) (ticks : Word)
    (hne : s.inputs k ≠ b.inputBits) :
    b.record k (ticks, s.inputs k) =
      { b with
        inputBits := s.inputs k
        leg := b.leg.edges ticks (highEdges s.monitor) (lowEdges s.monitor) } := by
  obtain ⟨hhigh, hlow⟩ := edgesOf_levels hk h
  have hmasked : s.inputs k &&& logicalMask = s.inputs k := levels_masked hk _ _
  have hprevious : b.inputBits &&& logicalMask = b.inputBits := by
    rw [h.inputBits]
    exact levels_masked hk _ _
  have hrunning : b.running ≠ 0 := by
    rw [h.running]
    decide
  rw [Bridge.record, Bridge.process]
  dsimp only
  rw [hmasked, hprevious, if_neg (not_or.mpr ⟨hrunning, hne⟩), hhigh, hlow]

theorem conforms_step (hk : k < pairCount) (h : Conforms k minDeadtime times s b) (i : Pins)
    (hnear : ∀ t, times t → Near 32 i.timestamp t) :
    Conforms k minDeadtime (fun t => times t ∨ t = i.timestamp) (s.step minDeadtime i)
      (b.record k (ticksOf i.timestamp, s.inputs k)) := by
  have hchannel := h.channel.step hnear i.highAsync
  have hrise : s.capture.riseEdge = s.monitor.highRise := by
    rw [Capture.riseEdge, h.sync, h.previous]
    rfl
  have hfall : s.capture.fallEdge = s.monitor.highFall := by
    rw [Capture.fallEdge, h.sync, h.previous]
    rfl
  rw [hrise, hfall] at hchannel
  have hpair := h.pair.step (i := ⟨i.highAsync, i.lowAsync, i.timestamp, minDeadtime, false⟩) hnear
    h.minDeadtime rfl
  have hfirst : (BitVec.ofBool i.highAsync).getLsbD 0 =
      (BitVec.ofBool i.highAsync ++ BitVec.ofBool i.lowAsync).getLsbD 1 := by
    cases i.highAsync <;> cases i.lowAsync <;> rfl
  by_cases hsame : s.inputs k = b.inputBits
  · have hlevels := hsame.trans h.inputBits
    obtain ⟨hhigh, hlow⟩ := bit_levels hk s.monitor.high s.monitor.low
    obtain ⟨hhighD, hlowD⟩ := bit_levels hk s.monitor.highD s.monitor.lowD
    rw [Fabric.inputs] at hlevels
    rw [hlevels, hhighD] at hhigh
    rw [hlevels, hlowD] at hlow
    have hhighIdle : highEdges s.monitor = ⟨false, false, s.monitor.high⟩ := by
      rw [highEdges, Monitor.highRise, Monitor.highFall, hhigh, Bool.and_not_self, Bool.not_and_self]
    have hlowIdle : lowEdges s.monitor = ⟨false, false, s.monitor.low⟩ := by
      rw [lowEdges, Monitor.lowRise, Monitor.lowFall, hlow, Bool.and_not_self, Bool.not_and_self]
    have hlatched : s.monitor.high = true → s.monitor.low = true →
        b.leg.pair.overlapLatched = true := by
      rw [← hhigh, ← hlow]
      exact h.latched
    rw [hhighIdle, hlowIdle] at hpair
    have hriseIdle : s.monitor.highRise = false := congrArg Edges.rises hhighIdle
    have hfallIdle : s.monitor.highFall = false := congrArg Edges.falls hhighIdle
    rw [hriseIdle, hfallIdle] at hchannel
    rw [record_same hsame]
    exact ⟨h.running, h.minDeadtime, hsame.symm, h.first, hfirst, h.sync, hchannel,
      hpair.idle hlatched, hlatched⟩
  · rw [record_inputs hk h _ hsame]
    refine ⟨h.running, h.minDeadtime, rfl, h.first, hfirst, h.sync, hchannel, hpair, ?_⟩
    intro hhigh hlow
    have hnow : (s.monitor.high && s.monitor.low) = true := by
      rw [show s.monitor.high = true from hhigh, show s.monitor.low = true from hlow]
      rfl
    rw [Leg.edges]
    dsimp only
    rw [overlap_latched, highEdges, lowEdges, hnow]
    rfl

/-- Any two timestamps of the first samples are less than 2^32 ticks apart. -/
def Spans (x : Nat → Pins) (n : Nat) : Prop :=
  ∀ i j, i ≤ j → j ≤ n → Near 32 (x j).timestamp (x i).timestamp

variable (k minDeadtime) in
def inputsAt (x : Nat → Pins) (n : Nat) : Word :=
  (wave (Fabric.step minDeadtime) .reset x n).inputs k

def ticksAt (x : Nat → Pins) (n : Nat) : Word := ticksOf (x n).timestamp

variable (k minDeadtime) in
def records (x : Nat → Pins) (n : Nat) : List (Word × Word) :=
  changes (ticksAt x) (inputsAt k minDeadtime x) n

def Seen (x : Nat → Pins) (n : Nat) (t : BitVec 64) : Prop := ∃ j, j < n ∧ (x j).timestamp = t

theorem seen_zero (x : Nat → Pins) : Seen x 0 = fun _ => False := by
  funext t
  exact propext ⟨fun ⟨_, hj, _⟩ => Nat.not_lt_zero _ hj, False.elim⟩

theorem seen_succ (x : Nat → Pins) (n : Nat) :
    Seen x (n + 1) = fun t => Seen x n t ∨ t = (x n).timestamp := by
  funext t
  apply propext
  constructor
  · rintro ⟨j, hj, rfl⟩
    rcases Nat.lt_succ_iff_lt_or_eq.mp hj with hlt | rfl
    · exact .inl ⟨j, hlt, rfl⟩
    · exact .inr rfl
  · rintro (⟨j, hj, rfl⟩ | rfl)
    · exact ⟨j, Nat.lt_succ_of_lt hj, rfl⟩
    · exact ⟨n, Nat.lt_succ_self n, rfl⟩

theorem near_seen {x : Nat → Pins} {n m : Nat} (hspan : Spans x n) (hm : m ≤ n) :
    ∀ t, Seen x m t → Near 32 (x m).timestamp t := by
  rintro t ⟨j, hj, rfl⟩
  exact hspan j m (Nat.le_of_lt hj) hm

theorem conforms_run (minDeadtime : Word) (hk : k < pairCount) (x : Nat → Pins) (n : Nat) (hspan : Spans x n) :
    Conforms k minDeadtime (Seen x (n + 1)) (wave (Fabric.step minDeadtime) .reset x (n + 1))
      ((records k minDeadtime x n).foldl (Bridge.record k)
        { running := 1, inputBits := 0, leg := .clear minDeadtime }) := by
  induction n with
  | zero =>
      have hreset := conforms_reset (k := k) minDeadtime
      rw [← seen_zero x] at hreset
      have hstep := conforms_step hk hreset (x 0) (near_seen hspan (Nat.le_refl 0))
      have hlow : Fabric.reset.inputs k = 0 := levels_low
      rw [record_same hlow, ← seen_succ] at hstep
      exact hstep
  | succ n ih =>
      have hrun := ih (fun i j hij hj => hspan i j hij (Nat.le_succ_of_le hj))
      have hstep := conforms_step hk hrun (x (n + 1)) (near_seen hspan (Nat.le_refl _))
      rw [← seen_succ] at hstep
      rw [records, changes]
      split
      · next hsame =>
          have hinputs := hsame.trans hrun.inputBits.symm
          rw [record_same hinputs] at hstep
          exact hstep
      · rw [List.foldl_append]
        exact hstep

end Run

section Conformance

/-- The fabric and the leg of the PRU's block hold the same measurements. -/
structure Alike (s : Fabric) (leg : Leg) : Prop where
  periodTicks : s.capture.periodTicks = leg.high.periodTicks
  highTicks : s.capture.highTicks = leg.high.highTicks
  lowTicks : s.capture.lowTicks = leg.high.lowTicks
  highToLow : s.monitor.deadtimeHighToLowTicks = leg.pair.deadtimeHighToLowTicks
  lowToHigh : s.monitor.deadtimeLowToHighTicks = leg.pair.deadtimeLowToHighTicks
  overlap : leg.pair.overlapLatched = s.monitor.shootThroughLatched
  violation : leg.pair.violationLatched = s.monitor.deadtimeViolationLatched

/-- The block of the PRU after sample n: initialised, started at the first
sample and given every sample that differs from the one before. -/
def firmware (m : Memory 32) (hz minDeadtime : Word) (k : Nat) (x : Nat → Pins) (n : Nat) :
    Memory 32 :=
  after
    (calls (.start (ticksAt x 0) (inputsAt k minDeadtime x 0) ::
      (records k minDeadtime x n).map (fun r => .process r.1 r.2)))
    (initialised m hz minDeadtime)

/-- After every sample the two backends hold the same measurements. -/
theorem backends_alike {k : Nat} (hk : k < pairCount) (m : Memory 32) (hz minDeadtime : Word)
    (x : Nat → Pins) (n : Nat) (hspan : Spans x n) :
    Alike (wave (Fabric.step minDeadtime) .reset x (n + 1))
      (legAt k (firmware m hz minDeadtime k x n)) := by
  have hconforms := conforms_run minDeadtime hk x n hspan
  have hlow : inputsAt k minDeadtime x 0 &&& logicalMask = 0 := by
    rw [inputsAt, wave, Fabric.inputs, levels_masked hk]
    exact levels_low
  have hbridge := captured_bridge hk m hz minDeadtime (ticksAt x 0) (inputsAt k minDeadtime x 0)
    (records k minDeadtime x n)
  rw [hlow] at hbridge
  rw [← hbridge] at hconforms
  rw [firmware]
  exact ⟨hconforms.channel.periodTicks, hconforms.channel.highTicks, hconforms.channel.lowTicks,
    hconforms.pair.deadtimes.highToLow, hconforms.pair.deadtimes.lowToHigh,
    hconforms.pair.overlap.symm, hconforms.pair.deadtimes.violation.symm⟩

/-- A timebase that counts clocks spans less than one round in 2^32 clocks. -/
theorem spans_timebase {x : Nat → Pins} (start : BitVec 64)
    (h : ∀ n, (x n).timestamp = start + BitVec.ofNat 64 n) {n : Nat} (hn : n < 2 ^ 32) : Spans x n := by
  intro i j hij hj
  have hdiff : (x j).timestamp - (x i).timestamp = BitVec.ofNat 64 (j - i) := by
    rw [h, h]
    apply BitVec.eq_of_toNat_eq
    simp only [BitVec.toNat_sub, BitVec.toNat_add, BitVec.toNat_ofNat]
    omega
  rw [Near, hdiff, BitVec.toNat_ofNat]
  omega

def complementary (n : Nat) : Pins :=
  { highAsync := decide (n % 10 < 4)
    lowAsync := decide (5 ≤ n % 10 ∧ n % 10 < 9)
    timestamp := BitVec.ofNat 64 n }

theorem backends_alike_complementary :
    Alike (wave (Fabric.step 3) .reset complementary 31)
      (legAt 1 (firmware (fun _ => 0) 200000000 3 1 complementary 30)) :=
  backends_alike (by decide) (fun _ => 0) 200000000 3 complementary 30
    (spans_timebase 0 (fun _ => (BitVec.zero_add _).symm) (by decide))

end Conformance

end HilLab.Backends.PwmConformance
