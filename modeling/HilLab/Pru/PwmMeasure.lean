import HilLab.Lib.CodeView
import HilLab.Pru.PwmSeqlock

namespace HilLab.Pru.PwmMeasure

open Lib.Seqlock Lib.CodeView PwmCaptureCore

section Bits

def mask (i : Nat) : Word := ((1 <<< i : Nat) : Word)

def bit (x : Word) (i : Nat) : Bool := x.getLsbD i

theorem bit_mask (i j : Nat) : bit (mask i) j = (decide (j < 32) && decide (i = j)) := by
  have hmask : mask i = BitVec.ofNat 32 (2 ^ i) := by
    rw [mask, Nat.one_shiftLeft]
    rfl
  rw [hmask, bit, BitVec.getLsbD_ofNat, Nat.testBit_two_pow]

theorem mask_bit {n : Nat} (hn : n < 32) (j : Nat) : bit (mask n) j = decide (j = n) := by
  rw [bit_mask]
  by_cases hj : j = n
  · simp [hj, hn]
  · simp [hj, Ne.symm hj]

theorem bit_or (x y : Word) (i : Nat) : bit (x ||| y) i = (bit x i || bit y i) := BitVec.getLsbD_or

theorem bit_and (x y : Word) (i : Nat) : bit (x &&& y) i = (bit x i && bit y i) :=
  BitVec.getLsbD_and

theorem bit_not (x : Word) (i : Nat) : bit (~~~x) i = (decide (i < 32) && !bit x i) :=
  BitVec.getLsbD_not

theorem bit_xor (x y : Word) (i : Nat) : bit (x ^^^ y) i = (bit x i ^^ bit y i) :=
  BitVec.getLsbD_xor

theorem bit_logicalMask {i : Nat} (hi : i < channelCount) : bit logicalMask i = true := by
  have hall : ∀ j, j < channelCount → bit logicalMask j = true := by decide
  exact hall i hi

theorem masked_iff (x : Word) {i : Nat} (hi : i < 32) : x &&& mask i ≠ 0 ↔ bit x i = true := by
  have hzero : ∀ j, bit 0 j = false := fun _ => BitVec.getLsbD_zero
  constructor
  · intro h
    by_contra hbit
    apply h
    apply BitVec.eq_of_getLsbD_eq
    intro j _
    change bit (x &&& mask i) j = bit 0 j
    rw [bit_and, bit_mask, hzero]
    by_cases hji : i = j
    · rw [← hji, Bool.eq_false_iff.mpr hbit]
      rfl
    · rw [decide_eq_false hji, Bool.and_false, Bool.and_false]
  · intro hbit h
    have hand : bit (x &&& mask i) i = true := by
      rw [bit_and, hbit, bit_mask, decide_eq_true hi, decide_eq_true rfl]
      rfl
    rw [h, hzero] at hand
    cases hand

theorem masked_bne (x : Word) {i : Nat} (hi : i < 32) : (x &&& mask i != 0) = bit x i := by
  rw [Bool.eq_iff_iff, bne_iff_ne]
  exact masked_iff x hi

theorem acts_masked {β : Type} {view : Memory 32 → β} {a b : Code 32} {f g : β → β} (x : Word)
    {i : Nat} (hi : i < 32) (ha : Acts view a f) (hb : Acts view b g) :
    Acts view (if x &&& mask i ≠ 0 then a else b) (fun s => if bit x i then f s else g s) := by
  refine acts_congr (acts_ite ha hb) (fun s => ?_)
  simp only [masked_iff x hi]

end Bits

/-- What the firmware knows of one channel. -/
structure Channel where
  periodTicks : Word
  highTicks : Word
  lowTicks : Word
  lastRiseTicks : Word
  lastFallTicks : Word
  riseCount : Word
  fallCount : Word
  riseSeen : Bool
  fallSeen : Bool
  periodValid : Bool
  highValid : Bool
  lowValid : Bool

def Channel.ofWords (b : Fin 8 → Word) : Channel :=
  { periodTicks := b 0
    highTicks := b 1
    lowTicks := b 2
    lastRiseTicks := b 3
    lastFallTicks := b 4
    riseCount := b 5
    fallCount := b 6
    riseSeen := bit (b 7) 0
    fallSeen := bit (b 7) 1
    periodValid := bit (b 7) 2
    highValid := bit (b 7) 3
    lowValid := bit (b 7) 4 }

def Channel.rise (ticks : Word) (c : Channel) : Channel :=
  { c with
    periodTicks := if c.riseSeen then ticks - c.lastRiseTicks else c.periodTicks
    periodValid := c.periodValid || c.riseSeen
    lowTicks := if c.fallSeen then ticks - c.lastFallTicks else c.lowTicks
    lowValid := c.lowValid || c.fallSeen
    lastRiseTicks := ticks
    riseCount := c.riseCount + 1
    riseSeen := true }

def Channel.fall (ticks : Word) (c : Channel) : Channel :=
  { c with
    highTicks := if c.riseSeen then ticks - c.lastRiseTicks else c.highTicks
    highValid := c.highValid || c.riseSeen
    lastFallTicks := ticks
    fallCount := c.fallCount + 1
    fallSeen := true }

def Channel.edges (ticks : Word) (rises falls : Bool) (c : Channel) : Channel :=
  let c := if rises then c.rise ticks else c
  if falls then c.fall ticks else c

theorem edges_fall (c : Channel) (ticks : Word) (rises falls : Bool) :
    (c.edges ticks rises falls).fallSeen = (falls || c.fallSeen) ∧
      (c.edges ticks rises falls).lastFallTicks = if falls then ticks else c.lastFallTicks := by
  cases rises <;> cases falls <;> exact ⟨rfl, rfl⟩

/-- What the firmware knows of one pair. -/
structure Pair where
  deadtimeHighToLowTicks : Word
  deadtimeLowToHighTicks : Word
  deadtimeHighToLowCount : Word
  deadtimeLowToHighCount : Word
  overlapCount : Word
  violationCount : Word
  highToLowValid : Bool
  lowToHighValid : Bool
  overlapActive : Bool
  overlapLatched : Bool
  violationLatched : Bool

def Pair.ofWords (b : Fin 8 → Word) : Pair :=
  { deadtimeHighToLowTicks := b 0
    deadtimeLowToHighTicks := b 1
    deadtimeHighToLowCount := b 2
    deadtimeLowToHighCount := b 3
    overlapCount := b 4
    violationCount := b 5
    highToLowValid := bit (b 6) 0
    lowToHighValid := bit (b 6) 1
    overlapActive := bit (b 6) 2
    overlapLatched := bit (b 6) 3
    violationLatched := bit (b 6) 4 }

def tooShort (minDeadtime ticks : Word) : Bool := minDeadtime != 0 && decide (ticks < minDeadtime)

def Pair.record (minDeadtime : Word) (highToLow : Bool) (ticks : Word) (p : Pair) : Pair :=
  let p :=
    if highToLow then
      { p with
        deadtimeHighToLowTicks := ticks
        deadtimeHighToLowCount := p.deadtimeHighToLowCount + 1
        highToLowValid := true }
    else
      { p with
        deadtimeLowToHighTicks := ticks
        deadtimeLowToHighCount := p.deadtimeLowToHighCount + 1
        lowToHighValid := true }
  if tooShort minDeadtime ticks then
    { p with violationCount := p.violationCount + 1, violationLatched := true }
  else p

def switchTicks (ticks : Word) (rises falls : Bool) (other : Channel) : Option Word :=
  if rises then
    if falls then some 0
    else if other.fallSeen then some (ticks - other.lastFallTicks)
    else none
  else none

def Pair.switch (minDeadtime : Word) (highToLow : Bool) (sample : Option Word) (p : Pair) : Pair :=
  match sample with
  | some ticks => p.record minDeadtime highToLow ticks
  | none => p

def Pair.overlap (now : Bool) (p : Pair) : Pair :=
  if now then
    { p with
      overlapCount := if p.overlapActive then p.overlapCount else p.overlapCount + 1
      overlapActive := true
      overlapLatched := true }
  else { p with overlapActive := false }

structure Edges where
  rises : Bool
  falls : Bool
  level : Bool

/-- The two switches of a half bridge and the policy on their dead time. -/
structure Leg where
  minDeadtime : Word
  high : Channel
  low : Channel
  pair : Pair

def Leg.edges (ticks : Word) (high low : Edges) (s : Leg) : Leg :=
  let h := s.high.edges ticks high.rises high.falls
  let l := s.low.edges ticks low.rises low.falls
  let p := s.pair.switch s.minDeadtime true (switchTicks ticks low.rises high.falls h)
  let p := p.switch s.minDeadtime false (switchTicks ticks high.rises low.falls l)
  { s with high := h, low := l, pair := p.overlap (high.level && low.level) }

def Channel.clear : Channel := .ofWords (fun _ => 0)

def Leg.clear (minDeadtime : Word) : Leg :=
  { minDeadtime, high := .clear, low := .clear, pair := .ofWords (fun _ => 0) }

/-- One capture as seen by a leg. -/
structure Bridge where
  running : Word
  inputBits : Word
  leg : Leg

def edgesOf (previous inputs : Word) (i : Nat) : Edges :=
  { rises := bit inputs i && !bit previous i
    falls := !bit inputs i && bit previous i
    level := bit inputs i }

def Bridge.process (k : Nat) (ticks inputs : Word) (s : Bridge) : Bridge :=
  let inputs := inputs &&& logicalMask
  if s.running = 0 ∨ inputs = s.inputBits &&& logicalMask then s
  else
    { s with
      inputBits := inputs
      leg := s.leg.edges ticks (edgesOf s.inputBits inputs (k * 2))
        (edgesOf s.inputBits inputs (k * 2 + 1)) }

def Bridge.start (inputs : Word) (s : Bridge) : Bridge :=
  { s with running := 1, inputBits := inputs &&& logicalMask }

section Channel

variable {i : Nat}

def channelWords (i : Nat) (m : Memory 32) (field : Fin 8) : Word :=
  m (channelWord i field)

def channelAt (i : Nat) (m : Memory 32) : Channel := .ofWords (channelWords i m)

theorem channelWords_update (m : Memory 32) (field : Fin 8) (value : Word) :
    channelWords i (Function.update m (channelWord i field) value) =
      Function.update (channelWords i m) field value := by
  funext f
  have hword : channelWord i f = channelWord i field ↔ f = field := by
    rw [channelWord, channelWord, Fin.ext_iff]
    omega
  rw [channelWords, Function.update_apply, Function.update_apply]
  simp only [hword]
  rfl

variable (i) in
theorem acts_channelWord (field : Fin 8) (q : (Fin 8 → Word) → Word) :
    Acts (channelWords i) (store (channelWord i field) (fun m => q (channelWords i m)))
      (fun b => Function.update b field (q b)) :=
  acts_store (fun m => channelWords_update m field (q (channelWords i m)))

def interval (ticks : Word) (field since : Fin 8) (seen valid : Nat) (b : Fin 8 → Word) :
    Fin 8 → Word :=
  if bit (b 7) seen then
    Function.update (Function.update b field (ticks - b since)) 7
      (Function.update b field (ticks - b since) 7 ||| mask valid)
  else b

theorem acts_interval (ticks : Word) (field since : Fin 8) {seen : Nat} (hs : seen < 32)
    (valid : Nat) :
    Acts (channelWords i)
      (whenever (fun m => m (channelFlags i) &&& mask seen != 0)
        (seq
          [store (channelWord i field) (fun m => ticks - m (channelWord i since)),
            setFlags (channelFlags i) (mask valid)]))
      (interval ticks field since seen valid) :=
  acts_whenever (fun _ => masked_bne _ hs)
    (acts_cons (acts_channelWord i field (fun b => ticks - b since))
      (acts_cons (acts_channelWord i 7 (fun b => b 7 ||| mask valid)) acts_nil))

theorem acts_rise (ticks : Word) :
    Acts (channelAt i)
      (seq
        [whenever (fun m => m (channelFlags i) &&& chRiseSeen != 0)
            (seq
              [store (periodTicks i) (fun m => ticks - m (lastRiseTicks i)),
                setFlags (channelFlags i) chPeriodValid]),
          whenever (fun m => m (channelFlags i) &&& chFallSeen != 0)
            (seq
              [store (lowTicks i) (fun m => ticks - m (lastFallTicks i)),
                setFlags (channelFlags i) chLowValid]),
          set (lastRiseTicks i) ticks,
          increment (riseCount i),
          setFlags (channelFlags i) chRiseSeen])
      (Channel.rise ticks) := by
  have hwords := acts_cons (acts_interval (i := i) ticks 0 3 (by decide : 0 < 32) 2)
    (acts_cons (acts_interval ticks 2 4 (by decide : 1 < 32) 4)
      (acts_cons (acts_channelWord i 3 (fun _ => ticks))
        (acts_cons (acts_channelWord i 5 (fun b => b 5 + 1))
          (acts_cons (acts_channelWord i 7 (fun b => b 7 ||| mask 0)) acts_nil))))
  refine acts_map Channel.ofWords hwords (fun b => ?_)
  cases hr : bit (b 7) 0 <;> cases hf : bit (b 7) 1 <;>
    simp [Channel.rise, Channel.ofWords, interval, hr, hf, bit_or, bit_mask]

theorem acts_fall (ticks : Word) :
    Acts (channelAt i)
      (seq
        [whenever (fun m => m (channelFlags i) &&& chRiseSeen != 0)
            (seq
              [store (highTicks i) (fun m => ticks - m (lastRiseTicks i)),
                setFlags (channelFlags i) chHighValid]),
          set (lastFallTicks i) ticks,
          increment (fallCount i),
          setFlags (channelFlags i) chFallSeen])
      (Channel.fall ticks) := by
  have hwords := acts_cons (acts_interval (i := i) ticks 1 3 (by decide : 0 < 32) 3)
    (acts_cons (acts_channelWord i 4 (fun _ => ticks))
      (acts_cons (acts_channelWord i 6 (fun b => b 6 + 1))
        (acts_cons (acts_channelWord i 7 (fun b => b 7 ||| mask 1)) acts_nil)))
  refine acts_map Channel.ofWords hwords (fun b => ?_)
  cases hr : bit (b 7) 0 <;>
    simp [Channel.fall, Channel.ofWords, interval, hr, bit_or, bit_mask]

theorem acts_channelEdges (hi : i < 32) (ticks rise fall : Word) :
    Acts (channelAt i) (channelEdges ticks rise fall i)
      (Channel.edges ticks (bit rise i) (bit fall i)) :=
  acts_congr
    (acts_cons (acts_masked rise hi (acts_rise ticks) acts_skip)
      (acts_cons (acts_masked fall hi (acts_fall ticks) acts_skip) acts_nil))
    (fun _ => rfl)

theorem channelAt_avoids {c : Code 32} (h : ∀ field, field < 8 → Avoids (channelWord i field) c) :
    Acts (channelAt i) c id := by
  have hwords : Acts (channelWords i) c id := by
    intro m
    funext field
    exact run_of_avoids (h field field.isLt) m
  exact acts_map Channel.ofWords hwords (fun _ => rfl)

theorem acts_channels (hi : i < channelCount) (ticks rise fall : Word) :
    Acts (channelAt i) (forEach channelCount (channelEdges ticks rise fall))
      (Channel.edges ticks (bit rise i) (bit fall i)) := by
  have hi32 : i < 32 := Nat.lt_trans hi (by decide)
  refine acts_congr (acts_pass (acts_channelEdges hi32 ticks rise fall) ?_ channelCount) ?_
  · intro j hj
    refine channelAt_avoids (fun field hfield => channelEdges_avoids ?_ ticks rise fall)
    intro f hf
    rw [channelWord, channelWord]
    omega
  · intro s
    rw [if_pos hi]

end Channel

section Pair

variable {k : Nat}

def pairWords (k : Nat) (m : Memory 32) (field : Fin 8) : Word := m (pairWord k field)

/-- What a pass over the pair k reads, with the words it stores to. -/
def pairView (k : Nat) (m : Memory 32) : (Word × Channel × Channel) × (Fin 8 → Word) :=
  ((m minDeadtimeTicks, channelAt (k * 2) m, channelAt (k * 2 + 1) m), pairWords k m)

def legOf (v : (Word × Channel × Channel) × (Fin 8 → Word)) : Leg :=
  { minDeadtime := v.1.1, high := v.1.2.1, low := v.1.2.2, pair := .ofWords v.2 }

def legAt (k : Nat) (m : Memory 32) : Leg := legOf (pairView k m)

theorem pairWords_update (m : Memory 32) (field : Fin 8) (value : Word) :
    pairWords k (Function.update m (pairWord k field) value) =
      Function.update (pairWords k m) field value := by
  funext f
  have hword : pairWord k f = pairWord k field ↔ f = field := by
    rw [pairWord, pairWord, Fin.ext_iff]
    omega
  rw [pairWords, Function.update_apply, Function.update_apply]
  simp only [hword]
  rfl

theorem channelAt_update {i addr : Nat} (h : ∀ field, field < 8 → channelWord i field ≠ addr)
    (m : Memory 32) (value : Word) : channelAt i (Function.update m addr value) = channelAt i m := by
  refine congrArg Channel.ofWords (funext fun field => ?_)
  exact Function.update_of_ne (h field field.isLt) _ _

theorem channelWord_lt {i field : Nat} (hi : i < channelCount) (hf : field < 8) :
    20 ≤ channelWord i field ∧ channelWord i field < 68 := by
  have hsix : i < 6 := hi
  rw [channelWord]
  omega

variable (hk : k < pairCount)
include hk

theorem high_lt : k * 2 < channelCount := by
  have hthree : k < 3 := hk
  rw [channelCount]
  omega

theorem low_lt : k * 2 + 1 < channelCount := by
  have hthree : k < 3 := hk
  rw [channelCount]
  omega

theorem pairView_update (m : Memory 32) (field : Fin 8) (value : Word) :
    pairView k (Function.update m (pairWord k field) value) =
      ((pairView k m).1, Function.update (pairView k m).2 field value) := by
  have hchannel {i : Nat} (hi : i < channelCount) :
      channelAt i (Function.update m (pairWord k field) value) = channelAt i m := by
    refine channelAt_update (fun f hf => ?_) m value
    have hlt := (channelWord_lt hi hf).2
    rw [pairWord]
    omega
  have hpolicy : Function.update m (pairWord k field) value minDeadtimeTicks = m minDeadtimeTicks := by
    refine Function.update_of_ne ?_ _ _
    rw [minDeadtimeTicks, pairWord]
    omega
  rw [pairView, hpolicy, hchannel (high_lt hk), hchannel (low_lt hk), pairWords_update]
  rfl

theorem acts_pairWord (field : Fin 8)
    (q : (Word × Channel × Channel) × (Fin 8 → Word) → Word) :
    Acts (pairView k) (store (pairWord k field) (fun m => q (pairView k m)))
      (fun v => (v.1, Function.update v.2 field (q v))) :=
  acts_store (fun m => pairView_update hk m field (q (pairView k m)))

theorem pairView_avoids {c : Code 32} (hd : Avoids minDeadtimeTicks c)
    (hc : ∀ i field, i < channelCount → field < 8 → Avoids (channelWord i field) c)
    (hp : ∀ field, field < 8 → Avoids (pairWord k field) c) : Acts (pairView k) c id := by
  intro m
  have hpair : pairWords k (after c m) = pairWords k m :=
    funext fun field => run_of_avoids (hp field field.isLt) m
  have hpolicy : after c m minDeadtimeTicks = m minDeadtimeTicks := run_of_avoids hd m
  rw [pairView, hpolicy, hpair, channelAt_avoids (fun f => hc _ f (high_lt hk)) m,
    channelAt_avoids (fun f => hc _ f (low_lt hk)) m]
  rfl

theorem acts_faultFlags (bits : Word) : Acts (pairView k) (setFlags faultFlags bits) id := by
  refine pairView_avoids hk (avoids_setFlags (by decide) _)
    (fun i field hi hf => avoids_setFlags ?_ _) (fun field _ => avoids_setFlags ?_ _)
  · have hlt := channelWord_lt hi hf
    rw [faultFlags]
    omega
  · rw [faultFlags, pairWord]
    omega

theorem acts_recordDeadtime (highToLow : Bool) (ticks : Word) :
    Acts (legAt k) (recordDeadtime k highToLow ticks)
      (fun s => { s with pair := s.pair.record s.minDeadtime highToLow ticks }) := by
  have hmeasured (field count : Fin 8) (valid : Nat) :=
    acts_cons (acts_pairWord hk field (fun _ => ticks))
      (acts_cons (acts_pairWord hk count (fun v => v.2 count + 1))
        (acts_cons (acts_pairWord hk 6 (fun v => v.2 6 ||| mask valid)) acts_nil))
  have hviolation := acts_cons (acts_pairWord hk 5 (fun v => v.2 5 + 1))
    (acts_cons (acts_pairWord hk 6 (fun v => v.2 6 ||| mask 4))
      (acts_cons (acts_faultFlags hk (faultDeadtime k)) acts_nil))
  have hwords := acts_cons (acts_ite (p := highToLow = true) (hmeasured 0 2 0) (hmeasured 1 3 1))
    (acts_cons (acts_whenever (p := fun v => tooShort v.1.1 ticks) (fun _ => rfl) hviolation)
      acts_nil)
  refine acts_map legOf hwords (fun v => ?_)
  cases highToLow <;> cases hs : tooShort v.1.1 ticks <;>
    simp [legOf, Pair.record, Pair.ofWords, hs, bit_or, bit_mask]

omit hk in
theorem seen_of_view {fallen : Nat} {other : Leg → Channel}
    (hother : ∀ m, channelAt fallen m = other (legAt k m)) (m : Memory 32) :
    (m (channelFlags fallen) &&& chFallSeen != 0) = (other (legAt k m)).fallSeen := by
  rw [← hother]
  exact masked_bne _ (by decide)

omit hk in
theorem ticks_of_view {fallen : Nat} {other : Leg → Channel}
    (hother : ∀ m, channelAt fallen m = other (legAt k m)) (ticks : Word) (m : Memory 32) :
    ticks - m (lastFallTicks fallen) = ticks - (other (legAt k m)).lastFallTicks := by
  rw [← hother]
  rfl

theorem acts_pairSwitch {risen fallen : Nat} (hrisen : risen < 32) (hfallen : fallen < 32)
    (other : Leg → Channel) (hother : ∀ m, channelAt fallen m = other (legAt k m))
    (highToLow : Bool) (ticks rise fall : Word) :
    Acts (legAt k) (pairSwitch ticks rise fall k risen fallen highToLow)
      (fun s => { s with
        pair := s.pair.switch s.minDeadtime highToLow
          (switchTicks ticks (bit rise risen) (bit fall fallen) (other s)) }) := by
  have hseen := seen_of_view hother
  have hticks := ticks_of_view hother ticks
  have hcode := acts_masked rise hrisen
    (acts_masked fall hfallen (acts_recordDeadtime hk highToLow 0)
      (acts_whenever (p := fun s => (other s).fallSeen) hseen
        (acts_reading (q := fun s => ticks - (other s).lastFallTicks) hticks
          (acts_recordDeadtime hk highToLow))))
    acts_skip
  refine acts_congr hcode (fun s => ?_)
  rw [switchTicks]
  cases bit rise risen <;> cases bit fall fallen <;> cases (other s).fallSeen <;> rfl

/-- The words of the pair mark no overlap. -/
def overlapIdle (v : (Word × Channel × Channel) × (Fin 8 → Word)) : Bool := !bit (v.2 6) 2

theorem acts_overlap (now : Prop) [Decidable now] :
    Acts (legAt k)
      (if now then
        seq
          [whenever (fun m => m (pairFlags k) &&& pairOverlapActive == 0)
              (increment (overlapCount k)),
            setFlags (pairFlags k) (pairOverlapActive ||| pairOverlapLatched),
            setFlags faultFlags (faultOverlap k)]
      else clearFlags (pairFlags k) pairOverlapActive)
      (fun s => { s with pair := s.pair.overlap (decide now) }) := by
  have hactive (m : Memory 32) :
      (m (pairFlags k) &&& pairOverlapActive == 0) = overlapIdle (pairView k m) := by
    change _ = !bit ((pairView k m).2 6) 2
    rw [← masked_bne _ (by decide : 2 < 32), bne, Bool.not_not]
    rfl
  have hincrement : Acts (pairView k)
      (whenever (fun m => m (pairFlags k) &&& pairOverlapActive == 0) (increment (overlapCount k))) _ :=
    acts_whenever hactive (acts_pairWord hk 4 (fun v => v.2 4 + 1))
  have hwords := acts_ite (p := now)
    (acts_cons hincrement
      (acts_cons (acts_pairWord hk 6 (fun v => v.2 6 ||| (mask 2 ||| mask 3)))
        (acts_cons (acts_faultFlags hk (faultOverlap k)) acts_nil)))
    (acts_pairWord hk 6 (fun v => v.2 6 &&& ~~~(mask 2)))
  refine acts_map legOf hwords (fun v => ?_)
  by_cases hnow : now
  · cases hbit : bit (v.2 6) 2 <;>
      simp [legOf, Pair.overlap, Pair.ofWords, overlapIdle, hnow, hbit, bit_or, bit_mask]
  · simp [legOf, Pair.overlap, Pair.ofWords, hnow, bit_and, bit_not, bit_mask]

theorem acts_pairEdges (ticks inputs rise fall : Word) :
    Acts (legAt k) (pairEdges ticks inputs rise fall k)
      (fun s =>
        let p := s.pair.switch s.minDeadtime true
          (switchTicks ticks (bit rise (k * 2 + 1)) (bit fall (k * 2)) s.high)
        let p := p.switch s.minDeadtime false
          (switchTicks ticks (bit rise (k * 2)) (bit fall (k * 2 + 1)) s.low)
        { s with pair := p.overlap (bit inputs (k * 2) && bit inputs (k * 2 + 1)) }) := by
  have hhigh : k * 2 < 32 := Nat.lt_trans (high_lt hk) (by decide)
  have hlow : k * 2 + 1 < 32 := Nat.lt_trans (low_lt hk) (by decide)
  have hcode := acts_cons
    (acts_pairSwitch hk hlow hhigh Leg.high (fun _ => rfl) true ticks rise fall)
    (acts_cons
      (acts_pairSwitch hk hhigh hlow Leg.low (fun _ => rfl) false ticks rise fall)
      (acts_cons
        (acts_overlap hk (inputs &&& mask (k * 2) ≠ 0 ∧ inputs &&& mask (k * 2 + 1) ≠ 0)) acts_nil))
  refine acts_congr hcode (fun s => ?_)
  have hnow : decide (inputs &&& mask (k * 2) ≠ 0 ∧ inputs &&& mask (k * 2 + 1) ≠ 0) =
      (bit inputs (k * 2) && bit inputs (k * 2 + 1)) := by
    rw [Bool.eq_iff_iff, decide_eq_true_iff, Bool.and_eq_true, masked_iff inputs hhigh,
      masked_iff inputs hlow]
  rw [hnow]
  rfl

theorem pairEdges_unseen {j : Nat} (hj : j ≠ k) (ticks inputs rise fall : Word) :
    Acts (legAt k) (pairEdges ticks inputs rise fall j) id := by
  have hview : Acts (pairView k) (pairEdges ticks inputs rise fall j) id := by
    refine pairView_avoids hk (pairEdges_avoids (fun f hf => ?_) (by decide) _ _ _ _)
      (fun i field hi hfield => pairEdges_avoids (fun f hf => ?_) ?_ _ _ _ _)
      (fun field hfield => pairEdges_avoids (fun f hf => ?_) ?_ _ _ _ _)
    · rw [pairWord, minDeadtimeTicks]
      omega
    · have hlt := (channelWord_lt hi hfield).2
      rw [pairWord]
      omega
    · have hlt := (channelWord_lt hi hfield).1
      rw [faultFlags]
      omega
    · rw [pairWord, pairWord]
      omega
    · rw [faultFlags, pairWord]
      omega
  exact acts_map legOf hview (fun _ => rfl)

theorem acts_pairs (ticks inputs rise fall : Word) :
    Acts (legAt k) (forEach pairCount (pairEdges ticks inputs rise fall))
      (fun s =>
        let p := s.pair.switch s.minDeadtime true
          (switchTicks ticks (bit rise (k * 2 + 1)) (bit fall (k * 2)) s.high)
        let p := p.switch s.minDeadtime false
          (switchTicks ticks (bit rise (k * 2)) (bit fall (k * 2 + 1)) s.low)
        { s with pair := p.overlap (bit inputs (k * 2) && bit inputs (k * 2 + 1)) }) := by
  refine acts_congr (acts_pass (acts_pairEdges hk ticks inputs rise fall)
    (fun j hj => pairEdges_unseen hk hj ticks inputs rise fall) pairCount) ?_
  intro s
  rw [if_pos hk]

theorem legAt_avoids {c : Code 32} (hd : Avoids minDeadtimeTicks c)
    (hc : ∀ i field, i < channelCount → field < 8 → Avoids (channelWord i field) c)
    (hp : ∀ field, field < 8 → Avoids (pairWord k field) c) : Acts (legAt k) c id :=
  acts_map legOf (pairView_avoids hk hd hc hp) (fun _ => rfl)

theorem acts_legChannels (ticks rise fall : Word) :
    Acts (legAt k) (forEach channelCount (channelEdges ticks rise fall))
      (fun s => { s with
        high := s.high.edges ticks (bit rise (k * 2)) (bit fall (k * 2))
        low := s.low.edges ticks (bit rise (k * 2 + 1)) (bit fall (k * 2 + 1)) }) := by
  have havoids {addr : Nat} (h : ∀ i field, i < channelCount → field < 8 → channelWord i field ≠ addr) :
      Avoids addr (forEach channelCount (channelEdges ticks rise fall)) := by
    refine avoids_seq (fun c hc => ?_)
    obtain ⟨i, hi, rfl⟩ := List.mem_map.mp hc
    exact channelEdges_avoids (fun f hf => h i f (List.mem_range.mp hi) hf) _ _ _
  intro m
  have hpolicy : after (forEach channelCount (channelEdges ticks rise fall)) m minDeadtimeTicks =
      m minDeadtimeTicks := by
    refine run_of_avoids (havoids (fun i f hi hf => ?_)) m
    have hlt := (channelWord_lt hi hf).1
    rw [minDeadtimeTicks]
    omega
  have hpair : pairWords k (after (forEach channelCount (channelEdges ticks rise fall)) m) =
      pairWords k m := by
    funext field
    refine run_of_avoids (havoids (fun i f hi hf => ?_)) m
    have hlt := (channelWord_lt hi hf).2
    rw [pairWord]
    omega
  rw [legAt, pairView, hpolicy, hpair, acts_channels (high_lt hk), acts_channels (low_lt hk)]
  rfl

end Pair

section Bridge

variable {k : Nat}

def bridgeAt (k : Nat) (m : Memory 32) : Bridge :=
  { running := m running, inputBits := m inputBits, leg := legAt k m }

theorem acts_leg {c : Code 32} {f : Leg → Leg} (h : Acts (legAt k) c f) (hr : Avoids running c)
    (hi : Avoids inputBits c) : Acts (bridgeAt k) c (fun s => { s with leg := f s.leg }) := by
  intro m
  have hrun : after c m running = m running := run_of_avoids hr m
  have hinputs : after c m inputBits = m inputBits := run_of_avoids hi m
  rw [bridgeAt, hrun, hinputs, h m]
  rfl

theorem channels_avoid {addr : Nat} (h : addr < 20) (ticks rise fall : Word) :
    Avoids addr (forEach channelCount (channelEdges ticks rise fall)) := by
  refine avoids_forEach (fun i => channelEdges_avoids (fun field _ => ?_) ticks rise fall)
  rw [channelWord]
  omega

theorem pairs_avoid {addr : Nat} (h : addr < 20) (hf : addr ≠ faultFlags)
    (ticks inputs rise fall : Word) :
    Avoids addr (forEach pairCount (pairEdges ticks inputs rise fall)) := by
  refine avoids_forEach (fun i => pairEdges_avoids (fun field _ => ?_) hf.symm ticks inputs rise fall)
  rw [pairWord]
  omega

theorem push_avoid {addr : Nat} (h : addr < summaryWords) (hh : ringHead ≠ addr)
    (hc : ringCount ≠ addr) (ticks inputs changed : Word) :
    Avoids addr (pushEdgeRecord ticks inputs changed) := by
  refine pushEdgeRecord_avoids (fun slot field _ => ?_) hh hc ticks inputs changed
  rw [ringWord]
  omega

variable (hk : k < pairCount)
include hk

theorem legAt_header {addr : Nat} (value : Memory 32 → Word) (ha : addr < 20)
    (hd : addr ≠ minDeadtimeTicks) : Acts (legAt k) (store addr value) id := by
  refine legAt_avoids hk (avoids_store hd value) (fun i field hi hf => avoids_store ?_ value)
    (fun field _ => avoids_store ?_ value)
  · have hlt := (channelWord_lt hi hf).1
    omega
  · rw [pairWord]
    omega

theorem acts_header {a : Nat} (value : Memory 32 → Word) (ha : a < 20)
    (hd : a ≠ minDeadtimeTicks) (hr : a ≠ running) (hi : a ≠ inputBits) :
    Acts (bridgeAt k) (store a value) id :=
  acts_leg (legAt_header hk value ha hd) (avoids_store hr value) (avoids_store hi value)

theorem acts_inputBits (value : Word) :
    Acts (bridgeAt k) (set inputBits value) (fun s => { s with inputBits := value }) := by
  intro m
  have hleg : legAt k (after (set inputBits value) m) = legAt k m :=
    legAt_header hk _ (by decide) (by decide) m
  have hrun : after (set inputBits value) m running = m running :=
    run_of_avoids (avoids_set (by decide) value) m
  have hinputs : after (set inputBits value) m inputBits = value :=
    after_store inputBits _ m
  rw [bridgeAt, hleg, hrun, hinputs]
  rfl

theorem acts_running (value : Word) :
    Acts (bridgeAt k) (set running value) (fun s => { s with running := value }) := by
  intro m
  have hleg : legAt k (after (set running value) m) = legAt k m :=
    legAt_header hk _ (by decide) (by decide) m
  have hrun : after (set running value) m running = value := after_store running _ m
  have hinputs : after (set running value) m inputBits = m inputBits :=
    run_of_avoids (avoids_set (by decide) value) m
  rw [bridgeAt, hleg, hrun, hinputs]
  rfl

theorem acts_start (ticks inputs : Word) :
    Acts (bridgeAt k) (start ticks inputs) (Bridge.start inputs) := by
  have hoff {a : Nat} (value : Memory 32 → Word) (ha : a < 20) (hd : a ≠ minDeadtimeTicks)
      (hr : a ≠ running) (hi : a ≠ inputBits) := acts_header hk value ha hd hr hi
  have hbody := acts_cons (acts_running hk 1)
    (acts_cons (acts_inputBits hk (inputs &&& logicalMask))
      (acts_cons (hoff (a := changedBits) (fun _ => 0) (by decide) (by decide) (by decide) (by decide))
        (acts_cons (hoff (a := lastTimestampTicks) (fun _ => ticks) (by decide) (by decide)
          (by decide) (by decide)) acts_nil)))
  have hbump := acts_header hk (a := seqLock) (fun m => m seqLock + 1#32) (by decide) (by decide)
    (by decide) (by decide)
  exact acts_congr (acts_cons hbump (acts_cons hbody (acts_cons hbump acts_nil))) (fun _ => rfl)

omit hk in
theorem changed_eq_zero_iff (inputs previous : Word) :
    (inputs ^^^ previous) &&& logicalMask = 0 ↔
      inputs &&& logicalMask = previous &&& logicalMask := by
  have hdistrib : (inputs ^^^ previous) &&& logicalMask =
      (inputs &&& logicalMask) ^^^ (previous &&& logicalMask) := by
    apply BitVec.eq_of_getLsbD_eq
    intro i _
    change bit _ i = bit _ i
    rw [bit_and, bit_xor, bit_xor, bit_and, bit_and]
    cases bit logicalMask i <;> simp
  rw [hdistrib]
  exact BitVec.xor_eq_zero_iff

omit hk in
theorem changed_edges {i : Nat} (hi : i < channelCount) (inputs previous : Word) :
    bit (((inputs ^^^ previous) &&& logicalMask) &&& inputs) i =
        (edgesOf previous inputs i).rises ∧
      bit (((inputs ^^^ previous) &&& logicalMask) &&& previous) i =
        (edgesOf previous inputs i).falls := by
  simp only [bit_and, bit_xor, bit_logicalMask hi, edgesOf]
  cases bit inputs i <;> cases bit previous i <;> exact ⟨rfl, rfl⟩

theorem acts_process (ticks inputs : Word) :
    Acts (bridgeAt k) (process ticks inputs) (Bridge.process k ticks inputs) := by
  have hoff {a : Nat} (value : Memory 32 → Word) (ha : a < 20) (hd : a ≠ minDeadtimeTicks)
      (hr : a ≠ running) (hi : a ≠ inputBits) := acts_header hk value ha hd hr hi
  have hbump := hoff (a := seqLock) (fun m => m seqLock + 1#32) (by decide) (by decide)
    (by decide) (by decide)
  have hpush (changed : Word) :
      Acts (bridgeAt k) (pushEdgeRecord ticks (inputs &&& logicalMask) changed) id := by
    refine acts_leg (legAt_avoids hk ?_ ?_ ?_) ?_ ?_
    · exact push_avoid (by decide) (by decide) (by decide) _ _ _
    · intro i field hi hf
      have hlt := channelWord_lt hi hf
      exact push_avoid (by rw [summaryWords]; omega) (by rw [ringHead]; omega)
        (by rw [ringCount]; omega) _ _ _
    · intro field hf
      have hthree : k < 3 := hk
      exact push_avoid (by rw [pairWord, summaryWords]; omega) (by rw [pairWord, ringHead]; omega)
        (by rw [pairWord, ringCount]; omega) _ _ _
    · exact push_avoid (by decide) (by decide) (by decide) _ _ _
    · exact push_avoid (by decide) (by decide) (by decide) _ _ _
  have hbody (changed rise fall : Word) := acts_cons (acts_inputBits hk (inputs &&& logicalMask))
    (acts_cons (hoff (a := changedBits) (fun _ => changed) (by decide) (by decide) (by decide)
        (by decide))
      (acts_cons (hoff (a := lastTimestampTicks) (fun _ => ticks) (by decide) (by decide)
          (by decide) (by decide))
        (acts_cons (hoff (a := eventSeq) (fun m => m eventSeq + 1) (by decide) (by decide)
            (by decide) (by decide))
          (acts_cons (acts_leg (acts_legChannels hk ticks rise fall)
              (channels_avoid (by decide) _ _ _) (channels_avoid (by decide) _ _ _))
            (acts_cons (acts_leg (acts_pairs hk ticks (inputs &&& logicalMask) rise fall)
                (pairs_avoid (by decide) (by decide) _ _ _ _)
                (pairs_avoid (by decide) (by decide) _ _ _ _))
              (acts_cons (hpush changed) acts_nil))))))
  have hcode := acts_whenever (b := fun m => m running != 0) (p := fun s : Bridge => s.running != 0)
    (fun _ => rfl)
    (acts_reading (g := fun m => m inputBits) (q := Bridge.inputBits) (fun _ => rfl)
      (fun previous =>
        acts_whenever (b := fun _ => ((inputs &&& logicalMask) ^^^ previous) &&& logicalMask != 0)
          (p := fun _ => ((inputs &&& logicalMask) ^^^ previous) &&& logicalMask != 0) (fun _ => rfl)
          (acts_cons hbump (acts_cons
            (hbody (((inputs &&& logicalMask) ^^^ previous) &&& logicalMask)
              ((((inputs &&& logicalMask) ^^^ previous) &&& logicalMask) &&& (inputs &&& logicalMask))
              ((((inputs &&& logicalMask) ^^^ previous) &&& logicalMask) &&& previous))
            (acts_cons hbump acts_nil)))))
  refine acts_congr hcode (fun s => ?_)
  obtain ⟨hhr, hhf⟩ := changed_edges (high_lt hk) (inputs &&& logicalMask) s.inputBits
  obtain ⟨hlr, hlf⟩ := changed_edges (low_lt hk) (inputs &&& logicalMask) s.inputBits
  have hsame : ((inputs &&& logicalMask) ^^^ s.inputBits) &&& logicalMask = 0 ↔
      inputs &&& logicalMask = s.inputBits &&& logicalMask := by
    rw [changed_eq_zero_iff, BitVec.and_assoc, BitVec.and_self]
  rw [Bridge.process]
  simp only [bne_iff_ne, ne_eq, hsame, hhr, hhf, hlr, hlf]
  by_cases hrun : s.running = 0
  · rw [if_neg (not_not_intro hrun), if_pos (Or.inl hrun)]
  · by_cases hch : inputs &&& logicalMask = s.inputBits &&& logicalMask
    · rw [if_pos hrun, if_neg (not_not_intro hch), if_pos (Or.inr hch)]
    · rw [if_pos hrun, if_pos hch, if_neg (not_or.mpr ⟨hrun, hch⟩)]
      rfl

def Bridge.record (k : Nat) (s : Bridge) (r : Word × Word) : Bridge := s.process k r.1 r.2

theorem acts_records (records : List (Word × Word)) :
    Acts (bridgeAt k) (calls (records.map (fun r => .process r.1 r.2)))
      (fun s => records.foldl (Bridge.record k) s) := by
  induction records with
  | nil => exact acts_nil
  | cons r records ih => exact acts_cons (acts_process hk r.1 r.2) ih

omit hk in
theorem initialised_minDeadtimeTicks (m : Memory 32) (hz minDeadtime : Word) :
    initialised m hz minDeadtime minDeadtimeTicks = minDeadtime := by
  have hinit : initialised m hz minDeadtime =
      after (seq ([clearWords sharedWords, set magic sharedMagic, set version sharedVersion,
        set totalSize (BitVec.ofNat 32 (4 * sharedWords)), set tickHz hz,
        set channelCountWord (BitVec.ofNat 32 channelCount),
        set pairCountWord (BitVec.ofNat 32 pairCount),
        set ringCapacityWord (BitVec.ofNat 32 ringCapacity)] ++ [set minDeadtimeTicks minDeadtime]))
        m := rfl
  rw [hinit, after_concat]
  exact after_store _ _ _

theorem initialised_bridge (m : Memory 32) (hz minDeadtime : Word) :
    bridgeAt k (initialised m hz minDeadtime) =
      { running := 0, inputBits := 0, leg := .clear minDeadtime } := by
  have hthree : k < 3 := hk
  have hbody {addr : Nat} (h : 20 ≤ addr) (hlt : addr < summaryWords) :
      initialised m hz minDeadtime addr = 0 := by
    refine PwmSeqlock.initialised_zero (Nat.lt_of_lt_of_le hlt (by decide)) (fun a ha => ?_) m hz _
    have hheader : ∀ a ∈ [magic, version, totalSize, tickHz, channelCountWord, pairCountWord,
        ringCapacityWord, minDeadtimeTicks], a < 20 := by decide
    exact Nat.ne_of_lt (Nat.lt_of_lt_of_le (hheader a ha) h)
  have hchannel {i : Nat} (hi : i < channelCount) :
      channelAt i (initialised m hz minDeadtime) = .clear := by
    refine congrArg Channel.ofWords (funext fun field => ?_)
    have hlt := channelWord_lt hi field.isLt
    exact hbody hlt.1 (Nat.lt_of_lt_of_le hlt.2 (by decide))
  have hpair : pairWords k (initialised m hz minDeadtime) = fun _ => 0 := by
    funext field
    exact hbody (by rw [pairWord]; omega) (by rw [pairWord, summaryWords]; omega)
  rw [bridgeAt, legAt, pairView, hchannel (high_lt hk), hchannel (low_lt hk), hpair,
    initialised_minDeadtimeTicks, PwmSeqlock.initialised_zero (by decide) (by decide),
    PwmSeqlock.initialised_zero (by decide) (by decide)]
  rfl

/-- The bridge after a capture of records from a freshly initialised block. -/
theorem captured_bridge (m : Memory 32) (hz minDeadtime ticks inputs : Word)
    (records : List (Word × Word)) :
    bridgeAt k (after (calls (.start ticks inputs :: records.map (fun r => .process r.1 r.2)))
        (initialised m hz minDeadtime)) =
      records.foldl (Bridge.record k)
        { running := 1, inputBits := inputs &&& logicalMask, leg := .clear minDeadtime } := by
  have hcalls := acts_cons (acts_start hk ticks inputs) (acts_records hk records)
  refine (hcalls _).trans ?_
  rw [initialised_bridge hk]
  rfl

end Bridge

end HilLab.Pru.PwmMeasure
