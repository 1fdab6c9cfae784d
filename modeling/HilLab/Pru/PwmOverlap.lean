import HilLab.Pru.PwmBridge
import HilLab.Pru.PwmFaultFlags

namespace HilLab.Pru.PwmOverlap

open Lib.Clocked Lib.Seqlock Lib.CodeView Lib.Latch PwmCaptureCore PwmEdgeLog PwmMeasure PwmBridge
open PwmFaultFlags

section Pair

variable (p : Pair)

theorem record_overlap (minDeadtime : Word) (highToLow : Bool) (ticks : Word) :
    (p.record minDeadtime highToLow ticks).overlapActive = p.overlapActive ∧
      (p.record minDeadtime highToLow ticks).overlapLatched = p.overlapLatched ∧
      (p.record minDeadtime highToLow ticks).overlapCount = p.overlapCount := by
  rw [Pair.record]
  cases highToLow <;> cases tooShort minDeadtime ticks <;> exact ⟨rfl, rfl, rfl⟩

theorem switch_overlap (minDeadtime : Word) (highToLow : Bool) (sample : Option Word) :
    (p.switch minDeadtime highToLow sample).overlapActive = p.overlapActive ∧
      (p.switch minDeadtime highToLow sample).overlapLatched = p.overlapLatched ∧
      (p.switch minDeadtime highToLow sample).overlapCount = p.overlapCount := by
  cases sample with
  | none => exact ⟨rfl, rfl, rfl⟩
  | some ticks => exact record_overlap p minDeadtime highToLow ticks

/-- The overlap state of a pair after a pass depends on the levels alone. -/
theorem edges_overlap (s : Leg) (ticks : Word) (high low : Edges) :
    (s.edges ticks high low).pair.overlapActive = (high.level && low.level) ∧
      (s.edges ticks high low).pair.overlapLatched =
        (high.level && low.level || s.pair.overlapLatched) ∧
      (s.edges ticks high low).pair.overlapCount =
        if high.level && low.level && !s.pair.overlapActive then s.pair.overlapCount + 1
        else s.pair.overlapCount := by
  have hpair : (s.edges ticks high low).pair = ((s.pair.switch s.minDeadtime true
      (switchTicks ticks low.rises high.falls (s.high.edges ticks high.rises high.falls))).switch
        s.minDeadtime false (switchTicks ticks high.rises low.falls
          (s.low.edges ticks low.rises low.falls))).overlap (high.level && low.level) := rfl
  rw [hpair, Pair.overlap]
  cases high.level && low.level with
  | false => exact ⟨rfl, by simp [switch_overlap], by simp [switch_overlap]⟩
  | true => cases hactive : s.pair.overlapActive <;> simp [switch_overlap, hactive]

end Pair

section Watch

/-- A pair as it is shown to the capture: whether it was in overlap when the capture last
ran, and the running intervals of overlap begun, both since the last init or clear. -/
structure Watch where
  shown : Presented
  standing : Bool
  intervals : Nat

def overlapShown (k : Nat) (p : Presented) : Bool := p.running && overlapped k p.inputs

def isClear : Op → Bool
  | .clear _ => true
  | _ => false

def Watch.op (k : Nat) (op : Op) (w : Watch) : Watch :=
  let shown := w.shown.op op
  { shown
    standing := if shown.running then overlapShown k shown else w.standing && !isClear op
    intervals := (if isClear op then 0 else w.intervals) +
      if overlapShown k shown && (isClear op || !overlapShown k w.shown) then 1 else 0 }

/-- The bridge tells the overlap of its pair. -/
structure Tells (k : Nat) (w : Watch) (s : Bridge) (fault : Bool) : Prop where
  active : w.shown.running = true → s.leg.pair.overlapActive = overlapped k s.inputBits
  flagged : overlapShown k w.shown = true →
    s.leg.pair.overlapActive = true ∧ s.leg.pair.overlapLatched = true ∧ fault = true
  counted : s.leg.pair.overlapCount.toNat = w.intervals

/-- No call but process looks for an overlap, so none other may begin or end one: a start
takes over what the last run left, and a clear of a running capture finds none. -/
def Seen (k : Nat) (w : Watch) : Op → Prop
  | .start _ inputs => overlapped k inputs = overlapShown k w.shown ∧ w.standing = overlapShown k w.shown
  | .clear inputs => w.shown.running = true → overlapped k inputs = false
  | _ => True

variable {k : Nat} (hk : k < pairCount) {w : Watch} {s : Bridge} {fault fault' : Bool}

include hk

theorem overlapped_masked (inputs : Word) :
    overlapped k (inputs &&& logicalMask) = overlapped k inputs := by
  rw [overlapped, overlapped, bit_and, bit_and, bit_logicalMask (high_lt hk),
    bit_logicalMask (low_lt hk), Bool.and_true, Bool.and_true]

omit hk in
theorem Tells.intervals_lt (h : Tells k w s fault) : w.intervals < 2 ^ 32 := by
  rw [← h.counted]
  exact BitVec.isLt _

omit hk in
theorem Tells.keeps (h : Tells k w s fault) (hkeeps : fault = true → fault' = true) {w' : Watch}
    {s' : Bridge} (hshown : w'.shown = w.shown) (hintervals : w'.intervals = w.intervals)
    (hinputs : s'.inputBits = s.inputBits) (hpair : s'.leg.pair = s.leg.pair) :
    Tells k w' s' fault' := by
  refine ⟨?_, ?_, ?_⟩
  · rw [hshown, hpair, hinputs]
    exact h.active
  · rw [hshown, hpair]
    intro ho
    obtain ⟨hactive, hlatched, hfault⟩ := h.flagged ho
    exact ⟨hactive, hlatched, hkeeps hfault⟩
  · rw [hpair, hintervals]
    exact h.counted

theorem tells_start (h : Tells k w s fault) (hstands : s.leg.pair.overlapActive = w.standing)
    (hkeeps : fault = true → fault' = true) (ticks inputs : Word) :
    Tells k (w.op k (.start ticks inputs)) (s.start inputs) fault' ↔
      Seen k w (.start ticks inputs) ∧
        (w.op k (.start ticks inputs)).intervals < 2 ^ 32 := by
  have hmask := overlapped_masked hk inputs
  have hover : overlapShown k (w.op k (.start ticks inputs)).shown = overlapped k inputs :=
    (Bool.true_and _).trans hmask
  have hintervals : (w.op k (.start ticks inputs)).intervals =
      w.intervals + if overlapped k inputs && !overlapShown k w.shown then 1 else 0 :=
    congrArg (fun o => w.intervals + if o && !overlapShown k w.shown then 1 else 0) hover
  constructor
  · intro h'
    have hactive : s.leg.pair.overlapActive = overlapped k inputs := (h'.active rfl).trans hmask
    have hsame : w.intervals = (w.op k (.start ticks inputs)).intervals :=
      h.counted.symm.trans h'.counted
    refine ⟨?_, h'.intervals_lt⟩
    rw [hintervals] at hsame
    cases ho : overlapShown k w.shown with
    | true =>
        have hset := (h.flagged ho).1
        rw [Seen, ho, ← hactive, ← hstands]
        exact ⟨hset, hset⟩
    | false =>
        rw [ho] at hsame
        cases ho' : overlapped k inputs with
        | false =>
            rw [Seen, ho', ho, ← hstands, hactive]
            exact ⟨rfl, ho'⟩
        | true =>
            rw [ho'] at hsame
            exact absurd hsame (Nat.ne_of_lt (Nat.lt_succ_self _))
  · rintro ⟨⟨hinputs, hstanding⟩, -⟩
    have hactive := hstands.trans hstanding
    refine ⟨fun _ => hactive.trans (hinputs.symm.trans hmask.symm), fun ho => ?_, ?_⟩
    · rw [hover, hinputs] at ho
      obtain ⟨hset, hlatched, hfault⟩ := h.flagged ho
      exact ⟨hset, hlatched, hkeeps hfault⟩
    · rw [hintervals, hinputs, Bool.and_not_self]
      exact h.counted

theorem tells_clear (w : Watch) (s : Bridge) (inputs : Word) :
    Tells k (w.op k (.clear inputs)) (Bridge.op k (.clear inputs) s) fault' ↔
      Seen k w (.clear inputs) ∧
        (w.op k (.clear inputs)).intervals < 2 ^ 32 := by
  have hmask := overlapped_masked hk inputs
  have hover : overlapShown k (w.op k (.clear inputs)).shown = (w.shown.running && overlapped k inputs) :=
    congrArg (w.shown.running && ·) hmask
  constructor
  · intro h'
    refine ⟨fun hrun => ?_, h'.intervals_lt⟩
    exact hmask.symm.trans (h'.active hrun).symm
  · rintro ⟨hseen, -⟩
    have hnone : overlapShown k (w.op k (.clear inputs)).shown = false := by
      rw [hover]
      cases hrun : w.shown.running with
      | false => rfl
      | true => exact hseen hrun
    refine ⟨fun hrun => ?_, fun ho => ?_, ?_⟩
    · exact (hseen hrun).symm.trans hmask.symm
    · rw [hnone] at ho
      cases ho
    · have hintervals : (w.op k (.clear inputs)).intervals =
          0 + if overlapShown k (w.op k (.clear inputs)).shown && true then 1 else 0 := rfl
      rw [hintervals, hnone]
      rfl

omit hk in
theorem intervals_unchanged (op : Op) (hclear : isClear op = false)
    (hshown : w.shown.op op = w.shown) : (w.op k op).intervals = w.intervals := by
  have hop : (w.op k op).intervals = (if isClear op then 0 else w.intervals) +
      if overlapShown k (w.shown.op op) && (isClear op || !overlapShown k w.shown) then 1 else 0 := rfl
  rw [hop, hshown, hclear, Bool.false_or, Bool.and_not_self]
  rfl

omit hk in
theorem over_active (h : Tells k w s fault) (hp : Presents w.shown s)
    (hrun : w.shown.running = true) : overlapShown k w.shown = s.leg.pair.overlapActive := by
  rw [overlapShown, hrun, Bool.true_and, h.active hrun, hp.inputs]

omit hk in
theorem count_up (count : Word) (begins : Bool) {n : Nat} (h : count.toNat = n) :
    (if begins then count + 1 else count).toNat = n + (if begins then 1 else 0) ↔
      n + (if begins then 1 else 0) < 2 ^ 32 := by
  have hlt := count.isLt
  cases begins with
  | false =>
      have hlt : n < 2 ^ 32 := h ▸ hlt
      exact iff_of_true h hlt
  | true =>
      have hone : (1 : Word).toNat = 1 := rfl
      rw [if_pos rfl, if_pos rfl, BitVec.toNat_add, hone, h]
      omega

omit hk in
theorem tells_sample (h : Tells k w s fault) (hp : Presents w.shown s)
    (hrun : w.shown.running = true) (ticks inputs : Word)
    (hraise : overlapped k (inputs &&& logicalMask) = true → fault' = true) :
    Tells k (w.op k (.process ticks inputs))
        { s with
          inputBits := inputs &&& logicalMask
          leg := s.leg.edges ticks (edgesOf s.inputBits (inputs &&& logicalMask) (k * 2))
            (edgesOf s.inputBits (inputs &&& logicalMask) (k * 2 + 1)) } fault' ↔
      (w.op k (.process ticks inputs)).intervals < 2 ^ 32 := by
  obtain ⟨hactive, hlatched, hcount⟩ := edges_overlap s.leg ticks
    (edgesOf s.inputBits (inputs &&& logicalMask) (k * 2))
    (edgesOf s.inputBits (inputs &&& logicalMask) (k * 2 + 1))
  have hshown : w.shown.op (.process ticks inputs) =
      { w.shown with inputs := inputs &&& logicalMask } := if_pos hrun
  have hover : overlapShown k (w.shown.op (.process ticks inputs)) =
      overlapped k (inputs &&& logicalMask) := by
    rw [hshown, overlapShown, hrun, Bool.true_and]
  have hintervals : (w.op k (.process ticks inputs)).intervals = w.intervals +
      if overlapped k (inputs &&& logicalMask) && !s.leg.pair.overlapActive then 1 else 0 := by
    have hop : (w.op k (.process ticks inputs)).intervals = w.intervals +
        if overlapShown k (w.shown.op (.process ticks inputs)) && !overlapShown k w.shown then 1 else 0 := rfl
    rw [hop, hover, over_active h hp hrun]
  rw [hintervals]
  apply Iff.trans ?_ (count_up s.leg.pair.overlapCount _ h.counted)
  constructor
  · intro h'
    exact (congrArg BitVec.toNat hcount).symm.trans (h'.counted.trans hintervals)
  · intro heq
    refine ⟨fun _ => hactive, fun ho => ?_, ?_⟩
    · have hnow : overlapped k (inputs &&& logicalMask) = true := hover.symm.trans ho
      refine ⟨hactive.trans hnow, hlatched.trans ?_, hraise hnow⟩
      exact Bool.or_eq_true_iff.mpr (Or.inl hnow)
    · exact (congrArg BitVec.toNat hcount).trans (heq.trans hintervals.symm)

omit hk in
theorem active_iff (m : Memory 32) (inputs : Word) :
    Active m inputs ↔
      ¬((bridgeAt k m).running = 0 ∨
        inputs &&& logicalMask = (bridgeAt k m).inputBits &&& logicalMask) := by
  have hsame : changedBy m inputs = 0 ↔ inputs &&& logicalMask = m inputBits &&& logicalMask := by
    rw [changedBy, changed_eq_zero_iff, masked_mask]
  rw [Active, Ne, Ne, hsame, not_or]
  rfl

def faultAt (k : Nat) (m : Memory 32) : Bool := bit (m faultFlags) k

theorem tells_process {m : Memory 32} (h : Tells k w (bridgeAt k m) (faultAt k m))
    (hp : Presents w.shown (bridgeAt k m)) (ticks inputs : Word) :
    Tells k (w.op k (.process ticks inputs)) ((bridgeAt k m).process k ticks inputs)
        (faultAt k (after (process ticks inputs) m)) ↔
      (w.op k (.process ticks inputs)).intervals < 2 ^ 32 := by
  have hkeeps : faultAt k m = true → faultAt k (after (process ticks inputs) m) = true :=
    process_latches ticks inputs m k
  have hpresents := presents_process hp k ticks inputs
  by_cases hactive : Active m inputs
  · have hrun : w.shown.running = true := hp.running.mp hactive.1
    rw [Bridge.process, if_neg ((active_iff m inputs).mp hactive)]
    exact tells_sample h hp hrun ticks inputs (process_raises ticks hk hactive)
  · have hidle : (bridgeAt k m).process k ticks inputs = bridgeAt k m :=
      if_pos (not_not.mp (mt (active_iff m inputs).mpr hactive))
    have hshown : w.shown.op (.process ticks inputs) = w.shown := by
      rw [hidle] at hpresents
      cases hrun : w.shown.running with
      | false => exact if_neg (fun hne => Bool.noConfusion (hrun.symm.trans hne))
      | true =>
          have hop : w.shown.op (.process ticks inputs) =
              { w.shown with inputs := inputs &&& logicalMask } := if_pos hrun
          have hinputs := hpresents.inputs.symm.trans hp.inputs
          rw [hop] at hinputs ⊢
          rw [Presented.mk.injEq]
          exact ⟨rfl, hinputs⟩
    have hintervals := intervals_unchanged (k := k) (.process ticks inputs) rfl hshown
    rw [hidle, hintervals]
    apply iff_of_true
    · exact h.keeps hkeeps hshown hintervals rfl rfl
    · exact h.intervals_lt

theorem tells_op {m : Memory 32} (h : Tells k w (bridgeAt k m) (faultAt k m))
    (hp : Presents w.shown (bridgeAt k m))
    (hstands : (bridgeAt k m).leg.pair.overlapActive = w.standing) (op : Op) :
    Tells k (w.op k op) (bridgeAt k (after op.code m)) (faultAt k (after op.code m)) ↔
      Seen k w op ∧ (w.op k op).intervals < 2 ^ 32 := by
  have hkeeps (hop : ∀ inputs, op ≠ .clear inputs) :
      faultAt k m = true → faultAt k (after op.code m) = true := op_latches hop m k
  rw [acts_op hk op m]
  cases op with
  | start ticks inputs => exact tells_start hk h hstands (hkeeps (fun _ => Op.noConfusion)) ticks inputs
  | clear inputs => exact tells_clear hk w _ inputs
  | process ticks inputs => exact (tells_process hk h hp ticks inputs).trans (iff_of_eq (true_and _)).symm
  | setMinDeadtime minDeadtime =>
      have hintervals := intervals_unchanged (w := w) (k := k) (.setMinDeadtime minDeadtime) rfl rfl
      rw [hintervals]
      apply iff_of_true
      · exact h.keeps (hkeeps (fun _ => Op.noConfusion)) rfl hintervals rfl rfl
      · exact ⟨trivial, h.intervals_lt⟩
  | stop =>
      have hintervals : (w.op k .stop).intervals = w.intervals := rfl
      rw [hintervals]
      apply iff_of_true
      · exact ⟨fun hrun => Bool.noConfusion hrun, fun ho => Bool.noConfusion ho, h.counted⟩
      · exact ⟨trivial, h.intervals_lt⟩

omit hk in
theorem process_running (p : Presented) (ticks inputs : Word) :
    (p.op (.process ticks inputs)).running = p.running := by
  rw [Presented.op]
  split_ifs <;> rfl

omit hk in
theorem stands_op {op : Op} (h : Tells k (w.op k op) (Bridge.op k op s) fault')
    (hp : Presents w.shown s) (hstands : s.leg.pair.overlapActive = w.standing) :
    (Bridge.op k op s).leg.pair.overlapActive = (w.op k op).standing := by
  have hstanding : (w.op k op).standing = if (w.shown.op op).running then overlapShown k (w.shown.op op)
      else w.standing && !isClear op := rfl
  rw [hstanding]
  cases hrun : (w.shown.op op).running with
  | true =>
      rw [if_pos rfl, overlapShown, hrun, Bool.true_and, h.active hrun, (presents_op hp k op).inputs]
  | false =>
      rw [if_neg Bool.false_ne_true]
      cases op with
      | start ticks inputs => cases hrun
      | stop | setMinDeadtime => exact hstands.trans (Bool.and_true _).symm
      | clear inputs => exact (Bool.and_false _).symm
      | process ticks inputs =>
          have hrun : w.shown.running = false := (process_running w.shown ticks inputs).symm.trans hrun
          have hstopped : s.running = 0 := not_not.mp
            (fun hne => Bool.noConfusion (hrun.symm.trans (hp.running.mp hne)))
          have hidle : s.process k ticks inputs = s := if_pos (Or.inl hstopped)
          rw [Bridge.op, hidle]
          exact hstands.trans (Bool.and_true _).symm

end Watch

section Runs

def watch (k : Nat) (ops : Nat → Op) (n : Nat) : Watch :=
  wave (fun w op => w.op k op) ⟨⟨false, 0⟩, false, 0⟩ ops n

def observe (k : Nat) (t : Watch × Memory 32) (op : Op) : Watch × Memory 32 :=
  (t.1.op k op, after op.code t.2)

/-- A block that misses no overlap of the pair. -/
structure Sound (k : Nat) (w : Watch) (m : Memory 32) : Prop where
  flagged : overlapShown k w.shown = true →
    m (pairFlags k) &&& pairOverlapActive ≠ 0 ∧ m (pairFlags k) &&& pairOverlapLatched ≠ 0 ∧
      m faultFlags &&& faultOverlap k ≠ 0
  active : w.shown.running = true →
    (m (pairFlags k) &&& pairOverlapActive ≠ 0 ↔
      m inputBits &&& (1 <<< (k * 2)) ≠ 0 ∧ m inputBits &&& (1 <<< (k * 2 + 1)) ≠ 0)
  counted : (m (overlapCount k)).toNat = w.intervals

variable {k : Nat} (hk : k < pairCount)
include hk

theorem sound_iff (w : Watch) (m : Memory 32) :
    Sound k w m ↔ Tells k w (bridgeAt k m) (faultAt k m) := by
  have hactive : m (pairFlags k) &&& pairOverlapActive ≠ 0 ↔
      (bridgeAt k m).leg.pair.overlapActive = true := masked_iff _ (by decide : 2 < 32)
  have hlatched : m (pairFlags k) &&& pairOverlapLatched ≠ 0 ↔
      (bridgeAt k m).leg.pair.overlapLatched = true := masked_iff _ (by decide : 3 < 32)
  have hfault : m faultFlags &&& faultOverlap k ≠ 0 ↔ faultAt k m = true :=
    masked_iff _ (Nat.lt_trans hk (by decide))
  have hover : overlapped k (m inputBits) = true ↔
      m inputBits &&& (1 <<< (k * 2)) ≠ 0 ∧ m inputBits &&& (1 <<< (k * 2 + 1)) ≠ 0 :=
    overlapped_iff hk
  constructor
  · intro h
    refine ⟨fun hrun => ?_, fun ho => ?_, h.counted⟩
    · rw [Bool.eq_iff_iff, ← hactive, h.active hrun]
      exact hover.symm
    · rw [← hactive, ← hlatched, ← hfault]
      exact h.flagged ho
  · intro h
    refine ⟨fun ho => ?_, fun hrun => ?_, h.counted⟩
    · rw [hactive, hlatched, hfault]
      exact h.flagged ho
    · rw [hactive, h.active hrun]
      exact hover

/-- What every call of a run that misses nothing finds. -/
structure Followed (k : Nat) (w : Watch) (m : Memory 32) : Prop where
  tells : Tells k w (bridgeAt k m) (faultAt k m)
  presents : Presents w.shown (bridgeAt k m)
  stands : (bridgeAt k m).leg.pair.overlapActive = w.standing

theorem followed_initialised (m : Memory 32) (hz minDeadtime : Word) :
    Followed k ⟨⟨false, 0⟩, false, 0⟩ (initialised m hz minDeadtime) := by
  have hbridge := initialised_bridge hk m hz minDeadtime
  refine ⟨⟨fun hrun => Bool.noConfusion hrun, fun ho => Bool.noConfusion ho, ?_⟩, ?_, ?_⟩
  · rw [hbridge]
    rfl
  · rw [hbridge]
    exact presents_reset _
  · rw [hbridge]
    rfl

variable {w : Watch} {m : Memory 32}

theorem sound_op (h : Followed k w m) (op : Op) :
    Sound k (w.op k op) (after op.code m) ↔ Seen k w op ∧ (w.op k op).intervals < 2 ^ 32 :=
  (sound_iff hk _ _).trans (tells_op hk h.tells h.presents h.stands op)

theorem followed_op (h : Followed k w m) {op : Op} (hsound : Sound k (w.op k op) (after op.code m)) :
    Followed k (w.op k op) (after op.code m) := by
  have htells := (sound_iff hk _ _).mp hsound
  have hbridge : bridgeAt k (after op.code m) = Bridge.op k op (bridgeAt k m) := acts_op hk op m
  refine ⟨htells, ?_, ?_⟩
  · rw [hbridge]
    exact presents_op h.presents k op
  · rw [hbridge] at htells ⊢
    exact stands_op htells h.presents h.stands

omit hk in
theorem observe_run (w : Watch) (m : Memory 32) (ops : Nat → Op) (n : Nat) :
    wave (observe k) (w, m) ops n = (wave (fun w op => w.op k op) w ops n, block m ops n) := by
  apply Prod.ext
  · exact wave_part (observe k) (fun w op => w.op k op) Prod.fst (fun _ op => op)
      (fun _ _ => rfl) (w, m) ops n
  · exact wave_part (observe k) (fun m op => after op.code m) Prod.snd (fun _ op => op)
      (fun _ _ => rfl) (w, m) ops n

theorem sound_run (h : Followed k w m) (ops : Nat → Op) (N : Nat) :
    (∀ n, n ≤ N → Sound k (wave (observe k) (w, m) ops n).1 (wave (observe k) (w, m) ops n).2) ↔
      ∀ n, n < N → Seen k (wave (observe k) (w, m) ops n).1 (ops n) ∧
        (wave (observe k) (w, m) ops (n + 1)).1.intervals < 2 ^ 32 := by
  apply wave_keeps_iff (I := fun t : Watch × Memory 32 => Followed k t.1 t.2)
    (P := fun t => Sound k t.1 t.2) (G := fun t op => Seen k t.1 op ∧ (t.1.op k op).intervals < 2 ^ 32)
  · exact h
  · exact fun t ht => (sound_iff hk _ _).mpr ht.tells
  · exact fun t op ht => sound_op hk ht op
  · exact fun t op ht hsound => followed_op hk ht hsound

end Runs

/-- Along any calls from an init, no overlap of a pair is missed and its interval count is
right exactly as long as every start and every clear is one that the pair is seen through,
and the count has not wrapped. -/
theorem overlap_seen_iff (k : Fin pairCount) (m : Memory 32) (hz minDeadtime : Word)
    (ops : Nat → Op) (N : Nat) :
    (∀ n, n ≤ N → Sound k (watch k ops n) (block (initialised m hz minDeadtime) ops n)) ↔
      ∀ n, n < N → Seen k (watch k ops n) (ops n) ∧ (watch k ops (n + 1)).intervals < 2 ^ 32 := by
  have hrun := sound_run k.isLt (followed_initialised k.isLt m hz minDeadtime) ops N
  simp only [observe_run] at hrun
  exact hrun

/-- A capture started into a standing overlap shows none of it. -/
theorem standing_overlap_missed :
    let ops (_ : Nat) : Op := .start 0 3
    overlapShown 0 (watch 0 ops 1).shown = true ∧
      block (initialised (fun _ => 0) 200000000 0) ops 1 (pairFlags 0) &&& pairOverlapActive = 0 ∧
      ¬ Sound 0 (watch 0 ops 1) (block (initialised (fun _ => 0) 200000000 0) ops 1) := by
  intro ops
  have hover : overlapShown 0 (watch 0 ops 1).shown = true := by decide
  have hinit : initialised (fun _ => 0) 200000000 0 (pairFlags 0) = 0 :=
    PwmSeqlock.initialised_zero (by decide) (by decide) _ _ _
  have hstart (m : Memory 32) : after (start 0 3) m (pairFlags 0) = m (pairFlags 0) :=
    run_of_avoids (start_avoids 0 3 (by decide)) m
  have hblock (m : Memory 32) : block m ops 1 = after (start 0 3) m := rfl
  have hflags : block (initialised (fun _ => 0) 200000000 0) ops 1 (pairFlags 0) = 0 := by
    rw [hblock, hstart, hinit]
  refine ⟨hover, ?_, fun hsound => ?_⟩
  · rw [hflags]
    exact BitVec.zero_and
  · have hactive := (hsound.flagged hover).1
    rw [hflags] at hactive
    exact hactive BitVec.zero_and

end HilLab.Pru.PwmOverlap
