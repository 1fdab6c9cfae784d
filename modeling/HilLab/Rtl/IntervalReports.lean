import HilLab.Rtl.PwmLoopback

namespace HilLab.Rtl.IntervalReports

open Lib.Clocked Lib.Edges PwmCapture CaptureEdges PwmLoopback

/-- A timestamp that neither goes back nor wraps. -/
def Running (times : Nat → BitVec 64) : Prop := ∀ m n, m ≤ n → times m ≤ times n

section Spans

variable (times : Nat → BitVec 64) {m n : Nat}

def span (m n : Nat) : Nat := (times n).toNat - (times m).toNat

/-- What a register of 32 bits should say of a span. -/
def Saturated (m n : Nat) (ticks : BitVec 32) : Prop :=
  ticks.toNat = min (span times m n) (2 ^ 32 - 1)

variable {times}

theorem Running.span_eq (h : Running times) (hmn : m ≤ n) :
    (times n - times m).toNat = span times m n := BitVec.toNat_sub_of_le (h m n hmn)

theorem Running.saturated (h : Running times) (hmn : m ≤ n) :
    Saturated times m n (saturate (times n - times m)) := by
  rw [Saturated, saturate_toNat, h.span_eq hmn]

end Spans

section Capture

variable (pin : Nat → Bool) (times : Nat → BitVec 64)

/-- The tick registers of a capture in clock n: a valid pulse names the edges that its value
is about, and the value stays until there are later ones. -/
structure CaptureReports (n : Nat) : Prop where
  periodEdges : (capturedAt pin times n).periodValid = true →
    ∃ m r, n = m + 1 ∧ Latest (riseAt pin) m n ∧ Latest (riseAt pin) r m
  period : ∀ m r, Latest (riseAt pin) m n → Latest (riseAt pin) r m →
    Saturated times r m (capturedAt pin times n).periodTicks
  highEdges : (capturedAt pin times n).highValid = true →
    ∃ m r, n = m + 1 ∧ Latest (fallAt pin) m n ∧ Latest (riseAt pin) r m
  high : ∀ m r, Latest (fallAt pin) m n → Latest (riseAt pin) r m →
    Saturated times r m (capturedAt pin times n).highTicks
  lowEdges : (capturedAt pin times n).lowValid = true →
    ∃ m f, n = m + 1 ∧ Latest (riseAt pin) m n ∧ Latest (fallAt pin) f m
  low : ∀ m f, Latest (riseAt pin) m n → Latest (fallAt pin) f m →
    Saturated times f m (capturedAt pin times n).lowTicks

variable {times}

theorem capture_saturates (h : Running times) (n : Nat) : CaptureReports pin times n := by
  constructor
  case periodEdges => exact capturedAt_periodValid
  case highEdges => exact capturedAt_highValid
  case lowEdges => exact capturedAt_lowValid
  case period =>
    intro m r hm hr
    rw [capturedAt_periodTicks hm hr]
    exact h.saturated (Nat.le_of_lt hr.lt)
  case high =>
    intro m r hm hr
    rw [capturedAt_highTicks hm hr]
    exact h.saturated (Nat.le_of_lt hr.lt)
  case low =>
    intro m f hm hf
    rw [capturedAt_lowTicks hm hf]
    exact h.saturated (Nat.le_of_lt hf.lt)

end Capture

section Sample

variable {times : Nat → BitVec 64} {off : Nat → Bool} {n f d : Nat} {seen : Bool}
  {since : BitVec 64} {minDeadtimeTicks : BitVec 32}

/-- A span that 32 bits cut off at the top still say as a saturated one. -/
def Fits (d : Nat) : Prop := d < 2 ^ 32 ∨ d % 2 ^ 32 = 2 ^ 32 - 1

theorem fits_iff : d % 2 ^ 32 = min d (2 ^ 32 - 1) ↔ Fits d := by
  rw [Fits]
  omega

theorem short_of_fits {ticks : BitVec 32} (h : Fits d) (hticks : ticks.toNat = d % 2 ^ 32) :
    decide (d < minDeadtimeTicks.toNat) = decide (ticks < minDeadtimeTicks) := by
  have hmin := minDeadtimeTicks.isLt
  rw [decide_eq_decide, BitVec.lt_def, hticks]
  rw [Fits] at h
  omega

/-- A turn-on samples the time since the latest turn-off, this clock's included, cut to 32
bits; whether it is short is seen on the full width. -/
theorem sample_cut (h : Running times)
    (hseen : seen = true → ∃ m, Latest off m n ∧ since = times m) :
    ∀ x ∈ sample (off n) seen since (times n) minDeadtimeTicks,
      ∃ f, Latest off f (n + 1) ∧ x.1.toNat = span times f n % 2 ^ 32 ∧
        x.2 = decide (span times f n < minDeadtimeTicks.toNat) := by
  intro x hx
  rw [sample] at hx
  cases hoff : off n with
  | true =>
      rw [hoff] at hx
      cases hx
      refine ⟨n, latest_succ hoff, ?_, ?_⟩
      · rw [span, Nat.sub_self]
        rfl
      · rw [span, Nat.sub_self, Bool.eq_iff_iff, bne_iff_ne, decide_eq_true_iff,
          Nat.pos_iff_ne_zero, ne_eq, ← BitVec.toNat_inj]
        rfl
  | false =>
      rw [hoff] at hx
      cases hs : seen with
      | false =>
          rw [hs] at hx
          cases hx
      | true =>
          obtain ⟨m, hm, hsince⟩ := hseen hs
          have hspan := h.span_eq (Nat.le_of_lt hm.lt)
          rw [hs, hsince] at hx
          cases hx
          have hlater : Latest off m (n + 1) := by
            refine hm.later (Nat.le_succ n) (fun j hnj hjn => ?_)
            rw [Nat.le_antisymm (Nat.le_of_lt_succ hjn) hnj]
            exact hoff
          have hmin := minDeadtimeTicks.isLt
          refine ⟨m, hlater, ?_, ?_⟩
          · rw [BitVec.extractLsb'_toNat, Nat.shiftRight_zero, hspan]
          · rw [decide_eq_decide, BitVec.lt_def, hspan, BitVec.toNat_setWidth]
            omega

theorem sample_isSome (hseen : ∀ m, Latest off m n → seen = true) (hf : Latest off f (n + 1)) :
    (sample (off n) seen since (times n) minDeadtimeTicks).isSome = true := by
  rw [sample]
  rcases hf.cases with ⟨hoff, -⟩ | ⟨hoff, hlatest⟩
  · rw [hoff]
    rfl
  · rw [hoff, hseen f hlatest]
    rfl

variable (times) in
/-- The dead-time sample o of clock n, at a turn-on: the span since the latest turn-off, this
clock's included, cut to 32 bits; whether it is short is seen on the full width. -/
structure Cut (on off : Nat → Bool) (n : Nat) (minDeadtimeTicks : BitVec 32)
    (o : Option (BitVec 32 × Bool)) : Prop where
  some : ∀ f, on n = true → Latest off f (n + 1) → o.isSome = true
  cut : ∀ x ∈ o, ∃ f, on n = true ∧ Latest off f (n + 1) ∧
    x.1.toNat = span times f n % 2 ^ 32 ∧
    x.2 = decide (span times f n < minDeadtimeTicks.toNat)

variable {on : Nat → Bool} {o : Option (BitVec 32 × Bool)} {valid : Bool} {ticks : BitVec 32}

theorem cut_sample (h : Running times)
    (hfall : seen = true → ∃ m, Latest off m n ∧ since = times m)
    (hseen : ∀ m, Latest off m n → seen = true) :
    Cut times on off n minDeadtimeTicks
      (if on n then sample (off n) seen since (times n) minDeadtimeTicks else none) := by
  cases hon : on n with
  | true =>
      refine ⟨fun f _ hf => sample_isSome hseen hf, fun x hx => ?_⟩
      obtain ⟨f, hf, hticks, hshort⟩ := sample_cut h hfall x hx
      exact ⟨f, hon, hf, hticks, hshort⟩
  | false => exact ⟨fun f hrise => absurd hrise (by simp [hon]), fun x hx => by cases hx⟩

variable (times) in
/-- A dead time is reported as the span from the latest turn-off to the turn-on, or as the
largest value. -/
def Reported (on off : Nat → Bool) (n : Nat) (valid : Bool) (ticks : BitVec 32) : Prop :=
  valid = true → ∃ f, on n = true ∧ Latest off f (n + 1) ∧ Saturated times f n ticks

variable (times) in
/-- The span before a turn-on in clock n, if there is one to report, fits. -/
def SpanFits (on off : Nat → Bool) (n : Nat) : Prop :=
  ∀ f, on n = true → Latest off f (n + 1) → Fits (span times f n)

theorem Cut.reported_iff (h : Cut times on off n minDeadtimeTicks o) (hvalid : valid = o.isSome)
    (hticks : ∀ x ∈ o, ticks = x.1) :
    Reported times on off n valid ticks ↔ SpanFits times on off n := by
  constructor
  · intro hreport f hon hf
    have hsome := h.some f hon hf
    obtain ⟨x, hx⟩ := Option.isSome_iff_exists.mp hsome
    obtain ⟨f', -, hf', hcut, -⟩ := h.cut x hx
    obtain ⟨f'', -, hf'', hsaturated⟩ := hreport (hvalid.trans hsome)
    rw [Saturated, hticks x hx, hf''.unique hf, hcut, hf'.unique hf] at hsaturated
    exact fits_iff.mp hsaturated
  · intro hfits hsome
    obtain ⟨x, hx⟩ := Option.isSome_iff_exists.mp (hvalid.symm.trans hsome)
    obtain ⟨f, hon, hf, hcut, -⟩ := h.cut x hx
    refine ⟨f, hon, hf, ?_⟩
    rw [Saturated, hticks x hx, hcut]
    exact fits_iff.mpr (hfits f hon hf)

theorem Cut.short (h : Cut times on off n minDeadtimeTicks o) (hvalid : valid = o.isSome)
    (hticks : ∀ x ∈ o, ticks = x.1) (hfits : SpanFits times on off n) :
    o.any Prod.snd = (valid && decide (ticks < minDeadtimeTicks)) := by
  cases o with
  | none =>
      rw [hvalid]
      rfl
  | some x =>
      obtain ⟨f, hon, hf, hcut, hshort⟩ := h.cut x rfl
      rw [hvalid, hticks x rfl]
      exact hshort.trans (short_of_fits (hfits f hon hf) hcut)

end Sample

section Monitor

variable (high low : Nat → Bool) (times : Nat → BitVec 64) (minDeadtimeTicks : Nat → BitVec 32)
  (clearFaults : Nat → Bool)

/-- What clock n makes of its dead-time samples. -/
structure DeadtimeReports (n : Nat) : Prop where
  highToLow : Reported times (riseAt low) (fallAt high) n
    (watchedAt high low times minDeadtimeTicks clearFaults (n + 1)).deadtimeHighToLowValid
    (watchedAt high low times minDeadtimeTicks clearFaults (n + 1)).deadtimeHighToLowTicks
  lowToHigh : Reported times (riseAt high) (fallAt low) n
    (watchedAt high low times minDeadtimeTicks clearFaults (n + 1)).deadtimeLowToHighValid
    (watchedAt high low times minDeadtimeTicks clearFaults (n + 1)).deadtimeLowToHighTicks
  violation :
    let w := watchedAt high low times minDeadtimeTicks clearFaults
    (w (n + 1)).deadtimeViolationLatched =
      ((w (n + 1)).deadtimeHighToLowValid &&
          decide ((w (n + 1)).deadtimeHighToLowTicks < minDeadtimeTicks n) ||
        (w (n + 1)).deadtimeLowToHighValid &&
          decide ((w (n + 1)).deadtimeLowToHighTicks < minDeadtimeTicks n) ||
        (w n).deadtimeViolationLatched && !clearFaults n)

def DeadtimesFit (n : Nat) : Prop :=
  SpanFits times (riseAt low) (fallAt high) n ∧ SpanFits times (riseAt high) (fallAt low) n

variable {times}

theorem watchedAt_cuts (h : Running times) (n : Nat) :
    let w := watchedAt high low times minDeadtimeTicks clearFaults n
    let i : MonitorInput := ⟨high n, low n, times n, minDeadtimeTicks n, clearFaults n⟩
    Cut times (riseAt low) (fallAt high) n (minDeadtimeTicks n) (highToLow w i) ∧
      Cut times (riseAt high) (fallAt low) n (minDeadtimeTicks n) (lowToHigh w i) := by
  intro w i
  obtain ⟨hhighRise, hlowRise, hhighFall, hlowFall⟩ :=
    watchedAt_edges high low times minDeadtimeTicks clearFaults n
  obtain ⟨hhigh, hlow⟩ := watchedAt_falls high low times minDeadtimeTicks clearFaults n
  obtain ⟨hhighSeen, hlowSeen⟩ := watchedAt_seen high low times minDeadtimeTicks clearFaults n
  rw [highToLow, lowToHigh, hhighRise, hlowRise, hhighFall, hlowFall]
  exact ⟨cut_sample h hhigh hhighSeen, cut_sample h hlow hlowSeen⟩

theorem deadtime_reports_iff (h : Running times) (n : Nat) :
    DeadtimeReports high low times minDeadtimeTicks clearFaults n ↔
      DeadtimesFit high low times n := by
  obtain ⟨hhigh, hlow⟩ := watchedAt_cuts high low minDeadtimeTicks clearFaults h n
  obtain ⟨hhighValid, hlowValid, hhighTicks, hlowTicks, hviolation⟩ := monitor_step_samples
    (watchedAt high low times minDeadtimeTicks clearFaults n)
    ⟨high n, low n, times n, minDeadtimeTicks n, clearFaults n⟩
  constructor
  · exact fun hreports => ⟨(hhigh.reported_iff hhighValid hhighTicks).mp hreports.highToLow,
      (hlow.reported_iff hlowValid hlowTicks).mp hreports.lowToHigh⟩
  · rintro ⟨hhighFits, hlowFits⟩
    refine ⟨(hhigh.reported_iff hhighValid hhighTicks).mpr hhighFits,
      (hlow.reported_iff hlowValid hlowTicks).mpr hlowFits, hviolation.trans ?_⟩
    rw [hhigh.short hhighValid hhighTicks hhighFits, hlow.short hlowValid hlowTicks hlowFits]
    rfl

/-- All reports of a run are right exactly when every dead time fits its register. -/
theorem interval_reports_saturate_iff (pin : Nat → Bool) (h : Running times) (N : Nat) :
    (∀ n, n < N → CaptureReports pin times n ∧
        DeadtimeReports high low times minDeadtimeTicks clearFaults n) ↔
      ∀ n, n < N → DeadtimesFit high low times n := by
  have hdeadtime := deadtime_reports_iff high low minDeadtimeTicks clearFaults h
  constructor
  · exact fun hreports n hn => (hdeadtime n).mp (hreports n hn).2
  · exact fun hfits n hn => ⟨capture_saturates pin h n, (hdeadtime n).mpr (hfits n hn)⟩

/-- The high switch turns off early and the low switch on soon after. -/
def highPin (n : Nat) : Bool := decide (n < 2)
def lowPin (n : Nat) : Bool := decide (4 ≤ n)

/-- One tick a clock, but for 2 ^ 32 ticks in clock 10. -/
def stretched (n : Nat) : BitVec 64 :=
  if n < 10 then BitVec.ofNat 64 n else 0x100000000 + BitVec.ofNat 64 (min n 16)

theorem stretched_running : Running stretched := by
  intro m n hmn
  simp only [stretched, BitVec.le_def]
  split <;> split <;> simp [BitVec.toNat_add] <;> omega

theorem stretched_fits {n : Nat} (hn : n < 16) : DeadtimesFit highPin lowPin stretched n := by
  have hon : ∀ k, k < 16 → riseAt lowPin k = true → k = 6 := by decide
  have hoff : ∀ k, k < 7 → fallAt highPin k = true → k = 4 := by decide
  have hnone : ∀ k, k < 17 → fallAt lowPin k = false := by decide
  refine ⟨fun f hrise hf => ?_, fun f _ hf => ?_⟩
  · obtain rfl := hon n hn hrise
    obtain rfl := hoff f hf.lt hf.holds
    exact .inl (by decide)
  · have hlow := hnone f (Nat.lt_trans hf.lt (Nat.succ_lt_succ hn))
    exact absurd (hf.holds.symm.trans hlow) (by decide)

/-- The pin of the capture is up over the long clock: its high time is saturated, and the short
dead time is reported as the violation that it is. -/
theorem interval_reports_saturate_iff_stretched :
    let w := watchedAt highPin lowPin stretched (fun _ => 10) (fun _ => false)
    (∀ n, n < 16 → CaptureReports (fun n => decide (3 ≤ n ∧ n < 12)) stretched n ∧
        DeadtimeReports highPin lowPin stretched (fun _ => 10) (fun _ => false) n) ∧
      (capturedAt (fun n => decide (3 ≤ n ∧ n < 12)) stretched 15).highTicks = 0xFFFFFFFF ∧
      (w 7).deadtimeHighToLowTicks = 2 ∧ (w 7).deadtimeViolationLatched = true := by
  have hreports := (interval_reports_saturate_iff highPin lowPin (fun _ => 10) (fun _ => false)
    (fun n => decide (3 ≤ n ∧ n < 12)) stretched_running 16).mpr (fun _ => stretched_fits)
  exact ⟨hreports, by decide, by decide, by decide⟩

/-- The high switch turns off, 2 ^ 32 ticks go by, and the low switch turns on. -/
def longOff (n : Nat) : BitVec 64 := if n < 6 then 0 else 0x100000000

theorem longOff_running : Running longOff := by
  intro m n hmn
  simp only [longOff]
  split <;> split
  · decide
  · decide
  · omega
  · decide

/-- Its dead time is reported as 0, and yet not as a violation. -/
theorem long_off_aliases :
    let w := watchedAt highPin lowPin longOff (fun _ => 10) (fun _ => false)
    Running longOff ∧ (w 7).deadtimeHighToLowValid = true ∧ (w 7).deadtimeHighToLowTicks = 0 ∧
      (w 7).deadtimeViolationLatched = false ∧
      ¬ DeadtimeReports highPin lowPin longOff (fun _ => 10) (fun _ => false) 6 := by
  intro w
  have hvalid : (w 7).deadtimeHighToLowValid = true := by decide
  have hticks : (w 7).deadtimeHighToLowTicks = 0 := by decide
  have hviolation : (w 7).deadtimeViolationLatched = false := by decide
  refine ⟨longOff_running, hvalid, hticks, hviolation, fun hreports => ?_⟩
  have hlatch : (w 7).deadtimeViolationLatched = _ := hreports.violation
  rw [hviolation, hvalid, hticks] at hlatch
  cases hlatch

end Monitor

end HilLab.Rtl.IntervalReports
