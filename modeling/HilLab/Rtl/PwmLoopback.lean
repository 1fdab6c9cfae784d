import HilLab.Rtl.CaptureEdges
import HilLab.Rtl.PwmGenerator

namespace HilLab.Rtl.PwmLoopback

open Lib.Clocked Lib.Edges Lib.Duty PwmCapture CaptureEdges PwmGenerator

section Monitor

variable (s : Monitor) (i : MonitorInput)

/-- The dead-time samples that a clock takes. -/
def highToLow : Option (BitVec 32 × Bool) :=
  if s.lowRise then
    sample s.highFall s.highFallSeen s.highFallTimestamp i.timestamp i.minDeadtimeTicks
  else none

def lowToHigh : Option (BitVec 32 × Bool) :=
  if s.highRise then
    sample s.lowFall s.lowFallSeen s.lowFallTimestamp i.timestamp i.minDeadtimeTicks
  else none

theorem monitor_step_registers :
    (s.step i).sync = s.sync.step (BitVec.ofBool i.highAsync ++ BitVec.ofBool i.lowAsync) ∧
      (s.step i).highD = s.high ∧ (s.step i).lowD = s.low ∧
      (s.step i).highFallTimestamp =
        (if s.highFall then i.timestamp else s.highFallTimestamp) ∧
      (s.step i).lowFallTimestamp = (if s.lowFall then i.timestamp else s.lowFallTimestamp) ∧
      (s.step i).highFallSeen = (s.highFall || s.highFallSeen) ∧
      (s.step i).lowFallSeen = (s.lowFall || s.lowFallSeen) ∧
      (s.step i).shootThroughLatched =
        (s.high && s.low || s.shootThroughLatched && !i.clearFaults) := by
  have hobserve : (s.step i).sync = s.sync.step (BitVec.ofBool i.highAsync ++ BitVec.ofBool i.lowAsync) ∧
      (s.step i).highD = s.high ∧ (s.step i).lowD = s.low ∧
      (s.step i).highFallTimestamp = (s.observe i).highFallTimestamp ∧
      (s.step i).lowFallTimestamp = (s.observe i).lowFallTimestamp ∧
      (s.step i).highFallSeen = (s.observe i).highFallSeen ∧
      (s.step i).lowFallSeen = (s.observe i).lowFallSeen ∧
      (s.step i).shootThroughLatched = (s.observe i).shootThroughLatched := by
    rw [Monitor.step, Monitor.onLowRise, Monitor.onHighRise]
    cases s.lowRise <;> cases s.highRise <;>
      cases sample s.highFall s.highFallSeen s.highFallTimestamp i.timestamp i.minDeadtimeTicks <;>
      cases sample s.lowFall s.lowFallSeen s.lowFallTimestamp i.timestamp i.minDeadtimeTicks <;>
      exact ⟨rfl, rfl, rfl, rfl, rfl, rfl, rfl, rfl⟩
  obtain ⟨hsync, hhighD, hlowD, hhf, hlf, hhs, hls, hshoot⟩ := hobserve
  refine ⟨hsync, hhighD, hlowD, hhf, hlf, hhs.trans ?_, hls.trans ?_, hshoot.trans ?_⟩
  · rw [Monitor.observe]
    cases s.highFall <;> rfl
  · rw [Monitor.observe]
    cases s.lowFall <;> rfl
  · rw [Monitor.observe]
    cases s.high <;> cases s.low <;> cases i.clearFaults <;> simp

theorem monitor_step_samples :
    (s.step i).deadtimeHighToLowValid = (highToLow s i).isSome ∧
      (s.step i).deadtimeLowToHighValid = (lowToHigh s i).isSome ∧
      (∀ x ∈ highToLow s i, (s.step i).deadtimeHighToLowTicks = x.1) ∧
      (∀ x ∈ lowToHigh s i, (s.step i).deadtimeLowToHighTicks = x.1) ∧
      (s.step i).deadtimeViolationLatched =
        ((highToLow s i).any Prod.snd || (lowToHigh s i).any Prod.snd ||
          s.deadtimeViolationLatched && !i.clearFaults) := by
  rw [Monitor.step, highToLow, lowToHigh]
  simp only [Monitor.onLowRise, Monitor.onHighRise]
  cases s.lowRise <;> cases s.highRise <;>
    cases sample s.highFall s.highFallSeen s.highFallTimestamp i.timestamp i.minDeadtimeTicks <;>
    cases sample s.lowFall s.lowFallSeen s.lowFallTimestamp i.timestamp i.minDeadtimeTicks <;>
    simp [Monitor.observe, Bool.and_comm, Bool.or_comm, Bool.or_left_comm]

end Monitor

section Watched

def watchedAt (high low : Nat → Bool) (times : Nat → BitVec 64) (minDeadtimeTicks : Nat → BitVec 32)
    (clearFaults : Nat → Bool) (n : Nat) : Monitor :=
  wave Monitor.step .reset
    (fun k => ⟨high k, low k, times k, minDeadtimeTicks k, clearFaults k⟩) n

def watched (high low : Nat → Bool) (minDeadtimeTicks : Nat → BitVec 32)
    (clearFaults : Nat → Bool) (n : Nat) : Monitor :=
  wave Monitor.step .reset
    (fun k => ⟨high k, low k, BitVec.ofNat 64 k, minDeadtimeTicks k, clearFaults k⟩) n

variable (high low : Nat → Bool) (times : Nat → BitVec 64) (minDeadtimeTicks : Nat → BitVec 32)
  (clearFaults : Nat → Bool)

theorem watchedAt_registers (n : Nat) :
    let w := watchedAt high low times minDeadtimeTicks clearFaults
    (w n).sync.first = BitVec.ofBool (delayed high 1 n) ++ BitVec.ofBool (delayed low 1 n) ∧
      (w n).high = delayed high 2 n ∧ (w n).low = delayed low 2 n ∧
      (w n).highD = delayed high 3 n ∧ (w n).lowD = delayed low 3 n := by
  intro w
  induction n with
  | zero =>
      refine ⟨?_, BitVec.getLsbD_zero, BitVec.getLsbD_zero, rfl, rfl⟩
      change (0 : BitVec 2) = BitVec.ofBool false ++ BitVec.ofBool false
      decide
  | succ n ih =>
      obtain ⟨hfirst, hhigh, hlow, -, -⟩ := ih
      obtain ⟨hsync, hhighD, hlowD, -⟩ := monitor_step_registers (w n)
        ⟨high n, low n, times n, minDeadtimeTicks n, clearFaults n⟩
      have hstep : w (n + 1) = (w n).step
        ⟨high n, low n, times n, minDeadtimeTicks n, clearFaults n⟩ := rfl
      rw [hstep, Monitor.high, Monitor.low, hsync, hhighD, hlowD, hhigh, hlow, delayed_succ,
        delayed_succ, delayed_succ, delayed_succ, delayed_succ, delayed_succ]
      refine ⟨rfl, ?_, ?_, rfl, rfl⟩
      · change (w n).sync.first.getLsbD 1 = _
        rw [hfirst]
        cases delayed high 1 n <;> cases delayed low 1 n <;> rfl
      · change (w n).sync.first.getLsbD 0 = _
        rw [hfirst]
        cases delayed high 1 n <;> cases delayed low 1 n <;> rfl

theorem watchedAt_edges (n : Nat) :
    let w := watchedAt high low times minDeadtimeTicks clearFaults n
    w.highRise = riseAt high n ∧ w.lowRise = riseAt low n ∧ w.highFall = fallAt high n ∧
      w.lowFall = fallAt low n := by
  intro w
  obtain ⟨-, hhigh, hlow, hhighD, hlowD⟩ := watchedAt_registers high low times minDeadtimeTicks
    clearFaults n
  rw [Monitor.highRise, Monitor.lowRise, Monitor.highFall, Monitor.lowFall, hhigh, hlow, hhighD,
    hlowD]
  simp only [riseAt, fallAt, rise, fall, before_delayed, and_self]

theorem watchedAt_falls (n : Nat) :
    let w := watchedAt high low times minDeadtimeTicks clearFaults
    ((w n).highFallSeen = true →
        ∃ m, Latest (fallAt high) m n ∧ (w n).highFallTimestamp = times m) ∧
      ((w n).lowFallSeen = true →
        ∃ m, Latest (fallAt low) m n ∧ (w n).lowFallTimestamp = times m) := by
  intro w
  have hregisters := fun k => monitor_step_registers (w k)
    ⟨high k, low k, times k, minDeadtimeTicks k, clearFaults k⟩
  have hedges := fun k => watchedAt_edges high low times minDeadtimeTicks clearFaults k
  constructor
  · apply latest_of_flagged (fun k => (w k).highFallSeen) (fun k => (w k).highFallTimestamp)
      times rfl
    · intro k
      rw [← (hedges k).2.2.1]
      exact (hregisters k).2.2.2.2.2.1
    · intro k
      rw [← (hedges k).2.2.1]
      exact (hregisters k).2.2.2.1
  · apply latest_of_flagged (fun k => (w k).lowFallSeen) (fun k => (w k).lowFallTimestamp)
      times rfl
    · intro k
      rw [← (hedges k).2.2.2]
      exact (hregisters k).2.2.2.2.2.2.1
    · intro k
      rw [← (hedges k).2.2.2]
      exact (hregisters k).2.2.2.2.1

theorem watchedAt_seen (n : Nat) :
    let w := watchedAt high low times minDeadtimeTicks clearFaults
    (∀ m, Latest (fallAt high) m n → (w n).highFallSeen = true) ∧
      ∀ m, Latest (fallAt low) m n → (w n).lowFallSeen = true := by
  intro w
  have hregisters := fun k => monitor_step_registers (w k)
    ⟨high k, low k, times k, minDeadtimeTicks k, clearFaults k⟩
  have hedges := fun k => watchedAt_edges high low times minDeadtimeTicks clearFaults k
  have hhigh (k : Nat) : (w (k + 1)).highFallSeen = (fallAt high k || (w k).highFallSeen) := by
    rw [← (hedges k).2.2.1]
    exact (hregisters k).2.2.2.2.2.1
  have hlow (k : Nat) : (w (k + 1)).lowFallSeen = (fallAt low k || (w k).lowFallSeen) := by
    rw [← (hedges k).2.2.2]
    exact (hregisters k).2.2.2.2.2.2.1
  exact ⟨fun m hm => hm.flagged (fun k => (w k).highFallSeen) hhigh,
    fun m hm => hm.flagged (fun k => (w k).lowFallSeen) hlow⟩

theorem watched_edges (n : Nat) :
    let w := watched high low minDeadtimeTicks clearFaults n
    w.highRise = riseAt high n ∧ w.lowRise = riseAt low n ∧ w.highFall = fallAt high n ∧
      w.lowFall = fallAt low n :=
  watchedAt_edges high low (BitVec.ofNat 64) minDeadtimeTicks clearFaults n

theorem watched_falls (n : Nat) :
    let w := watched high low minDeadtimeTicks clearFaults
    ((w n).highFallSeen = true →
        ∃ m, Latest (fallAt high) m n ∧ (w n).highFallTimestamp = BitVec.ofNat 64 m) ∧
      ((w n).lowFallSeen = true →
        ∃ m, Latest (fallAt low) m n ∧ (w n).lowFallTimestamp = BitVec.ofNat 64 m) :=
  watchedAt_falls high low (BitVec.ofNat 64) minDeadtimeTicks clearFaults n

theorem watched_shoot (n : Nat) :
    let w := watched high low minDeadtimeTicks clearFaults
    (w (n + 1)).shootThroughLatched =
      (delayed high 2 n && delayed low 2 n || (w n).shootThroughLatched && !clearFaults n) := by
  intro w
  obtain ⟨-, hhigh, hlow, -, -⟩ := watchedAt_registers high low (BitVec.ofNat 64)
    minDeadtimeTicks clearFaults n
  rw [← hhigh, ← hlow]
  exact (monitor_step_registers (w n) _).2.2.2.2.2.2.2

end Watched

section Samples

variable {off : Nat → Bool} {n g : Nat} {seen : Bool} {since : BitVec 64}
  {minDeadtimeTicks : BitVec 32}

theorem sample_of_gap (hg : g < 2 ^ 32) (hnow : off n = true → g = 0)
    (hseen : seen = true → ∃ m, Latest off m n ∧ since = BitVec.ofNat 64 m)
    (hlater : ∀ m, off n = false → Latest off m n → n = m + g) :
    ∀ x ∈ sample (off n) seen since (BitVec.ofNat 64 n) minDeadtimeTicks,
      x.1.toNat = g ∧ x.2 = decide (g < minDeadtimeTicks.toNat) := by
  intro x hx
  rw [sample] at hx
  cases hoff : off n with
  | true =>
      rw [hoff] at hx
      cases hx
      rw [hnow hoff]
      refine ⟨rfl, ?_⟩
      rw [Bool.eq_iff_iff, bne_iff_ne, decide_eq_true_iff, Nat.pos_iff_ne_zero, ne_eq,
        ← BitVec.toNat_inj]
      rfl
  | false =>
      rw [hoff] at hx
      cases hs : seen with
      | false =>
          rw [hs] at hx
          cases hx
      | true =>
          obtain ⟨m, hm, hsince⟩ := hseen hs
          have hdelta : BitVec.ofNat 64 n - since = BitVec.ofNat 64 g := by
            rw [hsince, hlater m hoff hm, BitVec.sub_eq_iff_eq_add, ← BitVec.ofNat_add,
              Nat.add_comm]
          rw [hs, hdelta] at hx
          cases hx
          refine ⟨?_, ?_⟩
          · rw [BitVec.extractLsb'_toNat, BitVec.toNat_ofNat, Nat.shiftRight_zero]
            omega
          · rw [decide_eq_decide, BitVec.lt_def, BitVec.toNat_setWidth, BitVec.toNat_ofNat]
            omega

theorem sample_of_duty {on : Bool} {p s a b : Nat} (hs : 0 < s) (hab : a < b) (hbp : b ≤ p)
    (hshort : b < p + a) (hg : g < 2 ^ 32) (hgp : g < p)
    (hphase : on = true → (n - s) % p = (b + g) % p)
    (hseen : seen = true →
      ∃ m, Latest (fall (duty p s a b)) m n ∧ since = BitVec.ofNat 64 m) :
    ∀ x ∈ (if on then
        sample (fall (duty p s a b) n) seen since (BitVec.ofNat 64 n) minDeadtimeTicks else none),
      x.1.toNat = g ∧ x.2 = decide (g < minDeadtimeTicks.toNat) := by
  intro x hx
  cases hon : on with
  | false =>
      rw [hon] at hx
      cases hx
  | true =>
      have hmod := hphase hon
      rw [hon, if_pos rfl] at hx
      exact sample_of_gap hg (gap_of_fall hs hab hbp hshort hmod hgp) hseen
        (fun m => gap_of_latest_fall hs hab hbp hshort hmod hgp) x hx

theorem ticks_of_sample {o : Option (BitVec 32 × Bool)} {ticks deadtime : BitVec 32}
    {short : Bool} (hticks : ∀ x ∈ o, ticks = x.1)
    (hgap : ∀ x ∈ o, x.1.toNat = deadtime.toNat ∧ x.2 = short) (h : o.isSome = true) :
    ticks = deadtime := by
  obtain ⟨x, hx⟩ := Option.isSome_iff_exists.mp h
  rw [hticks x hx]
  exact BitVec.eq_of_toNat_eq (hgap x hx).1

theorem short_of_sample {o : Option (BitVec 32 × Bool)} {g : Nat} {short : Bool}
    (hgap : ∀ x ∈ o, x.1.toNat = g ∧ x.2 = short) : o.any Prod.snd = (o.isSome && short) := by
  cases o with
  | none => rfl
  | some x => exact (hgap x rfl).2

end Samples

section Loopback

variable {P H D : BitVec 32}

def highGate (P H D : BitVec 32) (n : Nat) : Bool := (generated (steady P H D) n).pwmHigh
def lowGate (P H D : BitVec 32) (n : Nat) : Bool := (generated (steady P H D) n).pwmLow

theorem delayed_duty (p s a b d n : Nat) :
    delayed (duty p s a b) d n = duty p (s + d) a b n := by
  rw [Bool.eq_iff_iff, delayed, Bool.and_eq_true, decide_eq_true_iff, duty_iff, duty_iff,
    Nat.sub_sub, Nat.add_comm d s]
  constructor
  · rintro ⟨hd, hs, ha, hb⟩
    exact ⟨by omega, ha, hb⟩
  · rintro ⟨hs, ha, hb⟩
    exact ⟨by omega, by omega, ha, hb⟩

variable (hDH : D.toNat < H.toNat) (hsum : H.toNat + D.toNat < P.toNat) (hP : 4 ≤ P.toNat)

include hP in
theorem delayed_highGate (d : Nat) :
    delayed (highGate P H D) d = duty P.toNat (1 + d) D.toNat H.toNat := by
  have hgate : highGate P H D = duty P.toNat 1 D.toNat H.toNat := funext (pwmHigh_eq hP)
  funext n
  rw [hgate, delayed_duty]

include hsum hP in
theorem delayed_lowGate (d : Nat) :
    delayed (lowGate P H D) d = duty P.toNat (1 + d) (H.toNat + D.toNat) P.toNat := by
  have hgate : lowGate P H D = duty P.toNat 1 (H.toNat + D.toNat) P.toNat :=
    funext (pwmLow_eq hP hsum)
  funext n
  rw [hgate, delayed_duty]

theorem riseAt_highGate (hP : 4 ≤ P.toNat) :
    riseAt (highGate P H D) = rise (duty P.toNat 3 D.toNat H.toNat) := by
  rw [riseAt, delayed_highGate hP]

theorem fallAt_highGate (hP : 4 ≤ P.toNat) :
    fallAt (highGate P H D) = fall (duty P.toNat 3 D.toNat H.toNat) := by
  rw [fallAt, delayed_highGate hP]

theorem riseAt_lowGate (hsum : H.toNat + D.toNat < P.toNat) (hP : 4 ≤ P.toNat) :
    riseAt (lowGate P H D) = rise (duty P.toNat 3 (H.toNat + D.toNat) P.toNat) := by
  rw [riseAt, delayed_lowGate hsum hP]

theorem fallAt_lowGate (hsum : H.toNat + D.toNat < P.toNat) (hP : 4 ≤ P.toNat) :
    fallAt (lowGate P H D) = fall (duty P.toNat 3 (H.toNat + D.toNat) P.toNat) := by
  rw [fallAt, delayed_lowGate hsum hP]

section Spans

variable {n : Nat}

include hDH hsum hP

theorem period_span (h : (captured (highGate P H D) n).periodValid = true) :
    (captured (highGate P H D) n).periodTicks.toNat = P.toNat := by
  have hlt := P.isLt
  obtain ⟨m, r, rfl, hm, hr⟩ := latest_of_periodValid h
  rw [periodTicks_of_latest hm hr]
  have hrise := hm.holds
  rw [riseAt_highGate hP] at hrise hr
  have hgap := rise_rise_gap (by omega) hDH (by omega) (by omega) hrise hr
  have hfits : m - r < 2 ^ 32 := by omega
  rw [(saturate_toNat_iff (Nat.le_of_lt hr.lt)).mpr hfits]
  omega

theorem high_span (h : (captured (highGate P H D) n).highValid = true) :
    (captured (highGate P H D) n).highTicks.toNat = H.toNat - D.toNat := by
  have hlt := P.isLt
  obtain ⟨m, r, rfl, hm, hr⟩ := latest_of_highValid h
  rw [highTicks_of_latest hm hr]
  have hfall := hm.holds
  rw [fallAt_highGate hP] at hfall
  rw [riseAt_highGate hP] at hr
  have hgap := rise_fall_gap (by omega) hDH (by omega) (by omega) (by omega) hfall hr
  have hfits : m - r < 2 ^ 32 := by omega
  rw [(saturate_toNat_iff (Nat.le_of_lt hr.lt)).mpr hfits]
  omega

theorem low_span (h : (captured (highGate P H D) n).lowValid = true) :
    (captured (highGate P H D) n).lowTicks.toNat = P.toNat - (H.toNat - D.toNat) := by
  have hlt := P.isLt
  obtain ⟨m, f, rfl, hm, hf⟩ := latest_of_lowValid h
  rw [lowTicks_of_latest hm hf]
  have hrise := hm.holds
  rw [riseAt_highGate hP] at hrise
  rw [fallAt_highGate hP] at hf
  have hgap := fall_rise_gap (by omega) hDH (by omega) (by omega) (by omega) hrise hf
  have hfits : m - f < 2 ^ 32 := by omega
  rw [(saturate_toNat_iff (Nat.le_of_lt hf.lt)).mpr hfits]
  omega

end Spans

section Deadtimes

variable {minDeadtimeTicks : Nat → BitVec 32} {clearFaults : Nat → Bool}

def looped (P H D : BitVec 32) (minDeadtimeTicks : Nat → BitVec 32)
    (clearFaults : Nat → Bool) (n : Nat) : Monitor :=
  watched (highGate P H D) (lowGate P H D) minDeadtimeTicks clearFaults n

def loopInput (P H D : BitVec 32) (minDeadtimeTicks : Nat → BitVec 32)
    (clearFaults : Nat → Bool) (n : Nat) : MonitorInput :=
  ⟨highGate P H D n, lowGate P H D n, BitVec.ofNat 64 n, minDeadtimeTicks n, clearFaults n⟩

theorem looped_succ (n : Nat) :
    looped P H D minDeadtimeTicks clearFaults (n + 1) =
      (looped P H D minDeadtimeTicks clearFaults n).step
        (loopInput P H D minDeadtimeTicks clearFaults n) := rfl

include hDH hsum hP

variable (minDeadtimeTicks clearFaults) in
theorem highToLow_gap (n : Nat) :
    ∀ x ∈ highToLow (looped P H D minDeadtimeTicks clearFaults n)
        (loopInput P H D minDeadtimeTicks clearFaults n),
      x.1.toNat = D.toNat ∧ x.2 = decide (D.toNat < (minDeadtimeTicks n).toNat) := by
  obtain ⟨-, hlowRise, hhighFall, -⟩ := watched_edges (highGate P H D) (lowGate P H D)
    minDeadtimeTicks clearFaults n
  have hfalls := (watched_falls (highGate P H D) (lowGate P H D) minDeadtimeTicks clearFaults n).1
  rw [fallAt_highGate hP] at hfalls
  rw [highToLow, looped, hlowRise, hhighFall, riseAt_lowGate hsum hP, fallAt_highGate hP]
  refine sample_of_duty (by omega) hDH (by omega) (by omega) D.isLt (by omega) (fun hrise => ?_)
    hfalls
  have hphase := (rise_duty_iff (by omega) hsum (by omega)).mp hrise
  rw [hphase.2, Nat.mod_eq_of_lt hsum]

variable (minDeadtimeTicks clearFaults) in
theorem lowToHigh_gap (n : Nat) :
    ∀ x ∈ lowToHigh (looped P H D minDeadtimeTicks clearFaults n)
        (loopInput P H D minDeadtimeTicks clearFaults n),
      x.1.toNat = D.toNat ∧ x.2 = decide (D.toNat < (minDeadtimeTicks n).toNat) := by
  obtain ⟨hhighRise, -, -, hlowFall⟩ := watched_edges (highGate P H D) (lowGate P H D)
    minDeadtimeTicks clearFaults n
  have hfalls := (watched_falls (highGate P H D) (lowGate P H D) minDeadtimeTicks clearFaults n).2
  rw [fallAt_lowGate hsum hP] at hfalls
  rw [lowToHigh, looped, hhighRise, hlowFall, riseAt_highGate hP, fallAt_lowGate hsum hP]
  refine sample_of_duty (by omega) hsum (Nat.le_refl _) (by omega) D.isLt (by omega)
    (fun hrise => ?_) hfalls
  have hphase := (rise_duty_iff (by omega) hDH (by omega)).mp hrise
  rw [hphase.2, Nat.add_mod_left, Nat.mod_eq_of_lt (by omega)]

theorem highToLow_ticks (n : Nat)
    (h : (looped P H D minDeadtimeTicks clearFaults n).deadtimeHighToLowValid = true) :
    (looped P H D minDeadtimeTicks clearFaults n).deadtimeHighToLowTicks = D := by
  cases n with
  | zero => cases h
  | succ n =>
      obtain ⟨hvalid, -, hticks, -⟩ := monitor_step_samples
        (looped P H D minDeadtimeTicks clearFaults n)
        (loopInput P H D minDeadtimeTicks clearFaults n)
      rw [looped_succ, hvalid] at h
      exact ticks_of_sample hticks (highToLow_gap hDH hsum hP _ _ n) h

theorem lowToHigh_ticks (n : Nat)
    (h : (looped P H D minDeadtimeTicks clearFaults n).deadtimeLowToHighValid = true) :
    (looped P H D minDeadtimeTicks clearFaults n).deadtimeLowToHighTicks = D := by
  cases n with
  | zero => cases h
  | succ n =>
      obtain ⟨-, hvalid, -, hticks, -⟩ := monitor_step_samples
        (looped P H D minDeadtimeTicks clearFaults n)
        (loopInput P H D minDeadtimeTicks clearFaults n)
      rw [looped_succ, hvalid] at h
      exact ticks_of_sample hticks (lowToHigh_gap hDH hsum hP _ _ n) h

def sampled (P H D : BitVec 32) (minDeadtimeTicks : Nat → BitVec 32)
    (clearFaults : Nat → Bool) (n : Nat) : Bool :=
  (looped P H D minDeadtimeTicks clearFaults (n + 1)).deadtimeHighToLowValid ||
    (looped P H D minDeadtimeTicks clearFaults (n + 1)).deadtimeLowToHighValid

theorem violation_succ (n : Nat) :
    (looped P H D minDeadtimeTicks clearFaults (n + 1)).deadtimeViolationLatched =
      ((sampled P H D minDeadtimeTicks clearFaults n && decide (D < minDeadtimeTicks n)) ||
        (looped P H D minDeadtimeTicks clearFaults n).deadtimeViolationLatched &&
          !clearFaults n) := by
  have hhl := highToLow_gap hDH hsum hP minDeadtimeTicks clearFaults n
  have hlh := lowToHigh_gap hDH hsum hP minDeadtimeTicks clearFaults n
  obtain ⟨hhlValid, hlhValid, -, -, hviolation⟩ := monitor_step_samples
    (looped P H D minDeadtimeTicks clearFaults n) (loopInput P H D minDeadtimeTicks clearFaults n)
  rw [sampled, looped_succ, hhlValid, hlhValid, hviolation]
  rw [short_of_sample hhl, short_of_sample hlh, Bool.and_or_distrib_right]
  rfl

/-- The dead time is sampled in some clock since the last clear with a stricter minimum. -/
theorem violation_iff (n : Nat) :
    (looped P H D minDeadtimeTicks clearFaults n).deadtimeViolationLatched = true ↔
      ∃ m, m < n ∧ sampled P H D minDeadtimeTicks clearFaults m = true ∧
        D < minDeadtimeTicks m ∧ ∀ k, m < k → k < n → clearFaults k = false := by
  rw [sticky_iff (fun k => (looped P H D minDeadtimeTicks clearFaults k).deadtimeViolationLatched)
    rfl (violation_succ hDH hsum hP)]
  simp only [Bool.and_eq_true, decide_eq_true_eq, and_assoc]

omit hDH in
theorem no_shoot_through (n : Nat) :
    (looped P H D minDeadtimeTicks clearFaults n).shootThroughLatched = false := by
  induction n with
  | zero => rfl
  | succ n ih =>
      have hshoot := watched_shoot (highGate P H D) (lowGate P H D) minDeadtimeTicks
        clearFaults n
      rw [looped] at ih ⊢
      rw [hshoot, ih, Bool.false_and, Bool.or_false, delayed_highGate hP, delayed_lowGate hsum hP,
        Bool.and_eq_false_iff]
      by_cases hhigh : duty P.toNat (1 + 2) D.toNat H.toNat n = true
      · refine .inr (Bool.eq_false_iff.mpr (fun hlow => ?_))
        have hh := duty_iff.mp hhigh
        have hl := duty_iff.mp hlow
        omega
      · exact .inl (Bool.eq_false_iff.mpr hhigh)

end Deadtimes

/-- What the capture and the monitor report of a steady generator. -/
structure Measured (P H D : BitVec 32) (minDeadtimeTicks : Nat → BitVec 32)
    (clearFaults : Nat → Bool) (c : Nat → Capture) (w : Nat → Monitor) : Prop where
  period : ∀ n, (c n).periodValid = true → (c n).periodTicks.toNat = P.toNat
  high : ∀ n, (c n).highValid = true → (c n).highTicks.toNat = H.toNat - D.toNat
  low : ∀ n, (c n).lowValid = true →
    (c n).lowTicks.toNat = P.toNat - (H.toNat - D.toNat)
  highToLow : ∀ n, (w n).deadtimeHighToLowValid = true → (w n).deadtimeHighToLowTicks = D
  lowToHigh : ∀ n, (w n).deadtimeLowToHighValid = true → (w n).deadtimeLowToHighTicks = D
  shootThrough : ∀ n, (w n).shootThroughLatched = false
  violation : ∀ n, (w n).deadtimeViolationLatched = true ↔
    ∃ m, m < n ∧
      ((w (m + 1)).deadtimeHighToLowValid || (w (m + 1)).deadtimeLowToHighValid) = true ∧
      D < minDeadtimeTicks m ∧ ∀ k, m < k → k < n → clearFaults k = false
  violation_steady : ∀ M, (∀ k, minDeadtimeTicks k = M) → (∀ k, clearFaults k = false) →
    ∀ m n, m ≤ n → ((w m).deadtimeHighToLowValid || (w m).deadtimeLowToHighValid) = true →
      ((w n).deadtimeViolationLatched = true ↔ D < M)

include hDH hsum hP in
theorem violation_steady {M : BitVec 32} {minDeadtimeTicks : Nat → BitVec 32}
    {clearFaults : Nat → Bool} (hM : ∀ k, minDeadtimeTicks k = M)
    (hclear : ∀ k, clearFaults k = false) {m n : Nat} (hmn : m ≤ n)
    (hvalid : ((looped P H D minDeadtimeTicks clearFaults m).deadtimeHighToLowValid ||
      (looped P H D minDeadtimeTicks clearFaults m).deadtimeLowToHighValid) = true) :
    (looped P H D minDeadtimeTicks clearFaults n).deadtimeViolationLatched = true ↔ D < M := by
  rw [violation_iff hDH hsum hP]
  constructor
  · rintro ⟨k, -, -, hshort, -⟩
    rwa [hM] at hshort
  · intro hshort
    cases m with
    | zero => cases hvalid
    | succ m => exact ⟨m, hmn, hvalid, by rwa [hM], fun k _ _ => hclear k⟩

/-- The gates are never on together; and what is looped back is measured exactly. -/
theorem loopback_measured :
    (∀ x n, ¬ ((generated x n).pwmHigh = true ∧ (generated x n).pwmLow = true)) ∧
      ∀ P H D : BitVec 32, D.toNat < H.toNat → H.toNat + D.toNat < P.toNat → 4 ≤ P.toNat →
        ∀ minDeadtimeTicks clearFaults,
          Measured P H D minDeadtimeTicks clearFaults (captured (highGate P H D))
            (watched (highGate P H D) (lowGate P H D) minDeadtimeTicks clearFaults) := by
  refine ⟨generated_exclusive, fun P H D hDH hsum hP minDeadtimeTicks clearFaults => ?_⟩
  exact {
    period := fun _ => period_span hDH hsum hP
    high := fun _ => high_span hDH hsum hP
    low := fun _ => low_span hDH hsum hP
    highToLow := highToLow_ticks hDH hsum hP
    lowToHigh := lowToHigh_ticks hDH hsum hP
    shootThrough := no_shoot_through hsum hP
    violation := violation_iff hDH hsum hP
    violation_steady := fun _ hM hclear _ _ hmn hvalid =>
      violation_steady hDH hsum hP hM hclear hmn hvalid }

/-- At the bench's setting each of the measurements is reported by clock 109. -/
theorem loopback_measured_bench :
    (captured (highGate 100 50 5) 54).highValid = true ∧
      (looped 100 50 5 (fun _ => 6) (fun _ => false) 59).deadtimeHighToLowValid = true ∧
      (captured (highGate 100 50 5) 109).periodValid = true ∧
      (captured (highGate 100 50 5) 109).lowValid = true ∧
      (looped 100 50 5 (fun _ => 6) (fun _ => false) 109).deadtimeLowToHighValid = true ∧
      Measured 100 50 5 (fun _ => 6) (fun _ => false) (captured (highGate 100 50 5))
        (watched (highGate 100 50 5) (lowGate 100 50 5) (fun _ => 6) (fun _ => false)) :=
  ⟨by decide +kernel, by decide +kernel, by decide +kernel, by decide +kernel,
    by decide +kernel, loopback_measured.2 100 50 5 (by decide) (by decide) (by decide) _ _⟩

end Loopback

end HilLab.Rtl.PwmLoopback
