import HilLab.Host.Uio
import HilLab.Rtl.CaptureEdges
import HilLab.Rtl.HilDigitalCore
import Mathlib.Data.Nat.Bitwise

namespace HilLab.Host.ReadPwm

open Host.Core Uio Lib.Clocked Lib.Edges Lib.Effect Rtl.AxiMaster Rtl.CaptureEdges
open Rtl.ControlPlane Rtl.DigitalCore Rtl.HilDigitalCore

section Fabric

/-- The PWM inputs of the control plane, driven by captures of the pins; the
others are arbitrary. -/
def fabric (pins : Nat → Fin 3 → Bool) (rest : Nat → PlantInput) (n : Nat) : PlantInput :=
  { rest n with
    pwmPeriodTicks := perPhase (fun k => (captured (pins · k) n).periodTicks)
    pwmHighTicks := perPhase (fun k => (captured (pins · k) n).highTicks)
    pwmLowTicks := perPhase (fun k => (captured (pins · k) n).lowTicks)
    pwmMeasurementValid := flags (fun k => (captured (pins · k) n).periodValid) }

variable {F W : Nat} (p : Params F) (mem : Nat → Rtl.EventFifo.Event W 16) (x : Nat → CoreInput)

def corePins (n : Nat) (k : Fin 3) : Bool := (x n).pwmHighIn.getLsbD k

theorem core_captures (n : Nat) (k : Fin 3) :
    (wave (Core.step p) (.reset mem) x n).capture k = captured (corePins x · k) n ∧
      (wave (Core.step p) (.reset mem) x n).timestamp = BitVec.ofNat 64 n := by
  induction n with
  | zero => exact ⟨rfl, rfl⟩
  | succ n ih =>
      obtain ⟨hcapture, htimestamp⟩ := ih
      constructor
      · rw [captured_succ, ← hcapture, ← htimestamp]
        rfl
      · change (wave (Core.step p) (.reset mem) x n).timestamp + 1 = _
        rw [htimestamp, BitVec.ofNat_add]
        rfl

theorem core_fabric (n : Nat) :
    (wave (Core.step p) (.reset mem) x n).plantInput (x n) =
      fabric (corePins x)
        (fun k => (wave (Core.step p) (.reset mem) x k).plantInput (x k)) n := by
  have hcapture := fun k => (core_captures p mem x n k).1
  rw [fabric, Core.plantInput]
  simp only [hcapture]

end Fabric

section Read

variable {D W I : Nat} (p : Identity) (env : Env)

/-- The clocks in which the registers of a call are sampled. -/
structure ReadClocks where
  valid : Nat
  period : Nat
  high : Nat
  low : Nat

def pwmAddr (k : Fin 3) (field : Nat) : BitVec 12 :=
  BitVec.ofNat 12 (Reg.pwmBase + k * Reg.pwmStride + field)

theorem pwmAddr_offset (k : Fin 3) {field : Nat} (h : field ≤ 0x8) (ha : field &&& 3 = 0) :
    Reg.pwmBase + k * Reg.pwmStride + field + 4 ≤ Reg.mapSize ∧
      (Reg.pwmBase + k * Reg.pwmStride + field) &&& 3 = 0 := by
  have hk := k.isLt
  have hmod (n : Nat) : n &&& 3 = n % 4 := Nat.and_two_pow_sub_one_eq_mod n 2
  rw [hmod] at ha ⊢
  rw [Reg.pwmBase, Reg.pwmStride, Reg.mapSize]
  omega

variable (k : Fin 3)

section Registers

variable {p} (c : Plane D W I) (i : PlantInput)

theorem readData_period :
    c.readData p i (pwmAddr k 0x0) = i.pwmPeriodTicks.extractLsb' (32 * k) 32 := by
  match k with
  | 0 | 1 | 2 => rfl

theorem readData_high :
    c.readData p i (pwmAddr k 0x4) = i.pwmHighTicks.extractLsb' (32 * k) 32 := by
  match k with
  | 0 | 1 | 2 => rfl

theorem readData_low :
    c.readData p i (pwmAddr k 0x8) = i.pwmLowTicks.extractLsb' (32 * k) 32 := by
  match k with
  | 0 | 1 | 2 => rfl

theorem readData_valid :
    c.readData p i regPwmValid = i.pwmMeasurementValid.setWidth 32 := rfl

end Registers

variable (s : Bus D W I)

def validRead : Bus D W I := (s.read32 p env regPwmValid).2
def sequenceRead : Bus D W I := ((validRead p env s).read32 p env regPwmSeq).2
def periodRead : Bus D W I := ((sequenceRead p env s).read32 p env (pwmAddr k 0x0)).2
def highRead : Bus D W I := ((periodRead p env k s).read32 p env (pwmAddr k 0x4)).2
def lowRead : Bus D W I := ((highRead p env k s).read32 p env (pwmAddr k 0x8)).2

def readClocks : ReadClocks :=
  { valid := (s.sampled p env regPwmValid).cycle
    period := ((sequenceRead p env s).sampled p env (pwmAddr k 0x0)).cycle
    high := ((periodRead p env k s).sampled p env (pwmAddr k 0x4)).cycle
    low := ((highRead p env k s).sampled p env (pwmAddr k 0x8)).cycle }

theorem wave_cycle (y : Nat → AxiInput) (n : Nat) :
    (wave (Bus.tick p env) s y n).cycle = s.cycle + n := by
  induction n with
  | zero => rfl
  | succ n ih =>
      rw [wave_succ, Bus.tick, ih]
      rfl

theorem sampled_cycle (addr : BitVec 12) :
    (s.sampled p env addr).cycle = s.cycle + (env.read s.cycle).ar :=
  wave_cycle p env s _ _

theorem read32_cycle (addr : BitVec 12) :
    (s.read32 p env addr).2.cycle =
      s.cycle + ((env.read s.cycle).ar + 2 + (env.read s.cycle).r) :=
  wave_cycle p env s _ _

theorem sampled_before_read (addr : BitVec 12) :
    s.cycle ≤ (s.sampled p env addr).cycle ∧
      (s.sampled p env addr).cycle < (s.read32 p env addr).2.cycle := by
  rw [sampled_cycle, read32_cycle]
  omega

theorem readClocks_ordered :
    (readClocks p env k s).valid < (readClocks p env k s).period ∧
      (readClocks p env k s).period < (readClocks p env k s).high ∧
      (readClocks p env k s).high < (readClocks p env k s).low := by
  have hvalid := (sampled_before_read p env s regPwmValid).2
  have hsequence := sampled_before_read p env (validRead p env s) regPwmSeq
  have hperiod := sampled_before_read p env (sequenceRead p env s) (pwmAddr k 0x0)
  have hhigh := sampled_before_read p env (periodRead p env k s) (pwmAddr k 0x4)
  have hlow := sampled_before_read p env (highRead p env k s) (pwmAddr k 0x8)
  exact ⟨Nat.lt_trans (Nat.lt_of_lt_of_le hvalid hsequence.1)
      (Nat.lt_of_lt_of_le hsequence.2 hperiod.1),
    Nat.lt_of_lt_of_le hperiod.2 hhigh.1, Nat.lt_of_lt_of_le hhigh.2 hlow.1⟩

def measured (t : ReadClocks) : PwmMeasurement :=
  { channel := k
    sequence := ((validRead p env s).read32 p env regPwmSeq).1.toNat
    periodTicks := ((env.plant t.period).pwmPeriodTicks.extractLsb' (32 * k) 32).toNat
    highTicks := ((env.plant t.high).pwmHighTicks.extractLsb' (32 * k) 32).toNat
    lowTicks := ((env.plant t.low).pwmLowTicks.extractLsb' (32 * k) 32).toNat
    valid := (env.plant t.valid).pwmMeasurementValid.getLsbD k
    overflow := false }

theorem valid_bit (v : BitVec 3) :
    decide ((v.setWidth 32).toNat &&& (1 <<< k.val) ≠ 0) = v.getLsbD k := by
  have hk : k.val < 32 := Nat.lt_trans k.isLt (by decide)
  have hbit : (v.setWidth 32).toNat.testBit k = v.getLsbD k := by
    rw [BitVec.testBit_toNat, BitVec.getLsbD_setWidth, decide_eq_true hk, Bool.true_and]
  have hmask : (v.setWidth 32).toNat &&& (1 <<< k.val) = (v.getLsbD k).toNat * 2 ^ k.val := by
    rw [Nat.one_shiftLeft, Nat.and_two_pow, hbit]
  rw [hmask]
  cases v.getLsbD k with
  | false => simp
  | true => simp

theorem exec_readPwm (m : UioMmio) (h : s.Idle) :
    exec (readPwm p env m k) s =
      (.ok (measured p env k s (readClocks p env k s)), lowRead p env k s) := by
  have hk : 0 ≤ (k.val : Int) ∧ (k.val : Int) < 3 := by omega
  have hvalid := read32_idle p env h regPwmValid
  have hsequence := read32_idle p env hvalid regPwmSeq
  have hperiod := read32_idle p env hsequence (pwmAddr k 0x0)
  have hhigh := read32_idle p env hperiod (pwmAddr k 0x4)
  have hread {addr : BitVec 12} {offset : Nat} (ho : offset + 4 ≤ Reg.mapSize ∧ offset &&& 3 = 0)
      (ha : BitVec.ofNat 12 offset = addr) (t : Bus D W I) :
      exec (m.read32 p env offset) t = (.ok (t.read32 p env addr).1.toNat, (t.read32 p env addr).2) :=
    exec_read32 p env m ho.1 ho.2 ha t
  rw [readPwm, ZynqTransport.readPwm, if_neg (not_not_intro hk), Int.toNat_natCast]
  rw [exec_bind_ok (hread (by decide) rfl _), exec_bind_ok (hread (by decide) rfl _),
    exec_bind_ok (hread (pwmAddr_offset k (by decide) rfl) rfl _),
    exec_bind_ok (hread (pwmAddr_offset k (by decide) rfl) rfl _),
    exec_bind_ok (hread (pwmAddr_offset k (by decide) rfl) rfl _), exec_pure]
  refine Prod.ext (congrArg Except.ok ?_) rfl
  rw [measured, PwmMeasurement.mk.injEq]
  refine ⟨rfl, rfl, ?_, ?_, ?_, ?_, rfl⟩
  · exact congrArg BitVec.toNat ((read32_data hsequence _).trans (readData_period k _ _))
  · exact congrArg BitVec.toNat ((read32_data hperiod _).trans (readData_high k _ _))
  · exact congrArg BitVec.toNat ((read32_data hhigh _).trans (readData_low k _ _))
  · have hbits : (s.read32 p env regPwmValid).1 =
        (env.plant (s.sampled p env regPwmValid).cycle).pwmMeasurementValid.setWidth 32 :=
      (read32_data h _).trans (readData_valid _ _)
    change decide ((s.read32 p env regPwmValid).1.toNat &&& _ ≠ 0) = _
    rw [hbits]
    exact valid_bit k _

end Read

section Faithful

variable (pin : Nat → Bool) (t : ReadClocks)

/-- The channel has completed a measured period by clock n. -/
def Completed (n : Nat) : Prop := ∃ m, m ≤ n ∧ (captured pin m).periodValid = true

/-- The three registers hold the measurements of one cycle, from the rise over
the fall to the next rise. -/
def OneCycle (r : PwmMeasurement) : Prop :=
  ∃ first fallen next, first < fallen ∧ Latest (riseAt pin) first next ∧
    Latest (fallAt pin) fallen next ∧ Latest (riseAt pin) next t.period ∧
    Latest (fallAt pin) fallen t.high ∧ Latest (riseAt pin) next t.low ∧
    r.periodTicks = next - first ∧ r.highTicks = fallen - first ∧ r.lowTicks = next - fallen

/-- What read_pwm promises of a measurement. -/
def Faithful (r : PwmMeasurement) : Prop :=
  (r.valid = true ↔ Completed pin t.valid) ∧
    (r.valid = true → OneCycle pin t r ∧ r.highTicks + r.lowTicks = r.periodTicks)

/-- No edge comes in between: from the rise that ends the measured cycle no
fall until the high time is read, no rise between the reads of the period and
of the low time, and the cycle fits the registers. -/
def Undivided : Prop :=
  ∀ next, Latest (riseAt pin) next t.period →
    (∀ n, next < n → n < t.high → fallAt pin n = false) ∧
    (∀ n, t.period ≤ n → n < t.low → riseAt pin n = false) ∧
    ∀ first, Latest (riseAt pin) first next → next - first < 2 ^ 32

/-- The valid register is read in the clock of the pulse, if a period has been
completed, and then no edge comes in between. -/
def Timely : Prop :=
  ((captured pin t.valid).periodValid = true ∨ ¬ Completed pin t.valid) ∧
    ((captured pin t.valid).periodValid = true → Undivided pin t)

variable {pin t}

structure Reads (pin : Nat → Bool) (t : ReadClocks) (r : PwmMeasurement) : Prop where
  valid : r.valid = (captured pin t.valid).periodValid
  period : r.periodTicks = (captured pin t.period).periodTicks.toNat
  high : r.highTicks = (captured pin t.high).highTicks.toNat
  low : r.lowTicks = (captured pin t.low).lowTicks.toNat

variable {r : PwmMeasurement}

theorem undivided_of_oneCycle (hreads : Reads pin t r) (h : OneCycle pin t r) :
    Undivided pin t := by
  obtain ⟨first, fallen, next, -, hfirst, hfallen, hperiod, hfall, hlow, hticks, -, -⟩ := h
  intro next' hnext'
  rw [hnext'.unique hperiod]
  refine ⟨fun n hn hlt => hfall.quiet n (Nat.lt_trans hfallen.lt hn) hlt, fun n hn hlt => ?_,
    fun first' hfirst' => ?_⟩
  · exact hlow.quiet n (Nat.lt_of_lt_of_le hperiod.lt hn) hlt
  · rw [hfirst'.unique hfirst, ← hticks, hreads.period]
    exact BitVec.isLt _

theorem oneCycle_of_undivided (hreads : Reads pin t r)
    (hvalid : (captured pin t.valid).periodValid = true) (hperiod : t.valid < t.period)
    (hhigh : t.period < t.high) (hlow : t.period < t.low) (h : Undivided pin t) :
    OneCycle pin t r := by
  -- the last rise before the period is read, and the one before it
  obtain ⟨m, e, hm, hmv, hem⟩ := latest_of_periodValid hvalid
  obtain ⟨next, hmn, hnext⟩ := exists_latest (Nat.lt_trans hmv.lt hperiod) hmv.holds
  obtain ⟨first, -, hfirst⟩ := exists_latest (Nat.lt_of_lt_of_le hem.lt hmn) hem.holds
  obtain ⟨hnofall, hnorise, hfits⟩ := h next hnext
  obtain ⟨fallen, hff, hfallen⟩ := exists_fall hfirst.holds hnext.holds hfirst.lt
  have hlen := hfits first hfirst
  have hnextHigh : next < t.high := Nat.lt_trans hnext.lt hhigh
  have hfall : Latest (fallAt pin) fallen t.high := by
    refine hfallen.later (Nat.le_of_lt hnextHigh) (fun n hn hlt => ?_)
    rcases Nat.lt_or_eq_of_le hn with hgt | rfl
    · exact hnofall n hgt hlt
    · exact not_rise_and_fall hnext.holds
  have hrise : Latest (riseAt pin) next t.low := hnext.later (Nat.le_of_lt hlow) hnorise
  have hbefore : Latest (riseAt pin) first fallen :=
    hfirst.earlier hff (Nat.le_of_lt hfallen.lt)
  refine ⟨first, fallen, next, hff, hfirst, hfallen, hnext, hfall, hrise, ?_, ?_, ?_⟩
  · rw [hreads.period, periodTicks_of_latest hnext hfirst]
    exact (saturate_toNat_iff (Nat.le_of_lt hfirst.lt)).mpr hlen
  · have hfn := hfallen.lt
    rw [hreads.high, highTicks_of_latest hfall hbefore]
    exact (saturate_toNat_iff (Nat.le_of_lt hff)).mpr (by omega)
  · have hfn := hfallen.lt
    rw [hreads.low, lowTicks_of_latest hrise hfallen]
    exact (saturate_toNat_iff (Nat.le_of_lt hfn)).mpr (by omega)

theorem OneCycle.sum (h : OneCycle pin t r) : r.highTicks + r.lowTicks = r.periodTicks := by
  obtain ⟨first, fallen, next, hff, -, hfallen, -, -, -, hperiod, hhigh, hlow⟩ := h
  have hfn := hfallen.lt
  omega

theorem faithful_iff (hreads : Reads pin t r) (hperiod : t.valid < t.period)
    (hhigh : t.period < t.high) (hlow : t.high < t.low) : Faithful pin t r ↔ Timely pin t := by
  rw [Faithful, Timely, hreads.valid]
  constructor
  · rintro ⟨hvalid, hcycle⟩
    refine ⟨?_, fun hv => undivided_of_oneCycle hreads (hcycle hv).1⟩
    by_cases hc : Completed pin t.valid
    · exact .inl (hvalid.mpr hc)
    · exact .inr hc
  · rintro ⟨hvalid, hcycle⟩
    refine ⟨⟨fun hv => ⟨t.valid, Nat.le_refl _, hv⟩, fun hc => hvalid.resolve_right (not_not_intro hc)⟩,
      fun hv => ?_⟩
    have hone := oneCycle_of_undivided hreads hv hperiod hhigh (Nat.lt_trans hhigh hlow) (hcycle hv)
    exact ⟨hone, hone.sum⟩

end Faithful

section Calls

variable {D W I : Nat} (p : Identity)

def pwmEnv (pins : Nat → Fin 3 → Bool) (env : Env) : Env :=
  { env with plant := fabric pins env.plant }

variable (pins : Nat → Fin 3 → Bool) (env : Env) (k : Fin 3) (s : Bus D W I)

theorem measured_reads (t : ReadClocks) :
    Reads (pins · k) t (measured p (pwmEnv pins env) k s t) :=
  ⟨getLsbD_flags (fun j => (captured (pins · j) t.valid).periodValid) k,
    congrArg BitVec.toNat (extract_perPhase (fun j => (captured (pins · j) t.period).periodTicks) k),
    congrArg BitVec.toNat (extract_perPhase (fun j => (captured (pins · j) t.high).highTicks) k),
    congrArg BitVec.toNat (extract_perPhase (fun j => (captured (pins · j) t.low).lowTicks) k)⟩

/-- A call keeps its promise exactly when its reads are timely. -/
theorem read_pwm_faithful_iff {s : Bus D W I} (h : Reachable p (pwmEnv pins env) s) (m : UioMmio) :
    ∃ r, (exec (readPwm p (pwmEnv pins env) m k) s).1 = .ok r ∧
      (Faithful (pins · k) (readClocks p (pwmEnv pins env) k s) r ↔
        Timely (pins · k) (readClocks p (pwmEnv pins env) k s)) := by
  obtain ⟨hperiod, hhigh, hlow⟩ := readClocks_ordered p (pwmEnv pins env) k s
  refine ⟨measured p (pwmEnv pins env) k s (readClocks p (pwmEnv pins env) k s), ?_, ?_⟩
  · rw [exec_readPwm p (pwmEnv pins env) k s m h.idle]
  · exact faithful_iff (measured_reads p pins env k s _) hperiod hhigh hlow

/-- All three pins high for two of four clocks. -/
def steadyPins (n : Nat) (_ : Fin 3) : Bool := decide (n % 4 < 2)

def idlePlant : PlantInput :=
  { externalForceSafe := false, timestamp := 0, pwmPeriodTicks := 0, pwmHighTicks := 0,
    pwmLowTicks := 0, pwmMeasurementValid := 0, pwmFaultFlags := 0, encoderPositionEdges := 0,
    dioEventArmed := false, dioEventDonePulse := false }

/-- Transactions without delay, but that the one of clock 0 raises its address in clock n. -/
def firstReadAt (n : Nat) : Env :=
  { plant := fun _ => idlePlant
    write := fun _ => ⟨0, 0, 0⟩
    read := fun cycle => ⟨if cycle = 0 then n else 0, 0⟩ }

def window : UioMmio := ⟨Reg.mapSize, Nat.le_refl _⟩

def anyIdentity : Identity := { backendId := 0, capabilities := 0, tickHz := 0, buildId := 0 }

def freshBus : Bus 64 16 16 := Bus.reset (fun _ => Rtl.EventFifo.Event.zero 16 16)

theorem readClocks_firstReadAt (pins : Nat → Fin 3 → Bool) (n : Nat) (k : Fin 3) :
    readClocks anyIdentity (pwmEnv pins (firstReadAt n)) k freshBus =
      ⟨n, n + 4, n + 6, n + 8⟩ := by
  have hcycle : freshBus.cycle = 0 := rfl
  have hread (m : Nat) : (pwmEnv pins (firstReadAt n)).read m = ⟨if m = 0 then n else 0, 0⟩ := rfl
  rw [readClocks, ReadClocks.mk.injEq]
  simp only [highRead, periodRead, sequenceRead, validRead, sampled_cycle, read32_cycle, hcycle, hread]
  simp

/-- All three pins high for twenty of forty clocks. -/
def slowPins (n : Nat) (_ : Fin 3) : Bool := decide (n % 40 < 20)

theorem slowPins_timely : Timely (slowPins · 0) ⟨43, 47, 49, 51⟩ := by
  have hrise : ∀ n, n < 60 → 42 < n → riseAt (slowPins · 0) n = false := by decide +kernel
  have hfall : ∀ n, n < 60 → 42 < n → fallAt (slowPins · 0) n = false := by decide +kernel
  have hlatest : Latest (riseAt (slowPins · 0)) 42 47 :=
    ⟨by decide, by decide +kernel, fun n hn hlt => hrise n (by omega) hn⟩
  refine ⟨.inl (by decide +kernel), fun _ next hnext => ?_⟩
  dsimp only at hnext ⊢
  obtain rfl := hnext.unique hlatest
  exact ⟨fun n hn hlt => hfall n (by omega) hn, fun n hn hlt => hrise n (by omega) (by omega),
    fun first _ => by omega⟩

/-- Clock 43 is that of a pulse, and the next edge comes after the four reads. -/
theorem read_pwm_faithful_iff_pulse :
    ∃ r, (exec (readPwm anyIdentity (pwmEnv slowPins (firstReadAt 43)) window (0 : Fin 3))
        freshBus).1 = .ok r ∧ r.valid = true ∧
      Faithful (slowPins · 0) (readClocks anyIdentity (pwmEnv slowPins (firstReadAt 43)) 0 freshBus) r := by
  obtain ⟨r, hr, hiff⟩ :=
    read_pwm_faithful_iff anyIdentity slowPins (firstReadAt 43) 0 (s := freshBus) (.reset _) window
  have hclocks := readClocks_firstReadAt slowPins 43 0
  have hfaithful := hiff.mpr (by rw [hclocks]; exact slowPins_timely)
  refine ⟨r, hr, hfaithful.1.mpr ⟨43, ?_, by decide +kernel⟩, hfaithful⟩
  rw [hclocks]

/-- Clock 20 is between two pulses. -/
theorem read_pwm_misses_measurement :
    ∃ r, (exec (readPwm anyIdentity (pwmEnv steadyPins (firstReadAt 20)) window (0 : Fin 3))
        freshBus).1 = .ok r ∧
      ¬ Faithful (steadyPins · 0)
          (readClocks anyIdentity (pwmEnv steadyPins (firstReadAt 20)) 0 freshBus) r := by
  have hidle : freshBus.Idle := ⟨rfl, rfl, rfl, rfl, rfl⟩
  refine ⟨_, congrArg Prod.fst (exec_readPwm _ _ 0 _ window hidle), ?_⟩
  have hclock : (readClocks anyIdentity (pwmEnv steadyPins (firstReadAt 20)) 0 freshBus).valid = 20 :=
    congrArg ReadClocks.valid (readClocks_firstReadAt steadyPins 20 0)
  have hpulse : (captured (steadyPins · 0) 20).periodValid = false := by decide +kernel
  have hcompleted : (captured (steadyPins · 0) 7).periodValid = true := by decide +kernel
  rintro ⟨hvalid, -⟩
  rw [(measured_reads _ _ _ _ _ _).valid, hclock, hpulse] at hvalid
  exact absurd (hvalid.mpr ⟨7, by decide, hcompleted⟩) Bool.false_ne_true

end Calls

end HilLab.Host.ReadPwm
