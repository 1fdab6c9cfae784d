import HilLab.Lib.Deadline
import HilLab.Lib.FirstSeen
import HilLab.Pru.Protocol
import Mathlib.Order.Monotone.Basic

namespace HilLab.Pru.GpioLoopback

open Lib.Clocked Lib.Deadline Lib.FirstSeen Protocol

def errLoopbackNoRise : BitVec 32 := 1 <<< 5
def errLoopbackNoFall : BitVec 32 := 1 <<< 6

def loopbackOutMask : BitVec 32 := 1 <<< 0
def loopbackInMask : BitVec 32 := 1 <<< 1

def maxLoopbackDelayTicks : BitVec 32 := 2000000
def maxLoopbackWidthTicks : BitVec 32 := 2000000
def maxLoopbackTimeoutTicks : BitVec 32 := 4000000
def tickNotSeen : BitVec 32 := 0xffffffff

def tickElapsed (now since : BitVec 32) : BitVec 32 := now - since

/-- The counter wraps, so a target is compared by signed difference. -/
def tickReached (now target : BitVec 32) : Bool := decide (0 ≤ (now - target).toInt)

/-- The place in run_gpio_loopback of the next reading of the counter. -/
inductive Phase
  | request | waitStart | high | fallWait | waitFall | returned
deriving DecidableEq, Repr

/-- The variables of run_gpio_loopback and the output register R30. -/
structure Loopback where
  phase : Phase
  r30 : BitVec 32
  status : BitVec 32
  requestedStart : BitVec 32
  observedRise : BitVec 32
  observedFall : BitVec 32
  fallTarget : BitVec 32
  fallWaitStart : BitVec 32
deriving DecidableEq, Repr

structure Args where
  delayTicks : BitVec 32
  widthTicks : BitVec 32
  timeoutTicks : BitVec 32

def Args.Refused (x : Args) : Prop :=
  maxLoopbackDelayTicks < x.delayTicks ∨ x.widthTicks = 0 ∨ maxLoopbackWidthTicks < x.widthTicks ∨
    x.timeoutTicks = 0 ∨ maxLoopbackTimeoutTicks < x.timeoutTicks

instance (x : Args) : Decidable x.Refused := inferInstanceAs (Decidable (_ ∨ _))

/-- A reading of the counter, and R31 as it is when the input is sampled after it. -/
structure Reading where
  now : BitVec 32
  r31 : BitVec 32

def inputHigh (r31 : BitVec 32) : Prop := r31 &&& loopbackInMask ≠ 0

instance (r31 : BitVec 32) : Decidable (inputHigh r31) := inferInstanceAs (Decidable (_ ≠ _))

namespace Loopback

def forceSafe (s : Loopback) : Loopback := { s with r30 := s.r30 &&& ~~~loopbackOutMask }

def output (s : Loopback) : Bool := s.r30 &&& loopbackOutMask != 0

def finish (s : Loopback) : Loopback :=
  let noRise := if s.observedRise = tickNotSeen then errLoopbackNoRise else 0
  let noFall := if s.observedFall = tickNotSeen then errLoopbackNoFall else 0
  { s.forceSafe with
    status := s.status ||| noRise ||| noFall
    phase := .returned }

def start (x : Args) (r30 : BitVec 32) : Loopback :=
  let s : Loopback :=
    { phase := .request, r30, status := statusOk, requestedStart := 0, observedRise := tickNotSeen
      observedFall := tickNotSeen, fallTarget := 0, fallWaitStart := 0 }
  if x.Refused then { s.forceSafe with status := errInvalidArgument, phase := .returned }
  else s.forceSafe

def poll (x : Args) (s : Loopback) (i : Reading) : Loopback :=
  match s.phase with
  | .request => { s with requestedStart := i.now + x.delayTicks, phase := .waitStart }
  | .waitStart =>
      if tickReached i.now s.requestedStart then
        { s with
          r30 := s.r30 ||| loopbackOutMask
          fallTarget := s.requestedStart + x.widthTicks
          phase := .high }
      else s
  | .high =>
      let seen := s.observedRise = tickNotSeen ∧ inputHigh i.r31
      let s := { s with observedRise := if seen then i.now else s.observedRise }
      if tickReached i.now s.fallTarget then { s.forceSafe with phase := .fallWait } else s
  | .fallWait => { s with fallWaitStart := i.now, phase := .waitFall }
  | .waitFall =>
      if ¬inputHigh i.r31 then finish { s with observedFall := i.now }
      else if tickElapsed i.now s.fallWaitStart ≤ x.timeoutTicks then s
      else s.finish
  | .returned => s

end Loopback

open Loopback

def tick (T : Nat → Nat) (n : Nat) : BitVec 32 := BitVec.ofNat 32 (T n)

def run (x : Args) (T : Nat → Nat) (r31 : Nat → BitVec 32) (r30 : BitVec 32) : Nat → Loopback :=
  wave (poll x) (start x r30) (fun n => ⟨tick T n, r31 n⟩)

section Time

variable {T : Nat → Nat} {m n : Nat}

/-- Every reading is later than the one before, by less than 2^20 ticks. -/
def Steady (T : Nat → Nat) : Prop := ∀ n, T n < T (n + 1) ∧ T (n + 1) < T n + 0x100000

theorem Steady.le (h : Steady T) (hmn : m ≤ n) : T m ≤ T n :=
  (strictMono_nat_of_lt_succ (fun n => (h n).1)).monotone hmn

theorem Steady.add_le (h : Steady T) (n : Nat) : T 0 + n ≤ T n := by
  induction n with
  | zero => exact Nat.le_refl _
  | succ n ih =>
      have hstep := (h n).1
      omega

theorem Steady.exists_passing (h : Steady T) (m t : Nat) :
    ∃ n, FirstAt (fun n => m < n ∧ t ≤ T n) n := by
  have hlate := h.add_le (m + 1 + t)
  exact exists_firstAt (n := m + 1 + t) ⟨by omega, by omega⟩

theorem Steady.passing_lt (h : Steady T) {t B : Nat} (hn : FirstAt (fun n => m < n ∧ t ≤ T n) n)
    (hm : T m < t + B) : T n < t + (B + 0x100000) := by
  obtain ⟨k, rfl⟩ : ∃ k, n = k + 1 := Nat.exists_eq_succ_of_ne_zero (Nat.ne_zero_of_lt hn.holds.1)
  have hstep := (h k).2
  have hbefore : T k < t + B := by
    rcases Nat.lt_or_ge m k with hlt | hge
    · have hnot := hn.none k (Nat.lt_succ_self k)
      omega
    · rw [Nat.le_antisymm hge (Nat.le_of_lt_succ hn.holds.1)]
      exact hm
  rw [← Nat.add_assoc]
  exact Nat.lt_trans hstep (Nat.add_lt_add_right hbefore 0x100000)

theorem tickReached_iff {d : Nat} (hlate : T n < d + 0x80000000) (hearly : d ≤ T n + 0x80000000) :
    tickReached (tick T n) (BitVec.ofNat 32 d) = true ↔ d ≤ T n := by
  rw [tickReached, decide_eq_true_iff]
  exact due_iff (v := 31) hlate hearly

theorem tickElapsed_le_iff (h : T m ≤ T n) (hlt : T n < T m + 0x100000000) (limit : BitVec 32) :
    tickElapsed (tick T n) (tick T m) ≤ limit ↔ T n ≤ T m + limit.toNat := by
  have helapsed : (tick T n - tick T m).toNat = T n - T m := elapsed (w := 32) h hlt
  rw [tickElapsed, BitVec.le_def, helapsed]
  omega

end Time

section Steps

variable (x : Args) (r30 : BitVec 32)

def waiting (target : BitVec 32) : Loopback :=
  { start x r30 with requestedStart := target, phase := .waitStart }

def pulsing (target rise : BitVec 32) : Loopback :=
  { waiting x r30 target with
    r30 := (start x r30).r30 ||| loopbackOutMask
    fallTarget := target + x.widthTicks
    observedRise := rise
    phase := .high }

def lowered (target rise : BitVec 32) : Loopback :=
  { (pulsing x r30 target rise).forceSafe with phase := .fallWait }

def falling (target rise since : BitVec 32) : Loopback :=
  { lowered x r30 target rise with fallWaitStart := since, phase := .waitFall }

def ended (target rise since fall : BitVec 32) : Loopback :=
  finish { falling x r30 target rise since with observedFall := fall }

variable {x r30} {target rise since fall : BitVec 32} {i : Reading}

theorem start_of_refused (h : x.Refused) : (start x r30).phase = .returned := by
  rw [start, if_pos h]

theorem start_of_accepted (h : ¬x.Refused) : (start x r30).phase = .request := by
  rw [start, if_neg h]
  rfl

variable (x r30) in
theorem start_observedRise : (start x r30).observedRise = tickNotSeen := by
  rw [start]
  split <;> rfl

variable (x r30) in
theorem start_observedFall : (start x r30).observedFall = tickNotSeen := by
  rw [start]
  split <;> rfl

theorem poll_start (h : ¬x.Refused) :
    poll x (start x r30) i = waiting x r30 (i.now + x.delayTicks) := by
  rw [poll, start_of_accepted h]
  rfl

theorem poll_waiting :
    poll x (waiting x r30 target) i =
      if tickReached i.now target then pulsing x r30 target tickNotSeen
      else waiting x r30 target := by
  rw [← start_observedRise x r30]
  rfl

theorem poll_pulsing :
    poll x (pulsing x r30 target rise) i =
      let rise' := if rise = tickNotSeen ∧ inputHigh i.r31 then i.now else rise
      if tickReached i.now (target + x.widthTicks) then lowered x r30 target rise'
      else pulsing x r30 target rise' := rfl

theorem poll_lowered :
    poll x (lowered x r30 target rise) i = falling x r30 target rise i.now := rfl

theorem poll_falling :
    poll x (falling x r30 target rise since) i =
      if ¬inputHigh i.r31 then ended x r30 target rise since i.now
      else if tickElapsed i.now since ≤ x.timeoutTicks then falling x r30 target rise since
      else ended x r30 target rise since tickNotSeen := by
  rw [← start_observedFall x r30]
  rfl

theorem poll_returned {s : Loopback} (h : s.phase = .returned) : poll x s i = s := by
  rw [poll, h]

@[simp]
theorem output_forceSafe (s : Loopback) : s.forceSafe.output = false := by
  simp [output, forceSafe, BitVec.and_assoc]

@[simp]
theorem output_start : (start x r30).output = false := by
  rw [start]
  split
  · exact output_forceSafe _
  · exact output_forceSafe _

@[simp]
theorem output_waiting : (waiting x r30 target).output = false := output_start

@[simp]
theorem output_pulsing : (pulsing x r30 target rise).output = true := by
  have hmask : ((start x r30).r30 ||| loopbackOutMask) &&& loopbackOutMask = loopbackOutMask := by
    ext i
    simpa using Or.inr
  rw [output, pulsing, hmask]
  rfl

@[simp]
theorem output_lowered : (lowered x r30 target rise).output = false := output_forceSafe _

@[simp]
theorem output_falling : (falling x r30 target rise since).output = false := output_lowered

@[simp]
theorem output_ended : (ended x r30 target rise since fall).output = false := output_forceSafe _

end Steps

section Run

variable {x : Args} {T : Nat → Nat} {r31 : Nat → BitVec 32} {r30 : BitVec 32}

theorem run_succ (n : Nat) :
    run x T r31 r30 (n + 1) = poll x (run x T r31 r30 n) ⟨tick T n, r31 n⟩ := rfl

theorem run_returned {n : Nat} (h : (run x T r31 r30 n).phase = .returned) {m : Nat} (hnm : n ≤ m) :
    run x T r31 r30 m = run x T r31 r30 n := by
  induction m, hnm using Nat.le_induction with
  | base => rfl
  | succ m hnm ih =>
      rw [run_succ, ih]
      exact poll_returned h

def startOf (x : Args) (T : Nat → Nat) : Nat := T 0 + x.delayTicks.toNat

/-- The readings that bound the phases: the first at or after the requested start, the first of
the high phase at or after the requested end, and the first of the wait past its timeout. -/
structure Bounds (x : Args) (T : Nat → Nat) (a b c : Nat) : Prop where
  rise : FirstAt (fun n => 0 < n ∧ startOf x T ≤ T n) a
  fall : FirstAt (fun n => a < n ∧ startOf x T + x.widthTicks.toNat ≤ T n) b
  expiry : FirstAt (fun n => b + 1 < n ∧ T (b + 1) + x.timeoutTicks.toNat < T n) c

theorem exists_bounds (hT : Steady T) (x : Args) : ∃ a b c, Bounds x T a b c := by
  obtain ⟨a, ha⟩ := hT.exists_passing 0 (startOf x T)
  obtain ⟨b, hb⟩ := hT.exists_passing a (startOf x T + x.widthTicks.toNat)
  obtain ⟨c, hc⟩ := hT.exists_passing (b + 1) (T (b + 1) + x.timeoutTicks.toNat + 1)
  exact ⟨a, b, c, ha, hb, hc⟩

section Bounds

variable {a b c : Nat} (h : Bounds x T a b c) (hT : Steady T)

include h

theorem Bounds.lt : a < b := h.fall.holds.1

theorem Bounds.start_le : startOf x T ≤ T a := h.rise.holds.2

theorem Bounds.end_le : startOf x T + x.widthTicks.toNat ≤ T b := h.fall.holds.2

include hT

theorem Bounds.rise_lt : T a < startOf x T + 0x100001 := by
  have hzero : T 0 < startOf x T + 1 := Nat.lt_succ_of_le (Nat.le_add_right _ _)
  exact hT.passing_lt h.rise hzero

theorem Bounds.fall_lt : T b < startOf x T + x.widthTicks.toNat + 0x200001 := by
  have hrise := h.rise_lt hT
  have hstart : T a < startOf x T + x.widthTicks.toNat + 0x100001 := by omega
  exact hT.passing_lt h.fall hstart

omit hT in
theorem Bounds.wait_le {k : Nat} (hk : b + 1 < k) (hkc : k < c) :
    T k ≤ T (b + 1) + x.timeoutTicks.toNat :=
  Nat.le_of_not_lt (fun hlt => h.expiry.none k hkc ⟨hk, hlt⟩)

theorem Bounds.expiry_lt : T c < T (b + 1) + x.timeoutTicks.toNat + 1 + 0x100001 := by
  have hnext : FirstAt (fun n => b + 1 < n ∧ T (b + 1) + x.timeoutTicks.toNat + 1 ≤ T n) c :=
    h.expiry
  have hstart : T (b + 1) < T (b + 1) + x.timeoutTicks.toNat + 1 + 1 := by omega
  exact hT.passing_lt hnext hstart

end Bounds

theorem Bounds.unique {a b c a' b' c' : Nat} (h : Bounds x T a b c) (h' : Bounds x T a' b' c') :
    a = a' ∧ b = b' ∧ c = c' := by
  obtain rfl := h.rise.unique h'.rise
  obtain rfl := h.fall.unique h'.fall
  exact ⟨rfl, rfl, h.expiry.unique h'.expiry⟩

theorem accepted_bounds (hx : ¬x.Refused) :
    x.delayTicks.toNat ≤ 2000000 ∧ 0 < x.widthTicks.toNat ∧ x.widthTicks.toNat ≤ 2000000 ∧
      x.timeoutTicks.toNat ≤ 4000000 := by
  rw [Args.Refused, not_or, not_or, not_or, not_or] at hx
  obtain ⟨hdelay, hzero, hwidth, -, htimeout⟩ := hx
  rw [BitVec.lt_def, Nat.not_lt] at hdelay hwidth htimeout
  refine ⟨hdelay, Nat.pos_of_ne_zero (fun h => hzero ?_), hwidth, htimeout⟩
  exact BitVec.eq_of_toNat_eq h

theorem ofNat_add_toNat (n : Nat) (d : BitVec 32) :
    BitVec.ofNat 32 n + d = BitVec.ofNat 32 (n + d.toNat) := by
  rw [BitVec.ofNat_add, BitVec.ofNat_toNat, BitVec.setWidth_eq]

def HighAfter (r31 : Nat → BitVec 32) (a k : Nat) : Prop := a < k ∧ inputHigh (r31 k)

instance (r31 : Nat → BitVec 32) (a : Nat) : DecidablePred (HighAfter r31 a) :=
  fun _ => inferInstanceAs (Decidable (_ ∧ _))

def riseBefore (T : Nat → Nat) (r31 : Nat → BitVec 32) (a k : Nat) : BitVec 32 :=
  noted (HighAfter r31 a) (tick T) tickNotSeen k

theorem riseBefore_succ {a k : Nat} (hk : a < k) :
    riseBefore T r31 a (k + 1) =
      if riseBefore T r31 a k = tickNotSeen ∧ inputHigh (r31 k) then tick T k
      else riseBefore T r31 a k := by
  rw [riseBefore, noted]
  simp only [HighAfter, hk, true_and]
  rfl

section Accepted

variable {a b c : Nat} (hx : ¬x.Refused) (hT : Steady T) (h : Bounds x T a b c)

include hx hT h

theorem run_waiting {k : Nat} (hk : 1 ≤ k) (hka : k ≤ a) :
    run x T r31 r30 k = waiting x r30 (BitVec.ofNat 32 (startOf x T)) := by
  obtain ⟨hdelay, -⟩ := accepted_bounds hx
  induction k, hk using Nat.le_induction with
  | base =>
      rw [run_succ, startOf, ← ofNat_add_toNat]
      exact poll_start hx
  | succ k hk ih =>
      have hlt : k < a := hka
      have hnot : ¬startOf x T ≤ T k := fun hle => h.rise.none k hlt ⟨hk, hle⟩
      have hearly := hT.le (Nat.zero_le k)
      have hreached := tickReached_iff (T := T) (n := k) (d := startOf x T) (by omega)
        (by rw [startOf]; omega)
      rw [run_succ, ih (Nat.le_of_lt hlt), poll_waiting, if_neg]
      rw [hreached]
      exact hnot

theorem run_pulsing {k : Nat} (hk : a + 1 ≤ k) (hkb : k ≤ b) :
    run x T r31 r30 k =
      pulsing x r30 (BitVec.ofNat 32 (startOf x T)) (riseBefore T r31 a k) := by
  obtain ⟨hdelay, hpos, hwidth, -⟩ := accepted_bounds hx
  have hrise := h.rise_lt hT
  have hstart := h.start_le
  induction k, hk using Nat.le_induction with
  | base =>
      have hnone : riseBefore T r31 a (a + 1) = tickNotSeen :=
        noted_of_none _ _ (fun k hk hseen => absurd hseen.1 (Nat.not_lt.mpr (Nat.le_of_lt_succ hk)))
      have hreached := tickReached_iff (T := T) (n := a) (d := startOf x T) (by omega) (by omega)
      rw [run_succ, run_waiting hx hT h h.rise.holds.1 (Nat.le_refl a), poll_waiting, hnone, if_pos]
      exact hreached.mpr hstart
  | succ k hk ih =>
      have hlt : k < b := hkb
      have hnot : ¬startOf x T + x.widthTicks.toNat ≤ T k := fun hle => h.fall.none k hlt ⟨hk, hle⟩
      have hle := hT.le (Nat.le_of_succ_le hk)
      have hreached := tickReached_iff (T := T) (n := k) (d := startOf x T + x.widthTicks.toNat) (by omega)
        (by omega)
      rw [run_succ, ih (Nat.le_of_lt hlt), poll_pulsing, riseBefore_succ hk]
      dsimp only
      rw [ofNat_add_toNat, if_neg]
      rw [hreached]
      exact hnot

theorem run_lowered :
    run x T r31 r30 (b + 1) =
      lowered x r30 (BitVec.ofNat 32 (startOf x T)) (riseBefore T r31 a (b + 1)) := by
  obtain ⟨hdelay, hpos, hwidth, -⟩ := accepted_bounds hx
  have hfall := h.fall_lt hT
  have hend := h.end_le
  have hreached := tickReached_iff (T := T) (n := b) (d := startOf x T + x.widthTicks.toNat) (by omega)
    (by omega)
  rw [run_succ, run_pulsing hx hT h h.lt (Nat.le_refl b), poll_pulsing, riseBefore_succ h.lt]
  dsimp only
  rw [ofNat_add_toNat, if_pos]
  exact hreached.mpr hend

theorem run_falling {k : Nat} (hk : b + 2 ≤ k) (hkc : k ≤ c)
    (hhigh : ∀ j, b + 1 < j → j < k → inputHigh (r31 j)) :
    run x T r31 r30 k =
      falling x r30 (BitVec.ofNat 32 (startOf x T)) (riseBefore T r31 a (b + 1))
        (tick T (b + 1)) := by
  obtain ⟨-, -, -, htimeout⟩ := accepted_bounds hx
  induction k, hk using Nat.le_induction with
  | base =>
      rw [run_succ, run_lowered hx hT h]
      exact poll_lowered
  | succ k hk ih =>
      have hlt : k < c := hkc
      have hwait := h.wait_le hk hlt
      have hlater := hT.le (Nat.le_of_lt hk)
      have hlimit := tickElapsed_le_iff hlater (by omega) x.timeoutTicks
      rw [run_succ, ih (Nat.le_of_lt hlt) (fun j hj hjk => hhigh j hj (Nat.lt_succ_of_lt hjk)),
        poll_falling, if_neg (not_not.mpr (hhigh k hk (Nat.lt_succ_self k))), if_pos]
      exact hlimit.mpr hwait

theorem run_ended_low {k : Nat} (hk : b + 1 < k) (hkc : k ≤ c)
    (hhigh : ∀ j, b + 1 < j → j < k → inputHigh (r31 j)) (hlow : ¬inputHigh (r31 k)) :
    run x T r31 r30 (k + 1) =
      ended x r30 (BitVec.ofNat 32 (startOf x T)) (riseBefore T r31 a (b + 1))
        (tick T (b + 1)) (tick T k) := by
  rw [run_succ, run_falling hx hT h hk hkc hhigh, poll_falling, if_pos hlow]

theorem run_ended_timeout (hhigh : ∀ j, b + 1 < j → j ≤ c → inputHigh (r31 j)) :
    run x T r31 r30 (c + 1) =
      ended x r30 (BitVec.ofNat 32 (startOf x T)) (riseBefore T r31 a (b + 1))
        (tick T (b + 1)) tickNotSeen := by
  obtain ⟨-, -, -, htimeout⟩ := accepted_bounds hx
  have hc := h.expiry.holds
  have hlate := h.expiry_lt hT
  have hlimit := tickElapsed_le_iff (hT.le (Nat.le_of_lt hc.1)) (by omega) x.timeoutTicks
  rw [run_succ, run_falling hx hT h hc.1 (Nat.le_refl c)
    (fun j hj hjc => hhigh j hj (Nat.le_of_lt hjc)), poll_falling,
    if_neg (not_not.mpr (hhigh c hc.1 (Nat.le_refl c))), if_neg]
  rw [hlimit]
  omega

def LowUntil (r31 : Nat → BitVec 32) (b c k : Nat) : Prop := b + 1 < k ∧ k ≤ c ∧ ¬inputHigh (r31 k)

variable (r31 r30) in
/-- How the call ends: with the first low sample of the wait, or without one. -/
theorem run_ends :
    ∃ e fall,
      run x T r31 r30 (e + 1) =
        ended x r30 (BitVec.ofNat 32 (startOf x T)) (riseBefore T r31 a (b + 1))
          (tick T (b + 1)) fall ∧
      e ≤ c ∧ (∀ j, b + 1 < j → j < e → inputHigh (r31 j)) ∧
      (∀ k, FirstAt (LowUntil r31 b c) k → fall = tick T k) ∧
      ((∀ k, ¬LowUntil r31 b c k) → fall = tickNotSeen) := by
  by_cases hsome : ∃ k, LowUntil r31 b c k
  · obtain ⟨k, hk⟩ := hsome
    obtain ⟨e, he⟩ := exists_firstAt hk
    obtain ⟨hbe, hec, hlow⟩ := he.holds
    have hhigh : ∀ j, b + 1 < j → j < e → inputHigh (r31 j) := by
      intro j hj hje
      by_contra hnot
      exact he.none j hje ⟨hj, Nat.le_trans (Nat.le_of_lt hje) hec, hnot⟩
    refine ⟨e, _, run_ended_low hx hT h hbe hec hhigh hlow, hec, hhigh, fun m hm => ?_, fun hnone => ?_⟩
    · rw [hm.unique he]
    · exact absurd hk (hnone k)
  · have hnone : ∀ k, ¬LowUntil r31 b c k := fun k hk => hsome ⟨k, hk⟩
    have hhigh : ∀ j, b + 1 < j → j ≤ c → inputHigh (r31 j) := by
      intro j hj hjc
      by_contra hnot
      exact hnone j ⟨hj, hjc, hnot⟩
    exact ⟨c, _, run_ended_timeout hx hT h hhigh, Nat.le_refl c,
      fun j hj hjc => hhigh j hj (Nat.le_of_lt hjc), fun m hm => absurd hm.holds (hnone m),
      fun _ => rfl⟩

theorem output_run_iff (k : Nat) : (run x T r31 r30 k).output = true ↔ a < k ∧ k ≤ b := by
  rcases Nat.lt_or_ge a k with hak | hka
  · rcases Nat.lt_or_ge b k with hbk | hkb
    · have hlow : (run x T r31 r30 k).output = false := by
        obtain ⟨e, fall, he, hec, hhigh, -⟩ := run_ends r31 r30 hx hT h
        rcases Nat.lt_or_ge e k with hek | hke
        · rw [run_returned (by rw [he]; rfl) hek, he, output_ended]
        · rcases Nat.lt_or_eq_of_le (show b + 1 ≤ k from hbk) with hlt | rfl
          · rw [run_falling hx hT h hlt (Nat.le_trans hke hec)
              (fun j hj hjk => hhigh j hj (Nat.lt_of_lt_of_le hjk hke)), output_falling]
          · rw [run_lowered hx hT h, output_lowered]
      rw [hlow]
      simp only [Bool.false_eq_true, false_iff, not_and, Nat.not_le]
      exact fun _ => hbk
    · rw [run_pulsing hx hT h hak hkb, output_pulsing]
      simp only [true_iff]
      exact ⟨hak, hkb⟩
  · have hlow : (run x T r31 r30 k).output = false := by
      rcases Nat.eq_zero_or_pos k with rfl | hpos
      · exact output_start
      · rw [run_waiting hx hT h hpos hka, output_waiting]
    rw [hlow]
    simp only [Bool.false_eq_true, false_iff, not_and]
    exact fun hak => absurd hka (Nat.not_le.mpr hak)

end Accepted

end Run

section Reporting

variable {x : Args} {r30 target rise since fall : BitVec 32}

theorem start_status (hx : ¬x.Refused) : (start x r30).status = statusOk := by
  rw [start, if_neg hx]
  rfl

theorem ended_status (hx : ¬x.Refused) :
    (ended x r30 target rise since fall).status =
      (if rise = tickNotSeen then errLoopbackNoRise else 0) |||
        (if fall = tickNotSeen then errLoopbackNoFall else 0) := by
  change (start x r30).status ||| (if rise = tickNotSeen then errLoopbackNoRise else 0) |||
    (if fall = tickNotSeen then errLoopbackNoFall else 0) = _
  rw [start_status hx]
  simp [statusOk]

theorem noRise_iff (hx : ¬x.Refused) :
    (ended x r30 target rise since fall).status &&& errLoopbackNoRise ≠ 0 ↔ rise = tickNotSeen := by
  rw [ended_status hx]
  by_cases hrise : rise = tickNotSeen <;> by_cases hfall : fall = tickNotSeen <;>
    simp [hrise, hfall, errLoopbackNoRise, errLoopbackNoFall]

theorem noFall_iff (hx : ¬x.Refused) :
    (ended x r30 target rise since fall).status &&& errLoopbackNoFall ≠ 0 ↔ fall = tickNotSeen := by
  rw [ended_status hx]
  by_cases hrise : rise = tickNotSeen <;> by_cases hfall : fall = tickNotSeen <;>
    simp [hrise, hfall, errLoopbackNoRise, errLoopbackNoFall]

end Reporting

section Claim

variable {x : Args} {T : Nat → Nat} {r31 : Nat → BitVec 32} {r30 : BitVec 32}

def HighIn (r31 : Nat → BitVec 32) (a b k : Nat) : Prop := a < k ∧ k ≤ b ∧ inputHigh (r31 k)

/-- What a call does with its output and makes of its input, where the pulse may last up to the
reading highEnd, and the samples of the wait count up to the reading waitEnd. -/
structure Conforms (T : Nat → Nat) (r31 : Nat → BitVec 32) (a b highEnd waitEnd : Nat)
    (s : Nat → Loopback) (result : Loopback) : Prop where
  output : ∀ k, (s k).output = true → a ≤ k ∧ k ≤ highEnd
  rise : Reports (result.status &&& errLoopbackNoRise ≠ 0) (HighIn r31 a b) (tick T)
    result.observedRise
  fall : Reports (result.status &&& errLoopbackNoFall ≠ 0) (LowUntil r31 b waitEnd) (tick T)
    result.observedFall

/-- The call returns, with the output low, and unless its arguments are refused it conforms. The
reading that ends a loop is one of its phase; taken strictly, the pulse may not outlast the first
reading d at or after its end, and a sample past the timeout does not count. -/
def Meets (strict : Bool) (x : Args) (T : Nat → Nat) (r31 : Nat → BitVec 32) (r30 : BitVec 32) :
    Prop :=
  ∃ N, (∀ n, N ≤ n → (run x T r31 r30 n).phase = .returned ∧ (run x T r31 r30 n).output = false) ∧
    (¬x.Refused → ∀ a b c d, Bounds x T a b c →
      FirstAt (fun n => 0 < n ∧ startOf x T + x.widthTicks.toNat ≤ T n) d →
        Conforms T r31 a b (if strict then d else b) (if strict then c - 1 else c)
          (run x T r31 r30) (run x T r31 r30 N))

/-- The first sample of each kind is not read at the reserved value of the counter. Strictly, the
reading that starts the pulse is also before its end, and a first low sample is past the timeout
just if it is read at that value. -/
structure Unreserved (strict : Bool) (x : Args) (T : Nat → Nat) (r31 : Nat → BitVec 32)
    (a b c : Nat) : Prop where
  rise : ∀ k, FirstAt (HighIn r31 a b) k → tick T k ≠ tickNotSeen
  fall : ∀ k, FirstAt (LowUntil r31 b c) k → (tick T k = tickNotSeen ↔ strict = true ∧ k = c)
  pulse : strict = true → T a < startOf x T + x.widthTicks.toNat

theorem rise_reports_iff {a b : Nat} {flag : Prop}
    (hflag : flag ↔ riseBefore T r31 a (b + 1) = tickNotSeen) :
    Reports flag (HighIn r31 a b) (tick T) (riseBefore T r31 a (b + 1)) ↔
      ∀ k, FirstAt (HighIn r31 a b) k → tick T k ≠ tickNotSeen := by
  have hseen : HighIn r31 a b = fun k => k < b + 1 ∧ HighAfter r31 a k := by
    funext k
    simp only [HighIn, HighAfter, Nat.lt_succ_iff]
    exact propext and_left_comm
  rw [hseen]
  exact reports_noted_iff (HighAfter r31 a) (tick T) tickNotSeen hflag

section Wait

variable {b c : Nat} {flag : Prop} {fall : BitVec 32} (hflag : flag ↔ fall = tickNotSeen)
  (hfirst : ∀ k, FirstAt (LowUntil r31 b c) k → fall = tick T k)
  (hnone : (∀ k, ¬LowUntil r31 b c k) → fall = tickNotSeen)

include hflag hfirst hnone

theorem fall_reports_iff :
    Reports flag (LowUntil r31 b c) (tick T) fall ↔
      ∀ k, FirstAt (LowUntil r31 b c) k → tick T k ≠ tickNotSeen :=
  reports_iff_of_loaded hflag hfirst hnone

theorem fall_reports_before_iff :
    Reports flag (LowUntil r31 b (c - 1)) (tick T) fall ↔
      ∀ k, FirstAt (LowUntil r31 b c) k → (tick T k = tickNotSeen ↔ k = c) := by
  have hwide : ∀ k, LowUntil r31 b (c - 1) k ↔ LowUntil r31 b c k ∧ k ≠ c := by
    intro k
    simp only [LowUntil]
    constructor
    · rintro ⟨hk, hkc, hlow⟩
      exact ⟨⟨hk, by omega, hlow⟩, by omega⟩
    · rintro ⟨⟨hk, hkc, hlow⟩, hne⟩
      exact ⟨hk, by omega, hlow⟩
  constructor
  · intro hreports k hk
    constructor
    · intro hmark
      by_contra hne
      have hflagged := hflag.mpr ((hfirst k hk).trans hmark)
      exact hreports.flag.mp hflagged k ((hwide k).mpr ⟨hk.holds, hne⟩)
    · rintro rfl
      have hflagged : flag := by
        apply hreports.flag.mpr
        intro j hj
        obtain ⟨hlow, hne⟩ := (hwide j).mp hj
        exact hk.none j (Nat.lt_of_le_of_ne hlow.2.1 hne) hlow
      exact (hfirst k hk).symm.trans (hflag.mp hflagged)
  · intro hmark
    refine ⟨⟨fun hflagged k hk => ?_, fun hquiet => ?_⟩, fun k hk => ?_⟩
    · obtain ⟨hlow, hne⟩ := (hwide k).mp hk
      obtain ⟨j, hj⟩ := exists_firstAt hlow
      have hjc : j = c := (hmark j hj).mp ((hfirst j hj).symm.trans (hflag.mp hflagged))
      have hjk := hj.le hlow
      have hkc := hlow.2.1
      exact hne (Nat.le_antisymm hkc (hjc ▸ hjk))
    · apply hflag.mpr
      by_cases hsome : ∃ k, LowUntil r31 b c k
      · obtain ⟨k, hk⟩ := hsome
        obtain ⟨j, hj⟩ := exists_firstAt hk
        have hjc : j = c := by
          by_contra hne
          exact hquiet j ((hwide j).mpr ⟨hj.holds, hne⟩)
        exact (hfirst j hj).trans ((hmark j hj).mpr hjc)
      · exact hnone (fun k hk => hsome ⟨k, hk⟩)
    · obtain ⟨hlow, hne⟩ := (hwide k).mp hk.holds
      refine hfirst k ⟨hlow, fun j hj hseen => ?_⟩
      have hkc := hlow.2.1
      exact hk.none j hj ((hwide j).mpr ⟨hseen, by omega⟩)

end Wait

section Accepted

variable {a b c d : Nat} (hx : ¬x.Refused) (hT : Steady T) (h : Bounds x T a b c)

include hx hT h

theorem output_le_iff (hd : FirstAt (fun n => 0 < n ∧ startOf x T + x.widthTicks.toNat ≤ T n) d) :
    (∀ k, (run x T r31 r30 k).output = true → a ≤ k ∧ k ≤ d) ↔
      T a < startOf x T + x.widthTicks.toNat := by
  have hda : d ≤ b := hd.le ⟨Nat.zero_lt_of_lt h.lt, h.end_le⟩
  constructor
  · intro hout
    by_contra hlate
    have hle : d ≤ a := hd.le ⟨h.rise.holds.1, Nat.le_of_not_lt hlate⟩
    have hnext := (hout (a + 1) ((output_run_iff hx hT h (a + 1)).mpr ⟨Nat.lt_succ_self a, h.lt⟩)).2
    omega
  · intro hbefore k hk
    obtain ⟨hak, hkb⟩ := (output_run_iff hx hT h k).mp hk
    have had : a < d := by
      by_contra hle
      have := hT.le (Nat.le_of_not_lt hle)
      have := hd.holds.2
      omega
    have hbd : b ≤ d := h.fall.le ⟨had, hd.holds.2⟩
    exact ⟨Nat.le_of_lt hak, Nat.le_trans hkb hbd⟩

end Accepted

theorem run_of_refused (hx : x.Refused) (n : Nat) : run x T r31 r30 n = start x r30 := by
  have hzero : (run x T r31 r30 0).phase = .returned := start_of_refused hx
  exact run_returned hzero (Nat.zero_le n)

structure Ending (T : Nat → Nat) (r31 : Nat → BitVec 32) (a b c : Nat) (s : Loopback) : Prop where
  phase : s.phase = .returned
  output : s.output = false
  noRise : s.status &&& errLoopbackNoRise ≠ 0 ↔ s.observedRise = tickNotSeen
  noFall : s.status &&& errLoopbackNoFall ≠ 0 ↔ s.observedFall = tickNotSeen
  rise : s.observedRise = riseBefore T r31 a (b + 1)
  fall : ∀ k, FirstAt (LowUntil r31 b c) k → s.observedFall = tick T k
  quiet : (∀ k, ¬LowUntil r31 b c k) → s.observedFall = tickNotSeen

variable (r31 r30) in
theorem exists_ending {a b c : Nat} (hx : ¬x.Refused) (hT : Steady T) (h : Bounds x T a b c) :
    ∃ N, Ending T r31 a b c (run x T r31 r30 N) := by
  obtain ⟨e, fall, hend, -, -, hfirst, hnone⟩ := run_ends r31 r30 hx hT h
  refine ⟨e + 1, ?_⟩
  rw [hend]
  exact
    { phase := rfl
      output := output_ended
      noRise := noRise_iff hx
      noFall := noFall_iff hx
      rise := rfl
      fall := hfirst
      quiet := hnone }

variable (r31 r30) in
theorem run_returns (x : Args) (hT : Steady T) :
    ∃ N, ∀ n, N ≤ n →
      (run x T r31 r30 n).phase = .returned ∧ (run x T r31 r30 n).output = false := by
  by_cases hx : x.Refused
  · refine ⟨0, fun n _ => ?_⟩
    rw [run_of_refused hx]
    exact ⟨start_of_refused hx, output_start⟩
  · obtain ⟨a, b, c, h⟩ := exists_bounds hT x
    obtain ⟨N, hend⟩ := exists_ending r31 r30 hx hT h
    refine ⟨N, fun n hn => ?_⟩
    rw [run_returned hend.phase hn]
    exact ⟨hend.phase, hend.output⟩

theorem run_eq_of_returned {m n : Nat} (hm : (run x T r31 r30 m).phase = .returned)
    (hn : (run x T r31 r30 n).phase = .returned) : run x T r31 r30 m = run x T r31 r30 n := by
  rw [← run_returned hm (Nat.le_max_left m n)]
  exact run_returned hn (Nat.le_max_right m n)

theorem conforms_iff {a b c d N : Nat} (strict : Bool) (hx : ¬x.Refused) (hT : Steady T)
    (h : Bounds x T a b c) (hd : FirstAt (fun n => 0 < n ∧ startOf x T + x.widthTicks.toNat ≤ T n) d)
    (hN : (run x T r31 r30 N).phase = .returned) :
    Conforms T r31 a b (if strict then d else b) (if strict then c - 1 else c) (run x T r31 r30)
        (run x T r31 r30 N) ↔ Unreserved strict x T r31 a b c := by
  obtain ⟨M, hend⟩ := exists_ending r31 r30 hx hT h
  have hout : (∀ k, (run x T r31 r30 k).output = true → a ≤ k ∧ k ≤ if strict then d else b) ↔
      (strict = true → T a < startOf x T + x.widthTicks.toNat) := by
    cases strict with
    | false =>
        simp only [Bool.false_eq_true, if_false, false_imp_iff, iff_true]
        intro k hk
        obtain ⟨hak, hkb⟩ := (output_run_iff hx hT h k).mp hk
        exact ⟨Nat.le_of_lt hak, hkb⟩
    | true =>
        simp only [if_true, true_imp_iff]
        exact output_le_iff hx hT h hd
  rw [run_eq_of_returned hN hend.phase]
  generalize run x T r31 r30 M = result at hend
  have hrise : Reports (result.status &&& errLoopbackNoRise ≠ 0) (HighIn r31 a b) (tick T)
      result.observedRise ↔ ∀ k, FirstAt (HighIn r31 a b) k → tick T k ≠ tickNotSeen := by
    have hflag := hend.noRise
    rw [hend.rise] at hflag ⊢
    exact rise_reports_iff hflag
  have hfall : Reports (result.status &&& errLoopbackNoFall ≠ 0)
      (LowUntil r31 b (if strict then c - 1 else c)) (tick T) result.observedFall ↔
        ∀ k, FirstAt (LowUntil r31 b c) k → (tick T k = tickNotSeen ↔ strict = true ∧ k = c) := by
    cases strict with
    | false => simpa using fall_reports_iff hend.noFall hend.fall hend.quiet
    | true => simpa using fall_reports_before_iff hend.noFall hend.fall hend.quiet
  constructor
  · rintro ⟨houtput, hriseReports, hfallReports⟩
    exact ⟨hrise.mp hriseReports, hfall.mp hfallReports, hout.mp houtput⟩
  · rintro ⟨hriseMarks, hfallMarks, hpulse⟩
    exact ⟨hout.mpr hpulse, hrise.mpr hriseMarks, hfall.mpr hfallMarks⟩

theorem Meets.unreserved {strict : Bool} (h : Meets strict x T r31 r30) (hT : Steady T)
    (hx : ¬x.Refused) {a b c : Nat} (hbounds : Bounds x T a b c) :
    Unreserved strict x T r31 a b c := by
  obtain ⟨N, hreturned, hconforms⟩ := h
  obtain ⟨d, hd⟩ := hT.exists_passing 0 (startOf x T + x.widthTicks.toNat)
  have hresult := hconforms hx a b c d hbounds hd
  exact (conforms_iff strict hx hT hbounds hd (hreturned N (Nat.le_refl N)).1).mp hresult

/-- Every call returns with the output low, and it does all the rest just if no first sample is
read at the reserved value. -/
theorem runGpioLoopback_meets_iff (strict : Bool) (x : Args) (T : Nat → Nat) (hT : Steady T)
    (r31 : Nat → BitVec 32) (r30 : BitVec 32) :
    (∃ N, ∀ n, N ≤ n →
        (run x T r31 r30 n).phase = .returned ∧ (run x T r31 r30 n).output = false) ∧
      (Meets strict x T r31 r30 ↔
        (¬x.Refused → ∀ a b c, Bounds x T a b c → Unreserved strict x T r31 a b c)) := by
  obtain ⟨N, hreturned⟩ := run_returns r31 r30 x hT
  refine ⟨⟨N, hreturned⟩, fun hmeets hx a b c h => hmeets.unreserved hT hx h, fun hmarks => ?_⟩
  refine ⟨N, hreturned, fun hx a b c d h hd => ?_⟩
  have hphase := (hreturned N (Nat.le_refl N)).1
  exact (conforms_iff strict hx hT h hd hphase).mpr (hmarks hx a b c h)

section Wire

def shortArgs : Args := ⟨0, 10, 20⟩

theorem steady_of_pace {p : Nat} (s : Nat) (hpos : 0 < p) (hlt : p < 0x100000) :
    Steady (fun n => s + n * p) := by
  intro n
  simp only [Nat.add_mul, Nat.one_mul]
  omega

/-- The input is high from reading 2 up to, not including, reading 4. -/
def shortPulse (k : Nat) : BitVec 32 := if k = 2 ∨ k = 3 then loopbackInMask else 0

/-- The pulse spans the wrap of the counter. -/
theorem runGpioLoopback_meets_across_wrap :
    Steady (fun n => 0xfffffff0 + n * 7) ∧
      Meets false shortArgs (fun n => 0xfffffff0 + n * 7) shortPulse 0 ∧
        Meets true shortArgs (fun n => 0xfffffff0 + n * 7) shortPulse 0 := by
  have hT : Steady (fun n => 0xfffffff0 + n * 7) := steady_of_pace 0xfffffff0 (by decide) (by decide)
  have hbounds : Bounds shortArgs (fun n => 0xfffffff0 + n * 7) 1 2 6 :=
    ⟨⟨by decide, by decide⟩, ⟨by decide, by decide⟩, ⟨by decide, by decide⟩⟩
  have hrise : FirstAt (HighIn shortPulse 1 2) 2 := by
    refine ⟨⟨by decide, by decide, by decide⟩, fun k hk hseen => ?_⟩
    exact absurd hk (Nat.not_lt.mpr hseen.1)
  have hfall : FirstAt (LowUntil shortPulse 2 6) 4 := by
    refine ⟨⟨by decide, by decide, by decide⟩, fun k hk hseen => ?_⟩
    exact absurd hk (Nat.not_lt.mpr hseen.1)
  have hmeets : ∀ strict, Meets strict shortArgs (fun n => 0xfffffff0 + n * 7) shortPulse 0 := by
    intro strict
    apply (runGpioLoopback_meets_iff strict shortArgs _ hT shortPulse 0).2.mpr
    intro _ a b c h
    obtain ⟨rfl, rfl, rfl⟩ := hbounds.unique h
    refine ⟨fun k hk => ?_, fun k hk => ?_, fun _ => by decide⟩
    · rw [← hrise.unique hk]
      decide
    · rw [← hfall.unique hk]
      simp [tick, tickNotSeen]
  exact ⟨hT, hmeets false, hmeets true⟩

/-- The only high sample of the pulse is read at the reserved value: no rise is reported. -/
theorem runGpioLoopback_reserved_rise :
    let T := fun n => 0xfffffffd + n * 1
    let x : Args := ⟨0, 2, 5⟩
    let r31 := fun k => if k = 2 then loopbackInMask else 0
    let result := run x T r31 0 5
    result.phase = .returned ∧ result.status = errLoopbackNoRise ∧ tick T 2 = tickNotSeen ∧
      HighIn r31 1 2 2 ∧ ¬Meets false x T r31 0 ∧ ¬Meets true x T r31 0 := by
  intro T x r31 result
  have hT : Steady T := steady_of_pace 0xfffffffd (by decide) (by decide)
  have hbounds : Bounds x T 1 2 9 :=
    ⟨⟨by decide, by decide⟩, ⟨by decide, by decide⟩, ⟨by decide, by decide⟩⟩
  have hseen : HighIn r31 1 2 2 := ⟨by decide, by decide, by decide⟩
  have hrise : FirstAt (HighIn r31 1 2) 2 :=
    ⟨hseen, fun k hk hhigh => absurd hk (Nat.not_lt.mpr hhigh.1)⟩
  have hnot : ∀ strict, ¬Meets strict x T r31 0 := by
    intro strict hmeets
    have hmarks := hmeets.unreserved hT (by decide) hbounds
    exact hmarks.rise 2 hrise (by decide)
  exact ⟨by decide, by decide, by decide, hseen, hnot false, hnot true⟩

end Wire

end Claim

end HilLab.Pru.GpioLoopback
