import HilLab.Lib.Clocked
import HilLab.Lib.Edges
import HilLab.Rtl.PwmCapture

namespace HilLab.Rtl.CaptureEdges

open Lib.Clocked Lib.Edges Common PwmCapture

section Capture

/-- A pin d clocks ago; low before the first clock, as reset leaves the registers. -/
def delayed (pin : Nat → Bool) (d n : Nat) : Bool := decide (d ≤ n) && pin (n - d)

def risen (pin : Nat → Bool) (d n : Nat) : Bool := delayed pin d n && !delayed pin (d + 1) n

theorem delayed_succ (pin : Nat → Bool) (d n : Nat) :
    delayed pin (d + 1) (n + 1) = delayed pin d n := by
  rw [delayed, delayed, Nat.add_sub_add_right]
  simp only [Nat.add_le_add_iff_right]

theorem synchronised {W : Nat} {q : Nat → Sync2ff W} {bus : Nat → BitVec W} (hreset : q 0 = .reset)
    (hstep : ∀ n, q (n + 1) = (q n).step (bus n)) (k n : Nat) :
    (q n).first.getLsbD k = delayed (fun j => (bus j).getLsbD k) 1 n ∧
      (q n).bit k = delayed (fun j => (bus j).getLsbD k) 2 n := by
  induction n with
  | zero =>
      rw [hreset]
      exact ⟨BitVec.getLsbD_zero, BitVec.getLsbD_zero⟩
  | succ n ih =>
      rw [hstep, delayed_succ, delayed_succ]
      exact ⟨rfl, ih.1⟩

/-- The states of a capture from reset on a pin. -/
structure Follows (c : Nat → Capture) (pin : Nat → Bool) : Prop where
  reset : c 0 = .reset
  step : ∀ n, ∃ timestamp, c (n + 1) = (c n).step (pin n) timestamp

variable {c : Nat → Capture} {pin : Nat → Bool}

theorem step_registers (s : Capture) (a : Bool) (timestamp : BitVec 64) :
    (s.step a timestamp).sync = s.sync.step (BitVec.ofBool a) ∧
      (s.step a timestamp).pwmSyncD = s.sync.bit 0 ∧
      (s.step a timestamp).haveRise = (s.riseEdge || s.haveRise) ∧
      (s.step a timestamp).periodValid = (s.riseEdge && s.haveRise) := by
  rw [Capture.step]
  cases s.riseEdge <;> cases s.fallEdge <;> exact ⟨rfl, rfl, rfl, rfl⟩

theorem Follows.pipeline (h : Follows c pin) (n : Nat) :
    (c n).sync.first = BitVec.ofBool (delayed pin 1 n) ∧ (c n).sync.bit 0 = delayed pin 2 n ∧
      (c n).pwmSyncD = delayed pin 3 n := by
  induction n with
  | zero =>
      rw [h.reset]
      exact ⟨rfl, rfl, rfl⟩
  | succ n ih =>
      obtain ⟨hfirst, hbit, -⟩ := ih
      obtain ⟨timestamp, hstep⟩ := h.step n
      obtain ⟨hsync, hprevious, -, -⟩ := step_registers (c n) (pin n) timestamp
      rw [hstep, hsync, hprevious, delayed_succ, delayed_succ, delayed_succ]
      refine ⟨rfl, ?_, hbit⟩
      change (c n).sync.first.getLsbD 0 = _
      rw [hfirst]
      cases delayed pin 1 n <;> rfl

theorem Follows.riseEdge (h : Follows c pin) (n : Nat) : (c n).riseEdge = risen pin 2 n := by
  obtain ⟨-, hbit, hprevious⟩ := h.pipeline n
  rw [Capture.riseEdge, hbit, hprevious, risen]

theorem Follows.haveRise_mono (h : Follows c pin) {m n : Nat} (hmn : m ≤ n)
    (hrise : (c m).haveRise = true) : (c n).haveRise = true := by
  induction n, hmn using Nat.le_induction with
  | base => exact hrise
  | succ n _ ih =>
      obtain ⟨timestamp, hstep⟩ := h.step n
      rw [hstep, (step_registers (c n) (pin n) timestamp).2.2.1, ih, Bool.or_true]

theorem Follows.periodValid (h : Follows c pin) (n : Nat) :
    (c (n + 1)).periodValid = (risen pin 3 (n + 1) && (c n).haveRise) := by
  obtain ⟨timestamp, hstep⟩ := h.step n
  rw [hstep, (step_registers (c n) (pin n) timestamp).2.2.2, h.riseEdge, risen, risen,
    delayed_succ, delayed_succ]

theorem Follows.periodValid_iff (h : Follows c pin) {m n : Nat} (hmn : m ≤ n)
    (hvalid : (c m).periodValid = true) : (c n).periodValid = risen pin 3 n := by
  cases m with
  | zero =>
      rw [h.reset] at hvalid
      cases hvalid
  | succ m =>
      cases n with
      | zero => exact absurd hmn (Nat.not_succ_le_zero m)
      | succ n =>
          rw [h.periodValid] at hvalid ⊢
          have hrise := h.haveRise_mono (Nat.le_of_succ_le_succ hmn) (Bool.and_eq_true_iff.mp hvalid).2
          rw [hrise, Bool.and_true]

end Capture

section Registers

/-- A capture from reset on a pin, with any timestamps. -/
def capturedAt (pin : Nat → Bool) (times : Nat → BitVec 64) (n : Nat) : Capture :=
  wave (fun s i => s.step i.1 i.2) .reset (fun k => (pin k, times k)) n

def captured (pin : Nat → Bool) (n : Nat) : Capture :=
  wave (fun s i => s.step i.1 i.2) .reset (fun k => (pin k, BitVec.ofNat 64 k)) n

/-- The rises and falls that the capture sees, two clocks behind the pin. -/
def riseAt (pin : Nat → Bool) : Nat → Bool := rise (delayed pin 2)
def fallAt (pin : Nat → Bool) : Nat → Bool := fall (delayed pin 2)

variable (pin : Nat → Bool) (times : Nat → BitVec 64) {m n r f : Nat}

theorem capturedAt_follows : Follows (capturedAt pin times) pin := ⟨rfl, fun n => ⟨times n, rfl⟩⟩

theorem capturedAt_succ (n : Nat) :
    capturedAt pin times (n + 1) = (capturedAt pin times n).step (pin n) (times n) := rfl

theorem captured_succ (n : Nat) :
    captured pin (n + 1) = (captured pin n).step (pin n) (BitVec.ofNat 64 n) := rfl

theorem before_delayed (d n : Nat) : before false (delayed pin d) n = delayed pin (d + 1) n := by
  cases n with
  | zero => rfl
  | succ n => rw [before, delayed_succ]

theorem capturedAt_riseEdge (n : Nat) :
    (capturedAt pin times n).riseEdge = riseAt pin n := by
  obtain ⟨-, hbit, hprevious⟩ := (capturedAt_follows pin times).pipeline n
  rw [Capture.riseEdge, hbit, hprevious, riseAt, rise, before_delayed]

theorem capturedAt_fallEdge (n : Nat) :
    (capturedAt pin times n).fallEdge = fallAt pin n := by
  obtain ⟨-, hbit, hprevious⟩ := (capturedAt_follows pin times).pipeline n
  rw [Capture.fallEdge, hbit, hprevious, fallAt, fall, before_delayed]

theorem step_rise (s : Capture) (a : Bool) (timestamp : BitVec 64) (h : s.riseEdge = true) :
    (s.step a timestamp).lastRiseTimestamp = timestamp ∧
      (s.haveRise = true →
        (s.step a timestamp).periodTicks = saturate (timestamp - s.lastRiseTimestamp)) ∧
      (s.haveFall = true →
        (s.step a timestamp).lowTicks = saturate (timestamp - s.lastFallTimestamp)) := by
  rw [Capture.step, h]
  exact ⟨rfl, fun hrise => if_pos hrise, fun hfall => if_pos hfall⟩

theorem step_fall (s : Capture) (a : Bool) (timestamp : BitVec 64) (h : s.fallEdge = true) :
    (s.step a timestamp).lastFallTimestamp = timestamp ∧
      (s.haveRise = true →
        (s.step a timestamp).highTicks = saturate (timestamp - s.lastRiseTimestamp)) := by
  have hrise : s.riseEdge = false := by
    rw [Capture.fallEdge, Bool.and_eq_true, Bool.not_eq_true'] at h
    rw [Capture.riseEdge, h.1]
    rfl
  rw [Capture.step, hrise, h]
  exact ⟨rfl, fun hrise => if_pos hrise⟩

theorem step_no_rise (s : Capture) (a : Bool) (timestamp : BitVec 64) (h : s.riseEdge = false) :
    (s.step a timestamp).lastRiseTimestamp = s.lastRiseTimestamp ∧
      (s.step a timestamp).periodTicks = s.periodTicks ∧
      (s.step a timestamp).lowTicks = s.lowTicks := by
  rw [Capture.step, h]
  cases s.fallEdge <;> exact ⟨rfl, rfl, rfl⟩

theorem step_no_fall (s : Capture) (a : Bool) (timestamp : BitVec 64) (h : s.fallEdge = false) :
    (s.step a timestamp).lastFallTimestamp = s.lastFallTimestamp ∧
      (s.step a timestamp).highTicks = s.highTicks := by
  rw [Capture.step, h]
  cases s.riseEdge <;> exact ⟨rfl, rfl⟩

theorem riseEdge_excludes {s : Capture} (h : s.riseEdge = true) : s.fallEdge = false := by
  rw [Capture.riseEdge, Bool.and_eq_true] at h
  rw [Capture.fallEdge, h.1]
  rfl

theorem step_haveFall (s : Capture) (a : Bool) (timestamp : BitVec 64) :
    (s.step a timestamp).haveFall = (s.fallEdge || s.haveFall) := by
  rw [Capture.step]
  cases hr : s.riseEdge with
  | true =>
      rw [riseEdge_excludes hr]
      rfl
  | false => cases s.fallEdge <;> rfl

theorem capturedAt_haveRise (n : Nat) :
    (capturedAt pin times (n + 1)).haveRise = (riseAt pin n || (capturedAt pin times n).haveRise) := by
  rw [← capturedAt_riseEdge pin times]
  exact (step_registers _ _ _).2.2.1

theorem capturedAt_haveFall (n : Nat) :
    (capturedAt pin times (n + 1)).haveFall = (fallAt pin n || (capturedAt pin times n).haveFall) := by
  rw [← capturedAt_fallEdge pin times]
  exact step_haveFall _ _ _

variable {pin times}

theorem haveRise_of_latest (h : Latest (riseAt pin) m n) : (capturedAt pin times n).haveRise = true := by
  obtain ⟨hlt, hrise, -⟩ := h
  refine (capturedAt_follows pin times).haveRise_mono (Nat.succ_le_of_lt hlt) ?_
  rw [capturedAt_haveRise, hrise]
  rfl

theorem lastRise_of_latest (h : Latest (riseAt pin) m n) :
    (capturedAt pin times n).lastRiseTimestamp = times m := by
  refine h.loaded (fun k => (capturedAt pin times k).lastRiseTimestamp) times (fun k hk => ?_)
    (fun k hk => ?_)
  · exact (step_rise _ _ _ ((capturedAt_riseEdge pin times k).trans hk)).1
  · exact (step_no_rise _ _ _ ((capturedAt_riseEdge pin times k).trans hk)).1

theorem lastFall_of_latest (h : Latest (fallAt pin) m n) :
    (capturedAt pin times n).haveFall = true ∧ (capturedAt pin times n).lastFallTimestamp = times m := by
  constructor
  · refine h.loaded (fun k => (capturedAt pin times k).haveFall) (fun _ => true) (fun k hk => ?_)
      (fun k hk => ?_)
    · rw [capturedAt_haveFall, hk]
      rfl
    · rw [capturedAt_haveFall, hk]
      rfl
  · refine h.loaded (fun k => (capturedAt pin times k).lastFallTimestamp) times (fun k hk => ?_)
      (fun k hk => ?_)
    · exact (step_fall _ _ _ ((capturedAt_fallEdge pin times k).trans hk)).1
    · exact (step_no_fall _ _ _ ((capturedAt_fallEdge pin times k).trans hk)).1

theorem capturedAt_periodTicks (h : Latest (riseAt pin) m n) (hr : Latest (riseAt pin) r m) :
    (capturedAt pin times n).periodTicks = saturate (times m - times r) := by
  have hload := h.loaded (fun k => (capturedAt pin times k).periodTicks) (fun k =>
      if (capturedAt pin times k).haveRise then
        saturate (times k - (capturedAt pin times k).lastRiseTimestamp)
      else (capturedAt pin times (k + 1)).periodTicks)
    (fun k hk => ?_) (fun k hk => ?_)
  · rw [hload, if_pos (haveRise_of_latest hr), lastRise_of_latest hr]
  · split
    · next hrise => exact (step_rise _ _ _ ((capturedAt_riseEdge pin times k).trans hk)).2.1 hrise
    · rfl
  · exact (step_no_rise _ _ _ ((capturedAt_riseEdge pin times k).trans hk)).2.1

theorem capturedAt_lowTicks (h : Latest (riseAt pin) m n) (hf : Latest (fallAt pin) f m) :
    (capturedAt pin times n).lowTicks = saturate (times m - times f) := by
  have hload := h.loaded (fun k => (capturedAt pin times k).lowTicks) (fun k =>
      if (capturedAt pin times k).haveFall then
        saturate (times k - (capturedAt pin times k).lastFallTimestamp)
      else (capturedAt pin times (k + 1)).lowTicks)
    (fun k hk => ?_) (fun k hk => ?_)
  · rw [hload, if_pos (lastFall_of_latest hf).1, (lastFall_of_latest hf).2]
  · split
    · next hfall => exact (step_rise _ _ _ ((capturedAt_riseEdge pin times k).trans hk)).2.2 hfall
    · rfl
  · exact (step_no_rise _ _ _ ((capturedAt_riseEdge pin times k).trans hk)).2.2

theorem capturedAt_highTicks (h : Latest (fallAt pin) f n) (hr : Latest (riseAt pin) r f) :
    (capturedAt pin times n).highTicks = saturate (times f - times r) := by
  have hload := h.loaded (fun k => (capturedAt pin times k).highTicks) (fun k =>
      if (capturedAt pin times k).haveRise then
        saturate (times k - (capturedAt pin times k).lastRiseTimestamp)
      else (capturedAt pin times (k + 1)).highTicks)
    (fun k hk => ?_) (fun k hk => ?_)
  · rw [hload, if_pos (haveRise_of_latest hr), lastRise_of_latest hr]
  · split
    · next hrise => exact (step_fall _ _ _ ((capturedAt_fallEdge pin times k).trans hk)).2 hrise
    · rfl
  · exact (step_no_fall _ _ _ ((capturedAt_fallEdge pin times k).trans hk)).2

theorem periodTicks_of_latest (h : Latest (riseAt pin) m n) (hr : Latest (riseAt pin) r m) :
    (captured pin n).periodTicks = saturate (BitVec.ofNat 64 m - BitVec.ofNat 64 r) :=
  capturedAt_periodTicks h hr

theorem lowTicks_of_latest (h : Latest (riseAt pin) m n) (hf : Latest (fallAt pin) f m) :
    (captured pin n).lowTicks = saturate (BitVec.ofNat 64 m - BitVec.ofNat 64 f) :=
  capturedAt_lowTicks h hf

theorem highTicks_of_latest (h : Latest (fallAt pin) f n) (hr : Latest (riseAt pin) r f) :
    (captured pin n).highTicks = saturate (BitVec.ofNat 64 f - BitVec.ofNat 64 r) :=
  capturedAt_highTicks h hr

theorem saturate_toNat (delta : BitVec 64) :
    (saturate delta).toNat = min delta.toNat (2 ^ 32 - 1) := by
  have hdelta := delta.isLt
  have hhigh : (delta.extractLsb' 32 32).toNat = delta.toNat / 2 ^ 32 := by
    rw [BitVec.extractLsb'_toNat, Nat.shiftRight_eq_div_pow]
    omega
  have hzero : delta.extractLsb' 32 32 = 0 ↔ delta.toNat / 2 ^ 32 = 0 := by
    rw [← hhigh, ← BitVec.toNat_inj]
    rfl
  rw [saturate]
  split
  · next hlong =>
      have : delta.toNat / 2 ^ 32 ≠ 0 := fun h => hlong (hzero.mpr h)
      change 2 ^ 32 - 1 = _
      omega
  · next hshort =>
      have : delta.toNat / 2 ^ 32 = 0 := hzero.mp (Decidable.not_not.mp hshort)
      rw [BitVec.extractLsb'_toNat, Nat.shiftRight_zero]
      omega

theorem saturate_toNat_iff {a b : Nat} (hab : a ≤ b) :
    (saturate (BitVec.ofNat 64 b - BitVec.ofNat 64 a)).toNat = b - a ↔ b - a < 2 ^ 32 := by
  have hdelta : (BitVec.ofNat 64 b - BitVec.ofNat 64 a).toNat = (b - a) % 2 ^ 64 := by
    have hsub : BitVec.ofNat 64 b - BitVec.ofNat 64 a = BitVec.ofNat 64 (b - a) := by
      rw [BitVec.sub_eq_iff_eq_add, ← BitVec.ofNat_add, Nat.sub_add_cancel hab]
    rw [hsub, BitVec.toNat_ofNat]
  rw [saturate_toNat, hdelta]
  omega

theorem step_highValid (s : Capture) (a : Bool) (timestamp : BitVec 64) :
    (s.step a timestamp).highValid = (s.fallEdge && s.haveRise) := by
  rw [Capture.step]
  cases hr : s.riseEdge with
  | true =>
      rw [riseEdge_excludes hr]
      rfl
  | false => cases s.fallEdge <;> rfl

theorem step_lowValid (s : Capture) (a : Bool) (timestamp : BitVec 64) :
    (s.step a timestamp).lowValid = (s.riseEdge && s.haveFall) := by
  rw [Capture.step]
  cases s.riseEdge <;> cases s.fallEdge <;> rfl

theorem capturedAt_periodValid (h : (capturedAt pin times n).periodValid = true) :
    ∃ m r, n = m + 1 ∧ Latest (riseAt pin) m n ∧ Latest (riseAt pin) r m := by
  cases n with
  | zero => cases h
  | succ m =>
      have hvalid := (step_registers (capturedAt pin times m) (pin m) (times m)).2.2.2
      rw [← capturedAt_succ, h, capturedAt_riseEdge, eq_comm, Bool.and_eq_true] at hvalid
      obtain ⟨r, hr⟩ := exists_latest_of_flag (fun k => (capturedAt pin times k).haveRise) rfl
        (capturedAt_haveRise pin times) hvalid.2
      exact ⟨m, r, rfl, latest_succ hvalid.1, hr⟩

theorem capturedAt_highValid (h : (capturedAt pin times n).highValid = true) :
    ∃ m r, n = m + 1 ∧ Latest (fallAt pin) m n ∧ Latest (riseAt pin) r m := by
  cases n with
  | zero => cases h
  | succ m =>
      rw [capturedAt_succ, step_highValid, capturedAt_fallEdge, Bool.and_eq_true] at h
      obtain ⟨r, hr⟩ := exists_latest_of_flag (fun k => (capturedAt pin times k).haveRise) rfl
        (capturedAt_haveRise pin times) h.2
      exact ⟨m, r, rfl, latest_succ h.1, hr⟩

theorem capturedAt_lowValid (h : (capturedAt pin times n).lowValid = true) :
    ∃ m f, n = m + 1 ∧ Latest (riseAt pin) m n ∧ Latest (fallAt pin) f m := by
  cases n with
  | zero => cases h
  | succ m =>
      rw [capturedAt_succ, step_lowValid, capturedAt_riseEdge, Bool.and_eq_true] at h
      obtain ⟨f, hf⟩ := exists_latest_of_flag (fun k => (capturedAt pin times k).haveFall) rfl
        (capturedAt_haveFall pin times) h.2
      exact ⟨m, f, rfl, latest_succ h.1, hf⟩

theorem latest_of_periodValid (h : (captured pin n).periodValid = true) :
    ∃ m r, n = m + 1 ∧ Latest (riseAt pin) m n ∧ Latest (riseAt pin) r m :=
  capturedAt_periodValid h

theorem latest_of_highValid (h : (captured pin n).highValid = true) :
    ∃ m r, n = m + 1 ∧ Latest (fallAt pin) m n ∧ Latest (riseAt pin) r m :=
  capturedAt_highValid h

theorem latest_of_lowValid (h : (captured pin n).lowValid = true) :
    ∃ m f, n = m + 1 ∧ Latest (riseAt pin) m n ∧ Latest (fallAt pin) f m :=
  capturedAt_lowValid h

end Registers

end HilLab.Rtl.CaptureEdges
