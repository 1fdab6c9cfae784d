import HilLab.Rtl.SsiEncoder

namespace HilLab.Rtl.SsiRoundTrip

open Lib.Clocked Common SsiEncoder

variable {W : Nat}

structure LinkInput (W : Nat) where
  start : Bool
  frameData : BitVec W
  frameGapTicks : BitVec 32
  faultFlipMask : BitVec W
  faultEnable : Bool

/-- The master and the emulator, wired to each other. -/
structure Link (W : Nat) where
  master : Master W
  emulator : Emulator W

def Link.masterInput (H : BitVec 32) (s : Link W) (i : LinkInput W) : MasterInput :=
  { start := i.start, halfPeriodTicks := H, ssiDataAsync := s.emulator.ssiData }

def Link.emulatorInput (s : Link W) (i : LinkInput W) : EmulatorInput W :=
  { enable := true
    ssiClkAsync := s.master.ssiClk
    frameData := i.frameData
    frameGapTicks := i.frameGapTicks
    faultFlipMask := i.faultFlipMask
    faultEnable := i.faultEnable }

def Link.step (H : BitVec 32) (s : Link W) (i : LinkInput W) : Link W :=
  { master := s.master.step (s.masterInput H i)
    emulator := s.emulator.step (s.emulatorInput i) }

def LinkInput.selectedFrame (i : LinkInput W) : BitVec W :=
  if i.faultEnable then i.frameData ^^^ i.faultFlipMask else i.frameData

structure Settled (s : Link W) : Prop where
  master : Idle s.master
  notDone : s.master.donePulse = false
  first : s.emulator.sync.first = BitVec.ofBool true
  sync : s.emulator.sync.bit 0 = true
  previous : s.emulator.ssiClkD = true
  waiting : s.emulator.frameActive = false
  notSent : s.emulator.frameDonePulse = false

def linked (H : BitVec 32) (s : Link W) (x : Nat → LinkInput W) (n : Nat) : Link W :=
  wave (Link.step H) s x n

section Pipelines

theorem master_sync (s : Master W) (i : MasterInput) :
    (s.step i).sync = s.sync.step (BitVec.ofBool i.ssiDataAsync) := by
  rw [Master.step]
  cases s.busy with
  | false => cases i.start <;> rfl
  | true =>
      cases s.halfPeriodDue i with
      | false => rfl
      | true =>
          cases s.phaseLow with
          | false => rfl
          | true =>
              by_cases hlast : W - 1 ≤ s.bitCount.toNat <;> simp [Master.onRise, hlast]

theorem expire_sync (s next : Emulator W) (i : EmulatorInput W) :
    (s.expire next i).sync = next.sync ∧ (s.expire next i).ssiClkD = next.ssiClkD := by
  rw [Emulator.expire]
  split <;> exact ⟨rfl, rfl⟩

theorem shift_sync (s next : Emulator W) (i : EmulatorInput W) :
    (s.shift next i).sync = next.sync ∧ (s.shift next i).ssiClkD = next.ssiClkD := by
  rw [Emulator.shift]
  split_ifs <;> exact ⟨rfl, rfl⟩

theorem finish_sync (s next : Emulator W) :
    (s.finish next).sync = next.sync ∧ (s.finish next).ssiClkD = next.ssiClkD := by
  rw [Emulator.finish]
  split <;> exact ⟨rfl, rfl⟩

theorem emulator_sync (s : Emulator W) (i : EmulatorInput W) :
    (s.step i).sync = s.sync.step (BitVec.ofBool i.ssiClkAsync) ∧
      (s.step i).ssiClkD = s.sync.bit 0 := by
  cases he : i.enable with
  | false =>
      rw [Emulator.step, he]
      exact ⟨rfl, rfl⟩
  | true =>
      rw [step_enabled he, (finish_sync _ _).1, (finish_sync _ _).2, (shift_sync _ _ _).1,
        (shift_sync _ _ _).2, (expire_sync _ _ _).1, (expire_sync _ _ _).2]
      exact ⟨rfl, rfl⟩

variable {H : BitVec 32} {s : Link W} {x : Nat → LinkInput W}

theorem linked_succ (n : Nat) :
    linked H s x (n + 1) = (linked H s x n).step H (x n) := rfl

theorem ofBool_bit (b : Bool) : (BitVec.ofBool b).getLsbD 0 = b := by
  cases b <;> rfl

theorem emulator_first (n : Nat) :
    (linked H s x (n + 1)).emulator.sync.first = BitVec.ofBool (linked H s x n).master.ssiClk := by
  rw [linked_succ, Link.step, (emulator_sync _ _).1]
  rfl

/-- The emulator sees the clock two and three clocks late. -/
theorem emulator_sees (n : Nat) :
    (linked H s x (n + 2)).emulator.sync.bit 0 = (linked H s x n).master.ssiClk := by
  rw [linked_succ, Link.step, (emulator_sync _ _).1, Sync2ff.bit, Sync2ff.step, emulator_first]
  exact ofBool_bit _

theorem emulator_saw (n : Nat) :
    (linked H s x (n + 3)).emulator.ssiClkD = (linked H s x n).master.ssiClk := by
  rw [linked_succ, Link.step, (emulator_sync _ _).2, emulator_sees]

theorem clkFall_eq (n : Nat) :
    (linked H s x (n + 3)).emulator.clkFall =
      (!(linked H s x (n + 1)).master.ssiClk && (linked H s x n).master.ssiClk) := by
  rw [Emulator.clkFall, emulator_saw, emulator_sees (n + 1)]

theorem clkRise_eq (n : Nat) :
    (linked H s x (n + 3)).emulator.clkRise =
      ((linked H s x (n + 1)).master.ssiClk && !(linked H s x n).master.ssiClk) := by
  rw [Emulator.clkRise, emulator_saw, emulator_sees (n + 1)]

theorem master_sees (n : Nat) :
    (linked H s x (n + 2)).master.sync.bit 0 = (linked H s x n).emulator.ssiData := by
  have hfirst : (linked H s x (n + 1)).master.sync.first =
      BitVec.ofBool (linked H s x n).emulator.ssiData := by
    rw [linked_succ, Link.step, master_sync]
    rfl
  rw [linked_succ, Link.step, master_sync, Sync2ff.bit, Sync2ff.step, hfirst]
  exact ofBool_bit _

end Pipelines

section Transaction

variable {H : BitVec 32} {s : Link W} {x : Nat → LinkInput W} {t q r n : Nat}

/-- The clock r ticks into half period q of a transaction that starts in clock t. -/
def tick (H : BitVec 32) (t q r : Nat) : Nat := t + 1 + (q * H.toNat + r)

theorem tick_zero (H : BitVec 32) (t : Nat) : tick H t 0 0 = t + 1 := by
  rw [tick, Nat.zero_mul]

theorem tick_succ (H : BitVec 32) (t q r : Nat) : tick H t q (r + 1) = tick H t q r + 1 := rfl

theorem tick_row (h : r + 1 = H.toNat) : tick H t (q + 1) 0 = tick H t q r + 1 := by
  rw [tick, tick, Nat.succ_mul]
  omega

/-- The master waits, and the emulator has not seen the clock fall since its last frame. -/
structure Ready (H : BitVec 32) (s : Link W) (x : Nat → LinkInput W) (n : Nat) : Prop where
  master : Idle (linked H s x n).master
  emulator : (linked H s x (n + 3)).emulator.frameActive = false

structure Starts (H : BitVec 32) (s : Link W) (x : Nat → LinkInput W) (t : Nat) : Prop
    extends Ready H s x t where
  start : (x t).start = true

theorem high_no_fall (e : Emulator W) (h : e.sync.bit 0 = true) : e.clkFall = false := by
  rw [Emulator.clkFall, h]
  rfl

theorem emulator_waits (h : (linked H s x n).emulator.frameActive = false)
    (hfall : (linked H s x n).emulator.clkFall = false) :
    (linked H s x (n + 1)).emulator.frameActive = false ∧
      (linked H s x (n + 1)).emulator.frameDonePulse = false :=
  waiting_waits rfl h hfall

theorem settled_waits (hs : Settled s) :
    Ready H s x 0 ∧ (∀ n, n ≤ 3 → (linked H s x n).emulator.frameDonePulse = false) ∧
      ∀ n, n < 3 → (linked H s x n).emulator.clkFall = false := by
  have hfall0 : (linked H s x 0).emulator.clkFall = false := high_no_fall _ hs.sync
  have hwait0 : (linked H s x 0).emulator.frameActive = false := hs.waiting
  obtain ⟨hwait1, hdone1⟩ := emulator_waits hwait0 hfall0
  have hsync1 : (linked H s x 1).emulator.sync.bit 0 = true := by
    rw [linked_succ, Link.step, (emulator_sync _ _).1]
    change s.emulator.sync.first.getLsbD 0 = true
    rw [hs.first]
    rfl
  have hfall1 : (linked H s x 1).emulator.clkFall = false := high_no_fall _ hsync1
  obtain ⟨hwait2, hdone2⟩ := emulator_waits hwait1 hfall1
  have hsync2 : (linked H s x 2).emulator.sync.bit 0 = true :=
    (emulator_sees 0).trans hs.master.clock
  have hfall2 : (linked H s x 2).emulator.clkFall = false := high_no_fall _ hsync2
  obtain ⟨hwait3, hdone3⟩ := emulator_waits hwait2 hfall2
  refine ⟨⟨hs.master, hwait3⟩, fun n hn => ?_, fun n hn => ?_⟩
  · match n, hn with
    | 0, _ => exact hs.notSent
    | 1, _ => exact hdone1
    | 2, _ => exact hdone2
    | 3, _ => exact hdone3
  · match n, hn with
    | 0, _ => exact hfall0
    | 1, _ => exact hfall1
    | 2, _ => exact hfall2

theorem ready_waits (h : Ready H s x n) (hstart : (x n).start = false) :
    Ready H s x (n + 1) ∧ (linked H s x (n + 1)).master.donePulse = false ∧
      (linked H s x (n + 4)).emulator.frameDonePulse = false := by
  have hinput : (linked H s x n).masterInput H (x n) =
      ⟨false, H, (linked H s x n).emulator.ssiData⟩ := by
    rw [Link.masterInput, hstart]
  obtain ⟨hidle, hdone⟩ := idle_waits (H := H) (linked H s x n).emulator.ssiData h.master
  rw [← hinput] at hidle hdone
  have hclock : (linked H s x (n + 1)).master.ssiClk = true := hidle.clock
  have hfall : (linked H s x (n + 3)).emulator.clkFall = false := by
    rw [clkFall_eq, hclock]
    rfl
  obtain ⟨hwait, hsent⟩ := emulator_waits h.emulator hfall
  exact ⟨⟨hidle, hwait⟩, hdone, hsent⟩

section Running

variable (h : Starts H s x t) (hH : 6 ≤ H.toNat) (hW : 2 ≤ W) (hW' : W < 2 ^ 16)

include h hH hW

theorem clocking_first :
    Clocking H (linked H s x (tick H t 0 0)).master 0 0 ∧
      (linked H s x (tick H t 0 0)).master.donePulse = false ∧
      (linked H s x (tick H t 0 0)).master.capturedData = 0 := by
  have hinput : (linked H s x t).masterInput H (x t) =
      ⟨true, H, (linked H s x t).emulator.ssiData⟩ := by
    rw [Link.masterInput, h.start]
  rw [tick_zero, linked_succ, Link.step, hinput]
  exact idle_starts _ h.master (by omega) (by omega)

omit h hW in
theorem clocking_row (hfirst : Clocking H (linked H s x (tick H t q 0)).master q 0)
    (hr : r < H.toNat) : Clocking H (linked H s x (tick H t q r)).master q r := by
  induction r with
  | zero => exact hfirst
  | succ r ih =>
      rw [tick_succ, linked_succ]
      exact (clocking_ticks _ _ (ih (by omega)) (by omega) hr).1

include hW'

theorem clocking_at (hq : q < 2 * W) (hr : r < H.toNat) :
    Clocking H (linked H s x (tick H t q r)).master q r := by
  apply clocking_row hH _ hr
  induction q generalizing r with
  | zero => exact (clocking_first h hH hW).1
  | succ q ih =>
      have hlast : H.toNat - 1 + 1 = H.toNat := by omega
      have hrow := clocking_row hH (ih (by omega) hr) (r := H.toNat - 1) (by omega)
      rw [tick_row hlast, linked_succ]
      rcases Nat.mod_two_eq_zero_or_one q with heven | hodd
      · exact (clocking_falls _ _ hrow (by omega) hlast heven).1
      · exact (clocking_rises _ _ hrow (by omega) hW' hlast hodd hq).1

theorem clocking_last :
    Idle (linked H s x (tick H t (2 * W) 0)).master ∧
      (linked H s x (tick H t (2 * W) 0)).master.donePulse = true := by
  have hlast : H.toNat - 1 + 1 = H.toNat := by omega
  have hcount : 2 * W - 1 + 1 = 2 * W := by omega
  have hrow := clocking_at h hH hW hW' (q := 2 * W - 1) (r := H.toNat - 1) (by omega) (by omega)
  have hnext : tick H t (2 * W) 0 = tick H t (2 * W - 1) (H.toNat - 1) + 1 := by
    rw [← tick_row hlast, hcount]
  rw [hnext, linked_succ]
  obtain ⟨hidle, hdone, -⟩ := clocking_ends (x (tick H t (2 * W - 1) (H.toNat - 1))).start
    (linked H s x (tick H t (2 * W - 1) (H.toNat - 1))).emulator.ssiData hrow (by omega) hlast hcount
  exact ⟨hidle, hdone⟩

theorem done_within (hq : q < 2 * W) (hr : r < H.toNat) :
    (linked H s x (tick H t q r)).master.donePulse = false := by
  cases r with
  | succ r =>
      rw [tick_succ, linked_succ]
      exact (clocking_ticks _ _ (clocking_at h hH hW hW' hq (by omega)) (by omega) hr).2.1
  | zero =>
      cases q with
      | zero => exact (clocking_first h hH hW).2.1
      | succ q =>
          have hrow : H.toNat - 1 + 1 = H.toNat := by omega
          have hclocking := clocking_at h hH hW hW' (Nat.lt_of_succ_lt hq) (r := H.toNat - 1) (by omega)
          rw [tick_row hrow, linked_succ]
          rcases Nat.mod_two_eq_zero_or_one q with heven | hodd
          · exact (clocking_falls _ _ hclocking (by omega) hrow heven).2.1
          · exact (clocking_rises _ _ hclocking (by omega) hW' hrow hodd hq).2.1

theorem ssiClk_at (hq : q < 2 * W) (hr : r < H.toNat) :
    (linked H s x (tick H t q r)).master.ssiClk = decide (q % 2 = 0) :=
  (clocking_at h hH hW hW' hq hr).clock

theorem ssiClk_row (hq : q < 2 * W) (hr : r + 1 = H.toNat) :
    (linked H s x (tick H t q r + 1)).master.ssiClk = decide (q % 2 = 1) := by
  rw [← tick_row hr]
  rcases Nat.lt_or_eq_of_le (Nat.succ_le_of_lt hq) with hmore | hlast
  · rw [ssiClk_at h hH hW hW' hmore (by omega), decide_eq_decide]
    omega
  · have hsucc : q + 1 = 2 * W := hlast
    rw [hsucc, (clocking_last h hH hW hW').1.clock, eq_comm, decide_eq_true_iff]
    omega

theorem edges_within (hq : q < 2 * W) (hr : r + 1 < H.toNat) :
    (linked H s x (tick H t q r + 3)).emulator.clkFall = false ∧
      (linked H s x (tick H t q r + 3)).emulator.clkRise = false := by
  have hnow := ssiClk_at h hH hW hW' hq (Nat.lt_of_succ_lt hr)
  rw [clkFall_eq, clkRise_eq, ← tick_succ, hnow, ssiClk_at h hH hW hW' hq hr]
  cases decide (q % 2 = 0) <;> exact ⟨rfl, rfl⟩

theorem edges_row (hq : q < 2 * W) (hr : r + 1 = H.toNat) :
    (linked H s x (tick H t q r + 3)).emulator.clkFall = decide (q % 2 = 0) ∧
      (linked H s x (tick H t q r + 3)).emulator.clkRise = decide (q % 2 = 1) := by
  rw [clkFall_eq, clkRise_eq, ssiClk_at h hH hW hW' hq (by omega), ssiClk_row h hH hW hW' hq hr]
  rcases Nat.mod_two_eq_zero_or_one q with hp | hp <;> rw [hp] <;> exact ⟨rfl, rfl⟩

section Frame

def frameOf (H : BitVec 32) (x : Nat → LinkInput W) (t : Nat) : BitVec W :=
  (x (t + H.toNat + 3)).selectedFrame

/-- What the emulator does in a half period, three clocks behind the master. -/
def Shows (F : BitVec W) (e : Emulator W) (q r : Nat) : Prop :=
  if q = 0 then e.frameActive = false else Sending F e ((q + 1) / 2) r

variable (hgap : ∀ n, H.toNat ≤ (x n).frameGapTicks.toNat)

omit h hH hW hW' in
include hgap in
theorem gap_within (s : Link W) (n : Nat) (hr : r < H.toNat) :
    r < ((linked H s x n).emulatorInput (x n)).frameGapTicks.toNat :=
  Nat.lt_of_lt_of_le hr (hgap n)

include hgap

theorem shows_ticks (hq : q < 2 * W) (hr : r + 1 < H.toNat)
    (hshows : Shows (frameOf H x t) (linked H s x (tick H t q r + 3)).emulator q r) :
    Shows (frameOf H x t) (linked H s x (tick H t q (r + 1) + 3)).emulator q (r + 1) ∧
      (linked H s x (tick H t q (r + 1) + 3)).emulator.frameDonePulse = false := by
  obtain ⟨hfall, hrise⟩ := edges_within h hH hW hW' hq hr
  rw [Shows] at hshows ⊢
  by_cases hz : q = 0
  · rw [if_pos hz] at hshows ⊢
    exact emulator_waits hshows hfall
  · rw [if_neg hz] at hshows ⊢
    have hopen := gap_within hgap s (tick H t q r + 3) (Nat.lt_of_succ_lt hr)
    exact sending_holds rfl hshows hopen hrise hfall

theorem shows_row (hq : q + 1 < 2 * W) (hr : r + 1 = H.toNat)
    (hshows : Shows (frameOf H x t) (linked H s x (tick H t q r + 3)).emulator q r) :
    Shows (frameOf H x t) (linked H s x (tick H t (q + 1) 0 + 3)).emulator (q + 1) 0 ∧
      (linked H s x (tick H t (q + 1) 0 + 3)).emulator.frameDonePulse = false := by
  obtain ⟨hfall, hrise⟩ := edges_row h hH hW hW' (Nat.lt_of_succ_lt hq) hr
  have hopen := gap_within hgap s (tick H t q r + 3) (by omega : r < H.toNat)
  have hclock : tick H t (q + 1) 0 + 3 = tick H t q r + 3 + 1 := by
    rw [tick_row hr]
  rw [Shows] at hshows
  rw [Shows, if_neg (Nat.succ_ne_zero q), hclock, linked_succ]
  by_cases hz : q = 0
  · rw [if_pos hz] at hshows
    rw [hz] at hfall hshows ⊢
    have hframe : frameOf H x t = ((linked H s x (tick H t 0 r + 3)).emulatorInput
        (x (tick H t 0 r + 3))).selectedFrame := by
      have hlater : t + H.toNat + 3 = tick H t 0 r + 3 := by
        rw [tick]
        omega
      rw [frameOf, hlater]
      rfl
    rw [hframe]
    exact waiting_loads rfl hshows hfall (by omega)
  · rw [if_neg hz] at hshows
    rcases Nat.mod_two_eq_zero_or_one q with heven | hodd
    · have hbit : (q + 1 + 1) / 2 = (q + 1) / 2 + 1 := by omega
      rw [hbit]
      exact sending_shifts rfl hshows hopen
        (hfall.trans (decide_eq_true heven)) (by omega) hW'
    · have hbit : (q + 1 + 1) / 2 = (q + 1) / 2 := by omega
      rw [hbit]
      exact sending_rises rfl hshows hopen
        (hrise.trans (decide_eq_true hodd)) (by omega)

theorem shows_at (hq : q < 2 * W) (hr : r < H.toNat) :
    Shows (frameOf H x t) (linked H s x (tick H t q r + 3)).emulator q r ∧
      (linked H s x (tick H t q r + 3)).emulator.frameDonePulse = false := by
  induction q generalizing r with
  | zero =>
      induction r with
      | zero =>
          have hclock : (linked H s x (t + 1)).master.ssiClk = true := by
            rw [← tick_zero H t, ssiClk_at h hH hW hW' hq hr]
            rfl
          have hfall : (linked H s x (t + 3)).emulator.clkFall = false := by
            rw [clkFall_eq, hclock]
            rfl
          rw [tick_zero, Shows, if_pos rfl]
          exact emulator_waits h.emulator hfall
      | succ r ih => exact shows_ticks h hH hW hW' hgap hq hr (ih (by omega)).1
  | succ q ih =>
      induction r with
      | zero =>
          have hrow : H.toNat - 1 + 1 = H.toNat := by omega
          exact shows_row h hH hW hW' hgap hq hrow (ih (by omega) (by omega)).1
      | succ r ihr => exact shows_ticks h hH hW hW' hgap hq hr (ihr (by omega)).1

theorem shows_last :
    (linked H s x (tick H t (2 * W) 0 + 3)).emulator.frameActive = false ∧
      (linked H s x (tick H t (2 * W) 0 + 3)).emulator.frameDonePulse = true := by
  have hrow : H.toNat - 1 + 1 = H.toNat := by omega
  have hcount : 2 * W - 1 + 1 = 2 * W := by omega
  have hclock : tick H t (2 * W) 0 + 3 = tick H t (2 * W - 1) (H.toNat - 1) + 3 + 1 := by
    rw [← hcount, tick_row hrow, hcount]
  have hshows := (shows_at h hH hW hW' hgap (q := 2 * W - 1) (r := H.toNat - 1)
    (by omega) (by omega)).1
  have hrise := (edges_row h hH hW hW' (q := 2 * W - 1) (by omega) hrow).2
  rw [Shows, if_neg (by omega)] at hshows
  rw [hclock, linked_succ]
  exact sending_ends rfl hshows (hrise.trans (decide_eq_true (by omega))) (by omega)

theorem sampled_bit (hq : q < 2 * W) (hodd : q % 2 = 1) (hr : r + 1 = H.toNat) :
    (linked H s x (tick H t q r)).master.sync.bit 0 = (frameOf H x t).getMsbD (q / 2) := by
  have hback : tick H t q r = tick H t q (H.toNat - 6) + 3 + 2 := by
    rw [tick, tick]
    omega
  have hshows := (shows_at h hH hW hW' hgap hq (r := H.toNat - 6) (by omega)).1
  have hbit : (q + 1) / 2 - 1 = q / 2 := by omega
  rw [Shows, if_neg (by omega)] at hshows
  rw [hback, master_sees, hshows.shown, hbit]

omit h hH hW hW' hgap in
theorem shiftIn_frame (F : BitVec W) {k : Nat} (hk : k < W) :
    shiftIn (F >>> (W - k)) (F.getMsbD k) = F >>> (W - (k + 1)) := by
  apply BitVec.eq_of_getLsbD_eq
  intro j hj
  rw [shiftIn, BitVec.getLsbD_setWidth, decide_eq_true hj, Bool.true_and, BitVec.getLsbD_concat]
  cases j with
  | zero =>
      rw [if_pos rfl, BitVec.getLsbD_ushiftRight, BitVec.getMsbD_eq_getLsbD, decide_eq_true hk]
      have hplace : W - (k + 1) + 0 = W - 1 - k := by omega
      rw [hplace, Bool.true_and]
  | succ j =>
      rw [if_neg (Nat.succ_ne_zero j), BitVec.getLsbD_ushiftRight, BitVec.getLsbD_ushiftRight]
      have hplace : W - (k + 1) + (j + 1) = W - k + (j + 1 - 1) := by omega
      rw [hplace]

theorem captured_at (hq : q < 2 * W) (hr : r < H.toNat) :
    (linked H s x (tick H t q r)).master.capturedData = frameOf H x t >>> (W - q / 2) := by
  have hticks : ∀ {q r}, q < 2 * W → r + 1 < H.toNat →
      (linked H s x (tick H t q (r + 1))).master.capturedData =
        (linked H s x (tick H t q r)).master.capturedData := by
    intro q r hq hr
    rw [tick_succ, linked_succ]
    exact (clocking_ticks _ _ (clocking_at h hH hW hW' hq (by omega)) (by omega) hr).2.2
  induction q generalizing r with
  | zero =>
      induction r with
      | zero =>
          rw [(clocking_first h hH hW).2.2, Nat.zero_div, Nat.sub_zero, eq_comm]
          exact BitVec.ushiftRight_eq_zero (Nat.le_refl W)
      | succ r ih => rw [hticks hq hr, ih (by omega)]
  | succ q ih =>
      induction r with
      | zero =>
          have hrow : H.toNat - 1 + 1 = H.toNat := by omega
          have hlast : H.toNat - 1 < H.toNat := by omega
          have hclocking := clocking_at h hH hW hW' (Nat.lt_of_succ_lt hq) hlast
          rw [tick_row hrow, linked_succ]
          rcases Nat.mod_two_eq_zero_or_one q with heven | hodd
          · have hbits : (q + 1) / 2 = q / 2 := by omega
            rw [hbits, ← ih (by omega) hlast]
            exact (clocking_falls _ _ hclocking (by omega) hrow heven).2.2
          · have hbits : (q + 1) / 2 = q / 2 + 1 := by omega
            refine (clocking_rises _ _ hclocking (by omega) hW' hrow hodd hq).2.2.trans ?_
            rw [ih (by omega) hlast, sampled_bit h hH hW hW' hgap (by omega) hodd hrow, hbits]
            exact shiftIn_frame _ (by omega)
      | succ r ihr => rw [hticks hq hr, ihr (by omega)]

theorem captured_last :
    (linked H s x (tick H t (2 * W) 0)).master.capturedData = frameOf H x t := by
  have hrow : H.toNat - 1 + 1 = H.toNat := by omega
  have hlast : H.toNat - 1 < H.toNat := by omega
  have hcount : 2 * W - 1 + 1 = 2 * W := by omega
  have hclocking := clocking_at h hH hW hW' (q := 2 * W - 1) (by omega) hlast
  have hclock : tick H t (2 * W) 0 = tick H t (2 * W - 1) (H.toNat - 1) + 1 := by
    rw [← hcount, tick_row hrow, hcount]
  have hbits : (2 * W - 1) / 2 + 1 = W := by omega
  rw [hclock, linked_succ]
  refine (clocking_ends _ _ hclocking (by omega) hrow hcount).2.2.trans ?_
  rw [captured_at h hH hW hW' hgap (by omega) hlast,
    sampled_bit h hH hW hW' hgap (by omega) (by omega) hrow, shiftIn_frame _ (by omega), hbits,
    Nat.sub_self, BitVec.ushiftRight_zero]

end Frame

end Running

section Runs

variable (hs : Settled s) (hH : 6 ≤ H.toNat) (hW : 2 ≤ W) (hW' : W < 2 ^ 16)
  (hgap : ∀ n, H.toNat ≤ (x n).frameGapTicks.toNat)

/-- Clock n lies in the transaction that starts in clock t. -/
structure Within (H : BitVec 32) (s : Link W) (x : Nat → LinkInput W) (t q r n : Nat) : Prop
    extends Starts H s x t where
  half : q < 2 * W
  ticks : r < H.toNat
  clock : n = tick H t q r

include hH in
theorem within_next (h : Within H s x t q r n) :
    (∃ q' r', Within H s x t q' r' (n + 1)) ∨ n + 1 = tick H t (2 * W) 0 := by
  rcases Nat.lt_or_eq_of_le (Nat.succ_le_of_lt h.ticks) with hmore | hlast
  · refine .inl ⟨q, r + 1, h.toStarts, h.half, hmore, ?_⟩
    rw [h.clock, tick_succ]
  · have hrow : r + 1 = H.toNat := hlast
    rcases Nat.lt_or_eq_of_le (Nat.succ_le_of_lt h.half) with hmore' | hlast'
    · refine .inl ⟨q + 1, 0, h.toStarts, hmore', by omega, ?_⟩
      rw [h.clock, tick_row hrow]
    · have hcount : q + 1 = 2 * W := hlast'
      refine .inr ?_
      rw [h.clock, ← hcount, tick_row hrow]

include hH hW in
theorem starts_within (h : Starts H s x n) : Within H s x n 0 0 (n + 1) :=
  ⟨h, by omega, by omega, (tick_zero H n).symm⟩

include hH hW hW' in
theorem within_busy (h : Within H s x t q r n) : (linked H s x n).master.busy = true := by
  rw [h.clock]
  exact (clocking_at h.toStarts hH hW hW' h.half h.ticks).busy

include hH hW hW' hgap

theorem ready_last (h : Starts H s x t) : Ready H s x (tick H t (2 * W) 0) :=
  ⟨(clocking_last h hH hW hW').1, (shows_last h hH hW hW' hgap).1⟩

include hs

theorem ready_or_within (n : Nat) : Ready H s x n ∨ ∃ t q r, Within H s x t q r n := by
  induction n with
  | zero => exact .inl (settled_waits hs).1
  | succ n ih =>
      rcases ih with hready | ⟨t, q, r, hwithin⟩
      · cases hstart : (x n).start with
        | false => exact .inl (ready_waits hready hstart).1
        | true => exact .inr ⟨n, 0, 0, starts_within hH hW ⟨hready, hstart⟩⟩
      · rcases within_next hH hwithin with ⟨q', r', hnext⟩ | hend
        · exact .inr ⟨t, q', r', hnext⟩
        · rw [hend]
          exact .inl (ready_last hH hW hW' hgap hwithin.toStarts)

theorem starts_iff (t : Nat) :
    Starts H s x t ↔ (x t).start = true ∧ (linked H s x t).master.busy = false := by
  constructor
  · intro h
    exact ⟨h.start, h.master.busy⟩
  · rintro ⟨hstart, hidle⟩
    rcases ready_or_within hs hH hW hW' hgap t with hready | ⟨u, q, r, hwithin⟩
    · exact ⟨hready, hstart⟩
    · rw [within_busy hH hW hW' hwithin] at hidle
      cases hidle

theorem pulses_next (n : Nat) :
    ((linked H s x (n + 1)).master.donePulse = true →
        ∃ t, Starts H s x t ∧ n + 1 = tick H t (2 * W) 0) ∧
      ((linked H s x (n + 4)).emulator.frameDonePulse = true →
        ∃ t, Starts H s x t ∧ n + 1 = tick H t (2 * W) 0) := by
  have hwithin_none : ∀ {t q r}, Within H s x t q r (n + 1) →
      (linked H s x (n + 1)).master.donePulse = false ∧
        (linked H s x (n + 4)).emulator.frameDonePulse = false := by
    intro t q r h
    have hsent := (shows_at h.toStarts hH hW hW' hgap h.half h.ticks).2
    rw [← h.clock] at hsent
    refine ⟨?_, hsent⟩
    rw [h.clock]
    exact done_within h.toStarts hH hW hW' h.half h.ticks
  have hnone : (linked H s x (n + 1)).master.donePulse = false ∧
      (linked H s x (n + 4)).emulator.frameDonePulse = false ∨
      ∃ t, Starts H s x t ∧ n + 1 = tick H t (2 * W) 0 := by
    rcases ready_or_within hs hH hW hW' hgap n with hready | ⟨t, q, r, hwithin⟩
    · cases hstart : (x n).start with
      | false => exact .inl (ready_waits hready hstart).2
      | true => exact .inl (hwithin_none (starts_within hH hW ⟨hready, hstart⟩))
    · rcases within_next hH hwithin with ⟨q', r', hnext⟩ | hend
      · exact .inl (hwithin_none hnext)
      · exact .inr ⟨t, hwithin.toStarts, hend⟩
  rcases hnone with ⟨hdone, hsent⟩ | hend
  · rw [hdone, hsent]
    exact ⟨fun h => absurd h Bool.false_ne_true, fun h => absurd h Bool.false_ne_true⟩
  · exact ⟨fun _ => hend, fun _ => hend⟩

theorem done_iff (n : Nat) :
    (linked H s x n).master.donePulse = true ↔
      ∃ t, Starts H s x t ∧ n = tick H t (2 * W) 0 := by
  constructor
  · intro hdone
    cases n with
    | zero =>
        have hnot : (linked H s x 0).master.donePulse = false := hs.notDone
        rw [hnot] at hdone
        cases hdone
    | succ n => exact (pulses_next hs hH hW hW' hgap n).1 hdone
  · rintro ⟨t, h, rfl⟩
    exact (clocking_last h hH hW hW').2

theorem sent_iff (n : Nat) :
    (linked H s x n).emulator.frameDonePulse = true ↔
      ∃ t, Starts H s x t ∧ n = tick H t (2 * W) 0 + 3 := by
  constructor
  · intro hsent
    rcases Nat.lt_or_ge 3 n with hlater | hfirst
    · obtain ⟨m, rfl⟩ := Nat.exists_eq_add_of_le' (Nat.succ_le_of_lt hlater)
      obtain ⟨t, h, hend⟩ := (pulses_next hs hH hW hW' hgap m).2 hsent
      exact ⟨t, h, by omega⟩
    · rw [(settled_waits hs).2.1 n hfirst] at hsent
      cases hsent
  · rintro ⟨t, h, rfl⟩
    exact (shows_last h hH hW hW' hgap).2

theorem fall_within (h : (linked H s x (n + 3)).emulator.clkFall = true) :
    ∃ t q r, Within H s x t q r n ∧ r + 1 = H.toNat ∧ q % 2 = 0 := by
  have hhigh : ∀ m, (linked H s x (m + 1)).master.ssiClk = true →
      (linked H s x (m + 3)).emulator.clkFall = false := by
    intro m hclock
    rw [clkFall_eq, hclock]
    rfl
  rcases ready_or_within hs hH hW hW' hgap n with hready | ⟨t, q, r, hwithin⟩
  · cases hstart : (x n).start with
    | false =>
        rw [hhigh n (ready_waits hready hstart).1.master.clock] at h
        cases h
    | true =>
        have hfirst := (clocking_first ⟨hready, hstart⟩ hH hW).1.clock
        rw [tick_zero] at hfirst
        rw [hhigh n hfirst] at h
        cases h
  · have hclock := hwithin.clock
    rw [hclock] at h
    rcases Nat.lt_or_eq_of_le (Nat.succ_le_of_lt hwithin.ticks) with hmore | hlast
    · rw [(edges_within hwithin.toStarts hH hW hW' hwithin.half hmore).1] at h
      cases h
    · rw [(edges_row hwithin.toStarts hH hW hW' hwithin.half hlast).1, decide_eq_true_iff] at h
      exact ⟨t, q, r, hwithin, hlast, h⟩

theorem first_fall (h : Starts H s x t) {k : Nat} (hk : t ≤ k) (hlt : k < t + H.toNat + 3) :
    (linked H s x k).emulator.clkFall = false := by
  rcases Nat.lt_or_ge k 3 with hfirst | hge
  · exact (settled_waits hs).2.2 k hfirst
  · obtain ⟨m, rfl⟩ := Nat.exists_eq_add_of_le' hge
    rcases Nat.lt_or_ge t m with hlater | hle
    · have hclock : m = tick H t 0 (m - (t + 1)) := by
        rw [tick, Nat.zero_mul]
        omega
      rw [hclock]
      exact (edges_within h hH hW hW' (by omega) (by omega)).1
    · cases hfall : (linked H s x (m + 3)).emulator.clkFall with
      | false => rfl
      | true =>
          -- a fall seen that early is that of an earlier transaction, which is still busy
          obtain ⟨u, q, r, hwithin, hrow, heven⟩ := fall_within hs hH hW hW' hgap hfall
          have hhalf := hwithin.half
          have hclock := hwithin.clock
          have hbusy : (linked H s x t).master.busy = true := by
            rcases Nat.lt_or_eq_of_le hle with hlt' | rfl
            · have hnext : Within H s x u (q + 1) (t - (m + 1)) t := by
                refine ⟨hwithin.toStarts, by omega, by omega, ?_⟩
                have hfirst : tick H u (q + 1) 0 = m + 1 := by
                  rw [hclock, tick_row hrow]
                rw [tick] at hfirst ⊢
                omega
              exact within_busy hH hW hW' hnext
            · exact within_busy hH hW hW' hwithin
          rw [h.master.busy] at hbusy
          cases hbusy

end Runs

end Transaction

section RoundTrip

def StartsAt (H : BitVec 32) (s : Link W) (x : Nat → LinkInput W) (t : Nat) : Prop :=
  (x t).start = true ∧ (linked H s x t).master.busy = false

/-- The last clock of a transaction; the master's done pulse is up in it. -/
def finish (W : Nat) (H : BitVec 32) (t : Nat) : Nat := t + 1 + 2 * W * H.toNat

/-- A transaction transfers the frame selected in the clock in which the emulator first
sees its clock fall. -/
structure Transfers (H : BitVec 32) (s : Link W) (x : Nat → LinkInput W) (t : Nat) : Prop where
  busy : ∀ k, t < k → k < finish W H t → (linked H s x k).master.busy = true
  done : (linked H s x (finish W H t)).master.donePulse = true ∧
    (linked H s x (finish W H t)).master.busy = false
  fall : (linked H s x (t + H.toNat + 3)).emulator.clkFall = true
  first : ∀ k, t ≤ k → k < t + H.toNat + 3 → (linked H s x k).emulator.clkFall = false
  captured : (linked H s x (finish W H t)).master.capturedData =
    (x (t + H.toNat + 3)).selectedFrame

/-- Every transaction transfers its frame, and each of the two pulses marks the end of one. -/
structure RoundTrips (H : BitVec 32) (s : Link W) (x : Nat → LinkInput W) : Prop where
  transfers : ∀ t, StartsAt H s x t → Transfers H s x t
  done : ∀ n, (linked H s x n).master.donePulse = true ↔
    ∃ t, StartsAt H s x t ∧ n = finish W H t
  sent : ∀ n, (linked H s x n).emulator.frameDonePulse = true ↔
    ∃ t, StartsAt H s x t ∧ n = finish W H t + 3

variable {H : BitVec 32} {s : Link W} {x : Nat → LinkInput W}

theorem tick_finish (H : BitVec 32) (t : Nat) : tick H t (2 * W) 0 = finish W H t := rfl

theorem starts_transfers (hs : Settled s) (hH : 6 ≤ H.toNat) (hW : 2 ≤ W) (hW' : W < 2 ^ 16)
    (hgap : ∀ n, H.toNat ≤ (x n).frameGapTicks.toNat) {t : Nat} (h : Starts H s x t) :
    Transfers H s x t where
  busy := by
    intro k hlt hlast
    have hpos : 0 < H.toNat := by omega
    have hdiv := Nat.div_add_mod' (k - (t + 1)) H.toNat
    have hhalf : (k - (t + 1)) / H.toNat < 2 * W := by
      apply (Nat.div_lt_iff_lt_mul hpos).mpr
      rw [finish] at hlast
      omega
    have hwithin : Within H s x t ((k - (t + 1)) / H.toNat) ((k - (t + 1)) % H.toNat) k := by
      refine ⟨h, hhalf, Nat.mod_lt _ hpos, ?_⟩
      rw [tick, hdiv]
      omega
    exact within_busy hH hW hW' hwithin
  done := by
    rw [← tick_finish]
    exact ⟨(clocking_last h hH hW hW').2, (clocking_last h hH hW hW').1.busy⟩
  fall := by
    have hrow : H.toNat - 1 + 1 = H.toNat := by omega
    have hclock : t + H.toNat + 3 = tick H t 0 (H.toNat - 1) + 3 := by
      rw [tick]
      omega
    rw [hclock, (edges_row h hH hW hW' (by omega) hrow).1]
    rfl
  first := fun _ hk hlt => first_fall hs hH hW hW' hgap h hk hlt
  captured := captured_last h hH hW hW' hgap

/-- For words that the bit counters can count, and a half period that the synchronisers
leave time to sample in and the gap timer does not end, every transaction is a round trip. -/
theorem ssi_round_trip (hs : Settled s) (hH : 6 ≤ H.toNat) (hW : 2 ≤ W) (hW' : W < 2 ^ 16)
    (hgap : ∀ n, H.toNat ≤ (x n).frameGapTicks.toNat) : RoundTrips H s x where
  transfers := fun t h =>
    starts_transfers hs hH hW hW' hgap ((starts_iff hs hH hW hW' hgap t).mpr h)
  done := by
    intro n
    rw [done_iff hs hH hW hW' hgap]
    simp only [starts_iff hs hH hW hW' hgap, StartsAt, tick_finish]
  sent := by
    intro n
    rw [sent_iff hs hH hW hW' hgap]
    simp only [starts_iff hs hH hW hW' hgap, StartsAt, tick_finish]

def settled (W : Nat) : Link W :=
  { master := .reset
    emulator := { Emulator.reset with sync := ⟨BitVec.ofBool true, BitVec.ofBool true⟩ } }

theorem settled_settled (W : Nat) : Settled (settled W) :=
  ⟨⟨rfl, rfl⟩, rfl, rfl, ofBool_bit true, rfl, rfl, rfl⟩

def benchInput (_ : Nat) : LinkInput 24 :=
  { start := true, frameData := 0x5a3cc3, frameGapTicks := 16, faultFlipMask := 0,
    faultEnable := false }

theorem ssi_round_trip_bench :
    RoundTrips 8 (settled 24) benchInput ∧
      (linked 8 (settled 24) benchInput 385).master.capturedData = 0x5a3cc3 := by
  have hround := ssi_round_trip (H := 8) (x := benchInput) (settled_settled 24) (by decide)
    (by decide) (by decide) (fun _ => (by decide : (8 : BitVec 32).toNat ≤ (16 : BitVec 32).toNat))
  exact ⟨hround, (hround.transfers 0 ⟨rfl, rfl⟩).captured⟩

theorem step_done (m : Master W) (i : MasterInput) (hW : 2 ^ 16 < W) :
    (m.step i).donePulse = false := by
  have hlt := m.bitCount.isLt
  have hmore : ¬ W - 1 ≤ m.bitCount.toNat := by omega
  rw [Master.step]
  cases m.busy with
  | false => cases i.start <;> rfl
  | true =>
      cases m.halfPeriodDue i with
      | false => rfl
      | true => cases m.phaseLow <;> simp [Master.onRise, hmore]

/-- A word of 70000 bits never ends: no 16-bit counter reaches its last bit. -/
theorem wide_word_never_ends :
    ¬ ∀ (W : Nat) (H : BitVec 32) (s : Link W) (x : Nat → LinkInput W), Settled s →
      6 ≤ H.toNat → 2 ≤ W → (∀ n, H.toNat ≤ (x n).frameGapTicks.toNat) → RoundTrips H s x := by
  intro h
  have hround := h 70000 8 (settled 70000) (fun _ => ⟨true, 0, 16, 0, false⟩)
    (settled_settled 70000) (by decide) (by decide)
    (fun _ => (by decide : (8 : BitVec 32).toNat ≤ (16 : BitVec 32).toNat))
  have hdone := (hround.transfers 0 ⟨rfl, rfl⟩).done.1
  have hclock : finish 70000 8 0 = 1120000 + 1 := by decide
  rw [hclock, linked_succ, Link.step, step_done _ _ (by decide)] at hdone
  cases hdone

end RoundTrip

end HilLab.Rtl.SsiRoundTrip
