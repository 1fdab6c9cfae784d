import HilLab.Boards.PlantExcitation

namespace HilLab.Boards.DacSubmit

open Axu2cgbHilTop Lib.Clocked Plant.ClosedLoop PlantExcitation Rtl.Ad3542rQuadStream Rtl.CaptureEdges
open Rtl.HilDigitalCore (getLsbD_flags)

variable (p : TopParams) (x : Nat → TopInput)

/-- The codes dac_ch0_code to dac_ch3_code that the multiplexer selects. -/
def selectedCodes (s : Top) : Sample := (s.dacInput p).code

def lastAccepted : Nat → Option Sample
  | 0 => none
  | n + 1 =>
      if (topAt p x n).dac.accepts ((topAt p x n).dacInput p) then some (selectedCodes p (topAt p x n))
      else lastAccepted n

/-- With the outputs enabled for two clocks and no request pending, the codes
accepted last are the selected ones. -/
def NoLostUpdate : Prop :=
  ∀ n, (topAt p x n).outputsEnabled = true → (topAt p x (n + 1)).outputsEnabled = true →
    (topAt p x (n + 1)).dacSubmitPending = false →
    lastAccepted p x (n + 1) = some (selectedCodes p (topAt p x (n + 1)))

/-- No enabled clock that ends with no request pending changes the selected codes. -/
def ChangesRequested : Prop :=
  ∀ n, (topAt p x n).outputsEnabled = true → (topAt p x (n + 1)).outputsEnabled = true →
    (topAt p x n).submitPendingNext p = false →
    selectedCodes p (topAt p x (n + 1)) = selectedCodes p (topAt p x n)

section Steps

variable {p x} (s : Top) (i : TopInput)

theorem submitPendingNext_false (h : s.submitPendingNext p = false) :
    s.dac.accepts (s.dacInput p) = true ∨
      s.dacSubmitPending = false ∧ s.outputsEnabled = true ∧ s.outputsEnabledD = true ∧
        (s.testPatternEnable = false → s.plantUpdate = false) := by
  rw [Top.submitPendingNext] at h
  cases haccept : s.dac.accepts (s.dacInput p) with
  | true => exact .inl rfl
  | false =>
      rw [haccept] at h
      revert h
      cases s.outputsEnabled <;> cases s.outputsEnabledD <;> cases s.plantUpdate <;>
        cases s.testPatternEnable <;> cases s.dacPatternSelect != s.dacPatternSeen <;> simp

theorem plantCodes_step (hupdate : s.plantUpdate = false) (hclear : s.clearFaults = false) :
    (s.step p i).plantCodes p = s.plantCodes p := by
  have hcurrents : (s.step p i).plant.currents = s.plant.currents := by
    rw [Loop.currents, Loop.currents, Loop.sinCos, Loop.sinCos]
    simp only [Top.step, Loop.step, Loop.angleInput, Loop.plantInput, Top.loopInput, hupdate, hclear,
      Plant.PhaseAccumulator.Angles.step, Plant.PhaseAccumulator.accumulate,
      Plant.PmsmDqPlant.Pmsm.step, Bool.false_eq_true, if_false]
  rw [Top.plantCodes, Top.plantCodes, hcurrents]

theorem selectedCodes_step (htest : (s.step p i).testPatternEnable = s.testPatternEnable)
    (hpattern : s.testPatternEnable = true →
      (s.step p i).dacPatternSelect = s.dacPatternSelect)
    (hplant : s.testPatternEnable = false → s.plantUpdate = false ∧ s.clearFaults = false) :
    selectedCodes p (s.step p i) = selectedCodes p s := by
  rw [selectedCodes, selectedCodes, Top.dacInput, Top.dacInput, htest]
  cases hsel : s.testPatternEnable with
  | true => simp [hpattern hsel]
  | false =>
      obtain ⟨hupdate, hclear⟩ := hplant hsel
      simp [plantCodes_step s i hupdate hclear]

end Steps

section Runs

variable {p x}

theorem lastAccepted_next {n : Nat} (hpending : (topAt p x n).submitPendingNext p = false)
    (hbefore : ∀ k, n = k + 1 → (topAt p x k).outputsEnabled = true →
      (topAt p x (k + 1)).outputsEnabled = true → (topAt p x (k + 1)).dacSubmitPending = false →
      lastAccepted p x (k + 1) = some (selectedCodes p (topAt p x (k + 1)))) :
    lastAccepted p x (n + 1) = some (selectedCodes p (topAt p x n)) := by
  rw [lastAccepted]
  by_cases haccept : (topAt p x n).dac.accepts ((topAt p x n).dacInput p) = true
  · rw [if_pos haccept]
  · rw [if_neg haccept]
    obtain ⟨hold, hon, honBefore, -⟩ :=
      (submitPendingNext_false _ hpending).resolve_left haccept
    cases n with
    | zero => cases hold
    | succ k => exact hbefore k rfl honBefore hon hold

theorem no_lost_update_iff : NoLostUpdate p x ↔ ChangesRequested p x := by
  constructor
  · intro h n hon hnext hpending
    have hnow := lastAccepted_next hpending (fun k _ => h k)
    rw [h n hon hnext hpending] at hnow
    exact Option.some.inj hnow
  · intro h n
    induction n with
    | zero =>
        have hoff : (topAt p x 0).outputsEnabled = false := by
          change ((0#7).getLsbD 0 && !(0#7).getLsbD 3) = false
          decide
        intro hon
        rw [hoff] at hon
        cases hon
    | succ n ih =>
        intro hon hnext hpending
        rw [h (n + 1) hon hnext hpending]
        refine lastAccepted_next hpending (fun k hk => ?_)
        obtain rfl : n = k := Nat.succ.inj hk
        exact ih

def prompt : TopParams := { axu2cgb with dac := { axu2cgb.dac with startupDelayCycles := 0 } }

def driven (u : Nat → Bool) (n : Nat) : TopInput :=
  { pwmHighIn := if u n then 0b001 else 0b000, pwmLowIn := 0, spiSclkIn := false, spiCsNIn := true,
    spiMosiIn := false, hilEnableIn := true, encoderDirectionIn := true, clearFaultsIn := false,
    forceSafeIn := false, testPatternEnableIn := false, dacPatternSelectIn := 0 }

theorem driven_control (p : TopParams) (u : Nat → Bool) (n : Nat) :
    (topAt p (driven u) n).testPatternEnable = false ∧ (topAt p (driven u) n).clearFaults = false := by
  have hsync : (topAt p (driven u) n).controlSync.syncReg = 0 ∨
      (topAt p (driven u) n).controlSync.syncReg = 0b0000011 := by
    match n with
    | 0 => exact .inl rfl
    | 1 => exact .inl rfl
    | n + 2 =>
        have hbus : controlBus (driven u n) = 0b0000011 := by simp [controlBus, driven]
        exact .inr hbus
  rw [Top.testPatternEnable, Top.clearFaults, Rtl.Common.Sync2ff.bit, Rtl.Common.Sync2ff.bit]
  rcases hsync with hsync | hsync <;> rw [hsync] <;> decide

theorem driven_requested {u : Nat → Bool}
    (h : ∀ n, (topAt p (driven u) n).plantUpdate = true →
      (topAt p (driven u) n).submitPendingNext p = true) :
    ChangesRequested p (driven u) := by
  intro n _ _ hpending
  obtain ⟨htest, hclear⟩ := driven_control p u n
  have hupdate : (topAt p (driven u) n).plantUpdate = false := by
    cases hup : (topAt p (driven u) n).plantUpdate with
    | false => rfl
    | true =>
        rw [h n hup] at hpending
        cases hpending
  refine selectedCodes_step (topAt p (driven u) n) (driven u n) ?_ (fun hon => ?_) (fun _ => ⟨hupdate, hclear⟩)
  · exact (driven_control p u (n + 1)).1.trans htest.symm
  · rw [htest] at hon
    cases hon

theorem driven_update {u : Nat → Bool} {n : Nat} (h : (topAt p (driven u) n).plantUpdate = true) :
    3 ≤ n ∧ u (n - 3) = true := by
  have hvalid : (captureAt p (driven u) 0 n).periodValid = true := by
    have hbit := getLsbD_flags (fun j => (captureAt p (driven u) j n).periodValid) 0
    rw [Top.plantUpdate, Bool.and_eq_true, Bool.and_eq_true] at h
    exact hbit.symm.trans h.1.1
  have hrisen := (captureAt_follows p (driven u) 0).periodValid_iff (Nat.le_refl n) hvalid
  rw [hvalid] at hrisen
  obtain ⟨hle, hpin⟩ := Bool.and_eq_true_iff.mp (Bool.and_eq_true_iff.mp hrisen.symm).1
  have hu : (if u (n - 3) then 0b001 else 0b000 : BitVec 3).getLsbD 0 = true := hpin
  refine ⟨of_decide_eq_true hle, ?_⟩
  cases hcase : u (n - 3) with
  | true => rfl
  | false =>
      rw [hcase] at hu
      cases hu

/-- Phase u with a period of four clocks, whose last update comes with the first acceptance. -/
def burst (n : Nat) : Bool := decide (n % 4 < 2 ∧ n < 102)

theorem burst_lost : ¬ NoLostUpdate prompt (driven burst) := by
  intro h
  have hbefore : (topAt prompt (driven burst) 103).outputsEnabled = true := by decide +kernel
  have henabled : (topAt prompt (driven burst) 104).outputsEnabled = true := by decide +kernel
  have hpending : (topAt prompt (driven burst) 104).dacSubmitPending = false := by decide +kernel
  have haccepted : (lastAccepted prompt (driven burst) 104).map Sample.ch0 = some 35352 := by
    decide +kernel
  have hselected : (selectedCodes prompt (topAt prompt (driven burst) 104)).ch0 = 35623 := by
    decide +kernel
  rw [h 103 hbefore henabled hpending, Option.map_some, hselected] at haccepted
  exact absurd haccepted (by decide)

/-- The same with the period in question left out, and one more after it. -/
def gapped (n : Nat) : Bool := decide (n % 4 < 2 ∧ n / 4 ≠ 25 ∧ n < 106)

/-- The updates up to clock 99 are accepted in clock 103, that of clock 107 in clock 108, and
nothing is lost. -/
theorem no_lost_update_iff_gapped : NoLostUpdate prompt (driven gapped) ∧
    (lastAccepted prompt (driven gapped) 104).map Sample.ch0 = some 35352 ∧
    (topAt prompt (driven gapped) 107).plantUpdate = true ∧
    (lastAccepted prompt (driven gapped) 109).map Sample.ch0 = some 35093 := by
  have hupdates : ∀ n < 112, (topAt prompt (driven gapped) n).plantUpdate = true →
      (topAt prompt (driven gapped) n).submitPendingNext prompt = true := by decide +kernel
  refine ⟨no_lost_update_iff.mpr (driven_requested (fun n hup => hupdates n ?_ hup)), ?_, ?_, ?_⟩
  · obtain ⟨-, hpin⟩ := driven_update hup
    have hlast := (of_decide_eq_true hpin).2.2
    omega
  · decide +kernel
  · decide +kernel
  · decide +kernel

end Runs

end HilLab.Boards.DacSubmit
