import HilLab.Boards.Axu2cgbHilTop
import HilLab.Lib.Clocked
import HilLab.Rtl.CaptureEdges

namespace HilLab.Boards.PlantExcitation

open Axu2cgbHilTop Lib.Clocked Plant.ClosedLoop Plant.Transforms Rtl.CaptureEdges
open Rtl.HilDigitalCore Rtl.PwmCapture

section Excitation

def topAt (p : TopParams) (x : Nat → TopInput) (n : Nat) : Top := wave (Top.step p) (.reset p) x n

def captureAt (p : TopParams) (x : Nat → TopInput) (k : Fin 3) (n : Nat) : Capture :=
  (topAt p x n).core.capture k

def pinAt (x : Nat → TopInput) (k : Fin 3) (n : Nat) : Bool := (x n).pwmHighIn.getLsbD k

def Measured (p : TopParams) (x : Nat → TopInput) (k : Fin 3) (n : Nat) : Prop :=
  ∃ m, m ≤ n ∧ (captureAt p x k m).periodValid = true

/-- In every update the duty of every measured phase is that of its latest measurement. -/
def ExcitesAll (p : TopParams) (x : Nat → TopInput) : Prop :=
  ∀ n, (topAt p x n).plantUpdate = true → ∀ k, Measured p x k n →
    ((topAt p x n).loopInput.dutyQ16 k).toNat =
      shareQ16 (captureAt p x k n).periodTicks (captureAt p x k n).highTicks

/-- In every update each measured phase has risen in the same clock as the
first one, or its latest measurement rounds to no duty. -/
def RisesTogether (p : TopParams) (x : Nat → TopInput) : Prop :=
  ∀ n, (topAt p x n).plantUpdate = true → ∀ k, Measured p x k n →
    risen (pinAt x k) 3 n = true ∨ (captureAt p x k n).periodTicks = 0 ∨
      (captureAt p x k n).highTicks.toNat * 65536 < (captureAt p x k n).periodTicks.toNat

variable (p : TopParams) (x : Nat → TopInput)

theorem captureAt_follows (k : Fin 3) : Follows (captureAt p x k) (pinAt x k) :=
  ⟨rfl, fun n => ⟨(topAt p x n).core.timestamp, rfl⟩⟩

theorem dutyQ16_eq (s : Top) (k : Fin 3) :
    s.loopInput.dutyQ16 k =
      pwmTicksToDutyQ16 (s.core.capture k).periodTicks (s.core.capture k).highTicks
        (s.core.capture k).periodValid := by
  have hperiod := extract_perPhase (fun j => (s.core.capture j).periodTicks) k
  have hhigh := extract_perPhase (fun j => (s.core.capture j).highTicks) k
  have hvalid := getLsbD_flags (fun j => (s.core.capture j).periodValid) k
  rw [LoopInput.dutyQ16, phaseWord, phaseWord]
  exact congr (congrArg₂ _ hperiod hhigh) hvalid

theorem duty_iff {n : Nat} {k : Fin 3} (h : Measured p x k n) :
    ((topAt p x n).loopInput.dutyQ16 k).toNat =
        shareQ16 (captureAt p x k n).periodTicks (captureAt p x k n).highTicks ↔
      risen (pinAt x k) 3 n = true ∨ (captureAt p x k n).periodTicks = 0 ∨
        (captureAt p x k n).highTicks.toNat * 65536 < (captureAt p x k n).periodTicks.toNat := by
  obtain ⟨m, hmn, hm⟩ := h
  have hvalid := (captureAt_follows p x k).periodValid_iff hmn hm
  rw [dutyQ16_eq]
  change (pwmTicksToDutyQ16 (captureAt p x k n).periodTicks (captureAt p x k n).highTicks
    (captureAt p x k n).periodValid).toNat = _ ↔ _
  rw [hvalid, ← shareQ16_eq_zero_iff]
  cases risen (pinAt x k) 3 n with
  | true =>
      rw [pwmTicksToDutyQ16_valid]
      exact iff_of_true rfl (.inl rfl)
  | false =>
      rw [pwmTicksToDutyQ16_invalid]
      exact ⟨fun h => .inr h.symm, fun h => (h.resolve_left Bool.false_ne_true).symm⟩

theorem excites_all_iff : ExcitesAll p x ↔ RisesTogether p x := by
  constructor
  · intro h n hupdate k hmeasured
    exact (duty_iff p x hmeasured).mp (h n hupdate k hmeasured)
  · intro h n hupdate k hmeasured
    exact (duty_iff p x hmeasured).mpr (h n hupdate k hmeasured)

/-- Three pins of a period of four clocks, the second one clock behind. -/
def skewed (n : Nat) : TopInput :=
  { pwmHighIn :=
      (if n % 4 < 2 then 0b101 else 0b000) ||| (if (n + 3) % 4 < 2 then 0b010 else 0b000)
    pwmLowIn := 0
    spiSclkIn := false
    spiCsNIn := true
    spiMosiIn := false
    hilEnableIn := true
    encoderDirectionIn := true
    clearFaultsIn := false
    forceSafeIn := false
    testPatternEnableIn := false
    dacPatternSelectIn := 0 }

theorem skewed_not_excited : ¬ ∀ (p : TopParams) (x : Nat → TopInput), ExcitesAll p x := by
  intro h
  have hupdate : (topAt axu2cgb skewed 11).plantUpdate = true := by decide +kernel
  have hmeasured : Measured axu2cgb skewed 1 11 := ⟨8, by decide, by decide +kernel⟩
  have hduty : ((topAt axu2cgb skewed 11).loopInput.dutyQ16 1).toNat = 0 := by decide +kernel
  have hshare : shareQ16 (captureAt axu2cgb skewed 1 11).periodTicks
      (captureAt axu2cgb skewed 1 11).highTicks = 32768 := by decide +kernel
  have hequal := h axu2cgb skewed 11 hupdate 1 hmeasured
  rw [hduty, hshare] at hequal
  exact absurd hequal (by decide)

end Excitation

end HilLab.Boards.PlantExcitation
