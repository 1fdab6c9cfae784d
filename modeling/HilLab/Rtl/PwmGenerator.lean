import HilLab.Lib.Clocked
import HilLab.Lib.Duty

namespace HilLab.Rtl.PwmGenerator

open Lib.Clocked Lib.Duty

structure GeneratorInput where
  enable : Bool
  periodTicks : BitVec 32
  highTicks : BitVec 32
  deadtimeTicks : BitVec 32

structure Generator where
  counter : BitVec 32
  pwmHigh : Bool
  pwmLow : Bool
  cyclePulse : Bool

def Generator.reset : Generator :=
  { counter := 0, pwmHigh := false, pwmLow := false, cyclePulse := false }

def GeneratorInput.periodValid (i : GeneratorInput) : Bool := decide (4 ≤ i.periodTicks)

def GeneratorInput.lowStartExt (i : GeneratorInput) : BitVec 33 :=
  i.highTicks.setWidth 33 + i.deadtimeTicks.setWidth 33

def Generator.lastTick (s : Generator) (i : GeneratorInput) : Bool :=
  decide (i.periodTicks - 1 ≤ s.counter)

def Generator.highActive (s : Generator) (i : GeneratorInput) : Bool :=
  decide (i.deadtimeTicks < i.highTicks) && decide (i.deadtimeTicks ≤ s.counter) &&
    decide (s.counter < i.highTicks)

def Generator.lowActive (s : Generator) (i : GeneratorInput) : Bool :=
  !i.lowStartExt.getLsbD 32 && decide (i.lowStartExt.extractLsb' 0 32 < i.periodTicks) &&
    decide (i.lowStartExt.extractLsb' 0 32 ≤ s.counter) && decide (s.counter < i.periodTicks)

def Generator.step (s : Generator) (i : GeneratorInput) : Generator :=
  if !i.enable || !i.periodValid then
    { counter := 0, pwmHigh := false, pwmLow := false, cyclePulse := false }
  else
    { counter := if s.lastTick i then 0 else s.counter + 1
      pwmHigh := s.highActive i
      pwmLow := s.lowActive i
      cyclePulse := s.lastTick i }

section Exclusive

variable (s : Generator) (i : GeneratorInput)

theorem lowStartExt_toNat :
    i.lowStartExt.toNat = i.highTicks.toNat + i.deadtimeTicks.toNat := by
  have hh := i.highTicks.isLt
  have hd := i.deadtimeTicks.isLt
  rw [GeneratorInput.lowStartExt, BitVec.toNat_add, BitVec.toNat_setWidth, BitVec.toNat_setWidth]
  omega

theorem lowStartExt_carry :
    i.lowStartExt.getLsbD 32 = decide (2 ^ 32 ≤ i.highTicks.toNat + i.deadtimeTicks.toNat) := by
  rw [← lowStartExt_toNat]
  exact BitVec.msb_eq_decide i.lowStartExt

theorem lowActive_iff :
    s.lowActive i = true ↔
      i.highTicks.toNat + i.deadtimeTicks.toNat < i.periodTicks.toNat ∧
        i.highTicks.toNat + i.deadtimeTicks.toNat ≤ s.counter.toNat ∧
        s.counter.toNat < i.periodTicks.toNat := by
  have hp := i.periodTicks.isLt
  have hstart : (i.lowStartExt.extractLsb' 0 32).toNat =
      (i.highTicks.toNat + i.deadtimeTicks.toNat) % 2 ^ 32 := by
    rw [BitVec.extractLsb'_toNat, Nat.shiftRight_zero, lowStartExt_toNat]
  simp only [Generator.lowActive, lowStartExt_carry, Bool.and_eq_true, Bool.not_eq_true',
    decide_eq_true_eq, decide_eq_false_iff_not, BitVec.lt_def, BitVec.le_def, hstart]
  omega

theorem highActive_iff :
    s.highActive i = true ↔
      i.deadtimeTicks.toNat ≤ s.counter.toNat ∧ s.counter.toNat < i.highTicks.toNat := by
  simp only [Generator.highActive, Bool.and_eq_true, decide_eq_true_eq, BitVec.lt_def,
    BitVec.le_def]
  omega

theorem step_exclusive : ¬ ((s.step i).pwmHigh = true ∧ (s.step i).pwmLow = true) := by
  rw [Generator.step]
  split
  · rintro ⟨h, -⟩
    cases h
  · rintro ⟨hhigh, hlow⟩
    have hh := (highActive_iff s i).mp hhigh
    have hl := (lowActive_iff s i).mp hlow
    omega

end Exclusive

section Runs

def generated (x : Nat → GeneratorInput) (n : Nat) : Generator :=
  wave Generator.step .reset x n

/-- Whatever the inputs do, the two switches are never on together. -/
theorem generated_exclusive (x : Nat → GeneratorInput) (n : Nat) :
    ¬ ((generated x n).pwmHigh = true ∧ (generated x n).pwmLow = true) := by
  cases n with
  | zero =>
      rintro ⟨h, -⟩
      cases h
  | succ n => exact step_exclusive _ _

variable (P H D : BitVec 32)

def steady (_ : Nat) : GeneratorInput := ⟨true, P, H, D⟩

variable {P H D}

theorem steady_step (hP : 4 ≤ P.toNat) (s : Generator) (n : Nat) :
    s.step (steady P H D n) =
      { counter := if s.lastTick (steady P H D n) then 0 else s.counter + 1
        pwmHigh := s.highActive (steady P H D n)
        pwmLow := s.lowActive (steady P H D n)
        cyclePulse := s.lastTick (steady P H D n) } := by
  have hvalid : (steady P H D n).periodValid = true := decide_eq_true hP
  rw [Generator.step, hvalid]
  rfl

theorem counter_eq (hP : 4 ≤ P.toNat) (n : Nat) :
    (generated (steady P H D) n).counter.toNat = n % P.toNat := by
  induction n with
  | zero => exact (Nat.zero_mod _).symm
  | succ n ih =>
      have hlt := P.isLt
      have hstep : generated (steady P H D) (n + 1) =
          (generated (steady P H D) n).step (steady P H D n) := rfl
      have hone : (P - 1).toNat = P.toNat - 1 := by
        rw [BitVec.toNat_sub]
        simp
        omega
      have hlast : (generated (steady P H D) n).lastTick (steady P H D n) =
          decide (P.toNat - 1 ≤ n % P.toNat) := by
        rw [Generator.lastTick, steady, decide_eq_decide, BitVec.le_def, hone, ih]
      have hmod := Nat.mod_lt n (by omega : 0 < P.toNat)
      rw [hstep, steady_step hP, hlast, succ_mod n (by omega)]
      by_cases hwrap : n % P.toNat + 1 = P.toNat
      · rw [if_pos (decide_eq_true (by omega)), if_pos hwrap]
        rfl
      · rw [if_neg (by simpa using (by omega : ¬ P.toNat - 1 ≤ n % P.toNat)), if_neg hwrap,
          BitVec.toNat_add, ih]
        change (n % P.toNat + 1) % 2 ^ 32 = _
        rw [Nat.mod_eq_of_lt (by omega)]

/-- The outputs of a steady generator, one clock behind its counter. -/
theorem pwmHigh_eq (hP : 4 ≤ P.toNat) (n : Nat) :
    (generated (steady P H D) n).pwmHigh = duty P.toNat 1 D.toNat H.toNat n := by
  cases n with
  | zero => rfl
  | succ n =>
      have hstep : generated (steady P H D) (n + 1) =
          (generated (steady P H D) n).step (steady P H D n) := rfl
      rw [hstep, steady_step hP, Bool.eq_iff_iff, duty_iff, highActive_iff, counter_eq hP]
      simp only [steady, Nat.add_sub_cancel]
      omega

theorem pwmLow_eq (hP : 4 ≤ P.toNat) (hsum : H.toNat + D.toNat < P.toNat) (n : Nat) :
    (generated (steady P H D) n).pwmLow =
      duty P.toNat 1 (H.toNat + D.toNat) P.toNat n := by
  cases n with
  | zero => rfl
  | succ n =>
      have hstep : generated (steady P H D) (n + 1) =
          (generated (steady P H D) n).step (steady P H D n) := rfl
      rw [hstep, steady_step hP, Bool.eq_iff_iff, duty_iff, lowActive_iff, counter_eq hP]
      simp only [steady, Nat.add_sub_cancel]
      omega

end Runs

end HilLab.Rtl.PwmGenerator
