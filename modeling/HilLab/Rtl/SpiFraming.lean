import HilLab.Rtl.Generators
import HilLab.Rtl.SsiEncoder
import Mathlib.Data.List.Induction
import Mathlib.Tactic.SplitIfs

namespace HilLab.Rtl.SpiFraming

open Generators
open SsiEncoder (shiftIn)

variable {W : Nat}

def counted (W : Nat) : Nat := W % 2 ^ 16

def received (W : Nat) (bits : List Bool) : BitVec W := bits.foldl shiftIn 0

/-- The emulator shows bit f of the frame and has received bits; after the last bit that it
counts it shows zeros. -/
structure Framing (frame : BitVec W) (f : Nat) (bits : List Bool) (s : SpiEncoder W) : Prop where
  active : s.frameActive = true
  remaining : s.remainingBits.toNat = counted W - f
  shifted : f = 0 ∨ f < counted W → s.shiftReg = frame <<< f
  shown : s.miso = (decide (f = 0 ∨ f < counted W) && frame.getMsbD f)
  count : s.receivedBitCount = BitVec.ofNat 16 bits.length
  data : s.receivedMosiData = received W bits

section Words

theorem shiftIn_eq (data : BitVec W) (b : Bool) :
    data <<< 1 ||| (BitVec.ofBool b).setWidth W = shiftIn data b := by
  apply BitVec.eq_of_getLsbD_eq
  intro j hj
  rw [shiftIn, BitVec.getLsbD_or, BitVec.getLsbD_shiftLeft, BitVec.getLsbD_setWidth,
    BitVec.getLsbD_setWidth, BitVec.getLsbD_concat, decide_eq_true hj]
  cases j with
  | zero => simp
  | succ j => simp

theorem received_concat (bits : List Bool) (b : Bool) :
    received W (bits ++ [b]) = shiftIn (received W bits) b := by
  rw [received, List.foldl_append]
  rfl

theorem received_bit (bits : List Bool) {j : Nat} (hj : j < W) :
    (received W bits).getLsbD j = bits.reverse.getD j false := by
  induction bits using List.reverseRecOn generalizing j with
  | nil => simp [received]
  | append_singleton bits b ih =>
      rw [received_concat, shiftIn, BitVec.getLsbD_setWidth, decide_eq_true hj, Bool.true_and,
        BitVec.getLsbD_concat, List.reverse_append]
      cases j with
      | zero => rfl
      | succ j =>
          rw [if_neg (Nat.succ_ne_zero j)]
          exact ih (Nat.lt_of_succ_lt hj)

end Words

section Clock

variable {s : SpiEncoder W} {i : SpiInput W} {frame : BitVec W} {f : Nat} {bits : List Bool}

theorem step_sync (s : SpiEncoder W) (i : SpiInput W) :
    (s.step i).sync = s.sync.step
        (BitVec.ofBool i.csNAsync ++ BitVec.ofBool i.sclkAsync ++ BitVec.ofBool i.mosiAsync) ∧
      (s.step i).csND = s.csN ∧ (s.step i).sclkD = s.sclk := by
  rw [SpiEncoder.step]
  dsimp only
  split_ifs <;> exact ⟨rfl, rfl, rfl⟩

theorem shift_active (s : SpiEncoder W) (i : SpiInput W) :
    (s.shift i).frameActive = (s.csFall || s.frameActive) := by
  rw [SpiEncoder.shift]
  cases s.csFall with
  | true => rfl
  | false =>
      rw [if_neg Bool.false_ne_true]
      split_ifs <;> rfl

theorem step_active (s : SpiEncoder W) (i : SpiInput W) :
    (s.step i).frameActive = ((s.csFall || s.frameActive) && !(s.csRise && s.frameActive)) := by
  rw [SpiEncoder.step]
  dsimp only
  cases s.csRise && s.frameActive with
  | true => exact (Bool.and_false _).symm
  | false =>
      rw [Bool.not_false, Bool.and_true, if_neg Bool.false_ne_true]
      split <;> exact shift_active s i

theorem step_done (s : SpiEncoder W) (i : SpiInput W) :
    (s.step i).frameDonePulse = (s.csRise && s.frameActive) := by
  rw [SpiEncoder.step]
  dsimp only
  cases s.csRise && s.frameActive with
  | true => rfl
  | false =>
      rw [if_neg Bool.false_ne_true]
      split <;> rfl

theorem step_selects (hfall : s.csFall = true) (hidle : s.frameActive = false) :
    Framing (effectiveFrame i) 0 [] (s.step i) := by
  have htop : (effectiveFrame i).getLsbD (W - 1) = (effectiveFrame i).getMsbD 0 :=
    (BitVec.msb_eq_getLsbD_last _).symm
  rw [SpiEncoder.step, SpiEncoder.shift, hidle, hfall]
  simp only [Bool.and_false, Bool.false_and, Bool.false_eq_true, if_false, if_true]
  refine ⟨rfl, ?_, fun _ => (BitVec.shiftLeft_zero _).symm, ?_, rfl, rfl⟩
  · exact BitVec.toNat_ofNat W 16
  · exact htop.trans (by simp)

theorem shift_falls (h : Framing frame f bits s) (hfall : s.csFall = false) (hlow : s.csN = false)
    (hclock : s.sclkFall = true) :
    (s.shift i).remainingBits.toNat = counted W - (f + 1) ∧
      (f + 1 < counted W → (s.shift i).shiftReg = frame <<< (f + 1)) ∧
      (s.shift i).miso = (decide (f + 1 < counted W) && frame.getMsbD (f + 1)) := by
  have hcounted : counted W ≤ W := Nat.mod_le _ _
  have hremaining := h.remaining
  have hone : (1 : BitVec 16).toNat = 1 := rfl
  have hbranch : (s.frameActive && !s.csN && s.sclkFall) = true := by
    rw [h.active, hlow, hclock]
    rfl
  rw [SpiEncoder.shift, hfall, hbranch, if_neg Bool.false_ne_true, if_pos rfl]
  by_cases hmore : 1 < s.remainingBits
  · rw [if_pos hmore]
    rw [BitVec.lt_def, hone, hremaining] at hmore
    have hshift := h.shifted (Or.inr (by omega))
    have hlt := s.remainingBits.isLt
    refine ⟨?_, fun _ => ?_, ?_⟩
    · change (s.remainingBits - 1).toNat = _
      rw [BitVec.toNat_sub, hone, hremaining]
      omega
    · change s.shiftReg <<< 1 = _
      rw [hshift, BitVec.shiftLeft_add]
    · change s.shiftReg.getLsbD (W - 2) = _
      have hplace : W - 2 - f = W - 1 - (f + 1) := by omega
      rw [hshift, BitVec.getLsbD_shiftLeft, BitVec.getMsbD_eq_getLsbD, hplace,
        decide_eq_true (by omega : W - 2 < W), decide_eq_false (by omega : ¬ W - 2 < f),
        decide_eq_true (by omega : f + 1 < W), decide_eq_true (by omega : f + 1 < counted W)]
      rfl
  · rw [if_neg hmore]
    rw [BitVec.lt_def, hone, hremaining] at hmore
    refine ⟨?_, fun hlt => by omega, ?_⟩
    · change 0 = _
      omega
    · rw [decide_eq_false (by omega : ¬ f + 1 < counted W), Bool.false_and]

theorem shift_holds (hfall : s.csFall = false) (hclock : s.sclkFall = false) : s.shift i = s := by
  rw [SpiEncoder.shift, hfall, hclock, Bool.and_false]
  rfl

theorem shift_received (hfall : s.csFall = false) :
    (s.shift i).receivedBitCount = s.receivedBitCount ∧
      (s.shift i).receivedMosiData = s.receivedMosiData := by
  rw [SpiEncoder.shift, hfall]
  simp only [Bool.false_eq_true, if_false]
  split_ifs <;> exact ⟨rfl, rfl⟩

theorem step_low (hactive : s.frameActive = true) (hfall : s.csFall = false) (hlow : s.csN = false) :
    ((s.step i).frameActive = true ∧ (s.step i).remainingBits = (s.shift i).remainingBits ∧
        (s.step i).shiftReg = (s.shift i).shiftReg ∧ (s.step i).miso = (s.shift i).miso) ∧
      (s.step i).receivedBitCount =
        (if s.sclkRise then s.receivedBitCount + 1 else s.receivedBitCount) ∧
      (s.step i).receivedMosiData =
        (if s.sclkRise then shiftIn s.receivedMosiData s.mosi else s.receivedMosiData) := by
  have hrise : s.csRise = false := by rw [SpiEncoder.csRise, hlow, Bool.and_false]
  have hshift : (s.shift i).frameActive = true := by rw [shift_active, hactive, Bool.or_true]
  obtain ⟨hcount, hdata⟩ := shift_received (i := i) hfall
  rw [SpiEncoder.step, hrise, hactive, hlow]
  cases s.sclkRise with
  | true => exact ⟨⟨hshift, rfl, rfl, rfl⟩, rfl, shiftIn_eq _ _⟩
  | false => exact ⟨⟨hshift, rfl, rfl, rfl⟩, hcount, hdata⟩

theorem step_continues (h : Framing frame f bits s) (hfall : s.csFall = false)
    (hlow : s.csN = false) :
    Framing frame (f + s.sclkFall.toNat) (bits ++ if s.sclkRise then [s.mosi] else [])
      (s.step i) := by
  obtain ⟨⟨hactive, hremaining, hshift, hshown⟩, hcount, hdata⟩ :=
    step_low (i := i) h.active hfall hlow
  constructor
  case active => exact hactive
  case remaining =>
    rw [hremaining]
    cases hclock : s.sclkFall with
    | true => exact (shift_falls h hfall hlow hclock).1
    | false =>
        rw [shift_holds hfall hclock]
        exact h.remaining
  case shifted =>
    intro hmore
    rw [hshift]
    cases hclock : s.sclkFall with
    | true =>
        rw [hclock] at hmore
        exact (shift_falls h hfall hlow hclock).2.1 (hmore.resolve_left (Nat.succ_ne_zero f))
    | false =>
        rw [hclock] at hmore
        rw [shift_holds hfall hclock]
        exact h.shifted hmore
  case shown =>
    rw [hshown]
    cases hclock : s.sclkFall with
    | true =>
        refine (shift_falls h hfall hlow hclock).2.2.trans ?_
        simp
    | false =>
        rw [shift_holds hfall hclock]
        exact h.shown
  case count =>
    rw [hcount, h.count]
    cases s.sclkRise with
    | true => simp [BitVec.ofNat_add]
    | false => simp
  case data =>
    rw [hdata, h.data]
    cases s.sclkRise with
    | true => exact (received_concat bits _).symm
    | false => simp

/-- The rise of the select ends the frame, and keeps what it has received. -/
theorem step_ends (h : Framing frame f bits s) (hrise : s.csRise = true) :
    (s.step i).frameDonePulse = true ∧
      (s.step i).receivedBitCount = BitVec.ofNat 16 bits.length ∧
      (s.step i).receivedMosiData = received W bits := by
  have hhigh := hrise
  rw [SpiEncoder.csRise, Bool.and_eq_true, Bool.not_eq_true'] at hhigh
  have hfall : s.csFall = false := by rw [SpiEncoder.csFall, hhigh.1, Bool.false_and]
  obtain ⟨hcount, hdata⟩ := shift_received (i := i) hfall
  rw [SpiEncoder.step, hrise, h.active, hhigh.2]
  exact ⟨rfl, hcount.trans h.count, hdata.trans h.data⟩

end Clock

end HilLab.Rtl.SpiFraming
