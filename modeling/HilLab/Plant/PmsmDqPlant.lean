import HilLab.Lib.FixedPoint

namespace HilLab.Plant.PmsmDqPlant

open Lib.FixedPoint

/-- The constant inputs of pmsm_dq_plant_q16. -/
structure Coefficients where
  polePairs : BitVec 16
  kVdQ16 : BitVec 32
  kVqQ16 : BitVec 32
  kRDQ16 : BitVec 32
  kRQQ16 : BitVec 32
  kCrossDQ16 : BitVec 32
  kCrossQQ16 : BitVec 32
  kFluxQ16 : BitVec 32
  kTorqueQ16 : BitVec 32
  kAccelQ16 : BitVec 32
  kDampQ16 : BitVec 32
  kThetaQ16 : BitVec 32

structure PlantInput where
  updateEn : Bool
  vdQ16 : BitVec 32
  vqQ16 : BitVec 32
  loadTorqueQ16 : BitVec 32

structure Pmsm where
  idQ16 : BitVec 32
  iqQ16 : BitVec 32
  torqueQ16 : BitVec 32
  omegaMQ16 : BitVec 32
  thetaMQ16 : BitVec 32

def Pmsm.reset : Pmsm :=
  { idQ16 := 0, iqQ16 := 0, torqueQ16 := 0, omegaMQ16 := 0, thetaMQ16 := 0 }

def qmul (a b : BitVec 32) : BitVec 32 := mul 16 a b

def polePairsQ16 (polePairs : BitVec 16) : BitVec 32 := polePairs ++ (0 : BitVec 16)

def omegaEQ16 (polePairs : BitVec 16) (omegaMQ16 : BitVec 32) : BitVec 32 :=
  qmul omegaMQ16 (polePairsQ16 polePairs)

def Pmsm.weIqQ16 (c : Coefficients) (s : Pmsm) : BitVec 32 :=
  qmul (omegaEQ16 c.polePairs s.omegaMQ16) s.iqQ16

def Pmsm.weIdQ16 (c : Coefficients) (s : Pmsm) : BitVec 32 :=
  qmul (omegaEQ16 c.polePairs s.omegaMQ16) s.idQ16

def Pmsm.torqueNextQ16 (c : Coefficients) (s : Pmsm) : BitVec 32 := qmul c.kTorqueQ16 s.iqQ16

def Pmsm.didQ16 (c : Coefficients) (s : Pmsm) (i : PlantInput) : BitVec 32 :=
  qmul c.kVdQ16 i.vdQ16 - qmul c.kRDQ16 s.idQ16 + qmul c.kCrossDQ16 (s.weIqQ16 c)

def Pmsm.diqQ16 (c : Coefficients) (s : Pmsm) (i : PlantInput) : BitVec 32 :=
  qmul c.kVqQ16 i.vqQ16 - qmul c.kRQQ16 s.iqQ16 - qmul c.kCrossQQ16 (s.weIdQ16 c) -
    qmul c.kFluxQ16 (omegaEQ16 c.polePairs s.omegaMQ16)

def Pmsm.domegaQ16 (c : Coefficients) (s : Pmsm) (i : PlantInput) : BitVec 32 :=
  qmul c.kAccelQ16 (s.torqueNextQ16 c - i.loadTorqueQ16) - qmul c.kDampQ16 s.omegaMQ16

def Pmsm.dthetaQ16 (c : Coefficients) (s : Pmsm) : BitVec 32 := qmul c.kThetaQ16 s.omegaMQ16

def Pmsm.step (c : Coefficients) (s : Pmsm) (i : PlantInput) : Pmsm :=
  if i.updateEn then
    { idQ16 := s.idQ16 + s.didQ16 c i
      iqQ16 := s.iqQ16 + s.diqQ16 c i
      torqueQ16 := s.torqueNextQ16 c
      omegaMQ16 := s.omegaMQ16 + s.domegaQ16 c i
      thetaMQ16 := s.thetaMQ16 + s.dthetaQ16 c }
  else s

/-- The recurrence in the head comment of pmsm_dq_plant_q16, over unbounded
integers, every product rounded down. -/
structure Recurrence where
  polePairs : Int
  kvd : Int
  kvq : Int
  krd : Int
  krq : Int
  kcd : Int
  kcq : Int
  kflux : Int
  ktorque : Int
  kaccel : Int
  kdamp : Int

structure Motor where
  id : Int
  iq : Int
  wm : Int

structure Drive where
  vd : Int
  vq : Int
  tload : Int

namespace Recurrence

def we (r : Recurrence) (m : Motor) : Int := r.polePairs * m.wm
def weIq (r : Recurrence) (m : Motor) : Int := floorMul 16 (r.we m) m.iq
def weId (r : Recurrence) (m : Motor) : Int := floorMul 16 (r.we m) m.id
def te (r : Recurrence) (m : Motor) : Int := floorMul 16 r.ktorque m.iq

def did (r : Recurrence) (m : Motor) (u : Drive) : Int :=
  floorMul 16 r.kvd u.vd - floorMul 16 r.krd m.id + floorMul 16 r.kcd (r.weIq m)

def diq (r : Recurrence) (m : Motor) (u : Drive) : Int :=
  floorMul 16 r.kvq u.vq - floorMul 16 r.krq m.iq - floorMul 16 r.kcq (r.weId m) -
    floorMul 16 r.kflux (r.we m)

def dwm (r : Recurrence) (m : Motor) (u : Drive) : Int :=
  floorMul 16 r.kaccel (r.te m - u.tload) - floorMul 16 r.kdamp m.wm

def next (r : Recurrence) (m : Motor) (u : Drive) : Motor :=
  { id := m.id + r.did m u, iq := m.iq + r.diq m u, wm := m.wm + r.dwm m u }

end Recurrence

def Coefficients.recurrence (c : Coefficients) : Recurrence :=
  { polePairs := c.polePairs.toNat, kvd := c.kVdQ16.toInt, kvq := c.kVqQ16.toInt,
    krd := c.kRDQ16.toInt, krq := c.kRQQ16.toInt, kcd := c.kCrossDQ16.toInt,
    kcq := c.kCrossQQ16.toInt, kflux := c.kFluxQ16.toInt, ktorque := c.kTorqueQ16.toInt,
    kaccel := c.kAccelQ16.toInt, kdamp := c.kDampQ16.toInt }

def Pmsm.motor (s : Pmsm) : Motor :=
  { id := s.idQ16.toInt, iq := s.iqQ16.toInt, wm := s.omegaMQ16.toInt }

def PlantInput.drive (i : PlantInput) : Drive :=
  { vd := i.vdQ16.toInt, vq := i.vqQ16.toInt, tload := i.loadTorqueQ16.toInt }

/-- No word of an update differs from the integer it stands for. -/
structure Exact (c : Coefficients) (s : Pmsm) (i : PlantInput) : Prop where
  omegaE : (omegaEQ16 c.polePairs s.omegaMQ16).toInt = c.recurrence.we s.motor
  weIq : (s.weIqQ16 c).toInt = c.recurrence.weIq s.motor
  weId : (s.weIdQ16 c).toInt = c.recurrence.weId s.motor
  torque : (s.torqueNextQ16 c).toInt = c.recurrence.te s.motor
  did : (s.didQ16 c i).toInt = c.recurrence.did s.motor i.drive
  diq : (s.diqQ16 c i).toInt = c.recurrence.diq s.motor i.drive
  domega : (s.domegaQ16 c i).toInt = c.recurrence.dwm s.motor i.drive
  next : (s.step c { i with updateEn := true }).motor = c.recurrence.next s.motor i.drive

/-- The PLANT_* defaults of axu2cgb_hil_top. -/
def axu2cgbCoefficients : Coefficients :=
  { polePairs := 10, kVdQ16 := 5434, kVqQ16 := 5434, kRDQ16 := 3771, kRQQ16 := 3771,
    kCrossDQ16 := 3, kCrossQQ16 := 3, kFluxQ16 := 34, kTorqueQ16 := 6160, kAccelQ16 := 32768,
    kDampQ16 := 3, kThetaQ16 := 1 }

def vbusQ16 : BitVec 32 := 3145728
def currentLimitQ16 : BitVec 32 := 1638400
def speedLimitQ16 : BitVec 32 := 65536000

def absQ16 (value : BitVec 32) : BitVec 32 := if value.msb then -value else value

/-- The comparison that latches the state limit. -/
def Pmsm.overLimit (currentLimit speedLimit : BitVec 32) (s : Pmsm) : Bool :=
  currentLimit.slt (absQ16 s.idQ16) || currentLimit.slt (absQ16 s.iqQ16) ||
    speedLimit.slt (absQ16 s.omegaMQ16)

def Pmsm.WithinLimits (s : Pmsm) : Prop :=
  s.idQ16.toInt.natAbs ≤ 1638400 ∧ s.iqQ16.toInt.natAbs ≤ 1638400 ∧
    s.omegaMQ16.toInt.natAbs ≤ 65536000

instance (s : Pmsm) : Decidable s.WithinLimits := inferInstanceAs (Decidable (_ ∧ _))

def PlantInput.WithinBus (i : PlantInput) : Prop :=
  i.vdQ16.toInt.natAbs ≤ 3145728 ∧ i.vqQ16.toInt.natAbs ≤ 3145728 ∧ i.loadTorqueQ16 = 0

instance (i : PlantInput) : Decidable i.WithinBus := inferInstanceAs (Decidable (_ ∧ _))

theorem toInt_absQ16 {value : BitVec 32} (h : value.toInt.natAbs < 2 ^ 31) :
    (absQ16 value).toInt = value.toInt.natAbs := by
  have hmsb : value.msb = decide (value.toInt < 0) := BitVec.msb_eq_toInt
  rw [absQ16, hmsb]
  by_cases hneg : value.toInt < 0
  · rw [if_pos (decide_eq_true hneg), BitVec.toInt_neg]
    rw [Int.bmod_eq_of_le_mul_two] <;> omega
  · rw [if_neg (by simpa using hneg)]
    omega

theorem not_overLimit {s : Pmsm} (h : s.WithinLimits) :
    s.overLimit currentLimitQ16 speedLimitQ16 = false := by
  obtain ⟨hd, hq, hω⟩ := h
  have hcur : currentLimitQ16.toInt = 1638400 := by decide
  have hspd : speedLimitQ16.toInt = 65536000 := by decide
  rw [Pmsm.overLimit, Bool.or_eq_false_iff, Bool.or_eq_false_iff]
  refine ⟨⟨?_, ?_⟩, ?_⟩
  · rw [BitVec.slt, toInt_absQ16 (by omega), hcur]
    exact decide_eq_false (by omega)
  · rw [BitVec.slt, toInt_absQ16 (by omega), hcur]
    exact decide_eq_false (by omega)
  · rw [BitVec.slt, toInt_absQ16 (by omega), hspd]
    exact decide_eq_false (by omega)

/-- The speed and the currents between which both cross products fit a word. -/
def Pmsm.CrossFits (s : Pmsm) : Prop :=
  (-2 ^ 47 ≤ 10 * s.omegaMQ16.toInt * s.iqQ16.toInt ∧
      10 * s.omegaMQ16.toInt * s.iqQ16.toInt < 2 ^ 47) ∧
    (-2 ^ 47 ≤ 10 * s.omegaMQ16.toInt * s.idQ16.toInt ∧
      10 * s.omegaMQ16.toInt * s.idQ16.toInt < 2 ^ 47)

instance (s : Pmsm) : Decidable s.CrossFits := inferInstanceAs (Decidable (_ ∧ _))

section Range

variable {s : Pmsm} {i : PlantInput}

theorem omegaE_holds (hs : s.WithinLimits) :
    Holds (omegaEQ16 axu2cgbCoefficients.polePairs s.omegaMQ16)
      (axu2cgbCoefficients.recurrence.we s.motor) 655360000 := by
  have hpairs : Holds (polePairsQ16 axu2cgbCoefficients.polePairs) (10 * 2 ^ 16) 655360 := by
    constructor <;> decide
  have hprod := Holds.mul (f := 16) ⟨rfl, hs.2.2⟩ hpairs (by decide)
  have hfloor : floorMul 16 s.omegaMQ16.toInt (10 * 2 ^ 16) = 10 * s.omegaMQ16.toInt := by
    rw [floorMul]
    omega
  refine ⟨hprod.value.trans hfloor, ?_⟩
  have hω := hs.2.2
  have hwe : axu2cgbCoefficients.recurrence.we s.motor = 10 * s.omegaMQ16.toInt := rfl
  rw [hwe]
  omega

/-- A cross product is the floor of the true one exactly when that floor has a word. -/
theorem cross_exact_iff {a b : BitVec 32} {x : Int} (ha : a.toInt = x) :
    (qmul a b).toInt = floorMul 16 x b.toInt ↔
      -2 ^ 47 ≤ x * b.toInt ∧ x * b.toInt < 2 ^ 47 := by
  subst ha
  rw [qmul, toInt_mul_eq_iff (by decide), Fits, floorMul]
  omega

theorem torque_holds (hs : s.WithinLimits) :
    Holds (s.torqueNextQ16 axu2cgbCoefficients) (axu2cgbCoefficients.recurrence.te s.motor)
      154001 :=
  Holds.mul (A := 6160) ⟨rfl, by decide⟩ ⟨rfl, hs.2.1⟩ (by decide)

/-- The increment of a current is in range whatever word the cross product is. -/
theorem did_holds (hs : s.WithinLimits) (hi : i.WithinBus)
    (hw : Holds (s.weIqQ16 axu2cgbCoefficients) (axu2cgbCoefficients.recurrence.weIq s.motor)
      (2 ^ 31)) :
    Holds (s.didQ16 axu2cgbCoefficients i)
      (axu2cgbCoefficients.recurrence.did s.motor i.drive) (2 ^ 20) := by
  have hvd := Holds.mul (f := 16) (a := axu2cgbCoefficients.kVdQ16) (A := 5434)
    ⟨rfl, by decide⟩ ⟨rfl, hi.1⟩ (by decide)
  have hrd := Holds.mul (f := 16) (a := axu2cgbCoefficients.kRDQ16) (A := 3771)
    ⟨rfl, by decide⟩ ⟨rfl, hs.1⟩ (by decide)
  have hcd := Holds.mul (f := 16) (a := axu2cgbCoefficients.kCrossDQ16) (A := 3)
    ⟨rfl, by decide⟩ hw (by decide)
  exact ((hvd.sub hrd (by decide)).add hcd (by decide)).le (by decide)

theorem diq_holds (hs : s.WithinLimits) (hi : i.WithinBus)
    (hw : Holds (s.weIdQ16 axu2cgbCoefficients) (axu2cgbCoefficients.recurrence.weId s.motor)
      (2 ^ 31)) :
    Holds (s.diqQ16 axu2cgbCoefficients i)
      (axu2cgbCoefficients.recurrence.diq s.motor i.drive) (2 ^ 20) := by
  have hvq := Holds.mul (f := 16) (a := axu2cgbCoefficients.kVqQ16) (A := 5434)
    ⟨rfl, by decide⟩ ⟨rfl, hi.2.1⟩ (by decide)
  have hrq := Holds.mul (f := 16) (a := axu2cgbCoefficients.kRQQ16) (A := 3771)
    ⟨rfl, by decide⟩ ⟨rfl, hs.2.1⟩ (by decide)
  have hcq := Holds.mul (f := 16) (a := axu2cgbCoefficients.kCrossQQ16) (A := 3)
    ⟨rfl, by decide⟩ hw (by decide)
  have hfl := Holds.mul (f := 16) (a := axu2cgbCoefficients.kFluxQ16) (A := 34)
    ⟨rfl, by decide⟩ (omegaE_holds hs) (by decide)
  exact (((hvq.sub hrq (by decide)).sub hcq (by decide)).sub hfl (by decide)).le (by decide)

theorem domega_holds (hs : s.WithinLimits) (hi : i.WithinBus) :
    Holds (s.domegaQ16 axu2cgbCoefficients i)
      (axu2cgbCoefficients.recurrence.dwm s.motor i.drive) (2 ^ 20) := by
  have hload : i.loadTorqueQ16.toInt.natAbs ≤ 0 := by
    rw [hi.2.2]
    decide
  have htorque := (torque_holds hs).sub ⟨rfl, hload⟩ (by decide)
  have haccel := Holds.mul (f := 16) (a := axu2cgbCoefficients.kAccelQ16) (A := 32768)
    ⟨rfl, by decide⟩ htorque (by decide)
  have hdamp := Holds.mul (f := 16) (a := axu2cgbCoefficients.kDampQ16) (A := 3)
    ⟨rfl, by decide⟩ ⟨rfl, hs.2.2⟩ (by decide)
  exact (haccel.sub hdamp (by decide)).le (by decide)

theorem next_exact (hs : s.WithinLimits) {did diq dwm : Int}
    (hd : Holds (s.didQ16 axu2cgbCoefficients i) did (2 ^ 20))
    (hq : Holds (s.diqQ16 axu2cgbCoefficients i) diq (2 ^ 20))
    (hω : Holds (s.domegaQ16 axu2cgbCoefficients i) dwm (2 ^ 20)) :
    (s.step axu2cgbCoefficients { i with updateEn := true }).motor =
      ⟨s.motor.id + did, s.motor.iq + diq, s.motor.wm + dwm⟩ := by
  have hid := (Holds.add ⟨rfl, hs.1⟩ hd (by decide)).value
  have hiq := (Holds.add ⟨rfl, hs.2.1⟩ hq (by decide)).value
  have hwm := (Holds.add ⟨rfl, hs.2.2⟩ hω (by decide)).value
  rw [Pmsm.motor, Motor.mk.injEq]
  exact ⟨hid, hiq, hwm⟩

theorem exact_of_crossFits (hs : s.WithinLimits) (hi : i.WithinBus) (hc : s.CrossFits) :
    Exact axu2cgbCoefficients s i := by
  have hω := omegaE_holds hs
  have hwq : (s.weIqQ16 axu2cgbCoefficients).toInt =
      axu2cgbCoefficients.recurrence.weIq s.motor := (cross_exact_iff hω.value).mpr hc.1
  have hwd : (s.weIdQ16 axu2cgbCoefficients).toInt =
      axu2cgbCoefficients.recurrence.weId s.motor := (cross_exact_iff hω.value).mpr hc.2
  have hdid := did_holds hs hi (hwq ▸ Holds.word _)
  have hdiq := diq_holds hs hi (hwd ▸ Holds.word _)
  have hdω := domega_holds hs hi
  exact ⟨hω.value, hwq, hwd, (torque_holds hs).value, hdid.value, hdiq.value, hdω.value,
    next_exact hs hdid hdiq hdω⟩

/-- Inside the declared range an update is exact just when neither cross
product leaves its word. -/
theorem exact_iff_crossFits (hs : s.WithinLimits) (hi : i.WithinBus) :
    Exact axu2cgbCoefficients s i ↔ s.CrossFits := by
  constructor
  · intro h
    exact ⟨(cross_exact_iff h.omegaE).mp h.weIq, (cross_exact_iff h.omegaE).mp h.weId⟩
  · exact exact_of_crossFits hs hi

end Range

/-- At 100 rad/s with -2 A and 10 A in the two axes. -/
theorem exact_iff_crossFits_turning :
    Exact axu2cgbCoefficients ⟨-131072, 655360, 0, 6553600, 0⟩ ⟨true, -65536, vbusQ16, 0⟩ := by
  have hs : (Pmsm.mk (-131072) 655360 0 6553600 0).WithinLimits := by decide
  have hi : (PlantInput.mk true (-65536) vbusQ16 0).WithinBus := by decide
  exact (exact_iff_crossFits hs hi).mpr (by decide)

/-- At 200 rad/s and 20 A, both inside their limits, we * iq is 40000 in units
whose largest word is below 32768. -/
theorem weIq_wraps :
    ¬ ∀ (s : Pmsm) (i : PlantInput), s.WithinLimits → i.WithinBus →
      Exact axu2cgbCoefficients s i := by
  intro h
  have hs : (Pmsm.mk 0 1310720 0 13107200 0).WithinLimits := by decide
  have hi : (PlantInput.mk true 0 0 0).WithinBus := by decide
  exact absurd (h _ _ hs hi).weIq (by decide)

end HilLab.Plant.PmsmDqPlant
