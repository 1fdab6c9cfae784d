import HilLab.Lib.Clocked
import HilLab.Lib.Quadrature
import HilLab.Rtl.Common

namespace HilLab.Rtl.AbzEncoderCapture

open Common Lib.Clocked Lib.Quadrature

structure CaptureInput where
  encAAsync : Bool
  encBAsync : Bool
  encZAsync : Bool
  timestamp : BitVec 64
  clearFaults : Bool

structure AbzCapture where
  sync : Sync2ff 3
  abPrev : BitVec 2
  zPrev : Bool
  positionEdges : BitVec 32
  directionForward : Bool
  stepPulse : Bool
  indexPulse : Bool
  illegalTransitionLatched : Bool
  lastEdgeTimestamp : BitVec 64

def AbzCapture.reset : AbzCapture :=
  { sync := .reset, abPrev := 0, zPrev := false, positionEdges := 0, directionForward := true,
    stepPulse := false, indexPulse := false, illegalTransitionLatched := false,
    lastEdgeTimestamp := 0 }

def abOf (bits : BitVec 3) : BitVec 2 :=
  BitVec.ofBool (bits.getLsbD 0) ++ BitVec.ofBool (bits.getLsbD 1)

def AbzCapture.abNow (s : AbzCapture) : BitVec 2 := abOf s.sync.syncReg
def AbzCapture.zNow (s : AbzCapture) : Bool := s.sync.bit 2

def isForward (code : BitVec 4) : Bool :=
  code == 0b0001 || code == 0b0111 || code == 0b1110 || code == 0b1000

def isReverse (code : BitVec 4) : Bool :=
  code == 0b0010 || code == 0b1011 || code == 0b1101 || code == 0b0100

def AbzCapture.count (s : AbzCapture) (i : CaptureInput) : AbzCapture :=
  let idle :=
    { s with
      stepPulse := false
      indexPulse := s.zNow && !s.zPrev
      illegalTransitionLatched := if i.clearFaults then false else s.illegalTransitionLatched }
  if s.abNow ≠ s.abPrev then
    let edge := { idle with lastEdgeTimestamp := i.timestamp }
    if isForward (s.abPrev ++ s.abNow) then
      { edge with
        positionEdges := s.positionEdges + 1, directionForward := true, stepPulse := true }
    else if isReverse (s.abPrev ++ s.abNow) then
      { edge with
        positionEdges := s.positionEdges - 1, directionForward := false, stepPulse := true }
    else { edge with illegalTransitionLatched := true }
  else idle

def AbzCapture.step (s : AbzCapture) (i : CaptureInput) : AbzCapture :=
  { s.count i with
    sync := s.sync.step
      (BitVec.ofBool i.encZAsync ++ BitVec.ofBool i.encBAsync ++ BitVec.ofBool i.encAAsync)
    abPrev := s.abNow
    zPrev := s.zNow }

def CaptureInput.ab (i : CaptureInput) : BitVec 2 :=
  BitVec.ofBool i.encAAsync ++ BitVec.ofBool i.encBAsync

theorem abOf_input (i : CaptureInput) :
    abOf (BitVec.ofBool i.encZAsync ++ BitVec.ofBool i.encBAsync ++ BitVec.ofBool i.encAAsync) =
      i.ab := by
  rw [CaptureInput.ab]
  cases i.encAAsync <;> cases i.encBAsync <;> cases i.encZAsync <;> rfl

theorem count_adjacent {s : AbzCapture} {c d : Int} (hprev : s.abPrev = gray c)
    (hnow : s.abNow = gray d) (h : Adjacent c d) (i : CaptureInput) :
    (s.count i).positionEdges = s.positionEdges + BitVec.ofInt 32 (d - c) ∧
      (s.illegalTransitionLatched = false → (s.count i).illegalTransitionLatched = false) := by
  rw [AbzCapture.count, hprev, hnow]
  rcases h with rfl | rfl | rfl
  · refine ⟨by simp, fun hl => by simp [hl]⟩
  · have hstep : c + 1 - c = 1 := by omega
    rcases gray_cases c with ⟨h1, h2⟩ | ⟨h1, h2⟩ | ⟨h1, h2⟩ | ⟨h1, h2⟩ <;>
      exact ⟨by simp [h1, h2, hstep, isForward], fun hl => by simp [h1, h2, hl, isForward]⟩
  · have hstep : c - 1 - c = -1 := by omega
    have hc : c - 1 + 1 = c := by omega
    rcases gray_cases (c - 1) with ⟨h1, h2⟩ | ⟨h1, h2⟩ | ⟨h1, h2⟩ | ⟨h1, h2⟩ <;>
      rw [hc] at h2 <;>
      exact ⟨by simp [h1, h2, hstep, isForward, isReverse, BitVec.sub_eq_add_neg],
        fun hl => by simp [h1, h2, hl, isForward, isReverse]⟩

/-- The decoder has settled on the levels of a track at position c. -/
structure Settled (s : AbzCapture) (c : Int) : Prop where
  first : abOf s.sync.first = gray c
  now : s.abNow = gray c
  prev : s.abPrev = gray c
  legal : s.illegalTransitionLatched = false

theorem reset_settled : Settled .reset 0 := by
  constructor <;> rfl

/-- The pipeline of a settled decoder whose input walks along the track c: two
synchroniser stages and the previous sample, each a clock behind. -/
structure Follows (s : AbzCapture) (p : BitVec 32) (c₀ : Int) (c : Nat → Int) (n : Nat) : Prop where
  first : abOf s.sync.first = gray (lag c₀ c 1 n)
  now : s.abNow = gray (lag c₀ c 2 n)
  prev : s.abPrev = gray (lag c₀ c 3 n)
  position : s.positionEdges = p + BitVec.ofInt 32 (lag c₀ c 3 n - c₀)
  legal : s.illegalTransitionLatched = false

section Walk

variable {c₀ : Int} {c : Nat → Int} {p : BitVec 32}

theorem step_follows {s : AbzCapture} {i : CaptureInput} {n : Nat} (h : Follows s p c₀ c n)
    (h0 : Adjacent c₀ (c 0)) (hc : ∀ n, Adjacent (c n) (c (n + 1))) (hi : i.ab = gray (c n)) :
    Follows (s.step i) p c₀ c (n + 1) := by
  obtain ⟨hposition, hlegal⟩ := count_adjacent h.prev h.now (lag_adjacent h0 hc 2 n) i
  constructor
  · rw [lag_succ, lag_zero, ← hi]
    exact abOf_input i
  · rw [lag_succ]
    exact h.first
  · rw [lag_succ]
    exact h.now
  · rw [lag_succ]
    have hsum : lag c₀ c 2 n - c₀ = (lag c₀ c 3 n - c₀) + (lag c₀ c 2 n - lag c₀ c 3 n) := by
      omega
    rw [hsum, BitVec.ofInt_add, ← BitVec.add_assoc, ← h.position]
    exact hposition
  · exact hlegal h.legal

theorem wave_follows {s : AbzCapture} {x : Nat → CaptureInput} (hs : Settled s c₀)
    (h0 : Adjacent c₀ (c 0)) (hc : ∀ n, Adjacent (c n) (c (n + 1)))
    (hx : ∀ n, (x n).ab = gray (c n)) (n : Nat) :
    Follows (wave AbzCapture.step s x n) s.positionEdges c₀ c n := by
  induction n with
  | zero =>
      refine ⟨?_, ?_, ?_, ?_, hs.legal⟩
      · rw [lag_start]
        exact hs.first
      · rw [lag_start]
        exact hs.now
      · rw [lag_start]
        exact hs.prev
      · rw [lag_start, Int.sub_self]
        simp [wave]
  | succ n ih => exact step_follows ih h0 hc (hx n)

/-- Three clocks later a decoder has counted every step of its input track. -/
theorem wave_counts {s : AbzCapture} {x : Nat → CaptureInput} (hs : Settled s c₀)
    (h0 : Adjacent c₀ (c 0)) (hc : ∀ n, Adjacent (c n) (c (n + 1)))
    (hx : ∀ n, (x n).ab = gray (c n)) (n : Nat) :
    (wave AbzCapture.step s x (n + 3)).positionEdges =
        s.positionEdges + BitVec.ofInt 32 (c n - c₀) ∧
      (wave AbzCapture.step s x (n + 3)).illegalTransitionLatched = false := by
  have h := wave_follows hs h0 hc hx (n + 3)
  refine ⟨?_, h.legal⟩
  rw [h.position, lag_at]

end Walk

end HilLab.Rtl.AbzEncoderCapture
