import HilLab.Lib.Clocked
import HilLab.Pru.PwmMeasure
import Mathlib.Tactic.SplitIfs

namespace HilLab.Pru.PwmBridge

open Lib.Clocked Lib.Seqlock Lib.CodeView PwmCaptureCore PwmMeasure

def block (m : Memory 32) (ops : Nat → Op) (n : Nat) : Memory 32 :=
  wave (fun m op => after op.code m) m ops n

theorem after_clear (inputs : Word) (m : Memory 32) :
    after (clear inputs) m =
      after (seq [set inputBits (inputs &&& logicalMask), set running (m running)])
        (initialised m (m tickHz) (m minDeadtimeTicks)) := by
  have hcode : clear inputs m = seq [init (m tickHz) (m minDeadtimeTicks),
      set inputBits (inputs &&& logicalMask), set running (m running)] m := by
    rw [clear, reading]
  rw [after, hcode]
  exact after_cons (init (m tickHz) (m minDeadtimeTicks)) _ m

def Bridge.op (k : Nat) (op : Op) (s : Bridge) : Bridge :=
  match op with
  | .start _ inputs => s.start inputs
  | .stop => { s with running := 0 }
  | .setMinDeadtime minDeadtime => { s with leg := { s.leg with minDeadtime } }
  | .process ticks inputs => s.process k ticks inputs
  | .clear inputs => { s with inputBits := inputs &&& logicalMask, leg := .clear s.leg.minDeadtime }

section Acts

variable {k : Nat} (hk : k < pairCount)
include hk

theorem acts_bump : Acts (bridgeAt k) (bump seqLock) id :=
  acts_header hk (fun m => m seqLock + 1#32) (by decide) (by decide) (by decide) (by decide)

theorem acts_stop : Acts (bridgeAt k) stop (fun s => { s with running := 0 }) := by
  apply acts_congr (acts_cons (acts_bump hk)
    (acts_cons (acts_running hk 0) (acts_cons (acts_bump hk) acts_nil)))
  exact fun _ => rfl

theorem acts_minDeadtime (minDeadtime : Word) :
    Acts (bridgeAt k) (set minDeadtimeTicks minDeadtime)
      (fun s => { s with leg := { s.leg with minDeadtime } }) := by
  intro m
  have hpolicy : after (set minDeadtimeTicks minDeadtime) m minDeadtimeTicks = minDeadtime :=
    after_store minDeadtimeTicks _ m
  have hrun : after (set minDeadtimeTicks minDeadtime) m running = m running :=
    run_of_avoids (avoids_set (by decide) _) m
  have hinputs : after (set minDeadtimeTicks minDeadtime) m inputBits = m inputBits :=
    run_of_avoids (avoids_set (by decide) _) m
  have hpair : pairWords k (after (set minDeadtimeTicks minDeadtime) m) = pairWords k m := by
    funext field
    apply run_of_avoids (avoids_set _ _)
    rw [minDeadtimeTicks, pairWord]
    omega
  have hchannel {i : Nat} (hi : i < channelCount) :
      channelAt i (after (set minDeadtimeTicks minDeadtime) m) = channelAt i m := by
    apply channelAt_avoids
    intro field hfield
    apply avoids_set
    have hlt := (channelWord_lt hi hfield).1
    rw [minDeadtimeTicks]
    omega
  rw [bridgeAt, legAt, pairView, hpolicy, hrun, hinputs, hpair, hchannel (high_lt hk),
    hchannel (low_lt hk)]
  rfl

theorem acts_setMinDeadtime (minDeadtime : Word) :
    Acts (bridgeAt k) (setMinDeadtime minDeadtime)
      (fun s => { s with leg := { s.leg with minDeadtime } }) := by
  apply acts_congr (acts_cons (acts_bump hk)
    (acts_cons (acts_minDeadtime hk minDeadtime) (acts_cons (acts_bump hk) acts_nil)))
  exact fun _ => rfl

theorem acts_clear (inputs : Word) :
    Acts (bridgeAt k) (clear inputs)
      (fun s => { s with inputBits := inputs &&& logicalMask, leg := .clear s.leg.minDeadtime }) := by
  intro m
  have hkept := acts_cons (acts_inputBits hk (inputs &&& logicalMask))
    (acts_cons (acts_running hk (m running)) acts_nil)
  rw [after_clear, hkept, initialised_bridge hk]
  rfl

theorem acts_op (op : Op) : Acts (bridgeAt k) op.code (Bridge.op k op) := by
  cases op with
  | start ticks inputs => exact acts_start hk ticks inputs
  | stop => exact acts_stop hk
  | setMinDeadtime minDeadtime => exact acts_setMinDeadtime hk minDeadtime
  | process ticks inputs => exact acts_process hk ticks inputs
  | clear inputs => exact acts_clear hk inputs

end Acts

section Presented

/-- What a capture has been shown: whether it runs, and the inputs it has taken in. -/
structure Presented where
  running : Bool
  inputs : Word

def Presented.op (op : Op) (p : Presented) : Presented :=
  match op with
  | .start _ inputs => { running := true, inputs := inputs &&& logicalMask }
  | .stop => { p with running := false }
  | .setMinDeadtime _ => p
  | .process _ inputs => if p.running then { p with inputs := inputs &&& logicalMask } else p
  | .clear inputs => { p with inputs := inputs &&& logicalMask }

structure Presents (p : Presented) (s : Bridge) : Prop where
  running : s.running ≠ 0 ↔ p.running = true
  inputs : s.inputBits = p.inputs
  masked : p.inputs &&& logicalMask = p.inputs

variable {p : Presented} {s : Bridge}

theorem masked_mask (x : Word) : x &&& logicalMask &&& logicalMask = x &&& logicalMask := by
  rw [BitVec.and_assoc, BitVec.and_self]

theorem presents_reset (leg : Leg) :
    Presents ⟨false, 0⟩ { running := 0, inputBits := 0, leg := leg } :=
  ⟨⟨fun h => absurd rfl h, fun h => absurd h Bool.false_ne_true⟩, rfl, rfl⟩

theorem presents_process (h : Presents p s) (k : Nat) (ticks inputs : Word) :
    Presents (p.op (.process ticks inputs)) (s.process k ticks inputs) := by
  rw [Presented.op]
  cases hrun : p.running with
  | false =>
      have hstopped : s.running = 0 := by
        by_contra hne
        exact absurd (h.running.mp hne) (by rw [hrun]; exact Bool.false_ne_true)
      rw [Bridge.process, if_pos (Or.inl hstopped)]
      exact h
  | true =>
      have hmask := masked_mask inputs
      rw [if_pos rfl, Bridge.process]
      split_ifs with hsame
      · have heq : inputs &&& logicalMask = p.inputs := by
          rcases hsame with hstopped | hsame
          · exact absurd hstopped (h.running.mpr hrun)
          · rw [hsame, h.inputs, h.masked]
        exact ⟨h.running.trans (by rw [hrun]), h.inputs.trans heq.symm, hmask⟩
      · exact ⟨h.running.trans (by rw [hrun]), rfl, hmask⟩

theorem presents_op (h : Presents p s) (k : Nat) (op : Op) :
    Presents (p.op op) (Bridge.op k op s) := by
  cases op with
  | start ticks inputs =>
      have hone : (1 : Word) ≠ 0 := by decide
      exact ⟨⟨fun _ => rfl, fun _ => hone⟩, rfl, masked_mask inputs⟩
  | stop =>
      exact ⟨⟨fun hne => absurd rfl hne, fun hrun => absurd hrun Bool.false_ne_true⟩, h.inputs,
        h.masked⟩
  | setMinDeadtime minDeadtime => exact ⟨h.running, h.inputs, h.masked⟩
  | process ticks inputs => exact presents_process h k ticks inputs
  | clear inputs => exact ⟨h.running, rfl, masked_mask inputs⟩

end Presented

end HilLab.Pru.PwmBridge
