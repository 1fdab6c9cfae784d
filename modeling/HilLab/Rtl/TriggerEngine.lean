import HilLab.Rtl.CaptureEdges

namespace HilLab.Rtl.TriggerEngine

open Lib.Clocked Lib.Edges Common CaptureEdges

structure TriggerInput where
  enable : Bool
  triggerAsync : Bool
  triggerOnRise : Bool
  triggerOnFall : Bool
  clearStatus : Bool
  timestamp : BitVec 64

structure Trigger where
  sync : Sync2ff 1
  triggerD : Bool
  triggerPulse : Bool
  triggerTimestamp : BitVec 64
  triggerCount : BitVec 32
  triggerSeenLatched : Bool

def Trigger.reset : Trigger :=
  { sync := .reset, triggerD := false, triggerPulse := false, triggerTimestamp := 0,
    triggerCount := 0, triggerSeenLatched := false }

namespace Trigger

variable (s : Trigger) (i : TriggerInput)

def triggerSync : Bool := s.sync.bit 0
def riseEdge : Bool := s.triggerSync && !s.triggerD
def fallEdge : Bool := !s.triggerSync && s.triggerD

def selectedEdge : Bool := i.triggerOnRise && s.riseEdge || i.triggerOnFall && s.fallEdge

def step : Trigger :=
  let idle := { s with triggerPulse := false }
  let status :=
    if i.clearStatus then { idle with triggerCount := 0, triggerSeenLatched := false }
    else if i.enable && s.selectedEdge i then
      { idle with
        triggerPulse := true
        triggerTimestamp := i.timestamp
        triggerCount := s.triggerCount + 1
        triggerSeenLatched := true }
    else idle
  { status with
    sync := s.sync.step (BitVec.ofBool i.triggerAsync)
    triggerD := s.triggerSync }

theorem step_registers :
    (s.step i).sync = s.sync.step (BitVec.ofBool i.triggerAsync) ∧
      (s.step i).triggerD = s.triggerSync := ⟨rfl, rfl⟩

theorem step_pulse :
    (s.step i).triggerPulse = (!i.clearStatus && (i.enable && s.selectedEdge i)) := by
  rw [step]
  cases i.clearStatus <;> cases i.enable <;> cases s.selectedEdge i <;> rfl

theorem step_timestamp (h : i.clearStatus = false) (hedge : (i.enable && s.selectedEdge i) = true) :
    (s.step i).triggerTimestamp = i.timestamp := by
  simp [step, h, hedge]

theorem step_count :
    (s.step i).triggerCount =
      if i.clearStatus then 0
      else if i.enable && s.selectedEdge i then s.triggerCount + 1 else s.triggerCount := by
  rw [step]
  cases i.clearStatus <;> cases (i.enable && s.selectedEdge i) <;> rfl

end Trigger

section Runs

variable (x : Nat → TriggerInput)

def triggerState (n : Nat) : Trigger := wave Trigger.step .reset x n

def level : Nat → Bool := delayed (fun n => (x n).triggerAsync) 2

/-- A selected edge in a clock with enable. -/
def event (n : Nat) : Bool :=
  (x n).enable &&
    ((x n).triggerOnRise && rise (level x) n || (x n).triggerOnFall && fall (level x) n)

/-- The events before clock n, from the clock of the last clear on. -/
def eventsSince : Nat → Nat
  | 0 => 0
  | n + 1 => (if (x n).clearStatus then 0 else eventsSince n) + (event x n).toNat

/-- What clock n makes of its event, and only of that. -/
structure Reported (n : Nat) : Prop where
  pulse : (triggerState x (n + 1)).triggerPulse = event x n
  timestamp : event x n = true → (triggerState x (n + 1)).triggerTimestamp = (x n).timestamp
  count : (triggerState x (n + 1)).triggerCount.toNat = eventsSince x (n + 1)

theorem triggerState_succ (n : Nat) :
    triggerState x (n + 1) = (triggerState x n).step (x n) := rfl

theorem triggerSync_eq (n : Nat) : (triggerState x n).triggerSync = level x n := by
  have h : (triggerState x n).triggerSync =
      delayed (fun j => (BitVec.ofBool (x j).triggerAsync).getLsbD 0) 2 n :=
    (synchronised (q := fun n => (triggerState x n).sync) rfl (fun _ => rfl) 0 n).2
  refine h.trans ?_
  simp only [level, delayed]
  cases (x (n - 2)).triggerAsync <;> rfl

theorem triggerD_eq (n : Nat) : (triggerState x n).triggerD = before false (level x) n := by
  cases n with
  | zero => rfl
  | succ n => exact triggerSync_eq x n

theorem event_eq (n : Nat) :
    ((x n).enable && (triggerState x n).selectedEdge (x n)) = event x n := by
  rw [Trigger.selectedEdge, Trigger.riseEdge, Trigger.fallEdge, triggerSync_eq, triggerD_eq]
  rfl

theorem pulse_eq (n : Nat) :
    (triggerState x (n + 1)).triggerPulse = (!(x n).clearStatus && event x n) := by
  rw [triggerState_succ, Trigger.step_pulse, event_eq]

theorem count_succ (n : Nat) :
    (triggerState x (n + 1)).triggerCount =
      if (x n).clearStatus then 0
      else if event x n then (triggerState x n).triggerCount + 1
      else (triggerState x n).triggerCount := by
  rw [triggerState_succ, Trigger.step_count, event_eq]

variable {x}

theorem count_step {n : Nat} (hclear : ¬ ((x n).clearStatus = true ∧ event x n = true))
    (hfits : eventsSince x (n + 1) < 2 ^ 32)
    (h : (triggerState x n).triggerCount.toNat = eventsSince x n) :
    (triggerState x (n + 1)).triggerCount.toNat = eventsSince x (n + 1) := by
  rw [count_succ]
  rw [eventsSince] at hfits ⊢
  cases hc : (x n).clearStatus with
  | true =>
      have hevent : event x n = false := by simpa [hc] using hclear
      simp [hevent]
  | false =>
      cases he : event x n with
      | true =>
          simp [hc, he] at hfits ⊢
          omega
      | false => simpa [hc, he] using h

theorem reported {n : Nat} (hclear : ¬ ((x n).clearStatus = true ∧ event x n = true))
    (hfits : eventsSince x (n + 1) < 2 ^ 32)
    (h : (triggerState x n).triggerCount.toNat = eventsSince x n) : Reported x n := by
  constructor
  case pulse =>
    rw [pulse_eq]
    cases hevent : event x n with
    | true =>
        have hquiet : (x n).clearStatus = false := by simpa [hevent] using hclear
        simp [hquiet]
    | false => simp
  case timestamp =>
    intro hevent
    have hquiet : (x n).clearStatus = false := by simpa [hevent] using hclear
    rw [triggerState_succ]
    exact Trigger.step_timestamp _ _ hquiet ((event_eq x n).trans hevent)
  case count => exact count_step hclear hfits h

theorem Reported.kept {n : Nat} (h : Reported x n) :
    ¬ ((x n).clearStatus = true ∧ event x n = true) ∧ eventsSince x (n + 1) < 2 ^ 32 := by
  constructor
  · rintro ⟨hclear, hevent⟩
    have hpulse := h.pulse
    rw [pulse_eq, hclear, hevent] at hpulse
    cases hpulse
  · rw [← h.count]
    exact BitVec.isLt _

/-- No event is lost in a run exactly when none meets a clear and the counter
has room for them. -/
theorem trigger_events_reported_iff (x : Nat → TriggerInput) (N : Nat) :
    (∀ n, n < N → Reported x n) ↔
      ∀ n, n < N → ¬ ((x n).clearStatus = true ∧ event x n = true) ∧
        eventsSince x (n + 1) < 2 ^ 32 := by
  constructor
  · exact fun h n hn => (h n hn).kept
  · intro h
    have hcount : ∀ n, n ≤ N → (triggerState x n).triggerCount.toNat = eventsSince x n := by
      intro n
      induction n with
      | zero => exact fun _ => rfl
      | succ n ih => exact fun hn => count_step (h n hn).1 (h n hn).2 (ih (Nat.le_of_succ_le hn))
    exact fun n hn => reported (h n hn).1 (h n hn).2 (hcount n (Nat.le_of_lt hn))

/-- A rise of the pin in clock 1, and a clear in the clock in which it is seen. -/
def clearedRise (n : Nat) : TriggerInput :=
  { enable := true, triggerAsync := decide (1 ≤ n), triggerOnRise := true, triggerOnFall := false,
    clearStatus := decide (n = 3), timestamp := BitVec.ofNat 64 n }

theorem cleared_rise_is_lost :
    event clearedRise 3 = true ∧ (triggerState clearedRise 4).triggerPulse = false ∧
      (triggerState clearedRise 4).triggerCount = 0 ∧ eventsSince clearedRise 4 = 1 ∧
      ¬ Reported clearedRise 3 := by
  refine ⟨rfl, rfl, rfl, rfl, fun h => ?_⟩
  exact h.kept.1 ⟨rfl, rfl⟩

end Runs

end HilLab.Rtl.TriggerEngine
