import HilLab.Host.Uio
import Mathlib.Data.Nat.Bitwise

namespace HilLab.Host.ScheduleDio

open Host.Core Uio Lib.Effect Rtl.EventFifo Rtl.ControlPlane Rtl.AxiMaster

variable {D W I : Nat} (p : Identity) (env : Env)

def stage (event : DioEvent) (s : Bus D W I) : Bus D W I :=
  ((((s.write32 p env regEvtTsLo (BitVec.ofNat 32 event.targetTicks)).write32 p env
    regEvtTsHi (BitVec.ofNat 32 (event.targetTicks >>> 32))).write32 p env
    regEvtMask (BitVec.ofNat 32 event.mask)).write32 p env
    regEvtValue (BitVec.ofNat 32 event.value)).write32 p env
    regEvtId (BitVec.ofNat 32 event.eventId)

def ready (event : DioEvent) (s : Bus D W I) : Bus D W I :=
  stage p env event (s.read32 p env regEvtStatus).2

def pushing (event : DioEvent) (s : Bus D W I) : Bus D W I :=
  (ready p env event s).pulsed p env regEvtPush 1

def staged (event : DioEvent) : Event W I :=
  { timestamp := BitVec.ofNat 64 event.targetTicks
    mask := (BitVec.ofNat 32 event.mask).setWidth W
    value := (BitVec.ofNat 32 event.value).setWidth W
    id := (BitVec.ofNat 32 event.eventId).setWidth I }

def Fits (W I : Nat) (event : DioEvent) : Prop :=
  event.targetTicks < 2 ^ 64 ∧ event.mask < 2 ^ min 32 W ∧ event.value < 2 ^ min 32 W ∧
    event.eventId < 2 ^ min 32 I

def Exact (entry : Event W I) (event : DioEvent) : Prop :=
  entry.timestamp.toNat = event.targetTicks ∧ entry.mask.toNat = event.mask ∧
    entry.value.toNat = event.value ∧ entry.id.toNat = event.eventId

theorem setWidth_word_iff (w n : Nat) :
    ((BitVec.ofNat 32 n).setWidth w).toNat = n ↔ n < 2 ^ min 32 w := by
  have h32 : 0 < 2 ^ 32 := by decide
  have hw : 0 < 2 ^ w := Nat.two_pow_pos w
  rw [BitVec.toNat_setWidth, BitVec.toNat_ofNat]
  constructor
  · intro h
    have h1 : n < 2 ^ w := h ▸ Nat.mod_lt _ hw
    have h2 : n < 2 ^ 32 := by
      have hle := Nat.mod_le (n % 2 ^ 32) (2 ^ w)
      have hlt := Nat.mod_lt n h32
      omega
    rcases Nat.le_total 32 w with hm | hm
    · rwa [Nat.min_eq_left hm]
    · rwa [Nat.min_eq_right hm]
  · intro h
    have h1 : n < 2 ^ 32 := Nat.lt_of_lt_of_le h (Nat.pow_le_pow_right (by decide) (Nat.min_le_left _ _))
    have h2 : n < 2 ^ w := Nat.lt_of_lt_of_le h (Nat.pow_le_pow_right (by decide) (Nat.min_le_right _ _))
    rw [Nat.mod_eq_of_lt h1, Nat.mod_eq_of_lt h2]

theorem exact_staged_iff (event : DioEvent) :
    Exact (staged event : Event W I) event ↔ Fits W I event := by
  have ht : (BitVec.ofNat 64 event.targetTicks).toNat = event.targetTicks ↔
      event.targetTicks < 2 ^ 64 := by
    rw [BitVec.toNat_ofNat]
    exact ⟨fun h => h ▸ Nat.mod_lt _ (by decide), Nat.mod_eq_of_lt⟩
  simp only [Exact, Fits, staged, ht, setWidth_word_iff]

theorem timestamp_words (n : Nat) :
    BitVec.ofNat 32 (n >>> 32) ++ BitVec.ofNat 32 n = BitVec.ofNat 64 n := by
  apply BitVec.eq_of_toNat_eq
  rw [BitVec.toNat_append, BitVec.toNat_ofNat, BitVec.toNat_ofNat, BitVec.toNat_ofNat,
    Nat.shiftLeft_eq, Nat.shiftRight_eq_div_pow]
  rw [← Nat.shiftLeft_eq, ← Nat.shiftLeft_add_eq_or_of_lt (Nat.mod_lt n (by decide)),
    Nat.shiftLeft_eq]
  omega

section Staging

variable {p env} {s : Bus D W I}

variable (p env) in
theorem write32_stages (h : s.Idle) {addr : BitVec 12} {data : BitVec 32} {e : Event W I}
    (hc : s.plane.stage.commit (request addr data) = { s.plane.stage with event := e }) :
    (s.write32 p env addr data).Idle ∧
      (s.write32 p env addr data).plane.stage.event = e ∧
      (s.write32 p env addr data).accepted = s.accepted ∧
      (s.plane.fifo.full = false → (s.write32 p env addr data).plane.fifo.full = false) := by
  have hq : (s.plane.stage.commit (request addr data)).pushPulse = false := by
    rw [hc]
    exact h.pushPulse
  obtain ⟨hacc, hfull⟩ := write32_quiet p env h addr data hq
  refine ⟨write32_idle h addr data, ?_, hacc, hfull⟩
  rw [write32_stage h addr data, hc]

variable (p env) in
theorem stage_spec (h : s.Idle) (event : DioEvent) :
    (stage p env event s).Idle ∧ (stage p env event s).plane.stage.event = staged event ∧
      (stage p env event s).accepted = s.accepted ∧
      (s.plane.fifo.full = false → (stage p env event s).plane.fifo.full = false) := by
  obtain ⟨h1, e1, a1, f1⟩ := write32_stages p env h
    (commit_evtTsLo _ (BitVec.ofNat 32 event.targetTicks))
  obtain ⟨h2, e2, a2, f2⟩ := write32_stages p env h1
    (commit_evtTsHi _ (BitVec.ofNat 32 (event.targetTicks >>> 32)))
  obtain ⟨h3, e3, a3, f3⟩ := write32_stages p env h2
    (commit_evtMask _ (BitVec.ofNat 32 event.mask))
  obtain ⟨h4, e4, a4, f4⟩ := write32_stages p env h3
    (commit_evtValue _ (BitVec.ofNat 32 event.value))
  obtain ⟨h5, e5, a5, f5⟩ := write32_stages p env h4
    (commit_evtId _ (BitVec.ofNat 32 event.eventId))
  refine ⟨h5, ?_, a5.trans (a4.trans (a3.trans (a2.trans a1))),
    fun hf => f5 (f4 (f3 (f2 (f1 hf))))⟩
  refine e5.trans ?_
  rw [e4, e3, e2, e1]
  simp only [BitVec.extractLsb'_append_eq_right, timestamp_words]
  rfl

end Staging

theorem readData_evtStatus (c : Plane D W I) (i : PlantInput) :
    c.readData p i regEvtStatus = c.eventStatus := by
  simp [Plane.readData, regEvtStatus, regMagic, regAbiVersion, regBackendId, regCapabilities,
    regTickHz, regCounterBits, regTimestampLo, regTimestampHi, regControl, regMinDeadtime,
    regAbzStep, regBuildId, regStatus, regPwmSeq, regEncoderPos, regPwm0Period, regPwm0High,
    regPwm0Low, regPwm1Period, regPwm1High, regPwm1Low, regPwm2Period, regPwm2High, regPwm2Low,
    regPwmValid, regPwmFaults, regEvtTsLo, regEvtTsHi, regEvtMask, regEvtValue, regEvtId]

theorem eventStatus_full_iff (c : Plane D W I) :
    c.eventStatus.toNat &&& Reg.evtStatusFull ≠ 0 ↔ c.fifo.full = true := by
  have hbit : c.eventStatus.toNat.testBit 1 = c.fifo.full := by
    rw [BitVec.testBit_toNat, Plane.eventStatus]
    simp only [BitVec.getLsbD_append]
    simp
  have hmask : c.eventStatus.toNat &&& Reg.evtStatusFull = c.fifo.full.toNat * 2 ^ 1 := by
    rw [← hbit]
    exact Nat.and_two_pow _ 1
  rw [hmask]
  cases c.fifo.full <;> simp

/-- The call raises exactly when the queue was full as the status was read;
otherwise it has performed every write. -/
theorem exec_scheduleDio (m : UioMmio) (event : DioEvent) {s : Bus D W I} (h : s.Idle) :
    exec (scheduleDio p env m event) s =
      if (s.sampled p env regEvtStatus).plane.fifo.full then
        (.error (.infrastructure "HIL AXI event FIFO is full"), (s.read32 p env regEvtStatus).2)
      else (.ok (), (ready p env event s).write32 p env regEvtPush 1) := by
  have hread : exec (m.read32 p env Reg.evtStatus) s =
      (.ok (s.read32 p env regEvtStatus).1.toNat, (s.read32 p env regEvtStatus).2) :=
    exec_read32 p env m (by decide) (by decide) rfl s
  have hfull : (s.read32 p env regEvtStatus).1.toNat &&& Reg.evtStatusFull ≠ 0 ↔
      (s.sampled p env regEvtStatus).plane.fifo.full = true := by
    rw [read32_data h, readData_evtStatus]
    exact eventStatus_full_iff _
  rw [scheduleDio, ZynqTransport.scheduleDio]
  rw [exec_bind_ok hread]
  by_cases hf : (s.sampled p env regEvtStatus).plane.fifo.full = true
  · rw [if_pos hf, if_pos (hfull.mpr hf)]
    rfl
  · rw [if_neg hf, if_neg (fun h' => hf (hfull.mp h'))]
    rw [exec_bind_ok (exec_write32 p env m (by decide) (by decide) rfl _ _),
      exec_bind_ok (exec_write32 p env m (by decide) (by decide) rfl _ _),
      exec_bind_ok (exec_write32 p env m (by decide) (by decide) rfl _ _),
      exec_bind_ok (exec_write32 p env m (by decide) (by decide) rfl _ _),
      exec_bind_ok (exec_write32 p env m (by decide) (by decide) rfl _ _),
      exec_write32 p env m (by decide) (by decide) rfl, word_mask, word_mask]
    rfl

section Push

variable {p env} {s : Bus D W I}

variable (p env) in
theorem pushing_spec (h : s.Idle) (event : DioEvent) :
    (pushing p env event s).plane.stage = { event := staged event, pushPulse := true } ∧
      ((ready p env event s).write32 p env regEvtPush 1).accepted =
        s.accepted ++ (pushing p env event s).accepts env ∧
      ((s.sampled p env regEvtStatus).plane.fifo.full = false →
        (pushing p env event s).plane.fifo.full = false) := by
  have hread := read32_idle p env h regEvtStatus
  obtain ⟨hidle, hevent, hacc, hfull⟩ := stage_spec p env hread event
  refine ⟨?_, ?_, ?_⟩
  · refine (pulsed_stage hidle regEvtPush 1).trans ?_
    rw [commit_evtPush, hevent]
    rfl
  · refine (write32_accepted hidle regEvtPush 1).trans ?_
    rw [hacc, read32_accepted h]
    rfl
  · intro hf
    exact (pulsed_quiet _ _ hidle regEvtPush 1).2 (hfull (read32_full h regEvtStatus hf))

/-- The queue takes the staged event unless FORCE_SAFE clears it or the event
is older than the newest one queued. -/
theorem pushing_accepts (h : s.Idle) (event : DioEvent)
    (hf : (s.sampled p env regEvtStatus).plane.fifo.full = false) :
    (pushing p env event s).accepts env =
      if (pushing p env event s).plane.cfgForceSafe (env.plant (pushing p env event s).cycle) = false ∧
          (pushing p env event s).plane.fifo.pushOrderOk (staged event) = true then
        [staged event]
      else [] := by
  obtain ⟨hstage, _, hfull⟩ := pushing_spec p env h event
  rw [Bus.accepts, Fifo.accepted, Fifo.acceptPush]
  simp only [Plane.fifoInput, hstage, hfull hf, Bool.not_false, Bool.true_and, Bool.and_eq_true,
    Bool.not_eq_true']

end Push

/-- What a caller may rely on: a return means exactly this event was queued, an
exception that nothing was. -/
def Delivers (before : Bus D W I) (event : DioEvent) : Except HostError Unit × Bus D W I → Prop
  | (.ok (), after) =>
      ∃ entry, after.accepted = before.accepted ++ [entry] ∧ Exact entry event
  | (.error _, after) => after.accepted = before.accepted

/-- The FULL bit is the only rejection the host sees: outside of it the call is
right when every field fits, FORCE_SAFE is off as the push arrives, and the
event is not older than the newest one queued. -/
theorem scheduleDio_delivers_iff {s : Bus D W I} (hs : Reachable p env s) (m : UioMmio)
    (event : DioEvent) :
    Delivers s event (exec (scheduleDio p env m event) s) ↔
      (s.sampled p env regEvtStatus).plane.fifo.full = true ∨
        Fits W I event ∧
          (pushing p env event s).plane.cfgForceSafe
            (env.plant (pushing p env event s).cycle) = false ∧
          ((pushing p env event s).plane.fifo.empty = true ∨
            (pushing p env event s).plane.fifo.lastTimestamp.toNat ≤ event.targetTicks) := by
  have h := hs.idle
  rw [exec_scheduleDio p env m event h]
  cases hf : (s.sampled p env regEvtStatus).plane.fifo.full with
  | true =>
      rw [if_pos rfl]
      exact iff_of_true (read32_accepted h regEvtStatus) (Or.inl rfl)
  | false =>
      obtain ⟨_, hacc, _⟩ := pushing_spec p env h event
      have horder : Fits W I event →
          ((pushing p env event s).plane.fifo.pushOrderOk (staged event) = true ↔
            (pushing p env event s).plane.fifo.empty = true ∨
              (pushing p env event s).plane.fifo.lastTimestamp.toNat ≤ event.targetTicks) := by
        intro hfits
        have ht : (staged event : Event W I).timestamp.toNat = event.targetTicks :=
          ((exact_staged_iff event).mpr hfits).1
        rw [Fifo.pushOrderOk, Bool.or_eq_true, decide_eq_true_iff, BitVec.le_def, ht]
      rw [if_neg Bool.false_ne_true]
      simp only [Delivers, hacc, pushing_accepts h event hf, Bool.false_eq_true, false_or]
      constructor
      · rintro ⟨entry, hentry, hexact⟩
        have hlist := List.append_cancel_left hentry
        split at hlist
        · rename_i hok
          rw [← (List.cons.inj hlist).1] at hexact
          have hfits := (exact_staged_iff event).mp hexact
          exact ⟨hfits, hok.1, (horder hfits).mp hok.2⟩
        · cases hlist
      · rintro ⟨hfits, hsafe, hok⟩
        refine ⟨staged event, ?_, (exact_staged_iff event).mpr hfits⟩
        rw [if_pos ⟨hsafe, (horder hfits).mpr hok⟩]

section Sample

def sampleIdentity : Identity :=
  { backendId := 0x00007010, capabilities := 0xC37, tickHz := 100000000, buildId := 1 }

def sampleEnv : Env :=
  { plant := fun _ =>
      { externalForceSafe := false, timestamp := 0, pwmPeriodTicks := 0, pwmHighTicks := 0,
        pwmLowTicks := 0, pwmMeasurementValid := 0, pwmFaultFlags := 0, encoderPositionEdges := 0,
        dioEventArmed := false, dioEventDonePulse := false }
    write := fun _ => ⟨0, 0, 0⟩
    read := fun _ => ⟨0, 0⟩ }

def sampleMmio : UioMmio := ⟨Reg.mapSize, Nat.le_refl _⟩

def sampleReset : Bus 64 16 16 := Bus.reset (fun _ => Event.zero 16 16)

def sampleEvent : DioEvent := { eventId := 7, targetTicks := 100, mask := 1, value := 1 }

/-- After FORCE_SAFE has been released the event is queued. -/
theorem scheduleDio_delivers_after_release :
    Delivers (sampleReset.write32 sampleIdentity sampleEnv regControl 1) sampleEvent
      (exec (scheduleDio sampleIdentity sampleEnv sampleMmio sampleEvent)
        (sampleReset.write32 sampleIdentity sampleEnv regControl 1)) := by
  refine (scheduleDio_delivers_iff sampleIdentity sampleEnv
    (Reachable.write regControl 1 (Reachable.reset _)) sampleMmio sampleEvent).mpr (Or.inr ?_)
  refine ⟨?_, ?_, Or.inl ?_⟩
  · rw [Fits]
    decide
  · decide +kernel
  · decide +kernel

/-- Out of reset FORCE_SAFE holds the FIFO clear: the call returns and nothing is
queued. -/
theorem scheduleDio_returns_in_reset :
    ¬ Delivers sampleReset sampleEvent
      (exec (scheduleDio sampleIdentity sampleEnv sampleMmio sampleEvent) sampleReset) := by
  have hidle : sampleReset.Idle := ⟨rfl, rfl, rfl, rfl, rfl⟩
  rw [exec_scheduleDio sampleIdentity sampleEnv sampleMmio sampleEvent hidle,
    if_neg (by decide +kernel)]
  rintro ⟨entry, hentry, _⟩
  have hnone : ((ready sampleIdentity sampleEnv sampleEvent sampleReset).write32 sampleIdentity
      sampleEnv regEvtPush 1).accepted = [] := by decide +kernel
  rw [hnone] at hentry
  cases hentry

end Sample

end HilLab.Host.ScheduleDio
