import HilLab.Host.ControlFrame
import HilLab.Rtl.CoreMaster

namespace HilLab.Host.Timeline

open Host.Core Uio ZynqTransport ScheduleDio Lib.Effect Rtl.EventFifo Rtl.ControlPlane Rtl.AxiMaster
open Rtl.DigitalCore Rtl.CoreMaster
open Rtl.EventPipeline (Action actionOf)
open Rtl.EventExecution (Execution lastFired)

variable {F W : Nat} (b : Board F) (m : UioMmio)

def coreMmio : Mmio32 (Rig F W) :=
  { read32 := fun offset => do
      liftExcept (m.check offset)
      let r ← get
      let (data, r) := r.read32 b (BitVec.ofNat 12 offset)
      set r
      pure data.toNat
    write32 := fun offset value => do
      liftExcept (m.check offset)
      modify (fun r =>
        r.write32 b (BitVec.ofNat 12 offset) (BitVec.ofNat 32 (value &&& 0xFFFFFFFF))) }

/-- The methods of the transport, and the time that passes between two calls. -/
inductive Call
  | wait (clocks : Nat)
  | scheduleDio (event : DioEvent)
  | forceSafe (asserted : Bool)
  | configureAbz (config : AbzConfig)
  | startAbz
  | stopAbz
  | clearFaults
  | readPwm (channel : Int)
  | readTimestamp
  | health

def discard {σ ε α : Type} (x : Eff σ ε α) : Eff σ ε Unit := do
  let _ ← x
  pure ()

def Call.run (tickHz : Nat) : Call → Eff (Rig F W) HostError Unit
  | .wait clocks => modify (fun r => r.wait b clocks)
  | .scheduleDio event => ZynqTransport.scheduleDio (coreMmio b m) event
  | .forceSafe asserted => ZynqTransport.forceSafe (coreMmio b m) asserted
  | .configureAbz config => ZynqTransport.configureAbz (coreMmio b m) config
  | .startAbz => ZynqTransport.startAbz (coreMmio b m)
  | .stopAbz => ZynqTransport.stopAbz (coreMmio b m)
  | .clearFaults => ZynqTransport.clearFaults (coreMmio b m)
  | .readPwm channel => discard (ZynqTransport.readPwm (coreMmio b m) channel)
  | .readTimestamp => discard (ZynqTransport.readTimestamp (coreMmio b m) tickHz)
  | .health => discard (ZynqTransport.health (coreMmio b m))

def play (tickHz : Nat) :
    List Call → Rig F W → List (Call × Except HostError Unit) × Rig F W
  | [], r => ([], r)
  | call :: calls, r =>
      let (result, next) := exec (call.run b m tickHz) r
      let (results, last) := play tickHz calls next
      ((call, result) :: results, last)

def Call.event? : Call → Option DioEvent
  | .scheduleDio event => some event
  | _ => none

def returned (results : List (Call × Except HostError Unit)) : List DioEvent :=
  results.filterMap (fun r => match r.2 with
    | .ok () => r.1.event?
    | .error _ => none)

section Keeps

variable {b m}

/-- HIL is active between two calls and the queue has taken these events. -/
def Took (es : List (Event W 16)) (r : Rig F W) : Prop := Working r ∧ r.bus.accepted = es

theorem exec_read {offset : Nat} (h : offset + 4 ≤ Reg.mapSize) (ha : offset &&& 3 = 0)
    (r : Rig F W) :
    exec ((coreMmio b m).read32 offset) r =
      (.ok (r.read32 b (BitVec.ofNat 12 offset)).1.toNat, (r.read32 b (BitVec.ofNat 12 offset)).2) := by
  simp only [coreMmio, check_ok m h ha]
  rfl

theorem exec_write {offset : Nat} (h : offset + 4 ≤ Reg.mapSize) (ha : offset &&& 3 = 0)
    (value : Nat) (r : Rig F W) :
    exec ((coreMmio b m).write32 offset value) r =
      (.ok (), r.write32 b (BitVec.ofNat 12 offset) (BitVec.ofNat 32 value)) := by
  simp only [coreMmio, check_ok m h ha, word_mask]
  rfl

theorem commit_enabled {c : Config} (hc : Enabled c) {addr : BitVec 12} (ha : addr ≠ regControl)
    (data : BitVec 32) : Enabled (settled (c.commit (request addr data))) := by
  have hne : (request addr data).awaddrHold ≠ regControl := ha
  rw [Config.commit, if_neg hne]
  split_ifs <;> exact hc

theorem commit_pushPulse {I : Nat} (s : Stage W I) {addr : BitVec 12} (ha : addr ≠ regEvtPush)
    (data : BitVec 32) : (s.commit (request addr data)).pushPulse = s.pushPulse := by
  have hne : (request addr data).awaddrHold ≠ regEvtPush := ha
  rw [Stage.commit]
  dsimp only
  split_ifs <;> rfl

variable (hpins : ∀ n, (b.pins n).externalForceSafe = false) {es : List (Event W 16)}

include hpins

theorem took_wait {r : Rig F W} (h : Took es r) (clocks : Nat) : Took es (r.wait b clocks) := by
  obtain ⟨hworking, haccepted⟩ := working_wait hpins h.1 clocks
  exact ⟨hworking, haccepted.trans h.2⟩

theorem took_read {r : Rig F W} (h : Took es r) (addr : BitVec 12) :
    Took es (r.read32 b addr).2 := by
  refine ⟨working_read32 hpins h.1 addr, ?_⟩
  rw [bus_read32, read32_accepted h.1.idle]
  exact h.2

theorem took_write {r : Rig F W} (h : Took es r) {addr : BitVec 12} (ha : addr ≠ regEvtPush)
    {data : BitVec 32} (hc : Enabled (settled (r.bus.settings.commit (request addr data)))) :
    Took es (r.write32 b addr data) := by
  have hquiet : (r.bus.plane.stage.commit (request addr data)).pushPulse = false :=
    (commit_pushPulse _ ha data).trans h.1.idle.pushPulse
  refine ⟨working_write32 hpins h.1 hc, ?_⟩
  rw [bus_write32, (write32_quiet _ _ h.1.idle addr data hquiet).1]
  exact h.2

theorem preserves_read (offset : Nat) :
    Preserves (Took es) ((coreMmio b m).read32 offset) :=
  preserves_bind (preserves_liftExcept _) (fun _ _ h => took_read hpins h _)

omit hpins in
theorem preserves_discard {α : Type} {P : Rig F W → Prop} {x : Eff (Rig F W) HostError α}
    (h : Preserves P x) : Preserves P (discard x) :=
  preserves_bind h (fun _ _ hs => hs)

/-- A change of REG_CONTROL that leaves HIL active. -/
def Spared (change : Nat → Nat) : Prop :=
  ∀ v, (v.testBit 0 = true → (change v).testBit 0 = true) ∧
    (v.testBit 1 = false → (change v).testBit 1 = false)

omit hpins in
theorem exec_update (change : Nat → Nat) (r : Rig F W) :
    exec (ZynqTransport.updateControl (coreMmio b m) change) r =
      (.ok (), (r.read32 b regControl).2.write32 b regControl
        (BitVec.ofNat 32 (change (r.read32 b regControl).1.toNat))) := by
  rw [ZynqTransport.updateControl, exec_bind_ok (exec_read (by decide) (by decide) r)]
  exact exec_write (by decide) (by decide) _ _

theorem control_read {r : Rig F W} (h : r.bus.Idle) :
    (r.read32 b regControl).1.toNat.testBit 0 = r.bus.settings.hilEnable ∧
      (r.read32 b regControl).1.toNat.testBit 1 = r.bus.settings.forceSafeSw := by
  obtain ⟨h0, h1, -⟩ := ControlFrame.control_bits b.params.identity
    (r.env b (readInput (b.read r.cycle) regControl)) h
  have hdata : (r.read32 b regControl).1 = (r.bus.read32 b.params.identity
      (r.env b (readInput (b.read r.cycle) regControl)) regControl).1 :=
    congrArg (fun s : Bus eventDepth W 16 => s.plane.read.rdata) (bus_run b r _ _)
  have hext : ControlFrame.externalAt b.params.identity
      (r.env b (readInput (b.read r.cycle) regControl)) r.bus = false := hpins _
  rw [hext, Bool.or_false] at h1
  rw [hdata]
  exact ⟨h0, h1⟩

omit hpins in
theorem getLsbD_word (n : Nat) {i : Nat} (hi : i < 32) : (BitVec.ofNat 32 n).getLsbD i = n.testBit i := by
  rw [BitVec.getLsbD_ofNat, decide_eq_true hi, Bool.true_and]

theorem preserves_update {change : Nat → Nat} (hc : Spared change) :
    Preserves (Took es) (ZynqTransport.updateControl (coreMmio b m : Mmio32 (Rig F W)) change) := by
  intro r h
  obtain ⟨h0, h1⟩ := control_read hpins h.1.idle
  have hread := took_read hpins h regControl
  obtain ⟨hset, hclear⟩ := hc (r.read32 b regControl).1.toNat
  rw [exec_update]
  refine took_write hpins hread (by decide) ?_
  rw [ControlFrame.commit_control, Enabled, getLsbD_word _ (by decide), getLsbD_word _ (by decide)]
  exact ⟨hset (h0.trans h.1.enabled.1), hclear (h1.trans h.1.enabled.2)⟩

omit hpins in
theorem spared_set {k : Nat} (h : k ≠ 1) : Spared (fun value => value ||| 1 <<< k) := by
  intro v
  simp only [ControlFrame.testBit_set, Bool.or_eq_true, Bool.or_eq_false_iff, decide_eq_false_iff_not]
  exact ⟨Or.inl, fun hv => ⟨hv, Ne.symm h⟩⟩

omit hpins in
theorem spared_without {k : Nat} (h : k ≠ 0) : Spared (fun value => without value (1 <<< k)) := by
  intro v
  simp only [ControlFrame.testBit_without, Bool.and_eq_true, Bool.not_eq_true', decide_eq_false_iff_not]
  exact ⟨fun hv => ⟨hv, Ne.symm h⟩, fun hv => by rw [hv, Bool.false_and]⟩

omit hpins in
theorem Spared.comp {c c' : Nat → Nat} (h : Spared c) (h' : Spared c') :
    Spared (fun value => c' (c value)) :=
  fun v => ⟨fun hv => (h' _).1 ((h v).1 hv), fun hv => (h' _).2 ((h v).2 hv)⟩

theorem preserves_configureAbz (config : AbzConfig) :
    Preserves (Took es) (ZynqTransport.configureAbz (coreMmio b m : Mmio32 (Rig F W)) config) := by
  have hstep : Preserves (Took es) ((coreMmio b m : Mmio32 (Rig F W)).write32 Reg.abzStep
      config.ticks.toNat) := by
    intro r h
    rw [exec_write (by decide) (by decide)]
    exact took_write hpins h (by decide) (commit_enabled h.1.enabled (by decide) _)
  refine preserves_bind (preserves_liftExcept _) (fun _ => preserves_bind hstep (fun _ =>
    preserves_update hpins ?_))
  cases config.forward with
  | true => exact spared_set (by decide)
  | false => exact spared_without (by decide)

/-- No call but schedule_dio queues an event, and only force_safe(True) stops HIL. -/
theorem preserves_call {call : Call} (hevent : call.event? = none) (hsafe : call ≠ .forceSafe true)
    (tickHz : Nat) : Preserves (Took es) (call.run b m tickHz : Eff (Rig F W) HostError Unit) := by
  cases call with
  | wait clocks => exact fun r h => took_wait hpins h clocks
  | scheduleDio event => cases hevent
  | forceSafe asserted =>
      cases asserted with
      | true => exact absurd rfl hsafe
      | false => exact preserves_update hpins (spared_without (by decide))
  | configureAbz config => exact preserves_configureAbz hpins config
  | startAbz =>
      exact preserves_update hpins (((spared_set (by decide)).comp (spared_set (by decide))).comp
        (spared_without (by decide)))
  | stopAbz => exact preserves_update hpins (spared_without (by decide))
  | clearFaults => exact preserves_update hpins (spared_set (by decide))
  | readPwm channel => exact preserves_discard (preserves_readPwm (preserves_read hpins) channel)
  | readTimestamp => exact 
      preserves_discard (preserves_readTimestampRounds (preserves_read hpins) tickHz 8)
  | health => exact preserves_discard (preserves_health (preserves_read hpins))

end Keeps

section Schedule

variable {b m} (hpins : ∀ n, (b.pins n).externalForceSafe = false) {es : List (Event W 16)}

def full : HostError := .infrastructure "HIL AXI event FIFO is full"

def stage (event : DioEvent) (r : Rig F W) : Rig F W :=
  ((((r.write32 b regEvtTsLo (BitVec.ofNat 32 event.targetTicks)).write32 b
    regEvtTsHi (BitVec.ofNat 32 (event.targetTicks >>> 32))).write32 b
    regEvtMask (BitVec.ofNat 32 event.mask)).write32 b
    regEvtValue (BitVec.ofNat 32 event.value)).write32 b
    regEvtId (BitVec.ofNat 32 event.eventId)

theorem exec_scheduleDio (event : DioEvent) (r : Rig F W) :
    exec (ZynqTransport.scheduleDio (coreMmio b m) event) r =
      if (r.read32 b regEvtStatus).1.toNat &&& Reg.evtStatusFull ≠ 0 then
        (.error full, (r.read32 b regEvtStatus).2)
      else (.ok (), (stage (b := b) event (r.read32 b regEvtStatus).2).write32 b regEvtPush 1) := by
  rw [ZynqTransport.scheduleDio, exec_bind_ok (exec_read (by decide) (by decide) r)]
  by_cases h : (r.read32 b regEvtStatus).1.toNat &&& Reg.evtStatusFull ≠ 0
  · exact (congrArg (fun x : Eff (Rig F W) HostError Unit => exec x _) (if_pos h)).trans
      (if_pos h).symm
  · refine (congrArg (fun x : Eff (Rig F W) HostError Unit => exec x _) (if_neg h)).trans ?_
    rw [if_neg h, exec_bind_ok (exec_write (by decide) (by decide) _ _),
      exec_bind_ok (exec_write (by decide) (by decide) _ _),
      exec_bind_ok (exec_write (by decide) (by decide) _ _),
      exec_bind_ok (exec_write (by decide) (by decide) _ _),
      exec_bind_ok (exec_write (by decide) (by decide) _ _),
      exec_write (by decide) (by decide), word_mask, word_mask]
    rfl

include hpins

theorem took_stages {r : Rig F W} (h : Took es r) {addr : BitVec 12} {data : BitVec 32}
    {e : Event W 16} (ha : addr ≠ regControl) (hp : addr ≠ regEvtPush)
    (hc : r.bus.plane.stage.commit (request addr data) = { r.bus.plane.stage with event := e }) :
    Took es (r.write32 b addr data) ∧ (r.write32 b addr data).bus.plane.stage.event = e ∧
      (r.bus.plane.fifo.full = false → (r.write32 b addr data).bus.plane.fifo.full = false) := by
  have hspec := write32_stages b.params.identity
    (r.env b (writeInput (b.write r.cycle) addr data)) h.1.idle hc
  rw [← bus_write32] at hspec
  exact ⟨took_write hpins h hp (commit_enabled h.1.enabled ha data), hspec.2.1, hspec.2.2.2⟩

theorem took_stage {r : Rig F W} (h : Took es r) (event : DioEvent) :
    Took es (stage (b := b) event r) ∧
      (stage (b := b) event r).bus.plane.stage.event = staged event ∧
      (r.bus.plane.fifo.full = false → (stage (b := b) event r).bus.plane.fifo.full = false) := by
  obtain ⟨h1, e1, f1⟩ := took_stages hpins h (by decide) (by decide)
    (commit_evtTsLo _ (BitVec.ofNat 32 event.targetTicks))
  obtain ⟨h2, e2, f2⟩ := took_stages hpins h1 (by decide) (by decide)
    (commit_evtTsHi _ (BitVec.ofNat 32 (event.targetTicks >>> 32)))
  obtain ⟨h3, e3, f3⟩ := took_stages hpins h2 (by decide) (by decide)
    (commit_evtMask _ (BitVec.ofNat 32 event.mask))
  obtain ⟨h4, e4, f4⟩ := took_stages hpins h3 (by decide) (by decide)
    (commit_evtValue _ (BitVec.ofNat 32 event.value))
  obtain ⟨h5, e5, f5⟩ := took_stages hpins h4 (by decide) (by decide)
    (commit_evtId _ (BitVec.ofNat 32 event.eventId))
  refine ⟨h5, e5.trans ?_, fun hf => f5 (f4 (f3 (f2 (f1 hf))))⟩
  rw [e4, e3, e2, e1]
  simp only [BitVec.extractLsb'_append_eq_right, timestamp_words]
  rfl

omit hpins in
/-- In the clock of the push the queue has room, is not held clear, and takes what is not
older than all it has taken. -/
theorem push_accepted {q : Rig F W} {env : Env} {e : Event W 16} (hen : Enabled q.bus.settings)
    (hext : (env.plant q.cycle).externalForceSafe = false)
    (hledger : ∃ log waiting, Ledger q log waiting)
    (hstage : q.bus.plane.stage = { event := e, pushPulse := true })
    (hfull : q.bus.plane.fifo.full = false) (horder : ∀ d ∈ q.bus.accepted, d.timestamp ≤ e.timestamp) :
    q.bus.accepts env = [e] := by
  obtain ⟨log, waiting, hl⟩ := hledger
  have hsw : q.bus.plane.config.forceSafeSw = false := hen.2
  have hsafe : q.bus.plane.cfgForceSafe (env.plant q.bus.cycle) = false := by
    rw [Plane.cfgForceSafe, hsw]
    exact hext
  have hok : q.bus.plane.fifo.pushOrderOk e = true := by
    rw [Fifo.pushOrderOk, Bool.or_eq_true, decide_eq_true_iff]
    exact .inr (lastTimestamp_le hl horder)
  simp [Bus.accepts, Fifo.accepted, Fifo.acceptPush, Plane.fifoInput, hsafe, hstage, hfull, hok]

theorem took_push {r : Rig F W} (h : Took es r) {e : Event W 16}
    (hstage : r.bus.plane.stage.event = e) (hfull : r.bus.plane.fifo.full = false)
    (horder : ∀ d ∈ es, d.timestamp ≤ e.timestamp) :
    Took (es ++ [e]) (r.write32 b regEvtPush 1) := by
  have hc := commit_enabled h.1.enabled (by decide : regEvtPush ≠ regControl) 1
  have hpulsed : (r.run b (writeInput (b.write r.cycle) regEvtPush 1)
      ((b.write r.cycle).last + 2)).bus = r.bus.pulsed b.params.identity
        (r.env b (writeInput (b.write r.cycle) regEvtPush 1)) regEvtPush 1 := bus_run b r _ _
  obtain ⟨hquiet, hroom⟩ := pulsed_quiet b.params.identity
    (r.env b (writeInput (b.write r.cycle) regEvtPush 1)) h.1.idle regEvtPush 1
  have hpush := @pulsed_stage _ _ _ b.params.identity
    (r.env b (writeInput (b.write r.cycle) regEvtPush 1)) _ h.1.idle regEvtPush 1
  rw [commit_evtPush, hstage] at hpush
  have haccepts := @push_accepted _ _
    (r.run b (writeInput (b.write r.cycle) regEvtPush 1) ((b.write r.cycle).last + 2))
    (r.env b (writeInput (b.write r.cycle) regEvtPush 1)) e
    (writing_enabled h.1 hc _) (hpins _) (writing_ledger hpins h.1 hc _).2
    (hpulsed ▸ hpush) (hpulsed ▸ hroom hfull) (by rw [hpulsed, hquiet, h.2]; exact horder)
  refine ⟨working_write32 hpins h.1 hc, ?_⟩
  rw [bus_write32, write32_accepted h.1.idle, h.2, ← hpulsed, haccepts]

/-- schedule_dio queues its event or raises the one error it has and queues nothing. -/
theorem took_scheduleDio {r : Rig F W} (h : Took es r) (event : DioEvent)
    (horder : ∀ d ∈ es, d.timestamp ≤ (staged event : Event W 16).timestamp) :
    ((exec (ZynqTransport.scheduleDio (coreMmio b m) event) r).1 = .ok () ∧
        Took (es ++ [staged event]) (exec (ZynqTransport.scheduleDio (coreMmio b m) event) r).2) ∨
      (exec (ZynqTransport.scheduleDio (coreMmio b m) event) r).1 = .error full ∧
        Took es (exec (ZynqTransport.scheduleDio (coreMmio b m) event) r).2 := by
  have hread := took_read hpins h regEvtStatus
  have hdata : (r.read32 b regEvtStatus).1 = (r.bus.read32 b.params.identity
      (r.env b (readInput (b.read r.cycle) regEvtStatus)) regEvtStatus).1 :=
    congrArg (fun s : Bus eventDepth W 16 => s.plane.read.rdata) (bus_run b r _ _)
  rw [exec_scheduleDio, hdata, read32_data h.1.idle, readData_evtStatus]
  by_cases hfull : (r.bus.sampled b.params.identity
      (r.env b (readInput (b.read r.cycle) regEvtStatus)) regEvtStatus).plane.fifo.full = true
  · rw [if_pos ((eventStatus_full_iff _).mpr hfull)]
    exact .inr ⟨rfl, hread⟩
  · rw [if_neg (mt (eventStatus_full_iff _).mp hfull)]
    have hroom := @read32_full _ _ _ b.params.identity
      (r.env b (readInput (b.read r.cycle) regEvtStatus)) _ h.1.idle regEvtStatus
      (Bool.not_eq_true _ ▸ hfull)
    rw [← bus_read32] at hroom
    obtain ⟨hstage, hevent, hkeep⟩ := took_stage hpins hread event
    exact .inl ⟨rfl, took_push hpins hstage hevent (hkeep hroom) horder⟩

end Schedule

section Start

variable {b m}

/-- The core between two transactions, before anything was scheduled. -/
structure Resting (r : Rig F W) : Prop where
  idle : r.bus.Idle
  counts : r.Counts
  ledger : Ledger r [] []

theorem resting_reset (mem : Nat → Event W 16) : Resting (Rig.reset mem : Rig F W) :=
  ⟨⟨rfl, rfl, rfl, rfl, rfl⟩, rfl, reset_ledger mem⟩

theorem resting_read {r : Rig F W} (h : Resting r) (addr : BitVec 12) :
    Resting (r.read32 b addr).2 := by
  have hquiet : ∀ k, (r.run b (readInput (b.read r.cycle) addr) k).bus.plane.stage.pushPulse =
      false := by
    intro k
    rw [bus_run]
    exact readAt_quiet h.idle addr k
  obtain ⟨hcounts, hledger⟩ := run_rests h.counts h.ledger hquiet _
  refine ⟨?_, hcounts, hledger⟩
  rw [bus_read32]
  exact read32_idle _ _ h.idle addr

theorem resting_write {r : Rig F W} (h : Resting r) {addr : BitVec 12} (ha : addr ≠ regEvtPush)
    (data : BitVec 32) : Resting (r.write32 b addr data) := by
  have hquiet : ∀ k, (r.run b (writeInput (b.write r.cycle) addr data) k).bus.plane.stage.pushPulse =
      false := by
    intro k
    rw [bus_run]
    by_cases hk : k = (b.write r.cycle).last + 2
    · have hstage := @pulsed_stage _ _ _ b.params.identity
        (r.env b (writeInput (b.write r.cycle) addr data)) _ h.idle addr data
      rw [hk]
      exact (congrArg Stage.pushPulse hstage).trans
        ((commit_pushPulse _ ha data).trans h.idle.pushPulse)
    · exact writeAt_quiet h.idle addr data hk
  obtain ⟨hcounts, hledger⟩ := run_rests h.counts h.ledger hquiet _
  refine ⟨?_, hcounts, hledger⟩
  rw [bus_write32]
  exact write32_idle h.idle addr data

theorem took_startAbz {r : Rig F W} (h : Resting r) :
    (exec (ZynqTransport.startAbz (coreMmio b m)) r).1 = .ok () ∧
      Took [] (exec (ZynqTransport.startAbz (coreMmio b m)) r).2 := by
  have hread := resting_read (b := b) h regControl
  have hbits : ∀ v : Nat,
      (BitVec.ofNat 32 (without (v ||| Reg.ctrlHilEnable ||| Reg.ctrlAbzEnable)
          Reg.ctrlForceSafe)).getLsbD 0 = true ∧
        (BitVec.ofNat 32 (without (v ||| Reg.ctrlHilEnable ||| Reg.ctrlAbzEnable)
          Reg.ctrlForceSafe)).getLsbD 1 = false := by
    intro v
    simp only [getLsbD_word _ (by decide : 0 < 32), getLsbD_word _ (by decide : 1 < 32),
      Reg.ctrlForceSafe, Reg.ctrlHilEnable, Reg.ctrlAbzEnable, ControlFrame.testBit_without,
      ControlFrame.testBit_set]
    simp
  have hset := hbits (r.read32 b regControl).1.toNat
  rw [ZynqTransport.startAbz, exec_update]
  generalize BitVec.ofNat 32 _ = data at hset
  have hrest := resting_write (b := b) hread (by decide : regControl ≠ regEvtPush) data
  have hnone : (((r.read32 b regControl).2.write32 b regControl data).pushed) = [] :=
    List.map_eq_nil_iff.mp hrest.ledger.pushed
  refine ⟨rfl, ⟨hrest.idle, ?_, hrest.counts, _, _, hrest.ledger⟩, congrArg (List.map Prod.snd) hnone⟩
  rw [bus_write32, write32_settings hread.idle, ControlFrame.commit_control]
  exact hset

end Start

section Play

variable {b m}

def planned (event : DioEvent) : Action W :=
  { timestamp := BitVec.ofNat 64 event.targetTicks, mask := BitVec.ofNat W event.mask,
    value := BitVec.ofNat W event.value }

theorem actionOf_staged {event : DioEvent} (h : Fits W 16 event) :
    actionOf (staged event : Event W 16) = planned event := by
  have hwidth : ∀ n, n < 2 ^ min 32 W → (BitVec.ofNat 32 n).setWidth W = BitVec.ofNat W n := by
    intro n hn
    apply BitVec.eq_of_toNat_eq
    rw [(setWidth_word_iff W n).mpr hn, BitVec.toNat_ofNat,
      Nat.mod_eq_of_lt (Nat.lt_of_lt_of_le hn (Nat.pow_le_pow_right (by decide) (Nat.min_le_right _ _)))]
  rw [actionOf, planned, staged, hwidth _ h.2.1, hwidth _ h.2.2.1]

theorem staged_le {d e : DioEvent} (he : Fits W 16 e) (h : d.targetTicks ≤ e.targetTicks) :
    (staged d : Event W 16).timestamp ≤ (staged e : Event W 16).timestamp := by
  have hlt := he.1
  rw [BitVec.le_def, staged, staged, BitVec.toNat_ofNat, BitVec.toNat_ofNat, Nat.mod_eq_of_lt hlt,
    Nat.mod_eq_of_lt (Nat.lt_of_le_of_lt h hlt)]
  exact h

theorem play_cons (tickHz : Nat) (call : Call) (calls : List Call) (r : Rig F W) :
    play b m tickHz (call :: calls) r =
      ((call, (exec (call.run b m tickHz) r).1) ::
          (play b m tickHz calls (exec (call.run b m tickHz) r).2).1,
        (play b m tickHz calls (exec (call.run b m tickHz) r).2).2) := rfl

theorem returned_cons (call : Call) (result : Except HostError Unit)
    (results : List (Call × Except HostError Unit)) :
    returned ((call, result) :: results) =
      (match result with
        | .ok () => call.event?.toList
        | .error _ => []) ++ returned results := by
  cases result with
  | error e => rfl
  | ok u => cases h : call.event? <;> simp [returned, h]

theorem returned_sublist (tickHz : Nat) (calls : List Call) (r : Rig F W) :
    (returned (play b m tickHz calls r).1).Sublist (calls.filterMap Call.event?) := by
  induction calls generalizing r with
  | nil => exact List.Sublist.refl _
  | cons call calls ih =>
      rw [play_cons, returned_cons]
      have hrest := ih (exec (call.run b m tickHz) r).2
      cases hevent : call.event? with
      | none =>
          rw [List.filterMap_cons_none hevent]
          cases (exec (call.run b m tickHz) r).1 <;> exact hrest
      | some event =>
          rw [List.filterMap_cons_some hevent]
          cases (exec (call.run b m tickHz) r).1 with
          | error e => exact hrest.cons event
          | ok u => exact hrest.cons_cons event

/-- The only way for a call of schedule_dio to fail. -/
def OnlyFull (results : List (Call × Except HostError Unit)) : Prop :=
  ∀ event error, (Call.scheduleDio event, Except.error error) ∈ results → error = full

/-- After every call the queue has taken the events whose calls returned, in order. -/
theorem play_took (hpins : ∀ n, (b.pins n).externalForceSafe = false) (tickHz : Nat)
    (calls : List Call) (hsafe : Call.forceSafe true ∉ calls) (done : List DioEvent)
    (hsorted : (done ++ calls.filterMap Call.event?).Pairwise (fun d e => d.targetTicks ≤ e.targetTicks))
    (hfits : ∀ e ∈ calls.filterMap Call.event?, Fits W 16 e) {r : Rig F W}
    (h : Took (done.map staged) r) :
    OnlyFull (play b m tickHz calls r).1 ∧
      Took ((done ++ returned (play b m tickHz calls r).1).map staged) (play b m tickHz calls r).2 := by
  induction calls generalizing done r with
  | nil =>
      refine ⟨(fun _ _ hmem => nomatch hmem), ?_⟩
      have hnone : returned (play b m tickHz [] r).1 = [] := rfl
      rw [hnone, List.append_nil]
      exact h
  | cons call calls ih =>
      rw [play_cons, returned_cons]
      have hsafe' : Call.forceSafe true ∉ calls := fun hmem => hsafe (List.mem_cons_of_mem _ hmem)
      have hcall : call ≠ .forceSafe true := fun heq => hsafe (heq ▸ List.mem_cons_self)
      cases hevent : call.event? with
      | none =>
          rw [List.filterMap_cons_none hevent] at hsorted hfits
          have hnext := preserves_call (m := m) hpins hevent hcall tickHz r h
          obtain ⟨hfull, htook⟩ := ih hsafe' done hsorted hfits hnext
          refine ⟨fun event error hmem => ?_, ?_⟩
          · rcases List.mem_cons.mp hmem with heq | hmem
            · rw [← (Prod.mk.inj heq).1] at hevent
              cases hevent
            · exact hfull event error hmem
          · cases (exec (call.run b m tickHz) r).1 <;> exact htook
      | some event =>
          have hschedule : call = .scheduleDio event := by
            cases call <;> simp_all [Call.event?]
          subst hschedule
          rw [List.filterMap_cons_some hevent] at hsorted hfits
          have hfit := hfits event List.mem_cons_self
          have horder : ∀ d ∈ done.map (staged : DioEvent → Event W 16),
              d.timestamp ≤ (staged event : Event W 16).timestamp := by
            intro d hd
            obtain ⟨d', hd', rfl⟩ := List.mem_map.mp hd
            exact staged_le hfit ((List.pairwise_append.mp hsorted).2.2 d' hd' event List.mem_cons_self)
          have hfits' := fun e he => hfits e (List.mem_cons_of_mem _ he)
          rcases took_scheduleDio (m := m) hpins h event horder with ⟨hok, hnext⟩ | ⟨herr, hnext⟩
          · have hnext' : Took ((done ++ [event]).map staged)
                (exec (Call.run b m tickHz (.scheduleDio event)) r).2 := by
              rw [List.map_append]
              exact hnext
            have hsorted' : ((done ++ [event]) ++ calls.filterMap Call.event?).Pairwise
                (fun d e => d.targetTicks ≤ e.targetTicks) := by
              rwa [List.append_assoc]
            obtain ⟨hfull, htook⟩ := ih hsafe' (done ++ [event]) hsorted' hfits' hnext'
            have hcallok : (exec (Call.run b m tickHz (.scheduleDio event)) r).1 = .ok () := hok
            rw [hcallok]
            refine ⟨fun e error hmem => ?_, ?_⟩
            · rcases List.mem_cons.mp hmem with heq | hmem
              · cases (Prod.mk.inj heq).2
              · exact hfull e error hmem
            · rw [List.append_assoc] at htook
              exact htook
          · have hsorted' : (done ++ calls.filterMap Call.event?).Pairwise
                (fun d e => d.targetTicks ≤ e.targetTicks) :=
              hsorted.sublist ((List.sublist_cons_self _ _).append_left done)
            obtain ⟨hfull, htook⟩ := ih hsafe' done hsorted' hfits' hnext
            have hcallerr : (exec (Call.run b m tickHz (.scheduleDio event)) r).1 = .error full := herr
            rw [hcallerr]
            refine ⟨fun e error hmem => ?_, htook⟩
            rcases List.mem_cons.mp hmem with heq | hmem
            · cases heq
              rfl
            · exact hfull e error hmem

/-- From reset, start_abz and then any calls but force_safe(True), the events in time order and
within the register widths: schedule_dio only ever fails on a full queue; the events whose calls
returned fire once each and in the order of the calls, in the clock of their time or, when
that is too early, the third after the queue took them and after the one before; and in every
clock dio_out shows just what those that have fired make of it. -/
theorem timeline_executes (hpins : ∀ n, (b.pins n).externalForceSafe = false) (tickHz : Nat)
    (mem : Nat → Event W 16) (calls : List Call) (hsafe : Call.forceSafe true ∉ calls)
    (hsorted : (calls.filterMap Call.event?).Pairwise (fun d e => d.targetTicks ≤ e.targetTicks))
    (hfits : ∀ e ∈ calls.filterMap Call.event?, Fits W 16 e) :
    let results := (play b m tickHz (.startAbz :: calls) (Rig.reset mem)).1
    let r : Rig F W := (play b m tickHz (.startAbz :: calls) (Rig.reset mem)).2
    OnlyFull results ∧
      ∃ (log : List (Execution W)) (waiting : List (Nat × Action W)),
        (returned results).map planned = log.map Execution.action ++ waiting.map Prod.snd ∧
          r.pushed.map Prod.fst = log.map Execution.pushed ++ waiting.map Prod.fst ∧
          (r.cycle ≤ 2 ^ 64 → OnTime 0 log ∧
            ∀ head ∈ waiting.head?, r.cycle ≤ due (lastFired 0 log) head.1 head.2) ∧
          ∀ n, n < r.cycle → r.outputs[n]? = some (driven log n) := by
  intro results r
  obtain ⟨hok, hstart⟩ := took_startAbz (b := b) (m := m) (resting_reset (F := F) mem)
  obtain ⟨hfull, hworking, htook⟩ := play_took (m := m) hpins tickHz calls hsafe [] hsorted hfits hstart
  obtain ⟨log, waiting, hledger⟩ := hworking.ledger
  have hreturned : ∀ e ∈ returned (play b m tickHz calls
      (exec (ZynqTransport.startAbz (coreMmio b m)) (Rig.reset mem : Rig F W)).2).1, Fits W 16 e :=
    fun e he => hfits e ((returned_sublist tickHz calls _).subset he)
  have hresults : results = (.startAbz, .ok ()) :: (play b m tickHz calls
      (exec (ZynqTransport.startAbz (coreMmio b m)) (Rig.reset mem : Rig F W)).2).1 := by
    rw [← hok]
    rfl
  have hplanned : (returned results).map planned = r.pushed.map (fun e => actionOf e.2) := by
    have haccepted : r.pushed.map Prod.snd = (returned results).map staged := by
      rw [hresults, returned_cons]
      exact htook
    have hactions := congrArg (List.map actionOf) haccepted
    rw [List.map_map, List.map_map] at hactions
    refine Eq.trans ?_ hactions.symm
    rw [hresults, returned_cons]
    exact List.map_congr_left (fun e he => (actionOf_staged (hreturned e he)).symm)
  refine ⟨fun event error hmem => ?_, log, waiting, ?_, ?_, hledger.onTime, hledger.outputs⟩
  · rw [hresults] at hmem
    rcases List.mem_cons.mp hmem with heq | hmem
    · cases (Prod.mk.inj heq).1
    · exact hfull event error hmem
  · have hpushed := congrArg (List.map Prod.snd) hledger.pushed
    rw [List.map_map, List.map_append, List.map_map] at hpushed
    exact hplanned.trans hpushed
  · have hpushed := congrArg (List.map Prod.fst) hledger.pushed
    rw [List.map_map, List.map_append, List.map_map] at hpushed
    exact hpushed

end Play

section Sample

def sampleBoard : Board 24 :=
  { params := Rtl.EventDelivery.sampleParams, pins := fun _ => .quiet, write := fun _ => ⟨0, 0, 0⟩
    read := fun _ => ⟨0, 0⟩ }

/-- An event for a time yet to come, and one that is late when it is asked for. -/
def sampleCalls : List Call :=
  [.scheduleDio ⟨7, 60, 3, 1⟩, .health, .scheduleDio ⟨8, 60, 1, 0⟩, .wait 16]

def sampleRun : List (Call × Except HostError Unit) × Rig 24 16 :=
  play sampleBoard sampleMmio 100000000 (.startAbz :: sampleCalls)
    (Rig.reset Rtl.EventDelivery.sampleMem)

theorem timeline_executes_sample :
    ∃ (log : List (Execution 16)) (waiting : List (Nat × Action 16)),
      [⟨60, 3, 1⟩, ⟨60, 1, 0⟩] = log.map Execution.action ++ waiting.map Prod.snd ∧ OnTime 0 log ∧
        driven log 62 = 1 := by
  have hcycle : sampleRun.2.cycle ≤ 2 ^ 64 := by decide +kernel
  have hreturned : (returned sampleRun.1).map (planned (W := 16)) = [⟨60, 3, 1⟩, ⟨60, 1, 0⟩] := by
    decide +kernel
  have hout : sampleRun.2.outputs[62]? = some 1 := by decide +kernel
  have hlt : 62 < sampleRun.2.cycle := by decide +kernel
  obtain ⟨-, log, waiting, hplanned, -, htime, houtputs⟩ :=
    timeline_executes (b := sampleBoard) (m := sampleMmio) (fun _ => rfl) 100000000
      Rtl.EventDelivery.sampleMem sampleCalls (by simp [sampleCalls])
      (by decide) (by simp [sampleCalls, Call.event?, Fits])
  refine ⟨log, waiting, hreturned.symm.trans hplanned, (htime hcycle).1, ?_⟩
  exact (Option.some.inj ((houtputs 62 hlt).symm.trans hout))

end Sample

end HilLab.Host.Timeline
