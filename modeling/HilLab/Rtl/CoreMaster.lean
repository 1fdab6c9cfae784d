import HilLab.Rtl.AxiMaster
import HilLab.Rtl.EventExecution

namespace HilLab.Rtl.CoreMaster

open Lib.Clocked EventFifo ControlPlane AxiMaster DigitalCore EventPipeline EventDelivery
open EventExecution (Execution Tracks lastFired lastFired_append stamp applied_eq tracks_waits
  tracks_fires active_iff)

variable {F W : Nat}

/-- The digital core on its board: the pins besides the bus, and the timing of the
transaction that the bus master starts in a given clock. -/
structure Board (F : Nat) where
  params : Params F
  pins : Nat → CoreInput
  write : Nat → WriteTiming
  read : Nat → ReadTiming

def Board.input (b : Board F) (n : Nat) (axi : AxiInput) : CoreInput := { b.pins n with axi := axi }

/-- The core since reset, with what dio_out was in every clock and the events that the
queue accepted, each with its clock. -/
structure Rig (F W : Nat) where
  core : Core F W
  outputs : List (BitVec W)
  pushed : List (Nat × Event W 16)

def Rig.reset (mem : Nat → Event W 16) : Rig F W := ⟨.reset mem, [], []⟩

def Rig.cycle (r : Rig F W) : Nat := r.outputs.length

def Rig.accepts (b : Board F) (r : Rig F W) (axi : AxiInput) : List (Event W 16) :=
  r.core.control.fifo.accepted
    (r.core.control.fifoInput (r.core.plantInput (b.input r.cycle axi)))

def Rig.tick (b : Board F) (r : Rig F W) (axi : AxiInput) : Rig F W :=
  { core := r.core.step b.params (b.input r.cycle axi)
    outputs := r.outputs ++ [r.core.dio.dioOut]
    pushed := r.pushed ++ (r.accepts b axi).map (fun e => (r.cycle, e)) }

def Rig.run (b : Board F) (r : Rig F W) (axi : Nat → AxiInput) (k : Nat) : Rig F W :=
  wave (Rig.tick b) r axi k

section Transactions

variable (b : Board F) (r : Rig F W)

def Rig.write32 (addr : BitVec 12) (data : BitVec 32) : Rig F W :=
  let t := b.write r.cycle
  r.run b (writeInput t addr data) (t.last + 3 + t.b)

def Rig.read32 (addr : BitVec 12) : BitVec 32 × Rig F W :=
  let t := b.read r.cycle
  ((r.run b (readInput t addr) (t.ar + 1 + t.r)).core.control.read.rdata,
    r.run b (readInput t addr) (t.ar + 2 + t.r))

def Rig.wait (clocks : Nat) : Rig F W := r.run b (fun _ => idleAxi) clocks

end Transactions

theorem tick_cycle (b : Board F) (r : Rig F W) (axi : AxiInput) :
    (r.tick b axi).cycle = r.cycle + 1 := by
  simp [Rig.cycle, Rig.tick]

theorem run_cycle (b : Board F) (r : Rig F W) (axi : Nat → AxiInput) (k : Nat) :
    (r.run b axi k).cycle = r.cycle + k := by
  induction k with
  | zero => rfl
  | succ k ih => exact (tick_cycle b _ _).trans (congrArg Nat.succ ih)

section Bus

variable (b : Board F) (r : Rig F W) (axi : Nat → AxiInput)

def Rig.bus : Bus eventDepth W 16 := ⟨r.core.control, r.cycle, r.pushed.map Prod.snd⟩

/-- What the rest of the core feeds the control plane while the bus carries axi. -/
def Rig.env : Env :=
  { plant := fun n => (r.run b axi (n - r.cycle)).core.plantInput (b.pins n)
    write := b.write
    read := b.read }

theorem bus_tick (n : Nat) (hn : n = r.cycle) (i : AxiInput) {env : Env}
    (he : env.plant n = r.core.plantInput (b.pins n)) :
    (r.tick b i).bus = r.bus.tick b.params.identity env i := by
  subst hn
  have haccepts : r.bus.accepts env = r.accepts b i := by
    rw [Bus.accepts, Rig.accepts]
    exact congrArg (fun plant => r.core.control.fifo.accepted (r.core.control.fifoInput plant)) he
  have hpushed : (r.tick b i).pushed.map Prod.snd = r.bus.accepted ++ r.bus.accepts env := by
    rw [haccepts]
    simp [Rig.tick, Rig.bus, Function.comp_def]
  have hplane : (r.tick b i).core.control = r.bus.plane.step b.params.identity ⟨i, env.plant r.cycle⟩ := by
    rw [he]
    rfl
  rw [Bus.tick, Rig.bus, hplane, hpushed, tick_cycle]
  rfl

/-- Inside the core the control plane runs as it does on its own, against what the rest of
the core answers. -/
theorem bus_run (k : Nat) :
    (r.run b axi k).bus = wave (Bus.tick b.params.identity (r.env b axi)) r.bus axi k := by
  induction k with
  | zero => rfl
  | succ k ih =>
      rw [wave_succ, ← ih]
      refine bus_tick b (r.run b axi k) (r.cycle + k) (run_cycle b r axi k).symm (axi k) ?_
      simp only [Rig.env, Nat.add_sub_cancel_left]

variable {b r}

theorem bus_write32 (addr : BitVec 12) (data : BitVec 32) :
    (r.write32 b addr data).bus =
      r.bus.write32 b.params.identity (r.env b (writeInput (b.write r.cycle) addr data)) addr data :=
  bus_run b r _ _

theorem settings_writing (h : r.bus.Idle) (addr : BitVec 12) (data : BitVec 32) (k : Nat) :
    (r.run b (writeInput (b.write r.cycle) addr data) k).bus.settings =
      if k ≤ (b.write r.cycle).last + 1 then r.bus.settings
      else settled (r.bus.settings.commit (request addr data)) := by
  rw [bus_run]
  exact writeAt_settings h addr data k

theorem settings_reading (h : r.bus.Idle) (addr : BitVec 12) (k : Nat) :
    (r.run b (readInput (b.read r.cycle) addr) k).bus.settings = r.bus.settings := by
  rw [bus_run]
  exact readAt_settings h addr k

theorem bus_read32 (addr : BitVec 12) :
    (r.read32 b addr).2.bus =
      (r.bus.read32 b.params.identity (r.env b (readInput (b.read r.cycle) addr)) addr).2 :=
  bus_run b r _ _

end Bus

section Wait

variable (p : Identity) (env : Env) {s : Bus eventDepth W 16}

theorem idle_tick (h : s.Idle) :
    (s.tick p env idleAxi).Idle ∧ (s.tick p env idleAxi).settings = s.settings ∧
      (s.tick p env idleAxi).accepted = s.accepted := by
  obtain ⟨⟨haw, hw, hb⟩, hstage⟩ := frontStep_rests (f := s.front) (i := idleAxi)
    ⟨⟨h.awPending, h.wPending, h.bvalid⟩, h.pushPulse⟩ rfl rfl
  have hcommit : s.plane.write.commit = false := by
    rw [WriteChannel.commit, h.awPending]
    rfl
  have hread := read_step_rvalid idleAxi s.plane.read
    (s.plane.readData p (env.plant s.cycle) idleAxi.araddr)
  rw [h.rvalid] at hread
  have hsettings := settings_tick p env s idleAxi
  rw [hcommit] at hsettings
  exact ⟨⟨haw, hw, hb, hread, (congrArg Stage.pushPulse hstage).trans h.pushPulse⟩, hsettings,
    (quiet_tick p env idleAxi h.pushPulse).1⟩

theorem idle_run (h : s.Idle) (k : Nat) :
    (wave (Bus.tick p env) s (fun _ => idleAxi) k).Idle ∧
      (wave (Bus.tick p env) s (fun _ => idleAxi) k).settings = s.settings ∧
      (wave (Bus.tick p env) s (fun _ => idleAxi) k).accepted = s.accepted := by
  induction k with
  | zero => exact ⟨h, rfl, rfl⟩
  | succ k ih =>
      obtain ⟨hidle, hsettings, haccepted⟩ := ih
      obtain ⟨hidle', hsettings', haccepted'⟩ := idle_tick p env hidle
      exact ⟨hidle', hsettings'.trans hsettings, haccepted'.trans haccepted⟩

end Wait

section Ledger

/-- The clock in which an event fires: its own time, or the third clock after its push and
after the event before it. -/
def due (last pushed : Nat) (a : Action W) : Nat := max (max pushed last + 3) a.timestamp.toNat

def OnTime : Nat → List (Execution W) → Prop
  | _, [] => True
  | last, e :: es => e.fired = due last e.pushed e.action ∧ OnTime e.fired es

/-- What the events that fired before clock n have made of dio_out. -/
def driven (log : List (Execution W)) (n : Nat) : BitVec W :=
  (log.filter (fun e => e.fired < n)).foldl (fun dio e => e.action.apply dio) 0

theorem onTime_append (last : Nat) (es : List (Execution W)) (e : Execution W) :
    OnTime last (es ++ [e]) ↔
      OnTime last es ∧ e.fired = due (lastFired last es) e.pushed e.action := by
  induction es generalizing last with
  | nil => simp [OnTime, lastFired]
  | cons d es ih => simp [OnTime, lastFired, ih, and_assoc]

theorem driven_append (log : List (Execution W)) (e : Execution W) (n : Nat) :
    driven (log ++ [e]) n = if e.fired < n then e.action.apply (driven log n) else driven log n := by
  by_cases h : e.fired < n <;> simp [driven, h]

theorem driven_of_fired {log : List (Execution W)} {m n : Nat} (hm : ∀ e ∈ log, e.fired < m)
    (hmn : m ≤ n) : driven log n = driven log m := by
  have hn : ∀ e ∈ log, e.fired < n := fun e he => Nat.lt_of_lt_of_le (hm e he) hmn
  rw [driven, driven, List.filter_eq_self.mpr (by simpa using hn),
    List.filter_eq_self.mpr (by simpa using hm)]

/-- The run up to now, in terms of events: those executed, those that wait, and what dio_out
has shown. The times are those of the first 2 ^ 64 clocks, in which the timestamp counts. -/
structure Ledger (r : Rig F W) (log : List (Execution W)) (waiting : List (Nat × Action W)) :
    Prop where
  pushed : r.pushed.map (fun e => (e.1, actionOf e.2)) = log.map Execution.push ++ waiting
  tracks : Tracks r.cycle (lastFired 0 log) waiting (ofCore r.core)
  fired_lt : ∀ e ∈ log, e.fired < r.cycle
  outputs : ∀ n, n < r.cycle → r.outputs[n]? = some (driven log n)
  dio : r.core.dio.dioOut = driven log r.cycle
  onTime : r.cycle ≤ 2 ^ 64 → OnTime 0 log ∧
    ∀ head ∈ waiting.head?, r.cycle ≤ due (lastFired 0 log) head.1 head.2

/-- The timestamp counts the clocks since reset. -/
def Rig.Counts (r : Rig F W) : Prop := r.core.timestamp = BitVec.ofNat 64 r.cycle

variable {b : Board F} {r : Rig F W} {log : List (Execution W)} {waiting : List (Nat × Action W)}
  {axi : AxiInput}

theorem counts_tick (h : r.Counts) : (r.tick b axi).Counts := by
  rw [Rig.Counts, tick_cycle, BitVec.ofNat_add, ← h]
  rfl

theorem timestamp_toNat (h : r.Counts) (hn : r.cycle < 2 ^ 64) : r.core.timestamp.toNat = r.cycle := by
  rw [h, BitVec.toNat_ofNat, Nat.mod_eq_of_lt hn]

theorem pushed_tick :
    (r.tick b axi).pushed.map (fun e => (e.1, actionOf e.2)) =
      r.pushed.map (fun e => (e.1, actionOf e.2)) ++
        stamp r.cycle ((ofCore r.core).accepted (coreInput r.core (b.input r.cycle axi))) := by
  have hacc : (ofCore r.core).accepted (coreInput r.core (b.input r.cycle axi)) =
      (r.accepts b axi).map actionOf := rfl
  rw [hacc]
  simp [Rig.tick, stamp, Function.comp_def]

theorem outputs_tick {log' : List (Execution W)} (h : Ledger r log waiting)
    (hold : ∀ n, n ≤ r.cycle → driven log' n = driven log n) (n : Nat)
    (hn : n < (r.tick b axi).cycle) : (r.tick b axi).outputs[n]? = some (driven log' n) := by
  rw [tick_cycle] at hn
  rw [hold n (Nat.le_of_lt_succ hn)]
  by_cases hlt : n < r.cycle
  · exact (List.getElem?_append_left hlt).trans (h.outputs n hlt)
  · have heq : n = r.cycle := by omega
    rw [heq, ← h.dio]
    exact (List.getElem?_append_right (Nat.le_refl _)).trans (by simp)

variable (b) in
theorem ledger_waits (h : Ledger r log waiting)
    (hi : r.core.hilActive (b.input r.cycle axi) = true)
    (ha : (ofCore r.core).applied (coreInput r.core (b.input r.cycle axi)) = [])
    (hdue : ∀ head ∈ waiting.head?, r.cycle + 1 ≤ 2 ^ 64 →
      r.cycle + 1 ≤ due (lastFired 0 log) head.1 head.2) :
    Ledger (r.tick b axi) log (waiting ++
      stamp r.cycle ((ofCore r.core).accepted (coreInput r.core (b.input r.cycle axi)))) := by
  have hfired : ∀ e ∈ log, e.fired < r.cycle + 1 := fun e he => Nat.lt_succ_of_lt (h.fired_lt e he)
  refine ⟨?_, ?_, ?_, outputs_tick h (fun _ _ => rfl), ?_, ?_⟩
  · rw [pushed_tick, h.pushed, List.append_assoc]
  · rw [tick_cycle]
    exact tracks_waits (by decide) h.tracks hi ha
  · rw [tick_cycle]
    exact hfired
  · have hdio := dioOut_step (p := ofCore r.core) (i := coreInput r.core (b.input r.cycle axi)) hi
    rw [ha] at hdio
    rw [tick_cycle, driven_of_fired h.fired_lt (Nat.le_succ _), ← h.dio]
    exact hdio
  · rw [tick_cycle]
    intro hn
    refine ⟨(h.onTime (Nat.le_of_succ_le hn)).1, fun head hhead => ?_⟩
    cases waiting with
    | nil =>
        have hfst : head.1 = r.cycle := EventExecution.stamp_fst (List.mem_of_mem_head? hhead)
        rw [due, hfst]
        omega
    | cons first rest => exact hdue head hhead hn

variable (b) in
theorem ledger_fires {head : Nat × Action W} {rest : List (Nat × Action W)}
    (h : Ledger r log (head :: rest)) (hi : r.core.hilActive (b.input r.cycle axi) = true)
    (ha : (ofCore r.core).applied (coreInput r.core (b.input r.cycle axi)) = [head.2])
    (hdue : r.cycle + 1 ≤ 2 ^ 64 → r.cycle = due (lastFired 0 log) head.1 head.2) :
    Ledger (r.tick b axi) (log ++ [⟨head.1, r.cycle, head.2⟩]) (rest ++
      stamp r.cycle ((ofCore r.core).accepted (coreInput r.core (b.input r.cycle axi)))) := by
  refine ⟨?_, ?_, ?_, outputs_tick h (fun n hn => ?_), ?_, ?_⟩
  · rw [pushed_tick, h.pushed]
    simp [Execution.push]
  · rw [tick_cycle, lastFired_append]
    exact tracks_fires (by decide) h.tracks hi ha
  · rw [tick_cycle]
    intro e he
    rcases List.mem_append.mp he with hlog | hnew
    · exact Nat.lt_succ_of_lt (h.fired_lt e hlog)
    · rw [List.mem_singleton.mp hnew]
      exact Nat.lt_succ_self _
  · rw [driven_append, if_neg (by dsimp only; omega)]
  · have hdio := dioOut_step (p := ofCore r.core) (i := coreInput r.core (b.input r.cycle axi)) hi
    rw [ha] at hdio
    rw [tick_cycle, driven_append, if_pos (Nat.lt_succ_self _),
      driven_of_fired h.fired_lt (Nat.le_succ _), ← h.dio]
    exact hdio
  · rw [tick_cycle]
    intro hn
    refine ⟨(onTime_append _ _ _).mpr ⟨(h.onTime (Nat.le_of_succ_le hn)).1, hdue hn⟩, ?_⟩
    intro next _
    rw [lastFired_append, due]
    dsimp only
    omega

/-- A clock with HIL active: the head of the waiting events fires in its clock and not
before, and nothing else does. -/
theorem ledger_tick (hr : r.Counts) (h : Ledger r log waiting)
    (hi : r.core.hilActive (b.input r.cycle axi) = true) :
    ∃ log' waiting', Ledger (r.tick b axi) log' waiting' := by
  have happ := applied_eq h.tracks (i := coreInput r.core (b.input r.cycle axi)) hi
  cases waiting with
  | nil => exact ⟨_, _, ledger_waits b h hi happ (fun head hhead => by cases hhead)⟩
  | cons head rest =>
      have hle : ∀ hn : r.cycle + 1 ≤ 2 ^ 64,
          (head.2.timestamp ≤ r.core.timestamp ↔ head.2.timestamp.toNat ≤ r.cycle) := by
        intro hn
        rw [BitVec.le_def, timestamp_toNat hr (by omega)]
      have hnot := fun hn : r.cycle + 1 ≤ 2 ^ 64 => (h.onTime (by omega)).2 head rfl
      by_cases hfire : max head.1 (lastFired 0 log) + 3 ≤ r.cycle ∧ head.2.timestamp ≤ r.core.timestamp
      · refine ⟨_, _, ledger_fires b h hi (happ.trans (if_pos hfire)) (fun hn => ?_)⟩
        have htarget := (hle hn).mp hfire.2
        have hcycle := hnot hn
        rw [due] at hcycle ⊢
        omega
      · refine ⟨_, _, ledger_waits b h hi (happ.trans (if_neg hfire)) (fun first hfirst hn => ?_)⟩
        cases hfirst
        rw [hle hn] at hfire
        rw [due]
        omega

theorem tracks_rests {n : Nat} {p : Pipeline eventDepth W 16} {i : PipeInput W 16}
    (h : Tracks n 0 [] p) (hi : i.hilActive = false) (hacc : p.accepted i = []) :
    Tracks (n + 1) 0 [] (p.step i) := by
  obtain ⟨harm, hsched, hin⟩ := h.phase
  obtain ⟨hsched', -, happ⟩ := sched_safe (p := p) hi
  have hload : p.loads i = false := by
    simp [Pipeline.loads, EventExecution.empty_of_tracks h hsched]
  have hstep : (p.step i).dispatch =
      p.dispatch.step i.forceSafe p.sched.armed p.sched.eventDonePulse p.fifo := rfl
  refine ⟨EventPipeline.step_valid (by decide) h.valid i, ?_, fun _ he => absurd he List.not_mem_nil,
    Nat.zero_le _,
    ⟨(EventExecution.step_armPulse _ _).trans hload, hsched', ?_⟩, ?_⟩
  · cases hs : i.forceSafe with
    | true => exact inFlight_flush (by decide) h.valid hs
    | false =>
        have hflow := step_conserves (by decide) h.valid hs (by simp [drops, harm, hsched])
        rw [h.flight, hacc, happ] at hflow
        exact hflow.symm
  · rw [hstep, dispatch_rests _ hload, hin, Bool.and_false, Bool.false_and]
  · have hf : (p.schedInput i).forceSafe = true := congrArg (fun active => !active) hi
    rw [Pipeline.step, DioEventScheduler.step_forceSafe hf]
    exact fun hdone => Bool.noConfusion hdone

variable (b) in
theorem ledger_rests (h : Ledger r [] []) (hpush : r.core.control.stage.pushPulse = false) :
    Ledger (r.tick b axi) [] [] := by
  have hacc : (ofCore r.core).accepted (coreInput r.core (b.input r.cycle axi)) = [] := by
    have hp : (coreInput r.core (b.input r.cycle axi)).push = false := hpush
    simp [Pipeline.accepted, Fifo.accepted, Fifo.acceptPush, Pipeline.fifoInput, hp]
  cases hi : r.core.hilActive (b.input r.cycle axi) with
  | true =>
      have happ := applied_eq h.tracks (i := coreInput r.core (b.input r.cycle axi)) hi
      have hnext := ledger_waits b h hi happ (fun head hhead => by cases hhead)
      rwa [hacc] at hnext
  | false =>
      have hdio := (sched_safe (p := ofCore r.core) (i := coreInput r.core (b.input r.cycle axi)) hi).2.1
      refine ⟨?_, ?_, fun _ he => absurd he List.not_mem_nil, outputs_tick h (fun _ _ => rfl), hdio, ?_⟩
      · rw [pushed_tick, h.pushed, hacc]
        rfl
      · rw [tick_cycle]
        exact tracks_rests (i := coreInput r.core (b.input r.cycle axi)) h.tracks hi hacc
      · exact fun _ => ⟨trivial, fun head hhead => by cases hhead⟩

theorem lastTimestamp_le (h : Ledger r log waiting) {t : BitVec 64}
    (ht : ∀ e ∈ r.pushed.map Prod.snd, e.timestamp ≤ t) : r.core.control.fifo.lastTimestamp ≤ t := by
  have hvalid := h.tracks.valid.queue
  have hlast : r.core.control.fifo.lastTimestamp = newest r.core.control.fifo.contents := hvalid.last_eq
  have hflight := h.tracks.flight
  rw [inFlight_eq h.tracks.valid] at hflight
  rw [hlast, newest]
  cases hq : r.core.control.fifo.contents.getLast? with
  | none => exact BitVec.le_def.mpr (Nat.zero_le _)
  | some e =>
      have hmem : actionOf e ∈ waiting.map Prod.snd := by
        rw [← hflight]
        exact List.mem_append_right _ (List.mem_map_of_mem (List.mem_of_getLast? hq))
      obtain ⟨w, hw, hwe⟩ := List.mem_map.mp hmem
      have hpushed : w ∈ r.pushed.map (fun e => (e.1, actionOf e.2)) := by
        rw [h.pushed]
        exact List.mem_append_right _ hw
      obtain ⟨d, hd, rfl⟩ := List.mem_map.mp hpushed
      have hle := ht d.2 (List.mem_map_of_mem hd)
      have hts : d.2.timestamp = e.timestamp := congrArg Action.timestamp hwe
      rwa [hts] at hle

end Ledger

section Working

variable {b : Board F} {r : Rig F W} {axi : Nat → AxiInput}

/-- HIL is enabled and released, by software. -/
def Enabled (c : Config) : Prop := c.hilEnable = true ∧ c.forceSafeSw = false

/-- The core between two transactions, with HIL active. -/
structure Working (r : Rig F W) : Prop where
  idle : r.bus.Idle
  enabled : Enabled r.bus.settings
  counts : r.Counts
  ledger : ∃ log waiting, Ledger r log waiting

theorem active_of_enabled (h : Enabled r.bus.settings) {i : AxiInput}
    (hpin : (b.pins r.cycle).externalForceSafe = false) :
    r.core.hilActive (b.input r.cycle i) = true := by
  have hen : r.core.control.config.hilEnable = true := h.1
  have hsw : r.core.control.config.forceSafeSw = false := h.2
  have hext : (r.core.plantInput (b.input r.cycle i)).externalForceSafe = false := hpin
  simp [Core.hilActive, Core.cfgForceSafe, Plane.cfgForceSafe, hen, hsw, hext]

/-- Where the settings keep HIL active all along, the events are kept account of all along. -/
theorem run_ledger (hpins : ∀ n, (b.pins n).externalForceSafe = false) (hr : r.Counts)
    (h : ∃ log waiting, Ledger r log waiting)
    (hen : ∀ k, Enabled (r.run b axi k).bus.settings) (k : Nat) :
    (r.run b axi k).Counts ∧ ∃ log waiting, Ledger (r.run b axi k) log waiting := by
  refine wave_invariant_of (P := fun t => t.Counts ∧ ∃ log waiting, Ledger t log waiting)
    (G := fun t i => t.core.hilActive (b.input t.cycle i) = true) ⟨hr, h⟩ ?_ axi k ?_
  · rintro t i ⟨hc, log, waiting, hl⟩ hi
    exact ⟨counts_tick hc, ledger_tick hc hl hi⟩
  · exact fun j _ => active_of_enabled (hen j) (hpins _)

theorem run_rests (hr : r.Counts) (h : Ledger r [] [])
    (hpush : ∀ k, (r.run b axi k).core.control.stage.pushPulse = false) (k : Nat) :
    (r.run b axi k).Counts ∧ Ledger (r.run b axi k) [] [] := by
  refine wave_invariant_of (P := fun t => t.Counts ∧ Ledger t [] [])
    (G := fun t _ => t.core.control.stage.pushPulse = false) ⟨hr, h⟩ ?_ axi k (fun j _ => hpush j)
  rintro t i ⟨hc, hl⟩ hp
  exact ⟨counts_tick hc, ledger_rests b hl hp⟩

theorem reset_ledger (mem : Nat → Event W 16) : Ledger (Rig.reset mem : Rig F W) [] [] where
  pushed := rfl
  tracks :=
    { valid := reset_valid (by decide) mem
      flight := rfl
      pushed_lt := fun _ he => nomatch he
      last_le := Nat.le_refl 0
      phase := ⟨rfl, rfl, rfl⟩
      done := fun _ => Nat.zero_le _ }
  fired_lt := fun _ he => nomatch he
  outputs := fun _ hn => absurd hn (Nat.not_lt_zero _)
  dio := rfl
  onTime := fun _ => ⟨trivial, fun _ hhead => by cases hhead⟩

section Write

variable (hpins : ∀ n, (b.pins n).externalForceSafe = false) (h : Working r) {addr : BitVec 12}
  {data : BitVec 32} (hc : Enabled (settled (r.bus.settings.commit (request addr data))))

include h hc

theorem writing_enabled (k : Nat) :
    Enabled (r.run b (writeInput (b.write r.cycle) addr data) k).bus.settings := by
  rw [settings_writing h.idle]
  split
  · exact h.enabled
  · exact hc

include hpins

theorem writing_ledger (k : Nat) :
    (r.run b (writeInput (b.write r.cycle) addr data) k).Counts ∧
      ∃ log waiting, Ledger (r.run b (writeInput (b.write r.cycle) addr data) k) log waiting :=
  run_ledger hpins h.counts h.ledger (writing_enabled h hc) k

theorem working_write32 : Working (r.write32 b addr data) := by
  obtain ⟨hcounts, hledger⟩ := writing_ledger hpins h hc
    ((b.write r.cycle).last + 3 + (b.write r.cycle).b)
  refine ⟨?_, writing_enabled h hc _, hcounts, hledger⟩
  rw [bus_write32]
  exact write32_idle h.idle addr data

end Write

theorem working_read32 (hpins : ∀ n, (b.pins n).externalForceSafe = false) (h : Working r)
    (addr : BitVec 12) : Working (r.read32 b addr).2 := by
  have hen : ∀ k, Enabled (r.run b (readInput (b.read r.cycle) addr) k).bus.settings := by
    intro k
    rw [settings_reading h.idle]
    exact h.enabled
  obtain ⟨hcounts, hledger⟩ := run_ledger hpins h.counts h.ledger hen _
  refine ⟨?_, hen _, hcounts, hledger⟩
  rw [bus_read32]
  exact read32_idle _ _ h.idle addr

theorem working_wait (hpins : ∀ n, (b.pins n).externalForceSafe = false) (h : Working r)
    (clocks : Nat) :
    Working (r.wait b clocks) ∧ (r.wait b clocks).bus.accepted = r.bus.accepted := by
  have hrun : ∀ k, (r.run b (fun _ => idleAxi) k).bus.Idle ∧
      (r.run b (fun _ => idleAxi) k).bus.settings = r.bus.settings ∧
      (r.run b (fun _ => idleAxi) k).bus.accepted = r.bus.accepted := by
    intro k
    rw [bus_run]
    exact idle_run _ _ h.idle k
  obtain ⟨hidle, hsettings, haccepted⟩ := hrun clocks
  obtain ⟨hcounts, hledger⟩ := run_ledger hpins h.counts h.ledger
    (fun k => (hrun k).2.1 ▸ h.enabled) clocks
  exact ⟨⟨hidle, hsettings ▸ h.enabled, hcounts, hledger⟩, haccepted⟩

end Working

end HilLab.Rtl.CoreMaster
