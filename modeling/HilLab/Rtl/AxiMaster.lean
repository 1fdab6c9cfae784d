import HilLab.Lib.Clocked
import HilLab.Rtl.ControlPlane

namespace HilLab.Rtl.AxiMaster

open Lib.Clocked EventFifo ControlPlane

variable {D W I : Nat}

/-- When a write transaction raises its address and its data, counted from its
first cycle, and for how many cycles it then delays the response. -/
structure WriteTiming where
  aw : Nat
  w : Nat
  b : Nat

structure ReadTiming where
  ar : Nat
  r : Nat

/-- Everything a run of complete transactions does not decide itself: the rest
of the programmable logic, and the timing of the transaction that starts in a
given cycle. -/
structure Env where
  plant : Nat → PlantInput
  write : Nat → WriteTiming
  read : Nat → ReadTiming

/-- The control plane on its bus, with the events its FIFO has accepted. -/
structure Bus (D W I : Nat) where
  plane : Plane D W I
  cycle : Nat
  accepted : List (Event W I)

def Bus.reset (mem : Nat → Event W I) : Bus D W I := ⟨Plane.reset mem, 0, []⟩

def Bus.accepts (env : Env) (s : Bus D W I) : List (Event W I) :=
  s.plane.fifo.accepted (s.plane.fifoInput (env.plant s.cycle))

def Bus.tick (p : Identity) (env : Env) (s : Bus D W I) (axi : AxiInput) : Bus D W I :=
  { plane := s.plane.step p ⟨axi, env.plant s.cycle⟩
    cycle := s.cycle + 1
    accepted := s.accepted ++ s.accepts env }

def WriteTiming.last (t : WriteTiming) : Nat := max t.aw t.w

def writeInput (t : WriteTiming) (addr : BitVec 12) (data : BitVec 32) (k : Nat) : AxiInput :=
  { awaddr := addr, awvalid := decide (k = t.aw), wdata := data, wstrb := 0xF,
    wvalid := decide (k = t.w), bready := decide (k = t.last + 2 + t.b), araddr := 0,
    arvalid := false, rready := false }

def readInput (t : ReadTiming) (addr : BitVec 12) (k : Nat) : AxiInput :=
  { awaddr := 0, awvalid := false, wdata := 0, wstrb := 0, wvalid := false, bready := false,
    araddr := addr, arvalid := decide (k = t.ar), rready := decide (k = t.ar + 1 + t.r) }

section Transactions

variable (p : Identity) (env : Env) (s : Bus D W I)

def Bus.writeAt (addr : BitVec 12) (data : BitVec 32) (k : Nat) : Bus D W I :=
  wave (Bus.tick p env) s (writeInput (env.write s.cycle) addr data) k

def Bus.readAt (addr : BitVec 12) (k : Nat) : Bus D W I :=
  wave (Bus.tick p env) s (readInput (env.read s.cycle) addr) k

/-- A write transaction up to its response. -/
def Bus.write32 (addr : BitVec 12) (data : BitVec 32) : Bus D W I :=
  s.writeAt p env addr data ((env.write s.cycle).last + 3 + (env.write s.cycle).b)

def Bus.read32 (addr : BitVec 12) : BitVec 32 × Bus D W I :=
  let t := env.read s.cycle
  ((s.readAt p env addr (t.ar + 1 + t.r)).plane.read.rdata, s.readAt p env addr (t.ar + 2 + t.r))

def Bus.sampled (addr : BitVec 12) : Bus D W I := s.readAt p env addr (env.read s.cycle).ar

def Bus.pulsed (addr : BitVec 12) (data : BitVec 32) : Bus D W I :=
  s.writeAt p env addr data ((env.write s.cycle).last + 2)

end Transactions

/-- No transaction is under way and no push pulse is up. -/
structure Bus.Idle (s : Bus D W I) : Prop where
  awPending : s.plane.write.awPending = false
  wPending : s.plane.write.wPending = false
  bvalid : s.plane.write.bvalid = false
  rvalid : s.plane.read.rvalid = false
  pushPulse : s.plane.stage.pushPulse = false

def frontStep (f : WriteChannel × Stage W I) (i : AxiInput) : WriteChannel × Stage W I :=
  (f.1.step i, f.2.step f.1)

def Bus.front (s : Bus D W I) : WriteChannel × Stage W I := (s.plane.write, s.plane.stage)

theorem wave_front (p : Identity) (env : Env) (s : Bus D W I) (x : Nat → AxiInput) (n : Nat) :
    (wave (Bus.tick p env) s x n).front = wave frontStep s.front x n :=
  wave_part (Bus.tick p env) frontStep Bus.front (fun _ i => i) (fun _ _ => rfl) s x n

def request (addr : BitVec 12) (data : BitVec 32) : WriteChannel :=
  { awPending := true, awaddrHold := addr, wPending := true, wdataHold := data, wstrbHold := 0xF,
    bvalid := false, bresp := 0 }

theorem commit_congr (s : Stage W I) {w : WriteChannel} {addr : BitVec 12} {data : BitVec 32}
    (ha : w.awaddrHold = addr) (hd : w.wdataHold = data) (hs : w.wstrbHold = 0xF) :
    s.commit w = s.commit (request addr data) := by
  obtain ⟨_, a, _, d, strb, _, _⟩ := w
  cases ha
  cases hd
  cases hs
  rfl

structure WritePhase (t : WriteTiming) (addr : BitVec 12) (data : BitVec 32) (st : Stage W I)
    (k : Nat) (f : WriteChannel × Stage W I) : Prop where
  awPending : f.1.awPending = decide (t.aw < k ∧ k ≤ t.last + 1)
  wPending : f.1.wPending = decide (t.w < k ∧ k ≤ t.last + 1)
  addrHeld : t.aw < k → f.1.awaddrHold = addr
  dataHeld : t.w < k → f.1.wdataHold = data ∧ f.1.wstrbHold = 0xF
  bvalid : f.1.bvalid = decide (t.last + 2 ≤ k ∧ k ≤ t.last + 2 + t.b)
  before : k ≤ t.last + 1 → f.2 = st
  pulse : k = t.last + 2 → f.2 = st.commit (request addr data)
  after : t.last + 2 < k → f.2 = { st.commit (request addr data) with pushPulse := false }

theorem writePhase_commit {t : WriteTiming} {addr : BitVec 12} {data : BitVec 32} {st : Stage W I}
    {k : Nat} {f : WriteChannel × Stage W I} (h : WritePhase t addr data st k f) :
    f.1.commit = decide (k = t.last + 1) := by
  have haw : t.aw ≤ t.last := Nat.le_max_left _ _
  have hw : t.w ≤ t.last := Nat.le_max_right _ _
  have hlast : t.last = t.aw ∨ t.last = t.w := by unfold WriteTiming.last; omega
  rw [WriteChannel.commit, h.awPending, h.wPending, h.bvalid, ← Bool.decide_and, ← decide_not,
    ← Bool.decide_and, decide_eq_decide]
  omega

theorem writePhase_step {t : WriteTiming} {addr : BitVec 12} {data : BitVec 32} {st : Stage W I}
    {k : Nat} {f : WriteChannel × Stage W I} (hst : st.pushPulse = false)
    (h : WritePhase t addr data st k f) :
    WritePhase t addr data st (k + 1) (frontStep f (writeInput t addr data k)) := by
  have hcommit := writePhase_commit h
  have haw : t.aw ≤ t.last := Nat.le_max_left _ _
  have hw : t.w ≤ t.last := Nat.le_max_right _ _
  have hidle : { st with pushPulse := false } = st := by rw [← hst]
  refine ⟨?_, ?_, ?_, ?_, ?_, ?_, ?_, ?_⟩
  · rw [frontStep, write_step_awPending, hcommit, h.awPending]
    simp only [writeInput, ← decide_not, ← Bool.decide_or, ← Bool.decide_and, decide_eq_decide]
    omega
  · rw [frontStep, write_step_wPending, hcommit, h.wPending]
    simp only [writeInput, ← decide_not, ← Bool.decide_or, ← Bool.decide_and, decide_eq_decide]
    omega
  · intro hk
    rw [frontStep, write_step_awaddr, h.awPending]
    by_cases hlt : t.aw < k
    · rw [h.addrHeld hlt]
      simp [writeInput]
    · have heq : k = t.aw := by omega
      simp [writeInput, heq]
  · intro hk
    rw [frontStep, (write_step_wdata _ _).1, (write_step_wdata _ _).2, h.wPending]
    by_cases hlt : t.w < k
    · rw [(h.dataHeld hlt).1, (h.dataHeld hlt).2]
      simp [writeInput]
    · have heq : k = t.w := by omega
      simp [writeInput, heq]
  · rw [frontStep, write_step_bvalid, hcommit, h.bvalid]
    simp only [writeInput, ← decide_not, ← Bool.decide_or, ← Bool.decide_and, decide_eq_decide]
    omega
  · intro hk
    have hc : f.1.commit = false := by rw [hcommit, decide_eq_false_iff_not]; omega
    rw [frontStep, Stage.step, hc, h.before (by omega)]
    exact hidle
  · intro hk
    have hc : f.1.commit = true := by rw [hcommit, decide_eq_true_iff]; omega
    have hd := h.dataHeld (by omega)
    rw [frontStep, Stage.step, hc, h.before (by omega), hidle,
      commit_congr st (h.addrHeld (by omega)) hd.1 hd.2]
    rfl
  · intro hk
    have hc : f.1.commit = false := by rw [hcommit, decide_eq_false_iff_not]; omega
    rw [frontStep, Stage.step, hc]
    by_cases heq : k = t.last + 2
    · rw [h.pulse heq]
      rfl
    · rw [h.after (by omega)]
      rfl

theorem writePhase_zero {s : Bus D W I} (h : s.Idle) (t : WriteTiming) (addr : BitVec 12)
    (data : BitVec 32) : WritePhase t addr data s.plane.stage 0 s.front := by
  refine ⟨?_, ?_, ?_, ?_, ?_, ?_, ?_, ?_⟩
  · rw [Bus.front, h.awPending]
    simp
  · rw [Bus.front, h.wPending]
    simp
  · omega
  · omega
  · rw [Bus.front, h.bvalid]
    simp
  · intro _
    rfl
  · omega
  · omega

theorem writePhase (p : Identity) (env : Env) {s : Bus D W I} (h : s.Idle) (addr : BitVec 12)
    (data : BitVec 32) (k : Nat) :
    WritePhase (env.write s.cycle) addr data s.plane.stage k (s.writeAt p env addr data k).front := by
  rw [Bus.writeAt, wave_front]
  induction k with
  | zero => exact writePhase_zero h _ addr data
  | succ k ih => exact writePhase_step h.pushPulse ih

theorem quiet_tick (p : Identity) (env : Env) {s : Bus D W I} (axi : AxiInput)
    (h : s.plane.stage.pushPulse = false) :
    (s.tick p env axi).accepted = s.accepted ∧
      (s.plane.fifo.full = false → (s.tick p env axi).plane.fifo.full = false) := by
  have hpush : (s.plane.fifoInput (env.plant s.cycle)).push = false := h
  constructor
  · simp [Bus.tick, Bus.accepts, Fifo.accepted, Fifo.acceptPush, hpush]
  · intro hf
    exact full_step_of_no_push hpush hf

section Quiet

variable {p : Identity} {env : Env} {s : Bus D W I} {x : Nat → AxiInput} {i j : Nat}

theorem quiet_run (hij : i ≤ j)
    (h : ∀ k, i ≤ k → k < j → (wave (Bus.tick p env) s x k).plane.stage.pushPulse = false) :
    (wave (Bus.tick p env) s x j).accepted = (wave (Bus.tick p env) s x i).accepted ∧
      ((wave (Bus.tick p env) s x i).plane.fifo.full = false →
        (wave (Bus.tick p env) s x j).plane.fifo.full = false) := by
  induction j, hij using Nat.le_induction with
  | base => exact ⟨rfl, id⟩
  | succ j hij ih =>
      obtain ⟨hacc, hfull⟩ := ih (fun k hi hk => h k hi (by omega))
      obtain ⟨hacc', hfull'⟩ :=
        quiet_tick p env (x j) (h j hij (Nat.lt_succ_self j))
      exact ⟨hacc'.trans hacc, fun hf => hfull' (hfull hf)⟩

end Quiet

section Write

variable {p : Identity} {env : Env} {s : Bus D W I} (h : s.Idle) (addr : BitVec 12)
  (data : BitVec 32)

include h

theorem writeAt_rvalid (k : Nat) : (s.writeAt p env addr data k).plane.read.rvalid = false := by
  induction k with
  | zero => exact h.rvalid
  | succ k ih =>
      have hstep := read_step_rvalid (writeInput (env.write s.cycle) addr data k)
        (s.writeAt p env addr data k).plane.read
        ((s.writeAt p env addr data k).plane.readData p
          (env.plant (s.writeAt p env addr data k).cycle) 0)
      rw [ih] at hstep
      exact hstep

theorem writeAt_quiet {k : Nat} (hk : k ≠ (env.write s.cycle).last + 2) :
    (s.writeAt p env addr data k).plane.stage.pushPulse = false := by
  have hph := writePhase p env h addr data k
  by_cases hlt : k ≤ (env.write s.cycle).last + 1
  · exact (congrArg Stage.pushPulse (hph.before hlt)).trans h.pushPulse
  · exact congrArg Stage.pushPulse (hph.after (by omega))

theorem write32_idle : (s.write32 p env addr data).Idle := by
  have hph := writePhase p env h addr data
    ((env.write s.cycle).last + 3 + (env.write s.cycle).b)
  refine ⟨hph.awPending.trans ?_, hph.wPending.trans ?_, hph.bvalid.trans ?_,
    writeAt_rvalid h addr data _, writeAt_quiet h addr data (by omega)⟩ <;>
    simp only [decide_eq_false_iff_not] <;> omega

theorem write32_stage :
    (s.write32 p env addr data).plane.stage =
      { s.plane.stage.commit (request addr data) with pushPulse := false } :=
  (writePhase _ _ h addr data _).after (by omega)

theorem pulsed_stage :
    (s.pulsed p env addr data).plane.stage = s.plane.stage.commit (request addr data) :=
  (writePhase _ _ h addr data _).pulse rfl

variable (p env) in
theorem pulsed_quiet :
    (s.pulsed p env addr data).accepted = s.accepted ∧
      (s.plane.fifo.full = false → (s.pulsed p env addr data).plane.fifo.full = false) :=
  quiet_run (Nat.zero_le _) (fun _ _ hk => writeAt_quiet h addr data (by omega))

/-- A write transaction is answered, and its push pulse, if it raises one, is
the only push of the transaction. -/
theorem write32_accepted :
    (s.write32 p env addr data).accepted =
      s.accepted ++ (s.pulsed p env addr data).accepts env := by
  have hrun : (s.write32 p env addr data).accepted =
      (s.writeAt p env addr data ((env.write s.cycle).last + 2 + 1)).accepted :=
    (quiet_run (by omega) (fun k hk _ => writeAt_quiet h addr data (by omega))).1
  rw [hrun, ← (pulsed_quiet p env h addr data).1]
  rfl

variable (p env) in
theorem write32_quiet (hq : (s.plane.stage.commit (request addr data)).pushPulse = false) :
    (s.write32 p env addr data).accepted = s.accepted ∧
      (s.plane.fifo.full = false → (s.write32 p env addr data).plane.fifo.full = false) := by
  refine quiet_run (Nat.zero_le _) (fun k _ _ => ?_)
  by_cases hk : k = (env.write s.cycle).last + 2
  · rw [hk]
    exact (congrArg Stage.pushPulse (pulsed_stage h addr data)).trans hq
  · exact writeAt_quiet h addr data hk

end Write

theorem frontStep_rests {f : WriteChannel × Stage W I} {i : AxiInput}
    (hf : (f.1.awPending = false ∧ f.1.wPending = false ∧ f.1.bvalid = false) ∧
      f.2.pushPulse = false)
    (ha : i.awvalid = false) (hw : i.wvalid = false) :
    ((frontStep f i).1.awPending = false ∧ (frontStep f i).1.wPending = false ∧
      (frontStep f i).1.bvalid = false) ∧ (frontStep f i).2 = f.2 := by
  obtain ⟨⟨haw, hww, hb⟩, hp⟩ := hf
  have hc : f.1.commit = false := by rw [WriteChannel.commit, haw]; rfl
  refine ⟨⟨?_, ?_, ?_⟩, ?_⟩
  · rw [frontStep, write_step_awPending, hc, haw, ha]
    rfl
  · rw [frontStep, write_step_wPending, hc, hww, hw]
    rfl
  · rw [frontStep, write_step_bvalid, hc, hb]
    rfl
  · have hstage : { f.2 with pushPulse := false } = f.2 := by rw [← hp]
    rw [frontStep, Stage.step, hc]
    exact hstage

section Read

variable {p : Identity} {env : Env} {s : Bus D W I} (h : s.Idle) (addr : BitVec 12)

include h

variable (p env) in
theorem readAt_front (k : Nat) :
    ((s.readAt p env addr k).plane.write.awPending = false ∧
      (s.readAt p env addr k).plane.write.wPending = false ∧
      (s.readAt p env addr k).plane.write.bvalid = false) ∧
      (s.readAt p env addr k).plane.stage = s.plane.stage := by
  induction k with
  | zero => exact ⟨⟨h.awPending, h.wPending, h.bvalid⟩, rfl⟩
  | succ k ih =>
      have hstep := frontStep_rests (f := (s.readAt p env addr k).front)
        (i := readInput (env.read s.cycle) addr k)
        ⟨ih.1, (congrArg Stage.pushPulse ih.2).trans h.pushPulse⟩ rfl rfl
      exact ⟨hstep.1, hstep.2.trans ih.2⟩

theorem readAt_quiet (k : Nat) : (s.readAt p env addr k).plane.stage.pushPulse = false :=
  (congrArg Stage.pushPulse (readAt_front _ _ h addr k).2).trans h.pushPulse

variable (p env) in
theorem readAt_rvalid (k : Nat) :
    (s.readAt p env addr k).plane.read.rvalid =
      decide ((env.read s.cycle).ar < k ∧
        k ≤ (env.read s.cycle).ar + 1 + (env.read s.cycle).r) := by
  induction k with
  | zero => exact h.rvalid.trans (by simp)
  | succ k ih =>
      refine (read_step_rvalid _ _ _).trans ?_
      have hread : (wave (Bus.tick p env) s (readInput (env.read s.cycle) addr) k).plane.read =
          (s.readAt p env addr k).plane.read := rfl
      rw [hread, ih]
      simp only [readInput, ← decide_not, ← Bool.decide_or, ← Bool.decide_and, decide_eq_decide]
      omega

theorem readAt_rdata {k : Nat} (hk : (env.read s.cycle).ar < k) :
    (s.readAt p env addr k).plane.read.rdata =
      (s.sampled p env addr).plane.readData p (env.plant (s.sampled p env addr).cycle) addr := by
  induction k, hk using Nat.le_induction with
  | base =>
      refine (read_step_rdata _ _ _).trans ?_
      have hidle := readAt_rvalid p env h addr (env.read s.cycle).ar
      have hread : (wave (Bus.tick p env) s (readInput (env.read s.cycle) addr)
          (env.read s.cycle).ar).plane.read =
          (s.readAt p env addr (env.read s.cycle).ar).plane.read := rfl
      rw [hread, hidle]
      simp only [lt_irrefl, false_and, decide_false, Bool.not_false, Bool.true_and, readInput,
        decide_true, if_true]
      rfl
  | succ k hk ih =>
      refine (read_step_rdata _ _ _).trans ?_
      have hne : decide (k = (env.read s.cycle).ar) = false := by
        rw [decide_eq_false_iff_not]
        omega
      simp only [readInput, hne, Bool.and_false, Bool.false_eq_true, if_false]
      exact ih

theorem read32_data :
    (s.read32 p env addr).1 =
      (s.sampled p env addr).plane.readData p (env.plant (s.sampled p env addr).cycle) addr :=
  readAt_rdata h addr (by omega)

variable (p env) in
theorem read32_idle : (s.read32 p env addr).2.Idle := by
  obtain ⟨⟨ha, hw, hb⟩, _⟩ := readAt_front p env h addr
    ((env.read s.cycle).ar + 2 + (env.read s.cycle).r)
  refine ⟨ha, hw, hb, (readAt_rvalid _ _ h addr _).trans ?_, readAt_quiet h addr _⟩
  rw [decide_eq_false_iff_not]
  omega

theorem read32_accepted : (s.read32 p env addr).2.accepted = s.accepted :=
  (quiet_run (Nat.zero_le _) (fun _ _ _ => readAt_quiet h addr _)).1

theorem read32_full (hf : (s.sampled p env addr).plane.fifo.full = false) :
    (s.read32 p env addr).2.plane.fifo.full = false :=
  (quiet_run (x := readInput (env.read s.cycle) addr) (i := (env.read s.cycle).ar) (by omega)
    (fun _ _ _ => readAt_quiet h addr _)).2 hf

end Read

section Words

variable (s : Stage W I) (data : BitVec 32)

theorem commit_evtTsLo :
    s.commit (request regEvtTsLo data) =
      { s with event.timestamp := s.event.timestamp.extractLsb' 32 32 ++ data } := by
  simp [Stage.commit, request, applyWstrb_word]

theorem commit_evtTsHi :
    s.commit (request regEvtTsHi data) =
      { s with event.timestamp := data ++ s.event.timestamp.extractLsb' 0 32 } := by
  simp [Stage.commit, request, applyWstrb_word, regEvtTsHi, regEvtTsLo]

theorem commit_evtMask :
    s.commit (request regEvtMask data) = { s with event.mask := data.setWidth W } := by
  simp [Stage.commit, request, applyWstrb_word, regEvtMask, regEvtTsHi, regEvtTsLo]

theorem commit_evtValue :
    s.commit (request regEvtValue data) = { s with event.value := data.setWidth W } := by
  simp [Stage.commit, request, applyWstrb_word, regEvtValue, regEvtMask, regEvtTsHi, regEvtTsLo]

theorem commit_evtId :
    s.commit (request regEvtId data) = { s with event.id := data.setWidth I } := by
  simp [Stage.commit, request, applyWstrb_word, regEvtId, regEvtValue, regEvtMask, regEvtTsHi,
    regEvtTsLo]

theorem commit_evtPush :
    s.commit (request regEvtPush data) = { s with pushPulse := data.getLsbD 0 } := by
  simp [Stage.commit, request, regEvtPush, regEvtId, regEvtValue, regEvtMask, regEvtTsHi,
    regEvtTsLo]

end Words

section Settings

variable {p : Identity} {env : Env} {s : Bus D W I} (h : s.Idle) (addr : BitVec 12)
  (data : BitVec 32)

/-- The settings without the pulse, which lasts one clock. -/
def settled (c : Config) : Config := { c with clearFaultsPulse := false }

def Bus.settings (s : Bus D W I) : Config := settled s.plane.config

theorem settings_tick (p : Identity) (env : Env) (t : Bus D W I) (axi : AxiInput) :
    (t.tick p env axi).settings =
      if t.plane.write.commit then settled (t.settings.commit t.plane.write) else t.settings := by
  have hconfig : (t.tick p env axi).plane.config = t.plane.config.step t.plane.write := rfl
  rw [Bus.settings, hconfig, Config.step]
  split <;> rfl

theorem settings_commit_congr (c : Config) {w : WriteChannel} (ha : w.awaddrHold = addr)
    (hd : w.wdataHold = data) (hs : w.wstrbHold = 0xF) :
    c.commit w = c.commit (request addr data) := by
  obtain ⟨_, a, _, d, strb, _, _⟩ := w
  cases ha
  cases hd
  cases hs
  rfl

include h

theorem writeAt_settings (k : Nat) :
    (s.writeAt p env addr data k).settings =
      if k ≤ (env.write s.cycle).last + 1 then s.settings
      else settled (s.settings.commit (request addr data)) := by
  induction k with
  | zero => rfl
  | succ k ih =>
      have hph := writePhase p env h addr data k
      have hcommit : (s.writeAt p env addr data k).plane.write.commit =
          decide (k = (env.write s.cycle).last + 1) := writePhase_commit hph
      have htick := settings_tick p env (s.writeAt p env addr data k)
        (writeInput (env.write s.cycle) addr data k)
      rw [hcommit, ih] at htick
      refine htick.trans ?_
      by_cases hk : k = (env.write s.cycle).last + 1
      · have haw : (env.write s.cycle).aw ≤ (env.write s.cycle).last := Nat.le_max_left _ _
        have hw : (env.write s.cycle).w ≤ (env.write s.cycle).last := Nat.le_max_right _ _
        obtain ⟨hdata, hstrb⟩ := hph.dataHeld (by omega)
        rw [if_pos (decide_eq_true hk), if_pos (Nat.le_of_eq hk), if_neg (by omega)]
        exact congrArg settled
          (settings_commit_congr addr data s.settings (hph.addrHeld (by omega)) hdata hstrb)
      · rw [if_neg (by simpa using hk)]
        by_cases hle : k ≤ (env.write s.cycle).last + 1
        · rw [if_pos hle, if_pos (by omega)]
        · rw [if_neg hle, if_neg (by omega)]

theorem write32_settings :
    (s.write32 p env addr data).settings =
      settled (s.settings.commit (request addr data)) :=
  (writeAt_settings h addr data _).trans (if_neg (by omega))

theorem readAt_settings (k : Nat) : (s.readAt p env addr k).settings = s.settings := by
  induction k with
  | zero => rfl
  | succ k ih =>
      obtain ⟨⟨haw, -, -⟩, -⟩ := readAt_front p env h addr k
      have hcommit : (s.readAt p env addr k).plane.write.commit = false := by
        rw [WriteChannel.commit, haw]
        rfl
      have htick := settings_tick p env (s.readAt p env addr k)
        (readInput (env.read s.cycle) addr k)
      rw [hcommit] at htick
      exact htick.trans ih

end Settings

/-- What the master of complete transactions can bring the control plane into. -/
inductive Reachable (p : Identity) (env : Env) : Bus D W I → Prop
  | reset (mem : Nat → Event W I) : Reachable p env (Bus.reset mem)
  | write {s : Bus D W I} (addr : BitVec 12) (data : BitVec 32) :
      Reachable p env s → Reachable p env (s.write32 p env addr data)
  | read {s : Bus D W I} (addr : BitVec 12) :
      Reachable p env s → Reachable p env (s.read32 p env addr).2

theorem Reachable.idle {p : Identity} {env : Env} {s : Bus D W I} (h : Reachable p env s) :
    s.Idle := by
  induction h with
  | reset mem => exact ⟨rfl, rfl, rfl, rfl, rfl⟩
  | write addr data _ ih => exact write32_idle ih addr data
  | read addr _ ih => exact read32_idle _ _ ih addr

end HilLab.Rtl.AxiMaster
