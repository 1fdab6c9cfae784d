import HilLab.Rtl.EventFifo

namespace HilLab.Rtl.ControlPlane

open EventFifo

structure Identity where
  backendId : BitVec 32
  capabilities : BitVec 32
  tickHz : BitVec 32
  buildId : BitVec 32

def magic : BitVec 32 := 0x48494C32
def abiVersion : BitVec 32 := 0x00010000

def regMagic : BitVec 12 := 0x000
def regAbiVersion : BitVec 12 := 0x004
def regBackendId : BitVec 12 := 0x008
def regCapabilities : BitVec 12 := 0x00C
def regTickHz : BitVec 12 := 0x010
def regCounterBits : BitVec 12 := 0x014
def regTimestampLo : BitVec 12 := 0x018
def regTimestampHi : BitVec 12 := 0x01C
def regControl : BitVec 12 := 0x020
def regMinDeadtime : BitVec 12 := 0x024
def regAbzStep : BitVec 12 := 0x028
def regBuildId : BitVec 12 := 0x02C
def regStatus : BitVec 12 := 0x030
def regPwmSeq : BitVec 12 := 0x034
def regEncoderPos : BitVec 12 := 0x038
def regPwm0Period : BitVec 12 := 0x040
def regPwm0High : BitVec 12 := 0x044
def regPwm0Low : BitVec 12 := 0x048
def regPwm1Period : BitVec 12 := 0x050
def regPwm1High : BitVec 12 := 0x054
def regPwm1Low : BitVec 12 := 0x058
def regPwm2Period : BitVec 12 := 0x060
def regPwm2High : BitVec 12 := 0x064
def regPwm2Low : BitVec 12 := 0x068
def regPwmValid : BitVec 12 := 0x06C
def regPwmFaults : BitVec 12 := 0x070
def regEvtTsLo : BitVec 12 := 0x100
def regEvtTsHi : BitVec 12 := 0x104
def regEvtMask : BitVec 12 := 0x108
def regEvtValue : BitVec 12 := 0x10C
def regEvtId : BitVec 12 := 0x110
def regEvtPush : BitVec 12 := 0x114
def regEvtStatus : BitVec 12 := 0x118

/-- The AXI4-Lite master's side of the register window. The address width is
the default 12 that every instance uses. -/
structure AxiInput where
  awaddr : BitVec 12
  awvalid : Bool
  wdata : BitVec 32
  wstrb : BitVec 4
  wvalid : Bool
  bready : Bool
  araddr : BitVec 12
  arvalid : Bool
  rready : Bool

structure PlantInput where
  externalForceSafe : Bool
  timestamp : BitVec 64
  pwmPeriodTicks : BitVec 96
  pwmHighTicks : BitVec 96
  pwmLowTicks : BitVec 96
  pwmMeasurementValid : BitVec 3
  pwmFaultFlags : BitVec 6
  encoderPositionEdges : BitVec 32
  dioEventArmed : Bool
  dioEventDonePulse : Bool

structure PlaneInput where
  axi : AxiInput
  plant : PlantInput

structure WriteChannel where
  awPending : Bool
  awaddrHold : BitVec 12
  wPending : Bool
  wdataHold : BitVec 32
  wstrbHold : BitVec 4
  bvalid : Bool
  bresp : BitVec 2

structure Config where
  hilEnable : Bool
  forceSafeSw : Bool
  clearFaultsPulse : Bool
  minDeadtimeTicks : BitVec 32
  abzEnable : Bool
  abzDirectionForward : Bool
  abzStepPeriodTicks : BitVec 32

structure Stage (W I : Nat) where
  event : Event W I
  pushPulse : Bool

structure Dispatch (W I : Nat) where
  armPulse : Bool
  event : Event W I
  pop : Bool
  inflight : Bool

structure ReadChannel where
  rvalid : Bool
  rresp : BitVec 2
  rdata : BitVec 32

structure Plane (D W I : Nat) where
  write : WriteChannel
  config : Config
  pwmSequence : BitVec 32
  stage : Stage W I
  dispatch : Dispatch W I
  fifo : Fifo D W I
  read : ReadChannel

variable {D W I : Nat}

def WriteChannel.reset : WriteChannel :=
  { awPending := false, awaddrHold := 0, wPending := false, wdataHold := 0, wstrbHold := 0,
    bvalid := false, bresp := 0 }

def Config.reset : Config :=
  { hilEnable := false, forceSafeSw := true, clearFaultsPulse := false, minDeadtimeTicks := 80,
    abzEnable := false, abzDirectionForward := true, abzStepPeriodTicks := 1000 }

def Stage.reset : Stage W I := { event := Event.zero W I, pushPulse := false }

def Dispatch.reset : Dispatch W I :=
  { armPulse := false, event := Event.zero W I, pop := false, inflight := false }

def ReadChannel.reset : ReadChannel := { rvalid := false, rresp := 0, rdata := 0 }

/-- The state that reset leaves; the event memory has no reset. -/
def Plane.reset (mem : Nat → Event W I) : Plane D W I :=
  { write := .reset, config := .reset, pwmSequence := 0, stage := .reset, dispatch := .reset,
    fifo :=
      { mem := mem, writePtr := 0, readPtr := 0, count := 0, lastTimestamp := 0,
        overflowLatched := false, orderErrorLatched := false },
    read := .reset }

def setByte (old new : BitVec 32) (i : Nat) : BitVec 32 :=
  let lane : BitVec 32 := 0xFF <<< (8 * i)
  (old &&& ~~~lane) ||| (new &&& lane)

def applyWstrb (old new : BitVec 32) (strb : BitVec 4) : BitVec 32 :=
  (List.range 4).foldl (fun word i => if strb.getLsbD i then setByte word new i else word) old

def Plane.cfgForceSafe (c : Plane D W I) (i : PlantInput) : Bool :=
  c.config.forceSafeSw || i.externalForceSafe

def WriteChannel.commit (w : WriteChannel) : Bool := w.awPending && w.wPending && !w.bvalid

def WriteChannel.step (w : WriteChannel) (i : AxiInput) : WriteChannel :=
  let addressed :=
    if !w.awPending && i.awvalid then { w with awPending := true, awaddrHold := i.awaddr } else w
  let held :=
    if !w.wPending && i.wvalid then
      { addressed with wPending := true, wdataHold := i.wdata, wstrbHold := i.wstrb }
    else addressed
  if w.commit then { held with awPending := false, wPending := false, bvalid := true, bresp := 0 }
  else if w.bvalid && i.bready then { held with bvalid := false }
  else held

def Config.controlCurrent (c : Config) : BitVec 32 :=
  0#27 ++ BitVec.ofBool c.abzDirectionForward ++ BitVec.ofBool c.abzEnable ++ 0#1 ++
    BitVec.ofBool c.forceSafeSw ++ BitVec.ofBool c.hilEnable

def Config.commit (c : Config) (w : WriteChannel) : Config :=
  if w.awaddrHold = regControl then
    let merged := applyWstrb c.controlCurrent w.wdataHold w.wstrbHold
    { c with
      hilEnable := merged.getLsbD 0
      forceSafeSw := merged.getLsbD 1
      clearFaultsPulse := w.wstrbHold.getLsbD 0 && w.wdataHold.getLsbD 2
      abzEnable := merged.getLsbD 3
      abzDirectionForward := merged.getLsbD 4 }
  else if w.awaddrHold = regMinDeadtime then
    { c with minDeadtimeTicks := applyWstrb c.minDeadtimeTicks w.wdataHold w.wstrbHold }
  else if w.awaddrHold = regAbzStep then
    { c with abzStepPeriodTicks := applyWstrb c.abzStepPeriodTicks w.wdataHold w.wstrbHold }
  else c

def Config.step (c : Config) (w : WriteChannel) : Config :=
  let idle := { c with clearFaultsPulse := false }
  if w.commit then idle.commit w else idle

def Stage.commit (s : Stage W I) (w : WriteChannel) : Stage W I :=
  let merge (old : BitVec 32) := applyWstrb old w.wdataHold w.wstrbHold
  let lo := s.event.timestamp.extractLsb' 0 32
  let hi := s.event.timestamp.extractLsb' 32 32
  if w.awaddrHold = regEvtTsLo then { s with event.timestamp := hi ++ merge lo }
  else if w.awaddrHold = regEvtTsHi then { s with event.timestamp := merge hi ++ lo }
  else if w.awaddrHold = regEvtMask then
    { s with event.mask := (merge (s.event.mask.setWidth 32)).setWidth W }
  else if w.awaddrHold = regEvtValue then
    { s with event.value := (merge (s.event.value.setWidth 32)).setWidth W }
  else if w.awaddrHold = regEvtId then
    { s with event.id := (merge (s.event.id.setWidth 32)).setWidth I }
  else if w.awaddrHold = regEvtPush then
    { s with pushPulse := w.wstrbHold.getLsbD 0 && w.wdataHold.getLsbD 0 }
  else s

def Stage.step (s : Stage W I) (w : WriteChannel) : Stage W I :=
  let idle := { s with pushPulse := false }
  if w.commit then idle.commit w else idle

/-- The dispatcher hands the head of the queue to the scheduler and pops it in
the same registered cycle. -/
def Dispatch.step (d : Dispatch W I) (forceSafe armed done : Bool) (fifo : Fifo D W I) :
    Dispatch W I :=
  let idle := { d with armPulse := false, pop := false }
  if forceSafe then { idle with inflight := false }
  else
    let settled := if d.inflight && (armed || done) then { idle with inflight := false } else idle
    if !d.inflight && !armed && !fifo.empty then
      { settled with event := fifo.head, armPulse := true, pop := true, inflight := true }
    else settled

def Plane.fifoInput (c : Plane D W I) (i : PlantInput) : FifoInput W I :=
  { clear := c.cfgForceSafe i, push := c.stage.pushPulse, pushEvent := c.stage.event,
    pop := c.dispatch.pop }

def Plane.eventStatus (c : Plane D W I) : BitVec 32 :=
  0#8 ++ c.fifo.level ++ 0#4 ++ BitVec.ofBool c.fifo.orderErrorLatched ++
    BitVec.ofBool c.fifo.overflowLatched ++ BitVec.ofBool c.fifo.full ++
    BitVec.ofBool c.fifo.empty

def Plane.status (c : Plane D W I) (i : PlantInput) : BitVec 32 :=
  0#20 ++ BitVec.ofBool c.fifo.orderErrorLatched ++ BitVec.ofBool c.fifo.overflowLatched ++
    0#1 ++ BitVec.ofBool i.dioEventArmed ++ i.pwmFaultFlags ++
    BitVec.ofBool (c.cfgForceSafe i) ++ BitVec.ofBool c.config.hilEnable

def Plane.controlRead (c : Plane D W I) (i : PlantInput) : BitVec 32 :=
  0#27 ++ BitVec.ofBool c.config.abzDirectionForward ++ BitVec.ofBool c.config.abzEnable ++ 0#1 ++
    BitVec.ofBool (c.cfgForceSafe i) ++ BitVec.ofBool c.config.hilEnable

def Plane.readData (c : Plane D W I) (p : Identity) (i : PlantInput)
    (addr : BitVec 12) : BitVec 32 :=
  if addr = regMagic then magic
  else if addr = regAbiVersion then abiVersion
  else if addr = regBackendId then p.backendId
  else if addr = regCapabilities then p.capabilities
  else if addr = regTickHz then p.tickHz
  else if addr = regCounterBits then 64
  else if addr = regTimestampLo then i.timestamp.extractLsb' 0 32
  else if addr = regTimestampHi then i.timestamp.extractLsb' 32 32
  else if addr = regControl then c.controlRead i
  else if addr = regMinDeadtime then c.config.minDeadtimeTicks
  else if addr = regAbzStep then c.config.abzStepPeriodTicks
  else if addr = regBuildId then p.buildId
  else if addr = regStatus then c.status i
  else if addr = regPwmSeq then c.pwmSequence
  else if addr = regEncoderPos then i.encoderPositionEdges
  else if addr = regPwm0Period then i.pwmPeriodTicks.extractLsb' 0 32
  else if addr = regPwm0High then i.pwmHighTicks.extractLsb' 0 32
  else if addr = regPwm0Low then i.pwmLowTicks.extractLsb' 0 32
  else if addr = regPwm1Period then i.pwmPeriodTicks.extractLsb' 32 32
  else if addr = regPwm1High then i.pwmHighTicks.extractLsb' 32 32
  else if addr = regPwm1Low then i.pwmLowTicks.extractLsb' 32 32
  else if addr = regPwm2Period then i.pwmPeriodTicks.extractLsb' 64 32
  else if addr = regPwm2High then i.pwmHighTicks.extractLsb' 64 32
  else if addr = regPwm2Low then i.pwmLowTicks.extractLsb' 64 32
  else if addr = regPwmValid then i.pwmMeasurementValid.setWidth 32
  else if addr = regPwmFaults then i.pwmFaultFlags.setWidth 32
  else if addr = regEvtTsLo then c.stage.event.timestamp.extractLsb' 0 32
  else if addr = regEvtTsHi then c.stage.event.timestamp.extractLsb' 32 32
  else if addr = regEvtMask then c.stage.event.mask.setWidth 32
  else if addr = regEvtValue then c.stage.event.value.setWidth 32
  else if addr = regEvtId then c.stage.event.id.setWidth 32
  else if addr = regEvtStatus then c.eventStatus
  else 0

def ReadChannel.step (r : ReadChannel) (i : AxiInput) (data : BitVec 32) : ReadChannel :=
  if !r.rvalid && i.arvalid then { rvalid := true, rresp := 0, rdata := data }
  else if r.rvalid && i.rready then { r with rvalid := false }
  else r

def Plane.step (p : Identity) (c : Plane D W I) (i : PlaneInput) : Plane D W I :=
  { write := c.write.step i.axi
    config := c.config.step c.write
    pwmSequence :=
      if i.plant.pwmMeasurementValid ≠ 0 then c.pwmSequence + 1 else c.pwmSequence
    stage := c.stage.step c.write
    dispatch :=
      c.dispatch.step (c.cfgForceSafe i.plant) i.plant.dioEventArmed i.plant.dioEventDonePulse
        c.fifo
    fifo := c.fifo.step (c.fifoInput i.plant)
    read := c.read.step i.axi (c.readData p i.plant i.axi.araddr) }

theorem getLsbD_setByte (old new : BitVec 32) {lane i : Nat} (hi : i < 32) :
    (setByte old new lane).getLsbD i =
      if 8 * lane ≤ i ∧ i < 8 * lane + 8 then new.getLsbD i else old.getLsbD i := by
  have hff : ∀ j, (0xFF#32).getLsbD j = decide (j < 8) := by
    intro j
    by_cases hj : j < 32
    · have hall : ∀ j : Fin 32, (0xFF#32).getLsbD j = decide (j.val < 8) := by decide
      exact hall ⟨j, hj⟩
    · rw [BitVec.getLsbD_of_ge _ _ (by omega), eq_comm, decide_eq_false_iff_not]
      omega
  have hset : setByte old new lane =
      (old &&& ~~~(0xFF#32 <<< (8 * lane))) ||| (new &&& (0xFF#32 <<< (8 * lane))) := rfl
  rw [hset, BitVec.getLsbD_or, BitVec.getLsbD_and, BitVec.getLsbD_and, BitVec.getLsbD_not,
    BitVec.getLsbD_shiftLeft, hff]
  have hd : (decide (i < 32) && !decide (i < 8 * lane) && decide (i - 8 * lane < 8)) =
      decide (8 * lane ≤ i ∧ i < 8 * lane + 8) := by
    rw [← decide_not, ← Bool.decide_and, ← Bool.decide_and, decide_eq_decide]
    omega
  rw [hd]
  by_cases h : 8 * lane ≤ i ∧ i < 8 * lane + 8 <;> simp [h, hi]

theorem applyWstrb_word (old new : BitVec 32) : applyWstrb old new 0xF#4 = new := by
  have hfold : applyWstrb old new 0xF#4 =
      setByte (setByte (setByte (setByte old new 0) new 1) new 2) new 3 := rfl
  refine BitVec.eq_of_getLsbD_eq (fun i hi => ?_)
  rw [hfold, getLsbD_setByte _ _ hi, getLsbD_setByte _ _ hi,
    getLsbD_setByte _ _ hi, getLsbD_setByte _ _ hi]
  split_ifs <;> first | rfl | omega

section ControlWord

/-- The bits of REG_CONTROL, where safe is what bit 1 shows. -/
def controlWord (c : Config) (safe : Bool) : BitVec 32 :=
  0#27 ++ BitVec.ofBool c.abzDirectionForward ++ BitVec.ofBool c.abzEnable ++ 0#1 ++
    BitVec.ofBool safe ++ BitVec.ofBool c.hilEnable

theorem controlRead_eq (c : Plane D W I) (i : PlantInput) :
    c.controlRead i = controlWord c.config (c.cfgForceSafe i) := rfl

theorem controlWord_bits (c : Config) (safe : Bool) :
    (controlWord c safe).getLsbD 0 = c.hilEnable ∧ (controlWord c safe).getLsbD 1 = safe ∧
      (controlWord c safe).getLsbD 3 = c.abzEnable ∧
      (controlWord c safe).getLsbD 4 = c.abzDirectionForward := by
  rw [controlWord]
  cases c.hilEnable <;> cases safe <;> cases c.abzEnable <;> cases c.abzDirectionForward <;> decide

theorem controlWord_high (c : Config) (safe : Bool) {b : Nat} (hb : 5 ≤ b) :
    (controlWord c safe).getLsbD b = false := by
  have hlt : (controlWord c safe).toNat < 2 ^ 5 := by
    rw [controlWord]
    cases c.hilEnable <;> cases safe <;> cases c.abzEnable <;> cases c.abzDirectionForward <;>
      decide
  rw [← BitVec.testBit_toNat]
  exact Nat.testBit_lt_two_pow (Nat.lt_of_lt_of_le hlt (Nat.pow_le_pow_right (by decide) hb))

end ControlWord

section Channels

variable (w : WriteChannel) (i : AxiInput)

theorem write_step_awPending :
    (w.step i).awPending = (!w.commit && (w.awPending || i.awvalid)) := by
  rw [WriteChannel.step]
  cases hc : w.commit <;> cases ha : w.awPending <;> cases hv : i.awvalid <;>
    simp <;> split_ifs <;> simp [ha]

theorem write_step_wPending :
    (w.step i).wPending = (!w.commit && (w.wPending || i.wvalid)) := by
  rw [WriteChannel.step]
  cases hc : w.commit <;> cases ha : w.wPending <;> cases hv : i.wvalid <;>
    simp <;> split_ifs <;> simp [ha]

theorem write_step_bvalid :
    (w.step i).bvalid = (w.commit || w.bvalid && !i.bready) := by
  rw [WriteChannel.step]
  cases hc : w.commit <;> cases hb : w.bvalid <;> cases hr : i.bready <;>
    simp <;> split_ifs <;> simp [hb]

theorem write_step_awaddr :
    (w.step i).awaddrHold = if !w.awPending && i.awvalid then i.awaddr else w.awaddrHold := by
  rw [WriteChannel.step]
  split_ifs <;> simp

theorem write_step_wdata :
    (w.step i).wdataHold = (if !w.wPending && i.wvalid then i.wdata else w.wdataHold) ∧
      (w.step i).wstrbHold = (if !w.wPending && i.wvalid then i.wstrb else w.wstrbHold) := by
  rw [WriteChannel.step]
  split_ifs <;> simp

theorem read_step_rvalid (r : ReadChannel) (data : BitVec 32) :
    (r.step i data).rvalid = (!r.rvalid && i.arvalid || r.rvalid && !i.rready) := by
  rw [ReadChannel.step]
  cases hv : r.rvalid <;> cases ha : i.arvalid <;> cases hr : i.rready <;> simp [hv]

theorem read_step_rdata (r : ReadChannel) (data : BitVec 32) :
    (r.step i data).rdata = if !r.rvalid && i.arvalid then data else r.rdata := by
  rw [ReadChannel.step]
  split_ifs <;> rfl

end Channels

end HilLab.Rtl.ControlPlane
