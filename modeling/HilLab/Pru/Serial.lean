import HilLab.Pru.Stimulus

namespace HilLab.Pru.Serial

open Protocol
open Stimulus (Reply clearResponse)

abbrev Word := BitVec 32

def firmwareVersion : Word := 0x00032000

/-- TIMEBASE, RPMSG, FORCE_SAFE, STIMULUS_ENGINE, SSI_EMULATOR, BISS_EMULATOR and
SPI_SENSOR_EMULATOR. -/
def serialCapabilities : Word :=
  1 <<< 0 ||| 1 <<< 1 ||| 1 <<< 3 ||| 1 <<< 9 ||| 1 <<< 13 ||| 1 <<< 14 ||| 1 <<< 15

def errUnsupportedMode : Word := 1 <<< 9

inductive SerialMode
  | none | ssi | biss | spi
deriving DecidableEq, Repr

def SerialMode.code : SerialMode → Word
  | .none => 0
  | .ssi => 1
  | .biss => 2
  | .spi => 3

def SerialMode.ofCode (code : Word) : Option SerialMode :=
  [SerialMode.ssi, .biss, .spi].find? (fun mode => mode.code == code)

def clkMask : Word := 1 <<< 0
def dataMask : Word := 1 <<< 1
def csMask : Word := 1 <<< 2
def mosiMask : Word := 1 <<< 3

def flagFaultEnable : Word := 1 <<< 0
def flagBissErrorOk : Word := 1 <<< 1
def flagBissWarningOk : Word := 1 <<< 2

section Frames

def crcShift (crc bit : Word) : Word :=
  let feedback := (crc >>> 5 &&& 1) ^^^ bit
  let crc := crc <<< 1 &&& 0x3F
  if feedback ≠ 0 then crc ^^^ 0x03 else crc

def crcBits (value : Word) : Nat → Word → Word
  | 0, crc => crc
  | n + 1, crc => crcBits value n (crcShift crc (value >>> n &&& 1))

def crc6Biss (position positionBits errorOk warningOk : Word) : Word :=
  let crc := crcBits position positionBits.toNat 0
  let statusBits := (errorOk &&& 1) <<< 1 ||| warningOk &&& 1
  let crc := crcBits statusBits 2 crc
  ~~~crc &&& 0x3F

def flag (dataFlags mask : Word) : Word := if dataFlags &&& mask ≠ 0 then 1 else 0

def effective (dataBits dataValue faultMask dataFlags : Word) : Word :=
  let effective := if dataFlags &&& flagFaultEnable ≠ 0 then dataValue ^^^ faultMask else dataValue
  if dataBits < 32 then effective &&& ((1 : Word) <<< dataBits - 1) else effective

def buildFrame (mode : SerialMode) (dataBits dataValue faultMask dataFlags : Word) :
    BitVec 64 × Word :=
  let effective := effective dataBits dataValue faultMask dataFlags
  if mode = .biss then
    let errorOk := flag dataFlags flagBissErrorOk
    let warningOk := flag dataFlags flagBissWarningOk
    let crc := crc6Biss effective dataBits errorOk warningOk
    let frame : BitVec 64 := 0
    let frame := frame <<< 1
    let frame := frame <<< 1 ||| 1
    let frame := frame <<< 1
    let frame := frame <<< dataBits ||| effective.setWidth 64
    let frame := frame <<< 1 ||| errorOk.setWidth 64
    let frame := frame <<< 1 ||| warningOk.setWidth 64
    let frame := frame <<< 6 ||| crc.setWidth 64
    (frame, dataBits + 11)
  else (effective.setWidth 64, dataBits)

def frameBit (frame : BitVec 64) (totalBits index : Word) : Word :=
  let shift := totalBits - 1 - index
  (frame >>> shift &&& 1).setWidth 32

end Frames

/-- The variables of main and the output register R30. -/
structure Emulator where
  r30 : Word
  mode : SerialMode
  configured : Bool
  enabled : Bool
  startPending : Bool
  dataBits : Word
  frameGapTicks : Word
  configFlags : Word
  dataValue : Word
  faultMask : Word
  dataFlags : Word
  frameCount : Word
  protocolErrorCount : Word
  minHalfPeriodTicks : Word
  lastApplyTicks : Word
  lastClk : Bool
  lastCs : Bool
  lastEdgeTicks : Word
  frameActive : Bool
  bitIndex : Word
  totalBits : Word
  currentFrame : BitVec 64
  receivedMosi : Word
  receivedBits : Word
deriving DecidableEq, Repr

def Emulator.setDataOutput (s : Emulator) (value : Word) : Emulator :=
  { s with r30 := if value ≠ 0 then s.r30 ||| dataMask else s.r30 &&& ~~~dataMask }

def Emulator.forceSafeOutput (s : Emulator) : Emulator := s.setDataOutput 0

def Emulator.data (s : Emulator) : Bool := s.r30 &&& dataMask != 0

def Emulator.init (r30 : Word) : Emulator :=
  Emulator.forceSafeOutput
    { r30, mode := .none, configured := false, enabled := false, startPending := false,
      dataBits := 24, frameGapTicks := 200, configFlags := 0, dataValue := 0, faultMask := 0,
      dataFlags := flagBissErrorOk ||| flagBissWarningOk, frameCount := 0, protocolErrorCount := 0,
      minHalfPeriodTicks := 0, lastApplyTicks := 0, lastClk := true, lastCs := true,
      lastEdgeTicks := 0, frameActive := false, bitIndex := 0, totalBits := 0, currentFrame := 0,
      receivedMosi := 0, receivedBits := 0 }

def Emulator.reject (s : Emulator) (flags : Word) : Emulator × Reply := (s, { flags := flags })

section Requests

inductive Command
  | hello | time | ping | forceSafe
  | serialConfig | serialData | serialStart | serialStop | serialStatus
deriving DecidableEq, Repr

def Command.code : Command → BitVec 16
  | .hello => 1
  | .time => 2
  | .forceSafe => 4
  | .ping => 5
  | .serialConfig => 27
  | .serialData => 28
  | .serialStart => 29
  | .serialStop => 30
  | .serialStatus => 31

def Command.all : List Command :=
  [.hello, .time, .ping, .forceSafe, .serialConfig, .serialData, .serialStart, .serialStop,
    .serialStatus]

/-- The case of the request switch that a type field selects. -/
def Command.ofCode (type : BitVec 16) : Option Command := Command.all.find? (fun c => c.code == type)

variable (request : Msg) (now : Word) (s : Emulator)

def hello : Emulator × Reply :=
  (s, { arg0 := serialCapabilities, arg1 := iepTickHz, arg2 := iepCounterBits,
        arg3 := firmwareVersion })

def time : Emulator × Reply := (s, { arg0 := now, arg1 := iepTickHz, arg2 := iepCounterBits })

def ping : Emulator × Reply := (s, { arg0 := now })

def forceSafe : Emulator × Reply :=
  ({ s.forceSafeOutput with enabled := false, startPending := false, lastApplyTicks := now },
    { arg0 := now, arg1 := s.frameCount })

def serialConfig : Emulator × Reply :=
  if s.enabled then s.reject errCaptureRunning
  else
    match SerialMode.ofCode request.arg0 with
    | none => s.reject errUnsupportedMode
    | some mode =>
        if request.arg1 = 0 ∨ 32 < request.arg1 then s.reject errInvalidArgument
        else
          ({ s.forceSafeOutput with
              mode
              dataBits := request.arg1
              frameGapTicks := request.arg2
              configFlags := request.arg3
              configured := true
              frameCount := 0
              protocolErrorCount := 0
              minHalfPeriodTicks := 0 },
            { arg0 := mode.code, arg1 := request.arg1, arg2 := request.arg2,
              arg3 := request.arg3 })

def serialData : Emulator × Reply :=
  if s.enabled then s.reject errCaptureRunning
  else
    ({ s with dataValue := request.arg0, faultMask := request.arg1, dataFlags := request.arg2 },
      { arg0 := request.arg0, arg1 := request.arg1, arg2 := request.arg2 })

def serialStart : Emulator × Reply :=
  if !s.configured || s.enabled || s.startPending then
    s.reject (if !s.configured then errInvalidArgument else errCaptureRunning)
  else ({ s with startPending := true }, { arg0 := now, arg1 := s.mode.code, arg2 := s.dataBits })

def serialStop : Emulator × Reply :=
  ({ s.forceSafeOutput with enabled := false, startPending := false, lastApplyTicks := now },
    { arg0 := now, arg1 := s.frameCount, arg2 := s.minHalfPeriodTicks,
      arg3 := s.protocolErrorCount })

def serialStatus : Emulator × Reply :=
  (s,
    { arg0 := (if s.enabled then 1 else 0) ||| (s.mode.code &&& 0xFF) <<< 8
      arg1 := s.frameCount
      arg2 := s.minHalfPeriodTicks
      arg3 := s.protocolErrorCount })

def dispatch : Command → Emulator × Reply
  | .hello => hello s
  | .time => time now s
  | .ping => ping now s
  | .forceSafe => forceSafe now s
  | .serialConfig => serialConfig request s
  | .serialData => serialData request s
  | .serialStart => serialStart now s
  | .serialStop => serialStop now s
  | .serialStatus => serialStatus s

/-- The case a received buffer reaches, or the flags of its refusal. -/
def accept (len : BitVec 16) : Except Word Command :=
  if len ≠ sizeofMsg then .error errBadLength
  else if request.magic ≠ hilPruMagic then .error errBadMagic
  else if request.version ≠ hilPruProtocolVersion then .error errBadVersion
  else
    match Command.ofCode request.type with
    | some command => .ok command
    | none => .error errBadCommand

def handle (len : BitVec 16) : Emulator × Reply :=
  match accept request len with
  | .ok command => dispatch request now s command
  | .error flags => s.reject flags

/-- A buffer of the wrong length is not read: its response names no request. -/
def handleRequest (len : BitVec 16) : Emulator × Msg :=
  let (next, reply) := handle request now s len
  if len ≠ sizeofMsg then (next, clearResponse 0 0 reply)
  else (next, clearResponse request.type request.seq reply)

end Requests

section Starts

/-- A received buffer, with the ticks read while it is handled and, after the response is sent,
the inputs and ticks of a start. -/
structure Reception where
  len : BitVec 16
  request : Msg
  now : Word
  baseline : Word
  startNow : Word
deriving DecidableEq, Repr

/-- The run that a pending start begins once it has been acknowledged. -/
def Emulator.startPendingRun (s : Emulator) (baseline startNow : Word) : Emulator :=
  if s.startPending then
    let level : Word := if s.mode = .ssi ∨ s.mode = .biss then 1 else 0
    { s.setDataOutput level with
      lastClk := baseline &&& clkMask != 0
      lastCs := baseline &&& csMask != 0
      lastEdgeTicks := startNow
      frameActive := false
      bitIndex := 0
      receivedBits := 0
      minHalfPeriodTicks := 0
      protocolErrorCount := 0
      lastApplyTicks := startNow
      enabled := true
      startPending := false }
  else s

def Emulator.serve (s : Emulator) (r : Reception) : Emulator :=
  (handleRequest r.request r.now s r.len).1.startPendingRun r.baseline r.startNow

end Starts

section Edges

variable (s : Emulator) (now : Word)

def Emulator.updateMinHalfPeriod : Emulator :=
  let delta := now - s.lastEdgeTicks
  { s with
    minHalfPeriodTicks :=
      if s.lastEdgeTicks ≠ 0 ∧ (s.minHalfPeriodTicks = 0 ∨ delta < s.minHalfPeriodTicks) then delta
      else s.minHalfPeriodTicks
    lastEdgeTicks := now }

def Emulator.loadFrame : Emulator :=
  let (currentFrame, totalBits) :=
    buildFrame s.mode s.dataBits s.dataValue s.faultMask s.dataFlags
  Emulator.setDataOutput { s with currentFrame, totalBits, bitIndex := 0, frameActive := true }
    (frameBit currentFrame totalBits 0)

def Emulator.nextBit : Emulator :=
  Emulator.setDataOutput { s with bitIndex := s.bitIndex + 1 }
    (frameBit s.currentFrame s.totalBits (s.bitIndex + 1))

/-- A last_edge_ticks of zero stands for no edge yet. -/
def Emulator.gapElapsed : Bool :=
  let edgeDelta := if s.lastEdgeTicks = 0 then 0 else now - s.lastEdgeTicks
  if s.lastEdgeTicks = 0 then true else s.frameGapTicks != 0 && decide (s.frameGapTicks ≤ edgeDelta)

def Emulator.clockFall : Emulator :=
  if !s.frameActive || s.gapElapsed now then s.loadFrame
  else if s.bitIndex + 1 < s.totalBits then s.nextBit
  else s

def Emulator.frameEnd : Emulator := Emulator.setDataOutput { s with frameActive := false } 1

def Emulator.clockRise : Emulator :=
  if s.frameActive ∧ s.totalBits ≤ s.bitIndex + 1 then
    Emulator.frameEnd { s with frameCount := s.frameCount + 1 }
  else s

def Emulator.gapTimeout : Emulator :=
  if s.frameActive ∧ s.frameGapTicks ≠ 0 ∧ s.frameGapTicks ≤ now - s.lastEdgeTicks then s.frameEnd
  else s

def Emulator.clockDriven (clkRise clkFall : Bool) : Emulator :=
  let s := if clkFall then s.clockFall now else s
  let s := if clkRise then s.clockRise else s
  let s := if clkRise || clkFall then s.updateMinHalfPeriod now else s
  s.gapTimeout now

def Emulator.selected : Emulator :=
  let (currentFrame, totalBits) :=
    buildFrame s.mode s.dataBits s.dataValue s.faultMask s.dataFlags
  Emulator.setDataOutput
    { s with
      currentFrame, totalBits, bitIndex := 0, receivedMosi := 0, receivedBits := 0,
      frameActive := true, lastEdgeTicks := now }
    (frameBit currentFrame totalBits 0)

def Emulator.receiveMosi (mosi : Bool) : Emulator :=
  { s.updateMinHalfPeriod now with
    receivedMosi := s.receivedMosi <<< 1 ||| (if mosi then 1 else 0) &&& 1
    receivedBits := if s.receivedBits < 32 then s.receivedBits + 1 else s.receivedBits }

def Emulator.sendMiso : Emulator :=
  let s := s.updateMinHalfPeriod now
  if s.bitIndex + 1 < s.totalBits then s.nextBit else s.setDataOutput 0

def Emulator.deselected : Emulator :=
  Emulator.setDataOutput
    { s with
      protocolErrorCount :=
        if s.receivedBits ≠ s.totalBits then s.protocolErrorCount + 1 else s.protocolErrorCount
      frameCount := s.frameCount + 1
      frameActive := false }
    0

def Emulator.selectDriven (clkRise clkFall cs csFall csRise mosi : Bool) : Emulator :=
  let s := if csFall then s.selected now else s
  let s :=
    if !cs && s.frameActive then
      let s := if clkRise then s.receiveMosi now mosi else s
      if clkFall then s.sendMiso now else s
    else s
  if csRise && s.frameActive then s.deselected else s

/-- The first half of a pass, on the inputs R31 and the ticks read at its start. -/
def Emulator.sample (raw : Word) : Emulator :=
  let clk := raw &&& clkMask != 0
  let cs := raw &&& csMask != 0
  let mosi := raw &&& mosiMask != 0
  let clkRise := clk && !s.lastClk
  let clkFall := !clk && s.lastClk
  let csFall := !cs && s.lastCs
  let csRise := cs && !s.lastCs
  let s :=
    if s.enabled then
      match s.mode with
      | .ssi | .biss => s.clockDriven now clkRise clkFall
      | .spi => s.selectDriven now clkRise clkFall cs csFall csRise mosi
      | .none => s
    else s
  { s with lastClk := clk, lastCs := cs }

end Edges

/-- One pass of the main loop: what it reads first, the host interrupt flag it reads again, and
the buffers received while it drains the channel. -/
structure Iteration where
  raw : Word
  now : Word
  hostInt : Bool
  received : List Reception
deriving DecidableEq, Repr

def Emulator.iterate (s : Emulator) (i : Iteration) : Emulator :=
  let s := s.sample i.now i.raw
  if i.hostInt then i.received.foldl Emulator.serve s else s

end HilLab.Pru.Serial
