import Mathlib.Data.Nat.Notation

namespace HilLab.Pru.Protocol

def hilPruMagic : BitVec 32 := 0x304C4948
def hilPruProtocolVersion : BitVec 16 := 1
def hilPruB2FirmwareVersion : BitVec 32 := 0x00031000

/-- TIMEBASE, RPMSG, FORCE_SAFE, STIMULUS_ENGINE, ABZ_EMULATOR, HALL_EMULATOR,
SCHEDULED_GPIO and SCHEDULED_APPLY. -/
def hilPruB2Capabilities : BitVec 32 :=
  1 <<< 0 ||| 1 <<< 1 ||| 1 <<< 3 ||| 1 <<< 9 ||| 1 <<< 10 ||| 1 <<< 12 ||| 1 <<< 11 ||| 1 <<< 16

def iepTickHz : BitVec 32 := 200000000
def iepCounterBits : BitVec 32 := 32

def responseBit : BitVec 16 := 0x8000

def statusOk : BitVec 32 := 0
def errBadLength : BitVec 32 := 1 <<< 0
def errBadMagic : BitVec 32 := 1 <<< 1
def errBadVersion : BitVec 32 := 1 <<< 2
def errBadCommand : BitVec 32 := 1 <<< 3
def errInvalidArgument : BitVec 32 := 1 <<< 4
def errCaptureRunning : BitVec 32 := 1 <<< 7
def errScheduleBusy : BitVec 32 := 1 <<< 8
def errNotArmed : BitVec 32 := 1 <<< 10

structure Msg where
  magic : BitVec 32
  version : BitVec 16
  type : BitVec 16
  seq : BitVec 32
  flags : BitVec 32
  arg0 : BitVec 32
  arg1 : BitVec 32
  arg2 : BitVec 32
  arg3 : BitVec 32
deriving DecidableEq, Repr

def sizeofMsg : BitVec 16 := 32

inductive Command
  | hello | time | forceSafe | ping
  | abzConfig | abzStart | abzStop | abzStatus | abzDirection | abzArm | abzSchedule
  | hallConfig | hallStart | hallStop | hallStatus | stimStatus
deriving DecidableEq, Repr

def Command.code : Command → BitVec 16
  | .hello => 1
  | .time => 2
  | .forceSafe => 4
  | .ping => 5
  | .abzConfig => 16
  | .abzStart => 17
  | .abzStop => 18
  | .abzStatus => 19
  | .abzDirection => 20
  | .abzArm => 21
  | .abzSchedule => 22
  | .hallConfig => 23
  | .hallStart => 24
  | .hallStop => 25
  | .hallStatus => 26
  | .stimStatus => 32

def Command.all : List Command :=
  [.hello, .time, .forceSafe, .ping, .abzConfig, .abzStart, .abzStop, .abzStatus, .abzDirection,
    .abzArm, .abzSchedule, .hallConfig, .hallStart, .hallStop, .hallStatus, .stimStatus]

/-- The case of the request switch that a type field selects. -/
def Command.ofCode (type : BitVec 16) : Option Command := Command.all.find? (fun c => c.code == type)

theorem ofCode_code (c : Command) : Command.ofCode c.code = some c := by cases c <;> rfl

end HilLab.Pru.Protocol
