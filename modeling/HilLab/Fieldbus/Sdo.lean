import HilLab.Fieldbus.Pdo
import HilLab.Lib.Effect

namespace HilLab.Fieldbus.Sdo

open Lib.LittleEndian Lib.Effect SocketCan Pdo
open Host.Core (hexPad)

/-- A CanBus, as code over its state σ. -/
structure CanBus (σ : Type) where
  send : CanFrame → Eff σ CanError PUnit
  recv : Eff σ CanError CanFrame

def abortCodes : List (Nat × String) :=
  [(0x05040000, "SDO protocol timed out"), (0x06010000, "unsupported object access"),
    (0x06010002, "attempt to write read-only object"), (0x06020000, "object does not exist"),
    (0x06090011, "subindex does not exist"), (0x06090030, "value range exceeded"),
    (0x08000000, "general error")]

def sdoAbort (code index subindex : Nat) : CanError :=
  let text := (abortCodes.lookup code).getD "unknown SDO abort"
  .sdoAbort code index subindex
    s!"SDO abort 0x{hexPad 8 code} at 0x{hexPad 4 index}:{hexPad 2 subindex}: {text}"

structure SdoUpload where
  index : Int
  subindex : Int
  data : List UInt8
deriving DecidableEq, Repr

/-- A CanopenSdoClient that its constructor has let through; its bus is an argument of its
methods. -/
structure CanopenSdoClient where
  nodeId : Nat
  maxFrames : Nat
  nodeId_mem : 1 ≤ nodeId ∧ nodeId ≤ 127
  maxFrames_pos : 0 < maxFrames

def CanopenSdoClient.new (nodeId maxFrames : Int) : Except CanError CanopenSdoClient :=
  if hnode : ¬ (1 ≤ nodeId ∧ nodeId ≤ 127) then .error (.valueError "SDO node_id must be 1..127")
  else if hframes : maxFrames ≤ 0 then .error (.valueError "max_frames must be > 0")
  else
    .ok
      { nodeId := nodeId.toNat, maxFrames := maxFrames.toNat
        nodeId_mem := by omega
        maxFrames_pos := by omega }

def pyBytes (xs : List Int) : Except CanError (List UInt8) :=
  if ∀ x ∈ xs, 0 ≤ x ∧ x < 256 then .ok (xs.map (fun x => UInt8.ofNat x.toNat))
  else .error (.valueError "bytes must be in range(0, 256)")

def byte (frame : CanFrame) (i : Nat) : Nat := (frame.data.getD i 0).toNat

namespace CanopenSdoClient

variable {σ : Type} (c : CanopenSdoClient) (bus : CanBus σ)

def requestCobId : Nat := 0x600 + c.nodeId

def responseCobId : Nat := 0x580 + c.nodeId

/-- One pass of the loop over the received frames: it goes on, or ends with a result. -/
def examine (index subindex : Int) (frame : CanFrame) : Option (Except CanError CanFrame) :=
  if frame.canId ≠ c.responseCobId then none
  else if frame.data.length ≠ 8 then some (.error (.runtimeError "SDO response must be 8 bytes"))
  else
    let responseIndex := byte frame 1 ||| byte frame 2 <<< 8
    if (responseIndex : Int) ≠ index ∨ (byte frame 3 : Int) ≠ subindex then none
    else if byte frame 0 = 0x80 then
      some (.error (sdoAbort (ofBytes ((frame.data.drop 4).take 4)) index.toNat subindex.toNat))
    else some (.ok frame)

/-- _response, with the number of frames that it may still receive. -/
def response (index subindex : Int) : Nat → Eff σ CanError CanFrame
  | 0 => throw (.timeoutError
      (s!"no SDO response for 0x{hexPad 4 index.toNat}:{hexPad 2 subindex.toNat} " ++
        s!"within {c.maxFrames} received frames"))
  | n + 1 => do
      let frame ← bus.recv
      match c.examine index subindex frame with
      | none => response index subindex n
      | some result => liftExcept result

variable {bus} {index subindex : Int} {n : Nat} {s t : σ}

variable {c} in
theorem response_on {frame : CanFrame} (hrecv : exec bus.recv s = (.ok frame, t))
    (h : c.examine index subindex frame = none) :
    exec (c.response bus index subindex (n + 1)) s = exec (c.response bus index subindex n) t := by
  rw [response, exec_bind_ok hrecv, h]

variable {c} in
theorem response_end {frame : CanFrame} {result : Except CanError CanFrame}
    (hrecv : exec bus.recv s = (.ok frame, t)) (h : c.examine index subindex frame = some result) :
    exec (c.response bus index subindex (n + 1)) s = (result, t) := by
  rw [response, exec_bind_ok hrecv, h]
  exact exec_liftExcept result t

variable {c} in
theorem response_raise {error : CanError} (hrecv : exec bus.recv s = (.error error, t)) :
    exec (c.response bus index subindex (n + 1)) s = (.error error, t) := by
  rw [response, exec_bind_error hrecv]

variable (bus)

def requestFrame (command : Nat) (index subindex : Int) (data : List UInt8) :
    Except CanError CanFrame := do
  let head ← pyBytes [command, index % 256, index / 256, subindex]
  CanFrame.new c.requestCobId (head ++ data)

def commands : Nat → Option Nat
  | 1 => some 0x2F
  | 2 => some 0x2B
  | 3 => some 0x27
  | 4 => some 0x23
  | _ => none

def acknowledged (response : CanFrame) : Except CanError PUnit :=
  if byte response 0 ≠ 0x60 then
    .error (.runtimeError s!"unexpected SDO download response 0x{hexPad 2 (byte response 0)}")
  else .ok ⟨⟩

def download (index subindex : Int) (data : List UInt8) : Eff σ CanError PUnit :=
  match commands data.length with
  | none => throw (.valueError "expedited SDO download supports 1..4 bytes")
  | some command => do
      let frame ← liftExcept (c.requestFrame command index subindex (ljust data 4))
      bus.send frame
      let response ← c.response bus index subindex c.maxFrames
      liftExcept (acknowledged response)

def uploaded (index subindex : Int) (response : CanFrame) : Except CanError SdoUpload :=
  let command := byte response 0
  if command &&& 0xE0 ≠ 0x40 ∨ command &&& 0x02 = 0 then
    .error (.runtimeError "segmented/non-expedited SDO upload is not supported in v1")
  else
    let size := if command &&& 0x01 ≠ 0 then 4 - (command >>> 2 &&& 0x03) else 4
    .ok ⟨index, subindex, (response.data.drop 4).take size⟩

def upload (index subindex : Int) : Eff σ CanError SdoUpload := do
  let frame ← liftExcept (c.requestFrame 0x40 index subindex [0, 0, 0, 0])
  bus.send frame
  let response ← c.response bus index subindex c.maxFrames
  liftExcept (uploaded index subindex response)

def downloadInt (width : Nat) (signed : Bool) (index subindex value : Int) :
    Eff σ CanError PUnit := do
  let data ← liftExcept (intToBytes width signed value)
  c.download bus index subindex data

def downloadU8 (index subindex value : Int) : Eff σ CanError PUnit :=
  c.downloadInt bus 1 false index subindex value

def downloadU32 (index subindex value : Int) : Eff σ CanError PUnit :=
  c.downloadInt bus 4 false index subindex value

end CanopenSdoClient

end HilLab.Fieldbus.Sdo
