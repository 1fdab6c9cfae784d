import HilLab.Host.Core
import Mathlib.Data.Int.Bitwise

namespace HilLab.Host.HilSensor

open Host.Core

def masked (value : Int) (mask : Nat) : Nat := (Int.land value mask).toNat

def positionMask (positionBits : Nat) : Nat :=
  if positionBits < 32 then 1 <<< positionBits - 1 else 0xFFFFFFFF

def crcShift (crc bit : Nat) : Nat :=
  let feedback := (crc >>> 5 &&& 1) ^^^ bit
  let crc := crc <<< 1 &&& 0x3F
  if feedback ≠ 0 then crc ^^^ 0x03 else crc

def crcBits (value : Nat) : Nat → Nat → Nat
  | 0, crc => crc
  | n + 1, crc => crcBits value n (crcShift crc (value >>> n &&& 1))

def crc6Biss (position positionBits : Int) (errorOk warningOk : Int := 1) : Except HostError Nat :=
  if ¬ (1 ≤ positionBits ∧ positionBits ≤ 32) then
    .error (.valueError "position_bits must be 1..32")
  else
    let bits := positionBits.toNat
    let position := masked position (positionMask bits)
    let crc := crcBits position bits 0
    let status := masked errorOk 1 <<< 1 ||| masked warningOk 1
    let crc := crcBits status 2 crc
    .ok (masked (Int.lnot crc) 0x3F)

def buildBissFrame (position positionBits : Int) (errorOk warningOk : Int := 1) :
    Except HostError (Nat × Nat) :=
  if ¬ (1 ≤ positionBits ∧ positionBits ≤ 32) then
    .error (.valueError "position_bits must be 1..32")
  else do
    let bits := positionBits.toNat
    let position := masked position (positionMask bits)
    let crc ← crc6Biss position positionBits errorOk warningOk
    let frame := 0
    let frame := frame <<< 1 ||| 0
    let frame := frame <<< 1 ||| 1
    let frame := frame <<< 1 ||| 0
    let frame := frame <<< bits ||| position
    let frame := frame <<< 1 ||| masked errorOk 1
    let frame := frame <<< 1 ||| masked warningOk 1
    let frame := frame <<< 6 ||| crc
    return (frame, bits + 11)

end HilLab.Host.HilSensor
