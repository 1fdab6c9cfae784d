import HilLab.Host.Core
import HilLab.Lib.LittleEndian

namespace HilLab.Fieldbus.SocketCan

open Lib.LittleEndian

/-- The exceptions that the CANopen code raises, by Python class. -/
inductive CanError
  | valueError (message : String)
  | keyError (key : String)
  | overflowError (message : String)
  | runtimeError (message : String)
  | timeoutError (message : String)
  | sdoAbort (code index subindex : Nat) (message : String)
deriving DecidableEq, Repr

/-- A CanFrame that its constructor has let through. -/
structure CanFrame where
  canId : Nat
  data : List UInt8
  canId_le : canId ≤ 0x7FF
  length_le : data.length ≤ 8
deriving DecidableEq

def CanFrame.new (canId : Nat) (data : List UInt8) : Except CanError CanFrame :=
  if hid : canId ≤ 0x7FF then
    if hlen : data.length ≤ 8 then .ok ⟨canId, data, hid, hlen⟩
    else .error (.valueError "classical CAN payload must be <= 8 bytes")
  else .error (.valueError "Controller v1 supports classical 11-bit CAN IDs only")

/-- The order of the bytes in a word of the machine, which struct code = selects. -/
inductive ByteOrder
  | little | big
deriving DecidableEq, Repr

def ByteOrder.arrange : ByteOrder → List UInt8 → List UInt8
  | .little, bytes => bytes
  | .big, bytes => bytes.reverse

def ljust (data : List UInt8) (width : Nat) : List UInt8 :=
  data ++ List.replicate (width - data.length) 0

def canFrameSize : Nat := 16

section Codec

variable (order : ByteOrder)

def packCanFrame (frame : CanFrame) : List UInt8 :=
  order.arrange (toBytes 4 frame.canId) ++ UInt8.ofNat frame.data.length ::
    (List.replicate 3 0 ++ ljust frame.data 8)

/-- The id word of a kernel frame, with the flag bits in its top three. -/
def idWord (payload : List UInt8) : Nat := ofBytes (order.arrange (payload.take 4))

def lengthByte (payload : List UInt8) : Nat := ((payload.drop 4).headD 0).toNat

def dataField (payload : List UInt8) : List UInt8 := payload.drop 8

def unpackCanFrame (payload : List UInt8) : Except CanError CanFrame :=
  if payload.length ≠ canFrameSize then
    .error (.valueError s!"expected {canFrameSize} CAN frame bytes")
  else
    let canId := idWord order payload
    let dlc := lengthByte payload
    let data := dataField payload
    if 8 < dlc then .error (.valueError s!"invalid classical CAN DLC {dlc}")
    else CanFrame.new (canId &&& 0x7FF) (data.take dlc)

variable {order}

theorem new_canFrame (f : CanFrame) : CanFrame.new f.canId f.data = .ok f := by
  rw [CanFrame.new, dif_pos f.canId_le, dif_pos f.length_le]

theorem arrange_arrange (bytes : List UInt8) : order.arrange (order.arrange bytes) = bytes := by
  cases order with
  | little => rfl
  | big => exact List.reverse_reverse bytes

theorem length_arrange (bytes : List UInt8) : (order.arrange bytes).length = bytes.length := by
  cases order with
  | little => rfl
  | big => exact List.length_reverse

section Packed

variable (f : CanFrame)

theorem length_idBytes : (order.arrange (toBytes 4 f.canId)).length = 4 := by
  rw [length_arrange, length_toBytes]

theorem idWord_pack : idWord order (packCanFrame order f) = f.canId := by
  have hid : f.canId < 256 ^ 4 := Nat.lt_of_le_of_lt f.canId_le (by decide)
  rw [idWord, packCanFrame, List.take_left' (length_idBytes f), arrange_arrange,
    ofBytes_toBytes hid]

theorem lengthByte_pack : lengthByte (packCanFrame order f) = f.data.length := by
  have hlen := f.length_le
  rw [lengthByte, packCanFrame, List.drop_left' (length_idBytes f), List.headD_cons,
    UInt8.toNat_ofNat', Nat.mod_eq_of_lt (by omega)]

theorem dataField_pack : dataField (packCanFrame order f) = ljust f.data 8 := by
  have hsplit : packCanFrame order f =
      (order.arrange (toBytes 4 f.canId) ++ UInt8.ofNat f.data.length :: List.replicate 3 0) ++
        ljust f.data 8 := by
    rw [packCanFrame, List.append_assoc, List.cons_append]
  have hprefix : (order.arrange (toBytes 4 f.canId) ++
      UInt8.ofNat f.data.length :: List.replicate 3 0).length = 8 := by
    rw [List.length_append, length_idBytes, List.length_cons, List.length_replicate]
  rw [dataField, hsplit, List.drop_left' hprefix]

theorem length_pack : (packCanFrame order f).length = canFrameSize := by
  have hlen := f.length_le
  rw [packCanFrame, List.length_append, length_idBytes, List.length_cons, List.length_append,
    List.length_replicate, ljust, List.length_append, List.length_replicate, canFrameSize]
  omega

theorem unpack_pack : unpackCanFrame order (packCanFrame order f) = .ok f := by
  have hlen := f.length_le
  have hid : f.canId &&& 0x7FF = f.canId := by
    have hmask : 0x7FF = 2 ^ 11 - 1 := rfl
    rw [hmask, Nat.and_two_pow_sub_one_eq_mod, Nat.mod_eq_of_lt]
    exact Nat.lt_succ_of_le f.canId_le
  have hdata : (ljust f.data 8).take f.data.length = f.data := List.take_left' rfl
  rw [unpackCanFrame, if_neg (not_not_intro (length_pack f))]
  dsimp only
  rw [lengthByte_pack, if_neg (by omega), idWord_pack, dataField_pack, hid, hdata, new_canFrame]

end Packed

section Accepted

variable {payload : List UInt8}

variable (order) in
theorem unpack_accepts (h : payload.length = canFrameSize) (hdlc : ¬ 8 < lengthByte payload) :
    ∃ f, unpackCanFrame order payload = .ok f ∧ f.canId = idWord order payload % 2 ^ 11 ∧
      f.data.length = lengthByte payload := by
  have hmask : idWord order payload &&& 0x7FF = idWord order payload % 2 ^ 11 :=
    Nat.and_two_pow_sub_one_eq_mod _ 11
  have hid : idWord order payload % 2 ^ 11 ≤ 0x7FF := by omega
  have hlength : ((dataField payload).take (lengthByte payload)).length = lengthByte payload := by
    rw [List.length_take, dataField, List.length_drop, h, canFrameSize]
    omega
  refine ⟨⟨idWord order payload % 2 ^ 11, (dataField payload).take (lengthByte payload), hid, ?_⟩,
    ?_, rfl, hlength⟩
  · rw [hlength]
    omega
  · rw [unpackCanFrame, if_neg (not_not_intro h)]
    dsimp only
    rw [if_neg hdlc, hmask, CanFrame.new, dif_pos hid, dif_pos (by rw [hlength]; omega)]

variable (order payload) in
/-- The kernel frame is taken for a frame only if its id word is the frame's own, with no
flag and no bit above bit 10, and its length byte counts the data. -/
def TakenExactly : Prop :=
  match unpackCanFrame order payload with
  | .ok f => idWord order payload = f.canId ∧
      (∀ b, 11 ≤ b → (idWord order payload).testBit b = false) ∧
      lengthByte payload = f.data.length
  | .error e => ∃ message, e = .valueError message

theorem takenExactly_iff (h : payload.length = canFrameSize) :
    TakenExactly order payload ↔
      8 < lengthByte payload ∨ idWord order payload < 2 ^ 11 := by
  by_cases hdlc : 8 < lengthByte payload
  · have herror : unpackCanFrame order payload =
        .error (.valueError s!"invalid classical CAN DLC {lengthByte payload}") := by
      rw [unpackCanFrame, if_neg (not_not_intro h)]
      exact if_pos hdlc
    rw [TakenExactly, herror]
    exact ⟨fun _ => .inl hdlc, fun _ => ⟨_, rfl⟩⟩
  · obtain ⟨f, hf, hid, hlength⟩ := unpack_accepts order h hdlc
    rw [TakenExactly, hf]
    dsimp only
    rw [hid, hlength]
    constructor
    · rintro ⟨hword, -, -⟩
      rw [hword]
      exact .inr (Nat.mod_lt _ (by decide))
    · rintro (hlong | hlow)
      · exact absurd hlong hdlc
      · refine ⟨(Nat.mod_eq_of_lt hlow).symm, fun b hb => ?_, rfl⟩
        exact Nat.testBit_lt_two_pow (Nat.lt_of_lt_of_le hlow (Nat.pow_le_pow_right (by decide) hb))

end Accepted

/-- Packed frames are read back; a kernel frame is read for what it is unless it is short
enough and its id word goes beyond eleven bits. -/
theorem codec_exact_iff (order : ByteOrder) (f : CanFrame) (payload : List UInt8)
    (h : payload.length = canFrameSize) :
    unpackCanFrame order (packCanFrame order f) = .ok f ∧
      (TakenExactly order payload ↔
        8 < lengthByte payload ∨ idWord order payload < 2 ^ 11) :=
  ⟨unpack_pack f, takenExactly_iff h⟩

def extendedFrame : List UInt8 := [0x85, 0x05, 0, 0x80, 2, 0, 0, 0, 0x60, 0x40, 0, 0, 0, 0, 0, 0]

theorem codec_exact_iff_extended :
    unpackCanFrame .little (packCanFrame .little ⟨0x585, [0x60, 0x40], by decide, by decide⟩) =
        .ok ⟨0x585, [0x60, 0x40], by decide, by decide⟩ ∧
      (TakenExactly .little extendedFrame ↔
        8 < lengthByte extendedFrame ∨ idWord .little extendedFrame < 2 ^ 11) :=
  codec_exact_iff .little ⟨0x585, [0x60, 0x40], by decide, by decide⟩ extendedFrame (by decide)

/-- An extended frame of identifier 0x585 is taken for the answer of node 5 to an SDO request. -/
theorem extended_frame_aliases :
    (∃ f, unpackCanFrame .little extendedFrame = .ok f ∧ f.canId = 0x580 + 5) ∧
      ¬ ∀ order payload, payload.length = canFrameSize → TakenExactly order payload := by
  constructor
  · have haccepts : ∃ f, unpackCanFrame .little extendedFrame = .ok f ∧
        f.canId = idWord .little extendedFrame % 2 ^ 11 ∧
        f.data.length = lengthByte extendedFrame := unpack_accepts _ (by decide) (by decide)
    obtain ⟨f, hf, hid, -⟩ := haccepts
    exact ⟨f, hf, hid.trans (by decide)⟩
  · intro h
    have hexact := (takenExactly_iff (by decide)).mp (h .little extendedFrame (by decide))
    exact absurd hexact (by decide)

end Codec

end HilLab.Fieldbus.SocketCan
