import HilLab.Host.Core
import HilLab.Lib.LittleEndian

namespace HilLab.Host.PruProtocol

open Host.Core Lib.LittleEndian

abbrev Payload := List UInt8

def magic : Nat := 0x304C4948
def protocolVersion : Nat := 1

def capTimebase : Nat := 1 <<< 0
def capForceSafe : Nat := 1 <<< 3
def capPwmCapture : Nat := 1 <<< 5
def capPwmComplementaryMonitor : Nat := 1 <<< 6
def capAbzEmulator : Nat := 1 <<< 10
def capHallEmulator : Nat := 1 <<< 12
def capSsiEmulator : Nat := 1 <<< 13
def capBissEmulator : Nat := 1 <<< 14
def capSpiSensorEmulator : Nat := 1 <<< 15

def msgHello : Nat := 1
def msgTime : Nat := 2
def msgForceSafe : Nat := 4
def msgResponseBit : Nat := 0x8000

def errInvalidArgument : Nat := 1 <<< 4

/-- The args are Python integers; unpacked ones are never negative. -/
structure Message where
  type : Nat
  seq : Nat := 0
  flags : Nat := 0
  arg0 : Int := 0
  arg1 : Int := 0
  arg2 : Int := 0
  arg3 : Int := 0
  magic : Nat := PruProtocol.magic
  version : Nat := protocolVersion
deriving DecidableEq, Repr

def wire : List Nat := [4, 2, 2, 4, 4, 4, 4, 4, 4]

def wireSize : Nat := size wire

def Message.fields (m : Message) : List Int :=
  [m.magic, m.version, m.type, m.seq, m.flags, m.arg0, m.arg1, m.arg2, m.arg3]

/-- What struct says of a field out of range on the board's 32-bit Python. -/
def structError (w : Nat) (v : Int) : HostError :=
  if w = 2 ∧ 0 ≤ v ∧ v < 2 ^ 32 then .structError "'H' format requires 0 <= number <= 65535"
  else .structError "argument out of range"

def structPack : List Nat → List Int → Except HostError Payload
  | w :: ws, v :: vs => do
      let n ← if 0 ≤ v ∧ v < 256 ^ w then .ok v.toNat else .error (structError w v)
      let rest ← structPack ws vs
      return toBytes w n ++ rest
  | _, _ => .ok []

def Message.pack (m : Message) : Except HostError Payload := structPack wire m.fields

def Message.ofFields (v : List Nat) : Message :=
  { magic := v.getD 0 0
    version := v.getD 1 0
    type := v.getD 2 0
    seq := v.getD 3 0
    flags := v.getD 4 0
    arg0 := v.getD 5 0
    arg1 := v.getD 6 0
    arg2 := v.getD 7 0
    arg3 := v.getD 8 0 }

def Message.unpack (payload : Payload) : Except HostError Message :=
  if payload.length ≠ wireSize then
    .error (.valueError s!"expected {wireSize} bytes, got {payload.length}")
  else .ok (Message.ofFields (decode wire payload))

def Message.validateResponse (m : Message) (requestType requestSeq : Nat) : Except HostError Unit :=
  let expectedType := requestType ||| msgResponseBit
  if m.magic ≠ PruProtocol.magic then
    .error (.runtimeError s!"bad response magic 0x{hexPad 8 m.magic}")
  else if m.version ≠ protocolVersion then
    .error (.runtimeError s!"protocol version mismatch: {m.version}")
  else if m.type ≠ expectedType then
    .error (.runtimeError s!"response type 0x{hexPad 0 m.type}, expected 0x{hexPad 0 expectedType}")
  else if m.seq ≠ requestSeq then
    .error (.runtimeError s!"response seq {m.seq}, expected {requestSeq}")
  else .ok ()

section Pack

theorem structPack_ok {ws : List Nat} {vs : List Int}
    (h : List.Forall₂ (fun w v => 0 ≤ v ∧ v < 256 ^ w) ws vs) :
    structPack ws vs = .ok (encode ws (vs.map Int.toNat)) := by
  induction h with
  | nil => rfl
  | cons hv _ ih =>
      rw [structPack, if_pos hv, ih]
      rfl

theorem structPack_error {ws : List Nat} {vs : List Int} (hlen : ws.length = vs.length)
    (h : ¬ List.Forall₂ (fun w v => 0 ≤ v ∧ v < 256 ^ w) ws vs) :
    ∃ e, structPack ws vs = .error e := by
  induction ws generalizing vs with
  | nil =>
      cases vs with
      | nil => exact absurd List.Forall₂.nil h
      | cons v vs => cases hlen
  | cons w ws ih =>
      cases vs with
      | nil => cases hlen
      | cons v vs =>
          by_cases hv : 0 ≤ v ∧ v < 256 ^ w
          · obtain ⟨e, he⟩ := ih (Nat.succ.inj hlen) (fun hrest => h (.cons hv hrest))
            refine ⟨e, ?_⟩
            rw [structPack, if_pos hv, he]
            rfl
          · refine ⟨structError w v, ?_⟩
            rw [structPack, if_neg hv]
            rfl

def Message.Packs (m : Message) : Prop :=
  List.Forall₂ (fun w v => (0 : Int) ≤ v ∧ v < 256 ^ w) wire m.fields

def Message.packet (m : Message) : Payload := encode wire (m.fields.map Int.toNat)

theorem Message.Packs.fits {m : Message} (h : m.Packs) : Fits wire (m.fields.map Int.toNat) := by
  rw [Fits, List.forall₂_map_right_iff]
  refine h.imp (fun w v hv => ?_)
  have hpow : ((256 ^ w : Nat) : Int) = 256 ^ w := Int.natCast_pow 256 w
  rw [Int.toNat_lt hv.1, hpow]
  exact hv.2

theorem Message.pack_ok {m : Message} (h : m.Packs) : m.pack = .ok m.packet := structPack_ok h

theorem Message.length_packet {m : Message} (h : m.Packs) : m.packet.length = wireSize :=
  length_encode h.fits

theorem Message.pack_error {m : Message} (h : ¬ m.Packs) : ∃ e, m.pack = .error e :=
  structPack_error rfl h

theorem Message.ofFields_fields {m : Message} (h : m.Packs) :
    Message.ofFields (m.fields.map Int.toNat) = m := by
  simp only [Packs, wire, fields, List.forall₂_cons] at h
  obtain ⟨-, -, -, -, -, h0, h1, h2, h3, -⟩ := h
  simp only [ofFields, fields, List.map_cons, List.map_nil, List.getD_cons_zero,
    List.getD_cons_succ, Int.toNat_natCast, Int.toNat_of_nonneg h0.1, Int.toNat_of_nonneg h1.1,
    Int.toNat_of_nonneg h2.1, Int.toNat_of_nonneg h3.1]

theorem Message.unpack_packet {m : Message} (h : m.Packs) : Message.unpack m.packet = .ok m := by
  rw [unpack, if_neg (not_not_intro (length_packet h)), packet, decode_encode h.fits,
    ofFields_fields h]

theorem Message.unpack_short {payload : Payload} (h : payload.length ≠ wireSize) :
    ∃ e, Message.unpack payload = .error e := ⟨_, if_pos h⟩

end Pack

end HilLab.Host.PruProtocol
