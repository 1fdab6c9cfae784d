import HilLab.Fieldbus.SocketCan
import Mathlib.Algebra.BigOperators.Group.List.Basic
import Mathlib.Logic.Function.Basic

namespace HilLab.Fieldbus.Pdo

open Lib.LittleEndian SocketCan
open Host.Core (hexPad)

section Mapping

/-- A PdoMappingEntry that its constructor has let through. -/
structure PdoMappingEntry where
  name : String
  index : Nat
  subindex : Nat
  bits : Nat
  signed : Bool
  name_ne : name ≠ ""
  index_le : index ≤ 0xFFFF
  subindex_le : subindex ≤ 0xFF
  bits_mem : bits ∈ [8, 16, 32]

def PdoMappingEntry.new (name : String) (index subindex bits : Int) (signed : Bool) :
    Except CanError PdoMappingEntry :=
  if hname : name = "" then .error (.valueError "PDO entry name must be non-empty")
  else if hindex : ¬ (0 ≤ index ∧ index ≤ 0xFFFF) then
    .error (.valueError "PDO index must fit uint16")
  else if hsub : ¬ (0 ≤ subindex ∧ subindex ≤ 0xFF) then
    .error (.valueError "PDO subindex must fit uint8")
  else if hbits : bits ∉ [(8 : Int), 16, 32] then
    .error (.valueError "PDO v1 supports byte-aligned 8/16/32-bit entries")
  else
    .ok
      { name, index := index.toNat, subindex := subindex.toNat, bits := bits.toNat, signed
        name_ne := hname
        index_le := by omega
        subindex_le := by omega
        bits_mem := by
          simp only [List.mem_cons, List.not_mem_nil, or_false, not_not] at hbits ⊢
          omega }

def PdoMappingEntry.mappingValue (e : PdoMappingEntry) : Nat :=
  e.index <<< 16 ||| e.subindex <<< 8 ||| e.bits

/-- A PdoMapping that its constructor has let through. -/
structure PdoMapping where
  cobId : Nat
  entries : List PdoMappingEntry
  cobId_le : cobId ≤ 0x7FF
  count : 1 ≤ entries.length ∧ entries.length ≤ 8
  bits_le : (entries.map PdoMappingEntry.bits).sum ≤ 64

def PdoMapping.new (cobId : Int) (entries : List PdoMappingEntry) : Except CanError PdoMapping :=
  if hid : ¬ (0 ≤ cobId ∧ cobId ≤ 0x7FF) then
    .error (.valueError "PDO v1 supports standard 11-bit COB-IDs")
  else if hcount : ¬ (1 ≤ entries.length ∧ entries.length ≤ 8) then
    .error (.valueError "PDO must contain 1..8 mapped entries")
  else if hbits : 64 < (entries.map PdoMappingEntry.bits).sum then
    .error (.valueError "classic CAN PDO payload cannot exceed 64 bits")
  else
    .ok
      { cobId := cobId.toNat, entries
        cobId_le := by omega
        count := not_not.mp hcount
        bits_le := Nat.le_of_not_lt hbits }

def PdoMapping.payloadBytes (m : PdoMapping) : Nat := (m.entries.map PdoMappingEntry.bits).sum / 8

end Mapping

section Codec

abbrev Values := String → Option Int

def intToBytes (width : Nat) (signed : Bool) (value : Int) : Except CanError (List UInt8) :=
  if Representable signed width value then .ok (ofInt width value)
  else if !signed && decide (value < 0) then
    .error (.overflowError "can't convert negative int to unsigned")
  else .error (.overflowError "int too big to convert")

def PdoMappingEntry.width (e : PdoMappingEntry) : Nat := e.bits / 8

def encodeEntries (values : Values) : List PdoMappingEntry → Except CanError (List UInt8)
  | [] => .ok []
  | e :: es =>
      match values e.name with
      | none => .error (.keyError e.name)
      | some value => do
          let bytes ← intToBytes e.width e.signed value
          let payload ← encodeEntries values es
          .ok (bytes ++ payload)

def PdoMapping.encode (m : PdoMapping) (values : Values) : Except CanError CanFrame := do
  let payload ← encodeEntries values m.entries
  CanFrame.new m.cobId payload

def decodeEntries : List PdoMappingEntry → List UInt8 → Values → Values
  | [], _, result => result
  | e :: es, data, result =>
      decodeEntries es (data.drop e.width)
        (Function.update result e.name (some (toInt e.signed (data.take e.width))))

def PdoMapping.decode (m : PdoMapping) (frame : CanFrame) : Except CanError Values :=
  if frame.canId ≠ m.cobId then
    .error (.valueError s!"PDO COB-ID 0x{hexPad 3 frame.canId}, expected 0x{hexPad 3 m.cobId}")
  else if frame.data.length ≠ m.payloadBytes then
    .error (.valueError
      s!"PDO payload {frame.data.length} bytes, expected {m.payloadBytes}")
  else .ok (decodeEntries m.entries frame.data (fun _ => none))

end Codec

section Encoding

variable {values : Values} {es : List PdoMappingEntry}

/-- The value of every mapped name is there and fits its entry. -/
def AllFit (values : Values) (es : List PdoMappingEntry) : Prop :=
  ∀ e ∈ es, ∃ value, values e.name = some value ∧ Representable e.signed e.width value

def names (es : List PdoMappingEntry) : List String := es.map PdoMappingEntry.name

def widths (es : List PdoMappingEntry) : Nat := (es.map PdoMappingEntry.width).sum

theorem width_pos (e : PdoMappingEntry) : 0 < e.width := by
  have hbits := e.bits_mem
  simp only [List.mem_cons, List.not_mem_nil, or_false] at hbits
  rw [PdoMappingEntry.width]
  omega

theorem bits_sum (es : List PdoMappingEntry) :
    (es.map PdoMappingEntry.bits).sum = 8 * widths es := by
  induction es with
  | nil => rfl
  | cons e es ih =>
      have hbits := e.bits_mem
      have hcons : widths (e :: es) = e.width + widths es := rfl
      simp only [List.mem_cons, List.not_mem_nil, or_false] at hbits
      rw [List.map_cons, List.sum_cons, ih, hcons, PdoMappingEntry.width]
      omega

theorem payloadBytes_eq (m : PdoMapping) : m.payloadBytes = widths m.entries := by
  rw [PdoMapping.payloadBytes, bits_sum]
  omega

theorem widths_le (m : PdoMapping) : widths m.entries ≤ 8 := by
  have hbits := m.bits_le
  rw [bits_sum] at hbits
  omega

theorem encodeEntries_fits (h : AllFit values es) :
    ∃ bytes, encodeEntries values es = .ok bytes ∧ bytes.length = widths es ∧
      ∀ result, decodeEntries es bytes result =
        fun name => if name ∈ names es then values name else result name := by
  induction es with
  | nil => exact ⟨[], rfl, rfl, fun _ => rfl⟩
  | cons e es ih =>
      obtain ⟨value, hvalue, hfits⟩ := h e List.mem_cons_self
      obtain ⟨bytes, hbytes, hlength, hdecode⟩ := ih (fun e' he' => h e' (List.mem_cons_of_mem e he'))
      have hwidth : (ofInt e.width value).length = e.width := length_ofInt _ _
      refine ⟨ofInt e.width value ++ bytes, ?_, ?_, fun result => ?_⟩
      · rw [encodeEntries, hvalue]
        dsimp only
        rw [intToBytes, if_pos hfits, hbytes]
        rfl
      · rw [List.length_append, hwidth, hlength]
        rfl
      · rw [decodeEntries, List.take_left' hwidth, List.drop_left' hwidth, hdecode,
          toInt_ofInt hfits]
        funext name
        by_cases hname : name = e.name
        · have hmem : e.name ∈ names (e :: es) := List.mem_cons_self
          rw [hname, Function.update_self, hvalue, if_pos hmem, ite_self]
        · have hmem : name ∈ names (e :: es) ↔ name ∈ names es := by
            simp [names, hname]
          rw [Function.update_of_ne hname]
          simp only [hmem]

theorem encodeEntries_misfits (h : ¬ AllFit values es) :
    ∃ error, encodeEntries values es = .error error := by
  induction es with
  | nil => exact absurd (fun _ he => absurd he List.not_mem_nil) h
  | cons e es ih =>
      rw [encodeEntries]
      cases hvalue : values e.name with
      | none => exact ⟨_, rfl⟩
      | some value =>
          dsimp only
          by_cases hfits : Representable e.signed e.width value
          · have hrest : ¬ AllFit values es := by
              intro hall
              apply h
              intro e' he'
              rcases List.mem_cons.mp he' with rfl | he'
              · exact ⟨value, hvalue, hfits⟩
              · exact hall e' he'
            obtain ⟨error, herror⟩ := ih hrest
            rw [intToBytes, if_pos hfits, herror]
            exact ⟨error, rfl⟩
          · rw [intToBytes, if_neg hfits]
            split
            · exact ⟨_, rfl⟩
            · exact ⟨_, rfl⟩

end Encoding

section Decoding

variable {es : List PdoMappingEntry} {data : List UInt8}

theorem decodeEntries_other {name : String} (h : name ∉ names es) (result : Values) :
    decodeEntries es data result name = result name := by
  induction es generalizing data result with
  | nil => rfl
  | cons e es ih =>
      rw [names, List.map_cons, List.mem_cons, not_or] at h
      rw [decodeEntries, ih h.2, Function.update_of_ne h.1]

theorem decodeEntries_congr {result result' : Values}
    (h : ∀ name, name ∉ names es → result name = result' name) :
    decodeEntries es data result = decodeEntries es data result' := by
  induction es generalizing data result result' with
  | nil => exact funext (fun name => h name List.not_mem_nil)
  | cons e es ih =>
      rw [decodeEntries, decodeEntries]
      apply ih
      intro name hname
      by_cases heq : name = e.name
      · rw [heq, Function.update_self, Function.update_self]
      · rw [Function.update_of_ne heq, Function.update_of_ne heq]
        apply h
        rw [names, List.map_cons, List.mem_cons, not_or]
        exact ⟨heq, hname⟩

theorem encode_decodeEntries (hnames : (names es).Nodup) (hlength : data.length = widths es)
    (result : Values) : encodeEntries (decodeEntries es data result) es = .ok data := by
  induction es generalizing data result with
  | nil => rw [List.eq_nil_of_length_eq_zero hlength, encodeEntries]
  | cons e es ih =>
      obtain ⟨hfresh, hnodup⟩ := List.nodup_cons.mp hnames
      have hsum : data.length = e.width + widths es := hlength
      have htake : (data.take e.width).length = e.width := by
        rw [List.length_take, hsum]
        omega
      have hdrop : (data.drop e.width).length = widths es := by
        rw [List.length_drop, hsum]
        omega
      have hvalue : decodeEntries (e :: es) data result e.name =
          some (toInt e.signed (data.take e.width)) := by
        rw [decodeEntries, decodeEntries_other hfresh, Function.update_self]
      have hfits : Representable e.signed e.width (toInt e.signed (data.take e.width)) := by
        have hrep := representable_toInt e.signed (data.take e.width)
        rwa [htake] at hrep
      have hbytes : ofInt e.width (toInt e.signed (data.take e.width)) = data.take e.width := by
        have hround := ofInt_toInt e.signed (data.take e.width)
        rwa [htake] at hround
      rw [encodeEntries, hvalue]
      dsimp only
      rw [intToBytes, if_pos hfits, hbytes, decodeEntries, ih hnodup hdrop]
      exact congrArg Except.ok (List.take_append_drop e.width data)

theorem decodeEntries_collision (h : ¬ (names es).Nodup) :
    ∃ data data' : List UInt8, data.length = widths es ∧ data'.length = widths es ∧ data ≠ data' ∧
      ∀ result, decodeEntries es data result = decodeEntries es data' result := by
  induction es with
  | nil => exact absurd List.nodup_nil h
  | cons e es ih =>
      have hzero : (List.replicate e.width (0 : UInt8)).length = e.width := List.length_replicate
      have hone : (List.replicate e.width (1 : UInt8)).length = e.width := List.length_replicate
      have hcons : widths (e :: es) = e.width + widths es := rfl
      by_cases hname : e.name ∈ names es
      · refine ⟨List.replicate e.width 0 ++ List.replicate (widths es) 0,
          List.replicate e.width 1 ++ List.replicate (widths es) 0, ?_, ?_, ?_, fun result => ?_⟩
        · rw [List.length_append, hzero, List.length_replicate, hcons]
        · rw [List.length_append, hone, List.length_replicate, hcons]
        · intro heq
          have hfirst := congrArg List.head? heq
          obtain ⟨w, hw⟩ := Nat.exists_eq_succ_of_ne_zero (width_pos e).ne'
          rw [hw, List.replicate_succ, List.replicate_succ] at hfirst
          cases Option.some.inj hfirst
        · rw [decodeEntries, decodeEntries, List.drop_left' hzero, List.drop_left' hone]
          apply decodeEntries_congr
          intro name hother
          have hne : name ≠ e.name := fun heq => hother (heq ▸ hname)
          rw [Function.update_of_ne hne, Function.update_of_ne hne]
      · have hrest : ¬ (names es).Nodup := fun hnodup => h (List.nodup_cons.mpr ⟨hname, hnodup⟩)
        obtain ⟨data, data', hlength, hlength', hne, hsame⟩ := ih hrest
        refine ⟨List.replicate e.width 0 ++ data, List.replicate e.width 0 ++ data', ?_, ?_, ?_,
          fun result => ?_⟩
        · rw [List.length_append, hzero, hlength, hcons]
        · rw [List.length_append, hzero, hlength', hcons]
        · exact fun heq => hne (List.append_cancel_left heq)
        · rw [decodeEntries, decodeEntries, List.drop_left' hzero, List.drop_left' hzero,
            List.take_left' hzero, List.take_left' hzero, hsame]

end Decoding

section RoundTrip

/-- Values that fit come back under the mapped names; with any other values encode raises. -/
def DecodesEncoded (m : PdoMapping) : Prop :=
  ∀ values : Values,
    (AllFit values m.entries →
      ∃ frame, m.encode values = .ok frame ∧
        m.decode frame = .ok (fun name => if name ∈ names m.entries then values name else none)) ∧
    (¬ AllFit values m.entries → ∃ error, m.encode values = .error error)

def EncodesDecoded (m : PdoMapping) : Prop :=
  ∀ frame values, m.decode frame = .ok values → m.encode values = .ok frame

variable (m : PdoMapping)

theorem new_payload {bytes : List UInt8} (h : bytes.length = widths m.entries) :
    ∃ frame, CanFrame.new m.cobId bytes = .ok frame ∧ frame.canId = m.cobId ∧
      frame.data = bytes := by
  have hlength : bytes.length ≤ 8 := h ▸ widths_le m
  refine ⟨⟨m.cobId, bytes, m.cobId_le, hlength⟩, ?_, rfl, rfl⟩
  rw [CanFrame.new, dif_pos m.cobId_le, dif_pos hlength]

theorem decode_eq {frame : CanFrame} (hid : frame.canId = m.cobId)
    (hlength : frame.data.length = widths m.entries) :
    m.decode frame = .ok (decodeEntries m.entries frame.data (fun _ => none)) := by
  have hbytes : frame.data.length = m.payloadBytes := hlength.trans (payloadBytes_eq m).symm
  rw [PdoMapping.decode, if_neg (not_not_intro hid), if_neg (not_not_intro hbytes)]

theorem decode_ok {frame : CanFrame} {values : Values} (h : m.decode frame = .ok values) :
    frame.canId = m.cobId ∧ frame.data.length = widths m.entries ∧
      values = decodeEntries m.entries frame.data (fun _ => none) := by
  rw [PdoMapping.decode] at h
  split_ifs at h with hid hlength
  cases h
  exact ⟨not_not.mp hid, (not_not.mp hlength).trans (payloadBytes_eq m), rfl⟩

theorem decodesEncoded : DecodesEncoded m := by
  refine fun values => ⟨fun hfit => ?_, fun hfit => ?_⟩
  · obtain ⟨bytes, hbytes, hlength, hdecode⟩ := encodeEntries_fits hfit
    obtain ⟨frame, hframe, hid, hdata⟩ := new_payload m hlength
    refine ⟨frame, ?_, ?_⟩
    · rw [PdoMapping.encode, hbytes]
      exact hframe
    · rw [decode_eq m hid (hdata ▸ hlength), hdata, hdecode]
  · obtain ⟨error, herror⟩ := encodeEntries_misfits hfit
    refine ⟨error, ?_⟩
    rw [PdoMapping.encode, herror]
    rfl

theorem encodesDecoded_of_nodup (h : (names m.entries).Nodup) : EncodesDecoded m := by
  intro frame values hdecode
  obtain ⟨hid, hlength, rfl⟩ := decode_ok m hdecode
  rw [PdoMapping.encode, encode_decodeEntries h hlength, ← hid]
  exact new_canFrame frame

theorem nodup_of_encodesDecoded (h : EncodesDecoded m) : (names m.entries).Nodup := by
  by_contra hnames
  obtain ⟨data, data', hlength, hlength', hne, hsame⟩ := decodeEntries_collision hnames
  obtain ⟨frame, -, hid, hdata⟩ := new_payload m hlength
  obtain ⟨frame', -, hid', hdata'⟩ := new_payload m hlength'
  have hframe := h frame _ (decode_eq m hid (hdata ▸ hlength))
  have hframe' := h frame' _ (decode_eq m hid' (hdata' ▸ hlength'))
  rw [hdata, hsame, ← hdata', hframe'] at hframe
  have heq : frame' = frame := Except.ok.inj hframe
  apply hne
  rw [← hdata, ← hdata', heq]

/-- The codec is a bijection exactly when the mapping names no value twice. -/
theorem codec_bijective_iff (m : PdoMapping) :
    (DecodesEncoded m ∧ EncodesDecoded m) ↔ (names m.entries).Nodup :=
  ⟨fun h => nodup_of_encodesDecoded m h.2,
    fun h => ⟨decodesEncoded m, encodesDecoded_of_nodup m h⟩⟩

def statusEntry (subindex : Nat) (h : subindex ≤ 0xFF) : PdoMappingEntry :=
  ⟨"status", 0x2000, subindex, 8, false, by decide, by decide, h, by decide⟩

def statusTwice : PdoMapping :=
  ⟨0x185, [statusEntry 1 (by decide), statusEntry 2 (by decide)], by decide, by decide, by decide⟩

theorem statusTwice_loses :
    ¬ ∀ m : PdoMapping, DecodesEncoded m ∧ EncodesDecoded m := by
  intro h
  have hframe := (h statusTwice).2 ⟨0x185, [1, 2], by decide, by decide⟩ _ rfl
  exact absurd hframe (by decide)

end RoundTrip

end HilLab.Fieldbus.Pdo
