import HilLab.Fieldbus.SdoMatching
import HilLab.Lib.FailStop

namespace HilLab.Fieldbus.PdoConfig

open Lib.Effect Lib.LittleEndian Lib.FailStop SocketCan Pdo Sdo SdoMatching

section Configure

variable {σ : Type} (c : CanopenSdoClient) (bus : CanBus σ)

/-- The loop over the mapping entries, from a subindex on. -/
def writeEntries (mappingIndex : Int) : Nat → List PdoMappingEntry → Eff σ CanError PUnit
  | _, [] => pure ⟨⟩
  | subindex, e :: es => do
      c.downloadU32 bus mappingIndex subindex e.mappingValue
      writeEntries mappingIndex (subindex + 1) es

def writeTransmissionType (communicationIndex : Int) : Option Int → Eff σ CanError PUnit
  | none => pure ⟨⟩
  | some transmissionType => c.downloadU8 bus communicationIndex 2 transmissionType

def configurePdoMapping (mappingIndex communicationIndex : Int) (mapping : PdoMapping)
    (transmissionType : Option Int) : Eff σ CanError PUnit :=
  if ¬ (0x1400 ≤ communicationIndex ∧ communicationIndex ≤ 0x19FF) then
    throw (.valueError "communication_index must be a PDO communication object")
  else if ¬ (0x1600 ≤ mappingIndex ∧ mappingIndex ≤ 0x1BFF) then
    throw (.valueError "mapping_index must be a PDO mapping object")
  else if ∃ t ∈ transmissionType, ¬ (0 ≤ t ∧ t ≤ 0xFF) then
    throw (.valueError "transmission_type must fit uint8")
  else do
    let disabledCobId := mapping.cobId ||| 0x80000000
    c.downloadU32 bus communicationIndex 1 disabledCobId
    c.downloadU8 bus mappingIndex 0 0
    writeEntries c bus mappingIndex 1 mapping.entries
    c.downloadU8 bus mappingIndex 0 mapping.entries.length
    writeTransmissionType c bus communicationIndex transmissionType
    c.downloadU32 bus communicationIndex 1 mapping.cobId

end Configure

section Device

inductive DownloadFate
  | applied
  | answerLost
  | aborted (code : Nat)
  | undelivered

/-- A node as a store of object entries, by index and subindex. -/
structure Device where
  store : Nat × Nat → Nat
  fates : Nat → DownloadFate
  inbox : List CanFrame

def acknowledgement : Reply := { goodReply with flags := 0 }

def abortReply (code : Nat) : Reply := ⟨true, 0, toBytes 4 code, length_toBytes 4 code⟩

def payload (frame : CanFrame) : Nat :=
  ofBytes ((frame.data.drop 4).take (4 - (byte frame 0 >>> 2 &&& 3)))

variable (c : CanopenSdoClient)

def Device.take (frame : CanFrame) (d : Device) : Device :=
  let r := requested 0 frame
  let store := Function.update d.store (r.index, r.subindex) (payload frame)
  let rest := { d with fates := fun n => d.fates (n + 1) }
  match d.fates 0 with
  | .applied => { rest with store, inbox := d.inbox ++ [r.answer c acknowledgement] }
  | .answerLost => { rest with store }
  | .aborted code => { rest with inbox := d.inbox ++ [r.answer c (abortReply code)] }
  | .undelivered => rest

def Device.receive (d : Device) : Except CanError CanFrame × Device :=
  match d.inbox with
  | [] => (.error (.timeoutError "timed out"), d)
  | frame :: frames => (.ok frame, { d with inbox := frames })

def deviceBus : CanBus Device :=
  { send := fun frame => modify (Device.take c frame)
    recv := ExceptT.mk Device.receive }

def DownloadFate.kind : DownloadFate → Fate
  | .applied => .done
  | .answerLost => .unheard
  | .aborted _ | .undelivered => .failed

end Device

section Follows

/-- The code writes ws to the node, up to the first download that does not go through. -/
def Follows (m : Eff Device CanError PUnit) (ws : List ((Nat × Nat) × Nat)) : Prop :=
  ∀ d : Device, d.inbox = [] →
    (exec m d).2.store = (run ws (fun n => (d.fates n).kind) d.store).2 ∧
      ((run ws (fun n => (d.fates n).kind) d.store).1 = true →
        exec m d = (.ok ⟨⟩, ⟨(run ws (fun n => (d.fates n).kind) d.store).2,
          fun n => d.fates (n + ws.length), []⟩)) ∧
      ((run ws (fun n => (d.fates n).kind) d.store).1 = false →
        ∃ error, (exec m d).1 = .error error)

variable {m k : Eff Device CanError PUnit} {ws xs : List ((Nat × Nat) × Nat)}

theorem follows_nil : Follows (pure ⟨⟩) [] := by
  intro d hd
  refine ⟨rfl, fun _ => ?_, fun h => Bool.noConfusion h⟩
  rw [exec_pure, run, ← hd]
  rfl

theorem follows_bind (hm : Follows m ws) (hk : Follows k xs) :
    Follows (do m; k) (ws ++ xs) := by
  intro d hd
  obtain ⟨hstore, hall, hsome⟩ := hm d hd
  rw [run_append]
  cases hrun : (run ws (fun n => (d.fates n).kind) d.store).1 with
  | true =>
      have hexec := hall hrun
      rw [exec_bind_ok hexec, if_pos rfl]
      obtain ⟨hstore', hall', hsome'⟩ := hk ⟨_, _, []⟩ rfl
      refine ⟨hstore', fun h => ?_, hsome'⟩
      rw [hall' h, List.length_append]
      simp only [Nat.add_assoc, Nat.add_comm ws.length]
  | false =>
      obtain ⟨error, herror⟩ := hsome hrun
      have hexec : exec m d = (.error error, (exec m d).2) := Prod.ext herror rfl
      rw [exec_bind_error hexec, if_neg Bool.false_ne_true]
      exact ⟨hstore, fun h => Bool.noConfusion (hrun.symm.trans h), fun _ => ⟨error, rfl⟩⟩

variable {c : CanopenSdoClient}

def accepted (c : CanopenSdoClient) (index subindex : Int) (n : Nat) : Eff Device CanError PUnit := do
  let response ← c.response (deviceBus c) index subindex (n + 1)
  liftExcept (CanopenSdoClient.acknowledged response)

variable {d : Device} {index subindex : Int} {n : Nat}

theorem accepted_answer {r : Request} {reply : Reply} (hinbox : d.inbox = [r.answer c reply])
    (hfor : r.For index subindex) :
    exec (accepted c index subindex n) d =
      (if reply.abort then
          .error (sdoAbort (ofBytes reply.data) index.toNat subindex.toNat)
        else CanopenSdoClient.acknowledged (r.answer c reply), { d with inbox := [] }) := by
  have hrecv : exec (deviceBus c).recv d = (.ok (r.answer c reply), { d with inbox := [] }) := by
    have hreceive : exec (deviceBus c).recv d = d.receive := rfl
    rw [hreceive, Device.receive, hinbox]
  have hexamine := examine_answer (c := c) r reply index subindex
  rw [if_pos hfor] at hexamine
  cases habort : reply.abort with
  | true =>
      rw [habort, if_pos rfl] at hexamine
      rw [accepted, exec_bind_error (CanopenSdoClient.response_end hrecv hexamine)]
      rfl
  | false =>
      rw [habort, if_neg Bool.false_ne_true] at hexamine
      rw [accepted, exec_bind_ok (CanopenSdoClient.response_end hrecv hexamine), exec_liftExcept]
      rfl

theorem accepted_silence (hinbox : d.inbox = []) :
    exec (accepted c index subindex n) d = (.error (.timeoutError "timed out"), d) := by
  have hrecv : exec (deviceBus c).recv d = (.error (.timeoutError "timed out"), d) := by
    have hreceive : exec (deviceBus c).recv d = d.receive := rfl
    rw [hreceive, Device.receive, hinbox]
  exact exec_bind_error (CanopenSdoClient.response_raise hrecv)

theorem follows_download {i s : Nat} {data : List UInt8} (hi : i < 2 ^ 16) (hs : s < 2 ^ 8)
    (hpos : 1 ≤ data.length) (hle : data.length ≤ 4) :
    Follows (c.download (deviceBus c) i s data) [((i, s), ofBytes data)] := by
  have hrange : InRange i s := by
    refine ⟨Int.natCast_nonneg i, by exact_mod_cast hi, Int.natCast_nonneg s, by exact_mod_cast hs⟩
  obtain ⟨command, hcommand, hlt, hne, hlength⟩ := commands_some hpos hle
  obtain ⟨frame, hframe, -, hbyte, hdata, hfor⟩ :=
    requestFrame_inRange (c := c) hrange hlt (length_ljust hle)
  have hindex : (requested 0 frame).index = i := Int.ofNat.inj (hfor 0).1
  have hsub : (requested 0 frame).subindex = s := Int.ofNat.inj (hfor 0).2
  have hkind : (requested 0 frame).kind = .download := if_neg (hbyte ▸ hne)
  have hvalue : payload frame = ofBytes data := by
    rw [payload, hdata, hbyte, hlength, ljust, List.take_left]
  obtain ⟨frames, hframes⟩ := Nat.exists_eq_succ_of_ne_zero (Nat.ne_of_gt c.maxFrames_pos)
  intro d hd
  have hbuilt : exec (liftExcept (c.requestFrame command i s (ljust data 4)) :
      Eff Device CanError CanFrame) d = (.ok frame, d) := by
    rw [exec_liftExcept, hframe]
  have hsent : exec ((deviceBus c).send frame) d = (.ok ⟨⟩, d.take c frame) := rfl
  have hdownload : exec (c.download (deviceBus c) i s data) d =
      exec (accepted c i s frames) (d.take c frame) := by
    rw [CanopenSdoClient.download, hcommand]
    dsimp only
    rw [exec_bind_ok hbuilt, exec_bind_ok hsent, hframes]
    rfl
  have htake : d.take c frame = match d.fates 0 with
      | .applied => ⟨Function.update d.store (i, s) (ofBytes data), fun n => d.fates (n + 1),
          [(requested 0 frame).answer c acknowledgement]⟩
      | .answerLost => ⟨Function.update d.store (i, s) (ofBytes data), fun n => d.fates (n + 1), []⟩
      | .aborted code => ⟨d.store, fun n => d.fates (n + 1),
          [(requested 0 frame).answer c (abortReply code)]⟩
      | .undelivered => ⟨d.store, fun n => d.fates (n + 1), []⟩ := by
    rw [Device.take, hindex, hsub, hvalue, hd]
    rfl
  rw [hdownload, htake, run]
  cases hfate : d.fates 0 with
  | applied =>
      dsimp only
      rw [accepted_answer rfl (hfor 0)]
      have haccepted : CanopenSdoClient.acknowledged ((requested 0 frame).answer c acknowledgement) =
          .ok ⟨⟩ := acknowledged_download rfl hkind
      refine ⟨rfl, fun _ => Prod.ext haccepted rfl, fun h => Bool.noConfusion h⟩
  | answerLost =>
      dsimp only
      rw [accepted_silence rfl]
      exact ⟨rfl, fun h => Bool.noConfusion h, fun _ => ⟨_, rfl⟩⟩
  | aborted code =>
      dsimp only
      rw [accepted_answer rfl (hfor 0)]
      exact ⟨rfl, fun h => Bool.noConfusion h, fun _ => ⟨_, rfl⟩⟩
  | undelivered =>
      dsimp only
      rw [accepted_silence rfl]
      exact ⟨rfl, fun h => Bool.noConfusion h, fun _ => ⟨_, rfl⟩⟩

theorem follows_downloadInt (i s width value : Nat) (hi : i < 2 ^ 16) (hs : s < 2 ^ 8)
    (hpos : 1 ≤ width) (hle : width ≤ 4) (hvalue : value < 256 ^ width) :
    Follows (c.downloadInt (deviceBus c) width false i s value) [((i, s), value)] := by
  have hfits : Representable false width (value : Int) := by
    rw [Representable, if_neg Bool.false_ne_true]
    exact ⟨Int.natCast_nonneg value, by exact_mod_cast hvalue⟩
  have hlength : (ofInt width (value : Int)).length = width := length_ofInt width _
  have hbytes : ofBytes (ofInt width (value : Int)) = value := by
    have hround := ofBytes_ofInt width (value : Int)
    rw [Int.emod_eq_of_lt (Int.natCast_nonneg value) (by exact_mod_cast hvalue)] at hround
    exact_mod_cast hround
  have hdownload := follows_download (c := c) hi hs (by rw [hlength]; exact hpos)
    (by rw [hlength]; exact hle)
  rw [hbytes] at hdownload
  intro d hd
  have hdata : exec (liftExcept (intToBytes width false (value : Int)) :
      Eff Device CanError (List UInt8)) d = (.ok (ofInt width value), d) := by
    rw [exec_liftExcept, intToBytes, if_pos hfits]
  have hexec : exec (c.downloadInt (deviceBus c) width false i s value) d =
      exec (c.download (deviceBus c) i s (ofInt width value)) d := exec_bind_ok hdata
  rw [hexec]
  exact hdownload d hd

theorem mappingValue_lt (e : PdoMappingEntry) : e.mappingValue < 2 ^ 32 := by
  have hindex := e.index_le
  have hsub := e.subindex_le
  have hbits := e.bits_mem
  simp only [List.mem_cons, List.not_mem_nil, or_false] at hbits
  rw [PdoMappingEntry.mappingValue, Nat.shiftLeft_eq, Nat.shiftLeft_eq]
  apply Nat.or_lt_two_pow
  · apply Nat.or_lt_two_pow
    · omega
    · omega
  · omega

def entryWrites (mappingIndex : Nat) : Nat → List PdoMappingEntry → List ((Nat × Nat) × Nat)
  | _, [] => []
  | subindex, e :: es =>
      ((mappingIndex, subindex), e.mappingValue) :: entryWrites mappingIndex (subindex + 1) es

theorem follows_entries {mappingIndex subindex : Nat} (hm : mappingIndex < 2 ^ 16)
    {es : List PdoMappingEntry} (hs : subindex + es.length < 2 ^ 8) :
    Follows (writeEntries c (deviceBus c) mappingIndex subindex es)
      (entryWrites mappingIndex subindex es) := by
  induction es generalizing subindex with
  | nil => exact follows_nil
  | cons e es ih =>
      rw [List.length_cons] at hs
      have hfirst := follows_downloadInt (c := c) mappingIndex subindex 4 e.mappingValue hm
        (by omega) (by decide) (by decide) (mappingValue_lt e)
      exact follows_bind hfirst (ih (by omega))

def transmissionWrites (communicationIndex : Nat) : Option Int → List ((Nat × Nat) × Nat)
  | none => []
  | some transmissionType => [((communicationIndex, 2), transmissionType.toNat)]

theorem follows_transmissionType {communicationIndex : Nat} (hc : communicationIndex < 2 ^ 16)
    {transmissionType : Option Int} (h : ∀ t ∈ transmissionType, 0 ≤ t ∧ t ≤ 0xFF) :
    Follows (writeTransmissionType c (deviceBus c) communicationIndex transmissionType)
      (transmissionWrites communicationIndex transmissionType) := by
  cases transmissionType with
  | none => exact follows_nil
  | some t =>
      obtain ⟨hpos, hle⟩ := h t rfl
      obtain ⟨t, rfl⟩ := Int.eq_ofNat_of_zero_le hpos
      exact follows_downloadInt communicationIndex 2 1 t hc (by decide) (by decide) (by decide)
        (by omega)

def configuration (mappingIndex communicationIndex : Nat) (mapping : PdoMapping)
    (transmissionType : Option Int) : List ((Nat × Nat) × Nat) :=
  [((communicationIndex, 1), mapping.cobId ||| 0x80000000)] ++ ([((mappingIndex, 0), 0)] ++
    (entryWrites mappingIndex 1 mapping.entries ++ ([((mappingIndex, 0), mapping.entries.length)] ++
      (transmissionWrites communicationIndex transmissionType ++
        [((communicationIndex, 1), mapping.cobId)]))))

/-- The arguments that configure_pdo_mapping lets through. -/
structure Accepted (mappingIndex communicationIndex : Int) (transmissionType : Option Int) : Prop where
  communication : 0x1400 ≤ communicationIndex ∧ communicationIndex ≤ 0x19FF
  mapping : 0x1600 ≤ mappingIndex ∧ mappingIndex ≤ 0x1BFF
  transmission : ∀ t ∈ transmissionType, 0 ≤ t ∧ t ≤ 0xFF

theorem configure_follows {mappingIndex communicationIndex : Nat} {transmissionType : Option Int}
    (mapping : PdoMapping)
    (h : Accepted mappingIndex communicationIndex transmissionType) :
    Follows (configurePdoMapping c (deviceBus c) mappingIndex communicationIndex mapping
      transmissionType) (configuration mappingIndex communicationIndex mapping transmissionType) := by
  have htransmission : ¬ ∃ t ∈ transmissionType, ¬ (0 ≤ t ∧ t ≤ 0xFF) :=
    fun ⟨t, ht, hout⟩ => hout (h.transmission t ht)
  have hc : communicationIndex < 2 ^ 16 := by
    have hle := h.communication.2
    omega
  have hm : mappingIndex < 2 ^ 16 := by
    have hle := h.mapping.2
    omega
  have hcount := mapping.count.2
  have hcob := mapping.cobId_le
  have hcob32 : mapping.cobId < 2 ^ 32 := by omega
  have hdisabled : mapping.cobId ||| 0x80000000 < 2 ^ 32 :=
    Nat.or_lt_two_pow hcob32 (by decide)
  rw [configurePdoMapping, if_neg (not_not_intro h.communication), if_neg (not_not_intro h.mapping),
    if_neg htransmission]
  apply follows_bind
  · exact follows_downloadInt communicationIndex 1 4 (mapping.cobId ||| 0x80000000) hc (by decide)
      (by decide) (by decide) hdisabled
  apply follows_bind
  · exact follows_downloadInt mappingIndex 0 1 0 hm (by decide) (by decide) (by decide) (by decide)
  apply follows_bind (follows_entries hm (by omega))
  apply follows_bind
  · exact follows_downloadInt mappingIndex 0 1 mapping.entries.length hm (by decide) (by decide)
      (by decide) (by omega)
  apply follows_bind (follows_transmissionType hc h.transmission)
  exact follows_downloadInt communicationIndex 1 4 mapping.cobId hc (by decide) (by decide)
    (by decide) (by omega)

theorem configure_rejected {mappingIndex communicationIndex : Int} {transmissionType : Option Int}
    (h : ¬ Accepted mappingIndex communicationIndex transmissionType) (mapping : PdoMapping)
    (d : Device) :
    ∃ error, exec (configurePdoMapping c (deviceBus c) mappingIndex communicationIndex mapping
      transmissionType) d = (.error error, d) := by
  rw [configurePdoMapping]
  by_cases hc : 0x1400 ≤ communicationIndex ∧ communicationIndex ≤ 0x19FF
  · by_cases hm : 0x1600 ≤ mappingIndex ∧ mappingIndex ≤ 0x1BFF
    · have ht : ∃ t ∈ transmissionType, ¬ (0 ≤ t ∧ t ≤ 0xFF) := by
        by_contra hnone
        refine h ⟨hc, hm, fun t hmem => ?_⟩
        by_contra hout
        exact hnone ⟨t, hmem, hout⟩
      rw [if_neg (not_not_intro hc), if_neg (not_not_intro hm), if_pos ht]
      exact ⟨_, exec_throw _ d⟩
    · rw [if_neg (not_not_intro hc), if_pos hm]
      exact ⟨_, exec_throw _ d⟩
  · rw [if_pos hc]
    exact ⟨_, exec_throw _ d⟩

end Follows

section FailSafe

variable (mappingIndex communicationIndex : Nat) (mapping : PdoMapping)
variable (transmissionType : Option Int)

def Disabled (store : Nat × Nat → Nat) : Prop := (store (communicationIndex, 1)).testBit 31 = true

/-- The PDO is enabled with what was requested. -/
structure Configured (store : Nat × Nat → Nat) : Prop where
  cobId : store (communicationIndex, 1) = mapping.cobId
  count : store (mappingIndex, 0) = mapping.entries.length
  entries : ∀ i e, mapping.entries[i]? = some e → store (mappingIndex, i + 1) = e.mappingValue
  transmission : ∀ t ∈ transmissionType, store (communicationIndex, 2) = t.toNat

theorem cobId_enabled : mapping.cobId.testBit 31 = false := by
  have hcob := mapping.cobId_le
  exact Nat.testBit_lt_two_pow (by omega)

theorem disabled_bit : (mapping.cobId ||| 0x80000000).testBit 31 = true := by
  have hbit : (0x80000000 : Nat).testBit 31 = true := by decide
  rw [Nat.testBit_or, hbit, Bool.or_true]

theorem entryWrites_append (subindex : Nat) (xs ys : List PdoMappingEntry) :
    entryWrites mappingIndex subindex (xs ++ ys) =
      entryWrites mappingIndex subindex xs ++ entryWrites mappingIndex (subindex + xs.length) ys := by
  induction xs generalizing subindex with
  | nil => rfl
  | cons x xs ih =>
      rw [List.cons_append, entryWrites, ih, entryWrites, List.cons_append, List.length_cons,
        Nat.add_assoc, Nat.add_comm 1]

theorem mem_entryWrites {subindex : Nat} {es : List PdoMappingEntry} {w : (Nat × Nat) × Nat}
    (h : w ∈ entryWrites mappingIndex subindex es) : w.1.1 = mappingIndex ∧ subindex ≤ w.1.2 := by
  induction es generalizing subindex with
  | nil => cases h
  | cons e es ih =>
      rcases List.mem_cons.mp h with rfl | h
      · exact ⟨rfl, Nat.le_refl _⟩
      · obtain ⟨hindex, hsub⟩ := ih h
        exact ⟨hindex, Nat.le_of_succ_le hsub⟩

theorem mem_transmissionWrites {w : (Nat × Nat) × Nat}
    (h : w ∈ transmissionWrites communicationIndex transmissionType) :
    w.1 = (communicationIndex, 2) := by
  cases transmissionType with
  | none => cases h
  | some t => rw [List.mem_singleton.mp h]

def middle : List ((Nat × Nat) × Nat) :=
  [((mappingIndex, 0), 0)] ++ (entryWrites mappingIndex 1 mapping.entries ++
    ([((mappingIndex, 0), mapping.entries.length)] ++
      transmissionWrites communicationIndex transmissionType))

theorem configuration_middle :
    configuration mappingIndex communicationIndex mapping transmissionType =
      ((communicationIndex, 1), mapping.cobId ||| 0x80000000) ::
        (middle mappingIndex communicationIndex mapping transmissionType ++
          [((communicationIndex, 1), mapping.cobId)]) := by
  simp [configuration, middle]

theorem configuration_entry {i : Nat} {e : PdoMappingEntry} (h : mapping.entries[i]? = some e) :
    ∃ xs ys, configuration mappingIndex communicationIndex mapping transmissionType =
        xs ++ ((mappingIndex, i + 1), e.mappingValue) :: (ys ++
          (((mappingIndex, 0), mapping.entries.length) ::
            (transmissionWrites communicationIndex transmissionType ++
              [((communicationIndex, 1), mapping.cobId)]))) ∧
      ∀ w ∈ ys, w.1.1 = mappingIndex ∧ i + 2 ≤ w.1.2 := by
  obtain ⟨hi, he⟩ := List.getElem?_eq_some_iff.mp h
  have hlength : (mapping.entries.take i).length = i := List.length_take_of_le (Nat.le_of_lt hi)
  have hsplit : mapping.entries.take i ++ e :: mapping.entries.drop (i + 1) = mapping.entries := by
    rw [← he, List.getElem_cons_drop, List.take_append_drop]
  have hwrites := entryWrites_append mappingIndex 1 (mapping.entries.take i)
    (e :: mapping.entries.drop (i + 1))
  rw [hsplit, hlength, entryWrites, Nat.add_comm 1 i] at hwrites
  refine ⟨((communicationIndex, 1), mapping.cobId ||| 0x80000000) :: ((mappingIndex, 0), 0) ::
    entryWrites mappingIndex 1 (mapping.entries.take i),
    entryWrites mappingIndex (i + 2) (mapping.entries.drop (i + 1)), ?_,
    fun w hw => mem_entryWrites mappingIndex hw⟩
  simp [configuration, hwrites]

variable {mappingIndex communicationIndex} (hne : communicationIndex ≠ mappingIndex)
variable (store : Nat × Nat → Nat)
include hne

theorem mapping_ne (i j : Nat) : (mappingIndex, i) ≠ (communicationIndex, j) :=
  fun heq => hne (congrArg Prod.fst heq).symm

theorem middle_other {w : (Nat × Nat) × Nat}
    (h : w ∈ middle mappingIndex communicationIndex mapping transmissionType) :
    w.1 ≠ (communicationIndex, 1) := by
  have htwo : (2 : Nat) ≠ 1 := by decide
  simp only [middle, List.mem_append, List.mem_singleton] at h
  rcases h with rfl | h | rfl | h
  · exact mapping_ne hne 0 1
  · intro heq
    have hindex := (mem_entryWrites mappingIndex h).1
    rw [heq] at hindex
    exact hne hindex
  · exact mapping_ne hne 0 1
  · rw [mem_transmissionWrites communicationIndex transmissionType h]
    exact fun heq => htwo (congrArg Prod.snd heq)

theorem prefix_disabled {k : Nat} (hpos : 0 < k)
    (hk : k < (configuration mappingIndex communicationIndex mapping transmissionType).length) :
    Disabled communicationIndex (writes store
      ((configuration mappingIndex communicationIndex mapping transmissionType).take k)) := by
  obtain ⟨k, rfl⟩ := Nat.exists_eq_succ_of_ne_zero (Nat.ne_of_gt hpos)
  rw [configuration_middle] at hk ⊢
  rw [List.length_cons, List.length_append, List.length_singleton] at hk
  rw [Nat.succ_eq_add_one, List.take_succ_cons, List.take_append_of_le_length (by omega), Disabled,
    ← List.nil_append (_ :: _), writes_last]
  · exact disabled_bit mapping
  · intro w hw
    exact middle_other mapping transmissionType hne (List.mem_of_mem_take hw)

theorem all_configured :
    Configured mappingIndex communicationIndex mapping transmissionType (writes store
      (configuration mappingIndex communicationIndex mapping transmissionType)) := by
  have hend {i : Nat} : ∀ w ∈ transmissionWrites communicationIndex transmissionType ++
      [((communicationIndex, 1), mapping.cobId)], w.1 ≠ (mappingIndex, i) := by
    intro w hw
    rcases List.mem_append.mp hw with hw | hw
    · rw [mem_transmissionWrites communicationIndex transmissionType hw]
      exact (mapping_ne hne i 2).symm
    · rw [List.mem_singleton.mp hw]
      exact (mapping_ne hne i 1).symm
  refine ⟨?_, ?_, fun i e he => ?_, fun t ht => ?_⟩
  · rw [configuration_middle, ← List.cons_append, writes_last]
    exact fun _ hw => absurd hw List.not_mem_nil
  · have hsplit : configuration mappingIndex communicationIndex mapping transmissionType =
        (((communicationIndex, 1), mapping.cobId ||| 0x80000000) :: ((mappingIndex, 0), 0) ::
          entryWrites mappingIndex 1 mapping.entries) ++
        ((mappingIndex, 0), mapping.entries.length) ::
          (transmissionWrites communicationIndex transmissionType ++
            [((communicationIndex, 1), mapping.cobId)]) := by
      simp [configuration]
    rw [hsplit, writes_last hend]
  · obtain ⟨xs, ys, hsplit, hys⟩ := configuration_entry mappingIndex communicationIndex mapping
      transmissionType he
    rw [hsplit, writes_last]
    intro w hw heq
    rcases List.mem_append.mp hw with hw | hw
    · have hsub := (hys w hw).2
      rw [heq] at hsub
      exact absurd hsub (by omega)
    · rcases List.mem_cons.mp hw with rfl | hw
      · exact absurd (congrArg Prod.snd heq) (Nat.succ_ne_zero i).symm
      · exact hend w hw heq
  · obtain rfl : transmissionType = some t := ht
    have hsplit : configuration mappingIndex communicationIndex mapping (some t) =
        (((communicationIndex, 1), mapping.cobId ||| 0x80000000) :: ((mappingIndex, 0), 0) ::
          (entryWrites mappingIndex 1 mapping.entries ++
            [((mappingIndex, 0), mapping.entries.length)])) ++
        ((communicationIndex, 2), t.toNat) :: [((communicationIndex, 1), mapping.cobId)] := by
      simp [configuration, transmissionWrites]
    have hone : (1 : Nat) ≠ 2 := by decide
    rw [hsplit, writes_last]
    intro w hw heq
    rw [List.mem_singleton.mp hw] at heq
    exact hone (congrArg Prod.snd heq)

end FailSafe

section Outcome

variable (c : CanopenSdoClient)

/-- After the call the PDO is as it was and the call has raised, or the PDO is disabled, or it
is enabled as requested. -/
def FailSafe (mappingIndex communicationIndex : Int) (mapping : PdoMapping)
    (transmissionType : Option Int) (d : Device) : Prop :=
  let after := exec (configurePdoMapping c (deviceBus c) mappingIndex communicationIndex mapping
    transmissionType) d
  ((∃ error, after.1 = .error error) ∧ after.2.store = d.store) ∨
    Disabled communicationIndex.toNat after.2.store ∨
    Configured mappingIndex.toNat communicationIndex.toNat mapping transmissionType after.2.store

variable {c} {mappingIndex communicationIndex : Nat} {mapping : PdoMapping}
variable {transmissionType : Option Int}

theorem failSafe_of_ne (h : Accepted mappingIndex communicationIndex transmissionType)
    (hne : communicationIndex ≠ mappingIndex) {d : Device} (hd : d.inbox = []) :
    FailSafe c mappingIndex communicationIndex mapping transmissionType d := by
  obtain ⟨hstore, -, hsome⟩ := configure_follows (c := c) mapping h d hd
  obtain ⟨k, hk, hwritten, hall⟩ := run_prefix
    (configuration mappingIndex communicationIndex mapping transmissionType)
    (fun n => (d.fates n).kind) d.store
  rw [hwritten] at hstore
  rw [FailSafe, hstore, Int.toNat_natCast, Int.toNat_natCast]
  rcases Nat.eq_zero_or_pos k with rfl | hpos
  · left
    refine ⟨hsome ?_, rfl⟩
    by_contra hran
    have hlength := hall (Bool.not_eq_false _ ▸ hran)
    rw [configuration_middle] at hlength
    exact absurd hlength (Nat.succ_ne_zero _).symm
  · rcases Nat.lt_or_eq_of_le hk with hlt | rfl
    · exact Or.inr (Or.inl (prefix_disabled mapping transmissionType hne d.store hpos hlt))
    · rw [List.take_length]
      exact Or.inr (Or.inr (all_configured mapping transmissionType hne d.store))

/-- The first k downloads are applied and the next one is not delivered. -/
def cutOff (store : Nat × Nat → Nat) (k : Nat) : Device :=
  { store, fates := fun n => if n < k then .applied else .undelivered, inbox := [] }

variable (mapping) in
theorem cutOff_after (h : Accepted mappingIndex communicationIndex transmissionType)
    (store : Nat × Nat → Nat) {k : Nat}
    (hk : k ≤ (configuration mappingIndex communicationIndex mapping transmissionType).length) :
    (exec (configurePdoMapping c (deviceBus c) mappingIndex communicationIndex mapping
        transmissionType) (cutOff store k)).2.store =
      writes store ((configuration mappingIndex communicationIndex mapping transmissionType).take k) ∧
    (k = (configuration mappingIndex communicationIndex mapping transmissionType).length →
      (exec (configurePdoMapping c (deviceBus c) mappingIndex communicationIndex mapping
        transmissionType) (cutOff store k)).1 = .ok ⟨⟩) := by
  obtain ⟨hstore, hall, -⟩ := configure_follows (c := c) mapping h (cutOff store k) rfl
  have hfates : (fun n => ((cutOff store k).fates n).kind) =
      fun n => if n < k then Fate.done else Fate.failed := by
    funext n
    exact apply_ite DownloadFate.kind (n < k) .applied .undelivered
  have hrun := run_upTo (configuration mappingIndex communicationIndex mapping transmissionType) hk
    store
  have hbefore : (cutOff store k).store = store := rfl
  rw [hfates, hbefore, hrun] at hstore hall
  exact ⟨hstore, fun hlength => congrArg Prod.fst (hall (decide_eq_true hlength))⟩

section Shared

variable {index : Nat} {e : PdoMappingEntry} {es : List PdoMappingEntry}
variable (hentries : mapping.entries = e :: es)
include hentries

theorem configuration_shared (index : Nat) (transmissionType : Option Int) :
    configuration index index mapping transmissionType =
      ((index, 1), mapping.cobId ||| 0x80000000) :: ((index, 0), 0) ::
        ((index, 1), e.mappingValue) :: (entryWrites index 2 es ++
          (((index, 0), mapping.entries.length) ::
            (transmissionWrites index transmissionType ++ [((index, 1), mapping.cobId)]))) := by
  rw [configuration, hentries]
  rfl

variable (h : Accepted index index transmissionType)
include h

/-- With one object for both, the first mapping entry overwrites the disabled COB-ID: cut off
after it, the PDO is enabled under the entry's mapping value, -/
theorem shared_cutOff (hbit : e.mappingValue.testBit 31 = false) :
    ¬ FailSafe c index index mapping transmissionType (cutOff (fun _ => 1) 3) := by
  have hconfiguration := configuration_shared hentries index transmissionType
  have hthree : 3 ≤ (configuration index index mapping transmissionType).length := by
    rw [hconfiguration]
    simp only [List.length_cons]
    omega
  obtain ⟨hstore, -⟩ := cutOff_after (c := c) mapping h (fun _ => 1) hthree
  have hcob : (exec (configurePdoMapping c (deviceBus c) index index mapping transmissionType)
      (cutOff (fun _ => 1) 3)).2.store (index, 1) = e.mappingValue := by
    rw [hstore, hconfiguration]
    exact Function.update_self _ _ _
  have hcount : (exec (configurePdoMapping c (deviceBus c) index index mapping transmissionType)
      (cutOff (fun _ => 1) 3)).2.store (index, 0) = 0 := by
    have hzero : (index, 0) ≠ (index, 1) := fun heq => Nat.zero_ne_one (congrArg Prod.snd heq)
    rw [hstore, hconfiguration]
    exact (Function.update_of_ne hzero _ _).trans (Function.update_self _ _ _)
  intro hsafe
  rcases hsafe with ⟨-, hsame⟩ | hdisabled | hconfigured
  · exact Nat.zero_ne_one (hcount.symm.trans (congrFun hsame (index, 0)))
  · rw [Disabled, Int.toNat_natCast] at hdisabled
    exact Bool.noConfusion (hbit.symm.trans ((congrArg (Nat.testBit · 31) hcob).symm.trans hdisabled))
  · have hlength := hconfigured.count
    rw [Int.toNat_natCast] at hlength
    have hpos := mapping.count.1
    rw [← hlength] at hpos
    exact absurd (hcount ▸ hpos) (by decide)

/-- and if that value disables it too, the entry is lost when all goes through. -/
theorem shared_lost (hbit : e.mappingValue.testBit 31 = true) :
    ¬ FailSafe c index index mapping transmissionType
      (cutOff (fun _ => 1) (configuration index index mapping transmissionType).length) := by
  obtain ⟨hstore, hok⟩ := cutOff_after (c := c) mapping h (fun _ => 1) (Nat.le_refl _)
  have hcob : (exec (configurePdoMapping c (deviceBus c) index index mapping transmissionType)
      (cutOff (fun _ => 1) (configuration index index mapping transmissionType).length)).2.store
        (index, 1) = mapping.cobId := by
    rw [hstore, List.take_length, configuration_middle, ← List.cons_append, writes_last]
    exact fun _ hw => absurd hw List.not_mem_nil
  intro hsafe
  rcases hsafe with ⟨⟨error, herror⟩, -⟩ | hdisabled | hconfigured
  · cases herror.symm.trans (hok rfl)
  · rw [Disabled, Int.toNat_natCast] at hdisabled
    exact Bool.noConfusion ((cobId_enabled mapping).symm.trans
      ((congrArg (Nat.testBit · 31) hcob).symm.trans hdisabled))
  · have hentry := hconfigured.entries 0 e (by rw [hentries]; rfl)
    rw [Int.toNat_natCast] at hentry
    have hvalue : mapping.cobId = e.mappingValue := hcob.symm.trans hentry
    rw [← hvalue, cobId_enabled] at hbit
    cases hbit

end Shared

variable (mapping) in
theorem shared_index_fails {index : Nat} (h : Accepted index index transmissionType) :
    ∃ store fates, ¬ FailSafe c index index mapping transmissionType ⟨store, fates, []⟩ := by
  obtain ⟨e, es, hentries⟩ := List.exists_cons_of_length_pos mapping.count.1
  cases hbit : e.mappingValue.testBit 31 with
  | false =>
      exact ⟨fun _ => 1, (cutOff (fun _ => 1) 3).fates, shared_cutOff hentries h hbit⟩
  | true =>
      refine ⟨fun _ => 1, (cutOff (fun _ => 1)
        (configuration index index mapping transmissionType).length).fates, ?_⟩
      exact shared_lost hentries h hbit

/-- Over every node and every course of the downloads, a configuration is fail-safe exactly if
its two objects are not one. -/
theorem configure_failSafe_iff (c : CanopenSdoClient) (mapping : PdoMapping)
    (mappingIndex communicationIndex : Int) (transmissionType : Option Int) :
    (∀ store fates,
        FailSafe c mappingIndex communicationIndex mapping transmissionType ⟨store, fates, []⟩) ↔
      (Accepted mappingIndex communicationIndex transmissionType →
        communicationIndex ≠ mappingIndex) := by
  by_cases h : Accepted mappingIndex communicationIndex transmissionType
  · obtain ⟨m, rfl⟩ := Int.eq_ofNat_of_zero_le (Int.le_trans (by decide) h.mapping.1)
    obtain ⟨k, rfl⟩ := Int.eq_ofNat_of_zero_le (Int.le_trans (by decide) h.communication.1)
    constructor
    · intro hsafe _ heq
      obtain rfl : k = m := Int.ofNat.inj heq
      obtain ⟨store, fates, hunsafe⟩ := shared_index_fails (c := c) mapping h
      exact hunsafe (hsafe store fates)
    · intro hne store fates
      exact failSafe_of_ne h (fun heq => hne h (congrArg Nat.cast heq)) rfl
  · apply iff_of_true
    · intro store fates
      obtain ⟨error, herror⟩ := configure_rejected (c := c) h mapping ⟨store, fates, []⟩
      rw [FailSafe, herror]
      exact Or.inl ⟨⟨error, rfl⟩, rfl⟩
    · exact fun haccepted => absurd haccepted h

def statusMapping : PdoMapping :=
  ⟨0x285, [⟨"statusword", 0x6041, 0, 16, false, by decide, by decide, by decide, by decide⟩],
    by decide, by decide, by decide⟩

/-- Both objects at 0x1800, and the fourth download not delivered. -/
theorem shared_object_enabled :
    ¬ FailSafe node5 0x1800 0x1800 statusMapping none (cutOff (fun _ => 1) 3) := by
  have haccepted : Accepted (0x1800 : Nat) (0x1800 : Nat) none :=
    ⟨by decide, by decide, fun t ht => by cases ht⟩
  exact shared_cutOff rfl haccepted (by decide)

end Outcome

end HilLab.Fieldbus.PdoConfig
