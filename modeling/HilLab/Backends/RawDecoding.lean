import HilLab.Host.RawShared
import HilLab.Pru.RawFreeze
import Mathlib.Data.List.Chain

namespace HilLab.Backends.RawDecoding

open Host.Core
open Host.RawShared hiding Word
open Pru.RawCapture Pru.RawWindow

section Pins

def pins : List Nat := [1, 2, 3, 5, 14, 15]

/-- Bit k of the logical state is the pin k of the sample. -/
def PinMapped (rawInputs logical : Word) : Prop :=
  ∀ k, logical.getLsbD k = (pins[k]?.map rawInputs.getLsbD).getD false

theorem tests_pin (rawInputs : Word) {p : Nat} (hp : p < 32) :
    rawInputs &&& BitVec.twoPow 32 p ≠ 0 ↔ rawInputs.getLsbD p = true := by
  rw [BitVec.and_twoPow]
  cases rawInputs.getLsbD p with
  | false => simp
  | true =>
      refine iff_of_true (fun hzero => ?_) rfl
      have htop := congrArg (fun v : Word => v.getLsbD p) hzero
      simp [hp] at htop

theorem addLogical_bit (rawInputs logical : Word) {p j : Nat} (hp : p < 32) (hj : j < 32) (k : Nat) :
    (addLogical rawInputs logical (BitVec.twoPow 32 p, j)).getLsbD k =
      (logical.getLsbD k || decide (k = j) && rawInputs.getLsbD p) := by
  have hbit : (((1 <<< j : Nat) : Word)).getLsbD k = decide (k = j) := by
    rw [BitVec.natCast_eq_ofNat, BitVec.getLsbD_ofNat, Nat.one_shiftLeft, Nat.testBit_two_pow]
    by_cases hkj : k = j
    · simp [hkj, hj]
    · simp [hkj, Ne.symm hkj]
  rw [addLogical]
  dsimp only
  cases hpin : rawInputs.getLsbD p with
  | true => rw [if_pos ((tests_pin rawInputs hp).mpr hpin), BitVec.getLsbD_or, hbit, Bool.and_true]
  | false =>
      rw [if_neg (fun h => Bool.false_ne_true (hpin.symm.trans ((tests_pin rawInputs hp).mp h))),
        Bool.and_false, Bool.or_false]

theorem rawToLogical_pins (rawInputs : Word) : PinMapped rawInputs (rawToLogical rawInputs) := by
  intro k
  have hmasks : rawMasks.zipIdx = (pins.map (BitVec.twoPow 32)).zipIdx := by decide
  rw [rawToLogical, hmasks]
  simp only [pins, List.map_cons, List.map_nil, List.zipIdx_cons, List.zipIdx_nil, List.foldl_cons,
    List.foldl_nil, Nat.zero_add, Nat.reduceAdd]
  iterate 6 rw [addLogical_bit _ _ (by decide) (by decide)]
  rcases k with _ | _ | _ | _ | _ | _ | k <;> simp

theorem rawToLogical_ne {a b : Word} (ha : a &&& r31PwmInputMask = a)
    (hb : b &&& r31PwmInputMask = b) (hne : a ≠ b) : rawToLogical a ≠ rawToLogical b := by
  intro hlogical
  apply hne
  have hpin (k : Nat) : (pins[k]?.map a.getLsbD).getD false = (pins[k]?.map b.getLsbD).getD false := by
    rw [← rawToLogical_pins a k, hlogical, rawToLogical_pins b k]
  have hmask : ∀ j < 32, j ∉ pins → r31PwmInputMask.getLsbD j = false := by decide
  apply BitVec.eq_of_getLsbD_eq
  intro j hj
  by_cases hmem : j ∈ pins
  · obtain ⟨k, hk⟩ := List.mem_iff_getElem?.mp hmem
    have hbit := hpin k
    rw [hk] at hbit
    exact hbit
  · rw [← ha, ← hb, BitVec.getLsbD_and, BitVec.getLsbD_and, hmask j hj hmem, Bool.and_false,
      Bool.and_false]

end Pins

section Records

def hostRecord (e : EdgeRecord) : RawEdgeRecord := ⟨e.timestampTicks, e.rawInputs⟩

def mapped (g : Shared) : RawCaptureShared :=
  { magic := g.magic.toNat
    version := g.version.toNat
    totalSize := g.totalSize.toNat
    capacity := g.capacity.toNat
    eventCount := g.eventCount.toNat
    initialRawInputs := g.initialRawInputs
    ring := fun k => hostRecord (g.ring k) }

theorem mapped_valid {s : Raw} (h : Formed s) (hcount : s.shared.eventCount.toNat ≤ 1024) :
    validate (mapped s.shared) = .ok () := by
  have hmagic : (mapped s.shared).magic = rawMagic := congrArg BitVec.toNat h.magic
  have hversion : (mapped s.shared).version = rawVersion := congrArg BitVec.toNat h.version
  have htotal : (mapped s.shared).totalSize = rawSharedSize := congrArg BitVec.toNat h.totalSize
  have hcapacity : (mapped s.shared).capacity = rawCapacity := congrArg BitVec.toNat h.capacity
  have hfits : ¬ rawCapacity < (mapped s.shared).eventCount := Nat.not_lt_of_le hcount
  rw [validate, hmagic, hversion, htotal, hcapacity]
  simp [hfits]

/-- The records are the changes, in order: each with its number, the logical state of its inputs,
and a difference to the state before it that is not zero. -/
structure Decodes (initial : Word) (items : List EdgeRecord) (records : List RawRecord) : Prop where
  inputs : records.map (fun r => (r.timestampTicks, r.rawInputs)) =
    items.map (fun e => (e.timestampTicks, e.rawInputs))
  index : records.map RawRecord.index = List.range items.length
  logical : ∀ r ∈ records, PinMapped r.rawInputs r.logicalInputs
  changed : records.map RawRecord.changedInputs =
    List.zipWith (· ^^^ ·) (records.map RawRecord.logicalInputs)
      (rawToLogical initial :: records.map RawRecord.logicalInputs)
  nonzero : ∀ r ∈ records, r.changedInputs ≠ 0

theorem readRecords_fields (n : Nat) (previous : Word) (items : List RawEdgeRecord) :
    let records := readRecords n previous items
    records.map (fun r => (r.timestampTicks, r.rawInputs)) =
        items.map (fun e => (e.timestampTicks, e.rawInputs)) ∧
      records.map RawRecord.index = List.range' n items.length ∧
      (∀ r ∈ records, r.logicalInputs = rawToLogical r.rawInputs) ∧
      records.map RawRecord.changedInputs =
        List.zipWith (· ^^^ ·) (records.map RawRecord.logicalInputs)
          (previous :: records.map RawRecord.logicalInputs) := by
  induction items generalizing n previous with
  | nil => exact ⟨rfl, rfl, fun r hr => absurd hr List.not_mem_nil, rfl⟩
  | cons item items ih =>
      obtain ⟨hinputs, hindex, hlogical, hchanged⟩ := ih (n + 1) (rawToLogical item.rawInputs)
      rw [readRecords]
      refine ⟨congrArg (_ :: ·) hinputs, congrArg (_ :: ·) hindex, fun r hr => ?_,
        congrArg (_ :: ·) hchanged⟩
      rcases List.mem_cons.mp hr with rfl | hr
      · rfl
      · exact hlogical r hr

theorem readRecords_nonzero (n : Nat) {last : Word} {items : List EdgeRecord}
    (hlast : last &&& r31PwmInputMask = last)
    (hmasked : ∀ e ∈ items, e.rawInputs &&& r31PwmInputMask = e.rawInputs)
    (hchain : List.IsChain (· ≠ ·) (last :: items.map EdgeRecord.rawInputs)) :
    ∀ r ∈ readRecords n (rawToLogical last) (items.map hostRecord), r.changedInputs ≠ 0 := by
  induction items generalizing n last with
  | nil => exact fun r hr => absurd hr List.not_mem_nil
  | cons item items ih =>
      obtain ⟨hitem, hitems⟩ := List.forall_mem_cons.mp hmasked
      obtain ⟨hne, hrest⟩ := List.isChain_cons_cons.mp hchain
      intro r hr
      rw [List.map_cons, readRecords] at hr
      rcases List.mem_cons.mp hr with rfl | hr
      · intro hzero
        exact rawToLogical_ne hitem hlast (Ne.symm hne) (BitVec.xor_eq_zero_iff.mp hzero)
      · exact ih (n + 1) hitem hitems hrest r hr

theorem mapped_decodes {s t : Raw} {i : Pass} {limit : Nat} (ht : Formed t)
    (hlimit : limit ≤ 1024) (hlength : ((seen i).take limit).length = limit)
    (h : Published (i.r31 &&& r31PwmInputMask) ((seen i).take limit) s.shared t.shared) :
    ∃ records, rawRecords (mapped t.shared) = .ok records ∧
      Decodes (i.r31 &&& r31PwmInputMask) ((seen i).take limit) records := by
  have hcount : t.shared.eventCount.toNat ≤ 1024 := by
    rw [h.eventCount, hlength]
    exact hlimit
  have hring : (List.range t.shared.eventCount.toNat).map (mapped t.shared).ring =
      ((seen i).take limit).map hostRecord := by
    apply List.ext_getElem
    · simp [h.eventCount]
    · intro k hk hk'
      rw [List.length_map] at hk'
      simp only [List.getElem_map, List.getElem_range, mapped, h.ring k hk']
  have hmasked : ∀ e ∈ (seen i).take limit, e.rawInputs &&& r31PwmInputMask = e.rawInputs :=
    fun e he => changes_masked _ _ e (List.mem_of_mem_take he)
  have hchain := (changes_chain (i.r31 &&& r31PwmInputMask) i.samples).take (limit + 1)
  rw [List.take_succ_cons, ← List.map_take] at hchain
  have hinitial : i.r31 &&& r31PwmInputMask &&& r31PwmInputMask = i.r31 &&& r31PwmInputMask := by
    rw [BitVec.and_assoc, BitVec.and_self]
  have hnonzero := readRecords_nonzero 0 hinitial hmasked hchain
  obtain ⟨hinputs, hindex, hlogical, hchanged⟩ :=
    readRecords_fields 0 (rawToLogical (i.r31 &&& r31PwmInputMask))
      (((seen i).take limit).map hostRecord)
  refine ⟨_, ?_, ⟨hinputs.trans ?_, hindex.trans ?_, fun r hr => ?_, hchanged, hnonzero⟩⟩
  · have hmin : min (mapped t.shared).eventCount rawCapacity = t.shared.eventCount.toNat :=
      Nat.min_eq_left hcount
    rw [rawRecords, mapped_valid ht hcount, hmin]
    change Except.ok (readRecords 0 (rawToLogical t.shared.initialRawInputs)
      ((List.range t.shared.eventCount.toNat).map (mapped t.shared).ring)) = _
    rw [hring, h.initial]
  · rw [List.map_map]
    rfl
  · rw [List.length_map, ← List.range_eq_range']
  · rw [hlogical r hr]
    exact rawToLogical_pins r.rawInputs

end Records

section Captures

/-- In every session: the limit is within the ring; the kernel has written the slots 0, 1, .. and
no other, one for each change seen and at most as many as the limit; it ends exactly when it has
seen so many changes; and then the last of them is published, and the host reads back all of
them. -/
theorem raw_capture_decodes (mem : Shared) (r31 : Word) (history : List Pass) {s : Raw}
    (hs : (Raw.boot mem r31).run history = some s) (hpending : s.startPending = true) (i : Pass) :
    let limit := s.eventLimit.toNat
    let initial := i.r31 &&& r31PwmInputMask
    (1 ≤ limit ∧ limit ≤ 1024) ∧
      writes s.eventLimit i.samples (s.arm i.r31 i.ticks).window =
        List.range (min limit (seen i).length) ∧
      (s.loop i = none ↔ (seen i).length < limit) ∧
      ∀ t, s.loop i = some t →
        ((seen i).take limit).length = limit ∧
          Published initial ((seen i).take limit) s.shared t.shared ∧
          ∃ records, rawRecords (mapped t.shared) = .ok records ∧
            Decodes initial ((seen i).take limit) records := by
  intro limit initial
  have hformed := formed_run (formed_boot mem r31) hs
  have hloop := loop_armed hformed hpending i
  have hwrites := writes_range (armed_window hformed i) i.samples
  have hcount : (s.arm i.r31 i.ticks).window.eventCount.toNat = 0 := rfl
  have hlast : (s.arm i.r31 i.ticks).window.lastInputs = i.r31 &&& r31PwmInputMask := rfl
  rw [hcount, hlast, Nat.sub_zero, ← seen, ← List.range_eq_range'] at hwrites
  refine ⟨hformed.limit, hwrites, ?_, fun t ht => ?_⟩
  · rw [hloop]
    by_cases henough : limit ≤ (seen i).length
    · rw [if_pos henough]
      exact iff_of_false (Option.some_ne_none _) (Nat.not_lt_of_le henough)
    · rw [if_neg henough]
      exact iff_of_true rfl (Nat.lt_of_not_le henough)
  · obtain ⟨henough, hpublished⟩ := loop_published hformed hpending ht
    have hlength : ((seen i).take limit).length = limit := by
      rw [List.length_take, Nat.min_eq_left henough]
    exact ⟨hlength, hpublished,
      mapped_decodes (formed_loop hformed ht) hformed.limit.2 hlength hpublished⟩

def configuredTwo : List Pass :=
  [Pru.RawFreeze.drain 0
    [Pru.RawFreeze.command .rawConfig 2, Pru.RawFreeze.command .rawStart 0]]

def armedTwo : Raw := ((Raw.boot Pru.RawFreeze.blank 0).run configuredTwo).getD (Raw.boot Pru.RawFreeze.blank 0)

/-- UH is high at the start; UL rises, an input outside the mask changes, and both fall. -/
def twoChanges : Pass := ⟨2, 10, [⟨2, 11⟩, ⟨6, 12⟩, ⟨6 ||| 1 <<< 8, 13⟩, ⟨0, 14⟩, ⟨2, 15⟩], []⟩

theorem raw_capture_decodes_two :
    ∃ t, armedTwo.loop twoChanges = some t ∧ t.shared.stopTicks = 14 ∧
      ∃ records, rawRecords (mapped t.shared) = .ok records ∧
        records.map (fun r => (r.timestampTicks, r.rawInputs)) = [(12, 6), (14, 0)] := by
  obtain ⟨-, -, -, hends⟩ :=
    raw_capture_decodes Pru.RawFreeze.blank 0 configuredTwo (s := armedTwo) rfl rfl twoChanges
  obtain ⟨t, ht⟩ : ∃ t, armedTwo.loop twoChanges = some t := ⟨_, rfl⟩
  obtain ⟨-, hpublished, records, hread, hdecodes⟩ := hends t ht
  obtain ⟨r, hlast, hticks, -⟩ := hpublished.last
  refine ⟨t, ht, hticks.trans ?_, records, hread, hdecodes.inputs⟩
  cases hlast
  rfl

end Captures

end HilLab.Backends.RawDecoding
