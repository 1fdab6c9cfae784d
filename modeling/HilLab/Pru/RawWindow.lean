import HilLab.Pru.RawCapture
import Mathlib.Algebra.Group.Nat.Defs
import Mathlib.Data.List.Induction
import Mathlib.Tactic.SplitIfs

namespace HilLab.Pru.RawWindow

open Protocol (Msg sizeofMsg)
open RawCapture

section Kernel

/-- The masked input changes that the samples show, each with the ticks read after it. -/
def changes (last : Word) : List Sample → List EdgeRecord
  | [] => []
  | x :: xs =>
      let rawInputs := x.r31 &&& r31PwmInputMask
      if rawInputs = last then changes last xs else ⟨x.ticks, rawInputs⟩ :: changes rawInputs xs

/-- The slots that the kernel has written once it has read the samples, in order. -/
def writes (eventLimit : Word) : List Sample → Window → List Nat
  | [], _ => []
  | x :: xs, w =>
      let rawInputs := x.r31 &&& r31PwmInputMask
      if rawInputs = w.lastInputs then writes eventLimit xs w
      else
        let next := w.record x.ticks rawInputs
        w.eventCount.toNat :: if eventLimit ≤ next.eventCount then [] else writes eventLimit xs next

/-- The window after the records have been taken. -/
def taken (w : Window) (items : List EdgeRecord) : Window :=
  items.foldl (fun w r => w.record r.timestampTicks r.rawInputs) w

variable {eventLimit : Word} {w : Window} {items : List EdgeRecord}

theorem changes_chain (last : Word) (xs : List Sample) :
    List.IsChain (· ≠ ·) (last :: (changes last xs).map EdgeRecord.rawInputs) := by
  induction xs generalizing last with
  | nil => exact .singleton last
  | cons x xs ih =>
      rw [changes]
      by_cases hsame : x.r31 &&& r31PwmInputMask = last
      · simpa [hsame] using ih last
      · simpa [hsame, Ne.symm hsame] using ih (x.r31 &&& r31PwmInputMask)

theorem changes_masked (last : Word) (xs : List Sample) :
    ∀ r ∈ changes last xs, r.rawInputs &&& r31PwmInputMask = r.rawInputs := by
  induction xs generalizing last with
  | nil => exact fun r hr => absurd hr List.not_mem_nil
  | cons x xs ih =>
      rw [changes]
      intro r hr
      by_cases hsame : x.r31 &&& r31PwmInputMask = last
      · rw [if_pos hsame] at hr
        exact ih last r hr
      · rw [if_neg hsame] at hr
        rcases List.mem_cons.mp hr with rfl | hr
        · simp [BitVec.and_assoc]
        · exact ih _ r hr

theorem record_count (w : Window) (h : w.eventCount < eventLimit) (ticks rawInputs : Word) :
    (w.record ticks rawInputs).eventCount.toNat = w.eventCount.toNat + 1 := by
  have hone : (1 : Word).toNat = 1 := rfl
  have hlt := eventLimit.isLt
  rw [BitVec.lt_def] at h
  change (w.eventCount + 1).toNat = _
  rw [BitVec.toNat_add, hone]
  omega

/-- The kernel takes the first changes up to the limit, and does not end before. -/
theorem captureWindow_changes (h : w.eventCount < eventLimit) (xs : List Sample) :
    captureWindow eventLimit xs w =
      if eventLimit.toNat ≤ w.eventCount.toNat + (changes w.lastInputs xs).length then
        some (taken w ((changes w.lastInputs xs).take (eventLimit.toNat - w.eventCount.toNat)))
      else none := by
  induction xs generalizing w with
  | nil =>
      rw [BitVec.lt_def] at h
      rw [captureWindow, changes, List.length_nil, if_neg (by omega)]
  | cons x xs ih =>
      rw [captureWindow, changes]
      by_cases hsame : x.r31 &&& r31PwmInputMask = w.lastInputs
      · simp only [hsame, if_true]
        exact ih h
      · simp only [hsame, if_false]
        have hcount := record_count w h x.ticks (x.r31 &&& r31PwmInputMask)
        rw [BitVec.lt_def] at h
        have htake : eventLimit.toNat - w.eventCount.toNat =
            eventLimit.toNat - (w.eventCount.toNat + 1) + 1 := by omega
        rw [List.length_cons, htake, List.take_succ_cons]
        by_cases hdone : eventLimit ≤ (w.record x.ticks (x.r31 &&& r31PwmInputMask)).eventCount
        · rw [if_pos hdone]
          rw [BitVec.le_def, hcount] at hdone
          rw [if_pos (by omega), Nat.sub_eq_zero_of_le hdone]
          rfl
        · rw [if_neg hdone, ih (BitVec.not_le.mp hdone), hcount, Nat.add_assoc,
            Nat.add_comm (List.length _)]
          rfl

theorem writes_range (h : w.eventCount < eventLimit) (xs : List Sample) :
    writes eventLimit xs w =
      List.range' w.eventCount.toNat
        (min (eventLimit.toNat - w.eventCount.toNat) (changes w.lastInputs xs).length) := by
  induction xs generalizing w with
  | nil => rw [writes, changes, List.length_nil, Nat.min_zero, List.range'_zero]
  | cons x xs ih =>
      rw [writes, changes]
      by_cases hsame : x.r31 &&& r31PwmInputMask = w.lastInputs
      · simp only [hsame, if_true]
        exact ih h
      · simp only [hsame, if_false]
        have hcount := record_count w h x.ticks (x.r31 &&& r31PwmInputMask)
        rw [BitVec.lt_def] at h
        have hmin (n : Nat) : min (eventLimit.toNat - w.eventCount.toNat) (n + 1) =
            min (eventLimit.toNat - (w.eventCount.toNat + 1)) n + 1 := by omega
        rw [List.length_cons, hmin, List.range'_succ]
        by_cases hdone : eventLimit ≤ (w.record x.ticks (x.r31 &&& r31PwmInputMask)).eventCount
        · rw [if_pos hdone]
          rw [BitVec.le_def, hcount] at hdone
          rw [Nat.sub_eq_zero_of_le hdone, Nat.zero_min, List.range'_zero]
        · rw [if_neg hdone, ih (BitVec.not_le.mp hdone), hcount]
          rfl

theorem taken_concat (w : Window) (items : List EdgeRecord) (r : EdgeRecord) :
    taken w (items ++ [r]) = (taken w items).record r.timestampTicks r.rawInputs := by
  rw [taken, List.foldl_append]
  rfl

theorem taken_count (h : w.eventCount.toNat + items.length < 2 ^ 32) :
    (taken w items).eventCount.toNat = w.eventCount.toNat + items.length := by
  induction items using List.reverseRecOn with
  | nil => rfl
  | append_singleton items r ih =>
      have hone : (1 : Word).toNat = 1 := rfl
      rw [List.length_append, List.length_singleton] at h ⊢
      have hcount := ih (by omega)
      rw [taken_concat]
      change ((taken w items).eventCount + 1).toNat = _
      rw [BitVec.toNat_add, hcount, hone]
      omega

theorem taken_ring (h : w.eventCount.toNat + items.length < 2 ^ 32) :
    (∀ k (hk : k < items.length), (taken w items).ring (w.eventCount.toNat + k) = items[k]) ∧
      ∀ j, w.eventCount.toNat + items.length ≤ j → (taken w items).ring j = w.ring j := by
  induction items using List.reverseRecOn with
  | nil => exact ⟨fun k hk => absurd hk (Nat.not_lt_zero k), fun _ _ => rfl⟩
  | append_singleton items r ih =>
      rw [List.length_append, List.length_singleton] at h
      obtain ⟨hheld, hother⟩ := ih (by omega)
      have hcount : (taken w items).eventCount.toNat = w.eventCount.toNat + items.length :=
        taken_count (by omega)
      have hring : (taken w (items ++ [r])).ring =
          Function.update (taken w items).ring (w.eventCount.toNat + items.length) r := by
        rw [taken_concat, ← hcount]
        rfl
      rw [hring]
      constructor
      · intro k hk
        rw [List.length_append, List.length_singleton] at hk
        rcases Nat.lt_succ_iff_lt_or_eq.mp hk with hlt | rfl
        · rw [Function.update_of_ne (by omega), List.getElem_append_left hlt]
          exact hheld k hlt
        · rw [Function.update_self, List.getElem_append_right (Nat.le_refl _)]
          simp
      · intro j hj
        rw [List.length_append, List.length_singleton] at hj
        rw [Function.update_of_ne (by omega)]
        exact hother j (by omega)

theorem taken_last {r : EdgeRecord} (h : items.getLast? = some r) :
    (taken w items).lastTimestamp = r.timestampTicks ∧ (taken w items).lastInputs = r.rawInputs := by
  obtain ⟨rest, rfl⟩ := List.getLast?_eq_some_iff.mp h
  rw [taken_concat]
  exact ⟨rfl, rfl⟩

end Kernel

section Sessions

/-- What holds in every state between two passes: a limit within the ring, and a header that the
host accepts. -/
structure Formed (s : Raw) : Prop where
  limit : 1 ≤ s.eventLimit.toNat ∧ s.eventLimit.toNat ≤ 1024
  magic : s.shared.magic = hilRawCaptureMagic
  version : s.shared.version = hilRawCaptureVersion
  totalSize : s.shared.totalSize = 4 * 16 + 8 * hilRawCaptureCapacity
  capacity : s.shared.capacity = hilRawCaptureCapacity

variable {s : Raw}

theorem Formed.of_eq {t : Raw} (h : Formed s) (hlimit : t.eventLimit = s.eventLimit)
    (hmagic : t.shared.magic = s.shared.magic) (hversion : t.shared.version = s.shared.version)
    (htotal : t.shared.totalSize = s.shared.totalSize)
    (hcapacity : t.shared.capacity = s.shared.capacity) : Formed t :=
  ⟨hlimit ▸ h.limit, hmagic.trans h.magic, hversion.trans h.version, htotal.trans h.totalSize,
    hcapacity.trans h.capacity⟩

theorem formed_boot (mem : Shared) (r31 : Word) : Formed (Raw.boot mem r31) :=
  ⟨(by decide : 1 ≤ hilRawCaptureCapacity.toNat ∧ hilRawCaptureCapacity.toNat ≤ 1024), rfl, rfl, rfl,
    rfl⟩

theorem formed_rawConfig (h : Formed s) (request : Msg) : Formed (rawConfig request s).1 := by
  rw [rawConfig]
  split_ifs with hbusy harg
  · exact h
  · exact h
  · obtain ⟨hzero, hle⟩ := not_or.mp harg
    have hpos : request.arg0.toNat ≠ 0 := fun hz => hzero (BitVec.eq_of_toNat_eq hz)
    exact ⟨⟨Nat.pos_of_ne_zero hpos, Nat.le_of_not_lt hle⟩, h.magic, h.version, h.totalSize,
      h.capacity⟩

theorem formed_dispatch (h : Formed s) (request : Msg) (rawInputs now : Word) (c : Command) :
    Formed (dispatch request rawInputs now s c).1 := by
  cases c with
  | hello => exact h
  | time => exact h
  | ping => exact h
  | forceSafe =>
      rw [dispatch, forceSafe]
      dsimp only
      split_ifs <;> exact h.of_eq rfl rfl rfl rfl rfl
  | rawConfig => exact formed_rawConfig h request
  | rawClear =>
      rw [dispatch, rawClear]
      split_ifs
      · exact h
      · exact ⟨h.limit, rfl, rfl, rfl, rfl⟩
  | rawStart =>
      rw [dispatch, rawStart]
      split_ifs <;> exact h.of_eq rfl rfl rfl rfl rfl
  | rawStop =>
      rw [dispatch, rawStop]
      dsimp only
      split_ifs <;> exact h.of_eq rfl rfl rfl rfl rfl
  | rawStatus => exact h.of_eq rfl rfl rfl rfl rfl

theorem serve_eq (rawInputs : Word) (r : Received) :
    s.serve rawInputs r = (handle r.request rawInputs r.now s r.len).1 := by
  change (if r.len ≠ sizeofMsg then ((handle r.request rawInputs r.now s r.len).1, _)
    else ((handle r.request rawInputs r.now s r.len).1, _)).1 = _
  split_ifs <;> rfl

theorem formed_serve (h : Formed s) (rawInputs : Word) (r : Received) :
    Formed (s.serve rawInputs r) := by
  rw [serve_eq, handle]
  cases accept r.request r.len with
  | error flags => exact h
  | ok c => exact formed_dispatch h r.request rawInputs r.now c

theorem formed_drain (h : Formed s) (rawInputs : Word) (rs : List Received) :
    Formed (rs.foldl (fun s r => s.serve rawInputs r) s) := by
  induction rs generalizing s with
  | nil => exact h
  | cons r rs ih => exact ih (formed_serve h rawInputs r)

theorem formed_loop (h : Formed s) {i : Pass} {t : Raw} (ht : s.loop i = some t) : Formed t := by
  rw [Raw.loop] at ht
  split_ifs at ht with hpending hint
  · obtain ⟨w, -, rfl⟩ := Option.map_eq_some_iff.mp ht
    exact h.of_eq rfl rfl rfl rfl rfl
  · cases ht
    exact formed_drain h _ _
  · cases ht
    exact h

theorem formed_run (h : Formed s) {is : List Pass} {t : Raw} (ht : s.run is = some t) :
    Formed t := by
  induction is generalizing s with
  | nil =>
      cases ht
      exact h
  | cons i is ih =>
      obtain ⟨u, hu, ht⟩ := Option.bind_eq_some_iff.mp ht
      exact ih (formed_loop h hu) ht

def seen (i : Pass) : List EdgeRecord := changes (i.r31 &&& r31PwmInputMask) i.samples

theorem armed_window (h : Formed s) (i : Pass) :
    (s.arm i.r31 i.ticks).window.eventCount < s.eventLimit := by
  rw [BitVec.lt_def]
  exact h.limit.1

theorem loop_armed (h : Formed s) (hpending : s.startPending = true) (i : Pass) :
    s.loop i =
      if s.eventLimit.toNat ≤ (seen i).length then
        some ((s.arm i.r31 i.ticks).captured
          (taken (s.arm i.r31 i.ticks).window ((seen i).take s.eventLimit.toNat)))
      else none := by
  have hwindow := captureWindow_changes (armed_window h i) i.samples
  have hcount : (s.arm i.r31 i.ticks).window.eventCount.toNat = 0 := rfl
  have hlimit : (s.arm i.r31 i.ticks).eventLimit = s.eventLimit := rfl
  have hlast : (s.arm i.r31 i.ticks).window.lastInputs = i.r31 &&& r31PwmInputMask := rfl
  rw [hcount, hlast, Nat.zero_add, Nat.sub_zero, ← seen] at hwindow
  rw [Raw.loop, if_pos hpending]
  dsimp only
  rw [hlimit, hwindow]
  split_ifs <;> rfl

/-- What a capture of the records leaves in the shared structure. -/
structure Published (initial : Word) (items : List EdgeRecord) (before after : Shared) : Prop where
  running : after.running = 0
  stopReason : after.stopReason = stopEventLimit
  eventCount : after.eventCount.toNat = items.length
  initial : after.initialRawInputs = initial
  last : ∃ r, items.getLast? = some r ∧ after.stopTicks = r.timestampTicks ∧
    after.finalRawInputs = r.rawInputs
  ring : ∀ k (hk : k < items.length), after.ring k = items[k]
  others : ∀ j, items.length ≤ j → after.ring j = before.ring j

theorem loop_published (h : Formed s) (hpending : s.startPending = true) {i : Pass} {t : Raw}
    (ht : s.loop i = some t) :
    s.eventLimit.toNat ≤ (seen i).length ∧
      Published (i.r31 &&& r31PwmInputMask) ((seen i).take s.eventLimit.toNat) s.shared t.shared := by
  obtain ⟨hpos, hle⟩ := h.limit
  rw [loop_armed h hpending] at ht
  split_ifs at ht with henough
  cases ht
  have hlength : ((seen i).take s.eventLimit.toNat).length = s.eventLimit.toNat := by
    rw [List.length_take, Nat.min_eq_left henough]
  generalize (seen i).take s.eventLimit.toNat = items at *
  have hcount : (s.arm i.r31 i.ticks).window.eventCount.toNat = 0 := rfl
  have hbound : (s.arm i.r31 i.ticks).window.eventCount.toNat + items.length < 2 ^ 32 := by
    rw [hcount, hlength]
    omega
  have hnonempty : items ≠ [] := by
    rintro rfl
    rw [List.length_nil] at hlength
    omega
  have hlast := List.getLast?_eq_some_getLast hnonempty
  have htaken := taken_count hbound
  obtain ⟨hring, hothers⟩ := taken_ring hbound
  obtain ⟨hticks, hinputs⟩ := taken_last (w := (s.arm i.r31 i.ticks).window) hlast
  rw [hcount] at htaken hring hothers
  rw [Nat.zero_add] at htaken hothers
  refine ⟨henough, ⟨rfl, rfl, htaken, rfl, ⟨_, hlast, hticks, hinputs⟩, fun k hk => ?_, hothers⟩⟩
  have hslot := hring k hk
  rw [Nat.zero_add] at hslot
  exact hslot

theorem Published.final {initial : Word} {items : List EdgeRecord} {before after : Shared}
    (h : Published initial items before after) :
    after.finalRawInputs = (after.ring (after.eventCount.toNat - 1)).rawInputs := by
  obtain ⟨r, hlast, -, hfinal⟩ := h.last
  rw [List.getLast?_eq_getElem?, List.getElem?_eq_some_iff] at hlast
  obtain ⟨hlt, hr⟩ := hlast
  rw [h.eventCount, h.ring _ hlt, hr, hfinal]

end Sessions

end HilLab.Pru.RawWindow
