import HilLab.Host.PwmShared
import HilLab.Pru.PwmEdgeLog

namespace HilLab.Host.PwmSnapshot

open Lib.CodeView Lib.RingLog Lib.Seqlock Lib.StoreTrace Pru.PwmCaptureCore Pru.PwmEdgeLog
open Pru.PwmSeqlock PwmShared

section Copies

variable {view : View} {i : Nat} {blob : Shared}

theorem copyWords_outside {addr count a : Nat} (h : ¬ (addr ≤ a ∧ a < addr + count)) :
    copyWords view i addr count blob a = blob a := if_neg h

theorem copyWords_inside {addr count a : Nat} (h : addr ≤ a ∧ a < addr + count) :
    copyWords view i addr count blob a = view (i + (a - addr)) a := if_pos h

theorem copyWords_record {start count k field : Nat} (hk : k < count) (hfield : field < 4) :
    copyWords view i (ringWord start 0) (4 * count) blob (ringWord (start + k) field) =
      view (i + (4 * k + field)) (ringWord (start + k) field) := by
  have hin : ringWord start 0 ≤ ringWord (start + k) field ∧
      ringWord (start + k) field < ringWord start 0 + 4 * count := by
    rw [ringWord, ringWord]
    omega
  have hload : ringWord (start + k) field - ringWord start 0 = 4 * k + field := by
    rw [ringWord, ringWord]
    omega
  rw [copyWords_inside hin, hload]

/-- A copied window leaves the prefix alone, and loads each of its words once. -/
structure Copied (view : View) (i : Nat) (blob : Shared) (start count : Nat) (out : Shared × Nat) :
    Prop where
  later : i ≤ out.2
  summary : ∀ a, a < summaryWords → out.1 a = blob a
  records : ∀ k field, k < count → field < 4 → ∃ n, i ≤ n ∧ n < out.2 ∧
    out.1 (ringWord ((start + k) % ringCapacity) field) =
      view n (ringWord ((start + k) % ringCapacity) field)

theorem copyRingWindow_copied {start count : Nat} (hstart : start < ringCapacity)
    (hpos : count ≠ 0) (hcount : count ≤ ringCapacity) :
    Copied view i blob start count (copyRingWindow view i blob start count) := by
  have hcap : ringCapacity = 128 := rfl
  rw [copyRingWindow, if_neg hpos]
  dsimp only
  by_cases hone : count - min count (ringCapacity - start) = 0
  · rw [if_pos hone]
    refine ⟨Nat.le_add_right _ _, fun a ha => ?_, fun k field hk hfield => ?_⟩
    · refine copyWords_outside ?_
      rw [ringWord]
      omega
    · have hslot : (start + k) % ringCapacity = start + k := Nat.mod_eq_of_lt (by omega)
      refine ⟨i + (4 * k + field), Nat.le_add_right _ _, ?_, ?_⟩
      · change i + (4 * k + field) < i + 4 * min count (ringCapacity - start)
        omega
      · rw [hslot]
        exact copyWords_record (by omega) hfield
  · rw [if_neg hone]
    have hfirst : min count (ringCapacity - start) = ringCapacity - start := by omega
    rw [hfirst]
    refine ⟨?_, fun a ha => ?_, fun k field hk hfield => ?_⟩
    · rw [Nat.add_assoc]
      exact Nat.le_add_right _ _
    · refine (copyWords_outside (by omega)).trans (copyWords_outside ?_)
      rw [ringWord]
      omega
    · by_cases hk' : k < ringCapacity - start
      · have hslot : (start + k) % ringCapacity = start + k := Nat.mod_eq_of_lt (by omega)
        have hout : ¬ (summaryWords ≤ ringWord (start + k) field ∧ ringWord (start + k) field <
            summaryWords + 4 * (count - (ringCapacity - start))) := by
          rw [ringWord]
          omega
        refine ⟨i + (4 * k + field), Nat.le_add_right _ _, ?_, ?_⟩
        · change i + (4 * k + field) <
            i + 4 * (ringCapacity - start) + 4 * (count - (ringCapacity - start))
          omega
        · rw [hslot]
          exact (copyWords_outside hout).trans (copyWords_record hk' hfield)
      · -- the window has wrapped: its rest is copied from the first slot on
        obtain ⟨r, rfl⟩ := Nat.exists_eq_add_of_le (Nat.le_of_not_lt hk')
        have hslot : (start + (ringCapacity - start + r)) % ringCapacity = 0 + r := by
          have hround : start + (ringCapacity - start + r) = r + ringCapacity := by omega
          rw [hround, Nat.add_mod_right, Nat.zero_add]
          exact Nat.mod_eq_of_lt (by omega)
        refine ⟨i + 4 * (ringCapacity - start) + (4 * r + field), by omega, ?_, ?_⟩
        · change i + 4 * (ringCapacity - start) + (4 * r + field) <
            i + 4 * (ringCapacity - start) + 4 * (count - (ringCapacity - start))
          omega
        · have hr : r < count - (ringCapacity - start) := by omega
          have hfirstWord : ringWord 0 0 = summaryWords := rfl
          rw [hslot, ← hfirstWord]
          exact copyWords_record hr hfield

end Copies

theorem emitCount_le (s : Shared) (ringLimit : Nat) : emitCount s ringLimit ≤ ringCapacity := by
  rw [emitCount]
  omega

theorem startSlot_lt (s : Shared) (emit : Nat) : startSlot s emit < ringCapacity := by
  rw [startSlot, ringCapacity]
  omega

section Passes

variable {view : View} {ringLimit i j : Nat} {summary snapshot : Shared}

def copied (view : View) (ringLimit i : Nat) (summary : Shared) : Shared × Nat :=
  copyRingWindow view i summary (startSlot summary (emitCount summary ringLimit))
    (emitCount summary ringLimit)

theorem copied_spec (view : View) (i : Nat) (h : emitCount summary ringLimit ≠ 0) :
    Copied view i summary (startSlot summary (emitCount summary ringLimit))
      (emitCount summary ringLimit) (copied view ringLimit i summary) :=
  copyRingWindow_copied (startSlot_lt _ _) h (emitCount_le _ _)

theorem window_ok (h : window view ringLimit i summary = (.done (.ok snapshot), j)) :
    emitCount summary ringLimit = 0 ∧ snapshot = summary ∧ j = i ∨
      emitCount summary ringLimit ≠ 0 ∧ snapshot = (copied view ringLimit i summary).1 ∧
        j = (copied view ringLimit i summary).2 + 1 ∧
        (view (copied view ringLimit i summary).2 eventSeq - summary eventSeq).toNat ≤
          ringCapacity - emitCount summary ringLimit := by
  rw [window] at h
  cases hvalid : validateSnapshot summary with
  | error e =>
      rw [hvalid] at h
      cases h
  | ok =>
      rw [hvalid] at h
      dsimp only at h
      by_cases hemit : emitCount summary ringLimit = 0
      · rw [if_pos hemit] at h
        cases h
        exact .inl ⟨hemit, rfl, rfl⟩
      · rw [if_neg hemit] at h
        split at h
        · cases h
        · split at h
          · cases h
          · next hadvanced =>
              cases hagain : validateSnapshot (copied view ringLimit i summary).1 with
              | error e =>
                  rw [copied] at hagain
                  rw [hagain] at h
                  cases h
              | ok =>
                  rw [copied] at hagain
                  rw [hagain] at h
                  cases h
                  exact .inr ⟨hemit, rfl, rfl, Nat.le_of_not_lt hadvanced⟩

theorem window_later (h : window view ringLimit i summary = (.done (.ok snapshot), j)) : i ≤ j := by
  rcases window_ok h with ⟨-, -, rfl⟩ | ⟨hpos, -, rfl, -⟩
  · exact Nat.le_refl j
  · exact Nat.le_succ_of_le (copied_spec view i hpos).later

def copiedPrefix (view : View) (i : Nat) : Shared :=
  copyWords view (i + 1) 0 summaryWords (fun _ => 0)

theorem attempt_ok (h : attempt view ringLimit i = (.done (.ok snapshot), j)) :
    odd (view i seqLock) = false ∧ view (i + 93) seqLock = view i seqLock ∧
      window view ringLimit (i + 94) (copiedPrefix view i) = (.done (.ok snapshot), j) := by
  rw [attempt] at h
  dsimp only at h
  split at h
  · cases h
  · next heven =>
      split at h
      · cases h
      · next hsame =>
          rw [not_or, not_or] at hsame
          exact ⟨Bool.not_eq_true _ ▸ heven, (of_not_not hsame.2.1).symm, h⟩

theorem attempts_ok {n : Nat} (h : attempts view ringLimit n i = (.ok snapshot, j)) :
    ∃ i', attempt view ringLimit i' = (.done (.ok snapshot), j) := by
  induction n generalizing i with
  | zero => cases h
  | succ n ih =>
      rw [attempts] at h
      cases hattempt : attempt view ringLimit i with
      | mk outcome next =>
          rw [hattempt] at h
          cases outcome with
          | retry => exact ih h
          | done result =>
              cases h
              exact ⟨i, hattempt⟩

theorem read_ok {retries limit : Int}
    (h : readConsistentSnapshotFromBuffer view retries limit = (.ok snapshot, j)) :
    ∃ i', attempt view limit.toNat i' = (.done (.ok snapshot), j) := by
  rw [readConsistentSnapshotFromBuffer] at h
  split at h
  · cases h
  · split at h
    · cases h
    · exact attempts_ok h

end Passes

section Prefix

variable {m : Memory 32} {ops : List Op} {instant : Nat → Nat} {i : Nat}

/-- Two reads of the same even lock: the writer is between two calls, and the
memory is the same all along. -/
theorem prefix_stable (hclear : ∀ inputs, Op.clear inputs ∉ ops) (hm : odd (m seqLock) = false)
    (hmono : Monotone instant)
    (heven : odd (viewAt m (calls ops m) instant i seqLock) = false)
    (hsame : viewAt m (calls ops m) instant (i + 93) seqLock =
      viewAt m (calls ops m) instant i seqLock)
    (hcopy : lockStores seqLock (stretch (calls ops m) (instant i) (instant (i + 93))) < 2 ^ 32) :
    ∃ k, k ≤ ops.length ∧ viewAt m (calls ops m) instant i = after (calls (ops.take k)) m ∧
      (calls ops m).drop (instant i) =
        calls (ops.drop k) (viewAt m (calls ops m) instant i) ∧
      ∀ n, i ≤ n → n ≤ i + 93 →
        viewAt m (calls ops m) instant n = viewAt m (calls ops m) instant i := by
  have hle : instant i ≤ instant (i + 93) := hmono (Nat.le_add_right i 93)
  have hsplit := List.take_append_drop (instant i) (calls ops m)
  obtain ⟨k, hk, htake, hdrop⟩ := calls_boundary hclear hm hsplit.symm heven
  have hnil : stretch (calls ops m) (instant i) (instant (i + 93)) = [] := by
    have hcalls := (calls_publish hclear m hm).1
    have hwhole := List.take_append_drop (instant (i + 93)) (calls ops m)
    rw [← hwhole, ← take_stretch _ hle] at hcalls
    refine stretch_nil hcalls ?_ heven hcopy
    rw [take_stretch _ hle]
    exact hsame
  refine ⟨k, hk, congrArg (run m) htake, hdrop, fun n hin hn => ?_⟩
  exact congrArg (run m) (take_of_stretch_nil hnil hle (hmono hin) (hmono hn))

theorem copiedPrefix_eq {view : View} {M : Memory 32}
    (h : ∀ n, i ≤ n → n ≤ i + 93 → view n = M) {addr : Nat} (haddr : addr < summaryWords) :
    copiedPrefix view i addr = M addr := by
  rw [summaryWords] at haddr
  have hload := h (i + 1 + (addr - 0)) (by omega) (by omega)
  rw [copiedPrefix, copyWords_inside (by rw [summaryWords]; omega), hload]

end Prefix

section Window

variable {M : Memory 32} {log : List EdgeRecord} {t : Stores 32} {rest : List Op} {p q emit : Nat}

theorem stretch_ticketed (hlog : Logged M log) (hclear : ∀ inputs, Op.clear inputs ∉ rest)
    (hrest : t.drop p = calls rest M) (hpq : p ≤ q) :
    Ticketed eventSeq (Slots log.length) (BitVec.ofNat 32 log.length) 0 (stretch t p q) := by
  have hticketed := calls_ticketed hlog (Nat.add_zero log.length).symm hclear
  rw [← hrest, ← stretch_drop t hpq] at hticketed
  exact (ticketed_append.mp hticketed).1

theorem advanced_eq
    (h : Ticketed eventSeq (Slots log.length) (BitVec.ofNat 32 log.length) 0 (stretch t p q))
    (hlog : Logged M log) (hevents : lockStores eventSeq (stretch t p q) < 2 ^ 32) :
    (run M (stretch t p q) eventSeq - M eventSeq).toNat =
      lockStores eventSeq (stretch t p q) := by
  have hzero : M eventSeq = BitVec.ofNat 32 log.length + BitVec.ofNat 32 0 := by
    rw [hlog.events]
    exact (BitVec.add_zero _).symm
  rw [h.run_ticket hzero, hlog.events, Nat.zero_add, BitVec.add_comm, BitVec.add_sub_cancel,
    BitVec.toNat_ofNat]
  exact Nat.mod_eq_of_lt hevents

theorem record_kept
    (h : Ticketed eventSeq (Slots log.length) (BitVec.ofNat 32 log.length) 0 (stretch t p q))
    (hcapacity : emit ≤ ringCapacity) (hemit : emit ≤ log.length)
    (hevents : lockStores eventSeq (stretch t p q) ≤ ringCapacity - emit) {k field : Nat}
    (hk : k < emit) (hfield : field < 4) :
    run M (stretch t p q) (ringWord ((log.length - emit + k) % ringCapacity) field) =
      M (ringWord ((log.length - emit + k) % ringCapacity) field) := by
  refine run_untouched (fun s hs heq => ?_) M
  rcases h.owned (slots_succ log.length) s hs with hevent | hbelow | ⟨r, field', hr, hf, haddr⟩
  · rw [heq, eventSeq, ringWord, summaryWords] at hevent
    omega
  · rw [heq, ringWord] at hbelow
    omega
  · rw [heq] at haddr
    rw [Nat.zero_add] at hr
    have hslot := (ringWord_eq_iff hfield hf).mp haddr
    refine slot_ne ?_ ?_ hslot.1
    · omega
    · omega

theorem startSlot_eq {s : Shared} (hhead : (s ringHead).toNat = log.length % ringCapacity)
    (hemit : emit ≤ log.length) : startSlot s emit = (log.length - emit) % ringCapacity := by
  rw [startSlot, hhead, ringCapacity]
  omega

/-- A snapshot that agrees with a memory on the prefix and on the window gives
the end of that memory's log. -/
theorem recentEdges_eq {s : Shared} {ringLimit : Int} (hlog : Logged M log)
    (hsummary : ∀ addr, addr < summaryWords → s addr = M addr)
    (hrecords : ∀ k field, k < emitCount s ringLimit.toNat → field < 4 →
      s (ringWord ((log.length - emitCount s ringLimit.toNat + k) % ringCapacity) field) =
        M (ringWord ((log.length - emitCount s ringLimit.toNat + k) % ringCapacity) field)) :
    recentEdges s ringLimit = log.drop (log.length - min ringLimit.toNat (M ringCount).toNat) := by
  have hcount := hlog.count
  have hhead : (s ringHead).toNat = log.length % ringCapacity := by
    rw [hsummary _ (by decide), hlog.head]
  have hemit : emitCount s ringLimit.toNat = min ringLimit.toNat (M ringCount).toNat := by
    rw [emitCount, hsummary _ (by decide)]
    omega
  have hle : emitCount s ringLimit.toNat ≤ log.length := by omega
  have hcapacity : emitCount s ringLimit.toNat ≤ ringCapacity := by omega
  have hwindow := hlog.records.window hle hcapacity
  rw [← hemit, ← hwindow, recentEdges]
  refine List.map_congr_left (fun k hk => ?_)
  have hword := fun field => hrecords k field (List.mem_range.mp hk)
  rw [startSlot_eq hhead hle, Nat.mod_add_mod]
  simp only [recordAt]
  rw [hword 0 (by decide), hword 1 (by decide), hword 2 (by decide), hword 3 (by decide)]

end Window

/-- The window of a pass whose event test holds: no slot of it was taken meanwhile. -/
theorem copied_exact {m : Memory 32} {t : Stores 32} {instant : Nat → Nat} (hmono : Monotone instant)
    {i j : Nat} {log : List EdgeRecord} (hlog : Logged (viewAt m t instant i) log) {rest : List Op}
    (hclear : ∀ inputs, Op.clear inputs ∉ rest)
    (hrest : t.drop (instant i) = calls rest (viewAt m t instant i)) (hij : i ≤ j)
    {summary : Shared}
    (hsummary : ∀ addr, addr < summaryWords → summary addr = viewAt m t instant i addr)
    {ringLimit : Int} (hpos : emitCount summary ringLimit.toNat ≠ 0)
    (hevents : lockStores eventSeq (stretch t (instant i)
      (instant (copied (viewAt m t instant) ringLimit.toNat j summary).2)) < 2 ^ 32)
    (hadvanced : (viewAt m t instant (copied (viewAt m t instant) ringLimit.toNat j summary).2
      eventSeq - summary eventSeq).toNat ≤ ringCapacity - emitCount summary ringLimit.toNat) :
    recentEdges (copied (viewAt m t instant) ringLimit.toNat j summary).1 ringLimit =
      log.drop (log.length - min ringLimit.toNat (viewAt m t instant i ringCount).toNat) := by
  have hcopied := copied_spec (viewAt m t instant) j hpos
  generalize copied (viewAt m t instant) ringLimit.toNat j summary = out at *
  have hticketed {n : Nat} (hn : i ≤ n) := stretch_ticketed hlog hclear hrest (hmono hn)
  have hlater {n : Nat} (hn : i ≤ n) := viewAt_later m t (hmono hn)
  have hout : i ≤ out.2 := Nat.le_trans hij hcopied.later
  have hcount : lockStores eventSeq (stretch t (instant i) (instant out.2)) ≤
      ringCapacity - emitCount summary ringLimit.toNat := by
    rw [hlater hout, hsummary _ (by decide), advanced_eq (hticketed hout) hlog hevents] at hadvanced
    exact hadvanced
  have hhead : (summary ringHead).toNat = log.length % ringCapacity := by
    rw [hsummary _ (by decide), hlog.head]
  have hemit : emitCount summary ringLimit.toNat ≤ log.length := by
    have hring := hlog.count
    rw [emitCount, hsummary _ (by decide)]
    omega
  have hsame : emitCount out.1 ringLimit.toNat = emitCount summary ringLimit.toNat := by
    rw [emitCount, emitCount, hcopied.summary _ (by decide)]
  refine recentEdges_eq hlog
    (fun addr haddr => (hcopied.summary addr haddr).trans (hsummary addr haddr)) ?_
  rw [hsame]
  intro k field hk hfield
  obtain ⟨n, hjn, hn, hword⟩ := hcopied.records k field hk hfield
  rw [startSlot_eq hhead hemit, Nat.mod_add_mod] at hword
  have hin := Nat.le_trans hij hjn
  have hfewer := Nat.le_trans (lockStores_stretch_le eventSeq t (Nat.le_refl (instant i)) (hmono hin)
    (hmono (Nat.le_of_lt hn))) hcount
  rw [hword, hlater hin]
  exact record_kept (hticketed hin) (emitCount_le _ _) hemit hfewer hk hfield

section Runs

variable {m : Memory 32} {hz minDeadtime : Word} {ops : List Op} {instant : Nat → Nat}

/-- The prefix is that of the memory between two calls, as some load finds it,
and the recent edges are the end of its log. -/
def Exact (m : Memory 32) (ops : List Op) (view : View) (loads : Nat) (ringLimit : Int)
    (snapshot : Shared) : Prop :=
  ∃ k, k ≤ ops.length ∧ (∃ i, i < loads ∧ view i = after (calls (ops.take k)) m) ∧
    (∀ addr, addr < summaryWords → snapshot addr = after (calls (ops.take k)) m addr) ∧
    recentEdges snapshot ringLimit =
      (history (ops.take k) m).drop ((history (ops.take k) m).length -
        min ringLimit.toNat (after (calls (ops.take k)) m ringCount).toNat)

/-- A snapshot is exact whatever the writer does meanwhile, as long as neither
the event counter nor, during one copy of the prefix, the lock goes round. -/
theorem snapshot_exact (hclear : ∀ inputs, Op.clear inputs ∉ ops) (hmono : Monotone instant)
    {retries ringLimit : Int} {snapshot : Shared} {loads : Nat}
    (hread : readConsistentSnapshotFromBuffer
      (viewAt (initialised m hz minDeadtime) (calls ops (initialised m hz minDeadtime)) instant)
      retries ringLimit = (.ok snapshot, loads))
    (hevents : lockStores eventSeq (stretch (calls ops (initialised m hz minDeadtime))
      (instant 0) (instant (loads - 1))) < 2 ^ 32)
    (hcopies : ∀ i, i + 93 < loads → lockStores seqLock
      (stretch (calls ops (initialised m hz minDeadtime)) (instant i) (instant (i + 93))) < 2 ^ 32) :
    Exact (initialised m hz minDeadtime) ops
      (viewAt (initialised m hz minDeadtime) (calls ops (initialised m hz minDeadtime)) instant)
      loads ringLimit snapshot := by
  have hzero : odd (initialised m hz minDeadtime seqLock) = false := by
    rw [initialised_seqLock]
    rfl
  have hinit := logged_initialised m hz minDeadtime
  generalize initialised m hz minDeadtime = m₀ at *
  obtain ⟨i, hattempt⟩ := read_ok hread
  obtain ⟨heven, hsame, hwindow⟩ := attempt_ok hattempt
  have hlater : i + 93 < loads := window_later hwindow
  obtain ⟨k, hk, hM, hrest, hstable⟩ := prefix_stable hclear hzero hmono heven hsame (hcopies i hlater)
  have hlog : Logged (viewAt m₀ (calls ops m₀) instant i) ([] ++ history (ops.take k) m₀) := by
    rw [hM]
    exact calls_logged hinit (fun inputs hmem => hclear inputs (List.mem_of_mem_take hmem))
  rw [List.nil_append] at hlog
  have hsummary : ∀ addr, addr < summaryWords →
      copiedPrefix (viewAt m₀ (calls ops m₀) instant) i addr =
        viewAt m₀ (calls ops m₀) instant i addr := fun _ haddr => copiedPrefix_eq hstable haddr
  refine ⟨k, hk, ⟨i, by omega, hM⟩, ?_⟩
  rw [← hM]
  rcases window_ok hwindow with ⟨hnone, rfl, -⟩ | ⟨hpos, rfl, rfl, hadvanced⟩
  · refine ⟨hsummary, recentEdges_eq hlog hsummary (fun x field hx _ => ?_)⟩
    rw [hnone] at hx
    exact absurd hx (Nat.not_lt_zero x)
  · have hcopied := copied_spec (viewAt m₀ (calls ops m₀) instant) (i + 94) hpos
    have hevents' := Nat.lt_of_le_of_lt
      (lockStores_stretch_le eventSeq (calls ops m₀) (hmono (Nat.zero_le i))
        (hmono (Nat.le_trans (Nat.le_add_right i 94) hcopied.later))
        (Nat.le_refl (instant (copied _ ringLimit.toNat (i + 94) _).2))) hevents
    refine ⟨fun addr haddr => (hcopied.summary addr haddr).trans (hsummary addr haddr), ?_⟩
    exact copied_exact hmono hlog (fun inputs hmem => hclear inputs (List.mem_of_mem_drop hmem))
      hrest (Nat.le_add_right i 94) hsummary hpos hevents' hadvanced

end Runs

section Process

def fresh : Memory 32 := initialised (fun _ => 0) 200000000 0

def liveOps : List Op := [.start 0 0, .process 5 1, .process 9 0]

def liveInstant (n : Nat) : Nat := if n = 0 then 1 else 24 + (n - 94)

theorem live_read : ∃ snapshot, readConsistentSnapshotFromBuffer
    (viewAt fresh (calls liveOps fresh) liveInstant) 2 16 = (.ok snapshot, 100) := by
  have hloads : (readConsistentSnapshotFromBuffer
      (viewAt fresh (calls liveOps fresh) liveInstant) 2 16).2 = 100 := by decide +kernel
  have hok : (readConsistentSnapshotFromBuffer
      (viewAt fresh (calls liveOps fresh) liveInstant) 2 16).1.isOk = true := by
    decide +kernel
  cases hread : readConsistentSnapshotFromBuffer
      (viewAt fresh (calls liveOps fresh) liveInstant) 2 16 with
  | mk result loads =>
      rw [hread] at hloads hok
      cases result with
      | error e => cases hok
      | ok snapshot => exact ⟨snapshot, Prod.ext rfl hloads⟩

theorem snapshot_exact_live :
    ∃ snapshot, readConsistentSnapshotFromBuffer
        (viewAt fresh (calls liveOps fresh) liveInstant) 2 16 = (.ok snapshot, 100) ∧
      Exact fresh liveOps (viewAt fresh (calls liveOps fresh) liveInstant) 100 16
        snapshot := by
  obtain ⟨snapshot, hread⟩ := live_read
  have hshort : (calls liveOps fresh).length < 2 ^ 32 := by decide +kernel
  have hmono : Monotone liveInstant := by
    intro a b hab
    rw [liveInstant, liveInstant]
    split <;> split <;> omega
  have hfew (addr i j : Nat) : lockStores addr (stretch (calls liveOps fresh) i j) < 2 ^ 32 :=
    Nat.lt_of_le_of_lt
      (Nat.le_trans (lockStores_stretch_all addr _ i j) List.countP_le_length) hshort
  refine ⟨snapshot, hread, snapshot_exact (fun inputs hmem => ?_) hmono hread (hfew _ _ _)
    (fun i _ => hfew _ _ _)⟩
  simp [liveOps] at hmem

end Process

section Wrap

variable {m : Memory 32} {n : Nat}

theorem stop_after (hm : m running = 0) :
    after stop m = Function.update m seqLock (m seqLock + 2) := by
  have hbody : Avoids seqLock (set running 0) := avoids_set (by decide) _
  have htwo : m seqLock + 1 + 1 = m seqLock + 2 := by rw [BitVec.add_assoc]; rfl
  have hstop : after stop m = Function.update (Function.update
      (Function.update m seqLock (m seqLock + 1)) running 0) seqLock (m seqLock + 1 + 1) :=
    congrArg (run m) (update_eq hbody m)
  rw [hstop, htwo]
  funext addr
  by_cases hlock : addr = seqLock
  · rw [hlock, Function.update_self, Function.update_self]
  · rw [Function.update_of_ne hlock, Function.update_of_ne hlock]
    by_cases hrun : addr = running
    · rw [hrun, Function.update_self, hm]
    · rw [Function.update_of_ne hrun, Function.update_of_ne hlock]

theorem stops_after (hm : m running = 0) (n : Nat) :
    after (calls (List.replicate n .stop)) m =
      Function.update m seqLock (m seqLock + BitVec.ofNat 32 (2 * n)) := by
  induction n generalizing m with
  | zero =>
      rw [Nat.mul_zero, BitVec.add_zero, Function.update_eq_self]
      rfl
  | succ n ih =>
      have hkept : Function.update m seqLock (m seqLock + 2) running = 0 := hm
      rw [List.replicate_succ, after_calls_cons]
      change after (calls (List.replicate n .stop)) (after stop m) = _
      rw [stop_after hm, ih hkept, Function.update_self, Function.update_idem, BitVec.add_assoc,
        Nat.mul_succ, Nat.add_comm, BitVec.ofNat_add]
      rfl

theorem calls_append (ops ops' : List Op) (m : Memory 32) :
    calls (ops ++ ops') m = calls ops m ++ calls ops' (after (calls ops) m) := by
  rw [calls, List.map_append]
  exact seq_append _ _ m

def wrapOps (n : Nat) : List Op := List.replicate n .stop ++ [.start 0 1]

/-- The first nine words of the prefix are read before all calls, the others after them. -/
def wrapInstant (n k : Nat) : Nat := if k < 10 then 0 else (calls (wrapOps n) fresh).length

def tornView : View := fun k =>
  if k < 10 then fresh else after (start 0 1) (Function.update fresh seqLock 0xFFFFFFFE)

theorem fresh_running : fresh running = 0 := initialised_zero (by decide) (by decide) _ _ _

theorem calls_start (ticks inputs : Word) (m : Memory 32) :
    after (calls [.start ticks inputs]) m = after (start ticks inputs) m := after_cons _ [] m

theorem start_running (ticks inputs : Word) (m : Memory 32) :
    after (start ticks inputs) m running = 1 := rfl

theorem wrapOps_after (n : Nat) :
    after (calls (wrapOps n)) fresh =
      after (start 0 1) (Function.update fresh seqLock (BitVec.ofNat 32 (2 * n))) := by
  have hlock : fresh seqLock + BitVec.ofNat 32 (2 * n) = BitVec.ofNat 32 (2 * n) := by
    rw [fresh, initialised_seqLock]
    exact BitVec.zero_add _
  rw [after, wrapOps, calls_append, run_append]
  change after (calls [.start 0 1]) (after (calls (List.replicate n .stop)) fresh) = _
  rw [stops_after fresh_running, hlock, calls_start]

theorem wrap_view (hn : BitVec.ofNat 32 (2 * n) = 0xFFFFFFFE) :
    viewAt fresh (calls (wrapOps n) fresh) (wrapInstant n) = tornView := by
  funext k
  rw [viewAt, wrapInstant, tornView]
  by_cases hk : k < 10
  · have hnil (m : Memory 32) : run m [] = m := rfl
    rw [if_pos hk, if_pos hk, List.take_zero, hnil]
  · rw [if_neg hk, if_neg hk, List.take_length, ← hn]
    exact wrapOps_after n

theorem torn_read : ∃ snapshot, readConsistentSnapshotFromBuffer tornView 1 1 = (.ok snapshot, 94) ∧
    snapshot running = 0 ∧ snapshot inputBits = 1 := by
  have hloads : (readConsistentSnapshotFromBuffer tornView 1 1).2 = 94 := by decide +kernel
  have hwords : (readConsistentSnapshotFromBuffer tornView 1 1).1.toOption.map
      (fun s => (s running, s inputBits)) = some (0, 1) := by decide +kernel
  cases hread : readConsistentSnapshotFromBuffer tornView 1 1 with
  | mk result loads =>
      rw [hread] at hloads hwords
      cases result with
      | error e => cases hwords
      | ok snapshot =>
          have hpair := Prod.mk.inj (Option.some.inj hwords)
          exact ⟨snapshot, Prod.ext rfl hloads, hpair.1, hpair.2⟩

theorem torn_not_exact {view : View} {loads : Nat} {ringLimit : Int} {snapshot : Shared}
    (hrunning : snapshot running = 0) (hinputs : snapshot inputBits = 1) :
    ¬ Exact fresh (wrapOps n) view loads ringLimit snapshot := by
  rintro ⟨k, hk, -, hsummary, -⟩
  by_cases hall : k ≤ n
  · have htake : (wrapOps n).take k = List.replicate k .stop := by
      rw [wrapOps, List.take_append_of_le_length (by simpa using hall), List.take_replicate,
        Nat.min_eq_left hall]
    have hword := hsummary inputBits (by decide)
    have hzero : fresh inputBits = 0 := initialised_zero (by decide) (by decide) _ _ _
    rw [htake, stops_after fresh_running, hinputs, Function.update_of_ne (by decide), hzero] at hword
    exact absurd hword (by decide)
  · have htake : (wrapOps n).take k = wrapOps n := by
      refine List.take_of_length_le ?_
      simp only [wrapOps, List.length_append, List.length_replicate, List.length_singleton]
      omega
    have hword := hsummary running (by decide)
    rw [htake, wrapOps_after, hrunning, start_running] at hword
    exact absurd hword (by decide)

theorem wrap_events (n i j : Nat) :
    lockStores eventSeq (stretch (calls (wrapOps n) fresh) i j) < 2 ^ 32 := by
  have hquiet : Avoids eventSeq (calls (wrapOps n)) := by
    refine avoids_seq (fun c hc => ?_)
    obtain ⟨op, hop, rfl⟩ := List.mem_map.mp hc
    refine quiet_op (fun inputs heq => ?_) (fun ticks inputs heq => ?_) eventSeq (.inl rfl)
    · simp [heq, wrapOps] at hop
    · simp [heq, wrapOps] at hop
  have hnone := lockStores_stretch_all eventSeq (calls (wrapOps n) fresh) i j
  rw [lockStores_avoids hquiet] at hnone
  omega

theorem wrap_torn (hn : BitVec.ofNat 32 (2 * n) = 0xFFFFFFFE) :
    Monotone (wrapInstant n) ∧ (∀ inputs, Op.clear inputs ∉ wrapOps n) ∧
      ∃ snapshot, readConsistentSnapshotFromBuffer
          (viewAt fresh (calls (wrapOps n) fresh) (wrapInstant n)) 1 1 = (.ok snapshot, 94) ∧
        lockStores eventSeq (stretch (calls (wrapOps n) fresh) (wrapInstant n 0)
          (wrapInstant n (94 - 1))) < 2 ^ 32 ∧
        ¬ Exact fresh (wrapOps n) (viewAt fresh (calls (wrapOps n) fresh) (wrapInstant n)) 94 1
          snapshot := by
  refine ⟨fun a b hab => ?_, fun inputs hmem => ?_, ?_⟩
  · rw [wrapInstant, wrapInstant]
    split <;> split <;> omega
  · simp [wrapOps] at hmem
  · obtain ⟨snapshot, hread, hrunning, hinputs⟩ := torn_read
    rw [← wrap_view hn] at hread
    exact ⟨snapshot, hread, wrap_events n _ _, torn_not_exact hrunning hinputs⟩

/-- 2^31 calls during one copy of the prefix bring the lock back to where it was. -/
theorem snapshot_torn :
    Monotone (wrapInstant (2 ^ 31 - 1)) ∧ (∀ inputs, Op.clear inputs ∉ wrapOps (2 ^ 31 - 1)) ∧
      ∃ snapshot, readConsistentSnapshotFromBuffer
          (viewAt fresh (calls (wrapOps (2 ^ 31 - 1)) fresh) (wrapInstant (2 ^ 31 - 1))) 1 1 =
            (.ok snapshot, 94) ∧
        lockStores eventSeq (stretch (calls (wrapOps (2 ^ 31 - 1)) fresh)
          (wrapInstant (2 ^ 31 - 1) 0) (wrapInstant (2 ^ 31 - 1) (94 - 1))) < 2 ^ 32 ∧
        ¬ Exact fresh (wrapOps (2 ^ 31 - 1))
          (viewAt fresh (calls (wrapOps (2 ^ 31 - 1)) fresh) (wrapInstant (2 ^ 31 - 1))) 94 1
          snapshot := wrap_torn (by decide)

end Wrap

end HilLab.Host.PwmSnapshot
