import HilLab.Lib.CodeView
import HilLab.Lib.RingLog
import HilLab.Lib.StoreTrace
import HilLab.Pru.PwmSeqlock

namespace HilLab.Pru.PwmEdgeLog

open Lib.Seqlock Lib.CodeView Lib.RingLog Lib.StoreTrace PwmCaptureCore PwmSeqlock

section History

def pushed (op : Op) (m : Memory 32) : List EdgeRecord :=
  match op with
  | .process timestampTicks logicalInputs =>
      let logicalInputs := logicalInputs &&& logicalMask
      let changedInputs := (logicalInputs ^^^ m inputBits) &&& logicalMask
      if m running ≠ 0 ∧ changedInputs ≠ 0 then
        [⟨timestampTicks, logicalInputs, changedInputs, after op.code m faultFlags⟩]
      else []
  | _ => []

def history : List Op → Memory 32 → List EdgeRecord
  | [], _ => []
  | op :: ops, m => pushed op m ++ history ops (after op.code m)

end History

section Bookkeeping

/-- The words that the ring of edge records is kept in. -/
def RingWords (addr : Nat) : Prop :=
  addr = eventSeq ∨ addr = ringHead ∨ addr = ringCount ∨ summaryWords ≤ addr

instance (addr : Nat) : Decidable (RingWords addr) := inferInstanceAs (Decidable (_ ∨ _))

/-- Code that stores to none of them. -/
def Quiet (c : Code 32) : Prop := ∀ addr, RingWords addr → Avoids addr c

theorem quiet_store {a : Nat} (h : ¬ RingWords a) (value : Memory 32 → Word) :
    Quiet (store a value) := by
  intro addr haddr
  refine avoids_store (fun heq => h ?_) value
  rw [heq]
  exact haddr

theorem quiet_seq {cs : List (Code 32)} (h : ∀ c ∈ cs, Quiet c) : Quiet (seq cs) :=
  fun addr haddr => avoids_seq (fun c hc => h c hc addr haddr)

theorem not_ringWords {a : Nat} (h : 16 ≤ a) (hlt : a < summaryWords) : ¬ RingWords a := by
  rw [RingWords, eventSeq, ringHead, ringCount]
  omega

theorem quiet_channels (ticks rise fall : Word) :
    Quiet (forEach channelCount (channelEdges ticks rise fall)) := by
  refine quiet_seq (fun c hc => ?_)
  obtain ⟨i, hi, rfl⟩ := List.mem_map.mp hc
  have hsix : i < 6 := List.mem_range.mp hi
  intro addr haddr
  refine channelEdges_avoids (fun field hfield => ?_) ticks rise fall
  intro heq
  refine not_ringWords ?_ ?_ (heq ▸ haddr)
  · rw [channelWord]
    omega
  · rw [channelWord, summaryWords]
    omega

theorem quiet_pairs (ticks inputs rise fall : Word) :
    Quiet (forEach pairCount (pairEdges ticks inputs rise fall)) := by
  refine quiet_seq (fun c hc => ?_)
  obtain ⟨i, hi, rfl⟩ := List.mem_map.mp hc
  have hthree : i < 3 := List.mem_range.mp hi
  intro addr haddr
  refine pairEdges_avoids (fun field hfield => ?_) ?_ ticks inputs rise fall
  · intro heq
    refine not_ringWords ?_ ?_ (heq ▸ haddr)
    · rw [pairWord]
      omega
    · rw [pairWord, summaryWords]
      omega
  · intro heq
    exact not_ringWords (by decide) (by decide) (heq ▸ haddr)

theorem quiet_after {c : Code 32} (h : Quiet c) {addr : Nat} (haddr : RingWords addr)
    (m : Memory 32) : after c m addr = m addr := run_of_avoids (h addr haddr) m

theorem ringWords_ringWord (slot field : Nat) : RingWords (ringWord slot field) := by
  refine .inr (.inr (.inr ?_))
  rw [ringWord]
  omega

theorem quiet_recordAt {c : Code 32} (h : Quiet c) (m : Memory 32) :
    recordAt (after c m) = recordAt m := by
  funext slot
  simp only [recordAt, quiet_after h (ringWords_ringWord _ _)]

end Bookkeeping

section Push

variable (m : Memory 32) (ticks inputs changed : Word)

/-- The stores of a record, without the head and the count. -/
def storeRecord (slot : Nat) : Code 32 :=
  seq
    [set (ringWord slot 0) ticks,
      set (ringWord slot 1) inputs,
      set (ringWord slot 2) changed,
      store (ringWord slot 3) (fun m => m faultFlags)]

theorem ringWord_eq_iff {slot slot' field field' : Nat} (h : field < 4) (h' : field' < 4) :
    ringWord slot field = ringWord slot' field' ↔ slot = slot' ∧ field = field' := by
  rw [ringWord, ringWord]
  omega

theorem storeRecord_recordAt (slot : Nat) :
    recordAt (after (storeRecord ticks inputs changed slot) m) =
      Function.update (recordAt m) slot ⟨ticks, inputs, changed, m faultFlags⟩ := by
  have hfault : ∀ field, field < 4 → faultFlags ≠ ringWord slot field := by
    intro field _
    rw [faultFlags, ringWord, summaryWords]
    omega
  have hflags : Function.update (Function.update (Function.update m (ringWord slot 0) ticks)
      (ringWord slot 1) inputs) (ringWord slot 2) changed faultFlags = m faultFlags := by
    rw [Function.update_of_ne (hfault 2 (by decide)), Function.update_of_ne (hfault 1 (by decide)),
      Function.update_of_ne (hfault 0 (by decide))]
  have hrun : after (storeRecord ticks inputs changed slot) m =
      Function.update (Function.update (Function.update (Function.update m (ringWord slot 0) ticks)
        (ringWord slot 1) inputs) (ringWord slot 2) changed) (ringWord slot 3)
        (Function.update (Function.update (Function.update m (ringWord slot 0) ticks)
          (ringWord slot 1) inputs) (ringWord slot 2) changed faultFlags) := rfl
  rw [hflags] at hrun
  funext slot'
  by_cases hslot : slot' = slot
  · subst hslot
    rw [hrun, Function.update_self, recordAt]
    simp [ringWord_eq_iff]
  · rw [hrun, Function.update_of_ne hslot, recordAt, recordAt]
    simp [ringWord_eq_iff, hslot]

theorem storeRecord_avoids {slot addr : Nat} (h : ∀ field, field < 4 → ringWord slot field ≠ addr) :
    Avoids addr (storeRecord ticks inputs changed slot) :=
  avoids_cons (avoids_set (h 0 (by decide)) _) (avoids_cons (avoids_set (h 1 (by decide)) _)
    (avoids_cons (avoids_set (h 2 (by decide)) _) (avoids_cons (avoids_store (h 3 (by decide)) _)
      avoids_skip)))

def nextHead (head : Word) : Word := if ringCapacity ≤ (head + 1).toNat then 0 else head + 1

def countUp : Code 32 :=
  whenever (fun m => decide ((m ringCount).toNat < ringCapacity)) (increment ringCount)

theorem push_eq :
    pushEdgeRecord ticks inputs changed m =
      seq [storeRecord ticks inputs changed (m ringHead).toNat, set ringHead (nextHead (m ringHead)),
        countUp] m := by
  have hnest := seq_nest []
    [set (ringWord (m ringHead).toNat 0) ticks, set (ringWord (m ringHead).toNat 1) inputs,
      set (ringWord (m ringHead).toNat 2) changed,
      store (ringWord (m ringHead).toNat 3) (fun m => m faultFlags)]
    [set ringHead (nextHead (m ringHead)), countUp]
  exact (congrFun hnest m).symm

/-- What a push makes of the ring. -/
structure Pushed (m m' : Memory 32) (record : EdgeRecord) : Prop where
  events : m' eventSeq = m eventSeq
  head : m' ringHead = nextHead (m ringHead)
  count : m' ringCount =
    if (m ringCount).toNat < ringCapacity then m ringCount + 1 else m ringCount
  records : recordAt m' = Function.update (recordAt m) (m ringHead).toNat record
  faults : m' faultFlags = m faultFlags

theorem push_after :
    Pushed m (after (pushEdgeRecord ticks inputs changed) m)
      ⟨ticks, inputs, changed, m faultFlags⟩ := by
  have hbelow {addr : Nat} (h : addr < summaryWords) :
      ∀ field, field < 4 → ringWord (m ringHead).toNat field ≠ addr := by
    intro field _
    rw [ringWord]
    omega
  have hpush : after (pushEdgeRecord ticks inputs changed) m =
      after countUp (after (set ringHead (nextHead (m ringHead)))
        (after (storeRecord ticks inputs changed (m ringHead).toNat) m)) := by
    rw [after, push_eq]
    exact (after_cons _ _ m).trans ((after_cons _ _ _).trans (after_cons countUp [] _))
  have hrecord {addr : Nat} (h : addr < summaryWords) :
      after (storeRecord ticks inputs changed (m ringHead).toNat) m addr = m addr :=
    run_of_avoids (storeRecord_avoids _ _ _ (hbelow h)) m
  have hhead {addr : Nat} (h : ringHead ≠ addr) (v : Word) (m' : Memory 32) :
      after (set ringHead v) m' addr = m' addr := run_of_avoids (avoids_set h v) m'
  have hcount {addr : Nat} (h : ringCount ≠ addr) (m' : Memory 32) :
      after countUp m' addr = m' addr :=
    run_of_avoids (avoids_whenever (avoids_increment h)) m'
  have hslots (slot field : Nat) : ringHead ≠ ringWord slot field ∧ ringCount ≠ ringWord slot field := by
    rw [ringHead, ringCount, ringWord, summaryWords]
    omega
  rw [hpush]
  refine ⟨?_, ?_, ?_, ?_, ?_⟩
  · rw [hcount (by decide), hhead (by decide), hrecord (by decide)]
  · rw [hcount (by decide)]
    exact after_store ringHead _ _
  · have hsame : after (set ringHead (nextHead (m ringHead)))
        (after (storeRecord ticks inputs changed (m ringHead).toNat) m) ringCount = m ringCount := by
      rw [hhead (by decide), hrecord (by decide)]
    rw [after, countUp, whenever, hsame]
    by_cases hroom : (m ringCount).toNat < ringCapacity
    · rw [if_pos hroom, if_pos (decide_eq_true hroom)]
      exact (after_store ringCount _ _).trans (congrArg (· + 1) hsame)
    · rw [if_neg hroom, if_neg (by simpa using hroom)]
      exact hsame
  · have hkept (m' : Memory 32) : recordAt (after countUp (after (set ringHead (nextHead (m ringHead))) m')) =
        recordAt m' := by
      funext slot
      simp only [recordAt, hcount (hslots slot _).2, hhead (hslots slot _).1]
    rw [hkept, storeRecord_recordAt]
  · rw [hcount (by decide), hhead (by decide), hrecord (by decide)]

end Push

section Process

variable (ticks inputs changed : Word)

/-- The pieces of an update before its event is counted, and before its record is pushed. -/
def announce : Code 32 :=
  seq [beginUpdate, set inputBits inputs, set changedBits changed, set lastTimestampTicks ticks]

def measure (rise fall : Word) : Code 32 :=
  seq
    [forEach channelCount (channelEdges ticks rise fall),
      forEach pairCount (pairEdges ticks inputs rise fall)]

theorem quiet_announce : Quiet (announce ticks inputs changed) := by
  refine quiet_seq ?_
  simp only [List.forall_mem_cons]
  exact ⟨quiet_store (by decide) _, quiet_store (by decide) _, quiet_store (by decide) _,
    quiet_store (by decide) _, fun _ h => absurd h List.not_mem_nil⟩

theorem quiet_measure (rise fall : Word) : Quiet (measure ticks inputs rise fall) := by
  refine quiet_seq ?_
  simp only [List.forall_mem_cons]
  exact ⟨quiet_channels _ _ _, quiet_pairs _ _ _ _, fun _ h => absurd h List.not_mem_nil⟩

theorem quiet_endUpdate : Quiet endUpdate := quiet_store (by decide) _

def changedBy (m : Memory 32) (inputs : Word) : Word :=
  ((inputs &&& logicalMask) ^^^ m inputBits) &&& logicalMask

/-- The process call sees a change. -/
def Active (m : Memory 32) (inputs : Word) : Prop := m running ≠ 0 ∧ changedBy m inputs ≠ 0

theorem process_idle {m : Memory 32} (h : ¬ Active m inputs) : process ticks inputs m = [] := by
  rw [process, whenever]
  by_cases hrun : m running = 0
  · rw [if_neg (by simpa using hrun)]
  · have hchanged : changedBy m inputs = 0 := of_not_not (fun hne => h ⟨hrun, hne⟩)
    rw [changedBy] at hchanged
    rw [if_pos (by simpa using hrun), reading, whenever, if_neg (by simpa using hchanged)]

def pieces (previous : Word) : List (Code 32) :=
  [announce ticks inputs changed, increment eventSeq,
    measure ticks inputs (changed &&& inputs) (changed &&& previous),
    pushEdgeRecord ticks inputs changed, endUpdate]

theorem after_pieces (previous : Word) (m : Memory 32) :
    after (seq (pieces ticks inputs changed previous)) m =
      after endUpdate (after (pushEdgeRecord ticks inputs changed)
        (after (measure ticks inputs (changed &&& inputs) (changed &&& previous))
          (after (increment eventSeq) (after (announce ticks inputs changed) m)))) := by
  rw [pieces, after_cons, after_cons, after_cons, after_cons, after_cons, after_nil]

theorem process_active {m : Memory 32} (h : Active m inputs) :
    process ticks inputs m =
      seq (pieces ticks (inputs &&& logicalMask) (changedBy m inputs) (m inputBits)) m := by
  obtain ⟨hrun, hchanged⟩ := h
  rw [changedBy] at hchanged
  rw [process, whenever, if_pos (by simpa using hrun), reading, whenever,
    if_pos (by simpa using hchanged)]
  have hflat := seq_nest [beginUpdate]
    [set inputBits (inputs &&& logicalMask), set changedBits (changedBy m inputs),
      set lastTimestampTicks ticks, increment eventSeq,
      forEach channelCount (channelEdges ticks (changedBy m inputs &&& (inputs &&& logicalMask))
        (changedBy m inputs &&& m inputBits)),
      forEach pairCount (pairEdges ticks (inputs &&& logicalMask)
        (changedBy m inputs &&& (inputs &&& logicalMask)) (changedBy m inputs &&& m inputBits)),
      pushEdgeRecord ticks (inputs &&& logicalMask) (changedBy m inputs)]
    [endUpdate]
  have hpieces := seq_nest []
    [beginUpdate, set inputBits (inputs &&& logicalMask), set changedBits (changedBy m inputs),
      set lastTimestampTicks ticks]
    [increment eventSeq, measure ticks (inputs &&& logicalMask)
        (changedBy m inputs &&& (inputs &&& logicalMask)) (changedBy m inputs &&& m inputBits),
      pushEdgeRecord ticks (inputs &&& logicalMask) (changedBy m inputs), endUpdate]
  have hmeasure := seq_nest
    [beginUpdate, set inputBits (inputs &&& logicalMask), set changedBits (changedBy m inputs),
      set lastTimestampTicks ticks, increment eventSeq]
    [forEach channelCount (channelEdges ticks (changedBy m inputs &&& (inputs &&& logicalMask))
        (changedBy m inputs &&& m inputBits)),
      forEach pairCount (pairEdges ticks (inputs &&& logicalMask)
        (changedBy m inputs &&& (inputs &&& logicalMask)) (changedBy m inputs &&& m inputBits))]
    [pushEdgeRecord ticks (inputs &&& logicalMask) (changedBy m inputs), endUpdate]
  exact congrFun (hflat.trans (hpieces.trans hmeasure).symm) m

end Process

section Logged

/-- The ring holds the log as far as it reaches back. -/
structure Logged (m : Memory 32) (log : List EdgeRecord) : Prop where
  events : m eventSeq = BitVec.ofNat 32 log.length
  head : (m ringHead).toNat = log.length % ringCapacity
  count : (m ringCount).toNat = min log.length ringCapacity
  records : Logs ringCapacity (recordAt m) log

variable {m : Memory 32} {log : List EdgeRecord}

theorem logged_initialised (m : Memory 32) (hz minDeadtime : Word) :
    Logged (initialised m hz minDeadtime) [] := by
  have hzero {addr : Nat} (hlt : addr < sharedWords)
      (hset : ∀ a ∈ [magic, version, totalSize, tickHz, channelCountWord, pairCountWord,
        ringCapacityWord, minDeadtimeTicks], a ≠ addr) := initialised_zero hlt hset m hz minDeadtime
  refine ⟨hzero (by decide) (by decide), ?_, ?_, logs_nil _⟩
  · rw [hzero (by decide) (by decide)]
    rfl
  · rw [hzero (by decide) (by decide)]
    rfl

theorem Logged.quiet (h : Logged m log) {c : Code 32} (hq : Quiet c) : Logged (after c m) log := by
  have hsame {addr : Nat} (haddr : RingWords addr) := quiet_after hq haddr m
  refine ⟨?_, ?_, ?_, ?_⟩
  · rw [hsame (.inl rfl), h.events]
  · rw [hsame (.inr (.inl rfl)), h.head]
  · rw [hsame (.inr (.inr (.inl rfl))), h.count]
  · rw [quiet_recordAt hq]
    exact h.records

theorem nextHead_toNat {head : Word} {n : Nat} (h : head.toNat = n % ringCapacity) :
    (nextHead head).toNat = (n + 1) % ringCapacity := by
  have hlt : n % ringCapacity < ringCapacity := Nat.mod_lt n (by decide)
  have hsucc : (head + 1).toNat = n % ringCapacity + 1 := by
    rw [ringCapacity] at hlt
    rw [BitVec.toNat_add, h, ringCapacity]
    change (n % 128 + 1) % 2 ^ 32 = _
    omega
  rw [nextHead, hsucc]
  rw [ringCapacity] at hlt ⊢
  split
  · change 0 = _
    omega
  · rw [hsucc, ringCapacity]
    omega

/-- A counted event and its push append the record. -/
theorem Logged.push (h : Logged m log) {m₁ m₂ : Memory 32} {record : EdgeRecord}
    (hevents : m₁ eventSeq = m eventSeq + 1) (hhead : m₁ ringHead = m ringHead)
    (hcount : m₁ ringCount = m ringCount) (hrecords : recordAt m₁ = recordAt m)
    (hpushed : Pushed m₁ m₂ record) : Logged m₂ (log ++ [record]) := by
  have hlength : (log ++ [record]).length = log.length + 1 := List.length_append
  refine ⟨?_, ?_, ?_, ?_⟩
  · rw [hpushed.events, hevents, h.events, hlength, BitVec.ofNat_add]
    rfl
  · rw [hpushed.head, hhead, nextHead_toNat h.head, hlength]
  · have hold := h.count
    rw [ringCapacity] at hold
    rw [hpushed.count, hcount, hlength, ringCapacity]
    split
    · have hsucc : (m ringCount + 1).toNat = (m ringCount).toNat + 1 := by
        rw [BitVec.toNat_add]
        change ((m ringCount).toNat + 1) % 2 ^ 32 = _
        omega
      rw [hsucc]
      omega
    · omega
  · rw [hpushed.records, hhead, hrecords, h.head]
    exact logs_push h.records record

theorem before_push (m : Memory 32) (ticks inputs changed rise fall : Word) {m₁ : Memory 32}
    (hm : m₁ = after (measure ticks inputs rise fall) (after (increment eventSeq)
      (after (announce ticks inputs changed) m))) :
    m₁ eventSeq = m eventSeq + 1 ∧ m₁ ringHead = m ringHead ∧ m₁ ringCount = m ringCount ∧
      recordAt m₁ = recordAt m := by
  have hannounce {addr : Nat} (h : RingWords addr) :=
    quiet_after (quiet_announce ticks inputs changed) h m
  have hmeasure {addr : Nat} (h : RingWords addr) (m' : Memory 32) :=
    quiet_after (quiet_measure ticks inputs rise fall) h m'
  have hother {addr : Nat} (h : eventSeq ≠ addr) (m' : Memory 32) :
      after (increment eventSeq) m' addr = m' addr := run_of_avoids (avoids_increment h) m'
  have hslot (slot field : Nat) : eventSeq ≠ ringWord slot field := by
    rw [eventSeq, ringWord, summaryWords]
    omega
  rw [hm]
  refine ⟨?_, ?_, ?_, ?_⟩
  · rw [hmeasure (.inl rfl)]
    refine (after_store eventSeq _ _).trans ?_
    rw [hannounce (.inl rfl)]
  · rw [hmeasure (.inr (.inl rfl)), hother (by decide), hannounce (.inr (.inl rfl))]
  · rw [hmeasure (.inr (.inr (.inl rfl))), hother (by decide), hannounce (.inr (.inr (.inl rfl)))]
  · rw [quiet_recordAt (quiet_measure ticks inputs rise fall)]
    funext slot
    simp only [recordAt, hother (hslot _ _), hannounce (ringWords_ringWord _ _)]

theorem process_logged (h : Logged m log) {ticks inputs : Word} (hactive : Active m inputs) :
    Logged (after (process ticks inputs) m)
      (log ++ [⟨ticks, inputs &&& logicalMask, changedBy m inputs,
        after (process ticks inputs) m faultFlags⟩]) := by
  obtain ⟨m₁, hm₁⟩ : ∃ m₁, m₁ = after
      (measure ticks (inputs &&& logicalMask) (changedBy m inputs &&& (inputs &&& logicalMask))
        (changedBy m inputs &&& m inputBits))
      (after (increment eventSeq)
        (after (announce ticks (inputs &&& logicalMask) (changedBy m inputs)) m)) := ⟨_, rfl⟩
  obtain ⟨hevents, hhead, hcount, hrecords⟩ := before_push m _ _ _ _ _ hm₁
  have hpushed := push_after m₁ ticks (inputs &&& logicalMask) (changedBy m inputs)
  have hrun : after (process ticks inputs) m =
      after endUpdate
        (after (pushEdgeRecord ticks (inputs &&& logicalMask) (changedBy m inputs)) m₁) := by
    rw [hm₁, ← after_pieces]
    exact congrArg (run m) (process_active ticks inputs hactive)
  have hfault : after (process ticks inputs) m faultFlags = m₁ faultFlags := by
    have hend : Avoids faultFlags endUpdate := avoids_store (by decide) _
    rw [hrun, ← hpushed.faults]
    exact run_of_avoids hend _
  rw [hfault, hrun]
  exact (h.push hevents hhead hcount hrecords hpushed).quiet quiet_endUpdate

theorem quiet_bracket {body : Code 32} (h : Quiet body) :
    Quiet (seq [beginUpdate, body, endUpdate]) := by
  refine quiet_seq ?_
  simp only [List.forall_mem_cons]
  exact ⟨quiet_store (by decide) _, h, quiet_endUpdate, fun _ h => absurd h List.not_mem_nil⟩

theorem quiet_op {op : Op} (hclear : ∀ inputs, op ≠ .clear inputs)
    (hprocess : ∀ ticks inputs, op ≠ .process ticks inputs) : Quiet op.code := by
  cases op with
  | start ticks inputs =>
      refine quiet_bracket (quiet_seq ?_)
      simp only [List.forall_mem_cons]
      exact ⟨quiet_store (by decide) _, quiet_store (by decide) _, quiet_store (by decide) _,
        quiet_store (by decide) _, fun _ h => absurd h List.not_mem_nil⟩
  | stop => exact quiet_bracket (quiet_store (by decide) _)
  | setMinDeadtime ticks => exact quiet_bracket (quiet_store (by decide) _)
  | process ticks inputs => exact absurd rfl (hprocess ticks inputs)
  | clear inputs => exact absurd rfl (hclear inputs)

theorem pushed_nil {op : Op} (hprocess : ∀ ticks inputs, op ≠ .process ticks inputs) :
    pushed op m = [] := by
  cases op with
  | process ticks inputs => exact absurd rfl (hprocess ticks inputs)
  | start | stop | setMinDeadtime | clear => rfl

theorem op_logged (h : Logged m log) {op : Op} (hclear : ∀ inputs, op ≠ .clear inputs) :
    Logged (after op.code m) (log ++ pushed op m) := by
  by_cases hprocess : ∃ ticks inputs, op = .process ticks inputs
  · obtain ⟨ticks, inputs, rfl⟩ := hprocess
    by_cases hactive : Active m inputs
    · have hpushed : pushed (.process ticks inputs) m =
          [⟨ticks, inputs &&& logicalMask, changedBy m inputs,
            after (process ticks inputs) m faultFlags⟩] := if_pos hactive
      rw [hpushed]
      exact process_logged h hactive
    · have hpushed : pushed (.process ticks inputs) m = [] := if_neg hactive
      have hidle : after (process ticks inputs) m = m := by
        rw [after, process_idle _ _ hactive]
        rfl
      rw [hpushed, List.append_nil]
      change Logged (after (process ticks inputs) m) log
      rw [hidle]
      exact h
  · have hquiet := quiet_op hclear (fun ticks inputs heq => hprocess ⟨ticks, inputs, heq⟩)
    have hpushed := pushed_nil (m := m) (fun ticks inputs heq => hprocess ⟨ticks, inputs, heq⟩)
    rw [hpushed, List.append_nil]
    exact h.quiet hquiet

theorem after_calls_cons (op : Op) (ops : List Op) (m : Memory 32) :
    after (calls (op :: ops)) m = after (calls ops) (after op.code m) := after_cons _ _ m

/-- After any calls without a clear the ring holds their history. -/
theorem calls_logged {ops : List Op} (h : Logged m log) (hclear : ∀ inputs, Op.clear inputs ∉ ops) :
    Logged (after (calls ops) m) (log ++ history ops m) := by
  induction ops generalizing m log with
  | nil =>
      rw [history, List.append_nil]
      exact h
  | cons op ops ih =>
      have hop := op_logged h (fun inputs heq => hclear inputs (heq ▸ List.mem_cons_self))
      have hrest := ih hop (fun inputs hmem => hclear inputs (List.mem_cons_of_mem op hmem))
      rw [after_calls_cons, history, ← List.append_assoc]
      exact hrest

end Logged

section Tickets

/-- Where the writer may store when n events have been counted since the log had base entries. -/
def Slots (base n addr : Nat) : Prop :=
  addr < summaryWords ∨
    ∃ r field, r < n ∧ field < 4 ∧ addr = ringWord ((base + r) % ringCapacity) field

theorem slots_succ (base n addr : Nat) (h : Slots base n addr) : Slots base (n + 1) addr := by
  rcases h with h | ⟨r, field, hr, hf, haddr⟩
  · exact .inl h
  · exact .inr ⟨r, field, Nat.lt_succ_of_lt hr, hf, haddr⟩

variable {base n : Nat} {x : Word} {m : Memory 32} {log : List EdgeRecord}

theorem quiet_ticketed {c : Code 32} (h : Quiet c) (m : Memory 32) :
    Ticketed eventSeq (Slots base) x n (c m) ∧ lockStores eventSeq (c m) = 0 := by
  have hstores : ∀ s ∈ c m, ¬ RingWords s.1 := fun s hs hring => h s.1 hring m s hs rfl
  refine ⟨ticketed_of_owned (fun s hs => ?_), lockStores_avoids (h eventSeq (.inl rfl)) m⟩
  refine ⟨fun heq => hstores s hs (.inl heq), .inl (Nat.lt_of_not_le fun hle => ?_)⟩
  exact hstores s hs (.inr (.inr (.inr hle)))

theorem push_ticketed (ticks inputs changed : Word) (hhead : (m ringHead).toNat = (base + n) % ringCapacity) :
    Ticketed eventSeq (Slots base) x (n + 1) (pushEdgeRecord ticks inputs changed m) ∧
      lockStores eventSeq (pushEdgeRecord ticks inputs changed m) = 0 := by
  have havoids : Avoids eventSeq (pushEdgeRecord ticks inputs changed) := by
    refine pushEdgeRecord_avoids (fun slot field _ => ?_) (by decide) (by decide) _ _ _
    rw [ringWord, eventSeq, summaryWords]
    omega
  refine ⟨ticketed_of_owned (fun s hs => ⟨havoids m s hs, ?_⟩), lockStores_avoids havoids m⟩
  by_cases hbelow : s.1 < summaryWords
  · exact .inl hbelow
  by_cases hslot : ∃ field, field < 4 ∧ ringWord (m ringHead).toNat field = s.1
  · obtain ⟨field, hfield, haddr⟩ := hslot
    rw [hhead] at haddr
    exact .inr ⟨n, field, Nat.lt_succ_self n, hfield, haddr.symm⟩
  · have haddr : ringHead ≠ s.1 ∧ ringCount ≠ s.1 := by
      rw [ringHead, ringCount]
      rw [summaryWords] at hbelow
      omega
    have hrest : Avoids s.1 (seq [storeRecord ticks inputs changed (m ringHead).toNat,
        set ringHead (nextHead (m ringHead)), countUp]) :=
      avoids_cons (storeRecord_avoids ticks inputs changed (fun field hf heq => hslot ⟨field, hf, heq⟩))
        (avoids_cons (avoids_set haddr.1 _)
          (avoids_cons (avoids_whenever (avoids_increment haddr.2)) avoids_skip))
    rw [push_eq] at hs
    exact absurd rfl (hrest m s hs)

theorem ticketed_nil : Ticketed eventSeq (Slots base) x n (seq [] m) ∧
    lockStores eventSeq (seq [] m) = 0 := ⟨trivial, rfl⟩

theorem ticketed_cons {c : Code 32} {cs : List (Code 32)} {k : Nat}
    (hc : Ticketed eventSeq (Slots base) x n (c m) ∧ lockStores eventSeq (c m) = k)
    {j : Nat} (hcs : Ticketed eventSeq (Slots base) x (n + k) (seq cs (after c m)) ∧
      lockStores eventSeq (seq cs (after c m)) = j) :
    Ticketed eventSeq (Slots base) x n (seq (c :: cs) m) ∧
      lockStores eventSeq (seq (c :: cs) m) = k + j := by
  have hseq : seq (c :: cs) m = c m ++ seq cs (after c m) := rfl
  rw [hseq, ticketed_append, lockStores_append, hc.2, hcs.2]
  exact ⟨⟨hc.1, hcs.1⟩, rfl⟩

theorem process_ticketed {ticks inputs : Word} (hactive : Active m inputs)
    (hevents : m eventSeq = x + BitVec.ofNat 32 n)
    (hhead : (m ringHead).toNat = (base + n) % ringCapacity) :
    Ticketed eventSeq (Slots base) x n (process ticks inputs m) ∧
      lockStores eventSeq (process ticks inputs m) = 1 := by
  rw [process_active ticks inputs hactive, pieces]
  refine ticketed_cons (k := 0) (quiet_ticketed (quiet_announce _ _ _) m) (ticketed_cons (k := 1) ?_
    (ticketed_cons (k := 0) (quiet_ticketed (quiet_measure _ _ _ _) _)
      (ticketed_cons (k := 0) ?_ (ticketed_cons (k := 0) (quiet_ticketed quiet_endUpdate _)
        ticketed_nil))))
  · have hannounce : after (announce ticks (inputs &&& logicalMask) (changedBy m inputs)) m eventSeq =
        m eventSeq := quiet_after (quiet_announce _ _ _) (.inl rfl) m
    rw [increment, store, Ticketed, if_pos rfl, hannounce, hevents]
    refine ⟨⟨?_, trivial⟩, rfl⟩
    rw [BitVec.add_assoc, Nat.add_zero, BitVec.ofNat_add]
    rfl
  · obtain ⟨-, hkept, -, -⟩ := before_push m ticks (inputs &&& logicalMask) (changedBy m inputs)
      (changedBy m inputs &&& (inputs &&& logicalMask)) (changedBy m inputs &&& m inputBits) rfl
    refine push_ticketed _ _ _ ?_
    rw [hkept]
    exact hhead

theorem op_ticketed (h : Logged m log) (hlength : log.length = base + n) {op : Op}
    (hclear : ∀ inputs, op ≠ .clear inputs) :
    Ticketed eventSeq (Slots base) (BitVec.ofNat 32 base) n (op.code m) ∧
      lockStores eventSeq (op.code m) = (pushed op m).length := by
  by_cases hprocess : ∃ ticks inputs, op = .process ticks inputs
  · obtain ⟨ticks, inputs, rfl⟩ := hprocess
    by_cases hactive : Active m inputs
    · have hpushed : (pushed (.process ticks inputs) m).length = 1 :=
        congrArg List.length (if_pos hactive)
      rw [hpushed]
      refine process_ticketed hactive ?_ ?_
      · rw [h.events, hlength, BitVec.ofNat_add]
      · rw [h.head, hlength]
    · have hpushed : pushed (.process ticks inputs) m = [] := if_neg hactive
      have hidle : (Op.process ticks inputs).code m = [] := process_idle ticks inputs hactive
      rw [hpushed, hidle]
      exact ⟨trivial, rfl⟩
  · have hquiet := quiet_op hclear (fun ticks inputs heq => hprocess ⟨ticks, inputs, heq⟩)
    have hpushed := pushed_nil (m := m) (fun ticks inputs heq => hprocess ⟨ticks, inputs, heq⟩)
    rw [hpushed]
    exact quiet_ticketed hquiet m

/-- The stores of any calls without a clear: a slot is taken only once its event is counted. -/
theorem calls_ticketed {ops : List Op} (h : Logged m log) (hlength : log.length = base + n)
    (hclear : ∀ inputs, Op.clear inputs ∉ ops) :
    Ticketed eventSeq (Slots base) (BitVec.ofNat 32 base) n (calls ops m) := by
  induction ops generalizing m log n with
  | nil => trivial
  | cons op ops ih =>
      have hop : ∀ inputs, op ≠ .clear inputs := fun inputs heq => hclear inputs (heq ▸ List.mem_cons_self)
      obtain ⟨hticketed, hcount⟩ := op_ticketed h hlength hop
      have hcalls : calls (op :: ops) m = op.code m ++ calls ops (after op.code m) := rfl
      rw [hcalls, ticketed_append, hcount]
      refine ⟨hticketed, ih (op_logged h hop) ?_
        (fun inputs hmem => hclear inputs (List.mem_cons_of_mem op hmem))⟩
      rw [List.length_append, hlength, Nat.add_assoc]

end Tickets

end HilLab.Pru.PwmEdgeLog
