import HilLab.Lib.RingQueue
import Mathlib.Data.Nat.Bits

namespace HilLab.Rtl.EventFifo

open Lib.RingQueue

def clog2Loop : Nat → Nat → Nat
  | 0, _ => 0
  | fuel + 1, temp => if temp > 0 then clog2Loop fuel (temp >>> 1) + 1 else 0

def clog2 (value : Nat) : Nat :=
  let shifts := clog2Loop value (value - 1)
  if shifts < 1 then 1 else shifts

theorem lt_two_pow_clog2Loop (fuel temp : Nat) (h : temp ≤ fuel) :
    temp < 2 ^ clog2Loop fuel temp := by
  induction fuel generalizing temp with
  | zero => simp [clog2Loop]; omega
  | succ fuel ih =>
      by_cases ht : temp > 0
      · have hh : temp >>> 1 = temp / 2 := Nat.shiftRight_one temp
        have hlt := ih (temp >>> 1) (by omega)
        simp only [clog2Loop, ht, if_true, Nat.pow_succ]
        omega
      · have h0 : temp = 0 := by omega
        simp [clog2Loop, h0]

theorem le_two_pow_clog2 {D : Nat} (hD : 0 < D) : D ≤ 2 ^ clog2 D := by
  have h := lt_two_pow_clog2Loop D (D - 1) (Nat.sub_le D 1)
  unfold clog2
  dsimp only
  split
  · rename_i hs
    rw [Nat.lt_one_iff.mp hs] at h
    omega
  · omega

/-- One queued event; the four memories of the source share the write port and
the addresses, so they are one memory of these records here. -/
structure Event (W I : Nat) where
  timestamp : BitVec 64
  mask : BitVec W
  value : BitVec W
  id : BitVec I
deriving DecidableEq, Repr

def Event.zero (W I : Nat) : Event W I := ⟨0, 0, 0, 0⟩

structure FifoInput (W I : Nat) where
  clear : Bool
  push : Bool
  pushEvent : Event W I
  pop : Bool

structure Fifo (D W I : Nat) where
  mem : Nat → Event W I
  writePtr : BitVec (clog2 D)
  readPtr : BitVec (clog2 D)
  count : BitVec 16
  lastTimestamp : BitVec 64
  overflowLatched : Bool
  orderErrorLatched : Bool

variable {D W I : Nat}

def Fifo.cleared (f : Fifo D W I) : Fifo D W I :=
  { mem := f.mem, writePtr := 0, readPtr := 0, count := 0, lastTimestamp := 0,
    overflowLatched := false, orderErrorLatched := false }

def Fifo.empty (f : Fifo D W I) : Bool := f.count == 0

def Fifo.full (f : Fifo D W I) : Bool := decide (D ≤ f.count.toNat)

def Fifo.level (f : Fifo D W I) : BitVec 16 := f.count

def Fifo.head (f : Fifo D W I) : Event W I :=
  if f.empty then Event.zero W I else f.mem f.readPtr.toNat

def Fifo.pushOrderOk (f : Fifo D W I) (e : Event W I) : Bool :=
  f.empty || decide (f.lastTimestamp ≤ e.timestamp)

def Fifo.acceptPush (f : Fifo D W I) (i : FifoInput W I) : Bool :=
  i.push && !f.full && f.pushOrderOk i.pushEvent

def Fifo.acceptPop (f : Fifo D W I) (i : FifoInput W I) : Bool := i.pop && !f.empty

def advance (D : Nat) (ptr : BitVec (clog2 D)) : BitVec (clog2 D) :=
  if ptr.toNat = D - 1 then 0 else ptr + 1#(clog2 D)

def Fifo.store (f : Fifo D W I) (i : FifoInput W I) : Fifo D W I :=
  if i.push then
    if f.full then { f with overflowLatched := true }
    else if !f.pushOrderOk i.pushEvent then { f with orderErrorLatched := true }
    else
      { f with
        mem := Function.update f.mem f.writePtr.toNat i.pushEvent
        lastTimestamp := i.pushEvent.timestamp
        writePtr := advance D f.writePtr }
  else f

def Fifo.release (f : Fifo D W I) (i : FifoInput W I) (next : Fifo D W I) : Fifo D W I :=
  if f.acceptPop i then
    { next with
      readPtr := advance D f.readPtr
      lastTimestamp := if !f.acceptPush i && f.count == 1 then 0 else next.lastTimestamp }
  else next

def Fifo.nextCount (f : Fifo D W I) (i : FifoInput W I) : BitVec 16 :=
  match f.acceptPush i, f.acceptPop i with
  | true, false => f.count + 1
  | false, true => f.count - 1
  | _, _ => f.count

def Fifo.step (f : Fifo D W I) (i : FifoInput W I) : Fifo D W I :=
  if i.clear then f.cleared
  else { f.release i (f.store i) with count := f.nextCount i }

def Fifo.contents (f : Fifo D W I) : List (Event W I) :=
  ring f.mem D f.readPtr.toNat f.count.toNat

def Fifo.accepted (f : Fifo D W I) (i : FifoInput W I) : List (Event W I) :=
  if !i.clear && f.acceptPush i then [i.pushEvent] else []

def newest (q : List (Event W I)) : BitVec 64 := (q.getLast?.map Event.timestamp).getD 0

/-- The clocked registers describe a queue of at most D events in timestamp
order. -/
structure Fifo.Valid (f : Fifo D W I) : Prop where
  read_lt : f.readPtr.toNat < D
  count_le : f.count.toNat ≤ D
  write_eq : f.writePtr.toNat = (f.readPtr.toNat + f.count.toNat) % D
  last_eq : f.lastTimestamp = newest f.contents
  ordered : f.contents.Pairwise (fun a b => a.timestamp ≤ b.timestamp)

theorem clog2_pos (D : Nat) : 0 < clog2 D := by
  unfold clog2
  dsimp only
  split <;> omega

theorem advance_toNat {ptr : BitVec (clog2 D)} (hp : ptr.toNat < D) :
    (advance D ptr).toNat = next D ptr.toNat := by
  have hw := le_two_pow_clog2 (Nat.lt_of_le_of_lt (Nat.zero_le _) hp)
  rw [advance, next]
  split
  · rfl
  · rw [BitVec.toNat_add, BitVec.toNat_ofNat, Nat.mod_eq_of_lt (Nat.one_lt_two_pow (clog2_pos D).ne'),
      Nat.mod_eq_of_lt (by omega)]

theorem full_eq_false {f : Fifo D W I} : f.full = false ↔ f.count.toNat < D := by
  simp [Fifo.full]

theorem empty_iff {f : Fifo D W I} : f.empty = true ↔ f.contents = [] := by
  rw [Fifo.empty, beq_iff_eq, ← List.length_eq_zero_iff, Fifo.contents, ring_length]
  exact ⟨fun h => by rw [h]; rfl, fun h => BitVec.eq_of_toNat_eq h⟩

theorem contents_length (f : Fifo D W I) : f.contents.length = f.count.toNat :=
  ring_length _ _ _ _

theorem count_lt_of_acceptPush {f : Fifo D W I} {i : FifoInput W I} (h : f.acceptPush i = true) :
    f.count.toNat < D := by
  simp only [Fifo.acceptPush, Bool.and_eq_true, Bool.not_eq_true'] at h
  exact full_eq_false.mp h.1.2

theorem acceptPop_iff {f : Fifo D W I} {i : FifoInput W I} :
    f.acceptPop i = true ↔ i.pop = true ∧ f.contents ≠ [] := by
  rw [Fifo.acceptPop, Bool.and_eq_true, Bool.not_eq_true', ← Bool.not_eq_true, empty_iff]

theorem count_pos_of_acceptPop {f : Fifo D W I} {i : FifoInput W I} (h : f.acceptPop i = true) :
    0 < f.count.toNat := by
  rw [← contents_length]
  exact List.length_pos_iff.mpr (acceptPop_iff.mp h).2

theorem contents_cleared (f : Fifo D W I) : f.cleared.contents = [] := rfl

theorem step_clear {f : Fifo D W I} {i : FifoInput W I} (h : i.clear = true) :
    f.step i = f.cleared := by
  simp [Fifo.step, h]

theorem store_accept {f : Fifo D W I} {i : FifoInput W I} (h : f.acceptPush i = true) :
    f.store i =
      { f with
        mem := Function.update f.mem f.writePtr.toNat i.pushEvent
        lastTimestamp := i.pushEvent.timestamp
        writePtr := advance D f.writePtr } := by
  simp only [Fifo.acceptPush, Bool.and_eq_true, Bool.not_eq_true'] at h
  simp [Fifo.store, h.1.1, h.1.2, h.2]

theorem store_reject {f : Fifo D W I} {i : FifoInput W I} (h : f.acceptPush i = false) :
    ∃ overflow order, f.store i =
      { f with overflowLatched := overflow, orderErrorLatched := order } := by
  rw [Fifo.store]
  split
  · split
    · exact ⟨_, _, rfl⟩
    · split
      · exact ⟨_, _, rfl⟩
      · simp_all [Fifo.acceptPush]
  · exact ⟨_, _, rfl⟩

theorem store_readPtr (f : Fifo D W I) (i : FifoInput W I) : (f.store i).readPtr = f.readPtr := by
  cases h : f.acceptPush i with
  | true => rw [store_accept h]
  | false => obtain ⟨_, _, he⟩ := store_reject h; rw [he]

theorem step_contents_eq {f : Fifo D W I} {i : FifoInput W I} (h : i.clear = false) :
    (f.step i).contents =
      ring (f.store i).mem D (if f.acceptPop i then advance D f.readPtr else f.readPtr).toNat
        (f.nextCount i).toNat := by
  cases hp : f.acceptPop i <;>
    simp [Fifo.step, h, Fifo.contents, Fifo.release, hp, store_readPtr]

theorem store_ring {f : Fifo D W I} {i : FifoInput W I} (hv : f.Valid) (h : i.clear = false) :
    ring (f.store i).mem D f.readPtr.toNat (f.count.toNat + (f.accepted i).length) =
      f.contents ++ f.accepted i := by
  cases ha : f.acceptPush i with
  | false =>
      obtain ⟨_, _, he⟩ := store_reject ha
      simp [he, Fifo.accepted, ha, Fifo.contents]
  | true =>
      simp only [store_accept ha, Fifo.accepted, ha, h, hv.write_eq]
      exact ring_push f.mem (count_lt_of_acceptPush ha) f.readPtr.toNat i.pushEvent

theorem nextCount_toNat {f : Fifo D W I} {i : FifoInput W I} (hD : D < 65536) (hv : f.Valid)
    (h : i.clear = false) :
    (f.nextCount i).toNat =
      f.count.toNat + (f.accepted i).length - (if f.acceptPop i then 1 else 0) := by
  have hc := hv.count_le
  rw [Fifo.nextCount, Fifo.accepted]
  cases ha : f.acceptPush i <;> cases hp : f.acceptPop i
  · simp
  · have := count_pos_of_acceptPop hp
    simp only [Bool.and_false, h, if_true, Bool.false_eq_true, if_false, List.length_nil,
      BitVec.toNat_sub]
    have h1 : (1 : BitVec 16).toNat = 1 := rfl
    omega
  · have := count_lt_of_acceptPush ha
    simp [h, BitVec.toNat_add]
    omega
  · simp [h]

/-- One clock edge on the queue: the popped head leaves, the accepted push is
appended. -/
theorem step_contents {f : Fifo D W I} {i : FifoInput W I} (hD : D < 65536) (hv : f.Valid)
    (h : i.clear = false) :
    (f.step i).contents =
      (if i.pop then f.contents.tail else f.contents) ++ f.accepted i := by
  rw [step_contents_eq h, nextCount_toNat hD hv h]
  cases hp : f.acceptPop i with
  | false =>
      simp only [Bool.false_eq_true, if_false, Nat.sub_zero, store_ring hv h]
      cases hpop : i.pop with
      | false => rfl
      | true =>
          have he : f.empty = true := by simpa [Fifo.acceptPop, hpop] using hp
          simp [empty_iff.mp he]
  | true =>
      obtain ⟨hpop, hne⟩ := acceptPop_iff.mp hp
      obtain ⟨e, q, hq⟩ := List.exists_cons_of_ne_nil hne
      have hlen : f.count.toNat = q.length + 1 := by rw [← contents_length, hq, List.length_cons]
      have hs := store_ring hv h
      rw [hlen, Nat.add_right_comm, ring_pop _ hv.read_lt, hq, List.cons_append] at hs
      simp only [if_true, hpop, advance_toNat hv.read_lt, hlen, hq, List.tail_cons]
      rw [← (List.cons.inj hs).2]
      congr 1
      omega

theorem newest_append (q : List (Event W I)) (e : Event W I) : newest (q ++ [e]) = e.timestamp := by
  simp [newest]

theorem newest_tail (e : Event W I) (q : List (Event W I)) (h : q ≠ []) :
    newest (e :: q) = newest q := by
  rw [newest, newest, List.getLast?_cons, List.getLast?_eq_some_getLast h]
  rfl

theorem le_newest {q : List (Event W I)} (hq : q.Pairwise (fun a b => a.timestamp ≤ b.timestamp))
    {a : Event W I} (ha : a ∈ q) : a.timestamp ≤ newest q := by
  induction q generalizing a with
  | nil => cases ha
  | cons e q ih =>
      obtain ⟨he, hq'⟩ := List.pairwise_cons.mp hq
      by_cases hn : q = []
      · subst hn
        rw [List.mem_singleton.mp ha]
        exact BitVec.le_refl _
      · rw [newest_tail e q hn]
        rcases List.mem_cons.mp ha with rfl | ha
        · obtain ⟨b, hb⟩ := List.exists_mem_of_ne_nil q hn
          exact BitVec.le_trans (he b hb) (ih hq' hb)
        · exact ih hq' ha

theorem cleared_valid (hD : 0 < D) (f : Fifo D W I) : f.cleared.Valid where
  read_lt := hD
  count_le := Nat.zero_le D
  write_eq := (Nat.zero_mod D).symm
  last_eq := rfl
  ordered := List.Pairwise.nil

theorem accepted_ordered {f : Fifo D W I} {i : FifoInput W I} (hv : f.Valid) {a e : Event W I}
    (ha : a ∈ f.contents) (he : e ∈ f.accepted i) : a.timestamp ≤ e.timestamp := by
  have hacc : f.acceptPush i = true ∧ e = i.pushEvent := by
    rw [Fifo.accepted] at he
    split at he
    · rename_i hc
      exact ⟨(Bool.and_eq_true _ _ ▸ hc).2, List.mem_singleton.mp he⟩
    · cases he
  have hok : f.empty = true ∨ f.lastTimestamp ≤ i.pushEvent.timestamp := by
    have h := hacc.1
    simp only [Fifo.acceptPush, Fifo.pushOrderOk, Bool.and_eq_true, Bool.or_eq_true,
      decide_eq_true_eq] at h
    exact h.2
  rw [hacc.2]
  rcases hok with hempty | hlast
  · rw [empty_iff.mp hempty] at ha
    cases ha
  · rw [hv.last_eq] at hlast
    exact BitVec.le_trans (le_newest hv.ordered ha) hlast

theorem accepted_eq {f : Fifo D W I} {i : FifoInput W I} (h : i.clear = false) :
    f.accepted i = if f.acceptPush i then [i.pushEvent] else [] := by
  simp [Fifo.accepted, h]

theorem step_write_eq {f : Fifo D W I} {i : FifoInput W I} (hD : D < 65536) (hv : f.Valid)
    (h : i.clear = false) :
    (f.step i).writePtr.toNat = ((f.step i).readPtr.toNat + (f.step i).count.toNat) % D := by
  have hD0 : 0 < D := Nat.lt_of_le_of_lt (Nat.zero_le _) hv.read_lt
  have hw : f.writePtr.toNat < D := hv.write_eq ▸ Nat.mod_lt _ hD0
  have hwrite : (f.step i).writePtr.toNat =
      (f.readPtr.toNat + (f.count.toNat + (f.accepted i).length)) % D := by
    have hstep : (f.step i).writePtr = (f.store i).writePtr := by
      cases hp : f.acceptPop i <;> simp [Fifo.step, h, Fifo.release, hp]
    cases ha : f.acceptPush i with
    | false =>
        obtain ⟨_, _, he⟩ := store_reject ha
        simp [hstep, he, accepted_eq h, ha, hv.write_eq]
    | true =>
        simp only [hstep, store_accept ha, accepted_eq h, ha, if_true, List.length_singleton]
        rw [advance_toNat hw, next_eq_mod hw, hv.write_eq, Nat.mod_add_mod, Nat.add_assoc]
  have hcount : (f.step i).count = f.nextCount i := by simp [Fifo.step, h]
  have hread : (f.step i).readPtr = if f.acceptPop i then advance D f.readPtr else f.readPtr := by
    cases hp : f.acceptPop i <;> simp [Fifo.step, h, Fifo.release, hp, store_readPtr]
  rw [hwrite, hcount, hread, nextCount_toNat hD hv h]
  cases hp : f.acceptPop i with
  | false => simp
  | true =>
      have hpos := count_pos_of_acceptPop hp
      simp only [if_true]
      rw [advance_toNat hv.read_lt, next_eq_mod hv.read_lt, Nat.mod_add_mod]
      congr 1
      omega

theorem step_last_eq {f : Fifo D W I} {i : FifoInput W I} (hD : D < 65536) (hv : f.Valid)
    (h : i.clear = false) : (f.step i).lastTimestamp = newest (f.step i).contents := by
  rw [step_contents hD hv h, accepted_eq h]
  cases ha : f.acceptPush i with
  | true =>
      have hl : (f.step i).lastTimestamp = i.pushEvent.timestamp := by
        cases hp : f.acceptPop i <;> simp [Fifo.step, h, Fifo.release, hp, ha, store_accept ha]
      rw [hl, if_pos rfl, newest_append]
  | false =>
      obtain ⟨_, _, he⟩ := store_reject ha
      simp only [Bool.false_eq_true, if_false, List.append_nil]
      cases hp : f.acceptPop i with
      | false =>
          have hl : (f.step i).lastTimestamp = f.lastTimestamp := by
            simp [Fifo.step, h, Fifo.release, hp, he]
          rw [hl, hv.last_eq]
          cases hpop : i.pop with
          | false => rfl
          | true =>
              have hem : f.empty = true := by simpa [Fifo.acceptPop, hpop] using hp
              simp [empty_iff.mp hem]
      | true =>
          have hl : (f.step i).lastTimestamp = if f.count == 1 then 0 else f.lastTimestamp := by
            simp [Fifo.step, h, Fifo.release, hp, ha, he]
          obtain ⟨hpop, hne⟩ := acceptPop_iff.mp hp
          obtain ⟨e, q, hq⟩ := List.exists_cons_of_ne_nil hne
          have hlen : f.count.toNat = q.length + 1 := by
            rw [← contents_length, hq, List.length_cons]
          rw [hl, hpop, if_pos rfl, hq, List.tail_cons, hv.last_eq, hq]
          by_cases hn : q = []
          · subst hn
            have h1 : f.count = 1 := BitVec.eq_of_toNat_eq hlen
            rw [h1]
            rfl
          · have h1 : (f.count == 1) = false := by
              rw [beq_eq_false_iff_ne]
              intro h1
              rw [h1] at hlen
              exact hn (List.length_eq_zero_iff.mp (Nat.succ.inj hlen).symm)
            rw [h1, newest_tail e q hn]
            rfl

theorem step_valid {f : Fifo D W I} (hD : D < 65536) (hv : f.Valid) (i : FifoInput W I) :
    (f.step i).Valid := by
  have hD0 : 0 < D := Nat.lt_of_le_of_lt (Nat.zero_le _) hv.read_lt
  cases h : i.clear with
  | true => rw [step_clear h]; exact cleared_valid hD0 f
  | false =>
      refine ⟨?_, ?_, step_write_eq hD hv h, step_last_eq hD hv h, ?_⟩
      · cases hp : f.acceptPop i with
        | false => simpa [Fifo.step, h, Fifo.release, hp, store_readPtr] using hv.read_lt
        | true =>
            simp only [Fifo.step, h, Fifo.release, hp, if_true, Bool.false_eq_true, if_false]
            rw [advance_toNat hv.read_lt]
            exact next_lt hv.read_lt
      · have hcount : (f.step i).count = f.nextCount i := by simp [Fifo.step, h]
        rw [hcount, nextCount_toNat hD hv h]
        have hc := hv.count_le
        have hl : f.count.toNat + (f.accepted i).length ≤ D := by
          rw [accepted_eq h]
          split
          · rename_i ha
            exact count_lt_of_acceptPush ha
          · exact hc
        omega
      · rw [step_contents hD hv h, List.pairwise_append]
        refine ⟨?_, ?_, ?_⟩
        · split
          · exact hv.ordered.sublist (List.tail_sublist _)
          · exact hv.ordered
        · rw [accepted_eq h]
          split
          · exact List.pairwise_singleton _ _
          · exact List.Pairwise.nil
        · intro a ha e he
          refine accepted_ordered hv ?_ he
          split at ha
          · exact List.mem_of_mem_tail ha
          · exact ha

theorem head_contents {f : Fifo D W I} (hv : f.Valid) {e : Event W I} {q : List (Event W I)}
    (hq : f.contents = e :: q) : f.empty = false ∧ f.head = e := by
  have hem : f.empty = false := by
    cases h : f.empty with
    | false => rfl
    | true => rw [empty_iff.mp h] at hq; cases hq
  have hlen : f.count.toNat = q.length + 1 := by rw [← contents_length, hq, List.length_cons]
  refine ⟨hem, ?_⟩
  rw [Fifo.contents, hlen, ring_pop _ hv.read_lt] at hq
  simpa [Fifo.head, hem] using (List.cons.inj hq).1

theorem full_step_of_no_push {f : Fifo D W I} {i : FifoInput W I} (hp : i.push = false)
    (h : f.full = false) : (f.step i).full = false := by
  have hlt := full_eq_false.mp h
  refine full_eq_false.mpr ?_
  cases hc : i.clear with
  | true =>
      rw [step_clear hc]
      exact Nat.lt_of_le_of_lt (Nat.zero_le _) hlt
  | false =>
      have hcount : (f.step i).count = f.nextCount i := by simp [Fifo.step, hc]
      have ha : f.acceptPush i = false := by simp [Fifo.acceptPush, hp]
      rw [hcount, Fifo.nextCount, ha]
      cases hpop : f.acceptPop i with
      | false => exact hlt
      | true =>
          have hpos := count_pos_of_acceptPop hpop
          have h1 : (1 : BitVec 16).toNat = 1 := rfl
          simp only [BitVec.toNat_sub]
          omega

end HilLab.Rtl.EventFifo
