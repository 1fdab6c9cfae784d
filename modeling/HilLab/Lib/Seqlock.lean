import Mathlib.Algebra.Group.Nat.Defs
import Mathlib.Logic.Function.Basic

namespace HilLab.Lib.Seqlock

variable {w : Nat}

abbrev Memory (w : Nat) := Nat → BitVec w

abbrev Stores (w : Nat) := List (Nat × BitVec w)

def run (m : Memory w) (t : Stores w) : Memory w :=
  t.foldl (fun m s => Function.update m s.1 s.2) m

/-- Code is the list of stores it performs from a given memory. -/
abbrev Code (w : Nat) := Memory w → Stores w

def skip : Code w := fun _ => []

def store (addr : Nat) (value : Memory w → BitVec w) : Code w := fun m => [(addr, value m)]

def seq : List (Code w) → Code w
  | [] => skip
  | c :: cs => fun m => c m ++ seq cs (run m (c m))

def reading {α : Type} (f : Memory w → α) (c : α → Code w) : Code w := fun m => c (f m) m

def whenever (b : Memory w → Bool) (c : Code w) : Code w := fun m => if b m then c m else []

theorem run_append (m : Memory w) (a b : Stores w) : run m (a ++ b) = run (run m a) b :=
  List.foldl_append

theorem seq_append (a b : List (Code w)) (m : Memory w) :
    seq (a ++ b) m = seq a m ++ seq b (run m (seq a m)) := by
  induction a generalizing m with
  | nil => rfl
  | cons c a ih =>
      simp only [List.cons_append, seq, ih, run_append, List.append_assoc]

section Avoids

def Avoids (addr : Nat) (c : Code w) : Prop := ∀ m, ∀ s ∈ c m, s.1 ≠ addr

variable {addr : Nat}

theorem avoids_skip : Avoids addr (skip : Code w) := fun _ _ hs => absurd hs List.not_mem_nil

theorem avoids_store {a : Nat} (h : a ≠ addr) (value : Memory w → BitVec w) :
    Avoids addr (store a value) := by
  intro m s hs
  rw [List.mem_singleton.mp hs]
  exact h

theorem avoids_cons {c : Code w} {cs : List (Code w)} (hc : Avoids addr c)
    (hcs : Avoids addr (seq cs)) : Avoids addr (seq (c :: cs)) := by
  intro m s hs
  rcases List.mem_append.mp hs with hs | hs
  · exact hc m s hs
  · exact hcs _ s hs

theorem avoids_ite {p : Prop} [Decidable p] {a b : Code w} (ha : Avoids addr a)
    (hb : Avoids addr b) : Avoids addr (if p then a else b) := by
  split
  · exact ha
  · exact hb

theorem avoids_seq {cs : List (Code w)} (h : ∀ c ∈ cs, Avoids addr c) : Avoids addr (seq cs) := by
  induction cs with
  | nil => exact avoids_skip
  | cons c cs ih =>
      exact avoids_cons (h c List.mem_cons_self) (ih (fun d hd => h d (List.mem_cons_of_mem c hd)))

theorem avoids_reading {α : Type} {f : Memory w → α} {c : α → Code w}
    (h : ∀ a, Avoids addr (c a)) : Avoids addr (reading f c) := fun m => h (f m) m

theorem avoids_whenever {b : Memory w → Bool} {c : Code w} (h : Avoids addr c) :
    Avoids addr (whenever b c) := by
  intro m s hs
  rw [whenever] at hs
  split at hs
  · exact h m s hs
  · cases hs

theorem run_of_avoids {c : Code w} (h : Avoids addr c) (m : Memory w) :
    run m (c m) addr = m addr := by
  have hall := h m
  generalize c m = t at hall ⊢
  induction t generalizing m with
  | nil => rfl
  | cons s t ih =>
      have hs := hall s List.mem_cons_self
      refine (ih (Function.update m s.1 s.2)
        (fun u hu => hall u (List.mem_cons_of_mem s hu))).trans ?_
      exact Function.update_of_ne (Ne.symm hs) _ _

end Avoids

section Discipline

variable (lock : Nat)

def odd (x : BitVec w) : Bool := x.getLsbD 0

theorem odd_add_one (hw : 0 < w) (x : BitVec w) : odd (x + 1#w) = !odd x := by
  have hdvd : 2 ∣ 2 ^ w := Nat.pow_dvd_pow 2 hw
  have h1 : (1#w).toNat = 1 := by
    rw [BitVec.toNat_ofNat]
    exact Nat.mod_eq_of_lt (Nat.one_lt_two_pow (Nat.pos_iff_ne_zero.mp hw))
  rw [odd, odd, ← BitVec.testBit_toNat, ← BitVec.testBit_toNat, Nat.testBit_zero, Nat.testBit_zero,
    BitVec.toNat_add, h1, Nat.mod_mod_of_dvd _ hdvd]
  rcases Nat.mod_two_eq_zero_or_one x.toNat with h | h <;> simp [Nat.add_mod, h]

/-- The writer's rule: the lock word only ever counts up by one, and every
other store happens while it is odd. The argument is the lock before. -/
def Disciplined : BitVec w → Stores w → Prop
  | _, [] => True
  | x, s :: t =>
      if s.1 = lock then s.2 = x + 1#w ∧ Disciplined (x + 1#w) t
      else odd x = true ∧ Disciplined x t

def lockStores (t : Stores w) : Nat := t.countP (fun s => s.1 == lock)

variable {lock}

theorem lockStores_cons_lock {s : Nat × BitVec w} (h : s.1 = lock) (t : Stores w) :
    lockStores lock (s :: t) = lockStores lock t + 1 :=
  List.countP_cons_of_pos (by simp [h])

theorem lockStores_cons_other {s : Nat × BitVec w} (h : s.1 ≠ lock) (t : Stores w) :
    lockStores lock (s :: t) = lockStores lock t :=
  List.countP_cons_of_neg (by simp [h])

theorem lockStores_append (a b : Stores w) :
    lockStores lock (a ++ b) = lockStores lock a + lockStores lock b := List.countP_append

theorem add_count_succ (x : BitVec w) (n : Nat) :
    x + 1#w + BitVec.ofNat w n = x + BitVec.ofNat w (n + 1) := by
  rw [BitVec.add_assoc, BitVec.add_comm 1#w, ← BitVec.ofNat_add]

theorem disciplined_append {x : BitVec w} {a b : Stores w} :
    Disciplined lock x (a ++ b) ↔
      Disciplined lock x a ∧ Disciplined lock (x + BitVec.ofNat w (lockStores lock a)) b := by
  induction a generalizing x with
  | nil => simp [Disciplined, lockStores]
  | cons s a ih =>
      by_cases hs : s.1 = lock
      · simp only [List.cons_append, Disciplined, hs, if_true, ih, and_assoc,
          lockStores_cons_lock hs, add_count_succ]
      · simp only [List.cons_append, Disciplined, hs, if_false, ih, and_assoc,
          lockStores_cons_other hs]

theorem run_lock {m : Memory w} {t : Stores w} (h : Disciplined lock (m lock) t) :
    run m t lock = m lock + BitVec.ofNat w (lockStores lock t) := by
  induction t generalizing m with
  | nil => simp [run, lockStores]
  | cons s t ih =>
      by_cases hs : s.1 = lock
      · simp only [Disciplined, hs, if_true] at h
        have hm : Function.update m s.1 s.2 lock = m lock + 1#w := by
          rw [hs, Function.update_self, h.1]
        have hrun := ih (m := Function.update m s.1 s.2) (by rw [hm]; exact h.2)
        rw [hm, add_count_succ] at hrun
        rw [lockStores_cons_lock hs]
        exact hrun
      · simp only [Disciplined, hs, if_false] at h
        have hm : Function.update m s.1 s.2 lock = m lock := Function.update_of_ne (Ne.symm hs) _ _
        have hrun := ih (m := Function.update m s.1 s.2) (by rw [hm]; exact h.2)
        rw [hm] at hrun
        rw [lockStores_cons_other hs]
        exact hrun

/-- What a reader relies on: between two instants with the same even lock, less
than a wrap of the lock apart, nothing but the lock is stored to below the
limit. -/
def Consistent (lock limit : Nat) (m : Memory w) (t : Stores w) : Prop :=
  ∀ a b c, t = a ++ b ++ c → run m (a ++ b) lock = run m a lock → odd (run m a lock) = false →
    lockStores lock b < 2 ^ w → ∀ s ∈ b, s.1 < limit → s.1 = lock

/-- A disciplined writer stores nothing between two instants with the same even
lock, less than a wrap of the lock apart: they are the same instant. -/
theorem stretch_nil {m : Memory w} {a b c : Stores w}
    (h : Disciplined lock (m lock) (a ++ b ++ c)) (hsame : run m (a ++ b) lock = run m a lock)
    (heven : odd (run m a lock) = false) (hwrap : lockStores lock b < 2 ^ w) : b = [] := by
  rw [List.append_assoc] at h
  obtain ⟨ha, hbc⟩ := disciplined_append.mp h
  rw [← run_lock ha] at hbc
  have hb := (disciplined_append.mp hbc).1
  rw [run_append, run_lock hb] at hsame
  have hzero : lockStores lock b = 0 := by
    have hn := congrArg BitVec.toNat (BitVec.add_right_eq_self.mp hsame)
    rwa [BitVec.toNat_ofNat, Nat.mod_eq_of_lt hwrap] at hn
  cases b with
  | nil => rfl
  | cons s b =>
      by_cases hlock : s.1 = lock
      · rw [lockStores_cons_lock hlock] at hzero
        cases hzero
      · simp only [Disciplined, hlock, if_false] at hb
        rw [heven] at hb
        exact absurd hb.1 Bool.false_ne_true

theorem consistent_of_disciplined {m : Memory w} {t : Stores w}
    (h : Disciplined lock (m lock) t) (limit : Nat) : Consistent lock limit m t := by
  intro a b c ht hsame heven hwrap s hs _
  rw [ht] at h
  rw [stretch_nil h hsame heven hwrap] at hs
  cases hs

end Discipline

section Update

variable {lock : Nat}

def bump (lock : Nat) : Code w := store lock (fun m => m lock + 1#w)

def update (lock : Nat) (body : Code w) : Code w := seq [bump lock, body, bump lock]

theorem disciplined_of_avoids {x : BitVec w} (hx : odd x = true) {t : Stores w}
    (h : ∀ s ∈ t, s.1 ≠ lock) : Disciplined lock x t := by
  induction t with
  | nil => trivial
  | cons s t ih =>
      have hs := h s List.mem_cons_self
      simp only [Disciplined, hs, if_false]
      exact ⟨hx, ih (fun u hu => h u (List.mem_cons_of_mem s hu))⟩

theorem update_eq {body : Code w} (hb : Avoids lock body) (m : Memory w) :
    update lock body m =
      (lock, m lock + 1#w) :: (body (Function.update m lock (m lock + 1#w)) ++
        [(lock, m lock + 1#w + 1#w)]) := by
  have h1 : Function.update m lock (m lock + 1#w) lock = m lock + 1#w := Function.update_self _ _ _
  have h2 := run_of_avoids hb (Function.update m lock (m lock + 1#w))
  rw [h1] at h2
  have hbump := congrArg (fun x => [(lock, x + 1#w)]) h2
  simp only [update, seq, bump, store, skip, run, List.foldl_cons, List.foldl_nil,
    List.append_nil, List.cons_append, List.nil_append] at hbump ⊢
  rw [hbump]

theorem lockStores_avoids {c : Code w} (h : Avoids lock c) (m : Memory w) :
    lockStores lock (c m) = 0 := by
  refine List.countP_eq_zero.mpr (fun s hs => ?_)
  simpa using h m s hs

/-- A bracketed update follows the rule and leaves the lock even. -/
theorem update_disciplined (hw : 0 < w) {body : Code w} (hb : Avoids lock body) {m : Memory w}
    (hm : odd (m lock) = false) :
    Disciplined lock (m lock) (update lock body m) ∧
      odd (run m (update lock body m) lock) = false := by
  have hodd : odd (m lock + 1#w) = true := by rw [odd_add_one hw, hm]; rfl
  have hlist := update_eq hb m
  have hnone := lockStores_avoids hb (Function.update m lock (m lock + 1#w))
  have hd : Disciplined lock (m lock) (update lock body m) := by
    rw [hlist]
    simp only [Disciplined, if_true, true_and]
    refine disciplined_append.mpr ⟨disciplined_of_avoids hodd (hb _), ?_⟩
    rw [hnone]
    simp [Disciplined]
  refine ⟨hd, ?_⟩
  have hcount : lockStores lock (update lock body m) = 2 := by
    have hfirst : ((lock, m lock + 1#w) : Nat × BitVec w).1 = lock := rfl
    have hlast : ((lock, m lock + 1#w + 1#w) : Nat × BitVec w).1 = lock := rfl
    rw [hlist, lockStores_cons_lock hfirst, lockStores_append, hnone, lockStores_cons_lock hlast]
    rfl
  have htwo : m lock + BitVec.ofNat w 2 = m lock + 1#w + 1#w := by
    rw [BitVec.add_assoc, ← BitVec.ofNat_add]
  rw [run_lock hd, hcount, htwo, odd_add_one hw, hodd]
  rfl

/-- With the lock even, the code has not begun or is done. -/
def Whole (lock : Nat) (c : Code w) : Prop :=
  ∀ m a b, odd (m lock) = false → c m = a ++ b → odd (run m a lock) = false → a = [] ∨ b = []

theorem whole_whenever {p : Memory w → Bool} {c : Code w} (h : Whole lock c) :
    Whole lock (whenever p c) := by
  intro m a b hm hcode heven
  rw [whenever] at hcode
  split at hcode
  · exact h m a b hm hcode heven
  · exact .inl (List.append_eq_nil_iff.mp hcode.symm).1

theorem whole_reading {α : Type} {f : Memory w → α} {c : α → Code w} (h : ∀ x, Whole lock (c x)) :
    Whole lock (reading f c) := fun m a b hm hcode heven => h (f m) m a b hm hcode heven

theorem whole_update (hw : 0 < w) {body : Code w} (hb : Avoids lock body) :
    Whole lock (update lock body) := by
  intro m a b hm hcode heven
  rw [update_eq hb] at hcode
  cases a with
  | nil => exact .inl rfl
  | cons s a =>
      rw [List.cons_append, List.cons.injEq] at hcode
      obtain ⟨rfl, hrest⟩ := hcode
      rcases List.eq_nil_or_concat b with rfl | ⟨b, last, rfl⟩
      · exact .inr rfl
      · rw [List.concat_eq_append, ← List.append_assoc] at hrest
        have hbody := (List.append_inj' hrest rfl).1
        have havoid : ∀ s ∈ a, s.1 ≠ lock := by
          intro s hs
          refine hb (Function.update m lock (m lock + 1#w)) s ?_
          rw [hbody]
          exact List.mem_append_left _ hs
        have hstay : run (Function.update m lock (m lock + 1#w)) a lock = m lock + 1#w := by
          have hcode : Avoids lock (fun _ : Memory w => a) := fun _ => havoid
          rw [run_of_avoids hcode]
          exact Function.update_self _ _ _
        have hodd : odd (m lock + 1#w) = false := by
          rw [← hstay]
          exact heven
        rw [odd_add_one hw, hm] at hodd
        cases hodd

/-- Code that does nothing, or one bracketed update. -/
inductive Bracketed (lock : Nat) : Code w → Prop
  | update {body : Code w} (h : Avoids lock body) : Bracketed lock (update lock body)
  | whenever {p : Memory w → Bool} {c : Code w} (h : Bracketed lock c) :
      Bracketed lock (whenever p c)
  | reading {α : Type} {f : Memory w → α} {c : α → Code w} (h : ∀ x, Bracketed lock (c x)) :
      Bracketed lock (reading f c)

theorem Bracketed.disciplined (hw : 0 < w) {c : Code w} (h : Bracketed lock c) {m : Memory w}
    (hm : odd (m lock) = false) :
    Disciplined lock (m lock) (c m) ∧ odd (run m (c m) lock) = false := by
  induction h with
  | update hb => exact update_disciplined hw hb hm
  | @whenever p c _ ih =>
      rw [Seqlock.whenever]
      split
      · exact ih
      · exact ⟨trivial, hm⟩
  | reading _ ih => exact ih _

theorem Bracketed.whole (hw : 0 < w) {c : Code w} (h : Bracketed lock c) : Whole lock c := by
  induction h with
  | update hb => exact whole_update hw hb
  | whenever _ ih => exact whole_whenever ih
  | reading _ ih => exact whole_reading ih

end Update

end HilLab.Lib.Seqlock
