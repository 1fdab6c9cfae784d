import HilLab.Pru.PwmCaptureCore

namespace HilLab.Pru.PwmSeqlock

open Lib.Seqlock PwmCaptureCore

theorem channelWord_ne (i field : Nat) : channelWord i field ≠ seqLock := by
  rw [channelWord, seqLock]
  omega

theorem pairWord_ne (i field : Nat) : pairWord i field ≠ seqLock := by
  rw [pairWord, seqLock]
  omega

theorem ringWord_ne (slot field : Nat) : ringWord slot field ≠ seqLock := by
  rw [ringWord, summaryWords, seqLock]
  omega

/-- The call runs by the rule of the lock, and leaves it even. -/
def Publishes (c : Code 32) : Prop :=
  ∀ m : Memory 32, odd (m seqLock) = false →
    Disciplined seqLock (m seqLock) (c m) ∧ odd (run m (c m) seqLock) = false

theorem process_bracketed (ticks inputs : Word) : Bracketed seqLock (process ticks inputs) := by
  refine .whenever (.reading (fun previous => .whenever (.update ?_)))
  exact avoids_cons (avoids_set (by decide) _) (avoids_cons (avoids_set (by decide) _)
    (avoids_cons (avoids_set (by decide) _) (avoids_cons (avoids_increment (by decide))
      (avoids_cons (avoids_forEach (fun i => channelEdges_avoids (fun _ _ => channelWord_ne i _) _ _ _))
        (avoids_cons
          (avoids_forEach (fun i => pairEdges_avoids (fun _ _ => pairWord_ne i _) (by decide) _ _ _ _))
          (avoids_cons (pushEdgeRecord_avoids (fun _ _ _ => ringWord_ne _ _) (by decide) (by decide) _ _ _)
            avoids_skip))))))

theorem op_bracketed {op : Op} (h : ∀ inputs, op ≠ .clear inputs) : Bracketed seqLock op.code := by
  cases op with
  | start ticks inputs =>
      exact .update (avoids_cons (avoids_set (by decide) _) (avoids_cons
        (avoids_set (by decide) _) (avoids_cons (avoids_set (by decide) _) (avoids_cons
          (avoids_set (by decide) _) avoids_skip))))
  | stop => exact .update (avoids_set (by decide) _)
  | setMinDeadtime ticks => exact .update (avoids_set (by decide) _)
  | process ticks inputs => exact process_bracketed ticks inputs
  | clear inputs => exact absurd rfl (h inputs)

theorem op_publishes {op : Op} (h : ∀ inputs, op ≠ .clear inputs) : Publishes op.code :=
  fun _ hm => (op_bracketed h).disciplined (by decide) hm

theorem calls_publish {ops : List Op} (h : ∀ inputs, Op.clear inputs ∉ ops) :
    Publishes (calls ops) := by
  induction ops with
  | nil => exact fun _ hm => ⟨trivial, hm⟩
  | cons op ops ih =>
      intro m hm
      obtain ⟨hd, he⟩ := op_publishes (fun inputs heq => h inputs (heq ▸ List.mem_cons_self)) m hm
      obtain ⟨hd', he'⟩ := ih (fun inputs hmem => h inputs (List.mem_cons_of_mem op hmem)) _ he
      rw [run_lock hd] at hd'
      have happ : calls (op :: ops) m = op.code m ++ calls ops (run m (op.code m)) := rfl
      rw [happ]
      refine ⟨disciplined_append.mpr ⟨hd, hd'⟩, ?_⟩
      rw [run_append]
      exact he'

/-- With the lock even, the writer is between two calls. -/
theorem calls_boundary {ops : List Op} (h : ∀ inputs, Op.clear inputs ∉ ops) {m : Memory 32}
    (hm : odd (m seqLock) = false) {a b : Stores 32} (hcalls : calls ops m = a ++ b)
    (heven : odd (run m a seqLock) = false) :
    ∃ k, k ≤ ops.length ∧ a = calls (ops.take k) m ∧ b = calls (ops.drop k) (run m a) := by
  induction ops generalizing m a with
  | nil =>
      obtain ⟨rfl, rfl⟩ := List.append_eq_nil_iff.mp hcalls.symm
      exact ⟨0, Nat.le_refl 0, rfl, rfl⟩
  | cons op ops ih =>
      have hop : ∀ inputs, op ≠ .clear inputs := fun inputs heq => h inputs (heq ▸ List.mem_cons_self)
      have hcode : calls (op :: ops) m = op.code m ++ calls ops (run m (op.code m)) := rfl
      have hnext := (op_publishes hop m hm).2
      have hrest {a' : Stores 32} (hrun : calls ops (run m (op.code m)) = a' ++ b)
          (heven' : odd (run (run m (op.code m)) a' seqLock) = false) :=
        ih (fun inputs hmem => h inputs (List.mem_cons_of_mem op hmem)) hnext hrun heven'
      -- the first call: not begun, done, or cut in two
      rw [hcode] at hcalls
      rcases List.append_eq_append_iff.mp hcalls with ⟨a', ha, hrun⟩ | ⟨c, hc, hb⟩
      · rw [ha, run_append] at heven
        obtain ⟨k, hk, ha', hb⟩ := hrest hrun heven
        rw [ha]
        refine ⟨k + 1, Nat.succ_le_succ hk, ?_, ?_⟩
        · rw [ha']
          rfl
        · rw [run_append]
          exact hb
      · rcases (op_bracketed hop).whole (by decide) m a c hm hc heven with rfl | rfl
        · have hwhole : c = op.code m := hc.symm
          rw [hb, hwhole]
          exact ⟨0, Nat.zero_le _, rfl, rfl⟩
        · rw [List.append_nil] at hc
          have hone : calls (List.take 1 (op :: ops)) m = op.code m ++ [] := rfl
          rw [hb, ← hc]
          exact ⟨1, Nat.succ_le_succ (Nat.zero_le _), hone.symm ▸ (List.append_nil _).symm, rfl⟩

section Clear

theorem clearWords_run (n : Nat) (m : Memory 32) (addr : Nat) :
    run m (clearWords n m) addr = if addr < n then 0 else m addr := by
  induction n with
  | zero => rfl
  | succ n ih =>
      have hsplit : clearWords (n + 1) m = clearWords n m ++ [(n, 0)] := by
        rw [clearWords, forEach, List.range_succ, List.map_append, seq_append]
        rfl
      have hlast : run m (clearWords (n + 1) m) =
          Function.update (run m (clearWords n m)) n 0 := by
        rw [hsplit, run_append]
        rfl
      rw [hlast]
      by_cases h : addr = n
      · rw [h, Function.update_self, if_pos (Nat.lt_succ_self n)]
      · have hlt : addr < n + 1 ↔ addr < n := by omega
        rw [Function.update_of_ne h, ih]
        simp only [hlt]

theorem initialised_zero {addr : Nat} (hlt : addr < sharedWords)
    (hset : ∀ a ∈ [magic, version, totalSize, tickHz, channelCountWord, pairCountWord,
      ringCapacityWord, minDeadtimeTicks], a ≠ addr) (m : Memory 32) (hz minDeadtime : Word) :
    initialised m hz minDeadtime addr = 0 := by
  simp only [List.forall_mem_cons] at hset
  obtain ⟨h1, h2, h3, h4, h5, h6, h7, h8, -⟩ := hset
  have hrest : Avoids addr
      (seq
        [set magic sharedMagic, set version sharedVersion,
          set totalSize (BitVec.ofNat 32 (4 * sharedWords)), set tickHz hz,
          set channelCountWord (BitVec.ofNat 32 channelCount),
          set pairCountWord (BitVec.ofNat 32 pairCount),
          set ringCapacityWord (BitVec.ofNat 32 ringCapacity),
          set minDeadtimeTicks minDeadtime]) :=
    avoids_cons (avoids_set h1 _) (avoids_cons (avoids_set h2 _) (avoids_cons
      (avoids_set h3 _) (avoids_cons (avoids_set h4 _) (avoids_cons
        (avoids_set h5 _) (avoids_cons (avoids_set h6 _) (avoids_cons
          (avoids_set h7 _) (avoids_cons (avoids_set h8 _) avoids_skip)))))))
  have hinit : initialised m hz minDeadtime =
      run (run m (clearWords sharedWords m)) (seq _ (run m (clearWords sharedWords m))) :=
    run_append m _ _
  rw [hinit, run_of_avoids hrest, clearWords_run, if_pos hlt]

theorem initialised_seqLock (m : Memory 32) (hz minDeadtime : Word) :
    initialised m hz minDeadtime seqLock = 0 :=
  initialised_zero (by decide) (by decide) m hz minDeadtime

theorem clear_head (inputs : Word) (m : Memory 32) :
    ∃ t, (Op.clear inputs).code m = (magic, 0) :: t := by
  have hrange : List.range sharedWords = 0 :: List.map Nat.succ (List.range (sharedWords - 1)) :=
    List.range_succ_eq_map
  have hwords : clearWords sharedWords = seq (set 0 0 :: (List.map Nat.succ
      (List.range (sharedWords - 1))).map (fun i => set i 0)) := by
    rw [clearWords, forEach, hrange, List.map_cons]
  have hinit (hz minDeadtime : Word) : ∃ t, init hz minDeadtime m = (magic, 0) :: t := by
    rw [init, seq, hwords]
    exact ⟨_, rfl⟩
  obtain ⟨t, ht⟩ := hinit (m tickHz) (m minDeadtimeTicks)
  have happ : (Op.clear inputs).code m = init (m tickHz) (m minDeadtimeTicks) m ++
      seq [set inputBits (inputs &&& logicalMask), set running (m running)]
        (run m (init (m tickHz) (m minDeadtimeTicks) m)) := rfl
  rw [happ, ht]
  exact ⟨_, rfl⟩

/-- The stores before the first clear follow the rule; then the magic word is
stored to under an even lock. -/
theorem calls_to_first_clear {ops : List Op} (h : ∃ inputs, Op.clear inputs ∈ ops) (m : Memory 32)
    (hm : odd (m seqLock) = false) :
    ∃ a c, calls ops m = a ++ (magic, 0) :: c ∧ odd (run m a seqLock) = false := by
  induction ops generalizing m with
  | nil =>
      obtain ⟨_, hmem⟩ := h
      cases hmem
  | cons op ops ih =>
      have happ : calls (op :: ops) m = op.code m ++ calls ops (run m (op.code m)) := rfl
      by_cases hc : ∃ inputs, op = .clear inputs
      · obtain ⟨inputs, rfl⟩ := hc
        obtain ⟨t, ht⟩ := clear_head inputs m
        rw [happ, ht]
        exact ⟨[], _, rfl, hm⟩
      · have hpub := op_publishes (fun inputs heq => hc ⟨inputs, heq⟩) m hm
        have hrest : ∃ inputs, Op.clear inputs ∈ ops := by
          obtain ⟨inputs, hmem⟩ := h
          rcases List.mem_cons.mp hmem with heq | hmem
          · exact absurd ⟨inputs, heq.symm⟩ hc
          · exact ⟨inputs, hmem⟩
        obtain ⟨a, c, htrace, heven⟩ := ih hrest (run m (op.code m)) hpub.2
        refine ⟨op.code m ++ a, c, ?_, ?_⟩
        · rw [happ, htrace, List.append_assoc]
        · rw [run_append]
          exact heven

theorem not_consistent_of_clear {ops : List Op} (h : ∃ inputs, Op.clear inputs ∈ ops)
    {m : Memory 32} (hm : odd (m seqLock) = false) :
    ¬ Consistent seqLock summaryWords m (calls ops m) := by
  obtain ⟨a, c, htrace, heven⟩ := calls_to_first_clear h m hm
  intro hcons
  have hsplit : calls ops m = a ++ [(magic, 0)] ++ c := by
    rw [htrace, List.append_assoc]
    rfl
  have hsame : run m (a ++ [(magic, 0)]) seqLock = run m a seqLock := by
    rw [run_append]
    have hne : seqLock ≠ magic := by decide
    exact Function.update_of_ne hne (0 : Word) (run m a)
  have hlock := hcons a [(magic, 0)] c hsplit hsame heven (by decide) (magic, 0)
    List.mem_cons_self (by decide)
  exact absurd hlock (by decide)

end Clear

/-- After one init the writer keeps the discipline of the lock exactly in the
sequences of calls without a clear. -/
theorem consistent_iff_no_clear (m : Memory 32) (hz minDeadtime : Word) (ops : List Op) :
    Consistent seqLock summaryWords (initialised m hz minDeadtime)
        (calls ops (initialised m hz minDeadtime)) ↔
      ∀ inputs, Op.clear inputs ∉ ops := by
  have heven : odd (initialised m hz minDeadtime seqLock) = false := by
    rw [initialised_seqLock]
    rfl
  constructor
  · intro h inputs hmem
    exact not_consistent_of_clear ⟨inputs, hmem⟩ heven h
  · intro h
    exact consistent_of_disciplined (calls_publish h _ heven).1 summaryWords

theorem clear_breaks_discipline :
    ¬ Consistent seqLock summaryWords (initialised (fun _ => 0) 200000000 0)
      (calls [.clear 0] (initialised (fun _ => 0) 200000000 0)) := by
  refine not_consistent_of_clear ⟨0, List.mem_cons_self⟩ ?_
  rw [initialised_seqLock]
  rfl

end HilLab.Pru.PwmSeqlock
