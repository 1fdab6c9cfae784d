import HilLab.Rtl.AbzEncoderCapture
import HilLab.Rtl.PwmLoopback

namespace HilLab.Boards.GatedLoopback

open Lib.Clocked Lib.Edges Lib.Quadrature Rtl.PwmCapture Rtl.CaptureEdges Rtl.PwmGenerator
open Rtl.PwmLoopback Rtl.AbzEncoderCapture

section Counter

variable (x : Nat → GeneratorInput)

theorem counter_succ (n : Nat) :
    (generated x (n + 1)).counter.toNat = 0 ∨
      (generated x (n + 1)).counter.toNat = (generated x n).counter.toNat + 1 := by
  have hstep : generated x (n + 1) = (generated x n).step (x n) := rfl
  rw [hstep, Generator.step]
  split
  · exact .inl rfl
  · rename_i hon
    cases hlast : (generated x n).lastTick (x n) with
    | true => exact .inl rfl
    | false =>
        right
        have hlt : (generated x n).counter.toNat < ((x n).periodTicks - 1).toNat := by
          rw [Generator.lastTick, decide_eq_false_iff_not, BitVec.le_def] at hlast
          omega
        have hbound := ((x n).periodTicks - 1).isLt
        simp only [Bool.false_eq_true, if_false, BitVec.toNat_add]
        exact Nat.mod_eq_of_lt (by simp; omega)

theorem counter_back (n j : Nat) (hj : j ≤ (generated x n).counter.toNat) :
    j ≤ n ∧ (generated x (n - j)).counter.toNat + j = (generated x n).counter.toNat := by
  induction n generalizing j with
  | zero =>
      have hzero : (generated x 0).counter.toNat = 0 := rfl
      have hj0 : j = 0 := by omega
      subst hj0
      exact ⟨Nat.le_refl 0, rfl⟩
  | succ n ih =>
      cases j with
      | zero => exact ⟨Nat.zero_le _, rfl⟩
      | succ j =>
          rcases counter_succ x n with hzero | hnext
          · omega
          · obtain ⟨hle, heq⟩ := ih j (by omega)
            rw [Nat.add_sub_add_right]
            exact ⟨by omega, by omega⟩

theorem pwmHigh_counter {n : Nat} (h : (generated x (n + 1)).pwmHigh = true) :
    (x n).deadtimeTicks.toNat ≤ (generated x n).counter.toNat ∧
      (generated x n).counter.toNat < (x n).highTicks.toNat := by
  have hstep : generated x (n + 1) = (generated x n).step (x n) := rfl
  rw [hstep, Generator.step] at h
  split at h
  · cases h
  · exact (highActive_iff _ _).mp h

theorem pwmLow_counter {n : Nat} (h : (generated x (n + 1)).pwmLow = true) :
    (x n).highTicks.toNat + (x n).deadtimeTicks.toNat ≤ (generated x n).counter.toNat := by
  have hstep : generated x (n + 1) = (generated x n).step (x n) := rfl
  rw [hstep, Generator.step] at h
  split at h
  · cases h
  · exact ((lowActive_iff _ _).mp h).2.1

end Counter

section Gaps

def enabledBy (en : Nat → Bool) (P H D : BitVec 32) (n : Nat) : GeneratorInput := ⟨en n, P, H, D⟩

variable {en : Nat → Bool} {P H D : BitVec 32} {m n : Nat}

/-- Whatever the enable does, the switches keep their distance. -/
theorem high_then_low (hm : (generated (enabledBy en P H D) m).pwmHigh = true)
    (hn : (generated (enabledBy en P H D) n).pwmLow = true) (hmn : m < n) : m + D.toNat < n := by
  cases m with
  | zero => cases hm
  | succ m =>
      cases n with
      | zero => cases hn
      | succ n =>
          have hhigh := (pwmHigh_counter _ hm).2
          have hlow := pwmLow_counter _ hn
          simp only [enabledBy] at hhigh hlow
          by_cases hfar : n - m ≤ (generated (enabledBy en P H D) n).counter.toNat
          · have hback := (counter_back _ n (n - m) hfar).2
            have heq : n - (n - m) = m := by omega
            rw [heq] at hback
            omega
          · omega

theorem low_then_high (hm : (generated (enabledBy en P H D) m).pwmLow = true)
    (hn : (generated (enabledBy en P H D) n).pwmHigh = true) (hmn : m < n) : m + D.toNat < n := by
  cases m with
  | zero => cases hm
  | succ m =>
      cases n with
      | zero => cases hn
      | succ n =>
          have hlow := pwmLow_counter _ hm
          have hhigh := pwmHigh_counter _ hn
          simp only [enabledBy] at hhigh hlow
          by_cases hfar : n - m ≤ (generated (enabledBy en P H D) n).counter.toNat
          · have hback := (counter_back _ n (n - m) hfar).2
            have heq : n - (n - m) = m := by omega
            rw [heq] at hback
            omega
          · omega

end Gaps

section Kept

variable {high low clearFaults : Nat → Bool} {D : BitVec 32}

theorem delayed_eq_true {pin : Nat → Bool} {d n : Nat} (h : delayed pin d n = true) :
    d ≤ n ∧ pin (n - d) = true := by
  rw [delayed, Bool.and_eq_true, decide_eq_true_iff] at h
  exact h

theorem sample_kept {on off : Nat → Bool} {n : Nat} {seen : Bool} {since : BitVec 64}
    (hn : n < 0x10000000000000000) (hgap : ∀ j k, off j = true → on k = true → j < k → j + D.toNat < k)
    (hrise : riseAt on n = true)
    (hseen : seen = true → ∃ m, Latest (fallAt off) m n ∧ since = BitVec.ofNat 64 m) :
    ∀ x ∈ sample (fallAt off n) seen since (BitVec.ofNat 64 n) D, x.2 = false := by
  intro x hx
  rw [riseAt, rise, Bool.and_eq_true] at hrise
  obtain ⟨hn2, hon⟩ := delayed_eq_true hrise.1
  have hfar : ∀ m, fallAt off m = true → m ≤ n → m + D.toNat ≤ n := by
    intro m hm hmn
    rw [fallAt, fall, before_delayed, Bool.and_eq_true] at hm
    obtain ⟨hm3, hoff⟩ := delayed_eq_true hm.2
    have := hgap _ _ hoff hon (by omega)
    omega
  rw [sample] at hx
  cases hnow : fallAt off n with
  | true =>
      rw [hnow] at hx
      cases hx
      have hzero : D = 0 := by
        apply BitVec.eq_of_toNat_eq
        have := hfar n hnow (Nat.le_refl n)
        simp
        omega
      simp [hzero]
  | false =>
      rw [hnow] at hx
      cases hs : seen with
      | false =>
          rw [hs] at hx
          cases hx
      | true =>
          obtain ⟨m, hm, hsince⟩ := hseen hs
          have hmn := hm.lt
          have hle := hfar m hm.holds (Nat.le_of_lt hmn)
          rw [hs] at hx
          cases hx
          rw [decide_eq_false_iff_not, BitVec.lt_def, hsince, BitVec.toNat_sub, BitVec.toNat_ofNat,
            BitVec.toNat_ofNat, BitVec.toNat_setWidth]
          have hD := D.isLt
          omega

theorem none_short {o : Option (BitVec 32 × Bool)} (h : ∀ x ∈ o, x.2 = false) :
    o.any Prod.snd = false := by
  cases o with
  | none => rfl
  | some x => exact h x rfl

/-- A monitor that asks for no more than the dead time that its signals keep never complains. -/
theorem watched_kept (hexclusive : ∀ n, ¬ (high n = true ∧ low n = true))
    (hhl : ∀ j k, high j = true → low k = true → j < k → j + D.toNat < k)
    (hlh : ∀ j k, low j = true → high k = true → j < k → j + D.toNat < k) (n : Nat)
    (hn : n ≤ 0x10000000000000000) :
    (watched high low (fun _ => D) clearFaults n).shootThroughLatched = false ∧
      (watched high low (fun _ => D) clearFaults n).deadtimeViolationLatched = false := by
  induction n with
  | zero => exact ⟨rfl, rfl⟩
  | succ n ih =>
      obtain ⟨hshoot, hviolation⟩ := ih (by omega)
      obtain ⟨hhighRise, hlowRise, hhighFall, hlowFall⟩ := watched_edges high low (fun _ => D) clearFaults n
      obtain ⟨hhighSeen, hlowSeen⟩ := watched_falls high low (fun _ => D) clearFaults n
      constructor
      · rw [watched_shoot, hshoot, Bool.false_and, Bool.or_false, Bool.and_eq_false_iff]
        by_cases hon : delayed high 2 n = true
        · refine .inr (Bool.eq_false_iff.mpr (fun hlow => ?_))
          exact hexclusive _ ⟨(delayed_eq_true hon).2, (delayed_eq_true hlow).2⟩
        · exact .inl (Bool.eq_false_iff.mpr hon)
      · have hsamples := (monitor_step_samples (watched high low (fun _ => D) clearFaults n)
          ⟨high n, low n, BitVec.ofNat 64 n, D, clearFaults n⟩).2.2.2.2
        have hstep : watched high low (fun _ => D) clearFaults (n + 1) =
            (watched high low (fun _ => D) clearFaults n).step
              ⟨high n, low n, BitVec.ofNat 64 n, D, clearFaults n⟩ := rfl
        rw [hstep, hsamples, hviolation, Bool.false_and, Bool.or_false, Bool.or_eq_false_iff]
        refine ⟨none_short ?_, none_short ?_⟩
        · rw [highToLow, hlowRise, hhighFall]
          cases hrise : riseAt low n with
          | false => exact fun x hx => by cases hx
          | true => exact sample_kept (by omega) hhl hrise hhighSeen
        · rw [lowToHigh, hhighRise, hlowFall]
          cases hrise : riseAt high n with
          | false => exact fun x hx => by cases hx
          | true => exact sample_kept (by omega) hlh hrise hlowSeen

end Kept

section Decoder

/-- What a decoder makes of a change of its two inputs: a step, with its sign, or neither a
step nor rest. -/
def counted (c d : Int) : Int := if (d - c) % 4 = 1 then 1 else if (d - c) % 4 = 3 then -1 else 0
def struck (c d : Int) : Bool := decide ((d - c) % 4 = 2)

theorem count_gray {s : AbzCapture} {c d : Int} (hprev : s.abPrev = gray c) (hnow : s.abNow = gray d)
    (i : CaptureInput) :
    (s.count i).positionEdges = s.positionEdges + BitVec.ofInt 32 (counted c d) ∧
      (s.count i).illegalTransitionLatched =
        (struck c d || s.illegalTransitionLatched && !i.clearFaults) := by
  have hlatched : (if i.clearFaults then false else s.illegalTransitionLatched) =
      (s.illegalTransitionLatched && !i.clearFaults) := by
    cases i.clearFaults <;> simp
  have hc : c % 4 = 0 ∨ c % 4 = 1 ∨ c % 4 = 2 ∨ c % 4 = 3 := by omega
  have hd : (d - c) % 4 = 0 ∨ (d - c) % 4 = 1 ∨ (d - c) % 4 = 2 ∨ (d - c) % 4 = 3 := by omega
  rw [AbzCapture.count, hprev, hnow, counted, struck, gray, gray]
  rcases hc with hc | hc | hc | hc <;> rcases hd with hd | hd | hd | hd
  all_goals
    have hsum : d % 4 = (c % 4 + (d - c) % 4) % 4 := by omega
    simp only [hc, hd] at hsum
    simp [hc, hd, hsum, hlatched, isForward, isReverse, BitVec.sub_eq_add_neg]

def tracked (t : Nat → Int) : Nat → Int
  | 0 => 0
  | n + 1 => tracked t n + counted (t n) (t (n + 1))

variable {t : Nat → Int} {x : Nat → CaptureInput} (h0 : t 0 = 0) (hx : ∀ n, (x n).ab = gray (t n))

include hx in
theorem decoder_samples (n : Nat) :
    abOf (wave AbzCapture.step .reset x n).sync.first = gray (lag 0 t 1 n) ∧
      (wave AbzCapture.step .reset x n).abNow = gray (lag 0 t 2 n) ∧
      (wave AbzCapture.step .reset x n).abPrev = gray (lag 0 t 3 n) := by
  induction n with
  | zero =>
      rw [lag_start, lag_start, lag_start]
      exact ⟨reset_settled.first, reset_settled.now, reset_settled.prev⟩
  | succ n ih =>
      rw [lag_succ, lag_succ, lag_succ, lag_zero, ← hx]
      exact ⟨abOf_input (x n), ih.1, ih.2.1⟩

include hx in
theorem decoder_step (n : Nat) :
    (wave AbzCapture.step .reset x (n + 1)).positionEdges =
        (wave AbzCapture.step .reset x n).positionEdges +
          BitVec.ofInt 32 (counted (lag 0 t 3 n) (lag 0 t 2 n)) ∧
      (wave AbzCapture.step .reset x (n + 1)).illegalTransitionLatched =
        (struck (lag 0 t 3 n) (lag 0 t 2 n) ||
          (wave AbzCapture.step .reset x n).illegalTransitionLatched && !(x n).clearFaults) := by
  obtain ⟨-, hnow, hprev⟩ := decoder_samples hx n
  exact count_gray hprev hnow (x n)

include h0 hx in
theorem decoder_position (n : Nat) :
    (wave AbzCapture.step .reset x (n + 3)).positionEdges = BitVec.ofInt 32 (tracked t n) := by
  induction n with
  | zero =>
      have hrest : ∀ k, k ≤ 2 → counted (lag 0 t 3 k) (lag 0 t 2 k) = 0 := by
        intro k hk
        rw [lag_early h0 (by omega), lag_early h0 (by omega)]
        rfl
      rw [(decoder_step hx 2).1, (decoder_step hx 1).1, (decoder_step hx 0).1, hrest 0 (by omega),
        hrest 1 (by omega), hrest 2 (by omega)]
      rfl
  | succ n ih =>
      have hlag : lag 0 t 2 (n + 3) = t (n + 1) := lag_at 2 (n + 1)
      rw [Nat.add_right_comm, (decoder_step hx (n + 3)).1, ih, lag_at, hlag, ← BitVec.ofInt_add]
      rfl

include h0 hx in
theorem decoder_illegal (n : Nat) :
    (wave AbzCapture.step .reset x n).illegalTransitionLatched = true ↔
      ∃ m, m + 3 < n ∧ struck (t m) (t (m + 1)) = true ∧
        ∀ k, m + 3 < k → k < n → (x k).clearFaults = false := by
  have hsticky : (wave AbzCapture.step .reset x n).illegalTransitionLatched = true ↔
      ∃ m, m < n ∧ struck (lag 0 t 3 m) (lag 0 t 2 m) = true ∧
        ∀ k, m < k → k < n → (x k).clearFaults = false :=
    sticky_iff (fun k => (wave AbzCapture.step .reset x k).illegalTransitionLatched) rfl
      (fun k => (decoder_step hx k).2)
  rw [hsticky]
  constructor
  · rintro ⟨m, hm, hevent, hquiet⟩
    by_cases hearly : m ≤ 2
    · rw [lag_early h0 hearly, lag_early h0 (by omega)] at hevent
      cases hevent
    · obtain ⟨k, rfl⟩ := Nat.exists_eq_add_of_le' (by omega : 3 ≤ m)
      have hlag : lag 0 t 2 (k + 3) = t (k + 1) := lag_at 2 (k + 1)
      rw [lag_at, hlag] at hevent
      exact ⟨k, hm, hevent, hquiet⟩
  · rintro ⟨m, hm, hevent, hquiet⟩
    have hlag : lag 0 t 2 (m + 3) = t (m + 1) := lag_at 2 (m + 1)
    refine ⟨m + 3, hm, ?_, hquiet⟩
    rw [lag_at, hlag]
    exact hevent

end Decoder

section Gate

/-- A track that a gate lets through or holds at the levels of position 0. -/
def gated (g : Nat → Bool) (c : Nat → Int) (n : Nat) : Int := if g n then c n else 0

/-- The gate moves while the track is at the position with both levels up. -/
def cut (g : Nat → Bool) (c : Nat → Int) (m : Nat) : Bool :=
  g m && !g (m + 1) && decide (c m % 4 = 2) || !g m && g (m + 1) && decide (c (m + 1) % 4 = 2)

variable {g : Nat → Bool} {c : Nat → Int} (hc : ∀ n, Adjacent (c n) (c (n + 1)))
  (hheld : ∀ n, g n = false → c (n + 1) = c n)

include hc in
theorem struck_gated (m : Nat) : struck (gated g c m) (gated g c (m + 1)) = cut g c m := by
  have hstep := hc m
  rw [struck, cut, gated, gated]
  cases g m <;> cases g (m + 1)
  · rfl
  · simp
  · have hneg : (-c m) % 4 = 2 ↔ c m % 4 = 2 := by omega
    simp [hneg]
  · rw [Adjacent] at hstep
    simp
    omega

/-- What a decoder behind the gate has counted, as long as no cut has misled it. -/
def Faithful (g : Nat → Bool) (c : Nat → Int) (n : Nat) : Prop :=
  if g n then tracked (gated g c) n = c n
  else tracked (gated g c) n % 4 = 0 ∧ c n - 2 ≤ tracked (gated g c) n ∧
    tracked (gated g c) n ≤ c n + 2

include hc hheld in
theorem faithful_succ {n : Nat} (h : Faithful g c n) (hcut : cut g c n = false) :
    Faithful g c (n + 1) := by
  have hstep := hc n
  have hold := hheld n
  have htracked : tracked (gated g c) (n + 1) =
      tracked (gated g c) n + counted (gated g c n) (gated g c (n + 1)) := rfl
  rw [Faithful] at h ⊢
  rw [htracked]
  rw [Adjacent] at hstep
  generalize tracked (gated g c) n = r at h ⊢
  rw [cut] at hcut
  rw [counted, gated, gated]
  cases hg : g n <;> cases hg' : g (n + 1) <;> rw [hg] at h hold <;> simp [hg, hg'] at h hcut hold ⊢
  · omega
  · split_ifs <;> omega
  · split_ifs <;> omega
  · split_ifs <;> omega

include hc hheld in
theorem faithful_of_uncut (h0 : c 0 = 0) {n : Nat} (hcut : ∀ m, m < n → cut g c m = false) :
    Faithful g c n := by
  induction n with
  | zero =>
      rw [Faithful, h0]
      split <;> simp [tracked]
  | succ n ih =>
      exact faithful_succ hc hheld (ih (fun m hm => hcut m (Nat.lt_succ_of_lt hm)))
        (hcut n (Nat.lt_succ_self n))

end Gate

end HilLab.Boards.GatedLoopback
