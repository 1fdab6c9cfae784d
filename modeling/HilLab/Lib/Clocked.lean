import Mathlib.Data.Nat.Init

namespace HilLab.Lib.Clocked

variable {σ τ ι κ α : Type}

/-- The state of a synchronous machine before clock edge n, when its inputs
follow the waveform x. -/
def wave (step : σ → ι → σ) (s : σ) (x : Nat → ι) : Nat → σ
  | 0 => s
  | n + 1 => step (wave step s x n) (x n)

theorem wave_succ (step : σ → ι → σ) (s : σ) (x : Nat → ι) (n : Nat) :
    wave step s x (n + 1) = step (wave step s x n) (x n) := rfl

def cons (i : ι) (x : Nat → ι) : Nat → ι
  | 0 => i
  | n + 1 => x n

theorem wave_cons (step : σ → ι → σ) (s : σ) (i : ι) (x : Nat → ι) (n : Nat) :
    wave step s (cons i x) (n + 1) = wave step (step s i) x n := by
  induction n with
  | zero => rfl
  | succ n ih => rw [wave_succ, ih, wave_succ, cons]

theorem wave_invariant {step : σ → ι → σ} {P : σ → Prop} {s : σ}
    (h0 : P s) (hs : ∀ t i, P t → P (step t i)) (x : Nat → ι) (n : Nat) :
    P (wave step s x n) := by
  induction n with
  | zero => exact h0
  | succ n ih => exact hs _ _ ih

/-- An invariant that a step preserves under a guard holds as long as the
guard has held in every earlier cycle. -/
theorem wave_invariant_of {step : σ → ι → σ} {P : σ → Prop} {G : σ → ι → Prop} {s : σ}
    (h0 : P s) (hs : ∀ t i, P t → G t i → P (step t i)) (x : Nat → ι) (n : Nat)
    (hg : ∀ k, k < n → G (wave step s x k) (x k)) : P (wave step s x n) := by
  induction n with
  | zero => exact h0
  | succ n ih => exact hs _ _ (ih (fun k hk => hg k (by omega))) (hg n (by omega))

/-- Where an invariant I makes P after a step the same as a guard before it, a run keeps P
exactly while the guard holds. -/
theorem wave_keeps_iff {step : σ → ι → σ} {I P : σ → Prop} {G : σ → ι → Prop} {s : σ}
    (h0 : I s) (hI : ∀ t, I t → P t) (hguard : ∀ t i, I t → (P (step t i) ↔ G t i))
    (hstep : ∀ t i, I t → P (step t i) → I (step t i)) (x : Nat → ι) (n : Nat) :
    (∀ k, k ≤ n → P (wave step s x k)) ↔ ∀ k, k < n → G (wave step s x k) (x k) := by
  constructor
  · intro h
    have hinv : ∀ k, k ≤ n → I (wave step s x k) := by
      intro k
      induction k with
      | zero => exact fun _ => h0
      | succ k ih => exact fun hk => hstep _ _ (ih (Nat.le_of_succ_le hk)) (h (k + 1) hk)
    exact fun k hk => (hguard _ _ (hinv k (Nat.le_of_lt hk))).mp (h (k + 1) hk)
  · intro h k hk
    apply hI
    exact wave_invariant_of h0 (fun t i ht hg => hstep t i ht ((hguard t i ht).mpr hg)) x k
      (fun j hj => h j (Nat.lt_of_lt_of_le hj hk))

/-- A part of a machine that steps by itself, on inputs read off the whole,
runs as the smaller machine on the derived waveform. -/
theorem wave_part (step : σ → ι → σ) (step' : τ → κ → τ) (part : σ → τ) (feed : σ → ι → κ)
    (h : ∀ s i, part (step s i) = step' (part s) (feed s i))
    (s : σ) (x : Nat → ι) (n : Nat) :
    part (wave step s x n) =
      wave step' (part s) (fun k => feed (wave step s x k) (x k)) n := by
  induction n with
  | zero => rfl
  | succ n ih => rw [wave_succ, h, ih, wave_succ]

/-- The first clock after the last one in which a machine was held in reset. -/
def since (hold : Nat → Bool) : Nat → Nat
  | 0 => 0
  | n + 1 => if hold n then n + 1 else since hold n

theorem since_le (hold : Nat → Bool) (n : Nat) : since hold n ≤ n := by
  induction n with
  | zero => exact Nat.le_refl 0
  | succ n ih =>
      rw [since]
      split
      · exact Nat.le_refl _
      · exact Nat.le_succ_of_le ih

theorem since_le_iff (hold : Nat → Bool) {m n : Nat} (hmn : m ≤ n) :
    since hold n ≤ m ↔ ∀ k, m ≤ k → k < n → hold k = false := by
  induction n with
  | zero => simp [since]
  | succ n ih =>
      rw [since]
      rcases Nat.lt_or_ge n m with hnm | hle
      · have hm : m = n + 1 := Nat.le_antisymm hmn hnm
        subst hm
        exact iff_of_true (since_le hold (n + 1)) (fun k hk hkn => absurd hkn (Nat.not_lt.mpr hk))
      · cases hn : hold n with
        | true =>
            rw [if_pos rfl]
            refine iff_of_false (by omega) (fun h => ?_)
            have hfree := h n hle (Nat.lt_succ_self n)
            rw [hn] at hfree
            cases hfree
        | false =>
            rw [if_neg Bool.false_ne_true, ih hle]
            constructor
            · intro h k hmk hk
              rcases Nat.lt_succ_iff_lt_or_eq.mp hk with hlt | rfl
              · exact h k hmk hlt
              · exact hn
            · exact fun h k hmk hk => h k hmk (Nat.lt_succ_of_lt hk)

theorem since_eq (hold : Nat → Bool) {m n : Nat} (hm : since hold n ≤ m) (hmn : m ≤ n) :
    since hold m = since hold n := by
  induction n with
  | zero =>
      have hzero : m = 0 := Nat.le_zero.mp hmn
      rw [hzero]
  | succ n ih =>
      rcases Nat.lt_succ_iff_lt_or_eq.mp (Nat.lt_succ_of_le hmn) with hlt | rfl
      · have hfree := (since_le_iff hold hmn).mp hm n (Nat.le_of_lt_succ hlt) (Nat.lt_succ_self n)
        rw [since, hfree, if_neg Bool.false_ne_true] at hm ⊢
        exact ih hm (Nat.le_of_lt_succ hlt)
      · rfl

/-- A machine with resets is, at each time, one that has run from its reset state since the last. -/
theorem wave_since {step : σ → ι → σ} {s : σ} {x : Nat → ι} {hold : Nat → Bool} {run : Nat → σ}
    (h0 : run 0 = s) (hreset : ∀ n, hold n = true → run (n + 1) = s)
    (hrun : ∀ n, hold n = false → run (n + 1) = step (run n) (x n)) (n : Nat) :
    run n = wave step s (fun k => x (since hold n + k)) (n - since hold n) := by
  induction n with
  | zero => exact h0
  | succ n ih =>
      rw [since]
      cases hn : hold n with
      | true =>
          rw [if_pos rfl, Nat.sub_self]
          exact hreset n hn
      | false =>
          have hle := since_le hold n
          rw [if_neg Bool.false_ne_true, hrun n hn, Nat.succ_sub hle, wave_succ, ← ih,
            Nat.add_sub_cancel' hle]

/-- What the cycles from i up to, not including, j contribute, in order. -/
def between (f : Nat → List α) (i j : Nat) : List α := (List.range' i (j - i)).flatMap f

theorem between_self (f : Nat → List α) (i : Nat) : between f i i = [] := by
  simp [between]

theorem between_succ (f : Nat → List α) {i j : Nat} (h : i ≤ j) :
    between f i (j + 1) = between f i j ++ f j := by
  have hl : j + 1 - i = (j - i) + 1 := by omega
  have hj : i + (j - i) = j := by omega
  simp [between, hl, List.range'_1_concat, hj]

theorem between_one (f : Nat → List α) (i : Nat) : between f i (i + 1) = f i := by
  rw [between_succ f (Nat.le_refl i), between_self, List.nil_append]

theorem mem_between {f : Nat → List α} {i j : Nat} {a : α} :
    a ∈ between f i j ↔ ∃ n, i ≤ n ∧ n < j ∧ a ∈ f n := by
  simp only [between, List.mem_flatMap, List.mem_range'_1]
  constructor
  · rintro ⟨n, ⟨hi, hj⟩, ha⟩
    exact ⟨n, hi, by omega, ha⟩
  · rintro ⟨n, hi, hj, ha⟩
    exact ⟨n, ⟨hi, by omega⟩, ha⟩

theorem between_prefix (f : Nat → List α) (i : Nat) {j k : Nat} (hij : i ≤ j) (hjk : j ≤ k) :
    between f i j <+: between f i k := by
  induction k, hjk using Nat.le_induction with
  | base => exact List.prefix_rfl
  | succ k hjk ih =>
      rw [between_succ f (Nat.le_trans hij hjk)]
      exact ih.trans (List.prefix_append _ _)

theorem exists_of_falling {f : Nat → Nat} {goal : Nat → Prop}
    (h : ∀ n, goal n ∨ f (n + 1) < f n) (n : Nat) : ∃ m, n ≤ m ∧ goal m := by
  induction hk : f n using Nat.strong_induction_on generalizing n with
  | _ k ih =>
      rcases h n with hg | hlt
      · exact ⟨n, Nat.le_refl n, hg⟩
      · obtain ⟨m, hm, hg⟩ := ih _ (hk ▸ hlt) (n + 1) rfl
        exact ⟨m, Nat.le_of_succ_le hm, hg⟩

/-- Conservation over a run: when every cycle passes on what it received or
already held, so does every stretch of cycles. -/
theorem between_conserves (held received passed : Nat → List α) {i j : Nat}
    (hij : i ≤ j)
    (h : ∀ n, i ≤ n → n < j → held n ++ received n = passed n ++ held (n + 1)) :
    held i ++ between received i j = between passed i j ++ held j := by
  induction j, hij using Nat.le_induction with
  | base => simp [between_self]
  | succ j hij ih =>
      rw [between_succ received hij, between_succ passed hij, ← List.append_assoc,
        ih (fun n hi hn => h n hi (by omega)), List.append_assoc, h j hij (by omega),
        List.append_assoc]

/-- Where cycles may also drop something, nothing is made up or reordered. -/
theorem between_sublist (held received passed : Nat → List α) {i j : Nat}
    (hij : i ≤ j)
    (h : ∀ n, i ≤ n → n < j → (passed n ++ held (n + 1)).Sublist (held n ++ received n)) :
    (between passed i j ++ held j).Sublist (held i ++ between received i j) := by
  induction j, hij using Nat.le_induction with
  | base => simp [between_self]
  | succ j hij ih =>
      have hstep := (h j hij (by omega)).append_left (between passed i j)
      have hrun := (ih (fun n hi hn => h n hi (by omega))).append_right (received j)
      rw [between_succ received hij, between_succ passed hij]
      simp only [List.append_assoc] at hstep hrun ⊢
      exact hstep.trans hrun

end HilLab.Lib.Clocked
