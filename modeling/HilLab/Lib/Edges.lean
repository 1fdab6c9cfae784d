import Mathlib.Data.Nat.Find
import Mathlib.Data.Nat.Init

namespace HilLab.Lib.Edges

section Latest

/-- The last event before cycle n is in cycle m. -/
structure Latest (event : Nat → Bool) (m n : Nat) : Prop where
  lt : m < n
  holds : event m = true
  quiet : ∀ k, m < k → k < n → event k = false

variable {event : Nat → Bool} {m n k : Nat}

theorem latest_succ (h : event n = true) : Latest event n (n + 1) :=
  ⟨Nat.lt_succ_self n, h, fun _ hlt hle => absurd (Nat.lt_of_lt_of_le hlt (Nat.le_of_lt_succ hle))
    (Nat.lt_irrefl n)⟩

theorem Latest.unique (hm : Latest event m n) (hk : Latest event k n) : m = k := by
  rcases Nat.lt_trichotomy m k with hlt | rfl | hlt
  · have hquiet := hm.quiet k hlt hk.lt
    rw [hk.holds] at hquiet
    cases hquiet
  · rfl
  · have hquiet := hk.quiet m hlt hm.lt
    rw [hm.holds] at hquiet
    cases hquiet

theorem Latest.later (h : Latest event m n) (hle : n ≤ k)
    (hquiet : ∀ j, n ≤ j → j < k → event j = false) : Latest event m k := by
  refine ⟨Nat.lt_of_lt_of_le h.lt hle, h.holds, fun j hmj hjk => ?_⟩
  rcases Nat.lt_or_ge j n with hlt | hge
  · exact h.quiet j hmj hlt
  · exact hquiet j hge hjk

theorem Latest.earlier (h : Latest event m n) (hmk : m < k) (hle : k ≤ n) : Latest event m k :=
  ⟨hmk, h.holds, fun j hmj hjk => h.quiet j hmj (Nat.lt_of_lt_of_le hjk hle)⟩

theorem Latest.cases (h : Latest event m (n + 1)) :
    event n = true ∧ m = n ∨ event n = false ∧ Latest event m n := by
  rcases Nat.lt_succ_iff_lt_or_eq.mp h.lt with hlt | rfl
  · exact .inr ⟨h.quiet n hlt (Nat.lt_succ_self n), h.earlier hlt (Nat.le_succ n)⟩
  · exact .inl ⟨h.holds, rfl⟩

theorem exists_latest (hm : m < n) (h : event m = true) : ∃ k, m ≤ k ∧ Latest event k n := by
  induction n with
  | zero => exact absurd hm (Nat.not_lt_zero m)
  | succ n ih =>
      cases hn : event n with
      | true => exact ⟨n, Nat.le_of_lt_succ hm, latest_succ hn⟩
      | false =>
          have hlt : m < n := by
            rcases Nat.lt_succ_iff_lt_or_eq.mp hm with hlt | rfl
            · exact hlt
            · rw [h] at hn
              cases hn
          obtain ⟨k, hk, hlatest⟩ := ih hlt
          refine ⟨k, hk, hlatest.later (Nat.le_succ n) (fun j hnj hjn => ?_)⟩
          rw [Nat.le_antisymm (Nat.le_of_lt_succ hjn) hnj]
          exact hn

theorem Latest.next (h : Latest event m n) (hle : n ≤ k) (hk : event k = true) :
    ∃ j, n ≤ j ∧ event j = true ∧ Latest event m j := by
  have hsome : ∃ j, n ≤ j ∧ event j = true := ⟨k, hle, hk⟩
  obtain ⟨hj, hevent⟩ := Nat.find_spec hsome
  refine ⟨Nat.find hsome, hj, hevent, h.later hj (fun i hni hij => ?_)⟩
  have hmin := Nat.find_min hsome hij
  exact Bool.not_eq_true _ ▸ fun htrue => hmin ⟨hni, htrue⟩

theorem Latest.loaded {β : Type} (register value : Nat → β)
    (hload : ∀ k, event k = true → register (k + 1) = value k)
    (hkeep : ∀ k, event k = false → register (k + 1) = register k) (h : Latest event m n) :
    register n = value m := by
  induction n with
  | zero => exact absurd h.lt (Nat.not_lt_zero m)
  | succ n ih =>
      rcases h.cases with ⟨hn, rfl⟩ | ⟨hn, hlatest⟩
      · exact hload m hn
      · rw [hkeep n hn]
        exact ih hlatest

theorem Latest.flagged (flag : Nat → Bool) (hstep : ∀ k, flag (k + 1) = (event k || flag k))
    (h : Latest event m n) : flag n = true := by
  refine h.loaded flag (fun _ => true) (fun k hk => ?_) (fun k hk => ?_)
  · rw [hstep, hk, Bool.true_or]
  · rw [hstep, hk, Bool.false_or]

theorem exists_latest_of_flag (flag : Nat → Bool) (hzero : flag 0 = false)
    (hstep : ∀ k, flag (k + 1) = (event k || flag k)) (h : flag n = true) :
    ∃ m, Latest event m n := by
  induction n with
  | zero =>
      rw [hzero] at h
      cases h
  | succ n ih =>
      rw [hstep] at h
      cases hn : event n with
      | true => exact ⟨n, latest_succ hn⟩
      | false =>
          rw [hn, Bool.false_or] at h
          obtain ⟨m, hm⟩ := ih h
          refine ⟨m, hm.later (Nat.le_succ n) (fun j hnj hjn => ?_)⟩
          rw [Nat.le_antisymm (Nat.le_of_lt_succ hjn) hnj]
          exact hn

theorem latest_of_flagged {β : Type} (flag : Nat → Bool) (register value : Nat → β)
    (hzero : flag 0 = false) (hflag : ∀ k, flag (k + 1) = (event k || flag k))
    (hregister : ∀ k, register (k + 1) = if event k then value k else register k)
    (h : flag n = true) : ∃ m, Latest event m n ∧ register n = value m := by
  obtain ⟨m, hm⟩ := exists_latest_of_flag flag hzero hflag h
  refine ⟨m, hm, hm.loaded register value (fun k hk => ?_) (fun k hk => ?_)⟩
  · rw [hregister, if_pos hk]
  · rw [hregister, hk, if_neg Bool.false_ne_true]

/-- A flag that the event sets and, where the event is not, clear takes down. -/
theorem sticky_iff {clear : Nat → Bool} (flag : Nat → Bool) (hzero : flag 0 = false)
    (hstep : ∀ k, flag (k + 1) = (event k || flag k && !clear k)) :
    flag n = true ↔
      ∃ m, m < n ∧ event m = true ∧ ∀ k, m < k → k < n → clear k = false := by
  induction n with
  | zero =>
      rw [hzero]
      exact iff_of_false Bool.false_ne_true (fun ⟨m, hm, _⟩ => Nat.not_lt_zero m hm)
  | succ n ih =>
      rw [hstep, Bool.or_eq_true, Bool.and_eq_true, Bool.not_eq_true', ih]
      constructor
      · rintro (hevent | ⟨⟨m, hm, hevent, hquiet⟩, hclear⟩)
        · exact ⟨n, Nat.lt_succ_self n, hevent, fun k hnk hkn =>
            absurd (Nat.le_of_lt_succ hkn) (Nat.not_le_of_lt hnk)⟩
        · refine ⟨m, Nat.lt_succ_of_lt hm, hevent, fun k hmk hkn => ?_⟩
          rcases Nat.lt_succ_iff_lt_or_eq.mp hkn with hlt | rfl
          · exact hquiet k hmk hlt
          · exact hclear
      · rintro ⟨m, hm, hevent, hquiet⟩
        rcases Nat.lt_succ_iff_lt_or_eq.mp hm with hlt | rfl
        · refine .inr ⟨⟨m, hlt, hevent, fun k hmk hkn => ?_⟩, ?_⟩
          · exact hquiet k hmk (Nat.lt_succ_of_lt hkn)
          · exact hquiet n hlt (Nat.lt_succ_self n)
        · exact .inl hevent

end Latest

section Levels

/-- A level one cycle ago, and at the first cycle the level of reset. -/
def before (reset : Bool) (level : Nat → Bool) : Nat → Bool
  | 0 => reset
  | n + 1 => level n

/-- A rise of a level that reset leaves low. -/
def rise (level : Nat → Bool) (n : Nat) : Bool := level n && !before false level n
def fall (level : Nat → Bool) (n : Nat) : Bool := !level n && before false level n

variable {level : Nat → Bool} {m n : Nat}

theorem not_rise_and_fall (h : rise level n = true) : fall level n = false := by
  rw [rise, Bool.and_eq_true] at h
  rw [fall, h.1]
  rfl

theorem high_of_no_fall (h : level m = true) (hmn : m ≤ n)
    (hquiet : ∀ k, m < k → k ≤ n → fall level k = false) : level n = true := by
  induction hmn with
  | refl => exact h
  | @step n hmn ih =>
      have hn := ih (fun k hmk hkn => hquiet k hmk (Nat.le_succ_of_le hkn))
      have hfall := hquiet (n + 1) (Nat.lt_succ_of_le hmn) (Nat.le_refl _)
      rw [fall, before, hn, Bool.and_true, Bool.not_eq_false'] at hfall
      exact hfall

theorem exists_fall (hm : rise level m = true) (hn : rise level n = true) (hmn : m < n) :
    ∃ k, m < k ∧ Latest (fall level) k n := by
  by_cases hsome : ∃ k, m < k ∧ k < n ∧ fall level k = true
  · obtain ⟨k, hmk, hkn, hfall⟩ := hsome
    obtain ⟨j, hkj, hlatest⟩ := exists_latest hkn hfall
    exact ⟨j, Nat.lt_of_lt_of_le hmk hkj, hlatest⟩
  · rw [rise, Bool.and_eq_true] at hm hn
    cases n with
    | zero => exact absurd hmn (Nat.not_lt_zero m)
    | succ n =>
        have hhigh := high_of_no_fall hm.1 (Nat.le_of_lt_succ hmn) (fun k hmk hkn =>
          Bool.not_eq_true _ ▸ fun hfall => hsome ⟨k, hmk, Nat.lt_succ_of_le hkn, hfall⟩)
        rw [before, hhigh] at hn
        cases hn.2

def tally (event : Nat → Bool) (i j : Nat) : Nat := (List.range' i (j - i)).countP event

theorem tally_self (event : Nat → Bool) (i : Nat) : tally event i i = 0 := by
  simp [tally]

theorem tally_succ (event : Nat → Bool) {i j : Nat} (h : i ≤ j) :
    tally event i (j + 1) = tally event i j + (event j).toNat := by
  have hlen : j + 1 - i = (j - i) + 1 := by omega
  have hlast : i + (j - i) = j := by omega
  rw [tally, hlen, List.range'_1_concat, List.countP_append, hlast, tally]
  cases hj : event j <;> simp [hj]

theorem tally_quiet {event : Nat → Bool} {i j k : Nat} (hij : i ≤ j) (hjk : j ≤ k)
    (h : ∀ n, j ≤ n → n < k → event n = false) : tally event i k = tally event i j := by
  induction k, hjk using Nat.le_induction with
  | base => rfl
  | succ k hjk ih =>
      rw [tally_succ event (Nat.le_trans hij hjk), h k hjk (Nat.lt_succ_self k)]
      exact ih (fun n hn hlt => h n hn (Nat.lt_succ_of_lt hlt))

theorem tally_mono (event : Nat → Bool) {i j k : Nat} (hij : i ≤ j) (hjk : j ≤ k) :
    tally event i j ≤ tally event i k := by
  induction k, hjk using Nat.le_induction with
  | base => exact Nat.le_refl _
  | succ k hjk ih =>
      rw [tally_succ event (Nat.le_trans hij hjk)]
      exact Nat.le_add_right_of_le ih

theorem exists_tally {event : Nat → Bool} {i j k : Nat} (hij : i ≤ j) (hk : k < tally event i j) :
    ∃ n, i ≤ n ∧ n < j ∧ event n = true ∧ tally event i n = k := by
  induction j, hij using Nat.le_induction with
  | base =>
      rw [tally_self] at hk
      exact absurd hk (Nat.not_lt_zero k)
  | succ j hij ih =>
      rw [tally_succ event hij] at hk
      rcases Nat.lt_or_ge k (tally event i j) with hlt | hge
      · obtain ⟨n, hin, hnj, hevent, htally⟩ := ih hlt
        exact ⟨n, hin, Nat.lt_succ_of_lt hnj, hevent, htally⟩
      · cases hevent : event j with
        | true =>
            rw [hevent] at hk
            exact ⟨j, hij, Nat.lt_succ_self j, hevent, Nat.le_antisymm hge (Nat.le_of_lt_succ hk)⟩
        | false =>
            rw [hevent] at hk
            exact absurd hk (Nat.not_lt_of_le hge)

theorem tally_rise (h : level m = false) (hmn : m ≤ n) :
    tally (rise level) (m + 1) (n + 1) =
      tally (fall level) (m + 1) (n + 1) + (level n).toNat := by
  induction n, hmn using Nat.le_induction with
  | base =>
      rw [tally_self, tally_self, h]
      rfl
  | succ n hmn ih =>
      rw [tally_succ _ (Nat.succ_le_succ hmn), tally_succ _ (Nat.succ_le_succ hmn), ih, rise, fall,
        before]
      cases level n <;> cases level (n + 1) <;> rfl

end Levels

end HilLab.Lib.Edges
