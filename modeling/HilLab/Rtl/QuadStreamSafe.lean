import HilLab.Rtl.QuadStreamSamples

namespace HilLab.Rtl.QuadStreamSafe

open Ad3542rQuadStream Lib.Clocked QuadStreamBits QuadStreamSamples

variable (p : Params) (x : Nat → DacInput)

/-- The clock in which the pending sample was accepted. -/
def pendingFrom : Nat → Option Nat
  | 0 => none
  | n + 1 => if (dacAt p x n).accepts (x n) then some n else pendingFrom n

/-- The clock in which the active sample was accepted, none for the safe codes. -/
def activeFrom : Nat → Option Nat
  | 0 => none
  | n + 1 =>
      if takes (dacAt p x n) (x n) then pendingFrom p x n
      else if drops (dacAt p x n) (x n) then none
      else activeFrom n

/-- The clock in which the sample that a group begun in clock n transmits was accepted. -/
def groupFrom (n : Nat) : Option Nat :=
  if !(x n).live then none
  else if (dacAt p x n).state == .streamData && (dacAt p x n).pendingValid then pendingFrom p x n
  else activeFrom p x n

def codes (origin : Option Nat) : Sample := origin.elim p.safe (fun k => (x k).code)

def Begins (n : Nat) (g : BitVec 32 × BitVec 32) : Prop :=
  (dacAt p x n).groupBegun p (x n) = some g

def EndsGroup (n : Nat) : Prop :=
  (dacAt p x n).state = .streamData ∧ (dacAt p x n).atBoundary = true

/-- A forced-safe stream: no group begun under force_safe but the safe one, no
sample older than an assertion after it, and only the safe one from an
assertion until a sample is accepted. -/
structure DiscardsOld : Prop where
  safe : ∀ n g, Begins p x n g → (x n).forceSafe = true → g = (p.safeWord, p.safeWord)
  old : ∀ n g k j, Begins p x n g → groupFrom p x n = some k → (x j).forceSafe = true →
    k < j → ¬ j ≤ n
  released : ∀ n g j, Begins p x n g → (x j).forceSafe = true → j ≤ n →
    (∀ k, j ≤ k → k < n → (dacAt p x k).accepts (x k) = false) → g = (p.safeWord, p.safeWord)

/-- Whenever an assertion finds an accepted sample active, every boundary from
then to the end of the first group is forced safe or disabled, or replaces the
active sample by a pending one. -/
def DropsActive : Prop :=
  ∀ j n, (x j).forceSafe = true → (activeFrom p x (j + 1)).isSome → j < n →
    (∀ m, j < m → m < n → ¬ EndsGroup p x m) → (dacAt p x n).atBoundary = true →
    (x n).live = false ∨
      ((dacAt p x n).state = .streamData ∧ (dacAt p x n).pendingValid = true)

variable {p x}

theorem live_forced {i : DacInput} (h : i.forceSafe = true) : i.live = false := by
  rw [DacInput.live, h]
  rfl

theorem accepts_forced {s : Dac} {i : DacInput} (h : i.forceSafe = true) : s.accepts i = false := by
  rw [Dac.accepts, Dac.sampleReady, h]
  simp

theorem pendingValid_succ (n : Nat) :
    (dacAt p x (n + 1)).pendingValid =
      (!takes (dacAt p x n) (x n) && ((dacAt p x n).accept (x n)).pendingValid) :=
  (step_samples p (dacAt p x n) (x n)).pendingValid

/-- A valid pending sample has seen no assertion since it was accepted. -/
theorem pending_fresh {n : Nat} (h : (dacAt p x n).pendingValid = true) :
    ∃ k, pendingFrom p x n = some k ∧ k < n ∧ (dacAt p x k).accepts (x k) = true ∧
      (dacAt p x n).pending = (x k).code ∧ ∀ j, k < j → j < n → (x j).forceSafe = false := by
  induction n with
  | zero => cases h
  | succ n ih =>
      have hpending : (dacAt p x (n + 1)).pending = ((dacAt p x n).accept (x n)).pending :=
        (step_samples p (dacAt p x n) (x n)).pending
      rw [pendingValid_succ, Bool.and_eq_true, Dac.accept] at h
      have hlive : (x n).forceSafe = false := by
        cases hs : (x n).forceSafe with
        | false => rfl
        | true => simp [hs] at h
      rw [pendingFrom, hpending, Dac.accept]
      cases hacc : (dacAt p x n).accepts (x n) with
      | true =>
          refine ⟨n, rfl, Nat.lt_succ_self n, hacc, rfl, ?_⟩
          intro j hnj hjn
          omega
      | false =>
          have hold : (dacAt p x n).pendingValid = true := by simpa [hlive, hacc] using h.2
          obtain ⟨k, hfrom, hk, hkacc, hcode, hfresh⟩ := ih hold
          refine ⟨k, hfrom, Nat.lt_succ_of_lt hk, hkacc, hcode, ?_⟩
          intro j hkj hjn
          rcases Nat.lt_succ_iff_lt_or_eq.mp hjn with hlt | rfl
          · exact hfresh j hkj hlt
          · exact hlive

theorem takes_pending {s : Dac} {i : DacInput} (h : takes s i = true) : s.pendingValid = true := by
  rw [takes, Bool.and_eq_true] at h
  exact h.1

theorem active_codes (n : Nat) : (dacAt p x n).active = codes p x (activeFrom p x n) := by
  induction n with
  | zero => rfl
  | succ n ih =>
      have hactive : (dacAt p x (n + 1)).active = _ := (step_samples p (dacAt p x n) (x n)).active
      rw [hactive, activeFrom]
      split_ifs with htakes hdrops
      · obtain ⟨k, hfrom, -, -, hcode, -⟩ := pending_fresh (takes_pending htakes)
        rw [hfrom]
        exact hcode
      · rfl
      · exact ih

theorem begins_codes {n : Nat} {g : BitVec 32 × BitVec 32} (h : Begins p x n g) :
    g = words (codes p x (groupFrom p x n)) := by
  rw [Begins, groupBegun_eq] at h
  have hg : g = (dacAt p x n).groupWords p (x n) := by
    split_ifs at h
    exact (Option.some.inj h).symm
  rw [hg, Dac.groupWords, groupFrom]
  split_ifs with hlive hpending
  · rfl
  · rw [Bool.and_eq_true] at hpending
    obtain ⟨k, hfrom, -, -, hcode, -⟩ := pending_fresh hpending.2
    rw [hfrom, hcode]
    rfl
  · rw [active_codes]
    rfl

theorem begins_boundary {n : Nat} {g : BitVec 32 × BitVec 32} (h : Begins p x n g) :
    (dacAt p x n).atBoundary = true := by
  rw [Begins, groupBegun_eq] at h
  by_contra hb
  rw [if_neg hb] at h
  cases h

theorem active_accepted {n k : Nat} (h : activeFrom p x n = some k) :
    k < n ∧ (dacAt p x k).accepts (x k) = true := by
  induction n with
  | zero => cases h
  | succ n ih =>
      rw [activeFrom] at h
      split_ifs at h with htakes
      · obtain ⟨l, hfrom, hl, hacc, -, -⟩ := pending_fresh (takes_pending htakes)
        obtain rfl : l = k := Option.some.inj (hfrom.symm.trans h)
        exact ⟨Nat.lt_succ_of_lt hl, hacc⟩
      · obtain ⟨hk, hacc⟩ := ih h
        exact ⟨Nat.lt_succ_of_lt hk, hacc⟩

theorem group_accepted {n k : Nat} (h : groupFrom p x n = some k) :
    k < n ∧ (dacAt p x k).accepts (x k) = true := by
  rw [groupFrom] at h
  split_ifs at h with hlive hpending
  · rw [Bool.and_eq_true] at hpending
    obtain ⟨l, hfrom, hl, hacc, -, -⟩ := pending_fresh hpending.2
    obtain rfl : l = k := Option.some.inj (hfrom.symm.trans h)
    exact ⟨hl, hacc⟩
  · exact active_accepted h

theorem active_since {n k j : Nat} (h : activeFrom p x n = some k)
    (hs : (x j).forceSafe = true) (hkj : k < j) (hjn : j < n) :
    activeFrom p x (j + 1) = some k ∧
      ∀ m, j < m → m < n → EndsGroup p x m →
        (x m).live = true ∧ (dacAt p x m).pendingValid = false := by
  induction n with
  | zero => cases h
  | succ n ih =>
      rcases Nat.lt_succ_iff_lt_or_eq.mp hjn with hlt | rfl
      · rw [activeFrom] at h
        split_ifs at h with htakes hdrops
        · obtain ⟨l, hfrom, -, -, -, hfresh⟩ := pending_fresh (takes_pending htakes)
          obtain rfl : l = k := Option.some.inj (hfrom.symm.trans h)
          rw [hfresh j hkj hlt] at hs
          cases hs
        · obtain ⟨hactive, hsince⟩ := ih h hlt
          refine ⟨hactive, ?_⟩
          intro m hjm hmn hends
          rcases Nat.lt_succ_iff_lt_or_eq.mp hmn with hlt | rfl
          · exact hsince m hjm hlt hends
          · have hlive : (x m).live = true := by simpa [drops, hends.1, hends.2] using hdrops
            rw [takes_boundary hends.1 hends.2 hlive] at htakes
            exact ⟨hlive, Bool.eq_false_iff.mpr htakes⟩
      · refine ⟨h, ?_⟩
        intro m hjm hmn
        omega

theorem active_streaming {n : Nat} (h : (activeFrom p x n).isSome) : Streaming (dacAt p x n) := by
  induction n with
  | zero => cases h
  | succ n ih =>
      rw [activeFrom] at h
      split_ifs at h with htakes hdrops
      · have hpv := takes_pending htakes
        rw [takes, Bool.and_eq_true, Bool.or_eq_true] at htakes
        rcases htakes.2 with hwait | hdata
        · have hcontrol := step_control p (dacAt p x n) (x n)
          rw [beq_iff_eq] at hwait
          rw [hwait, hpv] at hcontrol
          exact Or.inl hcontrol
        · have hs : Streaming (dacAt p x n) := by
            simp only [Bool.and_eq_true, beq_iff_eq] at hdata
            exact Or.inr hdata.1.1
          exact streaming_step p hs
      · cases h
      · exact streaming_step p (ih h)

theorem active_kept {j n k : Nat} (h : activeFrom p x (j + 1) = some k) (hjn : j < n)
    (hwithin : ∀ m, j < m → m < n → ¬ EndsGroup p x m) : activeFrom p x n = some k := by
  induction n, hjn using Nat.le_induction with
  | base => exact h
  | succ n hjn ih =>
      have hn : activeFrom p x n = some k := ih (fun m hjm hmn => hwithin m hjm (Nat.lt_succ_of_lt hmn))
      have hs : Streaming (dacAt p x n) := active_streaming (by rw [hn]; rfl)
      have hends := hwithin n hjn (Nat.lt_succ_self n)
      have htakes : takes (dacAt p x n) (x n) = false := by
        rw [EndsGroup] at hends
        rcases hs with hs | hs
        · simp [takes, hs]
        · simp [takes, hs, Bool.eq_false_iff.mpr (fun hb => hends ⟨hs, hb⟩)]
      have hdrops : drops (dacAt p x n) (x n) = false := by
        rw [drops, Bool.and_eq_false_iff, Bool.and_eq_false_iff, beq_eq_false_iff_ne]
        left
        by_cases hdata : (dacAt p x n).state = .streamData
        · exact Or.inr (Bool.eq_false_iff.mpr (fun hb => hends ⟨hdata, hb⟩))
        · exact Or.inl hdata
      rw [activeFrom, htakes, hdrops]
      exact hn

theorem group_live {n k : Nat} (h : groupFrom p x n = some k) : (x n).live = true := by
  rw [groupFrom] at h
  by_contra hlive
  rw [if_pos (by simpa using hlive)] at h
  cases h

/-- The transmitted sample is older than no assertion. -/
theorem old_discarded (hx : DropsActive p x) {n k j : Nat} (hb : (dacAt p x n).atBoundary = true)
    (h : groupFrom p x n = some k) (hs : (x j).forceSafe = true) (hkj : k < j) : ¬ j ≤ n := by
  intro hjn
  have hlive := group_live h
  have hlt : j < n := by
    refine Nat.lt_of_le_of_ne hjn ?_
    rintro rfl
    rw [live_forced hs] at hlive
    cases hlive
  rw [groupFrom, hlive] at h
  split_ifs at h with hoff hpending
  · rw [Bool.and_eq_true] at hpending
    obtain ⟨l, hfrom, -, -, -, hfresh⟩ := pending_fresh hpending.2
    obtain rfl : l = k := Option.some.inj (hfrom.symm.trans h)
    rw [hfresh j hkj hlt] at hs
    cases hs
  · obtain ⟨hactive, hsince⟩ := active_since h hs hkj hlt
    have hsome : (activeFrom p x (j + 1)).isSome := by rw [hactive]; rfl
    -- the first group that ends after the assertion would have to replace the sample
    have hwithin : ∀ m, j < m → m < n → ¬ EndsGroup p x m := by
      intro m
      induction m using Nat.strong_induction_on with
      | _ m ih =>
          intro hjm hmn hends
          obtain ⟨hmlive, hmpv⟩ := hsince m hjm hmn hends
          have hearlier : ∀ l, j < l → l < m → ¬ EndsGroup p x l :=
            fun l hjl hlm => ih l hlm hjl (Nat.lt_trans hlm hmn)
          rcases hx j m hs hsome hjm hearlier hends.2 with hdead | ⟨-, hpv⟩
          · rw [hmlive] at hdead
            cases hdead
          · rw [hmpv] at hpv
            cases hpv
    rcases hx j n hs hsome hlt hwithin hb with hdead | ⟨hdata, hpv⟩
    · rw [hlive] at hdead
      cases hdead
    · rw [hdata, hpv] at hpending
      exact hpending rfl

variable (p x)

/-- The stream discards the samples older than an assertion exactly when the
assertion, or the lack of the enable, lasts until the active sample is dropped
or replaced. -/
theorem discards_old_iff : DiscardsOld p x ↔ DropsActive p x := by
  constructor
  · intro h j n hs hsome hjn hwithin hb
    by_contra hkept
    obtain ⟨hlive, hpending⟩ := not_or.mp hkept
    rw [Bool.not_eq_false] at hlive
    obtain ⟨k, hk⟩ := Option.isSome_iff_exists.mp hsome
    obtain ⟨hkj, hacc⟩ := active_accepted hk
    have hold : k < j := by
      refine Nat.lt_of_le_of_ne (Nat.le_of_lt_succ hkj) ?_
      rintro rfl
      rw [accepts_forced hs] at hacc
      cases hacc
    have hfrom : groupFrom p x n = some k := by
      rw [groupFrom, hlive, if_neg (by decide), if_neg (by simpa using hpending)]
      exact active_kept hk hjn hwithin
    have hbegins : Begins p x n ((dacAt p x n).groupWords p (x n)) := by
      rw [Begins, groupBegun_eq, if_pos hb]
    exact h.old n _ k j hbegins hfrom hs hold (Nat.le_of_lt hjn)
  · intro hx
    refine ⟨?_, ?_, ?_⟩
    · intro n g hg hs
      have hnone : groupFrom p x n = none := by
        rw [groupFrom, live_forced hs]
        rfl
      rw [begins_codes hg, hnone]
      rfl
    · intro n g k j hg hk hs hkj
      exact old_discarded hx (begins_boundary hg) hk hs hkj
    · intro n g j hg hs hjn hidle
      rw [begins_codes hg]
      cases hfrom : groupFrom p x n with
      | none => rfl
      | some k =>
          obtain ⟨hkn, hacc⟩ := group_accepted hfrom
          have hjk : j ≤ k := by
            by_contra hkj
            exact old_discarded hx (begins_boundary hg) hfrom hs (Nat.lt_of_not_le hkj) hjn
          rw [hidle k hjk hkn] at hacc
          cases hacc

/-- One sample, and an assertion of one clock while the instruction is shifted out. -/
def assertedInInstr (n : Nat) : DacInput :=
  { enable := true, forceSafe := n == 110, code := ⟨1, 2, 3, 4⟩, sampleValid := n == 103 }

theorem assertedInInstr_not_discarded : ¬ DiscardsOld ⟨0, 0x11, 0⟩ assertedInInstr := by
  intro h
  have hbegins : Begins ⟨0, 0x11, 0⟩ assertedInInstr 120 (0x00020001, 0x00040003) := by
    rw [Begins]
    decide +kernel
  have hfrom : groupFrom ⟨0, 0x11, 0⟩ assertedInInstr 120 = some 103 := by decide +kernel
  exact h.old 120 _ 103 110 hbegins hfrom rfl (by decide) (by decide)

end HilLab.Rtl.QuadStreamSafe
