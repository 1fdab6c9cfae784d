import HilLab.Lib.Edges
import HilLab.Pru.SerialLine
import Mathlib.Data.Nat.Count

namespace HilLab.Pru.SerialStream

open Lib.Clocked Lib.Edges Serial SerialLine

section Clock

/-- The clock rests high. -/
def rising (clk : Nat → Bool) (n : Nat) : Bool := clk n && !before true clk n
def falling (clk : Nat → Bool) (n : Nat) : Bool := !clk n && before true clk n
def edge (clk : Nat → Bool) (n : Nat) : Bool := rising clk n || falling clk n

def rises (clk : Nat → Bool) (n : Nat) : Nat := Nat.count (fun k => rising clk k = true) n

variable {clk : Nat → Bool} {n : Nat}

theorem rises_rising (h : rising clk n = true) : rises clk (n + 1) = rises clk n + 1 := by
  rw [rises, Nat.count_succ, if_pos h, rises]

theorem rises_still (h : rising clk n = false) : rises clk (n + 1) = rises clk n := by
  rw [rises, Nat.count_succ, h, if_neg Bool.false_ne_true, Nat.add_zero, rises]

theorem edge_cases (clk : Nat → Bool) (n : Nat) :
    (clk n = false ∧ before true clk n = true ∧ edge clk n = true ∧ rising clk n = false) ∨
      rising clk n = true ∨
      (clk n = before true clk n ∧ edge clk n = false ∧ rising clk n = false) := by
  rw [edge, rising, falling]
  cases clk n <;> cases before true clk n <;> simp

theorem rising_levels (h : rising clk n = true) : clk n = true ∧ before true clk n = false := by
  rw [rising, Bool.and_eq_true, Bool.not_eq_true'] at h
  exact h

theorem edge_of_rising (h : rising clk n = true) : edge clk n = true := by
  rw [edge, h, Bool.true_or]

/-- Ticks that increase, and edges less than a frame gap apart. -/
structure Steady (gap : Word) (clk : Nat → Bool) (ticks : Nat → Nat) : Prop where
  increasing : ∀ n, ticks n < ticks (n + 1)
  spaced : ∀ m n, Latest (edge clk) m n → edge clk n = true → ticks n - ticks m < gap.toNat

/-- No rising edge but the last of a frame is read at a multiple of 2^32. -/
def Unmarked (total : Nat) (clk : Nat → Bool) (ticks : Nat → Nat) (n : Nat) : Prop :=
  rising clk n = true → (rises clk n + 1) % total ≠ 0 → ticks n % 2 ^ 32 ≠ 0

variable {gap : Word} {ticks : Nat → Nat}

theorem Steady.le (h : Steady gap clk ticks) {m n : Nat} (hmn : m ≤ n) : ticks m ≤ ticks n :=
  monotone_nat_of_le_succ (fun k => Nat.le_of_lt (h.increasing k)) hmn

theorem Steady.within (h : Steady gap clk ticks) {m n k : Nat} (hlatest : Latest (edge clk) m n)
    (hnk : n ≤ k) (hk : edge clk k = true) :
    ¬ gap ≤ BitVec.ofNat 32 (ticks n) - BitVec.ofNat 32 (ticks m) := by
  obtain ⟨j, hnj, hedge, hj⟩ := hlatest.next hnk hk
  have hspaced := h.spaced m j hj hedge
  have hlast := h.le (Nat.le_of_lt hlatest.lt)
  have hnow := h.le hnj
  have hgap := gap.isLt
  rw [BitVec.le_def, BitVec.toNat_sub, BitVec.toNat_ofNat, BitVec.toNat_ofNat]
  omega

end Clock

section Steps

variable {total : Nat} {bit : Nat → Bool} {gap now : Word} {l : Line}

theorem timeout_self (hgap : gap ≠ 0) (h : l.lastEdge = now) : l.timeout gap now = l := by
  have hlt : ¬ gap ≤ now - l.lastEdge := by
    rw [h, BitVec.sub_self, BitVec.le_def]
    intro hle
    exact hgap (BitVec.eq_of_toNat_eq (Nat.le_zero.mp hle))
  rw [Line.timeout, if_neg (fun hand => hlt hand.2)]

theorem step_fall (hgap : gap ≠ 0) (h : l.clk = true) :
    l.step total bit gap now false =
      { l.fall total bit gap now with lastEdge := now, clk := false } := by
  have htimeout := timeout_self (l := { l.fall total bit gap now with lastEdge := now }) hgap rfl
  rw [Line.step, h]
  change ({ Line.timeout gap now { l.fall total bit gap now with lastEdge := now } with
    clk := false } : Line) = _
  rw [htimeout]

theorem step_rise (hgap : gap ≠ 0) (h : l.clk = false) :
    l.step total bit gap now true = { l.rise total with lastEdge := now, clk := true } := by
  have htimeout := timeout_self (l := { l.rise total with lastEdge := now }) hgap rfl
  rw [Line.step, h]
  change ({ Line.timeout gap now { l.rise total with lastEdge := now } with clk := true } : Line) = _
  rw [htimeout]

theorem timeout_clk : (l.timeout gap now).clk = l.clk := by
  rw [Line.timeout]
  split <;> rfl

theorem timeout_frames : (l.timeout gap now).frames = l.frames := by
  rw [Line.timeout]
  split <;> rfl

theorem timeout_lastEdge : (l.timeout gap now).lastEdge = l.lastEdge := by
  rw [Line.timeout]
  split <;> rfl

theorem step_still : l.step total bit gap now l.clk = l.timeout gap now := by
  have hclk : (l.timeout gap now).clk = l.clk := timeout_clk
  rw [Line.step, Bool.and_not_self, Bool.not_and_self]
  change ({ l.timeout gap now with clk := l.clk } : Line) = _
  rw [← hclk]

theorem rise_kept (h : ∀ i, l.sending = some i → ¬ total ≤ i + 1) : l.rise total = l := by
  rw [Line.rise]
  cases hat : l.sending with
  | none => rfl
  | some i => exact if_neg (h i hat)

theorem fall_frames : (l.fall total bit gap now).frames = l.frames := by
  rw [Line.fall]
  cases l.sending with
  | none => rfl
  | some i =>
      dsimp only
      split_ifs <;> rfl

end Steps

section Counting

variable {r total : Nat}

theorem within_frame (h : r % total + 1 < total) :
    (r + 1) / total = r / total ∧ (r + 1) % total = r % total + 1 := by
  have hsplit := Nat.mod_add_div r total
  exact (Nat.div_mod_unique (Nat.zero_lt_of_lt h)).mpr ⟨by omega, h⟩

theorem frame_over (h : r % total + 1 = total) :
    (r + 1) / total = r / total + 1 ∧ (r + 1) % total = 0 := by
  have hsplit := Nat.mod_add_div r total
  have hpos : 0 < total := by omega
  refine (Nat.div_mod_unique hpos).mpr ⟨?_, hpos⟩
  rw [Nat.mul_succ]
  omega

end Counting

section Tracking

variable {total : Nat} {bit : Nat → Bool} {gap : Word} {clk : Nat → Bool} {ticks : Nat → Nat}
variable {n : Nat} {l : Line}

variable (total bit clk ticks) in
/-- Between the first edge of a frame and the last, bit i is on the line, and edge m was the
last. -/
structure Midframe (n m i : Nat) (l : Line) : Prop where
  latest : Latest (edge clk) m n
  lastEdge : l.lastEdge = BitVec.ofNat 32 (ticks m)
  unmarked : before true clk n = true → l.lastEdge ≠ 0
  sending : l.sending = some i
  place : i + (before true clk n).toNat = rises clk n % total
  data : l.data = bit i

variable (total bit clk ticks) in
/-- Before sample n the line is where the clock is. A frame that no edge follows may time out. -/
structure Track (n : Nat) (l : Line) : Prop where
  level : l.clk = before true clk n
  frames : l.frames = rises clk n / total
  rest : before true clk n = true → rises clk n % total = 0 → l.sending = none ∧ l.data = true
  midframe : ¬ (before true clk n = true ∧ rises clk n % total = 0) → ∀ k, n ≤ k → edge clk k = true →
    ∃ m i, Midframe total bit clk ticks n m i l

theorem Track.at_rise (h : Track total bit clk ticks n l) (hrising : rising clk n = true) :
    ∃ m, Midframe total bit clk ticks n m (rises clk n % total) l := by
  have hbefore := (rising_levels hrising).2
  have hlow : ¬ (before true clk n = true ∧ rises clk n % total = 0) := by
    rw [hbefore]
    exact fun hand => Bool.false_ne_true hand.1
  obtain ⟨m, i, hmid⟩ := h.midframe hlow n (Nat.le_refl n) (edge_of_rising hrising)
  have hplace := hmid.place
  rw [hbefore, Bool.toNat_false, Nat.add_zero] at hplace
  exact ⟨m, hplace ▸ hmid⟩

theorem Track.fall (h : Track total bit clk ticks n l) (hgap : gap ≠ 0)
    (hsteady : Steady gap clk ticks) (htotal : 0 < total) (hclk : clk n = false)
    (hbefore : before true clk n = true) (hedge : edge clk n = true) (hstill : rising clk n = false) :
    Track total bit clk ticks (n + 1)
      (l.step total bit gap (BitVec.ofNat 32 (ticks n)) (clk n)) := by
  have hrises := rises_still hstill
  have hlow : before true clk (n + 1) = false := hclk
  rw [hclk, step_fall hgap (h.level.trans hbefore)]
  refine ⟨hlow.symm, ?_, fun hb => ?_, fun _ _ _ _ => ?_⟩
  · rw [hrises, ← h.frames]
    exact fall_frames
  · rw [hlow] at hb
    cases hb
  · by_cases hrest : rises clk n % total = 0
    · obtain ⟨hnone, -⟩ := h.rest hbefore hrest
      have hfall : l.fall total bit gap (BitVec.ofNat 32 (ticks n)) = l.load bit := by
        rw [Line.fall, hnone]
      refine ⟨n, 0, latest_succ hedge, rfl, fun hb => ?_, ?_, ?_, ?_⟩
      · rw [hlow] at hb
        cases hb
      · rw [hfall]
        rfl
      · rw [hlow, hrises, hrest]
        rfl
      · rw [hfall]
        rfl
    · obtain ⟨m, i, hmid⟩ := h.midframe (fun hand => hrest hand.2) n (Nat.le_refl n) hedge
      have hwithin := hsteady.within hmid.latest (Nat.le_refl n) hedge
      have hplace := hmid.place
      rw [hbefore] at hplace
      have hlt : i + 1 < total := by
        rw [Bool.toNat_true] at hplace
        rw [hplace]
        exact Nat.mod_lt _ htotal
      have hfall : l.fall total bit gap (BitVec.ofNat 32 (ticks n)) =
          { l with sending := some (i + 1), data := bit (i + 1) } := by
        have hgo : ¬ (l.lastEdge = 0 ∨ gap ≤ BitVec.ofNat 32 (ticks n) - l.lastEdge) := by
          rw [not_or]
          refine ⟨hmid.unmarked hbefore, ?_⟩
          rw [hmid.lastEdge]
          exact hwithin
        rw [Line.fall, hmid.sending]
        dsimp only
        rw [if_neg hgo, if_pos hlt]
      refine ⟨n, i + 1, latest_succ hedge, rfl, fun hb => ?_, ?_, ?_, ?_⟩
      · rw [hlow] at hb
        cases hb
      · rw [hfall]
      · rw [hlow, hrises, ← hplace]
        rfl
      · rw [hfall]

theorem Track.rise (h : Track total bit clk ticks n l) (hgap : gap ≠ 0)
    (htotal : 0 < total) (hunmarked : Unmarked total clk ticks n) (hrising : rising clk n = true) :
    Track total bit clk ticks (n + 1)
      (l.step total bit gap (BitVec.ofNat 32 (ticks n)) (clk n)) := by
  have hrises := rises_rising hrising
  obtain ⟨hclk, hbefore⟩ := rising_levels hrising
  have hhigh : before true clk (n + 1) = true := hclk
  obtain ⟨m, hmid⟩ := h.at_rise hrising
  rw [hclk, step_rise hgap (h.level.trans hbefore), Line.rise, hmid.sending]
  dsimp only
  by_cases hlast : total ≤ rises clk n % total + 1
  · have hend : rises clk n % total + 1 = total :=
      Nat.le_antisymm (Nat.mod_lt _ htotal) hlast
    obtain ⟨hdiv, hmod⟩ := frame_over hend
    rw [if_pos hlast]
    refine ⟨hhigh.symm, ?_, fun _ _ => ⟨rfl, rfl⟩, fun hmiddle => ?_⟩
    · rw [hrises, hdiv, ← h.frames]
    · exact absurd ⟨hhigh, hrises.symm ▸ hmod⟩ hmiddle
  · have hwithin := Nat.lt_of_not_le hlast
    obtain ⟨hdiv, hmod⟩ := within_frame hwithin
    have hne : (rises clk n + 1) % total ≠ 0 := by
      rw [hmod]
      exact Nat.succ_ne_zero _
    rw [if_neg hlast]
    refine ⟨hhigh.symm, ?_, fun _ hzero => ?_, fun _ _ _ _ => ?_⟩
    · rw [hrises, hdiv, ← h.frames]
    · rw [hrises] at hzero
      exact absurd hzero hne
    · refine ⟨n, rises clk n % total, latest_succ (edge_of_rising hrising), rfl, fun _ hzero => ?_,
        hmid.sending, ?_, hmid.data⟩
      · have htoNat := congrArg BitVec.toNat hzero
        rw [BitVec.toNat_ofNat] at htoNat
        exact hunmarked hrising hne htoNat
      · rw [hhigh, hrises, hmod]
        rfl

theorem Track.still (h : Track total bit clk ticks n l) (hsteady : Steady gap clk ticks)
    (hclk : clk n = before true clk n) (hquiet : edge clk n = false) (hstill : rising clk n = false) :
    Track total bit clk ticks (n + 1)
      (l.step total bit gap (BitVec.ofNat 32 (ticks n)) (clk n)) := by
  have hrises := rises_still hstill
  have hsame : before true clk (n + 1) = before true clk n := hclk
  rw [hclk, ← h.level, step_still]
  refine ⟨?_, ?_, fun hb hzero => ?_, fun hmiddle k hk hedge => ?_⟩
  · rw [timeout_clk, hsame, h.level]
  · rw [timeout_frames, hrises, h.frames]
  · rw [hsame] at hb
    rw [hrises] at hzero
    obtain ⟨hnone, hdata⟩ := h.rest hb hzero
    have hkept : l.timeout gap (BitVec.ofNat 32 (ticks n)) = l := by
      rw [Line.timeout, hnone]
      exact if_neg (fun hand => Bool.noConfusion hand.1)
    rw [hkept]
    exact ⟨hnone, hdata⟩
  · rw [hsame, hrises] at hmiddle
    have hnk : n ≤ k := Nat.le_of_succ_le hk
    obtain ⟨m, i, hmid⟩ := h.midframe hmiddle k hnk hedge
    have hwithin := hsteady.within hmid.latest hnk hedge
    have hkept : l.timeout gap (BitVec.ofNat 32 (ticks n)) = l := by
      rw [Line.timeout, hmid.lastEdge]
      exact if_neg (fun hand => hwithin hand.2)
    have hlatest : Latest (edge clk) m (n + 1) := by
      apply hmid.latest.later (Nat.le_succ n)
      intro j hnj hjn
      rw [Nat.le_antisymm (Nat.le_of_lt_succ hjn) hnj]
      exact hquiet
    rw [hkept]
    refine ⟨m, i, hlatest, hmid.lastEdge, ?_, hmid.sending, ?_, hmid.data⟩
    · rw [hsame]
      exact hmid.unmarked
    · rw [hsame, hrises]
      exact hmid.place

variable (total bit gap clk ticks) in
def run (l : Line) (n : Nat) : Line :=
  wave (fun l (i : Word × Bool) => l.step total bit gap i.1 i.2) l
    (fun k => (BitVec.ofNat 32 (ticks k), clk k)) n

theorem run_succ (l : Line) (n : Nat) :
    run total bit gap clk ticks l (n + 1) =
      (run total bit gap clk ticks l n).step total bit gap (BitVec.ofNat 32 (ticks n)) (clk n) := rfl

def resting (lastEdge : Word) : Line :=
  { sending := none, lastEdge, frames := 0, data := true, clk := true }

variable (bit) in
/-- While no edge is marked, the line keeps to the clock. -/
theorem run_tracks (hgap : gap ≠ 0) (hsteady : Steady gap clk ticks) (htotal : 0 < total)
    (lastEdge : Word) (n : Nat) (h : ∀ k, k < n → Unmarked total clk ticks k) :
    Track total bit clk ticks n (run total bit gap clk ticks (resting lastEdge) n) := by
  induction n with
  | zero =>
      have hrises : rises clk 0 = 0 := Nat.count_zero _
      refine ⟨rfl, ?_, fun _ _ => ⟨rfl, rfl⟩, fun hmiddle => ?_⟩
      · rw [hrises, Nat.zero_div]
        rfl
      · exact absurd ⟨rfl, hrises.symm ▸ Nat.zero_mod total⟩ hmiddle
  | succ n ih =>
      have htrack := ih (fun k hk => h k (Nat.lt_succ_of_lt hk))
      rw [run_succ]
      rcases edge_cases clk n with ⟨hclk, hb, hedge, hstill⟩ | hrising | ⟨hclk, hquiet, hstill⟩
      · exact htrack.fall hgap hsteady htotal hclk hb hedge hstill
      · exact htrack.rise hgap htotal (h n (Nat.lt_succ_self n)) hrising
      · exact htrack.still hsteady hclk hquiet hstill

end Tracking

section Lagging

variable {total : Nat} {bit : Nat → Bool} {gap : Word} {clk : Nat → Bool} {ticks : Nat → Nat}
variable {start count n : Nat} {l : Line}

variable (total clk) in
/-- In a frame that began after a number of clocks, the line is behind the clock, or will be at the
next falling edge. -/
structure Lags (start count n : Nat) (l : Line) : Prop where
  level : l.clk = before true clk n
  frames : l.frames = count
  started : start < rises clk n
  inside : rises clk n ≤ start + total
  low : before true clk n = false → ∀ i, l.sending = some i → start + i + 1 ≤ rises clk n
  high : before true clk n = true → l.lastEdge = 0 ∨ ∀ i, l.sending = some i → start + i + 2 ≤ rises clk n

theorem Lags.fall (h : Lags total clk start count n l) (hgap : gap ≠ 0) (now : Word)
    (hclk : clk n = false) (hbefore : before true clk n = true) (hstill : rising clk n = false) :
    Lags total clk start count (n + 1) (l.step total bit gap now (clk n)) := by
  have hrises := rises_still hstill
  have hlow : before true clk (n + 1) = false := hclk
  have hstarted := h.started
  rw [hclk, step_fall hgap (h.level.trans hbefore)]
  refine ⟨hlow.symm, ?_, ?_, ?_, fun _ i hi => ?_, fun hb => ?_⟩
  · exact fall_frames.trans h.frames
  · rw [hrises]
    exact hstarted
  · rw [hrises]
    exact h.inside
  · rw [hrises]
    have hsending : (l.fall total bit gap now).sending = some i := hi
    rw [Line.fall] at hsending
    cases hat : l.sending with
    | none =>
        rw [hat] at hsending
        obtain rfl := Option.some.inj hsending
        exact hstarted
    | some j =>
        rw [hat] at hsending
        dsimp only at hsending
        rcases h.high hbefore with hzero | hbehind
        · rw [if_pos (Or.inl hzero)] at hsending
          obtain rfl := Option.some.inj hsending
          exact hstarted
        · have hj := hbehind j hat
          split_ifs at hsending
          · obtain rfl := Option.some.inj hsending
            exact hstarted
          · obtain rfl := Option.some.inj hsending
            exact hj
          · obtain rfl := Option.some.inj (hat.symm.trans hsending)
            exact Nat.le_of_succ_le hj
  · rw [hlow] at hb
    cases hb

theorem Lags.rise (h : Lags total clk start count n l) (hgap : gap ≠ 0) (now : Word)
    (hrising : rising clk n = true) (hmore : rises clk n < start + total) :
    Lags total clk start count (n + 1) (l.step total bit gap now (clk n)) := by
  have hrises := rises_rising hrising
  obtain ⟨hclk, hbefore⟩ := rising_levels hrising
  have hhigh : before true clk (n + 1) = true := hclk
  have hkept : l.rise total = l := by
    apply rise_kept
    intro i hi hlast
    have hbehind := h.low hbefore i hi
    omega
  rw [hclk, step_rise hgap (h.level.trans hbefore), hkept]
  refine ⟨hhigh.symm, h.frames, ?_, ?_, fun hb => ?_, fun _ => Or.inr (fun i hi => ?_)⟩
  · rw [hrises]
    exact Nat.lt_succ_of_lt h.started
  · rw [hrises]
    exact hmore
  · rw [hhigh] at hb
    cases hb
  · rw [hrises]
    exact Nat.succ_le_succ (h.low hbefore i hi)

theorem Lags.still (h : Lags total clk start count n l) (now : Word) (hclk : clk n = before true clk n)
    (hstill : rising clk n = false) :
    Lags total clk start count (n + 1) (l.step total bit gap now (clk n)) := by
  have hrises := rises_still hstill
  have hsame : before true clk (n + 1) = before true clk n := hclk
  have hsending {i : Nat} (hi : (l.timeout gap now).sending = some i) : l.sending = some i := by
    rw [Line.timeout] at hi
    split at hi
    · cases hi
    · exact hi
  rw [hclk, ← h.level, step_still]
  refine ⟨?_, ?_, ?_, ?_, fun hb i hi => ?_, fun hb => ?_⟩
  · rw [timeout_clk, hsame, h.level]
  · rw [timeout_frames, h.frames]
  · rw [hrises]
    exact h.started
  · rw [hrises]
    exact h.inside
  · rw [hrises]
    exact h.low (hsame.symm.trans hb) i (hsending hi)
  · rw [hrises, timeout_lastEdge]
    rcases h.high (hsame.symm.trans hb) with hzero | hbehind
    · exact Or.inl hzero
    · exact Or.inr (fun i hi => hbehind i (hsending hi))

/-- A marked edge leaves the line to start its frame again. -/
theorem Track.lags (h : Track total bit clk ticks n l) (hgap : gap ≠ 0) (htotal : 0 < total)
    (hrising : rising clk n = true) (hmiddle : (rises clk n + 1) % total ≠ 0)
    (hmarked : ticks n % 2 ^ 32 = 0) :
    Lags total clk (total * (rises clk n / total)) (rises clk n / total) (n + 1)
      (l.step total bit gap (BitVec.ofNat 32 (ticks n)) (clk n)) := by
  have hrises := rises_rising hrising
  obtain ⟨hclk, hbefore⟩ := rising_levels hrising
  have hhigh : before true clk (n + 1) = true := hclk
  have hsplit := Nat.mod_add_div (rises clk n) total
  have hlt := Nat.mod_lt (rises clk n) htotal
  have hkept : l.rise total = l := by
    obtain ⟨m, hmid⟩ := h.at_rise hrising
    apply rise_kept
    intro i hi hlast
    obtain rfl := Option.some.inj (hmid.sending.symm.trans hi)
    exact hmiddle (frame_over (Nat.le_antisymm hlt hlast)).2
  rw [hclk, step_rise hgap (h.level.trans hbefore), hkept]
  refine ⟨hhigh.symm, h.frames, ?_, ?_, fun hb => ?_, fun _ => Or.inl ?_⟩
  · rw [hrises]
    omega
  · rw [hrises]
    omega
  · rw [hhigh] at hb
    cases hb
  · apply BitVec.eq_of_toNat_eq
    rw [BitVec.toNat_ofNat]
    exact hmarked

theorem run_lags (hgap : gap ≠ 0) {lastEdge : Word} {m : Nat} (hmn : m ≤ n)
    (h : Lags total clk start count m (run total bit gap clk ticks (resting lastEdge) m)) :
    Lags total clk start count n (run total bit gap clk ticks (resting lastEdge) n) ∨
      ∃ k, rises clk k = start + total ∧
        (run total bit gap clk ticks (resting lastEdge) k).frames = count := by
  induction n, hmn using Nat.le_induction with
  | base => exact Or.inl h
  | succ n hmn ih =>
      rcases ih with hlags | hdone
      · rcases Nat.lt_or_eq_of_le hlags.inside with hmore | hall
        · left
          rw [run_succ]
          rcases edge_cases clk n with ⟨hclk, hb, -, hstill⟩ | hrising | ⟨hclk, -, hstill⟩
          · exact hlags.fall hgap _ hclk hb hstill
          · exact hlags.rise hgap _ hrising hmore
          · exact hlags.still _ hclk hstill
        · exact Or.inr ⟨n, hall, hlags.frames⟩
      · exact Or.inr hdone

end Lagging

section Streams

def clock (x : Nat → Iteration) (n : Nat) : Bool := (x n).raw &&& clkMask != 0

def totalBits (s : Emulator) : Nat := (settings s).totalBits.toNat

def state (s : Emulator) (x : Nat → Iteration) (n : Nat) : Emulator := wave Emulator.iterate s x n

/-- A sampled master clock, while no message ends the streaming. -/
structure Clocked (s : Emulator) (x : Nat → Iteration) (ticks : Nat → Nat) : Prop where
  read : ∀ n, (x n).now = BitVec.ofNat 32 (ticks n)
  steady : Steady s.frameGapTicks (clock x) ticks
  harmless : ∀ n, ∀ r ∈ (x n).received, Harmless r

/-- Every clock finds its bit on DATA, every total_bits clocks are counted as a frame, and DATA is
high between frames. -/
structure BitExact (s : Emulator) (x : Nat → Iteration) : Prop where
  level : ∀ n, rising (clock x) n = true →
    (state s x n).data = (settings s).bit (rises (clock x) n % totalBits s)
  counted : ∀ n, (state s x n).frameCount =
    s.frameCount + BitVec.ofNat 32 (rises (clock x) n / totalBits s)
  rest : ∀ n, before true (clock x) n = true → rises (clock x) n % totalBits s = 0 →
    (state s x n).data = true

variable {s : Emulator} {x : Nat → Iteration} {ticks : Nat → Nat}

theorem state_sends (hidle : Idle s) (hclock : Clocked s x ticks) (n : Nat) :
    Sends (settings s) s.frameCount (state s x n)
      (run (totalBits s) (settings s).bit s.frameGapTicks (clock x) ticks
        (resting s.lastEdgeTicks) n) := by
  induction n with
  | zero =>
      refine ⟨rfl, hidle.inactive, fun i hi => ?_, rfl, ?_, hidle.data, hidle.clk⟩
      · cases hi
      · exact (BitVec.add_zero s.frameCount).symm
  | succ n ih =>
      have hstreaming : (settings (state s x n)).Streaming := by
        rw [ih.settings]
        exact hidle.streaming
      have hstate : state s x (n + 1) = (state s x n).iterate (x n) := rfl
      rw [hstate, iterate_harmless hstreaming (hclock.harmless n), hclock.read n, run_succ]
      exact ih.sample hidle.streaming _ _

theorem bitExact_of_unmarked (hidle : Idle s) (hclock : Clocked s x ticks)
    (h : ∀ n, Unmarked (totalBits s) (clock x) ticks n) : BitExact s x := by
  have htotal : 0 < totalBits s := (totalBits_range hidle.streaming).1
  have hgap : s.frameGapTicks ≠ 0 := hidle.streaming.gap
  have htrack (n : Nat) := run_tracks (settings s).bit hgap hclock.steady htotal
    s.lastEdgeTicks n (fun k _ => h k)
  have hsends := state_sends hidle hclock
  refine ⟨fun n hrising => ?_, fun n => ?_, fun n hb hzero => ?_⟩
  · obtain ⟨m, hmid⟩ := (htrack n).at_rise hrising
    rw [(hsends n).data, hmid.data]
  · rw [(hsends n).count, (htrack n).frames]
  · rw [(hsends n).data]
    exact ((htrack n).rest hb hzero).2

theorem unmarked_of_bitExact (hidle : Idle s) (hclock : Clocked s x ticks)
    (hwhole : ∀ n, ∃ k, n ≤ k ∧ totalBits s ∣ rises (clock x) k) (h : BitExact s x) (n : Nat) :
    Unmarked (totalBits s) (clock x) ticks n := by
  have htotal : 0 < totalBits s := (totalBits_range hidle.streaming).1
  have hgap : s.frameGapTicks ≠ 0 := hidle.streaming.gap
  induction n using Nat.strong_induction_on with
  | _ n ih =>
      intro hrising hmiddle hmarked
      have htrack := run_tracks (settings s).bit hgap hclock.steady htotal
        s.lastEdgeTicks n ih
      have hlags := htrack.lags hgap htotal hrising hmiddle hmarked
      rw [← run_succ] at hlags
      obtain ⟨k, hnk, hdvd⟩ := hwhole (n + 1)
      have hshort : ∃ k, rises (clock x) k =
          totalBits s * (rises (clock x) n / totalBits s) + totalBits s ∧
          (run (totalBits s) (settings s).bit s.frameGapTicks (clock x) ticks
            (resting s.lastEdgeTicks) k).frames = rises (clock x) n / totalBits s := by
        rcases run_lags hgap hnk hlags with hlater | hdone
        · -- a whole number of frames, more than had begun, is one more
          refine ⟨k, ?_, hlater.frames⟩
          obtain ⟨q, hq⟩ := hdvd
          have hstarted := hlater.started
          have hinside := hlater.inside
          rw [hq] at hstarted hinside ⊢
          rw [← Nat.mul_succ] at hinside ⊢
          have hlt := Nat.lt_of_mul_lt_mul_left hstarted
          have hle := Nat.le_of_mul_le_mul_left hinside htotal
          rw [Nat.le_antisymm hle hlt]
        · exact hdone
      obtain ⟨k, hrises, hframes⟩ := hshort
      have hcounted := h.counted k
      rw [(state_sends hidle hclock k).count, hframes, hrises, ← Nat.mul_succ,
        Nat.mul_div_cancel_left _ htotal] at hcounted
      generalize rises (clock x) n / totalBits s = q at hcounted
      have hvalues := congrArg BitVec.toNat hcounted
      rw [BitVec.toNat_add, BitVec.toNat_add, BitVec.toNat_ofNat, BitVec.toNat_ofNat] at hvalues
      omega

/-- The stream is bit exact if no marked edge is read; where the clock completes the frames it
begins, it is bit exact only then. -/
theorem stream_bitExact (hidle : Idle s) (hclock : Clocked s x ticks) :
    ((∀ n, Unmarked (totalBits s) (clock x) ticks n) → BitExact s x) ∧
      ((∀ n, ∃ k, n ≤ k ∧ totalBits s ∣ rises (clock x) k) →
        (BitExact s x ↔ ∀ n, Unmarked (totalBits s) (clock x) ticks n)) :=
  ⟨bitExact_of_unmarked hidle hclock, fun hwhole =>
    ⟨unmarked_of_bitExact hidle hclock hwhole, bitExact_of_unmarked hidle hclock⟩⟩

def reception (command : Command) (arg0 arg1 arg2 : Word) : Reception :=
  { len := Protocol.sizeofMsg
    request :=
      { magic := Protocol.hilPruMagic, version := Protocol.hilPruProtocolVersion,
        type := command.code, seq := 0, flags := 0, arg0, arg1, arg2, arg3 := 0 }
    now := 0
    baseline := clkMask
    startNow := 5 }

/-- SSI with two data bits, 0 and 1, started with the clock high. -/
def ready : Emulator :=
  [reception .serialConfig 1 2 10, reception .serialData 1 0 0,
    reception .serialStart 0 0 0].foldl Emulator.serve (Emulator.init 0)

/-- A clock that falls and rises in turn, one tick apart. -/
def alternating (start n : Nat) : Iteration :=
  { raw := if n % 2 = 0 then 0 else clkMask
    now := BitVec.ofNat 32 (start + n)
    hostInt := false
    received := [] }

theorem ready_idle : Idle ready :=
  ⟨⟨rfl, rfl, Or.inl rfl, by decide +kernel, by decide +kernel⟩, rfl, rfl, rfl⟩

theorem clock_alternating (start n : Nat) :
    clock (alternating start) n = decide (n % 2 = 1) := by
  rcases Nat.mod_two_eq_zero_or_one n with h | h
  · have hraw : (alternating start n).raw = 0 := if_pos h
    rw [clock, hraw, h]
    rfl
  · have hraw : (alternating start n).raw = clkMask := if_neg (by omega)
    rw [clock, hraw, h]
    rfl

theorem before_alternating (start n : Nat) :
    before true (clock (alternating start)) n = decide (n % 2 = 0) := by
  cases n with
  | zero => rfl
  | succ n =>
      rw [before, clock_alternating]
      apply decide_eq_decide.mpr
      omega

theorem edge_alternating (start n : Nat) : edge (clock (alternating start)) n = true := by
  rw [edge, rising, falling, clock_alternating, before_alternating]
  rcases Nat.mod_two_eq_zero_or_one n with h | h <;> rw [h] <;> rfl

theorem alternating_clocked (start : Nat) :
    Clocked ready (alternating start) (fun n => start + n) := by
  refine ⟨fun _ => rfl, ⟨fun n => Nat.lt_succ_self (start + n), fun m n hlatest _ => ?_⟩,
    fun _ r hr => absurd hr List.not_mem_nil⟩
  have hnext : ¬ m + 1 < n := by
    intro hlt
    have hquiet := hlatest.quiet (m + 1) (Nat.lt_succ_self m) hlt
    rw [edge_alternating] at hquiet
    cases hquiet
  have hgap : ready.frameGapTicks.toNat = 10 := rfl
  have hlt := hlatest.lt
  rw [hgap]
  omega

/-- From an even tick on, every rising edge is read at an odd one. -/
theorem alternating_bitExact : BitExact ready (alternating 1000) := by
  apply (stream_bitExact ready_idle (alternating_clocked 1000)).1
  intro n hrising _
  rw [rising, clock_alternating, Bool.and_eq_true, decide_eq_true_eq] at hrising
  have hodd : n % 2 = 1 := hrising.1
  change (1000 + n) % 2 ^ 32 ≠ 0
  omega

/-- With the first rising edge at tick 2^32, the second clock finds the first bit again. -/
theorem alternating_restarts :
    Idle ready ∧ Clocked ready (alternating (2 ^ 32 - 1)) (fun n => 2 ^ 32 - 1 + n) ∧
      ¬ BitExact ready (alternating (2 ^ 32 - 1)) := by
  refine ⟨ready_idle, alternating_clocked (2 ^ 32 - 1), fun h => ?_⟩
  have hrising : rising (clock (alternating (2 ^ 32 - 1))) 3 = true := by decide +kernel
  have hlevel : (state ready (alternating (2 ^ 32 - 1)) 3).data ≠
      (settings ready).bit (rises (clock (alternating (2 ^ 32 - 1))) 3 % totalBits ready) := by
    decide +kernel
  exact hlevel (h.level 3 hrising)

end Streams

end HilLab.Pru.SerialStream
