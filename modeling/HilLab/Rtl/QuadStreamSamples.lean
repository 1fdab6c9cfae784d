import HilLab.Rtl.QuadStreamBits

namespace HilLab.Rtl.QuadStreamSamples

open Ad3542rQuadStream Lib.Clocked QuadStreamBits

/-- The pending sample becomes the active one in this clock. -/
def takes (s : Dac) (i : DacInput) : Bool :=
  s.pendingValid &&
    (s.state == .waitSample || (s.state == .streamData && s.atBoundary && i.live))

/-- The active sample is replaced by the safe codes in this clock. -/
def drops (s : Dac) (i : DacInput) : Bool := s.state == .streamData && s.atBoundary && !i.live

variable (p : Params)

/-- What one clock does to the two samples. -/
structure Moves (s t : Dac) (i : DacInput) (takes drops : Bool) : Prop where
  pending : t.pending = (s.accept i).pending
  pendingValid : t.pendingValid = (!takes && (s.accept i).pendingValid)
  active : t.active = if takes then s.pending else if drops then p.safe else s.active

theorem step_samples (s : Dac) (i : DacInput) :
    Moves p s (s.step p i) i (takes s i) (drops s i) := by
  rw [Dac.step, takes, drops]
  cases hs : s.state with
  | delay =>
      dsimp only
      rw [Dac.delay, Bool.and_comm s.pendingValid]
      split_ifs <;> exact ⟨rfl, rfl, rfl⟩
  | cfgStart =>
      rw [Bool.and_comm s.pendingValid]
      exact ⟨rfl, rfl, rfl⟩
  | cfgShift =>
      dsimp only
      rw [Dac.cfgShift, Bool.and_comm s.pendingValid]
      split_ifs <;> exact ⟨rfl, rfl, rfl⟩
  | cfgGap =>
      dsimp only
      rw [Dac.cfgGap, Bool.and_comm s.pendingValid]
      split_ifs <;> exact ⟨rfl, rfl, rfl⟩
  | waitSample =>
      dsimp only
      rw [Dac.waitSample]
      cases s.pendingValid <;> exact ⟨rfl, rfl, rfl⟩
  | streamInstr =>
      dsimp only
      rw [Dac.streamInstr, Bool.and_comm s.pendingValid]
      split_ifs <;> exact ⟨rfl, rfl, rfl⟩
  | streamData =>
      dsimp only
      rw [Dac.streamData]
      cases hclk : s.dacSclk with
      | false =>
          have hb : s.atBoundary = false := by simp [Dac.atBoundary, hclk]
          rw [hb, Bool.and_comm s.pendingValid]
          exact ⟨rfl, rfl, rfl⟩
      | true =>
          by_cases hr : 1 < s.bitsRemaining
          · rw [if_neg (by decide), if_pos hr, not_atBoundary hr, Bool.and_comm s.pendingValid]
            exact ⟨rfl, rfl, rfl⟩
          · rw [if_neg (by decide), if_neg hr, atBoundary_iff.mpr ⟨Or.inr hs, hclk, hr⟩]
            cases i.live <;> cases s.pendingValid <;> exact ⟨rfl, rfl, rfl⟩

def repeated (reps : List Nat) (samples : List Sample) : List Sample :=
  (List.zipWith (fun k a => List.replicate (k + 1) a) reps samples).flatten

/-- The groups show the samples in order, each for one or more groups. -/
def Shown (samples shown : List Sample) : Prop :=
  ∃ reps : List Nat, reps.length = samples.length ∧ shown = repeated reps samples

theorem shown_nil : Shown [] [] := ⟨[], rfl, rfl⟩

theorem repeated_cons (k : Nat) (reps : List Nat) (a : Sample) (samples : List Sample) :
    repeated (k :: reps) (a :: samples) = List.replicate (k + 1) a ++ repeated reps samples := rfl

theorem repeated_concat {reps : List Nat} {samples : List Sample}
    (h : reps.length = samples.length) (k : Nat) (a : Sample) :
    repeated (reps ++ [k]) (samples ++ [a]) =
      repeated reps samples ++ List.replicate (k + 1) a := by
  rw [repeated, repeated, List.zipWith_append h, List.flatten_append]
  simp

theorem Shown.next {samples shown : List Sample} (h : Shown samples shown) (a : Sample) :
    Shown (samples ++ [a]) (shown ++ [a]) := by
  obtain ⟨reps, hlen, rfl⟩ := h
  refine ⟨reps ++ [0], by simp [hlen], ?_⟩
  rw [repeated_concat hlen]
  rfl

theorem Shown.again {samples shown : List Sample} {a : Sample} (h : Shown (samples ++ [a]) shown) :
    Shown (samples ++ [a]) (shown ++ [a]) := by
  obtain ⟨reps, hlen, rfl⟩ := h
  obtain ⟨front, k, rfl⟩ : ∃ front k, reps = front ++ [k] := by
    have hne : reps ≠ [] := by
      intro hnil
      simp [hnil] at hlen
    exact ⟨reps.dropLast, reps.getLast hne, (List.dropLast_concat_getLast hne).symm⟩
  have hfront : front.length = samples.length := by simpa using hlen
  refine ⟨front ++ [k + 1], by simp [hfront], ?_⟩
  rw [repeated_concat hfront, repeated_concat hfront, List.append_assoc, ← List.replicate_succ']

def waiting (s : Dac) : List Sample := if s.pendingValid then [s.pending] else []

def words (a : Sample) : BitVec 32 × BitVec 32 := (a.wordA, a.wordB)

def stream (shown : List Sample) : List Edge :=
  configFrames p 3 ++ .select :: instrEdges ++ (shown.map words).flatMap groupEdges

/-- Where the samples accepted so far are: those taken are active or have been
shown, the groups show them, and at most one more waits. -/
def Tracks (s : Dac) (taken : List Sample) (gs : List (BitVec 32 × BitVec 32)) : Prop :=
  match s.state with
  | .delay | .cfgStart | .cfgShift | .cfgGap | .waitSample => taken = [] ∧ gs = []
  | .streamInstr => taken = [s.active] ∧ gs = []
  | .streamData => ∃ earlier shown,
      taken = earlier ++ [s.active] ∧ Shown taken shown ∧ gs = shown.map words

section Step

variable {s : Dac} {i : DacInput}

theorem waiting_step (hlive : i.live = true) :
    waiting s ++ (if s.accepts i then [i.code] else []) =
      (if takes s i then [s.pending] else []) ++ waiting (s.step p i) := by
  have hmoves := step_samples p s i
  have hsafe : i.forceSafe = false := by
    rw [DacInput.live, Bool.and_eq_true] at hlive
    simpa using hlive.1
  rw [waiting, waiting, hmoves.pendingValid, hmoves.pending, Dac.accept, hsafe]
  cases hpv : s.pendingValid with
  | true =>
      have hacc : s.accepts i = false := by simp [Dac.accepts, Dac.sampleReady, hpv]
      rw [hacc]
      cases takes s i <;> rfl
  | false =>
      have htakes : takes s i = false := by simp [takes, hpv]
      rw [htakes]
      cases s.accepts i <;> rfl

theorem drops_live (hlive : i.live = true) : drops s i = false := by
  rw [drops, hlive, Bool.not_true, Bool.and_false]

theorem takes_boundary (hs : s.state = .streamData) (hb : s.atBoundary = true)
    (hlive : i.live = true) : takes s i = s.pendingValid := by
  rw [takes, hs, hb, hlive]
  exact Bool.and_true _

theorem groupBegun_eq : s.groupBegun p i = if s.atBoundary then some (s.groupWords p i) else none :=
  rfl

theorem tracks_step {taken : List Sample} {gs : List (BitVec 32 × BitVec 32)}
    (h : Tracks s taken gs) (hlive : i.live = true) :
    Tracks (s.step p i) (taken ++ if takes s i then [s.pending] else [])
      (gs ++ (s.groupBegun p i).toList) := by
  have hcontrol := step_control p s i
  have hactive : (s.step p i).active = if takes s i then s.pending else s.active := by
    rw [(step_samples p s i).active, drops_live hlive]
    rfl
  cases hs : s.state with
  | delay | cfgStart | cfgShift | cfgGap =>
      have htakes : takes s i = false := by simp [takes, hs]
      have hb : s.atBoundary = false := by simp [Dac.atBoundary, hs]
      rw [Tracks, hs] at h
      rw [hs] at hcontrol
      rw [htakes, groupBegun_eq, hb, h.1, h.2]
      have hidle : Idle (s.step p i) ∨ (s.step p i).state = .cfgShift := by
        simp only at hcontrol
        rw [Idle]
        tauto
      rcases hidle with (ht | ht | ht | ht) | ht <;> rw [Tracks, ht] <;> exact ⟨rfl, rfl⟩
  | waitSample =>
      have hb : s.atBoundary = false := by simp [Dac.atBoundary, hs]
      have htakes : takes s i = s.pendingValid := by simp [takes, hs]
      rw [Tracks, hs] at h
      rw [hs] at hcontrol
      simp only at hcontrol
      rw [htakes] at hactive ⊢
      rw [groupBegun_eq, hb, h.1, h.2, Tracks, hcontrol, hactive]
      cases s.pendingValid with
      | true => exact ⟨rfl, rfl⟩
      | false => exact ⟨rfl, rfl⟩
  | streamInstr =>
      have htakes : takes s i = false := by simp [takes, hs]
      rw [Tracks, hs] at h
      rw [hs] at hcontrol
      simp only at hcontrol
      rw [htakes] at hactive ⊢
      rw [groupBegun_eq, h.1, h.2, Tracks, hcontrol, hactive]
      cases hb : s.atBoundary with
      | false => exact ⟨rfl, rfl⟩
      | true =>
          have hwords : s.groupWords p i = words s.active := by
            rw [Dac.groupWords, hlive, hs]
            rfl
          rw [hwords]
          exact ⟨[], [s.active], rfl, shown_nil.next s.active, rfl⟩
  | streamData =>
      rw [Tracks, hs] at h
      rw [hs] at hcontrol
      simp only at hcontrol
      obtain ⟨earlier, shown, htaken, hshown, hgs⟩ := h
      rw [groupBegun_eq, Tracks, hcontrol, hactive]
      cases hb : s.atBoundary with
      | false =>
          have htakes : takes s i = false := by simp [takes, hs, hb]
          rw [htakes]
          exact ⟨earlier, shown, by simpa using htaken, by simpa using hshown, by simpa using hgs⟩
      | true =>
          have hwords : s.groupWords p i = words (if s.pendingValid then s.pending else s.active) := by
            rw [Dac.groupWords, hlive, hs]
            cases s.pendingValid <;> rfl
          rw [takes_boundary hs hb hlive, hwords]
          cases s.pendingValid with
          | true =>
              refine ⟨taken, shown ++ [s.pending], rfl, hshown.next s.pending, ?_⟩
              rw [hgs, List.map_append]
              rfl
          | false =>
              rw [htaken] at hshown ⊢
              refine ⟨earlier, shown ++ [s.active], by simp, by simpa using hshown.again, ?_⟩
              rw [hgs, List.map_append]
              rfl

def configLeft (s : Dac) : Nat :=
  match s.state with
  | .delay => 103 + (p.startupDelayCycles.toNat - s.startupCount.toNat)
  | .cfgStart => 34 * (2 - s.configIndex.toNat) + 34
  | .cfgShift =>
      34 * (2 - s.configIndex.toNat) + (2 * s.bitsRemaining.toNat - s.dacSclk.toNat) + 1
  | .cfgGap => 34 * (2 - s.configIndex.toNat) + 1
  | .waitSample | .streamInstr | .streamData => 0

theorem configLeft_delay (hs : s.state = .delay) : configLeft p (s.step p i) < configLeft p s := by
  have hstep : s.step p i = s.delay p (s.accept i) := by rw [Dac.step, hs]
  rw [hstep, Dac.delay]
  have hleft : configLeft p s = 103 + (p.startupDelayCycles.toNat - s.startupCount.toNat) := by
    rw [configLeft, hs]
  split_ifs with hend
  · have hnext : configLeft p { (s.accept i).idleBus with
        startupCount := 0, configIndex := 0, state := .cfgStart } = 102 := rfl
    omega
  · have hnext : configLeft p { (s.accept i).idleBus with startupCount := s.startupCount + 1 } =
        103 + (p.startupDelayCycles.toNat - (s.startupCount + 1).toNat) := by
      have hst : (s.accept i).idleBus.state = .delay := hs
      rw [configLeft]
      dsimp only
      rw [hst]
    obtain ⟨hzero, hlt⟩ := not_or.mp hend
    have hpos : 1 ≤ p.startupDelayCycles.toNat := by
      have hne : p.startupDelayCycles.toNat ≠ 0 := fun h0 => hzero (BitVec.eq_of_toNat_eq h0)
      omega
    have hpred : (p.startupDelayCycles - 1).toNat = p.startupDelayCycles.toNat - 1 :=
      BitVec.toNat_sub_of_le (BitVec.le_def.mpr hpos)
    have hcount : s.startupCount.toNat < p.startupDelayCycles.toNat - 1 := by
      rw [BitVec.le_def, hpred] at hlt
      omega
    have hsucc : (s.startupCount + 1).toNat = s.startupCount.toNat + 1 := by
      have hbound := p.startupDelayCycles.isLt
      rw [BitVec.toNat_add]
      exact Nat.mod_eq_of_lt (Nat.lt_trans (Nat.add_lt_of_lt_sub hcount) hbound)
    rw [hnext, hleft, hsucc]
    omega

theorem configLeft_cfgShift (hs : s.state = .cfgShift) (hf : Framed s) :
    configLeft p (s.step p i) < configLeft p s := by
  have hstep : s.step p i = s.cfgShift (s.accept i) := by rw [Dac.step, hs]
  have hleft : configLeft p s =
      34 * (2 - s.configIndex.toNat) + (2 * s.bitsRemaining.toNat - s.dacSclk.toNat) + 1 := by
    rw [configLeft, hs]
  have hbits : 1 ≤ s.bitsRemaining.toNat := ((framed_shifting (Or.inl hs)).mp hf).2
  rw [hstep, Dac.cfgShift]
  cases hclk : s.dacSclk with
  | false =>
      have hnext : configLeft p { s.accept i with dacSclk := true } =
          34 * (2 - s.configIndex.toNat) + (2 * s.bitsRemaining.toNat - 1) + 1 := by
        have hst : (s.accept i).state = .cfgShift := hs
        rw [configLeft]
        dsimp only
        rw [hst]
        rfl
      rw [hclk, Bool.toNat_false] at hleft
      rw [if_pos (by decide), hnext, hleft]
      omega
  | true =>
      rw [hclk, Bool.toNat_true] at hleft
      by_cases hr : 1 < s.bitsRemaining
      · have hnext : configLeft p (s.accept i).shift =
            34 * (2 - s.configIndex.toNat) + (2 * (s.bitsRemaining - 1).toNat - 0) + 1 := by
          have hst : (s.accept i).shift.state = .cfgShift := hs
          rw [configLeft, hst]
          rfl
        have hlt : 1 < s.bitsRemaining.toNat := hr
        rw [if_neg (by decide), if_pos hr, hnext, hleft, shift_bits hr]
        omega
      · rw [if_neg (by decide), if_neg hr, hleft]
        change 34 * (2 - s.configIndex.toNat) + 1 < _
        omega

theorem configLeft_step (hf : Framed s) (hindex : IndexOk s) :
    (s.state = .waitSample ∨ Streaming s) ∨ configLeft p (s.step p i) < configLeft p s := by
  cases hs : s.state with
  | delay => exact Or.inr (configLeft_delay p hs)
  | cfgStart =>
      right
      have hstep : s.step p i = s.cfgStart p (s.accept i) := by rw [Dac.step, hs]
      have hnext : configLeft p (s.step p i) = 34 * (2 - s.configIndex.toNat) + (2 * 16 - 0) + 1 := by
        rw [hstep]
        rfl
      have hleft : configLeft p s = 34 * (2 - s.configIndex.toNat) + 34 := by rw [configLeft, hs]
      omega
  | cfgShift => exact Or.inr (configLeft_cfgShift p hs hf)
  | cfgGap =>
      right
      have hle := hindex (Or.inr (Or.inr hs))
      have hcontrol := step_control p s i
      have hleft : configLeft p s = 34 * (2 - s.configIndex.toNat) + 1 := by rw [configLeft, hs]
      rw [hs] at hcontrol
      rcases hcontrol with ⟨hlt, ht, hsucc⟩ | ⟨-, ht⟩
      · have hnat : s.configIndex.toNat < 2 := hlt
        have hadd : (s.configIndex + 1).toNat = s.configIndex.toNat + 1 := by
          rw [BitVec.toNat_add]
          exact Nat.mod_eq_of_lt (Nat.lt_of_le_of_lt (Nat.succ_le_of_lt hnat) (by decide))
        have hnext : configLeft p (s.step p i) = 34 * (2 - (s.configIndex.toNat + 1)) + 34 := by
          rw [configLeft, ht, hsucc]
          dsimp only
          rw [hadd]
        omega
      · have hnext : configLeft p (s.step p i) = 0 := by rw [configLeft, ht]
        omega
  | waitSample => exact Or.inl (Or.inl rfl)
  | streamInstr => exact Or.inl (Or.inr (Or.inl hs))
  | streamData => exact Or.inl (Or.inr (Or.inr hs))

theorem streaming_before (hs : ¬ Streaming s) (ht : Streaming (s.step p i)) :
    s.state = .waitSample := by
  have hcontrol := step_control p s i
  rw [Streaming] at ht
  cases hst : s.state with
  | waitSample => rfl
  | streamInstr => exact absurd (Or.inl hst) hs
  | streamData => exact absurd (Or.inr hst) hs
  | delay | cfgStart | cfgShift | cfgGap =>
      rw [hst] at hcontrol
      simp only at hcontrol
      rcases ht with ht | ht <;> rw [ht] at hcontrol <;> simp at hcontrol

def bitsLeft (s : Dac) : Nat := 2 * s.bitsRemaining.toNat - s.dacSclk.toNat

theorem bitsLeft_step (hs : Streaming s) (hf : Framed s) :
    s.atBoundary = true ∨ bitsLeft (s.step p i) < bitsLeft s := by
  have hbits : 1 ≤ s.bitsRemaining.toNat := ((framed_shifting (Or.inr hs)).mp hf).2
  cases hclk : s.dacSclk with
  | false =>
      right
      have hnext : bitsLeft (s.step p i) = 2 * s.bitsRemaining.toNat - 1 := by
        rcases hs with hs | hs
        · rw [Dac.step, hs]
          dsimp only
          rw [Dac.streamInstr, hclk]
          rfl
        · rw [Dac.step, hs]
          dsimp only
          rw [Dac.streamData, hclk]
          rfl
      have hleft : bitsLeft s = 2 * s.bitsRemaining.toNat - 0 := by rw [bitsLeft, hclk]; rfl
      omega
  | true =>
      by_cases hr : 1 < s.bitsRemaining
      · right
        have hnext : bitsLeft (s.step p i) = 2 * (s.bitsRemaining - 1).toNat - 0 := by
          rcases hs with hs | hs
          · rw [Dac.step, hs]
            dsimp only
            rw [Dac.streamInstr, hclk, if_neg (by decide), if_pos hr]
            rfl
          · rw [Dac.step, hs]
            dsimp only
            rw [Dac.streamData, hclk, if_neg (by decide), if_pos hr]
            rfl
        have hlt : 1 < s.bitsRemaining.toNat := hr
        have hleft : bitsLeft s = 2 * s.bitsRemaining.toNat - 1 := by rw [bitsLeft, hclk]; rfl
        rw [hnext, hleft, shift_bits hr]
        omega
      · exact Or.inl (atBoundary_iff.mpr ⟨hs, hclk, hr⟩)

end Step

section Run

variable (x : Nat → DacInput)

def accepted (n : Nat) : List Sample :=
  between (fun k => if (dacAt p x k).accepts (x k) then [(x k).code] else []) 0 n

def taken (n : Nat) : List Sample :=
  between (fun k => if takes (dacAt p x k) (x k) then [(dacAt p x k).pending] else []) 0 n

/-- Never forced safe and always enabled. -/
def AlwaysLive : Prop := ∀ n, (x n).live = true

variable {x}

theorem accepted_eq (hx : AlwaysLive x) (n : Nat) :
    accepted p x n = taken p x n ++ waiting (dacAt p x n) := by
  have hconserves := between_conserves (fun k => waiting (dacAt p x k))
    (fun k => if (dacAt p x k).accepts (x k) then [(x k).code] else [])
    (fun k => if takes (dacAt p x k) (x k) then [(dacAt p x k).pending] else [])
    (Nat.zero_le n) (fun k _ _ => waiting_step p (hx k))
  exact hconserves

theorem tracks_run (hx : AlwaysLive x) (n : Nat) :
    Tracks (dacAt p x n) (taken p x n) (groups p x n) := by
  induction n with
  | zero => exact ⟨rfl, rfl⟩
  | succ n ih =>
      have htaken : taken p x (n + 1) =
          taken p x n ++ if takes (dacAt p x n) (x n) then [(dacAt p x n).pending] else [] :=
        between_succ _ (Nat.zero_le n)
      rw [htaken, groups_succ]
      exact tracks_step p ih (hx n)

variable (x)

theorem config_sent {n : Nat} (hn : ¬ Streaming (dacAt p x n)) :
    ∃ m, n ≤ m ∧ (dacAt p x m).state = .waitSample ∧ emitted p x m = configFrames p 3 := by
  have hwaits : ∀ m, n ≤ m → Streaming (dacAt p x m) →
      ∃ k, n ≤ k ∧ (dacAt p x k).state = .waitSample := by
    intro m hm
    induction m, hm using Nat.le_induction with
    | base => exact fun h => absurd h hn
    | succ m hm ih =>
        intro hs
        by_cases hm' : Streaming (dacAt p x m)
        · exact ih hm'
        · exact ⟨m, hm, streaming_before p hm' hs⟩
  have hreach : ∃ k, n ≤ k ∧ (dacAt p x k).state = .waitSample := by
    have hfalls : ∀ k, ((dacAt p x k).state = .waitSample ∨ Streaming (dacAt p x k)) ∨
        configLeft p (dacAt p x (k + 1)) < configLeft p (dacAt p x k) :=
      fun k => configLeft_step p (dacAt_framed p x k) (dacAt_indexOk p x k)
    obtain ⟨m, hm, hwait | hs⟩ := exists_of_falling (f := fun k => configLeft p (dacAt p x k)) hfalls n
    · exact ⟨m, hm, hwait⟩
    · exact hwaits m hm hs
  obtain ⟨k, hk, hwait⟩ := hreach
  have hidle : Idle (dacAt p x k) := Or.inr (Or.inr (Or.inr hwait))
  have hns : ¬ Streaming (dacAt p x k) := by simp [Streaming, hwait]
  have hsent := emitted_todo p x k
  rw [todo_idle hidle, groups_idle p x hns, header, hwait] at hsent
  exact ⟨k, hk, hwait, by simpa using hsent⟩

theorem next_boundary {n : Nat} (hn : Streaming (dacAt p x n)) :
    ∃ m, n ≤ m ∧ Streaming (dacAt p x m) ∧ (dacAt p x m).atBoundary = true := by
  have hstreams : ∀ m, n ≤ m → Streaming (dacAt p x m) := by
    intro m hm
    induction m, hm using Nat.le_induction with
    | base => exact hn
    | succ m hm ih => exact streaming_step p ih
  have hfalls : ∀ k, (dacAt p x (n + k)).atBoundary = true ∨
      bitsLeft (dacAt p x (n + (k + 1))) < bitsLeft (dacAt p x (n + k)) :=
    fun k => bitsLeft_step p (hstreams (n + k) (Nat.le_add_right n k)) (dacAt_framed p x (n + k))
  obtain ⟨k, -, hk⟩ := exists_of_falling (f := fun k => bitsLeft (dacAt p x (n + k))) hfalls 0
  exact ⟨n + k, Nat.le_add_right n k, hstreams _ (Nat.le_add_right n k), hk⟩

theorem data_after {n : Nat} (hn : Streaming (dacAt p x n)) (hb : (dacAt p x n).atBoundary = true) :
    (dacAt p x (n + 1)).state = .streamData := by
  have hcontrol := step_control p (dacAt p x n) (x n)
  rcases hn with hs | hs
  · rw [hs] at hcontrol
    exact hcontrol.trans (by rw [hb]; rfl)
  · rw [hs] at hcontrol
    exact hcontrol

theorem next_data_boundary {n : Nat} (hn : (dacAt p x n).state = .streamData) :
    ∃ m, n ≤ m ∧ (dacAt p x m).state = .streamData ∧ (dacAt p x m).atBoundary = true := by
  have hstays : ∀ m, n ≤ m → (dacAt p x m).state = .streamData := by
    intro m hm
    induction m, hm using Nat.le_induction with
    | base => exact hn
    | succ m hm ih =>
        have hcontrol := step_control p (dacAt p x m) (x m)
        rw [ih] at hcontrol
        exact hcontrol
  obtain ⟨m, hm, -, hb⟩ := next_boundary p x (Or.inr hn)
  exact ⟨m, hm, hstays m hm, hb⟩

theorem emitted_boundary {n : Nat} (hn : (dacAt p x n).state = .streamData)
    (hb : (dacAt p x n).atBoundary = true) :
    emitted p x n =
      configFrames p 3 ++ .select :: instrEdges ++ (groups p x n).flatMap groupEdges := by
  have hs : Streaming (dacAt p x n) := Or.inr hn
  obtain ⟨-, hclk, hr⟩ := atBoundary_iff.mp hb
  have hsent := emitted_todo p x n
  have htodo : todo (dacAt p x n) = [] := by
    rw [todo, hn]
    exact unsent_done hclk hr
  rw [htodo, header_streaming p hs, List.append_nil] at hsent
  exact hsent

variable {x}

theorem taken_boundary (hx : AlwaysLive x) {n : Nat} (hn : (dacAt p x n).state = .streamData)
    (hb : (dacAt p x n).atBoundary = true) : taken p x (n + 1) = accepted p x n := by
  have htaken : taken p x (n + 1) =
      taken p x n ++ if takes (dacAt p x n) (x n) then [(dacAt p x n).pending] else [] :=
    between_succ _ (Nat.zero_le n)
  rw [htaken, takes_boundary hn hb (hx n), accepted_eq p hx]
  rfl

theorem streams_after_accept (hx : AlwaysLive x) {n : Nat} (hn : accepted p x n ≠ []) :
    ∃ m, n ≤ m ∧ Streaming (dacAt p x m) := by
  by_cases hs : Streaming (dacAt p x n)
  · exact ⟨n, Nat.le_refl n, hs⟩
  · obtain ⟨m, hm, hwait, -⟩ := config_sent p x hs
    have htracks := tracks_run p hx m
    rw [Tracks, hwait] at htracks
    have hgrows : accepted p x n <+: accepted p x m := between_prefix _ 0 (Nat.zero_le n) hm
    have haccepted := accepted_eq p hx m
    rw [htracks.1, List.nil_append] at haccepted
    have hpv : (dacAt p x m).pendingValid = true := by
      by_contra hpv
      rw [waiting, if_neg hpv] at haccepted
      rw [haccepted] at hgrows
      exact hn (List.prefix_nil.mp hgrows)
    have hcontrol := step_control p (dacAt p x m) (x m)
    rw [hwait] at hcontrol
    refine ⟨m + 1, Nat.le_succ_of_le hm, Or.inl (hcontrol.trans ?_)⟩
    rw [hpv]
    rfl

theorem data_boundary_after (hx : AlwaysLive x) {n : Nat} (hn : accepted p x n ≠ []) (L : Nat) :
    ∃ m, n ≤ m ∧ (dacAt p x m).state = .streamData ∧ (dacAt p x m).atBoundary = true ∧
      L ≤ (groups p x m).length := by
  induction L with
  | zero =>
      obtain ⟨a, ha, has⟩ := streams_after_accept p hx hn
      obtain ⟨b, hb, hbs, hbb⟩ := next_boundary p x has
      obtain ⟨m, hm, hdata, hmb⟩ := next_data_boundary p x (data_after p x hbs hbb)
      exact ⟨m, by omega, hdata, hmb, Nat.zero_le _⟩
  | succ L ih =>
      obtain ⟨m, hm, hdata, hb, hL⟩ := ih
      obtain ⟨k, hk, hkdata, hkb⟩ := next_data_boundary p x (data_after p x (Or.inr hdata) hb)
      refine ⟨k, by omega, hkdata, hkb, ?_⟩
      have hgroup : groups p x (m + 1) = groups p x m ++ [(dacAt p x m).groupWords p (x m)] := by
        rw [groups_succ, groupBegun_eq, hb]
        rfl
      have hprefix : groups p x (m + 1) <+: groups p x k := between_prefix _ 0 (Nat.zero_le _) hk
      have hlen := hprefix.length_le
      rw [hgroup, List.length_append] at hlen
      exact Nat.le_trans (Nat.succ_le_succ hL) hlen

theorem configFrames_prefix {j k : Nat} (h : j ≤ k) : configFrames p j <+: configFrames p k := by
  induction k, h using Nat.le_induction with
  | base => exact List.prefix_rfl
  | succ k h ih =>
      have hsucc : configFrames p (k + 1) =
          configFrames p k ++ configFrame p (BitVec.ofNat 2 k) := by
        rw [configFrames, configFrames, List.range_succ, List.flatMap_append]
        simp
      rw [hsucc]
      exact ih.trans (List.prefix_append _ _)

theorem header_levels {s : Dac} (hs : ¬ Streaming s) (hindex : IndexOk s) :
    header p s <+: configFrames p 3 := by
  cases hst : s.state with
  | delay =>
      rw [header, hst]
      exact List.nil_prefix
  | cfgStart =>
      rw [header, hst]
      exact configFrames_prefix p (Nat.le_succ_of_le (hindex (Or.inl hst)))
  | cfgShift =>
      rw [header, hst]
      exact configFrames_prefix p (Nat.succ_le_succ (hindex (Or.inr (Or.inl hst))))
  | cfgGap =>
      rw [header, hst]
      exact configFrames_prefix p (Nat.succ_le_succ (hindex (Or.inr (Or.inr hst))))
  | waitSample =>
      have hall : header p s = configFrames p 3 := by rw [header, hst]
      exact hall ▸ List.prefix_rfl
  | streamInstr => exact absurd (Or.inl hst) hs
  | streamData => exact absurd (Or.inr hst) hs

theorem emitted_config {n : Nat} (hs : ¬ Streaming (dacAt p x n)) :
    emitted p x n <+: configFrames p 3 := by
  have hsent := emitted_todo p x n
  rw [groups_idle p x hs] at hsent
  have hheader : emitted p x n <+: header p (dacAt p x n) := ⟨todo (dacAt p x n), by simpa using hsent⟩
  exact hheader.trans (header_levels p hs (dacAt_indexOk p x n))

theorem streaming_accepted (hx : AlwaysLive x) {n : Nat} (hs : Streaming (dacAt p x n)) :
    accepted p x n ≠ [] := by
  have htracks := tracks_run p hx n
  rw [accepted_eq p hx]
  rcases hs with hs | hs
  · rw [Tracks, hs] at htracks
    rw [htracks.1]
    simp
  · rw [Tracks, hs] at htracks
    obtain ⟨earlier, shown, htaken, -, -⟩ := htracks
    rw [htaken]
    simp

theorem emitted_shows (hx : AlwaysLive x) (n : Nat) :
    ∃ samples later shown, accepted p x n = samples ++ later ∧ Shown samples shown ∧
      emitted p x n <+: stream p shown := by
  have hopening : emitted p x n <+: stream p [] →
      ∃ samples later shown, accepted p x n = samples ++ later ∧ Shown samples shown ∧
        emitted p x n <+: stream p shown := fun h => ⟨[], accepted p x n, [], rfl, shown_nil, h⟩
  have hsent := emitted_todo p x n
  have htracks := tracks_run p hx n
  by_cases hs : Streaming (dacAt p x n)
  · rw [header_streaming p hs] at hsent
    rcases hs with hs | hs
    · rw [Tracks, hs] at htracks
      rw [htracks.2] at hsent
      exact hopening ⟨todo (dacAt p x n), hsent⟩
    · rw [Tracks, hs] at htracks
      obtain ⟨earlier, shown, -, hshown, hgs⟩ := htracks
      rw [hgs] at hsent
      exact ⟨taken p x n, waiting (dacAt p x n), shown, accepted_eq p hx n, hshown, _, hsent⟩
  · apply hopening
    refine (emitted_config p hs).trans ?_
    rw [stream, List.append_assoc]
    exact List.prefix_append _ _

/-- Every accepted sample is shown in the end. -/
theorem accepted_shown (hx : AlwaysLive x) {n : Nat} (hn : accepted p x n ≠ []) :
    ∃ m samples later shown, n ≤ m ∧ accepted p x m = samples ++ later ∧
      accepted p x n <+: samples ∧ Shown samples shown ∧ emitted p x m = stream p shown := by
  obtain ⟨k, hk, hkdata, hkb, -⟩ := data_boundary_after p hx hn 0
  obtain ⟨m, hm, hmdata, hmb⟩ := next_data_boundary p x (data_after p x (Or.inr hkdata) hkb)
  have htracks := tracks_run p hx m
  rw [Tracks, hmdata] at htracks
  obtain ⟨earlier, shown, -, hshown, hgs⟩ := htracks
  have haccepted : accepted p x n <+: accepted p x k := between_prefix _ 0 (Nat.zero_le n) hk
  have htaken : taken p x (k + 1) <+: taken p x m := between_prefix _ 0 (Nat.zero_le _) hm
  rw [taken_boundary p hx hkdata hkb] at htaken
  refine ⟨m, taken p x m, waiting (dacAt p x m), shown, by omega, accepted_eq p hx m,
    haccepted.trans htaken, hshown, ?_⟩
  rw [emitted_boundary p x hmdata hmb, hgs]
  rfl

theorem emitted_unbounded (hx : AlwaysLive x) {n : Nat} (hn : accepted p x n ≠ []) (L : Nat) :
    ∃ m, n ≤ m ∧ L ≤ (emitted p x m).length := by
  obtain ⟨m, hm, hdata, hb, hL⟩ := data_boundary_after p hx hn L
  have hlength : ∀ gs : List (BitVec 32 × BitVec 32), gs.length ≤ (gs.flatMap groupEdges).length := by
    intro gs
    induction gs with
    | nil => exact Nat.le_refl 0
    | cons g gs ih =>
        have hg : (groupEdges g).length = 32 := rfl
        rw [List.flatMap_cons, List.length_append, List.length_cons, hg]
        omega
  refine ⟨m, hm, Nat.le_trans hL ?_⟩
  rw [emitted_boundary p x hdata hb, List.length_append]
  exact Nat.le_trans (hlength _) (Nat.le_add_left _ _)

/-- While it is neither forced safe nor disabled, the stream puts the three
configuration frames on the bus, then one unlimited frame whose groups show the
accepted samples in order, every one of them for one or more groups. -/
theorem quad_stream_shows (hx : AlwaysLive x) :
    (∀ n, ∃ samples later shown, accepted p x n = samples ++ later ∧ Shown samples shown ∧
        emitted p x n <+: stream p shown) ∧
      (∀ n, accepted p x n = [] → emitted p x n <+: configFrames p 3) ∧
      (∃ n, emitted p x n = configFrames p 3) ∧
      (∀ n, accepted p x n ≠ [] → ∀ L, ∃ m, n ≤ m ∧ L ≤ (emitted p x m).length) ∧
      ∀ n, accepted p x n ≠ [] → ∃ m samples later shown, n ≤ m ∧
        accepted p x m = samples ++ later ∧ accepted p x n <+: samples ∧ Shown samples shown ∧
        emitted p x m = stream p shown := by
  refine ⟨emitted_shows p hx, ?_, ?_, fun n hn => emitted_unbounded p hx hn,
    fun n hn => accepted_shown p hx hn⟩
  · intro n hn
    exact emitted_config p (fun hs => streaming_accepted p hx hs hn)
  · have hreset : ¬ Streaming (dacAt p x 0) := by rintro (h | h) <;> cases h
    obtain ⟨m, -, -, hsent⟩ := config_sent p x hreset
    exact ⟨m, hsent⟩

end Run

/-- A sample in every clock, the first channel counting the clocks. -/
def counting (k : Nat) : DacInput := ⟨true, false, ⟨BitVec.ofNat 16 k, 2, 3, 4⟩, true⟩

/-- The first sample taken, which is that of clock 103, fills the groups up to the first one of the
second, which is that of clock 105. -/
theorem quad_stream_shows_counting : ∃ m k later,
    emitted ⟨1, 0x11, 0⟩ counting m =
      stream ⟨1, 0x11, 0⟩ (List.replicate (k + 1) ⟨103, 2, 3, 4⟩ ++ ⟨105, 2, 3, 4⟩ :: later) := by
  have htaken : accepted ⟨1, 0x11, 0⟩ counting 108 = [⟨103, 2, 3, 4⟩, ⟨105, 2, 3, 4⟩] := by
    decide +kernel
  obtain ⟨-, -, -, -, hshows⟩ := quad_stream_shows ⟨1, 0x11, 0⟩ (x := counting) (fun _ => rfl)
  obtain ⟨m, samples, -, shown, -, -, hprefix, ⟨reps, hlen, rfl⟩, hsent⟩ :=
    hshows 108 (by rw [htaken]; exact List.cons_ne_nil _ _)
  rw [htaken] at hprefix
  obtain ⟨more, rfl⟩ := hprefix
  match reps, hlen with
  | k :: j :: reps, _ =>
      refine ⟨m, k, List.replicate j ⟨105, 2, 3, 4⟩ ++ repeated reps more, hsent.trans ?_⟩
      rw [List.cons_append, List.cons_append, List.nil_append, repeated_cons, repeated_cons,
        List.replicate_succ (n := j), List.cons_append]

end HilLab.Rtl.QuadStreamSamples
