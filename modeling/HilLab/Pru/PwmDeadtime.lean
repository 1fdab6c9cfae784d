import HilLab.Pru.PwmGap
import HilLab.Pru.PwmOverlap

namespace HilLab.Pru.PwmDeadtime

open Lib.Clocked Lib.Seqlock Lib.CodeView Lib.StoredValues PwmCaptureCore PwmEdgeLog PwmMeasure
open PwmStored PwmBridge PwmGap

section Intervals

variable (k : Nat)

def bothOff (x : Word) : Bool := !bit x (k * 2) && !bit x (k * 2 + 1)

/-- The sample in which the last switch of the pair turns off. -/
def turnsOff (e : Sample) : Bool := !bothOff k e.before && bothOff k e.inputs

def pairFalls (e : Sample) : Bool := e.falls (k * 2) || e.falls (k * 2 + 1)

/-- The dead time that a sample ends, of those before it listed latest first: one switch turns
on with the other off, and the other was on when the pair last turned off. -/
def deadtime (highToLow : Bool) (e : Sample) (past : List Sample) : Option Word :=
  if e.rises (onBit k highToLow) && !bit e.inputs (offBit k highToLow) then
    if e.falls (offBit k highToLow) then some 0
    else
      match past.find? (turnsOff k) with
      | some f => if bit f.before (offBit k highToLow) then some (e.ticks - f.ticks) else none
      | none => none
  else none

/-- A turn-on against a fall that is remembered of the other switch: the other is off by now,
and of the falls of the pair its own came last. -/
def Alternates (e : Sample) (past : List Sample) : Prop :=
  ∀ highToLow, e.rises (onBit k highToLow) = true → e.falls (offBit k highToLow) = false →
    latest (Sample.falls (offBit k highToLow)) past ≠ none →
      bit e.inputs (offBit k highToLow) = false ∧
        ∃ f, past.find? (pairFalls k) = some f ∧ f.falls (offBit k highToLow) = true

/-- Each sample starts from the inputs of the one before it. -/
def Chained : Word → List Sample → Prop
  | _, [] => True
  | top, e :: past => e.inputs = top ∧ Chained e.before past

variable {k} {e f : Sample} {past : List Sample} {highToLow : Bool}

theorem falls_eq (e : Sample) (i : Nat) : e.falls i = (!bit e.inputs i && bit e.before i) := rfl

theorem rises_eq (e : Sample) (i : Nat) : e.rises i = (bit e.inputs i && !bit e.before i) := rfl

theorem bothOff_eq (x : Word) (highToLow : Bool) :
    bothOff k x = (!bit x (onBit k highToLow) && !bit x (offBit k highToLow)) := by
  cases highToLow with
  | true => exact Bool.and_comm _ _
  | false => rfl

theorem falls_off (h : e.falls (offBit k highToLow) = true) : pairFalls k e = true := by
  rw [pairFalls, Bool.or_eq_true]
  cases highToLow with
  | true => exact Or.inl h
  | false => exact Or.inr h

theorem turnsOff_eq (h : bothOff k e.inputs = true) : turnsOff k e = pairFalls k e := by
  rw [turnsOff, pairFalls, falls_eq, falls_eq, h]
  rw [bothOff, Bool.and_eq_true] at h
  rw [bothOff, h.1, h.2]
  cases bit e.before (k * 2) <;> cases bit e.before (k * 2 + 1) <;> rfl

theorem find_turnsOff {top : Word} (h : Chained top past) (hoff : bothOff k top = true) :
    past.find? (turnsOff k) = past.find? (pairFalls k) := by
  induction past generalizing top with
  | nil => rfl
  | cons e past ih =>
      obtain ⟨rfl, hchained⟩ := h
      have hsame := turnsOff_eq hoff
      cases hfalls : pairFalls k e with
      | true => rw [List.find?_cons_of_pos (hsame.trans hfalls), List.find?_cons_of_pos hfalls]
      | false =>
          have hbefore : bothOff k e.before = true := by
            rw [hfalls, turnsOff, hoff, Bool.and_true, Bool.not_eq_false'] at hsame
            exact hsame
          rw [List.find?_cons_of_neg (by rw [hsame, hfalls]; exact Bool.false_ne_true),
            List.find?_cons_of_neg (by rw [hfalls]; exact Bool.false_ne_true)]
          exact ih hchained hbefore

theorem latest_falls_of_find (hf : past.find? (pairFalls k) = some f)
    (hfalls : f.falls (offBit k highToLow) = true) :
    latest (Sample.falls (offBit k highToLow)) past = some f.ticks := by
  induction past with
  | nil => cases hf
  | cons e past ih =>
      rw [latest_cons]
      cases hpair : pairFalls k e with
      | true =>
          rw [List.find?_cons_of_pos hpair] at hf
          cases hf
          rw [hfalls, if_pos rfl]
      | false =>
          rw [List.find?_cons_of_neg (by rw [hpair]; exact Bool.false_ne_true)] at hf
          have hnone : e.falls (offBit k highToLow) = false :=
            Bool.eq_false_iff.mpr (fun h => Bool.noConfusion (hpair.symm.trans (falls_off h)))
          rw [hnone, if_neg Bool.false_ne_true]
          exact ih hf

theorem before_off (hrise : e.rises (onBit k highToLow) = true)
    (hfall : e.falls (offBit k highToLow) = false) (hoff : bit e.inputs (offBit k highToLow) = false) :
    bothOff k e.before = true := by
  rw [rises_eq, Bool.and_eq_true] at hrise
  rw [falls_eq, hoff, Bool.not_false, Bool.true_and] at hfall
  rw [bothOff_eq _ highToLow, hrise.2, hfall]
  rfl

theorem deadtime_swap (hrise : e.rises (onBit k highToLow) = true)
    (hfall : e.falls (offBit k highToLow) = true) : deadtime k highToLow e past = some 0 := by
  have hoff : bit e.inputs (offBit k highToLow) = false := by
    rw [falls_eq, Bool.and_eq_true, Bool.not_eq_true'] at hfall
    exact hfall.1
  simp [deadtime, hrise, hfall, hoff]

theorem deadtime_quiet (hrise : e.rises (onBit k highToLow) = false) :
    deadtime k highToLow e past = none := by
  simp [deadtime, hrise]

/-- A dead time is measured from the latest fall of the pair, which is the other switch's. -/
theorem deadtime_eq_some {v : Word} (hchained : Chained e.before past)
    (hrise : e.rises (onBit k highToLow) = true) (hfall : e.falls (offBit k highToLow) = false) :
    deadtime k highToLow e past = some v ↔
      bit e.inputs (offBit k highToLow) = false ∧
        ∃ f, past.find? (pairFalls k) = some f ∧ f.falls (offBit k highToLow) = true ∧
          v = e.ticks - f.ticks := by
  cases hoff : bit e.inputs (offBit k highToLow) with
  | true => simp [deadtime, hoff]
  | false =>
      have hbefore := before_off hrise hfall hoff
      have hfind := find_turnsOff hchained hbefore
      have hdown : ∀ f, past.find? (turnsOff k) = some f →
          (bit f.before (offBit k highToLow) = true ↔ f.falls (offBit k highToLow) = true) := by
        intro f hf
        have hturns := List.find?_some hf
        rw [turnsOff, Bool.and_eq_true, bothOff_eq f.inputs highToLow, Bool.and_eq_true] at hturns
        rw [falls_eq, hturns.2.2, Bool.true_and]
      rw [deadtime, hrise, hoff, Bool.not_false, Bool.and_true, if_pos rfl, hfall,
        if_neg Bool.false_ne_true]
      rw [← hfind]
      cases hlast : past.find? (turnsOff k) with
      | none => simp
      | some f =>
          have hiff := hdown f hlast
          dsimp only
          cases hon : bit f.before (offBit k highToLow) with
          | true =>
              constructor
              · intro h
                exact ⟨rfl, f, rfl, hiff.mp hon, (Option.some.inj h).symm⟩
              · rintro ⟨-, f', hf', -, rfl⟩
                cases hf'
                rfl
          | false =>
              have hno : f.falls (offBit k highToLow) ≠ true := fun h => by
                rw [hiff.mpr h] at hon
                cases hon
              simp [hno]

variable (k) in
def recorded (highToLow : Bool) (e : Sample) (past : List Sample) : List Word :=
  if e.rises (onBit k highToLow) then
    distances e.ticks (latest (Sample.falls (offBit k highToLow)) (e :: past))
  else []

theorem recorded_iff (hchained : Chained e.before past) :
    recorded k highToLow e past = (deadtime k highToLow e past).toList ↔
      (e.rises (onBit k highToLow) = true → e.falls (offBit k highToLow) = false →
        latest (Sample.falls (offBit k highToLow)) past ≠ none →
          bit e.inputs (offBit k highToLow) = false ∧
            ∃ f, past.find? (pairFalls k) = some f ∧ f.falls (offBit k highToLow) = true) := by
  rw [recorded, latest_cons]
  cases hrise : e.rises (onBit k highToLow) with
  | false => simp [deadtime_quiet hrise]
  | true =>
      cases hfall : e.falls (offBit k highToLow) with
      | true => simp [deadtime_swap hrise hfall, distances]
      | false =>
          rw [if_pos rfl, if_neg Bool.false_ne_true]
          have hsome := fun v => deadtime_eq_some (v := v) hchained hrise hfall
          constructor
          · intro h _ _ hlatest
            obtain ⟨t, ht⟩ := Option.ne_none_iff_exists'.mp hlatest
            rw [ht] at h
            have hdead : deadtime k highToLow e past = some (e.ticks - t) :=
              Option.toList_eq_singleton_iff.mp h.symm
            obtain ⟨hoff, f, hf, hfalls, -⟩ := (hsome _).mp hdead
            exact ⟨hoff, f, hf, hfalls⟩
          · intro h
            cases hlatest : latest (Sample.falls (offBit k highToLow)) past with
            | none =>
                cases hdead : deadtime k highToLow e past with
                | none => rfl
                | some v =>
                    obtain ⟨-, f, hf, hfalls, -⟩ := (hsome v).mp hdead
                    rw [latest_falls_of_find hf hfalls] at hlatest
                    cases hlatest
            | some t =>
                obtain ⟨hoff, f, hf, hfalls⟩ := h rfl rfl (by simp [hlatest])
                have ht : f.ticks = t :=
                  Option.some.inj ((latest_falls_of_find hf hfalls).symm.trans hlatest)
                have hdead := (hsome (e.ticks - t)).mpr ⟨hoff, f, hf, hfalls, by rw [ht]⟩
                rw [hdead]
                rfl

end Intervals

section Violations

def short (minDeadtime : Word) (samples : List Word) : Bool := samples.any (tooShort minDeadtime)

theorem record_violation (p : Pair) (minDeadtime : Word) (highToLow : Bool) (ticks : Word) :
    (p.record minDeadtime highToLow ticks).violationLatched =
      (p.violationLatched || tooShort minDeadtime ticks) := by
  rw [Pair.record]
  cases highToLow <;> cases tooShort minDeadtime ticks <;> simp

theorem switch_violation (p : Pair) (minDeadtime : Word) (highToLow : Bool) (sample : Option Word) :
    (p.switch minDeadtime highToLow sample).violationLatched =
      (p.violationLatched || short minDeadtime sample.toList) := by
  cases sample with
  | none => simp [Pair.switch, short]
  | some ticks => simp [Pair.switch, short, record_violation]

theorem edges_violation (s : Leg) (ticks : Word) (high low : Edges) :
    (s.edges ticks high low).pair.violationLatched =
      (s.pair.violationLatched ||
        short s.minDeadtime (switchTicks ticks low.rises high.falls
          (s.high.edges ticks high.rises high.falls)).toList ||
        short s.minDeadtime (switchTicks ticks high.rises low.falls
          (s.low.edges ticks low.rises low.falls)).toList) := by
  rw [Leg.edges]
  dsimp only
  have hoverlap (now : Bool) (p : Pair) : (p.overlap now).violationLatched = p.violationLatched := by
    cases now <;> rfl
  rw [hoverlap, switch_violation, switch_violation]

end Violations

section Calls

variable {s : Session} {m : Memory 32} {k : Nat} (h : Tracks s m) (hk : k < pairCount)

include h hk

theorem stored_recorded (hrun : s.shown.running = true) (ticks inputs : Word) (highToLow : Bool) :
    storedAt (deadtimeTicks k highToLow) (process ticks inputs m) =
      recorded k highToLow (s.sample ticks inputs) s.noted := by
  by_cases hactive : Active m inputs
  · exact stored_deadtime h ticks hactive hk highToLow
  · rw [recorded, (sample_idle h hactive hrun ticks _).1, process_idle ticks inputs hactive]
    rfl

theorem process_violation (hrun : s.shown.running = true) (ticks inputs : Word) :
    (bridgeAt k (after (process ticks inputs) m)).leg.pair.violationLatched =
      ((bridgeAt k m).leg.pair.violationLatched ||
        short (bridgeAt k m).leg.minDeadtime (recorded k true (s.sample ticks inputs) s.noted) ||
        short (bridgeAt k m).leg.minDeadtime (recorded k false (s.sample ticks inputs) s.noted)) := by
  have hrecalls := h.recalls k hk
  have hview : bridgeAt k (after (process ticks inputs) m) =
      (bridgeAt k m).process k ticks inputs := acts_process hk ticks inputs m
  rw [hview]
  by_cases hsame : (bridgeAt k m).running = 0 ∨
      inputs &&& logicalMask = (bridgeAt k m).inputBits &&& logicalMask
  · have hidle : ¬ Active m inputs :=
      fun hactive => (PwmOverlap.active_iff m inputs).mp hactive hsame
    have hquiet (highToLow : Bool) : recorded k highToLow (s.sample ticks inputs) s.noted = [] := by
      rw [recorded, (sample_idle h hidle hrun ticks _).1]
      rfl
    rw [Bridge.process, if_pos hsame, hquiet, hquiet]
    simp [short]
  · have hprocess : ((bridgeAt k m).process k ticks inputs).leg = (bridgeAt k m).leg.edges ticks
        (edgesOf (bridgeAt k m).inputBits (inputs &&& logicalMask) (k * 2))
        (edgesOf (bridgeAt k m).inputBits (inputs &&& logicalMask) (k * 2 + 1)) :=
      congrArg Bridge.leg (if_neg hsame)
    rw [hprocess, edges_violation, switchTicks_edges, switchTicks_edges, hrecalls.high.fell,
      hrecalls.low.fell, hrecalls.presents.inputs, recorded, recorded, latest_cons, latest_cons]
    rfl

end Calls

section Runs

inductive Call
  | process (ticks inputs : Word)
  | setMinDeadtime (minDeadtime : Word)

def Call.op : Call → Op
  | .process ticks inputs => .process ticks inputs
  | .setMinDeadtime minDeadtime => .setMinDeadtime minDeadtime

variable (m : Memory 32) (hz minDeadtime ticks inputs : Word) (calls : Nat → Call)

def runOps : Nat → Op := cons (.start ticks inputs) (fun n => (calls n).op)

def sessionAt (n : Nat) : Session := session (runOps ticks inputs calls) (n + 1)

def blockAt (n : Nat) : Memory 32 :=
  block (initialised m hz minDeadtime) (runOps ticks inputs calls) (n + 1)

def policy : Nat → Word
  | 0 => minDeadtime
  | n + 1 =>
      match calls n with
      | .setMinDeadtime minDeadtime => minDeadtime
      | .process _ _ => policy n

theorem sessionAt_succ (n : Nat) :
    sessionAt ticks inputs calls (n + 1) = (sessionAt ticks inputs calls n).op (calls n).op := rfl

theorem blockAt_succ (n : Nat) :
    blockAt m hz minDeadtime ticks inputs calls (n + 1) =
      after (calls n).op.code (blockAt m hz minDeadtime ticks inputs calls n) := rfl

theorem blockAt_zero :
    blockAt m hz minDeadtime ticks inputs calls 0 =
      after (Op.start ticks inputs).code (initialised m hz minDeadtime) := by
  rw [blockAt, block, wave_succ]
  rfl

theorem tracks_at (n : Nat) :
    Tracks (sessionAt ticks inputs calls n) (blockAt m hz minDeadtime ticks inputs calls n) :=
  tracks_run m hz minDeadtime (runOps ticks inputs calls) (n + 1)

theorem running_chained (n : Nat) :
    (sessionAt ticks inputs calls n).shown.running = true ∧
      Chained (sessionAt ticks inputs calls n).shown.inputs
        (sessionAt ticks inputs calls n).noted := by
  induction n with
  | zero => exact ⟨rfl, trivial⟩
  | succ n ih =>
      rw [sessionAt_succ]
      cases calls n with
      | setMinDeadtime minDeadtime => exact ih
      | process t i =>
          obtain ⟨hrun, hchained⟩ := ih
          simp only [Call.op, Session.op, Presented.op, hrun, if_true]
          exact ⟨trivial, rfl, hchained⟩

theorem policy_at {k : Nat} (hk : k < pairCount) (n : Nat) :
    (bridgeAt k (blockAt m hz minDeadtime ticks inputs calls n)).leg.minDeadtime =
      policy minDeadtime calls n := by
  induction n with
  | zero =>
      rw [blockAt_zero, acts_op hk, initialised_bridge hk]
      rfl
  | succ n ih =>
      rw [blockAt_succ, acts_op hk, policy]
      cases calls n with
      | setMinDeadtime minDeadtime => rfl
      | process t i =>
          refine Eq.trans ?_ ih
          change ((bridgeAt k _).process k t i).leg.minDeadtime = _
          rw [Bridge.process]
          split <;> rfl

section Real

variable (k : Nat)

/-- Before call n some both-off interval of the pair has been shorter than the policy. -/
def Violated (n : Nat) : Prop :=
  ∃ j, j < n ∧ ∃ t i, calls j = .process t i ∧ ∃ highToLow v,
    deadtime k highToLow ((sessionAt ticks inputs calls j).sample t i)
      (sessionAt ticks inputs calls j).noted = some v ∧
      tooShort (policy minDeadtime calls j) v = true

/-- Call n records the dead times of the pair that its sample ends, and no others, and leaves
the latch set if one so far has been too short. -/
structure Real (n : Nat) : Prop where
  recorded : ∀ t i, calls n = .process t i → ∀ highToLow,
    storedAt (deadtimeTicks k highToLow)
        (process t i (blockAt m hz minDeadtime ticks inputs calls n)) =
      (deadtime k highToLow ((sessionAt ticks inputs calls n).sample t i)
        (sessionAt ticks inputs calls n).noted).toList
  latched : (bridgeAt k
      (blockAt m hz minDeadtime ticks inputs calls (n + 1))).leg.pair.violationLatched = true ↔
    Violated minDeadtime ticks inputs calls k (n + 1)

/-- The sample of call n switches the pair in turn. -/
def AlternatesAt (n : Nat) : Prop :=
  ∀ t i, calls n = .process t i →
    Alternates k ((sessionAt ticks inputs calls n).sample t i) (sessionAt ticks inputs calls n).noted

variable {k} (hk : k < pairCount)

theorem short_toList {minDeadtime : Word} {o : Option Word} :
    short minDeadtime o.toList = true ↔ ∃ v, o = some v ∧ tooShort minDeadtime v = true := by
  cases o with
  | none => simp [short]
  | some v => simp [short]

include hk

theorem recorded_real_iff (n : Nat) {t i : Word} (hcall : calls n = .process t i) :
    (∀ highToLow, storedAt (deadtimeTicks k highToLow)
        (process t i (blockAt m hz minDeadtime ticks inputs calls n)) =
      (deadtime k highToLow ((sessionAt ticks inputs calls n).sample t i)
        (sessionAt ticks inputs calls n).noted).toList) ↔
      AlternatesAt ticks inputs calls k n := by
  obtain ⟨hrun, hchained⟩ := running_chained ticks inputs calls n
  have htracks := tracks_at m hz minDeadtime ticks inputs calls n
  have hiff (highToLow : Bool) :
      recorded k highToLow ((sessionAt ticks inputs calls n).sample t i)
          (sessionAt ticks inputs calls n).noted =
        (deadtime k highToLow ((sessionAt ticks inputs calls n).sample t i)
          (sessionAt ticks inputs calls n).noted).toList ↔ _ := recorded_iff hchained
  constructor
  · intro h t' i' hcall' highToLow
    obtain ⟨rfl, rfl⟩ : t = t' ∧ i = i' := by
      rw [hcall] at hcall'
      injection hcall' with ht hi
      exact ⟨ht, hi⟩
    refine (hiff highToLow).mp ?_
    rw [← h highToLow]
    exact (stored_recorded htracks hk hrun t i highToLow).symm
  · intro h highToLow
    rw [stored_recorded htracks hk hrun]
    exact (hiff highToLow).mpr (h t i hcall highToLow)

omit hk in
theorem violated_split (n : Nat) :
    Violated minDeadtime ticks inputs calls k (n + 1) ↔
      Violated minDeadtime ticks inputs calls k n ∨
        ∃ t i, calls n = .process t i ∧ ∃ highToLow v,
          deadtime k highToLow ((sessionAt ticks inputs calls n).sample t i)
            (sessionAt ticks inputs calls n).noted = some v ∧
            tooShort (policy minDeadtime calls n) v = true := by
  constructor
  · rintro ⟨j, hj, hshort⟩
    rcases Nat.lt_succ_iff_lt_or_eq.mp hj with hlt | rfl
    · exact Or.inl ⟨j, hlt, hshort⟩
    · exact Or.inr hshort
  · rintro (⟨j, hj, hshort⟩ | hshort)
    · exact ⟨j, Nat.lt_succ_of_lt hj, hshort⟩
    · exact ⟨n, Nat.lt_succ_self n, hshort⟩

theorem latched_succ {n : Nat} (h : AlternatesAt ticks inputs calls k n)
    (hlatch : (bridgeAt k
        (blockAt m hz minDeadtime ticks inputs calls n)).leg.pair.violationLatched = true ↔
      Violated minDeadtime ticks inputs calls k n) :
    (bridgeAt k
        (blockAt m hz minDeadtime ticks inputs calls (n + 1))).leg.pair.violationLatched = true ↔
      Violated minDeadtime ticks inputs calls k (n + 1) := by
  rw [violated_split, blockAt_succ, ← hlatch]
  cases hcall : calls n with
  | setMinDeadtime minDeadtime =>
      rw [acts_op hk]
      change (bridgeAt k _).leg.pair.violationLatched = true ↔ _
      constructor
      · exact Or.inl
      · rintro (hset | ⟨t, i, hprocess, -⟩)
        · exact hset
        · cases hprocess
  | process t i =>
      obtain ⟨hrun, hchained⟩ := running_chained ticks inputs calls n
      have htracks := tracks_at m hz minDeadtime ticks inputs calls n
      have hreal (highToLow : Bool) :
          recorded k highToLow ((sessionAt ticks inputs calls n).sample t i)
              (sessionAt ticks inputs calls n).noted =
            (deadtime k highToLow ((sessionAt ticks inputs calls n).sample t i)
              (sessionAt ticks inputs calls n).noted).toList :=
        (recorded_iff hchained).mpr (h t i hcall highToLow)
      change (bridgeAt k (after (process t i) _)).leg.pair.violationLatched = true ↔ _
      rw [process_violation htracks hk hrun, policy_at m hz minDeadtime ticks inputs calls hk, hreal,
        hreal, Bool.or_eq_true, Bool.or_eq_true, short_toList, short_toList, or_assoc]
      refine or_congr Iff.rfl ?_
      constructor
      · rintro (hshort | hshort)
        · exact ⟨t, i, rfl, true, hshort⟩
        · exact ⟨t, i, rfl, false, hshort⟩
      · rintro ⟨t', i', hcall', highToLow, hshort⟩
        cases hcall'
        cases highToLow with
        | true => exact Or.inl hshort
        | false => exact Or.inr hshort

theorem latched_zero :
    (bridgeAt k
        (blockAt m hz minDeadtime ticks inputs calls 0)).leg.pair.violationLatched = true ↔
      Violated minDeadtime ticks inputs calls k 0 := by
  rw [blockAt_zero, acts_op hk, initialised_bridge hk]
  constructor
  · intro h
    cases h
  · rintro ⟨j, hj, -⟩
    exact absurd hj (Nat.not_lt_zero j)

end Real

/-- The dead times of a run are the real ones, and its violations theirs, exactly as long as
every pair that the samples show switches in turn. -/
theorem deadtimes_real_iff (N : Nat) :
    (∀ n, n < N → ∀ k, k < pairCount → Real m hz minDeadtime ticks inputs calls k n) ↔
      ∀ n, n < N → ∀ k, k < pairCount → AlternatesAt ticks inputs calls k n := by
  constructor
  · intro h n hn k hk t i hcall
    exact (recorded_real_iff m hz minDeadtime ticks inputs calls hk n hcall).mp
      ((h n hn k hk).recorded t i hcall) t i hcall
  · intro h n hn k hk
    have hlatch : ∀ j, j ≤ N → ((bridgeAt k
        (blockAt m hz minDeadtime ticks inputs calls j)).leg.pair.violationLatched = true ↔
          Violated minDeadtime ticks inputs calls k j) := by
      intro j
      induction j with
      | zero => exact fun _ => latched_zero m hz minDeadtime ticks inputs calls hk
      | succ j ih =>
          exact fun hj => latched_succ m hz minDeadtime ticks inputs calls hk (h j hj k hk)
            (ih (Nat.le_of_succ_le hj))
    refine ⟨fun t i hcall => ?_, hlatch (n + 1) hn⟩
    exact (recorded_real_iff m hz minDeadtime ticks inputs calls hk n hcall).mpr (h n hn k hk)

/-- The low switch has been on, then the high one, which turns off at 40 and on again at 100. -/
def doublePulse (n : Nat) : Call :=
  [.process 10 2, .process 20 0, .process 30 1, .process 40 0, .process 100 1].getD n
    (.setMinDeadtime 0)

theorem double_pulse_recorded :
    let s := sessionAt 0 0 doublePulse 4
    let block := blockAt (fun _ => 0) 200000000 0 0 0 doublePulse 4
    (deadtimeTicks 0 false, 80) ∈ process 100 1 block ∧
      deadtime 0 false (s.sample 100 1) s.noted = none ∧
      ¬ Real (fun _ => 0) 200000000 0 0 0 doublePulse 0 4 := by
  intro s block
  have hzero : 0 < pairCount := by decide
  have htracks : Tracks s block := tracks_at _ _ _ _ _ doublePulse 4
  have hstored := stored_recorded htracks hzero (by decide) 100 1 false
  have hrecorded : recorded 0 false (s.sample 100 1) s.noted = [80] := by decide
  have hnone : deadtime 0 false (s.sample 100 1) s.noted = none := by decide
  rw [hrecorded] at hstored
  refine ⟨?_, hnone, fun hreal => ?_⟩
  · rw [← mem_storedAt, hstored]
    exact List.mem_singleton.mpr rfl
  · have hlist := hreal.recorded 100 1 rfl false
    rw [hstored, hnone] at hlist
    cases hlist

end Runs

end HilLab.Pru.PwmDeadtime
