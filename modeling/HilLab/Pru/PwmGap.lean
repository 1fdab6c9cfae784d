import HilLab.Pru.PwmBridge
import HilLab.Pru.PwmStored

namespace HilLab.Pru.PwmGap

open Lib.Clocked Lib.Seqlock Lib.CodeView Lib.StoredValues PwmCaptureCore PwmEdgeLog PwmMeasure
open PwmStored PwmBridge

section Samples

structure Sample where
  ticks : Word
  before : Word
  inputs : Word

def Sample.rises (i : Nat) (e : Sample) : Bool := (edgesOf e.before e.inputs i).rises

def Sample.falls (i : Nat) (e : Sample) : Bool := (edgesOf e.before e.inputs i).falls

/-- The time of the latest sample that f picks, of samples listed latest first. -/
def latest (f : Sample → Bool) (samples : List Sample) : Option Word :=
  (samples.find? f).map Sample.ticks

variable {f : Sample → Bool}

theorem latest_cons (e : Sample) (samples : List Sample) :
    latest f (e :: samples) = if f e then some e.ticks else latest f samples := by
  cases hf : f e with
  | false => rw [latest, List.find?_cons_of_neg (by rw [hf]; exact Bool.false_ne_true)]; rfl
  | true => rw [latest, List.find?_cons_of_pos hf]; rfl

theorem latest_shorter {short long : List Sample} (h : short <+: long) {t : Word}
    (ht : latest f short = some t) : latest f long = some t := by
  obtain ⟨rest, rfl⟩ := h
  rw [latest, Option.map_eq_some_iff] at ht
  obtain ⟨e, he, hticks⟩ := ht
  rw [latest, List.find?_append, he, Option.some_or, Option.map_some, hticks]

end Samples

section Session

/-- What a capture has been shown, with its samples since the most recent start and those
since the last init or clear, latest first. -/
structure Session where
  shown : Presented
  started : List Sample
  noted : List Sample

def Session.sample (s : Session) (ticks inputs : Word) : Sample :=
  { ticks, before := s.shown.inputs, inputs := inputs &&& logicalMask }

def Session.op (op : Op) (s : Session) : Session :=
  match op with
  | .start _ _ => { s with shown := s.shown.op op, started := [] }
  | .clear _ => { s with shown := s.shown.op op, noted := [] }
  | .stop | .setMinDeadtime _ => { s with shown := s.shown.op op }
  | .process ticks inputs =>
      if s.shown.running then
        { shown := s.shown.op op
          started := s.sample ticks inputs :: s.started
          noted := s.sample ticks inputs :: s.noted }
      else s

/-- Either the last clear or the last start came later. -/
def Session.Nested (s : Session) : Prop := s.started <+: s.noted ∨ s.noted <+: s.started

theorem nested_op {s : Session} (h : s.Nested) (op : Op) : (s.op op).Nested := by
  cases op with
  | start ticks inputs => exact Or.inl List.nil_prefix
  | clear inputs => exact Or.inr List.nil_prefix
  | stop => exact h
  | setMinDeadtime minDeadtime => exact h
  | process ticks inputs =>
      rw [Session.op]
      split
      · rcases h with h | h
        · exact Or.inl ((List.prefix_cons_inj _).mpr h)
        · exact Or.inr ((List.prefix_cons_inj _).mpr h)
      · exact h

/-- An edge that is noted at all has come since the most recent start. -/
def Session.Kept (s : Session) (f : Sample → Bool) : Prop :=
  latest f s.noted = none ∨ latest f s.started ≠ none

theorem latest_nested {s : Session} (h : s.Nested) {f : Sample → Bool} (t : Word)
    (ht : latest f s.noted = some t) :
    latest f s.started = none ∨ latest f s.started = some t := by
  rcases h with h | h
  · cases hstarted : latest f s.started with
    | none => exact Or.inl rfl
    | some u => exact Or.inr ((latest_shorter h hstarted).symm.trans ht)
  · exact Or.inr (latest_shorter h ht)

end Session

section Recall

/-- The channel i remembers the edges noted of it. -/
structure Remembers (i : Nat) (noted : List Sample) (c : Channel) : Prop where
  rose : rose c = latest (Sample.rises i) noted
  fell : fell c = latest (Sample.falls i) noted

structure Recalls (k : Nat) (s : Session) (b : Bridge) : Prop where
  presents : Presents s.shown b
  high : Remembers (k * 2) s.noted b.leg.high
  low : Remembers (k * 2 + 1) s.noted b.leg.low

theorem remembers_clear (i : Nat) : Remembers i [] .clear := ⟨rfl, rfl⟩

theorem remembers_edges {i : Nat} {noted : List Sample} {c : Channel} (h : Remembers i noted c)
    (e : Sample) : Remembers i (e :: noted) (c.edges e.ticks (e.rises i) (e.falls i)) := by
  refine ⟨?_, ?_⟩
  · rw [edges_rose, latest_cons, h.rose]
  · rw [edges_fell, latest_cons, h.fell]

theorem edgesOf_same (x : Word) (i : Nat) :
    (edgesOf x x i).rises = false ∧ (edgesOf x x i).falls = false := by
  rw [edgesOf]
  cases bit x i <;> exact ⟨rfl, rfl⟩

theorem remembers_same {i : Nat} {noted : List Sample} {c : Channel} (h : Remembers i noted c)
    (ticks inputs : Word) : Remembers i (⟨ticks, inputs, inputs⟩ :: noted) c := by
  obtain ⟨hrises, hfalls⟩ := edgesOf_same inputs i
  refine ⟨?_, ?_⟩
  · rw [latest_cons, Sample.rises, hrises, h.rose]
    rfl
  · rw [latest_cons, Sample.falls, hfalls, h.fell]
    rfl

variable {k : Nat} {s : Session} {b : Bridge}

theorem recalls_process (h : Recalls k s b) (ticks inputs : Word) :
    Recalls k (s.op (.process ticks inputs)) (b.process k ticks inputs) := by
  have hpresents := presents_process h.presents k ticks inputs
  cases hrun : s.shown.running with
  | false =>
      have hstopped : b.running = 0 := not_not.mp
        (fun hne => Bool.noConfusion (hrun.symm.trans (h.presents.running.mp hne)))
      have hidle : b.process k ticks inputs = b := if_pos (Or.inl hstopped)
      have hop : s.op (.process ticks inputs) = s :=
        if_neg (fun htrue => Bool.noConfusion (hrun.symm.trans htrue))
      rw [hidle, hop]
      exact h
  | true =>
      have hop : s.op (.process ticks inputs) = ⟨s.shown.op (.process ticks inputs),
          s.sample ticks inputs :: s.started, s.sample ticks inputs :: s.noted⟩ := if_pos hrun
      rw [hop]
      by_cases hsame : b.running = 0 ∨ inputs &&& logicalMask = b.inputBits &&& logicalMask
      · have hidle : b.process k ticks inputs = b := if_pos hsame
        have hunchanged : inputs &&& logicalMask = s.shown.inputs := by
          rcases hsame with hstopped | hsame
          · exact absurd hstopped (h.presents.running.mpr hrun)
          · rw [hsame, h.presents.inputs, h.presents.masked]
        have hsample : s.sample ticks inputs = ⟨ticks, s.shown.inputs, s.shown.inputs⟩ := by
          rw [Session.sample, hunchanged]
        rw [hidle] at hpresents ⊢
        rw [hsample]
        exact ⟨hpresents, remembers_same h.high _ _, remembers_same h.low _ _⟩
      · have hprocess : b.process k ticks inputs = { b with
            inputBits := inputs &&& logicalMask
            leg := b.leg.edges ticks (edgesOf b.inputBits (inputs &&& logicalMask) (k * 2))
              (edgesOf b.inputBits (inputs &&& logicalMask) (k * 2 + 1)) } := if_neg hsame
        rw [hprocess, h.presents.inputs] at hpresents ⊢
        exact ⟨hpresents, remembers_edges h.high (s.sample ticks inputs),
          remembers_edges h.low (s.sample ticks inputs)⟩

theorem recalls_op (h : Recalls k s b) (op : Op) : Recalls k (s.op op) (Bridge.op k op b) := by
  have hpresents := presents_op h.presents k op
  cases op with
  | start ticks inputs => exact ⟨hpresents, h.high, h.low⟩
  | stop => exact ⟨hpresents, h.high, h.low⟩
  | setMinDeadtime minDeadtime => exact ⟨hpresents, h.high, h.low⟩
  | clear inputs => exact ⟨hpresents, remembers_clear _, remembers_clear _⟩
  | process ticks inputs => exact recalls_process h ticks inputs

end Recall

section Sources

/-- Both edges of every measurement among the stores of a process call were seen since the
most recent start: the one is in the sample of the call, and the other is the latest of its
kind before it. -/
structure Sourced (s : Session) (ticks inputs : Word) (stores : Stores 32) : Prop where
  period : ∀ i, i < channelCount → ∀ value, (periodTicks i, value) ∈ stores →
    (s.sample ticks inputs).rises i = true ∧
      ∃ t, latest (Sample.rises i) s.started = some t ∧ value = ticks - t
  low : ∀ i, i < channelCount → ∀ value, (lowTicks i, value) ∈ stores →
    (s.sample ticks inputs).rises i = true ∧
      ∃ t, latest (Sample.falls i) s.started = some t ∧ value = ticks - t
  high : ∀ i, i < channelCount → ∀ value, (highTicks i, value) ∈ stores →
    (s.sample ticks inputs).falls i = true ∧
      ∃ t, latest (Sample.rises i) s.started = some t ∧ value = ticks - t
  deadtime : ∀ k, k < pairCount → ∀ highToLow value,
    (deadtimeTicks k highToLow, value) ∈ stores →
    (s.sample ticks inputs).rises (onBit k highToLow) = true ∧
      ∃ t, latest (Sample.falls (offBit k highToLow)) (s.sample ticks inputs :: s.started) = some t ∧
        value = ticks - t

/-- No measurement of a sample would reach back over the most recent start. -/
structure Renewed (s : Session) (e : Sample) : Prop where
  rise : ∀ i, i < channelCount → e.rises i = true →
    s.Kept (Sample.rises i) ∧ s.Kept (Sample.falls i)
  fall : ∀ i, i < channelCount → e.falls i = true → s.Kept (Sample.rises i)
  deadtime : ∀ k, k < pairCount → ∀ highToLow, e.rises (onBit k highToLow) = true →
    e.falls (offBit k highToLow) = false → s.Kept (Sample.falls (offBit k highToLow))

theorem sourced_word {addr : Nat} {stores : Stores 32} {ticks : Word} {switches : Bool}
    {remembered seen : Option Word}
    (hstored : storedAt addr stores = if switches then distances ticks remembered else [])
    (hseen : ∀ t, remembered = some t → seen = none ∨ seen = some t) :
    (∀ value, (addr, value) ∈ stores →
        switches = true ∧ ∃ t, seen = some t ∧ value = ticks - t) ↔
      (switches = true → remembered = none ∨ seen ≠ none) := by
  constructor
  · intro h hswitches
    cases hlast : remembered with
    | none => exact Or.inl rfl
    | some t =>
        have hmem : ticks - t ∈ storedAt addr stores := by
          rw [hstored, if_pos hswitches]
          exact mem_distances.mpr ⟨t, hlast, rfl⟩
        obtain ⟨-, u, hu, -⟩ := h _ (mem_storedAt.mp hmem)
        rw [hu]
        exact Or.inr (Option.some_ne_none u)
  · intro h value hvalue
    have hmem := mem_storedAt.mpr hvalue
    rw [hstored] at hmem
    cases switches with
    | false => cases hmem
    | true =>
        obtain ⟨t, hlast, hvalue⟩ := mem_distances.mp hmem
        refine ⟨rfl, t, ?_, hvalue⟩
        rcases h rfl with hnone | hsome
        · exact absurd (hlast.symm.trans hnone) (Option.some_ne_none t)
        · exact (hseen t hlast).resolve_left hsome

/-- The block as a session tells it. -/
structure Tracks (s : Session) (m : Memory 32) : Prop where
  nested : s.Nested
  recalls : ∀ k, k < pairCount → Recalls k s (bridgeAt k m)

variable {s : Session} {m : Memory 32}

theorem tracks_op (h : Tracks s m) (op : Op) : Tracks (s.op op) (after op.code m) := by
  refine ⟨nested_op h.nested op, fun k hk => ?_⟩
  rw [acts_op hk op m]
  exact recalls_op (h.recalls k hk) op

theorem tracks_initialised (m : Memory 32) (hz minDeadtime : Word) :
    Tracks ⟨⟨false, 0⟩, [], []⟩ (initialised m hz minDeadtime) := by
  refine ⟨Or.inl List.prefix_rfl, fun k hk => ?_⟩
  rw [initialised_bridge hk]
  exact ⟨presents_reset _, remembers_clear _, remembers_clear _⟩

theorem Tracks.presents (h : Tracks s m) : Presents s.shown (bridgeAt 0 m) :=
  (h.recalls 0 (by decide)).presents

theorem Tracks.remembers (h : Tracks s m) {i : Nat} (hi : i < channelCount) :
    Remembers i s.noted (channelAt i m) := by
  have hsix : i < 6 := hi
  have hk : i / 2 < pairCount := by
    rw [pairCount]
    omega
  have hrecalls := h.recalls (i / 2) hk
  rcases Nat.mod_two_eq_zero_or_one i with hmod | hmod
  · have hi : i / 2 * 2 = i := by omega
    have hhigh := hrecalls.high
    have hchannel : (bridgeAt (i / 2) m).leg.high = channelAt (i / 2 * 2) m := rfl
    rw [hchannel, hi] at hhigh
    exact hhigh
  · have hi : i / 2 * 2 + 1 = i := by omega
    have hlow := hrecalls.low
    have hchannel : (bridgeAt (i / 2) m).leg.low = channelAt (i / 2 * 2 + 1) m := rfl
    rw [hchannel, hi] at hlow
    exact hlow

theorem sample_edges (h : Tracks s m) (ticks inputs : Word) {i : Nat} (hi : i < channelCount) :
    bit (changedBy m inputs &&& (inputs &&& logicalMask)) i = (s.sample ticks inputs).rises i ∧
      bit (changedBy m inputs &&& m inputBits) i = (s.sample ticks inputs).falls i := by
  have hinputs : m inputBits = s.shown.inputs := h.presents.inputs
  have hedges := changed_edges hi (inputs &&& logicalMask) (m inputBits)
  rw [Sample.rises, Sample.falls, Session.sample, ← hinputs]
  exact hedges

theorem stored_channel {ticks inputs : Word} (hactive : Active m inputs)
    {i field : Nat} (hi : i < channelCount) (hf : field < 8) {g : Channel → List Word}
    (hemits : Emits (channelAt i) (channelWord i field) (channelEdges ticks
      (changedBy m inputs &&& (inputs &&& logicalMask)) (changedBy m inputs &&& m inputBits) i) g) :
    storedAt (channelWord i field) (process ticks inputs m) = g (channelAt i m) := by
  have hlt := channelWord_lt hi hf
  have hview (a : Nat) (value : Memory 32 → Word) (ha : a < 20) :
      Acts (channelAt i) (store a value) id := by
    apply channelAt_avoids
    intro f hf
    have hlt := (channelWord_lt hi hf).1
    exact avoids_store (by omega) value
  exact stored_process ticks inputs hlt.1 (Nat.lt_of_lt_of_le hlt.2 (by decide))
    (fun a value ha _ => hview a value ha) hactive (emits_channel ticks _ _ _ hi hf hemits)

theorem stored_period (h : Tracks s m) (ticks : Word) {inputs : Word} (hactive : Active m inputs)
    {i : Nat} (hi : i < channelCount) :
    storedAt (periodTicks i) (process ticks inputs m) =
      if (s.sample ticks inputs).rises i then distances ticks (latest (Sample.rises i) s.noted)
      else [] := by
  rw [← (sample_edges h ticks inputs hi).1, ← (h.remembers hi).rose]
  exact stored_channel hactive hi (by decide) (emits_period ticks _ _ (Nat.lt_trans hi (by decide)))

theorem stored_low (h : Tracks s m) (ticks : Word) {inputs : Word} (hactive : Active m inputs)
    {i : Nat} (hi : i < channelCount) :
    storedAt (lowTicks i) (process ticks inputs m) =
      if (s.sample ticks inputs).rises i then distances ticks (latest (Sample.falls i) s.noted)
      else [] := by
  rw [← (sample_edges h ticks inputs hi).1, ← (h.remembers hi).fell]
  exact stored_channel hactive hi (by decide) (emits_low ticks _ _ (Nat.lt_trans hi (by decide)))

theorem rises_of_falls {e : Sample} {i : Nat} (hfalls : e.falls i = true) : e.rises i = false := by
  rw [Sample.falls, edgesOf, Bool.and_eq_true, Bool.not_eq_true'] at hfalls
  rw [Sample.rises, edgesOf, hfalls.1, Bool.false_and]

theorem stored_high (h : Tracks s m) (ticks : Word) {inputs : Word} (hactive : Active m inputs)
    {i : Nat} (hi : i < channelCount) :
    storedAt (highTicks i) (process ticks inputs m) =
      if (s.sample ticks inputs).falls i then distances ticks (latest (Sample.rises i) s.noted)
      else [] := by
  obtain ⟨hrises, hfalls⟩ := sample_edges h ticks inputs hi
  have hstored := stored_channel hactive hi (by decide)
    (emits_high ticks _ _ (Nat.lt_trans hi (by decide)))
  rw [hrises, hfalls] at hstored
  refine hstored.trans ?_
  cases hdown : (s.sample ticks inputs).falls i with
  | false => rfl
  | true =>
      -- a channel does not rise in a sample in which it falls
      rw [rises_of_falls hdown, if_pos rfl, if_pos rfl, if_neg Bool.false_ne_true,
        (h.remembers hi).rose]

theorem on_lt {k : Nat} (hk : k < pairCount) (highToLow : Bool) : onBit k highToLow < channelCount := by
  cases highToLow with
  | true => exact low_lt hk
  | false => exact high_lt hk

theorem off_lt {k : Nat} (hk : k < pairCount) (highToLow : Bool) :
    offBit k highToLow < channelCount := by
  cases highToLow with
  | true => exact high_lt hk
  | false => exact low_lt hk

theorem stored_deadtime (h : Tracks s m) (ticks : Word) {inputs : Word} (hactive : Active m inputs)
    {k : Nat} (hk : k < pairCount) (highToLow : Bool) :
    storedAt (deadtimeTicks k highToLow) (process ticks inputs m) =
      if (s.sample ticks inputs).rises (onBit k highToLow) then
        distances ticks (latest (Sample.falls (offBit k highToLow))
          (s.sample ticks inputs :: s.noted))
      else [] := by
  have hfell : fell (offChannel highToLow (legAt k m)) =
      latest (Sample.falls (offBit k highToLow)) s.noted := by
    cases highToLow with
    | true => exact (h.recalls k hk).high.fell
    | false => exact (h.recalls k hk).low.fell
  have hword : 20 ≤ deadtimeTicks k highToLow ∧ deadtimeTicks k highToLow < summaryWords := by
    cases highToLow <;> exact pairWord_body hk (by decide)
  have hstored := stored_process ticks inputs hword.1 hword.2
    (fun a value ha hd => legAt_header hk value ha hd) hactive
    (emits_deadtime ticks _ _ _ hk highToLow)
  rw [(sample_edges h ticks inputs (on_lt hk highToLow)).1,
    (sample_edges h ticks inputs (off_lt hk highToLow)).2, hfell] at hstored
  rw [latest_cons]
  exact hstored

theorem sourced_deadtime (h : Tracks s m) (ticks : Word) {inputs : Word} (hactive : Active m inputs)
    {k : Nat} (hk : k < pairCount) (highToLow : Bool) :
    (∀ value, (deadtimeTicks k highToLow, value) ∈ process ticks inputs m →
        (s.sample ticks inputs).rises (onBit k highToLow) = true ∧
          ∃ t, latest (Sample.falls (offBit k highToLow)) (s.sample ticks inputs :: s.started) = some t ∧
            value = ticks - t) ↔
      ((s.sample ticks inputs).rises (onBit k highToLow) = true →
        (s.sample ticks inputs).falls (offBit k highToLow) = false →
          s.Kept (Sample.falls (offBit k highToLow))) := by
  have hstored := stored_deadtime h ticks hactive hk highToLow
  rw [latest_cons] at hstored ⊢
  cases hdown : (s.sample ticks inputs).falls (offBit k highToLow) with
  | true =>
      rw [hdown, if_pos rfl] at hstored
      rw [if_pos rfl]
      refine (sourced_word hstored (fun t ht => Or.inr ht)).trans ?_
      exact iff_of_true (fun _ => Or.inr (Option.some_ne_none _)) (fun _ hne => Bool.noConfusion hne)
  | false =>
      rw [hdown, if_neg Bool.false_ne_true] at hstored
      rw [if_neg Bool.false_ne_true]
      refine (sourced_word hstored (latest_nested h.nested)).trans ?_
      exact ⟨fun hkept hup _ => hkept hup, fun hkept hup => hkept hup rfl⟩

theorem sample_idle (h : Tracks s m) {inputs : Word} (hidle : ¬ Active m inputs)
    (hrun : s.shown.running = true) (ticks : Word) (i : Nat) :
    (s.sample ticks inputs).rises i = false ∧ (s.sample ticks inputs).falls i = false := by
  have hsame : changedBy m inputs = 0 :=
    of_not_not (fun hne => hidle ⟨h.presents.running.mpr hrun, hne⟩)
  have hinputs : inputs &&& logicalMask = s.shown.inputs := by
    rw [changedBy, changed_eq_zero_iff, masked_mask] at hsame
    exact hsame.trans ((congrArg (· &&& logicalMask) h.presents.inputs).trans h.presents.masked)
  rw [Sample.rises, Sample.falls, Session.sample, hinputs]
  exact edgesOf_same s.shown.inputs i

/-- A process call measures within the most recent start exactly if it is shown no edge that
the block remembers from before. -/
theorem sourced_iff (h : Tracks s m) (ticks inputs : Word) :
    Sourced s ticks inputs (process ticks inputs m) ↔
      (s.shown.running = true → Renewed s (s.sample ticks inputs)) := by
  by_cases hactive : Active m inputs
  · have hrun : s.shown.running = true := h.presents.running.mp hactive.1
    have hperiod {i : Nat} (hi : i < channelCount) :=
      sourced_word (stored_period h ticks hactive hi) (latest_nested h.nested)
    have hlow {i : Nat} (hi : i < channelCount) :=
      sourced_word (stored_low h ticks hactive hi) (latest_nested h.nested)
    have hhigh {i : Nat} (hi : i < channelCount) :=
      sourced_word (stored_high h ticks hactive hi) (latest_nested h.nested)
    constructor
    · intro hsourced _
      refine ⟨fun i hi hup => ⟨?_, ?_⟩, fun i hi => ?_, fun k hk highToLow => ?_⟩
      · exact (hperiod hi).mp (hsourced.period i hi) hup
      · exact (hlow hi).mp (hsourced.low i hi) hup
      · exact (hhigh hi).mp (hsourced.high i hi)
      · exact (sourced_deadtime h ticks hactive hk highToLow).mp (hsourced.deadtime k hk highToLow)
    · intro hrenewed
      have hrenewed := hrenewed hrun
      refine ⟨fun i hi => ?_, fun i hi => ?_, fun i hi => ?_, fun k hk highToLow => ?_⟩
      · exact (hperiod hi).mpr (fun hup => (hrenewed.rise i hi hup).1)
      · exact (hlow hi).mpr (fun hup => (hrenewed.rise i hi hup).2)
      · exact (hhigh hi).mpr (hrenewed.fall i hi)
      · exact (sourced_deadtime h ticks hactive hk highToLow).mpr (hrenewed.deadtime k hk highToLow)
  · have hidle : process ticks inputs m = [] := process_idle ticks inputs hactive
    rw [hidle]
    apply iff_of_true
    · exact ⟨fun _ _ _ hmem => absurd hmem List.not_mem_nil, fun _ _ _ hmem => absurd hmem List.not_mem_nil,
        fun _ _ _ hmem => absurd hmem List.not_mem_nil, fun _ _ _ _ hmem => absurd hmem List.not_mem_nil⟩
    · intro hrun
      have hnone (i : Nat) := sample_idle h hactive hrun ticks i
      refine ⟨fun i _ hup => ?_, fun i _ hdown => ?_, fun k _ highToLow hup => ?_⟩
      · exact Bool.noConfusion ((hnone i).1.symm.trans hup)
      · exact Bool.noConfusion ((hnone i).2.symm.trans hdown)
      · exact Bool.noConfusion ((hnone _).1.symm.trans hup)

end Sources

section Runs

def session (ops : Nat → Op) (n : Nat) : Session :=
  wave (fun s op => s.op op) ⟨⟨false, 0⟩, [], []⟩ ops n

theorem tracks_run (m : Memory 32) (hz minDeadtime : Word) (ops : Nat → Op) (n : Nat) :
    Tracks (session ops n) (block (initialised m hz minDeadtime) ops n) := by
  induction n with
  | zero => exact tracks_initialised m hz minDeadtime
  | succ n ih => exact tracks_op ih (ops n)

/-- The call measures nothing over a gap in the capture. -/
def MeasuresWithin (s : Session) (m : Memory 32) : Op → Prop
  | .process ticks inputs => Sourced s ticks inputs (process ticks inputs m)
  | _ => True

def RenewedAt (s : Session) : Op → Prop
  | .process ticks inputs => s.shown.running = true → Renewed s (s.sample ticks inputs)
  | _ => True

end Runs

/-- Along any calls from an init, no measurement spans a gap exactly as long as no sample
switches a channel against an edge remembered from before the last start. -/
theorem measures_within_iff (m : Memory 32) (hz minDeadtime : Word) (ops : Nat → Op) (N : Nat) :
    (∀ n, n < N →
        MeasuresWithin (session ops n) (block (initialised m hz minDeadtime) ops n) (ops n)) ↔
      ∀ n, n < N → RenewedAt (session ops n) (ops n) := by
  have hcall (n : Nat) :
      MeasuresWithin (session ops n) (block (initialised m hz minDeadtime) ops n) (ops n) ↔
        RenewedAt (session ops n) (ops n) := by
    have htracks := tracks_run m hz minDeadtime ops n
    cases ops n with
    | process ticks inputs => exact sourced_iff htracks ticks inputs
    | start | stop | setMinDeadtime | clear => exact Iff.rfl
  exact forall_congr' (fun n => imp_congr_right (fun _ => hcall n))

/-- A high time from a rise before a stop to a fall after the next start. -/
theorem high_spans_gap :
    let ops (n : Nat) : Op :=
      [.start 0 0, .process 10 1, .stop, .start 1000 1, .process 2000 0].getD n .stop
    let m := block (initialised (fun _ => 0) 200000000 0) ops 4
    (highTicks 0, 1990) ∈ process 2000 0 m ∧ (session ops 4).started = [] ∧
      ¬ MeasuresWithin (session ops 4) m (ops 4) := by
  intro ops m
  have htracks : Tracks (session ops 4) m := tracks_run _ _ _ ops 4
  have hrun : m running ≠ 0 := htracks.presents.running.mpr (by decide)
  have hinputs : m inputBits = 1 := htracks.presents.inputs
  have hactive : Active m 0 := by
    rw [Active, changedBy, hinputs]
    exact ⟨hrun, by decide⟩
  have hzero : 0 < channelCount := by decide
  have hdown : ((session ops 4).sample 2000 0).falls 0 = true := by decide
  have hlast : latest (Sample.rises 0) (session ops 4).noted = some 10 := by decide
  have hstored := stored_high htracks 2000 hactive hzero
  rw [hdown, hlast, if_pos rfl] at hstored
  have hhigh : (highTicks 0, 1990) ∈ process 2000 0 m := by
    rw [← mem_storedAt, hstored]
    exact List.mem_singleton.mpr rfl
  refine ⟨hhigh, rfl, fun hmeasures => ?_⟩
  obtain ⟨-, t, ht, -⟩ := Sourced.high hmeasures 0 (by decide) 1990 hhigh
  cases ht

end HilLab.Pru.PwmGap
