import HilLab.Pru.RawWindow

namespace HilLab.Pru.RawFreeze

open Protocol (Msg statusOk sizeofMsg)
open Stimulus (clearResponse)
open RawCapture RawWindow

/-- What a reader of a frozen capture relies on. -/
structure Kept (a b : Shared) : Prop where
  eventCount : b.eventCount = a.eventCount
  initialRawInputs : b.initialRawInputs = a.initialRawInputs
  finalRawInputs : b.finalRawInputs = a.finalRawInputs
  startTicks : b.startTicks = a.startTicks
  stopTicks : b.stopTicks = a.stopTicks
  stopReason : b.stopReason = a.stopReason
  ring : b.ring = a.ring

/-- Nothing is armed, and the shared structure is the frozen one but for the configured limit and
the final inputs. -/
structure Frozen (f : Shared) (s : Raw) : Prop where
  captureRunning : s.captureRunning = false
  startPending : s.startPending = false
  eventCount : s.eventCount = f.eventCount
  shared : s.shared = { f with
    configuredEventLimit := s.shared.configuredEventLimit
    finalRawInputs := s.shared.finalRawInputs }

variable {f : Shared} {s : Raw}

theorem Frozen.kept_iff (h : Frozen f s) :
    Kept f s.shared ↔ s.shared.finalRawInputs = f.finalRawInputs := by
  constructor
  · exact Kept.finalRawInputs
  · intro hfinal
    rw [h.shared]
    exact ⟨rfl, rfl, hfinal, rfl, rfl, rfl, rfl⟩

theorem Frozen.not_busy (h : Frozen f s) : s.busy = false := by
  rw [Raw.busy, h.captureRunning, h.startPending]
  rfl

section Serve

variable (rawInputs : Word) (r : Received)

def exchange (s : Raw) : Exchange :=
  ⟨r, rawInputs, (handleRequest r.request rawInputs r.now s r.len).2⟩

theorem response_flags :
    (exchange rawInputs r s).response.flags = (handle r.request rawInputs r.now s r.len).2.flags := by
  change (if r.len ≠ sizeofMsg then (_, clearResponse 0 0 _) else (_, clearResponse _ _ _)).2.flags = _
  split_ifs <;> rfl

theorem handle_ok {c : Command} (h : accept r.request r.len = .ok c) :
    handle r.request rawInputs r.now s r.len = dispatch r.request rawInputs r.now s c := by
  rw [handle, h]

theorem accepted_iff {c : Command} :
    (exchange rawInputs r s).Accepted c ↔
      accept r.request r.len = .ok c ∧
        (dispatch r.request rawInputs r.now s c).2.flags = statusOk := by
  rw [Exchange.Accepted, response_flags]
  refine and_congr_right fun h => ?_
  rw [handle_ok rawInputs r h]

theorem dispatch_frozen (h : Frozen f s) (request : Msg) (now : Word) {c : Command}
    (hstart : c ≠ .rawStart) (hclear : c ≠ .rawClear) (hstatus : c ≠ .rawStatus) :
    Frozen f (dispatch request rawInputs now s c).1 ∧
      (dispatch request rawInputs now s c).1.shared.finalRawInputs = s.shared.finalRawInputs := by
  cases c with
  | hello => exact ⟨h, rfl⟩
  | time => exact ⟨h, rfl⟩
  | ping => exact ⟨h, rfl⟩
  | forceSafe =>
      have hrun : (forceSafe rawInputs now s).1 = { s with startPending := false } :=
        if_neg (by simp [h.captureRunning])
      rw [dispatch, hrun]
      exact ⟨⟨h.captureRunning, rfl, h.eventCount, h.shared⟩, rfl⟩
  | rawConfig =>
      rw [dispatch, rawConfig, h.not_busy, if_neg Bool.false_ne_true]
      split_ifs
      · exact ⟨h, rfl⟩
      · refine ⟨⟨h.captureRunning, h.startPending, h.eventCount, ?_⟩, rfl⟩
        rw [h.shared]
  | rawClear => exact absurd rfl hclear
  | rawStart => exact absurd rfl hstart
  | rawStop =>
      have hrun : (rawStop rawInputs now s).1 = s := by
        rw [rawStop, h.startPending]
        exact if_neg (by simp [h.captureRunning])
      rw [dispatch, hrun]
      exact ⟨h, rfl⟩
  | rawStatus => exact absurd rfl hstatus

theorem rawStatus_frozen (h : Frozen f s) :
    Frozen f (rawStatus rawInputs s).1 ∧
      (rawStatus rawInputs s).1.shared.finalRawInputs = rawInputs := by
  refine ⟨⟨h.captureRunning, h.startPending, h.eventCount, ?_⟩, rfl⟩
  rw [rawStatus, h.shared, h.eventCount]

theorem rawStart_accepted (h : Frozen f s) (now : Word) :
    (rawStart rawInputs now s).2.flags = statusOk := by
  rw [rawStart, h.not_busy]
  rfl

theorem rawClear_accepted (h : Frozen f s) : (rawClear rawInputs s).2.flags = statusOk := by
  rw [rawClear, h.not_busy]
  rfl

/-- A buffer that starts and clears nothing keeps the capture frozen; an accepted RAW_STATUS
replaces the final inputs, and nothing else does. -/
theorem serve_frozen (h : Frozen f s) (hstart : ¬ (exchange rawInputs r s).Accepted .rawStart)
    (hclear : ¬ (exchange rawInputs r s).Accepted .rawClear) :
    Frozen f (s.serve rawInputs r) ∧
      ((exchange rawInputs r s).Accepted .rawStatus →
        (s.serve rawInputs r).shared.finalRawInputs = rawInputs) ∧
      (¬ (exchange rawInputs r s).Accepted .rawStatus →
        (s.serve rawInputs r).shared.finalRawInputs = s.shared.finalRawInputs) := by
  rw [serve_eq]
  cases hc : accept r.request r.len with
  | error flags =>
      have hs : (handle r.request rawInputs r.now s r.len).1 = s := by rw [handle, hc]
      rw [hs]
      refine ⟨h, fun ha => ?_, fun _ => rfl⟩
      rw [accepted_iff, hc] at ha
      cases ha.1
  | ok c =>
      have hnotStart : c ≠ .rawStart := by
        rintro rfl
        exact hstart ((accepted_iff rawInputs r).mpr ⟨hc, rawStart_accepted rawInputs h r.now⟩)
      have hnotClear : c ≠ .rawClear := by
        rintro rfl
        exact hclear ((accepted_iff rawInputs r).mpr ⟨hc, rawClear_accepted rawInputs h⟩)
      rw [handle_ok rawInputs r hc]
      by_cases hstatus : c = .rawStatus
      · subst hstatus
        obtain ⟨hf, hfinal⟩ := rawStatus_frozen rawInputs h
        exact ⟨hf, fun _ => hfinal,
          fun hn => absurd ((accepted_iff rawInputs r).mpr ⟨hc, rfl⟩) hn⟩
      · obtain ⟨hf, hfinal⟩ := dispatch_frozen rawInputs h r.request r.now hnotStart hnotClear hstatus
        refine ⟨hf, fun ha => ?_, fun _ => hfinal⟩
        rw [accepted_iff, hc] at ha
        exact absurd (Except.ok.inj ha.1) hstatus

end Serve

/-- The request starts or clears nothing. -/
def Quiet (e : Exchange) : Prop := ¬ e.Accepted .rawStart ∧ ¬ e.Accepted .rawClear

theorem answers_cons (rawInputs : Word) (r : Received) (rs : List Received) :
    s.answers rawInputs (r :: rs) =
      exchange rawInputs r s :: (s.serve rawInputs r).answers rawInputs rs := rfl

theorem mem_answers {rawInputs : Word} {rs : List Received} {e : Exchange}
    (he : e ∈ s.answers rawInputs rs) : e.rawInputs = rawInputs := by
  induction rs generalizing s with
  | nil => cases he
  | cons r rs ih =>
      rcases List.mem_cons.mp he with rfl | he
      · rfl
      · exact ih he

theorem drain_frozen (rawInputs : Word) {rs : List Received} (h : Frozen f s)
    (hquiet : ∀ e ∈ s.answers rawInputs rs, Quiet e) :
    Frozen f (rs.foldl (fun s r => s.serve rawInputs r) s) ∧
      ((∃ e ∈ s.answers rawInputs rs, e.Accepted .rawStatus) →
        (rs.foldl (fun s r => s.serve rawInputs r) s).shared.finalRawInputs = rawInputs) ∧
      ((∀ e ∈ s.answers rawInputs rs, ¬ e.Accepted .rawStatus) →
        (rs.foldl (fun s r => s.serve rawInputs r) s).shared.finalRawInputs =
          s.shared.finalRawInputs) := by
  induction rs generalizing s with
  | nil =>
      refine ⟨h, ?_, fun _ => rfl⟩
      rintro ⟨e, he, -⟩
      cases he
  | cons r rs ih =>
      rw [answers_cons] at hquiet ⊢
      obtain ⟨hstart, hclear⟩ := hquiet _ List.mem_cons_self
      obtain ⟨hf, hset, hkeep⟩ := serve_frozen rawInputs r h hstart hclear
      obtain ⟨hrest, hsome, hnone⟩ := ih hf (fun e he => hquiet e (List.mem_cons_of_mem _ he))
      refine ⟨hrest, ?_, fun hno => ?_⟩
      · rintro ⟨e, he, ha⟩
        by_cases hlater : ∃ e ∈ (s.serve rawInputs r).answers rawInputs rs, e.Accepted .rawStatus
        · exact hsome hlater
        · -- the status is this one, and the rest of the buffers leave its value
          have hfirst : (exchange rawInputs r s).Accepted .rawStatus := by
            rcases List.mem_cons.mp he with rfl | he
            · exact ha
            · exact absurd ⟨e, he, ha⟩ hlater
          exact (hnone fun e he ha => hlater ⟨e, he, ha⟩).trans (hset hfirst)
      · exact (hnone fun e he => hno e (List.mem_cons_of_mem _ he)).trans
          (hkeep (hno _ List.mem_cons_self))

theorem loop_frozen (i : Pass) (h : Frozen f s) (hquiet : ∀ e ∈ s.exchanges i, Quiet e) :
    ∃ t, s.loop i = some t ∧ Frozen f t ∧
      (∀ e ∈ s.exchanges i, e.Accepted .rawStatus → t.shared.finalRawInputs = e.rawInputs) ∧
      ((∀ e ∈ s.exchanges i, ¬ e.Accepted .rawStatus) →
        t.shared.finalRawInputs = s.shared.finalRawInputs) := by
  have hpending : ¬ s.startPending = true := by rw [h.startPending]; exact Bool.false_ne_true
  rw [Raw.exchanges, if_neg hpending] at hquiet ⊢
  rw [Raw.loop, if_neg hpending]
  by_cases hint : i.r31 &&& hostInt ≠ 0
  · rw [if_pos hint] at hquiet ⊢
    obtain ⟨hf, hsome, hnone⟩ := drain_frozen (i.r31 &&& r31PwmInputMask) h hquiet
    rw [if_pos hint]
    exact ⟨_, rfl, hf, fun e he ha => (hsome ⟨e, he, ha⟩).trans (mem_answers he).symm, hnone⟩
  · rw [if_neg hint, if_neg hint]
    refine ⟨s, rfl, h, fun e he => ?_, fun _ => rfl⟩
    exact absurd he List.not_mem_nil

theorem log_cons {i : Pass} {is : List Pass} {t : Raw} (h : s.loop i = some t) :
    s.log (i :: is) = s.exchanges i ++ t.log is := by
  rw [Raw.log, h]
  rfl

theorem run_cons {i : Pass} {is : List Pass} {t : Raw} (h : s.loop i = some t) :
    s.run (i :: is) = t.run is := by
  rw [Raw.run, h]
  rfl

theorem run_kept_iff {later : List Pass} (h : Frozen f s)
    (hfinal : s.shared.finalRawInputs = f.finalRawInputs)
    (hquiet : ∀ e ∈ s.log later, Quiet e) :
    (∀ before t, before <+: later → s.run before = some t → Kept f t.shared) ↔
      ∀ e ∈ s.log later, e.Accepted .rawStatus → e.rawInputs = f.finalRawInputs := by
  induction later generalizing s with
  | nil =>
      refine ⟨fun _ e he => absurd he List.not_mem_nil, fun _ before t hbefore ht => ?_⟩
      rw [List.prefix_nil.mp hbefore] at ht
      cases ht
      exact h.kept_iff.mpr hfinal
  | cons i is ih =>
      have hpass : ∀ e ∈ s.exchanges i, Quiet e := fun e he =>
        hquiet e (List.mem_append_left _ he)
      obtain ⟨t, hloop, hft, hset, hkeep⟩ := loop_frozen i h hpass
      rw [log_cons hloop] at hquiet ⊢
      by_cases ht : t.shared.finalRawInputs = f.finalRawInputs
      · have hrest := ih hft ht (fun e he => hquiet e (List.mem_append_right _ he))
        constructor
        · intro hall e he ha
          rcases List.mem_append.mp he with he | he
          · exact (hset e he ha).symm.trans ht
          · refine hrest.mp (fun before u hbefore hu => ?_) e he ha
            exact hall (i :: before) u (List.cons_prefix_cons.mpr ⟨rfl, hbefore⟩)
              ((run_cons hloop).trans hu)
        · intro hall before u hbefore hu
          cases before with
          | nil =>
              cases hu
              exact h.kept_iff.mpr hfinal
          | cons j before =>
              obtain ⟨rfl, hshort⟩ := List.cons_prefix_cons.mp hbefore
              rw [run_cons hloop] at hu
              exact hrest.mpr (fun e he => hall e (List.mem_append_right _ he)) before u hshort hu
      · refine iff_of_false (fun hall => ?_) (fun hall => ?_)
        · refine ht (hft.kept_iff.mp (hall [i] t ?_ (run_cons hloop)))
          exact List.cons_prefix_cons.mpr ⟨rfl, List.nil_prefix⟩
        · refine ht ((hkeep fun e he ha => ?_).trans hfinal)
          exact ht ((hset e he ha).trans (hall e (List.mem_append_left _ he) ha))

section Capture

theorem captured_frozen {i : Pass} {t : Raw} (h : Formed s) (hpending : s.startPending = true)
    (ht : s.loop i = some t) :
    Frozen t.shared t ∧ t.shared.running = 0 ∧ t.shared.stopReason = stopEventLimit ∧
      t.shared.finalRawInputs = (t.shared.ring (t.shared.eventCount.toNat - 1)).rawInputs := by
  have hpublished := (loop_published h hpending ht).2
  refine ⟨?_, hpublished.running, hpublished.stopReason, hpublished.final⟩
  rw [Raw.loop, if_pos hpending] at ht
  obtain ⟨w, -, rfl⟩ := Option.map_eq_some_iff.mp ht
  exact ⟨rfl, rfl, rfl, rfl⟩

end Capture

/-- From the freeze on, whatever requests follow, the published values stay as they are exactly
when every RAW_STATUS is handled in a pass that samples the pins as the last record has them. -/
theorem frozen_capture_kept_iff (mem : Shared) (r31 : Word) (history : List Pass) (i : Pass)
    (later : List Pass) {s f : Raw} (hs : (Raw.boot mem r31).run history = some s)
    (hpending : s.startPending = true) (hf : s.loop i = some f)
    (hquiet : ∀ e ∈ f.log later, Quiet e) :
    (f.shared.running = 0 ∧ f.shared.stopReason = stopEventLimit ∧
      f.shared.finalRawInputs = (f.shared.ring (f.shared.eventCount.toNat - 1)).rawInputs) ∧
    ((∀ before t, before <+: later → f.run before = some t → Kept f.shared t.shared) ↔
      ∀ e ∈ f.log later, e.Accepted .rawStatus → e.rawInputs = f.shared.finalRawInputs) := by
  obtain ⟨hfrozen, hpublished⟩ := captured_frozen (formed_run (formed_boot mem r31) hs) hpending hf
  exact ⟨hpublished, run_kept_iff hfrozen rfl hquiet⟩

section Sample

def command (c : Command) (arg0 : Word) : Received :=
  { len := sizeofMsg, now := 0
    request :=
      { magic := Protocol.hilPruMagic, version := Protocol.hilPruProtocolVersion, type := c.code,
        seq := 0, flags := 0, arg0 := arg0, arg1 := 0, arg2 := 0, arg3 := 0 } }

def drain (pins : Word) (received : List Received) : Pass :=
  ⟨hostInt ||| pins, 0, [], received⟩

def blank : Shared :=
  { magic := 0, version := 0, totalSize := 0, tickHz := 0, capacity := 0, running := 0,
    configuredEventLimit := 0, eventCount := 0, initialRawInputs := 0, finalRawInputs := 0,
    startTicks := 0, stopTicks := 0, stopReason := 0, inputMask := 0, generation := 0,
    overflowCount := 0, ring := fun _ => ⟨0, 0⟩ }

/-- The requests of the capture command of the host, with a limit of one event. -/
def configured : List Pass := [drain 0 [command .rawConfig 1, command .rawClear 0, command .rawStart 0]]

/-- UH rises in the window. -/
def rising : Pass := ⟨0, 10, [⟨0, 11⟩, ⟨2, 12⟩], []⟩

def armed : Raw := ((Raw.boot blank 0).run configured).getD (Raw.boot blank 0)

def frozen : Raw := (armed.loop rising).getD armed

theorem not_accepted {raw arg0 : Word} {s : Raw} {c d : Command} (hne : d ≠ c) :
    ¬ (exchange raw (command c arg0) s).Accepted d := by
  have haccept : accept (command c arg0).request (command c arg0).len = .ok c := by
    cases c <;> rfl
  exact fun h => hne (Except.ok.inj (h.1.symm.trans haccept))

/-- UH is still up when the host asks for the status, and falls before a PING. -/
def asked : List Pass := [drain 2 [command .rawStatus 0], drain 0 [command .ping 0]]

theorem frozen_capture_kept_status :
    (∃ e ∈ frozen.log asked, e.Accepted .rawStatus) ∧
      ∀ before t, before <+: asked → frozen.run before = some t → Kept frozen.shared t.shared := by
  have hlog : frozen.log asked = [exchange 2 (command .rawStatus 0) frozen,
    exchange 0 (command .ping 0) (frozen.serve 2 (command .rawStatus 0))] := rfl
  have hquiet : ∀ e ∈ frozen.log asked, Quiet e := by
    rw [hlog]
    intro e he
    simp only [List.mem_cons, List.not_mem_nil, or_false] at he
    rcases he with rfl | rfl
    · exact ⟨not_accepted (by decide), not_accepted (by decide)⟩
    · exact ⟨not_accepted (by decide), not_accepted (by decide)⟩
  obtain ⟨-, hkept⟩ := frozen_capture_kept_iff blank 0 configured rising asked (s := armed)
    (f := frozen) rfl rfl rfl hquiet
  refine ⟨⟨_, List.mem_cons_self, rfl, rfl⟩, hkept.mpr ?_⟩
  rw [hlog]
  intro e he hstatus
  simp only [List.mem_cons, List.not_mem_nil, or_false] at he
  rcases he with rfl | rfl
  · rfl
  · exact absurd hstatus (not_accepted (by decide))

/-- UH falls again before the host asks for the status. -/
theorem status_overwrites_final :
    (Raw.boot blank 0).run configured = some armed ∧ armed.startPending = true ∧
      armed.loop rising = some frozen ∧
      (∀ e ∈ frozen.log [drain 0 [command .rawStatus 0]], Quiet e) ∧
      ∃ t, frozen.run [drain 0 [command .rawStatus 0]] = some t ∧ ¬ Kept frozen.shared t.shared ∧
        t.shared.finalRawInputs ≠ (t.shared.ring (t.shared.eventCount.toNat - 1)).rawInputs := by
  have hlog : frozen.log [drain 0 [command .rawStatus 0]] =
      [exchange 0 (command .rawStatus 0) frozen] := rfl
  refine ⟨rfl, rfl, rfl, ?_, _, rfl, fun hkept => ?_, ?_⟩
  · rw [hlog]
    intro e he
    rw [List.mem_singleton] at he
    subst he
    exact ⟨not_accepted (by decide), not_accepted (by decide)⟩
  · exact absurd hkept.finalRawInputs (by decide)
  · decide

end Sample

end HilLab.Pru.RawFreeze
