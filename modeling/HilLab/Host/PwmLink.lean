import HilLab.Host.PruLink
import HilLab.Host.PwmSnapshot
import HilLab.Pru.PwmCaptureService

namespace HilLab.Host.PwmLink

open Host.Core Lib.Seqlock Lib.CodeView Rpmsg PruLink PwmShared PwmSnapshot
open Pru.PwmCaptureCore Pru.PwmEdgeLog Pru.PwmMeasure Pru.PwmMonitor Pru.PwmCaptureService
open PruProtocol (Message)
open Pru.LoopbackService (Received hostInt clearResponse)
open Pru.Protocol (Msg sizeofMsg hilPruMagic hilPruProtocolVersion responseBit)

def msgCaptureConfig : Nat := 6
def msgCaptureStart : Nat := 7
def msgCaptureStop : Nat := 8
def msgCaptureClear : Nat := 9

section Firmwares

structure Sample where
  r31 : Word
  ticks : Word

/-- When pru0_b1 serves a request: the passes of its main loop since the one before, and the
pass that finds it, with the counter at the request. -/
structure Moment where
  passes : List Sample
  last : Sample
  now : Word

/-- R31 of the pass that finds a request has the bit of the host's interrupt. -/
def Moment.r31 (e : Moment) : Word := e.last.r31 ||| hostInt

def Moment.samples (e : Moment) : List Sample := e.passes ++ [⟨e.r31, e.last.ticks⟩]

def delivery (e : Moment) (m : Msg) : Delivery := ⟨⟨0, 0, sizeofMsg, m⟩, e.now⟩

def advance (s : Service) (samples : List Sample) : Service :=
  samples.foldl (fun s x => s.sample x.r31 x.ticks) s

def watchAll (w : Monitor) (samples : List Sample) : Monitor :=
  samples.foldl (fun w x => w.see x.ticks (packPwmInputs x.r31)) w

theorem dispatch_header (s : Service) (request : Msg) (now inputs : Word) (tx : Msg) :
    (s.dispatch request now inputs tx).2.magic = tx.magic ∧
      (s.dispatch request now inputs tx).2.version = tx.version ∧
      (s.dispatch request now inputs tx).2.type = tx.type ∧
      (s.dispatch request now inputs tx).2.seq = tx.seq := by
  rw [Service.dispatch]
  cases Command.ofCode request.type with
  | none => exact ⟨rfl, rfl, rfl, rfl⟩
  | some c => cases c <;> exact ⟨rfl, rfl, rfl, rfl⟩

theorem handle_echoes (s : Service) (d : Delivery) (rawR31 : Word) (hlen : d.received.len = sizeofMsg)
    (hmagic : d.received.msg.magic = hilPruMagic)
    (hversion : d.received.msg.version = hilPruProtocolVersion) :
    (s.handleRequest d rawR31).2.magic = hilPruMagic ∧
      (s.handleRequest d rawR31).2.version = hilPruProtocolVersion ∧
      (s.handleRequest d rawR31).2.type = d.received.msg.type ||| responseBit ∧
      (s.handleRequest d rawR31).2.seq = d.received.msg.seq := by
  simp only [Service.handleRequest, hlen, hmagic, hversion, ne_eq, not_true_eq_false, if_false]
  exact dispatch_header s d.received.msg d.now _ _

def pru0B1 : Firmware Service Moment where
  serve s e m := ((advance s e.samples).handleRequest (delivery e m) e.r31).1
  answer s e m := ((advance s e.samples).handleRequest (delivery e m) e.r31).2
  echoes _ e m hmagic hversion := handle_echoes _ (delivery e m) e.r31 rfl hmagic hversion

theorem answer_header (w : Monitor) (d : Delivery) (inputs : Word) (hlen : d.received.len = sizeofMsg) :
    (Abstract.answer w d inputs).magic = hilPruMagic ∧
      (Abstract.answer w d inputs).version = hilPruProtocolVersion ∧
      (Abstract.answer w d inputs).type = d.received.msg.type ||| responseBit ∧
      (Abstract.answer w d inputs).seq = d.received.msg.seq := by
  rw [Abstract.answer, if_pos hlen]
  exact ⟨rfl, rfl, rfl, rfl⟩

/-- The monitor at the host's end of the link, without firmware and block. -/
def monitor : Firmware Monitor Moment where
  serve w e m := Abstract.serve (watchAll w e.samples) (delivery e m) (packPwmInputs e.r31)
  answer w e m := Abstract.answer (watchAll w e.samples) (delivery e m) (packPwmInputs e.r31)
  echoes _ e m _ _ := answer_header _ (delivery e m) _ rfl

theorem pass_quiet (s : Service) (r31 ticks : Word) :
    s.pass ⟨r31, ticks, []⟩ = (s.sample r31 ticks, []) := by
  rw [Service.pass]
  split_ifs <;> rfl

/-- What pru0B1 makes of a request is a run of the main loop. -/
theorem serve_main (s : Service) (e : Moment) (m : Msg) :
    main (e.passes.map (fun x => ⟨x.r31, x.ticks, []⟩) ++ [⟨e.r31, e.last.ticks, [delivery e m]⟩]) s =
      (pru0B1.serve s e m, [⟨0, 0, pru0B1.answer s e m⟩]) := by
  have hint : e.r31 &&& hostInt ≠ 0 := by
    have hself : e.r31 &&& hostInt = hostInt := by
      rw [Moment.r31]
      ext b
      simpa using Or.inr
    rw [hself]
    decide
  have hpasses (xs : List Sample) (s : Service) (ps : List Pass) :
      main (xs.map (fun x => ⟨x.r31, x.ticks, []⟩) ++ ps) s = main ps (advance s xs) := by
    induction xs generalizing s with
    | nil => rfl
    | cons x xs ih =>
        rw [List.map_cons, List.cons_append, main, pass_quiet, ih]
        rfl
  have hadvance : advance s e.samples = (advance s e.passes).sample e.r31 e.last.ticks := by
    rw [advance, Moment.samples, List.foldl_append]
    rfl
  have hserved : ((advance s e.samples).handleRequest (delivery e m) e.r31) =
      (((advance s e.passes).sample e.r31 e.last.ticks).handleRequest (delivery e m) e.r31) := by
    rw [hadvance]
  rw [hpasses, main, Service.pass, if_pos hint]
  exact Prod.ext (congrArg Prod.fst hserved).symm
    (congrArg (fun r : Service × Msg => [(⟨0, 0, r.2⟩ : Pru.LoopbackService.Sent)]) hserved).symm

theorem advance_tracks {w : Monitor} {s : Service} (h : Tracks w s) (samples : List Sample) :
    Tracks (watchAll w samples) (advance s samples) := by
  induction samples generalizing w s with
  | nil => exact h
  | cons x xs ih => exact ih (tracks_sample h x.r31 x.ticks)

end Firmwares

section Rest

variable {w : Monitor} {hz : Word} {M : Memory 32} {retries ringLimit : Int}

theorem header_valid (h : Represents w hz M) {s : Shared} (hs : ∀ addr, addr < summaryWords → s addr = M addr) :
    validateSnapshot s = .ok () := by
  have hword {p : Nat × Word} (hp : p ∈ headerWords hz) : s p.1 = p.2 :=
    (hs p.1 (Nat.lt_trans (headerWords_lt hp).1 (by decide))).trans (h.header p hp)
  have hmagic : s magic = sharedMagic := @hword (magic, sharedMagic) (by simp [headerWords])
  have hversion : s version = sharedVersion := @hword (version, sharedVersion) (by simp [headerWords])
  have hsize : s totalSize = BitVec.ofNat 32 (4 * sharedWords) :=
    @hword (totalSize, BitVec.ofNat 32 (4 * sharedWords)) (by simp [headerWords])
  have hchannels : s channelCountWord = BitVec.ofNat 32 channelCount :=
    @hword (channelCountWord, BitVec.ofNat 32 channelCount) (by simp [headerWords])
  have hpairs : s pairCountWord = BitVec.ofNat 32 pairCount :=
    @hword (pairCountWord, BitVec.ofNat 32 pairCount) (by simp [headerWords])
  have hring : s ringCapacityWord = BitVec.ofNat 32 ringCapacity :=
    @hword (ringCapacityWord, BitVec.ofNat 32 ringCapacity) (by simp [headerWords])
  rw [validateSnapshot, if_neg (not_not_intro hmagic), if_neg (not_not_intro hversion), hsize,
    hchannels, hpairs, hring]
  rfl

theorem rest_summary (M : Memory 32) {addr : Nat} (haddr : addr < summaryWords) :
    copiedPrefix (fun _ => M) 0 addr = M addr :=
  copyWords_inside ⟨Nat.zero_le addr, by omega⟩

/-- Of a block with an even lock that nothing changes, the first pass of the read gets past the
lock, and the window of records decides. -/
theorem rest_first (heven : odd (M seqLock) = false) (hretries : 0 < retries) (hlimit : 0 ≤ ringLimit)
    {x : Attempt × Nat} (hx : window (fun _ => M) ringLimit.toNat 94 (copiedPrefix (fun _ => M) 0) = x)
    {snapshot : Shared} (hsnapshot : x.1 = .done (.ok snapshot)) :
    readConsistentSnapshotFromBuffer (fun _ => M) retries ringLimit = (.ok snapshot, x.2) := by
  obtain ⟨n, hn⟩ : ∃ n, retries.toNat = n + 1 := ⟨retries.toNat - 1, by omega⟩
  have hattempt : attempt (fun _ => M) ringLimit.toNat 0 = x := by
    have hlock : copyWords (fun _ => M) 1 0 summaryWords (fun _ => 0) seqLock = M seqLock :=
      rest_summary M (by decide)
    rw [attempt]
    simp only [heven, hlock, ne_eq, not_true_eq_false, false_or, Bool.false_eq_true, if_false]
    exact hx
  rw [readConsistentSnapshotFromBuffer, if_neg (by omega), if_neg (by omega), hn, attempts, hattempt]
  obtain ⟨outcome, loads⟩ := x
  obtain rfl : outcome = .done (.ok snapshot) := hsnapshot
  rfl

theorem rest_read (h : Represents w hz M) (hstopped : w.running = false) (hretries : 0 < retries)
    (hlimit : 0 ≤ ringLimit) :
    ∃ snapshot loads,
      readConsistentSnapshotFromBuffer (fun _ => M) retries ringLimit = (.ok snapshot, loads) ∧
      (∀ addr, addr < summaryWords → snapshot addr = M addr) ∧
      recentEdges snapshot ringLimit = w.events.drop (w.events.length - min ringLimit.toNat ringCapacity) := by
  have hsummary : ∀ addr, addr < summaryWords → copiedPrefix (fun _ => M) 0 addr = M addr :=
    fun _ haddr => rest_summary M haddr
  have hdrop : w.events.drop (w.events.length - min ringLimit.toNat (M ringCount).toNat) =
      w.events.drop (w.events.length - min ringLimit.toNat ringCapacity) := by
    rw [h.ring.count]
    congr 1
    omega
  have hread {x : Attempt × Nat} (hx : window (fun _ => M) ringLimit.toNat 94 (copiedPrefix (fun _ => M) 0) = x)
      {snapshot : Shared} (hsnapshot : x.1 = .done (.ok snapshot)) :=
    rest_first h.even hretries hlimit hx hsnapshot
  have hvalid := header_valid h hsummary
  generalize copiedPrefix (fun _ => M) 0 = summary at hsummary hread hvalid
  by_cases hemit : emitCount summary ringLimit.toNat = 0
  · have hwindow : window (fun _ => M) ringLimit.toNat 94 summary = (.done (.ok summary), 94) := by
      rw [window, hvalid]
      dsimp only
      rw [if_pos hemit]
    refine ⟨summary, 94, hread hwindow rfl, hsummary, ?_⟩
    rw [← hdrop]
    refine recentEdges_eq h.ring hsummary (fun k field hk _ => ?_)
    rw [hemit] at hk
    exact absurd hk (Nat.not_lt_zero k)
  · have hcopied := copied_spec (fun _ => M) 94 hemit
    have hout : ∀ addr, addr < summaryWords → (copied (fun _ => M) ringLimit.toNat 94 summary).1 addr = M addr :=
      fun addr haddr => (hcopied.summary addr haddr).trans (hsummary addr haddr)
    have hwindow : window (fun _ => M) ringLimit.toNat 94 summary =
        (.done (.ok (copied (fun _ => M) ringLimit.toNat 94 summary).1),
          (copied (fun _ => M) ringLimit.toNat 94 summary).2 + 1) := by
      have hrun : ¬(summary running ≠ 0 ∧ ringCapacity ≤ emitCount summary ringLimit.toNat) := by
        rw [hsummary _ (by decide), h.running, hstopped]
        exact fun hfull => hfull.1 rfl
      have hadvanced : (M eventSeq - summary eventSeq).toNat = 0 := by
        rw [hsummary _ (by decide), BitVec.sub_self]
        rfl
      have hagain := header_valid h hout
      rw [copied] at hagain ⊢
      rw [window, hvalid]
      dsimp only
      rw [if_neg hemit, if_neg hrun, hadvanced, if_neg (Nat.not_lt_zero _), hagain]
    refine ⟨_, _, hread hwindow rfl, hout, ?_⟩
    rw [← hdrop]
    refine recentEdges_eq h.ring hout (fun k field hk hfield => ?_)
    have hsame : emitCount (copied (fun _ => M) ringLimit.toNat 94 summary).1 ringLimit.toNat =
        emitCount summary ringLimit.toNat := by
      rw [emitCount, emitCount, hcopied.summary _ (by decide)]
    have hhead : (summary ringHead).toNat = w.events.length % ringCapacity := by
      rw [hsummary _ (by decide), h.ring.head]
    have hle : emitCount summary ringLimit.toNat ≤ w.events.length := by
      have hring := h.ring.count
      rw [emitCount, hsummary _ (by decide)]
      omega
    rw [hsame] at hk ⊢
    obtain ⟨n, -, -, hword⟩ := hcopied.records k field hk hfield
    rw [startSlot_eq hhead hle, Nat.mod_add_mod] at hword
    exact hword

end Rest

def plain (type : Nat) (e : Moment) : Call Moment := ⟨type, {}, e⟩

/-- hil_pwm_cli stop, clear, start and stop, each when its moment comes. -/
def measurement (e0 e1 e2 e3 : Moment) : List (Call Moment) :=
  [plain msgCaptureStop e0, plain msgCaptureClear e1, plain msgCaptureStart e2, plain msgCaptureStop e3]

/-- The changes that a run of samples shows, with their times. -/
def changes (previous : Word) : List Sample → List (Word × Word × Word)
  | [] => []
  | x :: xs =>
      let inputs := packPwmInputs x.r31
      if inputs = previous then changes previous xs
      else (x.ticks, inputs, inputs ^^^ previous) :: changes inputs xs

def told (r : EdgeRecord) : Word × Word × Word := (r.timestampTicks, r.logicalInputs, r.changedInputs)

def started (inputs minDeadtime : Word) : Monitor := (Monitor.idle inputs minDeadtime).start inputs

section Session

variable {w : Monitor} {s : Service}

theorem watchAll_stopped (h : w.running = false) (samples : List Sample) : watchAll w samples = w := by
  induction samples with
  | nil => rfl
  | cons x xs ih =>
      have hsee : w.see x.ticks (packPwmInputs x.r31) = w := by
        rw [Monitor.see, if_neg (fun hw => absurd hw.1 (by rw [h]; exact Bool.false_ne_true))]
      rw [watchAll, List.foldl_cons, hsee]
      exact ih

theorem advance_stopped (h : s.captureRunning = 0) (samples : List Sample) : advance s samples = s := by
  induction samples with
  | nil => rfl
  | cons x xs ih =>
      have hsample : s.sample x.r31 x.ticks = s := by
        rw [Service.sample, if_neg (not_not_intro h)]
      rw [advance, List.foldl_cons, hsample]
      exact ih

theorem watchAll_changes (h : w.running = true) (samples : List Sample) :
    (watchAll w samples).events.map told = w.events.map told ++ changes w.inputs samples := by
  induction samples generalizing w with
  | nil => exact (List.append_nil _).symm
  | cons x xs ih =>
      rw [watchAll, List.foldl_cons, changes]
      by_cases hsame : packPwmInputs x.r31 = w.inputs
      · have hsee : w.see x.ticks (packPwmInputs x.r31) = w := by
          rw [Monitor.see, if_neg (fun hw => hw.2 hsame)]
        rw [hsee, if_pos hsame]
        exact ih h
      · have hseen : (w.see x.ticks (packPwmInputs x.r31)).running = true ∧
            (w.see x.ticks (packPwmInputs x.r31)).inputs = packPwmInputs x.r31 ∧
            (w.see x.ticks (packPwmInputs x.r31)).events.map told = w.events.map told ++
              [(x.ticks, packPwmInputs x.r31, packPwmInputs x.r31 ^^^ w.inputs)] := by
          rw [Monitor.see, if_pos ⟨h, hsame⟩]
          exact ⟨h, rfl, List.map_append⟩
        rw [if_neg hsame]
        refine (ih hseen.1).trans ?_
        rw [hseen.2.1, hseen.2.2, List.append_assoc]
        rfl

theorem plain_packs {type seq : Nat} (htype : type < 0x10000) (hseq : seq < 0x100000000) :
    (HilPru.message type seq {}).Packs := by
  have htype' : (type : Int) < 256 ^ 2 := by exact_mod_cast htype
  have hseq' : (seq : Int) < 256 ^ 4 := by exact_mod_cast hseq
  simp only [Message.Packs, PruProtocol.wire, Message.fields, HilPru.message, List.forall₂_cons]
  refine ⟨by decide, by decide, ⟨?_, htype'⟩, ⟨?_, hseq'⟩, by decide, by decide, by decide, by decide,
    by decide, .nil⟩
  · exact Int.natCast_nonneg type
  · exact Int.natCast_nonneg seq

theorem plain_outcome {type seq : Nat} (htype : type < 0x10000) (hseq : seq < 0x100000000) {c : Command}
    (hc : Command.ofCode (BitVec.ofNat 16 type) = some c) (e : Moment) (w : Monitor) :
    ∃ m, outcome monitor w e (requested type seq {}) ((plain type e).packed seq) =
        (.ok m, Abstract.call (watchAll w e.samples) (c.op 0 e.now (packPwmInputs e.r31))) ∧
      m.flags = 0 := by
  have hp : (plain type e).packed seq = .ok (HilPru.message type seq {}).packet :=
    Message.pack_ok (plain_packs htype hseq)
  have hcommand : (delivery e (requested type seq {})).command = some c := by
    rw [Delivery.command, if_pos ⟨rfl, rfl, rfl⟩]
    exact hc
  have hflags : Abstract.flags (delivery e (requested type seq {})) = 0 := by
    have hlen : (delivery e (requested type seq {})).received.len = sizeofMsg := rfl
    have hmagic : (delivery e (requested type seq {})).received.msg.magic = hilPruMagic := rfl
    have hversion : (delivery e (requested type seq {})).received.msg.version = hilPruProtocolVersion := rfl
    have hknown : Command.ofCode (delivery e (requested type seq {})).received.msg.type = some c := hc
    simp only [Abstract.flags, hlen, hmagic, hversion, hknown, ne_eq, not_true_eq_false, if_false,
      reduceCtorEq]
    rfl
  rw [hp]
  refine ⟨seen (monitor.answer w e (requested type seq {})), ?_, ?_⟩
  · have hserve : monitor.serve w e (requested type seq {}) =
        Abstract.call (watchAll w e.samples) (c.op 0 e.now (packPwmInputs e.r31)) := by
      change Abstract.serve _ _ _ = _
      rw [Abstract.serve, hcommand]
      rfl
    rw [outcome, hserve]
  · rw [seen_flags]
    change (Abstract.flags (delivery e (requested type seq {}))).toNat = 0
    rw [hflags]
    rfl

theorem direct_plain {type seq : Nat} (htype : type < 0x10000) (hseq : seq < 0x100000000) {c : Command}
    (hc : Command.ofCode (BitVec.ofNat 16 type) = some c) (e : Moment) {w w' : Monitor}
    (hw : Abstract.call (watchAll w e.samples) (c.op 0 e.now (packPwmInputs e.r31)) = w')
    (cs : List (Call Moment)) :
    ∃ m : Message, m.flags = 0 ∧ direct monitor (plain type e :: cs) seq w =
      (.ok m :: (direct monitor cs (seq + 1) w').1, (direct monitor cs (seq + 1) w').2) := by
  obtain ⟨m, hm, hflags⟩ := plain_outcome htype hseq hc e w
  rw [hw] at hm
  have hcall : outcome monitor w (plain type e).moment
      (requested (plain type e).type seq (plain type e).args) ((plain type e).packed seq) = (.ok m, w') := hm
  refine ⟨m, hflags, ?_⟩
  rw [direct_cons, hcall]

theorem watchAll_policy (w : Monitor) (samples : List Sample) :
    (watchAll w samples).minDeadtime = w.minDeadtime := by
  induction samples generalizing w with
  | nil => rfl
  | cons x xs ih =>
      rw [watchAll, List.foldl_cons]
      refine (ih _).trans ?_
      rw [Monitor.see]
      split_ifs <;> rfl

/-- What a measurement leaves: a stopped monitor that has seen the samples between its start
and its last stop, and nothing before. -/
theorem measurement_direct (w : Monitor) {seq : Nat} (hseq : seq + 4 ≤ 0x100000000) (e0 e1 e2 e3 : Moment) :
    (∀ r ∈ (direct monitor (measurement e0 e1 e2 e3) seq w).1, ∃ m, r = .ok m ∧ m.flags = 0) ∧
      (direct monitor (measurement e0 e1 e2 e3) seq w).2 =
        (watchAll (started (packPwmInputs e2.r31) w.minDeadtime) e3.samples).stop := by
  have hstopped : (watchAll w e0.samples).stop.running = false := rfl
  have hclear : (watchAll (watchAll w e0.samples).stop e1.samples).clear (packPwmInputs e1.r31 &&& logicalMask) =
      .idle (packPwmInputs e1.r31) w.minDeadtime := by
    rw [watchAll_stopped hstopped, packed_masked, ← watchAll_policy w e0.samples]
    rfl
  have hstart : (watchAll (.idle (packPwmInputs e1.r31) w.minDeadtime) e2.samples).start
      (packPwmInputs e2.r31 &&& logicalMask) = started (packPwmInputs e2.r31) w.minDeadtime := by
    rw [watchAll_stopped rfl, packed_masked]
    rfl
  obtain ⟨m0, h0, hd0⟩ := @direct_plain msgCaptureStop seq (by decide) (by omega) .captureStop rfl e0 w _ rfl
    [plain msgCaptureClear e1, plain msgCaptureStart e2, plain msgCaptureStop e3]
  obtain ⟨m1, h1, hd1⟩ := @direct_plain msgCaptureClear (seq + 1) (by decide) (by omega) .captureClear rfl e1
    (watchAll w e0.samples).stop _ hclear [plain msgCaptureStart e2, plain msgCaptureStop e3]
  obtain ⟨m2, h2, hd2⟩ := @direct_plain msgCaptureStart (seq + 1 + 1) (by decide) (by omega) .captureStart rfl
    e2 (.idle (packPwmInputs e1.r31) w.minDeadtime) _ hstart [plain msgCaptureStop e3]
  obtain ⟨m3, h3, hd3⟩ := @direct_plain msgCaptureStop (seq + 1 + 1 + 1) (by decide) (by omega) .captureStop
    rfl e3 (started (packPwmInputs e2.r31) w.minDeadtime)
    (watchAll (started (packPwmInputs e2.r31) w.minDeadtime) e3.samples).stop rfl []
  have hd0' : direct monitor (measurement e0 e1 e2 e3) seq w =
      (.ok m0 :: (direct monitor _ (seq + 1) (watchAll w e0.samples).stop).1,
        (direct monitor _ (seq + 1) (watchAll w e0.samples).stop).2) := hd0
  rw [hd0', hd1, hd2, hd3, direct_nil]
  refine ⟨?_, rfl⟩
  simp only [List.forall_mem_cons]
  exact ⟨⟨m0, rfl, h0⟩, ⟨m1, rfl, h1⟩, ⟨m2, rfl, h2⟩, ⟨m3, rfl, h3⟩, fun _ h => absurd h List.not_mem_nil⟩

theorem pru0B1_tracks {w : Monitor} {s : Service} (h : Tracks w s) (e : Moment) (m : Msg) :
    Tracks (monitor.serve w e m) (pru0B1.serve s e m) ∧ pru0B1.answer s e m = monitor.answer w e m :=
  handle_tracks (advance_tracks h e.samples) (delivery e m) e.r31

theorem direct_tracks (cs : List (Call Moment)) (seq : Nat) {w : Monitor} {s : Service} (h : Tracks w s) :
    (direct pru0B1 cs seq s).1 = (direct monitor cs seq w).1 ∧
      Tracks (direct monitor cs seq w).2 (direct pru0B1 cs seq s).2 :=
  direct_simulates (fun _ _ e m h => (pru0B1_tracks h e m).1) (fun _ _ e m h => (pru0B1_tracks h e m).2)
    cs seq h

theorem legAt_summary {s M : Memory 32} (h : ∀ addr, addr < summaryWords → s addr = M addr) {k : Nat}
    (hk : k < pairCount) : legAt k s = legAt k M := by
  have hthree : k < 3 := hk
  have hpair : pairWords k s = pairWords k M := by
    funext field
    apply h
    rw [pairWord, summaryWords]
    omega
  have hchannel {i : Nat} (hi : i < channelCount) : channelAt i s = channelAt i M := by
    refine congrArg Channel.ofWords (funext fun field => ?_)
    apply h
    exact Nat.lt_of_lt_of_le (channelWord_lt hi field.isLt).2 (by decide)
  rw [legAt, legAt, pairView, pairView, h minDeadtimeTicks (by decide), hpair, hchannel (high_lt hk),
    hchannel (low_lt hk)]

theorem stopped_read (h : Tracks w s) (hstopped : w.running = false) {view : View}
    (hview : ∀ n, ∃ samples, view n = (advance s samples).shared) {retries ringLimit : Int}
    (hretries : 0 < retries) (hlimit : 0 ≤ ringLimit) :
    ∃ snapshot loads, readConsistentSnapshotFromBuffer view retries ringLimit = (.ok snapshot, loads) ∧
      (recentEdges snapshot ringLimit).map told =
        (w.events.map told).drop ((w.events.map told).length - min ringLimit.toNat 128) ∧
      ∀ k, k < pairCount → legAt k snapshot = w.leg k := by
  have hrest : view = fun _ => s.shared := by
    funext n
    obtain ⟨samples, hn⟩ := hview n
    have hquiet : s.captureRunning = 0 :=
      of_not_not (fun hrun => Bool.false_ne_true (hstopped.symm.trans (h.running.mp hrun)))
    rw [hn, advance_stopped hquiet]
  obtain ⟨snapshot, loads, hread, hsummary, hedges⟩ := rest_read h.block hstopped hretries hlimit
  refine ⟨snapshot, loads, hrest ▸ hread, ?_, fun k hk => ?_⟩
  · rw [hedges, List.map_drop, List.length_map, ringCapacity]
  · rw [legAt_summary hsummary hk, h.block.leg hk]

theorem measurement_tracks (h : Tracks w s) (cs : List (Call Moment)) {seq : Nat}
    (hseq : seq + cs.length + 4 ≤ 0x100000000) (e0 e1 e2 e3 : Moment) :
    (direct pru0B1 (cs ++ measurement e0 e1 e2 e3) seq s).1 = (direct monitor cs seq w).1 ++
        (direct monitor (measurement e0 e1 e2 e3) (seq + cs.length) (direct monitor cs seq w).2).1 ∧
      Tracks (watchAll (started (packPwmInputs e2.r31) (direct monitor cs seq w).2.minDeadtime)
        e3.samples).stop (direct pru0B1 (cs ++ measurement e0 e1 e2 e3) seq s).2 := by
  obtain ⟨hanswers, htracks⟩ := direct_tracks (cs ++ measurement e0 e1 e2 e3) seq h
  obtain ⟨-, hleft⟩ := measurement_direct (direct monitor cs seq w).2 hseq e0 e1 e2 e3
  obtain ⟨happend, hstate⟩ := @direct_append _ _ monitor cs (measurement e0 e1 e2 e3) seq w
  refine ⟨hanswers.trans happend, ?_⟩
  rw [← hleft, ← hstate]
  exact htracks

/-- Over a link that loses and delays nothing, any script gives the host what the monitor would
answer, and leaves the firmware telling it. A measurement after it is answered with OK, and what
the host then reads of the block, while the firmware makes passes without messages, is what the
samples between the start and the stop have shown: their changes with their times, the latest
ones, and the statistics of every leg. -/
theorem host_measures_pwm (m : Memory 32) (r31 : Word) (cs : List (Call Moment)) (link : HilPru)
    (hq : link.queue = []) :
    (converse pru0B1 cs link (boot m r31)).1 =
        (direct monitor cs link.seq (.idle (packPwmInputs r31) 0)).1 ∧
    Tracks (direct monitor cs link.seq (.idle (packPwmInputs r31) 0)).2
      (converse pru0B1 cs link (boot m r31)).2.2 ∧
    ∀ e0 e1 e2 e3, link.seq + cs.length + 4 ≤ 0x100000000 → ∃ answers,
      (converse pru0B1 (cs ++ measurement e0 e1 e2 e3) link (boot m r31)).1 =
        (converse pru0B1 cs link (boot m r31)).1 ++ answers ∧
      (∀ r ∈ answers, ∃ a, r = .ok a ∧ a.flags = 0) ∧
      ∀ (view : View) (retries ringLimit : Int),
        (∀ n, ∃ samples, view n = (advance
          (converse pru0B1 (cs ++ measurement e0 e1 e2 e3) link (boot m r31)).2.2 samples).shared) →
        0 < retries → 0 ≤ ringLimit → ∃ snapshot loads,
          readConsistentSnapshotFromBuffer view retries ringLimit = (.ok snapshot, loads) ∧
          (recentEdges snapshot ringLimit).map told =
            (changes (packPwmInputs e2.r31) e3.samples).drop
              ((changes (packPwmInputs e2.r31) e3.samples).length - min ringLimit.toNat 128) ∧
          ∀ k, k < pairCount → legAt k snapshot =
            (watchAll (started (packPwmInputs e2.r31)
              (direct monitor cs link.seq (.idle (packPwmInputs r31) 0)).2.minDeadtime) e3.samples).leg k := by
  obtain ⟨hresults, hstate, -, -⟩ := @converse_eq _ _ pru0B1 (boot m r31) link cs hq
  obtain ⟨hanswers, htracks⟩ := direct_tracks cs link.seq (tracks_boot m r31)
  refine ⟨hresults.trans hanswers, hstate ▸ htracks, fun e0 e1 e2 e3 hseq => ?_⟩
  obtain ⟨hresults', hstate', -, -⟩ :=
    @converse_eq _ _ pru0B1 (boot m r31) link (cs ++ measurement e0 e1 e2 e3) hq
  obtain ⟨hanswers', htracks'⟩ := measurement_tracks (tracks_boot m r31) cs hseq e0 e1 e2 e3
  obtain ⟨hok, -⟩ := measurement_direct (direct monitor cs link.seq (.idle (packPwmInputs r31) 0)).2 hseq
    e0 e1 e2 e3
  refine ⟨_, hresults'.trans (hanswers'.trans ?_), hok, fun view retries ringLimit hview hretries hlimit => ?_⟩
  · exact congrArg (· ++ _) (hresults.trans hanswers).symm
  · rw [hstate'] at hview
    obtain ⟨snapshot, loads, hread, hedges, hlegs⟩ := stopped_read htracks' rfl hview hretries hlimit
    refine ⟨snapshot, loads, hread, ?_, hlegs⟩
    have hchanges := @watchAll_changes (started (packPwmInputs e2.r31)
      (direct monitor cs link.seq (.idle (packPwmInputs r31) 0)).2.minDeadtime) rfl e3.samples
    have hall : (Monitor.stop (watchAll (started (packPwmInputs e2.r31)
        (direct monitor cs link.seq (.idle (packPwmInputs r31) 0)).2.minDeadtime) e3.samples)).events.map told =
        changes (packPwmInputs e2.r31) e3.samples := hchanges
    rw [hedges, hall]

end Session

/-- The capture starts with all inputs low; then UH rises, UL rises too, and UH falls in the
pass that finds the stop. -/
def startMoment : Moment := ⟨[], ⟨0, 5⟩, 6⟩

def stopMoment : Moment := ⟨[⟨2, 100⟩, ⟨2, 101⟩, ⟨6, 150⟩], ⟨4, 200⟩, 201⟩

theorem sample_changes : changes (packPwmInputs startMoment.r31) stopMoment.samples =
    [(100, 1, 1), (150, 3, 2), (200, 2, 1)] := by decide

theorem rest_view (s : Service) (_ : Nat) : ∃ samples, s.shared = (advance s samples).shared := ⟨[], rfl⟩

theorem host_measures_pwm_sample : ∃ snapshot loads,
    readConsistentSnapshotFromBuffer
      (fun _ => (converse pru0B1 ([⟨msgCaptureConfig, { arg0 := 140 }, startMoment⟩] ++
        measurement startMoment startMoment startMoment stopMoment) {} (boot (fun _ => 0) 0)).2.2.shared)
      1 16 = (.ok snapshot, loads) ∧
    (recentEdges snapshot 16).map told = [(100, 1, 1), (150, 3, 2), (200, 2, 1)] := by
  obtain ⟨-, -, hmeasures⟩ :=
    host_measures_pwm (fun _ => 0) 0 [⟨msgCaptureConfig, { arg0 := 140 }, startMoment⟩] {} rfl
  obtain ⟨-, -, -, hread⟩ := hmeasures startMoment startMoment startMoment stopMoment (by decide)
  obtain ⟨snapshot, loads, hok, hedges, -⟩ :=
    hread _ 1 16 (rest_view _) (by decide) (by decide)
  refine ⟨snapshot, loads, hok, ?_⟩
  rw [hedges, sample_changes]
  rfl

end HilLab.Host.PwmLink
