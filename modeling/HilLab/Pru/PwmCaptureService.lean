import HilLab.Pru.LoopbackService
import HilLab.Pru.PwmMonitor

namespace HilLab.Pru.PwmCaptureService

open Lib.Seqlock Lib.CodeView Protocol PwmCaptureCore PwmEdgeLog PwmMeasure PwmMonitor
open LoopbackService (Received Sent clearResponse hostInt)

def hilPruB1FirmwareVersion : Word := 0x00020000

/-- TIMEBASE, RPMSG, FORCE_SAFE, PWM_CAPTURE, PWM_COMPLEMENTARY_MONITOR and SHARED_SNAPSHOT. -/
def hilPruB1Capabilities : Word :=
  1 <<< 0 ||| 1 <<< 1 ||| 1 <<< 3 ||| 1 <<< 5 ||| 1 <<< 6 ||| 1 <<< 7

/-- The bit of R31 and the logical bit of UH, UL, VH, VL, WH and WL. -/
def wiring : List (Nat × Nat) := [(1, 0), (2, 1), (3, 2), (5, 3), (14, 4), (15, 5)]

def packPwmInputs (rawR31 : Word) : Word :=
  wiring.foldl
    (fun logical wire =>
      if rawR31 &&& mask wire.1 ≠ 0 then logical ||| mask wire.2 else logical) 0

/-- The commands that the switch of pru0_b1's handle_request knows. -/
inductive Command
  | hello | time | forceSafe | ping
  | captureConfig | captureStart | captureStop | captureClear | captureStatus
deriving DecidableEq, Repr

def Command.ofCode (type : BitVec 16) : Option Command :=
  if type = 1 then some .hello
  else if type = 2 then some .time
  else if type = 4 then some .forceSafe
  else if type = 5 then some .ping
  else if type = 6 then some .captureConfig
  else if type = 7 then some .captureStart
  else if type = 8 then some .captureStop
  else if type = 9 then some .captureClear
  else if type = 10 then some .captureStatus
  else none

structure Delivery where
  received : Received
  now : Word

/-- A pass of the main loop: R31, the counter should it be read, and what the transport
delivers should it be asked. -/
structure Pass where
  r31 : Word
  ticks : Word
  deliveries : List Delivery

/-- The shared block with the two variables of main. -/
structure Service where
  shared : Memory 32
  captureRunning : Word
  lastInputs : Word

namespace Service

variable (s : Service)

def dispatch (request : Msg) (now logicalInputs : Word) (tx : Msg) : Service × Msg :=
  match Command.ofCode request.type with
  | some .hello =>
      (s, { tx with
        arg0 := hilPruB1Capabilities, arg1 := iepTickHz, arg2 := iepCounterBits
        arg3 := hilPruB1FirmwareVersion })
  | some .time => (s, { tx with arg0 := now, arg1 := iepTickHz, arg2 := iepCounterBits })
  | some .ping => (s, { tx with arg0 := now })
  | some .forceSafe =>
      ({ s with shared := after stop s.shared, captureRunning := 0 }, { tx with arg0 := now })
  | some .captureConfig =>
      let shared := after (setMinDeadtime request.arg0) s.shared
      ({ s with shared }, { tx with arg0 := shared minDeadtimeTicks })
  | some .captureStart =>
      ({ shared := after (start now logicalInputs) s.shared, captureRunning := 1
         lastInputs := logicalInputs },
        { tx with arg0 := now, arg1 := logicalInputs })
  | some .captureStop =>
      ({ s with shared := after stop s.shared, captureRunning := 0 }, { tx with arg0 := now })
  | some .captureClear =>
      let shared := after (clear logicalInputs) s.shared
      ({ s with shared, lastInputs := logicalInputs }, { tx with arg0 := shared eventSeq })
  | some .captureStatus =>
      (s, { tx with
        arg0 := s.shared running, arg1 := s.shared minDeadtimeTicks, arg2 := s.shared faultFlags
        arg3 := s.shared eventSeq })
  | none => (s, { tx with flags := errBadCommand })

def handleRequest (d : Delivery) (rawR31 : Word) : Service × Msg :=
  let request := d.received.msg
  if d.received.len ≠ sizeofMsg then (s, { clearResponse 0 0 with flags := errBadLength })
  else
    let tx := clearResponse request.type request.seq
    if request.magic ≠ hilPruMagic then (s, { tx with flags := errBadMagic })
    else if request.version ≠ hilPruProtocolVersion then (s, { tx with flags := errBadVersion })
    else s.dispatch request d.now (packPwmInputs rawR31) tx

/-- The data plane: only a changed sample is timed and processed. -/
def sample (rawR31 ticks : Word) : Service :=
  if s.captureRunning ≠ 0 then
    let logicalInputs := packPwmInputs rawR31
    if logicalInputs ≠ s.lastInputs then
      { s with shared := after (process ticks logicalInputs) s.shared, lastInputs := logicalInputs }
    else s
  else s

def drain (rawR31 : Word) : List Delivery → Service → Service × List Sent
  | [], s => (s, [])
  | d :: ds, s =>
      let r := s.handleRequest d rawR31
      let rest := drain rawR31 ds r.1
      (rest.1, ⟨d.received.dst, d.received.src, r.2⟩ :: rest.2)

def pass (p : Pass) : Service × List Sent :=
  let s := s.sample p.r31 p.ticks
  if p.r31 &&& hostInt ≠ 0 then drain p.r31 p.deliveries s else (s, [])

end Service

def main : List Pass → Service → Service × List Sent
  | [], s => (s, [])
  | p :: ps, s =>
      let r := s.pass p
      let rest := main ps r.1
      (rest.1, r.2 ++ rest.2)

def boot (m : Memory 32) (r31 : Word) : Service :=
  { shared := after (set inputBits (packPwmInputs r31)) (initialised m iepTickHz 0)
    captureRunning := 0, lastInputs := packPwmInputs r31 }

section Wiring

theorem wire_bit (logical rawR31 : Word) {wire : Nat × Nat} (h : wire.1 < 32 ∧ wire.2 < 32) (i : Nat) :
    bit (if rawR31 &&& mask wire.1 ≠ 0 then logical ||| mask wire.2 else logical) i =
      (bit logical i || (decide (i = wire.2) && bit rawR31 wire.1)) := by
  by_cases hbit : bit rawR31 wire.1 = true
  · rw [if_pos ((masked_iff rawR31 h.1).mpr hbit), bit_or, mask_bit h.2, hbit, Bool.and_true]
  · rw [if_neg (fun hm => hbit ((masked_iff rawR31 h.1).mp hm)), Bool.eq_false_iff.mpr hbit,
      Bool.and_false, Bool.or_false]

theorem packed_bit (rawR31 : Word) (i : Nat) :
    bit (packPwmInputs rawR31) i =
      wiring.any (fun wire => decide (i = wire.2) && bit rawR31 wire.1) := by
  have hbit {wire : Nat × Nat} (h : wire ∈ wiring) : wire.1 < 32 ∧ wire.2 < 32 := by
    have hall : ∀ wire ∈ wiring, wire.1 < 32 ∧ wire.2 < 32 := by decide
    exact hall wire h
  have hfold (wires : List (Nat × Nat)) (hw : ∀ wire ∈ wires, wire ∈ wiring) (logical : Word) :
      bit (wires.foldl (fun logical wire =>
        if rawR31 &&& mask wire.1 ≠ 0 then logical ||| mask wire.2 else logical) logical) i =
        (bit logical i || wires.any (fun wire => decide (i = wire.2) && bit rawR31 wire.1)) := by
    induction wires generalizing logical with
    | nil => exact (Bool.or_false _).symm
    | cons wire wires ih =>
        rw [List.foldl_cons, ih (fun x hx => hw x (List.mem_cons_of_mem wire hx)),
          wire_bit logical rawR31 (hbit (hw wire List.mem_cons_self)), List.any_cons, Bool.or_assoc]
  rw [packPwmInputs, hfold wiring (fun _ h => h)]
  have hzero : bit 0 i = false := BitVec.getLsbD_zero
  rw [hzero, Bool.false_or]

theorem packed_masked (rawR31 : Word) : packPwmInputs rawR31 &&& logicalMask = packPwmInputs rawR31 := by
  apply BitVec.eq_of_getLsbD_eq
  intro i _
  change bit _ i = bit _ i
  rw [bit_and, packed_bit]
  by_cases hi : i < channelCount
  · rw [bit_logicalMask hi, Bool.and_true]
  · have hnone : wiring.any (fun wire => decide (i = wire.2) && bit rawR31 wire.1) = false := by
      rw [List.any_eq_false]
      intro wire hwire
      have hall : ∀ wire ∈ wiring, wire.2 < channelCount := by decide
      have hne : i ≠ wire.2 := fun heq => hi (heq ▸ hall wire hwire)
      simp [hne]
    rw [hnone, Bool.false_and]

end Wiring

/-- The command of a message that gets as far as the switch. -/
def Delivery.command (d : Delivery) : Option Command :=
  if d.received.len = sizeofMsg ∧ d.received.msg.magic = hilPruMagic ∧
      d.received.msg.version = hilPruProtocolVersion then
    Command.ofCode d.received.msg.type
  else none

/-- The call on the capture that a command makes. -/
def Command.op (arg0 now inputs : Word) : Command → Option Op
  | .forceSafe | .captureStop => some .stop
  | .captureConfig => some (.setMinDeadtime arg0)
  | .captureStart => some (.start now inputs)
  | .captureClear => some (.clear inputs)
  | .hello | .time | .ping | .captureStatus => none

namespace Abstract

variable (w : Monitor)

def call : Option Op → Monitor
  | some op => w.op op
  | none => w

/-- The first check that a message fails. -/
def flags (d : Delivery) : Word :=
  if d.received.len ≠ sizeofMsg then errBadLength
  else if d.received.msg.magic ≠ hilPruMagic then errBadMagic
  else if d.received.msg.version ≠ hilPruProtocolVersion then errBadVersion
  else if Command.ofCode d.received.msg.type = none then errBadCommand
  else statusOk

def report (now inputs : Word) : Command → Word × Word × Word × Word
  | .hello => (hilPruB1Capabilities, iepTickHz, iepCounterBits, hilPruB1FirmwareVersion)
  | .time => (now, iepTickHz, iepCounterBits, 0)
  | .ping | .forceSafe | .captureStop => (now, 0, 0, 0)
  | .captureConfig => (w.minDeadtime, 0, 0, 0)
  | .captureStart => (now, inputs, 0, 0)
  | .captureClear => (0, 0, 0, 0)
  | .captureStatus =>
      (if w.running then 1 else 0, w.minDeadtime, faults w.leg, BitVec.ofNat 32 w.events.length)

def serve (d : Delivery) (inputs : Word) : Monitor :=
  call w (d.command.bind (Command.op d.received.msg.arg0 d.now inputs))

def answer (d : Delivery) (inputs : Word) : Msg :=
  let args := (d.command.map (report (serve w d inputs) d.now inputs)).getD (0, 0, 0, 0)
  let header :=
    if d.received.len = sizeofMsg then clearResponse d.received.msg.type d.received.msg.seq
    else clearResponse 0 0
  { header with
    flags := flags d, arg0 := args.1, arg1 := args.2.1, arg2 := args.2.2.1, arg3 := args.2.2.2 }

def drain (inputs : Word) : List Delivery → Monitor → Monitor × List Sent
  | [], w => (w, [])
  | d :: ds, w =>
      let rest := drain inputs ds (serve w d inputs)
      (rest.1, ⟨d.received.dst, d.received.src, answer w d inputs⟩ :: rest.2)

/-- A pass sees every sample, changed or not. -/
def pass (p : Pass) : Monitor × List Sent :=
  let w := w.see p.ticks (packPwmInputs p.r31)
  if p.r31 &&& hostInt ≠ 0 then drain (packPwmInputs p.r31) p.deliveries w else (w, [])

def watch : List Pass → Monitor → Monitor × List Sent
  | [], w => (w, [])
  | p :: ps, w =>
      let r := pass w p
      let rest := watch ps r.1
      (rest.1, r.2 ++ rest.2)

end Abstract

/-- The firmware's state tells the monitor. -/
structure Tracks (w : Monitor) (s : Service) : Prop where
  block : Represents w iepTickHz s.shared
  running : s.captureRunning ≠ 0 ↔ w.running = true
  inputs : s.lastInputs = w.inputs

section Tracks

variable {w : Monitor} {s : Service}

theorem tracks_boot (m : Memory 32) (r31 : Word) :
    Tracks (.idle (packPwmInputs r31) 0) (boot m r31) where
  block := represents_inputBits (represents_initialised m iepTickHz 0) (packed_masked r31)
  running := by simp [boot, Monitor.idle]
  inputs := rfl

theorem tracks_sample (h : Tracks w s) (rawR31 ticks : Word) :
    Tracks (w.see ticks (packPwmInputs rawR31)) (s.sample rawR31 ticks) := by
  have hop := represents_op h.block (.process ticks (packPwmInputs rawR31))
  rw [Monitor.op, packed_masked] at hop
  rw [Service.sample]
  by_cases hrun : s.captureRunning = 0
  · have hstill : w.see ticks (packPwmInputs rawR31) = w := by
      have hstopped : ¬ w.running = true := fun hw => (h.running.mpr hw) hrun
      rw [Monitor.see, if_neg (fun hw => hstopped hw.1)]
    rw [if_neg (not_not_intro hrun), hstill]
    exact h
  · have hwrun := h.running.mp hrun
    rw [if_pos hrun]
    dsimp only
    by_cases hsame : packPwmInputs rawR31 = s.lastInputs
    · have hstill : w.see ticks (packPwmInputs rawR31) = w := by
        rw [Monitor.see, if_neg (fun hw => hw.2 (hsame.trans h.inputs))]
      rw [if_neg (not_not_intro hsame), hstill]
      exact h
    · have hseen : (w.see ticks (packPwmInputs rawR31)).running = w.running ∧
          (w.see ticks (packPwmInputs rawR31)).inputs = packPwmInputs rawR31 := by
        rw [Monitor.see, if_pos ⟨hwrun, fun heq => hsame (heq.trans h.inputs.symm)⟩]
        exact ⟨rfl, rfl⟩
      rw [if_pos hsame]
      exact ⟨hop, h.running.trans (by rw [hseen.1]), hseen.2.symm⟩

theorem tracks_dispatch (h : Tracks w s) (request : Msg) (now rawR31 : Word) (tx : Msg) :
    Tracks (Abstract.call w ((Command.ofCode request.type).bind
        (Command.op request.arg0 now (packPwmInputs rawR31))))
      (s.dispatch request now (packPwmInputs rawR31) tx).1 := by
  have hop (op : Op) := represents_op h.block op
  rw [Service.dispatch]
  cases Command.ofCode request.type with
  | none => exact h
  | some c =>
      cases c with
      | hello | time | ping | captureStatus => exact h
      | forceSafe | captureStop =>
          refine ⟨hop .stop, ?_, h.inputs⟩
          simp [Abstract.call, Command.op, Monitor.op, Monitor.stop]
      | captureConfig => exact ⟨hop (.setMinDeadtime request.arg0), h.running, h.inputs⟩
      | captureStart =>
          refine ⟨hop (.start now (packPwmInputs rawR31)), ?_, (packed_masked rawR31).symm⟩
          simp [Abstract.call, Command.op, Monitor.op, Monitor.start]
      | captureClear =>
          dsimp only [Option.bind_some, Command.op, Abstract.call]
          refine ⟨?_, ?_, ?_⟩
          · dsimp only
            exact represents_clear h.block (packPwmInputs rawR31)
          · exact h.running
          · exact (packed_masked rawR31).symm

theorem dispatch_answer (h : Tracks w s) (request : Msg) (now rawR31 : Word) (tx : Msg)
    (htx : tx = clearResponse request.type request.seq) :
    (s.dispatch request now (packPwmInputs rawR31) tx).2 =
      match Command.ofCode request.type with
      | none => { tx with flags := errBadCommand }
      | some c =>
          let r := Abstract.report (Abstract.call w
            (Command.op request.arg0 now (packPwmInputs rawR31) c)) now (packPwmInputs rawR31) c
          { tx with arg0 := r.1, arg1 := r.2.1, arg2 := r.2.2.1, arg3 := r.2.2.2 } := by
  have hop (op : Op) := represents_op h.block op
  rw [Service.dispatch, htx]
  cases Command.ofCode request.type with
  | none => rfl
  | some c =>
      cases c with
      | hello | time | ping | forceSafe | captureStop | captureStart => rfl
      | captureConfig =>
          have hpolicy : after (setMinDeadtime request.arg0) s.shared minDeadtimeTicks = request.arg0 :=
            (hop (.setMinDeadtime request.arg0)).policy
          dsimp only
          rw [hpolicy]
          rfl
      | captureClear =>
          have hevents : after (clear (packPwmInputs rawR31)) s.shared eventSeq = 0 :=
            (represents_clear h.block (packPwmInputs rawR31)).ring.events
          dsimp only
          rw [hevents]
          rfl
      | captureStatus =>
          dsimp only
          rw [h.block.running, h.block.policy, h.block.faults, h.block.ring.events]
          rfl

theorem handle_tracks (h : Tracks w s) (d : Delivery) (rawR31 : Word) :
    Tracks (Abstract.serve w d (packPwmInputs rawR31)) (s.handleRequest d rawR31).1 ∧
      (s.handleRequest d rawR31).2 = Abstract.answer w d (packPwmInputs rawR31) := by
  rw [Service.handleRequest, Abstract.answer, Abstract.serve, Abstract.flags]
  by_cases hlen : d.received.len = sizeofMsg
  · by_cases hmagic : d.received.msg.magic = hilPruMagic
    · by_cases hversion : d.received.msg.version = hilPruProtocolVersion
      · have hcommand : d.command = Command.ofCode d.received.msg.type :=
          if_pos ⟨hlen, hmagic, hversion⟩
        simp only [hlen, hmagic, hversion, ne_eq, not_true_eq_false, if_false, if_true, hcommand]
        refine ⟨tracks_dispatch h _ _ _ _, ?_⟩
        rw [dispatch_answer h _ _ _ _ rfl]
        cases Command.ofCode d.received.msg.type <;> rfl
      · have hcommand : d.command = none := if_neg (fun hall => hversion hall.2.2)
        simp only [hlen, hmagic, hversion, ne_eq, not_true_eq_false, not_false_eq_true, if_false, if_true,
          hcommand]
        exact ⟨h, rfl⟩
    · have hcommand : d.command = none := if_neg (fun hall => hmagic hall.2.1)
      simp only [hlen, hmagic, ne_eq, not_true_eq_false, not_false_eq_true, if_false, if_true, hcommand]
      exact ⟨h, rfl⟩
  · have hcommand : d.command = none := if_neg (fun hall => hlen hall.1)
    simp only [hlen, ne_eq, not_false_eq_true, if_false, if_true, hcommand]
    exact ⟨h, rfl⟩

theorem drain_tracks (h : Tracks w s) (rawR31 : Word) (ds : List Delivery) :
    Tracks (Abstract.drain (packPwmInputs rawR31) ds w).1 (Service.drain rawR31 ds s).1 ∧
      (Service.drain rawR31 ds s).2 = (Abstract.drain (packPwmInputs rawR31) ds w).2 := by
  induction ds generalizing w s with
  | nil => exact ⟨h, rfl⟩
  | cons d ds ih =>
      obtain ⟨hserved, hanswer⟩ := handle_tracks h d rawR31
      obtain ⟨hrest, hsent⟩ := ih hserved
      refine ⟨hrest, ?_⟩
      rw [Service.drain, Abstract.drain, hsent, hanswer]

theorem pass_tracks (h : Tracks w s) (p : Pass) :
    Tracks (Abstract.pass w p).1 (s.pass p).1 ∧ (s.pass p).2 = (Abstract.pass w p).2 := by
  have hseen := tracks_sample h p.r31 p.ticks
  rw [Service.pass, Abstract.pass]
  split_ifs
  · exact drain_tracks hseen p.r31 p.deliveries
  · exact ⟨hseen, rfl⟩

theorem main_tracks (h : Tracks w s) (passes : List Pass) :
    Tracks (Abstract.watch passes w).1 (main passes s).1 ∧
      (main passes s).2 = (Abstract.watch passes w).2 := by
  induction passes generalizing w s with
  | nil => exact ⟨h, rfl⟩
  | cons p ps ih =>
      obtain ⟨hpass, hsent⟩ := pass_tracks h p
      obtain ⟨hrest, hsent'⟩ := ih hpass
      refine ⟨hrest, ?_⟩
      rw [main, Abstract.watch, hsent, hsent']

/-- The firmware is the monitor in every run: after any passes of the main loop, with any
samples, counters and messages, its block tells the monitor that has seen every sample and
served every command, and the answers sent are the monitor's. -/
theorem capture_service (m : Memory 32) (r31 : Word) (passes : List Pass) :
    Tracks (Abstract.watch passes (.idle (packPwmInputs r31) 0)).1 (main passes (boot m r31)).1 ∧
      (main passes (boot m r31)).2 = (Abstract.watch passes (.idle (packPwmInputs r31) 0)).2 :=
  main_tracks (tracks_boot m r31) passes

end Tracks

end HilLab.Pru.PwmCaptureService
