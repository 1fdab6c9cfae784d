import HilLab.Pru.GpioLoopback
import Mathlib.Data.List.Forall2

namespace HilLab.Pru.LoopbackService

open Lib.Clocked Lib.FirstSeen Protocol GpioLoopback

def hilPruFirmwareVersion : BitVec 32 := 0x00010000

/-- TIMEBASE, RPMSG, GPIO_LOOPBACK, FORCE_SAFE and WATCHDOG. -/
def hilPruB0Capabilities : BitVec 32 := 1 <<< 0 ||| 1 <<< 1 ||| 1 <<< 2 ||| 1 <<< 3 ||| 1 <<< 4

def hostInt : BitVec 32 := 1 <<< 30
def watchdogTicks : BitVec 32 := 200000000

/-- The commands that the switch of pru0_b0's handle_request knows. -/
inductive Command
  | hello | time | gpioLoopback | forceSafe | ping
deriving DecidableEq, Repr

def Command.ofCode (type : BitVec 16) : Option Command :=
  if type = 1 then some .hello
  else if type = 2 then some .time
  else if type = 3 then some .gpioLoopback
  else if type = 4 then some .forceSafe
  else if type = 5 then some .ping
  else none

structure Received where
  src : BitVec 16
  dst : BitVec 16
  len : BitVec 16
  msg : Msg

structure Sent where
  src : BitVec 16
  dst : BitVec 16
  msg : Msg

/-- Where main stands: at the next reading of the counter, of the driver's status
or of the transport. -/
inductive Place
  | driver | init | halted | channel | connected | head | drain | dispatch | stamp
  | loopback (x : Args) (call : Loopback)
  | send

/-- The registers and variables of main, with the messages taken and sent so far. -/
structure Service where
  place : Place
  r30 : BitVec 32
  lastHostTick : BitVec 32
  rx : Received
  tx : Msg
  taken : List Received
  sent : List Sent

/-- What the step finds outside: the counter, R31, the driver's status bit, whether a
call of the transport succeeds, and the next message. -/
structure Input where
  now : BitVec 32
  r31 : BitVec 32
  driverOk : Bool
  transportOk : Bool
  message : Option Received

def clearResponse (requestType : BitVec 16) (seq : BitVec 32) : Msg :=
  { magic := hilPruMagic, version := hilPruProtocolVersion, type := requestType ||| responseBit, seq
    flags := statusOk, arg0 := 0, arg1 := 0, arg2 := 0, arg3 := 0 }

def args (m : Msg) : Args := ⟨m.arg0, m.arg1, m.arg2⟩

namespace Service

variable (s : Service)

def forceSafe : Service := { s with r30 := s.r30 &&& ~~~loopbackOutMask }

def check (m : Received) : Service :=
  if m.len ≠ sizeofMsg then
    { s with tx := { clearResponse 0 0 with flags := errBadLength }, place := .send }
  else if m.msg.magic ≠ hilPruMagic then
    { s with tx := { clearResponse m.msg.type m.msg.seq with flags := errBadMagic }, place := .send }
  else if m.msg.version ≠ hilPruProtocolVersion then
    { s with tx := { clearResponse m.msg.type m.msg.seq with flags := errBadVersion }, place := .send }
  else { s with tx := clearResponse m.msg.type m.msg.seq, place := .dispatch }

def dispatch : Service :=
  match Command.ofCode s.rx.msg.type with
  | some .hello =>
      { s with
        tx := { s.tx with
          arg0 := hilPruB0Capabilities, arg1 := iepTickHz, arg2 := iepCounterBits
          arg3 := hilPruFirmwareVersion }
        place := .send }
  | some .time | some .ping => { s with place := .stamp }
  | some .gpioLoopback => { s with place := .loopback (args s.rx.msg) (Loopback.start (args s.rx.msg) s.r30) }
  | some .forceSafe => { s.forceSafe with place := .stamp }
  | none => { s with tx := { s.tx with flags := errBadCommand }, place := .send }

/-- The answer to TIME, FORCE_SAFE and PING carries the counter. -/
def stamp (now : BitVec 32) : Service :=
  let tx :=
    if Command.ofCode s.rx.msg.type = some .time then
      { s.tx with arg0 := now, arg1 := iepTickHz, arg2 := iepCounterBits }
    else { s.tx with arg0 := now }
  { s with tx, place := .send }

def report (call : Loopback) (now : BitVec 32) : Service :=
  { s with
    r30 := call.r30
    tx := { s.tx with
      flags := call.status, arg0 := call.requestedStart, arg1 := call.observedRise
      arg2 := call.observedFall, arg3 := now }
    place := .send }

def boot (r30 : BitVec 32) : Service :=
  { place := .driver, r30 := r30 &&& ~~~loopbackOutMask, lastHostTick := 0
    rx := ⟨0, 0, 0, ⟨0, 0, 0, 0, 0, 0, 0, 0, 0⟩⟩, tx := ⟨0, 0, 0, 0, 0, 0, 0, 0, 0⟩
    taken := [], sent := [] }

def step (i : Input) : Service :=
  match s.place with
  | .driver => if i.driverOk then { s with place := .init } else s.forceSafe
  | .init => if i.transportOk then { s with place := .channel } else { s.forceSafe with place := .halted }
  | .halted => s
  | .channel => if i.transportOk then { s with place := .connected } else s.forceSafe
  | .connected => { s with lastHostTick := i.now, place := .head }
  | .head =>
      let s := if tickElapsed i.now s.lastHostTick > watchdogTicks then s.forceSafe else s
      if i.r31 &&& hostInt ≠ 0 then { s with place := .drain } else s
  | .drain =>
      match i.message with
      | none => { s with place := .head }
      | some m => check { s with rx := m, taken := s.taken ++ [m] } m
  | .dispatch => dispatch { s with lastHostTick := i.now }
  | .stamp => s.stamp i.now
  | .loopback x call =>
      if call.phase = .returned then s.report call i.now
      else { s with place := .loopback x (call.poll x ⟨i.now, i.r31⟩) }
  | .send => { s with sent := s.sent ++ [⟨s.rx.dst, s.rx.src, s.tx⟩], place := .drain }

/-- The output register: run_gpio_loopback works on R30 itself. -/
def outputs : BitVec 32 :=
  match s.place with
  | .loopback _ call => call.r30
  | _ => s.r30

end Service

section Call

variable {x : Args} {r30 : BitVec 32}

theorem and_not_idem (r m : BitVec 32) : r &&& ~~~m &&& ~~~m = r &&& ~~~m := by
  rw [BitVec.and_assoc, BitVec.and_self]

theorem or_and_not (r m : BitVec 32) : (r ||| m) &&& ~~~m = r &&& ~~~m := by
  ext b
  simp only [BitVec.getElem_and, BitVec.getElem_or, BitVec.getElem_not]
  cases r[b] <;> cases m[b] <;> rfl

theorem output_raised (r : BitVec 32) : (r ||| loopbackOutMask) &&& loopbackOutMask ≠ 0 := by
  have hmask : (r ||| loopbackOutMask) &&& loopbackOutMask = loopbackOutMask := by
    ext b
    simpa using Or.inr
  rw [hmask]
  decide

def lateFlags (rise fall : BitVec 32) : BitVec 32 :=
  (if rise = tickNotSeen then errLoopbackNoRise else 0) |||
    (if fall = tickNotSeen then errLoopbackNoFall else 0)

/-- What holds of a call of run_gpio_loopback at each reading, whatever it reads: it drives its
pin in the high phase only and no other pin, and its status is what it will return. -/
structure Sound (x : Args) (r30 : BitVec 32) (call : Loopback) : Prop where
  others : call.r30 &&& ~~~loopbackOutMask = r30 &&& ~~~loopbackOutMask
  high : call.r30 &&& loopbackOutMask ≠ 0 ↔ call.phase = .high
  refused : x.Refused → call.phase = .returned ∧ call.status = errInvalidArgument
  running : ¬x.Refused → call.phase ≠ .returned → call.status = statusOk
  done : ¬x.Refused → call.phase = .returned →
    call.status = lateFlags call.observedRise call.observedFall

theorem lowered_mask (r : BitVec 32) : r &&& ~~~loopbackOutMask &&& loopbackOutMask = 0 := by
  rw [BitVec.and_assoc]
  simp

theorem sound_start (x : Args) (r30 : BitVec 32) : Sound x r30 (Loopback.start x r30) := by
  rw [Loopback.start]
  split_ifs with hx
  · refine ⟨and_not_idem r30 _, ?_, fun _ => ⟨rfl, rfl⟩, fun h => absurd hx h, fun h => absurd hx h⟩
    simp [Loopback.forceSafe, lowered_mask]
  · refine ⟨and_not_idem r30 _, ?_, fun h => absurd h hx, fun _ _ => rfl, fun _ h => by cases h⟩
    simp [Loopback.forceSafe, lowered_mask]

theorem sound_finish {call : Loopback} (h : Sound x r30 call) (hx : ¬x.Refused)
    (hstatus : call.status = statusOk) : Sound x r30 call.finish := by
  refine ⟨(and_not_idem _ _).trans h.others, ?_, fun hr => absurd hr hx, fun _ hn => absurd rfl hn,
    fun _ _ => ?_⟩
  · simp [Loopback.finish, Loopback.forceSafe, lowered_mask]
  · simp [Loopback.finish, Loopback.forceSafe, hstatus, lateFlags, statusOk]

theorem Sound.note {call call' : Loopback} (h : Sound x r30 call) (hx : ¬x.Refused)
    (hr30 : call'.r30 = call.r30) (hstatus : call'.status = call.status)
    (hphase : call'.phase = .high ↔ call.phase = .high) (hrun : call.phase ≠ .returned)
    (hrun' : call'.phase ≠ .returned) : Sound x r30 call' := by
  refine ⟨hr30 ▸ h.others, ?_, fun hr => absurd hr hx, fun _ _ => ?_, fun _ hn => absurd hn hrun'⟩
  · rw [hr30, hphase]
    exact h.high
  · rw [hstatus]
    exact h.running hx hrun

theorem sound_poll {call : Loopback} (h : Sound x r30 call) (i : Reading) : Sound x r30 (call.poll x i) := by
  by_cases hx : x.Refused
  · rw [poll_returned (h.refused hx).1]
    exact h
  cases hp : call.phase with
  | request =>
      rw [Loopback.poll, hp]
      exact h.note hx rfl rfl (by simp [hp]) (by simp [hp]) (by simp)
  | waitStart =>
      rw [Loopback.poll, hp]
      dsimp only
      split_ifs
      · have hrun := h.running hx (by simp [hp])
        exact ⟨(or_and_not _ _).trans h.others, ⟨fun _ => rfl, fun _ => output_raised _⟩,
          fun hr => absurd hr hx, fun _ _ => hrun, fun _ hn => by cases hn⟩
      · exact h
  | high =>
      rw [Loopback.poll, hp]
      have hrun := h.running hx (by simp [hp])
      dsimp only
      split
      · refine ⟨(and_not_idem _ _).trans h.others, ?_, fun hr => absurd hr hx, fun _ _ => hrun,
          fun _ hn => by cases hn⟩
        simp [Loopback.forceSafe, lowered_mask]
      · exact h.note hx rfl rfl (by simp [hp]) (by simp [hp]) (by simp)
  | fallWait =>
      rw [Loopback.poll, hp]
      exact h.note hx rfl rfl (by simp [hp]) (by simp [hp]) (by simp)
  | waitFall =>
      rw [Loopback.poll, hp]
      have hrun := h.running hx (by simp [hp])
      dsimp only
      split_ifs
      · exact h
      · exact sound_finish h hx hrun
      · exact sound_finish (h.note hx rfl rfl (by simp [hp]) (by simp [hp]) (by simp)) hx hrun
  | returned =>
      rw [poll_returned hp]
      exact h

end Call

section Answers

/-- The flags that a request of the right length is answered with. -/
def Flagged (m r : Msg) : Prop :=
  if m.magic ≠ hilPruMagic then r.flags = errBadMagic
  else if m.version ≠ hilPruProtocolVersion then r.flags = errBadVersion
  else
    match Command.ofCode m.type with
    | none => r.flags = errBadCommand
    | some .gpioLoopback =>
        if (args m).Refused then r.flags = errInvalidArgument else r.flags = lateFlags r.arg1 r.arg2
    | some _ => r.flags = statusOk

/-- The answer goes back to the sender and carries the type and number of the request. -/
def Answers (m : Received) (r : Sent) : Prop :=
  r.src = m.dst ∧ r.dst = m.src ∧ r.msg.magic = hilPruMagic ∧ r.msg.version = hilPruProtocolVersion ∧
    if m.len ≠ sizeofMsg then r.msg.type = responseBit ∧ r.msg.seq = 0 ∧ r.msg.flags = errBadLength
    else r.msg.type = m.msg.type ||| responseBit ∧ r.msg.seq = m.msg.seq ∧ Flagged m.msg r.msg

def Valid (m : Received) : Prop :=
  m.len = sizeofMsg ∧ m.msg.magic = hilPruMagic ∧ m.msg.version = hilPruProtocolVersion

theorem answers_of_length {m : Received} (h : m.len = sizeofMsg) {r : Msg} (hmagic : r.magic = hilPruMagic)
    (hversion : r.version = hilPruProtocolVersion) (htype : r.type = m.msg.type ||| responseBit)
    (hseq : r.seq = m.msg.seq) (hflags : Flagged m.msg r) : Answers m ⟨m.dst, m.src, r⟩ := by
  refine ⟨rfl, rfl, hmagic, hversion, ?_⟩
  rw [if_neg (not_not.mpr h)]
  exact ⟨htype, hseq, hflags⟩

section Flags

variable {m r : Msg}

theorem flagged_badMagic (h : m.magic ≠ hilPruMagic) (hr : r.flags = errBadMagic) : Flagged m r := by
  rw [Flagged, if_pos h]
  exact hr

variable (hmagic : m.magic = hilPruMagic)

include hmagic

theorem flagged_badVersion (h : m.version ≠ hilPruProtocolVersion) (hr : r.flags = errBadVersion) :
    Flagged m r := by
  rw [Flagged, if_neg (not_not.mpr hmagic), if_pos h]
  exact hr

variable (hversion : m.version = hilPruProtocolVersion)

include hversion

theorem flagged_badCommand (h : Command.ofCode m.type = none) (hr : r.flags = errBadCommand) :
    Flagged m r := by
  rw [Flagged, if_neg (not_not.mpr hmagic), if_neg (not_not.mpr hversion), h]
  exact hr

theorem flagged_ok {c : Command} (h : Command.ofCode m.type = some c) (hc : c ≠ .gpioLoopback)
    (hr : r.flags = statusOk) : Flagged m r := by
  rw [Flagged, if_neg (not_not.mpr hmagic), if_neg (not_not.mpr hversion), h]
  cases c with
  | gpioLoopback => exact absurd rfl hc
  | hello | time | forceSafe | ping => exact hr

theorem flagged_loopback (h : Command.ofCode m.type = some .gpioLoopback) {r30 : BitVec 32}
    {call : Loopback} (hcall : Sound (args m) r30 call) (hret : call.phase = .returned)
    (hr : r.flags = call.status) (hrise : r.arg1 = call.observedRise) (hfall : r.arg2 = call.observedFall) :
    Flagged m r := by
  rw [Flagged, if_neg (not_not.mpr hmagic), if_neg (not_not.mpr hversion), h]
  dsimp only
  split_ifs with hx
  · exact hr.trans (hcall.refused hx).2
  · rw [hr, hrise, hfall]
    exact hcall.done hx hret

end Flags

/-- What holds of the request in hand and of the answer being made. -/
def Ready (s : Service) : Prop :=
  match s.place with
  | .dispatch => Valid s.rx ∧ s.tx = clearResponse s.rx.msg.type s.rx.msg.seq
  | .stamp =>
      Valid s.rx ∧ s.tx = clearResponse s.rx.msg.type s.rx.msg.seq ∧
        Command.ofCode s.rx.msg.type ≠ none ∧ Command.ofCode s.rx.msg.type ≠ some .gpioLoopback
  | .loopback x call =>
      Valid s.rx ∧ s.tx = clearResponse s.rx.msg.type s.rx.msg.seq ∧
        Command.ofCode s.rx.msg.type = some .gpioLoopback ∧ x = args s.rx.msg ∧ Sound x s.r30 call
  | .send => Answers s.rx ⟨s.rx.dst, s.rx.src, s.tx⟩
  | .driver | .init | .halted | .channel | .connected | .head | .drain => True

def inHand (s : Service) : List Received :=
  match s.place with
  | .dispatch | .stamp | .loopback _ _ | .send => [s.rx]
  | .driver | .init | .halted | .channel | .connected | .head | .drain => []

/-- The messages taken are those answered, in order, and the one in hand. -/
def Kept (s : Service) : Prop :=
  ∃ answered, s.taken = answered ++ inHand s ∧ List.Forall₂ Answers answered s.sent

structure Invariant (r30 : BitVec 32) (s : Service) : Prop where
  safe : s.r30 &&& loopbackOutMask = 0
  others : s.r30 &&& ~~~loopbackOutMask = r30 &&& ~~~loopbackOutMask
  ready : Ready s
  kept : Kept s

theorem check_ready (s : Service) : Ready (s.check s.rx) := by
  rw [Service.check]
  split_ifs with hlen hmagic hversion
  · refine ⟨rfl, rfl, rfl, rfl, ?_⟩
    rw [if_pos hlen]
    exact ⟨by simp [clearResponse], rfl, rfl⟩
  · exact answers_of_length (not_not.mp hlen) rfl rfl rfl rfl (flagged_badMagic hmagic rfl)
  · exact answers_of_length (not_not.mp hlen) rfl rfl rfl rfl
      (flagged_badVersion (not_not.mp hmagic) hversion rfl)
  · exact ⟨⟨not_not.mp hlen, not_not.mp hmagic, not_not.mp hversion⟩, rfl⟩

theorem check_kept (s : Service) {m : Received} (hrx : s.rx = m) :
    inHand (s.check m) = [m] ∧ (s.check m).taken = s.taken ∧ (s.check m).sent = s.sent ∧
      (s.check m).r30 = s.r30 ∧ (s.check m).rx = m := by
  rw [Service.check]
  split_ifs <;> exact ⟨congrArg (fun m => [m]) hrx, rfl, rfl, rfl, hrx⟩

theorem dispatch_kept (s : Service) :
    inHand s.dispatch = [s.rx] ∧ s.dispatch.taken = s.taken ∧ s.dispatch.sent = s.sent := by
  rw [Service.dispatch]
  split <;> exact ⟨rfl, rfl, rfl⟩

theorem dispatch_ready {s : Service} (hvalid : Valid s.rx)
    (htx : s.tx = clearResponse s.rx.msg.type s.rx.msg.seq) : Ready s.dispatch := by
  obtain ⟨hlen, hmagic, hversion⟩ := hvalid
  cases hc : Command.ofCode s.rx.msg.type with
  | none =>
      simp only [Service.dispatch, hc]
      exact answers_of_length hlen (by simp [htx, clearResponse]) (by simp [htx, clearResponse])
        (by simp [htx, clearResponse]) (by simp [htx, clearResponse])
        (flagged_badCommand hmagic hversion hc rfl)
  | some c =>
      cases c with
      | hello =>
          simp only [Service.dispatch, hc]
          exact answers_of_length hlen (by simp [htx, clearResponse]) (by simp [htx, clearResponse])
            (by simp [htx, clearResponse]) (by simp [htx, clearResponse])
            (flagged_ok hmagic hversion hc (by simp) (by simp [htx, clearResponse]))
      | time | ping | forceSafe =>
          simp only [Service.dispatch, hc]
          exact ⟨⟨hlen, hmagic, hversion⟩, htx, by simp [Service.forceSafe, hc],
            by simp [Service.forceSafe, hc]⟩
      | gpioLoopback =>
          simp only [Service.dispatch, hc]
          exact ⟨⟨hlen, hmagic, hversion⟩, htx, hc, rfl, sound_start _ _⟩

end Answers

section Steps

variable {r30 : BitVec 32} {s s' : Service}

theorem invariant_boot (r30 : BitVec 32) : Invariant r30 (Service.boot r30) :=
  ⟨lowered_mask r30, and_not_idem r30 _, trivial, [], rfl, .nil⟩

/-- A step that leaves the pin or lowers it, and neither takes nor sends a message. -/
theorem Invariant.move (h : Invariant r30 s)
    (hr30 : s'.r30 = s.r30 ∨ s'.r30 = s.r30 &&& ~~~loopbackOutMask) (htaken : s'.taken = s.taken)
    (hsent : s'.sent = s.sent) (hready : Ready s') (hhand : inHand s' = inHand s) : Invariant r30 s' := by
  have hkept : Kept s' := by
    rw [Kept, htaken, hsent, hhand]
    exact h.kept
  rcases hr30 with hr30 | hr30
  · exact ⟨hr30 ▸ h.safe, hr30 ▸ h.others, hready, hkept⟩
  · refine ⟨?_, ?_, hready, hkept⟩
    · rw [hr30, lowered_mask]
    · rw [hr30, and_not_idem]
      exact h.others

theorem Invariant.dispatch (h : Invariant r30 s) (hp : s.place = .dispatch) (now : BitVec 32) :
    Invariant r30 (Service.dispatch { s with lastHostTick := now }) := by
  have hready := h.ready
  rw [Ready, hp] at hready
  obtain ⟨hhand, htaken, hsent⟩ := dispatch_kept { s with lastHostTick := now }
  refine h.move ?_ htaken hsent (dispatch_ready hready.1 hready.2) ?_
  · rw [Service.dispatch]
    split
    case h_5 => exact Or.inr rfl
    all_goals exact Or.inl rfl
  · rw [hhand, inHand, hp]

theorem Invariant.stamp (h : Invariant r30 s) (hp : s.place = .stamp) (now : BitVec 32) :
    Invariant r30 (s.stamp now) := by
  have hready := h.ready
  rw [Ready, hp] at hready
  obtain ⟨⟨hlen, hmagic, hversion⟩, htx, hsome, hother⟩ := hready
  refine h.move (Or.inl rfl) rfl rfl ?_ (by rw [inHand, inHand, hp]; rfl)
  obtain ⟨c, hc⟩ := Option.ne_none_iff_exists'.mp hsome
  have hflags : (s.stamp now).tx.flags = statusOk := by
    rw [Service.stamp]
    split_ifs <;> simp [htx, clearResponse]
  have hheader : (s.stamp now).tx.magic = hilPruMagic ∧ (s.stamp now).tx.version = hilPruProtocolVersion ∧
      (s.stamp now).tx.type = s.rx.msg.type ||| responseBit ∧ (s.stamp now).tx.seq = s.rx.msg.seq := by
    rw [Service.stamp]
    split_ifs <;> simp [htx, clearResponse]
  exact answers_of_length hlen hheader.1 hheader.2.1 hheader.2.2.1 hheader.2.2.2
    (flagged_ok hmagic hversion hc (fun hl => hother (hl ▸ hc)) hflags)

theorem Invariant.report (h : Invariant r30 s) {x : Args} {call : Loopback}
    (hp : s.place = .loopback x call) (hret : call.phase = .returned) (now : BitVec 32) :
    Invariant r30 (s.report call now) := by
  have hready := h.ready
  rw [Ready, hp] at hready
  obtain ⟨⟨hlen, hmagic, hversion⟩, htx, hc, rfl, hcall⟩ := hready
  obtain ⟨answered, htaken, hall⟩ := h.kept
  rw [inHand, hp] at htaken
  refine ⟨?_, hcall.others.trans h.others, ?_, answered, htaken, hall⟩
  · exact not_not.mp (fun hne => by cases (hcall.high.mp hne).symm.trans hret)
  · exact answers_of_length hlen (by simp [Service.report, htx, clearResponse])
      (by simp [Service.report, htx, clearResponse]) (by simp [Service.report, htx, clearResponse])
      (by simp [Service.report, htx, clearResponse])
      (flagged_loopback hmagic hversion hc hcall hret rfl rfl rfl)

theorem Invariant.poll (h : Invariant r30 s) {x : Args} {call : Loopback}
    (hp : s.place = .loopback x call) (i : Reading) :
    Invariant r30 { s with place := .loopback x (call.poll x i) } := by
  have hready := h.ready
  rw [Ready, hp] at hready
  obtain ⟨hvalid, htx, hc, hx, hcall⟩ := hready
  exact h.move (Or.inl rfl) rfl rfl ⟨hvalid, htx, hc, hx, sound_poll hcall i⟩ (by rw [inHand, inHand, hp])

theorem Invariant.take (h : Invariant r30 s) (hp : s.place = .drain) (m : Received) :
    Invariant r30 (Service.check { s with rx := m, taken := s.taken ++ [m] } m) := by
  obtain ⟨hhand, htaken, hsent, hr30, -⟩ := check_kept { s with rx := m, taken := s.taken ++ [m] } rfl
  obtain ⟨answered, hall, hanswers⟩ := h.kept
  rw [inHand, hp, List.append_nil] at hall
  refine ⟨by rw [hr30]; exact h.safe, by rw [hr30]; exact h.others, check_ready _, answered, ?_, ?_⟩
  · rw [htaken, hhand, hall]
  · rw [hsent]
    exact hanswers

theorem Invariant.send (h : Invariant r30 s) (hp : s.place = .send) :
    Invariant r30 { s with sent := s.sent ++ [⟨s.rx.dst, s.rx.src, s.tx⟩], place := .drain } := by
  have hready := h.ready
  rw [Ready, hp] at hready
  obtain ⟨answered, hall, hanswers⟩ := h.kept
  rw [inHand, hp] at hall
  refine ⟨h.safe, h.others, trivial, answered ++ [s.rx], ?_, ?_⟩
  · rw [inHand, List.append_nil]
    exact hall
  · exact List.rel_append hanswers (.cons hready .nil)

theorem Invariant.head (h : Invariant r30 s) (hp : s.place = .head) (late request : Prop)
    [Decidable late] [Decidable request] :
    Invariant r30 (if request then { (if late then s.forceSafe else s) with place := .drain }
      else if late then s.forceSafe else s) := by
  have hready : Ready s.forceSafe := by simp [Ready, Service.forceSafe, hp]
  have hhand : inHand s.forceSafe = inHand s := rfl
  by_cases hlate : late <;> by_cases hrequest : request <;> simp only [hlate, hrequest, if_true, if_false]
  · exact h.move (Or.inr rfl) rfl rfl trivial (by rw [inHand, inHand, hp])
  · exact h.move (Or.inr rfl) rfl rfl hready hhand
  · exact h.move (Or.inl rfl) rfl rfl trivial (by rw [inHand, inHand, hp])
  · exact h

theorem invariant_step (h : Invariant r30 s) (i : Input) : Invariant r30 (s.step i) := by
  cases hp : s.place with
  | driver =>
      simp only [Service.step, hp]
      split_ifs
      · exact h.move (Or.inl rfl) rfl rfl trivial (by rw [inHand, inHand, hp])
      · exact h.move (Or.inr rfl) rfl rfl (by simp [Ready, Service.forceSafe, hp])
          (by simp [inHand, Service.forceSafe, hp])
  | init =>
      simp only [Service.step, hp]
      split_ifs
      · exact h.move (Or.inl rfl) rfl rfl trivial (by rw [inHand, inHand, hp])
      · exact h.move (Or.inr rfl) rfl rfl trivial (by rw [inHand, inHand, hp])
  | halted =>
      simp only [Service.step, hp]
      exact h
  | channel =>
      simp only [Service.step, hp]
      split_ifs
      · exact h.move (Or.inl rfl) rfl rfl trivial (by rw [inHand, inHand, hp])
      · exact h.move (Or.inr rfl) rfl rfl (by simp [Ready, Service.forceSafe, hp])
          (by simp [inHand, Service.forceSafe, hp])
  | connected =>
      simp only [Service.step, hp]
      exact h.move (Or.inl rfl) rfl rfl trivial (by rw [inHand, inHand, hp])
  | head =>
      simp only [Service.step, hp]
      exact h.head hp _ _
  | drain =>
      simp only [Service.step, hp]
      cases i.message with
      | none => exact h.move (Or.inl rfl) rfl rfl trivial (by rw [inHand, inHand, hp])
      | some m => exact h.take hp m
  | dispatch =>
      simp only [Service.step, hp]
      exact h.dispatch hp i.now
  | stamp =>
      simp only [Service.step, hp]
      exact h.stamp hp i.now
  | loopback x call =>
      simp only [Service.step, hp]
      split_ifs with hret
      · exact h.report hp hret i.now
      · exact h.poll hp ⟨i.now, i.r31⟩
  | send =>
      simp only [Service.step, hp]
      exact h.send hp

end Steps

section Progress

variable {r30 : BitVec 32} {x : Nat → Input} {T : Nat → Nat}

def serviceAt (r30 : BitVec 32) (x : Nat → Input) (n : Nat) : Service :=
  wave Service.step (Service.boot r30) x n

theorem serviceAt_succ (n : Nat) : serviceAt r30 x (n + 1) = (serviceAt r30 x n).step (x n) := rfl

theorem invariant_serviceAt (n : Nat) : Invariant r30 (serviceAt r30 x n) :=
  wave_invariant (invariant_boot r30) (fun _ i h => invariant_step h i) x n

/-- The request in hand at step n comes to be answered. -/
def Settles (r30 : BitVec 32) (x : Nat → Input) (n : Nat) : Prop :=
  ∃ m, n ≤ m ∧ (serviceAt r30 x m).place = .send ∧ (serviceAt r30 x m).taken = (serviceAt r30 x n).taken

theorem settles_of_send {n : Nat} (h : (serviceAt r30 x n).place = .send) : Settles r30 x n :=
  ⟨n, Nat.le_refl n, h, rfl⟩

theorem settles_of_next {n : Nat} (h : Settles r30 x (n + 1))
    (ht : (serviceAt r30 x (n + 1)).taken = (serviceAt r30 x n).taken) : Settles r30 x n := by
  obtain ⟨m, hm, hplace, htaken⟩ := h
  exact ⟨m, Nat.le_of_succ_le hm, hplace, htaken.trans ht⟩

theorem settles_of_stamp {n : Nat} (h : (serviceAt r30 x n).place = .stamp) : Settles r30 x n := by
  have hstep : serviceAt r30 x (n + 1) = (serviceAt r30 x n).stamp (x n).now := by
    simp only [serviceAt_succ, Service.step, h]
  exact settles_of_next (settles_of_send (by rw [hstep]; rfl)) (by rw [hstep]; rfl)

section Counter

variable (hx : ∀ n, (x n).now = tick T n)

include hx

theorem serviceAt_call {k : Nat} {a : Args} {r : BitVec 32}
    (hk : (serviceAt r30 x k).place = .loopback a (Loopback.start a r)) (j : Nat)
    (hrun : ∀ i, i < j →
      (run a (fun n => T (k + n)) (fun n => (x (k + n)).r31) r i).phase ≠ .returned) :
    serviceAt r30 x (k + j) =
      { serviceAt r30 x k with
        place := .loopback a (run a (fun n => T (k + n)) (fun n => (x (k + n)).r31) r j) } := by
  induction j with
  | zero =>
      have hzero : run a (fun n => T (k + n)) (fun n => (x (k + n)).r31) r 0 = Loopback.start a r := rfl
      rw [hzero, ← hk]
      rfl
  | succ j ih =>
      have hj := hrun j (Nat.lt_succ_self j)
      rw [← Nat.add_assoc, serviceAt_succ, ih (fun i hi => hrun i (Nat.lt_succ_of_lt hi))]
      simp only [Service.step, if_neg hj, run_succ, hx]
      rfl

theorem settles_of_loopback (hT : Steady T) {k : Nat} {a : Args} {r : BitVec 32}
    (hk : (serviceAt r30 x k).place = .loopback a (Loopback.start a r)) : Settles r30 x k := by
  have hshift : Steady (fun n => T (k + n)) := fun n => hT (k + n)
  obtain ⟨N, hN⟩ := @run_returns _ (fun n => (x (k + n)).r31) r a hshift
  obtain ⟨j, hj⟩ := exists_firstAt (p := fun n =>
    (run a (fun n => T (k + n)) (fun n => (x (k + n)).r31) r n).phase = .returned)
    (hN N (Nat.le_refl N)).1
  have hcall := serviceAt_call hx hk j (fun i hi hret => hj.none i hi hret)
  have hstep : serviceAt r30 x (k + j + 1) = (serviceAt r30 x (k + j)).report
      (run a (fun n => T (k + n)) (fun n => (x (k + n)).r31) r j) (x (k + j)).now := by
    rw [serviceAt_succ, hcall]
    simp only [Service.step, if_pos hj.holds]
  refine ⟨k + j + 1, by omega, by rw [hstep]; rfl, ?_⟩
  rw [hstep, hcall]
  rfl

theorem settles_of_dispatch (hT : Steady T) {n : Nat} (h : (serviceAt r30 x n).place = .dispatch) :
    Settles r30 x n := by
  have hstep : serviceAt r30 x (n + 1) =
      Service.dispatch { serviceAt r30 x n with lastHostTick := (x n).now } := by
    simp only [serviceAt_succ, Service.step, h]
  have htaken : (serviceAt r30 x (n + 1)).taken = (serviceAt r30 x n).taken := by
    rw [hstep]
    exact (dispatch_kept _).2.1
  refine settles_of_next ?_ htaken
  cases hc : Command.ofCode (serviceAt r30 x n).rx.msg.type with
  | none => exact settles_of_send (by simp only [hstep, Service.dispatch, hc])
  | some c =>
      cases c with
      | hello => exact settles_of_send (by simp only [hstep, Service.dispatch, hc])
      | time | ping | forceSafe => exact settles_of_stamp (by simp only [hstep, Service.dispatch, hc])
      | gpioLoopback =>
          have hstart : (serviceAt r30 x (n + 1)).place =
              .loopback (args (serviceAt r30 x n).rx.msg)
                (Loopback.start (args (serviceAt r30 x n).rx.msg) (serviceAt r30 x n).r30) := by
            simp only [hstep, Service.dispatch, hc]
          exact settles_of_loopback hx hT hstart

theorem settles_of_take (hT : Steady T) {n : Nat} {m : Received}
    (h : (serviceAt r30 x n).place = .drain) (hm : (x n).message = some m) : Settles r30 x (n + 1) := by
  have hstep : serviceAt r30 x (n + 1) = Service.check
      { serviceAt r30 x n with rx := m, taken := (serviceAt r30 x n).taken ++ [m] } m := by
    simp only [serviceAt_succ, Service.step, h, hm]
  have hplace : (serviceAt r30 x (n + 1)).place = .send ∨ (serviceAt r30 x (n + 1)).place = .dispatch := by
    rw [hstep, Service.check]
    split_ifs <;> simp
  rcases hplace with hsend | hdispatch
  · exact settles_of_send hsend
  · exact settles_of_dispatch hx hT hdispatch

end Counter

theorem Settles.answered {n : Nat} (h : Settles r30 x n) :
    ∃ m, n < m ∧ List.Forall₂ Answers (serviceAt r30 x n).taken (serviceAt r30 x m).sent := by
  obtain ⟨m, hm, hplace, htaken⟩ := h
  have hstep : serviceAt r30 x (m + 1) =
      { serviceAt r30 x m with
        sent := (serviceAt r30 x m).sent ++
          [⟨(serviceAt r30 x m).rx.dst, (serviceAt r30 x m).rx.src, (serviceAt r30 x m).tx⟩]
        place := .drain } := by
    simp only [serviceAt_succ, Service.step, hplace]
  obtain ⟨answered, hall, hanswers⟩ := (@invariant_serviceAt r30 x (m + 1)).kept
  rw [hstep, inHand, List.append_nil] at hall
  refine ⟨m + 1, Nat.lt_succ_of_le hm, ?_⟩
  rw [← htaken]
  exact hall ▸ hanswers

/-- Only a call that was asked for and let through drives the loopback pin, in its high phase;
no other pin of R30 is touched. -/
theorem outputs_serviceAt (n : Nat) :
    (serviceAt r30 x n).outputs &&& ~~~loopbackOutMask = r30 &&& ~~~loopbackOutMask ∧
      ((serviceAt r30 x n).outputs &&& loopbackOutMask ≠ 0 →
        Valid (serviceAt r30 x n).rx ∧
          Command.ofCode (serviceAt r30 x n).rx.msg.type = some .gpioLoopback ∧
          ¬(args (serviceAt r30 x n).rx.msg).Refused ∧
          ∃ call, (serviceAt r30 x n).place = .loopback (args (serviceAt r30 x n).rx.msg) call ∧
            call.phase = .high) := by
  have hinv : Invariant r30 (serviceAt r30 x n) := invariant_serviceAt n
  generalize serviceAt r30 x n = s at hinv
  have hready := hinv.ready
  cases hp : s.place with
  | loopback a call =>
      rw [Ready, hp] at hready
      obtain ⟨hvalid, -, hc, rfl, hcall⟩ := hready
      simp only [Service.outputs, hp]
      refine ⟨hcall.others.trans hinv.others, fun hout => ?_⟩
      have hhigh := hcall.high.mp hout
      refine ⟨hvalid, hc, fun hx => ?_, call, rfl, hhigh⟩
      cases hhigh.symm.trans (hcall.refused hx).1
  | _ =>
      simp only [Service.outputs, hp]
      exact ⟨hinv.others, fun hout => absurd hinv.safe hout⟩

/-- Whatever the counter, the pins, the transport and the host do: the firmware drives its pin for
an accepted loopback only, and sends one answer for each message it takes, in order, to its
sender; and where the counter runs steadily, every message that is taken gets its answer. -/
theorem service_answers (r30 : BitVec 32) (x : Nat → Input) :
    (∀ n, (serviceAt r30 x n).outputs &&& ~~~loopbackOutMask = r30 &&& ~~~loopbackOutMask ∧
      ((serviceAt r30 x n).outputs &&& loopbackOutMask ≠ 0 →
        Valid (serviceAt r30 x n).rx ∧
          Command.ofCode (serviceAt r30 x n).rx.msg.type = some .gpioLoopback ∧
          ¬(args (serviceAt r30 x n).rx.msg).Refused ∧
          ∃ call, (serviceAt r30 x n).place = .loopback (args (serviceAt r30 x n).rx.msg) call ∧
            call.phase = .high)) ∧
    (∀ n, ∃ answered, (serviceAt r30 x n).taken = answered ++ inHand (serviceAt r30 x n) ∧
      List.Forall₂ Answers answered (serviceAt r30 x n).sent) ∧
    (∀ T, Steady T → (∀ n, (x n).now = tick T n) → ∀ n m, (serviceAt r30 x n).place = .drain →
      (x n).message = some m → ∃ k, n < k ∧
        List.Forall₂ Answers (serviceAt r30 x (n + 1)).taken (serviceAt r30 x k).sent) := by
  refine ⟨fun n => outputs_serviceAt n, fun n => (invariant_serviceAt n).kept,
    fun T hT hx n m hp hm => ?_⟩
  obtain ⟨k, hk, hanswers⟩ := (settles_of_take hx hT hp hm).answered
  exact ⟨k, Nat.lt_of_succ_lt hk, hanswers⟩

/-- A host that asks for a pulse as soon as the firmware is up. -/
def samplePulse (n : Nat) : Input :=
  { now := tick id n, r31 := hostInt, driverOk := true, transportOk := true
    message := some ⟨1024, 30, sizeofMsg, ⟨hilPruMagic, 1, 3, 7, 0, 2000, 1000, 1000, 0⟩⟩ }

theorem steady_id : Steady id := fun n => ⟨Nat.lt_succ_self n, Nat.add_lt_add_left (by decide) n⟩

theorem service_answers_pulse : ∃ k, 5 < k ∧
    List.Forall₂ Answers (serviceAt 0 samplePulse 6).taken (serviceAt 0 samplePulse k).sent :=
  (service_answers 0 samplePulse).2.2 id steady_id (fun _ => rfl) 5 _ rfl rfl

end Progress

end HilLab.Pru.LoopbackService
