import HilLab.Host.PruProtocol
import HilLab.Lib.Effect

namespace HilLab.Host.Rpmsg

open Host.Core PruProtocol Lib.Effect Lib.LittleEndian

/-- What the kernel and the PRU do in one request: the payloads that come in
until poll returns, the error of write or how many trailing bytes it leaves,
the error bits of poll, the error of read. -/
structure Exchange where
  arrivals : List Payload := []
  write : Except String Nat := .ok 0
  pollErr : Bool := false
  pollHup : Bool := false
  read : Option String := none

/-- A HilPru with its character device: the payloads waiting to be read, and
the packets the device took. -/
structure HilPru where
  timeoutMs : Nat := 1000
  seq : Nat := 1
  queue : List Payload := []
  sent : List Payload := []

structure Args where
  arg0 : Int := 0
  arg1 : Int := 0
  arg2 : Int := 0
  arg3 : Int := 0

def pollin : Nat := 0x001
def pollerr : Nat := 0x008
def pollhup : Nat := 0x010

namespace HilPru

def osWrite (x : Exchange) (packet : Payload) : Eff HilPru HostError Nat :=
  match x.write with
  | .error text => throw (.osError text)
  | .ok lost => do
      let taken := packet.take (packet.length - lost)
      modify (fun link => { link with sent := link.sent ++ [taken] })
      return taken.length

def poll (x : Exchange) (link : HilPru) : Nat :=
  (if link.queue = [] then 0 else pollin) ||| (if x.pollErr then pollerr else 0) |||
    (if x.pollHup then pollhup else 0)

def osRead (x : Exchange) : Eff HilPru HostError Payload :=
  match x.read with
  | some text => throw (.osError text)
  | none => do
      let link ← get
      set { link with queue := link.queue.tail }
      return (link.queue.headD []).take 512

def checkWritten (written length : Nat) : Except HostError Unit :=
  if written ≠ length then .error (.runtimeError s!"short RPMsg write: {written}/{length}")
  else .ok ()

def checkEvents (timeoutMs mask : Nat) : Except HostError Unit :=
  if mask = 0 then .error (.timeoutError s!"RPMsg response timeout after {timeoutMs} ms")
  else if mask &&& (pollerr ||| pollhup) ≠ 0 then
    .error (.runtimeError s!"RPMsg device error: event mask=0x{hexPad 0 mask}")
  else .ok ()

def message (type seq : Nat) (args : Args) : Message :=
  { type, seq, arg0 := args.arg0, arg1 := args.arg1, arg2 := args.arg2, arg3 := args.arg3 }

/-- The first half of HilPru.request. The sequence number is used up whatever
happens next; the exchange is the one of that number. -/
def transmit (wire : Nat → Exchange) (type : Nat) (args : Args) : Eff HilPru HostError Nat := do
  let link ← get
  let x := wire link.seq
  set { link with seq := link.seq + 1, queue := link.queue ++ x.arrivals }
  let packet ← liftExcept (message type link.seq args).pack
  let written ← osWrite x packet
  liftExcept (checkWritten written packet.length)
  return link.seq

/-- The second half: the payload at the head of the queue is read as the answer. -/
def receive (x : Exchange) (type seq : Nat) : Eff HilPru HostError Message := do
  let link ← get
  liftExcept (checkEvents link.timeoutMs (link.poll x))
  let payload ← osRead x
  let response ← liftExcept (Message.unpack payload)
  liftExcept (response.validateResponse type seq)
  return response

def request (wire : Nat → Exchange) (type : Nat) (args : Args) : Eff HilPru HostError Message := do
  let seq ← transmit wire type args
  receive (wire seq) type seq

def numbered (link : HilPru) (x : Exchange) : HilPru :=
  { link with seq := link.seq + 1, queue := link.queue ++ x.arrivals }

section Transmit

variable {wire : Nat → Exchange} {type : Nat} {args : Args} {link : HilPru} {packet : Payload}

theorem transmit_pack_error {e : HostError} (h : (message type link.seq args).pack = .error e) :
    exec (transmit wire type args) link = (.error e, link.numbered (wire link.seq)) := by
  simp [transmit, exec_bind, h, numbered]

theorem transmit_write_error (h : (message type link.seq args).pack = .ok packet) {text : String}
    (hw : (wire link.seq).write = .error text) :
    exec (transmit wire type args) link =
      (.error (.osError text), link.numbered (wire link.seq)) := by
  simp [transmit, exec_bind, h, osWrite, hw, numbered]

theorem transmit_write (h : (message type link.seq args).pack = .ok packet) {lost : Nat}
    (hw : (wire link.seq).write = .ok lost) :
    exec (transmit wire type args) link =
      ((checkWritten (packet.length - lost) packet.length).map (fun _ => link.seq),
        { link.numbered (wire link.seq) with
          sent := link.sent ++ [packet.take (packet.length - lost)] }) := by
  have hlen : (packet.take (packet.length - lost)).length = packet.length - lost := by
    rw [List.length_take]
    omega
  simp only [transmit, exec_bind, exec_get, exec_set, exec_liftExcept, h, osWrite, hw, exec_modify,
    exec_pure, hlen, numbered]
  cases checkWritten (packet.length - lost) packet.length <;> rfl

end Transmit

section Receive

variable {x : Exchange} {type seq : Nat} {link : HilPru}

/-- What a payload says when it is read as the answer to a request. -/
def parse (type seq : Nat) (payload : Payload) : Except HostError Message := do
  let response ← Message.unpack (payload.take 512)
  response.validateResponse type seq
  return response

theorem checkEvents_ok_iff :
    checkEvents link.timeoutMs (link.poll x) = .ok () ↔
      x.pollErr = false ∧ x.pollHup = false ∧ link.queue ≠ [] := by
  by_cases hq : link.queue = [] <;> cases he : x.pollErr <;> cases hh : x.pollHup <;>
    simp [poll, hq, he, hh, checkEvents, pollin, pollerr, pollhup]

theorem receive_events_error {e : HostError}
    (h : checkEvents link.timeoutMs (link.poll x) = .error e) :
    exec (receive x type seq) link = (.error e, link) := by
  simp only [receive, exec_bind, exec_get, exec_liftExcept, h]

theorem receive_read_error (h : checkEvents link.timeoutMs (link.poll x) = .ok ()) {text : String}
    (hr : x.read = some text) :
    exec (receive x type seq) link = (.error (.osError text), link) := by
  simp only [receive, exec_bind, exec_get, exec_liftExcept, h, osRead, hr, exec_throw]

theorem receive_payload (he : x.pollErr = false) (hh : x.pollHup = false) (hr : x.read = none)
    {payload : Payload} {rest : List Payload} (hq : link.queue = payload :: rest) :
    exec (receive x type seq) link = (parse type seq payload, { link with queue := rest }) := by
  have hc : checkEvents link.timeoutMs (link.poll x) = .ok () :=
    checkEvents_ok_iff.mpr ⟨he, hh, by rw [hq]; exact List.cons_ne_nil _ _⟩
  simp only [receive, exec_bind, exec_get, exec_set, exec_liftExcept, exec_pure, hc, osRead, hr, hq,
    List.headD_cons, List.tail_cons, parse]
  cases Message.unpack (payload.take 512) with
  | error e => rfl
  | ok response =>
      dsimp only
      cases hv : response.validateResponse type seq <;> simp [hv, bind, Except.bind, pure, Except.pure]

variable (x type seq link) in
theorem receive_cases :
    (∃ e, exec (receive x type seq) link = (.error e, link) ∧
      ¬ (x.pollErr = false ∧ x.pollHup = false ∧ x.read = none ∧ link.queue ≠ [])) ∨
    (x.pollErr = false ∧ x.pollHup = false ∧ x.read = none ∧ ∃ payload rest,
      link.queue = payload :: rest ∧
        exec (receive x type seq) link = (parse type seq payload, { link with queue := rest })) := by
  cases hc : checkEvents link.timeoutMs (link.poll x) with
  | error e =>
      refine .inl ⟨e, receive_events_error hc, fun ⟨he, hh, _, hq⟩ => ?_⟩
      rw [checkEvents_ok_iff.mpr ⟨he, hh, hq⟩] at hc
      cases hc
  | ok _ =>
      obtain ⟨he, hh, hne⟩ := checkEvents_ok_iff.mp hc
      cases hr : x.read with
      | some text =>
          refine .inl ⟨.osError text, receive_read_error hc hr, fun ⟨_, _, hnone, _⟩ => ?_⟩
          cases hnone
      | none =>
          obtain ⟨payload, rest, hq⟩ := List.exists_cons_of_ne_nil hne
          exact .inr ⟨he, hh, rfl, payload, rest, hq, receive_payload he hh hr hq⟩

theorem receive_sent : (exec (receive x type seq) link).2.sent = link.sent := by
  rcases receive_cases x type seq link with ⟨e, h, _⟩ | ⟨_, _, _, payload, rest, _, h⟩
  all_goals rw [h]

/-- The head of the queue answers the request. -/
def Answers (x : Exchange) (queue : List Payload) (type seq : Nat) (response : Message) : Prop :=
  x.pollErr = false ∧ x.pollHup = false ∧ x.read = none ∧
    ∃ payload ∈ queue.head?, parse type seq payload = .ok response

theorem receive_ok_iff {response : Message} :
    (exec (receive x type seq) link).1 = .ok response ↔ Answers x link.queue type seq response := by
  rcases receive_cases x type seq link with ⟨e, h, hnot⟩ | ⟨he, hh, hr, payload, rest, hq, h⟩
  · rw [h]
    refine ⟨fun heq => (by cases heq), fun ⟨he, hh, hr, payload, hp, _⟩ => ?_⟩
    refine absurd ⟨he, hh, hr, ?_⟩ hnot
    rintro hq
    rw [hq] at hp
    cases hp
  · rw [h]
    simp [Answers, he, hh, hr, hq]

end Receive

section Request

variable {wire : Nat → Exchange} {type : Nat} {args : Args} {link : HilPru}

/-- The request goes out whole: struct takes its fields and the device takes
every byte. -/
def Transmits (wire : Nat → Exchange) (type : Nat) (args : Args) (link : HilPru) : Prop :=
  (message type link.seq args).Packs ∧ (wire link.seq).write = .ok 0

theorem transmit_ok (h : Transmits wire type args link) :
    exec (transmit wire type args) link =
      (.ok link.seq, { link.numbered (wire link.seq) with
        sent := link.sent ++ [(message type link.seq args).packet] }) := by
  rw [transmit_write (Message.pack_ok h.1) h.2]
  simp [checkWritten, Except.map]

theorem transmit_fails (h : ¬ Transmits wire type args link) :
    ∃ e new, exec (transmit wire type args) link =
        (.error e, { link.numbered (wire link.seq) with sent := link.sent ++ new }) ∧
      ∀ p ∈ new, ∃ e', Message.unpack p = .error e' := by
  by_cases hp : (message type link.seq args).Packs
  · cases hw : (wire link.seq).write with
    | error text =>
        refine ⟨.osError text, [], ?_, fun p hp => absurd hp List.not_mem_nil⟩
        rw [transmit_write_error (Message.pack_ok hp) hw, List.append_nil]
        rfl
    | ok lost =>
        have hlost : lost ≠ 0 := fun h0 => h ⟨hp, by rw [hw, h0]⟩
        have hlen := Message.length_packet hp
        have hpos : 0 < wireSize := by decide
        have hshort : wireSize - lost ≠ wireSize := by omega
        refine ⟨.runtimeError s!"short RPMsg write: {wireSize - lost}/{wireSize}",
          [(message type link.seq args).packet.take (wireSize - lost)], ?_, ?_⟩
        · rw [transmit_write (Message.pack_ok hp) hw, hlen, checkWritten, if_pos hshort]
          rfl
        · intro p hmem
          rw [List.mem_singleton.mp hmem]
          refine Message.unpack_short ?_
          rw [List.length_take, hlen]
          omega
  · obtain ⟨e, he⟩ := Message.pack_error hp
    refine ⟨e, [], ?_, fun p hp => absurd hp List.not_mem_nil⟩
    rw [transmit_pack_error he, List.append_nil]
    rfl

/-- A request of the type came out of the link between the two states. -/
def Requested (type : Nat) (before after : HilPru) : Prop :=
  ∃ new, after.sent = before.sent ++ new ∧ ∃ p ∈ new, ∃ m,
    Message.unpack p = .ok m ∧ m.magic = PruProtocol.magic ∧ m.type = type

theorem not_requested_of_sent {before after : HilPru} (h : after.sent = before.sent) :
    ¬ Requested type before after := by
  rintro ⟨new, hnew, p, hp, _⟩
  rw [h, List.self_eq_append_right] at hnew
  rw [hnew] at hp
  cases hp

theorem requested_iff :
    Requested type link (exec (request wire type args) link).2 ↔ Transmits wire type args link := by
  constructor
  · rintro ⟨new, hnew, p, hp, m, hm, _⟩
    by_contra h
    obtain ⟨e, new', hexec, hbad⟩ := transmit_fails h
    rw [request, exec_bind_error hexec] at hnew
    rw [← List.append_cancel_left hnew] at hp
    obtain ⟨e', he'⟩ := hbad p hp
    rw [hm] at he'
    cases he'
  · intro h
    refine ⟨[(message type link.seq args).packet], ?_, _, List.mem_singleton_self _,
      message type link.seq args, Message.unpack_packet h.1, rfl, rfl⟩
    rw [request, exec_bind_ok (transmit_ok h), receive_sent]

theorem request_ok_iff {response : Message} :
    (exec (request wire type args) link).1 = .ok response ↔
      Transmits wire type args link ∧
        Answers (wire link.seq) (link.queue ++ (wire link.seq).arrivals) type link.seq response := by
  by_cases h : Transmits wire type args link
  · rw [request, exec_bind_ok (transmit_ok h), receive_ok_iff]
    exact ⟨fun ha => ⟨h, ha⟩, fun ha => ha.2⟩
  · obtain ⟨e, new, hexec, _⟩ := transmit_fails h
    rw [request, exec_bind_error hexec]
    exact ⟨fun heq => (by cases heq), fun ha => absurd ha.1 h⟩

end Request

end HilPru

end HilLab.Host.Rpmsg
