import HilLab.Host.Session

namespace HilLab.Host.ForceSafe

open Host.Core PruProtocol Rpmsg HilPru BeagleBonePru Session Lib.Effect

structure Call where
  pru : Pru
  type : Nat
  args : Args := {}

def opened (timeoutMs : Nat) : Links := fun _ => { timeoutMs }

def after (wires : Wires) (links : Links) (history : List Call) : Links :=
  history.foldl (fun links call =>
    (exec (within call.pru (HilPru.request (wires call.pru) call.type call.args)) links).2) links

/-- The link can take a whole FORCE_SAFE request. -/
def Carries (wire : Nat → Exchange) (link : HilPru) : Prop :=
  link.seq < 2 ^ 32 ∧ (wire link.seq).write = .ok 0

/-- The link takes it, and the payload read next is its answer, with no status
bit set. -/
def Accepts (wire : Nat → Exchange) (link : HilPru) : Prop :=
  Carries wire link ∧ ∃ response : Message, response.flags = 0 ∧
    Answers (wire link.seq) (link.queue ++ (wire link.seq).arrivals) msgForceSafe link.seq response

section Request

variable {wire : Nat → Exchange} {link : HilPru}

theorem packs_forceSafe_iff (seq : Nat) : (message msgForceSafe seq {}).Packs ↔ seq < 2 ^ 32 := by
  simp only [Message.Packs, PruProtocol.wire, Message.fields, message, List.forall₂_cons]
  constructor
  · rintro ⟨-, -, -, hseq, -⟩
    omega
  · intro hseq
    refine ⟨by decide, by decide, by decide, ?_, by decide, by decide, by decide, by decide,
      by decide, .nil⟩
    omega

theorem carries_iff : Transmits wire msgForceSafe {} link ↔ Carries wire link :=
  and_congr_left' (packs_forceSafe_iff link.seq)

theorem accepts_iff :
    Accepts wire link ↔ ∃ response : Message,
      (exec (HilPru.request wire msgForceSafe {}) link).1 = .ok response ∧ response.flags = 0 := by
  constructor
  · rintro ⟨hc, response, hf, ha⟩
    exact ⟨response, request_ok_iff.mpr ⟨carries_iff.mpr hc, ha⟩, hf⟩
  · rintro ⟨response, hok, hf⟩
    obtain ⟨ht, ha⟩ := request_ok_iff.mp hok
    exact ⟨carries_iff.mp ht, response, hf, ha⟩

end Request

section Loop

variable {wires : Wires} {links : Links} {b : BeagleBonePruBackend}

theorem exec_forceSafe (hb : b.stimulus = true) :
    exec (b.forceSafe wires true) links =
      exec (forceSafeClients wires [.capture, .stimulus]) links := by
  have hreq : require b.capabilities .forceSafe = .ok () :=
    require_of_contract b.contract List.mem_cons_self
  have hclients : b.clients = [.capture, .stimulus] := if_pos hb
  rw [BeagleBonePruBackend.forceSafe, hreq, exec_bind_ok (exec_liftExcept _ _), if_pos rfl, hclients]

section Client

variable {c : Pru} {cs : List Pru} {r : Except HostError Message} {link : HilPru}
  (h : exec (HilPru.request (wires c) msgForceSafe {}) (links c) = (r, link))

include h

theorem exec_clients_error {e : HostError}
    (ho : outcome s!"{c.label} FORCE_SAFE" r = .error e) :
    exec (forceSafeClients wires (c :: cs)) links = (.error e, Function.update links c link) := by
  have hreq := exec_request s!"{c.label} FORCE_SAFE" h
  rw [ho] at hreq
  exact exec_bind_error hreq

theorem exec_clients_ok {response : Message}
    (ho : outcome s!"{c.label} FORCE_SAFE" r = .ok response) :
    exec (forceSafeClients wires (c :: cs)) links =
      exec (forceSafeClients wires cs) (Function.update links c link) := by
  have hreq := exec_request s!"{c.label} FORCE_SAFE" h
  rw [ho] at hreq
  exact exec_bind_ok hreq

theorem exec_clients_last :
    (exec (forceSafeClients wires [c]) links).2 = Function.update links c link := by
  cases ho : outcome s!"{c.label} FORCE_SAFE" r with
  | error e => rw [exec_clients_error h ho]
  | ok response =>
      rw [exec_clients_ok h ho]
      rfl

end Client

/-- The stimulus link carries a request exactly when the first client of the
loop was served. -/
theorem forceSafe_requested_iff (hb : b.stimulus = true) :
    Requested msgForceSafe (links .stimulus) ((exec (b.forceSafe wires true) links).2 .stimulus) ↔
      Accepts (wires .capture) (links .capture) ∧ Carries (wires .stimulus) (links .stimulus) := by
  rcases h : exec (HilPru.request (wires .capture) msgForceSafe {}) (links .capture) with ⟨r, link⟩
  have hother : Function.update links .capture link .stimulus = links .stimulus :=
    Function.update_of_ne (by decide) _ _
  rw [exec_forceSafe hb, accepts_iff, h]
  cases ho : outcome s!"{Pru.capture.label} FORCE_SAFE" r with
  | error e =>
      rw [exec_clients_error h ho]
      refine ⟨fun hreq => absurd hreq (not_requested_of_sent (congrArg HilPru.sent hother)), ?_⟩
      rintro ⟨⟨response, hok⟩, _⟩
      rw [outcome_ok_iff.mpr hok] at ho
      cases ho
  | ok response =>
      rcases h2 : exec (HilPru.request (wires .stimulus) msgForceSafe {})
        (Function.update links .capture link .stimulus) with ⟨r2, link2⟩
      rw [exec_clients_ok h ho, exec_clients_last h2, Function.update_self,
        and_iff_right ⟨response, outcome_ok_iff.mp ho⟩, ← carries_iff, ← requested_iff]
      rw [hother] at h2
      rw [h2]

theorem exit_requested_iff (hb : b.stimulus = true) (labgridLease : Bool) (t : Teardown)
    (exc leaseAcquired lockHeld : Bool) :
    Requested msgForceSafe (links .stimulus)
        ((exec (ServoHilSession.exit wires ⟨b, labgridLease⟩ t exc)
          ⟨links, leaseAcquired, lockHeld⟩).2.links .stimulus) ↔
      Accepts (wires .capture) (links .capture) ∧ Carries (wires .stimulus) (links .stimulus) := by
  rw [exit_links]
  exact forceSafe_requested_iff hb

end Loop

section Sample

def answer (type seq : Nat) (args : Args) : Payload :=
  (message (type ||| msgResponseBit) seq args).packet

def greeting : Exchange :=
  { arrivals := [answer msgHello 1 { arg0 := 9, arg1 := 200000000, arg2 := 32 }] }

/-- Both PRUs answer every request, but PRU0 answers a TIME after its timeout. -/
def late : Wires
  | _, 1 => greeting
  | .capture, 3 => { arrivals := [answer msgTime 2 {}, answer msgForceSafe 3 {}] }
  | .capture, _ => {}
  | .stimulus, n => { arrivals := [answer msgForceSafe n {}] }

def prompt : Wires
  | _, 1 => greeting
  | _, n => { arrivals := [answer msgForceSafe n {}] }

def hellos : List Call := [⟨.capture, msgHello, {}⟩, ⟨.stimulus, msgHello, {}⟩]

def board : BeagleBonePruBackend :=
  { stimulus := true, capabilities := [.timebase, .forceSafe], contract := rfl }

/-- The late answer is taken for the answer to FORCE_SAFE, and PRU1 hears
nothing. -/
theorem late_answer_hides_force_safe :
    let links := after late (opened 1000) (hellos ++ [⟨.capture, msgTime, {}⟩])
    (exec (init late true) (opened 1000)).1 = .ok board ∧
      ¬ Requested msgForceSafe (links .stimulus)
        ((exec (board.forceSafe late true) links).2 .stimulus) ∧
      ¬ Requested msgForceSafe (links .stimulus)
        ((exec (ServoHilSession.exit late ⟨board, true⟩ {} false) ⟨links, true, true⟩).2.links
          .stimulus) := by
  intro links
  have hseq : (links .capture).seq = 3 := rfl
  have hqueue : (links .capture).queue = [] := rfl
  have hparse : parse msgForceSafe 3 (answer msgTime 2 {}) =
      .error (.runtimeError "response type 0x8002, expected 0x8004") := rfl
  have hnot : ¬ Accepts (late .capture) (links .capture) := by
    rintro ⟨_, response, _, _, _, _, payload, hhead, hok⟩
    rw [hseq, hqueue] at hhead
    have hpayload : some (answer msgTime 2 {}) = some payload := hhead
    rw [hseq, ← Option.some.inj hpayload, hparse] at hok
    cases hok
  exact ⟨rfl, fun h => hnot ((forceSafe_requested_iff rfl).mp h).1,
    fun h => hnot ((exit_requested_iff rfl true {} false true true).mp h).1⟩

end Sample

/-- After any history, force_safe and the exit of a session get a FORCE_SAFE
request out to PRU1 exactly when PRU0 answers its own, on the next payload and
with no status bit set. -/
theorem force_safe_reaches_stimulus_iff (wires : Wires) (timeoutMs : Nat) (history : List Call)
    (b : BeagleBonePruBackend) (hb : b.stimulus = true) (labgridLease : Bool) (t : Teardown)
    (exc leaseAcquired lockHeld : Bool) :
    let links := after wires (opened timeoutMs) history
    let reached := Accepts (wires .capture) (links .capture) ∧
      Carries (wires .stimulus) (links .stimulus)
    (Requested msgForceSafe (links .stimulus) ((exec (b.forceSafe wires true) links).2 .stimulus) ↔
        reached) ∧
      (Requested msgForceSafe (links .stimulus)
          ((exec (ServoHilSession.exit wires ⟨b, labgridLease⟩ t exc)
            ⟨links, leaseAcquired, lockHeld⟩).2.links .stimulus) ↔
        reached) :=
  ⟨forceSafe_requested_iff hb, exit_requested_iff hb labgridLease t exc leaseAcquired lockHeld⟩

theorem prompt_force_safe :
    let links := after prompt (opened 1000) hellos
    Requested msgForceSafe (links .stimulus)
      ((exec (board.forceSafe prompt true) links).2 .stimulus) :=
  (force_safe_reaches_stimulus_iff prompt 1000 hellos board rfl false {} false false true).1.mpr
    ⟨⟨⟨by decide, rfl⟩, { type := msgForceSafe ||| msgResponseBit, seq := 2 }, rfl, rfl, rfl, rfl,
      answer msgForceSafe 2 {}, rfl, rfl⟩, by decide, rfl⟩

end HilLab.Host.ForceSafe
