import HilLab.Lib.Clocked
import HilLab.Host.Rpmsg

namespace HilLab.Host.RpmsgRecovery

open Host.Core PruProtocol Rpmsg Lib.Clocked Lib.Effect

section Device

def errBadLength : Nat := 1 <<< 0
def errBadMagic : Nat := 1 <<< 1
def errBadVersion : Nat := 1 <<< 2

/-- What the command itself puts in a response: it depends on the capture, not
on the link. -/
structure Reply where
  flags : BitVec 32
  arg0 : BitVec 32
  arg1 : BitVec 32
  arg2 : BitVec 32
  arg3 : BitVec 32

def clearResponse (requestType seq : Nat) : Message :=
  { type := requestType ||| msgResponseBit, seq }

def fill (m : Message) (r : Reply) : Message :=
  { m with
    flags := r.flags.toNat, arg0 := r.arg0.toNat, arg1 := r.arg1.toNat, arg2 := r.arg2.toNat,
    arg3 := r.arg3.toNat }

def handleRequest (payload : Payload) (r : Reply) : Message :=
  match Message.unpack payload with
  | .error _ => { clearResponse 0 0 with flags := errBadLength }
  | .ok request =>
      if request.magic ≠ PruProtocol.magic then
        { clearResponse request.type request.seq with flags := errBadMagic }
      else if request.version ≠ protocolVersion then
        { clearResponse request.type request.seq with flags := errBadVersion }
      else fill (clearResponse request.type request.seq) r

def response (m : Message) (r : Reply) : Message := fill (clearResponse m.type m.seq) r

theorem handleRequest_packet {type seq : Nat} {args : Args} (r : Reply)
    (h : (HilPru.message type seq args).Packs) :
    handleRequest (HilPru.message type seq args).packet r =
      response (HilPru.message type seq args) r := by
  rw [handleRequest, Message.unpack_packet h]
  rfl

theorem response_packs {m : Message} (h : m.Packs) (r : Reply) : (response m r).Packs := by
  simp only [Message.Packs, wire, Message.fields, List.forall₂_cons] at h ⊢
  obtain ⟨-, -, htype, hseq, -⟩ := h
  have hbit : (m.type ||| msgResponseBit) < 2 ^ 16 :=
    Nat.or_lt_two_pow (by exact_mod_cast htype.2) (by decide)
  have hmagic : (0 : Int) ≤ (PruProtocol.magic : Int) ∧ (PruProtocol.magic : Int) < 256 ^ 4 := by
    decide
  have hversion : (0 : Int) ≤ (protocolVersion : Int) ∧ (protocolVersion : Int) < 256 ^ 2 := by
    decide
  have hword : ∀ b : BitVec 32, (0 : Int) ≤ (b.toNat : Int) ∧ (b.toNat : Int) < 256 ^ 4 :=
    fun b => ⟨Int.natCast_nonneg _, by exact_mod_cast b.isLt⟩
  refine ⟨hmagic, hversion, ⟨Int.natCast_nonneg _, ?_⟩, hseq, hword _, hword _, hword _,
    hword _, hword _, .nil⟩
  exact_mod_cast hbit

theorem parse_packet {m : Message} (h : m.Packs) (type seq : Nat) :
    HilPru.parse type seq m.packet = (m.validateResponse type seq).map (fun _ => m) := by
  have hlen : m.packet.take 512 = m.packet := by
    rw [List.take_of_length_le]
    rw [Message.length_packet h]
    decide
  rw [HilPru.parse, hlen, Message.unpack_packet h]
  change (do m.validateResponse type seq; pure m) = _
  cases m.validateResponse type seq <;> rfl

theorem parse_own {type seq : Nat} {args : Args} {r : Reply}
    (h : (HilPru.message type seq args).Packs) :
    HilPru.parse type seq (response (HilPru.message type seq args) r).packet =
      .ok (response (HilPru.message type seq args) r) := by
  rw [parse_packet (response_packs h r), Message.validateResponse]
  simp [response, fill, clearResponse, HilPru.message, Except.map]

theorem parse_other {m : Message} {r : Reply} (h : m.Packs) (type : Nat) {seq : Nat}
    (hseq : m.seq ≠ seq) : ∃ e, HilPru.parse type seq (response m r).packet = .error e := by
  have hne : (response m r).seq ≠ seq := hseq
  rw [parse_packet (response_packs h r), Message.validateResponse]
  split_ifs
  all_goals exact ⟨_, rfl⟩

end Device

/-- One HilPru.request: its arguments, the time since the last one returned,
and what the device makes of it and how long that takes it. Times are in ms. -/
structure Call where
  type : Nat
  args : Args
  gap : Nat
  delay : Nat
  reply : Reply

/-- The host's link and the answers on their way to it, with the times they
arrive. -/
structure Bench where
  link : HilPru
  due : List (Nat × Payload)
  now : Nat

def sentTo (due : List (Nat × Payload)) (time : Nat) (r : Reply) :
    Except HostError Payload → List (Nat × Payload)
  | .ok packet => due ++ [(time, (handleRequest packet r).packet)]
  | .error _ => due

def returned (o : Except HostError Message × HilPru) : Except HostError Message := o.1

namespace Bench

variable (b : Bench) (c : Call)

def request : Message := HilPru.message c.type b.link.seq c.args

def issueTime : Nat := b.now + c.gap

def deadline : Nat := b.issueTime c + b.link.timeoutMs

/-- Answers arrive in the order of their requests. -/
def answerTime : Nat := (b.due.map Prod.fst).foldr max (b.issueTime c + c.delay)

def asked : List (Nat × Payload) := sentTo b.due (b.answerTime c) c.reply (b.request c).pack

/-- When the host has something to read or gives up: at once where an answer
is waiting, or the request never went out. -/
def pollReturn : Nat :=
  if !(b.request c).pack.isOk || !b.link.queue.isEmpty then b.issueTime c
  else
    (b.asked c).head?.elim (b.deadline c)
      (fun a => max (b.issueTime c) (min a.1 (b.deadline c)))

def arrived (a : Nat × Payload) : Bool := a.1 ≤ b.pollReturn c

def exchange : Exchange := { arrivals := ((b.asked c).takeWhile (b.arrived c)).map Prod.snd }

def outcome : Except HostError Message × HilPru :=
  exec (HilPru.request (fun _ => b.exchange c) c.type c.args) b.link

def step : Bench :=
  { link := (b.outcome c).2
    due := (b.asked c).dropWhile (b.arrived c)
    now := b.pollReturn c }

def Issued : Prop := (b.request c).Packs

def InTime : Prop := b.answerTime c ≤ b.deadline c

def own : Message := response (b.request c) c.reply

def backlog : List Payload := b.link.queue ++ b.due.map Prod.snd

/-- There are answers to be read, all of them to earlier requests. -/
def Stale : Prop :=
  b.backlog ≠ [] ∧ ∀ payload ∈ b.backlog, ∃ m r,
    payload = (response m r).packet ∧ m.Packs ∧ m.seq < b.link.seq

variable {b c}

theorem pack_issued (h : b.Issued c) : (b.request c).pack = .ok (b.request c).packet :=
  Message.pack_ok (m := b.request c) h

theorem asked_issued (h : b.Issued c) :
    b.asked c = b.due ++ [(b.answerTime c, (b.own c).packet)] := by
  rw [asked, pack_issued h, sentTo, own, request, handleRequest_packet c.reply h]

theorem queue_due :
    b.link.queue ++ (b.exchange c).arrivals ++ ((b.asked c).dropWhile (b.arrived c)).map Prod.snd =
      b.link.queue ++ (b.asked c).map Prod.snd := by
  have hsplit : (b.asked c).takeWhile (b.arrived c) ++ (b.asked c).dropWhile (b.arrived c) =
      b.asked c := List.takeWhile_append_dropWhile
  rw [exchange, List.append_assoc, ← List.map_append, hsplit]

theorem not_issued (h : ¬ b.Issued c) :
    (∃ e, returned (b.outcome c) = .error e) ∧ (b.step c).link.seq = b.link.seq + 1 ∧
      (b.step c).backlog = b.backlog := by
  obtain ⟨e, he⟩ := Message.pack_error (m := b.request c) h
  have hexec : exec (HilPru.request (fun _ => b.exchange c) c.type c.args) b.link =
      (.error e, b.link.numbered (b.exchange c)) := by
    rw [HilPru.request, exec_bind_error (HilPru.transmit_pack_error he)]
  have hasked : b.asked c = b.due := by
    rw [asked, he, sentTo]
  refine ⟨⟨e, by rw [outcome, hexec, returned]⟩, by rw [step, outcome, hexec]; rfl, ?_⟩
  have hqueue := queue_due (b := b) (c := c)
  rw [backlog, step, outcome, hexec]
  rw [hasked] at hqueue ⊢
  exact hqueue

theorem issued_outcome (h : b.Issued c) :
    b.outcome c = exec (HilPru.receive (b.exchange c) c.type b.link.seq)
      { b.link.numbered (b.exchange c) with sent := b.link.sent ++ [(b.request c).packet] } := by
  have htransmit : HilPru.Transmits (fun _ => b.exchange c) c.type c.args b.link := ⟨h, rfl⟩
  rw [outcome, HilPru.request, exec_bind_ok (HilPru.transmit_ok htransmit)]
  rfl

theorem issued_silent (h : b.Issued c) (hq : b.link.queue ++ (b.exchange c).arrivals = []) :
    (∃ e, returned (b.outcome c) = .error e) ∧ (b.step c).link.seq = b.link.seq + 1 ∧
      (b.step c).backlog = b.backlog ++ [(b.own c).packet] := by
  have hwait : ¬ (HilPru.checkEvents b.link.timeoutMs
      (HilPru.poll (b.exchange c) { b.link.numbered (b.exchange c) with
        sent := b.link.sent ++ [(b.request c).packet] }) = .ok ()) := by
    rintro hok
    exact (HilPru.checkEvents_ok_iff.mp hok).2.2 hq
  obtain ⟨e, he⟩ : ∃ e, HilPru.checkEvents b.link.timeoutMs
      (HilPru.poll (b.exchange c) { b.link.numbered (b.exchange c) with
        sent := b.link.sent ++ [(b.request c).packet] }) = .error e := by
    cases hc : HilPru.checkEvents b.link.timeoutMs
        (HilPru.poll (b.exchange c) { b.link.numbered (b.exchange c) with
          sent := b.link.sent ++ [(b.request c).packet] }) with
    | ok _ => exact absurd hc hwait
    | error e => exact ⟨e, rfl⟩
  have hout := (issued_outcome h).trans (HilPru.receive_events_error he)
  refine ⟨⟨e, by rw [hout, returned]⟩, by rw [step, hout]; rfl, ?_⟩
  have hqueue := queue_due (b := b) (c := c)
  rw [asked_issued h, List.map_append, ← List.append_assoc] at hqueue
  rw [backlog, step, hout, backlog, asked_issued h]
  exact hqueue

theorem issued_reads (h : b.Issued c) {payload : Payload} {rest : List Payload}
    (hq : b.link.queue ++ (b.exchange c).arrivals = payload :: rest) :
    returned (b.outcome c) = HilPru.parse c.type b.link.seq payload ∧
      (b.step c).link.seq = b.link.seq + 1 ∧
      payload :: (b.step c).backlog = b.backlog ++ [(b.own c).packet] := by
  have hout := (issued_outcome h).trans (HilPru.receive_payload rfl rfl rfl hq)
  refine ⟨by rw [hout, returned], by rw [step, hout]; rfl, ?_⟩
  have hqueue := queue_due (b := b) (c := c)
  rw [hq, asked_issued h, List.map_append, ← List.append_assoc] at hqueue
  rw [backlog, step, hout, backlog, asked_issued h]
  exact hqueue

theorem backlog_nil (h : b.backlog = []) : b.link.queue = [] ∧ b.due = [] := by
  rw [backlog, List.append_eq_nil_iff, List.map_eq_nil_iff] at h
  exact h

theorem idle_poll (hb : b.backlog = []) (h : b.Issued c) :
    b.pollReturn c = max (b.issueTime c) (min (b.answerTime c) (b.deadline c)) := by
  obtain ⟨hqueue, hdue⟩ := backlog_nil hb
  rw [pollReturn, pack_issued h, asked_issued h, hqueue, hdue]
  rfl

theorem issueTime_le_answerTime (h : b.due = []) : b.issueTime c ≤ b.answerTime c := by
  rw [answerTime, h]
  exact Nat.le_add_right _ _

theorem idle_inTime (hb : b.backlog = []) (h : b.Issued c) (ht : b.InTime c) :
    returned (b.outcome c) = .ok (b.own c) ∧ (b.step c).backlog = [] := by
  obtain ⟨hqueue, hdue⟩ := backlog_nil hb
  have hpoll : b.pollReturn c = b.answerTime c := by
    rw [idle_poll hb h, Nat.min_eq_left ht]
    exact Nat.max_eq_right (issueTime_le_answerTime hdue)
  have hread : b.link.queue ++ (b.exchange c).arrivals = (b.own c).packet :: [] := by
    have harrived : b.arrived c (b.answerTime c, (b.own c).packet) = true := by
      rw [arrived, hpoll]
      exact decide_eq_true (Nat.le_refl _)
    rw [exchange, asked_issued h, hdue, hqueue, List.nil_append, List.nil_append,
      List.takeWhile_cons_of_pos harrived]
    rfl
  obtain ⟨hout, -, hleft⟩ := issued_reads h hread
  rw [hb] at hleft
  exact ⟨hout.trans (parse_own h), List.cons_inj_right _ |>.mp hleft⟩

theorem idle_late (hb : b.backlog = []) (h : b.Issued c) (ht : ¬ b.InTime c) :
    (∃ e, returned (b.outcome c) = .error e) ∧ (b.step c).Stale := by
  obtain ⟨hqueue, hdue⟩ := backlog_nil hb
  have hlate : b.deadline c < b.answerTime c := Nat.lt_of_not_le ht
  have hpoll : b.pollReturn c = b.deadline c := by
    rw [idle_poll hb h, Nat.min_eq_right (Nat.le_of_lt hlate)]
    exact Nat.max_eq_right (Nat.le_add_right _ _)
  have hsilent : b.link.queue ++ (b.exchange c).arrivals = [] := by
    have harrived : ¬ b.arrived c (b.answerTime c, (b.own c).packet) = true := by
      rw [arrived, hpoll, decide_eq_true_iff]
      exact ht
    rw [exchange, asked_issued h, hdue, hqueue, List.nil_append, List.nil_append,
      List.takeWhile_cons_of_neg harrived]
    rfl
  obtain ⟨herror, hseq, hleft⟩ := issued_silent h hsilent
  rw [hb, List.nil_append] at hleft
  refine ⟨herror, ?_, ?_⟩
  · rw [hleft]
    exact List.cons_ne_nil _ _
  · intro payload hp
    rw [hleft, List.mem_singleton] at hp
    refine ⟨b.request c, c.reply, hp, h, ?_⟩
    rw [hseq]
    exact Nat.lt_succ_self _

/-- A late answer is repaired by no later request: each leaves its own behind. -/
theorem stale_step (hb : b.Stale) :
    (∀ r, returned (b.outcome c) ≠ .ok r) ∧ (b.step c).Stale := by
  obtain ⟨hne, hold⟩ := hb
  by_cases h : b.Issued c
  · have hgrown : ∀ payload ∈ b.backlog ++ [(b.own c).packet], ∃ m r,
        payload = (response m r).packet ∧ m.Packs ∧ m.seq < b.link.seq + 1 := by
      intro payload hp
      rcases List.mem_append.mp hp with hp | hp
      · obtain ⟨m, r, hpayload, hpacks, hlt⟩ := hold payload hp
        exact ⟨m, r, hpayload, hpacks, Nat.lt_succ_of_lt hlt⟩
      · exact ⟨b.request c, c.reply, List.mem_singleton.mp hp, h, Nat.lt_succ_self _⟩
    cases hq : b.link.queue ++ (b.exchange c).arrivals with
    | nil =>
        obtain ⟨⟨e, he⟩, hseq, hleft⟩ := issued_silent h hq
        refine ⟨fun r hr => ?_, ?_, ?_⟩
        · rw [he] at hr
          cases hr
        · rw [hleft]
          exact List.append_ne_nil_of_left_ne_nil hne _
        · rw [hleft, hseq]
          exact hgrown
    | cons payload rest =>
        obtain ⟨hout, hseq, hleft⟩ := issued_reads h hq
        obtain ⟨head, tail, hback⟩ := List.exists_cons_of_ne_nil hne
        rw [hback, List.cons_append] at hleft
        obtain ⟨rfl, hrest⟩ := List.cons_eq_cons.mp hleft
        refine ⟨fun r hr => ?_, ?_, ?_⟩
        · obtain ⟨m, r', hpayload, hpacks, hlt⟩ := hold payload (by rw [hback]; exact List.mem_cons_self)
          obtain ⟨e, he⟩ := parse_other (r := r') hpacks c.type (Nat.ne_of_lt hlt)
          rw [hout, hpayload, he] at hr
          cases hr
        · rw [hrest]
          exact List.append_ne_nil_of_right_ne_nil _ (List.cons_ne_nil _ _)
        · intro other hother
          rw [hseq]
          refine hgrown other ?_
          rw [hback, List.cons_append, ← hleft]
          exact List.mem_cons_of_mem _ hother
  · obtain ⟨⟨e, he⟩, hseq, hleft⟩ := not_issued h
    refine ⟨fun r hr => ?_, ?_, ?_⟩
    · rw [he] at hr
      cases hr
    · rw [hleft]
      exact hne
    · intro payload hp
      rw [hleft] at hp
      obtain ⟨m, r, hpayload, hpacks, hlt⟩ := hold payload hp
      refine ⟨m, r, hpayload, hpacks, ?_⟩
      rw [hseq]
      exact Nat.lt_succ_of_lt hlt

end Bench

section Run

variable (timeoutMs : Nat) (calls : Nat → Call)

def benchAt (n : Nat) : Bench :=
  wave Bench.step { link := { timeoutMs }, due := [], now := 0 } calls n

def result (n : Nat) : Except HostError Message := returned ((benchAt timeoutMs calls n).outcome (calls n))

def Issued (n : Nat) : Prop := (benchAt timeoutMs calls n).Issued (calls n)

def InTime (n : Nat) : Prop := (benchAt timeoutMs calls n).InTime (calls n)

def own (n : Nat) : Message := (benchAt timeoutMs calls n).own (calls n)

/-- A link that recovers: no call takes another's answer, and each one that is
answered in time takes its own. -/
structure Recovers : Prop where
  noOther : ∀ n m, result timeoutMs calls n = .ok m → m = own timeoutMs calls n
  recovers : ∀ n, Issued timeoutMs calls n → InTime timeoutMs calls n →
    result timeoutMs calls n = .ok (own timeoutMs calls n)

variable {timeoutMs calls}

theorem benchAt_succ (n : Nat) :
    benchAt timeoutMs calls (n + 1) = (benchAt timeoutMs calls n).step (calls n) :=
  wave_succ Bench.step _ calls n

variable (timeoutMs calls) in
/-- The link is idle until the first late answer, and stale ever after. -/
theorem idle_or_stale (n : Nat) :
    ((∀ k, k < n → Issued timeoutMs calls k → InTime timeoutMs calls k) ∧
        (benchAt timeoutMs calls n).backlog = []) ∨
      ((∃ k, k < n ∧ Issued timeoutMs calls k ∧ ¬ InTime timeoutMs calls k) ∧
        (benchAt timeoutMs calls n).Stale) := by
  induction n with
  | zero => exact Or.inl ⟨fun k hk => absurd hk (Nat.not_lt_zero k), rfl⟩
  | succ n ih =>
      rw [benchAt_succ]
      rcases ih with ⟨hearlier, hidle⟩ | ⟨⟨k, hk, hissued, hlate⟩, hstale⟩
      · by_cases hn : Issued timeoutMs calls n
        · by_cases ht : InTime timeoutMs calls n
          · refine Or.inl ⟨fun k hk => ?_, (Bench.idle_inTime hidle hn ht).2⟩
            rcases Nat.lt_succ_iff_lt_or_eq.mp hk with hlt | rfl
            · exact hearlier k hlt
            · exact fun _ => ht
          · exact Or.inr ⟨⟨n, Nat.lt_succ_self n, hn, ht⟩, (Bench.idle_late hidle hn ht).2⟩
        · obtain ⟨-, -, hleft⟩ := Bench.not_issued hn
          refine Or.inl ⟨fun k hk => ?_, hleft.trans hidle⟩
          rcases Nat.lt_succ_iff_lt_or_eq.mp hk with hlt | rfl
          · exact hearlier k hlt
          · exact fun hk => absurd hk hn
      · exact Or.inr ⟨⟨k, Nat.lt_succ_of_lt hk, hissued, hlate⟩, (Bench.stale_step hstale).2⟩

theorem result_own {n : Nat} {m : Message} (h : result timeoutMs calls n = .ok m) :
    m = own timeoutMs calls n := by
  rcases idle_or_stale timeoutMs calls n with ⟨-, hidle⟩ | ⟨-, hstale⟩
  · by_cases hn : Issued timeoutMs calls n
    · by_cases ht : InTime timeoutMs calls n
      · have hout : result timeoutMs calls n = _ := (Bench.idle_inTime hidle hn ht).1
        exact Except.ok.inj (h.symm.trans hout)
      · obtain ⟨e, he⟩ := (Bench.idle_late hidle hn ht).1
        cases h.symm.trans he
    · obtain ⟨e, he⟩ := (Bench.not_issued hn).1
      cases h.symm.trans he
  · exact absurd h ((Bench.stale_step hstale).1 m)

theorem late_lost {k n : Nat} (hkn : k < n) (hk : Issued timeoutMs calls k)
    (hlate : ¬ InTime timeoutMs calls k) (m : Message) : result timeoutMs calls n ≠ .ok m := by
  rcases idle_or_stale timeoutMs calls n with ⟨hearlier, -⟩ | ⟨-, hstale⟩
  · exact absurd (hearlier k hkn hk) hlate
  · exact (Bench.stale_step hstale).1 m

variable (timeoutMs calls)

/-- A link recovers exactly when no request is answered in time after one that
was answered late. -/
theorem recovers_iff :
    Recovers timeoutMs calls ↔
      ∀ k n, k < n → Issued timeoutMs calls k → Issued timeoutMs calls n →
        InTime timeoutMs calls n → InTime timeoutMs calls k := by
  constructor
  · intro h k n hkn hk hn ht
    by_contra hlate
    exact late_lost hkn hk hlate _ (h.recovers n hn ht)
  · intro h
    refine ⟨fun n m => result_own, fun n hn ht => ?_⟩
    rcases idle_or_stale timeoutMs calls n with
      ⟨-, hidle⟩ | ⟨⟨k, hk, hissued, hlate⟩, -⟩
    · exact (Bench.idle_inTime hidle hn ht).1
    · exact absurd (h k n hk hissued hn ht) hlate

end Run

/-- Two pings: the first is answered one millisecond late, the second at once. -/
def lateThenPrompt (n : Nat) : Call :=
  { type := 5, args := {}, gap := 0, delay := if n = 0 then 1001 else 0, reply := ⟨0, 0, 0, 0, 0⟩ }

theorem lateThenPrompt_lost : ¬ Recovers 1000 lateThenPrompt := by
  intro h
  have hissued : Issued 1000 lateThenPrompt 0 ∧ Issued 1000 lateThenPrompt 1 := by
    rw [Issued, Issued, Bench.Issued, Bench.Issued, Message.Packs, Message.Packs]
    decide +kernel
  have hlate : ¬ InTime 1000 lateThenPrompt 0 := by
    rw [InTime, Bench.InTime]
    decide
  have hprompt : InTime 1000 lateThenPrompt 1 := by
    rw [InTime, Bench.InTime]
    decide +kernel
  exact late_lost (Nat.zero_lt_one) hissued.1 hlate _ (h.recovers 1 hissued.2 hprompt)

end HilLab.Host.RpmsgRecovery
