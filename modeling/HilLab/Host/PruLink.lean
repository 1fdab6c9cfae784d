import HilLab.Host.Rpmsg
import HilLab.Pru.Protocol

namespace HilLab.Host.PruLink

open Host.Core PruProtocol Rpmsg Lib.Effect Lib.LittleEndian Pru.Protocol

section Layout

/-- The members of struct hil_pru_msg in order; natural alignment leaves no gaps. -/
def members (m : Msg) : List Nat :=
  [m.magic.toNat, m.version.toNat, m.type.toNat, m.seq.toNat, m.flags.toNat, m.arg0.toNat, m.arg1.toNat,
    m.arg2.toNat, m.arg3.toNat]

/-- The bytes of the struct in the memory of the little-endian PRU. -/
def frame (m : Msg) : Payload := encode wire (members m)

def ofBytes (payload : Payload) : Msg :=
  let v := decode wire payload
  { magic := BitVec.ofNat 32 (v.getD 0 0)
    version := BitVec.ofNat 16 (v.getD 1 0)
    type := BitVec.ofNat 16 (v.getD 2 0)
    seq := BitVec.ofNat 32 (v.getD 3 0)
    flags := BitVec.ofNat 32 (v.getD 4 0)
    arg0 := BitVec.ofNat 32 (v.getD 5 0)
    arg1 := BitVec.ofNat 32 (v.getD 6 0)
    arg2 := BitVec.ofNat 32 (v.getD 7 0)
    arg3 := BitVec.ofNat 32 (v.getD 8 0) }

/-- The host's view of a struct. -/
def seen (m : Msg) : Message := Message.ofFields (members m)

theorem seen_flags (m : Msg) : (seen m).flags = m.flags.toNat := rfl

def requested (type seq : Nat) (args : Args) : Msg :=
  { magic := hilPruMagic, version := hilPruProtocolVersion, type := BitVec.ofNat 16 type
    seq := BitVec.ofNat 32 seq, flags := 0, arg0 := BitVec.ofInt 32 args.arg0
    arg1 := BitVec.ofInt 32 args.arg1, arg2 := BitVec.ofInt 32 args.arg2
    arg3 := BitVec.ofInt 32 args.arg3 }

theorem fits_members (m : Msg) : Fits wire (members m) := by
  have hword : ∀ b : BitVec 32, b.toNat < 256 ^ 4 := fun b => b.isLt
  have hhalf : ∀ b : BitVec 16, b.toNat < 256 ^ 2 := fun b => b.isLt
  simp only [Fits, wire, members, List.forall₂_cons, hword, hhalf, true_and]
  exact List.Forall₂.nil

theorem length_frame (m : Msg) : (frame m).length = wireSize := length_encode (fits_members m)

theorem unpack_frame (m : Msg) : Message.unpack (frame m) = .ok (seen m) := by
  rw [Message.unpack, if_neg (not_not_intro (length_frame m)), frame, decode_encode (fits_members m), seen]

theorem ofInt_eq_ofNat {v : Int} (h : 0 ≤ v) : BitVec.ofNat 32 v.toNat = BitVec.ofInt 32 v := by
  obtain ⟨n, rfl⟩ := Int.eq_ofNat_of_zero_le h
  simp

theorem ofBytes_packet {type seq : Nat} {args : Args} (h : (HilPru.message type seq args).Packs) :
    ofBytes (HilPru.message type seq args).packet = requested type seq args := by
  have hdecode := decode_encode h.fits
  simp only [Message.Packs, wire, Message.fields, List.forall₂_cons] at h
  obtain ⟨-, -, -, -, -, h0, h1, h2, h3, -⟩ := h
  rw [ofBytes, Message.packet, hdecode]
  simp only [Message.fields, List.map_cons, List.map_nil, List.getD_cons_zero, List.getD_cons_succ,
    Int.toNat_natCast, ofInt_eq_ofNat h0.1, ofInt_eq_ofNat h1.1, ofInt_eq_ofNat h2.1, ofInt_eq_ofNat h3.1]
  rfl

end Layout

/-- A PRU firmware as the link sees it: it takes one struct at a time and answers each, in
circumstances ε of its own, with the type and number of the request. -/
structure Firmware (σ ε : Type) where
  serve : σ → ε → Msg → σ
  answer : σ → ε → Msg → Msg
  echoes : ∀ s e m, m.magic = hilPruMagic → m.version = hilPruProtocolVersion →
    (answer s e m).magic = hilPruMagic ∧ (answer s e m).version = hilPruProtocolVersion ∧
      (answer s e m).type = m.type ||| responseBit ∧ (answer s e m).seq = m.seq

structure Call (ε : Type) where
  type : Nat
  args : Args
  moment : ε

section Link

variable {σ ε : Type} (fw : Firmware σ ε)

def Call.packed (c : Call ε) (seq : Nat) : Except HostError Payload := (HilPru.message c.type seq c.args).pack

/-- The link that loses and delays nothing: what is written is served, and its answer is there
when the host polls. -/
def exchange (s : σ) (e : ε) : Except HostError Payload → Exchange
  | .ok packet => { arrivals := [frame (fw.answer s e (ofBytes packet))] }
  | .error _ => {}

def served (s : σ) (e : ε) : Except HostError Payload → σ
  | .ok packet => fw.serve s e (ofBytes packet)
  | .error _ => s

/-- The host's calls one after the other, over the link: their results, and the states of the
host's end and of the firmware. -/
def converse : List (Call ε) → HilPru → σ → List (Except HostError Message) × HilPru × σ
  | [], link, s => ([], link, s)
  | c :: cs, link, s =>
      let x := exchange fw s c.moment (c.packed link.seq)
      let r := exec (HilPru.request (fun _ => x) c.type c.args) link
      let rest := converse cs r.2 (served fw s c.moment (c.packed link.seq))
      (r.1 :: rest.1, rest.2)

/-- What a call comes to where the firmware itself is called, without bytes, queue or device. -/
def outcome (s : σ) (e : ε) (m : Msg) : Except HostError Payload → Except HostError Message × σ
  | .ok _ => (.ok (seen (fw.answer s e m)), fw.serve s e m)
  | .error err => (.error err, s)

def direct : List (Call ε) → Nat → σ → List (Except HostError Message) × σ
  | [], _, s => ([], s)
  | c :: cs, seq, s =>
      let r := outcome fw s c.moment (requested c.type seq c.args) (c.packed seq)
      let rest := direct cs (seq + 1) r.2
      (r.1 :: rest.1, rest.2)

theorem direct_nil (seq : Nat) (s : σ) : direct fw [] seq s = ([], s) := rfl

theorem direct_cons (c : Call ε) (cs : List (Call ε)) (seq : Nat) (s : σ) :
    direct fw (c :: cs) seq s =
      ((outcome fw s c.moment (requested c.type seq c.args) (c.packed seq)).1 ::
          (direct fw cs (seq + 1) (outcome fw s c.moment (requested c.type seq c.args) (c.packed seq)).2).1,
        (direct fw cs (seq + 1)
          (outcome fw s c.moment (requested c.type seq c.args) (c.packed seq)).2).2) := by
  rw [direct]

end Link

section Scripts

variable {σ ε : Type} {fw : Firmware σ ε}

theorem direct_append (cs ds : List (Call ε)) (seq : Nat) (s : σ) :
    (direct fw (cs ++ ds) seq s).1 =
        (direct fw cs seq s).1 ++ (direct fw ds (seq + cs.length) (direct fw cs seq s).2).1 ∧
      (direct fw (cs ++ ds) seq s).2 =
        (direct fw ds (seq + cs.length) (direct fw cs seq s).2).2 := by
  induction cs generalizing seq s with
  | nil => exact ⟨rfl, rfl⟩
  | cons c cs ih =>
      have hnext : seq + (c :: cs).length = seq + 1 + cs.length := by
        rw [List.length_cons]
        omega
      rw [List.cons_append, direct_cons, direct_cons, hnext]
      obtain ⟨h1, h2⟩ := ih (seq + 1)
        (outcome fw s c.moment (requested c.type seq c.args) (c.packed seq)).2
      exact ⟨congrArg (List.cons _) h1, h2⟩

theorem direct_singleton (c : Call ε) (seq : Nat) (s : σ) {r : Except HostError Message × σ}
    (hr : outcome fw s c.moment (requested c.type seq c.args) (c.packed seq) = r) :
    direct fw [c] seq s = ([r.1], r.2) := by
  rw [direct_cons, hr, direct_nil]

theorem direct_concat (cs : List (Call ε)) (c : Call ε) (seq : Nat) (s : σ) {r : Except HostError Message × σ}
    (hr : outcome fw (direct fw cs seq s).2 c.moment (requested c.type (seq + cs.length) c.args)
      (c.packed (seq + cs.length)) = r) :
    (direct fw (cs ++ [c]) seq s).1 = (direct fw cs seq s).1 ++ [r.1] ∧
      (direct fw (cs ++ [c]) seq s).2 = r.2 := by
  obtain ⟨h1, h2⟩ := @direct_append _ _ fw cs [c] seq s
  rw [direct_singleton c _ _ hr] at h1 h2
  exact ⟨h1, h2⟩

variable {τ : Type} {fw' : Firmware τ ε} {R : τ → σ → Prop}

/-- Two firmwares that answer alike in related states, and keep them related, cannot be told
apart by a script. -/
theorem direct_simulates (hserve : ∀ t s e m, R t s → R (fw'.serve t e m) (fw.serve s e m))
    (hanswer : ∀ t s e m, R t s → fw.answer s e m = fw'.answer t e m) (cs : List (Call ε)) (seq : Nat)
    {t : τ} {s : σ} (h : R t s) :
    (direct fw cs seq s).1 = (direct fw' cs seq t).1 ∧
      R (direct fw' cs seq t).2 (direct fw cs seq s).2 := by
  induction cs generalizing seq s t with
  | nil => exact ⟨rfl, h⟩
  | cons c cs ih =>
      rw [direct_cons, direct_cons]
      cases c.packed seq with
      | ok packet =>
          obtain ⟨hresults, hstates⟩ := ih (seq + 1) (hserve t s c.moment _ h)
          refine ⟨?_, hstates⟩
          rw [outcome, outcome, hanswer t s c.moment _ h]
          exact congrArg (List.cons _) hresults
      | error err =>
          obtain ⟨hresults, hstates⟩ := ih (seq + 1) h
          exact ⟨congrArg (List.cons _) hresults, hstates⟩

end Scripts

section Refines

variable {σ ε : Type} {fw : Firmware σ ε} {s : σ} {c : Call ε} {link : HilPru}

theorem parse_frame {type seq : Nat} {args : Args} (h : (HilPru.message type seq args).Packs) (s : σ) (e : ε) :
    HilPru.parse type seq (frame (fw.answer s e (requested type seq args))) =
      .ok (seen (fw.answer s e (requested type seq args))) := by
  obtain ⟨hmagic, hversion, htype, hseq⟩ := fw.echoes s e (requested type seq args) rfl rfl
  simp only [Message.Packs, wire, Message.fields, List.forall₂_cons] at h
  obtain ⟨-, -, ht, hs, -⟩ := h
  have htype16 : type < 65536 := by exact_mod_cast ht.2
  have hseq32 : seq < 4294967296 := by exact_mod_cast hs.2
  generalize fw.answer s e (requested type seq args) = r at hmagic hversion htype hseq
  have htake : (frame r).take 512 = frame r :=
    List.take_of_length_le (by rw [length_frame]; decide)
  have hvalid : (seen r).validateResponse type seq = .ok () := by
    have h1 : (seen r).magic = PruProtocol.magic := by
      simp only [seen, Message.ofFields, members, List.getD_cons_zero, hmagic]
      rfl
    have h2 : (seen r).version = protocolVersion := by
      simp only [seen, Message.ofFields, members, List.getD_cons_zero, List.getD_cons_succ, hversion]
      rfl
    have h3 : (seen r).type = type ||| msgResponseBit := by
      simp only [seen, Message.ofFields, members, List.getD_cons_zero, List.getD_cons_succ, htype,
        requested, BitVec.toNat_or, BitVec.toNat_ofNat]
      rw [Nat.mod_eq_of_lt (by exact htype16)]
      rfl
    have h4 : (seen r).seq = seq := by
      simp only [seen, Message.ofFields, members, List.getD_cons_zero, List.getD_cons_succ, hseq,
        requested, BitVec.toNat_ofNat]
      exact Nat.mod_eq_of_lt hseq32
    simp only [Message.validateResponse, h1, h2, h3, h4, ne_eq, not_true, if_false]
  rw [HilPru.parse, htake, unpack_frame]
  simp only [bind, Except.bind, hvalid]
  rfl

/-- One call over the link is one call of the firmware. A call whose arguments struct refuses
raises, uses up its number and reaches nobody. -/
theorem request_eq (hq : link.queue = []) :
    (exec (HilPru.request (fun _ => exchange fw s c.moment (c.packed link.seq)) c.type c.args) link).1 =
        (outcome fw s c.moment (requested c.type link.seq c.args) (c.packed link.seq)).1 ∧
      served fw s c.moment (c.packed link.seq) =
        (outcome fw s c.moment (requested c.type link.seq c.args) (c.packed link.seq)).2 ∧
      ∃ sent, (exec (HilPru.request (fun _ => exchange fw s c.moment (c.packed link.seq)) c.type
        c.args) link).2 = { link with seq := link.seq + 1, queue := [], sent } := by
  by_cases hpacks : (HilPru.message c.type link.seq c.args).Packs
  · have hp : c.packed link.seq = .ok (HilPru.message c.type link.seq c.args).packet := Message.pack_ok hpacks
    have htransmit : HilPru.Transmits (fun _ => exchange fw s c.moment (c.packed link.seq)) c.type
        c.args link := ⟨hpacks, by rw [hp]; rfl⟩
    have harrived : ({ link.numbered (exchange fw s c.moment (c.packed link.seq)) with
        sent := link.sent ++ [(HilPru.message c.type link.seq c.args).packet] } : HilPru).queue =
          frame (fw.answer s c.moment (requested c.type link.seq c.args)) :: [] := by
      rw [hp, exchange, ofBytes_packet hpacks]
      simp only [HilPru.numbered, hq, List.nil_append]
    rw [HilPru.request, exec_bind_ok (HilPru.transmit_ok htransmit),
      HilPru.receive_payload (by rw [hp]; rfl) (by rw [hp]; rfl) (by rw [hp]; rfl) harrived,
      parse_frame hpacks, hp, served, outcome, ofBytes_packet hpacks]
    exact ⟨rfl, rfl, _, rfl⟩
  · obtain ⟨err, he⟩ := Message.pack_error hpacks
    have hp : c.packed link.seq = .error err := he
    rw [HilPru.request, exec_bind_error (HilPru.transmit_pack_error he), hp]
    refine ⟨rfl, rfl, link.sent, ?_⟩
    simp only [HilPru.numbered, exchange, hq, List.append_nil]

theorem converse_eq (cs : List (Call ε)) (hq : link.queue = []) :
    (converse fw cs link s).1 = (direct fw cs link.seq s).1 ∧
      (converse fw cs link s).2.2 = (direct fw cs link.seq s).2 ∧
      (converse fw cs link s).2.1.queue = [] ∧
      (converse fw cs link s).2.1.seq = link.seq + cs.length := by
  induction cs generalizing link s with
  | nil => exact ⟨rfl, rfl, hq, rfl⟩
  | cons c cs ih =>
      obtain ⟨hresult, hserved, sent, hlink⟩ := @request_eq _ _ fw s c link hq
      rw [converse, direct]
      dsimp only
      rw [hresult, hserved, hlink]
      obtain ⟨h1, h2, h3, h4⟩ :=
        @ih (outcome fw s c.moment (requested c.type link.seq c.args) (c.packed link.seq)).2
          { link with seq := link.seq + 1, queue := [], sent } rfl
      refine ⟨congrArg _ h1, h2, h3, h4.trans ?_⟩
      simp only [List.length_cons]
      omega

end Refines

end HilLab.Host.PruLink
