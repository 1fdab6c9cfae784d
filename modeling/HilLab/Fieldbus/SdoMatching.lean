import HilLab.Fieldbus.Sdo
import HilLab.Lib.Clocked
import Mathlib.Tactic.SplitIfs

namespace HilLab.Fieldbus.SdoMatching

open Lib.Clocked Lib.Effect SocketCan Sdo

section Server

inductive Kind
  | upload | download
deriving DecidableEq, Repr

/-- A request as the server reads it, with its number in the order of sending. -/
structure Request where
  number : Nat
  kind : Kind
  index : Nat
  subindex : Nat
  index_lt : index < 2 ^ 16
  subindex_lt : subindex < 2 ^ 8

theorem byte_lt (frame : CanFrame) (i : Nat) : byte frame i < 2 ^ 8 := UInt8.toNat_lt _

def requested (number : Nat) (frame : CanFrame) : Request :=
  { number
    kind := if byte frame 0 = 0x40 then .upload else .download
    index := byte frame 1 ||| byte frame 2 <<< 8
    subindex := byte frame 3
    index_lt := by
      apply Nat.or_lt_two_pow
      · exact Nat.lt_trans (byte_lt frame 1) (by decide)
      · have hbyte := byte_lt frame 2
        rw [Nat.shiftLeft_eq]
        omega
    subindex_lt := byte_lt frame 3 }

/-- What a server makes of a request: an abort, or the rest of the command byte, and the four
bytes that go with it. -/
structure Reply where
  abort : Bool
  flags : Nat
  data : List UInt8
  length_data : data.length = 4

def Request.command (r : Request) (reply : Reply) : Nat :=
  if reply.abort then 0x80
  else
    match r.kind with
    | .upload => 0x40 + reply.flags % 32
    | .download => 0x60

def Request.answer (c : CanopenSdoClient) (r : Request) (reply : Reply) : CanFrame :=
  { canId := c.responseCobId
    data := [UInt8.ofNat (r.command reply), UInt8.ofNat (r.index % 256), UInt8.ofNat (r.index / 256),
      UInt8.ofNat r.subindex] ++ reply.data
    canId_le := by
      have hnode := c.nodeId_mem.2
      rw [CanopenSdoClient.responseCobId]
      omega
    length_le := by
      rw [List.length_append, reply.length_data]
      exact Nat.le_refl 8 }

/-- The request is one for the object. -/
def Request.For (r : Request) (index subindex : Int) : Prop :=
  (r.index : Int) = index ∧ (r.subindex : Int) = subindex

instance (r : Request) (index subindex : Int) : Decidable (r.For index subindex) :=
  inferInstanceAs (Decidable (_ ∧ _))

variable {c : CanopenSdoClient} (r : Request) (reply : Reply)

theorem command_lt : r.command reply < 2 ^ 8 := by
  rw [Request.command]
  split
  · decide
  · cases r.kind with
    | upload =>
        dsimp only
        omega
    | download =>
        dsimp only
        omega

variable {reply} in
theorem command_of_abort (h : reply.abort = true) : r.command reply = 0x80 := if_pos h

variable {reply} in
theorem command_of_ok (h : reply.abort = false) :
    r.command reply =
      match r.kind with
      | .upload => 0x40 + reply.flags % 32
      | .download => 0x60 := by
  rw [Request.command, h]
  rfl

variable {reply} in
theorem command_ne_abort (h : reply.abort = false) : r.command reply ≠ 0x80 := by
  rw [command_of_ok r h]
  cases r.kind with
  | upload =>
      dsimp only
      omega
  | download =>
      dsimp only
      omega

theorem index_bytes {i : Nat} (h : i < 2 ^ 16) :
    (UInt8.ofNat (i % 256)).toNat ||| (UInt8.ofNat (i / 256)).toNat <<< 8 = i := by
  have hlow : i % 256 < 2 ^ 8 := Nat.mod_lt _ (by decide)
  have hhigh : i / 256 < 2 ^ 8 := by omega
  rw [UInt8.toNat_ofNat_of_lt' hlow, UInt8.toNat_ofNat_of_lt' hhigh, Nat.or_comm, Nat.shiftLeft_eq,
    Nat.mul_comm, ← Nat.two_pow_add_eq_or_of_lt hlow]
  omega

theorem answer_bytes :
    byte (r.answer c reply) 0 = r.command reply ∧
      byte (r.answer c reply) 1 ||| byte (r.answer c reply) 2 <<< 8 = r.index ∧
      byte (r.answer c reply) 3 = r.subindex := by
  refine ⟨?_, ?_, ?_⟩
  · exact UInt8.toNat_ofNat_of_lt (command_lt r reply)
  · exact index_bytes r.index_lt
  · exact UInt8.toNat_ofNat_of_lt r.subindex_lt

theorem examine_answer (index subindex : Int) :
    c.examine index subindex (r.answer c reply) =
      if r.For index subindex then
        if reply.abort then
          some (.error (sdoAbort (Lib.LittleEndian.ofBytes reply.data) index.toNat subindex.toNat))
        else some (.ok (r.answer c reply))
      else none := by
  obtain ⟨hcommand, hindex, hsub⟩ := answer_bytes (c := c) r reply
  have hid : (r.answer c reply).canId = c.responseCobId := rfl
  have hlength : (r.answer c reply).data.length = 8 := by
    have hdata : (r.answer c reply).data.length = 4 + reply.data.length := by
      rw [Nat.add_comm]
      rfl
    rw [hdata, reply.length_data]
  have hpayload : ((r.answer c reply).data.drop 4).take 4 = reply.data :=
    List.take_of_length_le (Nat.le_of_eq reply.length_data)
  have hfor : ((r.index : Int) ≠ index ∨ (r.subindex : Int) ≠ subindex) ↔ ¬ r.For index subindex :=
    (not_and_or).symm
  rw [CanopenSdoClient.examine, if_neg (not_not_intro hid), if_neg (not_not_intro hlength)]
  dsimp only
  rw [hcommand, hindex, hsub, hpayload]
  simp only [hfor]
  by_cases hobject : r.For index subindex
  · rw [if_neg (not_not_intro hobject), if_pos hobject]
    cases habort : reply.abort with
    | true => rw [if_pos (command_of_abort r habort), if_pos rfl]
    | false => rw [if_neg (command_ne_abort r habort), if_neg Bool.false_ne_true]
  · rw [if_pos hobject, if_neg hobject]

end Server

section Line

variable (c : CanopenSdoClient)

/-- What the bus does at a recv: it hands over some other frame or the server's next answer,
or recv raises. -/
inductive Reception
  | other (frame : CanFrame) (h : frame.canId ≠ c.responseCobId)
  | answer (reply : Reply)
  | fail (error : CanError)

/-- The bus with the server behind it. The server answers the outstanding requests in order;
latest is the request that the frame received last has answered. -/
structure Line where
  sent : Nat
  outstanding : List Request
  latest : Option (Request × Reply)
  coming : Nat → Reception c

variable {c}

def Line.start (coming : Nat → Reception c) : Line c :=
  { sent := 0, outstanding := [], latest := none, coming }

def Line.post (frame : CanFrame) (l : Line c) : Line c :=
  if frame.canId = c.requestCobId then
    { l with sent := l.sent + 1, outstanding := l.outstanding ++ [requested l.sent frame] }
  else l

def Line.next (l : Line c) : Line c :=
  { l with latest := none, coming := fun n => l.coming (n + 1) }

/-- With nothing to answer, recv times out. -/
def Line.receive (l : Line c) : Except CanError CanFrame × Line c :=
  match l.coming 0 with
  | .other frame _ => (.ok frame, l.next)
  | .fail error => (.error error, l.next)
  | .answer reply =>
      match l.outstanding with
      | [] => (.error (.timeoutError "timed out"), l.next)
      | r :: rest =>
          (.ok (r.answer c reply), { l.next with outstanding := rest, latest := some (r, reply) })

def lineBus : CanBus (Line c) :=
  { send := fun frame => modify (Line.post frame)
    recv := ExceptT.mk (fun l => l.receive) }

theorem exec_recv (l : Line c) : exec lineBus.recv l = l.receive := rfl

end Line

section Response

open CanopenSdoClient

variable {c : CanopenSdoClient} {index subindex : Int} {n : Nat} {l t : Line c}

/-- The first outstanding request for the object, near enough to be received. -/
structure Reaches (index subindex : Int) (n : Nat) (l : Line c) (skipped : List Request)
    (r : Request) (rest : List Request) : Prop where
  outstanding : l.outstanding = skipped ++ r :: rest
  others : ∀ q ∈ skipped, ¬ q.For index subindex
  own : r.For index subindex
  near : skipped.length < n

theorem Reaches.later {skipped rest : List Request} {r : Request}
    (h : Reaches index subindex n t skipped r rest) (hout : l.outstanding = t.outstanding) :
    Reaches index subindex (n + 1) l skipped r rest :=
  ⟨hout.trans h.outstanding, h.others, h.own, Nat.lt_succ_of_lt h.near⟩

theorem Reaches.after {q r : Request} {skipped rest : List Request}
    (h : Reaches index subindex n t skipped r rest) (hout : l.outstanding = q :: t.outstanding)
    (hq : ¬ q.For index subindex) : Reaches index subindex (n + 1) l (q :: skipped) r rest :=
  ⟨by rw [hout, h.outstanding, List.cons_append], List.forall_mem_cons.mpr ⟨hq, h.others⟩, h.own,
    Nat.succ_lt_succ h.near⟩

theorem response_ok {frame : CanFrame}
    (h : exec (c.response lineBus index subindex n) l = (.ok frame, t)) :
    ∃ skipped r rest reply, Reaches index subindex n l skipped r rest ∧ reply.abort = false ∧
      frame = r.answer c reply ∧ t.latest = some (r, reply) := by
  induction n generalizing l with
  | zero => cases h
  | succ n ih =>
      cases hcoming : l.coming 0 with
      | other other hne =>
          have hrecv : exec lineBus.recv l = (.ok other, l.next) := by
            rw [exec_recv, Line.receive, hcoming]
          rw [response_on hrecv (if_pos hne)] at h
          obtain ⟨skipped, r, rest, reply, hreaches, hreply⟩ := ih h
          exact ⟨skipped, r, rest, reply, hreaches.later rfl, hreply⟩
      | fail error =>
          have hrecv : exec lineBus.recv l = (.error error, l.next) := by
            rw [exec_recv, Line.receive, hcoming]
          rw [response_raise hrecv] at h
          cases h
      | answer reply =>
          cases hout : l.outstanding with
          | nil =>
              have hrecv : exec lineBus.recv l = (.error (.timeoutError "timed out"), l.next) := by
                rw [exec_recv, Line.receive, hcoming, hout]
              rw [response_raise hrecv] at h
              cases h
          | cons r rest =>
              have hrecv : exec lineBus.recv l = (.ok (r.answer c reply),
                  { l.next with outstanding := rest, latest := some (r, reply) }) := by
                rw [exec_recv, Line.receive, hcoming, hout]
              have hexamine := examine_answer (c := c) r reply index subindex
              by_cases hfor : r.For index subindex
              · rw [if_pos hfor] at hexamine
                cases habort : reply.abort with
                | true =>
                    rw [habort, if_pos rfl] at hexamine
                    rw [response_end hrecv hexamine] at h
                    cases h
                | false =>
                    rw [habort, if_neg Bool.false_ne_true] at hexamine
                    rw [response_end hrecv hexamine, Prod.mk.injEq] at h
                    obtain ⟨hframe, rfl⟩ := h
                    refine ⟨[], r, rest, reply, ?_, habort, (Except.ok.inj hframe).symm, rfl⟩
                    exact ⟨hout, fun _ hq => absurd hq List.not_mem_nil, hfor, Nat.succ_pos n⟩
              · rw [if_neg hfor] at hexamine
                rw [response_on hrecv hexamine] at h
                obtain ⟨skipped, q, rest', reply', hreaches, hreply⟩ := ih h
                exact ⟨r :: skipped, q, rest', reply', hreaches.after hout hfor, hreply⟩

theorem response_reached {skipped rest : List Request} {r : Request} {reply : Reply}
    (h : Reaches index subindex n l skipped r rest) (hcoming : ∀ k, l.coming k = .answer reply)
    (hreply : reply.abort = false) :
    ∃ t, exec (c.response lineBus index subindex n) l = (.ok (r.answer c reply), t) ∧
      t.latest = some (r, reply) := by
  induction skipped generalizing n l with
  | nil =>
      obtain ⟨n, rfl⟩ := Nat.exists_eq_succ_of_ne_zero (Nat.ne_of_gt h.near)
      have hrecv : exec lineBus.recv l = (.ok (r.answer c reply),
          { l.next with outstanding := rest, latest := some (r, reply) }) := by
        rw [exec_recv, Line.receive, hcoming, h.outstanding]
        rfl
      have hexamine := examine_answer (c := c) r reply index subindex
      rw [if_pos h.own, hreply, if_neg Bool.false_ne_true] at hexamine
      exact ⟨_, response_end hrecv hexamine, rfl⟩
  | cons q skipped ih =>
      obtain ⟨n, rfl⟩ := Nat.exists_eq_succ_of_ne_zero (Nat.ne_zero_of_lt h.near)
      have hrecv : exec lineBus.recv l = (.ok (q.answer c reply),
          { l.next with outstanding := skipped ++ r :: rest, latest := some (q, reply) }) := by
        rw [exec_recv, Line.receive, hcoming, h.outstanding]
        rfl
      have hexamine := examine_answer (c := c) q reply index subindex
      obtain ⟨hq, hothers⟩ := List.forall_mem_cons.mp h.others
      rw [if_neg hq] at hexamine
      rw [response_on hrecv hexamine]
      apply ih
      · exact ⟨rfl, hothers, h.own, Nat.lt_of_succ_lt_succ h.near⟩
      · exact fun k => hcoming (k + 1)

end Response

section Sending

variable {c : CanopenSdoClient} {index subindex : Int}

def InRange (index subindex : Int) : Prop :=
  0 ≤ index ∧ index < 2 ^ 16 ∧ 0 ≤ subindex ∧ subindex < 2 ^ 8

theorem Request.For.inRange {r : Request} (h : r.For index subindex) : InRange index subindex := by
  have hindex := r.index_lt
  have hsub := r.subindex_lt
  obtain ⟨rfl, rfl⟩ := h
  refine ⟨Int.natCast_nonneg _, by exact_mod_cast hindex, Int.natCast_nonneg _,
    by exact_mod_cast hsub⟩

theorem requestFrame_inRange (h : InRange index subindex) {command : Nat} (hcommand : command < 256)
    {data : List UInt8} (hdata : data.length = 4) :
    ∃ frame, c.requestFrame command index subindex data = .ok frame ∧
      frame.canId = c.requestCobId ∧ byte frame 0 = command ∧ frame.data.drop 4 = data ∧
      ∀ number, (requested number frame).For index subindex := by
  obtain ⟨hi, hilt, hs, hslt⟩ := h
  obtain ⟨i, rfl⟩ := Int.eq_ofNat_of_zero_le hi
  obtain ⟨s, rfl⟩ := Int.eq_ofNat_of_zero_le hs
  have hi16 : i < 2 ^ 16 := by exact_mod_cast hilt
  have hs8 : s < 2 ^ 8 := by exact_mod_cast hslt
  have hlow : (i : Int) % 256 = ((i % 256 : Nat) : Int) := rfl
  have hhigh : (i : Int) / 256 = ((i / 256 : Nat) : Int) := rfl
  have hbytes : pyBytes [(command : Int), (i : Int) % 256, (i : Int) / 256, (s : Int)] =
      .ok [UInt8.ofNat command, UInt8.ofNat (i % 256), UInt8.ofNat (i / 256), UInt8.ofNat s] := by
    rw [pyBytes, if_pos]
    · rfl
    · simp only [List.forall_mem_cons]
      refine ⟨?_, ?_, ?_, ?_, fun _ hmem => absurd hmem List.not_mem_nil⟩ <;> omega
  have hnode := c.nodeId_mem.2
  have hid : c.requestCobId ≤ 0x7FF := by
    rw [CanopenSdoClient.requestCobId]
    omega
  have hlength : ([UInt8.ofNat command, UInt8.ofNat (i % 256), UInt8.ofNat (i / 256),
      UInt8.ofNat s] ++ data).length ≤ 8 := by
    rw [List.length_append, hdata]
    exact Nat.le_refl 8
  refine ⟨⟨c.requestCobId, _, hid, hlength⟩, ?_, rfl, ?_, rfl, fun number => ⟨?_, ?_⟩⟩
  · rw [CanopenSdoClient.requestFrame, hbytes]
    exact (dif_pos hid).trans (dif_pos hlength)
  · exact UInt8.toNat_ofNat_of_lt hcommand
  · exact congrArg Nat.cast (index_bytes hi16)
  · exact congrArg Nat.cast (UInt8.toNat_ofNat_of_lt hs8)

theorem requestFrame_outside (h : ¬ InRange index subindex) (command : Nat) (data : List UInt8) :
    ∃ error, c.requestFrame command index subindex data = .error error := by
  have hbytes : ¬ ∀ x ∈ [(command : Int), index % 256, index / 256, subindex], 0 ≤ x ∧ x < 256 := by
    simp only [List.forall_mem_cons]
    rintro ⟨-, -, hhigh, hsub, -⟩
    apply h
    refine ⟨?_, ?_, ?_, ?_⟩ <;> omega
  refine ⟨.valueError "bytes must be in range(0, 256)", ?_⟩
  rw [CanopenSdoClient.requestFrame, pyBytes, if_neg hbytes]
  rfl

def Line.asked (own : Request) (l : Line c) : Line c :=
  { l with sent := l.sent + 1, outstanding := l.outstanding ++ [own] }

/-- The end of a call: it waits for its response and makes something of it. -/
def awaited {α : Type} (c : CanopenSdoClient) (index subindex : Int)
    (finish : CanFrame → Except CanError α) : Eff (Line c) CanError α := do
  let response ← c.response lineBus index subindex c.maxFrames
  liftExcept (finish response)

theorem exec_ask (h : InRange index subindex) {command : Nat} (hcommand : command < 256)
    {data : List UInt8} (hdata : data.length = 4) {α : Type} (finish : CanFrame → Except CanError α) :
    ∃ frame, ∀ l : Line c,
        exec (do
            let frame ← liftExcept (c.requestFrame command index subindex data)
            lineBus.send frame
            let response ← c.response lineBus index subindex c.maxFrames
            liftExcept (finish response)) l =
          exec (awaited c index subindex finish) (l.asked (requested l.sent frame)) := by
  obtain ⟨frame, hframe, hid, -⟩ := requestFrame_inRange (c := c) h hcommand hdata
  refine ⟨frame, fun l => ?_⟩
  have hbuilt : exec (liftExcept (c.requestFrame command index subindex data) :
      Eff (Line c) CanError CanFrame) l = (.ok frame, l) := by
    rw [exec_liftExcept, hframe]
  have hsent : exec (lineBus.send frame) l = (.ok ⟨⟩, l.asked (requested l.sent frame)) := by
    have hpost : exec (lineBus.send frame) l = (.ok ⟨⟩, l.post frame) := rfl
    rw [hpost, Line.post, if_pos hid]
    rfl
  rw [exec_bind_ok hbuilt, exec_bind_ok hsent]
  rfl

end Sending

section Calls

variable {c : CanopenSdoClient} {index subindex : Int} {l t : Line c} {α : Type}
variable {finish : CanFrame → Except CanError α}

theorem awaited_ok {got : α} (h : exec (awaited c index subindex finish) l = (.ok got, t)) :
    ∃ skipped r rest reply, Reaches index subindex c.maxFrames l skipped r rest ∧
      reply.abort = false ∧ t.latest = some (r, reply) ∧ finish (r.answer c reply) = .ok got := by
  rcases hresponse : exec (c.response lineBus index subindex c.maxFrames) l with ⟨error | frame, u⟩
  · rw [awaited, exec_bind_error hresponse] at h
    cases h
  · rw [awaited, exec_bind_ok hresponse, exec_liftExcept, Prod.mk.injEq] at h
    obtain ⟨hgot, rfl⟩ := h
    obtain ⟨skipped, r, rest, reply, hreaches, hreply, rfl, hlatest⟩ := response_ok hresponse
    exact ⟨skipped, r, rest, reply, hreaches, hreply, hlatest, hgot⟩

theorem reaches_asked {own r : Request} {skipped rest : List Request} {n : Nat}
    (h : Reaches index subindex n (l.asked own) skipped r rest) :
    r = own ∨ ∃ rest', Reaches index subindex n l skipped r rest' := by
  have hout : l.outstanding ++ [own] = skipped ++ r :: rest := h.outstanding
  rcases List.eq_nil_or_concat rest with rfl | ⟨rest', last, rfl⟩
  · left
    exact (List.cons.inj (List.append_inj_right' hout rfl)).1.symm
  · right
    have hcons : skipped ++ r :: (rest' ++ [last]) = (skipped ++ r :: rest') ++ [last] := by simp
    refine ⟨rest', ?_, h.others, h.own, h.near⟩
    rw [List.concat_eq_append, hcons] at hout
    exact List.append_inj_left' hout rfl

theorem Reaches.asked {r : Request} {skipped rest : List Request} {n : Nat}
    (h : Reaches index subindex n l skipped r rest) (own : Request) :
    Reaches index subindex n (l.asked own) skipped r (rest ++ [own]) := by
  refine ⟨?_, h.others, h.own, h.near⟩
  have hout : (l.asked own).outstanding = l.outstanding ++ [own] := rfl
  rw [hout, h.outstanding, List.append_assoc, List.cons_append]

def Line.facing (future : Nat → Reception c) (l : Line c) : Line c := { l with coming := future }

theorem reaches_facing {r : Request} {skipped rest : List Request} {n : Nat}
    (future : Nat → Reception c) :
    Reaches index subindex n (l.facing future) skipped r rest ↔
      Reaches index subindex n l skipped r rest :=
  ⟨fun h => ⟨h.outstanding, h.others, h.own, h.near⟩,
    fun h => ⟨h.outstanding, h.others, h.own, h.near⟩⟩

def Line.Numbered (l : Line c) : Prop := ∀ q ∈ l.outstanding, q.number < l.sent

/-- The first outstanding request for the object that a call can still hear the answer of, if
there is one, is of the other kind. -/
def Line.Clear (l : Line c) (kind : Kind) (index subindex : Int) : Prop :=
  ∀ skipped r rest, Reaches index subindex c.maxFrames l skipped r rest → r.kind ≠ kind

def goodReply : Reply := ⟨false, 3, [0, 0, 0, 0], rfl⟩

/-- A call hears its own answer, whatever the bus does, exactly if the line is clear. -/
theorem awaited_own_iff (index subindex : Int) (finish : CanFrame → Except CanError α) {kind : Kind}
    (hkind : ∀ r reply got, reply.abort = false → finish (Request.answer c r reply) = .ok got →
      r.kind = kind)
    (hgood : ∀ r, r.kind = kind → ∃ got, finish (Request.answer c r goodReply) = .ok got)
    (hnumbered : l.Numbered) (own : Request) (hown : own.number = l.sent) :
    (∀ future got t,
        exec (awaited c index subindex finish) ((l.facing future).asked own) = (.ok got, t) →
          ∃ r reply, t.latest = some (r, reply) ∧ r.number = l.sent ∧
            finish (r.answer c reply) = .ok got) ↔
      l.Clear kind index subindex := by
  constructor
  · intro h skipped r rest hreaches hsame
    have hearlier : r.number < l.sent := by
      apply hnumbered
      rw [hreaches.outstanding]
      exact List.mem_append_right skipped List.mem_cons_self
    have hline := (reaches_facing (fun _ => .answer goodReply)).mpr hreaches
    obtain ⟨t, hexec, hlatest⟩ := response_reached (hline.asked own) (fun _ => rfl) rfl
    obtain ⟨got, hgot⟩ := hgood r hsame
    have hawaited : exec (awaited c index subindex finish)
        ((l.facing (fun _ => .answer goodReply)).asked own) = (.ok got, t) := by
      rw [awaited, exec_bind_ok hexec, exec_liftExcept, hgot]
    obtain ⟨r', reply, hlatest', hnumber, -⟩ := h _ got t hawaited
    rw [hlatest, Option.some.injEq, Prod.mk.injEq] at hlatest'
    rw [← hlatest'.1] at hnumber
    exact absurd hnumber (Nat.ne_of_lt hearlier)
  · intro hclear future got t h
    obtain ⟨skipped, r, rest, reply, hreaches, hreply, hlatest, hgot⟩ := awaited_ok h
    refine ⟨r, reply, hlatest, ?_, hgot⟩
    rcases reaches_asked hreaches with rfl | ⟨rest', hold⟩
    · exact hown
    · have hline := (reaches_facing future).mp hold
      exact absurd (hkind r reply got hreply hgot) (hclear skipped r rest' hline)

end Calls

section Finishing

open CanopenSdoClient

variable {c : CanopenSdoClient} {index subindex : Int} {r : Request} {reply : Reply}

theorem answer_command (r : Request) (reply : Reply) :
    byte (r.answer c reply) 0 = r.command reply := (answer_bytes r reply).1

theorem acknowledged_kind (hreply : reply.abort = false)
    (h : acknowledged (r.answer c reply) = .ok ⟨⟩) : r.kind = .download := by
  cases hkind : r.kind with
  | download => rfl
  | upload =>
      have hcommand : r.command reply ≠ 0x60 := by
        rw [command_of_ok r hreply, hkind]
        dsimp only
        omega
      rw [acknowledged, answer_command, if_pos hcommand] at h
      cases h

theorem acknowledged_download (hreply : reply.abort = false) (h : r.kind = .download) :
    acknowledged (r.answer c reply) = .ok ⟨⟩ := by
  have hcommand : r.command reply = 0x60 := by
    rw [command_of_ok r hreply, h]
  rw [acknowledged, answer_command, hcommand]
  exact if_neg (not_not_intro rfl)

theorem uploaded_kind {got : SdoUpload} (hreply : reply.abort = false)
    (h : uploaded index subindex (r.answer c reply) = .ok got) : r.kind = .upload := by
  cases hkind : r.kind with
  | upload => rfl
  | download =>
      have hcommand : r.command reply = 0x60 := by
        rw [command_of_ok r hreply, hkind]
      have hwrong : (0x60 : Nat) &&& 0xE0 ≠ 0x40 ∨ (0x60 : Nat) &&& 0x02 = 0 := by decide
      rw [uploaded, answer_command, hcommand] at h
      rw [if_pos hwrong] at h
      cases h

theorem uploaded_upload (h : r.kind = .upload) :
    ∃ got, uploaded index subindex (r.answer c goodReply) = .ok got := by
  have hcommand : r.command goodReply = 0x43 := by
    rw [command_of_ok r rfl, h]
    rfl
  have hright : ¬ ((0x43 : Nat) &&& 0xE0 ≠ 0x40 ∨ (0x43 : Nat) &&& 0x02 = 0) := by decide
  refine ⟨⟨index, subindex, ((r.answer c goodReply).data.drop 4).take 4⟩, ?_⟩
  rw [uploaded, answer_command, hcommand]
  exact if_neg hright

end Finishing

section Runs

inductive Call
  | upload (index subindex : Int)
  | download (index subindex : Int) (data : List UInt8)

variable {c : CanopenSdoClient}

/-- What an upload returns, and what a download accepts, is the answer to its own request. -/
def Call.TakesOwn (l : Line c) : Call → Prop
  | .upload index subindex => ∀ got t,
      exec (c.upload lineBus index subindex) l = (.ok got, t) →
        ∃ r reply, t.latest = some (r, reply) ∧ r.number = l.sent ∧
          CanopenSdoClient.uploaded index subindex (r.answer c reply) = .ok got
  | .download index subindex data => ∀ got t,
      exec (c.download lineBus index subindex data) l = (.ok got, t) →
        ∃ r reply, t.latest = some (r, reply) ∧ r.number = l.sent ∧
          CanopenSdoClient.acknowledged (r.answer c reply) = .ok got

/-- Nothing outstanding can be taken for the answer to the call. -/
def Call.Clear (l : Line c) : Call → Prop
  | .upload index subindex => l.Clear .upload index subindex
  | .download index subindex data =>
      1 ≤ data.length → data.length ≤ 4 → l.Clear .download index subindex

def Call.after (l : Line c) : Call → Line c
  | .upload index subindex => (exec (c.upload lineBus index subindex) l).2
  | .download index subindex data => (exec (c.download lineBus index subindex data) l).2

variable {l : Line c}

theorem clear_outside {kind : Kind} {index subindex : Int} (h : ¬ InRange index subindex) :
    l.Clear kind index subindex := fun _ _ _ hreaches => absurd hreaches.own.inRange h

theorem takesOwn_iff {α : Type} {kind : Kind} {index subindex : Int}
    (hrange : InRange index subindex) {command : Nat} (hcommand : command < 256)
    {data : List UInt8} (hdata : data.length = 4) (finish : CanFrame → Except CanError α)
    (hkind : ∀ r reply got, reply.abort = false → finish (Request.answer c r reply) = .ok got →
      r.kind = kind)
    (hgood : ∀ r, r.kind = kind → ∃ got, finish (Request.answer c r goodReply) = .ok got)
    (hnumbered : l.Numbered) :
    (∀ future got t,
        exec (do
            let frame ← liftExcept (c.requestFrame command index subindex data)
            lineBus.send frame
            let response ← c.response lineBus index subindex c.maxFrames
            liftExcept (finish response)) (l.facing future) = (.ok got, t) →
          ∃ r reply, t.latest = some (r, reply) ∧ r.number = l.sent ∧
            finish (r.answer c reply) = .ok got) ↔
      l.Clear kind index subindex := by
  obtain ⟨frame, hexec⟩ := exec_ask (c := c) hrange hcommand hdata finish
  rw [← awaited_own_iff index subindex finish hkind hgood hnumbered (requested l.sent frame) rfl]
  simp only [hexec]
  exact Iff.rfl

theorem upload_outside {index subindex : Int} (h : ¬ InRange index subindex) :
    ∃ error, exec (c.upload lineBus index subindex) l = (.error error, l) := by
  obtain ⟨error, herror⟩ := requestFrame_outside (c := c) h 0x40 [0, 0, 0, 0]
  refine ⟨error, exec_bind_error ?_⟩
  rw [herror, exec_liftExcept]

theorem upload_takesOwn_iff (hnumbered : l.Numbered) (index subindex : Int) :
    (∀ future, (Call.upload index subindex).TakesOwn (l.facing future)) ↔
      l.Clear .upload index subindex := by
  by_cases hrange : InRange index subindex
  · exact takesOwn_iff hrange (by decide) rfl (CanopenSdoClient.uploaded index subindex)
      (fun _ _ _ => uploaded_kind) (fun _ => uploaded_upload) hnumbered
  · apply iff_of_true
    · intro future got t h
      obtain ⟨error, herror⟩ := upload_outside (c := c) (l := l.facing future) hrange
      rw [herror] at h
      cases h
    · exact clear_outside hrange

theorem length_ljust {data : List UInt8} (h : data.length ≤ 4) : (ljust data 4).length = 4 := by
  rw [ljust, List.length_append, List.length_replicate]
  omega

theorem commands_some {n : Nat} (hpos : 1 ≤ n) (hle : n ≤ 4) :
    ∃ command, CanopenSdoClient.commands n = some command ∧ command < 256 ∧ command ≠ 0x40 ∧
      4 - (command >>> 2 &&& 3) = n := by
  have hn : n = 1 ∨ n = 2 ∨ n = 3 ∨ n = 4 := by omega
  rcases hn with rfl | rfl | rfl | rfl
  all_goals exact ⟨_, rfl, by decide, by decide, by decide⟩

theorem commands_none {n : Nat} (h : ¬ (1 ≤ n ∧ n ≤ 4)) : CanopenSdoClient.commands n = none := by
  rw [CanopenSdoClient.commands]
  all_goals omega

theorem download_takesOwn_iff (hnumbered : l.Numbered) (index subindex : Int) (data : List UInt8) :
    (∀ future, (Call.download index subindex data).TakesOwn (l.facing future)) ↔
      (1 ≤ data.length → data.length ≤ 4 → l.Clear .download index subindex) := by
  have hraises (hnone : ∀ l : Line c, ∃ error,
      exec (c.download lineBus index subindex data) l = (.error error, l)) (future : Nat → Reception c) :
      (Call.download index subindex data).TakesOwn (l.facing future) := by
    intro got t h
    obtain ⟨error, herror⟩ := hnone (l.facing future)
    rw [herror] at h
    cases h
  by_cases hlength : 1 ≤ data.length ∧ data.length ≤ 4
  · obtain ⟨hpos, hle⟩ := hlength
    obtain ⟨command, hcommand, hlt, -⟩ := commands_some hpos hle
    by_cases hrange : InRange index subindex
    · have hcalls := takesOwn_iff hrange hlt (length_ljust hle) CanopenSdoClient.acknowledged
        (fun _ _ _ => acknowledged_kind) (fun _ hr => ⟨⟨⟩, acknowledged_download rfl hr⟩) hnumbered
      simp only [Call.TakesOwn, CanopenSdoClient.download, hcommand]
      exact hcalls.trans ⟨fun h _ _ => h, fun h => h hpos hle⟩
    · refine iff_of_true (hraises (fun l => ?_)) (fun _ _ => clear_outside hrange)
      obtain ⟨error, herror⟩ := requestFrame_outside (c := c) hrange command (ljust data 4)
      refine ⟨error, ?_⟩
      rw [CanopenSdoClient.download, hcommand]
      apply exec_bind_error
      rw [herror, exec_liftExcept]
  · refine iff_of_true (hraises (fun l => ?_)) (fun hpos hle => absurd ⟨hpos, hle⟩ hlength)
    rw [CanopenSdoClient.download, commands_none hlength]
    exact ⟨_, exec_throw _ l⟩

theorem send_numbered (frame : CanFrame) :
    Preserves Line.Numbered (lineBus.send frame : Eff (Line c) CanError PUnit) := by
  intro l hl
  have hpost : (exec (lineBus.send frame) l).2 = l.post frame := rfl
  rw [hpost, Line.post]
  split
  · intro q hq
    rcases List.mem_append.mp hq with hq | hq
    · exact Nat.lt_succ_of_lt (hl q hq)
    · rw [List.mem_singleton.mp hq]
      exact Nat.lt_succ_self l.sent
  · exact hl

theorem recv_numbered : Preserves Line.Numbered (lineBus.recv : Eff (Line c) CanError CanFrame) := by
  intro l hl
  have hrecv : (exec lineBus.recv l).2 = l.receive.2 := rfl
  rw [hrecv, Line.receive]
  cases l.coming 0 with
  | other frame hne => exact hl
  | fail error => exact hl
  | answer reply =>
      cases hout : l.outstanding with
      | nil => exact hl
      | cons r rest =>
          intro q hq
          apply hl
          rw [hout]
          exact List.mem_cons_of_mem r hq

theorem response_numbered (index subindex : Int) (n : Nat) :
    Preserves Line.Numbered
      (c.response lineBus index subindex n : Eff (Line c) CanError CanFrame) := by
  induction n with
  | zero => exact preserves_throw _
  | succ n ih =>
      apply preserves_bind recv_numbered
      intro frame
      cases c.examine index subindex frame with
      | none => exact ih
      | some result => exact preserves_liftExcept result

theorem after_numbered (hl : l.Numbered) (call : Call) : (call.after l).Numbered := by
  have hask {α : Type} (index subindex : Int) (request : Except CanError CanFrame)
      (finish : CanFrame → Except CanError α) :
      Preserves Line.Numbered (do
        let frame ← (liftExcept request : Eff (Line c) CanError CanFrame)
        lineBus.send frame
        let response ← c.response lineBus index subindex c.maxFrames
        liftExcept (finish response)) := by
    apply preserves_bind (P := Line.Numbered) (preserves_liftExcept request)
    intro frame
    apply preserves_bind (send_numbered frame)
    intro _
    exact preserves_bind (response_numbered index subindex c.maxFrames)
      (fun response => preserves_liftExcept (finish response))
  cases call with
  | upload index subindex => exact hask index subindex _ _ l hl
  | download index subindex data =>
      rw [Call.after, CanopenSdoClient.download]
      cases CanopenSdoClient.commands data.length with
      | none => exact hl
      | some command => exact hask index subindex _ _ l hl

def line (calls : Nat → Call) (coming : Nat → Reception c) (n : Nat) : Line c :=
  wave (fun l call => call.after l) (Line.start coming) calls n

theorem line_numbered (calls : Nat → Call) (coming : Nat → Reception c) (n : Nat) :
    (line calls coming n).Numbered :=
  wave_invariant (P := Line.Numbered) (fun _ hq => absurd hq List.not_mem_nil)
    (fun _ call hl => after_numbered hl call) calls n

end Runs

/-- Along any calls over any bus, each takes its own answer or raises, whatever the bus still
does, exactly as long as none finds an earlier request of its kind outstanding as the first one
for its object. -/
theorem answers_match_iff (c : CanopenSdoClient) (calls : Nat → Call)
    (coming : Nat → Reception c) (N : Nat) :
    (∀ n, n < N → ∀ future, (calls n).TakesOwn ((line calls coming n).facing future)) ↔
      ∀ n, n < N → (calls n).Clear (line calls coming n) := by
  have hcall (n : Nat) : (∀ future, (calls n).TakesOwn ((line calls coming n).facing future)) ↔
      (calls n).Clear (line calls coming n) := by
    have hnumbered := line_numbered calls coming n
    cases calls n with
    | upload index subindex => exact upload_takesOwn_iff hnumbered index subindex
    | download index subindex data => exact download_takesOwn_iff hnumbered index subindex data
  exact forall_congr' (fun n => imp_congr_right (fun _ => hcall n))

def node5 : CanopenSdoClient := ⟨5, 32, by decide, by decide⟩

def lateServer (n : Nat) : Reception node5 :=
  if n = 0 then .fail (.timeoutError "timed out") else .answer ⟨false, 0x0B, [0x37, 0, 0, 0], rfl⟩

/-- The line after a poll of the statusword that has timed out. -/
def afterTimeout : Line node5 := line (fun _ => .upload 0x6041 0) lateServer 1

/-- The second poll takes the answer to the first. -/
theorem late_statusword_taken :
    (exec (node5.upload lineBus 0x6041 0) afterTimeout).1 = .ok ⟨0x6041, 0, [0x37, 0]⟩ ∧
      ¬ (Call.upload 0x6041 0).TakesOwn afterTimeout := by
  have hfirst : (exec (node5.upload lineBus 0x6041 0) afterTimeout).1 =
      .ok ⟨0x6041, 0, [0x37, 0]⟩ := by decide +kernel
  have hnumbers : (exec (node5.upload lineBus 0x6041 0) afterTimeout).2.latest.map
      (fun answered => answered.1.number) = some 0 := by decide +kernel
  have hsent : afterTimeout.sent = 1 := by decide +kernel
  have hexec : exec (node5.upload lineBus 0x6041 0) afterTimeout =
      (.ok ⟨0x6041, 0, [0x37, 0]⟩, (exec (node5.upload lineBus 0x6041 0) afterTimeout).2) :=
    Prod.ext hfirst rfl
  refine ⟨hfirst, fun h => ?_⟩
  obtain ⟨r, reply, hlatest, hnumber, -⟩ := h _ _ hexec
  rw [hlatest] at hnumbers
  rw [hsent] at hnumber
  cases hnumber.symm.trans (Option.some.inj hnumbers)

end HilLab.Fieldbus.SdoMatching
