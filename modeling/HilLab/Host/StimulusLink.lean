import HilLab.Host.ForceSafe
import HilLab.Host.PruLink
import HilLab.Pru.StimulusStop

namespace HilLab.Host.StimulusLink

open Host.Core PruProtocol Rpmsg PruLink Pru.Protocol Pru.Stimulus Pru.StimulusInvariant
open Pru.StimulusStop

/-- When pru1_b2 serves a request: the ticks of the passes of its main loop since the one
before, and the two readings around the response. -/
structure Moment where
  passes : List (BitVec 32)
  now : BitVec 32
  startNow : BitVec 32

def advance (s : Stim) (passes : List (BitVec 32)) : Stim :=
  passes.foldl (fun s now => s.iterate ⟨now, false, []⟩) s

def reception (e : Moment) (m : Msg) : Reception := ⟨sizeofMsg, m, e.now, e.startNow⟩

theorem answer_echoes (s : Stim) (e : Moment) (m : Msg) (_ : m.magic = hilPruMagic)
    (_ : m.version = hilPruProtocolVersion) :
    (s.answer (reception e m)).magic = hilPruMagic ∧
      (s.answer (reception e m)).version = hilPruProtocolVersion ∧
      (s.answer (reception e m)).type = m.type ||| responseBit ∧
      (s.answer (reception e m)).seq = m.seq :=
  ⟨rfl, rfl, rfl, rfl⟩

def pru1B2 : Firmware Stim Moment where
  serve s e m := (advance s e.passes).serve (reception e m)
  answer s e m := (advance s e.passes).answer (reception e m)
  echoes s e m := answer_echoes (advance s e.passes) e m

theorem advance_loopHead {s : Stim} (h : LoopHead s) (passes : List (BitVec 32)) :
    LoopHead (advance s passes) := by
  induction passes generalizing s with
  | nil => exact h
  | cons now passes ih => exact ih (iterate_loopHead h _)

theorem outcome_loopHead {s : Stim} (h : LoopHead s) (e : Moment) (m : Msg)
    (packed : Except HostError Payload) : LoopHead (outcome pru1B2 s e m packed).2 := by
  cases packed with
  | ok packet => exact serve_loopHead (advance_loopHead h e.passes) _
  | error err => exact h

theorem direct_loopHead {s : Stim} (h : LoopHead s) (cs : List (Call Moment)) (seq : Nat) :
    LoopHead (direct pru1B2 cs seq s).2 := by
  induction cs generalizing s seq with
  | nil => exact h
  | cons c cs ih =>
      rw [direct_cons]
      exact ih (outcome_loopHead h c.moment _ _) (seq + 1)

def forceSafeCall (e : Moment) : Call Moment := ⟨msgForceSafe, {}, e⟩

theorem forceSafe_answered (s : Stim) (e : Moment) (seq : Nat) :
    Answered s (reception e (requested msgForceSafe seq {})) .forceSafe := by
  rw [answered_iff]
  exact ⟨rfl, rfl⟩

theorem forceSafe_outcome {s : Stim} (h : LoopHead s) (e : Moment) {seq : Nat} (hseq : seq < 0x100000000) :
    ∃ m, (outcome pru1B2 s e (requested msgForceSafe seq {}) ((forceSafeCall e).packed seq)).1 = .ok m ∧
      m.flags = 0 ∧
      Quiet (outcome pru1B2 s e (requested msgForceSafe seq {}) ((forceSafeCall e).packed seq)).2 := by
  have hp : (forceSafeCall e).packed seq = .ok (HilPru.message msgForceSafe seq {}).packet :=
    Message.pack_ok ((ForceSafe.packs_forceSafe_iff seq).mpr hseq)
  have hans := forceSafe_answered (advance s e.passes) e seq
  have hflags : ((advance s e.passes).answer (reception e (requested msgForceSafe seq {}))).flags = 0 :=
    hans.2
  rw [hp]
  refine ⟨_, rfl, ?_, stop_quiet (advance_loopHead h e.passes) rfl hans (by simp)⟩
  change ((advance s e.passes).answer (reception e (requested msgForceSafe seq {}))).flags.toNat = 0
  rw [hflags]
  rfl

/-- Over a link that loses and delays nothing, any script of requests with any Python integers
gives the host what calling the firmware would, whatever the firmware does between them, and
leaves the firmware at a coherent loop head; and a FORCE_SAFE after it is answered with OK and
keeps the outputs at 0 until a later start is accepted. -/
theorem host_drives_stimulus (r30 : BitVec 32) (cs : List (Call Moment)) (link : HilPru)
    (hq : link.queue = []) :
    (converse pru1B2 cs link (Stim.init r30)).1 = (direct pru1B2 cs link.seq (Stim.init r30)).1 ∧
    (converse pru1B2 cs link (Stim.init r30)).2.2 = (direct pru1B2 cs link.seq (Stim.init r30)).2 ∧
    LoopHead (converse pru1B2 cs link (Stim.init r30)).2.2 ∧
    (converse pru1B2 cs link (Stim.init r30)).2.1.queue = [] ∧
    (link.seq + cs.length < 0x100000000 → ∀ e, ∃ m,
      (converse pru1B2 (cs ++ [forceSafeCall e]) link (Stim.init r30)).1 =
        (converse pru1B2 cs link (Stim.init r30)).1 ++ [.ok m] ∧
      m.flags = 0 ∧ StaysSafe (converse pru1B2 (cs ++ [forceSafeCall e]) link (Stim.init r30)).2.2) := by
  obtain ⟨hresults, hstate, hqueue, -⟩ := @converse_eq _ _ pru1B2 (Stim.init r30) link cs hq
  have hhead : LoopHead (direct pru1B2 cs link.seq (Stim.init r30)).2 :=
    direct_loopHead (init_loopHead r30) cs link.seq
  refine ⟨hresults, hstate, hstate ▸ hhead, hqueue, fun hseq e => ?_⟩
  obtain ⟨hresults', hstate', -, -⟩ :=
    @converse_eq _ _ pru1B2 (Stim.init r30) link (cs ++ [forceSafeCall e]) hq
  obtain ⟨happ1, happ2⟩ := @direct_concat _ _ pru1B2 cs (forceSafeCall e) link.seq (Stim.init r30) _ rfl
  obtain ⟨m, hm, hflags, hquiet⟩ := forceSafe_outcome hhead e hseq
  refine ⟨m, ?_, hflags, ?_⟩
  · rw [hresults', happ1, hresults]
    exact congrArg (fun r => _ ++ [r]) hm
  · rw [hstate', happ2]
    exact quiet_staysSafe hquiet

/-- An ABZ start, an argument that does not fit a word, and FORCE_SAFE. -/
def sampleScript : List (Call Moment) :=
  [⟨17, {}, ⟨[], 10, 20⟩⟩, ⟨16, { arg0 := -1 }, ⟨[200020], 200030, 200030⟩⟩]

theorem host_drives_stimulus_sample : ∃ m,
    (converse pru1B2 (sampleScript ++ [forceSafeCall ⟨[400020], 400030, 400030⟩]) {} (Stim.init 0)).1 =
      (converse pru1B2 sampleScript {} (Stim.init 0)).1 ++ [.ok m] ∧ m.flags = 0 := by
  obtain ⟨-, -, -, -, hsafe⟩ := host_drives_stimulus 0 sampleScript {} rfl
  obtain ⟨m, hm, hflags, -⟩ := hsafe (by decide) ⟨[400020], 400030, 400030⟩
  exact ⟨m, hm, hflags⟩

end HilLab.Host.StimulusLink
