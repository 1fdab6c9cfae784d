import HilLab.Lib.Clocked
import HilLab.Pru.Serial
import Mathlib.Tactic.SplitIfs

namespace HilLab.Pru.SerialLine

open Serial

section Settings

/-- What a request may set and no edge changes. -/
structure Settings where
  configured : Bool
  enabled : Bool
  startPending : Bool
  mode : SerialMode
  dataBits : Word
  frameGapTicks : Word
  dataValue : Word
  faultMask : Word
  dataFlags : Word
deriving DecidableEq

def settings (s : Emulator) : Settings :=
  { configured := s.configured, enabled := s.enabled, startPending := s.startPending,
    mode := s.mode, dataBits := s.dataBits, frameGapTicks := s.frameGapTicks,
    dataValue := s.dataValue, faultMask := s.faultMask, dataFlags := s.dataFlags }

def Settings.frame (g : Settings) : BitVec 64 :=
  (buildFrame g.mode g.dataBits g.dataValue g.faultMask g.dataFlags).1

def Settings.totalBits (g : Settings) : Word :=
  (buildFrame g.mode g.dataBits g.dataValue g.faultMask g.dataFlags).2

def Settings.bit (g : Settings) (i : Nat) : Bool :=
  frameBit g.frame g.totalBits (BitVec.ofNat 32 i) != 0

/-- Enabled in mode SSI or BiSS, as a configuration leaves it. -/
structure Settings.Streaming (g : Settings) : Prop where
  enabled : g.enabled = true
  settled : g.startPending = false
  mode : g.mode = .ssi ∨ g.mode = .biss
  bits : 1 ≤ g.dataBits.toNat ∧ g.dataBits.toNat ≤ 32
  gap : g.frameGapTicks ≠ 0

theorem totalBits_range {g : Settings} (h : g.Streaming) :
    1 ≤ g.totalBits.toNat ∧ g.totalBits.toNat ≤ 43 := by
  obtain ⟨hpos, hle⟩ := h.bits
  rcases h.mode with hmode | hmode
  · have htotal : g.totalBits = g.dataBits := by
      rw [Settings.totalBits, hmode]
      rfl
    rw [htotal]
    exact ⟨hpos, Nat.le_trans hle (by decide)⟩
  · have htotal : g.totalBits = g.dataBits + 11 := by
      rw [Settings.totalBits, hmode]
      rfl
    have heleven : (11 : Word).toNat = 11 := rfl
    rw [htotal, BitVec.toNat_add, heleven, Nat.mod_eq_of_lt (by omega)]
    exact ⟨by omega, by omega⟩

/-- What holds of the settings in every state reached. -/
structure Settings.Valid (g : Settings) : Prop where
  settled : g.startPending = false
  bits : 1 ≤ g.dataBits.toNat ∧ g.dataBits.toNat ≤ 32
  configured : g.configured = true → g.mode ≠ .none
  enabled : g.enabled = true → g.configured = true

end Settings

section Line

/-- What the master sees of a sender: the bit that it has reached, if any, the ticks of the last
edge, the frames sent and the levels of DATA and of the clock. -/
structure Line where
  sending : Option Nat
  lastEdge : Word
  frames : Nat
  data : Bool
  clk : Bool
deriving DecidableEq

variable (total : Nat) (bit : Nat → Bool) (gap now : Word)

def Line.load (l : Line) : Line := { l with sending := some 0, data := bit 0 }

/-- At a falling edge a frame starts, or goes on by a bit. -/
def Line.fall (l : Line) : Line :=
  match l.sending with
  | none => l.load bit
  | some i =>
      if l.lastEdge = 0 ∨ gap ≤ now - l.lastEdge then l.load bit
      else if i + 1 < total then { l with sending := some (i + 1), data := bit (i + 1) }
      else l

def Line.release (l : Line) : Line := { l with sending := none, data := true }

/-- At a rising edge the last bit ends the frame. -/
def Line.rise (l : Line) : Line :=
  match l.sending with
  | none => l
  | some i => if total ≤ i + 1 then { l.release with frames := l.frames + 1 } else l

def Line.timeout (l : Line) : Line :=
  if l.sending.isSome ∧ gap ≤ now - l.lastEdge then l.release else l

def Line.step (clk : Bool) (l : Line) : Line :=
  let fall := !clk && l.clk
  let rise := clk && !l.clk
  let l := if fall then l.fall total bit gap now else l
  let l := if rise then l.rise total else l
  let l := if rise || fall then { l with lastEdge := now } else l
  { l.timeout gap now with clk }

end Line

section Refinement

/-- The emulator does what the line shows. -/
structure Sends (g : Settings) (count : Word) (s : Emulator) (l : Line) : Prop where
  settings : settings s = g
  active : s.frameActive = l.sending.isSome
  current : ∀ i, l.sending = some i → s.currentFrame = g.frame ∧ s.totalBits = g.totalBits ∧
    s.bitIndex = BitVec.ofNat 32 i ∧ i < g.totalBits.toNat
  lastEdge : s.lastEdgeTicks = l.lastEdge
  count : s.frameCount = count + BitVec.ofNat 32 l.frames
  data : s.data = l.data
  clk : s.lastClk = l.clk

@[simp] theorem data_setDataOutput (s : Emulator) (value : Word) :
    (s.setDataOutput value).data = (value != 0) := by
  have hset : (s.r30 ||| dataMask) &&& dataMask = dataMask := by
    ext i hi
    simp only [BitVec.getElem_and, BitVec.getElem_or]
    cases s.r30[i] <;> cases dataMask[i] <;> rfl
  have hclear : (s.r30 &&& ~~~dataMask) &&& dataMask = 0#32 := by
    ext i hi
    simp only [BitVec.getElem_and, BitVec.getElem_not, BitVec.getElem_zero]
    cases s.r30[i] <;> cases dataMask[i] <;> rfl
  rw [Emulator.data, Emulator.setDataOutput]
  dsimp only
  by_cases hvalue : value = 0
  · rw [if_neg (not_not_intro hvalue), hclear, hvalue]
    rfl
  · rw [if_pos hvalue, hset, bne_iff_ne.mpr hvalue]
    rfl

variable {g : Settings} {count : Word} {s : Emulator} {l : Line}

theorem Sends.load (h : Sends g count s l) (hg : g.Streaming) :
    Sends g count s.loadFrame (l.load g.bit) := by
  obtain ⟨hsettings, -, -, hlast, hcount, -, hclk⟩ := h
  subst hsettings
  refine ⟨rfl, rfl, fun i hi => ?_, hlast, hcount, ?_, hclk⟩
  · obtain rfl := Option.some.inj hi
    exact ⟨rfl, rfl, rfl, (totalBits_range hg).1⟩
  · exact data_setDataOutput _ _

theorem Sends.release (h : Sends g count s l) : Sends g count s.frameEnd l.release := by
  refine ⟨h.settings, rfl, fun i hi => ?_, h.lastEdge, h.count, ?_, h.clk⟩
  · cases hi
  · exact data_setDataOutput _ _

theorem Sends.next_toNat (h : Sends g count s l) (hg : g.Streaming) {i : Nat}
    (hi : l.sending = some i) : (s.bitIndex + 1).toNat = i + 1 := by
  obtain ⟨-, -, hindex, hlt⟩ := h.current i hi
  have hle := (totalBits_range hg).2
  have hone : (1 : Word).toNat = 1 := rfl
  rw [hindex, BitVec.toNat_add, BitVec.toNat_ofNat, hone]
  omega

theorem Sends.next (h : Sends g count s l) {i : Nat} (hi : l.sending = some i)
    (hlt : i + 1 < g.totalBits.toNat) :
    Sends g count s.nextBit { l with sending := some (i + 1), data := g.bit (i + 1) } := by
  obtain ⟨hframe, htotal, hindex, -⟩ := h.current i hi
  have hnext : s.bitIndex + 1 = BitVec.ofNat 32 (i + 1) := by
    rw [hindex, BitVec.ofNat_add]
    rfl
  refine ⟨h.settings, ?_, fun j hj => ?_, h.lastEdge, h.count, ?_, h.clk⟩
  · have hactive : s.nextBit.frameActive = s.frameActive := rfl
    rw [hactive, h.active, hi]
    rfl
  · obtain rfl := Option.some.inj hj
    exact ⟨hframe, htotal, hnext, hlt⟩
  · rw [Emulator.nextBit, data_setDataOutput, hframe, htotal, hnext]
    rfl

theorem Sends.gapElapsed (h : Sends g count s l) (hg : g.Streaming) (now : Word) :
    s.gapElapsed now = true ↔ l.lastEdge = 0 ∨ g.frameGapTicks ≤ now - l.lastEdge := by
  have hgap : s.frameGapTicks = g.frameGapTicks := congrArg Settings.frameGapTicks h.settings
  rw [Emulator.gapElapsed, h.lastEdge, hgap]
  by_cases hzero : l.lastEdge = 0
  · rw [if_pos hzero]
    exact iff_of_true rfl (Or.inl hzero)
  · rw [if_neg hzero, if_neg hzero, bne_iff_ne.mpr hg.gap, Bool.true_and, decide_eq_true_iff]
    exact (or_iff_right hzero).symm

theorem Sends.fall (h : Sends g count s l) (hg : g.Streaming) (now : Word) :
    Sends g count (s.clockFall now) (l.fall g.totalBits.toNat g.bit g.frameGapTicks now) := by
  rw [Emulator.clockFall, Line.fall, h.active]
  cases hsending : l.sending with
  | none => exact h.load hg
  | some i =>
      obtain ⟨-, htotal, -, -⟩ := h.current i hsending
      have hlt : s.bitIndex + 1 < s.totalBits ↔ i + 1 < g.totalBits.toNat := by
        rw [BitVec.lt_def, h.next_toNat hg hsending, htotal]
      simp only [Option.isSome_some, Bool.not_true, Bool.false_or, h.gapElapsed hg, hlt]
      by_cases hgap : l.lastEdge = 0 ∨ g.frameGapTicks ≤ now - l.lastEdge
      · rw [if_pos hgap, if_pos hgap]
        exact h.load hg
      · rw [if_neg hgap, if_neg hgap]
        by_cases hnext : i + 1 < g.totalBits.toNat
        · rw [if_pos hnext, if_pos hnext]
          exact h.next hsending hnext
        · rw [if_neg hnext, if_neg hnext]
          exact h

theorem Sends.rise (h : Sends g count s l) (hg : g.Streaming) :
    Sends g count s.clockRise (l.rise g.totalBits.toNat) := by
  rw [Emulator.clockRise, Line.rise, h.active]
  cases hsending : l.sending with
  | none => exact h
  | some i =>
      obtain ⟨-, htotal, -, -⟩ := h.current i hsending
      have hle : s.totalBits ≤ s.bitIndex + 1 ↔ g.totalBits.toNat ≤ i + 1 := by
        rw [BitVec.le_def, h.next_toNat hg hsending, htotal]
      simp only [Option.isSome_some, true_and, hle]
      by_cases hlast : g.totalBits.toNat ≤ i + 1
      · rw [if_pos hlast, if_pos hlast]
        have hrelease := h.release
        refine ⟨hrelease.settings, rfl, hrelease.current, hrelease.lastEdge, ?_, ?_, hrelease.clk⟩
        · have hcounted : s.frameCount + 1 = count + BitVec.ofNat 32 (l.frames + 1) := by
            rw [h.count, BitVec.ofNat_add, BitVec.add_assoc]
            rfl
          exact hcounted
        · exact data_setDataOutput _ _
      · rw [if_neg hlast, if_neg hlast]
        exact h

theorem Sends.edge (h : Sends g count s l) (now : Word) :
    Sends g count (s.updateMinHalfPeriod now) { l with lastEdge := now } :=
  ⟨h.settings, h.active, h.current, rfl, h.count, h.data, h.clk⟩

theorem Sends.timeout (h : Sends g count s l) (hg : g.Streaming) (now : Word) :
    Sends g count (s.gapTimeout now) (l.timeout g.frameGapTicks now) := by
  have hgap : s.frameGapTicks = g.frameGapTicks := congrArg Settings.frameGapTicks h.settings
  have hzero : g.frameGapTicks ≠ 0 := hg.gap
  simp only [Emulator.gapTimeout, Line.timeout, h.active, hgap, h.lastEdge, hzero, ne_eq,
    not_false_eq_true, true_and]
  split
  · exact h.release
  · exact h

theorem Sends.driven (h : Sends g count s l) (hg : g.Streaming) (now : Word) (rise fall : Bool) :
    Sends g count (s.clockDriven now rise fall)
      (let l := if fall then l.fall g.totalBits.toNat g.bit g.frameGapTicks now else l
       let l := if rise then l.rise g.totalBits.toNat else l
       let l := if rise || fall then { l with lastEdge := now } else l
       l.timeout g.frameGapTicks now) := by
  rw [Emulator.clockDriven]
  apply Sends.timeout _ hg
  have hfall : Sends g count (if fall then s.clockFall now else s)
      (if fall then l.fall g.totalBits.toNat g.bit g.frameGapTicks now else l) := by
    cases fall with
    | true => exact h.fall hg now
    | false => exact h
  generalize (if fall then s.clockFall now else s) = s' at *
  generalize (if fall then l.fall g.totalBits.toNat g.bit g.frameGapTicks now else l) = l' at *
  cases rise with
  | true => exact (hfall.rise hg).edge now
  | false =>
      cases fall with
      | true => exact hfall.edge now
      | false => exact hfall

theorem sample_streaming (hg : (settings s).Streaming) (now raw : Word) :
    s.sample now raw =
      { s.clockDriven now ((raw &&& clkMask != 0) && !s.lastClk)
          (!(raw &&& clkMask != 0) && s.lastClk) with
        lastClk := raw &&& clkMask != 0, lastCs := raw &&& csMask != 0 } := by
  have henabled : s.enabled = true := hg.enabled
  have hmode : s.mode = .ssi ∨ s.mode = .biss := hg.mode
  rw [Emulator.sample, if_pos henabled]
  rcases hmode with hmode | hmode
  · rw [hmode]
  · rw [hmode]

/-- One pass on a sample of the clock is one step of the line. -/
theorem Sends.sample (h : Sends g count s l) (hg : g.Streaming) (now raw : Word) :
    Sends g count (s.sample now raw)
      (l.step g.totalBits.toNat g.bit g.frameGapTicks now (raw &&& clkMask != 0)) := by
  rw [sample_streaming (h.settings ▸ hg), h.clk]
  have hdriven := h.driven hg now ((raw &&& clkMask != 0) && !l.clk) (!(raw &&& clkMask != 0) && l.clk)
  exact ⟨hdriven.settings, hdriven.active, hdriven.current, hdriven.lastEdge, hdriven.count,
    hdriven.data, rfl⟩

end Refinement

section Reached

variable (s : Emulator) (now : Word)

theorem settings_clockDriven (clkRise clkFall : Bool) :
    settings (s.clockDriven now clkRise clkFall) = settings s := by
  have hfall (s : Emulator) : settings (s.clockFall now) = settings s := by
    rw [Emulator.clockFall]
    split_ifs <;> rfl
  have hrise (s : Emulator) : settings s.clockRise = settings s := by
    rw [Emulator.clockRise]
    split_ifs <;> rfl
  have hedge (s : Emulator) : settings (s.updateMinHalfPeriod now) = settings s := rfl
  have htimeout (s : Emulator) : settings (s.gapTimeout now) = settings s := by
    rw [Emulator.gapTimeout]
    split_ifs <;> rfl
  rw [Emulator.clockDriven, htimeout]
  cases clkRise <;> cases clkFall <;> simp [hfall, hrise, hedge]

theorem settings_selectDriven (clkRise clkFall cs csFall csRise mosi : Bool) :
    settings (s.selectDriven now clkRise clkFall cs csFall csRise mosi) = settings s := by
  have hselected (s : Emulator) : settings (s.selected now) = settings s := rfl
  have hreceive (s : Emulator) : settings (s.receiveMosi now mosi) = settings s := rfl
  have hsend (s : Emulator) : settings (s.sendMiso now) = settings s := by
    rw [Emulator.sendMiso]
    split_ifs <;> rfl
  have hdeselected (s : Emulator) : settings s.deselected = settings s := rfl
  rw [Emulator.selectDriven]
  dsimp only
  split_ifs <;> simp [hselected, hreceive, hsend, hdeselected]

theorem settings_sample (raw : Word) : settings (s.sample now raw) = settings s := by
  rw [Emulator.sample]
  cases s.enabled with
  | false => rfl
  | true =>
      cases s.mode with
      | none => rfl
      | ssi => exact settings_clockDriven s now _ _
      | biss => exact settings_clockDriven s now _ _
      | spi => exact settings_selectDriven s now _ _ _ _ _ _

theorem startPendingRun_of_not {baseline startNow : Word} (h : s.startPending = false) :
    s.startPendingRun baseline startNow = s := by
  rw [Emulator.startPendingRun, h, if_neg Bool.false_ne_true]

theorem handleRequest_fst (request : Protocol.Msg) (len : BitVec 16) :
    (handleRequest request now s len).1 = (handle request now s len).1 := by
  rw [handleRequest]
  obtain ⟨next, reply⟩ := handle request now s len
  dsimp only
  split_ifs <;> rfl

/-- A message that does not end the streaming. -/
def Harmless (r : Reception) : Prop :=
  accept r.request r.len ≠ .ok .forceSafe ∧ accept r.request r.len ≠ .ok .serialStop

variable {s}

theorem serve_harmless (henabled : s.enabled = true) (hsettled : s.startPending = false)
    {r : Reception} (h : Harmless r) : s.serve r = s := by
  have hhandle : (handle r.request r.now s r.len).1 = s := by
    rw [handle]
    cases haccept : accept r.request r.len with
    | error flags => rfl
    | ok command =>
        cases command with
        | hello => rfl
        | time => rfl
        | ping => rfl
        | forceSafe => exact absurd haccept h.1
        | serialConfig =>
            change (serialConfig r.request s).1 = s
            rw [serialConfig, if_pos henabled]
            rfl
        | serialData =>
            change (serialData r.request s).1 = s
            rw [serialData, if_pos henabled]
            rfl
        | serialStart =>
            change (serialStart r.now s).1 = s
            rw [serialStart, henabled, Bool.or_true, Bool.true_or, if_pos rfl]
            rfl
        | serialStop => exact absurd haccept h.2
        | serialStatus => rfl
  rw [Emulator.serve, handleRequest_fst, hhandle, startPendingRun_of_not s hsettled]

theorem iterate_enabled (henabled : s.enabled = true) (hsettled : s.startPending = false)
    {i : Iteration} (h : ∀ r ∈ i.received, Harmless r) : s.iterate i = s.sample i.now i.raw := by
  have hkept := settings_sample s i.now i.raw
  have hsampleEnabled : (s.sample i.now i.raw).enabled = true :=
    (congrArg Settings.enabled hkept).trans henabled
  have hsampleSettled : (s.sample i.now i.raw).startPending = false :=
    (congrArg Settings.startPending hkept).trans hsettled
  have hserved (rs : List Reception) (hrs : ∀ r ∈ rs, Harmless r) :
      rs.foldl Emulator.serve (s.sample i.now i.raw) = s.sample i.now i.raw := by
    induction rs with
    | nil => rfl
    | cons r rs ih =>
        obtain ⟨hr, hrest⟩ := List.forall_mem_cons.mp hrs
        rw [List.foldl_cons, serve_harmless hsampleEnabled hsampleSettled hr]
        exact ih hrest
  rw [Emulator.iterate]
  cases i.hostInt with
  | false => rfl
  | true => exact hserved i.received h

theorem iterate_harmless (hg : (settings s).Streaming) {i : Iteration}
    (h : ∀ r ∈ i.received, Harmless r) : s.iterate i = s.sample i.now i.raw :=
  iterate_enabled hg.enabled hg.settled h

theorem valid_init (r30 : Word) : (settings (Emulator.init r30)).Valid := by
  have hbits : 1 ≤ (24 : Word).toNat ∧ (24 : Word).toNat ≤ 32 := by decide
  exact ⟨rfl, hbits, fun h => Bool.noConfusion h, fun h => Bool.noConfusion h⟩

theorem ofCode_ne_none {code : Word} {mode : SerialMode} (h : SerialMode.ofCode code = some mode) :
    mode ≠ .none := by
  have hmem := List.mem_of_find?_eq_some h
  rintro rfl
  revert hmem
  decide

/-- Valid but for a pending start of what is configured. -/
structure Settings.Pending (g : Settings) : Prop where
  rest : { g with startPending := false }.Valid
  configured : g.startPending = true → g.configured = true

theorem Settings.Valid.pending {g : Settings} (h : g.Valid) : g.Pending :=
  ⟨⟨rfl, h.bits, h.configured, h.enabled⟩, fun hp => Bool.noConfusion (h.settled.symm.trans hp)⟩

theorem pending_serialConfig (h : (settings s).Valid) (request : Protocol.Msg) :
    (settings (serialConfig request s).1).Pending := by
  rw [serialConfig]
  by_cases henabled : s.enabled = true
  · rw [if_pos henabled]
    exact h.pending
  · rw [if_neg henabled]
    cases hmode : SerialMode.ofCode request.arg0 with
    | none => exact h.pending
    | some mode =>
        dsimp only
        by_cases hbits : request.arg1 = 0 ∨ 32 < request.arg1
        · rw [if_pos hbits]
          exact h.pending
        · rw [if_neg hbits]
          obtain ⟨hzero, hle⟩ := not_or.mp hbits
          have hpos : request.arg1.toNat ≠ 0 := fun hz => hzero (BitVec.eq_of_toNat_eq hz)
          exact ⟨⟨rfl, ⟨Nat.pos_of_ne_zero hpos, Nat.le_of_not_lt hle⟩,
            fun _ => ofCode_ne_none hmode, fun _ => rfl⟩, fun _ => rfl⟩

theorem pending_dispatch (h : (settings s).Valid) (request : Protocol.Msg) (command : Command) :
    (settings (dispatch request now s command).1).Pending := by
  have hstopped : ({ settings s with enabled := false, startPending := false } : Settings).Pending :=
    Settings.Valid.pending ⟨rfl, h.bits, h.configured, fun he => Bool.noConfusion he⟩
  cases command with
  | hello => exact h.pending
  | time => exact h.pending
  | ping => exact h.pending
  | forceSafe => exact hstopped
  | serialConfig => exact pending_serialConfig h request
  | serialData =>
      change (settings (serialData request s).1).Pending
      rw [serialData]
      split_ifs
      · exact h.pending
      · exact Settings.Valid.pending ⟨h.settled, h.bits, h.configured, h.enabled⟩
  | serialStart =>
      change (settings (serialStart now s).1).Pending
      rw [serialStart]
      cases hconfigured : s.configured with
      | false => exact h.pending
      | true =>
          split
          · exact h.pending
          · exact ⟨⟨rfl, h.bits, fun _ => h.configured hconfigured, fun _ => rfl⟩, fun _ => rfl⟩
  | serialStop => exact hstopped
  | serialStatus => exact h.pending

theorem valid_startPendingRun (h : (settings s).Pending) (baseline startNow : Word) :
    (settings (s.startPendingRun baseline startNow)).Valid := by
  rw [Emulator.startPendingRun]
  cases hpending : s.startPending with
  | false =>
      rw [if_neg Bool.false_ne_true]
      exact ⟨hpending, h.rest.bits, h.rest.configured, h.rest.enabled⟩
  | true =>
      rw [if_pos rfl]
      exact ⟨rfl, h.rest.bits, h.rest.configured, fun _ => h.configured hpending⟩

theorem valid_serve (h : (settings s).Valid) (r : Reception) : (settings (s.serve r)).Valid := by
  rw [Emulator.serve, handleRequest_fst]
  apply valid_startPendingRun
  rw [handle]
  cases accept r.request r.len with
  | error flags => exact h.pending
  | ok command => exact pending_dispatch r.now h r.request command

theorem valid_iterate (h : (settings s).Valid) (i : Iteration) :
    (settings (s.iterate i)).Valid := by
  rw [← settings_sample s i.now i.raw] at h
  rw [Emulator.iterate]
  cases i.hostInt with
  | false => exact h
  | true =>
      rw [if_pos rfl]
      generalize s.sample i.now i.raw = s' at h
      induction i.received generalizing s' with
      | nil => exact h
      | cons r rs ih => exact ih _ (valid_serve h r)

theorem valid_run (r30 : Word) (x : Nat → Iteration) (n : Nat) :
    (settings (Lib.Clocked.wave Emulator.iterate (Emulator.init r30) x n)).Valid :=
  Lib.Clocked.wave_invariant (P := fun s => (settings s).Valid) (valid_init r30)
    (fun _ i hs => valid_iterate hs i) x n

/-- Enabled in mode SSI or BiSS between two frames, with the clock high. -/
structure Idle (s : Emulator) : Prop where
  streaming : (settings s).Streaming
  inactive : s.frameActive = false
  clk : s.lastClk = true
  data : s.data = true

theorem serve_start_idle (hvalid : (settings s).Valid) (hconfigured : s.configured = true)
    (hdisabled : s.enabled = false) (hmode : s.mode = .ssi ∨ s.mode = .biss)
    (hgap : s.frameGapTicks ≠ 0) {r : Reception} (hstart : accept r.request r.len = .ok .serialStart)
    (hclk : r.baseline &&& clkMask ≠ 0) : Idle (s.serve r) := by
  have hpending : s.startPending = false := hvalid.settled
  have hhandle : (handle r.request r.now s r.len).1 = { s with startPending := true } := by
    rw [handle, hstart]
    change (serialStart r.now s).1 = _
    rw [serialStart, hconfigured, hdisabled, hpending]
    rfl
  rw [Emulator.serve, handleRequest_fst, hhandle, Emulator.startPendingRun, if_pos rfl]
  dsimp only
  rw [if_pos hmode]
  refine ⟨⟨rfl, rfl, hmode, hvalid.bits, hgap⟩, rfl, bne_iff_ne.mpr hclk, ?_⟩
  exact data_setDataOutput _ _

end Reached

end HilLab.Pru.SerialLine
