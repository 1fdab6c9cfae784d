import HilLab.Lib.Edges
import HilLab.Pru.SerialStream

namespace HilLab.Pru.SpiFrames

open Lib.Clocked Lib.Edges Serial SerialLine

section Frame

def bits (g : Settings) : Nat := g.dataBits.toNat

def word (g : Settings) : Word := effective g.dataBits g.dataValue g.faultMask g.dataFlags

/-- The f-th bit of the data word, the highest first, and zero after the last. -/
def misoBit (g : Settings) (f : Nat) : Bool :=
  decide (f < bits g) && (word g).getLsbD (bits g - 1 - f)

/-- Enabled in mode SPI, as a configuration leaves it. -/
structure Selectable (g : Settings) : Prop where
  enabled : g.enabled = true
  settled : g.startPending = false
  mode : g.mode = .spi
  bits : 1 ≤ g.dataBits.toNat ∧ g.dataBits.toNat ≤ 32

variable {g : Settings}

theorem lowest (v : BitVec 64) : ((v &&& 1).setWidth 32 != (0 : Word)) = v.getLsbD 0 := by
  rw [show (1 : BitVec 64) = 1#64 from rfl, BitVec.and_one_eq_setWidth_ofBool_getLsbD]
  cases v.getLsbD 0 <;> rfl

theorem frame_spi (h : Selectable g) :
    g.frame = (word g).setWidth 64 ∧ g.totalBits = g.dataBits := by
  rw [Settings.frame, Settings.totalBits, h.mode]
  exact ⟨rfl, rfl⟩

theorem frameBit_spi (h : Selectable g) {f : Nat} (hf : f < bits g) :
    (frameBit g.frame g.totalBits (BitVec.ofNat 32 f) != 0) = misoBit g f := by
  obtain ⟨hframe, htotal⟩ := frame_spi h
  obtain ⟨hpos, hle⟩ := h.bits
  rw [bits] at hf
  have hshift : (g.dataBits - 1 - BitVec.ofNat 32 f).toNat = bits g - 1 - f := by
    have hone : (1 : Word).toNat = 1 := rfl
    rw [BitVec.toNat_sub, BitVec.toNat_sub, BitVec.toNat_ofNat, hone, bits]
    omega
  rw [frameBit, lowest, hframe, htotal, misoBit, bits, decide_eq_true hf, Bool.true_and]
  change ((word g).setWidth 64 >>> (g.dataBits - 1 - BitVec.ofNat 32 f).toNat).getLsbD 0 = _
  rw [hshift, BitVec.getLsbD_ushiftRight, BitVec.getLsbD_setWidth, bits]
  have hplace : g.dataBits.toNat - 1 - f + 0 < 64 := by omega
  rw [decide_eq_true hplace, Bool.true_and, Nat.add_zero]

end Frame

section Polls

/-- The emulator has seen falls and rises of the clock since it has been selected. -/
structure Exchanging (g : Settings) (falls rises : Nat) (s : Emulator) : Prop where
  settings : settings s = g
  active : s.frameActive = true
  frame : s.currentFrame = g.frame ∧ s.totalBits = g.totalBits
  index : s.bitIndex.toNat = min falls (bits g - 1)
  data : s.data = misoBit g falls
  received : s.receivedBits.toNat = min rises 32

variable {g : Settings} {s : Emulator} {falls rises : Nat}

theorem selected_exchanging (hg : Selectable g) (h : settings s = g) (now : Word) :
    Exchanging g 0 0 (s.selected now) := by
  subst h
  refine ⟨rfl, rfl, ⟨rfl, rfl⟩, (Nat.zero_min _).symm, ?_, rfl⟩
  rw [Emulator.selected, data_setDataOutput]
  exact frameBit_spi hg hg.bits.1

theorem Exchanging.receive (h : Exchanging g falls rises s) (now : Word) (mosi : Bool) :
    Exchanging g falls (rises + 1) (s.receiveMosi now mosi) := by
  refine ⟨h.settings, h.active, h.frame, h.index, h.data, ?_⟩
  have hcount := h.received
  have hmax : (32 : Word).toNat = 32 := rfl
  have hone : (1 : Word).toNat = 1 := rfl
  change (if s.receivedBits < 32 then s.receivedBits + 1 else s.receivedBits).toNat = _
  by_cases hlt : s.receivedBits < 32
  · rw [if_pos hlt, BitVec.toNat_add, hone]
    rw [BitVec.lt_def, hmax] at hlt
    omega
  · rw [if_neg hlt]
    rw [BitVec.lt_def, hmax] at hlt
    omega

theorem Exchanging.send (hg : Selectable g) (h : Exchanging g falls rises s) (now : Word) :
    Exchanging g (falls + 1) rises (s.sendMiso now) := by
  obtain ⟨hframe, htotal⟩ := h.frame
  obtain ⟨hpos, hle⟩ := hg.bits
  have hindex := h.index
  have hone : (1 : Word).toNat = 1 := rfl
  have hbits : s.totalBits.toNat = bits g := by rw [htotal, (frame_spi hg).2, bits]
  have hnext : (s.bitIndex + 1).toNat = min falls (bits g - 1) + 1 := by
    rw [BitVec.toNat_add, hone, hindex, bits]
    omega
  have hlt : s.bitIndex + 1 < s.totalBits ↔ falls + 1 < bits g := by
    rw [BitVec.lt_def, hnext, hbits]
    omega
  rw [Emulator.sendMiso]
  change Exchanging g (falls + 1) rises
    (if s.bitIndex + 1 < s.totalBits then (s.updateMinHalfPeriod now).nextBit
      else (s.updateMinHalfPeriod now).setDataOutput 0)
  by_cases hmore : falls + 1 < bits g
  · rw [if_pos (hlt.mpr hmore)]
    refine ⟨h.settings, h.active, h.frame, ?_, ?_, h.received⟩
    · change (s.bitIndex + 1).toNat = _
      omega
    · have hofNat : s.bitIndex + 1 = BitVec.ofNat 32 (falls + 1) := by
        apply BitVec.eq_of_toNat_eq
        rw [hnext, BitVec.toNat_ofNat]
        rw [bits] at hmore ⊢
        omega
      rw [Emulator.nextBit, data_setDataOutput]
      change (frameBit s.currentFrame s.totalBits (s.bitIndex + 1) != 0) = _
      rw [hframe, htotal, hofNat]
      exact frameBit_spi hg hmore
  · rw [if_neg (fun hl => hmore (hlt.mp hl))]
    refine ⟨h.settings, h.active, h.frame, ?_, ?_, h.received⟩
    · change s.bitIndex.toNat = _
      omega
    · rw [data_setDataOutput, misoBit, decide_eq_false hmore]
      rfl

theorem Exchanging.driven (hg : Selectable g) (h : Exchanging g falls rises s) (now : Word)
    (clkRise clkFall mosi : Bool) :
    Exchanging g (falls + clkFall.toNat) (rises + clkRise.toNat)
      (s.selectDriven now clkRise clkFall false false false mosi) := by
  have hreceived : Exchanging g falls (rises + clkRise.toNat)
      (if clkRise then s.receiveMosi now mosi else s) := by
    cases clkRise with
    | true => exact h.receive now mosi
    | false => exact h
  rw [Emulator.selectDriven]
  simp only [h.active, Bool.false_eq_true, if_false, Bool.not_false, Bool.and_self, if_true,
    Bool.false_and]
  cases clkFall with
  | true => exact hreceived.send hg now
  | false => exact hreceived

theorem sample_spi (hg : Selectable (settings s)) (now raw : Word) :
    s.sample now raw =
      { s.selectDriven now ((raw &&& clkMask != 0) && !s.lastClk)
          (!(raw &&& clkMask != 0) && s.lastClk) (raw &&& csMask != 0)
          (!(raw &&& csMask != 0) && s.lastCs) ((raw &&& csMask != 0) && !s.lastCs)
          (raw &&& mosiMask != 0) with
        lastClk := raw &&& clkMask != 0, lastCs := raw &&& csMask != 0 } := by
  have henabled : s.enabled = true := hg.enabled
  have hmode : s.mode = .spi := hg.mode
  rw [Emulator.sample, if_pos henabled, hmode]

/-- The select falls: a fall of the clock in the same poll counts for the new frame. -/
theorem sample_selects (hg : Selectable (settings s)) (now raw : Word) (hcs : s.lastCs = true)
    (hlow : (raw &&& csMask != 0) = false) (hclk : (raw &&& clkMask != 0) = false) :
    Exchanging (settings s) s.lastClk.toNat 0 (s.sample now raw) := by
  have hdriven := (selected_exchanging hg rfl now).driven hg now false s.lastClk (raw &&& mosiMask != 0)
  rw [Nat.zero_add] at hdriven
  rw [sample_spi hg, hlow, hclk, hcs]
  exact ⟨hdriven.settings, hdriven.active, hdriven.frame, hdriven.index, hdriven.data,
    hdriven.received⟩

theorem Exchanging.sample (hg : Selectable g) (h : Exchanging g falls rises s) (now raw : Word)
    (hcs : s.lastCs = false) (hlow : (raw &&& csMask != 0) = false) :
    Exchanging g (falls + (!(raw &&& clkMask != 0) && s.lastClk).toNat)
      (rises + ((raw &&& clkMask != 0) && !s.lastClk).toNat) (s.sample now raw) := by
  have hdriven := h.driven hg now ((raw &&& clkMask != 0) && !s.lastClk)
    (!(raw &&& clkMask != 0) && s.lastClk) (raw &&& mosiMask != 0)
  rw [sample_spi (h.settings ▸ hg), hlow, hcs]
  exact ⟨hdriven.settings, hdriven.active, hdriven.frame, hdriven.index, hdriven.data,
    hdriven.received⟩

theorem Exchanging.deselects (hg : Selectable g) (h : Exchanging g falls rises s) (now raw : Word)
    (hcs : s.lastCs = false) (hhigh : (raw &&& csMask != 0) = true) :
    (s.sample now raw).frameCount = s.frameCount + 1 ∧
      (s.sample now raw).protocolErrorCount =
        if min rises 32 = bits g then s.protocolErrorCount else s.protocolErrorCount + 1 := by
  have hequal : s.receivedBits = s.totalBits ↔ min rises 32 = bits g := by
    rw [h.frame.2, (frame_spi hg).2, ← BitVec.toNat_inj, h.received, bits]
  rw [sample_spi (h.settings ▸ hg), hhigh, hcs, Emulator.selectDriven]
  simp only [Bool.not_true, Bool.not_false, Bool.false_and, Bool.and_self, Bool.false_eq_true,
    if_false, h.active, if_true]
  refine ⟨rfl, ?_⟩
  change (if s.receivedBits ≠ s.totalBits then s.protocolErrorCount + 1 else s.protocolErrorCount) = _
  rw [ite_not]
  simp only [hequal]

end Polls

section Runs

variable (r30 : Word) (x : Nat → Iteration)

def clk (n : Nat) : Bool := (x n).raw &&& clkMask != 0
def cs (n : Nat) : Bool := (x n).raw &&& csMask != 0

def run (n : Nat) : Emulator := wave Emulator.iterate (Emulator.init r30) x n

/-- A frame in mode SPI from the fall of the select in poll a to its rise in poll b, with the
clock low at the fall and no message that ends the mode. -/
structure Frame (a b : Nat) : Prop where
  enabled : (run r30 x a).enabled = true
  mode : (run r30 x a).mode = .spi
  selects : (run r30 x a).lastCs = true
  low : ∀ n, a ≤ n → n < b → cs x n = false
  releases : a < b ∧ cs x b = true
  clockLow : clk x a = false
  harmless : ∀ n, a ≤ n → n < b → ∀ r ∈ (x n).received, Harmless r

variable {r30 x} {a b : Nat}

theorem Frame.selectable (h : Frame r30 x a b) : Selectable (settings (run r30 x a)) := by
  have hvalid := valid_run r30 x a
  exact ⟨h.enabled, hvalid.settled, h.mode, hvalid.bits⟩

theorem Frame.exchanging (h : Frame r30 x a b) {d : Nat} (hd : a + d < b) :
    Exchanging (settings (run r30 x a))
        ((run r30 x a).lastClk.toNat + tally (fall (clk x)) (a + 1) (a + 1 + d))
        (tally (rise (clk x)) (a + 1) (a + 1 + d)) (run r30 x (a + 1 + d)) ∧
      (run r30 x (a + 1 + d)).lastClk = clk x (a + d) ∧ (run r30 x (a + 1 + d)).lastCs = false := by
  have hg := h.selectable
  induction d with
  | zero =>
      have hstate : run r30 x (a + 1) = (run r30 x a).sample (x a).now (x a).raw :=
        iterate_enabled hg.enabled hg.settled (h.harmless a (Nat.le_refl a) hd)
      have hlow := h.low a (Nat.le_refl a) hd
      rw [Nat.add_zero, tally_self, tally_self, Nat.add_zero, hstate]
      exact ⟨sample_selects hg _ _ h.selects hlow h.clockLow, rfl, hlow⟩
  | succ d ih =>
      obtain ⟨hexchanging, hclk, hcs⟩ := ih (by omega)
      have hlow := h.low (a + 1 + d) (by omega) (by omega)
      have hpoll : Selectable (settings (run r30 x (a + 1 + d))) := hexchanging.settings ▸ hg
      have hstate : run r30 x (a + 1 + (d + 1)) =
          (run r30 x (a + 1 + d)).sample (x (a + 1 + d)).now (x (a + 1 + d)).raw :=
        iterate_enabled hpoll.enabled hpoll.settled (h.harmless (a + 1 + d) (by omega) (by omega))
      have hbefore : before false (clk x) (a + 1 + d) = clk x (a + d) := by
        rw [show a + 1 + d = a + d + 1 by omega]
        rfl
      have hsample := hexchanging.sample hg (x (a + 1 + d)).now (x (a + 1 + d)).raw hcs hlow
      rw [hclk, ← hbefore] at hsample
      rw [hstate, ← Nat.add_assoc (a + 1) d 1, tally_succ _ (Nat.le_add_right _ _),
        tally_succ _ (Nat.le_add_right _ _), ← Nat.add_assoc]
      exact ⟨hsample, congrArg (clk x) (by omega), hlow⟩

theorem Frame.data (h : Frame r30 x a b) {n : Nat} (han : a < n) (hnb : n ≤ b) :
    (run r30 x n).data = misoBit (settings (run r30 x a))
      ((run r30 x a).lastClk.toNat + tally (fall (clk x)) (a + 1) n) := by
  obtain ⟨d, rfl⟩ : ∃ d, n = a + 1 + d := ⟨n - (a + 1), by omega⟩
  exact (h.exchanging (by omega)).1.data

/-- Before a rise as many falls have been seen as rises. -/
theorem Frame.falls_before (h : Frame r30 x a b) {r : Nat} (har : a < r)
    (hrise : rise (clk x) r = true) :
    tally (fall (clk x)) (a + 1) r = tally (rise (clk x)) (a + 1) r := by
  obtain ⟨m, rfl⟩ : ∃ m, r = m + 1 := ⟨r - 1, by omega⟩
  rw [rise, before, Bool.and_eq_true, Bool.not_eq_true'] at hrise
  rw [tally_rise h.clockLow (by omega : a ≤ m), hrise.2]
  rfl

end Runs

section Accounting

variable (r30 : Word) (x : Nat → Iteration) (a b : Nat)

def rises : Nat := tally (rise (clk x)) (a + 1) b

/-- Just before its k-th rise, counted from 0, the clock finds the k-th bit of the word. -/
def BitsShown : Prop :=
  ∀ r, a < r → r < b → rise (clk x) r = true →
    tally (rise (clk x)) (a + 1) r < bits (settings (run r30 x a)) →
      (run r30 x r).data =
        misoBit (settings (run r30 x a)) (tally (rise (clk x)) (a + 1) r)

/-- After the falling edge of the last bit the line is low. -/
def LowAfter : Prop :=
  ∀ n, a < n → n ≤ b → bits (settings (run r30 x a)) ≤ tally (fall (clk x)) (a + 1) n →
    (run r30 x n).data = false

/-- The select's rise counts the frame, and an error where the rises are not the data bits. -/
def Counted : Prop :=
  let s := run r30 x b
  let next := s.sample (x b).now (x b).raw
  next.frameCount = s.frameCount + 1 ∧
    next.protocolErrorCount =
      if rises x a b = bits (settings (run r30 x a)) then s.protocolErrorCount
      else s.protocolErrorCount + 1

/-- No fall of the clock is seen in the poll that sees the select fall, or each bit that is
clocked out equals the next one. -/
def StartsClean : Prop :=
  (run r30 x a).lastClk = false ∨
    ∀ k, k < rises x a b → k < bits (settings (run r30 x a)) →
      misoBit (settings (run r30 x a)) k = misoBit (settings (run r30 x a)) (k + 1)

/-- The rises fit the counter of received bits, or the word is shorter than it. -/
def CounterFits : Prop := bits (settings (run r30 x a)) < 32 ∨ rises x a b ≤ 32

variable {r30 x a b}

theorem bitsShown_iff (h : Frame r30 x a b) : BitsShown r30 x a b ↔ StartsClean r30 x a b := by
  have hdata {r : Nat} (har : a < r) (hrb : r < b) (hrise : rise (clk x) r = true) :
      (run r30 x r).data = misoBit (settings (run r30 x a))
        ((run r30 x a).lastClk.toNat + tally (rise (clk x)) (a + 1) r) := by
    rw [h.data har (Nat.le_of_lt hrb), h.falls_before har hrise]
  constructor
  · intro hshown
    cases hclk : (run r30 x a).lastClk with
    | false => exact Or.inl hclk
    | true =>
        refine Or.inr (fun k hrises hbits => ?_)
        obtain ⟨r, har, hrb, hrise, htally⟩ := exists_tally (Nat.succ_le_of_lt h.releases.1) hrises
        have hlevel := hshown r har hrb hrise (htally ▸ hbits)
        rw [hdata har hrb hrise, htally, hclk, Bool.toNat_true, Nat.add_comm] at hlevel
        exact hlevel.symm
  · intro hclean r har hrb hrise hbits
    rw [hdata har hrb hrise]
    rcases hclean with hclk | hequal
    · rw [hclk, Bool.toNat_false, Nat.zero_add]
    · have hrises : tally (rise (clk x)) (a + 1) r < rises x a b := by
        have hnext := tally_succ (rise (clk x)) (by omega : a + 1 ≤ r)
        have hle := tally_mono (rise (clk x)) (by omega : a + 1 ≤ r + 1) (by omega : r + 1 ≤ b)
        rw [hrise, Bool.toNat_true] at hnext
        rw [rises]
        omega
      cases (run r30 x a).lastClk with
      | false => rw [Bool.toNat_false, Nat.zero_add]
      | true =>
          rw [Bool.toNat_true, Nat.add_comm]
          exact (hequal _ hrises hbits).symm

theorem lowAfter (h : Frame r30 x a b) : LowAfter r30 x a b := by
  intro n han hnb hfalls
  rw [h.data han hnb, misoBit, decide_eq_false (by omega), Bool.false_and]

theorem counted_iff (h : Frame r30 x a b) : Counted r30 x a b ↔ CounterFits r30 x a b := by
  have hg := h.selectable
  obtain ⟨hab, hhigh⟩ := h.releases
  obtain ⟨d, rfl⟩ : ∃ d, b = a + 1 + d := ⟨b - (a + 1), by omega⟩
  obtain ⟨hexchanging, -, hcs⟩ := h.exchanging (d := d) (by omega)
  obtain ⟨hframes, herrors⟩ := hexchanging.deselects hg (x (a + 1 + d)).now (x (a + 1 + d)).raw hcs hhigh
  have hle : bits (settings (run r30 x a)) ≤ 32 := hg.bits.2
  have hcount (v : Word) : v ≠ v + 1 := by simp
  rw [Counted, CounterFits]
  rw [hframes, herrors, ← rises, and_iff_right rfl]
  by_cases hfits : bits (settings (run r30 x a)) < 32 ∨ rises x a (a + 1 + d) ≤ 32
  · have hequal : min (rises x a (a + 1 + d)) 32 = bits (settings (run r30 x a)) ↔
        rises x a (a + 1 + d) = bits (settings (run r30 x a)) := by omega
    simp only [hequal, hfits]
  · have hsaturates : min (rises x a (a + 1 + d)) 32 = bits (settings (run r30 x a)) := by omega
    have hmore : rises x a (a + 1 + d) ≠ bits (settings (run r30 x a)) := by omega
    rw [if_pos hsaturates, if_neg hmore]
    exact iff_of_false (hcount _) hfits

/-- In every run, a frame is sent and counted as it should be exactly if it starts clean and its
rises fit the counter. -/
theorem frames_accounted_iff (r30 : Word) (x : Nat → Iteration) :
    ∀ a b, Frame r30 x a b →
      ((BitsShown r30 x a b ∧ LowAfter r30 x a b ∧ Counted r30 x a b) ↔
        (StartsClean r30 x a b ∧ CounterFits r30 x a b)) := by
  intro a b h
  rw [bitsShown_iff h, counted_iff h, and_iff_right (lowAfter h)]

/-- SPI with the data bits and the word, and then one frame with a number of clock pulses; before
the frame the clock is at its idle level. -/
def transfer (dataBits value : Word) (pulses : Nat) (idle : Word) (n : Nat) : Iteration :=
  { raw :=
      if n < 2 then csMask ||| idle
      else if n < 2 * pulses + 3 then (if n % 2 = 1 then clkMask else 0)
      else csMask
    now := BitVec.ofNat 32 n
    hostInt := true
    received :=
      if n = 0 then
        [SerialStream.reception .serialConfig SerialMode.spi.code dataBits 0,
          SerialStream.reception .serialData value 0b1000 flagFaultEnable,
          SerialStream.reception .serialStart 0 0 0]
      else [] }

theorem transfer_frame {dataBits value idle : Word} {pulses : Nat}
    (henabled : (run 0 (transfer dataBits value pulses idle) 2).enabled = true)
    (hmode : (run 0 (transfer dataBits value pulses idle) 2).mode = .spi)
    (hselects : (run 0 (transfer dataBits value pulses idle) 2).lastCs = true) :
    Frame 0 (transfer dataBits value pulses idle) 2 (2 * pulses + 3) := by
  refine ⟨henabled, hmode, hselects, fun n hlow hhigh => ?_, ⟨by omega, ?_⟩, ?_, fun n hlow _ r hr => ?_⟩
  · have hraw : (transfer dataBits value pulses idle n).raw = if n % 2 = 1 then clkMask else 0 := by
      rw [transfer]
      exact (if_neg (by omega)).trans (if_pos hhigh)
    rw [cs, hraw]
    split <;> rfl
  · have hraw : (transfer dataBits value pulses idle (2 * pulses + 3)).raw = csMask := by
      simp only [transfer]
      rw [if_neg (by omega), if_neg (by omega)]
    rw [cs, hraw]
    rfl
  · have hraw : (transfer dataBits value pulses idle 2).raw = 0 := by
      simp only [transfer]
      rw [if_neg (by omega), if_pos (by omega)]
      rfl
    rw [clk, hraw]
    rfl
  · have hnone : (transfer dataBits value pulses idle n).received = [] := if_neg (by omega)
    rw [hnone] at hr
    cases hr

theorem frames_accounted_iff_four :
    BitsShown 0 (transfer 4 0b0011 4 0) 2 11 ∧ LowAfter 0 (transfer 4 0b0011 4 0) 2 11 ∧
      Counted 0 (transfer 4 0b0011 4 0) 2 11 := by
  have hframe : Frame 0 (transfer 4 0b0011 4 0) 2 11 :=
    transfer_frame (by decide +kernel) (by decide +kernel) (by decide +kernel)
  apply (frames_accounted_iff 0 (transfer 4 0b0011 4 0) 2 11 hframe).mpr
  exact ⟨Or.inl (by decide +kernel), Or.inr (by decide +kernel)⟩

/-- Where the clock falls in the poll that sees the select fall, its first rise finds the second
bit. 33 clocks for 32 data bits pass for the right number. -/
theorem second_bit_first_and_clock_uncounted :
    (Frame 0 (transfer 2 0b1010 2 clkMask) 2 7 ∧ ¬ BitsShown 0 (transfer 2 0b1010 2 clkMask) 2 7) ∧
      Frame 0 (transfer 32 0 33 0) 2 69 ∧ ¬ Counted 0 (transfer 32 0 33 0) 2 69 := by
  have hearly : Frame 0 (transfer 2 0b1010 2 clkMask) 2 7 :=
    transfer_frame (by decide +kernel) (by decide +kernel) (by decide +kernel)
  have hlong : Frame 0 (transfer 32 0 33 0) 2 69 :=
    transfer_frame (by decide +kernel) (by decide +kernel) (by decide +kernel)
  refine ⟨⟨hearly, fun hshown => ?_⟩, hlong, fun hcounted => ?_⟩
  · have hlevel := hshown 3 (by decide) (by decide) (by decide) (by decide +kernel)
    revert hlevel
    decide +kernel
  · rcases (counted_iff hlong).mp hcounted with hbits | hrises
    · revert hbits
      decide +kernel
    · revert hrises
      decide +kernel

end Accounting

end HilLab.Pru.SpiFrames
