import HilLab.Rtl.CaptureEdges
import HilLab.Rtl.SpiFraming

namespace HilLab.Rtl.SpiExchange

open Lib.Clocked Lib.Edges Common CaptureEdges Generators SpiFraming

variable {W : Nat}

section Pins

variable (x : Nat → SpiInput W)

def emulated (n : Nat) : SpiEncoder W := wave SpiEncoder.step SpiEncoder.reset x n

def csN (n : Nat) : Bool := (x n).csNAsync
def sclk (n : Nat) : Bool := (x n).sclkAsync
def mosi (n : Nat) : Bool := (x n).mosiAsync

theorem emulated_succ (n : Nat) : emulated x (n + 1) = (emulated x n).step (x n) := rfl

def bus (i : SpiInput W) : BitVec 3 :=
  BitVec.ofBool i.csNAsync ++ BitVec.ofBool i.sclkAsync ++ BitVec.ofBool i.mosiAsync

theorem bus_bits (i : SpiInput W) :
    (bus i).getLsbD 2 = i.csNAsync ∧ (bus i).getLsbD 1 = i.sclkAsync ∧
      (bus i).getLsbD 0 = i.mosiAsync := by
  rw [bus]
  cases i.csNAsync <;> cases i.sclkAsync <;> cases i.mosiAsync <;> decide

/-- The emulator sees its pins two clocks late. -/
theorem emulated_pins (n : Nat) :
    (emulated x (n + 2)).csN = csN x n ∧ (emulated x (n + 2)).sclk = sclk x n ∧
      (emulated x (n + 2)).mosi = mosi x n := by
  have hsync (k : Nat) : (emulated x (n + 2)).sync.bit k =
      delayed (fun j => (bus (x j)).getLsbD k) 2 (n + 2) :=
    (synchronised (q := fun j => (emulated x j).sync) rfl
      (fun j => (step_sync (emulated x j) (x j)).1) k (n + 2)).2
  have hdelayed (k : Nat) : delayed (fun j => (bus (x j)).getLsbD k) 2 (n + 2) =
      (bus (x n)).getLsbD k := by
    rw [delayed, decide_eq_true (Nat.le_add_left 2 n), Bool.true_and, Nat.add_sub_cancel]
  obtain ⟨hcs, hsclk, hmosi⟩ := bus_bits (x n)
  exact ⟨(hsync 2).trans ((hdelayed 2).trans hcs), (hsync 1).trans ((hdelayed 1).trans hsclk),
    (hsync 0).trans ((hdelayed 0).trans hmosi)⟩

theorem emulated_edges (n : Nat) :
    let s := emulated x (n + 3)
    s.csFall = (csN x n && !csN x (n + 1)) ∧ s.csRise = (!csN x n && csN x (n + 1)) ∧
      s.sclkFall = fall (sclk x) (n + 1) ∧ s.sclkRise = rise (sclk x) (n + 1) := by
  intro s
  obtain ⟨hcs, hsclk, -⟩ := emulated_pins x (n + 1)
  obtain ⟨hcsD, hsclkD, -⟩ := emulated_pins x n
  obtain ⟨-, hcsStep, hsclkStep⟩ := step_sync (emulated x (n + 2)) (x (n + 2))
  have hcsN : s.csN = csN x (n + 1) := hcs
  have hsclkNow : s.sclk = sclk x (n + 1) := hsclk
  have hcsND : s.csND = csN x n := hcsStep.trans hcsD
  have hsclkBefore : s.sclkD = sclk x n := hsclkStep.trans hsclkD
  rw [SpiEncoder.csFall, SpiEncoder.csRise, SpiEncoder.sclkFall, SpiEncoder.sclkRise, hcsN, hsclkNow,
    hcsND, hsclkBefore]
  refine ⟨rfl, rfl, ?_, ?_⟩
  · rw [fall, before, Bool.and_comm]
  · rw [rise, before, Bool.and_comm]

theorem emulated_active (n : Nat) : (emulated x n).frameActive = !(emulated x n).csND := by
  induction n with
  | zero => rfl
  | succ n ih =>
      rw [emulated_succ, step_active, (step_sync _ _).2.1, SpiEncoder.csFall, SpiEncoder.csRise, ih]
      cases (emulated x n).csND <;> cases (emulated x n).csN <;> rfl

/-- From the fourth clock after reset on, a pulse ends each stretch in which the select is
low, and there is no other. -/
theorem frame_done (n : Nat) :
    (emulated x (n + 4)).frameDonePulse = (!csN x n && csN x (n + 1)) := by
  have hrise := (emulated_edges x n).2.1
  rw [emulated_succ, step_done, emulated_active, ← hrise]
  have hidle : (emulated x (n + 3)).csRise = true → (emulated x (n + 3)).csND = false := by
    rw [SpiEncoder.csRise, Bool.and_eq_true, Bool.not_eq_true']
    exact And.left
  cases hc : (emulated x (n + 3)).csRise with
  | true => rw [hidle hc]; rfl
  | false => rfl

end Pins

section Frames

variable (x : Nat → SpiInput W)

def sent (c e : Nat) : List Bool :=
  between (fun n => if rise (sclk x) n then [mosi x n] else []) c e

/-- The frame selected when the emulator sees the select fall in clock c. -/
def selectedAt (c : Nat) : BitVec W := effectiveFrame (x (c + 2))

/-- The select falls in clock c and is low until clock e at least. -/
structure Selected (c e : Nat) : Prop where
  falls : 0 < c ∧ csN x (c - 1) = true
  low : ∀ n, c ≤ n → n < e → csN x n = false

variable {x} {c e : Nat}

theorem framing (h : Selected x c e) {d : Nat} (hd : c + d < e) :
    Framing (selectedAt x c) (tally (fall (sclk x)) (c + 1) (c + 1 + d)) (sent x (c + 1) (c + 1 + d))
      (emulated x (c + 3 + d)) := by
  induction d with
  | zero =>
      obtain ⟨hpos, hhigh⟩ := h.falls
      obtain ⟨b, rfl⟩ : ∃ b, c = b + 1 := ⟨c - 1, by omega⟩
      have hlow := h.low (b + 1) (Nat.le_refl _) hd
      have hfall : (emulated x (b + 3)).csFall = true := by
        rw [(emulated_edges x b).1, hlow]
        exact (Bool.and_true _).trans hhigh
      have hidle : (emulated x (b + 3)).frameActive = false := by
        rw [SpiEncoder.csFall, Bool.and_eq_true] at hfall
        rw [emulated_active, hfall.1]
        rfl
      rw [Nat.add_zero, tally_self, sent, between_self]
      exact step_selects hfall hidle
  | succ d ih =>
      have hframing := ih (by omega)
      have hstate : c + 3 + d = c + d + 3 := by omega
      have hclock : c + 1 + d = c + d + 1 := by omega
      obtain ⟨hcsFall, -, hfalls, hrises⟩ := emulated_edges x (c + d)
      obtain ⟨hcs, -, hmosi⟩ := emulated_pins x (c + d + 1)
      have hnoFall : (emulated x (c + d + 3)).csFall = false := by
        rw [hcsFall, h.low (c + d) (by omega) (by omega), Bool.false_and]
      have hlow : (emulated x (c + d + 3)).csN = false :=
        hcs.trans (h.low (c + d + 1) (by omega) (by omega))
      have hsent : sent x (c + 1) (c + 1 + (d + 1)) =
          sent x (c + 1) (c + 1 + d) ++
            if rise (sclk x) (c + d + 1) then [mosi x (c + d + 1)] else [] := by
        rw [← hclock]
        exact between_succ _ (Nat.le_add_right _ _)
      have htally : tally (fall (sclk x)) (c + 1) (c + 1 + (d + 1)) =
          tally (fall (sclk x)) (c + 1) (c + 1 + d) + (fall (sclk x) (c + d + 1)).toNat := by
        rw [← hclock]
        exact tally_succ _ (Nat.le_add_right _ _)
      have hstep := step_continues (i := x (c + d + 3)) (hstate ▸ hframing) hnoFall hlow
      rw [hfalls, hrises, show (emulated x (c + d + 3)).mosi = _ from hmosi] at hstep
      rw [hsent, htally, ← Nat.add_assoc, hstate]
      exact hstep

theorem sent_length (h : c ≤ e) : (sent x c e).length = tally (rise (sclk x)) c e := by
  induction e, h using Nat.le_induction with
  | base => rw [sent, between_self, tally_self, List.length_nil]
  | succ e h ih =>
      rw [tally_succ _ h, ← ih, sent, between_succ _ h, List.length_append]
      cases rise (sclk x) e <;> rfl

/-- A mode-0 exchange between a fall of the select in clock c and its rise in clock e. -/
structure Exchange (x : Nat → SpiInput W) (c e : Nat) : Prop where
  selected : Selected x c e
  ends : c < e ∧ csN x e = true
  idle : sclk x c = false
  settled : ∀ r < e, c < r → rise (sclk x) r = true → c + 4 ≤ r
  lowPhase : ∀ r < e, ∀ f < r, c < f → fall (sclk x) f = true → rise (sclk x) r = true → f + 4 ≤ r

/-- At a rise the line shows the bit whose number is that of the rises before. -/
theorem Exchange.shown (h : Exchange x c e) {r : Nat} (hr : r < e) (hc : c < r)
    (hrise : rise (sclk x) r = true) :
    let k := tally (rise (sclk x)) (c + 1) r
    (emulated x r).miso = (decide (k = 0 ∨ k < counted W) && (selectedAt x c).getMsbD k) := by
  intro k
  have hsettled := h.settled r hr hc hrise
  obtain ⟨d, rfl⟩ : ∃ d, r = c + 3 + d := ⟨r - (c + 3), by omega⟩
  have hframing := framing h.selected (d := d) (by omega)
  have hlow : sclk x (c + 2 + d) = false := by
    have hbefore := (Bool.and_eq_true _ _ ▸ hrise).2
    rw [show c + 3 + d = c + 2 + d + 1 by omega, before, Bool.not_eq_true'] at hbefore
    exact hbefore
  have hquiet : tally (fall (sclk x)) (c + 1) (c + 3 + d) = tally (fall (sclk x)) (c + 1) (c + 1 + d) := by
    apply tally_quiet (by omega) (by omega)
    intro n hn hlt
    by_contra hfall
    have hphase := h.lowPhase _ hr n hlt (by omega) (by simpa using hfall) hrise
    omega
  have hrises : k = tally (fall (sclk x)) (c + 1) (c + 1 + d) := by
    have halternate := tally_rise h.idle (by omega : c ≤ c + 2 + d)
    rw [hlow, show c + 2 + d + 1 = c + 3 + d by omega] at halternate
    exact halternate.trans hquiet
  rw [hframing.shown, ← hrises]

theorem Exchange.finished (h : Exchange x c e) :
    (emulated x (e + 3)).frameDonePulse = true ∧
      (emulated x (e + 3)).receivedBitCount =
        BitVec.ofNat 16 (tally (rise (sclk x)) (c + 1) e) ∧
      (emulated x (e + 3)).receivedMosiData = received W (sent x (c + 1) e) := by
  obtain ⟨hlt, hhigh⟩ := h.ends
  obtain ⟨d, rfl⟩ : ∃ d, e = c + 1 + d := ⟨e - (c + 1), by omega⟩
  have hframing := framing h.selected (d := d) (by omega)
  have hrise : (emulated x (c + 3 + d)).csRise = true := by
    have hedge := (emulated_edges x (c + d)).2.1
    rw [h.selected.low (c + d) (by omega) (by omega),
      show c + d + 1 = c + 1 + d by omega, hhigh] at hedge
    rw [show c + 3 + d = c + d + 3 by omega]
    exact hedge
  rw [show c + 1 + d + 3 = c + 3 + d + 1 by omega, ← sent_length (by omega)]
  exact step_ends hframing hrise

end Frames

section Transfers

/-- For every waveform of the master: a pulse for each stretch in which the select is low, and
in every exchange the bits of the frame on the line, zeros after the last bit counted, and the
rises and the bits of the master at the end. -/
theorem mode0_exchange (x : Nat → SpiInput W) :
    (∀ n, (emulated x (n + 4)).frameDonePulse = (!csN x n && csN x (n + 1))) ∧
      ∀ c e, Exchange x c e →
        (∀ r, c < r → r < e → rise (sclk x) r = true →
          let k := tally (rise (sclk x)) (c + 1) r
          (emulated x r).miso =
            (decide (k = 0 ∨ k < counted W) && (selectedAt x c).getMsbD k)) ∧
          (emulated x (e + 3)).receivedBitCount =
            BitVec.ofNat 16 (tally (rise (sclk x)) (c + 1) e) ∧
          ∀ j < W, (emulated x (e + 3)).receivedMosiData.getLsbD j =
            (sent x (c + 1) e).reverse.getD j false := by
  refine ⟨frame_done x, fun c e h => ⟨fun r hc hr hrise => h.shown hr hc hrise, ?_⟩⟩
  obtain ⟨-, hcount, hdata⟩ := h.finished
  refine ⟨hcount, fun j hj => ?_⟩
  rw [hdata]
  exact received_bit _ hj

/-- Two clocks with the bits 1 and 0 of the master, and a third with 1, against the frame 10. -/
def threeClocks (n : Nat) : SpiInput 2 :=
  { sclkAsync := decide (5 ≤ n ∧ n < 9 ∨ 13 ≤ n ∧ n < 17 ∨ 21 ≤ n ∧ n < 25)
    csNAsync := decide (n < 1 ∨ 29 ≤ n)
    mosiAsync := decide (n < 9 ∨ 17 ≤ n)
    frameData := 0b11#2
    faultFlipMask := 0b01#2
    faultEnable := true }

theorem threeClocks_exchange : Exchange threeClocks 1 29 where
  selected := ⟨by decide, fun n hc he => (by decide : ∀ n < 29, 1 ≤ n → csN threeClocks n = false) n he hc⟩
  ends := by decide
  idle := by decide
  settled := by decide
  lowPhase := by decide

theorem mode0_exchange_threeClocks :
    ((emulated threeClocks 5).miso = true ∧ (emulated threeClocks 13).miso = false ∧
      (emulated threeClocks 21).miso = false) ∧
      (emulated threeClocks 32).frameDonePulse = true ∧
      (emulated threeClocks 32).receivedBitCount = 3 ∧
      (emulated threeClocks 32).receivedMosiData.getLsbD 0 = true ∧
      (emulated threeClocks 32).receivedMosiData.getLsbD 1 = false := by
  obtain ⟨hpulse, hexchange⟩ := mode0_exchange threeClocks
  obtain ⟨hshown, hcount, hdata⟩ := hexchange 1 29 threeClocks_exchange
  refine ⟨⟨(hshown 5 ?_ ?_ ?_).trans ?_, (hshown 13 ?_ ?_ ?_).trans ?_,
    (hshown 21 ?_ ?_ ?_).trans ?_⟩, (hpulse 28).trans ?_, hcount.trans ?_,
    (hdata 0 ?_).trans ?_, (hdata 1 ?_).trans ?_⟩
  all_goals decide

/-- A frame of 65536 ones: its length is 0 in the counter of 16 bits. -/
def longFrame (n : Nat) : SpiInput 65536 :=
  { sclkAsync := decide (5 ≤ n ∧ n < 9 ∨ 13 ≤ n ∧ n < 17)
    csNAsync := decide (n < 1 ∨ 21 ≤ n)
    mosiAsync := false
    frameData := BitVec.allOnes 65536
    faultFlipMask := 0
    faultEnable := false }

theorem longFrame_exchange : Exchange longFrame 1 21 where
  selected := ⟨by decide, fun n hc he => (by decide : ∀ n < 21, 1 ≤ n → csN longFrame n = false) n he hc⟩
  ends := by decide
  idle := by decide
  settled := by decide
  lowPhase := by decide

def unselected (_ : Nat) : SpiInput 2 :=
  { sclkAsync := false
    csNAsync := true
    mosiAsync := false
    frameData := 0
    faultFlipMask := 0
    faultEnable := false }

/-- The second bit of the long frame is lost. A pulse follows the reset although nothing has
selected the emulator. -/
theorem long_frame_lost_and_pulse_after_reset :
    (Exchange longFrame 1 21 ∧ rise (sclk longFrame) 13 = true ∧
      tally (rise (sclk longFrame)) 2 13 = 1 ∧ (selectedAt longFrame 1).getMsbD 1 = true ∧
      (emulated longFrame 13).miso = false) ∧
      (∀ n, csN unselected n = true) ∧ (emulated unselected 3).frameDonePulse = true := by
  have hframing := framing longFrame_exchange.selected (d := 9) (by decide)
  refine ⟨⟨longFrame_exchange, by decide, by decide, ?_, ?_⟩, fun _ => rfl, by decide⟩
  · change (BitVec.allOnes 65536).getMsbD 1 = true
    simp
  · have hfalls : tally (fall (sclk longFrame)) 2 (2 + 9) = 1 := by decide
    have hcounted : counted 65536 = 0 := rfl
    have hshown := hframing.shown
    rw [show 1 + 1 = 2 from rfl, hfalls, hcounted] at hshown
    exact hshown.trans (by simp)

end Transfers

end HilLab.Rtl.SpiExchange
