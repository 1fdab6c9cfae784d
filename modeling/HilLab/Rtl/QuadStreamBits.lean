import HilLab.Lib.Clocked
import HilLab.Rtl.Ad3542rQuadStream

namespace HilLab.Rtl.QuadStreamBits

open Ad3542rQuadStream Lib.Clocked Lib.ShiftRegister

/-- What the two devices see on the bus: chip select, and the data lines at a
rising clock edge. -/
inductive Edge
  | select
  | bit (a b : Bool)
  | deselect
deriving DecidableEq

def toBit (lane : Bool × Bool) : Edge := .bit lane.1 lane.2

def edges (s t : Dac) : List Edge :=
  (if s.dacCsN && !t.dacCsN then [.select] else []) ++
    (if !s.dacSclk && t.dacSclk then [.bit t.dacSdio0A t.dacSdio0B] else []) ++
    (if !s.dacCsN && t.dacCsN then [.deselect] else [])

def wordEdges {w : Nat} (a b : BitVec w) : List Edge := (lanes a b 0 w).map toBit

variable (p : Params)

def configFrame (index : BitVec 2) : List Edge :=
  .select :: wordEdges (configWord p index) (configWord p index) ++ [.deselect]

def instrEdges : List Edge := wordEdges (0x2C : BitVec 8) (0x2C : BitVec 8)

def groupEdges (g : BitVec 32 × BitVec 32) : List Edge := wordEdges g.1 g.2

/-- What a clock commits the bus to send. -/
def begun (s : Dac) (i : DacInput) : List Edge :=
  match s.state with
  | .cfgStart => configFrame p s.configIndex
  | .waitSample => if s.pendingValid then .select :: instrEdges else []
  | .streamInstr | .streamData => (s.groupBegun p i).toList.flatMap groupEdges
  | .delay | .cfgShift | .cfgGap => []

def lineA (s : Dac) : BitVec 32 := line s.dacSdio0A s.shiftA
def lineB (s : Dac) : BitVec 32 := line s.dacSdio0B s.shiftB

/-- The bits in the shift registers still to be clocked out: the first one is on
the lines while the clock is low. -/
def unsent (s : Dac) : List Edge :=
  if s.dacSclk then (lanes (lineA s) (lineB s) 1 (s.bitsRemaining.toNat - 1)).map toBit
  else (lanes (lineA s) (lineB s) 0 s.bitsRemaining.toNat).map toBit

def todo (s : Dac) : List Edge :=
  match s.state with
  | .cfgShift => unsent s ++ [.deselect]
  | .streamInstr | .streamData => unsent s
  | .delay | .cfgStart | .cfgGap | .waitSample => []

/-- The bus is idle between frames and selected inside one. -/
def Framed (s : Dac) : Prop :=
  match s.state with
  | .cfgShift | .streamInstr | .streamData => s.dacCsN = false ∧ 1 ≤ s.bitsRemaining.toNat
  | .delay | .cfgStart | .cfgGap | .waitSample => s.dacCsN = true ∧ s.dacSclk = false

/-- One clock of the bus: what was due or is begun is sent or stays due. -/
def Sends (s t : Dac) (b : List Edge) : Prop := Framed t ∧ todo s ++ b = edges s t ++ todo t

variable {s : Dac} {i : DacInput}

theorem unsent_rise {t : Dac} (hs : s.dacSclk = false) (hr : 1 ≤ s.bitsRemaining.toNat)
    (ht : t.dacSclk = true) (hbits : t.bitsRemaining = s.bitsRemaining)
    (hA : lineA t = lineA s) (hB : lineB t = lineB s) :
    unsent s = .bit s.dacSdio0A s.dacSdio0B :: unsent t := by
  obtain ⟨r, hr⟩ : ∃ r, s.bitsRemaining.toNat = r + 1 := ⟨_, (Nat.sub_add_cancel hr).symm⟩
  have hhead : (lineA s).getMsbD 0 = s.dacSdio0A ∧ (lineB s).getMsbD 0 = s.dacSdio0B :=
    ⟨BitVec.getMsbD_cons_zero, BitVec.getMsbD_cons_zero⟩
  rw [unsent, unsent, hs, ht, hbits, hA, hB, hr, Nat.add_sub_cancel, lanes_succ, hhead.1, hhead.2]
  rfl

theorem shift_bits (hr : 1 < s.bitsRemaining) :
    (s.bitsRemaining - 1).toNat = s.bitsRemaining.toNat - 1 := by
  rw [BitVec.lt_def] at hr
  exact BitVec.toNat_sub_of_le (BitVec.le_def.mpr (Nat.le_of_lt hr))

theorem unsent_shift (hs : s.dacSclk = true) (hr : 1 < s.bitsRemaining) :
    unsent s.shift = unsent s := by
  have hlow : s.shift.dacSclk = false := rfl
  have hbits : s.shift.bitsRemaining.toNat = s.bitsRemaining.toNat - 1 := shift_bits hr
  have hA : lineA s.shift = lineA s <<< 1 := line_shift s.dacSdio0A s.shiftA
  have hB : lineB s.shift = lineB s <<< 1 := line_shift s.dacSdio0B s.shiftB
  rw [unsent, unsent, hlow, hs, hA, hB, hbits]
  simp only [Bool.false_eq_true, if_false, if_true, lanes_shift]

theorem unsent_load (a b : BitVec 32) : unsent (s.load a b) = groupEdges (a, b) := by
  have hA : lineA (s.load a b) = a := line_load a
  have hB : lineB (s.load a b) = b := line_load b
  rw [unsent, hA, hB]
  rfl

theorem unsent_done (hs : s.dacSclk = true) (hr : ¬ 1 < s.bitsRemaining) : unsent s = [] := by
  have hzero : s.bitsRemaining.toNat - 1 = 0 := by
    rw [BitVec.lt_def] at hr
    exact Nat.sub_eq_zero_of_le (Nat.le_of_not_lt hr)
  rw [unsent, hs, hzero]
  rfl

theorem edges_rise (hcs : s.dacCsN = false) (hlow : s.dacSclk = false) :
    edges s { s.accept i with dacSclk := true } = [.bit s.dacSdio0A s.dacSdio0B] := by
  simp [edges, Dac.accept, hcs, hlow]

theorem edges_fall {t : Dac} (hcs : s.dacCsN = false) (hcs' : t.dacCsN = false)
    (hlow : t.dacSclk = false) : edges s t = [] := by
  simp [edges, hcs, hcs', hlow]

theorem edges_close {t : Dac} (hcs : s.dacCsN = false) (hcs' : t.dacCsN = true)
    (hlow : t.dacSclk = false) : edges s t = [.deselect] := by
  simp [edges, hcs, hcs', hlow]

theorem edges_open {t : Dac} (hcs : s.dacCsN = true) (hcs' : t.dacCsN = false)
    (hlow : t.dacSclk = false) : edges s t = [.select] := by
  simp [edges, hcs, hcs', hlow]

theorem edges_idle {t : Dac} (hcs : s.dacCsN = true) (hcs' : t.dacCsN = true)
    (hlow : t.dacSclk = false) : edges s t = [] := by
  simp [edges, hcs, hcs', hlow]

section Frames

/-- A state that clocks out a frame. -/
def Shifting (s : Dac) : Prop :=
  s.state = .cfgShift ∨ s.state = .streamInstr ∨ s.state = .streamData

/-- What follows the shift registers before the bus is released. -/
def closing (s : Dac) : List Edge := if s.state = .cfgShift then [.deselect] else []

theorem todo_shifting (h : Shifting s) : todo s = unsent s ++ closing s := by
  rcases h with h | h | h <;> simp [todo, closing, h]

theorem framed_shifting (h : Shifting s) :
    Framed s ↔ s.dacCsN = false ∧ 1 ≤ s.bitsRemaining.toNat := by
  rcases h with h | h | h <;> rw [Framed, h]

theorem rise_sends (h : Shifting s) (hf : Framed s) (hlow : s.dacSclk = false) :
    Sends s { s.accept i with dacSclk := true } [] := by
  obtain ⟨hcs, hr⟩ := (framed_shifting h).mp hf
  have ht : Shifting { s.accept i with dacSclk := true } := h
  refine ⟨(framed_shifting ht).mpr ⟨hcs, hr⟩, ?_⟩
  have hunsent : unsent s =
      .bit s.dacSdio0A s.dacSdio0B :: unsent { s.accept i with dacSclk := true } :=
    unsent_rise hlow hr rfl rfl rfl rfl
  rw [edges_rise hcs hlow, todo_shifting h, todo_shifting ht, hunsent, List.append_nil]
  rfl

theorem shift_sends (h : Shifting s) (hf : Framed s) (hhigh : s.dacSclk = true)
    (hr : 1 < s.bitsRemaining) : Sends s (s.accept i).shift [] := by
  obtain ⟨hcs, -⟩ := (framed_shifting h).mp hf
  have ht : Shifting (s.accept i).shift := h
  have hleft : 1 ≤ (s.accept i).shift.bitsRemaining.toNat := by
    have hgt : 1 < s.bitsRemaining.toNat := hr
    exact shift_bits hr ▸ Nat.le_sub_one_of_lt hgt
  refine ⟨(framed_shifting ht).mpr ⟨hcs, hleft⟩, ?_⟩
  have hunsent : unsent (s.accept i).shift = unsent s := unsent_shift hhigh hr
  have hedges : edges s (s.accept i).shift = [] := edges_fall hcs hcs rfl
  rw [hedges, todo_shifting h, todo_shifting ht, hunsent, List.append_nil]
  rfl

theorem load_sends {t : Dac} {a b : BitVec 32} (next : Dac)
    (h : s.state = .streamInstr ∨ s.state = .streamData) (hf : Framed s)
    (hhigh : s.dacSclk = true) (hr : ¬ 1 < s.bitsRemaining) (ht : t.state = .streamData)
    (hcs : t.dacCsN = false) (hlow : t.dacSclk = false) (hbits : t.bitsRemaining = 32)
    (hunsent : unsent t = unsent (next.load a b)) : Sends s t (groupEdges (a, b)) := by
  have hs : Shifting s := Or.inr h
  have htS : Shifting t := Or.inr (Or.inr ht)
  obtain ⟨hscs, -⟩ := (framed_shifting hs).mp hf
  refine ⟨(framed_shifting htS).mpr ⟨hcs, by rw [hbits]; decide⟩, ?_⟩
  have hclose : closing s = [] := by
    rcases h with h | h <;> simp [closing, h]
  have hclose' : closing t = [] := by simp [closing, ht]
  rw [edges_fall hscs hcs hlow, todo_shifting hs, todo_shifting htS, hclose, hclose',
    unsent_done hhigh hr, hunsent, unsent_load]
  simp

theorem atBoundary_iff :
    s.atBoundary = true ↔ (s.state = .streamInstr ∨ s.state = .streamData) ∧ s.dacSclk = true ∧
      ¬ 1 < s.bitsRemaining := by
  simp [Dac.atBoundary, and_assoc]

theorem not_atBoundary (hr : 1 < s.bitsRemaining) : s.atBoundary = false := by
  rw [Dac.atBoundary, decide_eq_true hr]
  simp

theorem begun_within (hs : s.state = .streamInstr ∨ s.state = .streamData)
    (h : s.atBoundary = false) : begun p s i = [] := by
  have hnone : s.groupBegun p i = none := by rw [Dac.groupBegun, h]; rfl
  rcases hs with hs | hs <;> rw [begun, hs] <;> dsimp only <;> rw [hnone] <;> rfl

theorem begun_boundary (h : s.atBoundary = true) : begun p s i = groupEdges (s.groupWords p i) := by
  have hsome : s.groupBegun p i = some (s.groupWords p i) := by rw [Dac.groupBegun, h]; rfl
  rcases (atBoundary_iff.mp h).1 with hs | hs <;> rw [begun, hs] <;> dsimp only <;> rw [hsome] <;>
    exact List.flatMap_singleton _ _

theorem line_padded (c : BitVec 16) :
    line (c.getLsbD 15) (c.setWidth 15 ++ (0 : BitVec 16)) = c ++ (0 : BitVec 16) := by
  have hc : BitVec.cons c.msb (c.setWidth 15) = c := BitVec.cons_msb_setWidth c
  have happend := BitVec.cons_append (c.setWidth 15) (0 : BitVec 16) c.msb
  rw [hc, BitVec.cast_eq] at happend
  exact happend.symm

theorem line_instr :
    line false ((0x2C : BitVec 7) ++ (0 : BitVec 24)) = (0x2C : BitVec 8) ++ (0 : BitVec 24) := by
  decide

theorem stream_begins {t : Dac} (hs : s.state = .waitSample) (hpv : s.pendingValid = true)
    (hf : Framed s) (ht : t = s.waitSample (s.accept i)) : Sends s t (.select :: instrEdges) := by
  rw [Framed, hs] at hf
  rw [Dac.waitSample, if_pos hpv] at ht
  have hst : t.state = .streamInstr := by rw [ht]
  have hcs : t.dacCsN = false := by rw [ht]
  have hlow : t.dacSclk = false := by rw [ht]; rfl
  have hbits : t.bitsRemaining = 8 := by rw [ht]
  have hA : lineA t = (0x2C : BitVec 8) ++ (0 : BitVec 24) := by
    rw [ht]
    exact line_instr
  have hB : lineB t = (0x2C : BitVec 8) ++ (0 : BitVec 24) := by
    rw [ht]
    exact line_instr
  have hshift : Shifting t := Or.inr (Or.inl hst)
  refine ⟨(framed_shifting hshift).mpr ⟨hcs, by rw [hbits]; decide⟩, ?_⟩
  have htodo : todo s = [] := by rw [todo, hs]
  have hclose : closing t = [] := by
    rw [closing, hst]
    rfl
  have hunsent : unsent t = instrEdges := by
    rw [unsent, hlow, hA, hB, hbits]
    exact congrArg (List.map toBit) (lanes_append _ _ _ _ (by decide))
  rw [htodo, edges_open hf.1 hcs hlow, todo_shifting hshift, hclose, hunsent, List.append_nil]
  rfl

theorem config_begins {t : Dac} (hs : s.state = .cfgStart) (hf : Framed s)
    (ht : t = s.cfgStart p (s.accept i)) : Sends s t (configFrame p s.configIndex) := by
  rw [Framed, hs] at hf
  have hst : t.state = .cfgShift := by rw [ht]; rfl
  have hcs : t.dacCsN = false := by rw [ht]; rfl
  have hlow : t.dacSclk = false := by rw [ht]; rfl
  have hbits : t.bitsRemaining = 16 := by rw [ht]; rfl
  have hA : lineA t = configWord p s.configIndex ++ (0 : BitVec 16) := by
    rw [ht]
    exact line_padded (configWord p s.configIndex)
  have hB : lineB t = configWord p s.configIndex ++ (0 : BitVec 16) := by
    rw [ht]
    exact line_padded (configWord p s.configIndex)
  have hshift : Shifting t := Or.inl hst
  refine ⟨(framed_shifting hshift).mpr ⟨hcs, by rw [hbits]; decide⟩, ?_⟩
  have htodo : todo s = [] := by rw [todo, hs]
  have hclose : closing t = [.deselect] := by rw [closing, if_pos hst]
  have hunsent : unsent t = wordEdges (configWord p s.configIndex) (configWord p s.configIndex) := by
    rw [unsent, hlow, hA, hB, hbits]
    exact congrArg (List.map toBit) (lanes_append _ _ _ _ (Nat.le_refl 16))
  rw [htodo, edges_open hf.1 hcs hlow, todo_shifting hshift, hclose, hunsent, configFrame]
  rfl

/-- A state between frames. -/
def Idle (s : Dac) : Prop :=
  s.state = .delay ∨ s.state = .cfgStart ∨ s.state = .cfgGap ∨ s.state = .waitSample

theorem framed_idle (h : Idle s) : Framed s ↔ s.dacCsN = true ∧ s.dacSclk = false := by
  rcases h with h | h | h | h <;> rw [Framed, h]

theorem todo_idle (h : Idle s) : todo s = [] := by
  rcases h with h | h | h | h <;> rw [todo, h]

theorem idle_sends {t : Dac} (hs : Idle s) (hf : Framed s) (ht : Idle t) (hcs : t.dacCsN = true)
    (hlow : t.dacSclk = false) : Sends s t [] := by
  obtain ⟨hscs, -⟩ := (framed_idle hs).mp hf
  refine ⟨(framed_idle ht).mpr ⟨hcs, hlow⟩, ?_⟩
  rw [todo_idle hs, todo_idle ht, edges_idle hscs hcs hlow]

theorem cfgShift_sends (hs : s.state = .cfgShift) (hf : Framed s) :
    Sends s (s.cfgShift (s.accept i)) [] := by
  have hshift : Shifting s := Or.inl hs
  rw [Dac.cfgShift]
  cases hclk : s.dacSclk with
  | false => exact rise_sends hshift hf hclk
  | true =>
      by_cases hr : 1 < s.bitsRemaining
      · rw [if_neg (by decide), if_pos hr]
        exact shift_sends hshift hf hclk hr
      · rw [if_neg (by decide), if_neg hr]
        obtain ⟨hcs, -⟩ := (framed_shifting hshift).mp hf
        refine ⟨⟨rfl, rfl⟩, ?_⟩
        have hclose : closing s = [.deselect] := by rw [closing, if_pos hs]
        rw [todo_shifting hshift, unsent_done hclk hr, hclose, edges_close hcs rfl rfl]
        rfl

theorem clocking_sends (hin : s.state = .streamInstr ∨ s.state = .streamData) (hf : Framed s)
    {next : Dac}
    (hnext : s.dacSclk = true → ¬ 1 < s.bitsRemaining →
      Sends s next (groupEdges (s.groupWords p i))) :
    Sends s
      (if !s.dacSclk then { s.accept i with dacSclk := true }
        else if 1 < s.bitsRemaining then (s.accept i).shift else next)
      (begun p s i) := by
  have hshift : Shifting s := Or.inr hin
  cases hclk : s.dacSclk with
  | false =>
      rw [begun_within p hin (by simp [Dac.atBoundary, hclk])]
      exact rise_sends hshift hf hclk
  | true =>
      by_cases hr : 1 < s.bitsRemaining
      · rw [if_neg (by decide), if_pos hr, begun_within p hin (not_atBoundary hr)]
        exact shift_sends hshift hf hclk hr
      · rw [if_neg (by decide), if_neg hr, begun_boundary p (atBoundary_iff.mpr ⟨hin, hclk, hr⟩)]
        exact hnext hclk hr

theorem streamInstr_sends (hs : s.state = .streamInstr) (hf : Framed s) :
    Sends s (s.streamInstr p (s.accept i) i) (begun p s i) := by
  have hin : s.state = .streamInstr ∨ s.state = .streamData := Or.inl hs
  have hshift : Shifting s := Or.inr hin
  obtain ⟨hcs, -⟩ := (framed_shifting hshift).mp hf
  rw [Dac.streamInstr]
  apply clocking_sends p hin hf
  intro hclk hr
  rw [Dac.groupWords, hs]
  cases i.live with
  | true => exact load_sends (s.accept i) hin hf hclk hr rfl hcs rfl rfl rfl
  | false => exact load_sends (s.accept i) hin hf hclk hr rfl hcs rfl rfl rfl

theorem streamData_sends (hs : s.state = .streamData) (hf : Framed s) :
    Sends s (s.streamData p { s.accept i with dacCsN := false } i) (begun p s i) := by
  have hin : s.state = .streamInstr ∨ s.state = .streamData := Or.inr hs
  have hshift : Shifting s := Or.inr hin
  obtain ⟨hcs, -⟩ := (framed_shifting hshift).mp hf
  have hheld : { s.accept i with dacCsN := false } = s.accept i := by
    have hacs : (s.accept i).dacCsN = false := hcs
    rw [← hacs]
  rw [hheld, Dac.streamData]
  apply clocking_sends p hin hf
  intro hclk hr
  rw [Dac.groupWords, hs]
  cases i.live with
  | false => exact load_sends (s.accept i) hin hf hclk hr hs hcs rfl rfl rfl
  | true =>
      cases s.pendingValid with
      | true => exact load_sends (s.accept i) hin hf hclk hr hs hcs rfl rfl rfl
      | false => exact load_sends (s.accept i) hin hf hclk hr hs hcs rfl rfl rfl

theorem step_sends (hf : Framed s) : Sends s (s.step p i) (begun p s i) := by
  rw [Dac.step]
  cases hs : s.state with
  | cfgShift =>
      have hbegun : begun p s i = [] := by rw [begun, hs]
      rw [hbegun]
      exact cfgShift_sends hs hf
  | cfgStart =>
      have hbegun : begun p s i = configFrame p s.configIndex := by rw [begun, hs]
      rw [hbegun]
      exact config_begins p hs hf rfl
  | streamInstr => exact streamInstr_sends p hs hf
  | streamData => exact streamData_sends p hs hf
  | waitSample =>
      have hbegun : begun p s i = if s.pendingValid then .select :: instrEdges else [] := by
        rw [begun, hs]
      rw [hbegun]
      cases hpv : s.pendingValid with
      | true => exact stream_begins hs hpv hf rfl
      | false =>
          have hidle : Idle s := Or.inr (Or.inr (Or.inr hs))
          have hwait : s.waitSample (s.accept i) = (s.accept i).idleBus := by
            rw [Dac.waitSample, hpv]
            rfl
          dsimp only
          rw [hwait]
          exact idle_sends hidle hf hidle rfl rfl
  | delay =>
      have hbegun : begun p s i = [] := by rw [begun, hs]
      have hidle : Idle s := Or.inl hs
      rw [hbegun]
      dsimp only
      rw [Dac.delay]
      split
      · exact idle_sends hidle hf (Or.inr (Or.inl rfl)) rfl rfl
      · exact idle_sends hidle hf hidle rfl rfl
  | cfgGap =>
      have hbegun : begun p s i = [] := by rw [begun, hs]
      have hidle : Idle s := Or.inr (Or.inr (Or.inl hs))
      rw [hbegun]
      dsimp only
      rw [Dac.cfgGap]
      split
      · exact idle_sends hidle hf (Or.inr (Or.inl rfl)) rfl rfl
      · exact idle_sends hidle hf (Or.inr (Or.inr (Or.inr rfl))) rfl rfl

end Frames

section Header

def configFrames (k : Nat) : List Edge :=
  (List.range k).flatMap (fun j => configFrame p (BitVec.ofNat 2 j))

/-- Everything begun before the first group, as far as the state has come. -/
def header (s : Dac) : List Edge :=
  match s.state with
  | .delay => []
  | .cfgStart => configFrames p s.configIndex.toNat
  | .cfgShift | .cfgGap => configFrames p (s.configIndex.toNat + 1)
  | .waitSample => configFrames p 3
  | .streamInstr | .streamData => configFrames p 3 ++ .select :: instrEdges

def Streaming (s : Dac) : Prop := s.state = .streamInstr ∨ s.state = .streamData

instance (s : Dac) : Decidable (Streaming s) := inferInstanceAs (Decidable (_ ∨ _))

theorem configFrames_succ (index : BitVec 2) :
    configFrames p (index.toNat + 1) = configFrames p index.toNat ++ configFrame p index := by
  rw [configFrames, configFrames, List.range_succ, List.flatMap_append]
  simp

theorem header_streaming (h : Streaming s) :
    header p s = configFrames p 3 ++ .select :: instrEdges := by
  rcases h with h | h <;> rw [header, h]

theorem step_control (s : Dac) (i : DacInput) :
    match s.state with
    | .delay =>
        (s.step p i).state = .delay ∨
          ((s.step p i).state = .cfgStart ∧ (s.step p i).configIndex = 0)
    | .cfgStart =>
        (s.step p i).state = .cfgShift ∧ (s.step p i).configIndex = s.configIndex
    | .cfgShift =>
        ((s.step p i).state = .cfgShift ∨ (s.step p i).state = .cfgGap) ∧
          (s.step p i).configIndex = s.configIndex
    | .cfgGap =>
        (s.configIndex < 2 ∧ (s.step p i).state = .cfgStart ∧
            (s.step p i).configIndex = s.configIndex + 1) ∨
          (¬ s.configIndex < 2 ∧ (s.step p i).state = .waitSample)
    | .waitSample =>
        (s.step p i).state = if s.pendingValid then .streamInstr else .waitSample
    | .streamInstr =>
        (s.step p i).state = if s.atBoundary then .streamData else .streamInstr
    | .streamData => (s.step p i).state = .streamData := by
  rw [Dac.step]
  cases hs : s.state with
  | delay =>
      dsimp only
      rw [Dac.delay]
      split_ifs
      · exact Or.inr ⟨rfl, rfl⟩
      · exact Or.inl hs
  | cfgStart => exact ⟨rfl, rfl⟩
  | cfgShift =>
      dsimp only
      rw [Dac.cfgShift]
      split_ifs
      · exact ⟨Or.inl hs, rfl⟩
      · exact ⟨Or.inl hs, rfl⟩
      · exact ⟨Or.inr rfl, rfl⟩
  | cfgGap =>
      dsimp only
      rw [Dac.cfgGap]
      split_ifs with hlt
      · exact Or.inl ⟨hlt, rfl, rfl⟩
      · exact Or.inr ⟨hlt, rfl⟩
  | waitSample =>
      dsimp only
      rw [Dac.waitSample]
      split_ifs
      · rfl
      · exact hs
  | streamInstr =>
      dsimp only
      rw [Dac.streamInstr]
      cases hclk : s.dacSclk with
      | false =>
          have hb : s.atBoundary = false := by simp [Dac.atBoundary, hclk]
          rw [hb]
          exact hs
      | true =>
          by_cases hr : 1 < s.bitsRemaining
          · rw [if_neg (by decide), if_pos hr, not_atBoundary hr]
            exact hs
          · rw [if_neg (by decide), if_neg hr, atBoundary_iff.mpr ⟨Or.inl hs, hclk, hr⟩]
            cases i.live <;> rfl
  | streamData =>
      dsimp only
      rw [Dac.streamData]
      split_ifs <;> exact hs

theorem streaming_step (h : Streaming s) : Streaming (s.step p i) := by
  have hcontrol := step_control p s i
  rcases h with h | h
  · rw [h] at hcontrol
    cases hb : s.atBoundary with
    | true => exact Or.inr (hcontrol.trans (by rw [hb]; rfl))
    | false => exact Or.inl (hcontrol.trans (by rw [hb]; rfl))
  · rw [h] at hcontrol
    exact Or.inr hcontrol

/-- While frames are left to configure, the index names one of the three. -/
def IndexOk (s : Dac) : Prop :=
  s.state = .cfgStart ∨ s.state = .cfgShift ∨ s.state = .cfgGap → s.configIndex.toNat ≤ 2

theorem indexOk_step (h : IndexOk s) : IndexOk (s.step p i) := by
  have hcontrol := step_control p s i
  intro ht
  cases hs : s.state with
  | delay =>
      rw [hs] at hcontrol
      rcases hcontrol with hd | ⟨-, hindex⟩
      · rw [hd] at ht
        simp at ht
      · rw [hindex]
        decide
  | cfgStart =>
      rw [hs] at hcontrol
      rw [hcontrol.2]
      exact h (Or.inl hs)
  | cfgShift =>
      rw [hs] at hcontrol
      rw [hcontrol.2]
      exact h (Or.inr (Or.inl hs))
  | cfgGap =>
      rw [hs] at hcontrol
      rcases hcontrol with ⟨hlt, -, hindex⟩ | ⟨-, hwait⟩
      · have hnat : s.configIndex.toNat < 2 := hlt
        rw [hindex, BitVec.toNat_add]
        exact Nat.le_trans (Nat.mod_le _ _) (Nat.succ_le_of_lt hnat)
      · rw [hwait] at ht
        simp at ht
  | waitSample =>
      rw [hs] at hcontrol
      simp only at hcontrol
      rw [hcontrol] at ht
      cases hpv : s.pendingValid <;> simp [hpv] at ht
  | streamInstr | streamData =>
      rcases streaming_step p (i := i) (s := s) (by simp [Streaming, hs]) with hst | hst <;>
        rw [hst] at ht <;> simp at ht

theorem header_step (h : ¬ Streaming s) (hindex : IndexOk s) :
    header p (s.step p i) = header p s ++ begun p s i := by
  have hcontrol := step_control p s i
  cases hs : s.state with
  | delay =>
      rw [hs] at hcontrol
      rw [header, header, begun, hs]
      rcases hcontrol with hd | ⟨hd, hindex⟩
      · rw [hd]
        rfl
      · rw [hd, hindex]
        rfl
  | cfgStart =>
      rw [hs] at hcontrol
      rw [header, header, begun, hs, hcontrol.1, hcontrol.2]
      exact configFrames_succ p s.configIndex
  | cfgShift =>
      rw [hs] at hcontrol
      rw [header, header, begun, hs, hcontrol.2]
      rcases hcontrol.1 with ht | ht <;> rw [ht] <;> exact (List.append_nil _).symm
  | cfgGap =>
      rw [hs] at hcontrol
      have hle := hindex (Or.inr (Or.inr hs))
      rw [header, header, begun, hs]
      rcases hcontrol with ⟨hlt, ht, hsucc⟩ | ⟨hge, ht⟩
      · have hnat : s.configIndex.toNat < 2 := hlt
        have hnext : (s.configIndex + 1).toNat = s.configIndex.toNat + 1 := by
          rw [BitVec.toNat_add]
          exact Nat.mod_eq_of_lt (Nat.lt_of_le_of_lt (Nat.succ_le_of_lt hnat) (by decide))
        rw [ht, hsucc]
        dsimp only
        rw [hnext, List.append_nil]
      · have hnat : ¬ s.configIndex.toNat < 2 := hge
        have hlast : s.configIndex.toNat = 2 := by omega
        rw [ht, hlast]
        exact (List.append_nil _).symm
  | waitSample =>
      rw [hs] at hcontrol
      simp only at hcontrol
      rw [header, header, begun, hs, hcontrol]
      cases s.pendingValid with
      | true => rfl
      | false => exact (List.append_nil _).symm
  | streamInstr => exact absurd (Or.inl hs) h
  | streamData => exact absurd (Or.inr hs) h
end Header

section Run

variable (x : Nat → DacInput)

def dacAt (n : Nat) : Dac := wave (Dac.step p) (.reset p) x n

def emitted (n : Nat) : List Edge := between (fun k => edges (dacAt p x k) (dacAt p x (k + 1))) 0 n

def groups (n : Nat) : List (BitVec 32 × BitVec 32) :=
  between (fun k => ((dacAt p x k).groupBegun p (x k)).toList) 0 n

theorem framed_reset : Framed (.reset p) := ⟨rfl, rfl⟩

theorem indexOk_reset : IndexOk (.reset p) := fun _ => Nat.zero_le 2

theorem dacAt_framed (n : Nat) : Framed (dacAt p x n) :=
  wave_invariant (P := Framed) (framed_reset p) (fun _ _ h => (step_sends p h).1) x n

theorem dacAt_indexOk (n : Nat) : IndexOk (dacAt p x n) :=
  wave_invariant (P := IndexOk) (indexOk_reset p) (fun _ _ h => indexOk_step p h) x n

theorem groupBegun_idle {s : Dac} (h : ¬ Streaming s) (i : DacInput) : s.groupBegun p i = none := by
  have hb : s.atBoundary = false :=
    Bool.eq_false_iff.mpr (fun hb => h (atBoundary_iff.mp hb).1)
  rw [Dac.groupBegun, hb]
  rfl

theorem groups_succ (n : Nat) :
    groups p x (n + 1) = groups p x n ++ ((dacAt p x n).groupBegun p (x n)).toList :=
  between_succ _ (Nat.zero_le n)

theorem groups_idle {n : Nat} (h : ¬ Streaming (dacAt p x n)) : groups p x n = [] := by
  induction n with
  | zero => rfl
  | succ n ih =>
      have hn : ¬ Streaming (dacAt p x n) := fun hs => h (streaming_step p hs)
      rw [groups_succ, ih hn, groupBegun_idle p hn]
      rfl

theorem begun_total (n : Nat) :
    between (fun k => begun p (dacAt p x k) (x k)) 0 n =
      header p (dacAt p x n) ++ (groups p x n).flatMap groupEdges := by
  induction n with
  | zero => rfl
  | succ n ih =>
      rw [between_succ _ (Nat.zero_le n), ih]
      by_cases hs : Streaming (dacAt p x n)
      · have hs' : Streaming (dacAt p x (n + 1)) := streaming_step p hs
        have hbegun : begun p (dacAt p x n) (x n) =
            ((dacAt p x n).groupBegun p (x n)).toList.flatMap groupEdges := by
          rcases hs with hs | hs <;> rw [begun, hs]
        rw [header_streaming p hs, header_streaming p hs', groups_succ, hbegun,
          List.flatMap_append, List.append_assoc]
      · have hheader : header p (dacAt p x (n + 1)) =
            header p (dacAt p x n) ++ begun p (dacAt p x n) (x n) :=
          header_step p hs (dacAt_indexOk p x n)
        rw [hheader, groups_succ, groups_idle p x hs, groupBegun_idle p hs]
        simp

/-- The bus has sent all that was begun but the bits still due: the three
configuration frames, the stream instruction, and the groups in order. -/
theorem emitted_todo (n : Nat) :
    emitted p x n ++ todo (dacAt p x n) =
      header p (dacAt p x n) ++ (groups p x n).flatMap groupEdges := by
  have hconserves := between_conserves (fun k => todo (dacAt p x k))
    (fun k => begun p (dacAt p x k) (x k)) (fun k => edges (dacAt p x k) (dacAt p x (k + 1)))
    (Nat.zero_le n) (fun k _ _ => (step_sends p (dacAt_framed p x k)).2)
  rw [← begun_total]
  exact hconserves.symm

end Run

end HilLab.Rtl.QuadStreamBits
