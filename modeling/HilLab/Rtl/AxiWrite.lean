import HilLab.Rtl.AxiMaster

namespace HilLab.Rtl.AxiWrite

open Lib.Clocked EventFifo ControlPlane AxiMaster

/-- A write as the master gives it, address and data each on a channel of its own. -/
structure Write where
  addr : BitVec 12
  data : BitVec 32
  strb : BitVec 4

section Channel

variable (w : WriteChannel) (i : AxiInput)

def takesAddr : List (BitVec 12) := if !w.awPending && i.awvalid then [i.awaddr] else []

def takesData : List (BitVec 32 × BitVec 4) :=
  if !w.wPending && i.wvalid then [(i.wdata, i.wstrb)] else []

/-- The responses that the master takes. -/
def answers : List (BitVec 2) := if w.bvalid && i.bready then [w.bresp] else []

def held : Write := ⟨w.awaddrHold, w.wdataHold, w.wstrbHold⟩

def commits : List Write := if w.commit then [held w] else []

def heldAddr : List (BitVec 12) := if w.awPending then [w.awaddrHold] else []

def heldData : List (BitVec 32 × BitVec 4) :=
  if w.wPending then [(w.wdataHold, w.wstrbHold)] else []

/-- A write of which both halves are held and that is not committed yet. -/
def waiting : List Write := if w.awPending && w.wPending then [held w] else []

def outstanding : List (BitVec 2) := if w.bvalid then [w.bresp] else []

variable {w i}

theorem commit_pending (h : w.commit = true) :
    w.awPending = true ∧ w.wPending = true ∧ w.bvalid = false := by
  rw [WriteChannel.commit] at h
  simpa [and_assoc] using h

theorem addr_conserved :
    heldAddr w ++ takesAddr w i = (commits w).map Write.addr ++ heldAddr (w.step i) := by
  rw [heldAddr, heldAddr, takesAddr, commits, write_step_awPending, write_step_awaddr]
  cases hc : w.commit with
  | true =>
      rw [(commit_pending hc).1]
      simp [held]
  | false =>
      cases w.awPending <;> cases i.awvalid <;> simp

theorem data_conserved :
    heldData w ++ takesData w i =
      (commits w).map (fun c => (c.data, c.strb)) ++ heldData (w.step i) := by
  rw [heldData, heldData, takesData, commits, write_step_wPending, (write_step_wdata _ _).1,
    (write_step_wdata _ _).2]
  cases hc : w.commit with
  | true =>
      rw [(commit_pending hc).2.1]
      simp [held]
  | false =>
      cases w.wPending <;> cases i.wvalid <;> simp

theorem write_step_bresp : (w.step i).bresp = if w.commit then 0 else w.bresp := by
  rw [WriteChannel.step]
  split_ifs <;> rfl

theorem response_conserved :
    outstanding w ++ (commits w).map (fun _ => 0) = answers w i ++ outstanding (w.step i) := by
  rw [outstanding, outstanding, answers, commits, write_step_bvalid, write_step_bresp]
  cases hc : w.commit with
  | true =>
      rw [(commit_pending hc).2.2]
      simp
  | false =>
      cases w.bvalid <;> cases i.bready <;> simp

/-- A held write waits for the response of the one before it and for nothing else. -/
theorem commits_eq : commits w = if w.bvalid then [] else waiting w := by
  rw [commits, waiting, WriteChannel.commit]
  cases w.bvalid <;> cases w.awPending <;> cases w.wPending <;> rfl

end Channel

section Runs

variable {D W I : Nat} (p : Identity) (mem : Nat → Event W I) (x : Nat → PlaneInput)

def planeAt (n : Nat) : Plane D W I := wave (Plane.step p) (Plane.reset mem) x n

variable (D) in
def channelAt (n : Nat) : WriteChannel := (planeAt p mem x n : Plane D W I).write

variable (D) in
/-- The writes of which both halves have been accepted before clock n, the k-th address with the
k-th data and strobes. -/
def accepted (n : Nat) : List Write :=
  List.zipWith (fun a d => ⟨a, d.1, d.2⟩)
    (between (fun k => takesAddr (channelAt D p mem x k) (x k).axi) 0 n)
    (between (fun k => takesData (channelAt D p mem x k) (x k).axi) 0 n)

variable (D) in
def committed (n : Nat) : List Write := between (fun k => commits (channelAt D p mem x k)) 0 n

variable (D) in
def answered (n : Nat) : List (BitVec 2) :=
  between (fun k => answers (channelAt D p mem x k) (x k).axi) 0 n

variable {p mem x}

theorem map_between {α β : Type} (g : α → β) (f : Nat → List α) (i j : Nat) :
    (between f i j).map g = between (fun n => (f n).map g) i j := List.map_flatMap

theorem addrs_eq (n : Nat) :
    between (fun k => takesAddr (channelAt D p mem x k) (x k).axi) 0 n =
      (committed D p mem x n).map Write.addr ++ heldAddr (channelAt D p mem x n) := by
  rw [committed, map_between]
  exact between_conserves (fun k => heldAddr (channelAt D p mem x k)) _ _ (Nat.zero_le n)
    (fun k _ _ => addr_conserved)

theorem datas_eq (n : Nat) :
    between (fun k => takesData (channelAt D p mem x k) (x k).axi) 0 n =
      (committed D p mem x n).map (fun c => (c.data, c.strb)) ++
        heldData (channelAt D p mem x n) := by
  rw [committed, map_between]
  exact between_conserves (fun k => heldData (channelAt D p mem x k)) _ _ (Nat.zero_le n)
    (fun k _ _ => data_conserved)

/-- The accepted writes are the committed ones, in order, and at most one that waits. -/
theorem accepted_eq (n : Nat) :
    accepted D p mem x n = committed D p mem x n ++ waiting (channelAt D p mem x n) := by
  rw [accepted, addrs_eq, datas_eq, List.zipWith_append (by simp), List.zipWith_map_left,
    List.zipWith_map_right, List.zipWith_self, heldAddr, heldData, waiting]
  congr 1
  · exact List.map_id _
  · cases (channelAt D p mem x n).awPending <;> cases (channelAt D p mem x n).wPending <;> rfl

theorem responses_eq (n : Nat) :
    (committed D p mem x n).map (fun _ => 0) =
      answered D p mem x n ++ outstanding (channelAt D p mem x n) := by
  rw [committed, map_between]
  exact between_conserves (fun k => outstanding (channelAt D p mem x k)) _ _ (Nat.zero_le n)
    (fun k _ _ => response_conserved)

theorem committed_succ (n : Nat) :
    committed D p mem x (n + 1) = committed D p mem x n ++ commits (channelAt D p mem x n) :=
  between_succ _ (Nat.zero_le n)

theorem answered_succ (n : Nat) :
    answered D p mem x (n + 1) =
      answered D p mem x n ++ answers (channelAt D p mem x n) (x n).axi :=
  between_succ _ (Nat.zero_le n)

theorem committed_mono {m n : Nat} (h : m ≤ n) :
    (committed D p mem x m).length ≤ (committed D p mem x n).length := by
  have hextends := between_prefix (fun k => commits (channelAt D p mem x k)) 0 (Nat.zero_le m) h
  exact hextends.length_le

variable (D p mem x) in
theorem committed_length (n : Nat) :
    (committed D p mem x n).length =
      (answered D p mem x n).length + (outstanding (channelAt D p mem x n)).length := by
  rw [← List.length_append, ← responses_eq, List.length_map]

variable (D p mem x) in
theorem accepted_length (n : Nat) :
    (accepted D p mem x n).length =
      (committed D p mem x n).length + (waiting (channelAt D p mem x n)).length := by
  rw [← List.length_append, ← accepted_eq]

theorem committed_of_answered {n k : Nat} (hk : k < (accepted D p mem x n).length)
    (ha : k ≤ (answered D p mem x n).length) : k < (committed D p mem x (n + 1)).length := by
  have hc := committed_length D p mem x n
  have hw := accepted_length D p mem x n
  rw [committed_succ, List.length_append, commits_eq]
  rw [outstanding] at hc
  cases hb : (channelAt D p mem x n).bvalid with
  | true =>
      rw [hb, if_pos rfl, List.length_singleton] at hc
      omega
  | false =>
      rw [if_neg Bool.false_ne_true]
      omega

theorem answered_of_ready {n k : Nat} (hk : k < (committed D p mem x n).length)
    (hr : (x n).axi.bready = true) : k < (answered D p mem x (n + 1)).length := by
  have hc := committed_length D p mem x n
  rw [answered_succ, List.length_append, answers, hr, Bool.and_true]
  rw [outstanding] at hc
  cases hb : (channelAt D p mem x n).bvalid with
  | true =>
      rw [hb, if_pos rfl, List.length_singleton] at hc
      rw [if_pos rfl, List.length_singleton]
      exact hc ▸ hk
  | false =>
      rw [hb, if_neg Bool.false_ne_true, List.length_nil] at hc
      omega

theorem zipWith_extends {α β γ : Type} (f : α → β → γ) {as as' : List α} {bs bs' : List β}
    (ha : as <+: as') (hb : bs <+: bs') : List.zipWith f as bs <+: List.zipWith f as' bs' := by
  induction as generalizing as' bs bs' with
  | nil => exact List.nil_prefix
  | cons a as ih =>
      cases bs with
      | nil => exact List.nil_prefix
      | cons b bs =>
          obtain ⟨rest, rfl, ha'⟩ := List.cons_prefix_iff.mp ha
          obtain ⟨rest', rfl, hb'⟩ := List.cons_prefix_iff.mp hb
          exact List.cons_prefix_cons.mpr ⟨rfl, ih ha' hb'⟩

theorem accepted_extends {m n : Nat} (h : m ≤ n) :
    accepted D p mem x m <+: accepted D p mem x n := by
  apply zipWith_extends
  · exact between_prefix _ 0 (Nat.zero_le m) h
  · exact between_prefix _ 0 (Nat.zero_le m) h

theorem eventually_answered (hr : ∀ n, ∃ m, n ≤ m ∧ (x m).axi.bready = true) {n k : Nat}
    (hk : k ≤ (accepted D p mem x n).length) :
    ∃ m, n ≤ m ∧ k ≤ (answered D p mem x m).length := by
  induction k with
  | zero => exact ⟨n, Nat.le_refl n, Nat.zero_le _⟩
  | succ k ih =>
      obtain ⟨m, hnm, ha⟩ := ih (Nat.le_of_succ_le hk)
      have hc : k < (committed D p mem x (m + 1)).length :=
        committed_of_answered (Nat.lt_of_lt_of_le hk (accepted_extends hnm).length_le) ha
      obtain ⟨m', hm, hready⟩ := hr (m + 1)
      refine ⟨m' + 1, by omega, ?_⟩
      exact answered_of_ready (Nat.lt_of_lt_of_le hc (committed_mono hm)) hready

end Runs

section Registers

variable {D W I : Nat}

/-- What software has written: the settings and the staged event, without the pulses. -/
structure Registers (W I : Nat) where
  settings : Config
  event : Event W I

def Plane.registers (c : Plane D W I) : Registers W I := ⟨settled c.config, c.stage.event⟩

def Write.channel (w : Write) : WriteChannel :=
  { awPending := true, awaddrHold := w.addr, wPending := true, wdataHold := w.data,
    wstrbHold := w.strb, bvalid := false, bresp := 0 }

def Registers.apply (r : Registers W I) (w : Write) : Registers W I :=
  { settings := settled (r.settings.commit w.channel)
    event := (Stage.commit ⟨r.event, false⟩ w.channel).event }

theorem config_commit_held (c : Config) (w : WriteChannel) :
    c.commit (held w).channel = c.commit w := by
  obtain ⟨_, addr, _, data, strb, _, _⟩ := w
  rfl

theorem stage_commit_held (s : Stage W I) (w : WriteChannel) :
    s.commit (held w).channel = s.commit w := by
  obtain ⟨_, addr, _, data, strb, _, _⟩ := w
  rfl

theorem stage_commit (s : Stage W I) (b : Bool) (w : WriteChannel) :
    (Stage.commit { s with pushPulse := b } w).event = (s.commit w).event := by
  rw [Stage.commit, Stage.commit]
  split_ifs <;> rfl

theorem registers_step (p : Identity) (c : Plane D W I) (i : PlaneInput) :
    Plane.registers (c.step p i) = (commits c.write).foldl Registers.apply (Plane.registers c) := by
  rw [commits]
  cases hc : c.write.commit with
  | true =>
      have hconfig : (c.step p i).config = Config.commit { c.config with clearFaultsPulse := false }
          c.write := if_pos hc
      have hstage : (c.step p i).stage = Stage.commit { c.stage with pushPulse := false }
          c.write := if_pos hc
      rw [Plane.registers, hconfig, hstage, stage_commit, if_pos rfl, List.foldl_cons,
        List.foldl_nil, Registers.apply, config_commit_held, stage_commit_held]
      exact congrArg _ (stage_commit c.stage false c.write).symm
  | false =>
      have hconfig : (c.step p i).config = { c.config with clearFaultsPulse := false } :=
        if_neg (by simp [hc])
      have hstage : (c.step p i).stage = { c.stage with pushPulse := false } :=
        if_neg (by simp [hc])
      rw [Plane.registers, hconfig, hstage]
      rfl

theorem registers_eq (p : Identity) (mem : Nat → Event W I) (x : Nat → PlaneInput) (n : Nat) :
    Plane.registers (planeAt p mem x n : Plane D W I) =
      (committed D p mem x n).foldl Registers.apply ⟨Config.reset, Event.zero W I⟩ := by
  induction n with
  | zero => rfl
  | succ n ih =>
      rw [committed_succ, List.foldl_append, ← ih]
      exact registers_step p (planeAt p mem x n) (x n)

theorem getLsbD_applyWstrb (old new : BitVec 32) (strb : BitVec 4) {b : Nat} (hb : b < 32) :
    (applyWstrb old new strb).getLsbD b =
      if strb.getLsbD (b / 8) then new.getLsbD b else old.getLsbD b := by
  have hlane (word : BitVec 32) (lane : Nat) :
      (if strb.getLsbD lane then setByte word new lane else word).getLsbD b =
        if b / 8 = lane ∧ strb.getLsbD lane then new.getLsbD b else word.getLsbD b := by
    by_cases hs : strb.getLsbD lane
    · rw [if_pos hs, getLsbD_setByte _ _ hb]
      simp only [hs, and_true]
      congr 1
      rw [eq_iff_iff]
      omega
    · rw [if_neg hs, if_neg (fun h => hs h.2)]
  have hfold : applyWstrb old new strb = (List.range 4).foldl
      (fun word i => if strb.getLsbD i then setByte word new i else word) old := rfl
  have hrange : List.range 4 = [0, 1, 2, 3] := rfl
  rw [hfold, hrange]
  simp only [List.foldl_cons, List.foldl_nil, hlane]
  have hcases : b / 8 = 0 ∨ b / 8 = 1 ∨ b / 8 = 2 ∨ b / 8 = 3 := by omega
  rcases hcases with h | h | h | h <;> rw [h] <;> simp

/-- The registers that software both reads and writes. -/
def readWrite : List (BitVec 12) :=
  [regControl, regMinDeadtime, regAbzStep, regEvtTsLo, regEvtTsHi, regEvtMask, regEvtValue, regEvtId]

section Bytes

variable {c : Config} {st : Stage W I} {w : WriteChannel} {b : Nat}

theorem merged_keeps (old : BitVec 32) (hb : b < 32) (hs : w.wstrbHold.getLsbD (b / 8) = false) :
    (applyWstrb old w.wdataHold w.wstrbHold).getLsbD b = old.getLsbD b := by
  rw [getLsbD_applyWstrb _ _ _ hb, hs]
  rfl

theorem narrowed_keeps {N : Nat} (old : BitVec N) (hb : b < 32)
    (hs : w.wstrbHold.getLsbD (b / 8) = false) :
    (((applyWstrb (old.setWidth 32) w.wdataHold w.wstrbHold).setWidth N).setWidth 32).getLsbD b =
      (old.setWidth 32).getLsbD b := by
  rw [BitVec.getLsbD_setWidth, BitVec.getLsbD_setWidth, merged_keeps _ hb hs,
    BitVec.getLsbD_setWidth, decide_eq_true hb, Bool.true_and, Bool.true_and]
  cases hbit : old.getLsbD b with
  | false => simp
  | true => simp [BitVec.lt_of_getLsbD hbit]

theorem control_commit_low (ha : w.awaddrHold = regControl) (hs : w.wstrbHold.getLsbD 0 = false) :
    settled (c.commit w) = settled c := by
  have hkeep (i : Nat) (hi : i < 8) :
      (applyWstrb c.controlCurrent w.wdataHold w.wstrbHold).getLsbD i =
        (controlWord c c.forceSafeSw).getLsbD i := by
    refine merged_keeps _ (by omega) ?_
    rw [Nat.div_eq_of_lt hi]
    exact hs
  obtain ⟨h0, h1, h3, h4⟩ := controlWord_bits c c.forceSafeSw
  rw [Config.commit, if_pos ha]
  simp only [hkeep 0 (by decide), hkeep 1 (by decide), hkeep 3 (by decide), hkeep 4 (by decide),
    h0, h1, h3, h4]
  rfl

theorem controlRead_keeps {c c' : Plane D W I} (j : PlantInput) (ha : w.awaddrHold = regControl)
    (hc : c'.config = Config.commit { c.config with clearFaultsPulse := false } w)
    (hs : w.wstrbHold.getLsbD (b / 8) = false) :
    (c'.controlRead j).getLsbD b = (c.controlRead j).getLsbD b := by
  by_cases hb : 5 ≤ b
  · rw [controlRead_eq, controlRead_eq, controlWord_high _ _ hb, controlWord_high _ _ hb]
  · have hlane : b / 8 = 0 := by omega
    rw [hlane] at hs
    replace hc := (congrArg settled hc).trans (control_commit_low ha hs)
    have hil := congrArg Config.hilEnable hc
    have hsafe := congrArg Config.forceSafeSw hc
    have habz := congrArg Config.abzEnable hc
    have hdirection := congrArg Config.abzDirectionForward hc
    simp only [settled] at hil hsafe habz hdirection
    rw [controlRead_eq, controlRead_eq, controlWord, controlWord, Plane.cfgForceSafe,
      Plane.cfgForceSafe, hil, hsafe, habz, hdirection]

theorem readData_keeps (p : Identity) (c : Plane D W I) (i : PlaneInput) (j : PlantInput)
    (hc : c.write.commit = true) (ha : c.write.awaddrHold ∈ readWrite) (hb : b < 32)
    (hs : c.write.wstrbHold.getLsbD (b / 8) = false) :
    ((c.step p i).readData p j c.write.awaddrHold).getLsbD b =
      (c.readData p j c.write.awaddrHold).getLsbD b := by
  have hconfig : (c.step p i).config =
      Config.commit { c.config with clearFaultsPulse := false } c.write := if_pos hc
  have hstage : (c.step p i).stage =
      Stage.commit { c.stage with pushPulse := false } c.write := if_pos hc
  have hmem : c.write.awaddrHold = regControl ∨ c.write.awaddrHold = regMinDeadtime ∨
      c.write.awaddrHold = regAbzStep ∨ c.write.awaddrHold = regEvtTsLo ∨
      c.write.awaddrHold = regEvtTsHi ∨ c.write.awaddrHold = regEvtMask ∨
      c.write.awaddrHold = regEvtValue ∨ c.write.awaddrHold = regEvtId := by
    simpa [readWrite] using ha
  rcases hmem with h | h | h | h | h | h | h | h
  · rw [h]
    exact controlRead_keeps j h hconfig hs
  · have hnew : (c.step p i).config.minDeadtimeTicks =
        applyWstrb c.config.minDeadtimeTicks c.write.wdataHold c.write.wstrbHold := by
      rw [hconfig, Config.commit, h]
      rfl
    rw [h]
    exact (congrArg (BitVec.getLsbD · b) hnew).trans (merged_keeps _ hb hs)
  · have hnew : (c.step p i).config.abzStepPeriodTicks =
        applyWstrb c.config.abzStepPeriodTicks c.write.wdataHold c.write.wstrbHold := by
      rw [hconfig, Config.commit, h]
      rfl
    rw [h]
    exact (congrArg (BitVec.getLsbD · b) hnew).trans (merged_keeps _ hb hs)
  · have hnew : (c.step p i).stage.event.timestamp.extractLsb' 0 32 =
        applyWstrb (c.stage.event.timestamp.extractLsb' 0 32) c.write.wdataHold
          c.write.wstrbHold := by
      rw [hstage, Stage.commit, h]
      exact BitVec.extractLsb'_append_eq_right
    rw [h]
    exact (congrArg (BitVec.getLsbD · b) hnew).trans (merged_keeps _ hb hs)
  · have hnew : (c.step p i).stage.event.timestamp.extractLsb' 32 32 =
        applyWstrb (c.stage.event.timestamp.extractLsb' 32 32) c.write.wdataHold
          c.write.wstrbHold := by
      rw [hstage, Stage.commit, h]
      exact BitVec.extractLsb'_append_eq_left
    rw [h]
    exact (congrArg (BitVec.getLsbD · b) hnew).trans (merged_keeps _ hb hs)
  · have hnew : (c.step p i).stage.event.mask =
        (applyWstrb (c.stage.event.mask.setWidth 32) c.write.wdataHold
          c.write.wstrbHold).setWidth W := by
      rw [hstage, Stage.commit, h]
      rfl
    rw [h]
    exact (congrArg (fun v => (v.setWidth 32).getLsbD b) hnew).trans (narrowed_keeps _ hb hs)
  · have hnew : (c.step p i).stage.event.value =
        (applyWstrb (c.stage.event.value.setWidth 32) c.write.wdataHold
          c.write.wstrbHold).setWidth W := by
      rw [hstage, Stage.commit, h]
      rfl
    rw [h]
    exact (congrArg (fun v => (v.setWidth 32).getLsbD b) hnew).trans (narrowed_keeps _ hb hs)
  · have hnew : (c.step p i).stage.event.id =
        (applyWstrb (c.stage.event.id.setWidth 32) c.write.wdataHold
          c.write.wstrbHold).setWidth I := by
      rw [hstage, Stage.commit, h]
      rfl
    rw [h]
    exact (congrArg (fun v => (v.setWidth 32).getLsbD b) hnew).trans (narrowed_keeps _ hb hs)

end Bytes

end Registers

section Master

variable {D W I : Nat} (p : Identity) (mem : Nat → Event W I) (x : Nat → PlaneInput)

variable (D) in
/-- Under any master, whatever the order and timing of AW, W and B: the committed writes are the
accepted ones in order, all but at most one that waits for the response before it; every
committed write has one response; and the registers show the committed writes. -/
theorem write_channel :
    (∀ n, accepted D p mem x n = committed D p mem x n ++ waiting (channelAt D p mem x n) ∧
      commits (channelAt D p mem x n) =
        if (channelAt D p mem x n).bvalid then [] else waiting (channelAt D p mem x n)) ∧
    (∀ n, (committed D p mem x n).map (fun _ => 0) =
      answered D p mem x n ++ outstanding (channelAt D p mem x n)) ∧
    (∀ n, (outstanding (channelAt D p mem x n)).length ≤ 1) ∧
    ((∀ n, ∃ m, n ≤ m ∧ (x m).axi.bready = true) → ∀ n, ∃ m, n ≤ m ∧
      accepted D p mem x n <+: committed D p mem x m ∧
      (accepted D p mem x n).length ≤ (answered D p mem x m).length) ∧
    (∀ n, Plane.registers (planeAt p mem x n : Plane D W I) =
      (committed D p mem x n).foldl Registers.apply ⟨Config.reset, Event.zero W I⟩) ∧
    (∀ n b j, ∀ c ∈ commits (channelAt D p mem x n), c.addr ∈ readWrite → b < 32 →
      c.strb.getLsbD (b / 8) = false →
      ((planeAt p mem x (n + 1) : Plane D W I).readData p j c.addr).getLsbD b =
        ((planeAt p mem x n : Plane D W I).readData p j c.addr).getLsbD b) := by
  refine ⟨fun n => ⟨accepted_eq n, commits_eq⟩, responses_eq, ?_, ?_, registers_eq p mem x, ?_⟩
  · intro n
    rw [outstanding]
    split_ifs <;> simp
  · intro hr n
    obtain ⟨m, hm, ha⟩ := eventually_answered hr (Nat.le_refl (accepted D p mem x n).length)
    have hcommitted : committed D p mem x m <+: accepted D p mem x m := by
      rw [accepted_eq]
      exact List.prefix_append _ _
    have hlen := committed_length D p mem x m
    exact ⟨m, hm, List.prefix_of_prefix_length_le (accepted_extends hm) hcommitted (by omega), ha⟩
  · intro n b j c hc haddr hb hs
    rw [commits] at hc
    split at hc
    · rename_i hcommit
      rw [List.mem_singleton] at hc
      subst hc
      exact readData_keeps p (planeAt p mem x n) (x n) j hcommit haddr hb hs
    · cases hc

/-- The master raises everything at once and takes every response. -/
def eager (_ : Nat) : PlaneInput :=
  { axi :=
      { awaddr := regAbzStep, awvalid := true, wdata := 500, wstrb := 0xF, wvalid := true,
        bready := true, araddr := 0, arvalid := false, rready := false }
    plant :=
      { externalForceSafe := false, timestamp := 0, pwmPeriodTicks := 0, pwmHighTicks := 0,
        pwmLowTicks := 0, pwmMeasurementValid := 0, pwmFaultFlags := 0, encoderPositionEdges := 0,
        dioEventArmed := false, dioEventDonePulse := false } }

theorem write_channel_eager :
    ∃ m, 3 ≤ m ∧ (accepted 64 ⟨0, 0, 0, 0⟩ (fun _ => Event.zero 16 16) eager 3).length ≤
      (answered 64 ⟨0, 0, 0, 0⟩ (fun _ => Event.zero 16 16) eager m).length := by
  obtain ⟨-, -, -, hlive, -⟩ := write_channel 64 ⟨0, 0, 0, 0⟩ (fun _ => Event.zero 16 16) eager
  obtain ⟨m, hm, -, ha⟩ := hlive (fun k => ⟨k, Nat.le_refl k, rfl⟩) 3
  exact ⟨m, hm, ha⟩

end Master

end HilLab.Rtl.AxiWrite
