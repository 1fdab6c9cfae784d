import HilLab.Rtl.AxiWrite

namespace HilLab.Rtl.AxiRead

open Lib.Clocked EventFifo ControlPlane AxiMaster AxiWrite

section Channel

variable (r : ReadChannel) (i : AxiInput) (data : BitVec 32)

/-- What the register window shows where a request is accepted, ARVALID meeting ARREADY. -/
def requests : List (BitVec 32) := if !r.rvalid && i.arvalid then [data] else []

/-- The data that the master takes, RREADY meeting RVALID. -/
def replies : List (BitVec 32) := if r.rvalid && i.rready then [r.rdata] else []

def offered : List (BitVec 32) := if r.rvalid then [r.rdata] else []

variable {r i data}

theorem read_conserved : offered r ++ requests r i data = replies r i ++ offered (r.step i data) := by
  simp only [offered, requests, replies, read_step_rvalid, read_step_rdata]
  cases r.rvalid <;> cases i.arvalid <;> cases i.rready <;> rfl

theorem offered_length : (offered r).length = if r.rvalid then 1 else 0 := by
  rw [offered]
  cases r.rvalid <;> rfl

end Channel

section Memory

variable {W I : Nat}

def low (n : Nat) : BitVec 32 := (BitVec.allOnes n).setWidth 32

def kept (W I : Nat) (addr : BitVec 12) : BitVec 32 :=
  if addr = regControl then 0x1B
  else if addr = regEvtMask then low W
  else if addr = regEvtValue then low W
  else if addr = regEvtId then low I
  else BitVec.allOnes 32

/-- A memory of words with byte strobes, each word as wide as its register. -/
def store (W I : Nat) (addr : BitVec 12) (word : BitVec 32) (w : Write) : BitVec 32 :=
  if w.addr = addr then applyWstrb word w.data w.strb &&& kept W I addr else word

/-- What the registers keep at an address. -/
def stored (r : Registers W I) (addr : BitVec 12) : BitVec 32 :=
  if addr = regControl then r.settings.controlCurrent
  else if addr = regMinDeadtime then r.settings.minDeadtimeTicks
  else if addr = regAbzStep then r.settings.abzStepPeriodTicks
  else if addr = regEvtTsLo then r.event.timestamp.extractLsb' 0 32
  else if addr = regEvtTsHi then r.event.timestamp.extractLsb' 32 32
  else if addr = regEvtMask then r.event.mask.setWidth 32
  else if addr = regEvtValue then r.event.value.setWidth 32
  else if addr = regEvtId then r.event.id.setWidth 32
  else 0

theorem narrowed_eq_and (word : BitVec 32) (n : Nat) :
    (word.setWidth n).setWidth 32 = word &&& low n := by
  ext b hb
  simp [low, hb]
  by_cases hn : b < n <;> simp [hn]

theorem controlWord_reserved (c : Config) (safe : Bool) : (controlWord c safe).getLsbD 2 = false := by
  rw [controlWord]
  cases c.hilEnable <;> cases safe <;> cases c.abzEnable <;> cases c.abzDirectionForward <;> rfl

theorem controlCurrent_of_bits (c : Config) (word : BitVec 32) (h0 : c.hilEnable = word.getLsbD 0)
    (h1 : c.forceSafeSw = word.getLsbD 1) (h3 : c.abzEnable = word.getLsbD 3)
    (h4 : c.abzDirectionForward = word.getLsbD 4) : c.controlCurrent = word &&& 0x1B := by
  have hword : c.controlCurrent = controlWord c c.forceSafeSw := rfl
  obtain ⟨b0, b1, b3, b4⟩ := controlWord_bits c c.forceSafeSw
  refine BitVec.eq_of_getLsbD_eq (fun b hb => ?_)
  rw [hword, BitVec.getLsbD_and]
  have hcases : b = 0 ∨ b = 1 ∨ b = 2 ∨ b = 3 ∨ b = 4 ∨ 5 ≤ b := by omega
  rcases hcases with rfl | rfl | rfl | rfl | rfl | hhigh
  · exact (b0.trans h0).trans (Bool.and_true _).symm
  · exact (b1.trans h1).trans (Bool.and_true _).symm
  · exact (controlWord_reserved c _).trans (Bool.and_false _).symm
  · exact (b3.trans h3).trans (Bool.and_true _).symm
  · exact (b4.trans h4).trans (Bool.and_true _).symm
  · have hmask : (0x1B : BitVec 32).getLsbD b = false := by
      rw [← BitVec.testBit_toNat]
      exact Nat.testBit_lt_two_pow (Nat.lt_of_lt_of_le (by decide : (0x1B : BitVec 32).toNat < 2 ^ 5)
        (Nat.pow_le_pow_right (by decide) hhigh))
    rw [controlWord_high c c.forceSafeSw hhigh, hmask, Bool.and_false]

theorem control_commit (c : Config) {w : WriteChannel} (ha : w.awaddrHold = regControl) :
    (settled (c.commit w)).controlCurrent =
      applyWstrb c.controlCurrent w.wdataHold w.wstrbHold &&& 0x1B := by
  apply controlCurrent_of_bits <;> simp [Config.commit, ha, settled]

theorem stored_apply_same (r : Registers W I) (data : BitVec 32) (strb : BitVec 4) {addr : BitVec 12}
    (ha : addr ∈ readWrite) :
    stored (r.apply ⟨addr, data, strb⟩) addr =
      applyWstrb (stored r addr) data strb &&& kept W I addr := by
  simp only [readWrite, List.mem_cons, List.not_mem_nil, or_false] at ha
  rcases ha with rfl | rfl | rfl | rfl | rfl | rfl | rfl | rfl
  · exact control_commit r.settings rfl
  · exact BitVec.and_allOnes.symm
  · exact BitVec.and_allOnes.symm
  · exact BitVec.extractLsb'_append_eq_right.trans BitVec.and_allOnes.symm
  · exact BitVec.extractLsb'_append_eq_left.trans BitVec.and_allOnes.symm
  · exact narrowed_eq_and _ W
  · exact narrowed_eq_and _ W
  · exact narrowed_eq_and _ I

theorem config_commit_keeps (c : Config) (w : WriteChannel) :
    (w.awaddrHold ≠ regControl → (settled (c.commit w)).controlCurrent = c.controlCurrent) ∧
      (w.awaddrHold ≠ regMinDeadtime → (c.commit w).minDeadtimeTicks = c.minDeadtimeTicks) ∧
      (w.awaddrHold ≠ regAbzStep → (c.commit w).abzStepPeriodTicks = c.abzStepPeriodTicks) := by
  rw [Config.commit]
  refine ⟨fun h => ?_, fun h => ?_, fun h => ?_⟩
  all_goals
    split_ifs
    all_goals first | rfl | exact absurd ‹_› h

theorem stage_commit_keeps (s : Stage W I) (w : WriteChannel) :
    (w.awaddrHold ≠ regEvtTsLo →
        (s.commit w).event.timestamp.extractLsb' 0 32 = s.event.timestamp.extractLsb' 0 32) ∧
      (w.awaddrHold ≠ regEvtTsHi →
        (s.commit w).event.timestamp.extractLsb' 32 32 = s.event.timestamp.extractLsb' 32 32) ∧
      (w.awaddrHold ≠ regEvtMask → (s.commit w).event.mask = s.event.mask) ∧
      (w.awaddrHold ≠ regEvtValue → (s.commit w).event.value = s.event.value) ∧
      (w.awaddrHold ≠ regEvtId → (s.commit w).event.id = s.event.id) := by
  rw [Stage.commit]
  refine ⟨fun h => ?_, fun h => ?_, fun h => ?_, fun h => ?_, fun h => ?_⟩
  all_goals
    dsimp only
    split_ifs
    all_goals
      first
        | rfl
        | exact absurd ‹_› h
        | exact BitVec.extractLsb'_append_eq_right
        | exact BitVec.extractLsb'_append_eq_left

theorem stored_apply_other (r : Registers W I) {w : Write} {addr : BitVec 12} (ha : addr ∈ readWrite)
    (hw : w.addr ≠ addr) : stored (r.apply w) addr = stored r addr := by
  obtain ⟨hcontrol, hdead, hstep⟩ := config_commit_keeps r.settings w.channel
  obtain ⟨hlo, hhi, hmask, hvalue, hid⟩ := stage_commit_keeps ⟨r.event, false⟩ w.channel
  simp only [readWrite, List.mem_cons, List.not_mem_nil, or_false] at ha
  rcases ha with rfl | rfl | rfl | rfl | rfl | rfl | rfl | rfl
  · exact hcontrol hw
  · exact hdead hw
  · exact hstep hw
  · exact hlo hw
  · exact hhi hw
  · exact congrArg (BitVec.setWidth 32) (hmask hw)
  · exact congrArg (BitVec.setWidth 32) (hvalue hw)
  · exact congrArg (BitVec.setWidth 32) (hid hw)

/-- The registers behave as the memory of words does, whatever is written. -/
theorem stored_apply (r : Registers W I) (w : Write) {addr : BitVec 12} (ha : addr ∈ readWrite) :
    stored (r.apply w) addr = store W I addr (stored r addr) w := by
  rw [store]
  split_ifs with hw
  · obtain ⟨_, data, strb⟩ := w
    cases hw
    exact stored_apply_same r data strb ha
  · exact stored_apply_other r ha hw

/-- The board's force_safe pin shows in bit 1 of REG_CONTROL and nowhere else. -/
def external (i : PlantInput) (addr : BitVec 12) : BitVec 32 :=
  if addr = regControl ∧ i.externalForceSafe then 2 else 0

theorem controlRead_stored (c : Config) (ext : Bool) :
    controlWord c (c.forceSafeSw || ext) = controlWord c c.forceSafeSw ||| if ext then 2 else 0 := by
  rw [controlWord, controlWord]
  cases c.hilEnable <;> cases c.forceSafeSw <;> cases c.abzEnable <;> cases c.abzDirectionForward <;>
    cases ext <;> rfl

theorem readData_stored {D : Nat} (c : Plane D W I) (p : Identity) (i : PlantInput) {addr : BitVec 12}
    (ha : addr ∈ readWrite) :
    c.readData p i addr = stored (Plane.registers c) addr ||| external i addr := by
  simp only [readWrite, List.mem_cons, List.not_mem_nil, or_false] at ha
  rcases ha with rfl | rfl | rfl | rfl | rfl | rfl | rfl | rfl
  · refine (controlRead_stored c.config i.externalForceSafe).trans ?_
    simp only [external, true_and]
    rfl
  all_goals exact BitVec.or_zero.symm

end Memory

section Runs

variable {D W I : Nat} (p : Identity) (mem : Nat → Event W I) (x : Nat → PlaneInput)

variable (D) in
/-- The register values at the accepted requests, those before clock n. -/
def requested (n : Nat) : List (BitVec 32) :=
  between (fun k =>
    requests (planeAt p mem x k : Plane D W I).read (x k).axi
      ((planeAt p mem x k : Plane D W I).readData p (x k).plant (x k).axi.araddr)) 0 n

variable (D) in
def replied (n : Nat) : List (BitVec 32) :=
  between (fun k => replies (planeAt p mem x k : Plane D W I).read (x k).axi) 0 n

variable {p mem x}

theorem requested_eq (n : Nat) :
    requested D p mem x n = replied D p mem x n ++ offered (planeAt p mem x n : Plane D W I).read :=
  between_conserves (fun k => offered (planeAt p mem x k : Plane D W I).read) _ _ (Nat.zero_le n)
    (fun _ _ _ => read_conserved)

theorem requested_prefix {m n : Nat} (h : m ≤ n) : requested D p mem x m <+: requested D p mem x n :=
  between_prefix _ 0 (Nat.zero_le m) h

theorem replied_of_ready {n : Nat} (hr : (x n).axi.rready = true) :
    replied D p mem x (n + 1) = requested D p mem x n := by
  rw [requested_eq, replied, between_succ _ (Nat.zero_le n), replies, offered, hr, Bool.and_true]
  rfl

theorem registers_stored (n : Nat) {addr : BitVec 12} (ha : addr ∈ readWrite) :
    stored (Plane.registers (planeAt p mem x n : Plane D W I)) addr =
      (committed D p mem x n).foldl (store W I addr)
        (stored (⟨Config.reset, Event.zero W I⟩ : Registers W I) addr) := by
  rw [registers_eq]
  generalize (⟨Config.reset, Event.zero W I⟩ : Registers W I) = r
  induction committed D p mem x n generalizing r with
  | nil => rfl
  | cons w ws ih => rw [List.foldl_cons, List.foldl_cons, ih, stored_apply r w ha]

end Runs

section Deaf

variable {D W I : Nat} {p : Identity} {mem : Nat → Event W I}

/-- The inputs without those of the read channel. -/
def deafInput (i : PlaneInput) : PlaneInput :=
  { i with axi := { i.axi with araddr := 0, arvalid := false, rready := false } }

/-- The plane without its read channel. -/
def deaf (c : Plane D W I) : Plane D W I := { c with read := .reset }

theorem deaf_step (c : Plane D W I) (i : PlaneInput) :
    deaf (c.step p i) = deaf ((deaf c).step p (deafInput i)) := rfl

/-- Nothing else in the plane hears of reads. -/
theorem deaf_planeAt {x y : Nat → PlaneInput} (h : ∀ n, deafInput (x n) = deafInput (y n)) (n : Nat) :
    deaf (planeAt p mem x n : Plane D W I) = deaf (planeAt p mem y n) := by
  induction n with
  | zero => rfl
  | succ n ih =>
      have hx : deaf (planeAt p mem x (n + 1) : Plane D W I) =
          deaf ((deaf (planeAt p mem x n : Plane D W I)).step p (deafInput (x n))) := deaf_step _ _
      rw [hx, ih, h n]
      exact (deaf_step _ _).symm

end Deaf

section Master

variable {D W I : Nat} (p : Identity) (mem : Nat → Event W I) (x : Nat → PlaneInput)

variable (D) in
/-- Under any master: the replies are the register values at the accepted requests, in order,
each once, all but at most one that is on offer; a master that goes on raising RREADY gets one
for every request; what a readable and writable register shows is what a memory of words with
byte strobes holds after the committed writes, with the board's pin in REG_CONTROL; and no read
changes anything but the read channel. -/
theorem read_channel :
    (∀ n, requested D p mem x n =
        replied D p mem x n ++ offered (planeAt p mem x n : Plane D W I).read ∧
      (offered (planeAt p mem x n : Plane D W I).read).length ≤ 1) ∧
    ((∀ n, ∃ m, n ≤ m ∧ (x m).axi.rready = true) → ∀ n, ∃ m, n ≤ m ∧
      requested D p mem x n <+: replied D p mem x m) ∧
    (∀ n i, ∀ addr ∈ readWrite, (planeAt p mem x n : Plane D W I).readData p i addr =
      (committed D p mem x n).foldl (store W I addr)
        (stored (⟨Config.reset, Event.zero W I⟩ : Registers W I) addr) ||| external i addr) ∧
    (∀ y : Nat → PlaneInput, (∀ n, deafInput (x n) = deafInput (y n)) → ∀ n,
      deaf (planeAt p mem x n : Plane D W I) = deaf (planeAt p mem y n)) := by
  refine ⟨fun n => ⟨requested_eq n, ?_⟩, fun hr n => ?_, fun n i addr ha => ?_, fun y h n => ?_⟩
  · rw [offered_length]
    split_ifs <;> simp
  · obtain ⟨m, hm, hready⟩ := hr n
    refine ⟨m + 1, Nat.le_succ_of_le hm, ?_⟩
    rw [replied_of_ready hready]
    exact requested_prefix hm
  · rw [readData_stored _ p i ha, registers_stored n ha]
  · exact deaf_planeAt h n

/-- A master that asks for REG_ABZ_STEP all the time and takes every reply. -/
def polling (n : Nat) : PlaneInput :=
  { eager n with axi := { (eager n).axi with araddr := regAbzStep, arvalid := true, rready := true } }

theorem read_channel_polling :
    ∃ m, 3 ≤ m ∧ requested 64 ⟨0, 0, 0, 0⟩ (fun _ => Event.zero 16 16) polling 3 <+:
      replied 64 ⟨0, 0, 0, 0⟩ (fun _ => Event.zero 16 16) polling m := by
  obtain ⟨-, hlive, -⟩ := read_channel 64 ⟨0, 0, 0, 0⟩ (fun _ => Event.zero 16 16) polling
  exact hlive (fun k => ⟨k, Nat.le_refl k, rfl⟩) 3

end Master

end HilLab.Rtl.AxiRead
