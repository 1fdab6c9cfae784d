import HilLab.Host.ReadPwm
import HilLab.Lib.Timestamp
import Mathlib.Logic.Function.Iterate

namespace HilLab.Host.ReadTimestamp

open Host.Core Uio Lib.Effect Lib.Timestamp Rtl.AxiMaster Rtl.ControlPlane

/-- What read_timestamp uses of the transport; its constructor has refused a
frequency of zero. -/
structure ZynqUioTransport where
  mmio : UioMmio
  tickHz : Nat
  tickHz_pos : 0 < tickHz

variable {D W I : Nat} (p : Identity) (env : Env)

def readTimestampRounds (t : ZynqUioTransport) (n : Nat) : Eff (Bus D W I) HostError Timestamp :=
  ZynqTransport.readTimestampRounds (t.mmio.window p env) t.tickHz n

def readTimestamp (t : ZynqUioTransport) : Eff (Bus D W I) HostError Timestamp :=
  ZynqTransport.readTimestamp (t.mmio.window p env) t.tickHz

section Round

variable (s : Bus D W I)

def hi0Read : Bus D W I := (s.read32 p env regTimestampHi).2
def loRead : Bus D W I := ((hi0Read p env s).read32 p env regTimestampLo).2
def hi1Read : Bus D W I := ((loRead p env s).read32 p env regTimestampHi).2

def counter (n : Nat) : BitVec 64 := (env.plant n).timestamp

def hi0Clock : Nat := (s.sampled p env regTimestampHi).cycle
def loClock : Nat := ((hi0Read p env s).sampled p env regTimestampLo).cycle
def hi1Clock : Nat := ((loRead p env s).sampled p env regTimestampHi).cycle

/-- The high word read last in a round is not the one read first. -/
abbrev Carried : Prop := high (counter env (hi0Clock p env s)) ≠ high (counter env (hi1Clock p env s))

/-- The bus when round k of a call begins. -/
def roundBus (k : Nat) : Bus D W I := (hi1Read p env)^[k] s

theorem clocks_ordered :
    s.cycle ≤ hi0Clock p env s ∧ hi0Clock p env s < loClock p env s ∧
      loClock p env s < hi1Clock p env s ∧ hi1Clock p env s < (hi1Read p env s).cycle := by
  have hhi0 := ReadPwm.sampled_before_read p env s regTimestampHi
  have hlo := ReadPwm.sampled_before_read p env (hi0Read p env s) regTimestampLo
  have hhi1 := ReadPwm.sampled_before_read p env (loRead p env s) regTimestampHi
  exact ⟨hhi0.1, Nat.lt_of_lt_of_le hhi0.2 hlo.1, Nat.lt_of_lt_of_le hlo.2 hhi1.1, hhi1.2⟩

variable {s}

theorem hi1Read_idle (h : s.Idle) : (hi1Read p env s).Idle :=
  read32_idle p env (read32_idle p env (read32_idle p env h _) _) _

theorem exec_counter (m : UioMmio) (h : s.Idle) {offset : Nat} {addr : BitVec 12}
    {part : BitVec 64 → BitVec 32} (hmap : offset + 4 ≤ Reg.mapSize) (halign : offset &&& 3 = 0)
    (haddr : BitVec.ofNat 12 offset = addr)
    (hpart : ∀ (c : Plane D W I) (i : PlantInput), c.readData p i addr = part i.timestamp) :
    exec (m.read32 p env offset) s =
      (.ok (part (counter env (s.sampled p env addr).cycle)).toNat, (s.read32 p env addr).2) := by
  rw [exec_read32 p env m hmap halign haddr s, read32_data h, hpart]
  rfl

theorem exec_round (t : ZynqUioTransport) (h : s.Idle) (n : Nat) :
    exec (readTimestampRounds p env t (n + 1)) s =
      if high (counter env (hi0Clock p env s)) = high (counter env (hi1Clock p env s)) then
        (Timestamp.make (((high (counter env (hi0Clock p env s))).toNat <<< 32 |||
          (low (counter env (loClock p env s))).toNat : Nat) : Int) t.tickHz 64, hi1Read p env s)
      else exec (readTimestampRounds p env t n) (hi1Read p env s) := by
  have hhi0 := read32_idle p env h regTimestampHi
  have hlo := read32_idle p env hhi0 regTimestampLo
  have hread0 : exec (t.mmio.read32 p env Reg.timestampHi) s =
      (.ok (high (counter env (hi0Clock p env s))).toNat, hi0Read p env s) :=
    exec_counter p env t.mmio h (by decide) (by decide) rfl (fun _ _ => rfl)
  have hreadLo : exec (t.mmio.read32 p env Reg.timestampLo) (hi0Read p env s) =
      (.ok (low (counter env (loClock p env s))).toNat, loRead p env s) :=
    exec_counter p env t.mmio hhi0 (by decide) (by decide) rfl (fun _ _ => rfl)
  have hread1 : exec (t.mmio.read32 p env Reg.timestampHi) (loRead p env s) =
      (.ok (high (counter env (hi1Clock p env s))).toNat, hi1Read p env s) :=
    exec_counter p env t.mmio hlo (by decide) (by decide) rfl (fun _ _ => rfl)
  rw [readTimestampRounds, ZynqTransport.readTimestampRounds]
  rw [exec_bind_ok hread0, exec_bind_ok hreadLo, exec_bind_ok hread1]
  simp only [BitVec.toNat_inj]
  split
  · rw [exec_liftExcept]
  · rfl

end Round

section Call

variable {s : Bus D W I}

/-- From clock a on and before clock b the counter does not go back, as one
that wraps would. -/
def NeverDecreases (a b : Nat) : Prop :=
  ∀ i j, a ≤ i → i ≤ j → j < b → counter env i ≤ counter env j

/-- What a call that ends before clock b comes to: the counter at the read of the low word in
the first round whose high words agree, or the error after eight rounds whose do not. -/
def Sound (s : Bus D W I) (b : Nat) : Except HostError Timestamp → Prop
  | .ok r => ∃ k, k < 8 ∧ (∀ j, j < k → Carried p env (roundBus p env s j)) ∧
      ¬ Carried p env (roundBus p env s k) ∧
      s.cycle ≤ loClock p env (roundBus p env s k) ∧ loClock p env (roundBus p env s k) < b ∧
      r.ticks = (counter env (loClock p env (roundBus p env s k))).toNat
  | .error e => e = .infrastructure "could not obtain stable 64-bit AXI timestamp" ∧
      ∀ k, k < 8 → Carried p env (roundBus p env s k)

theorem make_ok (ticks : Nat) {tickHz : Nat} (h : 0 < tickHz) :
    Timestamp.make ticks tickHz 64 = .ok ⟨ticks, tickHz, 64, h, by decide⟩ := by
  have hticks : ¬ (ticks : Int) < 0 := by omega
  have hz : tickHz ≠ 0 := Nat.ne_of_gt h
  simp [Timestamp.make, hticks, hz]

theorem round_sound (hmono : NeverDecreases env s.cycle (hi1Read p env s).cycle)
    (h : ¬ Carried p env s) :
    (high (counter env (hi0Clock p env s))).toNat <<< 32 |||
      (low (counter env (loClock p env s))).toNat = (counter env (loClock p env s)).toNat := by
  obtain ⟨hstart, hhi0, hlo, hend⟩ := clocks_ordered p env s
  have hbefore : counter env (hi0Clock p env s) ≤ counter env (loClock p env s) :=
    hmono _ _ hstart (Nat.le_of_lt hhi0) (Nat.lt_trans hlo hend)
  have hafter : counter env (loClock p env s) ≤ counter env (hi1Clock p env s) :=
    hmono _ _ (Nat.le_trans hstart (Nat.le_of_lt hhi0)) (Nat.le_of_lt hlo) hend
  rw [← high_between hbefore hafter (not_not.mp h)]
  exact joined _

theorem roundBus_succ (s : Bus D W I) (k : Nat) :
    roundBus p env s (k + 1) = hi1Read p env (roundBus p env s k) :=
  Function.iterate_succ_apply' _ _ _

theorem roundBus_cycle (s : Bus D W I) (k : Nat) : s.cycle ≤ (roundBus p env s k).cycle := by
  induction k with
  | zero => exact Nat.le_refl _
  | succ k ih =>
      obtain ⟨hstart, hhi0, hlo, hend⟩ := clocks_ordered p env (roundBus p env s k)
      rw [roundBus_succ]
      omega

/-- The rounds end with the first one without a carry, if there is one. -/
theorem exec_rounds (t : ZynqUioTransport) (n : Nat) (h : s.Idle) :
    (∃ k, k < n ∧ (∀ j, j < k → Carried p env (roundBus p env s j)) ∧
      ¬ Carried p env (roundBus p env s k) ∧
      exec (readTimestampRounds p env t n) s =
        (Timestamp.make (((high (counter env (hi0Clock p env (roundBus p env s k)))).toNat <<< 32 |||
          (low (counter env (loClock p env (roundBus p env s k)))).toNat : Nat) : Int) t.tickHz 64,
          roundBus p env s (k + 1))) ∨
    (∀ k, k < n → Carried p env (roundBus p env s k)) ∧
      exec (readTimestampRounds p env t n) s =
        (.error (.infrastructure "could not obtain stable 64-bit AXI timestamp"),
          roundBus p env s n) := by
  induction n generalizing s with
  | zero => exact .inr ⟨fun k hk => absurd hk (Nat.not_lt_zero k), rfl⟩
  | succ n ih =>
      rw [exec_round p env t h n]
      by_cases hcarry : Carried p env s
      · rw [if_neg hcarry]
        have hfirst {k : Nat} (hk : ∀ j, j < k → Carried p env (roundBus p env (hi1Read p env s) j)) :
            ∀ j, j < k + 1 → Carried p env (roundBus p env s j)
          | 0, _ => hcarry
          | j + 1, hj => hk j (Nat.lt_of_succ_lt_succ hj)
        rcases ih (hi1Read_idle p env h) with ⟨k, hk, hbefore, hstable, heq⟩ | ⟨hall, heq⟩
        · exact .inl ⟨k + 1, Nat.succ_lt_succ hk, hfirst hbefore, hstable, heq⟩
        · exact .inr ⟨hfirst hall, heq⟩
      · rw [if_pos (not_not.mp hcarry)]
        exact .inl ⟨0, Nat.succ_pos n, fun j hj => absurd hj (Nat.not_lt_zero j), hcarry, rfl⟩

theorem readTimestamp_cycle (t : ZynqUioTransport) (h : s.Idle) :
    s.cycle ≤ (exec (readTimestamp p env t) s).2.cycle := by
  rcases exec_rounds p env t 8 h with ⟨k, -, -, -, heq⟩ | ⟨-, heq⟩
  · exact (congrArg (fun r => r.2.cycle) heq).symm ▸ roundBus_cycle p env s (k + 1)
  · exact (congrArg (fun r => r.2.cycle) heq).symm ▸ roundBus_cycle p env s 8

theorem readTimestamp_sound (t : ZynqUioTransport) (h : s.Idle)
    (hmono : NeverDecreases env s.cycle (exec (readTimestamp p env t) s).2.cycle) :
    Sound p env s (exec (readTimestamp p env t) s).2.cycle (exec (readTimestamp p env t) s).1 := by
  have hcall : exec (readTimestamp p env t) s = exec (readTimestampRounds p env t 8) s := rfl
  rw [hcall] at hmono ⊢
  rcases exec_rounds p env t 8 h with ⟨k, hk, hbefore, hstable, heq⟩ | ⟨hall, heq⟩
  · obtain ⟨hstart, hhi0, hlo, hend⟩ := clocks_ordered p env (roundBus p env s k)
    have hsince := roundBus_cycle p env s k
    rw [heq, roundBus_succ] at hmono ⊢
    have hround : NeverDecreases env (roundBus p env s k).cycle
        (hi1Read p env (roundBus p env s k)).cycle :=
      fun i j hi => hmono i j (Nat.le_trans hsince hi)
    rw [round_sound p env hround hstable, make_ok _ t.tickHz_pos]
    exact ⟨k, hk, hbefore, hstable, by omega, Nat.lt_trans hlo hend, rfl⟩
  · rw [heq]
    exact ⟨rfl, hall⟩

end Call

section Results

variable {p env} {s : Bus D W I}

/-- A call hands back the counter of a clock of its own, or raises because the high word was
not the same twice in any of its eight rounds; a later call never hands back less. -/
theorem read_timestamp_torn_free (t : ZynqUioTransport) (h : s.Idle)
    (hmono : NeverDecreases env s.cycle (exec (readTimestamp p env t) s).2.cycle) :
    Sound p env s (exec (readTimestamp p env t) s).2.cycle (exec (readTimestamp p env t) s).1 ∧
      ∀ s' : Bus D W I, s'.Idle → (exec (readTimestamp p env t) s).2.cycle ≤ s'.cycle →
        NeverDecreases env s.cycle (exec (readTimestamp p env t) s').2.cycle →
        ∀ r r', (exec (readTimestamp p env t) s).1 = .ok r →
          (exec (readTimestamp p env t) s').1 = .ok r' → r.ticks ≤ r'.ticks := by
  have hfirst := readTimestamp_sound p env t h hmono
  refine ⟨hfirst, fun s' h' hlater hmono' r r' hr hr' => ?_⟩
  have hstart := readTimestamp_cycle p env t h
  have hsecond := readTimestamp_sound p env t h'
    (fun i j hi => hmono' i j (Nat.le_trans hstart (Nat.le_trans hlater hi)))
  rw [hr] at hfirst
  rw [hr'] at hsecond
  obtain ⟨k, -, -, -, hlow, hhigh, hticks⟩ := hfirst
  obtain ⟨k', -, -, -, hlow', hhigh', hticks'⟩ := hsecond
  rw [hticks, hticks']
  exact hmono' _ _ hlow (by omega) hhigh'

/-- Reads without delay, and a counter that carries into its high word in clock 3. -/
def carryEnv : Env :=
  { ReadPwm.firstReadAt 0 with
    plant := fun n =>
      { ReadPwm.idlePlant with timestamp := if n < 3 then 0xFFFFFFFF else 0x100000000 } }

theorem carryEnv_neverDecreases (a b : Nat) : NeverDecreases carryEnv a b := by
  intro i j _ hij _
  simp only [counter, carryEnv]
  split <;> split
  · decide
  · decide
  · omega
  · decide

def anyTransport : ZynqUioTransport := ⟨ReadPwm.window, 100000000, by decide⟩

/-- The carry falls into the first round, and the second one returns what is behind it. -/
theorem read_timestamp_torn_free_carry :
    Carried ReadPwm.anyIdentity carryEnv ReadPwm.freshBus ∧ ∃ r,
      (exec (readTimestamp ReadPwm.anyIdentity carryEnv anyTransport) ReadPwm.freshBus).1 = .ok r ∧
        r.ticks = 0x100000000 := by
  have hidle : ReadPwm.freshBus.Idle := ⟨rfl, rfl, rfl, rfl, rfl⟩
  have hcarry : Carried ReadPwm.anyIdentity carryEnv ReadPwm.freshBus := by decide
  have hstable : ¬ Carried ReadPwm.anyIdentity carryEnv
      (roundBus ReadPwm.anyIdentity carryEnv ReadPwm.freshBus 1) := by
    decide
  have hsound := (@read_timestamp_torn_free _ _ _ ReadPwm.anyIdentity carryEnv ReadPwm.freshBus anyTransport
    hidle (carryEnv_neverDecreases _ _)).1
  refine ⟨hcarry, ?_⟩
  cases hcall : (exec (readTimestamp ReadPwm.anyIdentity carryEnv anyTransport) ReadPwm.freshBus).1 with
  | error e =>
      rw [hcall] at hsound
      exact absurd (hsound.2 1 (by decide)) hstable
  | ok r =>
      rw [hcall] at hsound
      obtain ⟨k, -, hbefore, hfirst, -, -, hticks⟩ := hsound
      obtain rfl : k = 1 := by
        rcases Nat.lt_trichotomy k 1 with hlt | rfl | hgt
        · obtain rfl : k = 0 := by omega
          exact absurd hcarry hfirst
        · rfl
        · exact absurd (hbefore 1 hgt) hstable
      have hcounter : (counter carryEnv (loClock ReadPwm.anyIdentity carryEnv
          (roundBus ReadPwm.anyIdentity carryEnv ReadPwm.freshBus 1))).toNat = 0x100000000 := by
        decide
      exact ⟨r, rfl, hticks.trans hcounter⟩

end Results

end HilLab.Host.ReadTimestamp
