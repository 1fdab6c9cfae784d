import HilLab.Host.ScheduleDio
import Mathlib.Data.Nat.Bitwise

namespace HilLab.Host.ControlFrame

open Host.Core Uio ScheduleDio Lib.Effect Rtl.AxiMaster Rtl.ControlPlane

/-- The settings that software keeps in the control plane. -/
inductive Field
  | hilEnable | forceSafeSw | abzEnable | abzDirectionForward | abzStepPeriodTicks
  | minDeadtimeTicks
deriving DecidableEq

def Field.Kept (c c' : Config) : Field → Prop
  | .hilEnable => c'.hilEnable = c.hilEnable
  | .forceSafeSw => c'.forceSafeSw = c.forceSafeSw
  | .abzEnable => c'.abzEnable = c.abzEnable
  | .abzDirectionForward => c'.abzDirectionForward = c.abzDirectionForward
  | .abzStepPeriodTicks => c'.abzStepPeriodTicks = c.abzStepPeriodTicks
  | .minDeadtimeTicks => c'.minDeadtimeTicks = c.minDeadtimeTicks

/-- The operations of ZynqUioTransport that write REG_CONTROL. -/
inductive Op
  | configureAbz (config : AbzConfig)
  | startAbz
  | stopAbz
  | forceSafe (asserted : Bool)
  | clearFaults

/-- The settings that an operation is there to change. -/
def Op.named : Op → List Field
  | .configureAbz _ => [.abzStepPeriodTicks, .abzDirectionForward]
  | .startAbz => [.hilEnable, .abzEnable, .forceSafeSw]
  | .stopAbz => [.abzEnable]
  | .forceSafe _ => [.forceSafeSw]
  | .clearFaults => []

section Bits

variable {D W I : Nat} (p : Identity) (env : Env)

def Op.run (m : UioMmio) : Op → Eff (Bus D W I) HostError Unit
  | .configureAbz config => Uio.configureAbz p env m config
  | .startAbz => Uio.startAbz p env m
  | .stopAbz => Uio.stopAbz p env m
  | .forceSafe asserted => Uio.forceSafe p env m asserted
  | .clearFaults => Uio.clearFaults p env m

variable {p env} {s : Bus D W I}

def externalAt (p : Identity) (env : Env) (s : Bus D W I) : Bool :=
  (env.plant (s.sampled p env regControl).cycle).externalForceSafe

variable (p env) in
theorem control_bits (h : s.Idle) :
    (s.read32 p env regControl).1.toNat.testBit 0 = s.settings.hilEnable ∧
      (s.read32 p env regControl).1.toNat.testBit 1 =
        (s.settings.forceSafeSw || externalAt p env s) ∧
      (s.read32 p env regControl).1.toNat.testBit 3 = s.settings.abzEnable ∧
      (s.read32 p env regControl).1.toNat.testBit 4 = s.settings.abzDirectionForward := by
  have hdata : (s.read32 p env regControl).1 =
      (s.sampled p env regControl).plane.controlRead
        (env.plant (s.sampled p env regControl).cycle) := read32_data h regControl
  have hsettings : settled (s.sampled p env regControl).plane.config = s.settings :=
    readAt_settings h regControl _
  simp only [BitVec.testBit_toNat, hdata, ← hsettings, externalAt]
  exact controlWord_bits _ _

theorem commit_control (c : Config) (data : BitVec 32) :
    settled (c.commit (request regControl data)) =
      { settled c with
        hilEnable := data.getLsbD 0, forceSafeSw := data.getLsbD 1, abzEnable := data.getLsbD 3,
        abzDirectionForward := data.getLsbD 4 } := by
  have hc : (request regControl data).awaddrHold = regControl := rfl
  rw [Config.commit, if_pos hc]
  have hmerged : applyWstrb c.controlCurrent (request regControl data).wdataHold
      (request regControl data).wstrbHold = data := applyWstrb_word _ _
  simp only [hmerged]
  rfl

theorem commit_abzStep (c : Config) (data : BitVec 32) :
    settled (c.commit (request regAbzStep data)) =
      { settled c with abzStepPeriodTicks := data } := by
  have hcontrol : regAbzStep ≠ regControl := by decide
  have hdeadtime : regAbzStep ≠ regMinDeadtime := by decide
  have hstep : (request regAbzStep data).awaddrHold = regAbzStep := rfl
  rw [Config.commit, hstep, if_neg hcontrol, if_neg hdeadtime, if_pos rfl]
  have hmerged : applyWstrb c.abzStepPeriodTicks (request regAbzStep data).wdataHold
      (request regAbzStep data).wstrbHold = data := applyWstrb_word _ _
  rw [hmerged]
  rfl

theorem settled_settings (s : Bus D W I) : settled s.settings = s.settings := rfl

theorem updateControl_settings (h : s.Idle) (m : UioMmio) (change : Nat → Nat) :
    (exec (updateControl p env m change) s).2.settings =
      { s.settings with
        hilEnable := (change (s.read32 p env regControl).1.toNat).testBit 0
        forceSafeSw := (change (s.read32 p env regControl).1.toNat).testBit 1
        abzEnable := (change (s.read32 p env regControl).1.toNat).testBit 3
        abzDirectionForward := (change (s.read32 p env regControl).1.toNat).testBit 4 } := by
  have hread : (s.read32 p env regControl).2.settings = s.settings := readAt_settings h _ _
  have hbit (n i : Nat) (hi : i < 32) : (BitVec.ofNat 32 n).getLsbD i = n.testBit i := by
    rw [BitVec.getLsbD_ofNat, decide_eq_true hi, Bool.true_and]
  rw [exec_updateControl, write32_settings (read32_idle p env h regControl), commit_control, hread,
    settled_settings, hbit _ 0 (by decide), hbit _ 1 (by decide), hbit _ 3 (by decide),
    hbit _ 4 (by decide)]

end Bits

section Change

theorem testBit_set (v k i : Nat) : (v ||| 1 <<< k).testBit i = (v.testBit i || decide (i = k)) := by
  rw [Nat.testBit_or, Nat.one_shiftLeft, Nat.testBit_two_pow]
  simp only [eq_comm]

theorem testBit_without (v k i : Nat) :
    (without v (1 <<< k)).testBit i = (v.testBit i && !decide (i = k)) := by
  rw [without, Nat.testBit_ldiff, Nat.one_shiftLeft, Nat.testBit_two_pow]
  simp only [eq_comm]

def Field.bit : Field → Option Nat
  | .hilEnable => some 0
  | .forceSafeSw => some 1
  | .abzEnable => some 3
  | .abzDirectionForward => some 4
  | .abzStepPeriodTicks | .minDeadtimeTicks => none

/-- A change of REG_CONTROL that leaves the bit of the setting alone. -/
def Spares (change : Nat → Nat) (f : Field) : Prop :=
  ∀ i, f.bit = some i → ∀ v, (change v).testBit i = v.testBit i

theorem spares_set {f : Field} {k : Nat} (h : f.bit ≠ some k) :
    Spares (fun value => value ||| 1 <<< k) f := by
  intro i hi v
  have hik : i ≠ k := by
    rintro rfl
    exact h hi
  rw [testBit_set, decide_eq_false hik, Bool.or_false]

theorem spares_without {f : Field} {k : Nat} (h : f.bit ≠ some k) :
    Spares (fun value => without value (1 <<< k)) f := by
  intro i hi v
  have hik : i ≠ k := by
    rintro rfl
    exact h hi
  rw [testBit_without, decide_eq_false hik, Bool.not_false, Bool.and_true]

theorem Spares.comp {f : Field} {c c' : Nat → Nat} (h : Spares c f) (h' : Spares c' f) :
    Spares (fun value => c' (c value)) f := by
  intro i hi v
  rw [h' i hi, h i hi]

theorem Field.Kept.trans {c c' c'' : Config} {f : Field} (h : f.Kept c c') (h' : f.Kept c' c'') :
    f.Kept c c'' := by
  cases f <;> exact Eq.trans h' h

end Change

section Frame

variable {D W I : Nat} {p : Identity} {env : Env} {s : Bus D W I} {m : UioMmio}
  {change : Nat → Nat}

/-- The software FORCE_SAFE bit takes the value of the external input when it is clear. -/
theorem update_keeps_forceSafe_iff (h : s.Idle) (hc : Spares change .forceSafeSw) :
    Field.Kept s.settings (exec (updateControl p env m change) s).2.settings .forceSafeSw ↔
      s.settings.forceSafeSw = true ∨ externalAt p env s = false := by
  rw [updateControl_settings h]
  change (change _).testBit 1 = _ ↔ _
  rw [hc 1 rfl, (control_bits p env h).2.1]
  cases s.settings.forceSafeSw <;> simp

theorem update_keeps (h : s.Idle) {f : Field} (hf : f ≠ .forceSafeSw) (hc : Spares change f) :
    f.Kept s.settings (exec (updateControl p env m change) s).2.settings := by
  obtain ⟨h0, -, h3, h4⟩ := control_bits p env h
  rw [updateControl_settings h]
  cases f with
  | hilEnable => exact (hc 0 rfl _).trans h0
  | forceSafeSw => exact absurd rfl hf
  | abzEnable => exact (hc 3 rfl _).trans h3
  | abzDirectionForward => exact (hc 4 rfl _).trans h4
  | abzStepPeriodTicks => rfl
  | minDeadtimeTicks => rfl

/-- The operation changes none of the settings it does not name. -/
def Framed (op : Op) (c c' : Config) : Prop := ∀ f, f ∉ op.named → f.Kept c c'

variable (p env m) in
theorem framed_update {op : Op} (h : s.Idle) (hc : ∀ f, f ∉ op.named → Spares change f) :
    Framed op s.settings (exec (updateControl p env m change) s).2.settings ↔
      .forceSafeSw ∈ op.named ∨ s.settings.forceSafeSw = true ∨ externalAt p env s = false := by
  constructor
  · intro hframed
    by_cases hmem : Field.forceSafeSw ∈ op.named
    · exact .inl hmem
    · exact .inr ((update_keeps_forceSafe_iff h (hc _ hmem)).mp (hframed _ hmem))
  · intro hcond f hf
    by_cases hforce : f = .forceSafeSw
    · subst hforce
      exact (update_keeps_forceSafe_iff h (hc _ hf)).mpr (hcond.resolve_left hf)
    · exact update_keeps h hforce (hc f hf)

def Op.entry (p : Identity) (env : Env) (s : Bus D W I) : Op → Bus D W I
  | .configureAbz config => s.write32 p env regAbzStep (BitVec.ofNat 32 config.ticks.toNat)
  | _ => s

def Op.Refused : Op → Prop
  | .configureAbz config => config.check ≠ .ok ()
  | _ => False

theorem entry_idle (h : s.Idle) (op : Op) : (op.entry p env s).Idle := by
  cases op with
  | configureAbz config => exact write32_idle h regAbzStep _
  | startAbz => exact h
  | stopAbz => exact h
  | forceSafe asserted => exact h
  | clearFaults => exact h

theorem configureAbz_entry (h : s.Idle) (config : AbzConfig) :
    (Op.entry p env s (.configureAbz config)).settings =
      { s.settings with abzStepPeriodTicks := BitVec.ofNat 32 config.ticks.toNat } := by
  rw [Op.entry, write32_settings h, commit_abzStep, settled_settings]

theorem exec_configureAbz (config : AbzConfig) (hcheck : config.check = .ok ()) :
    exec (configureAbz p env m config) s =
      exec (updateControl p env m (fun value =>
        if config.forward then value ||| Reg.ctrlAbzDirectionForward
        else without value Reg.ctrlAbzDirectionForward))
        (Op.entry p env s (.configureAbz config)) := by
  rw [configureAbz, ZynqTransport.configureAbz, hcheck, exec_bind_ok (exec_liftExcept _ _),
    exec_bind_ok (exec_write32 p env m (by decide) (by decide) rfl _ s)]
  rfl

theorem configureAbz_framed (h : s.Idle) (config : AbzConfig) (hcheck : config.check = .ok ()) :
    Framed (.configureAbz config) s.settings
        (exec (configureAbz p env m config) s).2.settings ↔
      s.settings.forceSafeSw = true ∨
        externalAt p env (Op.entry p env s (.configureAbz config)) = false := by
  have hspares : ∀ f, f ∉ Op.named (.configureAbz config) → Spares (fun value =>
      if config.forward then value ||| Reg.ctrlAbzDirectionForward
      else without value Reg.ctrlAbzDirectionForward) f := by
    intro f hf
    have hbit : f.bit ≠ some 4 := by
      rintro hbit
      cases f <;> simp_all [Op.named, Field.bit]
    cases config.forward with
    | true => exact spares_set hbit
    | false => exact spares_without hbit
  have hidle : (Op.entry p env s (.configureAbz config)).Idle := entry_idle h (.configureAbz config)
  have hframe := framed_update p env m hidle hspares
  rw [exec_configureAbz config hcheck]
  rw [configureAbz_entry h config] at hframe
  refine Iff.trans ?_ (hframe.trans (or_iff_right (by simp [Op.named])))
  refine forall₂_congr fun f hf => ?_
  cases f <;> first | exact Iff.rfl | exact absurd List.mem_cons_self hf

theorem configureAbz_refused (config : AbzConfig) (hcheck : config.check ≠ .ok ()) :
    (exec (configureAbz p env m config) s).2 = s := by
  rw [configureAbz, ZynqTransport.configureAbz]
  cases hc : config.check with
  | error e => rw [exec_bind_error (exec_liftExcept _ _)]
  | ok u => exact absurd hc hcheck

theorem kept_rfl (c : Config) (f : Field) : f.Kept c c := by
  cases f <;> rfl

/-- An operation keeps to the settings it names unless it stores an external safe input. -/
theorem framed_iff (h : s.Idle) (op : Op) :
    Framed op s.settings (exec (op.run p env m) s).2.settings ↔
      .forceSafeSw ∈ op.named ∨ op.Refused ∨ s.settings.forceSafeSw = true ∨
        externalAt p env (op.entry p env s) = false := by
  cases op with
  | configureAbz config =>
      rw [Op.run, or_iff_right (by simp [Op.named])]
      by_cases hcheck : config.check = .ok ()
      · have hrefused : ¬ Op.Refused (.configureAbz config) := fun hr => hr hcheck
        rw [configureAbz_framed h config hcheck, or_iff_right hrefused]
      · rw [configureAbz_refused config hcheck]
        exact iff_of_true (fun f _ => kept_rfl _ f) (.inl hcheck)
  | startAbz =>
      refine (framed_update p env m h fun f hf => ?_).trans (or_congr_right (or_iff_right not_false).symm)
      have h0 : f.bit ≠ some 0 := by rintro hb; cases f <;> simp_all [Op.named, Field.bit]
      have h1 : f.bit ≠ some 1 := by rintro hb; cases f <;> simp_all [Op.named, Field.bit]
      have h3 : f.bit ≠ some 3 := by rintro hb; cases f <;> simp_all [Op.named, Field.bit]
      exact ((spares_set h0).comp (spares_set h3)).comp (spares_without h1)
  | stopAbz =>
      refine (framed_update p env m h fun f hf => ?_).trans (or_congr_right (or_iff_right not_false).symm)
      have h3 : f.bit ≠ some 3 := by rintro hb; cases f <;> simp_all [Op.named, Field.bit]
      exact spares_without h3
  | forceSafe asserted =>
      refine (framed_update p env m h fun f hf => ?_).trans (or_congr_right (or_iff_right not_false).symm)
      have h1 : f.bit ≠ some 1 := by rintro hb; cases f <;> simp_all [Op.named, Field.bit]
      cases asserted with
      | true => exact spares_set h1
      | false => exact spares_without h1
  | clearFaults =>
      refine (framed_update p env m h fun f hf => ?_).trans (or_congr_right (or_iff_right not_false).symm)
      have h2 : f.bit ≠ some 2 := by cases f <;> simp [Field.bit]
      exact spares_set h2

end Frame

section Calls

variable {D W I : Nat}

theorem control_framed_iff {p : Identity} {env : Env} {s : Bus D W I} (h : Reachable p env s)
    (m : UioMmio) (op : Op) :
    Framed op s.settings (exec (op.run p env m) s).2.settings ↔
      .forceSafeSw ∈ op.named ∨ op.Refused ∨ s.settings.forceSafeSw = true ∨
        externalAt p env (op.entry p env s) = false :=
  framed_iff h.idle op

/-- The external safe input is up in one clock only. -/
def glitchAt (n : Nat) : Env :=
  { sampleEnv with
    plant := fun k => { sampleEnv.plant k with externalForceSafe := decide (k = n) } }

theorem control_framed_between :
    Framed .stopAbz (sampleReset.write32 sampleIdentity (glitchAt 9) regControl 1).settings
      (exec (Op.run sampleIdentity (glitchAt 9) sampleMmio .stopAbz)
        (sampleReset.write32 sampleIdentity (glitchAt 9) regControl 1)).2.settings :=
  (control_framed_iff (.write regControl 1 (.reset _)) sampleMmio .stopAbz).mpr
    (.inr (.inr (.inr (by decide +kernel))))

/-- The glitch falls on the clock in which stop_abz samples REG_CONTROL. -/
theorem stopAbz_stores_glitch :
    ∃ s : Bus 64 16 16, Reachable sampleIdentity (glitchAt 3) s ∧
      s.settings.forceSafeSw = false ∧
      (exec (Op.run sampleIdentity (glitchAt 3) sampleMmio .stopAbz) s).2.settings.forceSafeSw = true ∧
      ¬ Framed .stopAbz s.settings
        (exec (Op.run sampleIdentity (glitchAt 3) sampleMmio .stopAbz) s).2.settings := by
  have hbefore : (sampleReset.write32 sampleIdentity (glitchAt 3) regControl 1).settings.forceSafeSw =
      false := by decide +kernel
  have hafter : (exec (Op.run sampleIdentity (glitchAt 3) sampleMmio .stopAbz)
      (sampleReset.write32 sampleIdentity (glitchAt 3) regControl 1)).2.settings.forceSafeSw =
      true := by decide +kernel
  refine ⟨_, .write regControl 1 (.reset _), hbefore, hafter, fun hframed => ?_⟩
  have hkept := hframed .forceSafeSw (by simp [Op.named])
  exact Bool.false_ne_true (hbefore.symm.trans (hkept.symm.trans hafter))

end Calls

end HilLab.Host.ControlFrame
