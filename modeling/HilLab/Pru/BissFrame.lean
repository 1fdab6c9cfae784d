import HilLab.Host.HilSensor
import HilLab.Lib.Crc
import HilLab.Pru.Serial

namespace HilLab.Pru.BissFrame

open Polynomial Lib.Crc
open Serial (Word)

/-- x^6 + x + 1. -/
def biss : Generator := ⟨6, 3, by decide, by decide⟩

theorem biss_polynomial : biss.polynomial = X ^ 6 + X + 1 := by
  have hlow : poly 3 = X + 1 := by
    have hxor : (3 : Nat) = 2 ^ 1 ^^^ 2 ^ 0 := rfl
    rw [hxor, poly_xor, poly_two_pow, poly_two_pow, pow_one, pow_zero]
  have hpolynomial : biss.polynomial = X ^ 6 + poly 3 := rfl
  rw [hpolynomial, hlow, add_assoc]

theorem biss_separates : biss.Separates 63 := by decide +kernel

section Registers

def register (n position status : Nat) : Nat := biss.feed status 2 (biss.feed position n 0)

theorem remains_register {n position status : Nat} (hposition : position < 2 ^ n)
    (hstatus : status < 2 ^ 2) :
    biss.Remains (poly (position <<< 2 ||| status)) (register n position status) := by
  have hremains := (Generator.remains_zero.feed position n).feed status 2 (g := biss)
  rw [mul_zero, zero_add, Nat.mod_eq_of_lt hposition, Nat.mod_eq_of_lt hstatus,
    ← poly_append position hstatus] at hremains
  exact hremains

theorem feed_lt {crc : Nat} (h : crc < 2 ^ 6) (v n : Nat) : biss.feed v n crc < 2 ^ 6 := by
  induction n generalizing crc with
  | zero => exact h
  | succ n ih => exact ih (biss.shift_lt crc (v.testBit n))

theorem register_lt (n position status : Nat) : register n position status < 2 ^ 6 :=
  feed_lt (feed_lt (by decide) position n) status 2

theorem hilSensor_crcShift {crc : Nat} (h : crc < 2 ^ 6) (bit : Bool) :
    Host.HilSensor.crcShift crc bit.toNat = biss.shift crc bit := by
  have hall : ∀ crc < 2 ^ 6, ∀ bit : Bool,
      Host.HilSensor.crcShift crc bit.toNat = biss.shift crc bit := by decide +kernel
  exact hall crc h bit

theorem hilSensor_crcBits {crc : Nat} (h : crc < 2 ^ 6) (v n : Nat) :
    Host.HilSensor.crcBits v n crc = biss.feed v n crc := by
  induction n generalizing crc with
  | zero => rfl
  | succ n ih =>
      have hbit : v >>> n &&& 1 = (v.testBit n).toNat := by
        rw [Nat.and_one_is_mod, Nat.shiftRight_eq_div_pow, Nat.toNat_testBit]
      rw [Host.HilSensor.crcBits, hbit, hilSensor_crcShift h, Generator.feed]
      exact ih (biss.shift_lt crc (v.testBit n))

theorem serial_crcShift {crc : Word} (h : crc.toNat < 2 ^ 6) (bit : Bool) :
    (Serial.crcShift crc (if bit then 1 else 0)).toNat = biss.shift crc.toNat bit := by
  have hall : ∀ crc < 2 ^ 6, ∀ bit : Bool,
      (Serial.crcShift (BitVec.ofNat 32 crc) (if bit then 1 else 0)).toNat = biss.shift crc bit := by
    decide +kernel
  have hcrc := hall crc.toNat h bit
  rw [BitVec.ofNat_toNat, BitVec.setWidth_eq] at hcrc
  exact hcrc

theorem serial_crcBits {crc : Word} (h : crc.toNat < 2 ^ 6) (v : Word) (n : Nat) :
    (Serial.crcBits v n crc).toNat = biss.feed v.toNat n crc.toNat := by
  induction n generalizing crc with
  | zero => rfl
  | succ n ih =>
      have hbit : v >>> n &&& 1 = if v.toNat.testBit n then 1 else 0 := by
        apply BitVec.eq_of_toNat_eq
        rw [BitVec.toNat_and, BitVec.toNat_ushiftRight]
        change v.toNat >>> n &&& 1 = _
        rw [Nat.and_one_is_mod, Nat.shiftRight_eq_div_pow, ← Nat.toNat_testBit]
        cases v.toNat.testBit n <;> rfl
      have hshift := serial_crcShift h (v.toNat.testBit n)
      rw [Serial.crcBits, hbit, Generator.feed, ← hshift]
      apply ih
      rw [hshift]
      exact biss.shift_lt crc.toNat (v.toNat.testBit n)

end Registers

section Checks

theorem masked_natCast (v mask : Nat) : Host.HilSensor.masked v mask = v &&& mask := rfl

theorem masked_one {v : Nat} (h : v < 2) : Host.HilSensor.masked v 1 = v := by
  rw [masked_natCast, Nat.and_one_is_mod, Nat.mod_eq_of_lt h]

theorem masked_position {n v : Nat} (hn : n ≤ 32) (h : v < 2 ^ n) :
    Host.HilSensor.masked v (Host.HilSensor.positionMask n) = v := by
  have hmask : Host.HilSensor.positionMask n = 2 ^ n - 1 := by
    rw [Host.HilSensor.positionMask, Nat.one_shiftLeft]
    split
    · rfl
    · obtain rfl : n = 32 := by omega
      rfl
  rw [masked_natCast, hmask, Nat.and_two_pow_sub_one_eq_mod, Nat.mod_eq_of_lt h]

theorem status_lt {error warning : Nat} (herror : error < 2) (hwarning : warning < 2) :
    error <<< 1 ||| warning < 2 ^ 2 := append_lt hwarning (n := 1) herror

theorem hilSensor_crc6Biss {n position error warning : Nat} (hn : 1 ≤ n ∧ n ≤ 32)
    (hposition : position < 2 ^ n) (herror : error < 2) (hwarning : warning < 2) :
    Host.HilSensor.crc6Biss position n error warning =
      .ok (register n position (error <<< 1 ||| warning) ^^^ 0x3F) := by
  have hrange : ¬ ¬ (1 ≤ (n : Int) ∧ (n : Int) ≤ 32) := by omega
  have hinvert : ∀ crc : Nat, crc < 2 ^ 6 →
      Host.HilSensor.masked (Int.lnot crc) 0x3F = crc ^^^ 0x3F := by
    decide +kernel
  have hfirst := hilSensor_crcBits (Nat.two_pow_pos 6) position n
  rw [Host.HilSensor.crc6Biss, if_neg hrange]
  dsimp only
  rw [Int.toNat_natCast, masked_position hn.2 hposition, masked_one herror, masked_one hwarning,
    hfirst, hilSensor_crcBits (feed_lt (by decide) _ _)]
  exact congrArg Except.ok (hinvert _ (register_lt n position _))

theorem serial_crc6Biss (position positionBits : Word) {error warning : Word}
    (herror : error.toNat < 2) (hwarning : warning.toNat < 2) :
    (Serial.crc6Biss position positionBits error warning).toNat =
      register positionBits.toNat position.toNat (error.toNat <<< 1 ||| warning.toNat) ^^^ 0x3F := by
  have hstatus : ((error &&& 1) <<< 1 ||| warning &&& 1).toNat =
      error.toNat <<< 1 ||| warning.toNat := by
    have hbit {v : Word} (h : v.toNat < 2) : v &&& 1 = v := by
      apply BitVec.eq_of_toNat_eq
      rw [BitVec.toNat_and]
      exact (Nat.and_one_is_mod _).trans (Nat.mod_eq_of_lt h)
    rw [hbit herror, hbit hwarning, BitVec.toNat_or, BitVec.toNat_shiftLeft, Nat.mod_eq_of_lt]
    rw [Nat.shiftLeft_eq]
    omega
  have hinvert {crc : Word} (h : crc.toNat < 2 ^ 6) : (~~~crc &&& 0x3F).toNat = crc.toNat ^^^ 0x3F := by
    have hall : ∀ crc < 2 ^ 6, (~~~BitVec.ofNat 32 crc &&& 0x3F).toNat = crc ^^^ 0x3F := by
      decide +kernel
    have hcrc := hall crc.toNat h
    rw [BitVec.ofNat_toNat, BitVec.setWidth_eq] at hcrc
    exact hcrc
  have hfirst : (Serial.crcBits position positionBits.toNat 0).toNat =
      biss.feed position.toNat positionBits.toNat 0 := serial_crcBits (by decide) _ _
  have hlt : (Serial.crcBits position positionBits.toNat 0).toNat < 2 ^ 6 := by
    rw [hfirst]
    exact feed_lt (by decide) _ _
  have hsecond := serial_crcBits hlt ((error &&& 1) <<< 1 ||| warning &&& 1) 2
  rw [hfirst, hstatus] at hsecond
  rw [Serial.crc6Biss, hinvert]
  · rw [hsecond]
    rfl
  · rw [hsecond]
    exact register_lt _ _ _

end Checks

section Frames

/-- ACK 0, START 1, CDS 0, POSITION, ERR, WARN and CRC. -/
def layout (n position error warning crc : Nat) : Nat :=
  (((2 <<< n ||| position) <<< 1 ||| error) <<< 1 ||| warning) <<< 6 ||| crc

theorem hilSensor_buildBissFrame {n position error warning : Nat} (hn : 1 ≤ n ∧ n ≤ 32)
    (hposition : position < 2 ^ n) (herror : error < 2) (hwarning : warning < 2) :
    Host.HilSensor.buildBissFrame position n error warning =
      .ok (layout n position error warning
        (register n position (error <<< 1 ||| warning) ^^^ 0x3F), n + 11) := by
  have hrange : ¬ ¬ (1 ≤ (n : Int) ∧ (n : Int) ≤ 32) := by omega
  rw [Host.HilSensor.buildBissFrame, if_neg hrange]
  dsimp only
  rw [Int.toNat_natCast, masked_position hn.2 hposition, masked_one herror, masked_one hwarning,
    hilSensor_crc6Biss hn hposition herror hwarning]
  rfl

/-- The low w bits of a frame carry a number. -/
structure Carries (frame : BitVec 64) (w v : Nat) : Prop where
  eq : frame.toNat = v
  lt : v < 2 ^ w

theorem Carries.append {frame : BitVec 64} {w v k : Nat} (h : Carries frame w v) {x : Word}
    (hx : x.toNat < 2 ^ k) (hle : w + k ≤ 64) :
    Carries (frame <<< k ||| x.setWidth 64) (w + k) (v <<< k ||| x.toNat) := by
  refine ⟨?_, append_lt hx h.lt⟩
  have hwidth : (x.setWidth 64).toNat = x.toNat := by
    rw [BitVec.toNat_setWidth, Nat.mod_eq_of_lt]
    exact Nat.lt_of_lt_of_le x.isLt (by decide)
  rw [BitVec.toNat_or, BitVec.toNat_shiftLeft, hwidth, h.eq, Nat.mod_eq_of_lt]
  calc v <<< k ≤ v <<< k ||| x.toNat := Nat.left_le_or
    _ < 2 ^ (w + k) := append_lt hx h.lt
    _ ≤ 2 ^ 64 := Nat.pow_le_pow_right (by decide) hle

theorem effective_toNat {dataBits : Word} (hle : dataBits.toNat ≤ 32)
    (dataValue faultMask dataFlags : Word) :
    (Serial.effective dataBits dataValue faultMask dataFlags).toNat =
      (if dataFlags &&& Serial.flagFaultEnable ≠ 0 then dataValue ^^^ faultMask
        else dataValue).toNat % 2 ^ dataBits.toNat := by
  rw [Serial.effective]
  generalize (if dataFlags &&& Serial.flagFaultEnable ≠ 0 then dataValue ^^^ faultMask
    else dataValue) = value
  by_cases hlt : dataBits < 32
  · have hbits : dataBits.toNat < 32 := hlt
    have hpow : 2 ^ dataBits.toNat < 2 ^ 32 := Nat.pow_lt_pow_right (by decide) hbits
    have hmask : ((1 : Word) <<< dataBits - 1).toNat = 2 ^ dataBits.toNat - 1 := by
      have hpos := Nat.two_pow_pos dataBits.toNat
      have hone : ((1 : Word) <<< dataBits).toNat = 2 ^ dataBits.toNat := by
        rw [BitVec.shiftLeft_eq', BitVec.toNat_shiftLeft]
        change 1 <<< dataBits.toNat % 2 ^ 32 = _
        rw [Nat.one_shiftLeft, Nat.mod_eq_of_lt hpow]
      have hle : (1 : Word) ≤ (1 : Word) <<< dataBits := by
        rw [BitVec.le_def, hone]
        exact hpos
      rw [BitVec.toNat_sub_of_le hle, hone]
      rfl
    rw [if_pos hlt, BitVec.toNat_and, hmask, Nat.and_two_pow_sub_one_eq_mod]
  · have hbits : dataBits.toNat = 32 := by
      rw [BitVec.lt_def] at hlt
      exact Nat.le_antisymm hle (Nat.le_of_not_lt hlt)
    rw [if_neg hlt, hbits, Nat.mod_eq_of_lt value.isLt]

theorem flag_lt (dataFlags mask : Word) : (Serial.flag dataFlags mask).toNat < 2 := by
  rw [Serial.flag]
  split <;> decide

theorem buildFrame_toNat {dataBits : Word} (hle : dataBits.toNat ≤ 32)
    (dataValue faultMask dataFlags : Word) :
    let position := (Serial.effective dataBits dataValue faultMask dataFlags).toNat
    let error := (Serial.flag dataFlags Serial.flagBissErrorOk).toNat
    let warning := (Serial.flag dataFlags Serial.flagBissWarningOk).toNat
    (Serial.buildFrame .biss dataBits dataValue faultMask dataFlags).1.toNat =
      layout dataBits.toNat position error warning
        (register dataBits.toNat position (error <<< 1 ||| warning) ^^^ 0x3F) := by
  have herror := flag_lt dataFlags Serial.flagBissErrorOk
  have hwarning := flag_lt dataFlags Serial.flagBissWarningOk
  have hposition : (Serial.effective dataBits dataValue faultMask dataFlags).toNat <
      2 ^ dataBits.toNat := by
    rw [effective_toNat hle]
    exact Nat.mod_lt _ (Nat.two_pow_pos _)
  have hcrc := serial_crc6Biss (Serial.effective dataBits dataValue faultMask dataFlags) dataBits
    herror hwarning
  rw [Serial.buildFrame, if_pos rfl]
  dsimp only
  generalize Serial.effective dataBits dataValue faultMask dataFlags = position at *
  generalize Serial.flag dataFlags Serial.flagBissErrorOk = error at *
  generalize Serial.flag dataFlags Serial.flagBissWarningOk = warning at *
  rw [BitVec.shiftLeft_eq']
  have hcheck : (Serial.crc6Biss position dataBits error warning).toNat < 2 ^ 6 := by
    rw [hcrc]
    exact Nat.xor_lt_two_pow (register_lt _ _ _) (by decide)
  have hhead : Carries ((((0 : BitVec 64) <<< 1) <<< 1 ||| 1) <<< 1) 2 2 := ⟨rfl, by decide⟩
  have hframe := (((hhead.append hposition (by omega)).append (k := 1) herror (by omega)).append
    (k := 1) hwarning (by omega)).append hcheck (by omega)
  rw [hcrc] at hframe
  exact hframe.eq

end Frames

section Fields

structure Fields where
  position : Nat
  error : Nat
  warning : Nat
  crc : Nat
deriving DecidableEq, Repr

/-- The fields of a frame, by their places from its end. -/
def split (n frame : Nat) : Fields :=
  { position := frame >>> 8 % 2 ^ n, error := frame >>> 7 % 2, warning := frame >>> 6 % 2,
    crc := frame % 2 ^ 6 }

def Fields.contents (f : Fields) : Nat := f.position <<< 2 ||| (f.error <<< 1 ||| f.warning)

def CrcMatches (n frame : Nat) : Prop :=
  let f := split n frame
  Host.HilSensor.crc6Biss f.position n f.error f.warning = .ok f.crc

theorem split_layout {n position error warning crc : Nat} (hposition : position < 2 ^ n)
    (herror : error < 2) (hwarning : warning < 2) (hcrc : crc < 2 ^ 6) :
    split n (layout n position error warning crc) = ⟨position, error, warning, crc⟩ := by
  have hsix : layout n position error warning crc >>> 6 =
      ((2 <<< n ||| position) <<< 1 ||| error) <<< 1 ||| warning := append_shiftRight _ hcrc
  have hseven : layout n position error warning crc >>> 7 = (2 <<< n ||| position) <<< 1 ||| error := by
    rw [Nat.shiftRight_add _ 6 1, hsix]
    exact append_shiftRight _ (k := 1) hwarning
  have height : layout n position error warning crc >>> 8 = 2 <<< n ||| position := by
    rw [Nat.shiftRight_add _ 7 1, hseven]
    exact append_shiftRight _ (k := 1) herror
  have hlow : layout n position error warning crc % 2 ^ 6 = crc := append_mod _ hcrc
  have hwarn : (((2 <<< n ||| position) <<< 1 ||| error) <<< 1 ||| warning) % 2 = warning :=
    append_mod _ (k := 1) hwarning
  have herr : ((2 <<< n ||| position) <<< 1 ||| error) % 2 = error := append_mod _ (k := 1) herror
  rw [split, height, hseven, hsix, hlow, append_mod _ hposition, herr, hwarn]

theorem fields_of_split (n frame : Nat) :
    frame % 2 ^ (n + 8) = (split n frame).contents <<< 6 ||| (split n frame).crc := by
  have hrest := mod_eq_append frame (n + 2) 6
  have hposition := mod_eq_append (frame >>> 6) n 2
  have hstatus := mod_eq_append (frame >>> 6) 1 1
  rw [← Nat.shiftRight_add] at hposition hstatus
  rw [hposition, hstatus] at hrest
  exact hrest

theorem split_position_lt (n frame : Nat) : (split n frame).position < 2 ^ n :=
  Nat.mod_lt _ (Nat.two_pow_pos n)

theorem split_status_lt (n frame : Nat) :
    (split n frame).error < 2 ∧ (split n frame).warning < 2 :=
  ⟨Nat.mod_lt _ (by decide), Nat.mod_lt _ (by decide)⟩

/-- A CRC matches exactly in the codewords of x^6 + x + 1. -/
theorem crcMatches_iff {n : Nat} (hn : 1 ≤ n ∧ n ≤ 32) (frame : Nat) :
    CrcMatches n frame ↔ biss.Codeword 0x3F (frame % 2 ^ (n + 8)) := by
  have hposition := split_position_lt n frame
  obtain ⟨herror, hwarning⟩ := split_status_lt n frame
  have hcrc : (split n frame).crc < 2 ^ 6 := Nat.mod_lt _ (by decide)
  have hremains := remains_register hposition (status_lt herror hwarning)
  rw [fields_of_split]
  apply Iff.trans _ (Generator.codeword_iff (g := biss) hcrc (by decide)).symm
  rw [CrcMatches, hilSensor_crc6Biss hn hposition herror hwarning]
  generalize (split n frame).crc = crc at *
  have hinvolution (v : Nat) : v ^^^ 0x3F ^^^ 0x3F = v := by
    rw [Nat.xor_assoc, Nat.xor_self, Nat.xor_zero]
  constructor
  · intro h
    obtain rfl := Except.ok.inj h
    rw [hinvolution]
    exact hremains
  · intro h
    rw [hremains.unique h, hinvolution]

theorem crcMatches_detects {n : Nat} (hn : 1 ≤ n ∧ n ≤ 32) {frame e : Nat}
    (h : CrcMatches n frame) (he : OneOrTwo (n + 8) e) : ¬ CrcMatches n (frame ^^^ e) := by
  have hlt : e < 2 ^ (n + 8) := by
    rcases he with ⟨i, hi, rfl⟩ | ⟨i, j, hij, hj, rfl⟩
    · exact Nat.pow_lt_pow_right (by decide) hi
    · exact Nat.xor_lt_two_pow (Nat.pow_lt_pow_right (by decide) (Nat.lt_trans hij hj))
        (Nat.pow_lt_pow_right (by decide) hj)
  have hseparates : biss.Separates (n + 8) := by
    intro d hd
    exact biss_separates d (by omega)
  rw [crcMatches_iff hn] at h ⊢
  rw [Nat.xor_mod_two_pow, Nat.mod_eq_of_lt hlt]
  exact h.detects (by decide) hseparates he

end Fields

section Codec

/-- The properties of a frame and its total_bits, as built for a position and status bits. -/
structure Codec (dataBits position error warning : Nat) (built : BitVec 64 × Word) : Prop where
  host : Host.HilSensor.buildBissFrame position dataBits error warning =
    .ok (built.1.toNat, built.2.toNat)
  total : built.2.toNat = dataBits + 11
  remainder : poly (built.1.toNat % 2 ^ 6 ^^^ 0x3F) =
    (poly (position <<< 2 ||| (error <<< 1 ||| warning)) * X ^ 6) %ₘ (X ^ 6 + X + 1)
  recovered : ∃ crc, split dataBits built.1.toNat = ⟨position, error, warning, crc⟩
  valid : CrcMatches dataBits built.1.toNat
  detects : ∀ frame e, CrcMatches dataBits frame → OneOrTwo (dataBits + 8) e →
    ¬ CrcMatches dataBits (frame ^^^ e)

theorem codec_of_layout {n position error warning : Nat} {built : BitVec 64 × Word}
    (hn : 1 ≤ n ∧ n ≤ 32) (hposition : position < 2 ^ n) (herror : error < 2)
    (hwarning : warning < 2) (htotal : built.2.toNat = n + 11)
    (hframe : built.1.toNat = layout n position error warning
      (register n position (error <<< 1 ||| warning) ^^^ 0x3F)) :
    Codec n position error warning built := by
  have hremains := remains_register hposition (status_lt herror hwarning)
  have hcheck : register n position (error <<< 1 ||| warning) ^^^ 0x3F < 2 ^ 6 :=
    Nat.xor_lt_two_pow (register_lt _ _ _) (by decide)
  have hlast : built.1.toNat % 2 ^ 6 = register n position (error <<< 1 ||| warning) ^^^ 0x3F := by
    rw [hframe]
    exact append_mod _ hcheck
  have hsplit := split_layout hposition herror hwarning hcheck
  rw [← hframe] at hsplit
  refine ⟨?_, htotal, ?_, ⟨_, hsplit⟩, ?_, fun _ _ h he => crcMatches_detects hn h he⟩
  · rw [hilSensor_buildBissFrame hn hposition herror hwarning, hframe, htotal]
  · rw [hlast, Nat.xor_assoc, Nat.xor_self, Nat.xor_zero, hremains.modByMonic, biss_polynomial]
    rfl
  · rw [CrcMatches, hsplit]
    exact hilSensor_crc6Biss hn hposition herror hwarning

theorem buildFrame_codec (dataBits dataValue faultMask dataFlags : Word)
    (hbits : 1 ≤ dataBits.toNat ∧ dataBits.toNat ≤ 32) :
    Codec dataBits.toNat
      ((if dataFlags &&& Serial.flagFaultEnable ≠ 0 then dataValue ^^^ faultMask
        else dataValue).toNat % 2 ^ dataBits.toNat)
      (if dataFlags &&& Serial.flagBissErrorOk ≠ 0 then 1 else 0)
      (if dataFlags &&& Serial.flagBissWarningOk ≠ 0 then 1 else 0)
      (Serial.buildFrame .biss dataBits dataValue faultMask dataFlags) := by
  have hflag (mask : Word) : (Serial.flag dataFlags mask).toNat =
      if dataFlags &&& mask ≠ 0 then 1 else 0 := by
    rw [Serial.flag]
    split <;> rfl
  have hposition : (Serial.effective dataBits dataValue faultMask dataFlags).toNat <
      2 ^ dataBits.toNat := by
    rw [effective_toNat hbits.2]
    exact Nat.mod_lt _ (Nat.two_pow_pos _)
  have htotal : (Serial.buildFrame .biss dataBits dataValue faultMask dataFlags).2.toNat =
      dataBits.toNat + 11 := by
    have hsum : (Serial.buildFrame .biss dataBits dataValue faultMask dataFlags).2 = dataBits + 11 := rfl
    have heleven : (11 : Word).toNat = 11 := rfl
    rw [hsum, BitVec.toNat_add, heleven]
    exact Nat.mod_eq_of_lt (by omega)
  rw [← effective_toNat hbits.2, ← hflag, ← hflag]
  exact codec_of_layout hbits hposition (flag_lt _ _) (flag_lt _ _) htotal
    (buildFrame_toNat hbits.2 dataValue faultMask dataFlags)

/-- Twelve bits, with every flag set. -/
theorem buildFrame_codec_twelve :
    Codec 12 (0x5A3 ^^^ 0x0F0) 1 1 (Serial.buildFrame .biss 12 0x5A3 0x0F0 7) :=
  buildFrame_codec 12 0x5A3 0x0F0 7 (by decide)

end Codec

end HilLab.Pru.BissFrame
