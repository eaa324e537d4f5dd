import Mathlib.Data.BitVec

/-!
# Lazy flags

The flag part of `cpu_state_t` and the inline functions of `x86_flags.h`: an
instruction records its operands and its result, and the six status flags are
decoded from the record only when somebody reads them.

`FLAGS_ADD8`, `FLAGS_ADD16` and `FLAGS_ADD32` are one constructor `add` at three
operand sizes, and likewise for the other families of the enumeration.
-/

namespace PCemWeb

/-- Operand size of a flag-setting instruction. -/
inductive Size : Type
  | b8
  | b16
  | b32
  deriving DecidableEq, Repr

namespace Size

/-- Width in bits. -/
def bits : Size → Nat
  | b8 => 8
  | b16 => 16
  | b32 => 32

/-- The sign bit of an operand held in a 32-bit field. -/
def msb : Size → BitVec 32
  | b8 => 0x80
  | b16 => 0x8000
  | b32 => 0x80000000

/-- All bits of an operand held in a 32-bit field. -/
def mask : Size → BitVec 32
  | b8 => 0xff
  | b16 => 0xffff
  | b32 => 0xffffffff

theorem bits_pos (sz : Size) : 0 < sz.bits := by cases sz <;> decide

theorem bits_le (sz : Size) : sz.bits ≤ 32 := by cases sz <;> decide

end Size

/-- The `FLAGS_*` enumeration. -/
inductive FlagsOp : Type
  | unknown
  | zn (sz : Size)
  | add (sz : Size)
  | sub (sz : Size)
  | shl (sz : Size)
  | shr (sz : Size)
  | sar (sz : Size)
  | rol (sz : Size)
  | ror (sz : Size)
  | inc (sz : Size)
  | dec (sz : Size)
  | adc (sz : Size)
  | sbc (sz : Size)
  deriving DecidableEq, Repr

/-- The fields of `cpu_state_t` that hold the flags. -/
structure FlagState : Type where
  flagsOp : FlagsOp
  flagsRes : BitVec 32
  flagsOp1 : BitVec 32
  flagsOp2 : BitVec 32
  flags : BitVec 16
  deriving DecidableEq, Repr

def C_FLAG : BitVec 16 := 0x0001
def P_FLAG : BitVec 16 := 0x0004
def A_FLAG : BitVec 16 := 0x0010
def Z_FLAG : BitVec 16 := 0x0040
def N_FLAG : BitVec 16 := 0x0080
def V_FLAG : BitVec 16 := 0x0800

/-- The value of a C comparison. -/
def cInt (b : Bool) : BitVec 32 := if b then 1 else 0

/-- A C `int` used as a condition. -/
def isSet (v : BitVec 32) : Bool := v != 0

@[simp] theorem isSet_cInt (b : Bool) : isSet (cInt b) = b := by cases b <;> rfl

/-! ## The parity table -/

/-- `d` of `makeznptable`: the number of bits set in a byte. -/
def znpCount (c : BitVec 8) : Nat :=
  (if c &&& 1 ≠ 0 then 1 else 0) + (if c &&& 2 ≠ 0 then 1 else 0) +
    (if c &&& 4 ≠ 0 then 1 else 0) + (if c &&& 8 ≠ 0 then 1 else 0) +
    (if c &&& 16 ≠ 0 then 1 else 0) + (if c &&& 32 ≠ 0 then 1 else 0) +
    (if c &&& 64 ≠ 0 then 1 else 0) + (if c &&& 128 ≠ 0 then 1 else 0)

/-- An entry of `znptable8`, as `makeznptable` fills it. -/
def znptable8 (c : BitVec 8) : BitVec 8 :=
  (if znpCount c % 2 = 1 then 0 else P_FLAG.setWidth 8) |||
    (if c = 0 then Z_FLAG.setWidth 8 else 0) |||
    (if c &&& 0x80 ≠ 0 then N_FLAG.setWidth 8 else 0)

/-! ## Readers -/

section Readers

variable (s : FlagState)

def zfSet : BitVec 32 :=
  match s.flagsOp with
  | .zn _ | .add _ | .sub _ | .shl _ | .shr _ | .sar _ | .inc _ | .dec _ | .adc _ | .sbc _ =>
      cInt (s.flagsRes == 0)
  | .rol _ | .ror _ | .unknown => (s.flags &&& Z_FLAG).setWidth 32

def nfSet : BitVec 32 :=
  match s.flagsOp with
  | .zn sz | .add sz | .sub sz | .shl sz | .shr sz | .sar sz | .inc sz | .dec sz | .adc sz
  | .sbc sz => s.flagsRes &&& sz.msb
  | .rol _ | .ror _ | .unknown => (s.flags &&& N_FLAG).setWidth 32

def pfSet : BitVec 32 :=
  match s.flagsOp with
  | .zn _ | .add _ | .sub _ | .shl _ | .shr _ | .sar _ | .inc _ | .dec _ | .adc _ | .sbc _ =>
      (znptable8 (s.flagsRes.setWidth 8) &&& P_FLAG.setWidth 8).setWidth 32
  | .rol _ | .ror _ | .unknown => (s.flags &&& P_FLAG).setWidth 32

def vfSet : BitVec 32 :=
  match s.flagsOp with
  | .zn _ | .sar _ => 0
  | .adc sz | .add sz | .inc sz =>
      cInt (!isSet ((s.flagsOp1 ^^^ s.flagsOp2) &&& sz.msb) &&
        isSet ((s.flagsOp1 ^^^ s.flagsRes) &&& sz.msb))
  | .sbc sz | .sub sz | .dec sz =>
      (s.flagsOp1 ^^^ s.flagsOp2) &&& (s.flagsOp1 ^^^ s.flagsRes) &&& sz.msb
  | .shl sz => ((s.flagsOp1 <<< s.flagsOp2) ^^^ (s.flagsOp1 <<< (s.flagsOp2 - 1))) &&& sz.msb
  | .shr sz => cInt (s.flagsOp2 == 1 && isSet (s.flagsOp1 &&& sz.msb))
  | .rol sz => (s.flagsRes ^^^ (s.flagsRes >>> (sz.bits - 1))) &&& 1
  | .ror sz => (s.flagsRes ^^^ (s.flagsRes >>> 1)) &&& (sz.msb >>> 1)
  | .unknown => (s.flags &&& V_FLAG).setWidth 32

def afSet : BitVec 32 :=
  match s.flagsOp with
  | .zn _ | .shl _ | .shr _ | .sar _ => 0
  | .add _ | .inc _ => ((s.flagsOp1 &&& 0xf) + (s.flagsOp2 &&& 0xf)) &&& 0x10
  | .adc sz =>
      cInt ((s.flagsRes &&& 0xf).ult (s.flagsOp1 &&& 0xf) ||
        ((s.flagsRes &&& 0xf) == (s.flagsOp1 &&& 0xf) && s.flagsOp2 == sz.mask))
  | .sub _ | .dec _ => ((s.flagsOp1 &&& 0xf) - (s.flagsOp2 &&& 0xf)) &&& 0x10
  | .sbc _ =>
      cInt ((s.flagsOp1 &&& 0xf).ult (s.flagsOp2 &&& 0xf) ||
        ((s.flagsOp1 &&& 0xf) == (s.flagsOp2 &&& 0xf) && (s.flagsRes &&& 0xf) != 0))
  | .rol _ | .ror _ | .unknown => (s.flags &&& A_FLAG).setWidth 32

/-- `(int8_t)`, `(int16_t)` or `(int32_t)` of a 32-bit field, promoted to `int`. -/
def castInt (sz : Size) (v : BitVec 32) : BitVec 32 := (v.setWidth sz.bits).signExtend 32

def cfSet : BitVec 32 :=
  match s.flagsOp with
  | .add .b8 => cInt (isSet ((s.flagsOp1 + s.flagsOp2) &&& 0x100))
  | .add .b16 => cInt (isSet ((s.flagsOp1 + s.flagsOp2) &&& 0x10000))
  | .add .b32 => cInt (s.flagsRes.ult s.flagsOp1)
  | .adc sz =>
      cInt (s.flagsRes.ult s.flagsOp1 || (s.flagsRes == s.flagsOp1 && s.flagsOp2 == sz.mask))
  | .sub _ => cInt (s.flagsOp1.ult s.flagsOp2)
  | .sbc _ =>
      cInt (s.flagsOp1.ult s.flagsOp2 || (s.flagsOp1 == s.flagsOp2 && s.flagsRes != 0))
  | .shl sz => cInt (isSet ((s.flagsOp1 <<< (s.flagsOp2 - 1)) &&& sz.msb))
  | .shr _ => (s.flagsOp1 >>> (s.flagsOp2 - 1)) &&& 1
  | .sar sz => (castInt sz s.flagsOp1).sshiftRight' (s.flagsOp2 - 1) &&& 1
  | .zn _ => 0
  | .rol _ => s.flagsRes &&& 1
  | .ror sz => cInt (isSet (s.flagsRes &&& sz.msb))
  | .dec _ | .inc _ | .unknown => (s.flags &&& C_FLAG).setWidth 32

/-! ## Materialising the flags -/

/-- The `tempf` of `flags_rebuild`. -/
def rebuiltBits : BitVec 16 :=
  (if isSet (cfSet s) then C_FLAG else 0) ||| (if isSet (pfSet s) then P_FLAG else 0) |||
    (if isSet (afSet s) then A_FLAG else 0) ||| (if isSet (zfSet s) then Z_FLAG else 0) |||
    (if isSet (nfSet s) then N_FLAG else 0) ||| (if isSet (vfSet s) then V_FLAG else 0)

def flagsRebuild : FlagState :=
  if s.flagsOp ≠ .unknown then
    { s with flags := (s.flags &&& ~~~0x8d5) ||| rebuiltBits s, flagsOp := .unknown }
  else s

def flagsRebuildC : FlagState :=
  if s.flagsOp ≠ .unknown then
    if isSet (cfSet s) then { s with flags := s.flags ||| C_FLAG }
    else { s with flags := s.flags &&& ~~~C_FLAG }
  else s

end Readers

/-! ## Setters -/

section Setters

variable (sz : Size) (s : FlagState)

/-- `setznp8`, `setznp16`, `setznp32`. -/
def setznp (val : BitVec sz.bits) : FlagState :=
  { s with flagsOp := .zn sz, flagsRes := val.setWidth 32 }

/-- `set_flags_shift`. -/
def setFlagsShift (op : FlagsOp) (orig shift res : BitVec 32) : FlagState :=
  { s with flagsOp := op, flagsRes := res, flagsOp1 := orig, flagsOp2 := shift }

/-- `setadd8`, `setadd16`, `setadd32`. -/
def setadd (a b : BitVec sz.bits) : FlagState :=
  { s with
    flagsOp1 := a.setWidth 32
    flagsOp2 := b.setWidth 32
    flagsRes := (a.setWidth 32 + b.setWidth 32) &&& sz.mask
    flagsOp := .add sz }

/-- `setadd8nc`, `setadd16nc`, `setadd32nc`. -/
def setaddnc (a b : BitVec sz.bits) : FlagState :=
  { flagsRebuildC s with
    flagsOp1 := a.setWidth 32
    flagsOp2 := b.setWidth 32
    flagsRes := (a.setWidth 32 + b.setWidth 32) &&& sz.mask
    flagsOp := .inc sz }

/-- `setsub8`, `setsub16`, `setsub32`. -/
def setsub (a b : BitVec sz.bits) : FlagState :=
  { s with
    flagsOp1 := a.setWidth 32
    flagsOp2 := b.setWidth 32
    flagsRes := (a.setWidth 32 - b.setWidth 32) &&& sz.mask
    flagsOp := .sub sz }

/-- `setsub8nc`, `setsub16nc`, `setsub32nc`. -/
def setsubnc (a b : BitVec sz.bits) : FlagState :=
  { flagsRebuildC s with
    flagsOp1 := a.setWidth 32
    flagsOp2 := b.setWidth 32
    flagsRes := (a.setWidth 32 - b.setWidth 32) &&& sz.mask
    flagsOp := .dec sz }

/-- `setadc8`, `setadc16`, `setadc32`, with the global `tempc` as an argument. -/
def setadc (tempc : BitVec 32) (a b : BitVec sz.bits) : FlagState :=
  { s with
    flagsOp1 := a.setWidth 32
    flagsOp2 := b.setWidth 32
    flagsRes := (a.setWidth 32 + b.setWidth 32 + tempc) &&& sz.mask
    flagsOp := .adc sz }

/-- `setsbc8`, `setsbc16`, `setsbc32`, with the global `tempc` as an argument. -/
def setsbc (tempc : BitVec 32) (a b : BitVec sz.bits) : FlagState :=
  { s with
    flagsOp1 := a.setWidth 32
    flagsOp2 := b.setWidth 32
    flagsRes := (a.setWidth 32 - (b.setWidth 32 + tempc)) &&& sz.mask
    flagsOp := .sbc sz }

end Setters

/-! ## The instructions that call the setters -/

/-- A shift count that the interpreter passes on: masked with 31 and not zero. -/
def ShiftCount : Type := { c : BitVec 32 // 1 ≤ c.toNat ∧ c.toNat ≤ 31 }

instance : DecidableEq ShiftCount := 
  inferInstanceAs (DecidableEq (Subtype _))

/-- An instruction with the operands it hands to its flag setter. -/
inductive FlagInstr (sz : Size) : Type
  | add (dst src : BitVec sz.bits)
  | sub (dst src : BitVec sz.bits)
  | adc (dst src : BitVec sz.bits)
  | sbc (dst src : BitVec sz.bits)
  | inc (dst : BitVec sz.bits)
  | dec (dst : BitVec sz.bits)
  | logic (res : BitVec sz.bits)
  | shl (dst : BitVec sz.bits) (c : ShiftCount)
  | shr (dst : BitVec sz.bits) (c : ShiftCount)
  | sar (dst : BitVec sz.bits) (c : ShiftCount)
  deriving DecidableEq

/-- `tempc = CF_SET() ? 1 : 0`, as the `ADC` and `SBB` handlers start. -/
def tempc (s : FlagState) : BitVec 32 := cInt (isSet (cfSet s))

namespace FlagInstr

variable {sz : Size}

/-- The flag state an instruction leaves. A shift rebuilds the old flags before it
overwrites the record. -/
def run (s : FlagState) : FlagInstr sz → FlagState
  | add dst src => setadd sz s dst src
  | sub dst src => setsub sz s dst src
  | adc dst src => setadc sz s (tempc s) dst src
  | sbc dst src => setsbc sz s (tempc s) dst src
  | inc dst => setaddnc sz s dst 1
  | dec dst => setsubnc sz s dst 1
  | logic res => setznp sz s res
  | shl dst c =>
      setFlagsShift (flagsRebuild s) (.shl sz) (dst.setWidth 32) c.1
        ((dst.setWidth 32 <<< c.1) &&& sz.mask)
  | shr dst c =>
      setFlagsShift (flagsRebuild s) (.shr sz) (dst.setWidth 32) c.1 (dst.setWidth 32 >>> c.1)
  | sar dst c =>
      setFlagsShift (flagsRebuild s) (.sar sz) (dst.setWidth 32) c.1
        ((((dst.signExtend 32).sshiftRight' c.1).setWidth sz.bits).setWidth 32)

end FlagInstr

end PCemWeb
