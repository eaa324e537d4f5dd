import PCemWeb.Lib.LinkedList
import Mathlib.Data.BitVec
import Mathlib.Logic.Function.Basic

/-!
# Dead micro-operations

The register versions of `codegen_reg.h` and `codegen_reg.c`: a block's micro-operations are laid
down by the `uop_gen` family, each reads the last versions of its sources and makes a new version
of its destination, and a version that a full write replaces before anything has read it joins the
dead list. `codegen_reg_process_dead_list` removes the micro-operations behind the versions on that
list. A counter that passes 255 ends the program, as it does outside release builds.
-/

namespace PCemWeb.Codegen

/-! ## Registers -/

/-- The size bits of a register number. -/
inductive RegSize : Type
  | l
  | w
  | b
  | bh
  | d
  | q
  deriving DecidableEq

/-- `native_size`. -/
inductive NativeSize : Type
  | byte
  | word
  | dword
  | qword
  | pointer
  | double
  | fpuStByte
  | fpuStDouble
  | fpuStQword

def IREG_COUNT : Nat := 88

/-- `IREG_EBX`, the last of the registers that have a high byte. -/
def IREG_LAST_BH : Nat := 3

/-- A register with the size it is used at, as an argument of the `uop_gen` family. -/
structure SizedReg : Type where
  reg : Nat
  size : RegSize
  lt_count : reg < IREG_COUNT

/-- The sizes of `ireg_data`, in runs of registers of one size. -/
def nativeSize (reg : Nat) : NativeSize :=
  if reg = 15 then .pointer
  else if reg = 17 then .byte
  else if reg ≤ 26 then .dword
  else if reg ≤ 32 then .word
  else if reg ≤ 37 then .dword
  else if reg ≤ 39 then .double
  else if reg ≤ 47 then .fpuStDouble
  else if reg ≤ 55 then .fpuStByte
  else if reg ≤ 63 then .fpuStQword
  else if reg ≤ 71 then .qword
  else if reg ≤ 75 then .word
  else .dword

/-- `is_volatile` of `ireg_data`: the temporary registers. -/
def isVolatile (reg : Nat) : Bool := (33 ≤ reg ∧ reg ≤ 36) ∨ reg = 38 ∨ reg = 39

/-- `reg_is_native_size`, on a host whose pointers have `pointerSize` bytes. -/
def regIsNativeSize (pointerSize : Nat) (r : SizedReg) : Bool :=
  match nativeSize r.reg with
  | .byte | .fpuStByte => r.size = .b
  | .word => r.size = .w
  | .dword => r.size = .l
  | .qword | .fpuStQword | .double | .fpuStDouble => r.size = .d ∨ r.size = .q
  | .pointer => if pointerSize = 4 then r.size = .l else r.size = .q

/-! ## Micro-operations and register versions -/

def UOP_TYPE_BARRIER : BitVec 32 := 1#32 <<< 31

def UOP_TYPE_ORDER_BARRIER : BitVec 32 := 1#32 <<< 27

def UOP_INVALID : BitVec 32 := 0xff#32

def UOP_MASK : BitVec 32 := 0xffff#32

def UOP_NR_MAX : Nat := 4096

/-- The test of `uop_alloc` and of the removal. -/
def isBarrier (type : BitVec 32) : Bool :=
  type &&& (UOP_TYPE_BARRIER ||| UOP_TYPE_ORDER_BARRIER) ≠ 0#32

/-- `ir_reg_t`. -/
structure IrReg : Type where
  reg : SizedReg
  version : Nat

/-- `uop_t`; an absent register is `invalid_ir_reg`. -/
structure Uop : Type where
  type : BitVec 32
  srcRegA : Option IrReg
  srcRegB : Option IrReg
  srcRegC : Option IrReg
  destRegA : Option IrReg

/-- A call of the `uop_gen` family or of `duplicate_uop`. -/
structure UopGen : Type where
  type : BitVec 32
  srcRegA : Option SizedReg
  srcRegB : Option SizedReg
  srcRegC : Option SizedReg
  destRegA : Option SizedReg
  valid : type &&& UOP_MASK ≠ UOP_INVALID

/-- `reg_version_t`, with its flags apart. -/
structure RegVersion : Type where
  refcount : Nat
  /-- `REG_FLAGS_REQUIRED`. -/
  required : Bool
  /-- `REG_FLAGS_DEAD`. -/
  dead : Bool
  parentUop : Nat
  next : Nat

/-- The number of a register version, as the dead list links it. -/
def regKey (reg version : Nat) : Nat := version ||| (reg <<< 8)

/-- The micro-operations of a block and the tables of register versions; `reg_version` is indexed
by number. -/
structure Ir : Type where
  uops : Nat → Uop
  wrPos : Nat
  lastVersion : Nat → Nat
  regVersion : Nat → RegVersion
  deadList : Nat

namespace Ir

variable (s : Ir)

def setVersion (key : Nat) (v : RegVersion) : Ir :=
  { s with regVersion := Function.update s.regVersion key v }

/-- `codegen_ir_init` and `codegen_reg_reset`, over the tables of the block before. -/
def reset : Ir where
  uops := s.uops
  wrPos := 0
  lastVersion := fun _ => 0
  regVersion := fun key =>
    if key % 256 = 0 then { s.regVersion key with refcount := 0 } else s.regVersion key
  deadList := 0

/-- `add_to_dead_list`. -/
def addToDeadList (reg version : Nat) : Ir :=
  { s.setVersion (regKey reg version)
      { s.regVersion (regKey reg version) with next := s.deadList } with
    deadList := regKey reg version }

/-- One register of `codegen_reg_mark_as_required`. -/
def markReg (reg : Nat) : Ir :=
  if 0 < s.lastVersion reg ∧ isVolatile reg = false then
    s.setVersion (regKey reg (s.lastVersion reg))
      { s.regVersion (regKey reg (s.lastVersion reg)) with required := true }
  else s

/-- `codegen_reg_mark_as_required`. -/
def markAsRequired : Ir := (List.range IREG_COUNT).foldl markReg s

/-- `codegen_reg_read`. -/
def regRead (r : SizedReg) : Option (IrReg × Ir) :=
  let version := s.lastVersion r.reg
  let v := s.regVersion (regKey r.reg version)
  let refcount := (v.refcount + 1) % 256
  if refcount = 0 then none
  else some (⟨r, version⟩, s.setVersion (regKey r.reg version)
    { v with refcount := refcount, required := false, dead := false })

/-- The version that a write replaces joins the dead list when nothing has read or required it and
the write is a full one. -/
def retire (pointerSize : Nat) (r : SizedReg) : Ir :=
  let last := s.lastVersion r.reg
  let v := s.regVersion (regKey r.reg last)
  if IREG_LAST_BH < r.reg ∧ last ≠ 0 ∧ v.refcount = 0 ∧ v.required = false ∧
      regIsNativeSize pointerSize r = true then
    s.addToDeadList r.reg last
  else s

/-- The new version of `codegen_reg_write`. -/
def newVersion (r : SizedReg) (uopNr version : Nat) : Ir :=
  let key := regKey r.reg version
  { s.setVersion key { s.regVersion key with
      refcount := 0, required := false, dead := false, parentUop := uopNr } with
    lastVersion := Function.update s.lastVersion r.reg version }

/-- `codegen_reg_write`. -/
def regWrite (pointerSize : Nat) (r : SizedReg) (uopNr : Nat) : Option (IrReg × Ir) :=
  let version := (s.lastVersion r.reg + 1) % 256
  if version = 0 then none
  else some (⟨r, version⟩, (s.retire pointerSize r).newVersion r uopNr version)

/-- A source that is there is read. -/
def readSrc : Option SizedReg → Option (Option IrReg × Ir)
  | none => some (none, s)
  | some r => (s.regRead r).map fun read => (some read.1, read.2)

/-- A destination that is there is written. -/
def writeDest (pointerSize uopNr : Nat) : Option SizedReg → Option (Option IrReg × Ir)
  | none => some (none, s)
  | some r => (s.regWrite pointerSize r uopNr).map fun write => (some write.1, write.2)

/-- `uop_alloc`: the last versions are required before the micro-operation reads any. -/
def uopAlloc (type : BitVec 32) : Option Ir :=
  if UOP_NR_MAX ≤ s.wrPos then none
  else
    let s := { s with wrPos := s.wrPos + 1 }
    some (if isBarrier type then s.markAsRequired else s)

/-- A member of the `uop_gen` family. -/
def uopGen (pointerSize : Nat) (u : UopGen) : Option Ir := do
  let s ← s.uopAlloc u.type
  let (a, s) ← s.readSrc u.srcRegA
  let (b, s) ← s.readSrc u.srcRegB
  let (c, s) ← s.readSrc u.srcRegC
  let (d, s) ← s.writeDest pointerSize (s.wrPos - 1) u.destRegA
  some { s with uops := Function.update s.uops (s.wrPos - 1) ⟨u.type, a, b, c, d⟩ }

/-- The micro-operations of a block, laid down after a reset. -/
def generate (pointerSize : Nat) (l : List UopGen) : Option Ir :=
  l.foldlM (uopGen · pointerSize) s.reset

/-! ## The dead list -/

/-- A source of a removed micro-operation is released. -/
def releaseSrc : Option IrReg → Ir
  | none => s
  | some src =>
      let key := regKey src.reg.reg src.version
      let v := s.regVersion key
      let refcount := (v.refcount + 255) % 256
      let s := s.setVersion key { v with refcount := refcount }
      if refcount = 0 then s.addToDeadList src.reg.reg src.version else s

/-- The micro-operation behind a register version is removed, unless it is a barrier. -/
def removeParent (key : Nat) : Ir :=
  let nr := (s.regVersion key).parentUop
  let uop := s.uops nr
  if isBarrier uop.type then s
  else
    let s := { s with uops := Function.update s.uops nr { uop with type := UOP_INVALID } }
    let s := ((s.releaseSrc uop.srcRegA).releaseSrc uop.srcRegB).releaseSrc uop.srcRegC
    s.setVersion key { s.regVersion key with dead := true }

/-- One turn of the loop of `codegen_reg_process_dead_list`: the list goes on behind the version
that was its head, whatever has been pushed meanwhile. -/
def processHead : Ir :=
  let key := regKey (s.deadList >>> 8) (s.deadList &&& 0xff)
  let s := s.removeParent key
  { s with deadList := (s.regVersion key).next }

/-- `codegen_reg_process_dead_list`, for at most `fuel` turns. -/
def processDeadList : (fuel : Nat) → Ir → Option Ir
  | 0, s => if s.deadList = 0 then some s else none
  | fuel + 1, s => if s.deadList = 0 then some s else processDeadList fuel s.processHead

/-- The micro-operation has been made invalid. -/
def Removed (i : Nat) : Prop := (s.uops i).type &&& UOP_MASK = UOP_INVALID

instance (i : Nat) : Decidable (s.Removed i) := by
  unfold Removed
  infer_instance

end Ir

end PCemWeb.Codegen
