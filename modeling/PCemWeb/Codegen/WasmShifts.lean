import PCemWeb.Codegen.Immediates
import PCemWeb.Lib.WasmStack

/-!
# Shifts and rotates

The WebAssembly code that `codegen_backend_wasm_uops.c` emits for the shift and rotate
micro-operations, and the shift group of the interpreter, `x86_ops_shift.h`. A host register is a
local variable of 32 bits.
-/

namespace PCemWeb

open Lib

/-! ## Emitted code -/

/-- `WLOC_INT` and `WLOC_SCRATCH_I32_0`. -/
inductive WLoc : Type
  | int (hr : Nat)
  | scratch
  deriving DecidableEq

/-- Code for one micro-operation. -/
abbrev WCode : Type := List (I32Instr WLoc)

/-- `e_src`. -/
def eSrc (r : Ireg) : WCode :=
  match r.size with
  | .l => [.get (.int r.reg)]
  | .w => [.get (.int r.reg), .const 0xffff, .op .and]
  | .b => [.get (.int r.reg), .const 0xff, .op .and]
  | .bh => [.get (.int r.reg), .const 8, .op .shrU, .const 0xff, .op .and]

/-- `e_dst`. -/
def eDst (r : Ireg) : WCode :=
  match r.size with
  | .l => [.set (.int r.reg)]
  | .w => [.const 0xffff, .op .and, .get (.int r.reg), .const 0xffff0000, .op .and, .op .or,
      .set (.int r.reg)]
  | .b => [.const 0xff, .op .and, .get (.int r.reg), .const 0xffffff00, .op .and, .op .or,
      .set (.int r.reg)]
  | .bh => [.const 0xff, .op .and, .const 8, .op .shl, .get (.int r.reg), .const 0xffff00ff,
      .op .and, .op .or, .set (.int r.reg)]

/-- The amount of an `_IMM` micro-operation, or the host register of `src_reg_b`. -/
inductive ShiftAmount : Type
  | imm (v : BitVec 32)
  | reg (hr : Nat)

namespace ShiftAmount

def isImm : ShiftAmount → Bool
  | .imm _ => true
  | .reg _ => false

def emit : ShiftAmount → WCode
  | .imm v => [.const v]
  | .reg hr => [.get (.int hr)]

def value (locals : WLoc → BitVec 32) : ShiftAmount → BitVec 32
  | .imm v => v
  | .reg hr => locals (.int hr)

end ShiftAmount

structure ShiftUop : Type where
  dest : Ireg
  src : Ireg
  amount : ShiftAmount

/-- Width of the rotates that are not native. -/
def rotWidth (size : IregSize) : BitVec 32 := if size = .w then 16 else 8

namespace ShiftUop

variable (u : ShiftUop)

/-- `codegen_SHL` and `codegen_SHL_IMM`. -/
def shl : WCode :=
  (if u.src.size = .bh then eSrc u.src else [.get (.int u.src.reg)]) ++ u.amount.emit ++
    [.op .shl] ++ eDst u.dest

/-- `codegen_SHR` and `codegen_SHR_IMM`. -/
def shr : WCode := eSrc u.src ++ u.amount.emit ++ [.op .shrU] ++ eDst u.dest

/-- `pre` of `e_sar_common`. -/
def sarPre : BitVec 32 :=
  match u.src.size with
  | .l => 0
  | .w => 16
  | .b => 24
  | .bh => 16

/-- `post` of `e_sar_common`. -/
def sarPost : BitVec 32 :=
  match u.src.size with
  | .l => 0
  | .w => 16
  | .b => 24
  | .bh => 24

/-- `e_sar_common`. -/
def sar : WCode :=
  let aligned := [.get (.int u.src.reg)] ++
    if u.sarPre ≠ 0 then [.const u.sarPre, .op .shl] else []
  let shifted := aligned ++ u.amount.emit ++ [.op .shrS]
  let realigned := if u.sarPost ≠ 0 then [.const u.sarPost, .op .shrU] else []
  shifted ++ realigned ++ eDst u.dest

/-- The amount by which `e_rot_common` shifts the doubled value right. -/
def rotAmount (left : Bool) : WCode :=
  let width := rotWidth u.src.size
  match left, u.amount with
  | true, .imm v => [.const ((width - (v &&& (width - 1))) &&& (width - 1))]
  | true, .reg hr =>
      [.const width, .get (.int hr), .op .sub] ++
        if width = 8 then [.const 7, .op .and] else []
  | false, .imm v => [.const (v &&& (width - 1))]
  | false, .reg hr => [.get (.int hr), .const (width - 1), .op .and]

/-- `e_rot_common`. -/
def rotCommon (left : Bool) : WCode :=
  if u.src.size = .l then
    [.get (.int u.src.reg)] ++ u.amount.emit ++ [.op (if left then .rotl else .rotr)] ++
      eDst u.dest
  else
    eSrc u.src ++ [.tee .scratch] ++ [.const (rotWidth u.src.size)] ++ [.op .shl] ++
      [.get .scratch] ++ [.op .or] ++ u.rotAmount left ++ [.op .shrU] ++ eDst u.dest

/-- `gen_rot`: an immediate rotate by 0 is a move. -/
def rot (left : Bool) : WCode :=
  let width := if u.src.size = .l then 32 else rotWidth u.src.size
  match u.amount with
  | .imm v => if v &&& (width - 1) = 0 then eSrc u.src ++ eDst u.dest else u.rotCommon left
  | .reg _ => u.rotCommon left

end ShiftUop

inductive ShiftOp : Type
  | shl
  | shr
  | sar
  | rol
  | ror
  deriving DecidableEq

/-- The handler of a shift or rotate; sizes that differ end the program. -/
def codegenShift (op : ShiftOp) (u : ShiftUop) : Option WCode :=
  if u.dest.size = u.src.size then
    some (match op with
      | .shl => u.shl
      | .shr => u.shr
      | .sar => u.sar
      | .rol => u.rot true
      | .ror => u.rot false)
  else none

/-! ## The interpreter -/

namespace IregSize

/-- The bits of an operand. -/
def width : IregSize → Nat
  | .l => 32
  | .w => 16
  | .b => 8
  | .bh => 8

/-- The place of its bit 0 in the register. -/
def low : IregSize → Nat
  | .bh => 8
  | _ => 0

/-- The operand in a register, as `temp` holds it. -/
def operand (size : IregSize) (x : BitVec 32) : BitVec 32 :=
  (x >>> size.low) &&& BitVec.ofNat 32 (2 ^ size.width - 1)

end IregSize

/-- The value of `OP_SHIFT_b`, `OP_SHIFT_w` and `OP_SHIFT_l`, whose low bits go back to the operand:
`temp` is promoted to an `int`, and the rotates of 8 and 16 bits reduce the count. -/
def opShift (op : ShiftOp) (size : IregSize) (temp : BitVec 32) (c : Nat) : BitVec 32 :=
  let n := if size = .l then c else c &&& (size.width - 1)
  if c = 0 then temp
  else
    match op with
    | .rol => (temp <<< n) ||| (temp >>> (size.width - n))
    | .ror => (temp >>> n) ||| (temp <<< (size.width - n))
    | .shl => temp <<< c
    | .shr => temp >>> c
    | .sar => ((temp.setWidth size.width).signExtend 32).sshiftRight c

/-! ## What the code must do -/

/-- The operand of `dest` is `result`, and all else is as before. -/
structure Replaces (dest : Ireg) (result : BitVec 32) (locals locals' : WLoc → BitVec 32) :
    Prop where
  inside : ∀ i < dest.size.width,
    (locals' (.int dest.reg)).getLsbD (dest.size.low + i) = result.getLsbD i
  outside : ∀ i < 32, ¬ (dest.size.low ≤ i ∧ i < dest.size.low + dest.size.width) →
    (locals' (.int dest.reg)).getLsbD i = (locals (.int dest.reg)).getLsbD i
  others : ∀ hr, hr ≠ dest.reg → locals' (.int hr) = locals (.int hr)

/-- The emitted code leaves what the interpreter computes from the source operand. -/
def ShiftsRight (op : ShiftOp) (u : ShiftUop) (locals : WLoc → BitVec 32) : Prop :=
  ∃ code locals', codegenShift op u = some code ∧
    I32Instr.run code ([], locals) = some ([], locals') ∧
    Replaces u.dest (opShift op u.src.size (u.src.size.operand (locals (.int u.src.reg)))
      (u.amount.value locals).toNat) locals locals'

end PCemWeb
