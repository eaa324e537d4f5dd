import PCemWeb.Codegen.Immediates
import PCemWeb.Cpu.Flags
import PCemWeb.Cpu.SegLoad

/-!
# Stack instructions

The recompiled stack instructions of `codegen_ops_stack.c`, with the helpers of
`codegen_ops_helpers.h` and `codegen_generate_ea` of `codegen.c`, and the interpreter's handlers of
`x86_ops_stack.h` and `x86_ops_flag.h`, with `386_ops.h` and the address decoding of
`386_dynarec.c`. Memory is linear and no access to it faults.
-/

namespace PCemWeb

open Lib Cpu

/-! ## State -/

/-- Linear memory. -/
abbrev LinMem : Type := BitVec 32 → BitVec 8

/-- `readmemwl`, as it reaches a register. -/
def readw (mem : LinMem) (a : BitVec 32) : BitVec 32 := (mem (a + 1) ++ mem a).setWidth 32

/-- `readmemll`. -/
def readl (mem : LinMem) (a : BitVec 32) : BitVec 32 :=
  mem (a + 3) ++ mem (a + 2) ++ mem (a + 1) ++ mem a

/-- The low `n` bytes of `v` at `a`. -/
def writeBytes (n : Nat) (mem : LinMem) (a v : BitVec 32) : LinMem := fun x =>
  if (x - a).toNat < n then byteLane v (x - a).toNat else mem x

/-- `writememwl`. -/
def writew (mem : LinMem) (a v : BitVec 32) : LinMem := writeBytes 2 mem a v

/-- `writememll`. -/
def writel (mem : LinMem) (a v : BitVec 32) : LinMem := writeBytes 4 mem a v

/-- The selector and the base of an `x86seg`. -/
structure SegReg : Type where
  seg : BitVec 16
  base : BitVec 32

/-- What the stack instructions touch. `regs` are the registers of a block: the general ones are 0
to 7, `eaaddr` is 14 and the temporaries come from 33 on. `vme` is `cr4 & CR4_VME`. -/
structure StackCpu : Type where
  regs : IRegs
  fl : FlagState
  eflags : BitVec 16
  vme : Bool
  segs : SegName → SegReg
  mem : LinMem

/-- `loadseg` where it does not fault: the segment registers and the descriptors in memory. -/
abbrev LoadSeg : Type :=
  SegName → BitVec 16 → (SegName → SegReg) × LinMem → (SegName → SegReg) × LinMem

namespace StackCpu

variable (s : StackCpu)

/-- `cpu_state.eflags & VM_FLAG`. -/
def vm : Bool := s.eflags &&& 2 ≠ 0

/-- `IOPL`. -/
def iopl : BitVec 2 := s.fl.flags.extractLsb' 12 2

/-- `ss`. -/
def ss : BitVec 32 := (s.segs .ss).base

end StackCpu

def IREG_AX : Ireg := ⟨0, .w⟩
def IREG_CX : Ireg := ⟨1, .w⟩
def IREG_DX : Ireg := ⟨2, .w⟩
def IREG_BX : Ireg := ⟨3, .w⟩
def IREG_SP : Ireg := ⟨4, .w⟩
def IREG_BP : Ireg := ⟨5, .w⟩
def IREG_SI : Ireg := ⟨6, .w⟩
def IREG_DI : Ireg := ⟨7, .w⟩
def IREG_EAX : Ireg := ⟨0, .l⟩
def IREG_ECX : Ireg := ⟨1, .l⟩
def IREG_EDX : Ireg := ⟨2, .l⟩
def IREG_EBX : Ireg := ⟨3, .l⟩
def IREG_ESP : Ireg := ⟨4, .l⟩
def IREG_EBP : Ireg := ⟨5, .l⟩
def IREG_ESI : Ireg := ⟨6, .l⟩
def IREG_EDI : Ireg := ⟨7, .l⟩
def IREG_oldpc : Ireg := ⟨13, .l⟩
def IREG_eaaddr : Ireg := ⟨14, .l⟩
def IREG_eaaddr_W : Ireg := ⟨14, .w⟩
def IREG_temp0 : Ireg := ⟨33, .l⟩
def IREG_temp0_W : Ireg := ⟨33, .w⟩

def IREG_16 (r : BitVec 3) : Ireg := ⟨r.toNat, .w⟩

def IREG_32 (r : BitVec 3) : Ireg := ⟨r.toNat, .l⟩

/-! ## Micro-operations -/

/-- The sources that some of them take: a register of the block, `IREG_xS_seg_W`, `IREG_flags` and
`IREG_eflags`. -/
inductive UopSrc : Type
  | ireg (r : Ireg)
  | segW (name : SegName)
  | flags
  | eflags

def StackCpu.get (s : StackCpu) : UopSrc → BitVec 32
  | .ireg r => s.regs.src r
  | .segW name => (s.segs name).seg.setWidth 32
  | .flags => s.fl.flags.setWidth 32
  | .eflags => s.eflags.setWidth 32

/-- The ones that stack instructions are compiled to. `MEM_LOAD_REG` and `MEM_STORE_REG` stand for
their forms with an offset too. -/
inductive StackUop : Type
  | movImm (dest : Ireg) (imm : BitVec 32)
  | mov (dest src : Ireg)
  | movzx (dest : Ireg) (src : UopSrc)
  | add (dest srcA srcB : Ireg)
  | addImm (dest src : Ireg) (imm : BitVec 32)
  | subImm (dest src : Ireg) (imm : BitVec 32)
  | andImm (dest : Ireg) (src : UopSrc) (imm : BitVec 32)
  | addLshift (dest srcA srcB : Ireg) (shift : Nat)
  | memLoadReg (dest : Ireg) (seg : SegName) (addr : Ireg) (offset : BitVec 32)
  | memStoreReg (seg : SegName) (addr : Ireg) (offset : BitVec 32) (src : UopSrc)
  | memStoreImm16 (seg : SegName) (addr : Ireg) (imm : BitVec 16)
  | memStoreImm32 (seg : SegName) (addr : Ireg) (imm : BitVec 32)
  | callFlagsRebuild
  | loadSeg (seg : SegName) (src : Ireg)

/-- The size of a source: whether it is stored as a double word. -/
def UopSrc.isL : UopSrc → Bool
  | .ireg r => r.size = .l
  | _ => false

section Exec

variable (loadseg : LoadSeg)

/-- `seg_base + addr + offset`. -/
def StackCpu.guestAddr (s : StackCpu) (seg : SegName) (addr : Ireg) (offset : BitVec 32) :
    BitVec 32 :=
  (s.segs seg).base + s.regs addr.reg + offset

/-- What the code that the handlers emit does. -/
def StackUop.exec (s : StackCpu) : StackUop → StackCpu
  | .movImm dest imm => { s with regs := s.regs.dst dest imm }
  | .mov dest src => { s with regs := s.regs.dst dest (s.regs.src src) }
  | .movzx dest src => { s with regs := s.regs.dst dest (s.get src) }
  | .add dest srcA srcB => { s with regs := s.regs.dst dest (s.regs.src srcA + s.regs.src srcB) }
  | .addImm dest src imm => { s with regs := s.regs.dst dest (s.regs.src src + imm) }
  | .subImm dest src imm => { s with regs := s.regs.dst dest (s.regs.src src - imm) }
  | .andImm dest src imm => { s with regs := s.regs.dst dest (s.get src &&& imm) }
  | .addLshift dest srcA srcB shift =>
      { s with regs := s.regs.set dest.reg (s.regs srcA.reg + s.regs srcB.reg <<< shift) }
  | .memLoadReg dest seg addr offset =>
      let a := s.guestAddr seg addr offset
      { s with regs := s.regs.dst dest (if dest.size = .l then readl s.mem a else readw s.mem a) }
  | .memStoreReg seg addr offset src =>
      let a := s.guestAddr seg addr offset
      { s with
        mem := if src.isL = true then writel s.mem a (s.get src) else writew s.mem a (s.get src) }
  | .memStoreImm16 seg addr imm =>
      { s with mem := writew s.mem (s.guestAddr seg addr 0) (imm.setWidth 32) }
  | .memStoreImm32 seg addr imm => { s with mem := writel s.mem (s.guestAddr seg addr 0) imm }
  | .callFlagsRebuild => { s with fl := flagsRebuild s.fl }
  | .loadSeg seg src =>
      let loaded := loadseg seg ((s.regs.src src).setWidth 16) (s.segs, s.mem)
      { s with segs := loaded.1, mem := loaded.2 }

/-- The uops of a block, in order. -/
def execUops (s : StackCpu) (uops : List StackUop) : StackCpu :=
  uops.foldl (fun s uop => uop.exec loadseg s) s

end Exec

/-! ## Operands in memory -/

/-- A `modrm` byte that is not a register form, with the code behind it: `code 0` is the next byte.
`ssegs` says that a prefix has set `eaSeg`, which is `ds` otherwise; `a32` is `op_32 & 0x200`. -/
structure ModRm : Type where
  modrm : BitVec 8
  memory : modrm.extractLsb' 6 2 ≠ 3
  code : Nat → BitVec 8
  ssegs : Bool
  eaSeg : SegName
  a32 : Bool

namespace ModRm

variable (m : ModRm)

/-- `cpu_mod`. -/
def mod : BitVec 2 := m.modrm.extractLsb' 6 2

/-- `cpu_rm`. -/
def rm : BitVec 3 := m.modrm.extractLsb' 0 3

/-- `sib & 7`. -/
def base : BitVec 3 := (m.code 0).extractLsb' 0 3

/-- `(sib >> 3) & 7`. -/
def index : BitVec 3 := (m.code 0).extractLsb' 3 3

/-- `sib >> 6`. -/
def scale : BitVec 2 := (m.code 0).extractLsb' 6 2

/-- `mod1seg[cpu_rm] == &ss`. -/
def mod1ss : Bool := m.rm = 2 ∨ m.rm = 3 ∨ m.rm = 6

/-- `op_ea_seg` once the base register has been looked at. -/
def segFor (stack : Bool) : SegName := if stack = true ∧ m.ssegs = false then .ss else m.eaSeg

end ModRm

section GenerateEa

variable (m : ModRm)

/-- `base_reg`. -/
def ea16Base : BitVec 3 :=
  if m.rm = 0 ∨ m.rm = 1 ∨ m.rm = 7 then 3
  else if m.rm = 2 ∨ m.rm = 3 ∨ m.rm = 6 then 5
  else if m.rm = 4 then 6
  else 7

/-- `codegen_generate_ea_16_long`. -/
def codegenGenerateEa16Long : List StackUop × SegName :=
  if m.mod = 0 ∧ m.rm = 6 then
    ([.movImm IREG_eaaddr ((le16 m.code 0).setWidth 32)], m.eaSeg)
  else
    ([.mov IREG_eaaddr (IREG_32 (ea16Base m))] ++
      (if m.rm.getLsbD 2 = false then
        [.add IREG_eaaddr IREG_eaaddr (if m.rm.getLsbD 0 = false then IREG_ESI else IREG_EDI)]
      else []) ++
      (if m.mod = 1 then [.addImm IREG_eaaddr IREG_eaaddr ((m.code 0).signExtend 32)]
      else if m.mod = 2 then
        [.addImm IREG_eaaddr IREG_eaaddr ((le16 m.code 0).setWidth 32)]
      else []) ++
      [.andImm IREG_eaaddr (.ireg IREG_eaaddr) 0xffff], m.segFor m.mod1ss)

/-- `codegen_generate_ea_32_long` of a block whose immediates are inlined. -/
def codegenGenerateEa32Long (stackOffset : BitVec 32) : List StackUop × SegName :=
  if m.rm = 4 then
    ((if m.mod = 0 then
        if m.base = 5 then [.movImm IREG_eaaddr (le32 m.code 1)]
        else [.mov IREG_eaaddr (IREG_32 m.base)]
      else if m.mod = 1 then
        [.movImm IREG_eaaddr ((m.code 1).signExtend 32),
          .add IREG_eaaddr IREG_eaaddr (IREG_32 m.base)]
      else
        [.movImm IREG_eaaddr (le32 m.code 1), .add IREG_eaaddr IREG_eaaddr (IREG_32 m.base)]) ++
      (if stackOffset ≠ 0 ∧ m.base = 4 then [.addImm IREG_eaaddr IREG_eaaddr stackOffset]
      else []) ++
      (if m.index = 4 then []
      else if m.scale = 0 then [.add IREG_eaaddr IREG_eaaddr (IREG_32 m.index)]
      else [.addLshift IREG_eaaddr IREG_eaaddr (IREG_32 m.index) m.scale.toNat]),
      m.segFor (m.base = 4 ∨ m.mod ≠ 0 ∧ m.base = 5))
  else if m.mod = 0 ∧ m.rm = 5 then ([.movImm IREG_eaaddr (le32 m.code 0)], m.eaSeg)
  else
    ([.mov IREG_eaaddr (IREG_32 m.rm)] ++
      (if m.mod = 0 then []
      else if m.mod = 1 then [.addImm IREG_eaaddr IREG_eaaddr ((m.code 0).signExtend 32)]
      else [.addImm IREG_eaaddr IREG_eaaddr (le32 m.code 0)]), m.segFor (m.mod ≠ 0 ∧ m.rm = 5))

/-- `codegen_generate_ea`. -/
def codegenGenerateEa (stackOffset : BitVec 32) : List StackUop × SegName :=
  if m.a32 = true then codegenGenerateEa32Long m stackOffset else codegenGenerateEa16Long m

end GenerateEa

section FetchEa

variable (regs : IRegs) (m : ModRm)

/-- `*mod1add[0][cpu_rm] + *mod1add[1][cpu_rm]`. -/
def mod1add : BitVec 32 :=
  if m.rm = 0 then regs.src IREG_BX + regs.src IREG_SI
  else if m.rm = 1 then regs.src IREG_BX + regs.src IREG_DI
  else if m.rm = 2 then regs.src IREG_BP + regs.src IREG_SI
  else if m.rm = 3 then regs.src IREG_BP + regs.src IREG_DI
  else if m.rm = 4 then regs.src IREG_SI
  else if m.rm = 5 then regs.src IREG_DI
  else if m.rm = 6 then regs.src IREG_BP
  else regs.src IREG_BX

/-- `fetch_ea_16_long`: `eaaddr` and `ea_seg`. -/
def fetchEa16Long : BitVec 32 × SegName :=
  if m.mod = 0 ∧ m.rm = 6 then ((le16 m.code 0).setWidth 32, m.eaSeg)
  else
    let disp : BitVec 32 :=
      if m.mod = 0 then 0
      else if m.mod = 1 then ((m.code 0).signExtend 16).setWidth 32
      else (le16 m.code 0).setWidth 32
    ((disp + mod1add regs m) &&& 0xffff, m.segFor m.mod1ss)

/-- `fetch_ea_32_long`. -/
def fetchEa32Long : BitVec 32 × SegName :=
  if m.rm = 4 then
    let eaaddr :=
      if m.mod = 0 then if m.base = 5 then le32 m.code 1 else regs m.base.toNat
      else if m.mod = 1 then (m.code 1).signExtend 32 + regs m.base.toNat
      else le32 m.code 1 + regs m.base.toNat
    let seg :=
      if m.base = 5 ∧ m.mod = 0 then m.eaSeg else m.segFor (m.base = 4 ∨ m.base = 5)
    (if m.index = 4 then eaaddr else eaaddr + regs m.index.toNat <<< m.scale.toNat, seg)
  else if m.mod = 0 then
    (if m.rm = 5 then le32 m.code 0 else regs m.rm.toNat, m.eaSeg)
  else
    (regs m.rm.toNat + (if m.mod = 1 then (m.code 0).signExtend 32 else le32 m.code 0),
      m.segFor (m.rm = 5))

/-- `fetch_ea_16` or `fetch_ea_32` where `cpu_mod` is not 3. -/
def fetchEa : BitVec 32 × SegName :=
  if m.a32 = true then fetchEa32Long regs m else fetchEa16Long regs m

end FetchEa

/-! ## The instructions -/

/-- Where `POP` with a `modrm` byte stores. -/
inductive PopDest : Type
  | reg (r : BitVec 3)
  | mem (m : ModRm)

/-- The stack instructions, with what is encoded in each. -/
inductive StackOp : Type
  | pushR16 (r : BitVec 3)
  | pushR32 (r : BitVec 3)
  | popR16 (r : BitVec 3)
  | popR32 (r : BitVec 3)
  | pushImm16 (imm : BitVec 16)
  | pushImm32 (imm : BitVec 32)
  | pushImm16x8 (imm : BitVec 8)
  | pushImm32x8 (imm : BitVec 8)
  | popW (dest : PopDest)
  | popL (dest : PopDest)
  | pushSeg16 (name : SegName)
  | pushSeg32 (name : SegName)
  | popSeg16 (name : SegName)
  | popSeg32 (name : SegName)
  | leave16
  | leave32
  | pusha16
  | pusha32
  | popa16
  | popa32
  | pushf
  | pushfd

/-- `stack32`, `cpu_CR4_mask & CR4_VME` and `CPUID`. -/
structure StackMode : Type where
  stack32 : Bool
  vmeMask : Bool
  cpuid : Bool

/-- `IREG_eflags` masked for the upper half of a pushed flags register. -/
def StackMode.eflagsMask (mode : StackMode) : BitVec 32 :=
  if mode.vmeMask = true then 0x3c else if mode.cpuid = true then 0x24 else 4

/-! ## Recompiled -/

/-- What a recompiled instruction depends on beside its encoding. `vm` and `iopl` are the machine's
when the block is compiled. -/
structure RopContext : Type where
  mode : StackMode
  oldpc : BitVec 32
  vm : Bool
  iopl : BitVec 2

section Rop

variable (c : RopContext)

/-- `uop_MOV_IMM(ir, IREG_oldpc, cpu_state.oldpc)`. -/
def movOldpc : List StackUop := [.movImm IREG_oldpc c.oldpc]

/-- `LOAD_SP_WITH_OFFSET`: the uops, and the register that it returns. -/
def loadSpWithOffset (offset : BitVec 32) : List StackUop × Ireg :=
  if c.mode.stack32 = true then
    if offset ≠ 0 then ([.addImm IREG_eaaddr IREG_ESP offset], IREG_eaaddr) else ([], IREG_ESP)
  else if offset ≠ 0 then
    ([.addImm IREG_eaaddr_W IREG_SP offset, .movzx IREG_eaaddr (.ireg IREG_eaaddr_W)], IREG_eaaddr)
  else ([.movzx IREG_eaaddr (.ireg IREG_SP)], IREG_eaaddr)

/-- `ADD_SP`. -/
def addSp (offset : BitVec 32) : List StackUop :=
  if c.mode.stack32 = true then [.addImm IREG_ESP IREG_ESP offset]
  else [.addImm IREG_SP IREG_SP offset]

/-- `SUB_SP`. -/
def subSp (offset : BitVec 32) : List StackUop :=
  if c.mode.stack32 = true then [.subImm IREG_ESP IREG_ESP offset]
  else [.subImm IREG_SP IREG_SP offset]

/-- A push of `n` bytes by one store at the address in `sp_reg`. -/
def ropPushOf (n : BitVec 32) (store : Ireg → List StackUop) : List StackUop :=
  let sp := loadSpWithOffset c (-n)
  movOldpc c ++ sp.1 ++ store sp.2 ++ subSp c n

/-- `ropPUSH_r16`. -/
def ropPushR16 (r : BitVec 3) : List StackUop :=
  ropPushOf c 2 fun sp => [.memStoreReg .ss sp 0 (.ireg (IREG_16 r))]

/-- `ropPUSH_r32`. -/
def ropPushR32 (r : BitVec 3) : List StackUop :=
  ropPushOf c 4 fun sp => [.memStoreReg .ss sp 0 (.ireg (IREG_32 r))]

/-- `ropPUSH_imm_16`. -/
def ropPushImm16 (imm : BitVec 16) : List StackUop :=
  ropPushOf c 2 fun sp => [.memStoreImm16 .ss sp imm]

/-- `ropPUSH_imm_32`. -/
def ropPushImm32 (imm : BitVec 32) : List StackUop :=
  ropPushOf c 4 fun sp => [.memStoreImm32 .ss sp imm]

/-- `ropPUSH_imm_16_8`. -/
def ropPushImm16x8 (imm : BitVec 8) : List StackUop :=
  ropPushOf c 2 fun sp => [.memStoreImm16 .ss sp (imm.signExtend 16)]

/-- `ropPUSH_imm_32_8`. -/
def ropPushImm32x8 (imm : BitVec 8) : List StackUop :=
  ropPushOf c 4 fun sp => [.memStoreImm32 .ss sp (imm.signExtend 32)]

/-- `ropPUSH_xS_16`. -/
def ropPushSeg16 (name : SegName) : List StackUop :=
  ropPushOf c 2 fun sp => [.memStoreReg .ss sp 0 (.segW name)]

/-- `ropPUSH_xS_32`. -/
def ropPushSeg32 (name : SegName) : List StackUop :=
  ropPushOf c 4 fun sp =>
    [.movzx IREG_temp0 (.segW name), .memStoreReg .ss sp 0 (.ireg IREG_temp0)]

/-- The load from the top of the stack, with the register that takes `SP` on a 16-bit stack. -/
def ropPopLoad (dest temp : Ireg) : List StackUop :=
  if c.mode.stack32 = true then [.memLoadReg dest .ss IREG_ESP 0]
  else [.movzx temp (.ireg IREG_SP), .memLoadReg dest .ss temp 0]

/-- `ropPOP_r16`. -/
def ropPopR16 (r : BitVec 3) : List StackUop :=
  movOldpc c ++ ropPopLoad c (IREG_16 r) IREG_eaaddr ++ (if r ≠ 4 then addSp c 2 else [])

/-- `ropPOP_r32`. -/
def ropPopR32 (r : BitVec 3) : List StackUop :=
  movOldpc c ++ ropPopLoad c (IREG_32 r) IREG_eaaddr ++ (if r ≠ 4 then addSp c 4 else [])

/-- `ropPOP_W`, whose check of the segment passes. -/
def ropPopW : PopDest → List StackUop
  | .reg r => ropPopR16 c r
  | .mem m =>
      let ea := codegenGenerateEa m 2
      movOldpc c ++ ea.1 ++ ropPopLoad c IREG_temp0_W IREG_temp0 ++
        [.memStoreReg ea.2 IREG_eaaddr 0 (.ireg IREG_temp0_W)] ++ addSp c 2

/-- `ropPOP_L`, whose check of the segment passes. -/
def ropPopL : PopDest → List StackUop
  | .reg r => ropPopR32 c r
  | .mem m =>
      let ea := codegenGenerateEa m 4
      movOldpc c ++ ea.1 ++ ropPopLoad c IREG_temp0 IREG_temp0 ++
        [.memStoreReg ea.2 IREG_eaaddr 0 (.ireg IREG_temp0)] ++ addSp c 4

/-- `ropPOP_xS_16` and `ropPOP_xS_32`, which there are for `ds`, `es`, `fs` and `gs`. -/
def ropPopSegOf (n : BitVec 32) (name : SegName) : Option (List StackUop) :=
  if name = .cs ∨ name = .ss then none
  else
    some (movOldpc c ++ ropPopLoad c IREG_temp0_W IREG_eaaddr ++ [.loadSeg name IREG_temp0_W] ++
      addSp c n)

/-- `ropLEAVE_16`. -/
def ropLeave16 : List StackUop :=
  movOldpc c ++
    (if c.mode.stack32 = true then [.memLoadReg IREG_temp0_W .ss IREG_EBP 0]
    else [.movzx IREG_eaaddr (.ireg IREG_BP), .memLoadReg IREG_temp0_W .ss IREG_eaaddr 0]) ++
    [.addImm IREG_SP IREG_BP 2, .mov IREG_BP IREG_temp0_W]

/-- `ropLEAVE_32`. -/
def ropLeave32 : List StackUop :=
  movOldpc c ++
    (if c.mode.stack32 = true then [.memLoadReg IREG_temp0 .ss IREG_EBP 0]
    else [.movzx IREG_eaaddr (.ireg IREG_BP), .memLoadReg IREG_temp0 .ss IREG_eaaddr 0]) ++
    [.addImm IREG_ESP IREG_EBP 4, .mov IREG_EBP IREG_temp0]

/-- `ropPUSHA_16`. -/
def ropPusha16 : List StackUop :=
  ropPushOf c 16 fun sp =>
    [.memStoreReg .ss sp 14 (.ireg IREG_AX), .memStoreReg .ss sp 12 (.ireg IREG_CX),
      .memStoreReg .ss sp 10 (.ireg IREG_DX), .memStoreReg .ss sp 8 (.ireg IREG_BX),
      .memStoreReg .ss sp 6 (.ireg IREG_SP), .memStoreReg .ss sp 4 (.ireg IREG_BP),
      .memStoreReg .ss sp 2 (.ireg IREG_SI), .memStoreReg .ss sp 0 (.ireg IREG_DI)]

/-- `ropPUSHA_32`. -/
def ropPusha32 : List StackUop :=
  ropPushOf c 32 fun sp =>
    [.memStoreReg .ss sp 28 (.ireg IREG_EAX), .memStoreReg .ss sp 24 (.ireg IREG_ECX),
      .memStoreReg .ss sp 20 (.ireg IREG_EDX), .memStoreReg .ss sp 16 (.ireg IREG_EBX),
      .memStoreReg .ss sp 12 (.ireg IREG_ESP), .memStoreReg .ss sp 8 (.ireg IREG_EBP),
      .memStoreReg .ss sp 4 (.ireg IREG_ESI), .memStoreReg .ss sp 0 (.ireg IREG_EDI)]

/-- `ropPOPA_16`. -/
def ropPopa16 : List StackUop :=
  let sp := loadSpWithOffset c 0
  movOldpc c ++ sp.1 ++
    [.memLoadReg IREG_DI .ss sp.2 0, .memLoadReg IREG_SI .ss sp.2 2,
      .memLoadReg IREG_BP .ss sp.2 4, .memLoadReg IREG_BX .ss sp.2 8,
      .memLoadReg IREG_DX .ss sp.2 10, .memLoadReg IREG_CX .ss sp.2 12,
      .memLoadReg IREG_AX .ss sp.2 14] ++ addSp c 16

/-- `ropPOPA_32`. -/
def ropPopa32 : List StackUop :=
  let sp := loadSpWithOffset c 0
  movOldpc c ++ sp.1 ++
    [.memLoadReg IREG_EDI .ss sp.2 0, .memLoadReg IREG_ESI .ss sp.2 4,
      .memLoadReg IREG_EBP .ss sp.2 8, .memLoadReg IREG_EBX .ss sp.2 16,
      .memLoadReg IREG_EDX .ss sp.2 20, .memLoadReg IREG_ECX .ss sp.2 24,
      .memLoadReg IREG_EAX .ss sp.2 28] ++ addSp c 32

/-- `ropPUSHF`: `none` leaves the instruction to its handler. -/
def ropPushf : Option (List StackUop) :=
  if c.vm = true ∧ c.iopl ≠ 3 then none
  else
    let sp := loadSpWithOffset c (-2)
    some (movOldpc c ++ [.callFlagsRebuild] ++ sp.1 ++ [.memStoreReg .ss sp.2 0 .flags] ++
      subSp c 2)

/-- `ropPUSHFD`. -/
def ropPushfd : Option (List StackUop) :=
  if c.vm = true ∧ c.iopl ≠ 3 then none
  else
    let sp := loadSpWithOffset c (-4)
    some (movOldpc c ++ [.callFlagsRebuild, .andImm IREG_temp0_W .eflags c.mode.eflagsMask] ++
      sp.1 ++
      [.memStoreReg .ss sp.2 0 .flags, .memStoreReg .ss sp.2 2 (.ireg IREG_temp0_W)] ++ subSp c 4)

/-- The uops of an instruction; `none` where it is not recompiled. -/
def rop : StackOp → Option (List StackUop)
  | .pushR16 r => some (ropPushR16 c r)
  | .pushR32 r => some (ropPushR32 c r)
  | .popR16 r => some (ropPopR16 c r)
  | .popR32 r => some (ropPopR32 c r)
  | .pushImm16 imm => some (ropPushImm16 c imm)
  | .pushImm32 imm => some (ropPushImm32 c imm)
  | .pushImm16x8 imm => some (ropPushImm16x8 c imm)
  | .pushImm32x8 imm => some (ropPushImm32x8 c imm)
  | .popW dest => some (ropPopW c dest)
  | .popL dest => some (ropPopL c dest)
  | .pushSeg16 name => some (ropPushSeg16 c name)
  | .pushSeg32 name => some (ropPushSeg32 c name)
  | .popSeg16 name => ropPopSegOf c 2 name
  | .popSeg32 name => ropPopSegOf c 4 name
  | .leave16 => some (ropLeave16 c)
  | .leave32 => some (ropLeave32 c)
  | .pusha16 => some (ropPusha16 c)
  | .pusha32 => some (ropPusha32 c)
  | .popa16 => some (ropPopa16 c)
  | .popa32 => some (ropPopa32 c)
  | .pushf => ropPushf c
  | .pushfd => ropPushfd c

end Rop

/-! ## Interpreted -/

section Interpreter

variable (stack32 : Bool) (s : StackCpu)

/-- `ESP - k`, or `(SP - k) & 0xFFFF`. -/
def stackBelow (k : BitVec 32) : BitVec 32 :=
  if stack32 = true then s.regs.src IREG_ESP - k else (s.regs.src IREG_SP - k) &&& 0xffff

/-- `ESP + k`, or `(SP + k) & 0xFFFF`. -/
def stackAbove (k : BitVec 32) : BitVec 32 :=
  if stack32 = true then s.regs.src IREG_ESP + k else (s.regs.src IREG_SP + k) &&& 0xffff

/-- `ESP -= k`, or `SP -= k`. -/
def subEsp (k : BitVec 32) : StackCpu :=
  { s with
    regs :=
      if stack32 = true then s.regs.dst IREG_ESP (s.regs.src IREG_ESP - k)
      else s.regs.dst IREG_SP (s.regs.src IREG_SP - k) }

/-- `ESP += k`, or `SP += k`. -/
def addEsp (k : BitVec 32) : StackCpu :=
  { s with
    regs :=
      if stack32 = true then s.regs.dst IREG_ESP (s.regs.src IREG_ESP + k)
      else s.regs.dst IREG_SP (s.regs.src IREG_SP + k) }

/-- `PUSH_W`. -/
def pushW (v : BitVec 32) : StackCpu :=
  subEsp stack32 { s with mem := writew s.mem (s.ss + stackBelow stack32 s 2) v } 2

/-- `PUSH_L`. -/
def pushL (v : BitVec 32) : StackCpu :=
  subEsp stack32 { s with mem := writel s.mem (s.ss + stackBelow stack32 s 4) v } 4

/-- `POP_W`. -/
def popW : BitVec 32 × StackCpu :=
  (readw s.mem (s.ss + stackAbove stack32 s 0), addEsp stack32 s 2)

/-- `POP_L`. -/
def popL : BitVec 32 × StackCpu :=
  (readl s.mem (s.ss + stackAbove stack32 s 0), addEsp stack32 s 4)

/-- `reg = v` for a register operand. -/
def StackCpu.setReg (s : StackCpu) (r : Ireg) (v : BitVec 32) : StackCpu :=
  { s with regs := s.regs.dst r v }

/-- `opPOPW_a16` and `opPOPW_a32`. -/
def opPopW : PopDest → StackCpu
  | .reg r => let p := popW stack32 s; p.2.setReg (IREG_16 r) p.1
  | .mem m =>
      let p := popW stack32 s
      let ea := fetchEa p.2.regs m
      { p.2 with mem := writew p.2.mem ((p.2.segs ea.2).base + ea.1) p.1 }

/-- `opPOPL_a16` and `opPOPL_a32`. -/
def opPopL : PopDest → StackCpu
  | .reg r => let p := popL stack32 s; p.2.setReg (IREG_32 r) p.1
  | .mem m =>
      let p := popL stack32 s
      let ea := fetchEa p.2.regs m
      { p.2 with mem := writel p.2.mem ((p.2.segs ea.2).base + ea.1) p.1 }

/-- `loadseg` of a popped selector. -/
def loadPopped (loadseg : LoadSeg) (name : SegName) (p : BitVec 32 × StackCpu) : StackCpu :=
  let loaded := loadseg name ((p.1 &&& 0xffff).setWidth 16) (p.2.segs, p.2.mem)
  { p.2 with segs := loaded.1, mem := loaded.2 }

/-- `opLEAVE_w`. -/
def opLeaveW : StackCpu :=
  let p := popW stack32 (s.setReg IREG_SP (s.regs.src IREG_BP))
  p.2.setReg IREG_BP p.1

/-- `opLEAVE_l`. -/
def opLeaveL : StackCpu :=
  let p := popL stack32 (s.setReg IREG_ESP (s.regs.src IREG_EBP))
  p.2.setReg IREG_EBP p.1

/-- The writes of `PUSHA`: each register with its distance from the top of the stack. -/
def pushAll (write : LinMem → BitVec 32 → BitVec 32 → LinMem) (regs : List (BitVec 32 × Ireg)) :
    LinMem :=
  regs.foldl (fun mem k => write mem (s.ss + stackBelow stack32 s k.1) (s.regs.src k.2)) s.mem

/-- `opPUSHA_w`. -/
def opPushaW : StackCpu :=
  subEsp stack32
    { s with
      mem := pushAll stack32 s writew
        [(2, IREG_AX), (4, IREG_CX), (6, IREG_DX), (8, IREG_BX), (10, IREG_SP), (12, IREG_BP),
          (14, IREG_SI), (16, IREG_DI)] } 16

/-- `opPUSHA_l`. -/
def opPushaL : StackCpu :=
  subEsp stack32
    { s with
      mem := pushAll stack32 s writel
        [(4, IREG_EAX), (8, IREG_ECX), (12, IREG_EDX), (16, IREG_EBX), (20, IREG_ESP),
          (24, IREG_EBP), (28, IREG_ESI), (32, IREG_EDI)] } 32

/-- The reads of `POPA`: each register with its distance from the top of the stack. -/
def popAll (read : LinMem → BitVec 32 → BitVec 32) (regs : List (BitVec 32 × Ireg)) : IRegs :=
  regs.foldl (fun now k => now.dst k.2 (read s.mem (s.ss + stackAbove stack32 s k.1))) s.regs

/-- `opPOPA_w`. -/
def opPopaW : StackCpu :=
  addEsp stack32
    { s with
      regs := popAll stack32 s readw
        [(0, IREG_DI), (2, IREG_SI), (4, IREG_BP), (8, IREG_BX), (10, IREG_DX), (12, IREG_CX),
          (14, IREG_AX)] } 16

/-- `opPOPA_l`. -/
def opPopaL : StackCpu :=
  addEsp stack32
    { s with
      regs := popAll stack32 s readl
        [(0, IREG_EDI), (4, IREG_ESI), (8, IREG_EBP), (16, IREG_EBX), (20, IREG_EDX),
          (24, IREG_ECX), (28, IREG_EAX)] } 32

/-- `flags_rebuild()`. -/
def StackCpu.rebuilt (s : StackCpu) : StackCpu := { s with fl := flagsRebuild s.fl }

/-- `opPUSHF`; `none` is the general protection fault. -/
def opPushf : Option StackCpu :=
  if s.vm = true ∧ s.iopl ≠ 3 then
    if s.vme = true then
      let s := s.rebuilt
      let temp := (s.fl.flags &&& ~~~0x200) ||| 0x3000
      let temp := if s.eflags &&& 8 ≠ 0 then temp ||| 0x200 else temp
      some (pushW stack32 s (temp.setWidth 32))
    else none
  else
    let s := s.rebuilt
    some (pushW stack32 s (s.fl.flags.setWidth 32))

/-- `opPUSHFD`; `none` is the general protection fault. -/
def opPushfd (mode : StackMode) : Option StackCpu :=
  if s.vm = true ∧ s.iopl ≠ 3 then none
  else
    let tempw := s.eflags.setWidth 32 &&& mode.eflagsMask
    let s := s.rebuilt
    some (pushL stack32 s (s.fl.flags.setWidth 32 ||| tempw <<< 16))

end Interpreter

/-- `getbytef` made a word or a double word: `tempw |= 0xFF00`, `templ |= 0xFFFFFF00`. -/
def widenImm (ones : BitVec 32) (imm : BitVec 8) : BitVec 32 :=
  if imm &&& 0x80 ≠ 0 then imm.setWidth 32 ||| ones else imm.setWidth 32

/-- The handler of an instruction; `none` is a fault. -/
def interpret (loadseg : LoadSeg) (mode : StackMode) (s : StackCpu) : StackOp → Option StackCpu
  | .pushR16 r => some (pushW mode.stack32 s (s.regs.src (IREG_16 r)))
  | .pushR32 r => some (pushL mode.stack32 s (s.regs.src (IREG_32 r)))
  | .popR16 r => let p := popW mode.stack32 s; some (p.2.setReg (IREG_16 r) p.1)
  | .popR32 r => let p := popL mode.stack32 s; some (p.2.setReg (IREG_32 r) p.1)
  | .pushImm16 imm => some (pushW mode.stack32 s (imm.setWidth 32))
  | .pushImm32 imm => some (pushL mode.stack32 s imm)
  | .pushImm16x8 imm => some (pushW mode.stack32 s (widenImm 0xff00 imm))
  | .pushImm32x8 imm => some (pushL mode.stack32 s (widenImm 0xffffff00 imm))
  | .popW dest => some (opPopW mode.stack32 s dest)
  | .popL dest => some (opPopL mode.stack32 s dest)
  | .pushSeg16 name => some (pushW mode.stack32 s ((s.segs name).seg.setWidth 32))
  | .pushSeg32 name => some (pushL mode.stack32 s ((s.segs name).seg.setWidth 32))
  | .popSeg16 name => some (loadPopped loadseg name (popW mode.stack32 s))
  | .popSeg32 name => some (loadPopped loadseg name (popL mode.stack32 s))
  | .leave16 => some (opLeaveW mode.stack32 s)
  | .leave32 => some (opLeaveL mode.stack32 s)
  | .pusha16 => some (opPushaW mode.stack32 s)
  | .pusha32 => some (opPushaL mode.stack32 s)
  | .popa16 => some (opPopaW mode.stack32 s)
  | .popa32 => some (opPopaL mode.stack32 s)
  | .pushf => opPushf mode.stack32 s
  | .pushfd => opPushfd mode.stack32 s mode

end PCemWeb
