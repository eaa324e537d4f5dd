import PCemWeb.Codegen.StackOps

/-!
# Effective addresses

`codegen_generate_ea` of `codegen.c`, in blocks with inlined immediates and without, and the
interpreter's `fetch_ea_16` and `fetch_ea_32` of `386_dynarec.c`. Both advance an instruction
pointer: `op_pc` is at the last byte that was used, `cpu_state.pc` behind it.
-/

namespace PCemWeb

open Lib Cpu

/-! ## Code -/

/-- The code of the guest. What `pccache` holds is what `getpccache` gives. -/
structure CodeMem : Type where
  pages : CodePages
  host : Nat → BitVec 8
  cache : PcCache
  coherent : ∀ page base, cachedBase page cache = some base → base = pages.base page

/-- Its bytes, by linear address. -/
def CodeMem.byte (mem : CodeMem) : LinMem := fun a =>
  mem.host (mem.pages.base (codePage a) + pageOffset a)

/-- An instruction at its `modrm` byte, the address of which is `pc`. The byte and the next two are
in `fetchdat`. `a32` is `op_32 & 0x200`. -/
structure EaInsn : Type where
  mem : CodeMem
  cs : BitVec 32
  pc : BitVec 32
  fetchdat : BitVec 32
  fetched : ∀ j < 3, byteLane fetchdat j = mem.byte (cs + pc + BitVec.ofNat 32 j)
  ssegs : Bool
  eaSeg : SegName
  a32 : Bool
  noImmediates : Bool

namespace EaInsn

variable (i : EaInsn)

/-- `cpu_mod`. -/
def mod : BitVec 2 := i.fetchdat.extractLsb' 6 2

/-- `cpu_rm`. -/
def rm : BitVec 3 := i.fetchdat.extractLsb' 0 3

/-- `sib & 7`. -/
def base : BitVec 3 := i.fetchdat.extractLsb' 8 3

/-- `(sib >> 3) & 7`. -/
def index : BitVec 3 := i.fetchdat.extractLsb' 11 3

/-- `sib >> 6`. -/
def scale : BitVec 2 := i.fetchdat.extractLsb' 14 2

/-- `(fetchdat >> 8) & 0xff`. -/
def imm8 : BitVec 8 := byteLane i.fetchdat 1

/-- `(fetchdat >> 16) & 0xff`. -/
def sibImm8 : BitVec 8 := byteLane i.fetchdat 2

/-- `(fetchdat >> 8) & 0xffff`. -/
def imm16 : BitVec 16 := i.fetchdat.extractLsb' 8 16

/-- `mod1seg[cpu_rm] == &ss`. -/
def mod1ss : Bool := i.rm = 2 ∨ i.rm = 3 ∨ i.rm = 6

/-- The segment once the base register has been looked at. -/
def segFor (stack : Bool) : SegName := if stack = true ∧ i.ssegs = false then .ss else i.eaSeg

end EaInsn

/-! ## Recompiled -/

/-- The micro-operations of an address, and those that load an immediate. -/
inductive EaUop : Type
  | uop (u : StackUop)
  | imm (u : ImmUop)

/-- Them in order; `none` is `fatal`. -/
def runEa (loadseg : LoadSeg) (host : Nat → BitVec 8) : List EaUop → StackCpu → Option StackCpu
  | [], s => some s
  | .uop u :: uops, s => runEa loadseg host uops (u.exec loadseg s)
  | .imm u :: uops, s =>
      u.exec host s.regs >>= fun regs => runEa loadseg host uops { s with regs := regs }

/-- What is emitted, the segment that is returned, and `*op_pc` afterwards. -/
structure EaCode : Type where
  uops : List EaUop
  seg : SegName
  opPc : BitVec 32

namespace EaInsn

variable (i : EaInsn)

/-- `base_reg` of a 16-bit address. -/
def baseReg : Ireg :=
  if i.rm = 0 ∨ i.rm = 1 ∨ i.rm = 7 then IREG_EBX
  else if i.rm = 2 ∨ i.rm = 3 ∨ i.rm = 6 then IREG_EBP
  else if i.rm = 4 then IREG_ESI
  else IREG_EDI

/-- `codegen_generate_ea_16_long`. -/
def codegenGenerateEa16Long : EaCode :=
  if i.mod = 0 ∧ i.rm = 6 then
    ⟨[.uop (.movImm IREG_eaaddr (i.imm16.setWidth 32))], i.eaSeg, i.pc + 2⟩
  else
    let indexed :=
      [.uop (.mov IREG_eaaddr i.baseReg)] ++
        if i.rm.getLsbD 2 = false then
          [.uop (.add IREG_eaaddr IREG_eaaddr
            (if i.rm.getLsbD 0 = false then IREG_ESI else IREG_EDI))]
        else []
    let offset :=
      if i.mod = 1 then
        ([.uop (.addImm IREG_eaaddr IREG_eaaddr (i.imm8.signExtend 32))], i.pc + 1)
      else if i.mod = 2 then
        ([.uop (.addImm IREG_eaaddr IREG_eaaddr (i.imm16.setWidth 32))], i.pc + 2)
      else ([], i.pc)
    ⟨indexed ++ offset.1 ++ [.uop (.andImm IREG_eaaddr (.ireg IREG_eaaddr) 0xffff)],
      i.segFor i.mod1ss, offset.2⟩

/-- `LOAD_IMMEDIATE_FROM_RAM_32` from behind `opPc`, or the immediate that is read there. -/
def loadDisp32 (dest : Ireg) (opPc : BitVec 32) : List EaUop :=
  if i.noImmediates = true then
    (loadImmediateFromRam32 i.mem.pages i.mem.cache dest (i.cs + opPc + 1)).map .imm
  else [.uop (.movImm dest (readl i.mem.byte (i.cs + opPc + 1)))]

/-- `codegen_generate_ea_32_long` where there is a `sib` byte: its base with the displacement. -/
def codegenSibBase : List EaUop × BitVec 32 :=
  let opPc := i.pc + 1
  if i.mod = 0 then
    if i.base = 5 then (i.loadDisp32 IREG_eaaddr opPc, opPc + 4)
    else ([.uop (.mov IREG_eaaddr (IREG_32 i.base))], opPc)
  else if i.mod = 1 then
    ([.uop (.movImm IREG_eaaddr (i.sibImm8.signExtend 32))] ++
      [.uop (.add IREG_eaaddr IREG_eaaddr (IREG_32 i.base))], opPc + 1)
  else
    (i.loadDisp32 IREG_eaaddr opPc ++ [.uop (.add IREG_eaaddr IREG_eaaddr (IREG_32 i.base))],
      opPc + 4)

/-- Its index. -/
def codegenSibIndex : List EaUop :=
  if i.index ≠ 4 then
    if i.scale = 0 then [.uop (.add IREG_eaaddr IREG_eaaddr (IREG_32 i.index))]
    else [.uop (.addLshift IREG_eaaddr IREG_eaaddr (IREG_32 i.index) i.scale.toNat)]
  else []

/-- `codegen_generate_ea_32_long`. -/
def codegenGenerateEa32Long (stackOffset : BitVec 32) : EaCode :=
  if i.rm = 4 then
    let base := i.codegenSibBase
    let stack :=
      if stackOffset ≠ 0 ∧ i.base = 4 ∧ (i.mod ≠ 0 ∨ i.base ≠ 5) then
        [.uop (.addImm IREG_eaaddr IREG_eaaddr stackOffset)]
      else []
    ⟨base.1 ++ stack ++ i.codegenSibIndex, i.segFor (i.base = 4 ∨ i.mod ≠ 0 ∧ i.base = 5), base.2⟩
  else if i.mod = 0 ∧ i.rm = 5 then ⟨i.loadDisp32 IREG_eaaddr i.pc, i.eaSeg, i.pc + 4⟩
  else
    let offset :=
      if i.mod = 0 then ([], i.pc)
      else if i.mod = 1 then
        ([.uop (.addImm IREG_eaaddr IREG_eaaddr (i.imm8.signExtend 32))], i.pc + 1)
      else if i.noImmediates = true then
        (i.loadDisp32 IREG_temp0 i.pc ++ [.uop (.add IREG_eaaddr IREG_eaaddr IREG_temp0)],
          i.pc + 4)
      else
        ([.uop (.addImm IREG_eaaddr IREG_eaaddr (readl i.mem.byte (i.cs + i.pc + 1)))], i.pc + 4)
    ⟨[.uop (.mov IREG_eaaddr (IREG_32 i.rm))] ++ offset.1,
      i.segFor (i.mod ≠ 0 ∧ i.rm = 5), offset.2⟩

/-- `codegen_generate_ea`; `none` is `NULL`, for an operand in a register. -/
def codegenGenerateEa (stackOffset : BitVec 32) : Option EaCode :=
  if i.mod = 3 then none
  else if i.a32 = true then some (i.codegenGenerateEa32Long stackOffset)
  else some i.codegenGenerateEa16Long

end EaInsn

/-! ## Interpreted -/

/-- `eaaddr` and `ea_seg`, and `cpu_state.pc` afterwards. -/
structure FetchedEa : Type where
  eaaddr : BitVec 32
  seg : SegName
  pc : BitVec 32

namespace EaInsn

variable (i : EaInsn)

/-- `getbyte`. -/
def getbyte (pc : BitVec 32) : BitVec 8 × BitVec 32 := (i.mem.byte (i.cs + pc), pc + 1)

/-- `getword`. -/
def getword (pc : BitVec 32) : BitVec 32 × BitVec 32 := (readw i.mem.byte (i.cs + pc), pc + 2)

/-- `getlong`. -/
def getlong (pc : BitVec 32) : BitVec 32 × BitVec 32 := (readl i.mem.byte (i.cs + pc), pc + 4)

variable (regs : IRegs)

/-- `*mod1add[0][cpu_rm] + *mod1add[1][cpu_rm]`. -/
def mod1add : BitVec 32 :=
  if i.rm = 0 then regs.src IREG_BX + regs.src IREG_SI
  else if i.rm = 1 then regs.src IREG_BX + regs.src IREG_DI
  else if i.rm = 2 then regs.src IREG_BP + regs.src IREG_SI
  else if i.rm = 3 then regs.src IREG_BP + regs.src IREG_DI
  else if i.rm = 4 then regs.src IREG_SI
  else if i.rm = 5 then regs.src IREG_DI
  else if i.rm = 6 then regs.src IREG_BP
  else regs.src IREG_BX

/-- `fetch_ea_16_long`. -/
def fetchEa16Long (pc : BitVec 32) : FetchedEa :=
  if i.mod = 0 ∧ i.rm = 6 then ⟨(i.getword pc).1, i.eaSeg, (i.getword pc).2⟩
  else
    let disp :=
      if i.mod = 0 then (0, pc)
      else if i.mod = 1 then ((i.imm8.signExtend 16).setWidth 32, pc + 1)
      else i.getword pc
    ⟨(disp.1 + i.mod1add regs) &&& 0xffff, i.segFor i.mod1ss, disp.2⟩

/-- `fetch_ea_32_long` where there is a `sib` byte: its base with the displacement. -/
def fetchSibBase (pc : BitVec 32) : BitVec 32 × BitVec 32 :=
  if i.mod = 0 then
    if i.base = 5 then i.getlong (pc + 1) else (regs i.base.toNat, pc + 1)
  else if i.mod = 1 then
    ((i.getbyte (pc + 1)).1.signExtend 32 + regs i.base.toNat, (i.getbyte (pc + 1)).2)
  else (readl i.mem.byte (i.cs + pc + 1) + regs i.base.toNat, pc + 5)

/-- `fetch_ea_32_long`. -/
def fetchEa32Long (pc : BitVec 32) : FetchedEa :=
  if i.rm = 4 then
    let base := i.fetchSibBase regs pc
    let seg :=
      if i.base = 5 ∧ i.mod = 0 then i.eaSeg
      else i.segFor (i.base.extractLsb' 1 2 = 2)
    ⟨if i.index ≠ 4 then base.1 + regs i.index.toNat <<< i.scale.toNat else base.1, seg, base.2⟩
  else if i.mod ≠ 0 then
    let disp := if i.mod = 1 then (i.imm8.signExtend 32, pc + 1) else i.getlong pc
    ⟨regs i.rm.toNat + disp.1, i.segFor (i.rm = 5), disp.2⟩
  else if i.rm = 5 then ⟨(i.getlong pc).1, i.eaSeg, (i.getlong pc).2⟩
  else ⟨regs i.rm.toNat, i.eaSeg, pc⟩

/-- `fetch_ea_16` and `fetch_ea_32`; an operand in a register has no address. -/
def fetchEa : Option FetchedEa × BitVec 32 :=
  let pc := i.pc + 1
  if i.mod ≠ 3 then
    let ea := if i.a32 = true then i.fetchEa32Long regs pc else i.fetchEa16Long regs pc
    (some ea, ea.pc)
  else (none, pc)

end EaInsn

/-! ## Agreement -/

/-- What the instruction pops before its address is computed, which `stack_offset` is for. -/
inductive Popped : Type
  | nothing
  | word
  | long
  deriving DecidableEq

/-- `stack_offset`. -/
def Popped.offset : Popped → BitVec 32
  | .nothing => 0
  | .word => 2
  | .long => 4

/-- The state in which the interpreter computes the address: `POP_W` and `POP_L` have advanced the
stack pointer. -/
def Popped.before (popped : Popped) (stack32 : Bool) (s : StackCpu) : StackCpu :=
  match popped with
  | .nothing => s
  | .word => addEsp stack32 s 2
  | .long => addEsp stack32 s 4

/-- The emitted code leaves the interpreter's address, for its segment, and the instruction goes on
at the same place. -/
def EaAgrees (loadseg : LoadSeg) (i : EaInsn) (popped : Popped) (stack32 : Bool) (s : StackCpu) :
    Prop :=
  match i.codegenGenerateEa popped.offset, i.fetchEa (popped.before stack32 s).regs with
  | none, (none, pc) => pc = i.pc + 1
  | some code, (some ea, pc) =>
      (∃ s', runEa loadseg i.mem.host code.uops s = some s' ∧
        s'.regs.src IREG_eaaddr = ea.eaaddr) ∧
      code.seg = ea.seg ∧ pc = code.opPc + 1
  | _, _ => False

end PCemWeb
