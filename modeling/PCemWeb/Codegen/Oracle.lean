import PCemWeb.Lib.ByteLanes
import PCemWeb.Lib.Bytes
import PCemWeb.Lib.UndoLog
import Mathlib.Data.BitVec
import Mathlib.Logic.Function.Basic

/-!
# The differential oracle

`wasm-jit-oracle.c` runs a compiled block, rolls back what it wrote to RAM and replays it with the
interpreter, with the hooks of `mem_write_ram*_page`. The block's code, the instruction fetch and
the interpreter's handlers are parameters: each is a function of the processor and of RAM, to the
accesses it makes and the processor it leaves. The lookups stay cold while the oracle runs, so every
write reaches the hooks.
-/

namespace PCemWeb.Codegen.Oracle

open Lib

/-! ## RAM -/

/-- RAM by host address. -/
abbrev Ram : Type := Nat → BitVec 8

inductive AccessSize : Type
  | b
  | w
  | l
  deriving DecidableEq

namespace AccessSize

def bytes : AccessSize → Nat
  | .b => 1
  | .w => 2
  | .l => 4

/-- The conversion of a value to the type of the access. -/
def trunc : AccessSize → BitVec 32 → BitVec 32
  | .b, v => v &&& 0xff
  | .w, v => v &&& 0xffff
  | .l, v => v

/-- A read through a pointer. -/
def read (ram : Ram) (addr : Nat) : AccessSize → BitVec 32
  | .b => (ram addr).setWidth 32
  | .w => (le16 ram addr).setWidth 32
  | .l => le32 ram addr

end AccessSize

/-- `ram_write_raw`. -/
def ramWriteRaw (ram : Ram) (addr : Nat) (size : AccessSize) (v : BitVec 32) : Ram :=
  overlay ram addr ((List.range size.bytes).map (byteLane v))

/-- `jentry_t`. -/
structure JEntry : Type where
  addr : Nat
  size : AccessSize
  oldv : BitVec 32
  newv : BitVec 32
  deriving DecidableEq

def JOURNAL_MAX : Nat := 8192

def redoEntry (j : JEntry) (ram : Ram) : Ram := ramWriteRaw ram j.addr j.size j.newv

def undoEntry (j : JEntry) (ram : Ram) : Ram := ramWriteRaw ram j.addr j.size j.oldv

/-- `journal_a_rollback`. -/
def rollback (journal : List JEntry) (ram : Ram) : Ram := undoAll undoEntry journal ram

/-- `journal_a_reapply`. -/
def reapply (journal : List JEntry) (ram : Ram) : Ram := redoAll redoEntry journal ram

/-! ## The processor -/

/-- The fields of `cpu_state_t`. -/
inductive CpuField : Type
  | regs
  | tag
  | eaSeg
  | eaaddr
  | flagsOp
  | flagsRes
  | flagsOp1
  | flagsOp2
  | pc
  | oldpc
  | op32
  | TOP
  | rmData
  | ssegs
  | ismmx
  | abrt
  | smiPending
  | cycles
  | cpuRecompIns
  | npxs
  | npxc
  | ST
  | mmW4
  | MM
  | oldFpControl
  | newFpControl
  | segCs
  | segDs
  | segEs
  | segSs
  | segFs
  | segGs
  | CR0
  | flags
  | eflags
  | smbase
  deriving DecidableEq

/-- `oracle_state_t`: the bytes of each field as a number, and the globals. -/
structure OracleState : Type where
  cpu : CpuField → Nat
  use32 : Nat
  stack32 : Nat
  cpuCurStatus : Nat
  ins : Nat
  insc : Nat

/-- `cmp_fields`. -/
def cmpFields : List CpuField :=
  [.regs, .tag, .flagsOp, .flagsRes, .flagsOp1, .flagsOp2, .pc, .TOP, .ismmx, .abrt, .npxs, .npxc,
    .ST, .MM, .segCs, .segDs, .segEs, .segSs, .segFs, .segGs, .CR0, .flags, .eflags, .smbase]

/-- `state_diff`. -/
def stateDiff (a b : CpuField → Nat) : Nat := cmpFields.countP fun field => a field ≠ b field

/-- `globals_equal`. -/
def globalsEqual (s t : OracleState) : Bool :=
  t.use32 = s.use32 ∧ t.stack32 = s.stack32 ∧ t.cpuCurStatus = s.cpuCurStatus

/-- What `journals_equal` compares of an entry. -/
def JEntry.key (j : JEntry) : Nat × AccessSize × BitVec 32 := (j.addr, j.size, j.newv)

/-- `journals_equal`. -/
def journalsEqual (a b : List JEntry) : Bool := a.map JEntry.key = b.map JEntry.key

/-! ## The machine -/

/-- What a piece of guest code does to memory: a write to RAM, or traffic with a device. -/
inductive Access : Type
  | write (addr : Nat) (size : AccessSize) (val : BitVec 32)
  | io

/-- A piece of guest code. -/
abbrev Body : Type := OracleState → Ram → List Access × OracleState

/-- The code that is not the oracle's. -/
structure Guest : Type where
  /-- The compiled block. -/
  code : Body
  /-- `fastreadl` at the program counter. -/
  fetch : OracleState → Ram → List Access × OracleState × BitVec 32
  /-- `x86_opcodes`. -/
  opcodes : Nat → BitVec 32 → Body
  /-- The address of `cpu_state.seg_ds`. -/
  segDs : Nat
  /-- `codegen_in_recompile`. -/
  inRecompile : Bool

/-- The fields of `codeblock_t` that the oracle reads. -/
structure OracleBlock : Type where
  oracleTaint : Bool
  ins : Nat

structure Machine : Type where
  st : OracleState
  ram : Ram
  /-- `wjit_oracle_phase`. -/
  phase : Nat
  taint : Bool
  journalA : List JEntry
  journalB : List JEntry
  blocksVerified : Nat
  blocksSkipped : Nat
  mismatch : Nat

namespace Machine

variable (m : Machine)

/-- `wjit_oracle_note_ram_write`. -/
def noteRamWrite (j : JEntry) : Machine :=
  if m.phase = 1 then
    if JOURNAL_MAX ≤ m.journalA.length then { m with taint := true }
    else { m with journalA := m.journalA ++ [j] }
  else
    if JOURNAL_MAX ≤ m.journalB.length then { m with taint := true }
    else { m with journalB := m.journalB ++ [j] }

/-- `mem_write_ramb_page`, `mem_write_ramw_page` and `mem_write_raml_page`. -/
def memWriteRamPage (inRecompile : Bool) (addr : Nat) (size : AccessSize) (val : BitVec 32) :
    Machine :=
  if size.trunc val ≠ size.read m.ram addr ∨ inRecompile = true then
    let noted := if m.phase ≠ 0 then
      m.noteRamWrite ⟨addr, size, size.read m.ram addr, size.trunc val⟩ else m
    { noted with ram := ramWriteRaw m.ram addr size (size.trunc val) }
  else m

/-- A write, or `wjit_oracle_note_io` while the oracle runs. -/
def access (inRecompile : Bool) : Access → Machine
  | .write addr size val => m.memWriteRamPage inRecompile addr size val
  | .io => if m.phase ≠ 0 then { m with taint := true } else m

/-- Guest code makes its accesses and leaves the processor. -/
def run (inRecompile : Bool) (as : List Access) (st : OracleState) : Machine :=
  { as.foldl (access · inRecompile) m with st := st }

end Machine

namespace Guest

variable (g : Guest)

/-- The registers as `interp_step` prepares them for an instruction. -/
def prepare (st : OracleState) : OracleState :=
  { st with cpu := fun field =>
      match field with
      | .oldpc => st.cpu .pc
      | .op32 => st.use32
      | .eaSeg => g.segDs
      | .ssegs => 0
      | field => st.cpu field }

/-- The handler of `interp_step`, after a fetch. -/
def dispatch (fetchdat : BitVec 32) (m : Machine) : Machine :=
  if m.st.cpu .abrt = 0 then
    let opcode := (fetchdat &&& 0xff).toNat
    let st := { m.st with
      cpu := Function.update m.st.cpu .pc ((m.st.cpu .pc + 1) % 2 ^ 32) }
    let done := g.opcodes ((opcode ||| st.cpu .op32) &&& 0x3ff) (fetchdat >>> 8) st m.ram
    m.run g.inRecompile done.1 done.2
  else m

/-- `interp_step`. -/
def interpStep (m : Machine) : Machine :=
  let fetched := g.fetch (g.prepare m.st) m.ram
  let m := g.dispatch fetched.2.2 (m.run g.inRecompile fetched.1 fetched.2.1)
  { m with st := { m.st with ins := m.st.ins + 1, insc := m.st.insc + 1 } }

/-- The block's run under journal A. -/
def jitRun (m : Machine) : Machine :=
  let m := { m with taint := false, journalA := [], phase := 1 }
  let done := g.code m.st m.ram
  { m.run g.inRecompile done.1 done.2 with phase := 0 }

end Guest

/-- How `codegen_wasm_oracle_exec` ends. -/
inductive Exit : Type
  /-- The block cannot be replayed: one instruction is interpreted. -/
  | interpreted
  /-- The block's run was tainted. -/
  | skipped
  /-- The replay was tainted. -/
  | abandoned
  /-- The replay reached the block's result. -/
  | verified
  /-- `oracle_dump_and_die`. -/
  | died
  deriving DecidableEq

/-- `oracle_dump_and_die`, which ends the program. -/
def dumpAndDie (m : Machine) : Exit × Machine :=
  (.died, { m with phase := 0, mismatch := m.mismatch + 1 })

/-- The loop of the replay, for the steps that are left. -/
def replay (g : Guest) (sjit : OracleState) : (steps : Nat) → Machine → Exit × Machine
  | 0, m => dumpAndDie m
  | steps + 1, m =>
      let m := g.interpStep m
      if m.taint then
        (.abandoned, { m with
          phase := 0
          st := sjit
          ram := reapply m.journalA m.ram
          blocksSkipped := m.blocksSkipped + 1 })
      else if m.st.cpu .abrt ≠ 0 ∧ sjit.cpu .abrt ≠ 0 ∧ m.st.cpu .oldpc ≠ sjit.cpu .oldpc then
        dumpAndDie m
      else if stateDiff sjit.cpu m.st.cpu = 0 ∧ globalsEqual sjit m.st = true ∧
          journalsEqual m.journalA m.journalB = true then
        (.verified, { m with phase := 0, blocksVerified := m.blocksVerified + 1 })
      else if m.st.cpu .abrt ≠ 0 then dumpAndDie m
      else replay g sjit steps m

def maxSteps (block : OracleBlock) : Nat := (if block.ins ≠ 0 then block.ins else 1) * 4096 + 64

/-- `codegen_wasm_oracle_exec`. -/
def oracleExec (g : Guest) (block : OracleBlock) (m : Machine) : Exit × Machine :=
  if block.oracleTaint then (.interpreted, g.interpStep m)
  else
    let jit := g.jitRun m
    if jit.taint then (.skipped, { jit with blocksSkipped := jit.blocksSkipped + 1 })
    else replay g jit.st (maxSteps block) { jit with
      ram := rollback jit.journalA jit.ram
      st := m.st
      journalB := []
      phase := 2 }

end PCemWeb.Codegen.Oracle
