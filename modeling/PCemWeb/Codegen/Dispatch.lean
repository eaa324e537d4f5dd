import PCemWeb.Codegen.Block

/-!
# The dispatcher

`exec_recompiler` looks the current address up, flushes the pages of a dirty block, then runs
the block's compiled code, compiles it, or marks a new block while it interprets. Marking and
compiling last for a stretch of guest instructions, and end with the block's end, an abort
that removes it, or a reset of the processor. Steps between those phases are in any order the
guest causes.
-/

namespace PCemWeb.Codegen

/-- Whether a block is being marked or compiled, with `block_current` as its number. -/
inductive Phase
  | idle
  | marking
  | recompiling
  deriving DecidableEq, Repr

structure Dynarec where
  machine : Machine
  phase : Phase

/-- What the dispatcher compares with a block: the linear address `cs + pc`, `cs`, the
physical address and `cpu_cur_status`. -/
structure Lookup where
  pc : Nat
  cs : Nat
  phys : Nat
  status : BitVec 16

/-- `valid_block`: address and code segment agree, and so do the status flags the code was
compiled for. -/
def CodeBlock.valid (b : CodeBlock) (a : Lookup) : Bool :=
  b.pc = a.pc && b.cs = a.cs && b.phys = a.phys &&
    (b.status ^^^ a.status) &&& 0xff = 0 &&
    b.status &&& a.status &&& 0xff00 = a.status &&& 0xff00

/-- The block the hash table holds for an address. -/
def Machine.hashed (m : Machine) (a : Lookup) : Nat := m.hash (hashOf a.phys)

inductive Label
  /-- The page tree holds a valid block: the hash table is set to it. -/
  | select (a : Lookup) (nr : Nat)
  /-- A dirty page's blocks are flushed. -/
  | checkFlush (page : Nat)
  /-- A valid block on the dirty list is to be compiled for smaller changes to its page. -/
  | demote (a : Lookup)
  /-- A compiled block is entered with another FPU stack top. -/
  | topMismatch (a : Lookup)
  /-- No valid block: a new one is marked. -/
  | init (a : InitArgs)
  /-- The marked block ends. -/
  | blockEnd (endpc : Nat) (endPhys : Option Nat)
  /-- A valid block is compiled; the allocator may delete other blocks for it. -/
  | startRecompile (a : Lookup) (top : Nat) (victims : List Nat)
  /-- Code of the compiled block is recorded in its masks. -/
  | markCode (startPc len : Nat)
  /-- The compiled block ends. -/
  | endRecompile (endpc : Nat) (endPhys : Option Nat) (usesFpu : Bool) (outcome : Epilogue)
  /-- An abort ends the marked or compiled block. -/
  | blockRemove
  /-- The processor is reset. -/
  | reset
  /-- Guest writes dirty bytes of a page. -/
  | write (page : Nat) (dirty : BitVec 64) (byteDirty : Nat → BitVec 64)

/-- `CODEBLOCK_WAS_RECOMPILED` is cleared and the block's granularity becomes finer. -/
def CodeBlock.demote (b : CodeBlock) : CodeBlock :=
  { b with flags :=
    if b.flags.byteMask then { b.flags with wasRecompiled := false, noImmediates := true }
    else { b.flags with wasRecompiled := false, byteMask := true } }

namespace Dynarec

/-- One step of the dispatcher or of the guest. -/
def step (s : Dynarec) : Label → Option Dynarec
  | .select a nr =>
    if s.phase = .idle ∧ nr < blockSize ∧ (s.machine.block nr).valid a then
      some { s with machine := s.machine.setHash a.phys nr }
    else none
  | .checkFlush p =>
    if s.phase = .idle then some { s with machine := s.machine.codegenCheckFlush p } else none
  | .demote a =>
    let nr := s.machine.hashed a
    if s.phase = .idle ∧ (s.machine.block nr).valid a ∧ (s.machine.block nr).flags.inDirtyList then
      some { s with machine := s.machine.modify nr CodeBlock.demote }
    else none
  | .topMismatch a =>
    let nr := s.machine.hashed a
    if s.phase = .idle ∧ (s.machine.block nr).valid a then
      some { s with machine := s.machine.modify nr fun b =>
        { b with flags := { b.flags with staticTop := false, wasRecompiled := false } } }
    else none
  | .init a =>
    if s.phase = .idle then (s.machine.codegenBlockInit a).map (⟨·, .marking⟩) else none
  | .blockEnd endpc endPhys =>
    if s.phase = .marking then some ⟨s.machine.codegenBlockEnd endpc endPhys, .idle⟩ else none
  | .startRecompile a top victims =>
    let nr := s.machine.hashed a
    if s.phase = .idle ∧ (s.machine.block nr).valid a ∧
        (s.machine.block nr).flags.wasRecompiled = false ∧ ∀ v ∈ victims, v < blockSize then
      some ⟨s.machine.codegenBlockStartRecompile nr a.status top victims, .recompiling⟩
    else none
  | .markCode startPc len =>
    if s.phase = .recompiling then
      some { s with machine :=
        s.machine.modify s.machine.blockCurrent (CodeBlock.markCodePresent · startPc len) }
    else none
  | .endRecompile endpc endPhys usesFpu outcome =>
    if s.phase = .recompiling then
      some ⟨s.machine.codegenBlockEndRecompile s.machine.blockCurrent endpc endPhys usesFpu outcome,
        .idle⟩
    else none
  | .blockRemove =>
    if s.phase = .idle then none else some ⟨s.machine.codegenBlockRemove, .idle⟩
  | .reset => some ⟨s.machine.codegenReset, .idle⟩
  | .write p dirty byteDirty =>
    some { s with machine := s.machine.modifyPage p fun q =>
      { q with dirtyMask := q.dirtyMask ||| dirty
               byteDirtyMask := fun c => q.byteDirtyMask c ||| byteDirty c } }

/-- The state after `codegen_init`. -/
def init (lookup : WriteLookup) (wasm : WasmTable) (memPages : Nat) : Dynarec :=
  ⟨.codegenInit lookup wasm memPages, .idle⟩

end Dynarec

end PCemWeb.Codegen
