import PCemWeb.Codegen.Dispatch

/-!
# Memory blocks

A code block is compiled into blocks of executable memory, a chain that `head_mem_block` points
to. The allocator keeps the others on its free list. The wasm backend emits nothing into them, so a
chain stays at the one block that `codegen_block_start_recompile` allocates, but the bookkeeping
runs all the same.

The allocator follows `codegen_allocator.c`. What invalidating and deleting code blocks gives back
is computed beside the operations of `Machine`, which say which code blocks these are.
-/

namespace PCemWeb.Codegen

/-- `MEM_BLOCK_NR` of the wasm build. -/
def memBlockNr : Nat := 0x8000

/-- `mem_block_t`, without the offset of its memory. -/
structure MemBlock where
  next : Nat
  codeBlock : Nat

/-- The allocator and `head_mem_block` of every code block. Memory blocks are numbered from 1,
and 0 ends a list or stands for a null pointer. -/
structure MemPool where
  memBlock : Nat → MemBlock
  freeList : Nat
  headMemBlock : Nat → Nat

namespace MemPool

/-- `codegen_allocator_init`, with every `head_mem_block` null. -/
def codegenAllocatorInit : MemPool where
  memBlock nr := ⟨if nr < memBlockNr then nr + 1 else 0, 0⟩
  freeList := 1
  headMemBlock _ := 0

/-- Write to one memory block. -/
def setMemBlock (nr : Nat) (b : MemBlock) (p : MemPool) : MemPool :=
  { p with memBlock := Function.update p.memBlock nr b }

/-- `head_mem_block` of one code block is set. -/
def setHead (nr head : Nat) (p : MemPool) : MemPool :=
  { p with headMemBlock := Function.update p.headMemBlock nr head }

/-- `codegen_allocator_allocate` once the free list is not empty; `parent` is 0 for a new chain. -/
def takeFree (parent codeBlock : Nat) (p : MemPool) : Nat × MemPool :=
  let nr := p.freeList
  let p := { p with freeList := (p.memBlock nr).next }
  if parent ≠ 0 then
    let p := p.setMemBlock nr ⟨(p.memBlock parent).next, codeBlock⟩
    (nr, p.setMemBlock parent { p.memBlock parent with next := nr })
  else (nr, p.setMemBlock nr ⟨0, codeBlock⟩)

/-- The loop of `codegen_allocator_free`; a chain has fewer than `fuel` blocks. -/
def freeChain : (fuel nr : Nat) → MemPool → MemPool
  | 0, _, p => p
  | fuel + 1, nr, p =>
    let next := (p.memBlock nr).next
    let p := { p with freeList := nr }.setMemBlock nr ⟨p.freeList, 0⟩
    if next ≠ 0 then freeChain fuel next p else p

/-- `codegen_allocator_free`. -/
def codegenAllocatorFree (nr : Nat) (p : MemPool) : MemPool := freeChain memBlockNr nr p

/-- `invalidate_block` and `delete_block` give the memory of a code block back. -/
def release (p : MemPool) (nr : Nat) : MemPool :=
  let p := if p.headMemBlock nr ≠ 0 then p.codegenAllocatorFree (p.headMemBlock nr) else p
  p.setHead nr 0

/-- `codegen_delete_block`. -/
def codegenDeleteBlock (m : Machine) (nr : Nat) (p : MemPool) : MemPool :=
  if (m.block nr).pc ≠ pcInvalid then p.release nr else p

/-- The loop of `codegen_allocator_allocate` that waits for a free memory block, over the numbers
`rand` returns: the code blocks it passes to `codegen_delete_block`, and the pool after it. -/
def waitForFree (codeBlock : Nat) : (rands : List Nat) → Machine → MemPool →
    Option (List Nat × MemPool)
  | [], _, p => if p.freeList ≠ 0 then some ([], p) else none
  | rand :: rands, m, p =>
    if p.freeList ≠ 0 then some ([], p)
    else
      -- The number is masked as an index into `mem_blocks`, which is one below a block's number.
      let owner := (p.memBlock (rand % memBlockNr + 1)).codeBlock
      if owner ≠ 0 ∧ owner ≠ codeBlock then
        (waitForFree codeBlock rands (m.codegenDeleteBlock owner)
          (p.codegenDeleteBlock m owner)).map fun (victims, p) => (owner :: victims, p)
      else waitForFree codeBlock rands m p

end MemPool

/-! ## Which code blocks are invalidated or deleted -/

namespace Machine

/-- The blocks `flushPageList` invalidates. -/
def flushedPageList : (fuel nr : Nat) → Machine → List Nat
  | 0, _, _ => []
  | fuel + 1, nr, m =>
    if nr = 0 then []
    else
      let b := m.block nr
      if m.readMask b.dirtyMask &&& b.pageMask ≠ 0 then
        nr :: flushedPageList fuel b.next (m.invalidateBlock nr)
      else flushedPageList fuel b.next m

/-- The blocks `flushPageList2` invalidates. -/
def flushedPageList2 : (fuel nr : Nat) → Machine → List Nat
  | 0, _, _ => []
  | fuel + 1, nr, m =>
    if nr = 0 then []
    else
      let b := m.block nr
      if m.readMask b.dirtyMask2 &&& b.pageMask2 ≠ 0 then
        nr :: flushedPageList2 fuel b.next2 (m.invalidateBlock nr)
      else flushedPageList2 fuel b.next2 m

/-- The blocks `codegenCheckFlush` invalidates. -/
def flushed (p : Nat) (m : Machine) : List Nat :=
  let m' := m.flushPageList blockSize (m.page p).block
  m.flushedPageList blockSize (m.page p).block ++
    m'.flushedPageList2 blockSize (m'.page p).block2

/-- The blocks `codegenPurge` invalidates. -/
def purged (head : Nat) (m : Machine) : List Nat :=
  if head ≠ 0 ∧ (m.page head).codePresentMask &&& (m.page head).dirtyMask ≠ 0 then m.flushed head
  else []

/-- The blocks `refillFreeList` invalidates or deletes with `delete_block`. A block taken from the
dirty list goes through `delete_dirty_block`, which gives no memory back. -/
def refilled (purgeHead rand : Nat) (m : Machine) : List Nat :=
  if m.dirtyTail ≠ 0 then []
  else
    let m' := m.codegenPurge purgeHead
    m.purged purgeHead ++
      if m'.freeList ≠ 0 then [] else (m'.randomVictim blockSize (rand % blockSize)).toList

/-- The blocks `codegenBlockInit` invalidates or deletes. -/
def evicted (a : InitArgs) (m : Machine) : List Nat :=
  let m := if (m.page (pageOf a.phys)).block = 0 then m.flushWritePage a.phys a.pc else m
  if m.freeList = 0 then m.refilled a.purgeHead a.rand else []

/-- The blocks `deleteAll` deletes. -/
def deletedAll : (fuel c : Nat) → Machine → List Nat
  | 0, _, _ => []
  | fuel + 1, c, m =>
    if (m.block c).pc ≠ pcInvalid then
      c :: deletedAll fuel (c + 1) ((m.modify c ({ · with phys := 0, phys2 := 0 })).deleteBlock c)
    else deletedAll fuel (c + 1) m

end Machine

/-! ## The dispatcher with its memory -/

/-- The recompiler's state with the allocator's. -/
structure Recompiler where
  dynarec : Dynarec
  pool : MemPool

inductive MemLabel
  /-- A valid block is compiled, with the numbers `rand` returns to the allocator. -/
  | startRecompile (a : Lookup) (top : Nat) (rands : List Nat)
  /-- Any other step of the dispatcher or of the guest. -/
  | other (l : Label)

namespace Recompiler

/-- The pool after the other steps. -/
def poolAfter (s : Recompiler) : Label → MemPool
  | .checkFlush p => (s.dynarec.machine.flushed p).foldl MemPool.release s.pool
  | .init a => (s.dynarec.machine.evicted a).foldl MemPool.release s.pool
  | .blockRemove => s.pool.release s.dynarec.machine.blockCurrent
  | .reset =>
    -- `memset` clears every `head_mem_block`.
    { (s.dynarec.machine.deletedAll (blockSize - 1) 1).foldl MemPool.release s.pool with
      headMemBlock := fun _ => 0 }
  | .select _ _ | .demote _ | .topMismatch _ | .blockEnd _ _ | .startRecompile _ _ _
  | .markCode _ _ | .endRecompile _ _ _ _ | .write _ _ _ => s.pool

/-- The machine that `codegen_block_start_recompile` calls the allocator in. -/
def enterRecompile (nr : Nat) (m : Machine) : Machine :=
  let b := m.block nr
  let m := if (m.page (pageOf b.phys)).block = 0 then m.flushWritePage b.phys b.pc else m
  { m with blockCurrent := nr }

/-- One step of the dispatcher or of the guest. -/
def step (s : Recompiler) : MemLabel → Option Recompiler
  | .startRecompile a top rands =>
    let nr := s.dynarec.machine.hashed a
    (s.pool.waitForFree nr rands (enterRecompile nr s.dynarec.machine)).bind fun (victims, pool) =>
      let (head, pool) := pool.takeFree 0 nr
      (s.dynarec.step (.startRecompile a top victims)).map (⟨·, pool.setHead nr head⟩)
  | .other (.startRecompile _ _ _) => none
  | .other l => (s.dynarec.step l).map (⟨·, s.poolAfter l⟩)

/-- The state after `codegen_init`. -/
def init (lookup : WriteLookup) (wasm : WasmTable) (memPages : Nat) : Recompiler :=
  ⟨.init lookup wasm memPages, .codegenAllocatorInit⟩

end Recompiler

end PCemWeb.Codegen
