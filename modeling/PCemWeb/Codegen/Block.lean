import Mathlib.Logic.Function.Basic
import Mathlib.Tactic.Common

/-!
# Code blocks

The dynamic recompiler keeps `BLOCK_SIZE` code blocks. Each is on the free list, on the dirty
list of recently invalidated blocks, or on the list of its first physical page and, when it
spans two pages, on the list of its second. The lists are threaded through the blocks by
16-bit block numbers, 0 ending a list.

The definitions follow `codegen_block.c`. Left out are the page tree, which shares no field
with the lists, the executable memory chunks of the allocator, which the wasm backend does
not write, and the consistency checks, which only stop a run. Addresses are 32-bit values
held as natural numbers.
-/

namespace PCemWeb.Codegen

/-- `BLOCK_SIZE`. -/
def blockSize : Nat := 0x4000

/-- `HASH_SIZE`. -/
def hashSize : Nat := 0x20000

/-- `BLOCK_PC_INVALID`. -/
def pcInvalid : Nat := 0xffffffff

/-- `DIRTY_LIST_MAX_SIZE`. -/
def dirtyListMaxSize : Nat := 64

/-- `codeblock_t.flags`. -/
structure BlockFlags where
  hasFpu : Bool
  staticTop : Bool
  wasRecompiled : Bool
  inFreeList : Bool
  hasPage2 : Bool
  byteMask : Bool
  inDirtyList : Bool
  noImmediates : Bool
  wasmNojit : Bool
  wasmIo : Bool
  deriving DecidableEq, Repr

/-- No flag. -/
def BlockFlags.none : BlockFlags :=
  ⟨false, false, false, false, false, false, false, false, false, false⟩

/-- What `dirty_mask` points to: a page's mask, or the byte mask of 64 of its bytes. -/
inductive MaskRef
  | page (page : Nat)
  | bytes (page offset : Nat)
  deriving DecidableEq, Repr

/-- `codeblock_t`. -/
structure CodeBlock where
  pc : Nat
  cs : Nat
  phys : Nat
  phys2 : Nat
  status : BitVec 16
  flags : BlockFlags
  top : Nat
  pageMask : BitVec 64
  pageMask2 : BitVec 64
  dirtyMask : Option MaskRef
  dirtyMask2 : Option MaskRef
  prev : Nat
  next : Nat
  prev2 : Nat
  next2 : Nat
  wasmFnIdx : Nat
  /-- Ghost: the number of the compilation the block last went into. -/
  build : Nat

/-- A block of zeros. -/
def CodeBlock.zero : CodeBlock :=
  ⟨0, 0, 0, 0, 0, .none, 0, 0, 0, none, none, 0, 0, 0, 0, 0, 0⟩

/-- `page_t`. -/
structure Page where
  block : Nat
  block2 : Nat
  codePresentMask : BitVec 64
  dirtyMask : BitVec 64
  byteCodePresentMask : Nat → BitVec 64
  byteDirtyMask : Nat → BitVec 64

def Page.zero : Page := ⟨0, 0, 0, 0, fun _ => 0, fun _ => 0⟩

/-- A compiled module: the block it was compiled for and the number of the compilation. -/
structure WasmModule where
  block : Nat
  build : Nat
  deriving DecidableEq, Repr

/-- The indirect function table and the two pools of slots in it. -/
structure WasmTable where
  /-- The module in each slot of the table. -/
  table : Nat → Option WasmModule
  /-- `wasmTable.length`. -/
  length : Nat
  /-- `free_slots`, the last one first. -/
  freeSlots : List Nat
  /-- `__jitState.free`: slots that other users of the table gave back. -/
  jsFree : List Nat

/-- The write lookup tables: which virtual pages are cached, and for each the offset from
virtual to host addresses in `writelookup2` or the page in `page_lookup`. -/
structure WriteLookup where
  writelookup : Nat → Option Nat
  writelookup2 : Nat → Option (BitVec 32)
  pageLookup : Nat → Option Nat

/-- The recompiler's static state. -/
structure Machine where
  block : Nat → CodeBlock
  hash : Nat → Nat
  page : Nat → Page
  freeList : Nat
  dirtyHead : Nat
  dirtyTail : Nat
  dirtyListSize : Nat
  blockCurrent : Nat
  /-- `recomp_page`, if a page is being recompiled. -/
  recompPage : Option Nat
  lookup : WriteLookup
  wasm : WasmTable
  /-- Ghost: the number of compilations so far. -/
  builds : Nat
  /-- `mem_size * 1024 >> 12`: the pages of installed memory. -/
  memPages : Nat

/-- `HASH(l)`. -/
def hashOf (phys : Nat) : Nat := phys % hashSize

/-- The number of the physical page of an address. -/
def pageOf (addr : Nat) : Nat := addr / 4096

/-! ## Masks -/

/-- The mask with the bits from `lo` to `hi`. -/
def maskBits (lo hi : Nat) : BitVec 64 :=
  (BitVec.allOnes 64 <<< lo) &&& (BitVec.allOnes 64 >>> (63 - hi))

/-- `codegen_mark_code_present` and `codegen_mark_code_present_multibyte`: units of one byte in
64, or of 64 bytes in a page. -/
def CodeBlock.markCodePresent (b : CodeBlock) (startPc len : Nat) : CodeBlock :=
  if len = 0 then b
  else
    let endPc := (startPc + (len - 1)) % 0x100000000
    let unit := if b.flags.byteMask then 1 else 64
    let start := startPc / unit % 64
    let end_ := endPc / unit % 64
    if startPc / (unit * 64) ≠ b.pc / (unit * 64) then
      { b with pageMask2 := b.pageMask2 ||| maskBits start end_ }
    else if endPc / (unit * 64) ≠ b.pc / (unit * 64) then
      { b with pageMask := b.pageMask ||| maskBits start 63
               pageMask2 := b.pageMask2 ||| maskBits 0 end_ }
    else { b with pageMask := b.pageMask ||| maskBits start end_ }

/-- Mark code present in a page's masks, at the granularity of the block. -/
def Page.present (q : Page) (byteMask : Bool) (phys : Nat) (mask : BitVec 64) : Page :=
  if byteMask then
    { q with byteCodePresentMask := fun c =>
        if c = phys / 64 % 64 then q.byteCodePresentMask c ||| mask else q.byteCodePresentMask c }
  else { q with codePresentMask := q.codePresentMask ||| mask }

/-- The dirty mask of the bytes around an address, at the granularity of the block. -/
def maskRefOf (byteMask : Bool) (phys : Nat) : MaskRef :=
  if byteMask then .bytes (pageOf phys) (phys / 64 % 64) else .page (pageOf phys)

/-! ## Slots of the function table -/

/-- How `codegen_backend_epilogue` ends: the emission or a check on it fails, the cost model
rejects the block for good or defers it, or the module is handed to the installer, which may
fail too. -/
inductive Epilogue
  | emitFails
  | nojit
  | deferIo
  | restructureFails
  | install (succeeds : Bool)
  deriving DecidableEq, Repr

/-- `wasm_jit_install_at`: the slot to reuse if there is one, else a slot given back on the
JavaScript side, else a new slot at the end of the table. -/
def WasmTable.installAt (w : WasmTable) (mod : WasmModule) (reuse : Nat) : Nat × WasmTable :=
  if 0 < reuse ∧ reuse < w.length then
    (reuse, { w with table := Function.update w.table reuse (some mod) })
  else
    match w.jsFree with
    | idx :: rest =>
      if reuse = 0 then
        (idx, { w with table := Function.update w.table idx (some mod), jsFree := rest })
      else
        (w.length, { w with table := Function.update w.table w.length (some mod),
                            length := w.length + 1 })
    | [] =>
      (w.length, { w with table := Function.update w.table w.length (some mod),
                          length := w.length + 1 })

/-- What `codegen_block_init` reads: the linear address `cs + pc`, `cs`, the physical address
and the CPU status, and what it finds when the free list is empty. -/
structure InitArgs where
  pc : Nat
  cs : Nat
  phys : Nat
  status : BitVec 16
  purgeHead : Nat
  rand : Nat

namespace Machine

/-- Write to one code block. -/
def modify (nr : Nat) (f : CodeBlock → CodeBlock) (m : Machine) : Machine :=
  { m with block := Function.update m.block nr (f (m.block nr)) }

/-- Write to one page's record. -/
def modifyPage (p : Nat) (f : Page → Page) (m : Machine) : Machine :=
  { m with page := Function.update m.page p (f (m.page p)) }

def setDirtyHead (nr : Nat) (m : Machine) : Machine := { m with dirtyHead := nr }

def setDirtyTail (nr : Nat) (m : Machine) : Machine := { m with dirtyTail := nr }

def setDirtyListSize (size : Nat) (m : Machine) : Machine := { m with dirtyListSize := size }

/-- Set or clear `CODEBLOCK_IN_DIRTY_LIST`. -/
def setInDirtyList (nr : Nat) (inDirtyList : Bool) (m : Machine) : Machine :=
  m.modify nr fun b => { b with flags := { b.flags with inDirtyList } }

/-- `codeblock_hash[HASH(phys)] = nr`. -/
def setHash (phys nr : Nat) (m : Machine) : Machine :=
  { m with hash := Function.update m.hash (hashOf phys) nr }

/-- `mem_flush_write_page`: cached virtual pages with the same offset, or on the same page's
slow path, are thrown out. -/
def flushWritePage (addr virt : Nat) (m : Machine) : Machine :=
  let offset := BitVec.ofNat 32 (pageOf addr * 4096) - BitVec.ofNat 32 (pageOf virt * 4096)
  let hit (v : Nat) : Bool :=
    m.lookup.writelookup2 v == some offset || m.lookup.pageLookup v == some (pageOf addr)
  let thrown (v : Nat) : Bool :=
    hit v && (List.range 256).any fun c => m.lookup.writelookup c == some v
  { m with lookup :=
    { writelookup := fun c => (m.lookup.writelookup c).filter fun v => !hit v
      writelookup2 := fun v => if thrown v then none else m.lookup.writelookup2 v
      pageLookup := fun v => if thrown v then none else m.lookup.pageLookup v } }

/-- The dirty mask a block's pointer refers to; a null pointer reads as no dirty byte. -/
def readMask (m : Machine) : Option MaskRef → BitVec 64
  | none => 0
  | some (.page p) => (m.page p).dirtyMask
  | some (.bytes p offset) => (m.page p).byteDirtyMask offset

/-! ## The wasm table slot of a block -/

/-- `codegen_wasm_free_block`. -/
def wasmFreeBlock (nr : Nat) (m : Machine) : Machine :=
  let idx := (m.block nr).wasmFnIdx
  if idx = 0 then m
  else
    let m := m.modify nr ({ · with wasmFnIdx := 0 })
    if m.wasm.freeSlots.length < blockSize then
      { m with wasm := { m.wasm with freeSlots := idx :: m.wasm.freeSlots } }
    else m

/-! ## Free list and dirty list -/

/-- `block_free_list_add`. -/
def blockFreeListAdd (nr : Nat) (m : Machine) : Machine :=
  let next := m.freeList
  { m with freeList := nr }.modify nr
    ({ · with next, flags := { BlockFlags.none with inFreeList := true } })

/-- `delete_dirty_block`. -/
def deleteDirtyBlock (nr : Nat) (m : Machine) : Machine :=
  let phys := (m.block nr).phys
  let m := if m.hash (hashOf phys) = nr then m.setHash phys 0 else m
  let m := m.modify nr ({ · with pc := pcInvalid })
  (m.wasmFreeBlock nr).blockFreeListAdd nr

/-- The tail leaves the dirty list, as `block_dirty_list_add` unlinks it. -/
def dropDirtyTail (m : Machine) : Machine :=
  let evict := m.dirtyTail
  let prev := (m.block evict).prev
  let m := (m.setDirtyTail prev).modify prev ({ · with next := 0 })
  (m.setDirtyListSize (m.dirtyListSize - 1)).setInDirtyList evict false

/-- The eviction of the oldest dirty block in `block_dirty_list_add`. -/
def evictDirtyTail (m : Machine) : Machine :=
  m.dropDirtyTail.deleteDirtyBlock m.dirtyTail

/-- The tail leaves the dirty list, as `block_free_list_get` unlinks it. -/
def takeDirtyTail (m : Machine) : Machine :=
  let nr := m.dirtyTail
  let prev := (m.block nr).prev
  let m := m.setDirtyTail prev
  let m := if prev = 0 then m.setDirtyHead 0 else m.modify prev ({ · with next := 0 })
  (m.setDirtyListSize (m.dirtyListSize - 1)).setInDirtyList nr false

/-- The first part of `block_dirty_list_add`: the block becomes the head. -/
def pushDirty (nr : Nat) (m : Machine) : Machine :=
  let head := m.dirtyHead
  let m :=
    if head ≠ 0 then
      ((m.setDirtyHead nr).modify nr ({ · with next := head, prev := 0 })).modify head
        ({ · with prev := nr })
    else
      ((m.setDirtyHead nr).setDirtyTail nr).modify nr ({ · with next := 0, prev := 0 })
  (m.setDirtyListSize (m.dirtyListSize + 1)).setInDirtyList nr true

/-- `block_dirty_list_add`. -/
def blockDirtyListAdd (nr : Nat) (m : Machine) : Machine :=
  let m := m.pushDirty nr
  if dirtyListMaxSize < m.dirtyListSize then m.evictDirtyTail else m

/-- `block_dirty_list_remove`. -/
def blockDirtyListRemove (nr : Nat) (m : Machine) : Machine :=
  let prev := (m.block nr).prev
  let next := (m.block nr).next
  let m := if prev = 0 then m.setDirtyHead next else m.modify prev ({ · with next })
  let m := if next = 0 then m.setDirtyTail prev else m.modify next ({ · with prev })
  (m.setDirtyListSize (m.dirtyListSize - 1)).setInDirtyList nr false

/-! ## Page lists -/

/-- The first half of `add_to_block_list`: the list of the first page. -/
def addToPage (nr : Nat) (m : Machine) : Machine :=
  let p := pageOf (m.block nr).phys
  let head := (m.page p).block
  let m := m.modify nr ({ · with next := head })
  let m := if head ≠ 0 then m.modify head ({ · with prev := nr }) else m
  m.modifyPage p ({ · with block := nr })

/-- The second half of `add_to_block_list`: the list of the second page. -/
def addToPage2 (nr : Nat) (m : Machine) : Machine :=
  let p := pageOf (m.block nr).phys2
  let head := (m.page p).block2
  let m := m.modify nr ({ · with next2 := head })
  let m := if head ≠ 0 then m.modify head ({ · with prev2 := nr }) else m
  m.modifyPage p ({ · with block2 := nr })

/-- Set or clear `CODEBLOCK_HAS_PAGE2`. -/
def setHasPage2 (nr : Nat) (hasPage2 : Bool) (m : Machine) : Machine :=
  m.modify nr fun b => { b with flags := { b.flags with hasPage2 } }

/-- `add_to_block_list`. -/
def addToBlockList (nr : Nat) (m : Machine) : Machine :=
  let m := m.addToPage nr
  if (m.block nr).pageMask2 ≠ 0 then (m.setHasPage2 nr true).addToPage2 nr else m

/-- The first half of `remove_from_block_list`: the list of the first page. -/
def removeFromPage (nr : Nat) (m : Machine) : Machine :=
  let phys := (m.block nr).phys
  let prev := (m.block nr).prev
  let next := (m.block nr).next
  if prev ≠ 0 then
    let m := m.modify prev ({ · with next })
    if next ≠ 0 then m.modify next ({ · with prev }) else m
  else
    let m := m.modifyPage (pageOf phys) ({ · with block := next })
    if next ≠ 0 then m.modify next ({ · with prev := 0 }) else m.flushWritePage phys 0

/-- The second half of `remove_from_block_list`: the list of the second page. -/
def removeFromPage2 (nr : Nat) (m : Machine) : Machine :=
  let phys2 := (m.block nr).phys2
  let prev2 := (m.block nr).prev2
  let next2 := (m.block nr).next2
  if prev2 ≠ 0 then
    let m := m.modify prev2 ({ · with next2 })
    if next2 ≠ 0 then m.modify next2 ({ · with prev2 }) else m
  else
    let m := m.modifyPage (pageOf phys2) ({ · with block2 := next2 })
    if next2 ≠ 0 then m.modify next2 ({ · with prev2 := 0 }) else m.flushWritePage phys2 0

/-- `remove_from_block_list`. -/
def removeFromBlockList (nr : Nat) (m : Machine) : Machine :=
  if (m.block nr).pageMask = 0 then m
  else
    let m := m.removeFromPage nr
    if (m.block nr).flags.hasPage2 then (m.setHasPage2 nr false).removeFromPage2 nr else m

/-! ## Invalidating and deleting -/

/-- `invalidate_block`. -/
def invalidateBlock (nr : Nat) (m : Machine) : Machine :=
  ((m.removeFromBlockList nr).blockDirtyListAdd nr).wasmFreeBlock nr

/-- `delete_block`. -/
def deleteBlock (nr : Nat) (m : Machine) : Machine :=
  let phys := (m.block nr).phys
  let m := if m.hash (hashOf phys) = nr then m.setHash phys 0 else m
  let m := m.modify nr ({ · with pc := pcInvalid })
  let m := if (m.block nr).flags.inDirtyList then m.blockDirtyListRemove nr
    else m.removeFromBlockList nr
  (m.wasmFreeBlock nr).blockFreeListAdd nr

/-- `codegen_delete_block`. -/
def codegenDeleteBlock (nr : Nat) (m : Machine) : Machine :=
  if (m.block nr).pc ≠ pcInvalid then m.deleteBlock nr else m

/-- The block `codegen_delete_random_block` settles on, trying at most `fuel` numbers from
`nr` on. -/
def randomVictim (m : Machine) : (fuel nr : Nat) → Option Nat
  | 0, _ => none
  | fuel + 1, nr =>
    if nr ≠ 0 ∧ nr ≠ m.blockCurrent ∧ (m.block nr).pc ≠ pcInvalid then some nr
    else m.randomVictim fuel ((nr + 1) % blockSize)

/-- The loop over the first-page list in `codegen_check_flush`; a list holds fewer than
`fuel` blocks. -/
def flushPageList : (fuel nr : Nat) → Machine → Machine
  | 0, _, m => m
  | fuel + 1, nr, m =>
    if nr = 0 then m
    else
      let b := m.block nr
      let m := if m.readMask b.dirtyMask &&& b.pageMask ≠ 0 then m.invalidateBlock nr else m
      flushPageList fuel b.next m

/-- The loop over the second-page list in `codegen_check_flush`. -/
def flushPageList2 : (fuel nr : Nat) → Machine → Machine
  | 0, _, m => m
  | fuel + 1, nr, m =>
    if nr = 0 then m
    else
      let b := m.block nr
      let m := if m.readMask b.dirtyMask2 &&& b.pageMask2 ≠ 0 then m.invalidateBlock nr else m
      flushPageList2 fuel b.next2 m

/-- `codegen_check_flush`. -/
def codegenCheckFlush (p : Nat) (m : Machine) : Machine :=
  let m := m.flushPageList blockSize (m.page p).block
  let m := m.flushPageList2 blockSize (m.page p).block2
  m.modifyPage p fun q =>
    { q with
      codePresentMask := q.codePresentMask &&& ~~~q.dirtyMask
      dirtyMask := 0
      byteCodePresentMask := fun c =>
        if c < 64 then q.byteCodePresentMask c &&& ~~~q.byteDirtyMask c
        else q.byteCodePresentMask c
      byteDirtyMask := fun c => if c < 64 then 0 else q.byteDirtyMask c }

/-- `codegen_purge_purgable_list`, with the page at the head of the purgeable list. -/
def codegenPurge (head : Nat) (m : Machine) : Machine :=
  if head ≠ 0 ∧ (m.page head).codePresentMask &&& (m.page head).dirtyMask ≠ 0 then
    m.codegenCheckFlush head
  else m

/-- The loop of `block_free_list_get` that refills the free list: from the oldest dirty block,
else by a purge, else by deleting a block at random. Each of the three leaves the free list
non-empty, so the loop runs once. -/
def refillFreeList (purgeHead rand : Nat) (m : Machine) : Option Machine :=
  if m.dirtyTail ≠ 0 then
    some { m.takeDirtyTail.deleteDirtyBlock m.dirtyTail with freeList := m.dirtyTail }
  else
    let m := m.codegenPurge purgeHead
    if m.freeList ≠ 0 then some m
    else (m.randomVictim blockSize (rand % blockSize)).map (m.deleteBlock ·)

/-- `block_free_list_get`. -/
def blockFreeListGet (purgeHead rand : Nat) (m : Machine) : Option (Nat × Machine) :=
  (if m.freeList = 0 then m.refillFreeList purgeHead rand else some m).map fun m =>
    let nr := m.freeList
    (nr, { m with freeList := (m.block nr).next }.modify nr fun b =>
      { b with next := 0, flags := { b.flags with inFreeList := false } })

/-! ## The life of a block -/

/-- `codegen_block_init`. -/
def codegenBlockInit (a : InitArgs) (m : Machine) : Option Machine :=
  let m := if (m.page (pageOf a.phys)).block = 0 then m.flushWritePage a.phys a.pc else m
  (m.blockFreeListGet a.purgeHead a.rand).map fun (nr, m) =>
    { m with blockCurrent := nr, recompPage := some (pageOf a.phys) }.setHash a.phys nr
      |>.modify nr fun b =>
        { b with
          pc := a.pc
          cs := a.cs
          phys := a.phys
          dirtyMask := some (.page (pageOf a.phys))
          dirtyMask2 := none
          next := 0
          prev := 0
          next2 := 0
          prev2 := 0
          pageMask := 0
          pageMask2 := 0
          flags := { BlockFlags.none with staticTop := true }
          status := a.status }

/-- `codegen_block_generate_end_mask_mark`, with the physical address of `codegen_endpc` if
`get_phys_noabrt` finds one. -/
def generateEndMaskMark (endpc : Nat) (endPhys : Option Nat) (m : Machine) : Machine :=
  let nr := m.blockCurrent
  let pc := (m.block nr).pc
  let crosses := pageOf pc ≠ pageOf endpc
  let startPc := pc % 4096 / 64 * 64
  let endPc := if crosses then 4095 / 64 * 64 else endpc % 4096 / 64 * 64
  let endPc := if endPc < startPc then 4095 else endPc
  let mask := maskBits (startPc / 64) (endPc / 64)
  let m := m.modify nr ({ · with pageMask := mask, phys2 := 0xffffffff, pageMask2 := 0,
                                 next2 := 0, prev2 := 0 })
  let m := m.modifyPage (pageOf (m.block nr).phys) fun q =>
    { q with codePresentMask := q.codePresentMask ||| mask }
  let m :=
    if crosses then
      match endPhys with
      | none => m
      | some phys2 =>
        let mask2 := maskBits 0 (endpc % 4096 / 64)
        let p2 := pageOf phys2
        let m := m.modify nr ({ · with phys2, pageMask2 := mask2, dirtyMask2 := some (.page p2) })
        let m := m.modifyPage p2 fun q =>
          { q with codePresentMask := q.codePresentMask ||| mask2 }
        if (m.page p2).block2 = 0 then m.flushWritePage phys2 endpc else m
    else m
  { m with recompPage := none }

/-- `codegen_block_end`. -/
def codegenBlockEnd (endpc : Nat) (endPhys : Option Nat) (m : Machine) : Machine :=
  let m := m.generateEndMaskMark endpc endPhys
  m.addToBlockList m.blockCurrent

/-- `codegen_block_remove`. -/
def codegenBlockRemove (m : Machine) : Machine :=
  { m.deleteBlock m.blockCurrent with recompPage := none }

/-- `codegen_block_start_recompile`; the allocator may first delete other blocks. -/
def codegenBlockStartRecompile (nr : Nat) (status : BitVec 16) (top : Nat)
    (victims : List Nat) (m : Machine) : Machine :=
  let b := m.block nr
  let m := if (m.page (pageOf b.phys)).block = 0 then m.flushWritePage b.phys b.pc else m
  let m := { m with blockCurrent := nr }
  let m := victims.foldl (fun m v => if v ≠ nr then m.codegenDeleteBlock v else m) m
  { m with recompPage := some (pageOf b.phys), builds := m.builds + 1 }.modify nr fun b =>
    let b := { b with
      status
      top
      pageMask := 0
      pageMask2 := 0
      flags := { b.flags with wasRecompiled := true }
      build := m.builds }
    if b.flags.byteMask then
      { b with dirtyMask := some (.bytes (pageOf b.phys) (b.phys / 64 % 64)), dirtyMask2 := none }
    else b

/-- `codegen_block_generate_end_mask_recompile`. -/
def generateEndMaskRecompile (endpc : Nat) (endPhys : Option Nat) (m : Machine) : Machine :=
  let nr := m.blockCurrent
  let b := m.block nr
  let m := m.modifyPage (pageOf b.phys) (Page.present · b.flags.byteMask b.phys b.pageMask)
  let m := m.modify nr ({ · with phys2 := 0xffffffff, next2 := 0, prev2 := 0 })
  let m :=
    if b.pageMask2 ≠ 0 then
      match endPhys with
      | none => m.modify nr ({ · with pageMask2 := 0 })
      | some phys2 =>
        let p2 := pageOf phys2
        let m := m.modifyPage p2 (Page.present · b.flags.byteMask phys2 b.pageMask2)
        let m := m.modify nr
          ({ · with phys2, dirtyMask2 := some (maskRefOf b.flags.byteMask phys2) })
        if (m.page p2).block2 = 0 then m.flushWritePage phys2 endpc else m
    else m
  { m with recompPage := none }

/-- The `fail` exit of `codegen_backend_epilogue`. -/
def epilogueFail (nr : Nat) (m : Machine) : Machine :=
  m.modify nr fun b => { b with wasmFnIdx := 0, flags := { b.flags with wasRecompiled := false } }

/-- `codegen_backend_epilogue`. -/
def codegenBackendEpilogue (nr : Nat) (outcome : Epilogue) (m : Machine) : Machine :=
  let m := m.wasmFreeBlock nr
  match outcome with
  | .emitFails | .restructureFails => m.epilogueFail nr
  | .nojit =>
    m.modify nr fun b =>
      { b with wasmFnIdx := 0, flags := { b.flags with wasRecompiled := false, wasmNojit := true } }
  | .deferIo =>
    m.modify nr fun b =>
      { b with wasmFnIdx := 0, flags := { b.flags with wasRecompiled := false, wasmIo := true } }
  | .install succeeds =>
    let reuse := m.wasm.freeSlots.headD 0
    let m := { m with wasm := { m.wasm with freeSlots := m.wasm.freeSlots.tail } }
    if succeeds then
      let (idx, wasm) := m.wasm.installAt ⟨nr, (m.block nr).build⟩ reuse
      { m with wasm }.modify nr ({ · with wasmFnIdx := idx })
    else m.epilogueFail nr

/-- `codegen_block_end_recompile`, with whether the block used the FPU. -/
def codegenBlockEndRecompile (nr endpc : Nat) (endPhys : Option Nat) (usesFpu : Bool)
    (outcome : Epilogue) (m : Machine) : Machine :=
  let m := m.modify nr fun b =>
    { b with flags := { b.flags with hasFpu := b.flags.hasFpu || usesFpu } }
  let m := if (m.block nr).flags.inDirtyList then m.blockDirtyListRemove nr
    else m.removeFromBlockList nr
  let m := m.modify nr ({ · with next := 0, prev := 0, next2 := 0, prev2 := 0 })
  let m := (m.generateEndMaskRecompile endpc endPhys).addToBlockList nr
  let m := m.modify nr fun b =>
    if b.flags.hasFpu then b else { b with flags := { b.flags with staticTop := false } }
  m.codegenBackendEpilogue nr outcome

/-! ## Initialisation and reset -/

/-- The free list of blocks 0 to `n - 1`, each pushed in turn. -/
def pushFree : Nat → Machine → Machine
  | 0, m => m
  | n + 1, m => (pushFree n m).modify n ({ · with pc := pcInvalid }) |>.blockFreeListAdd n

/-- The loop of `codegen_reset` over the blocks from `c` on. -/
def deleteAll : (fuel c : Nat) → Machine → Machine
  | 0, _, m => m
  | fuel + 1, c, m =>
    let m :=
      if (m.block c).pc ≠ pcInvalid then
        (m.modify c ({ · with phys := 0, phys2 := 0 })).deleteBlock c
      else m
    deleteAll fuel (c + 1) m

/-- `mem_reset_page_blocks`. -/
def memResetPageBlocks (m : Machine) : Machine :=
  { m with page := fun p =>
      if p < m.memPages then { m.page p with block := 0, block2 := 0 } else m.page p }

/-- `codegen_reset`. -/
def codegenReset (m : Machine) : Machine :=
  let m := m.deleteAll (blockSize - 1) 1
  let m := { m with block := fun _ => .zero, hash := fun _ => 0 }.memResetPageBlocks
  { m with freeList := 0 }.pushFree blockSize

/-- `codegen_init`, over freshly allocated pages and the table at that time. -/
def codegenInit (lookup : WriteLookup) (wasm : WasmTable) (memPages : Nat) : Machine :=
  pushFree blockSize
    { block := fun _ => .zero
      hash := fun _ => 0
      page := fun _ => .zero
      freeList := 0
      dirtyHead := 0
      dirtyTail := 0
      dirtyListSize := 0
      blockCurrent := 0
      recompPage := none
      lookup, wasm, builds := 0, memPages }

end Machine

end PCemWeb.Codegen
