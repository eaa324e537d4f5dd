import PCemWeb.Lib.LinkedList
import PCemWeb.Lib.Run

/-!
# The evict list

Pages where a dirty bit has met a code-present bit wait in the evict list until they are flushed.
The list is threaded through the pages by their numbers: `evict_prev` is `EVICT_NOT_IN_LIST` for a
page outside the list, and 0 ends the list on both sides. Bits stand for 64 bytes of a page in the
page's masks and for one byte in its byte masks.

The writes here are those within a page; the callers split the others. `codegen_check_flush`
also invalidates blocks, which touches no mask and no link of the list.
-/

namespace PCemWeb.Codegen

/-- `EVICT_NOT_IN_LIST`. -/
def evictNotInList : Nat := 0xffffffff

/-- The contents, the masks and the links of a `page_t`. -/
structure EvictPage where
  mem : Nat → BitVec 8
  codePresentMask : BitVec 64
  dirtyMask : BitVec 64
  byteCodePresentMask : Nat → BitVec 64
  byteDirtyMask : Nat → BitVec 64
  evictPrev : Nat
  evictNext : Nat

/-- The pages and the list. -/
structure EvictList where
  page : Nat → EvictPage
  /-- `purgable_page_list_head`. -/
  head : Nat
  /-- `purgeable_page_count`. -/
  count : Int
  /-- `codegen_in_recompile`. -/
  inRecompile : Bool

/-- Bit `n` of a mask. -/
def maskBit (n : Nat) : BitVec 64 := 1#64 <<< n

/-- The bits of a byte mask are changed for one 64-byte piece of the page. -/
def orMask (masks : Nat → BitVec 64) (offset : Nat) (mask : BitVec 64) : Nat → BitVec 64 :=
  Function.update masks offset (masks offset ||| mask)

/-! ## Marks -/

/-- One update of the masks of a page with the test that follows it: bits become dirty and are
tested for code, or become code and are tested for being dirty. -/
inductive Mark
  | dirty (page : Nat) (mask : BitVec 64)
  | dirtyByte (page offset : Nat) (mask : BitVec 64)
  | dirtyBoth (page : Nat) (mask : BitVec 64) (offset : Nat) (byteMask : BitVec 64)
  | present (page : Nat) (mask : BitVec 64)
  | presentByte (page offset : Nat) (mask : BitVec 64)

namespace Mark

/-- The page that is marked. -/
def page : Mark → Nat
  | dirty p _ | dirtyByte p _ _ | dirtyBoth p _ _ _ | present p _ | presentByte p _ _ => p

/-- The update of the masks. -/
def change (q : EvictPage) : Mark → EvictPage
  | dirty _ mask => { q with dirtyMask := q.dirtyMask ||| mask }
  | dirtyByte _ offset mask => { q with byteDirtyMask := orMask q.byteDirtyMask offset mask }
  | dirtyBoth _ mask offset byteMask =>
    { q with dirtyMask := q.dirtyMask ||| mask
             byteDirtyMask := orMask q.byteDirtyMask offset byteMask }
  | present _ mask => { q with codePresentMask := q.codePresentMask ||| mask }
  | presentByte _ offset mask =>
    { q with byteCodePresentMask := orMask q.byteCodePresentMask offset mask }

/-- The test. -/
def hits (q : EvictPage) : Mark → Bool
  | dirty _ mask => q.codePresentMask &&& mask ≠ 0
  | dirtyByte _ offset mask => q.byteCodePresentMask offset &&& mask ≠ 0
  | dirtyBoth _ mask offset byteMask =>
    q.codePresentMask &&& mask ≠ 0 ∨ q.byteCodePresentMask offset &&& byteMask ≠ 0
  | present _ mask => q.dirtyMask &&& mask ≠ 0
  | presentByte _ offset mask => q.byteDirtyMask offset &&& mask ≠ 0

end Mark

/-! ## Links -/

namespace EvictList

/-- Write to one page. -/
def modify (s : EvictList) (p : Nat) (f : EvictPage → EvictPage) : EvictList :=
  { s with page := Function.update s.page p (f (s.page p)) }

def setPrev (s : EvictList) (p v : Nat) : EvictList := s.modify p ({ · with evictPrev := v })

def setNext (s : EvictList) (p v : Nat) : EvictList := s.modify p ({ · with evictNext := v })

/-- `page_in_evict_list`. -/
def pageInEvictList (s : EvictList) (p : Nat) : Bool := (s.page p).evictPrev ≠ evictNotInList

/-- `page_add_to_evict_list`. -/
def pageAddToEvictList (s : EvictList) (p : Nat) : EvictList :=
  let head := s.head
  let s := ((s.setPrev head p).setNext p head).setPrev p 0
  { s with head := (s.page head).evictPrev, count := s.count + 1 }

/-- `page_remove_from_evict_list`; a page that is not in the list is fatal. -/
def pageRemoveFromEvictList (s : EvictList) (p : Nat) : Option EvictList :=
  if s.pageInEvictList p then
    let s :=
      if (s.page p).evictPrev ≠ 0 then s.setNext (s.page p).evictPrev (s.page p).evictNext
      else { s with head := (s.page p).evictNext }
    let s :=
      if (s.page p).evictNext ≠ 0 then s.setPrev (s.page p).evictNext (s.page p).evictPrev else s
    some { s.setPrev p evictNotInList with count := s.count - 1 }
  else none

/-- The masks are updated, and on a hit the page is added unless it is in the list. -/
def mark (s : EvictList) (m : Mark) : EvictList :=
  let s := s.modify m.page m.change
  if m.hits (s.page m.page) ∧ ¬ s.pageInEvictList m.page then s.pageAddToEvictList m.page else s

/-! ## Writes -/

/-- The number in `len` bytes at an address within a page. -/
def load (q : EvictPage) (addr len : Nat) : BitVec 32 :=
  (List.range len).foldr (fun i v => v <<< 8 ||| (q.mem (addr % 4096 + i)).setWidth 32) 0

/-- The `len` low bytes of a number are written. -/
def store (addr len : Nat) (val : BitVec 32) (q : EvictPage) : EvictPage :=
  { q with mem := fun a => if addr % 4096 ≤ a ∧ a < addr % 4096 + len then
      val.extractLsb' (8 * (a - addr % 4096)) 8 else q.mem a }

/-- A write, with the marks it makes, unless nothing changes and nothing is being recompiled. -/
def write (s : EvictList) (p addr len : Nat) (val : BitVec 32) (marks : List Mark) : EvictList :=
  if val ≠ load (s.page p) addr len ∨ s.inRecompile then
    marks.foldl mark (s.modify p (store addr len val))
  else s

/-- The marks of `mem_write_ramb_page`. -/
def rambMarks (p addr : Nat) : List Mark :=
  [.dirty p (maskBit (addr / 64 % 64)), .dirtyByte p (addr / 64 % 64) (maskBit (addr % 64))]

/-- The marks of `mem_write_ramw_page`. -/
def ramwMarks (p addr : Nat) : List Mark :=
  let mask := maskBit (addr / 64 % 64)
  let byteOffset := addr / 64 % 64
  let byteMask := maskBit (addr % 64)
  let mask := if addr % 16 = 15 then mask ||| mask <<< 1 else mask
  if addr % 64 = 63 then
    [.dirty p mask, .dirtyByte p (byteOffset + 1) 1, .dirtyByte p byteOffset byteMask]
  else [.dirty p mask, .dirtyByte p byteOffset (byteMask ||| byteMask <<< 1)]

/-- The marks of `mem_write_raml_page`. -/
def ramlMarks (p addr : Nat) : List Mark :=
  let mask := maskBit (addr / 64 % 64)
  let byteOffset := addr / 64 % 64
  let byteMask := 0xf#64 <<< (addr % 64)
  let mask := if addr % 16 ≥ 13 then mask ||| mask <<< 1 else mask
  if addr % 64 > 60 then
    [.dirtyBoth p mask byteOffset byteMask,
      .dirtyByte p (byteOffset + 1) (0xf#64 >>> (4 - addr % 4))]
  else [.dirtyBoth p mask byteOffset byteMask]

/-- `mem_write_ramb_page`. -/
def memWriteRambPage (s : EvictList) (p addr : Nat) (val : BitVec 8) : EvictList :=
  s.write p addr 1 (val.setWidth 32) (rambMarks p addr)

/-- `mem_write_ramw_page`. -/
def memWriteRamwPage (s : EvictList) (p addr : Nat) (val : BitVec 16) : EvictList :=
  s.write p addr 2 (val.setWidth 32) (ramwMarks p addr)

/-- `mem_write_raml_page`. -/
def memWriteRamlPage (s : EvictList) (p addr : Nat) (val : BitVec 32) : EvictList :=
  s.write p addr 4 val (ramlMarks p addr)

/-- The marks of `mem_invalidate_range`, one for each 64 bytes, those at the rounded end
included. -/
def rangeMarks (startAddr endAddr : Nat) : List Mark :=
  let first := startAddr / 64
  let last := (endAddr + 63) / 64
  (List.range' first (last + 1 - first)).map fun c => .dirty (c / 64) (maskBit (c % 64))

/-- `mem_invalidate_range`. -/
def memInvalidateRange (s : EvictList) (startAddr endAddr : Nat) : EvictList :=
  (rangeMarks startAddr endAddr).foldl mark s

/-! ## Block masks and flushes -/

/-- The mark that the end of a block makes for one of its pages, at the block's granularity. -/
def blockMark (byteMask : Bool) (phys : Nat) (mask : BitVec 64) : Mark :=
  if byteMask then .presentByte (phys / 4096) (phys / 64 % 64) mask else .present (phys / 4096) mask

/-- What `codegen_block_generate_end_mask_recompile` and `_mark` do to the pages: a mark for the
first page and, when the block has a mask for it, for the second. -/
def generateEndMask (s : EvictList) (byteMask : Bool) (phys : Nat) (pageMask : BitVec 64)
    (second : Option (Nat × BitVec 64)) : EvictList :=
  (blockMark byteMask phys pageMask ::
    second.toList.map fun (phys2, pageMask2) => blockMark byteMask phys2 pageMask2).foldl mark s

/-- Whether `codegen_check_flush` takes the page off the list: code was dirty at the granularity
of the page and none at that of bytes. -/
def removes (q : EvictPage) : Bool :=
  q.codePresentMask &&& q.dirtyMask ≠ 0 ∧
    (List.range 64).all fun c => q.byteCodePresentMask c &&& q.byteDirtyMask c = 0

/-- The masks that `codegen_check_flush` leaves. -/
def flushMasks (q : EvictPage) : EvictPage :=
  { q with
    codePresentMask := q.codePresentMask &&& ~~~q.dirtyMask
    dirtyMask := 0
    byteCodePresentMask := fun c =>
      if c < 64 then q.byteCodePresentMask c &&& ~~~q.byteDirtyMask c else q.byteCodePresentMask c
    byteDirtyMask := fun c => if c < 64 then 0 else q.byteDirtyMask c }

/-- `codegen_check_flush`. -/
def codegenCheckFlush (s : EvictList) (p : Nat) : Option EvictList :=
  let t := s.modify p flushMasks
  if removes (s.page p) then t.pageRemoveFromEvictList p else some t

/-! ## Steps -/

/-- What happens to the pages. -/
inductive Op
  | writeb (p addr : Nat) (val : BitVec 8)
  | writew (p addr : Nat) (val : BitVec 16)
  | writel (p addr : Nat) (val : BitVec 32)
  | invalidateRange (startAddr endAddr : Nat)
  | endMask (byteMask : Bool) (phys : Nat) (pageMask : BitVec 64)
      (second : Option (Nat × BitVec 64))
  | checkFlush (p : Nat)
  | recompiling (inRecompile : Bool)

/-- One call. -/
def step (s : EvictList) : Op → Option EvictList
  | .writeb p addr val => some (s.memWriteRambPage p addr val)
  | .writew p addr val => some (s.memWriteRamwPage p addr val)
  | .writel p addr val => some (s.memWriteRamlPage p addr val)
  | .invalidateRange startAddr endAddr => some (s.memInvalidateRange startAddr endAddr)
  | .endMask byteMask phys pageMask second => some (s.generateEndMask byteMask phys pageMask second)
  | .checkFlush p => s.codegenCheckFlush p
  | .recompiling inRecompile => some { s with inRecompile }

/-- The pages and the list after `mem_alloc`. -/
def initial : EvictList where
  page _ := ⟨fun _ => 0, 0, 0, fun _ => 0, fun _ => 0, evictNotInList, 0⟩
  head := 0
  count := 0
  inRecompile := false

end EvictList

end PCemWeb.Codegen
