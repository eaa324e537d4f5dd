import PCemWeb.Lib.BitFields
import Mathlib.Logic.Function.Basic

/-!
# Writes by devices

`_dma_write` of `dma.c` with `mem_writeb_phys`, `mem_write_ramb_page` and `mem_invalidate_range` of
`mem.c`, on the page table that `mem_alloc` allocates. An access past the table is `none`, and so is
a loop that never ends.
-/

namespace PCemWeb.Memory

/-- The code marks of a `page_t`: bit `k` of word `w` of a byte mask is byte `64 * w + k`. -/
structure PageMarks : Type where
  codePresentMask : BitVec 64
  dirtyMask : BitVec 64
  byteDirtyMask : Nat → BitVec 64
  byteCodePresentMask : Nat → BitVec 64
  inEvictList : Bool

/-- The state behind a device's write. `ramMapped` tells which addresses have `mem_write_ram` for
their handler, `memSize` is in kilobytes and `fits` says that the `int` product of `mem_alloc` does
not overflow. -/
structure PageTable : Type where
  memSize : Nat
  fits : (memSize + 384) * 1024 < 2147483648
  ram : Nat → BitVec 8
  pages : Nat → PageMarks
  ramMapped : Nat → Bool
  inRecompile : Bool

namespace PageMarks

variable (p : PageMarks)

/-- `p->dirty_mask |= mask`, and the page to the evict list where code is present. -/
def markDirty (mask : BitVec 64) : PageMarks :=
  { p with
    dirtyMask := p.dirtyMask ||| mask
    inEvictList := p.inEvictList || p.codePresentMask &&& mask ≠ 0 }

/-- `p->byte_dirty_mask[offset] |= mask`, and the page to the evict list. -/
def markByteDirty (offset : Nat) (mask : BitVec 64) : PageMarks :=
  { p with
    byteDirtyMask :=
      Function.update p.byteDirtyMask offset (p.byteDirtyMask offset ||| mask)
    inEvictList := p.inEvictList || p.byteCodePresentMask offset &&& mask ≠ 0 }

/-- The marks of a byte that is written. -/
def markWritten (addr : Nat) : PageMarks :=
  (p.markDirty (BitVec.twoPow 64 (addr / 64 % 64))).markByteDirty (addr / 64 % 64)
    (BitVec.twoPow 64 (addr % 64))

end PageMarks

namespace PageTable

variable (t : PageTable)

/-- `mem_alloc` with RAM below `0xa0000` and from 1 MB on. -/
def memAlloc (memSize : Nat) (fits : (memSize + 384) * 1024 < 2147483648) : PageTable where
  memSize
  fits
  ram := fun _ => 0
  pages := fun _ => ⟨0, 0, fun _ => 0, fun _ => 0, false⟩
  ramMapped := fun a => a < memSize * 1024 && (a < 0xa0000 || 0x100000 ≤ a)
  inRecompile := false

/-- The entries of `pages`. -/
def count : Nat := (t.memSize + 384) * 1024 / 4096

def setPage (page : Nat) (p : PageMarks) : PageTable :=
  { t with pages := Function.update t.pages page p }

/-- An update of `pages[addr >> 12]`. -/
def updatePage (addr : Nat) (f : PageMarks → PageMarks) : Option PageTable :=
  if addr / 4096 < t.count then some (t.setPage (addr / 4096) (f (t.pages (addr / 4096))))
  else none

def setRam (addr : Nat) (val : BitVec 8) : PageTable :=
  { t with ram := Function.update t.ram addr val }

/-- `mem_write_ramb_page` at `&pages[addr >> 12]`. -/
def memWriteRambPage (addr : Nat) (val : BitVec 8) : Option PageTable :=
  if val ≠ t.ram addr ∨ t.inRecompile = true then
    (t.setRam addr val).updatePage addr (·.markWritten addr)
  else if addr / 4096 < t.count then some t else none

/-- `mem_writeb_phys`; handlers of other memory touch no page. -/
def memWritebPhys (addr : Nat) (val : BitVec 8) : Option PageTable :=
  if t.ramMapped addr = true then t.memWriteRambPage addr val else some t

/-- One round of the loop of `mem_invalidate_range`. -/
def invalidateGranule (addr : Nat) : Option PageTable :=
  t.updatePage addr fun p => p.markDirty (BitVec.twoPow 64 (addr / 64 % 64))

/-- The loop, which adds in 32 bits; there are `2 ^ 26` granules. -/
def invalidateLoop : Nat → Nat → Nat → PageTable → Option PageTable
  | 0, _, _, _ => none
  | fuel + 1, start, stop, t =>
      if start ≤ stop then
        (t.invalidateGranule start).bind (invalidateLoop fuel ((start + 64) % 4294967296) stop)
      else some t

/-- `(end_addr + 63) & ~63`. -/
def roundUp (addr : Nat) : Nat := (addr + 63) % 4294967296 / 64 * 64

/-- `mem_invalidate_range`. -/
def memInvalidateRange (start stop : BitVec 32) : Option PageTable :=
  invalidateLoop 67108865 (start.toNat / 64 * 64) (roundUp stop.toNat) t

/-- `_dma_write`. -/
def dmaWrite (addr : BitVec 32) (val : BitVec 8) : Option PageTable :=
  (t.memWritebPhys addr.toNat val).bind fun t => t.memInvalidateRange addr addr

end PageTable

end PCemWeb.Memory
