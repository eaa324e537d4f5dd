import PCemWeb.Lib.Coverage
import Mathlib.Data.List.Range

/-!
# The lookup tables

`readlookup2` and `writelookup2` hold, for each virtual page, what to add to a virtual address
to reach the byte in host memory, and `page_lookup` the page structure of a page that holds
code. They have a million entries each; the rings `readlookup` and `writelookup` name the
entries in use, so that a flush walks 256 slots. Pointers are numbers of `w` bits.
-/

namespace PCemWeb.Memory

/-- A virtual page number, the index of the three tables. -/
abbrev Vpn := BitVec 20

/-- What a build and a configuration fix: the address of `ram` and the size of the rings. -/
structure Host (w : Nat) where
  ram : BitVec w
  cachesize : Nat
  isCachesize : ∃ k ≤ 8, cachesize = 1 <<< k

/-- The globals that the two fill functions read. -/
structure FillEnv where
  /-- `wjit_oracle_nofill`. -/
  nofill : Bool
  /-- `mmu_perm`. -/
  mmuPerm : BitVec 32
  /-- `pages[].block`, by page number. -/
  block : BitVec 20 → BitVec 16
  /-- `recomp_page`. -/
  recompPage : BitVec 32

/-- The lookup tables, their rings and what the flushes reset with them. -/
structure Lookups (w : Nat) where
  /-- `0xFFFFFFFF` in a slot is `none`. -/
  readlookup : Nat → Option Vpn
  readlookupp : Nat → BitVec 32
  readlookup2 : Vpn → BitVec w
  readlnext : Nat
  writelookup : Nat → Option Vpn
  writelookupp : Nat → BitVec 32
  writelookup2 : Vpn → BitVec w
  writelnext : Nat
  /-- Pointers into `pages`, as page numbers. -/
  pageLookup : Vpn → Option (BitVec 20)
  mmuflush : BitVec 32
  pccache : BitVec 32
  pccache2 : BitVec w
  cycles : BitVec 32

/-- `addr >> 12`. -/
def vpn (addr : BitVec 32) : Vpn := addr.extractLsb' 12 20

/-- `(uintptr_t)&ram[(uintptr_t)(phys & ~0xFFF) - (uintptr_t)(virt & ~0xfff)]`. -/
def Host.target {w : Nat} (h : Host w) (phys virt : BitVec 32) : BitVec w :=
  h.ram + ((phys &&& ~~~0xfff#32).setWidth w - (virt &&& ~~~0xfff#32).setWidth w)

namespace Lookups

variable {w : Nat}

/-! ## Flushes -/

/-- The read half of one turn of the loop of the flushes. -/
def flushRead (l : Lookups w) (c : Nat) : Lookups w :=
  match l.readlookup c with
  | none => l
  | some page =>
    { l with
      readlookup2 := Function.update l.readlookup2 page (-1)
      readlookup := Function.update l.readlookup c none }

/-- The write half. -/
def flushWrite (l : Lookups w) (c : Nat) : Lookups w :=
  match l.writelookup c with
  | none => l
  | some page =>
    { l with
      pageLookup := Function.update l.pageLookup page none
      writelookup2 := Function.update l.writelookup2 page (-1)
      writelookup := Function.update l.writelookup c none }

/-- One turn of the loop of the flushes. -/
def flushSlot (l : Lookups w) (c : Nat) : Lookups w := (l.flushRead c).flushWrite c

/-- The loop, over all slots whatever the size of the rings. -/
def flushSlots (l : Lookups w) : Lookups w := (List.range 256).foldl flushSlot l

/-- `flushmmucache_nopc`. -/
def flushmmucacheNopc (l : Lookups w) : Lookups w := l.flushSlots

/-- `flushmmucache_cr3`. -/
def flushmmucacheCr3 (l : Lookups w) : Lookups w := l.flushSlots

/-- `flushmmucache`; `codegen_flush` does nothing. -/
def flushmmucache (l : Lookups w) : Lookups w :=
  { l.flushSlots with
    mmuflush := l.flushSlots.mmuflush + 1, pccache := 0xffffffff, pccache2 := 0xffffffff }

/-- One turn of the loop of `mem_flush_write_page`. -/
def flushWritePage (h : Host w) (addr virt : BitVec 32) (l : Lookups w) (c : Nat) : Lookups w :=
  match l.writelookup c with
  | none => l
  | some page =>
    if l.writelookup2 page = h.target addr virt ∨ l.pageLookup page = some (vpn addr) then
      { l with
        writelookup2 := Function.update l.writelookup2 page (-1)
        pageLookup := Function.update l.pageLookup page none
        writelookup := Function.update l.writelookup c none }
    else l

/-- `mem_flush_write_page`. -/
def memFlushWritePage (l : Lookups w) (h : Host w) (addr virt : BitVec 32) : Lookups w :=
  (List.range 256).foldl (flushWritePage h addr virt) l

/-- `resetreadlookup`. -/
def resetreadlookup (l : Lookups w) : Lookups w :=
  { l with
    readlookup2 := fun _ => -1
    readlookup := fun _ => none
    readlnext := 0
    writelookup2 := fun _ => -1
    pageLookup := fun _ => none
    writelookup := fun _ => none
    writelnext := 0
    pccache := 0xffffffff }

/-! ## Fills -/

/-- The entry that the slot at `readlnext` names is forgotten. -/
def evictRead (l : Lookups w) : Lookups w :=
  match l.readlookup l.readlnext with
  | none => l
  | some page => { l with readlookup2 := Function.update l.readlookup2 page (-1) }

/-- `addreadlookup`. -/
def addreadlookup (l : Lookups w) (h : Host w) (env : FillEnv) (virt phys : BitVec 32) :
    Lookups w :=
  if env.nofill ∨ virt = 0xffffffff ∨ l.readlookup2 (vpn virt) ≠ -1 then l
  else
    let l := l.evictRead
    { l with
      readlookup2 := Function.update l.readlookup2 (vpn virt) (h.target phys virt)
      readlookupp := Function.update l.readlookupp l.readlnext env.mmuPerm
      readlookup := Function.update l.readlookup l.readlnext (some (vpn virt))
      readlnext := (l.readlnext + 1) &&& (h.cachesize - 1)
      cycles := l.cycles - 9 }

/-- The entries that the slot at `writelnext` names are forgotten. -/
def evictWrite (l : Lookups w) : Lookups w :=
  match l.writelookup l.writelnext with
  | none => l
  | some page =>
    { l with
      pageLookup := Function.update l.pageLookup page none
      writelookup2 := Function.update l.writelookup2 page (-1) }

/-- A page that holds code, or is being recompiled, goes through its page structure; the other
pages are written directly. -/
def mapWrite (l : Lookups w) (h : Host w) (env : FillEnv) (virt phys : BitVec 32) : Lookups w :=
  if env.block (vpn phys) ≠ 0 ∨ phys &&& ~~~0xfff#32 = env.recompPage then
    { l with pageLookup := Function.update l.pageLookup (vpn virt) (some (vpn phys)) }
  else { l with writelookup2 := Function.update l.writelookup2 (vpn virt) (h.target phys virt) }

/-- `addwritelookup`. Only `page_lookup` is consulted for an entry that is already there. -/
def addwritelookup (l : Lookups w) (h : Host w) (env : FillEnv) (virt phys : BitVec 32) :
    Lookups w :=
  if env.nofill ∨ virt = 0xffffffff ∨ l.pageLookup (vpn virt) ≠ none then l
  else
    let l := l.evictWrite.mapWrite h env virt phys
    { l with
      writelookupp := Function.update l.writelookupp l.writelnext env.mmuPerm
      writelookup := Function.update l.writelookup l.writelnext (some (vpn virt))
      writelnext := (l.writelnext + 1) &&& (h.cachesize - 1)
      cycles := l.cycles - 9 }

end Lookups

end PCemWeb.Memory
