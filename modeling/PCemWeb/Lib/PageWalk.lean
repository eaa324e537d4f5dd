import Mathlib.Data.Nat.Basic
import Mathlib.Logic.Function.Basic
import Mathlib.Tactic.Common

/-!
# The two-level page walk

Linear addresses are translated through a page directory and page tables of 32-bit entries, with
pages of 4 KB and, where enabled, of 4 MB. Memory is an array of aligned words. A walk either
faults, and leaves memory as it is, or marks the entries that it used.
-/

namespace PCemWeb.Lib.Paging

abbrev Entry := BitVec 32

/-- Physical memory by the index of the aligned word. -/
abbrev Words := BitVec 30 → Entry

namespace Entry

def present (e : Entry) : Bool := e.getLsbD 0

def writable (e : Entry) : Bool := e.getLsbD 1

def user (e : Entry) : Bool := e.getLsbD 2

def dirty (e : Entry) : Bool := e.getLsbD 6

/-- The entry of a 4 MB page, where these are enabled. -/
def large (e : Entry) : Bool := e.getLsbD 7

/-- The accessed bit set. -/
def accessed (e : Entry) : Entry := e ||| BitVec.twoPow 32 5

/-- The accessed bit set, and the dirty bit on a write. -/
def leaf (e : Entry) (write : Bool) : Entry :=
  if write then e.accessed ||| BitVec.twoPow 32 6 else e.accessed

end Entry

/-- The controls of the walk: the directory's page, 4 MB pages, and write protection in supervisor
mode. -/
structure Control where
  root : BitVec 20
  pse : Bool
  wp : Bool

/-- An access by the user or the supervisor, to read or to write. -/
structure Access where
  user : Bool
  write : Bool

/-- What a linear address is mapped by. -/
inductive Mapping
  | large (atPde : BitVec 30) (pde : Entry)
  | small (atPde : BitVec 30) (pde : Entry) (atPte : BitVec 30) (pte : Entry)

namespace Mapping

/-- User pages are user pages on both levels. -/
def user : Mapping → Bool
  | large _ pde => pde.user
  | small _ pde _ pte => pde.user && pte.user

def writable : Mapping → Bool
  | large _ pde => pde.writable
  | small _ pde _ pte => pde.writable && pte.writable

/-- The frame with the offset into it. -/
def physical (addr : BitVec 32) : Mapping → BitVec 32
  | large _ pde => pde.extractLsb' 22 10 ++ addr.extractLsb' 0 22
  | small _ _ _ pte => pte.extractLsb' 12 20 ++ addr.extractLsb' 0 12

/-- The entries used are accessed, and the leaf is dirty on a write. -/
def mark (write : Bool) (ram : Words) : Mapping → Words
  | large atPde pde => Function.update ram atPde (pde.leaf write)
  | small atPde pde atPte pte =>
    Function.update (Function.update ram atPde pde.accessed) atPte (pte.leaf write)

end Mapping

/-- The mapping of an address, if it is present on every level. -/
def lookup (ram : Words) (control : Control) (addr : BitVec 32) : Option Mapping :=
  let atPde := control.root ++ addr.extractLsb' 22 10
  let pde := ram atPde
  if !pde.present then none
  else if pde.large && control.pse then some (.large atPde pde)
  else
    let atPte := pde.extractLsb' 12 20 ++ addr.extractLsb' 12 10
    let pte := ram atPte
    if pte.present then some (.small atPde pde atPte pte) else none

/-- Users stay in user pages. Read-only pages are protected from users, and from the supervisor
where write protection is on. -/
def permits (wp : Bool) (access : Access) (mapping : Mapping) : Bool :=
  (!access.user || mapping.user) &&
    (!access.write || mapping.writable || (!access.user && !wp))

/-- The error code of a page fault: present, write, user. -/
def errorCode (present : Bool) (access : Access) : BitVec 32 :=
  (BitVec.ofBool access.user ++ BitVec.ofBool access.write ++ BitVec.ofBool present).setWidth 32

/-- The physical address and the marked memory, or the error code of the fault. -/
def walk (ram : Words) (control : Control) (access : Access) (addr : BitVec 32) :
    Except (BitVec 32) (BitVec 32 × Words) :=
  match lookup ram control addr with
  | none => .error (errorCode false access)
  | some mapping =>
    if permits control.wp access mapping then
      .ok (mapping.physical addr, mapping.mark access.write ram)
    else .error (errorCode true access)

end PCemWeb.Lib.Paging
