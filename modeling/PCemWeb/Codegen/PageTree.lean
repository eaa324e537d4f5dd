import Mathlib.Data.UInt
import PCemWeb.Codegen.Block
import PCemWeb.Lib.LinkedTree
import PCemWeb.Lib.Run

/-!
# Page trees

The blocks of a physical page are also in a binary tree, searched when the hash table misses. It
is threaded through the blocks by their numbers and ordered by physical address and code segment.
Blocks that differ only in `status` have equal keys; a search goes right past those whose status
does not fit.

The definitions follow `codegen.h`. A number below `BLOCK_SIZE` fits the 16 bits it is kept in. A
walk is given `BLOCK_SIZE` steps, which is more than a tree has nodes.
-/

namespace PCemWeb.Codegen.PageTree

open PCemWeb.Lib PCemWeb.Lib.SearchTree

/-! ## Blocks and pages -/

/-- What the trees use of `codeblock_t`. -/
structure TreeBlock where
  cs : UInt32
  phys : UInt32
  status : UInt16
  parent : Nat
  left : Nat
  right : Nat

/-- `codeblock` and the heads in `pages`. -/
structure PageTrees where
  codeblock : Nat → TreeBlock
  head : UInt32 → Nat

/-- The key of a block: `_cs | ((uint64_t)phys << 32)`. -/
def blockCmp (phys cs : UInt32) : UInt64 := cs.toUInt64 ||| phys.toUInt64 <<< 32

/-- `CPU_STATUS_FLAGS`. -/
def cpuStatusFlags : UInt16 := 0xff

/-- `CPU_STATUS_MASK`. -/
def cpuStatusMask : UInt16 := 0xff00

/-- A block's status fits the processor's: the low flags agree and no high one is missing. -/
def fits (status curStatus : UInt16) : Bool :=
  (status ^^^ curStatus) &&& cpuStatusFlags == 0 &&
    status &&& curStatus &&& cpuStatusMask == curStatus &&& cpuStatusMask

namespace PageTrees

def cmp (s : PageTrees) (nr : Nat) : UInt64 :=
  blockCmp (s.codeblock nr).phys (s.codeblock nr).cs

/-- The page a block is on. -/
def page (s : PageTrees) (nr : Nat) : UInt32 := (s.codeblock nr).phys >>> 12

def setHead (s : PageTrees) (page : UInt32) (nr : Nat) : PageTrees :=
  { s with head := Function.update s.head page nr }

def modify (s : PageTrees) (nr : Nat) (f : TreeBlock → TreeBlock) : PageTrees :=
  { s with codeblock := Function.update s.codeblock nr (f (s.codeblock nr)) }

def setParent (s : PageTrees) (nr v : Nat) : PageTrees := s.modify nr fun b => { b with parent := v }

def setLeft (s : PageTrees) (nr v : Nat) : PageTrees := s.modify nr fun b => { b with left := v }

def setRight (s : PageTrees) (nr v : Nat) : PageTrees := s.modify nr fun b => { b with right := v }

def left (s : PageTrees) (nr : Nat) : Nat := (s.codeblock nr).left

def right (s : PageTrees) (nr : Nat) : Nat := (s.codeblock nr).right

end PageTrees

/-! ## Search -/

/-- The loop of `codeblock_tree_find`. -/
def findLoop (s : PageTrees) (a : UInt64) (curStatus : UInt16) : (fuel nr : Nat) → Option Nat
  | 0, _ => none
  | fuel + 1, nr =>
    if nr = 0 then some 0
    else if a = s.cmp nr ∧ fits (s.codeblock nr).status curStatus then some nr
    else if a < s.cmp nr then findLoop s a curStatus fuel (s.left nr)
    else findLoop s a curStatus fuel (s.right nr)

/-- `codeblock_tree_find`: the number of a block, or 0 for `NULL`. -/
def codeblockTreeFind (s : PageTrees) (phys cs : UInt32) (curStatus : UInt16) : Option Nat :=
  if s.head (phys >>> 12) = 0 then some 0
  else findLoop s (blockCmp phys cs) curStatus blockSize (s.head (phys >>> 12))

/-! ## Insertion -/

/-- The loop of `codeblock_tree_add`: the last block before a missing child. -/
def addLoop (s : PageTrees) (a : UInt64) : (fuel nr : Nat) → Option Nat
  | 0, _ => none
  | fuel + 1, nr =>
    let next := if a < s.cmp nr then s.left nr else s.right nr
    if next = 0 then some nr else addLoop s a fuel next

/-- `codeblock_tree_add`. -/
def codeblockTreeAdd (s : PageTrees) (nr : Nat) : Option PageTrees :=
  if s.head (s.page nr) = 0 then
    some ((((s.setHead (s.page nr) nr).setRight nr 0).setLeft nr 0).setParent nr 0)
  else do
    let old ← addLoop s (s.cmp nr) blockSize (s.head (s.page nr))
    let s' := if s.cmp nr < s.cmp old then s.setLeft old nr else s.setRight old nr
    some (((s'.setParent nr old).setRight nr 0).setLeft nr 0)

/-! ## Deletion -/

/-- A block's place below its parent, or at the head, is given to `new`. -/
def putChild (s : PageTrees) (parentNr nr new : Nat) : PageTrees :=
  if parentNr = 0 then s.setHead (s.page nr) new
  else
    let s := if s.left parentNr = nr then s.setLeft parentNr new else s
    if s.right parentNr = nr then s.setRight parentNr new else s

/-- The same for an only child, which is told its new parent. -/
def putOnlyChild (s : PageTrees) (parentNr nr child : Nat) : PageTrees :=
  if parentNr = 0 then (s.setHead (s.page nr) child).setParent child 0
  else
    let s :=
      if s.left parentNr = nr then (s.setLeft parentNr child).setParent child parentNr else s
    if s.right parentNr = nr then (s.setRight parentNr child).setParent child parentNr else s

/-- The lowest node below the right child takes the place of a block with two children. -/
def replaceByLowest (s : PageTrees) (parentNr nr lowestNr : Nat) : PageTrees :=
  let oldParent := (s.codeblock lowestNr).parent
  let s := putChild s parentNr nr lowestNr
  let s := s.setParent lowestNr parentNr
  let s := s.setLeft lowestNr (s.left nr)
  let s := if s.left lowestNr ≠ 0 then s.setParent (s.left lowestNr) lowestNr else s
  s.setLeft oldParent 0

/-- `codeblock_tree_delete`. -/
def codeblockTreeDelete (s : PageTrees) (nr : Nat) : Option PageTrees :=
  let parentNr := (s.codeblock nr).parent
  if s.left nr = 0 ∧ s.right nr = 0 then
    some (putChild s parentNr nr 0)
  else if s.left nr = 0 then
    some (putOnlyChild s parentNr nr (s.right nr))
  else if s.right nr = 0 then
    some (putOnlyChild s parentNr nr (s.left nr))
  else do
    let lowestNr ← follow s.left blockSize (s.right nr)
    let s := replaceByLowest s parentNr nr lowestNr
    if s.right lowestNr = 0 then
      if lowestNr ≠ s.right nr then
        some ((s.setRight lowestNr (s.right nr)).setParent (s.right nr) lowestNr)
      else
        some s
    else
      let highestNr ← follow s.right blockSize (s.right lowestNr)
      if s.right nr ≠ 0 ∧ s.right nr ≠ lowestNr then
        some ((s.setRight highestNr (s.right nr)).setParent (s.right nr) highestNr)
      else
        some s

/-! ## Runs -/

/-- The trees and, ghost, the blocks that were added and not deleted. -/
structure Machine where
  trees : PageTrees
  added : List Nat

/-- A call, or a change of a block's other fields: `setKey` only while it is in no tree. -/
inductive Event
  | add (nr : Nat)
  | delete (nr : Nat)
  | setKey (nr : Nat) (phys cs : UInt32)
  | setStatus (nr : Nat) (status : UInt16)

/-- One event. Only a block in no tree is added, and only one in a tree is deleted. -/
def step (m : Machine) : Event → Option Machine
  | .add nr =>
    if 0 < nr ∧ nr < blockSize ∧ nr ∉ m.added then
      (codeblockTreeAdd m.trees nr).map (⟨·, nr :: m.added⟩)
    else none
  | .delete nr =>
    if nr ∈ m.added then (codeblockTreeDelete m.trees nr).map (⟨·, m.added.erase nr⟩) else none
  | .setKey nr phys cs =>
    if nr ∉ m.added then
      some { m with trees := m.trees.modify nr fun b => { b with phys := phys, cs := cs } }
    else none
  | .setStatus nr status =>
    some { m with trees := m.trees.modify nr fun b => { b with status := status } }

end PCemWeb.Codegen.PageTree
