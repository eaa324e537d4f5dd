import PCemWeb.Codegen.BlockLife

/-!
# Initialisation and reset

`codegen_init` puts every block on the free list. `codegen_reset` first deletes every block with
code, having cleared its addresses, so the heads of the page lists are wrong from then on. What
survives until the blocks are cleared is the dirty list, which is emptied on the way.
-/

namespace PCemWeb.Codegen

open PCemWeb.Lib

/-- A block on the free list made by `codegen_init`. -/
def CodeBlock.pushed (b : CodeBlock) (freeList k : Nat) : CodeBlock :=
  { b with
    pc := pcInvalid
    next := if k = 0 then freeList else k - 1
    flags := { BlockFlags.none with inFreeList := true } }

namespace Machine

variable {m m' : Machine} {nr n c : Nat} {open_ exempt : Option Nat} {dirty : List Nat}

/-! ## The first free list -/

/-- The numbers from `n` down to 1. -/
def descending : Nat → List Nat
  | 0 => []
  | n + 1 => (n + 1) :: descending n

theorem mem_descending {k : Nat} : k ∈ descending n ↔ 0 < k ∧ k ≤ n := by
  induction n with
  | zero => simp [descending]; omega
  | succ n ih => simp [descending, ih]; omega

theorem nodup_descending (n : Nat) : (descending n).Nodup := by
  induction n with
  | zero => exact .nil
  | succ n ih => exact List.nodup_cons.mpr ⟨by simp [mem_descending], ih⟩

theorem chain_descending {next : Nat → Nat} (linked : ∀ k, 0 < k → k ≤ n → next k = k - 1) :
    Chain next n (descending n) := by
  induction n with
  | zero => rfl
  | succ n ih =>
    refine ⟨rfl, Nat.succ_ne_zero n, ?_⟩
    rw [linked (n + 1) (Nat.succ_pos n) (Nat.le_refl _)]
    exact ih fun k positive bound => linked k positive (Nat.le_succ_of_le bound)

theorem pushFree_eq (n : Nat) (m : Machine) : m.pushFree n =
    { m with
      block := fun k => if k < n then CodeBlock.pushed (m.block k) m.freeList k else m.block k
      freeList := if n = 0 then m.freeList else n - 1 } := by
  induction n with
  | zero => simp [pushFree]
  | succ n ih =>
    rw [pushFree, ih]
    simp only [blockFreeListAdd, modify, Machine.mk.injEq, true_and, and_true]
    refine ⟨funext fun k => ?_, by simp⟩
    rcases Nat.lt_trichotomy k n with less | rfl | greater
    · simp [less, Nat.lt_succ_of_lt less, Nat.ne_of_lt less]
    · simp [CodeBlock.pushed]
    · have beyond : ¬k < n + 1 := by omega
      simp [beyond, Nat.not_lt_of_gt greater, Nat.ne_of_gt greater]

/-- No list but the free list, no hash entry and no code. -/
structure Cleared (m : Machine) : Prop where
  block : ∀ n, m.block n = .zero
  hash : ∀ h, m.hash h = 0
  page : ∀ p, (m.page p).block = 0 ∧ (m.page p).block2 = 0
  freeList : m.freeList = 0
  dirty : m.dirtyHead = 0 ∧ m.dirtyTail = 0 ∧ m.dirtyListSize = 0

theorem Cleared.pushFree (cleared : m.Cleared) : (m.pushFree blockSize).Kept none none := by
  have block (k : Nat) : (m.pushFree blockSize).block k =
      if k < blockSize then CodeBlock.pushed .zero 0 k else .zero := by
    rw [pushFree_eq]
    simp only [cleared.block, cleared.freeList]
  have free {k : Nat} (inRange : InRange k) :
      ((m.pushFree blockSize).block k).flags = { BlockFlags.none with inFreeList := true } := by
    rw [block, if_pos inRange.2]
    rfl
  have same : (m.pushFree blockSize).hash = m.hash ∧ (m.pushFree blockSize).page = m.page ∧
      (m.pushFree blockSize).dirtyHead = m.dirtyHead ∧
      (m.pushFree blockSize).dirtyTail = m.dirtyTail ∧
      (m.pushFree blockSize).dirtyListSize = m.dirtyListSize := by
    rw [pushFree_eq]
    exact ⟨rfl, rfl, rfl, rfl, rfl⟩
  obtain ⟨hash, page, head, tail, size⟩ := same
  have notLive (open_ : Option Nat) (k : Nat) : ¬(m.pushFree blockSize).Live open_ k := by
    intro live
    have notFree := live.2.1
    rw [free live.1] at notFree
    cases notFree
  refine ⟨⟨descending (blockSize - 1), fun _ => [], fun _ => [], ?_, ?_⟩, ?_, ?_⟩
  case refine_1 =>
    have freeList : (m.pushFree blockSize).freeList = blockSize - 1 := by
      rw [pushFree_eq]
      rfl
    refine ⟨?_, nodup_descending _, ⟨fun i => ?_, nofun⟩, ⟨fun p => ?_, nofun⟩, nofun, ?_, ?_⟩
    · rw [freeList]
      refine chain_descending fun k positive bound => ?_
      have inRange : k < blockSize := Nat.lt_of_le_pred (by decide) bound
      simp only [block, if_pos inRange, CodeBlock.pushed, if_neg (Nat.ne_of_gt positive)]
    · have empty : (m.pushFree blockSize).head i = 0 := by
        cases i with
        | dirty => exact head.trans cleared.dirty.1
        | page p => exact (congrArg (fun page => (page p).block) page).trans (cleared.page p).1
      rw [empty]
      exact .nil
    · have empty : ((m.pushFree blockSize).page p).block2 = 0 :=
        (congrArg (fun page => (page p).block2) page).trans (cleared.page p).2
      rw [empty]
      exact .nil
    · exact tail.trans cleared.dirty.2.1
    · exact size.trans cleared.dirty.2.2
  case refine_2 =>
    constructor
    case free =>
      intro k
      rw [mem_descending]
      constructor
      · rintro ⟨positive, bound⟩
        have inRange : InRange k := ⟨positive, Nat.lt_of_le_pred (by decide) bound⟩
        exact ⟨inRange, by rw [free inRange]⟩
      · rintro ⟨inRange, -⟩
        exact ⟨inRange.1, Nat.le_pred_of_lt inRange.2⟩
    case dirty =>
      intro k
      refine ⟨nofun, fun ⟨inRange, dirty⟩ => ?_⟩
      rw [free inRange] at dirty
      cases dirty
    case page =>
      intro p k
      exact ⟨nofun, fun ⟨live, _⟩ => absurd live (notLive none k)⟩
    case page2 =>
      intro p k
      refine ⟨nofun, fun ⟨inRange, two, _⟩ => ?_⟩
      rw [free inRange] at two
      cases two
    case exclusive =>
      intro k inRange _
      rw [free inRange]
      rfl
    case hasPage2 =>
      intro k inRange two
      rw [free inRange] at two
      cases two
    case openBlock => simp
  case refine_3 =>
    rw [size, cleared.dirty.2.2]
    exact Nat.zero_le _
  case refine_4 =>
    refine ⟨fun k inRange => ?_, ?_, fun h nonzero => ?_, fun k live => absurd live (notLive none k)⟩
    · rw [free inRange, block, if_pos inRange.2]
      simp [CodeBlock.pushed]
    · rw [block, if_pos (by decide)]
      rfl
    · rw [hash, cleared.hash] at nonzero
      exact absurd rfl nonzero

/-- `codegen_init` starts with the invariant. -/
theorem kept_codegenInit (lookup : WriteLookup) (wasm : WasmTable) (memPages : Nat) :
    (codegenInit lookup wasm memPages).Kept none none :=
  Cleared.pushFree ⟨fun _ => rfl, fun _ => rfl, fun _ => ⟨rfl, rfl⟩, rfl, rfl, rfl, rfl⟩

/-! ## Deleting every block -/

/-- What the loop of `codegen_reset` keeps from block `c` on. -/
structure Resetting (m : Machine) (c : Nat) (dirty : List Nat) : Prop where
  dirtyAt : m.DirtyAt dirty
  mem : ∀ n, n ∈ dirty ↔ InRange n ∧ (m.block n).flags.inDirtyList = true
  ahead : ∀ n ∈ dirty, c ≤ n
  pc : ∀ n, InRange n → ((m.block n).pc = pcInvalid ↔ (m.block n).flags.inFreeList = true)
  exclusive : ∀ n, InRange n → (m.block n).flags.inFreeList = true →
    (m.block n).flags.inDirtyList = false
  /-- The neighbours of a block on a page's list are not dirty. -/
  apart : ∀ n, InRange n → n ∉ dirty → (m.block n).flags.inFreeList = false →
    (m.block n).pageMask ≠ 0 → (m.block n).prev ∉ dirty ∧ (m.block n).next ∉ dirty
  /-- Page 0 is among the pages that are cleared, unless no block is on a page's list. -/
  zero : 0 < m.memPages ∨ ∀ n, InRange n → (m.block n).flags.inFreeList = false → n ∉ dirty →
    (m.block n).pageMask = 0
  page : ∀ p, m.memPages ≤ p → (m.page p).block = 0 ∧ (m.page p).block2 = 0

/-- `remove_from_block_list` of a block whose addresses are cleared touches page 0 only. -/
theorem removeFromBlockList_frame (nr : Nat) (phys : (m.block nr).phys = 0) (phys2 : (m.block nr).phys2 = 0)
    (mask : (m.block nr).pageMask ≠ 0) :
    (∀ n ≠ 0, n ≠ nr → ((m.removeFromBlockList nr).block n).next =
      if n = (m.block nr).prev then (m.block nr).next else (m.block n).next) ∧
    (∀ n ≠ 0, n ≠ nr → ((m.removeFromBlockList nr).block n).prev =
      if n = (m.block nr).next then (m.block nr).prev else (m.block n).prev) ∧
    (m.removeFromBlockList nr).dirtyHead = m.dirtyHead ∧
    (m.removeFromBlockList nr).dirtyTail = m.dirtyTail ∧
    (∀ p ≠ 0, ((m.removeFromBlockList nr).page p).block = (m.page p).block ∧
      ((m.removeFromBlockList nr).page p).block2 = (m.page p).block2) := by
  have first : Unlinked _ nr m (m.removeFromPage nr) := unlinked_removeFromPage
  have elsewhere (p : Nat) (nonzero : p ≠ 0) :
      ((m.removeFromPage nr).page p).block = (m.page p).block :=
    first.sameHead (.page p) (by simp [phys, pageOf, nonzero])
  unfold removeFromBlockList
  rw [if_neg mask]
  dsimp only
  split
  case isFalse =>
    exact ⟨first.next, first.prev, first.sameHead .dirty (by simp), first.tail.trans (by simp),
      fun p nonzero => ⟨elsewhere p nonzero, first.head2 p⟩⟩
  case isTrue =>
    have second : Unlinked2 nr ((m.removeFromPage nr).setHasPage2 nr false) _ :=
      unlinked2_removeFromPage2
    have phys2' : (((m.removeFromPage nr).setHasPage2 nr false).block nr).phys2 = 0 := by
      rw [setHasPage2, block_modify_self]
      exact (SameCore.removeFromPage.proj CodeBlock.phys2 (fun _ => rfl) nr).trans phys2
    have next (n : Nat) : (((m.removeFromPage nr).setHasPage2 nr false).block n).next =
        ((m.removeFromPage nr).block n).next := by grind [setHasPage2]
    have prev (n : Nat) : (((m.removeFromPage nr).setHasPage2 nr false).block n).prev =
        ((m.removeFromPage nr).block n).prev := by grind [setHasPage2]
    refine ⟨fun n nonzero other => ?_, fun n nonzero other => ?_, ?_, ?_, fun p nonzero => ⟨?_, ?_⟩⟩
    · rw [second.next, next, first.next n nonzero other]
    · rw [second.prev, prev, first.prev n nonzero other]
    · exact (second.head .dirty).trans (first.sameHead .dirty (by simp))
    · exact second.tail.trans (first.tail.trans (by simp))
    · exact (second.head (.page p)).trans (elsewhere p nonzero)
    · rw [second.head2, phys2', if_neg fun both => nonzero both.1]
      exact first.head2 p

/-- The block the loop of `codegen_reset` is at, with its addresses cleared. -/
def clearPhys (c : Nat) (m : Machine) : Machine := m.modify c ({ · with phys := 0, phys2 := 0 })

/-- The frame of one deletion: what stays of the other blocks' links and of the pages. -/
structure ResetStep (c : Nat) (dirty dirty' : List Nat) (m m' : Machine) : Prop where
  deleted : Deleted c (m.clearPhys c) m'
  dirtyAt : m'.DirtyAt dirty'
  mem : ∀ n, n ∈ dirty' ↔ n ∈ dirty ∧ n ≠ c
  prev : ∀ n ≠ 0, n ≠ c → n ∉ dirty → (m'.block n).prev = (m.block n).prev ∨
    (m'.block n).prev ∉ dirty
  next : ∀ n ≠ 0, n ≠ c → n ∉ dirty → (m'.block n).next = (m.block n).next ∨
    (m'.block n).next ∉ dirty
  page : ∀ p, m.memPages ≤ p → (m'.page p).block = (m.page p).block ∧
    (m'.page p).block2 = (m.page p).block2

theorem Resetting.step (resetting : m.Resetting c dirty) (inRange : InRange c) {dirty' : List Nat}
    (frame : ResetStep c dirty dirty' m m') : m'.Resetting (c + 1) dirty' := by
  have core {α : Type} (π : CodeBlock → α) (ofCore : ∀ b, π b.core = π b) (n : Nat)
      (other : n ≠ c) : π (m'.block n) = π (m.block n) :=
    (CodeBlock.proj_of_core (frame.deleted.others n other) π ofCore).trans
      (congrArg π (block_modify_of_ne other))
  have flags := core CodeBlock.flags fun _ => rfl
  have blank := frame.deleted.blank
  have still {n : Nat} (other : n ≠ c) (out : n ∉ dirty') : n ∉ dirty := fun inList =>
    out ((frame.mem n).mpr ⟨inList, other⟩)
  have memPages : m'.memPages = m.memPages := frame.deleted.memPages
  constructor
  case dirtyAt => exact frame.dirtyAt
  case mem =>
    intro n
    rw [frame.mem]
    rcases eq_or_ne n c with rfl | other
    · simp [blank.flags, BlockFlags.none]
    · rw [flags n other, resetting.mem]
      simp [other]
  case ahead =>
    intro n inList
    obtain ⟨inList', other⟩ := (frame.mem n).mp inList
    exact Nat.lt_of_le_of_ne (resetting.ahead n inList') other.symm
  case pc =>
    intro n inRange'
    rcases eq_or_ne n c with rfl | other
    · simp [blank.flags, blank.pc]
    · rw [flags n other, core CodeBlock.pc (fun _ => rfl) n other]
      exact resetting.pc n inRange'
  case exclusive =>
    intro n inRange'
    rcases eq_or_ne n c with rfl | other
    · simp [blank.flags, BlockFlags.none]
    · rw [flags n other]
      exact resetting.exclusive n inRange'
  case apart =>
    intro n inRange' out notFree mask
    rcases eq_or_ne n c with rfl | other
    · simp [blank.flags] at notFree
    · rw [flags n other] at notFree
      rw [core CodeBlock.pageMask (fun _ => rfl) n other] at mask
      have out' := still other out
      obtain ⟨prev, next⟩ := resetting.apart n inRange' out' notFree mask
      refine ⟨fun inList => ?_, fun inList => ?_⟩
      · rcases frame.prev n inRange'.ne_zero other out' with same | elsewhere
        · exact prev (same ▸ ((frame.mem _).mp inList).1)
        · exact elsewhere ((frame.mem _).mp inList).1
      · rcases frame.next n inRange'.ne_zero other out' with same | elsewhere
        · exact next (same ▸ ((frame.mem _).mp inList).1)
        · exact elsewhere ((frame.mem _).mp inList).1
  case zero =>
    refine resetting.zero.imp (memPages ▸ ·) fun empty n inRange' notFree out => ?_
    rcases eq_or_ne n c with rfl | other
    · simp [blank.flags] at notFree
    · rw [core CodeBlock.pageMask (fun _ => rfl) n other]
      exact empty n inRange' (flags n other ▸ notFree) (still other out)
  case page =>
    intro p outside
    rw [memPages] at outside
    obtain ⟨same, same2⟩ := frame.page p outside
    rw [same, same2]
    exact resetting.page p outside

/-- The end of a deletion changes no list but the free list. -/
theorem freed_frame (m : Machine) (nr : Nat) : (∀ n ≠ nr, (((m.wasmFreeBlock nr).blockFreeListAdd nr).block n).next =
      (m.block n).next ∧ (((m.wasmFreeBlock nr).blockFreeListAdd nr).block n).prev =
      (m.block n).prev) ∧
    ((m.wasmFreeBlock nr).blockFreeListAdd nr).page = m.page ∧
    ((m.wasmFreeBlock nr).blockFreeListAdd nr).dirtyHead = m.dirtyHead ∧
    ((m.wasmFreeBlock nr).blockFreeListAdd nr).dirtyTail = m.dirtyTail ∧
    ((m.wasmFreeBlock nr).blockFreeListAdd nr).dirtyListSize = m.dirtyListSize := by
  rw [blockFreeListAdd, wasmFreeBlock_eq]
  refine ⟨fun n other => ?_, rfl, rfl, rfl, rfl⟩
  simp [block_modify_of_ne other]

theorem DirtyAt.freed {l : List Nat} (dirtyAt : m.DirtyAt l) (out : nr ∉ l) :
    ((m.wasmFreeBlock nr).blockFreeListAdd nr).DirtyAt l := by
  obtain ⟨links, -, head, tail, size⟩ := m.freed_frame nr
  have other (n : Nat) (inList : n ∈ l) : n ≠ nr := fun same => out (same ▸ inList)
  exact dirtyAt.congr (fun n inList => (links n (other n inList)).1)
    (fun n inList => (links n (other n inList)).2) head tail size

theorem sameLinks_forget_clearPhys : SameLinks m ((m.clearPhys c).forget c) :=
  (SameLinks.modify ⟨rfl, rfl, rfl, rfl⟩).trans sameLists_forget.toSameLinks

theorem block_forget_clearPhys : ((m.clearPhys c).forget c).block c =
    { m.block c with phys := 0, phys2 := 0, pc := pcInvalid } := by
  simp only [forget, clearPhys, modify, Function.update_self]

theorem DirtyAt.sameLinks {l : List Nat} (dirtyAt : m.DirtyAt l) (same : SameLinks m m') :
    m'.DirtyAt l :=
  dirtyAt.congr (fun n _ => same.next n) (fun n _ => same.prev n) (same.head .dirty) same.tail
    same.size

/-- The deletion of a dirty block. -/
theorem Resetting.deleteDirty (resetting : m.Resetting c dirty) (member : c ∈ dirty) :
    ResetStep c dirty (dirty.erase c) m ((m.clearPhys c).deleteBlock c) := by
  have same := m.sameLinks_forget_clearPhys (c := c)
  have unlinked : Unlinked .dirty c ((m.clearPhys c).forget c) _ := unlinked_blockDirtyListRemove
  have nextMem := resetting.dirtyAt.list.next_mem member
  have prevMem := resetting.dirtyAt.list.prev_mem member
  have flags : ((m.clearPhys c).block c).flags.inDirtyList = true := by
    rw [clearPhys, block_modify_self]
    exact ((resetting.mem c).mp member).2
  have eq : (m.clearPhys c).deleteBlock c = ((((m.clearPhys c).forget c).blockDirtyListRemove
      c).wasmFreeBlock c).blockFreeListAdd c := by
    rw [deleteBlock_eq, if_pos flags]
  obtain ⟨links, page, -⟩ := (((m.clearPhys c).forget c).blockDirtyListRemove c).freed_frame c
  refine ⟨deleted_deleteBlock, ?_, fun n => ?_, fun n nonzero other out => .inl ?_,
    fun n nonzero other out => .inl ?_, fun p _ => ?_⟩
  · rw [eq]
    exact ((resetting.dirtyAt.sameLinks same).unlink member unlinked).freed
      resetting.dirtyAt.list.nodup.not_mem_erase
  · rw [resetting.dirtyAt.list.nodup.mem_erase_iff, and_comm]
  · rw [eq, (links n other).2, unlinked.prev n nonzero other, same.next, same.prev, same.prev, if_neg]
    rintro rfl
    exact (nextMem.resolve_left nonzero |> out).elim
  · rw [eq, (links n other).1, unlinked.next n nonzero other, same.prev, same.next, same.next, if_neg]
    rintro rfl
    exact (prevMem.resolve_left nonzero |> out).elim
  · rw [eq, page]
    exact ⟨(unlinked.sameHead (.page p) (by simp)).trans (same.head (.page p)),
      (unlinked.head2 p).trans (same.head2 p)⟩

/-- The deletion of a block that is on its pages' lists, or on none. -/
theorem Resetting.deleteClean (resetting : m.Resetting c dirty) (inRange : InRange c)
    (out : c ∉ dirty) (notFree : (m.block c).flags.inFreeList = false) :
    ResetStep c dirty dirty m ((m.clearPhys c).deleteBlock c) := by
  have same := m.sameLinks_forget_clearPhys (c := c)
  have block := m.block_forget_clearPhys (c := c)
  have clean : ((m.clearPhys c).block c).flags.inDirtyList = false := by
    rw [clearPhys, block_modify_self, ← Bool.not_eq_true]
    exact fun dirty => out ((resetting.mem c).mpr ⟨inRange, dirty⟩)
  have eq : (m.clearPhys c).deleteBlock c = ((((m.clearPhys c).forget c).removeFromBlockList
      c).wasmFreeBlock c).blockFreeListAdd c := by
    rw [deleteBlock_eq, if_neg (by simp [clean])]
  have mem (n : Nat) : n ∈ dirty ↔ n ∈ dirty ∧ n ≠ c :=
    ⟨fun inList => ⟨inList, fun same => out (same ▸ inList)⟩, And.left⟩
  obtain ⟨links, page, -⟩ := (((m.clearPhys c).forget c).removeFromBlockList c).freed_frame c
  by_cases mask : (m.block c).pageMask = 0
  · have idle : ((m.clearPhys c).forget c).removeFromBlockList c = (m.clearPhys c).forget c := by
      rw [removeFromBlockList, if_pos (by rw [block]; exact mask)]
    rw [idle] at links page eq
    refine ⟨deleted_deleteBlock, ?_, mem, fun n _ other _ => .inl ?_, fun n _ other _ => .inl ?_,
      fun p _ => ?_⟩
    · rw [eq]
      exact (resetting.dirtyAt.sameLinks same).freed out
    · rw [eq, (links n other).2, same.prev]
    · rw [eq, (links n other).1, same.next]
    · rw [eq, page]
      exact ⟨same.head (.page p), same.head2 p⟩
  · obtain ⟨next, prev, head, tail, pages⟩ :=
      ((m.clearPhys c).forget c).removeFromBlockList_frame c (by rw [block]) (by rw [block])
        (by rw [block]; exact mask)
    obtain ⟨prevOut, nextOut⟩ := resetting.apart c inRange out notFree mask
    refine ⟨deleted_deleteBlock, ?_, mem, fun n nonzero other _ => ?_, fun n nonzero other _ => ?_,
      fun p outside => ?_⟩
    · rw [eq]
      refine DirtyAt.freed ?_ out
      have before := resetting.dirtyAt.sameLinks same
      have nonzero (n : Nat) (inList : n ∈ dirty) := before.list.ne_zero inList
      have other (n : Nat) (inList : n ∈ dirty) : n ≠ c := ((mem n).mp inList).2
      refine before.congr (fun n inList => ?_) (fun n inList => ?_) head tail
        dirtyListSize_removeFromBlockList
      · rw [next n (nonzero n inList) (other n inList), if_neg]
        rw [same.prev]
        exact fun self => prevOut (self ▸ inList)
      · rw [prev n (nonzero n inList) (other n inList), if_neg]
        rw [same.next]
        exact fun self => nextOut (self ▸ inList)
    · rw [eq, (links n other).2, prev n nonzero other]
      split
      · exact .inr (same.prev c ▸ prevOut)
      · exact .inl (same.prev n)
    · rw [eq, (links n other).1, next n nonzero other]
      split
      · exact .inr (same.next c ▸ nextOut)
      · exact .inl (same.next n)
    · have nonzero : p ≠ 0 := by
        rintro rfl
        rcases resetting.zero with positive | empty
        · exact absurd outside (Nat.not_le_of_gt positive)
        · exact mask (empty c inRange notFree out)
      rw [eq, page]
      exact ⟨(pages p nonzero).1.trans (same.head (.page p)), (pages p nonzero).2.trans (same.head2 p)⟩

/-- The loop empties the dirty list and leaves the pages past the installed memory alone. -/
theorem Resetting.deleteAll (resetting : m.Resetting c dirty) (positive : 0 < c) (fuel : Nat)
    (bound : c + fuel ≤ blockSize) :
    ∃ dirty', (m.deleteAll fuel c).Resetting (c + fuel) dirty' := by
  induction fuel generalizing m c dirty with
  | zero => exact ⟨dirty, resetting⟩
  | succ fuel ih =>
    have inRange : InRange c := ⟨positive, by omega⟩
    have next : ∃ dirty', ((if (m.block c).pc ≠ pcInvalid then
        (m.clearPhys c).deleteBlock c else m).Resetting (c + 1) dirty') := by
      split
      case isTrue coded =>
        have notFree : (m.block c).flags.inFreeList = false := by
          rw [← Bool.not_eq_true, ← resetting.pc c inRange]
          exact coded
        by_cases member : c ∈ dirty
        · exact ⟨_, resetting.step inRange (resetting.deleteDirty member)⟩
        · exact ⟨_, resetting.step inRange (resetting.deleteClean inRange member notFree)⟩
      case isFalse invalid =>
        rw [not_not, resetting.pc c inRange] at invalid
        refine ⟨dirty, { resetting with ahead := fun n inList => ?_ }⟩
        refine Nat.lt_of_le_of_ne (resetting.ahead n inList) ?_
        rintro rfl
        have inDirtyList := ((resetting.mem c).mp inList).2
        rw [resetting.exclusive c inRange invalid] at inDirtyList
        cases inDirtyList
    obtain ⟨dirty', next⟩ := next
    obtain ⟨last, done⟩ := ih next (Nat.succ_pos c) (by omega)
    rw [Nat.add_right_comm, Nat.add_assoc] at done
    exact ⟨last, done⟩

/-- After the loop no block is dirty. -/
theorem Resetting.done (resetting : m.Resetting blockSize dirty) : dirty = [] := by
  refine List.eq_nil_iff_forall_not_mem.mpr fun n inList => ?_
  exact Nat.not_lt_of_ge (resetting.ahead n inList) ((resetting.mem n).mp inList).1.2

/-- The loop starts from any state with the invariant. -/
theorem Listed.resetting (listed : m.Listed open_) (coded : m.Coded exempt)
    (openMask : ∀ n, open_ = some n → (m.block n).pageMask = 0)
    (pages : ∀ p, m.memPages ≤ p → (m.page p).block = 0 ∧ (m.page p).block2 = 0) :
    ∃ dirty, m.Resetting 1 dirty := by
  obtain ⟨free, lists, lists2, linked, placed⟩ := listed
  have live {n : Nat} (inRange : InRange n) (out : n ∉ lists .dirty)
      (notFree : (m.block n).flags.inFreeList = false) (mask : (m.block n).pageMask ≠ 0) :
      n ∈ lists (.page (pageOf (m.block n).phys)) := by
    refine (placed.page _ n).mpr ⟨⟨inRange, notFree, ?_, fun isOpen => mask (openMask n isOpen)⟩, rfl⟩
    rw [← Bool.not_eq_true]
    exact fun dirty => out ((placed.dirty n).mpr ⟨inRange, dirty⟩)
  have outside {p n : Nat} (inList : n ∈ lists (.page p)) : n ∉ lists .dirty := fun dirty => by
    cases linked.first.apart _ _ n inList dirty
  have zeroOut : 0 ∉ lists .dirty := fun inList =>
    (linked.first.list .dirty).ne_zero inList rfl
  refine ⟨lists .dirty, linked.dirtyAt, placed.dirty, fun n inList => ?_, coded.pc,
    placed.exclusive, fun n inRange out notFree mask => ?_, ?_, pages⟩
  · exact ((placed.dirty n).mp inList).1.1
  · have member := live inRange out notFree mask
    refine ⟨?_, ?_⟩
    · rcases (linked.first.list _).prev_mem member with zero | inList
      · rwa [zero]
      · exact outside inList
    · rcases (linked.first.list _).next_mem member with zero | inList
      · rwa [zero]
      · exact outside inList
  · rcases Nat.eq_zero_or_pos m.memPages with none | some
    · refine .inr fun n inRange notFree out => ?_
      by_contra mask
      have member := live inRange out notFree mask
      have head : m.head (.page (pageOf (m.block n).phys)) = 0 :=
        (pages _ (none ▸ Nat.zero_le _)).1
      have list := linked.first.list (.page (pageOf (m.block n).phys))
      rw [head] at list
      cases inList : lists (.page (pageOf (m.block n).phys)) with
      | nil => simp [inList] at member
      | cons a l =>
        rw [inList] at list
        exact list.ne_zero (.head _) list.head_eq.symm
    · exact .inl some

/-- What is left is cleared. -/
theorem Resetting.cleared (resetting : m.Resetting blockSize dirty) :
    Cleared { ({ m with block := fun _ => .zero, hash := fun _ => 0 } : Machine).memResetPageBlocks
      with freeList := 0 } := by
  have empty := resetting.done
  subst empty
  refine ⟨fun _ => rfl, fun _ => rfl, fun p => ?_, rfl, ?_⟩
  · by_cases inside : p < m.memPages
    · simp [memResetPageBlocks, inside]
    · simp only [memResetPageBlocks, if_neg inside]
      exact resetting.page p (Nat.le_of_not_lt inside)
  · exact ⟨resetting.dirtyAt.list.head_eq, resetting.dirtyAt.tail, resetting.dirtyAt.size⟩

/-- `codegen_reset` restores the invariant, if no page past the installed memory has blocks. -/
theorem Resetting.codegenReset (resetting : m.Resetting 1 dirty) : m.codegenReset.Kept none none := by
  obtain ⟨last, done⟩ := resetting.deleteAll Nat.one_pos (blockSize - 1) (by decide)
  have total : 1 + (blockSize - 1) = blockSize := by decide
  rw [total] at done
  exact done.cleared.pushFree

end Machine

end PCemWeb.Codegen
