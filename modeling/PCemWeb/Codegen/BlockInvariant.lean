import PCemWeb.Codegen.BlockLists

/-!
# The invariant of the code blocks

`Kept` joins the lists with what the blocks' fields say: a block without code is free, the
hash table refers to blocks with code under their own hash, and a live block has code in its
first page, without which `remove_from_block_list` would not unlink it. A block being marked
or compiled is exempt from the last.
-/

namespace PCemWeb.Codegen

open PCemWeb.Lib

namespace Machine

variable {m m' : Machine} {nr n p : Nat} {open_ exempt exempt' : Option Nat}

structure Coded (m : Machine) (exempt : Option Nat) : Prop where
  pc : ∀ n, InRange n → ((m.block n).pc = pcInvalid ↔ (m.block n).flags.inFreeList = true)
  pcZero : (m.block 0).pc = pcInvalid
  hash : ∀ h, m.hash h ≠ 0 → InRange (m.hash h) ∧
    (m.block (m.hash h)).flags.inFreeList = false ∧ hashOf (m.block (m.hash h)).phys = h
  mask : ∀ n, m.Live exempt n → (m.block n).pageMask ≠ 0

structure Kept (m : Machine) (open_ exempt : Option Nat) : Prop where
  listed : m.Listed open_
  size : m.dirtyListSize ≤ dirtyListMaxSize
  coded : m.Coded exempt

/-! ## Fields -/

/-- The fields `Coded` reads are the same, but for the mask of an exempt block. -/
structure SameCode (exempt : Option Nat) (m m' : Machine) : Prop where
  pc : ∀ n, (m'.block n).pc = (m.block n).pc
  inFreeList : ∀ n, (m'.block n).flags.inFreeList = (m.block n).flags.inFreeList
  inDirtyList : ∀ n, (m'.block n).flags.inDirtyList = (m.block n).flags.inDirtyList
  phys : ∀ n, (m'.block n).phys = (m.block n).phys
  pageMask : ∀ n, exempt ≠ some n → (m'.block n).pageMask = (m.block n).pageMask
  hash : m'.hash = m.hash

theorem Coded.congr (coded : m.Coded exempt) (same : SameCode exempt m m') :
    m'.Coded exempt where
  pc n := by simpa only [same.pc, same.inFreeList] using coded.pc n
  pcZero := by simpa only [same.pc] using coded.pcZero
  hash := by simpa only [same.hash, same.inFreeList, same.phys] using coded.hash
  mask n live := by
    have live' : m.Live exempt n := by
      simpa only [Live, same.inFreeList, same.inDirtyList] using live
    rw [same.pageMask n live'.2.2.2]
    exact coded.mask n live'

/-- Exempting one more block asks for less. -/
theorem Coded.exemptBlock (coded : m.Coded none) (nr : Nat) : m.Coded (some nr) :=
  { coded with
    mask := fun n live => coded.mask n ⟨live.1, live.2.1, live.2.2.1, nofun⟩ }

theorem Coded.reflagged {φ : BlockFlags → BlockFlags} (coded : m.Coded exempt)
    (reflagged : Reflagged nr φ m m')
    (inFreeList : (φ (m.block nr).flags).inFreeList = (m.block nr).flags.inFreeList)
    (inDirtyList : exempt = some nr ∨ ((φ (m.block nr).flags).inDirtyList = false →
      (m.block nr).flags.inDirtyList = false)) : m'.Coded exempt := by
  have free (n : Nat) : (m'.block n).flags.inFreeList = (m.block n).flags.inFreeList := by
    grind [reflagged.flags n]
  have pc := reflagged.proj CodeBlock.pc fun _ _ => rfl
  have phys := reflagged.proj CodeBlock.phys fun _ _ => rfl
  have pageMask := reflagged.proj CodeBlock.pageMask fun _ _ => rfl
  constructor
  case pc => simpa only [pc, free] using coded.pc
  case pcZero => simpa only [pc] using coded.pcZero
  case hash => simpa only [reflagged.hash, free, phys] using coded.hash
  case mask =>
    intro n live
    rw [pageMask]
    refine coded.mask n ?_
    grind [Live, reflagged.flags n]

/-- A deleted block is free, and nothing refers to it any more. -/
theorem Coded.deleted (coded : m.Coded exempt) (deleted : Deleted nr m m') (inRange : InRange nr)
    (closes : exempt' = exempt ∨ exempt = some nr) : m'.Coded exempt' := by
  have core {α : Type} (π : CodeBlock → α) (ofCore : ∀ b, π b.core = π b) (n : Nat)
      (other : n ≠ nr) : π (m'.block n) = π (m.block n) :=
    CodeBlock.proj_of_core (deleted.others n other) π ofCore
  have flags := core CodeBlock.flags fun _ => rfl
  constructor
  case pc =>
    intro n inRange'
    rcases eq_or_ne n nr with rfl | other
    · simp [deleted.blank.pc, deleted.blank.flags]
    · rw [core CodeBlock.pc (fun _ => rfl) n other, flags n other]
      exact coded.pc n inRange'
  case pcZero =>
    rw [core CodeBlock.pc (fun _ => rfl) 0 inRange.ne_zero.symm]
    exact coded.pcZero
  case hash =>
    intro h nonzero
    have kept : m'.hash h = m.hash h ∧ m.hash h ≠ nr := by
      have home := coded.hash h
      rw [deleted.hash, hashWithout] at nonzero ⊢
      by_cases listed : m.hash (hashOf (m.block nr).phys) = nr
      · rw [if_pos listed] at nonzero ⊢
        rcases eq_or_ne h (hashOf (m.block nr).phys) with rfl | elsewhere
        · rw [Function.update_self] at nonzero
          exact absurd rfl nonzero
        · rw [Function.update_of_ne elsewhere] at nonzero ⊢
          refine ⟨rfl, fun same => elsewhere ?_⟩
          rw [← (home nonzero).2.2, same]
      · rw [if_neg listed] at nonzero ⊢
        refine ⟨rfl, fun same => listed ?_⟩
        obtain ⟨-, -, hashed⟩ := home nonzero
        rw [same] at hashed
        rw [hashed, same]
    rw [kept.1] at nonzero ⊢
    rw [flags _ kept.2, core CodeBlock.phys (fun _ => rfl) _ kept.2]
    exact coded.hash h nonzero
  case mask =>
    intro n live
    obtain ⟨inRange', notFree, clean, notExempt⟩ := live
    rcases eq_or_ne n nr with rfl | other
    · simp [deleted.blank.flags] at notFree
    · rw [flags n other] at notFree clean
      rw [core CodeBlock.pageMask (fun _ => rfl) n other]
      refine coded.mask n ⟨inRange', notFree, clean, ?_⟩
      rcases closes with rfl | rfl
      · exact notExempt
      · simp [other.symm]

/-! ## Deleting a block -/

theorem sameLists_forget : SameLists m (m.forget nr) := by
  have hashed : SameLists m { m with hash := m.hashWithout nr } := .of_eq rfl rfl rfl rfl rfl rfl
  exact hashed.trans (.modify ⟨rfl, rfl, rfl, rfl⟩ ⟨rfl, rfl, rfl⟩ ⟨rfl, rfl⟩)

theorem sameLists_wasmFreeBlock : SameLists m (m.wasmFreeBlock nr) := by
  rw [wasmFreeBlock_eq]
  have released : SameLists m { m with wasm := m.wasm.release (m.block nr).wasmFnIdx } :=
    .of_eq rfl rfl rfl rfl rfl rfl
  exact released.trans (.modify ⟨rfl, rfl, rfl, rfl⟩ ⟨rfl, rfl, rfl⟩ ⟨rfl, rfl⟩)

theorem sameCode_wasmFreeBlock : SameCode exempt m (m.wasmFreeBlock nr) := by
  rw [wasmFreeBlock_eq]
  constructor <;> intros <;> grind [hash_modify]

/-- The rest of a deletion, of a block already unlinked. -/
theorem Listed.freed (listed : m.Listed (some nr)) :
    ((m.wasmFreeBlock nr).blockFreeListAdd nr).Listed none :=
  (listed.congr sameLists_wasmFreeBlock).blockFreeListAdd

theorem dirtyListSize_removeFromBlockList :
    (m.removeFromBlockList nr).dirtyListSize = m.dirtyListSize := by
  unfold removeFromBlockList
  split
  · rfl
  · dsimp only
    split
    · exact unlinked2_removeFromPage2.size.trans unlinked_removeFromPage.size
    · exact unlinked_removeFromPage.size

/-- A dirty block, or a live block with code in its first page, is deleted. -/
theorem Kept.deleteBlock (kept : m.Kept none exempt) (inRange : InRange nr)
    (notFree : (m.block nr).flags.inFreeList = false)
    (unlinkable : (m.block nr).flags.inDirtyList = true ∨ (m.block nr).pageMask ≠ 0)
    (closes : exempt' = exempt ∨ exempt = some nr) : (m.deleteBlock nr).Kept none exempt' where
  listed := by
    have same : SameLists m (m.forget nr) := sameLists_forget
    have listed := kept.listed.congr same
    rw [deleteBlock_eq]
    split
    case isTrue dirty =>
      exact (listed.blockDirtyListRemove inRange (by rw [same.inDirtyList, dirty])).freed
    case isFalse clean =>
      rw [Bool.not_eq_true] at clean
      refine (listed.removeFromBlockList (same.live.mpr ⟨inRange, notFree, clean, nofun⟩) ?_).freed
      rw [forget, block_modify_self]
      exact unlinkable.resolve_left (by simp [clean])
  size := by
    rw [deleteBlock_eq, blockFreeListAdd, wasmFreeBlock_eq]
    refine Nat.le_trans ?_ kept.size
    split
    · exact unlinked_blockDirtyListRemove.size ▸ Nat.sub_le _ _
    · exact Nat.le_of_eq dirtyListSize_removeFromBlockList
  coded := kept.coded.deleted deleted_deleteBlock inRange closes

/-- The block under construction is deleted. -/
theorem Kept.deleteOpen (kept : m.Kept (some nr) exempt) (mask : (m.block nr).pageMask = 0)
    (closes : exempt' = exempt ∨ exempt = some nr) : (m.deleteBlock nr).Kept none exempt' where
  listed := by
    have forgotten : ((m.forget nr).block nr).pageMask = 0 := by
      rw [forget, block_modify_self]
      exact mask
    rw [deleteBlock_eq, kept.listed.openBlock.2.2, if_neg (by simp), removeFromBlockList,
      if_pos forgotten]
    exact (kept.listed.congr sameLists_forget).freed
  size := by
    rw [deleteBlock_eq, kept.listed.openBlock.2.2, if_neg (by simp), blockFreeListAdd,
      wasmFreeBlock_eq]
    exact Nat.le_trans (Nat.le_of_eq dirtyListSize_removeFromBlockList) kept.size
  coded := by
    exact kept.coded.deleted deleted_deleteBlock kept.listed.openBlock.1 closes

/-! ## Invalidating a block -/

/-- The oldest dirty block makes room. -/
theorem Kept.evictDirtyTail (listed : m.Listed none) (coded : m.Coded none)
    (full : m.dirtyListSize = dirtyListMaxSize + 1) : m.evictDirtyTail.Kept none none where
  listed := by
    have nonempty := listed.dirtyTail_ne_zero (by simp [full])
    have dropped := listed.dropDirtyTail nonempty (by simp [full, dirtyListMaxSize])
    rw [Machine.evictDirtyTail, deleteDirtyBlock_eq]
    exact (dropped.congr sameLists_forget).freed
  size := by
    rw [Machine.evictDirtyTail, deleteDirtyBlock_eq, blockFreeListAdd, wasmFreeBlock_eq]
    exact Nat.le_of_eq (congrArg (· - 1) full)
  coded := by
    have nonempty := listed.dirtyTail_ne_zero (by simp [full])
    exact coded.deleted deleted_evictDirtyTail (listed.dirtyTail nonempty).1 (.inl rfl)

theorem Kept.blockDirtyListAdd (kept : m.Kept (some nr) none) :
    (m.blockDirtyListAdd nr).Kept none none := by
  have listed := kept.listed.pushDirty
  have coded : (m.pushDirty nr).Coded none :=
    kept.coded.reflagged reflagged_pushDirty rfl (.inr nofun)
  have size : (m.pushDirty nr).dirtyListSize = m.dirtyListSize + 1 := pushed_pushDirty.size
  have bound := kept.size
  unfold Machine.blockDirtyListAdd
  dsimp only
  split
  case isTrue full => exact .evictDirtyTail listed coded (by omega)
  case isFalse room => exact ⟨listed, by omega, coded⟩

theorem Kept.removeFromBlockList (kept : m.Kept none none) (live : m.Live none nr) :
    (m.removeFromBlockList nr).Kept (some nr) none where
  listed := kept.listed.removeFromBlockList live (kept.coded.mask nr live)
  size := Nat.le_trans (Nat.le_of_eq dirtyListSize_removeFromBlockList) kept.size
  coded := by
    refine kept.coded.reflagged reflagged_removeFromBlockList ?_ (.inr fun clean => ?_)
    · unfold unlistedFlags
      split <;> rfl
    · exact live.2.2.1

theorem Kept.wasmFreeBlock (kept : m.Kept open_ exempt) :
    (m.wasmFreeBlock nr).Kept open_ exempt :=
  ⟨kept.listed.congr sameLists_wasmFreeBlock, by rw [wasmFreeBlock_eq]; exact kept.size,
    kept.coded.congr sameCode_wasmFreeBlock⟩

theorem Kept.invalidateBlock (kept : m.Kept none none) (live : m.Live none nr) :
    (m.invalidateBlock nr).Kept none none :=
  (kept.removeFromBlockList live).blockDirtyListAdd.wasmFreeBlock

/-- What a core determines of a block on its page's lists. -/
theorem live_of_core (core : (m'.block n).core = (m.block n).core) (live : m.Live none n) :
    m'.Live none n ∧ (m'.block n).phys = (m.block n).phys ∧ (m'.block n).phys2 = (m.block n).phys2 ∧
      (m'.block n).flags = (m.block n).flags := by
  have flags : (m'.block n).flags = (m.block n).flags := CodeBlock.proj_of_core core CodeBlock.flags fun _ => rfl
  refine ⟨⟨live.1, ?_, ?_, nofun⟩, CodeBlock.proj_of_core core CodeBlock.phys fun _ => rfl,
    CodeBlock.proj_of_core core CodeBlock.phys2 fun _ => rfl, flags⟩
  · rw [flags, live.2.1]
  · rw [flags, live.2.2.1]

/-- Invalidating a block leaves every other live block as it is, but for its links. -/
theorem Kept.core_invalidateBlock (kept : m.Kept none none) (live : m.Live none nr)
    (other : n ≠ nr) (live' : m.Live none n) :
    ((m.invalidateBlock nr).block n).core = (m.block n).core := by
  have removed : Reflagged nr _ m (m.removeFromBlockList nr) := reflagged_removeFromBlockList
  have pushed : Reflagged nr _ (m.removeFromBlockList nr) ((m.removeFromBlockList nr).pushDirty nr) :=
    reflagged_pushDirty
  have listed := (kept.removeFromBlockList live).listed.pushDirty
  have core : ((((m.removeFromBlockList nr).pushDirty nr).block n).core) = (m.block n).core := by
    rw [pushed.core, if_neg other, removed.core, if_neg other]
  have added : (((m.removeFromBlockList nr).blockDirtyListAdd nr).block n).core =
      (m.block n).core := by
    unfold Machine.blockDirtyListAdd
    dsimp only
    split
    case isTrue full =>
      have dirty := (listed.dirtyTail (listed.dirtyTail_ne_zero (Nat.ne_of_gt
        (Nat.lt_of_le_of_lt (Nat.zero_le _) full)))).2.1
      refine (deleted_evictDirtyTail.others n fun tail => ?_).trans core
      have clean := (live_of_core core live').1.2.2.1
      rw [tail, dirty] at clean
      cases clean
    case isFalse => exact core
  rw [Machine.invalidateBlock, wasmFreeBlock_eq, block_modify_of_ne other]
  exact added

/-! ## Flushing a page -/

/-- A cursor of `codegen_check_flush`: the end, or a block on the page's list. -/
def OnPage (m : Machine) (p nr : Nat) : Prop :=
  nr = 0 ∨ m.Live none nr ∧ pageOf (m.block nr).phys = p

def OnPage2 (m : Machine) (p nr : Nat) : Prop :=
  nr = 0 ∨ m.Live none nr ∧ (m.block nr).flags.hasPage2 = true ∧ pageOf (m.block nr).phys2 = p

theorem Listed.next_onPage (listed : m.Listed none) (live : m.Live none nr) :
    m.OnPage (pageOf (m.block nr).phys) (m.block nr).next ∧ (m.block nr).next ≠ nr := by
  obtain ⟨free, lists, lists2, linked, placed⟩ := listed
  have member := (placed.page _ nr).mpr ⟨live, rfl⟩
  refine ⟨?_, (linked.first.list _).next_ne member⟩
  rcases (linked.first.list _).next_mem member with zero | inList
  · exact .inl zero
  · exact .inr ((placed.page _ _).mp inList)

theorem Listed.next_onPage2 (listed : m.Listed none) (live : m.Live none nr)
    (two : (m.block nr).flags.hasPage2 = true) :
    m.OnPage2 (pageOf (m.block nr).phys2) (m.block nr).next2 ∧ (m.block nr).next2 ≠ nr := by
  obtain ⟨free, lists, lists2, linked, placed⟩ := listed
  have member := (placed.page2 _ nr).mpr ⟨live.1, two, rfl⟩
  refine ⟨?_, (linked.second.list _).next_ne member⟩
  rcases (linked.second.list _).next_mem member with zero | inList
  · exact .inl zero
  · obtain ⟨inRange, two', page⟩ := (placed.page2 _ _).mp inList
    exact .inr ⟨placed.hasPage2 _ inRange two', two', page⟩

theorem Listed.head_onPage (listed : m.Listed none) : m.OnPage p (m.page p).block := by
  obtain ⟨free, lists, lists2, linked, placed⟩ := listed
  rcases eq_or_ne (m.page p).block 0 with zero | nonzero
  · exact .inl zero
  · exact .inr ((placed.page p _).mp ((linked.first.list (.page p)).head_mem nonzero))

theorem Listed.head_onPage2 (listed : m.Listed none) : m.OnPage2 p (m.page p).block2 := by
  obtain ⟨free, lists, lists2, linked, placed⟩ := listed
  rcases eq_or_ne (m.page p).block2 0 with zero | nonzero
  · exact .inl zero
  · obtain ⟨inRange, two, page⟩ := (placed.page2 p _).mp ((linked.second.list p).head_mem nonzero)
    exact .inr ⟨placed.hasPage2 _ inRange two, two, page⟩

/-- Invalidating a block leaves a cursor past it in place. -/
theorem Kept.onPage_invalidateBlock (kept : m.Kept none none) (live : m.Live none nr)
    (cursor : m.OnPage p n) (other : n ≠ nr) : (m.invalidateBlock nr).OnPage p n := by
  rcases cursor with zero | ⟨live', page⟩
  · exact .inl zero
  · obtain ⟨live'', phys, -, -⟩ := live_of_core (kept.core_invalidateBlock live other live') live'
    exact .inr ⟨live'', phys ▸ page⟩

theorem Kept.onPage2_invalidateBlock (kept : m.Kept none none) (live : m.Live none nr)
    (cursor : m.OnPage2 p n) (other : n ≠ nr) : (m.invalidateBlock nr).OnPage2 p n := by
  rcases cursor with zero | ⟨live', two, page⟩
  · exact .inl zero
  · obtain ⟨live'', -, phys2, flags⟩ :=
      live_of_core (kept.core_invalidateBlock live other live') live'
    exact .inr ⟨live'', flags ▸ two, phys2 ▸ page⟩

theorem Kept.flushPageList (fuel : Nat) (kept : m.Kept none none) (cursor : m.OnPage p nr) :
    (m.flushPageList fuel nr).Kept none none := by
  induction fuel generalizing m nr with
  | zero => exact kept
  | succ fuel ih =>
    unfold Machine.flushPageList
    split
    case isTrue => exact kept
    case isFalse nonzero =>
      obtain ⟨live, rfl⟩ := cursor.resolve_left nonzero
      obtain ⟨next, other⟩ := kept.listed.next_onPage live
      dsimp only
      split
      case isTrue =>
        exact ih (kept.invalidateBlock live) (kept.onPage_invalidateBlock live next other)
      case isFalse => exact ih kept next

theorem Kept.flushPageList2 (fuel : Nat) (kept : m.Kept none none) (cursor : m.OnPage2 p nr) :
    (m.flushPageList2 fuel nr).Kept none none := by
  induction fuel generalizing m nr with
  | zero => exact kept
  | succ fuel ih =>
    unfold Machine.flushPageList2
    split
    case isTrue => exact kept
    case isFalse nonzero =>
      obtain ⟨live, two, rfl⟩ := cursor.resolve_left nonzero
      obtain ⟨next, other⟩ := kept.listed.next_onPage2 live two
      dsimp only
      split
      case isTrue =>
        exact ih (kept.invalidateBlock live) (kept.onPage2_invalidateBlock live next other)
      case isFalse => exact ih kept next

theorem Kept.codegenCheckFlush (kept : m.Kept none none) : (m.codegenCheckFlush p).Kept none none := by
  have first := kept.flushPageList blockSize kept.listed.head_onPage (p := p)
  have second := first.flushPageList2 blockSize first.listed.head_onPage2 (p := p)
  unfold Machine.codegenCheckFlush
  exact ⟨second.listed.congr (.modifyPage rfl rfl), second.size,
    second.coded.congr ⟨fun _ => rfl, fun _ => rfl, fun _ => rfl, fun _ => rfl, fun _ _ => rfl, rfl⟩⟩

end Machine

end PCemWeb.Codegen
