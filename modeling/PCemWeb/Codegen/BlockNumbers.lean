import PCemWeb.Codegen.BlockReset

/-!
# Block numbers

Every link, list head and hash entry is the number of a block, whatever lists the links form. So
far the lists were consistent; these bounds hold without that.
-/

namespace PCemWeb.Codegen

/-- The links of a block are block numbers. -/
structure CodeBlock.Bounded (b : CodeBlock) : Prop where
  next : b.next < blockSize
  prev : b.prev < blockSize
  next2 : b.next2 < blockSize
  prev2 : b.prev2 < blockSize

namespace Machine

variable {m m' : Machine} {nr n p : Nat} {f : CodeBlock → CodeBlock} {g : Page → Page}

theorem zero_lt_blockSize : 0 < blockSize := by decide

structure Bounded (m : Machine) : Prop where
  block : ∀ n, (m.block n).Bounded
  head : ∀ p, (m.page p).block < blockSize
  head2 : ∀ p, (m.page p).block2 < blockSize
  freeList : m.freeList < blockSize
  current : m.blockCurrent < blockSize
  dirtyHead : m.dirtyHead < blockSize
  dirtyTail : m.dirtyTail < blockSize
  hash : ∀ h, m.hash h < blockSize

/-! ## Primitive writes -/

theorem Bounded.modify (bounded : m.Bounded) (links : (f (m.block nr)).Bounded) :
    (m.modify nr f).Bounded :=
  { bounded with
    block := fun n => by
      rw [block_modify]
      split
      · exact links
      · exact bounded.block n }

theorem Bounded.modifyPage (bounded : m.Bounded) (head : (g (m.page p)).block < blockSize)
    (head2 : (g (m.page p)).block2 < blockSize) : (m.modifyPage p g).Bounded :=
  { bounded with
    head := fun q => by
      rw [page_modifyPage]
      split
      · exact head
      · exact bounded.head q
    head2 := fun q => by
      rw [page_modifyPage]
      split
      · exact head2
      · exact bounded.head2 q }

theorem Bounded.setDirtyHead (bounded : m.Bounded) (number : nr < blockSize) :
    (m.setDirtyHead nr).Bounded := { bounded with dirtyHead := number }

theorem Bounded.setDirtyTail (bounded : m.Bounded) (number : nr < blockSize) :
    (m.setDirtyTail nr).Bounded := { bounded with dirtyTail := number }

theorem Bounded.setDirtyListSize (bounded : m.Bounded) : (m.setDirtyListSize n).Bounded :=
  { bounded with }

theorem Bounded.setHash (bounded : m.Bounded) (phys : Nat) (number : nr < blockSize) :
    (m.setHash phys nr).Bounded :=
  { bounded with
    hash := fun h => by
      simp only [Machine.setHash, Function.update_apply]
      split
      · exact number
      · exact bounded.hash h }

theorem Bounded.flushWritePage (bounded : m.Bounded) (addr virt : Nat) :
    (m.flushWritePage addr virt).Bounded := { bounded with }

/-- Writes to other fields than the links. -/
theorem Bounded.relabel (bounded : m.Bounded)
    (next : (f (m.block nr)).next = (m.block nr).next)
    (prev : (f (m.block nr)).prev = (m.block nr).prev)
    (next2 : (f (m.block nr)).next2 = (m.block nr).next2)
    (prev2 : (f (m.block nr)).prev2 = (m.block nr).prev2) : (m.modify nr f).Bounded :=
  bounded.modify ⟨next ▸ (bounded.block nr).next, prev ▸ (bounded.block nr).prev,
    next2 ▸ (bounded.block nr).next2, prev2 ▸ (bounded.block nr).prev2⟩

theorem Bounded.setNext {next : Nat} (bounded : m.Bounded) (nr : Nat) (number : next < blockSize) :
    (m.modify nr ({ · with next })).Bounded :=
  bounded.modify { bounded.block nr with next := number }

theorem Bounded.setPrev {prev : Nat} (bounded : m.Bounded) (nr : Nat) (number : prev < blockSize) :
    (m.modify nr ({ · with prev })).Bounded :=
  bounded.modify { bounded.block nr with prev := number }

theorem Bounded.setNext2 {next2 : Nat} (bounded : m.Bounded) (nr : Nat) (number : next2 < blockSize) :
    (m.modify nr ({ · with next2 })).Bounded :=
  bounded.modify { bounded.block nr with next2 := number }

theorem Bounded.setPrev2 {prev2 : Nat} (bounded : m.Bounded) (nr : Nat) (number : prev2 < blockSize) :
    (m.modify nr ({ · with prev2 })).Bounded :=
  bounded.modify { bounded.block nr with prev2 := number }

theorem Bounded.setInDirtyList {inDirtyList : Bool} (bounded : m.Bounded) :
    (m.setInDirtyList nr inDirtyList).Bounded := bounded.relabel rfl rfl rfl rfl

theorem Bounded.setHasPage2 {hasPage2 : Bool} (bounded : m.Bounded) :
    (m.setHasPage2 nr hasPage2).Bounded := bounded.relabel rfl rfl rfl rfl

/-! ## Lists -/

theorem Bounded.wasmFreeBlock (bounded : m.Bounded) : (m.wasmFreeBlock nr).Bounded := by
  rw [wasmFreeBlock_eq]
  exact Bounded.relabel { bounded with } rfl rfl rfl rfl

theorem Bounded.blockFreeListAdd (bounded : m.Bounded) (number : nr < blockSize) :
    (m.blockFreeListAdd nr).Bounded := by
  have head : ({ m with freeList := nr } : Machine).Bounded := { bounded with freeList := number }
  have links := bounded.block nr
  unfold Machine.blockFreeListAdd
  exact head.modify ⟨bounded.freeList, links.prev, links.next2, links.prev2⟩

theorem Bounded.forget (bounded : m.Bounded) : (m.forget nr).Bounded := by
  have hash (h : Nat) : m.hashWithout nr h < blockSize := by
    unfold hashWithout
    split
    · rw [Function.update_apply]
      split
      · exact zero_lt_blockSize
      · exact bounded.hash h
    · exact bounded.hash h
  have hashed : ({ m with hash := m.hashWithout nr } : Machine).Bounded :=
    { bounded with hash := hash }
  exact hashed.relabel rfl rfl rfl rfl

theorem Bounded.deleteDirtyBlock (bounded : m.Bounded) (number : nr < blockSize) :
    (m.deleteDirtyBlock nr).Bounded := by
  rw [deleteDirtyBlock_eq]
  exact bounded.forget.wasmFreeBlock.blockFreeListAdd number

theorem Bounded.evictDirtyTail (bounded : m.Bounded) : m.evictDirtyTail.Bounded := by
  have prev := (bounded.block m.dirtyTail).prev
  have dropped : m.dropDirtyTail.Bounded := by
    unfold dropDirtyTail
    exact ((bounded.setDirtyTail prev).setNext _ zero_lt_blockSize).setDirtyListSize.setInDirtyList
  exact dropped.deleteDirtyBlock bounded.dirtyTail

theorem Bounded.takeDirtyTail (bounded : m.Bounded) : m.takeDirtyTail.Bounded := by
  have tail := bounded.setDirtyTail (bounded.block m.dirtyTail).prev
  unfold Machine.takeDirtyTail
  dsimp only
  refine Bounded.setInDirtyList (Bounded.setDirtyListSize ?_)
  split
  · exact tail.setDirtyHead zero_lt_blockSize
  · exact tail.setNext _ zero_lt_blockSize

theorem Bounded.pushDirty (bounded : m.Bounded) (number : nr < blockSize) :
    (m.pushDirty nr).Bounded := by
  have head := bounded.setDirtyHead number
  unfold Machine.pushDirty
  dsimp only
  refine Bounded.setInDirtyList (Bounded.setDirtyListSize ?_)
  split
  · refine Bounded.setPrev (head.modify ?_) _ number
    exact { bounded.block nr with next := bounded.dirtyHead, prev := zero_lt_blockSize }
  · refine (head.setDirtyTail number).modify ?_
    exact { bounded.block nr with next := zero_lt_blockSize, prev := zero_lt_blockSize }

theorem Bounded.blockDirtyListAdd (bounded : m.Bounded) (number : nr < blockSize) :
    (m.blockDirtyListAdd nr).Bounded := by
  unfold Machine.blockDirtyListAdd
  dsimp only
  split
  · exact (bounded.pushDirty number).evictDirtyTail
  · exact bounded.pushDirty number

theorem Bounded.blockDirtyListRemove (bounded : m.Bounded) :
    (m.blockDirtyListRemove nr).Bounded := by
  have next := (bounded.block nr).next
  have prev := (bounded.block nr).prev
  unfold Machine.blockDirtyListRemove
  extract_lets p q first second
  have first : first.Bounded := by
    unfold first
    split
    · exact bounded.setDirtyHead next
    · exact bounded.setNext _ next
  have second : second.Bounded := by
    unfold second
    split
    · exact first.setDirtyTail prev
    · exact first.setPrev _ prev
  exact second.setDirtyListSize.setInDirtyList

theorem Bounded.removeFromPage (bounded : m.Bounded) : (m.removeFromPage nr).Bounded := by
  have next := (bounded.block nr).next
  have prev := (bounded.block nr).prev
  unfold Machine.removeFromPage
  dsimp only
  split
  · split
    · exact (bounded.setNext _ next).setPrev _ prev
    · exact bounded.setNext _ next
  · have paged := bounded.modifyPage (p := pageOf (m.block nr).phys)
      (g := fun q => { q with block := (m.block nr).next }) next (bounded.head2 _)
    split
    · exact paged.setPrev _ zero_lt_blockSize
    · exact paged.flushWritePage ..

theorem Bounded.removeFromPage2 (bounded : m.Bounded) : (m.removeFromPage2 nr).Bounded := by
  have next2 := (bounded.block nr).next2
  have prev2 := (bounded.block nr).prev2
  unfold Machine.removeFromPage2
  dsimp only
  split
  · split
    · exact (bounded.setNext2 _ next2).setPrev2 _ prev2
    · exact bounded.setNext2 _ next2
  · have paged := bounded.modifyPage (p := pageOf (m.block nr).phys2)
      (g := fun q => { q with block2 := (m.block nr).next2 }) (bounded.head _) next2
    split
    · exact paged.setPrev2 _ zero_lt_blockSize
    · exact paged.flushWritePage ..

theorem Bounded.removeFromBlockList (bounded : m.Bounded) :
    (m.removeFromBlockList nr).Bounded := by
  unfold Machine.removeFromBlockList
  dsimp only
  split
  · exact bounded
  · split
    · exact bounded.removeFromPage.setHasPage2.removeFromPage2
    · exact bounded.removeFromPage

theorem Bounded.addToPage (bounded : m.Bounded) (number : nr < blockSize) :
    (m.addToPage nr).Bounded := by
  have head := bounded.head (pageOf (m.block nr).phys)
  unfold Machine.addToPage
  dsimp only
  split
  · have linked := (bounded.setNext nr head).setPrev (m.page (pageOf (m.block nr).phys)).block number
    exact linked.modifyPage number (linked.head2 _)
  · have linked := bounded.setNext nr head
    exact linked.modifyPage number (linked.head2 _)

theorem Bounded.addToPage2 (bounded : m.Bounded) (number : nr < blockSize) :
    (m.addToPage2 nr).Bounded := by
  have head2 := bounded.head2 (pageOf (m.block nr).phys2)
  unfold Machine.addToPage2
  dsimp only
  split
  · have linked := (bounded.setNext2 nr head2).setPrev2
      (m.page (pageOf (m.block nr).phys2)).block2 number
    exact linked.modifyPage (linked.head _) number
  · have linked := bounded.setNext2 nr head2
    exact linked.modifyPage (linked.head _) number

theorem Bounded.addToBlockList (bounded : m.Bounded) (number : nr < blockSize) :
    (m.addToBlockList nr).Bounded := by
  unfold Machine.addToBlockList
  dsimp only
  split
  · exact (bounded.addToPage number).setHasPage2.addToPage2 number
  · exact bounded.addToPage number

theorem Bounded.invalidateBlock (bounded : m.Bounded) (number : nr < blockSize) :
    (m.invalidateBlock nr).Bounded :=
  (bounded.removeFromBlockList.blockDirtyListAdd number).wasmFreeBlock

theorem Bounded.deleteBlock (bounded : m.Bounded) (number : nr < blockSize) :
    (m.deleteBlock nr).Bounded := by
  rw [deleteBlock_eq]
  refine Bounded.blockFreeListAdd (Bounded.wasmFreeBlock ?_) number
  split
  · exact bounded.forget.blockDirtyListRemove
  · exact bounded.forget.removeFromBlockList

/-! ## Flushing and refilling -/

theorem Bounded.flushPageList (fuel : Nat) (bounded : m.Bounded) (number : nr < blockSize) :
    (m.flushPageList fuel nr).Bounded := by
  induction fuel generalizing m nr with
  | zero => exact bounded
  | succ fuel ih =>
    unfold Machine.flushPageList
    dsimp only
    split
    · exact bounded
    · refine ih ?_ (bounded.block nr).next
      split
      · exact bounded.invalidateBlock number
      · exact bounded

theorem Bounded.flushPageList2 (fuel : Nat) (bounded : m.Bounded) (number : nr < blockSize) :
    (m.flushPageList2 fuel nr).Bounded := by
  induction fuel generalizing m nr with
  | zero => exact bounded
  | succ fuel ih =>
    unfold Machine.flushPageList2
    dsimp only
    split
    · exact bounded
    · refine ih ?_ (bounded.block nr).next2
      split
      · exact bounded.invalidateBlock number
      · exact bounded

theorem Bounded.codegenCheckFlush (bounded : m.Bounded) : (m.codegenCheckFlush p).Bounded := by
  have first := bounded.flushPageList blockSize (bounded.head p)
  have second := first.flushPageList2 blockSize (first.head2 p)
  unfold Machine.codegenCheckFlush
  exact second.modifyPage (second.head p) (second.head2 p)

theorem Bounded.refillFreeList {purgeHead rand : Nat} (bounded : m.Bounded)
    (refill : m.refillFreeList purgeHead rand = some m') : m'.Bounded := by
  unfold Machine.refillFreeList at refill
  split at refill
  case isTrue =>
    cases refill
    have taken := bounded.takeDirtyTail.deleteDirtyBlock bounded.dirtyTail
    exact { taken with freeList := bounded.dirtyTail }
  case isFalse =>
    have purged : (m.codegenPurge purgeHead).Bounded := by
      unfold codegenPurge
      split
      · exact bounded.codegenCheckFlush
      · exact bounded
    dsimp only at refill
    split at refill
    case isTrue =>
      cases refill
      exact purged
    case isFalse =>
      obtain ⟨v, found, rfl⟩ := Option.map_eq_some_iff.mp refill
      obtain ⟨inRange, -⟩ := randomVictim_spec found (Nat.mod_lt _ zero_lt_blockSize)
      exact purged.deleteBlock inRange.2

/-- A block off the free list has a number in range. -/
theorem Bounded.blockFreeListGet {purgeHead rand : Nat} (bounded : m.Bounded)
    (get : m.blockFreeListGet purgeHead rand = some (nr, m')) : m'.Bounded ∧ nr < blockSize := by
  obtain ⟨before, refill, popped⟩ := Option.map_eq_some_iff.mp get
  have filled : before.Bounded := by
    split at refill
    case isTrue => exact bounded.refillFreeList refill
    case isFalse =>
      cases refill
      exact bounded
  cases popped
  have links := filled.block before.freeList
  have taken : ({ before with freeList := (before.block before.freeList).next } : Machine).Bounded :=
    { filled with freeList := links.next }
  exact ⟨taken.modify ⟨zero_lt_blockSize, links.prev, links.next2, links.prev2⟩, filled.freeList⟩

/-! ## The life of a block -/

theorem Bounded.codegenBlockInit {a : InitArgs} (bounded : m.Bounded)
    (init : m.codegenBlockInit a = some m') : m'.Bounded := by
  obtain ⟨⟨nr, popped⟩, get, rfl⟩ := Option.map_eq_some_iff.mp init
  have flushed : (if (m.page (pageOf a.phys)).block = 0 then m.flushWritePage a.phys a.pc
      else m).Bounded := by
    split
    · exact bounded.flushWritePage ..
    · exact bounded
  obtain ⟨bounded', number⟩ := flushed.blockFreeListGet get
  have current : ({ popped with
      blockCurrent := nr, recompPage := some (pageOf a.phys) } : Machine).Bounded :=
    { bounded' with current := number }
  exact (current.setHash a.phys number).modify
    ⟨zero_lt_blockSize, zero_lt_blockSize, zero_lt_blockSize, zero_lt_blockSize⟩

/-- The end masks leave the links, or clear them. -/
theorem Bounded.generateEndMaskMark (bounded : m.Bounded) (endpc : Nat) (endPhys : Option Nat) :
    (m.generateEndMaskMark endpc endPhys).Bounded := by
  unfold Machine.generateEndMaskMark
  extract_lets nr pc crosses startPc endPc endPc' mask marked paged mask2 crossed
  have links := bounded.block nr
  have marked : marked.Bounded :=
    bounded.modify ⟨links.next, links.prev, zero_lt_blockSize, zero_lt_blockSize⟩
  have paged : paged.Bounded := marked.modifyPage (marked.head _) (marked.head2 _)
  have crossed : crossed.Bounded := by
    unfold crossed
    split
    case isFalse => exact paged
    case isTrue =>
      cases endPhys with
      | none => exact paged
      | some phys2 =>
        dsimp -zeta only
        extract_lets p2 masked recorded
        have masked : masked.Bounded := paged.relabel rfl rfl rfl rfl
        have recorded : recorded.Bounded := masked.modifyPage (masked.head _) (masked.head2 _)
        split
        · exact recorded.flushWritePage ..
        · exact recorded
  exact { crossed with }

theorem Bounded.present (bounded : m.Bounded) (p : Nat) (byteMask : Bool) (phys : Nat)
    (mask : BitVec 64) : (m.modifyPage p (Page.present · byteMask phys mask)).Bounded := by
  refine bounded.modifyPage ?_ ?_ <;> unfold Page.present <;> split
  · exact bounded.head p
  · exact bounded.head p
  · exact bounded.head2 p
  · exact bounded.head2 p

theorem Bounded.generateEndMaskRecompile (bounded : m.Bounded) (endpc : Nat)
    (endPhys : Option Nat) : (m.generateEndMaskRecompile endpc endPhys).Bounded := by
  unfold Machine.generateEndMaskRecompile
  extract_lets nr b paged cleared crossed
  have paged : paged.Bounded := bounded.present ..
  have links := paged.block nr
  have cleared : cleared.Bounded :=
    paged.modify ⟨links.next, links.prev, zero_lt_blockSize, zero_lt_blockSize⟩
  have crossed : crossed.Bounded := by
    unfold crossed
    split
    case isFalse => exact cleared
    case isTrue =>
      cases endPhys with
      | none => exact cleared.relabel rfl rfl rfl rfl
      | some phys2 =>
        dsimp -zeta only
        extract_lets p2 recorded masked
        have recorded : recorded.Bounded := cleared.present ..
        have masked : masked.Bounded := recorded.relabel rfl rfl rfl rfl
        split
        · exact masked.flushWritePage ..
        · exact masked
  exact { crossed with }

theorem Bounded.codegenBlockEnd (bounded : m.Bounded) (endpc : Nat) (endPhys : Option Nat) :
    (m.codegenBlockEnd endpc endPhys).Bounded := by
  have marked := bounded.generateEndMaskMark endpc endPhys
  exact marked.addToBlockList marked.current

theorem Bounded.codegenBlockRemove (bounded : m.Bounded) : m.codegenBlockRemove.Bounded := by
  have deleted := bounded.deleteBlock bounded.current
  exact { deleted with }

theorem Bounded.deleteVictims {victims : List Nat} (bounded : m.Bounded)
    (numbers : ∀ v ∈ victims, v < blockSize) :
    (victims.foldl (fun m v => if v ≠ nr then m.codegenDeleteBlock v else m) m).Bounded := by
  induction victims generalizing m with
  | nil => exact bounded
  | cons v victims ih =>
    rw [List.foldl_cons]
    refine ih ?_ fun w inRest => numbers w (.tail _ inRest)
    unfold codegenDeleteBlock
    split
    · split
      · exact bounded.deleteBlock (numbers v (.head _))
      · exact bounded
    · exact bounded

theorem Bounded.codegenBlockStartRecompile {victims : List Nat} (bounded : m.Bounded)
    (number : nr < blockSize) (status : BitVec 16) (top : Nat)
    (numbers : ∀ v ∈ victims, v < blockSize) :
    (m.codegenBlockStartRecompile nr status top victims).Bounded := by
  unfold Machine.codegenBlockStartRecompile
  extract_lets b flushed current cleared
  have flushedOk : flushed.Bounded := by
    unfold flushed
    split
    · exact bounded.flushWritePage ..
    · exact bounded
  have currentOk : current.Bounded := { flushedOk with current := number }
  have clearedOk : cleared.Bounded := currentOk.deleteVictims numbers
  have opened : ({ cleared with
      recompPage := some (pageOf b.phys), builds := cleared.builds + 1 } : Machine).Bounded :=
    { clearedOk with }
  refine opened.modify ?_
  dsimp only
  split <;> exact { opened.block nr with }

theorem Bounded.markCode (bounded : m.Bounded) (startPc len : Nat) :
    (m.modify nr (CodeBlock.markCodePresent · startPc len)).Bounded := by
  obtain ⟨mask, mask2, marked⟩ := markCodePresent_eq (m.block nr) startPc len
  refine bounded.modify ?_
  rw [marked]
  exact { bounded.block nr with }

theorem Bounded.codegenBackendEpilogue (bounded : m.Bounded) (outcome : Epilogue) :
    (m.codegenBackendEpilogue nr outcome).Bounded := by
  have freed : (m.wasmFreeBlock nr).Bounded := bounded.wasmFreeBlock
  have flagged {m : Machine} (bounded : m.Bounded) (wasmFnIdx : Nat) (flags : BlockFlags → BlockFlags) :
      (m.modify nr fun b => { b with wasmFnIdx, flags := flags b.flags }).Bounded :=
    bounded.relabel rfl rfl rfl rfl
  unfold Machine.codegenBackendEpilogue
  dsimp only
  cases outcome with
  | emitFails => exact flagged freed 0 fun f => { f with wasRecompiled := false }
  | restructureFails => exact flagged freed 0 fun f => { f with wasRecompiled := false }
  | nojit => exact flagged freed 0 fun f => { f with wasRecompiled := false, wasmNojit := true }
  | deferIo => exact flagged freed 0 fun f => { f with wasRecompiled := false, wasmIo := true }
  | install succeeds =>
    have popped (wasm : WasmTable) : ({ m.wasmFreeBlock nr with wasm } : Machine).Bounded :=
      { freed with }
    dsimp only
    split
    · exact flagged (popped _) _ id
    · exact flagged (popped _) 0 fun f => { f with wasRecompiled := false }

theorem Bounded.codegenBlockEndRecompile (bounded : m.Bounded) (endpc : Nat)
    (endPhys : Option Nat) (usesFpu : Bool) (outcome : Epilogue) :
    (m.codegenBlockEndRecompile m.blockCurrent endpc endPhys usesFpu outcome).Bounded := by
  unfold Machine.codegenBlockEndRecompile
  extract_lets used unlinked cleared listed flagged
  have used : used.Bounded := bounded.relabel rfl rfl rfl rfl
  have unlinked : unlinked.Bounded := by
    unfold unlinked
    split
    · exact used.blockDirtyListRemove
    · exact used.removeFromBlockList
  have cleared : cleared.Bounded := unlinked.modify
    ⟨zero_lt_blockSize, zero_lt_blockSize, zero_lt_blockSize, zero_lt_blockSize⟩
  have listed : listed.Bounded :=
    (cleared.generateEndMaskRecompile endpc endPhys).addToBlockList bounded.current
  refine Bounded.codegenBackendEpilogue (listed.modify ?_) outcome
  split
  · exact listed.block _
  · exact { listed.block _ with }

/-! ## Initialisation and reset -/

theorem Bounded.deleteAll (fuel c : Nat) (bounded : m.Bounded) (numbers : c + fuel ≤ blockSize) :
    (m.deleteAll fuel c).Bounded := by
  induction fuel generalizing m c with
  | zero => exact bounded
  | succ fuel ih =>
    unfold Machine.deleteAll
    dsimp only
    refine ih (c + 1) ?_ (by omega)
    split
    · have forgotten : (m.modify c ({ · with phys := 0, phys2 := 0 })).Bounded :=
        bounded.relabel rfl rfl rfl rfl
      exact forgotten.deleteBlock (by omega)
    · exact bounded

theorem Bounded.pushFree (bounded : m.Bounded) (zero : m.freeList = 0) :
    (m.pushFree blockSize).Bounded := by
  rw [pushFree_eq]
  refine { bounded with block := fun n => ?_, freeList := ?_ }
  · dsimp only
    split
    case isTrue inRange =>
      have links := bounded.block n
      refine ⟨?_, links.prev, links.next2, links.prev2⟩
      simp only [CodeBlock.pushed, zero]
      split
      · exact zero_lt_blockSize
      · exact Nat.lt_of_le_of_lt (Nat.sub_le _ _) inRange
    case isFalse => exact bounded.block n
  · dsimp only
    split
    · exact bounded.freeList
    · exact Nat.sub_lt zero_lt_blockSize Nat.one_pos

theorem CodeBlock.bounded_zero : CodeBlock.zero.Bounded :=
  ⟨zero_lt_blockSize, zero_lt_blockSize, zero_lt_blockSize, zero_lt_blockSize⟩

/-- `codegen_reset` clears the blocks, the hash table and the installed pages. -/
theorem Bounded.wipe (bounded : m.Bounded) :
    ({ m with block := fun _ => .zero, hash := fun _ => 0 } : Machine).memResetPageBlocks.Bounded :=
  { bounded with
    block := fun _ => CodeBlock.bounded_zero
    hash := fun _ => zero_lt_blockSize
    head := fun p => by
      unfold memResetPageBlocks
      dsimp only
      split
      · exact zero_lt_blockSize
      · exact bounded.head p
    head2 := fun p => by
      unfold memResetPageBlocks
      dsimp only
      split
      · exact zero_lt_blockSize
      · exact bounded.head2 p }

theorem Bounded.refill (bounded : m.Bounded) :
    ({ m with freeList := 0 }.pushFree blockSize).Bounded := by
  have emptied : ({ m with freeList := 0 } : Machine).Bounded :=
    { bounded with freeList := zero_lt_blockSize }
  exact emptied.pushFree rfl

theorem Bounded.codegenReset (bounded : m.Bounded) : m.codegenReset.Bounded :=
  (bounded.deleteAll (blockSize - 1) 1 (by decide)).wipe.refill

theorem bounded_codegenInit (lookup : WriteLookup) (wasm : WasmTable) (memPages : Nat) :
    (codegenInit lookup wasm memPages).Bounded :=
  Bounded.pushFree ⟨fun _ => CodeBlock.bounded_zero, fun _ => zero_lt_blockSize,
    fun _ => zero_lt_blockSize, zero_lt_blockSize, zero_lt_blockSize, zero_lt_blockSize,
    zero_lt_blockSize, fun _ => zero_lt_blockSize⟩ rfl

end Machine

/-! ## Steps -/

namespace Dynarec

variable {s t : Dynarec} {l : Label}

/-- Every step keeps block numbers in bounds. -/
theorem bounded_step (bounded : s.machine.Bounded) (next : s.step l = some t) :
    t.machine.Bounded := by
  cases l with
  | select a nr =>
    simp only [Dynarec.step] at next
    split at next <;> cases next
    rename_i selected
    exact bounded.setHash a.phys selected.2.1
  | checkFlush p =>
    simp only [Dynarec.step] at next
    split at next <;> cases next
    exact bounded.codegenCheckFlush
  | demote a =>
    simp only [Dynarec.step] at next
    split at next <;> cases next
    refine bounded.modify ?_
    have links := bounded.block (s.machine.hashed a)
    exact ⟨links.next, links.prev, links.next2, links.prev2⟩
  | topMismatch a =>
    simp only [Dynarec.step] at next
    split at next <;> cases next
    dsimp only
    refine bounded.relabel ?_ ?_ ?_ ?_
    all_goals rfl
  | init a =>
    simp only [Dynarec.step] at next
    split at next
    · obtain ⟨m', init, rfl⟩ := Option.map_eq_some_iff.mp next
      exact bounded.codegenBlockInit init
    · cases next
  | blockEnd endpc endPhys =>
    simp only [Dynarec.step] at next
    split at next <;> cases next
    exact bounded.codegenBlockEnd endpc endPhys
  | startRecompile a top victims =>
    simp only [Dynarec.step] at next
    split at next <;> cases next
    rename_i started
    exact bounded.codegenBlockStartRecompile (bounded.hash _) a.status top started.2.2.2
  | markCode startPc len =>
    simp only [Dynarec.step] at next
    split at next <;> cases next
    exact bounded.markCode startPc len
  | endRecompile endpc endPhys usesFpu outcome =>
    simp only [Dynarec.step] at next
    split at next <;> cases next
    exact bounded.codegenBlockEndRecompile endpc endPhys usesFpu outcome
  | blockRemove =>
    simp only [Dynarec.step] at next
    split at next <;> cases next
    exact bounded.codegenBlockRemove
  | reset =>
    cases next
    exact bounded.codegenReset
  | write p dirty byteDirty =>
    cases next
    dsimp only
    refine bounded.modifyPage ?_ ?_
    · exact bounded.head p
    · exact bounded.head2 p

end Dynarec

end PCemWeb.Codegen
