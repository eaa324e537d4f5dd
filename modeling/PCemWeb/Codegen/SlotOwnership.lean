import PCemWeb.Codegen.BlockNumbers
import PCemWeb.Codegen.SlotPool
import PCemWeb.Lib.Run

/-!
# Ownership of function table slots

A block takes a slot when its module is installed and gives it back when it is invalidated,
deleted or compiled again. `Slotted` is kept by every operation on blocks, in whatever state the
lists are: it needs only what an operation writes, not where the block was found.
-/

namespace PCemWeb.Codegen

open PCemWeb.Lib

/-- The flags of a block whose compiled code may be entered. -/
def BlockFlags.Runs (f : BlockFlags) : Prop := f.wasRecompiled = true ∧ f.inDirtyList = false

theorem BlockFlags.not_runs {f : BlockFlags} (clear : f.wasRecompiled = false) : ¬f.Runs := by
  rintro ⟨compiled, -⟩
  cases clear.symm.trans compiled

theorem CodeBlock.Blank.not_runs {b : CodeBlock} (blank : b.Blank) : ¬b.flags.Runs :=
  BlockFlags.not_runs (congrArg BlockFlags.wasRecompiled blank.flags)

theorem CodeBlock.Blank.slot {b : CodeBlock} (blank : b.Blank) : b.slot = none :=
  CodeBlock.slot_eq_none.mpr blank.wasmFnIdx

namespace Machine

variable {m m' m'' : Machine} {nr n p : Nat} {open_ open' open'' : Option Nat}
  {known : Nat → Prop}

/-- The slots the blocks hold. -/
def slots (m : Machine) (n : Nat) : Option Nat := (m.block n).slot

/-- Slots have one holder each, and the code of every block but the one being compiled is in
the slot it holds. -/
structure Slotted (m : Machine) (open_ : Option Nat) (known : Nat → Prop) : Prop where
  pooled : Pooled m.slots m.wasm known
  pcZero : (m.block 0).pc = pcInvalid
  module : ∀ n, open_ ≠ some n → (m.block n).flags.Runs →
    ∃ i, m.slots n = some i ∧ m.wasm.table i = some ⟨n, (m.block n).build⟩

/-! ## Operations on other fields -/

/-- Slots and table are the same, and no code may be entered that could not be before. -/
structure SameSlots (open_ open' : Option Nat) (m m' : Machine) : Prop where
  slots : ∀ n, m'.slots n = m.slots n
  wasm : m'.wasm = m.wasm
  pcZero : (m.block 0).pc = pcInvalid → (m'.block 0).pc = pcInvalid
  runs : ∀ n, open' ≠ some n → (m'.block n).flags.Runs →
    open_ ≠ some n ∧ (m.block n).flags.Runs ∧ (m'.block n).build = (m.block n).build

theorem SameSlots.trans (first : SameSlots open_ open' m m') (second : SameSlots open' open'' m' m'') :
    SameSlots open_ open'' m m'' where
  slots n := (second.slots n).trans (first.slots n)
  wasm := second.wasm.trans first.wasm
  pcZero zero := second.pcZero (first.pcZero zero)
  runs n closed runs := by
    obtain ⟨closed', runs', build'⟩ := second.runs n closed runs
    obtain ⟨closed'', runs'', build''⟩ := first.runs n closed' runs'
    exact ⟨closed'', runs'', build'.trans build''⟩

theorem SameSlots.refl : SameSlots open_ open_ m m :=
  ⟨fun _ => rfl, rfl, id, fun _ closed runs => ⟨closed, runs, rfl⟩⟩

theorem Slotted.congr (slotted : m.Slotted open_ known) (same : SameSlots open_ open' m m') :
    m'.Slotted open' known where
  pooled := by
    have slots : m'.slots = m.slots := funext same.slots
    rw [slots, same.wasm]
    exact slotted.pooled
  pcZero := same.pcZero slotted.pcZero
  module n closed runs := by
    obtain ⟨closed', runs', build⟩ := same.runs n closed runs
    obtain ⟨i, held, module⟩ := slotted.module n closed' runs'
    exact ⟨i, (same.slots n).trans held, by rw [same.wasm, build, module]⟩

theorem SameSlots.of_eq (block : m'.block = m.block) (wasm : m'.wasm = m.wasm) :
    SameSlots open_ open_ m m' where
  slots n := by rw [Machine.slots, Machine.slots, block]
  wasm := wasm
  pcZero zero := by rw [block, zero]
  runs n closed runs := by
    rw [block] at runs ⊢
    exact ⟨closed, runs, rfl⟩

/-- The block is exempted, or its code is no nearer to being entered. -/
theorem SameSlots.modify {f : CodeBlock → CodeBlock} (subset : ∀ n, open' ≠ some n → open_ ≠ some n)
    (slot : (f (m.block nr)).wasmFnIdx = (m.block nr).wasmFnIdx)
    (pc : (f (m.block nr)).pc = (m.block nr).pc)
    (runs : open' ≠ some nr → (f (m.block nr)).flags.Runs →
      (m.block nr).flags.Runs ∧ (f (m.block nr)).build = (m.block nr).build) :
    SameSlots open_ open' m (m.modify nr f) where
  slots n := by
    rw [Machine.slots, Machine.slots, block_modify]
    split
    case isTrue self => simp only [self, CodeBlock.slot, slot]
    case isFalse => rfl
  wasm := rfl
  pcZero zero := by
    rw [block_modify]
    split
    case isTrue self => rw [pc, ← self, zero]
    case isFalse => exact zero
  runs n closed runs' := by
    rw [block_modify] at runs' ⊢
    split at runs'
    case isTrue self =>
      subst self
      rw [if_pos rfl]
      exact ⟨subset n closed, runs closed runs'⟩
    case isFalse other =>
      rw [if_neg other]
      exact ⟨subset n closed, runs', rfl⟩

theorem Reflagged.sameSlots {φ : BlockFlags → BlockFlags} (reflagged : Reflagged nr φ m m')
    (subset : ∀ n, open' ≠ some n → open_ ≠ some n)
    (runs : open' ≠ some nr → (φ (m.block nr).flags).Runs → (m.block nr).flags.Runs) :
    SameSlots open_ open' m m' where
  slots n := by
    rw [Machine.slots, Machine.slots, CodeBlock.slot, CodeBlock.slot,
      reflagged.proj CodeBlock.wasmFnIdx (fun _ _ => rfl)]
  wasm := reflagged.wasm
  pcZero zero := (reflagged.proj CodeBlock.pc (fun _ _ => rfl) 0).trans zero
  runs n closed runs' := by
    rw [reflagged.flags] at runs'
    refine ⟨subset n closed, ?_, reflagged.proj CodeBlock.build (fun _ _ => rfl) n⟩
    split at runs'
    case isTrue self =>
      subst self
      exact runs closed runs'
    case isFalse => exact runs'

theorem OpenWrite.sameSlots (write : OpenWrite nr m m') : SameSlots open_ open_ m m' where
  slots n := by
    rcases eq_or_ne n nr with rfl | other
    · simp only [Machine.slots, CodeBlock.slot, write.slot]
    · rw [Machine.slots, Machine.slots, write.others n other]
  wasm := write.wasm
  pcZero zero := by
    rcases eq_or_ne 0 nr with rfl | other
    · exact write.pc.trans zero
    · rw [write.others 0 other, zero]
  runs n closed runs := by
    rcases eq_or_ne n nr with rfl | other
    · exact ⟨closed, write.flags ▸ runs, write.build⟩
    · rw [write.others n other] at runs ⊢
      exact ⟨closed, runs, rfl⟩

/-! ## Releasing a slot -/

theorem release_table (w : WasmTable) (idx : Nat) : (w.release idx).table = w.table := by
  unfold WasmTable.release
  split
  · rfl
  · split <;> rfl

/-- A block gives back the slot it holds, if any. -/
theorem Slotted.released (slotted : m.Slotted open_ known)
    (slots : ∀ n, m'.slots n = if n = nr then none else m.slots n)
    (wasm : m'.wasm = m.wasm.release (m.block nr).wasmFnIdx)
    (pcZero : (m'.block 0).pc = pcInvalid)
    (runs : ∀ n, open' ≠ some n → (m'.block n).flags.Runs →
      n ≠ nr ∧ open_ ≠ some n ∧ (m.block n).flags.Runs ∧ (m'.block n).build = (m.block n).build) :
    m'.Slotted open' known where
  pooled := by
    have emptied : m'.slots = Function.update m.slots nr none := by
      funext n
      rw [slots, Function.update_apply]
    rw [emptied, wasm]
    rcases held : m.slots nr with _ | i
    · have index : (m.block nr).wasmFnIdx = 0 := CodeBlock.slot_eq_none.mp held
      rw [index, ← held, Function.update_eq_self, WasmTable.release, if_pos rfl]
      exact slotted.pooled
    · rw [(CodeBlock.slot_eq_some.mp held).2]
      exact slotted.pooled.release held
  pcZero := pcZero
  module n closed runs' := by
    obtain ⟨other, closed', before, build⟩ := runs n closed runs'
    obtain ⟨i, held, module⟩ := slotted.module n closed' before
    refine ⟨i, ?_, ?_⟩
    · rw [slots, if_neg other, held]
    · rw [wasm, release_table, build, module]

/-- A deleted block holds no slot and has no code. -/
theorem Slotted.deleted (slotted : m.Slotted open_ known) (deleted : Deleted nr m m')
    (subset : ∀ n ≠ nr, open' ≠ some n → open_ ≠ some n) : m'.Slotted open' known := by
  have other {α : Type} (π : CodeBlock → α) (ofCore : ∀ b, π b.core = π b) (n : Nat) (apart : n ≠ nr) :
      π (m'.block n) = π (m.block n) := CodeBlock.proj_of_core (deleted.others n apart) π ofCore
  refine slotted.released ?_ deleted.wasm ?_ ?_
  · intro n
    split
    case isTrue self => rw [self, slots, deleted.blank.slot]
    case isFalse apart => exact other CodeBlock.slot (fun _ => rfl) n apart
  · rcases eq_or_ne 0 nr with rfl | apart
    · exact deleted.blank.pc
    · rw [other CodeBlock.pc (fun _ => rfl) 0 apart, slotted.pcZero]
  · intro n closed runs
    have apart : n ≠ nr := by
      rintro rfl
      exact deleted.blank.not_runs runs
    rw [other CodeBlock.flags (fun _ => rfl) n apart] at runs
    exact ⟨apart, subset n apart closed, runs, other CodeBlock.build (fun _ => rfl) n apart⟩

/-- A block that may not be entered gives its slot back. -/
theorem Slotted.wasmFreeBlock (slotted : m.Slotted open_ known)
    (stopped : open_ = some nr ∨ ¬(m.block nr).flags.Runs) :
    (m.wasmFreeBlock nr).Slotted open_ known := by
  rw [wasmFreeBlock_eq]
  refine slotted.released ?_ rfl ?_ ?_
  · intro n
    rw [slots, block_modify]
    split
    · exact CodeBlock.slot_eq_none.mpr rfl
    · rfl
  · rw [block_modify]
    split
    case isTrue self => exact (congrArg (fun n => (m.block n).pc) self.symm).trans slotted.pcZero
    case isFalse => exact slotted.pcZero
  · intro n closed runs
    rw [block_modify] at runs ⊢
    split at runs
    case isTrue self =>
      subst self
      rcases stopped with exempted | stopped
      · exact absurd exempted closed
      · exact absurd runs stopped
    case isFalse other =>
      rw [if_neg other]
      exact ⟨other, closed, runs, rfl⟩

/-! ## Invalidating and deleting -/

/-- A deletion lets no code be entered. -/
theorem Deleted.not_runs {v : Nat} (deleted : Deleted v m m') (stopped : ¬(m.block nr).flags.Runs) :
    ¬(m'.block nr).flags.Runs := by
  rcases eq_or_ne nr v with rfl | apart
  · exact deleted.blank.not_runs
  · rwa [CodeBlock.proj_of_core (deleted.others nr apart) CodeBlock.flags fun _ => rfl]

theorem Slotted.deleteBlock (slotted : m.Slotted open_ known) :
    (m.deleteBlock nr).Slotted open_ known :=
  slotted.deleted deleted_deleteBlock fun _ _ closed => closed

theorem Slotted.codegenDeleteBlock (slotted : m.Slotted open_ known) :
    (m.codegenDeleteBlock nr).Slotted open_ known := by
  unfold Machine.codegenDeleteBlock
  split
  · exact slotted.deleteBlock
  · exact slotted

theorem runs_unlistedFlags (b : CodeBlock) (f : BlockFlags) :
    (unlistedFlags b f).Runs ↔ f.Runs := by
  unfold unlistedFlags
  split <;> rfl

theorem runs_listedFlags (b : CodeBlock) (f : BlockFlags) : (listedFlags b f).Runs ↔ f.Runs := by
  unfold listedFlags
  split <;> rfl

/-- A block on the dirty list may not be entered, and stays so when the oldest is deleted. -/
theorem Slotted.blockDirtyListAdd (slotted : m.Slotted open_ known) :
    (m.blockDirtyListAdd nr).Slotted open_ known ∧
      ¬((m.blockDirtyListAdd nr).block nr).flags.Runs := by
  have pushed : Reflagged nr _ m (m.pushDirty nr) := reflagged_pushDirty
  have stopped : ¬((m.pushDirty nr).block nr).flags.Runs := by
    rw [pushed.flags, if_pos rfl]
    rintro ⟨-, clean⟩
    cases clean
  have same : SameSlots open_ open_ m (m.pushDirty nr) :=
    pushed.sameSlots (fun _ closed => closed) fun _ runs => nomatch runs.2
  unfold Machine.blockDirtyListAdd
  dsimp only
  split
  · exact ⟨(slotted.congr same).deleted deleted_evictDirtyTail fun _ _ closed => closed,
      deleted_evictDirtyTail.not_runs stopped⟩
  · exact ⟨slotted.congr same, stopped⟩

theorem Slotted.invalidateBlock (slotted : m.Slotted open_ known) :
    (m.invalidateBlock nr).Slotted open_ known := by
  have removed : Reflagged nr _ m (m.removeFromBlockList nr) := reflagged_removeFromBlockList
  have same : SameSlots open_ open_ m (m.removeFromBlockList nr) :=
    removed.sameSlots (fun _ closed => closed) fun _ runs => (runs_unlistedFlags ..).mp runs
  have dirty : ((m.removeFromBlockList nr).blockDirtyListAdd nr).Slotted open_ known ∧ _ :=
    (slotted.congr same).blockDirtyListAdd
  obtain ⟨added, stopped⟩ := dirty
  exact added.wasmFreeBlock (.inr stopped)

theorem Slotted.flushPageList (fuel : Nat) (slotted : m.Slotted open_ known) :
    (m.flushPageList fuel nr).Slotted open_ known := by
  induction fuel generalizing m nr with
  | zero => exact slotted
  | succ fuel ih =>
    unfold Machine.flushPageList
    dsimp only
    split
    · exact slotted
    · refine ih ?_
      split
      · exact slotted.invalidateBlock
      · exact slotted

theorem Slotted.flushPageList2 (fuel : Nat) (slotted : m.Slotted open_ known) :
    (m.flushPageList2 fuel nr).Slotted open_ known := by
  induction fuel generalizing m nr with
  | zero => exact slotted
  | succ fuel ih =>
    unfold Machine.flushPageList2
    dsimp only
    split
    · exact slotted
    · refine ih ?_
      split
      · exact slotted.invalidateBlock
      · exact slotted

theorem Slotted.codegenCheckFlush (slotted : m.Slotted open_ known) :
    (m.codegenCheckFlush p).Slotted open_ known := by
  have first : (m.flushPageList blockSize (m.page p).block).Slotted open_ known :=
    slotted.flushPageList blockSize
  unfold Machine.codegenCheckFlush
  exact (first.flushPageList2 blockSize).congr (.of_eq rfl rfl)

/-! ## A free block is found -/

theorem Slotted.refillFreeList {purgeHead rand : Nat} (slotted : m.Slotted open_ known)
    (refill : m.refillFreeList purgeHead rand = some m') :
    m'.Slotted open_ known ∧ m'.freeList ≠ 0 := by
  unfold Machine.refillFreeList at refill
  split at refill
  case isTrue nonempty =>
    cases refill
    rw [eq_of_freeList m.deleted_takeDirtyTail.freeList]
    exact ⟨slotted.deleted m.deleted_takeDirtyTail fun _ _ closed => closed,
      m.deleted_takeDirtyTail.freeList ▸ nonempty⟩
  case isFalse =>
    have purged : (m.codegenPurge purgeHead).Slotted open_ known := by
      unfold codegenPurge
      split
      · exact slotted.codegenCheckFlush
      · exact slotted
    dsimp only at refill
    split at refill
    case isTrue nonempty =>
      cases refill
      exact ⟨purged, nonempty⟩
    case isFalse =>
      obtain ⟨v, found, rfl⟩ := Option.map_eq_some_iff.mp refill
      obtain ⟨inRange, -⟩ := randomVictim_spec found (Nat.mod_lt _ zero_lt_blockSize)
      exact ⟨purged.deleteBlock, deleted_deleteBlock.freeList ▸ inRange.ne_zero⟩

theorem Slotted.blockFreeListGet {purgeHead rand : Nat} (slotted : m.Slotted open_ known)
    (get : m.blockFreeListGet purgeHead rand = some (nr, m')) :
    m'.Slotted open_ known ∧ nr ≠ 0 := by
  obtain ⟨before, refill, popped⟩ := Option.map_eq_some_iff.mp get
  have filled : before.Slotted open_ known ∧ before.freeList ≠ 0 := by
    split at refill
    case isTrue => exact slotted.refillFreeList refill
    case isFalse nonempty =>
      cases refill
      exact ⟨slotted, nonempty⟩
  cases popped
  have taken : SameSlots open_ open_ before
      { before with freeList := (before.block before.freeList).next } := .of_eq rfl rfl
  refine ⟨filled.1.congr (taken.trans (.modify (fun _ closed => closed) ?_ ?_ ?_)), filled.2⟩
  · rfl
  · rfl
  · exact fun _ runs => ⟨runs, rfl⟩

/-- A new block has no compiled code. -/
theorem Slotted.codegenBlockInit {a : InitArgs} (slotted : m.Slotted open_ known)
    (init : m.codegenBlockInit a = some m') : m'.Slotted open_ known := by
  obtain ⟨⟨nr, popped⟩, get, rfl⟩ := Option.map_eq_some_iff.mp init
  have flushed : (if (m.page (pageOf a.phys)).block = 0 then m.flushWritePage a.phys a.pc
      else m).Slotted open_ known := by
    split
    · exact slotted.congr (.of_eq rfl rfl)
    · exact slotted
  obtain ⟨taken, nonzero⟩ := flushed.blockFreeListGet get
  refine taken.congr ⟨fun n => ?_, rfl, fun zero => ?_, fun n closed runs => ?_⟩
  · dsimp only
    rw [slots, block_modify]
    split
    case isTrue self =>
      rw [self]
      rfl
    case isFalse => rfl
  · dsimp only
    rw [block_modify_of_ne nonzero.symm]
    exact zero
  · dsimp only at runs ⊢
    rw [block_modify] at runs ⊢
    split at runs
    case isTrue => nomatch runs.1
    case isFalse other =>
      rw [if_neg other]
      exact ⟨closed, runs, rfl⟩

/-! ## Marking and compiling -/

theorem Slotted.codegenBlockEnd (slotted : m.Slotted open_ known) (endpc : Nat)
    (endPhys : Option Nat) : (m.codegenBlockEnd endpc endPhys).Slotted open_ known := by
  have marked := slotted.congr (m.openWrite_generateEndMaskMark endpc endPhys).sameSlots
  have listed : Reflagged _ _ _ ((m.generateEndMaskMark endpc endPhys).addToBlockList
      (m.generateEndMaskMark endpc endPhys).blockCurrent) := reflagged_addToBlockList
  exact marked.congr (listed.sameSlots (fun _ closed => closed) fun _ runs =>
    (runs_listedFlags ..).mp runs)

/-- An abort deletes the block under construction. -/
theorem Slotted.codegenBlockRemove (slotted : m.Slotted open_ known)
    (current : open_ = none ∨ open_ = some m.blockCurrent) :
    m.codegenBlockRemove.Slotted none known := by
  have deleted : (m.deleteBlock m.blockCurrent).Slotted none known := by
    refine slotted.deleted deleted_deleteBlock fun n apart _ => ?_
    rcases current with rfl | rfl
    · nofun
    · exact fun same => apart (Option.some.inj same).symm
  exact deleted.congr (.of_eq rfl rfl)

theorem Slotted.deleteVictims {victims : List Nat} (slotted : m.Slotted open_ known) :
    (victims.foldl (fun m v => if v ≠ nr then m.codegenDeleteBlock v else m) m).Slotted
      open_ known := by
  induction victims generalizing m with
  | nil => exact slotted
  | cons v victims ih =>
    rw [List.foldl_cons]
    refine ih ?_
    split
    · exact slotted.codegenDeleteBlock
    · exact slotted

/-- From the start of a compilation to its end the block is exempted. -/
theorem Slotted.codegenBlockStartRecompile {victims : List Nat} (slotted : m.Slotted none known)
    (status : BitVec 16) (top : Nat) :
    (m.codegenBlockStartRecompile nr status top victims).Slotted (some nr) known := by
  unfold Machine.codegenBlockStartRecompile
  extract_lets b flushed current cleared
  have flushed' : flushed.Slotted none known := by
    unfold flushed
    split
    · exact slotted.congr (.of_eq rfl rfl)
    · exact slotted
  have current' : current.Slotted none known := flushed'.congr (.of_eq rfl rfl)
  have cleared' : cleared.Slotted none known := current'.deleteVictims
  have opened : ({ cleared with
      recompPage := some (pageOf b.phys), builds := cleared.builds + 1 } : Machine).Slotted
      none known := cleared'.congr (.of_eq rfl rfl)
  refine opened.congr (.modify nofun ?_ ?_ fun closed => absurd rfl closed)
  · dsimp only
    split <;> rfl
  · dsimp only
    split <;> rfl

theorem Slotted.markCode (slotted : m.Slotted open_ known) (startPc len : Nat) :
    (m.modify nr (CodeBlock.markCodePresent · startPc len)).Slotted open_ known := by
  obtain ⟨mask, mask2, marked⟩ := markCodePresent_eq (m.block nr) startPc len
  refine slotted.congr (.modify (fun _ closed => closed) ?_ ?_ fun _ runs => ?_)
  · rw [marked]
  · rw [marked]
  · rw [marked] at runs ⊢
    exact ⟨runs, rfl⟩

/-! ## The end of a compilation -/

/-- A block without a slot that may not be entered needs no exemption. -/
theorem Slotted.closed {f : CodeBlock → CodeBlock} (slotted : m.Slotted (some nr) known)
    (idle : m.slots nr = none) (slot : (f (m.block nr)).wasmFnIdx = 0)
    (pc : (f (m.block nr)).pc = (m.block nr).pc) (stopped : ¬(f (m.block nr)).flags.Runs) :
    (m.modify nr f).Slotted none known := by
  have index := CodeBlock.slot_eq_none.mp idle
  have closed : SameSlots (some nr) (some nr) m (m.modify nr f) :=
    .modify (fun _ closed => closed) (slot.trans index.symm) pc fun closed => absurd rfl closed
  have kept := slotted.congr closed
  refine { kept with module := fun n _ runs => ?_ }
  rcases eq_or_ne n nr with rfl | other
  · rw [block_modify_self] at runs
    exact absurd runs stopped
  · exact kept.module n (fun same => other (Option.some.inj same).symm) runs

/-- A module goes in a slot, and the block it was compiled for gets the slot. -/
theorem Slotted.install (slotted : m.Slotted (some nr) known) (idle : m.slots nr = none)
    (number : nr < blockSize) {r : Nat × WasmTable}
    (result : ({ m.wasm with freeSlots := m.wasm.freeSlots.tail }.installAt
      ⟨nr, (m.block nr).build⟩ (m.wasm.freeSlots.headD 0)) = r) :
    (({ m with wasm := r.2 } : Machine).modify nr ({ · with wasmFnIdx := r.1 })).Slotted
      none known := by
  have installed := slotted.pooled.install idle number ⟨nr, (m.block nr).build⟩
  rw [result] at installed
  have held := installed.pooled.bound r.1 (.inl ⟨nr, Function.update_self ..⟩)
  have slots (n : Nat) : (({ m with wasm := r.2 } : Machine).modify nr
      ({ · with wasmFnIdx := r.1 })).slots n = Function.update m.slots nr (some r.1) n := by
    rw [Machine.slots, block_modify, Function.update_apply]
    split
    · exact CodeBlock.slot_eq_some.mpr ⟨held.1, rfl⟩
    · rfl
  refine ⟨funext slots ▸ installed.pooled, ?_, fun n _ runs => ?_⟩
  · rw [block_modify]
    split
    case isTrue self => exact (congrArg (fun n => (m.block n).pc) self.symm).trans slotted.pcZero
    case isFalse => exact slotted.pcZero
  · rw [slots]
    rcases eq_or_ne n nr with rfl | other
    · rw [Function.update_self, block_modify_self]
      exact ⟨r.1, rfl, installed.module⟩
    · rw [block_modify_of_ne other] at runs ⊢
      obtain ⟨i, held, module⟩ :=
        slotted.module n (fun same => other (Option.some.inj same).symm) runs
      rw [Function.update_of_ne other]
      exact ⟨i, held, (installed.others n other i held).trans module⟩

/-- A failed installation loses the slot it took from the pool. -/
def LosesSlot (m : Machine) (nr : Nat) (outcome : Epilogue) : Prop :=
  outcome = .install false ∧ ((m.block nr).wasmFnIdx ≠ 0 ∨ m.wasm.freeSlots ≠ [])

theorem Slotted.codegenBackendEpilogue {outcome : Epilogue} (slotted : m.Slotted (some nr) known)
    (number : nr < blockSize) (keeps : ¬m.LosesSlot nr outcome) :
    (m.codegenBackendEpilogue nr outcome).Slotted none known := by
  have freed := slotted.wasmFreeBlock (.inl rfl)
  have idle : (m.wasmFreeBlock nr).slots nr = none := by
    rw [wasmFreeBlock_eq, Machine.slots, block_modify_self]
    exact CodeBlock.slot_eq_none.mpr rfl
  unfold Machine.codegenBackendEpilogue
  dsimp only
  cases outcome with
  | emitFails => exact freed.closed idle rfl rfl nofun
  | restructureFails => exact freed.closed idle rfl rfl nofun
  | nojit => exact freed.closed idle rfl rfl nofun
  | deferIo => exact freed.closed idle rfl rfl nofun
  | install succeeds =>
    dsimp only
    split
    case isTrue => exact freed.install idle number rfl
    case isFalse fails =>
      rw [Bool.not_eq_true] at fails
      subst fails
      have unused : (m.block nr).wasmFnIdx = 0 ∧ m.wasm.freeSlots = [] := by
        refine ⟨?_, ?_⟩ <;> by_contra lost
        · exact keeps ⟨rfl, .inl lost⟩
        · exact keeps ⟨rfl, .inr lost⟩
      have wasm : (m.wasmFreeBlock nr).wasm = m.wasm := by
        rw [wasmFreeBlock_eq, unused.1]
        rfl
      have same : SameSlots (some nr) (some nr) (m.wasmFreeBlock nr)
          { m.wasmFreeBlock nr with wasm := { (m.wasmFreeBlock nr).wasm with
            freeSlots := (m.wasmFreeBlock nr).wasm.freeSlots.tail } } := by
        refine .of_eq rfl ?_
        dsimp only
        rw [wasm, unused.2]
        exact congrArg (fun slots => { m.wasm with freeSlots := slots }) unused.2.symm
      exact (freed.congr same).closed idle rfl rfl nofun

/-- Relinking the compiled block touches no slot. -/
theorem codegenBlockEndRecompile_spec (endpc : Nat) (endPhys : Option Nat) (usesFpu : Bool)
    (outcome : Epilogue) : ∃ m' : Machine,
      SameSlots (some m.blockCurrent) (some m.blockCurrent) m m' ∧
      m.codegenBlockEndRecompile m.blockCurrent endpc endPhys usesFpu outcome =
        m'.codegenBackendEpilogue m.blockCurrent outcome := by
  unfold Machine.codegenBlockEndRecompile
  extract_lets used unlinked cleared listed flagged
  have exempt {f : CodeBlock → CodeBlock} (m' : Machine)
      (slot : (f (m'.block m.blockCurrent)).wasmFnIdx = (m'.block m.blockCurrent).wasmFnIdx)
      (pc : (f (m'.block m.blockCurrent)).pc = (m'.block m.blockCurrent).pc) :
      SameSlots (some m.blockCurrent) (some m.blockCurrent) m' (m'.modify m.blockCurrent f) :=
    .modify (fun _ closed => closed) slot pc fun closed => absurd rfl closed
  have toUsed : SameSlots _ _ m used := exempt m rfl rfl
  have toUnlinked : SameSlots (some m.blockCurrent) (some m.blockCurrent) used unlinked := by
    unfold unlinked
    split
    · exact reflagged_blockDirtyListRemove.sameSlots (fun _ closed => closed)
        fun closed => absurd rfl closed
    · exact reflagged_removeFromBlockList.sameSlots (fun _ closed => closed)
        fun closed => absurd rfl closed
  have toCleared : SameSlots _ _ unlinked cleared := exempt unlinked rfl rfl
  have toMasked : SameSlots (some m.blockCurrent) (some m.blockCurrent) cleared
      (cleared.generateEndMaskRecompile endpc endPhys) :=
    (cleared.generateEndMaskRecompile_spec endpc endPhys).1.sameSlots
  have toListed : SameSlots (some m.blockCurrent) (some m.blockCurrent)
      (cleared.generateEndMaskRecompile endpc endPhys) listed :=
    reflagged_addToBlockList.sameSlots (fun _ closed => closed) fun closed => absurd rfl closed
  have toFlagged : SameSlots (some m.blockCurrent) (some m.blockCurrent) listed flagged := by
    refine exempt listed ?_ ?_
    · split <;> rfl
    · split <;> rfl
  have same := ((((toUsed.trans toUnlinked).trans toCleared).trans toMasked).trans toListed).trans
    toFlagged
  exact ⟨flagged, same, rfl⟩

/-- Whether the slot is lost depends on what the relinking keeps. -/
theorem SameSlots.losesSlot {outcome : Epilogue} (same : SameSlots open_ open' m m') :
    m'.LosesSlot nr outcome ↔ m.LosesSlot nr outcome := by
  have index : (m'.block nr).wasmFnIdx = 0 ↔ (m.block nr).wasmFnIdx = 0 := by
    rw [← CodeBlock.slot_eq_none, ← CodeBlock.slot_eq_none]
    exact iff_of_eq (congrArg (· = none) (same.slots nr))
  rw [LosesSlot, LosesSlot, Ne, Ne, index, same.wasm]

theorem Slotted.codegenBlockEndRecompile {outcome : Epilogue}
    (slotted : m.Slotted (some m.blockCurrent) known) (bounded : m.Bounded) (endpc : Nat)
    (endPhys : Option Nat) (usesFpu : Bool) (keeps : ¬m.LosesSlot m.blockCurrent outcome) :
    (m.codegenBlockEndRecompile m.blockCurrent endpc endPhys usesFpu outcome).Slotted
      none known := by
  obtain ⟨m', same, ends⟩ := m.codegenBlockEndRecompile_spec endpc endPhys usesFpu outcome
  rw [ends]
  exact (slotted.congr same).codegenBackendEpilogue bounded.current (mt same.losesSlot.mp keeps)

/-! ## A lost slot -/

theorem Slotted.accounted_wasmFreeBlock (slotted : m.Slotted open_ known) (i : Nat) :
    Accounted (m.wasmFreeBlock nr).slots (m.wasmFreeBlock nr).wasm.freeSlots i ↔
      Accounted m.slots m.wasm.freeSlots i := by
  have slots : (m.wasmFreeBlock nr).slots = Function.update m.slots nr none := by
    funext n
    rw [wasmFreeBlock_eq, Machine.slots, block_modify, Function.update_apply]
    split
    · exact CodeBlock.slot_eq_none.mpr rfl
    · rfl
  have wasm : (m.wasmFreeBlock nr).wasm = m.wasm.release (m.block nr).wasmFnIdx := by
    rw [wasmFreeBlock_eq]
    rfl
  rw [slots, wasm]
  rcases held : m.slots nr with _ | k
  · rw [CodeBlock.slot_eq_none.mp held, ← held, Function.update_eq_self, WasmTable.release,
      if_pos rfl]
  · rw [(CodeBlock.slot_eq_some.mp held).2, slotted.pooled.release_eq held]
    exact accounted_release held

/-- The pool of an installation that fails: it has at least the slot the block gave back. -/
theorem Slotted.pool_of_losesSlot {outcome : Epilogue} (slotted : m.Slotted open_ known)
    (loses : m.LosesSlot nr outcome) :
    ∃ i rest, (m.wasmFreeBlock nr).wasm.freeSlots = i :: rest := by
  rw [wasmFreeBlock_eq]
  change ∃ i rest, (m.wasm.release (m.block nr).wasmFnIdx).freeSlots = i :: rest
  rcases held : m.slots nr with _ | k
  · have index := CodeBlock.slot_eq_none.mp held
    obtain ⟨i, rest, pool⟩ := List.exists_cons_of_ne_nil (loses.2.resolve_left (not_not.mpr index))
    refine ⟨i, rest, ?_⟩
    rw [index, WasmTable.release, if_pos rfl, pool]
  · refine ⟨k, m.wasm.freeSlots, ?_⟩
    rw [(CodeBlock.slot_eq_some.mp held).2, slotted.pooled.release_eq held]

/-- A slot taken from the pool for an installation that fails has no place left. -/
theorem Slotted.lost {outcome : Epilogue} (slotted : m.Slotted (some nr) known)
    (loses : m.LosesSlot nr outcome) : ∃ i, Accounted m.slots m.wasm.freeSlots i ∧
      ¬Accounted (m.codegenBackendEpilogue nr outcome).slots
        (m.codegenBackendEpilogue nr outcome).wasm.freeSlots i := by
  have freed : (m.wasmFreeBlock nr).Slotted (some nr) known := slotted.wasmFreeBlock (.inl rfl)
  obtain ⟨i, rest, pool⟩ := slotted.pool_of_losesSlot loses
  obtain ⟨-, notAccounted⟩ := Exclusive.pop (pool ▸ freed.pooled.toExclusive)
  have ends : m.codegenBackendEpilogue nr (.install false) =
      ({ m.wasmFreeBlock nr with wasm := { (m.wasmFreeBlock nr).wasm with
        freeSlots := (m.wasmFreeBlock nr).wasm.freeSlots.tail } } : Machine).epilogueFail nr := rfl
  have slots (n : Nat) : (m.codegenBackendEpilogue nr outcome).slots n =
      (m.wasmFreeBlock nr).slots n := by
    rw [loses.1, ends, epilogueFail, Machine.slots, block_modify]
    split
    case isTrue self =>
      rw [self, wasmFreeBlock_eq, Machine.slots, block_modify_self]
      rfl
    case isFalse => rfl
  have left : (m.codegenBackendEpilogue nr outcome).wasm.freeSlots = rest := by
    rw [loses.1]
    change (m.wasmFreeBlock nr).wasm.freeSlots.tail = rest
    rw [pool, List.tail_cons]
  have pooled : Accounted (m.wasmFreeBlock nr).slots (m.wasmFreeBlock nr).wasm.freeSlots i :=
    .inr (pool ▸ .head _)
  refine ⟨i, (slotted.accounted_wasmFreeBlock i).mp pooled, ?_⟩
  rw [funext slots, left]
  exact notAccounted

/-! ## Initialisation and reset -/

/-- No block below `c` holds a slot, and no block that the loop of `codegen_reset` skips. -/
structure Emptied (m : Machine) (c : Nat) : Prop where
  below : ∀ n, 0 < n → n < c → m.slots n = none
  skipped : ∀ n < blockSize, (m.block n).pc = pcInvalid → m.slots n = none

theorem Emptied.deleted {c : Nat} (emptied : m.Emptied c) (deleted : Deleted c m m') :
    m'.Emptied (c + 1) where
  below n positive bound := by
    rcases eq_or_ne n c with rfl | other
    · exact deleted.blank.slot
    · have slot := CodeBlock.proj_of_core (deleted.others n other) CodeBlock.slot fun _ => rfl
      exact slot.trans (emptied.below n positive (by omega))
  skipped n bound invalid := by
    rcases eq_or_ne n c with rfl | other
    · exact deleted.blank.slot
    · have slot := CodeBlock.proj_of_core (deleted.others n other) CodeBlock.slot fun _ => rfl
      have pc := CodeBlock.proj_of_core (deleted.others n other) CodeBlock.pc fun _ => rfl
      exact slot.trans (emptied.skipped n bound (pc.symm.trans invalid))

theorem Emptied.forget_phys {c : Nat} (emptied : m.Emptied c) (nr : Nat) :
    (m.modify nr ({ · with phys := 0, phys2 := 0 })).Emptied c := by
  have slot (n : Nat) : (m.modify nr ({ · with phys := 0, phys2 := 0 })).slots n = m.slots n := by
    rw [slots, slots, block_modify]
    split
    case isTrue self =>
      rw [self]
      rfl
    case isFalse => rfl
  refine ⟨fun n positive bound => (slot n).trans (emptied.below n positive bound),
    fun n bound invalid => (slot n).trans (emptied.skipped n bound ?_)⟩
  rw [block_modify] at invalid
  split at invalid
  case isTrue self => rw [self, invalid]
  case isFalse => exact invalid

/-- The loop of `codegen_reset` takes every slot back. -/
theorem Slotted.deleteAll (fuel c : Nat) (slotted : m.Slotted open_ known) (emptied : m.Emptied c)
    (bound : c + fuel ≤ blockSize) :
    (m.deleteAll fuel c).Slotted open_ known ∧ (m.deleteAll fuel c).Emptied (c + fuel) := by
  induction fuel generalizing m c with
  | zero => exact ⟨slotted, emptied⟩
  | succ fuel ih =>
    unfold Machine.deleteAll
    dsimp only
    have shift : c + (fuel + 1) = c + 1 + fuel := by omega
    rw [shift] at bound ⊢
    split
    case isTrue =>
      have forgotten : (m.modify c ({ · with phys := 0, phys2 := 0 })).Slotted open_ known :=
        slotted.congr (.modify (fun _ closed => closed) rfl rfl fun _ runs => ⟨runs, rfl⟩)
      exact ih (c + 1) forgotten.deleteBlock ((emptied.forget_phys c).deleted deleted_deleteBlock)
        bound
    case isFalse skipped =>
      refine ih (c + 1) slotted ⟨fun n positive below => ?_, emptied.skipped⟩ bound
      rcases Nat.lt_succ_iff_lt_or_eq.mp below with below | rfl
      · exact emptied.below n positive below
      · exact emptied.skipped n (by omega) (not_not.mp skipped)

/-- When all blocks are put on the free list none holds a slot. -/
theorem slotted_pushFree (block : ∀ n, m.block n = .zero)
    (pooled : Pooled (fun _ => none) m.wasm known) : (m.pushFree blockSize).Slotted none known := by
  have pushed (n : Nat) : ((m.pushFree blockSize).block n).slot = none ∧
      ¬((m.pushFree blockSize).block n).flags.Runs := by
    rw [pushFree_eq]
    dsimp only
    rw [block]
    split
    · exact ⟨rfl, nofun⟩
    · exact ⟨rfl, nofun⟩
  have slots : (m.pushFree blockSize).slots = fun _ => none := funext fun n => (pushed n).1
  have wasm : (m.pushFree blockSize).wasm = m.wasm := by rw [pushFree_eq]
  refine ⟨?_, ?_, fun n _ runs => absurd runs (pushed n).2⟩
  · rw [slots, wasm]
    exact pooled
  · rw [pushFree_eq]
    dsimp only
    rw [if_pos zero_lt_blockSize]
    rfl

theorem Slotted.refill (pooled : Pooled (fun _ => none) m.wasm known) :
    ({ ({ m with block := fun _ => .zero, hash := fun _ => 0 } : Machine).memResetPageBlocks with
      freeList := 0 }.pushFree blockSize).Slotted none known :=
  slotted_pushFree (fun _ => rfl) pooled

theorem Slotted.codegenReset (slotted : m.Slotted open_ known)
    (skipped : ∀ n < blockSize, (m.block n).pc = pcInvalid → (m.block n).wasmFnIdx = 0) :
    m.codegenReset.Slotted none known := by
  have start : m.Emptied 1 :=
    ⟨by omega, fun n bound invalid => CodeBlock.slot_eq_none.mpr (skipped n bound invalid)⟩
  obtain ⟨deleted, emptied⟩ := slotted.deleteAll (blockSize - 1) 1 start (by decide)
  have slots : (m.deleteAll (blockSize - 1) 1).slots = fun _ => none := by
    funext n
    rcases Nat.eq_zero_or_pos n with rfl | positive
    · exact emptied.skipped 0 zero_lt_blockSize deleted.pcZero
    · rcases Nat.lt_or_ge n blockSize with below | above
      · exact emptied.below n positive below
      · cases held : (m.deleteAll (blockSize - 1) 1).slots n with
        | none => rfl
        | some i => exact absurd (deleted.pooled.range held) (Nat.not_lt.mpr above)
  exact .refill (slots ▸ deleted.pooled)

theorem slotted_codegenInit (lookup : WriteLookup) {wasm : WasmTable} (memPages : Nat)
    (unused : wasm.Unused) : (codegenInit lookup wasm memPages).Slotted none fun _ => False :=
  slotted_pushFree (fun _ => rfl) (unused.pooled fun _ => rfl)

end Machine

end PCemWeb.Codegen
