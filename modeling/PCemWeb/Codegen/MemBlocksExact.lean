import Mathlib.Order.Interval.Finset.Nat
import PCemWeb.Codegen.MemBlocks
import PCemWeb.Codegen.SlotDiscipline

/-!
# Memory blocks are conserved

Every memory block is on the free list of the allocator or in the chain of one code block in use,
as long as no code block is compiled while it still has a chain. Compiling such a block, after a
deferred or failed compilation or after a change of the FPU stack top, loses the chain. Since there
are more memory blocks than code blocks, none of the waits for a free one takes a turn.
-/

namespace PCemWeb.Codegen

open PCemWeb.Lib

/-! ## The pool -/

namespace MemPool

variable {p : MemPool} {nr b n : Nat} {free rest : List Nat}

/-- The link of a memory block. -/
def next (p : MemPool) (n : Nat) : Nat := (p.memBlock n).next

/-- The memory block that a code block's chain starts with. -/
def holds (p : MemPool) (b : Nat) : Option Nat :=
  if p.headMemBlock b = 0 then none else some (p.headMemBlock b)

theorem holds_eq_some : p.holds b = some n ↔ n ≠ 0 ∧ p.headMemBlock b = n := by
  unfold holds
  split
  case isTrue zero =>
    rw [zero]
    constructor
    · nofun
    · rintro ⟨nonzero, rfl⟩
      exact absurd rfl nonzero
  case isFalse nonzero =>
    constructor
    · rintro ⟨⟩
      exact ⟨nonzero, rfl⟩
    · rintro ⟨-, rfl⟩
      rfl

theorem holds_eq_none : p.holds b = none ↔ p.headMemBlock b = 0 := by
  unfold holds
  split <;> simp [*]

/-- The free list has the blocks of no chain, every chain has one block, and each block is on the
free list or in a chain. -/
structure Stocked (p : MemPool) (free : List Nat) : Prop extends Exclusive p.holds free where
  chain : Chain p.next p.freeList free
  last : ∀ b n, p.holds b = some n → p.next n = 0
  accounted : ∀ n, Accounted p.holds free n ↔ 0 < n ∧ n ≤ memBlockNr

theorem next_setMemBlock {k : MemBlock} :
    (p.setMemBlock nr k).next = Function.update p.next nr k.next := by
  funext n
  rcases eq_or_ne n nr with rfl | other
  · simp [next, setMemBlock]
  · simp [next, setMemBlock, other]

theorem holds_setHead {head : Nat} :
    (p.setHead nr head).holds =
      Function.update p.holds nr (if head = 0 then none else some head) := by
  funext b
  rcases eq_or_ne b nr with rfl | other
  · simp [holds, setHead]
  · simp [holds, setHead, other]

theorem setHead_self (idle : p.headMemBlock nr = 0) : p.setHead nr 0 = p := by
  have same : Function.update p.headMemBlock nr 0 = p.headMemBlock := by
    rw [← idle, Function.update_eq_self]
  rw [setHead, same]

/-- Freeing a chain of one block puts it on the free list. -/
theorem codegenAllocatorFree_eq (last : p.next n = 0) :
    p.codegenAllocatorFree n = { p with freeList := n }.setMemBlock n ⟨p.freeList, 0⟩ := by
  change freeChain (0x7fff + 1) n p = _
  unfold freeChain
  exact if_neg (not_not.mpr last)

theorem Stocked.release (stocked : p.Stocked free) (nr : Nat) : ∃ free', (p.release nr).Stocked free' := by
  unfold MemPool.release
  by_cases idle : p.headMemBlock nr = 0
  · rw [if_neg (not_not.mpr idle)]
    dsimp only
    rw [setHead_self idle]
    exact ⟨free, stocked⟩
  · have held : p.holds nr = some (p.headMemBlock nr) := holds_eq_some.mpr ⟨idle, rfl⟩
    rw [if_pos idle, codegenAllocatorFree_eq (stocked.last _ _ held)]
    generalize p.headMemBlock nr = n at held idle
    have outside : n ∉ free := stocked.notPooled held
    have holds' : ((MemPool.setMemBlock n ⟨p.freeList, 0⟩ { p with freeList := n }).setHead
        nr 0).holds = Function.update p.holds nr none := holds_setHead
    have next' : ((MemPool.setMemBlock n ⟨p.freeList, 0⟩ { p with freeList := n }).setHead
        nr 0).next = Function.update p.next n p.freeList := next_setMemBlock
    have exclusive : Exclusive (Function.update p.holds nr none) (n :: free) :=
      stocked.toExclusive.release held
    refine ⟨n :: free, { toExclusive := holds' ▸ exclusive, chain := ?_, last := ?_, accounted := ?_ }⟩
    · rw [next']
      have linked : Function.update p.next n p.freeList n = p.freeList := Function.update_self ..
      exact stocked.chain.push idle linked fun b inFree =>
        Function.update_of_ne (ne_of_mem_of_not_mem inFree outside) ..
    · intro b k held'
      rw [holds'] at held'
      obtain ⟨other, held'⟩ := held_of_released held'
      have apart : k ≠ n := by
        rintro rfl
        exact other (stocked.unique held' held)
      rw [next', Function.update_of_ne apart]
      exact stocked.last b k held'
    · intro k
      rw [holds', accounted_release held]
      exact stocked.accounted k

/-- The chain of a code block. -/
def chainOf (p : MemPool) (b : Nat) : List Nat := (p.holds b).toList

theorem mem_chainOf : n ∈ p.chainOf b ↔ p.holds b = some n := Option.mem_toList

theorem Stocked.chain_chainOf (stocked : p.Stocked free) (b : Nat) :
    Chain p.next (p.headMemBlock b) (p.chainOf b) := by
  unfold chainOf
  cases held : p.holds b with
  | none => exact holds_eq_none.mp held
  | some n =>
    obtain ⟨nonzero, head⟩ := holds_eq_some.mp held
    exact ⟨head, nonzero, stocked.last b n held⟩

theorem Stocked.releases (stocked : p.Stocked free) (victims : List Nat) :
    ∃ free', (victims.foldl MemPool.release p).Stocked free' := by
  induction victims generalizing p free with
  | nil => exact ⟨free, stocked⟩
  | cons v victims ih =>
    obtain ⟨free', stocked'⟩ := stocked.release v
    exact ih stocked'

/-- The first free block becomes the chain of a code block without one. -/
theorem Stocked.take (stocked : p.Stocked free) (nonempty : p.freeList ≠ 0)
    (idle : p.headMemBlock nr = 0) :
    ∃ free', ((p.takeFree 0 nr).2.setHead nr (p.takeFree 0 nr).1).Stocked free' := by
  obtain ⟨rest, rfl, tail⟩ := stocked.chain.exists_cons nonempty
  obtain ⟨popped, new⟩ := stocked.toExclusive.pop
  have taken : p.takeFree 0 nr =
      (p.freeList, { p with freeList := p.next p.freeList }.setMemBlock p.freeList ⟨0, nr⟩) := rfl
  rw [taken]
  have unheld : p.holds nr = none := holds_eq_none.mpr idle
  generalize head : p.freeList = n at *
  have holds' : ((MemPool.setMemBlock n ⟨0, nr⟩ { p with freeList := p.next n }).setHead
      nr n).holds = Function.update p.holds nr (some n) := by
    rw [holds_setHead, if_neg nonempty]
    rfl
  have next' : ((MemPool.setMemBlock n ⟨0, nr⟩ { p with freeList := p.next n }).setHead
      nr n).next = Function.update p.next n 0 := next_setMemBlock
  have outside : n ∉ rest := fun inRest => new (.inr inRest)
  have exclusive : Exclusive (Function.update p.holds nr (some n)) rest := popped.acquire new
  refine ⟨rest, { toExclusive := holds' ▸ exclusive, chain := ?_, last := ?_, accounted := ?_ }⟩
  · rw [next']
    exact tail.congr fun b inRest =>
      Function.update_of_ne (ne_of_mem_of_not_mem inRest outside) ..
  · intro b k held
    rw [holds'] at held
    rw [next']
    rcases held_of_taken held with ⟨-, rfl⟩ | ⟨-, before⟩
    · exact Function.update_self ..
    · have apart : k ≠ n := by
        rintro rfl
        exact new (.inl ⟨b, before⟩)
      rw [Function.update_of_ne apart]
      exact stocked.last b k before
  · intro k
    rw [holds', accounted_acquire unheld, ← accounted_cons]
    exact stocked.accounted k

/-- There are more memory blocks than code blocks, so one is free. -/
theorem Stocked.freeList_ne_zero (stocked : p.Stocked free)
    (bound : ∀ b, p.headMemBlock b ≠ 0 → b < blockSize) : p.freeList ≠ 0 := by
  intro empty
  obtain rfl : free = [] := (empty ▸ stocked.chain).eq_nil
  have covered : Finset.Icc 1 memBlockNr ⊆ (Finset.range blockSize).image p.headMemBlock := by
    intro n inRange
    obtain ⟨low, high⟩ := Finset.mem_Icc.mp inRange
    rcases (stocked.accounted n).mpr ⟨low, high⟩ with ⟨b, held⟩ | inFree
    · obtain ⟨nonzero, rfl⟩ := holds_eq_some.mp held
      exact Finset.mem_image_of_mem _ (Finset.mem_range.mpr (bound b nonzero))
    · cases inFree
  have count := (Finset.card_le_card covered).trans Finset.card_image_le
  rw [Nat.card_Icc, Finset.card_range] at count
  exact absurd count (by decide)

/-- The allocator does not wait while a memory block is free. -/
theorem waitForFree_eq (nonempty : p.freeList ≠ 0) (codeBlock : Nat) (rands : List Nat)
    (m : Machine) : waitForFree codeBlock rands m p = some ([], p) := by
  cases rands <;> exact if_pos nonempty

/-- A list of consecutive numbers. -/
theorem chain_range' {next : Nat → Nat} (len c : Nat) (positive : 0 < c)
    (linked : ∀ n, c ≤ n → n < c + len → next n = if n + 1 < c + len then n + 1 else 0) :
    Chain next (if len = 0 then 0 else c) (List.range' c len) := by
  induction len generalizing c with
  | zero => rfl
  | succ len ih =>
    refine ⟨rfl, Nat.ne_of_gt positive, ?_⟩
    have rest := ih (c + 1) (Nat.succ_pos c) fun n low high => by
      rw [linked n (by omega) (by omega)]
      congr 1
      exact propext ⟨fun _ => by omega, fun _ => by omega⟩
    have link : next c = if len = 0 then 0 else c + 1 := by
      rw [linked c (Nat.le_refl c) (by omega)]
      split <;> split <;> omega
    exact link ▸ rest

theorem stocked_codegenAllocatorInit :
    codegenAllocatorInit.Stocked (List.range' 1 memBlockNr) where
  unique := nofun
  notPooled := nofun
  nodup := List.nodup_range'
  chain := by
    have linked (n : Nat) (low : 1 ≤ n) (high : n < 1 + memBlockNr) :
        codegenAllocatorInit.next n = if n + 1 < 1 + memBlockNr then n + 1 else 0 := by
      change (if n < memBlockNr then n + 1 else 0) = _
      split <;> split <;> omega
    exact chain_range' memBlockNr 1 Nat.one_pos linked
  last := nofun
  accounted n := by
    rw [Accounted, List.mem_range'_1]
    constructor
    · rintro (⟨b, held⟩ | inRange)
      · cases held
      · omega
    · intro inRange
      exact .inr (by omega)

theorem headMemBlock_freeChain (fuel : Nat) :
    (p.freeChain fuel n).headMemBlock = p.headMemBlock := by
  induction fuel generalizing p n with
  | zero => rfl
  | succ fuel ih =>
    unfold freeChain
    dsimp only
    split
    · rw [ih]
      rfl
    · rfl

theorem headMemBlock_release :
    (p.release nr).headMemBlock = Function.update p.headMemBlock nr 0 := by
  unfold release
  dsimp only [setHead]
  split
  · rw [codegenAllocatorFree, headMemBlock_freeChain]
  · rfl

/-- Only code blocks that are not released keep their memory. -/
theorem headMemBlock_releases (victims : List Nat)
    (held : (victims.foldl MemPool.release p).headMemBlock b ≠ 0) :
    p.headMemBlock b ≠ 0 ∧ b ∉ victims := by
  induction victims generalizing p with
  | nil => exact ⟨held, List.not_mem_nil⟩
  | cons v victims ih =>
    obtain ⟨before, later⟩ := ih held
    rw [headMemBlock_release] at before
    rcases eq_or_ne b v with rfl | other
    · exact absurd (Function.update_self ..) before
    · rw [Function.update_of_ne other] at before
      exact ⟨before, List.not_mem_cons_of_ne_of_not_mem other later⟩

end MemPool

/-! ## Which code blocks may have memory -/

namespace Machine

variable {m m' m'' : Machine} {nr n p : Nat} {open_ open' exempt : Option Nat}
  {victims victims' : List Nat} {f : CodeBlock → CodeBlock}

/-- The code block has code and is in use; it is on the dirty list only while it is compiled. -/
structure Holding (m : Machine) (open_ : Option Nat) (n : Nat) : Prop where
  inRange : InRange n
  coded : (m.block n).pc ≠ pcInvalid
  notFree : (m.block n).flags.inFreeList = false
  clean : open_ ≠ some n → (m.block n).flags.inDirtyList = false

/-- Only code blocks that may have memory have it. -/
def Homed (m : Machine) (open_ : Option Nat) (pool : MemPool) : Prop :=
  ∀ b, pool.headMemBlock b ≠ 0 → m.Holding open_ b

theorem Holding.congr (holding : m.Holding open_ n) (pc : (m'.block n).pc = (m.block n).pc)
    (free : (m'.block n).flags.inFreeList = (m.block n).flags.inFreeList)
    (dirty : open' ≠ some n → (m'.block n).flags.inDirtyList = false ∨
      open_ ≠ some n ∧ (m'.block n).flags.inDirtyList = (m.block n).flags.inDirtyList) :
    m'.Holding open' n where
  inRange := holding.inRange
  coded := pc ▸ holding.coded
  notFree := free ▸ holding.notFree
  clean closed := by
    rcases dirty closed with clean | ⟨closed', same⟩
    · exact clean
    · exact same ▸ holding.clean closed'

theorem Holding.of_core (holding : m.Holding open_ n)
    (core : (m'.block n).core = (m.block n).core) : m'.Holding open_ n := by
  have flags : (m'.block n).flags = (m.block n).flags :=
    CodeBlock.proj_of_core core CodeBlock.flags fun _ => rfl
  have pc : (m'.block n).pc = (m.block n).pc :=
    CodeBlock.proj_of_core core CodeBlock.pc fun _ => rfl
  exact holding.congr pc (by rw [flags]) fun closed => .inr ⟨closed, by rw [flags]⟩

theorem Holding.of_block (holding : m.Holding open_ n) (block : m'.block n = m.block n) :
    m'.Holding open_ n :=
  holding.of_core (congrArg CodeBlock.core block)

theorem Holding.modify (holding : m.Holding open_ n) (pc : (f (m.block nr)).pc = (m.block nr).pc)
    (free : (f (m.block nr)).flags.inFreeList = (m.block nr).flags.inFreeList)
    (dirty : (f (m.block nr)).flags.inDirtyList = (m.block nr).flags.inDirtyList) :
    (m.modify nr f).Holding open_ n := by
  rcases eq_or_ne n nr with rfl | other
  · rw [← block_modify_self (f := f)] at pc free dirty
    exact holding.congr pc free fun closed => .inr ⟨closed, dirty⟩
  · exact holding.of_block (block_modify_of_ne other)

theorem Holding.opened (holding : m.Holding none n) : m.Holding open_ n :=
  { holding with clean := fun _ => holding.clean nofun }

/-- Only these code blocks are invalidated or deleted. -/
def Spares (victims : List Nat) (m m' : Machine) : Prop :=
  ∀ n ∉ victims, m.Holding none n → m'.Holding none n

theorem Spares.refl : Spares victims m m := fun _ _ holding => holding

theorem Spares.trans (first : Spares victims m m') (second : Spares victims' m' m'') :
    Spares (victims ++ victims') m m'' := fun _ outside holding =>
  second _ (fun later => outside (List.mem_append_right _ later))
    (first _ (fun earlier => outside (List.mem_append_left _ earlier)) holding)

theorem Spares.of_block (block : ∀ n ∉ victims, m'.block n = m.block n) : Spares victims m m' :=
  fun _ outside holding => holding.of_block (block _ outside)

theorem Homed.release {pool : MemPool} (homed : m.Homed none pool) (spares : Spares victims m m') :
    m'.Homed none (victims.foldl MemPool.release pool) := by
  intro b held
  obtain ⟨before, outside⟩ := MemPool.headMemBlock_releases _ held
  exact spares b outside (homed b before)

theorem spares_deleteBlock : Spares [nr] m (m.deleteBlock nr) := fun _ outside holding =>
  holding.of_core (deleted_deleteBlock.others _ (List.ne_of_not_mem_cons outside))

theorem Kept.spares_invalidateBlock (kept : m.Kept none none) (live : m.Live none nr) :
    Spares [nr] m (m.invalidateBlock nr) := fun _ outside holding =>
  holding.of_core (kept.core_invalidateBlock live (List.ne_of_not_mem_cons outside)
    ⟨holding.inRange, holding.notFree, holding.clean nofun, nofun⟩)

theorem Kept.spares_flushPageList (fuel : Nat) (kept : m.Kept none none)
    (cursor : m.OnPage p nr) :
    Spares (m.flushedPageList fuel nr) m (m.flushPageList fuel nr) := by
  induction fuel generalizing m nr with
  | zero => exact .refl
  | succ fuel ih =>
    unfold flushedPageList Machine.flushPageList
    split
    case isTrue => exact .refl
    case isFalse nonzero =>
      obtain ⟨live, rfl⟩ := cursor.resolve_left nonzero
      obtain ⟨next, other⟩ := kept.listed.next_onPage live
      dsimp only
      split
      case isTrue =>
        exact (kept.spares_invalidateBlock live).trans
          (ih (kept.invalidateBlock live) (kept.onPage_invalidateBlock live next other))
      case isFalse => exact ih kept next

theorem Kept.spares_flushPageList2 (fuel : Nat) (kept : m.Kept none none)
    (cursor : m.OnPage2 p nr) :
    Spares (m.flushedPageList2 fuel nr) m (m.flushPageList2 fuel nr) := by
  induction fuel generalizing m nr with
  | zero => exact .refl
  | succ fuel ih =>
    unfold flushedPageList2 Machine.flushPageList2
    split
    case isTrue => exact .refl
    case isFalse nonzero =>
      obtain ⟨live, two, rfl⟩ := cursor.resolve_left nonzero
      obtain ⟨next, other⟩ := kept.listed.next_onPage2 live two
      dsimp only
      split
      case isTrue =>
        exact (kept.spares_invalidateBlock live).trans
          (ih (kept.invalidateBlock live) (kept.onPage2_invalidateBlock live next other))
      case isFalse => exact ih kept next

theorem Kept.spares_codegenCheckFlush (kept : m.Kept none none) :
    Spares (m.flushed p) m (m.codegenCheckFlush p) := by
  have first := kept.flushPageList blockSize kept.listed.head_onPage (p := p)
  have spares := kept.spares_flushPageList blockSize (kept.listed.head_onPage (p := p))
  have spares2 := first.spares_flushPageList2 blockSize (first.listed.head_onPage2 (p := p))
  intro n outside holding
  exact (spares.trans spares2 n outside holding).of_block rfl

theorem Kept.spares_codegenPurge (kept : m.Kept none none) :
    Spares (m.purged p) m (m.codegenPurge p) := by
  unfold purged Machine.codegenPurge
  split
  · exact kept.spares_codegenCheckFlush
  · exact .refl

theorem Kept.spares_refillFreeList {purgeHead rand : Nat} (kept : m.Kept none none)
    (refill : m.refillFreeList purgeHead rand = some m') :
    Spares (m.refilled purgeHead rand) m m' := by
  unfold Machine.refillFreeList at refill
  unfold refilled
  split at refill
  case isTrue nonempty =>
    cases refill
    rw [if_pos nonempty]
    intro n _ holding
    have apart : n ≠ m.dirtyTail := by
      rintro rfl
      exact Bool.false_ne_true ((holding.clean nofun).symm.trans
        (kept.listed.dirtyTail nonempty).2.1)
    have holding' := holding.of_core (deleted_takeDirtyTail.others n apart)
    exact holding'.of_block rfl
  case isFalse empty =>
    rw [if_neg empty]
    have purged := kept.codegenPurge (p := purgeHead)
    refine kept.spares_codegenPurge.trans ?_
    dsimp only at refill
    split at refill
    case isTrue =>
      cases refill
      exact .refl
    case isFalse still =>
      obtain ⟨v, found, rfl⟩ := Option.map_eq_some_iff.mp refill
      rw [if_neg still, found]
      exact spares_deleteBlock

theorem Listed.inFreeList_freeList (listed : m.Listed none) (nonempty : m.freeList ≠ 0) :
    (m.block m.freeList).flags.inFreeList = true := by
  obtain ⟨free, lists, lists2, linked, placed⟩ := listed
  obtain ⟨rest, rfl, -⟩ := linked.chain.exists_cons nonempty
  exact ((placed.free m.freeList).mp (.head _)).2

theorem Kept.spares_codegenBlockInit {a : InitArgs} (kept : m.Kept none none)
    (init : m.codegenBlockInit a = some m') : Spares (m.evicted a) m m' := by
  obtain ⟨⟨nr, popped⟩, get, rfl⟩ := Option.map_eq_some_iff.mp init
  unfold evicted
  generalize flush : (if (m.page (pageOf a.phys)).block = 0 then m.flushWritePage a.phys a.pc
      else m) = flushed at get
  have flushed' : flushed.Kept none none ∧ Spares [] m flushed := by
    subst flush
    split
    · exact ⟨kept.flushWritePage .., .of_block fun _ _ => rfl⟩
    · exact ⟨kept, .refl⟩
  obtain ⟨before, refill, popped'⟩ := Option.map_eq_some_iff.mp get
  have filled : before.Kept none none ∧ before.freeList ≠ 0 ∧
      Spares (if flushed.freeList = 0 then flushed.refilled a.purgeHead a.rand else [])
        flushed before := by
    split at refill
    case isTrue empty =>
      rw [if_pos empty]
      obtain ⟨kept', nonempty⟩ := flushed'.1.refillFreeList refill
      exact ⟨kept', nonempty, flushed'.1.spares_refillFreeList refill⟩
    case isFalse nonempty =>
      cases refill
      exact ⟨flushed'.1, nonempty, .refl⟩
  obtain ⟨kept', nonempty, spares⟩ := filled
  have free := kept'.listed.inFreeList_freeList nonempty
  cases popped'
  intro n outside holding
  have holding' := flushed'.2.trans spares n outside holding
  have apart : n ≠ before.freeList := by
    rintro rfl
    exact Bool.false_ne_true (holding'.notFree.symm.trans free)
  have popped : (before.modify before.freeList fun b =>
      { b with next := 0, flags := { b.flags with inFreeList := false } }).block n =
        before.block n := block_modify_of_ne apart
  exact holding'.of_block ((block_modify_of_ne apart).trans popped)

/-! ## Marking, compiling and deleting -/

theorem Holding.openWrite (holding : m.Holding open_ n) (write : OpenWrite nr m m') :
    m'.Holding open_ n := by
  rcases eq_or_ne n nr with rfl | other
  · exact holding.congr write.pc (by rw [write.flags]) fun closed =>
      .inr ⟨closed, by rw [write.flags]⟩
  · exact holding.of_block (write.others n other)

/-- Flags are set that do not say which list the block is on. -/
theorem Holding.reflagged {φ : BlockFlags → BlockFlags} (holding : m.Holding open_ n)
    (reflagged : Reflagged nr φ m m')
    (free : (φ (m.block nr).flags).inFreeList = (m.block nr).flags.inFreeList)
    (dirty : (φ (m.block nr).flags).inDirtyList = (m.block nr).flags.inDirtyList ∨
      (φ (m.block nr).flags).inDirtyList = false) : m'.Holding open_ n := by
  have flags := reflagged.flags n
  refine holding.congr (reflagged.proj CodeBlock.pc (fun _ _ => rfl) n) ?_ fun closed => ?_
  · rw [flags]
    split
    case isTrue self => rw [self, free]
    case isFalse => rfl
  · rw [flags]
    split
    case isTrue self =>
      subst self
      rcases dirty with same | clean
      · exact .inr ⟨closed, same⟩
      · exact .inl clean
    case isFalse => exact .inr ⟨closed, rfl⟩

theorem Holding.addToBlockList (holding : m.Holding open_ n) :
    (m.addToBlockList nr).Holding open_ n := by
  have reflagged : Reflagged nr (listedFlags (m.block nr)) m (m.addToBlockList nr) :=
    reflagged_addToBlockList
  refine holding.reflagged reflagged ?_ (.inl ?_)
  all_goals
    unfold listedFlags
    split <;> rfl

theorem Holding.wasmFreeBlock (holding : m.Holding open_ n) :
    (m.wasmFreeBlock nr).Holding open_ n := by
  rw [wasmFreeBlock_eq]
  have released : ({ m with wasm := m.wasm.release (m.block nr).wasmFnIdx } : Machine).Holding
      open_ n := holding.of_block rfl
  exact released.modify rfl rfl rfl

theorem Holding.codegenBlockEnd (holding : m.Holding none n) (endpc : Nat)
    (endPhys : Option Nat) : (m.codegenBlockEnd endpc endPhys).Holding none n :=
  (holding.openWrite (m.openWrite_generateEndMaskMark endpc endPhys)).addToBlockList

theorem Holding.codegenBackendEpilogue (holding : m.Holding open_ n) (outcome : Epilogue) :
    (m.codegenBackendEpilogue nr outcome).Holding open_ n := by
  have freed : (m.wasmFreeBlock nr).Holding open_ n := holding.wasmFreeBlock
  unfold Machine.codegenBackendEpilogue
  dsimp only
  cases outcome with
  | emitFails => exact freed.modify rfl rfl rfl
  | restructureFails => exact freed.modify rfl rfl rfl
  | nojit => exact freed.modify rfl rfl rfl
  | deferIo => exact freed.modify rfl rfl rfl
  | install succeeds =>
    have popped (wasm : WasmTable) : ({ m.wasmFreeBlock nr with wasm } : Machine).Holding open_ n :=
      freed.of_block rfl
    dsimp only
    split
    · exact (popped _).modify rfl rfl rfl
    · exact (popped _).modify rfl rfl rfl

/-- The compiled block has left the dirty list at its end. -/
theorem Holding.unlinked (holding : m.Holding (some nr) n) :
    (if (m.block nr).flags.inDirtyList then m.blockDirtyListRemove nr
      else m.removeFromBlockList nr).Holding none n := by
  have closes {m' : Machine} (same : m'.Holding (some nr) n)
      (clean : (m'.block nr).flags.inDirtyList = false) : m'.Holding none n := by
    refine { same with clean := fun _ => ?_ }
    rcases eq_or_ne n nr with rfl | other
    · exact clean
    · exact same.clean fun self => other (Option.some.inj self).symm
  split
  case isTrue =>
    have reflagged : Reflagged nr (fun f => { f with inDirtyList := false }) m
        (m.blockDirtyListRemove nr) := reflagged_blockDirtyListRemove
    refine closes (holding.reflagged reflagged rfl (.inr rfl)) ?_
    rw [reflagged.flags, if_pos rfl]
  case isFalse clean =>
    have reflagged : Reflagged nr (unlistedFlags (m.block nr)) m (m.removeFromBlockList nr) :=
      reflagged_removeFromBlockList
    have flags : (unlistedFlags (m.block nr) (m.block nr).flags).inFreeList =
        (m.block nr).flags.inFreeList ∧
        (unlistedFlags (m.block nr) (m.block nr).flags).inDirtyList =
        (m.block nr).flags.inDirtyList := by
      unfold unlistedFlags
      split <;> exact ⟨rfl, rfl⟩
    refine closes (holding.reflagged reflagged flags.1 (.inl flags.2)) ?_
    rw [reflagged.flags, if_pos rfl, flags.2]
    exact Bool.not_eq_true _ ▸ clean

theorem Holding.codegenBlockEndRecompile (holding : m.Holding (some m.blockCurrent) n)
    (endpc : Nat) (endPhys : Option Nat) (usesFpu : Bool) (outcome : Epilogue) :
    (m.codegenBlockEndRecompile m.blockCurrent endpc endPhys usesFpu outcome).Holding none n := by
  unfold Machine.codegenBlockEndRecompile
  extract_lets used unlinked cleared listed flagged
  have used' : used.Holding (some m.blockCurrent) n := holding.modify rfl rfl rfl
  have unlinked' : unlinked.Holding none n := used'.unlinked
  have cleared' : cleared.Holding none n := unlinked'.modify rfl rfl rfl
  have masked := cleared'.openWrite (cleared.generateEndMaskRecompile_spec endpc endPhys).1
  have listed' : listed.Holding none n := masked.addToBlockList
  have flagged' : flagged.Holding none n := by
    refine listed'.modify ?_ ?_ ?_
    all_goals split <;> rfl
  exact flagged'.codegenBackendEpilogue outcome

/-- Unless the allocator waits, no code block is deleted for the one to be compiled. -/
theorem Holding.codegenBlockStartRecompile (holding : m.Holding (some nr) n) (status : BitVec 16)
    (top : Nat) : (m.codegenBlockStartRecompile nr status top []).Holding (some nr) n := by
  unfold Machine.codegenBlockStartRecompile
  extract_lets b flushed current cleared
  have flushed' : flushed.Holding (some nr) n := by
    unfold flushed
    split
    · exact holding.of_block rfl
    · exact holding
  have entered : ({ cleared with recompPage := some (pageOf b.phys), builds := cleared.builds + 1 } :
      Machine).Holding (some nr) n := flushed'.of_block rfl
  refine entered.modify ?_ ?_ ?_
  all_goals
    dsimp only
    split <;> rfl

theorem Holding.markCode (holding : m.Holding open_ n) (startPc len : Nat) :
    (m.modify nr (CodeBlock.markCodePresent · startPc len)).Holding open_ n := by
  obtain ⟨mask, mask2, marked⟩ := markCodePresent_eq (m.block nr) startPc len
  refine holding.modify ?_ ?_ ?_
  all_goals rw [marked]

/-- Every block with code from `c` on is deleted. -/
theorem mem_deletedAll (fuel c : Nat) (low : c ≤ n) (high : n < c + fuel)
    (coded : (m.block n).pc ≠ pcInvalid) : n ∈ m.deletedAll fuel c := by
  induction fuel generalizing m c with
  | zero => omega
  | succ fuel ih =>
    unfold deletedAll
    rcases eq_or_ne n c with rfl | other
    · rw [if_pos coded]
      exact .head _
    · split
      case isTrue =>
        refine .tail _ (ih (c + 1) (by omega) (by omega) ?_)
        rw [CodeBlock.proj_of_core (deleted_deleteBlock.others n other) CodeBlock.pc fun _ => rfl,
          block_modify_of_ne other]
        exact coded
      case isFalse => exact ih (c + 1) (by omega) (by omega) coded

end Machine

/-! ## Runs -/

namespace Recompiler

variable {s t : Recompiler} {m m' : Machine} {pool : MemPool} {victims : List Nat}

/-- Each memory block is on the free list or in the chain of exactly one code block, that code
block is in use, and the allocator's wait ends. -/
structure Conserved (s : Recompiler) (free : List Nat) (chain : Nat → List Nat) : Prop where
  freeList : Chain s.pool.next s.pool.freeList free
  chains : ∀ b, Chain s.pool.next (s.pool.headMemBlock b) (chain b)
  nodup : free.Nodup ∧ ∀ b, (chain b).Nodup
  place : ∀ n, 0 < n → n ≤ memBlockNr → n ∈ free ∧ (∀ b, n ∉ chain b) ∨
    n ∉ free ∧ ∃! b, n ∈ chain b
  inRange : ∀ n, n ∈ free ∨ (∃ b, n ∈ chain b) → 0 < n ∧ n ≤ memBlockNr
  live : ∀ b, chain b ≠ [] → InRange b ∧ (s.dynarec.machine.block b).pc ≠ pcInvalid ∧
    (s.dynarec.machine.block b).flags.inFreeList = false
  waits : ∀ codeBlock rands m, (MemPool.waitForFree codeBlock rands m s.pool).isSome

/-- The condition on a step: it keeps the lists of the code blocks, and no block is compiled that
still has a chain of memory blocks. -/
def KeepsMem (s : Recompiler) : MemLabel → Prop
  | .startRecompile a _ _ => a.pc ≠ pcInvalid ∧
      s.pool.headMemBlock (s.dynarec.machine.hashed a) = 0
  | .other l => s.dynarec.KeepsLists l

structure MemInv (s : Recompiler) : Prop where
  inv : s.dynarec.Inv
  homed : s.dynarec.machine.Homed s.dynarec.openBlock s.pool
  stocked : ∃ free, s.pool.Stocked free

theorem MemInv.nonempty (mem : s.MemInv) : s.pool.freeList ≠ 0 := by
  obtain ⟨free, stocked⟩ := mem.stocked
  exact stocked.freeList_ne_zero fun b held => (mem.homed b held).inRange.2

theorem MemInv.conserved (mem : s.MemInv) : ∃ free chain, s.Conserved free chain := by
  obtain ⟨free, stocked⟩ := mem.stocked
  refine ⟨free, s.pool.chainOf, stocked.chain, stocked.chain_chainOf,
    ⟨stocked.nodup, fun b => ?_⟩, fun n low high => ?_, fun n somewhere => ?_,
    fun b nonempty => ?_, fun codeBlock rands m => ?_⟩
  case refine_1 =>
    unfold MemPool.chainOf
    cases s.pool.holds b <;> simp
  case refine_2 =>
    simp only [MemPool.mem_chainOf]
    rcases (stocked.accounted n).mpr ⟨low, high⟩ with ⟨b, held⟩ | inFree
    · exact .inr ⟨stocked.notPooled held, b, held, fun c held' => stocked.unique held' held⟩
    · exact .inl ⟨inFree, fun b held => stocked.notPooled held inFree⟩
  case refine_3 =>
    simp only [MemPool.mem_chainOf] at somewhere
    exact (stocked.accounted n).mp somewhere.symm
  case refine_4 =>
    have held : s.pool.headMemBlock b ≠ 0 := fun zero => nonempty <| by
      rw [MemPool.chainOf, MemPool.holds_eq_none.mpr zero]
      rfl
    have holding := mem.homed b held
    exact ⟨holding.inRange, holding.coded, holding.notFree⟩
  case refine_5 =>
    rw [MemPool.waitForFree_eq mem.nonempty]
    rfl

theorem MemInv.init (lookup : WriteLookup) (wasm : WasmTable) (memPages : Nat) :
    (init lookup wasm memPages).MemInv :=
  ⟨.init lookup wasm memPages, fun _ held => absurd rfl held,
    _, MemPool.stocked_codegenAllocatorInit⟩

/-! ## Steps -/

/-- A step that gives no memory back keeps every code block that has some. -/
theorem MemInv.congr (mem : s.MemInv) (inv : t.dynarec.Inv) (pool : t.pool = s.pool)
    (holding : ∀ b, s.dynarec.machine.Holding s.dynarec.openBlock b →
      t.dynarec.machine.Holding t.dynarec.openBlock b) : t.MemInv where
  inv := inv
  homed b held := holding b (mem.homed b (pool ▸ held))
  stocked := pool ▸ mem.stocked

theorem pc_of_valid {b : CodeBlock} {a : Lookup} (valid : b.valid a = true) : b.pc = a.pc := by
  simp only [CodeBlock.valid, Bool.and_eq_true, decide_eq_true_eq] at valid
  exact valid.1.1.1.1

theorem MemInv.startRecompile {a : Lookup} {top : Nat} {rands : List Nat} (mem : s.MemInv)
    (keeps : s.KeepsMem (.startRecompile a top rands))
    (next : s.step (.startRecompile a top rands) = some t) : t.MemInv := by
  obtain ⟨coded, idle⟩ := keeps
  obtain ⟨d, p⟩ := s
  obtain ⟨free, stocked⟩ := mem.stocked
  simp only [Recompiler.step] at next
  rw [MemPool.waitForFree_eq mem.nonempty, Option.bind_some] at next
  obtain ⟨d', next', rfl⟩ := Option.map_eq_some_iff.mp next
  have inv := mem.inv.startRecompile coded next'
  obtain ⟨m, phase⟩ := d
  simp only [Dynarec.step] at next'
  split at next' <;> cases next'
  rename_i started
  obtain ⟨rfl, valid, -, -⟩ := started
  have kept : m.Kept none none := mem.inv
  obtain ⟨inRange, notFree, -⟩ := Dynarec.of_valid kept valid coded (Dynarec.hashed_lt kept a)
  have homed : m.Homed none p := mem.homed
  refine ⟨inv, fun b held => ?_, stocked.take mem.nonempty idle⟩
  have current : Dynarec.openBlock ⟨m.codegenBlockStartRecompile (m.hashed a) a.status top [],
      .recompiling⟩ = some (m.hashed a) := congrArg some Dynarec.blockCurrent_startRecompile
  have holding : m.Holding (some (m.hashed a)) b := by
    rcases eq_or_ne b (m.hashed a) with rfl | other
    · exact ⟨inRange, pc_of_valid valid ▸ coded, notFree, fun closed => absurd rfl closed⟩
    · exact (homed b ((Function.update_of_ne other ..).symm.trans_ne held)).opened
  dsimp only
  rw [current]
  exact holding.codegenBlockStartRecompile a.status top

theorem MemInv.checkFlush {p : Nat} (mem : s.MemInv)
    (next : s.step (.other (.checkFlush p)) = some t) : t.MemInv := by
  obtain ⟨d', next', rfl⟩ := Option.map_eq_some_iff.mp next
  have inv := mem.inv.checkFlush next'
  obtain ⟨⟨m, phase⟩, pool⟩ := s
  simp only [Dynarec.step] at next'
  split at next' <;> cases next'
  rename_i idle
  obtain rfl := idle
  have kept : m.Kept none none := mem.inv
  have homed : m.Homed none pool := mem.homed
  obtain ⟨free, stocked⟩ := mem.stocked
  exact ⟨inv, homed.release kept.spares_codegenCheckFlush, stocked.releases _⟩

theorem MemInv.initBlock {a : InitArgs} (mem : s.MemInv) (coded : a.pc ≠ pcInvalid)
    (next : s.step (.other (.init a)) = some t) : t.MemInv := by
  obtain ⟨d', next', rfl⟩ := Option.map_eq_some_iff.mp next
  have inv := mem.inv.initBlock coded next'
  obtain ⟨⟨m, phase⟩, pool⟩ := s
  simp only [Dynarec.step] at next'
  split at next'
  · rename_i idle
    obtain rfl := idle
    obtain ⟨m', init, rfl⟩ := Option.map_eq_some_iff.mp next'
    have kept : m.Kept none none := mem.inv
    have homed : m.Homed none pool := mem.homed
    obtain ⟨free, stocked⟩ := mem.stocked
    exact ⟨inv, homed.release (kept.spares_codegenBlockInit init), stocked.releases _⟩
  · cases next'

/-- The aborted block's memory goes back with it. -/
theorem Homed.codegenBlockRemove {open_ : Option Nat} (homed : m.Homed open_ pool)
    (current : open_ = none ∨ open_ = some m.blockCurrent) :
    m.codegenBlockRemove.Homed none (pool.release m.blockCurrent) := by
  intro b held
  obtain ⟨before, outside⟩ := MemPool.headMemBlock_releases [m.blockCurrent] held
  have other := List.ne_of_not_mem_cons outside
  have holding := homed b before
  have closed : m.Holding none b := by
    refine { holding with clean := fun _ => holding.clean ?_ }
    rcases current with rfl | rfl
    · nofun
    · exact fun self => other (Option.some.inj self).symm
  have deleted : (m.deleteBlock m.blockCurrent).Holding none b :=
    closed.of_core (Machine.deleted_deleteBlock.others b other)
  exact deleted.of_block rfl

theorem MemInv.blockRemove (mem : s.MemInv) (keeps : s.dynarec.KeepsLists .blockRemove)
    (next : s.step (.other .blockRemove) = some t) : t.MemInv := by
  obtain ⟨d', next', rfl⟩ := Option.map_eq_some_iff.mp next
  have inv := mem.inv.blockRemove keeps next'
  obtain ⟨⟨m, phase⟩, pool⟩ := s
  obtain ⟨free, stocked⟩ := mem.stocked
  cases phase with
  | idle => cases next'
  | marking =>
    cases next'
    exact ⟨inv, Homed.codegenBlockRemove mem.homed (.inl rfl), stocked.release _⟩
  | recompiling =>
    cases next'
    exact ⟨inv, Homed.codegenBlockRemove mem.homed (.inr rfl), stocked.release _⟩

/-- A reset deletes every code block that has memory, before it clears the blocks. -/
theorem MemInv.reset (mem : s.MemInv) (keeps : s.dynarec.KeepsLists .reset)
    (next : s.step (.other .reset) = some t) : t.MemInv := by
  have next' : s.dynarec.step .reset = some ⟨s.dynarec.machine.codegenReset, .idle⟩ := rfl
  cases next
  obtain ⟨free, stocked⟩ := mem.stocked
  obtain ⟨free', stocked'⟩ := stocked.releases
    (s.dynarec.machine.deletedAll (blockSize - 1) 1)
  have emptied : ((s.dynarec.machine.deletedAll (blockSize - 1) 1).foldl MemPool.release
      s.pool).headMemBlock = fun _ => 0 := by
    funext b
    by_contra held
    obtain ⟨before, outside⟩ := MemPool.headMemBlock_releases _ held
    have holding := mem.homed b before
    have high : b < 1 + (blockSize - 1) := holding.inRange.2
    exact outside (Machine.mem_deletedAll _ 1 holding.inRange.1 high holding.coded)
  refine ⟨mem.inv.reset keeps next', fun b held => absurd rfl held, free', ?_⟩
  simp only [poolAfter, ← emptied]
  exact stocked'

theorem MemInv.endRecompile {endpc : Nat} {endPhys : Option Nat} {usesFpu : Bool}
    {outcome : Epilogue} (mem : s.MemInv)
    (keeps : s.dynarec.KeepsLists (.endRecompile endpc endPhys usesFpu outcome))
    (next : s.step (.other (.endRecompile endpc endPhys usesFpu outcome)) = some t) :
    t.MemInv := by
  obtain ⟨d', next', rfl⟩ := Option.map_eq_some_iff.mp next
  refine mem.congr (mem.inv.endRecompile keeps next') rfl fun b holding => ?_
  obtain ⟨⟨m, phase⟩, pool⟩ := s
  simp only [Dynarec.step] at next'
  split at next' <;> cases next'
  rename_i recompiling
  obtain rfl := recompiling
  have holding' : m.Holding (some m.blockCurrent) b := holding
  exact holding'.codegenBlockEndRecompile endpc endPhys usesFpu outcome

theorem MemInv.blockEnd {endpc : Nat} {endPhys : Option Nat} (mem : s.MemInv)
    (next : s.step (.other (.blockEnd endpc endPhys)) = some t) : t.MemInv := by
  obtain ⟨d', next', rfl⟩ := Option.map_eq_some_iff.mp next
  refine mem.congr (mem.inv.blockEnd next') rfl fun b holding => ?_
  obtain ⟨⟨m, phase⟩, pool⟩ := s
  simp only [Dynarec.step] at next'
  split at next' <;> cases next'
  rename_i marking
  obtain rfl := marking
  have holding' : m.Holding none b := holding
  exact holding'.codegenBlockEnd endpc endPhys

/-- The steps that move no block keep every block that has memory. -/
theorem MemInv.relabel (mem : s.MemInv) (inv : t.dynarec.Inv) (pool : t.pool = s.pool)
    (phase : t.dynarec.phase = s.dynarec.phase)
    (current : t.dynarec.machine.blockCurrent = s.dynarec.machine.blockCurrent)
    (holding : ∀ open_ b, s.dynarec.machine.Holding open_ b → t.dynarec.machine.Holding open_ b) :
    t.MemInv := by
  have open_ : t.dynarec.openBlock = s.dynarec.openBlock := by
    simp only [Dynarec.openBlock, phase, current]
  exact mem.congr inv pool fun b before => open_ ▸ holding _ b before

theorem MemInv.step {l : MemLabel} (mem : s.MemInv) (keeps : s.KeepsMem l)
    (next : s.step l = some t) : t.MemInv := by
  cases l with
  | startRecompile a top rands => exact mem.startRecompile keeps next
  | other l =>
    cases l with
    | startRecompile => cases next
    | checkFlush => exact mem.checkFlush next
    | init => exact mem.initBlock keeps next
    | blockRemove => exact mem.blockRemove keeps next
    | reset => exact mem.reset keeps next
    | blockEnd => exact mem.blockEnd next
    | endRecompile => exact mem.endRecompile keeps next
    | select a nr =>
      obtain ⟨d', next', rfl⟩ := Option.map_eq_some_iff.mp next
      have inv := mem.inv.select keeps next'
      simp only [Dynarec.step] at next'
      split at next' <;> cases next'
      exact mem.relabel inv rfl rfl rfl fun _ _ holding => holding.of_block rfl
    | demote a =>
      obtain ⟨d', next', rfl⟩ := Option.map_eq_some_iff.mp next
      have inv := mem.inv.demote next'
      simp only [Dynarec.step] at next'
      split at next' <;> cases next'
      refine mem.relabel inv rfl rfl rfl fun _ _ holding => holding.modify rfl ?_ ?_
      all_goals
        unfold CodeBlock.demote
        split <;> rfl
    | topMismatch a =>
      obtain ⟨d', next', rfl⟩ := Option.map_eq_some_iff.mp next
      have inv := mem.inv.topMismatch next'
      simp only [Dynarec.step] at next'
      split at next' <;> cases next'
      refine mem.relabel inv rfl rfl rfl fun _ _ holding => ?_
      dsimp only
      exact holding.modify rfl rfl rfl
    | markCode startPc len =>
      obtain ⟨d', next', rfl⟩ := Option.map_eq_some_iff.mp next
      have inv := mem.inv.markCode next'
      simp only [Dynarec.step] at next'
      split at next' <;> cases next'
      exact mem.relabel inv rfl rfl rfl fun _ _ holding => holding.markCode startPc len
    | write p dirty byteDirty =>
      have written : s.dynarec.step (.write p dirty byteDirty) = some _ := rfl
      have inv := mem.inv.write written
      cases next
      exact mem.relabel inv rfl rfl rfl fun _ _ holding => holding.of_block rfl

/-- In a run that compiles no code block with a chain, and keeps the lists of the code blocks, no
memory block is lost and the allocator never waits. -/
theorem conserved_of_run {lookup : WriteLookup} {wasm : WasmTable} {memPages : Nat}
    (run : RunOk Recompiler.step KeepsMem (init lookup wasm memPages) s) :
    ∃ free chain, s.Conserved free chain :=
  (run.invariant (MemInv.init lookup wasm memPages) MemInv.step).conserved

/-- Compiling a code block that still has a chain does lose it. -/
theorem MemInv.lost {a : Lookup} {top : Nat} {rands : List Nat} (mem : s.MemInv)
    (held : s.pool.headMemBlock (s.dynarec.machine.hashed a) ≠ 0)
    (next : s.step (.startRecompile a top rands) = some t) :
    ¬∃ free chain, t.Conserved free chain := by
  rintro ⟨free', chain', conserved⟩
  obtain ⟨d, p⟩ := s
  obtain ⟨free, stocked⟩ := mem.stocked
  simp only [Recompiler.step] at next
  rw [MemPool.waitForFree_eq mem.nonempty, Option.bind_some] at next
  obtain ⟨d', -, rfl⟩ := Option.map_eq_some_iff.mp next
  generalize d.machine.hashed a = nr at *
  obtain ⟨rest, rfl, tail⟩ := stocked.chain.exists_cons mem.nonempty
  have holds : p.holds nr = some (p.headMemBlock nr) := MemPool.holds_eq_some.mpr ⟨held, rfl⟩
  have outside := stocked.notPooled holds
  have taken : ((p.takeFree 0 nr).2.setHead nr (p.takeFree 0 nr).1).next =
      Function.update p.next p.freeList 0 := MemPool.next_setMemBlock
  have elsewhere {n : Nat} (other : n ≠ p.freeList) :
      ((p.takeFree 0 nr).2.setHead nr (p.takeFree 0 nr).1).next n = p.next n := by
    rw [taken, Function.update_of_ne other]
  have unpooled : p.headMemBlock nr ∉ free' := by
    have rest' := tail.congr fun n inRest => elsewhere <| by
      rintro rfl
      exact (List.nodup_cons.mp stocked.nodup).1 inRest
    rw [conserved.freeList.unique rest']
    exact List.not_mem_of_not_mem_cons outside
  have lost (b : Nat) : p.headMemBlock nr ∉ chain' b := by
    rcases eq_or_ne b nr with rfl | other
    · have fresh : Chain ((p.takeFree 0 b).2.setHead b (p.takeFree 0 b).1).next
          (((p.takeFree 0 b).2.setHead b (p.takeFree 0 b).1).headMemBlock b) [p.freeList] := by
        refine ⟨Function.update_self .., mem.nonempty, ?_⟩
        rw [taken, Function.update_self]
        rfl
      rw [(conserved.chains b).unique fresh, List.mem_singleton]
      exact List.ne_of_not_mem_cons outside
    · have same : Chain ((p.takeFree 0 nr).2.setHead nr (p.takeFree 0 nr).1).next
          (((p.takeFree 0 nr).2.setHead nr (p.takeFree 0 nr).1).headMemBlock b) (p.chainOf b) := by
        have head : ((p.takeFree 0 nr).2.setHead nr (p.takeFree 0 nr).1).headMemBlock b =
            p.headMemBlock b := Function.update_of_ne other ..
        rw [head]
        refine (stocked.chain_chainOf b).congr fun n inChain => elsewhere ?_
        rintro rfl
        exact stocked.notPooled (MemPool.mem_chainOf.mp inChain) (.head _)
      rw [(conserved.chains b).unique same, MemPool.mem_chainOf]
      exact fun shared => other (stocked.unique shared holds)
  obtain ⟨low, high⟩ := (stocked.accounted _).mp (.inl ⟨nr, holds⟩)
  rcases conserved.place _ low high with ⟨inFree, -⟩ | ⟨-, b, inChain, -⟩
  · exact unpooled inFree
  · exact lost b inChain

/-! ## A block compiled again after a change of the stack top -/

/-- Freshly allocated memory of 16 pages, an empty function table and an empty allocator. -/
def start : Recompiler := ⟨Dynarec.start, .codegenAllocatorInit⟩

/-- A block of 16 bytes is marked at address 4096, and then compiled. -/
def compileLabels : List MemLabel :=
  [.other (.init ⟨0x1000, 0, 0x1000, 0, 0, 0⟩), .other (.blockEnd 0x1010 none),
    .startRecompile ⟨0x1000, 0, 0x1000, 0⟩ 0 [], .other (.markCode 0x1000 16),
    .other (.endRecompile 0x1010 none true (.install true))]

/-- The block is entered with another stack top. -/
def mismatchLabel : MemLabel := .other (.topMismatch ⟨0x1000, 0, 0x1000, 0⟩)

/-- The block is compiled for the new stack top. -/
def recompileLabel : MemLabel := .startRecompile ⟨0x1000, 0, 0x1000, 0⟩ 1 []

/-- The condition on the steps of `compileLabels`. -/
def keepsMem (s : Recompiler) : MemLabel → Bool
  | .startRecompile a _ _ => a.pc ≠ pcInvalid &&
      s.pool.headMemBlock (s.dynarec.machine.hashed a) = 0
  | .other (.init a) => a.pc ≠ pcInvalid
  | .other (.endRecompile _ _ _ _) =>
    (s.dynarec.machine.block s.dynarec.machine.blockCurrent).pageMask ≠ 0
  | .other (.blockEnd _ _) | .other (.markCode _ _) | .other (.topMismatch _) => true
  | _ => false

theorem keepsMem_sound (s : Recompiler) (l : MemLabel) (keeps : keepsMem s l = true) :
    s.KeepsMem l := by
  cases l with
  | startRecompile => simpa [keepsMem, KeepsMem] using keeps
  | other l => cases l <;> simp_all [keepsMem, KeepsMem, Dynarec.KeepsLists]

/-- The compiled block has the first memory block. -/
theorem conserved_of_compileLabels : ∃ s, RunOk Recompiler.step KeepsMem start s ∧
    s.pool.headMemBlock 16383 = 1 ∧ ∃ free chain, s.Conserved free chain := by
  have compiled : (execOk Recompiler.step keepsMem start compileLabels).map
      (fun s => s.pool.headMemBlock 16383) = some 1 := by
    rw [start, Dynarec.start_eq]
    decide +kernel
  obtain ⟨s, done, head⟩ := Option.map_eq_some_iff.mp compiled
  have run := RunOk.of_execOk keepsMem_sound done
  exact ⟨s, run, head, conserved_of_run run⟩

/-- The second compilation leaves the first memory block in no chain. -/
theorem not_conserved_recompile : ¬ ∀ labels s, exec Recompiler.step start labels = some s →
    ∃ free chain, s.Conserved free chain := by
  intro conserved
  have ready : (execOk Recompiler.step keepsMem start (compileLabels ++ [mismatchLabel])).map
      (fun s => (s.pool.headMemBlock (s.dynarec.machine.hashed ⟨0x1000, 0, 0x1000, 0⟩),
        (s.step recompileLabel).isSome)) = some (1, true) := by
    rw [start, Dynarec.start_eq]
    decide +kernel
  obtain ⟨s, done, both⟩ := Option.map_eq_some_iff.mp ready
  obtain ⟨head, accepted⟩ := Prod.mk.inj both
  obtain ⟨t, next⟩ := Option.isSome_iff_exists.mp accepted
  have mem : s.MemInv :=
    (RunOk.of_execOk keepsMem_sound done).invariant (MemInv.init _ _ _) MemInv.step
  have held : s.pool.headMemBlock (s.dynarec.machine.hashed ⟨0x1000, 0, 0x1000, 0⟩) ≠ 0 :=
    head ▸ Nat.one_ne_zero
  have whole : exec Recompiler.step start (compileLabels ++ [mismatchLabel] ++ [recompileLabel]) =
      some t := by
    rw [exec_append, exec_of_execOk done, Option.bind_some, exec, next]
    rfl
  exact mem.lost held next (conserved _ t whole)

end Recompiler

end PCemWeb.Codegen
