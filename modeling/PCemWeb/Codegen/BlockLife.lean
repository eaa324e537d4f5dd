import PCemWeb.Codegen.BlockInvariant

/-!
# The life of a code block

From the free list a block goes under construction, to the lists of its pages, to the dirty
list and back. Every operation on the way keeps the invariant.
-/

namespace PCemWeb.Codegen

open PCemWeb.Lib

namespace Machine

variable {m m' m'' : Machine} {nr n p : Nat} {open_ exempt exempt' : Option Nat}

/-! ## Writing the block under construction -/

/-- The machines differ in one block, and outside the blocks and the lists. -/
structure SameElsewhere (nr : Nat) (m m' : Machine) : Prop where
  others : ∀ n ≠ nr, m'.block n = m.block n
  head : ∀ i, m'.head i = m.head i
  head2 : ∀ q, (m'.page q).block2 = (m.page q).block2
  freeList : m'.freeList = m.freeList
  tail : m'.dirtyTail = m.dirtyTail
  size : m'.dirtyListSize = m.dirtyListSize

theorem SameElsewhere.trans (first : SameElsewhere nr m m') (second : SameElsewhere nr m' m'') :
    SameElsewhere nr m m'' where
  others n other := (second.others n other).trans (first.others n other)
  head i := (second.head i).trans (first.head i)
  head2 q := (second.head2 q).trans (first.head2 q)
  freeList := second.freeList.trans first.freeList
  tail := second.tail.trans first.tail
  size := second.size.trans first.size

theorem SameElsewhere.modify {f : CodeBlock → CodeBlock} : SameElsewhere nr m (m.modify nr f) where
  others _ other := block_modify_of_ne other
  head _ := head_modify
  head2 _ := rfl
  freeList := rfl
  tail := rfl
  size := rfl

/-- Every list survives, none of them having the block. -/
theorem Listed.rewrite (listed : m.Listed (some nr)) (same : SameElsewhere nr m m')
    (notFree : (m'.block nr).flags.inFreeList = false)
    (clean : (m'.block nr).flags.inDirtyList = false)
    (single : (m'.block nr).flags.hasPage2 = false) : m'.Listed (some nr) := by
  obtain ⟨free, lists, lists2, linked, placed⟩ := listed
  obtain ⟨inRange, fresh, fresh2, fresh3, single'⟩ := placed.fresh
  have openBlock := placed.openBlock nr rfl
  have notNr (i : Place) (n : Nat) (inList : n ∈ lists i) : n ≠ nr := fun same =>
    fresh i (same ▸ inList)
  have notNr2 (q n : Nat) (inList : n ∈ lists2 q) : n ≠ nr := fun same => fresh2 q (same ▸ inList)
  refine ⟨free, lists, lists2, ?_, ?_⟩
  · exact {
      chain := same.freeList ▸ linked.chain.congr fun n inFree => by
        rw [same.others n fun same => fresh3 (same ▸ inFree)]
      nodup := linked.nodup
      first := linked.first.congr (fun i n inList => by rw [same.others n (notNr i n inList)])
        (fun i n inList => by rw [same.others n (notNr i n inList)]) same.head
      second := linked.second.congr (fun q n inList => by rw [same.others n (notNr2 q n inList)])
        (fun q n inList => by rw [same.others n (notNr2 q n inList)]) same.head2
      notFree := linked.notFree
      tail := same.tail.trans linked.tail
      size := same.size.trans linked.size }
  · have live (n : Nat) : m'.Live (some nr) n ↔ m.Live (some nr) n := by
      rcases eq_or_ne n nr with rfl | other
      · simp [Live]
      · simp [Live, same.others n other]
    constructor
    case free =>
      intro n
      rcases eq_or_ne n nr with rfl | other
      · simp [fresh3, notFree]
      · rw [same.others n other, placed.free]
    case dirty =>
      intro n
      rcases eq_or_ne n nr with rfl | other
      · simp [fresh, clean]
      · rw [same.others n other, placed.dirty]
    case page =>
      intro p n
      rw [placed.page, live]
      rcases eq_or_ne n nr with rfl | other
      · simp [Live]
      · rw [same.others n other]
    case page2 =>
      intro p n
      rcases eq_or_ne n nr with rfl | other
      · simp [fresh2, single]
      · rw [same.others n other, placed.page2]
    case exclusive =>
      intro n
      rcases eq_or_ne n nr with rfl | other
      · simp [clean]
      · rw [same.others n other]
        exact placed.exclusive n
    case hasPage2 =>
      intro n
      rw [live]
      rcases eq_or_ne n nr with rfl | other
      · simp [single]
      · rw [same.others n other]
        exact placed.hasPage2 n
    case openBlock =>
      rintro n ⟨⟩
      exact ⟨inRange, notFree, clean⟩

/-- The block under construction keeps its address and its flags for the lists. -/
structure OpenWrite (nr : Nat) (m m' : Machine) : Prop extends SameElsewhere nr m m' where
  pc : (m'.block nr).pc = (m.block nr).pc
  phys : (m'.block nr).phys = (m.block nr).phys
  flags : (m'.block nr).flags = (m.block nr).flags
  slot : (m'.block nr).wasmFnIdx = (m.block nr).wasmFnIdx
  build : (m'.block nr).build = (m.block nr).build
  hash : m'.hash = m.hash
  blockCurrent : m'.blockCurrent = m.blockCurrent
  wasm : m'.wasm = m.wasm

theorem OpenWrite.trans (first : OpenWrite nr m m') (second : OpenWrite nr m' m'') :
    OpenWrite nr m m'' :=
  { first.toSameElsewhere.trans second.toSameElsewhere with
    pc := second.pc.trans first.pc
    phys := second.phys.trans first.phys
    flags := second.flags.trans first.flags
    slot := second.slot.trans first.slot
    build := second.build.trans first.build
    hash := second.hash.trans first.hash
    blockCurrent := second.blockCurrent.trans first.blockCurrent
    wasm := second.wasm.trans first.wasm }

theorem OpenWrite.modify {f : CodeBlock → CodeBlock} (pc : (f (m.block nr)).pc = (m.block nr).pc)
    (phys : (f (m.block nr)).phys = (m.block nr).phys)
    (flags : (f (m.block nr)).flags = (m.block nr).flags)
    (slot : (f (m.block nr)).wasmFnIdx = (m.block nr).wasmFnIdx)
    (build : (f (m.block nr)).build = (m.block nr).build) : OpenWrite nr m (m.modify nr f) :=
  { SameElsewhere.modify with
    pc := block_modify_self ▸ pc
    phys := block_modify_self ▸ phys
    flags := block_modify_self ▸ flags
    slot := block_modify_self ▸ slot
    build := block_modify_self ▸ build
    hash := rfl
    blockCurrent := rfl
    wasm := rfl }

theorem OpenWrite.of_sameLists (same : SameLists m m') (block : m'.block = m.block)
    (hash : m'.hash = m.hash) (blockCurrent : m'.blockCurrent = m.blockCurrent)
    (wasm : m'.wasm = m.wasm) : OpenWrite nr m m' where
  others n _ := by rw [block]
  head := same.head
  head2 := same.head2
  freeList := same.freeList
  tail := same.tail
  size := same.size
  pc := by rw [block]
  phys := by rw [block]
  flags := by rw [block]
  slot := by rw [block]
  build := by rw [block]
  hash := hash
  blockCurrent := blockCurrent
  wasm := wasm

theorem Kept.openWrite (kept : m.Kept (some nr) (some nr)) (write : OpenWrite nr m m') :
    m'.Kept (some nr) (some nr) := by
  obtain ⟨inRange, notFree, clean⟩ := kept.listed.openBlock
  have single := kept.listed.openSingle
  refine ⟨kept.listed.rewrite write.toSameElsewhere ?_ ?_ ?_, write.size ▸ kept.size,
    kept.coded.congr ⟨?_, ?_, ?_, ?_, ?_, write.hash⟩⟩
  case refine_1 => rw [write.flags, notFree]
  case refine_2 => rw [write.flags, clean]
  case refine_3 => rw [write.flags, single]
  case refine_8 =>
    intro n other
    rw [write.others n (by simpa [eq_comm] using other)]
  all_goals
    intro n
    rcases eq_or_ne n nr with rfl | other
    · simp only [write.pc, write.flags, write.phys]
    · rw [write.others n other]

/-- Fields outside lists and blocks. -/
theorem Kept.of_eq (kept : m.Kept open_ exempt) (block : m'.block = m.block)
    (page : m'.page = m.page) (freeList : m'.freeList = m.freeList)
    (dirtyHead : m'.dirtyHead = m.dirtyHead) (tail : m'.dirtyTail = m.dirtyTail)
    (size : m'.dirtyListSize = m.dirtyListSize) (hash : m'.hash = m.hash) :
    m'.Kept open_ exempt :=
  ⟨kept.listed.congr (.of_eq block page freeList dirtyHead tail size), size ▸ kept.size,
    kept.coded.congr ⟨fun _ => by rw [block], fun _ => by rw [block], fun _ => by rw [block],
      fun _ => by rw [block], fun _ _ => by rw [block], hash⟩⟩

/-! ## A free block is found -/

/-- A block that is not free can be unlinked. -/
theorem Kept.unlinkable (kept : m.Kept open_ exempt) (inRange : InRange nr)
    (notFree : (m.block nr).flags.inFreeList = false) (other : exempt ≠ some nr) :
    (m.block nr).flags.inDirtyList = true ∨ (m.block nr).pageMask ≠ 0 := by
  cases clean : (m.block nr).flags.inDirtyList with
  | true => exact .inl rfl
  | false => exact .inr (kept.coded.mask nr ⟨inRange, notFree, clean, other⟩)

theorem Kept.notFree (kept : m.Kept open_ exempt) (inRange : InRange nr)
    (coded : (m.block nr).pc ≠ pcInvalid) : (m.block nr).flags.inFreeList = false := by
  rw [← Bool.not_eq_true, ← kept.coded.pc nr inRange]
  exact coded

theorem randomVictim_spec {fuel start v : Nat} (found : m.randomVictim fuel start = some v)
    (bound : start < blockSize) : InRange v ∧ (m.block v).pc ≠ pcInvalid := by
  induction fuel generalizing start with
  | zero => cases found
  | succ fuel ih =>
    unfold randomVictim at found
    split at found
    case isTrue victim =>
      cases found
      exact ⟨⟨Nat.pos_of_ne_zero victim.1, bound⟩, victim.2.2⟩
    case isFalse => exact ih found (Nat.mod_lt _ (by decide))

/-- The oldest dirty block becomes free. -/
theorem Kept.takeDirtyTail (kept : m.Kept none none) (nonempty : m.dirtyTail ≠ 0) :
    (m.takeDirtyTail.deleteDirtyBlock m.dirtyTail).Kept none none where
  listed := by
    have taken := kept.listed.takeDirtyTail nonempty
    rw [deleteDirtyBlock_eq]
    exact (taken.congr sameLists_forget).freed
  size := by
    have size : m.takeDirtyTail.dirtyListSize = m.dirtyListSize - 1 :=
      (unlinked_takeDirtyTail (kept.listed.dirtyTail nonempty).2.2.1).size
    rw [deleteDirtyBlock_eq, blockFreeListAdd, wasmFreeBlock_eq]
    exact Nat.le_trans (Nat.le_of_eq size) (Nat.le_trans (Nat.sub_le _ _) kept.size)
  coded := kept.coded.deleted deleted_takeDirtyTail (kept.listed.dirtyTail nonempty).1 (.inl rfl)

theorem Kept.codegenPurge (kept : m.Kept none none) : (m.codegenPurge p).Kept none none := by
  unfold Machine.codegenPurge
  split
  · exact kept.codegenCheckFlush
  · exact kept

theorem eq_of_freeList (head : m.freeList = n) : { m with freeList := n } = m := by
  rw [← head]

theorem Kept.refillFreeList {purgeHead rand : Nat} (kept : m.Kept none none)
    (refill : m.refillFreeList purgeHead rand = some m') : m'.Kept none none ∧ m'.freeList ≠ 0 := by
  unfold Machine.refillFreeList at refill
  split at refill
  case isTrue nonempty =>
    cases refill
    rw [eq_of_freeList m.deleted_takeDirtyTail.freeList]
    exact ⟨kept.takeDirtyTail nonempty, m.deleted_takeDirtyTail.freeList ▸ nonempty⟩
  case isFalse =>
    have purged := kept.codegenPurge (p := purgeHead)
    dsimp only at refill
    split at refill
    case isTrue nonempty =>
      cases refill
      exact ⟨purged, nonempty⟩
    case isFalse =>
      obtain ⟨v, found, rfl⟩ := Option.map_eq_some_iff.mp refill
      obtain ⟨inRange, coded⟩ := randomVictim_spec found (Nat.mod_lt _ (by decide))
      have notFree := purged.notFree inRange coded
      exact ⟨purged.deleteBlock inRange notFree (purged.unlinkable inRange notFree nofun)
        (.inl rfl), deleted_deleteBlock.freeList ▸ inRange.ne_zero⟩

/-- What `block_free_list_get` leaves: a block off the free list, and the rest as before. -/
theorem Kept.blockFreeListGet {purgeHead rand : Nat} (kept : m.Kept none none)
    (get : m.blockFreeListGet purgeHead rand = some (nr, m')) :
    m'.Listed (some nr) ∧ m'.dirtyListSize ≤ dirtyListMaxSize ∧
      ∃ before : Machine, before.Kept none none ∧ InRange nr ∧
        (before.block nr).flags.inFreeList = true ∧ m'.hash = before.hash ∧
        ∀ n ≠ nr, m'.block n = before.block n := by
  obtain ⟨before, refill, popped⟩ := Option.map_eq_some_iff.mp get
  have filled : before.Kept none none ∧ before.freeList ≠ 0 := by
    split at refill
    case isTrue => exact kept.refillFreeList refill
    case isFalse nonempty =>
      cases refill
      exact ⟨kept, nonempty⟩
  obtain ⟨kept', nonempty⟩ := filled
  cases popped
  obtain ⟨free, lists, lists2, linked, placed⟩ := id kept'.listed
  obtain ⟨rest, rfl, -⟩ := linked.chain.exists_cons nonempty
  obtain ⟨inRange, inFree⟩ := (placed.free before.freeList).mp (.head _)
  exact ⟨kept'.listed.freePop nonempty (fun _ => ⟨rfl, rfl, rfl⟩) fun _ => rfl, kept'.size,
    before, kept', inRange, inFree, rfl, fun n other => block_modify_of_ne other⟩

/-! ## Marking -/

theorem Kept.flushWritePage (kept : m.Kept open_ exempt) (addr virt : Nat) :
    (m.flushWritePage addr virt).Kept open_ exempt :=
  ⟨kept.listed.congr (.flushWritePage ..), kept.size,
    kept.coded.congr ⟨fun _ => rfl, fun _ => rfl, fun _ => rfl, fun _ => rfl, fun _ _ => rfl, rfl⟩⟩

/-- A block off the free list gets an address and its place in the hash table. -/
theorem Coded.reborn (coded : m.Coded none) (inRange : InRange nr)
    (wasFree : (m.block nr).flags.inFreeList = true) (others : ∀ n ≠ nr, m'.block n = m.block n)
    (valid : (m'.block nr).pc ≠ pcInvalid) (notFree : (m'.block nr).flags.inFreeList = false)
    (hash : m'.hash = Function.update m.hash (hashOf (m'.block nr).phys) nr) :
    m'.Coded (some nr) where
  pc n inRange' := by
    rcases eq_or_ne n nr with rfl | other
    · simp [valid, notFree]
    · rw [others n other]
      exact coded.pc n inRange'
  pcZero := by
    rw [others 0 inRange.ne_zero.symm]
    exact coded.pcZero
  hash h nonzero := by
    rw [hash] at nonzero ⊢
    rcases eq_or_ne h (hashOf (m'.block nr).phys) with rfl | elsewhere
    · rw [Function.update_self]
      exact ⟨inRange, notFree, rfl⟩
    · rw [Function.update_of_ne elsewhere] at nonzero ⊢
      obtain ⟨inRange', notFree', hashed⟩ := coded.hash h nonzero
      have other : m.hash h ≠ nr := by
        intro same
        rw [same, wasFree] at notFree'
        cases notFree'
      rw [others _ other]
      exact ⟨inRange', notFree', hashed⟩
  mask n live := by
    have other : n ≠ nr := fun same => live.2.2.2 (same ▸ rfl)
    rw [others n other]
    refine coded.mask n ⟨live.1, ?_, ?_, nofun⟩
    · rw [← others n other, live.2.1]
    · rw [← others n other, live.2.2.1]

/-- A new block has clear links, no code yet and is the current one. -/
structure Fresh (m : Machine) : Prop where
  kept : m.Kept (some m.blockCurrent) (some m.blockCurrent)
  prev : (m.block m.blockCurrent).prev = 0
  pageMask : (m.block m.blockCurrent).pageMask = 0

theorem Kept.codegenBlockInit {a : InitArgs} (kept : m.Kept none none) (valid : a.pc ≠ pcInvalid)
    (init : m.codegenBlockInit a = some m') : m'.Fresh := by
  obtain ⟨⟨nr, popped⟩, get, rfl⟩ := Option.map_eq_some_iff.mp init
  have flushed : (if (m.page (pageOf a.phys)).block = 0 then m.flushWritePage a.phys a.pc
      else m).Kept none none := by
    split
    · exact kept.flushWritePage ..
    · exact kept
  obtain ⟨listed, size, before, kept', inRange, inFree, hash, others⟩ := flushed.blockFreeListGet get
  refine ⟨⟨?_, size, ?_⟩, ?_, ?_⟩
  case refine_3 => exact congrArg CodeBlock.prev block_modify_self
  case refine_4 => exact congrArg CodeBlock.pageMask block_modify_self
  case refine_1 =>
    refine listed.rewrite ?_ ?_ ?_ ?_
    · exact ⟨fun n other => block_modify_of_ne other, fun i => by cases i <;> rfl, fun _ => rfl,
        rfl, rfl, rfl⟩
    · exact congrArg (·.flags.inFreeList) block_modify_self
    · exact congrArg (·.flags.inDirtyList) block_modify_self
    · exact congrArg (·.flags.hasPage2) block_modify_self
  case refine_2 =>
    change Coded _ (some nr)
    refine kept'.coded.reborn inRange inFree (fun n other => ?_) ?_ ?_ ?_
    · exact (block_modify_of_ne other).trans (others n other)
    · exact fun same => valid ((congrArg CodeBlock.pc block_modify_self).symm.trans same)
    · exact congrArg (·.flags.inFreeList) block_modify_self
    · dsimp only
      rw [block_modify_self]
      exact congrArg (Function.update · (hashOf a.phys) nr) hash

/-- Writes of the end masks that are no writes to the block's links. -/
theorem openWrite_modifyPage {g : Page → Page} (head : (g (m.page p)).block = (m.page p).block)
    (head2 : (g (m.page p)).block2 = (m.page p).block2) : OpenWrite nr m (m.modifyPage p g) :=
  .of_sameLists (.modifyPage head head2) rfl rfl rfl rfl

theorem openWrite_flushWritePage (addr virt : Nat) : OpenWrite nr m (m.flushWritePage addr virt) :=
  .of_sameLists (.flushWritePage ..) rfl rfl rfl rfl

theorem openWrite_recompPage (page : Option Nat) : OpenWrite nr m { m with recompPage := page } :=
  .of_sameLists (.of_eq rfl rfl rfl rfl rfl rfl) rfl rfl rfl rfl

theorem OpenWrite.refl : OpenWrite nr m m :=
  .of_sameLists (.of_eq rfl rfl rfl rfl rfl rfl) rfl rfl rfl rfl

/-- A mask from one bit to a later one has its first bit. -/
theorem maskBits_ne_zero {lo hi : Nat} (ordered : lo ≤ hi) (bound : hi < 64) :
    maskBits lo hi ≠ 0 := by
  intro zero
  have bit := congrArg (·.getLsbD lo) zero
  simp only [maskBits, BitVec.getLsbD_and, BitVec.getLsbD_shiftLeft, BitVec.getLsbD_ushiftRight,
    BitVec.getLsbD_allOnes] at bit
  simp at bit
  omega

theorem openWrite_generateEndMaskMark (endpc : Nat) (endPhys : Option Nat) :
    OpenWrite m.blockCurrent m (m.generateEndMaskMark endpc endPhys) := by
  unfold generateEndMaskMark
  extract_lets nr pc crosses startPc endPc endPc' mask marked paged mask2 crossed
  have first : OpenWrite nr m marked := .modify rfl rfl rfl rfl rfl
  have second : OpenWrite nr marked paged := openWrite_modifyPage rfl rfl
  have third : OpenWrite nr paged crossed := by
    unfold crossed
    split
    case isFalse => exact .refl
    case isTrue =>
      cases endPhys with
      | none => exact .refl
      | some phys2 =>
        dsimp -zeta only
        extract_lets p2 masked recorded
        have masks : OpenWrite nr paged masked := .modify rfl rfl rfl rfl rfl
        have records : OpenWrite nr masked recorded := openWrite_modifyPage rfl rfl
        split
        · exact (masks.trans records).trans (openWrite_flushWritePage ..)
        · exact masks.trans records
  exact ((first.trans second).trans third).trans (openWrite_recompPage none)

/-- A marked block has code in its first page, and its links are clear. -/
theorem block_generateEndMaskMark (endpc : Nat) (endPhys : Option Nat) :
    ((m.generateEndMaskMark endpc endPhys).block m.blockCurrent).prev =
        (m.block m.blockCurrent).prev ∧
      ((m.generateEndMaskMark endpc endPhys).block m.blockCurrent).prev2 = 0 ∧
      ((m.generateEndMaskMark endpc endPhys).block m.blockCurrent).pageMask ≠ 0 := by
  unfold generateEndMaskMark
  extract_lets nr pc crosses startPc endPc endPc' mask marked paged mask2 crossed
  have nonzero : mask ≠ 0 := by
    have start : startPc ≤ 4032 := by omega
    have ordered : startPc ≤ endPc' ∧ endPc' ≤ 4095 := by
      unfold endPc'
      split
      · omega
      · refine ⟨by omega, ?_⟩
        unfold endPc
        split <;> omega
    exact maskBits_ne_zero (Nat.div_le_div_right ordered.1) (by omega)
  have paged : (paged.block nr).prev = (m.block nr).prev ∧ (paged.block nr).prev2 = 0 ∧
      (paged.block nr).pageMask = mask := by
    simp [paged, marked]
  have crossed : (crossed.block nr).prev = (m.block nr).prev ∧ (crossed.block nr).prev2 = 0 ∧
      (crossed.block nr).pageMask = mask := by
    unfold crossed
    split
    case isFalse => exact paged
    case isTrue =>
      cases endPhys with
      | none => exact paged
      | some phys2 =>
        dsimp -zeta only
        extract_lets p2 masked recorded
        have recorded : (recorded.block nr).prev = (m.block nr).prev ∧
            (recorded.block nr).prev2 = 0 ∧ (recorded.block nr).pageMask = mask := by
          simpa [recorded, masked] using paged
        split
        · exact recorded
        · exact recorded
  exact ⟨crossed.1, crossed.2.1, fun zero => nonzero (crossed.2.2.symm.trans zero)⟩

/-- A block whose code is known needs no exemption. -/
theorem Coded.close (coded : m.Coded (some nr)) (mask : (m.block nr).pageMask ≠ 0) :
    m.Coded none :=
  { coded with
    mask := fun n live => by
      rcases eq_or_ne n nr with rfl | other
      · exact mask
      · exact coded.mask n ⟨live.1, live.2.1, live.2.2.1, by simpa [eq_comm] using other⟩ }

theorem dirtyListSize_addToBlockList (clear : (m.block nr).prev = 0)
    (clear2 : (m.block nr).prev2 = 0) :
    (m.addToBlockList nr).dirtyListSize = m.dirtyListSize := by
  have size := (pushed_addToPage clear).size
  have clear2' : (((m.addToPage nr).setHasPage2 nr true).block nr).prev2 = 0 := by
    rw [setHasPage2, block_modify_self, (pushed_addToPage clear).prev2, clear2]
  unfold addToBlockList
  dsimp only
  split
  · exact (pushed2_addToPage2 clear2').size.trans size
  · exact size

/-- A block with code and clear links goes on its pages' lists. -/
theorem Kept.addToBlockList (kept : m.Kept (some nr) (some nr)) (clear : (m.block nr).prev = 0)
    (clear2 : (m.block nr).prev2 = 0) (mask : (m.block nr).pageMask ≠ 0) :
    (m.addToBlockList nr).Kept none none where
  listed := kept.listed.addToBlockList clear clear2
  size := Nat.le_trans (Nat.le_of_eq (dirtyListSize_addToBlockList clear clear2)) kept.size
  coded := by
    have coded := kept.coded.close mask
    refine coded.reflagged reflagged_addToBlockList ?_ (.inr fun _ => kept.listed.openBlock.2.2)
    unfold listedFlags
    split <;> rfl

theorem Fresh.codegenBlockEnd (fresh : m.Fresh) (endpc : Nat) (endPhys : Option Nat) :
    (m.codegenBlockEnd endpc endPhys).Kept none none := by
  obtain ⟨prev, prev2, mask⟩ := m.block_generateEndMaskMark endpc endPhys
  have write := m.openWrite_generateEndMaskMark endpc endPhys
  have kept := fresh.kept.openWrite write
  unfold Machine.codegenBlockEnd
  dsimp only
  rw [write.blockCurrent]
  exact kept.addToBlockList (prev.trans fresh.prev) prev2 mask

/-- An abort while marking frees the new block. -/
theorem Fresh.codegenBlockRemove (fresh : m.Fresh) : m.codegenBlockRemove.Kept none none := by
  have kept : (m.deleteBlock m.blockCurrent).Kept none none :=
    fresh.kept.deleteOpen fresh.pageMask (.inr rfl)
  exact kept.of_eq rfl rfl rfl rfl rfl rfl rfl

/-! ## Compiling -/

/-- The block being compiled stays on its lists; it has no code until the first is recorded. -/
structure Recompiling (m : Machine) : Prop where
  kept : m.Kept none (some m.blockCurrent)
  inRange : InRange m.blockCurrent
  notFree : (m.block m.blockCurrent).flags.inFreeList = false

theorem Recompiling.of_current (current : m.blockCurrent = nr) (kept : m.Kept none (some nr))
    (inRange : InRange nr) (notFree : (m.block nr).flags.inFreeList = false) : m.Recompiling := by
  subst current
  exact ⟨kept, inRange, notFree⟩

/-- The fields that place a block on its lists and in the hash table are the same. -/
structure SamePlace (b c : CodeBlock) : Prop where
  links : c.next = b.next ∧ c.prev = b.prev ∧ c.next2 = b.next2 ∧ c.prev2 = b.prev2
  flags : c.flags.inFreeList = b.flags.inFreeList ∧ c.flags.inDirtyList = b.flags.inDirtyList ∧
    c.flags.hasPage2 = b.flags.hasPage2
  phys : c.phys = b.phys ∧ c.phys2 = b.phys2
  pc : c.pc = b.pc

theorem Kept.modify {f : CodeBlock → CodeBlock} (kept : m.Kept open_ exempt)
    (same : SamePlace (m.block nr) (f (m.block nr)))
    (mask : exempt = some nr ∨ (f (m.block nr)).pageMask = (m.block nr).pageMask) :
    (m.modify nr f).Kept open_ exempt := by
  refine ⟨kept.listed.congr (.modify same.links same.flags same.phys), kept.size,
    kept.coded.congr ⟨?_, ?_, ?_, ?_, ?_, rfl⟩⟩
  case refine_5 =>
    intro n other
    rw [block_modify]
    split
    case isTrue self =>
      rw [self]
      exact mask.resolve_left (self ▸ other)
    case isFalse => rfl
  all_goals
    intro n
    rw [block_modify]
    split
    case isTrue self => simp only [self, same.pc, same.flags, same.phys]
    case isFalse => rfl

/-- The allocator deletes other blocks than the one to be compiled. -/
theorem Kept.deleteVictims {victims : List Nat} (kept : m.Kept none none)
    (bound : ∀ v ∈ victims, v < blockSize) :
    (victims.foldl (fun m v => if v ≠ nr then m.codegenDeleteBlock v else m) m).Kept none none ∧
      ((victims.foldl (fun m v => if v ≠ nr then m.codegenDeleteBlock v else m) m).block nr).core =
        (m.block nr).core ∧
      (victims.foldl (fun m v => if v ≠ nr then m.codegenDeleteBlock v else m) m).blockCurrent =
        m.blockCurrent := by
  induction victims generalizing m with
  | nil => exact ⟨kept, rfl, rfl⟩
  | cons v victims ih =>
    rw [List.foldl_cons]
    have bound' := fun w inRest => bound w (.tail _ inRest)
    split
    case isFalse => exact ih kept bound'
    case isTrue other =>
      unfold codegenDeleteBlock
      split
      case isFalse => exact ih kept bound'
      case isTrue coded =>
        have inRange : InRange v := by
          refine ⟨Nat.pos_of_ne_zero ?_, bound v (.head _)⟩
          rintro rfl
          exact coded kept.coded.pcZero
        have notFree := kept.notFree inRange coded
        have deleted : Deleted v m (m.deleteBlock v) := deleted_deleteBlock
        obtain ⟨kept', core, current⟩ := ih (kept.deleteBlock inRange notFree
          (kept.unlinkable inRange notFree nofun) (.inl rfl)) bound'
        exact ⟨kept', core.trans (deleted.others nr other.symm), current.trans deleted.blockCurrent⟩

theorem Kept.codegenBlockStartRecompile {victims : List Nat} (kept : m.Kept none none)
    (inRange : InRange nr) (notFree : (m.block nr).flags.inFreeList = false)
    (status : BitVec 16) (top : Nat) (bound : ∀ v ∈ victims, v < blockSize) :
    (m.codegenBlockStartRecompile nr status top victims).Recompiling := by
  unfold Machine.codegenBlockStartRecompile
  extract_lets b flushed current cleared
  have flushed : flushed.Kept none none ∧ flushed.block nr = m.block nr := by
    unfold flushed
    split
    · exact ⟨kept.flushWritePage .., rfl⟩
    · exact ⟨kept, rfl⟩
  have current : current.Kept none none := flushed.1.of_eq rfl rfl rfl rfl rfl rfl rfl
  obtain ⟨kept', core, same⟩ := current.deleteVictims bound
  have exempted : cleared.Kept none (some nr) :=
    ⟨kept'.listed, kept'.size, kept'.coded.exemptBlock nr⟩
  have flags : (cleared.block nr).flags = (m.block nr).flags := by
    rw [← flushed.2]
    exact CodeBlock.proj_of_core core CodeBlock.flags fun _ => rfl
  have opened : ({ cleared with
      recompPage := some (pageOf b.phys), builds := cleared.builds + 1 } : Machine).Kept
      none (some nr) := exempted.of_eq rfl rfl rfl rfl rfl rfl rfl
  refine .of_current same (opened.modify ?_ (.inl rfl)) inRange ?_
  · constructor <;> dsimp only <;> split <;> simp
  · rw [block_modify_self]
    dsimp only
    split <;> simpa only [flags] using notFree

theorem markCodePresent_eq (b : CodeBlock) (startPc len : Nat) : ∃ mask mask2,
    b.markCodePresent startPc len = { b with pageMask := mask, pageMask2 := mask2 } := by
  unfold CodeBlock.markCodePresent
  split
  · exact ⟨b.pageMask, b.pageMask2, rfl⟩
  · extract_lets endPc unit start end_
    split
    · exact ⟨b.pageMask, _, rfl⟩
    · split
      · exact ⟨_, _, rfl⟩
      · exact ⟨_, b.pageMask2, rfl⟩

theorem Recompiling.markCode (recompiling : m.Recompiling) (startPc len : Nat) :
    (m.modify m.blockCurrent (CodeBlock.markCodePresent · startPc len)).Recompiling := by
  obtain ⟨mask, mask2, marked⟩ := markCodePresent_eq (m.block m.blockCurrent) startPc len
  have current : (m.modify m.blockCurrent (CodeBlock.markCodePresent · startPc len)).blockCurrent =
      m.blockCurrent := rfl
  refine .of_current current (recompiling.kept.modify ?_ (.inl rfl)) recompiling.inRange ?_
  · rw [marked]
    exact ⟨⟨rfl, rfl, rfl, rfl⟩, ⟨rfl, rfl, rfl⟩, ⟨rfl, rfl⟩, rfl⟩
  · rw [block_modify_self, marked]
    exact recompiling.notFree

/-- The compiled block leaves the dirty list or its pages' lists. -/
theorem Kept.unlink (kept : m.Kept none (some nr)) (inRange : InRange nr)
    (notFree : (m.block nr).flags.inFreeList = false) (mask : (m.block nr).pageMask ≠ 0)
    (result : (if (m.block nr).flags.inDirtyList then m.blockDirtyListRemove nr
      else m.removeFromBlockList nr) = m') :
    m'.Kept (some nr) (some nr) ∧ (m'.block nr).pageMask = (m.block nr).pageMask ∧
      m'.blockCurrent = m.blockCurrent := by
  subst result
  split
  case isTrue dirty =>
    have reflagged : Reflagged nr _ m (m.blockDirtyListRemove nr) := reflagged_blockDirtyListRemove
    refine ⟨⟨kept.listed.blockDirtyListRemove inRange dirty, ?_, kept.coded.reflagged reflagged rfl
      (.inl rfl)⟩, reflagged.proj CodeBlock.pageMask (fun _ _ => rfl) nr, reflagged.blockCurrent⟩
    exact Nat.le_trans (unlinked_blockDirtyListRemove.size ▸ Nat.sub_le _ _) kept.size
  case isFalse clean =>
    have reflagged : Reflagged nr _ m (m.removeFromBlockList nr) := reflagged_removeFromBlockList
    rw [Bool.not_eq_true] at clean
    refine ⟨⟨kept.listed.removeFromBlockList ⟨inRange, notFree, clean, nofun⟩ mask,
      Nat.le_trans (Nat.le_of_eq dirtyListSize_removeFromBlockList) kept.size,
      kept.coded.reflagged reflagged ?_ (.inl rfl)⟩,
      reflagged.proj CodeBlock.pageMask (fun _ _ => rfl) nr, reflagged.blockCurrent⟩
    unfold unlistedFlags
    split <;> rfl

/-- `codegen_block_generate_end_mask_recompile` keeps the first page's mask. -/
theorem generateEndMaskRecompile_spec (endpc : Nat) (endPhys : Option Nat) :
    OpenWrite m.blockCurrent m (m.generateEndMaskRecompile endpc endPhys) ∧
      ((m.generateEndMaskRecompile endpc endPhys).block m.blockCurrent).prev =
        (m.block m.blockCurrent).prev ∧
      ((m.generateEndMaskRecompile endpc endPhys).block m.blockCurrent).prev2 = 0 ∧
      ((m.generateEndMaskRecompile endpc endPhys).block m.blockCurrent).pageMask =
        (m.block m.blockCurrent).pageMask := by
  unfold generateEndMaskRecompile
  extract_lets nr b paged cleared crossed
  have present : OpenWrite nr m paged :=
    openWrite_modifyPage (by simp only [Page.present]; split <;> rfl)
      (by simp only [Page.present]; split <;> rfl)
  have first : OpenWrite nr paged cleared := .modify rfl rfl rfl rfl rfl
  have start : OpenWrite nr m cleared ∧ (cleared.block nr).prev = b.prev ∧
      (cleared.block nr).prev2 = 0 ∧ (cleared.block nr).pageMask = b.pageMask := by
    refine ⟨present.trans first, ?_⟩
    simp [cleared, paged, b]
  have last : OpenWrite nr m crossed ∧ (crossed.block nr).prev = b.prev ∧
      (crossed.block nr).prev2 = 0 ∧ (crossed.block nr).pageMask = b.pageMask := by
    unfold crossed
    split
    case isFalse => exact start
    case isTrue =>
      cases endPhys with
      | none =>
        refine ⟨start.1.trans (.modify rfl rfl rfl rfl rfl), ?_⟩
        simpa using start.2
      | some phys2 =>
        dsimp -zeta only
        extract_lets p2 recorded masked
        have records : OpenWrite nr cleared recorded :=
          openWrite_modifyPage (by simp only [Page.present]; split <;> rfl)
            (by simp only [Page.present]; split <;> rfl)
        have masks : OpenWrite nr recorded masked := .modify rfl rfl rfl rfl rfl
        have masked' : (masked.block nr).prev = b.prev ∧ (masked.block nr).prev2 = 0 ∧
            (masked.block nr).pageMask = b.pageMask := by
          simpa [masked, recorded] using start.2
        split
        · exact ⟨((start.1.trans records).trans masks).trans (openWrite_flushWritePage ..), masked'⟩
        · exact ⟨(start.1.trans records).trans masks, masked'⟩
  exact ⟨last.1.trans (openWrite_recompPage none), last.2⟩

/-- However the compilation ends, only slots, the index and other flags change. -/
theorem Kept.codegenBackendEpilogue (kept : m.Kept none none) (outcome : Epilogue) :
    (m.codegenBackendEpilogue nr outcome).Kept none none := by
  have freed : (m.wasmFreeBlock nr).Kept none none := kept.wasmFreeBlock
  have flagged {m : Machine} (kept : m.Kept none none) {f : CodeBlock → CodeBlock}
      (same : SamePlace (m.block nr) (f (m.block nr)))
      (mask : (f (m.block nr)).pageMask = (m.block nr).pageMask) :
      (m.modify nr f).Kept none none := kept.modify same (.inr mask)
  unfold Machine.codegenBackendEpilogue
  dsimp only
  cases outcome with
  | emitFails => exact flagged freed ⟨⟨rfl, rfl, rfl, rfl⟩, ⟨rfl, rfl, rfl⟩, ⟨rfl, rfl⟩, rfl⟩ rfl
  | restructureFails =>
    exact flagged freed ⟨⟨rfl, rfl, rfl, rfl⟩, ⟨rfl, rfl, rfl⟩, ⟨rfl, rfl⟩, rfl⟩ rfl
  | nojit => exact flagged freed ⟨⟨rfl, rfl, rfl, rfl⟩, ⟨rfl, rfl, rfl⟩, ⟨rfl, rfl⟩, rfl⟩ rfl
  | deferIo => exact flagged freed ⟨⟨rfl, rfl, rfl, rfl⟩, ⟨rfl, rfl, rfl⟩, ⟨rfl, rfl⟩, rfl⟩ rfl
  | install succeeds =>
    have popped (wasm : WasmTable) : ({ m.wasmFreeBlock nr with wasm } : Machine).Kept none none :=
      freed.of_eq rfl rfl rfl rfl rfl rfl rfl
    dsimp only
    split
    · exact flagged (popped _) ⟨⟨rfl, rfl, rfl, rfl⟩, ⟨rfl, rfl, rfl⟩, ⟨rfl, rfl⟩, rfl⟩ rfl
    · exact flagged (popped _) ⟨⟨rfl, rfl, rfl, rfl⟩, ⟨rfl, rfl, rfl⟩, ⟨rfl, rfl⟩, rfl⟩ rfl

theorem Recompiling.codegenBlockEndRecompile (recompiling : m.Recompiling)
    (mask : (m.block m.blockCurrent).pageMask ≠ 0) (endpc : Nat) (endPhys : Option Nat)
    (usesFpu : Bool) (outcome : Epilogue) :
    (m.codegenBlockEndRecompile m.blockCurrent endpc endPhys usesFpu outcome).Kept none none := by
  unfold Machine.codegenBlockEndRecompile
  extract_lets used unlinked cleared listed flagged
  have used' : used.Kept none (some m.blockCurrent) :=
    recompiling.kept.modify ⟨⟨rfl, rfl, rfl, rfl⟩, ⟨rfl, rfl, rfl⟩, ⟨rfl, rfl⟩, rfl⟩ (.inl rfl)
  have notFree : (used.block m.blockCurrent).flags.inFreeList = false := by
    rw [block_modify_self]
    exact recompiling.notFree
  have mask' : (used.block m.blockCurrent).pageMask = (m.block m.blockCurrent).pageMask := by
    rw [block_modify_self]
  obtain ⟨kept, pageMask, current⟩ := used'.unlink recompiling.inRange notFree
    (mask' ▸ mask) (show _ = unlinked from rfl)
  have clear : OpenWrite m.blockCurrent unlinked cleared := .modify rfl rfl rfl rfl rfl
  have current' : cleared.blockCurrent = m.blockCurrent := clear.blockCurrent.trans current
  have spec := cleared.generateEndMaskRecompile_spec endpc endPhys
  rw [current'] at spec
  obtain ⟨write, prev, prev2, same⟩ := spec
  have listed' : listed.Kept none none := by
    refine ((kept.openWrite clear).openWrite write).addToBlockList ?_ prev2 ?_
    · rw [prev, block_modify_self]
    · rw [same, block_modify_self]
      exact pageMask ▸ mask' ▸ mask
  refine Kept.codegenBackendEpilogue (listed'.modify ?_ (.inr ?_)) outcome
  · constructor <;> split <;> simp
  · split <;> rfl

/-- An abort while compiling frees the block if it can be unlinked. -/
theorem Recompiling.codegenBlockRemove (recompiling : m.Recompiling)
    (unlinkable : (m.block m.blockCurrent).flags.inDirtyList = true ∨
      (m.block m.blockCurrent).pageMask ≠ 0) : m.codegenBlockRemove.Kept none none := by
  have kept : (m.deleteBlock m.blockCurrent).Kept none none :=
    recompiling.kept.deleteBlock recompiling.inRange recompiling.notFree unlinkable (.inr rfl)
  exact kept.of_eq rfl rfl rfl rfl rfl rfl rfl

end Machine

end PCemWeb.Codegen
