import PCemWeb.Lib.LinkedList
import PCemWeb.Codegen.BlockEffects

/-!
# The lists of code blocks

`Linked` says that the links hold a given free list, dirty list and page lists; `Placed` that
these lists hold the blocks whose flags say so. The two are kept apart because an operation
changes links and flags in separate steps.
-/

namespace PCemWeb.Codegen

open PCemWeb.Lib

/-- The numbers of the code blocks in use; block 0 ends the lists. -/
def InRange (n : Nat) : Prop := 0 < n ∧ n < blockSize

instance (n : Nat) : Decidable (InRange n) := inferInstanceAs (Decidable (_ ∧ _))

theorem InRange.ne_zero {n : Nat} (inRange : InRange n) : n ≠ 0 := Nat.ne_of_gt inRange.1

namespace Machine

/-- The links hold these lists, each consistent in both directions and without repetition. -/
structure Linked (m : Machine) (free : List Nat) (lists : Place → List Nat)
    (lists2 : Nat → List Nat) : Prop where
  chain : Chain (fun n => (m.block n).next) m.freeList free
  nodup : free.Nodup
  first : ListsAt (fun n => (m.block n).next) (fun n => (m.block n).prev) m.head lists
  second : ListsAt (fun n => (m.block n).next2) (fun n => (m.block n).prev2)
    (fun p => (m.page p).block2) lists2
  notFree : ∀ i, ∀ n ∈ lists i, n ∉ free
  tail : m.dirtyTail = (lists .dirty).getLastD 0
  size : m.dirtyListSize = (lists .dirty).length

variable {m m' : Machine} {free : List Nat} {lists : Place → List Nat} {lists2 : Nat → List Nat}
  {i : Place} {nr n p : Nat} {open_ : Option Nat}

/-! ## Links -/

/-- The machines have the same links and heads. -/
structure SameLinks (m m' : Machine) : Prop where
  next : ∀ n, (m'.block n).next = (m.block n).next
  prev : ∀ n, (m'.block n).prev = (m.block n).prev
  next2 : ∀ n, (m'.block n).next2 = (m.block n).next2
  prev2 : ∀ n, (m'.block n).prev2 = (m.block n).prev2
  head : ∀ i, m'.head i = m.head i
  head2 : ∀ q, (m'.page q).block2 = (m.page q).block2
  freeList : m'.freeList = m.freeList
  tail : m'.dirtyTail = m.dirtyTail
  size : m'.dirtyListSize = m.dirtyListSize

theorem SameLinks.trans {m'' : Machine} (first : SameLinks m m') (second : SameLinks m' m'') :
    SameLinks m m'' where
  next n := (second.next n).trans (first.next n)
  prev n := (second.prev n).trans (first.prev n)
  next2 n := (second.next2 n).trans (first.next2 n)
  prev2 n := (second.prev2 n).trans (first.prev2 n)
  head i := (second.head i).trans (first.head i)
  head2 q := (second.head2 q).trans (first.head2 q)
  freeList := second.freeList.trans first.freeList
  tail := second.tail.trans first.tail
  size := second.size.trans first.size

/-- A write to a block that leaves its links alone. -/
theorem SameLinks.modify {f : CodeBlock → CodeBlock}
    (links : (f (m.block nr)).next = (m.block nr).next ∧ (f (m.block nr)).prev = (m.block nr).prev ∧
      (f (m.block nr)).next2 = (m.block nr).next2 ∧ (f (m.block nr)).prev2 = (m.block nr).prev2) :
    SameLinks m (m.modify nr f) := by
  constructor <;> intros <;> grind

theorem Linked.congr (linked : Linked m free lists lists2) (same : SameLinks m m') :
    Linked m' free lists lists2 where
  chain := same.freeList ▸ linked.chain.congr fun n _ => same.next n
  nodup := linked.nodup
  first := linked.first.congr (fun _ n _ => same.next n) (fun _ n _ => same.prev n) same.head
  second := linked.second.congr (fun _ n _ => same.next2 n) (fun _ n _ => same.prev2 n) same.head2
  notFree := linked.notFree
  tail := same.tail.trans linked.tail
  size := same.size.trans linked.size

/-- The dirty list, with its tail and its size. -/
structure DirtyAt (m : Machine) (l : List Nat) : Prop where
  list : ListAt (fun n => (m.block n).next) (fun n => (m.block n).prev) m.dirtyHead l
  tail : m.dirtyTail = l.getLastD 0
  size : m.dirtyListSize = l.length

theorem DirtyAt.unlink {l : List Nat} (dirty : m.DirtyAt l) (member : nr ∈ l)
    (unlinked : Unlinked .dirty nr m m') : m'.DirtyAt (l.erase nr) where
  list := dirty.list.remove member (fun _ inList => unlinked.next _ (dirty.list.ne_zero inList))
    (fun _ inList => unlinked.prev _ (dirty.list.ne_zero inList)) unlinked.head
  tail := by
    rw [unlinked.tail, dirty.list.getLastD_erase member, dirty.tail]
    simp only [true_and]
  size := by
    rw [unlinked.size, if_pos rfl, List.length_erase_of_mem member, dirty.size]

theorem DirtyAt.congr {l : List Nat} (dirty : m.DirtyAt l)
    (next : ∀ n ∈ l, (m'.block n).next = (m.block n).next)
    (prev : ∀ n ∈ l, (m'.block n).prev = (m.block n).prev) (head : m'.dirtyHead = m.dirtyHead)
    (tail : m'.dirtyTail = m.dirtyTail) (size : m'.dirtyListSize = m.dirtyListSize) :
    m'.DirtyAt l :=
  ⟨head ▸ dirty.list.congr next prev, tail.trans dirty.tail, size.trans dirty.size⟩

theorem Linked.dirtyAt (linked : Linked m free lists lists2) : m.DirtyAt (lists .dirty) :=
  ⟨linked.first.list .dirty, linked.tail, linked.size⟩

theorem Linked.unlink (linked : Linked m free lists lists2) (member : nr ∈ lists i)
    (unlinked : Unlinked i nr m m') (sameFree : m'.freeList = m.freeList) :
    Linked m' free (Function.update lists i ((lists i).erase nr)) lists2 where
  chain := by
    rw [sameFree]
    refine linked.chain.congr fun n inFree => ?_
    have nonzero := linked.chain.ne_zero n inFree
    have other : n ≠ nr := fun same => linked.notFree i nr member (same ▸ inFree)
    rw [unlinked.next n nonzero other, if_neg]
    intro same
    rcases (linked.first.list i).prev_mem member with zero | inList
    · exact nonzero (same.trans zero)
    · exact linked.notFree i _ inList (same ▸ inFree)
  nodup := linked.nodup
  first := linked.first.remove member unlinked.next unlinked.prev unlinked.head unlinked.sameHead
  second := linked.second.congr (fun _ n _ => unlinked.next2 n) (fun _ n _ => unlinked.prev2 n)
    unlinked.head2
  notFree j n inList := linked.notFree j n ((mem_update_erase linked.first member).mp inList).1
  tail := by
    rcases eq_or_ne i .dirty with rfl | other
    · rw [Function.update_self]
      exact (linked.dirtyAt.unlink member unlinked).tail
    · rw [unlinked.tail, if_neg fun both => other both.1, Function.update_of_ne other.symm,
        linked.tail]
  size := by
    rcases eq_or_ne i .dirty with rfl | other
    · rw [Function.update_self]
      exact (linked.dirtyAt.unlink member unlinked).size
    · rw [unlinked.size, if_neg other, Function.update_of_ne other.symm, linked.size]

theorem Linked.push (linked : Linked m free lists lists2) (nonzero : nr ≠ 0)
    (fresh : ∀ j, nr ∉ lists j) (notFree : nr ∉ free) (pushed : Pushed i nr m m')
    (sameFree : m'.freeList = m.freeList) :
    Linked m' free (Function.update lists i (nr :: lists i)) lists2 where
  chain := by
    rw [sameFree]
    exact linked.chain.congr fun n inFree =>
      pushed.sameNext n (linked.chain.ne_zero n inFree) fun same => notFree (same ▸ inFree)
  nodup := linked.nodup
  first := by
    have notHead : m.head i ≠ nr := by
      intro same
      exact fresh i (same ▸ (linked.first.list i).head_mem (same ▸ nonzero))
    exact linked.first.push nonzero fresh pushed.next (pushed.prev notHead) pushed.sameNext
      pushed.newPrev pushed.head pushed.sameHead
  second := linked.second.congr (fun _ n _ => pushed.next2 n) (fun _ n _ => pushed.prev2 n)
    pushed.head2
  notFree j n inList := by
    rcases mem_update_cons.mp inList with inOld | ⟨-, rfl⟩
    · exact linked.notFree j n inOld
    · exact notFree
  tail := by
    rw [pushed.tail]
    rcases eq_or_ne i .dirty with rfl | other
    · rw [Function.update_self, getLastD_cons', (linked.first.list .dirty).head_eq, linked.tail]
      cases inList : lists .dirty with
      | nil => simp
      | cons a l =>
        have nonzero : a ≠ 0 := (linked.first.list .dirty).ne_zero (inList ▸ .head _)
        rw [List.headD_cons, if_neg fun both => nonzero both.2, getLastD_cons', getLastD_cons']
    · rw [if_neg fun both => other both.1, Function.update_of_ne other.symm, linked.tail]
  size := by
    rw [pushed.size]
    rcases eq_or_ne i .dirty with rfl | other
    · rw [if_pos rfl, Function.update_self, List.length_cons, linked.size]
    · rw [if_neg other, Function.update_of_ne other.symm, linked.size]

theorem Linked.unlink2 (linked : Linked m free lists lists2)
    (member : nr ∈ lists2 (pageOf (m.block nr).phys2)) (unlinked : Unlinked2 nr m m')
    (sameFree : m'.freeList = m.freeList) :
    Linked m' free lists (Function.update lists2 (pageOf (m.block nr).phys2)
      ((lists2 (pageOf (m.block nr).phys2)).erase nr)) where
  chain := sameFree ▸ linked.chain.congr fun n _ => unlinked.next n
  nodup := linked.nodup
  first := linked.first.congr (fun _ n _ => unlinked.next n) (fun _ n _ => unlinked.prev n)
    unlinked.head
  second := by
    refine linked.second.remove member unlinked.next2 unlinked.prev2 ?_ fun q other => ?_
    · simp only [unlinked.head2, true_and]
    · simp only [unlinked.head2, other, false_and, if_false]
  notFree := linked.notFree
  tail := unlinked.tail.trans linked.tail
  size := unlinked.size.trans linked.size

theorem Linked.push2 (linked : Linked m free lists lists2) (nonzero : nr ≠ 0)
    (fresh : ∀ q, nr ∉ lists2 q) (pushed : Pushed2 nr m m')
    (sameFree : m'.freeList = m.freeList) :
    Linked m' free lists (Function.update lists2 (pageOf (m.block nr).phys2)
      (nr :: lists2 (pageOf (m.block nr).phys2))) where
  chain := sameFree ▸ linked.chain.congr fun n _ => pushed.next n
  nodup := linked.nodup
  first := linked.first.congr (fun _ n _ => pushed.next n) (fun _ n _ => pushed.prev n) pushed.head
  second := by
    have notHead : (m.page (pageOf (m.block nr).phys2)).block2 ≠ nr := by
      intro same
      exact fresh _ (same ▸ (linked.second.list _).head_mem (same ▸ nonzero))
    refine linked.second.push nonzero fresh pushed.next2 (pushed.prev2 notHead) pushed.sameNext2
      pushed.newPrev2 ?_ fun q other => ?_
    · simp only [pushed.head2, if_true]
    · simp only [pushed.head2, if_neg other]
  notFree := linked.notFree
  tail := pushed.tail.trans linked.tail
  size := pushed.size.trans linked.size

/-- The block goes on the free list. -/
theorem Linked.freePush (linked : Linked m free lists lists2) (nonzero : nr ≠ 0)
    (fresh : ∀ j, nr ∉ lists j) (notFree : nr ∉ free) :
    Linked (m.blockFreeListAdd nr) (nr :: free) lists lists2 where
  chain := by
    refine linked.chain.push nonzero ?_ fun n inFree => ?_
    · simp [blockFreeListAdd]
    · have other : n ≠ nr := fun same => notFree (same ▸ inFree)
      simp only [blockFreeListAdd, block_modify_of_ne other]
  nodup := List.nodup_cons.mpr ⟨notFree, linked.nodup⟩
  first := by
    refine linked.first.congr (fun j n inList => ?_) (fun _ n _ => ?_) fun j => by cases j <;> rfl
    · have other : n ≠ nr := fun same => fresh j (same ▸ inList)
      simp only [blockFreeListAdd, block_modify_of_ne other]
    · simp only [blockFreeListAdd, block_modify]
      split <;> simp [*]
  second := by
    refine linked.second.congr (fun _ n _ => ?_) (fun _ n _ => ?_) fun _ => rfl <;>
      simp only [blockFreeListAdd, block_modify] <;> split <;> simp [*]
  notFree j n inList := by
    rintro (_ | ⟨_, inFree⟩)
    · exact fresh j inList
    · exact linked.notFree j n inList inFree
  tail := linked.tail
  size := linked.size

/-- The first block of the free list is taken off. -/
theorem Linked.freePop {rest : List Nat} {f : CodeBlock → CodeBlock}
    (linked : Linked m (nr :: rest) lists lists2) (keeps : ∀ b, (f b).prev = b.prev ∧
      (f b).next2 = b.next2 ∧ (f b).prev2 = b.prev2) :
    Linked ({ m with freeList := (m.block nr).next }.modify nr f) rest lists lists2 where
  chain := by
    obtain ⟨-, -, chain⟩ := linked.chain
    have fresh := (List.nodup_cons.mp linked.nodup).1
    refine chain.congr fun n inRest => ?_
    have other : n ≠ nr := fun same => fresh (same ▸ inRest)
    simp only [block_modify_of_ne other]
  nodup := (List.nodup_cons.mp linked.nodup).2
  first := by
    refine linked.first.congr (fun j n inList => ?_) (fun _ n _ => ?_) fun j => by cases j <;> rfl
    · have other : n ≠ nr := fun same => linked.notFree j n inList (same ▸ .head _)
      simp only [block_modify_of_ne other]
    · simp only [block_modify]
      split <;> simp [*]
  second := by
    refine linked.second.congr (fun _ n _ => ?_) (fun _ n _ => ?_) fun _ => rfl <;>
      simp only [block_modify] <;> split <;> simp [*]
  notFree j n inList inFree := linked.notFree j n inList (.tail _ inFree)
  tail := linked.tail
  size := linked.size

/-! ## Flags -/

/-- A block with code that is on the list of its page, `open_` being under construction. -/
def Live (m : Machine) (open_ : Option Nat) (n : Nat) : Prop :=
  InRange n ∧ (m.block n).flags.inFreeList = false ∧ (m.block n).flags.inDirtyList = false ∧
    open_ ≠ some n

/-- The lists hold the blocks whose flags say so; the block under construction is on none. -/
structure Placed (m : Machine) (open_ : Option Nat) (free : List Nat)
    (lists : Place → List Nat) (lists2 : Nat → List Nat) : Prop where
  free : ∀ n, n ∈ free ↔ InRange n ∧ (m.block n).flags.inFreeList = true
  dirty : ∀ n, n ∈ lists .dirty ↔ InRange n ∧ (m.block n).flags.inDirtyList = true
  page : ∀ p n, n ∈ lists (.page p) ↔ m.Live open_ n ∧ pageOf (m.block n).phys = p
  page2 : ∀ p n, n ∈ lists2 p ↔
    InRange n ∧ (m.block n).flags.hasPage2 = true ∧ pageOf (m.block n).phys2 = p
  exclusive : ∀ n, InRange n → (m.block n).flags.inFreeList = true →
    (m.block n).flags.inDirtyList = false
  hasPage2 : ∀ n, InRange n → (m.block n).flags.hasPage2 = true → m.Live open_ n
  openBlock : ∀ n, open_ = some n → InRange n ∧ (m.block n).flags.inFreeList = false ∧
    (m.block n).flags.inDirtyList = false

/-- There are such lists. -/
def Listed (m : Machine) (open_ : Option Nat) : Prop :=
  ∃ free lists lists2, Linked m free lists lists2 ∧ Placed m open_ free lists lists2

theorem Listed.openBlock (listed : m.Listed (some nr)) : InRange nr ∧
    (m.block nr).flags.inFreeList = false ∧ (m.block nr).flags.inDirtyList = false := by
  obtain ⟨_, _, _, _, placed⟩ := listed
  exact placed.openBlock nr rfl

/-- The links, the flags for the lists and the pages are the same. -/
structure SameLists (m m' : Machine) : Prop extends SameLinks m m' where
  inFreeList : ∀ n, (m'.block n).flags.inFreeList = (m.block n).flags.inFreeList
  inDirtyList : ∀ n, (m'.block n).flags.inDirtyList = (m.block n).flags.inDirtyList
  hasPage2 : ∀ n, (m'.block n).flags.hasPage2 = (m.block n).flags.hasPage2
  phys : ∀ n, (m'.block n).phys = (m.block n).phys
  phys2 : ∀ n, (m.block n).flags.hasPage2 = true → (m'.block n).phys2 = (m.block n).phys2

theorem SameLists.trans {m'' : Machine} (first : SameLists m m') (second : SameLists m' m'') :
    SameLists m m'' where
  toSameLinks := first.toSameLinks.trans second.toSameLinks
  inFreeList n := (second.inFreeList n).trans (first.inFreeList n)
  inDirtyList n := (second.inDirtyList n).trans (first.inDirtyList n)
  hasPage2 n := (second.hasPage2 n).trans (first.hasPage2 n)
  phys n := (second.phys n).trans (first.phys n)
  phys2 n two := (second.phys2 n ((first.hasPage2 n).trans two)).trans (first.phys2 n two)

/-- Only fields outside the lists differ. -/
theorem SameLists.of_eq (block : m'.block = m.block) (page : m'.page = m.page)
    (freeList : m'.freeList = m.freeList) (dirtyHead : m'.dirtyHead = m.dirtyHead)
    (tail : m'.dirtyTail = m.dirtyTail) (size : m'.dirtyListSize = m.dirtyListSize) :
    SameLists m m' where
  next n := by rw [block]
  prev n := by rw [block]
  next2 n := by rw [block]
  prev2 n := by rw [block]
  head i := by
    cases i with
    | dirty => exact dirtyHead
    | page q => exact congrArg (fun page => (page q).block) page
  head2 q := by rw [page]
  freeList := freeList
  tail := tail
  size := size
  inFreeList n := by rw [block]
  inDirtyList n := by rw [block]
  hasPage2 n := by rw [block]
  phys n := by rw [block]
  phys2 n _ := by rw [block]

/-- A write to a block that leaves its links, its list flags and its pages alone. -/
theorem SameLists.modify {f : CodeBlock → CodeBlock}
    (links : (f (m.block nr)).next = (m.block nr).next ∧ (f (m.block nr)).prev = (m.block nr).prev ∧
      (f (m.block nr)).next2 = (m.block nr).next2 ∧ (f (m.block nr)).prev2 = (m.block nr).prev2)
    (flags : (f (m.block nr)).flags.inFreeList = (m.block nr).flags.inFreeList ∧
      (f (m.block nr)).flags.inDirtyList = (m.block nr).flags.inDirtyList ∧
      (f (m.block nr)).flags.hasPage2 = (m.block nr).flags.hasPage2)
    (phys : (f (m.block nr)).phys = (m.block nr).phys ∧
      (f (m.block nr)).phys2 = (m.block nr).phys2) : SameLists m (m.modify nr f) := by
  constructor
  case toSameLinks => exact .modify links
  all_goals intros; grind

/-- A write to a page's masks. -/
theorem SameLists.modifyPage {g : Page → Page} (head : (g (m.page p)).block = (m.page p).block)
    (head2 : (g (m.page p)).block2 = (m.page p).block2) : SameLists m (m.modifyPage p g) := by
  constructor
  case toSameLinks =>
    constructor <;> intros <;> grind
  all_goals intros; rfl

theorem SameLists.flushWritePage (addr virt : Nat) : SameLists m (m.flushWritePage addr virt) :=
  .of_eq rfl rfl rfl rfl rfl rfl

theorem SameLists.live (same : SameLists m m') : m'.Live open_ n ↔ m.Live open_ n := by
  simp only [Live, same.inFreeList, same.inDirtyList]

theorem Listed.congr (listed : m.Listed open_) (same : SameLists m m') : m'.Listed open_ := by
  obtain ⟨free, lists, lists2, linked, placed⟩ := listed
  refine ⟨free, lists, lists2, linked.congr same.toSameLinks, ?_⟩
  constructor
  case free => simpa only [same.inFreeList] using placed.free
  case dirty => simpa only [same.inDirtyList] using placed.dirty
  case page => simpa only [same.live, same.phys] using placed.page
  case page2 =>
    intro p n
    rw [placed.page2, same.hasPage2]
    refine and_congr_right fun _ => and_congr_right fun two => ?_
    rw [same.phys2 n two]
  case exclusive => simpa only [same.inFreeList, same.inDirtyList] using placed.exclusive
  case hasPage2 => simpa only [same.hasPage2, same.live] using placed.hasPage2
  case openBlock => simpa only [same.inFreeList, same.inDirtyList] using placed.openBlock

/-! ## A block leaves its lists -/

/-- The flags no longer place the block on a list. -/
structure Unlisted (nr : Nat) (m m' : Machine) : Prop where
  inFreeList : ∀ n, (m'.block n).flags.inFreeList = (m.block n).flags.inFreeList
  inDirtyList : ∀ n, (m'.block n).flags.inDirtyList =
    if n = nr then false else (m.block n).flags.inDirtyList
  hasPage2 : ∀ n, (m'.block n).flags.hasPage2 =
    if n = nr then false else (m.block n).flags.hasPage2
  phys : ∀ n, (m'.block n).phys = (m.block n).phys
  phys2 : ∀ n, (m'.block n).phys2 = (m.block n).phys2

theorem Reflagged.unlisted {φ : BlockFlags → BlockFlags} (reflagged : Reflagged nr φ m m')
    (inFreeList : (φ (m.block nr).flags).inFreeList = (m.block nr).flags.inFreeList)
    (inDirtyList : (φ (m.block nr).flags).inDirtyList = false)
    (hasPage2 : (φ (m.block nr).flags).hasPage2 = false) : Unlisted nr m m' where
  inFreeList n := by grind [reflagged.flags n]
  inDirtyList n := by grind [reflagged.flags n]
  hasPage2 n := by grind [reflagged.flags n]
  phys := reflagged.proj CodeBlock.phys fun _ _ => rfl
  phys2 := reflagged.proj CodeBlock.phys2 fun _ _ => rfl

theorem Placed.unlist {lists' : Place → List Nat} {lists2' : Nat → List Nat}
    (placed : Placed m none free lists lists2) (inRange : InRange nr)
    (notFree : (m.block nr).flags.inFreeList = false) (unlisted : Unlisted nr m m')
    (mem : ∀ i n, n ∈ lists' i ↔ n ∈ lists i ∧ n ≠ nr)
    (mem2 : ∀ q n, n ∈ lists2' q ↔ n ∈ lists2 q ∧ n ≠ nr) :
    Placed m' (some nr) free lists' lists2' := by
  have live (n : Nat) : m'.Live (some nr) n ↔ m.Live none n ∧ n ≠ nr := by
    grind [Live, unlisted.inFreeList n, unlisted.inDirtyList n]
  constructor
  case free => simpa only [unlisted.inFreeList] using placed.free
  case dirty => grind [placed.dirty, unlisted.inDirtyList]
  case page => grind [placed.page, unlisted.phys]
  case page2 => grind [placed.page2, unlisted.hasPage2, unlisted.phys2]
  case exclusive => grind [placed.exclusive, unlisted.inFreeList, unlisted.inDirtyList]
  case hasPage2 => grind [placed.hasPage2, unlisted.hasPage2]
  case openBlock => grind [unlisted.inFreeList, unlisted.inDirtyList]

/-- A dirty block leaves the dirty list. -/
theorem Listed.unlinkDirty (listed : m.Listed none) (inRange : InRange nr)
    (dirty : (m.block nr).flags.inDirtyList = true) (unlinked : Unlinked .dirty nr m m')
    (reflagged : Reflagged nr (fun f => { f with inDirtyList := false }) m m') :
    m'.Listed (some nr) := by
  obtain ⟨free, lists, lists2, linked, placed⟩ := listed
  have member : nr ∈ lists .dirty := (placed.dirty nr).mpr ⟨inRange, dirty⟩
  have notFree : (m.block nr).flags.inFreeList = false := by
    grind [placed.exclusive nr inRange]
  have single : (m.block nr).flags.hasPage2 = false := by
    by_contra two
    rw [Bool.not_eq_false] at two
    exact absurd (placed.hasPage2 nr inRange two).2.2.1 (by simp [dirty])
  refine ⟨free, _, lists2, linked.unlink member unlinked reflagged.freeList,
    placed.unlist inRange notFree (reflagged.unlisted rfl rfl single)
      (fun i n => mem_update_erase linked.first member) fun q n => ?_⟩
  grind [placed.page2 q n]

/-- A live block leaves the lists of its pages. -/
theorem Listed.removeFromBlockList (listed : m.Listed none) (live : m.Live none nr)
    (mask : (m.block nr).pageMask ≠ 0) : (m.removeFromBlockList nr).Listed (some nr) := by
  obtain ⟨free, lists, lists2, linked, placed⟩ := listed
  obtain ⟨inRange, notFree, clean, -⟩ := id live
  have member : nr ∈ lists (.page (pageOf (m.block nr).phys)) :=
    (placed.page _ nr).mpr ⟨live, rfl⟩
  have linked1 := linked.unlink member unlinked_removeFromPage SameCore.removeFromPage.freeList
  have reflagged : Reflagged nr _ m (m.removeFromBlockList nr) := reflagged_removeFromBlockList
  have unlisted : Unlisted nr m (m.removeFromBlockList nr) :=
    reflagged.unlisted (by grind [unlistedFlags]) (by grind [unlistedFlags])
      (by grind [unlistedFlags])
  have flags : ((m.removeFromPage nr).block nr).flags = (m.block nr).flags :=
    SameCore.removeFromPage.proj CodeBlock.flags (fun _ => rfl) nr
  have phys2 : (((m.removeFromPage nr).setHasPage2 nr false).block nr).phys2 =
      (m.block nr).phys2 := by
    rw [setHasPage2, block_modify_self]
    exact SameCore.removeFromPage.proj CodeBlock.phys2 (fun _ => rfl) nr
  have mem (i : Place) (n : Nat) := mem_update_erase linked.first member (j := i) (n := n)
  cases two : (m.block nr).flags.hasPage2 with
  | false =>
    have same : m.removeFromBlockList nr = m.removeFromPage nr := by
      simp only [Machine.removeFromBlockList, if_neg mask, flags, two, Bool.false_eq_true, if_false]
    refine ⟨free, _, lists2, same ▸ linked1, placed.unlist inRange notFree unlisted mem ?_⟩
    grind [placed.page2]
  | true =>
    have same : m.removeFromBlockList nr =
        ((m.removeFromPage nr).setHasPage2 nr false).removeFromPage2 nr := by
      simp only [Machine.removeFromBlockList, if_neg mask, flags, two, if_true]
    have relinked : SameLinks (m.removeFromPage nr) ((m.removeFromPage nr).setHasPage2 nr false) :=
      .modify ⟨rfl, rfl, rfl, rfl⟩
    have member2 : nr ∈ lists2 (pageOf (m.block nr).phys2) :=
      (placed.page2 _ nr).mpr ⟨inRange, two, rfl⟩
    have linked2 := (linked1.congr relinked).unlink2 (phys2 ▸ member2) unlinked2_removeFromPage2
      SameCore.removeFromPage2.freeList
    refine ⟨free, _, _, same ▸ linked2, placed.unlist inRange notFree unlisted mem fun q n => ?_⟩
    exact mem_update_erase linked.second (phys2 ▸ member2)

theorem Listed.blockDirtyListRemove (listed : m.Listed none) (inRange : InRange nr)
    (dirty : (m.block nr).flags.inDirtyList = true) :
    (m.blockDirtyListRemove nr).Listed (some nr) :=
  listed.unlinkDirty inRange dirty unlinked_blockDirtyListRemove reflagged_blockDirtyListRemove

/-- The tail of the dirty list is a dirty block without successor. -/
theorem Listed.dirtyTail (listed : m.Listed open_) (nonempty : m.dirtyTail ≠ 0) :
    InRange m.dirtyTail ∧ (m.block m.dirtyTail).flags.inDirtyList = true ∧
      (m.block m.dirtyTail).next = 0 ∧
      ((m.block m.dirtyTail).prev = 0 → m.dirtyListSize = 1) := by
  obtain ⟨free, lists, lists2, linked, placed⟩ := listed
  obtain ⟨member, last, alone⟩ := (linked.first.list .dirty).last (linked.tail ▸ nonempty)
  rw [← linked.tail] at member last alone
  obtain ⟨inRange, dirty⟩ := (placed.dirty _).mp member
  exact ⟨inRange, dirty, last, fun first => linked.size.trans (alone first)⟩

theorem Listed.takeDirtyTail (listed : m.Listed none) (nonempty : m.dirtyTail ≠ 0) :
    m.takeDirtyTail.Listed (some m.dirtyTail) := by
  obtain ⟨inRange, dirty, last, -⟩ := listed.dirtyTail nonempty
  exact listed.unlinkDirty inRange dirty (unlinked_takeDirtyTail last) reflagged_takeDirtyTail

theorem Listed.dropDirtyTail (listed : m.Listed none) (nonempty : m.dirtyTail ≠ 0)
    (notAlone : m.dirtyListSize ≠ 1) : m.dropDirtyTail.Listed (some m.dirtyTail) := by
  obtain ⟨inRange, dirty, last, alone⟩ := listed.dirtyTail nonempty
  exact listed.unlinkDirty inRange dirty (unlinked_dropDirtyTail last fun first =>
    notAlone (alone first)) reflagged_dropDirtyTail

/-- The tail is a block as soon as the dirty list has one. -/
theorem Listed.dirtyTail_ne_zero (listed : m.Listed open_) (nonempty : m.dirtyListSize ≠ 0) :
    m.dirtyTail ≠ 0 := by
  obtain ⟨free, lists, lists2, linked, -⟩ := listed
  rw [linked.tail]
  rcases getLastD_mem_or (lists .dirty) 0 with member | empty
  · exact (linked.first.list .dirty).ne_zero member
  · rw [linked.size, empty] at nonempty
    exact absurd rfl nonempty

/-! ## A block under construction joins a list -/

theorem Placed.fresh (placed : Placed m (some nr) free lists lists2) :
    InRange nr ∧ (∀ i, nr ∉ lists i) ∧ (∀ q, nr ∉ lists2 q) ∧ nr ∉ free ∧
      (m.block nr).flags.hasPage2 = false := by
  obtain ⟨inRange, notFree, clean⟩ := placed.openBlock nr rfl
  have single : (m.block nr).flags.hasPage2 = false := by
    by_contra two
    rw [Bool.not_eq_false] at two
    exact (placed.hasPage2 nr inRange two).2.2.2 rfl
  refine ⟨inRange, fun i inList => ?_, fun q inList => ?_, fun inFree => ?_, single⟩
  · cases i with
    | dirty => simp [placed.dirty, clean] at inList
    | page q => exact ((placed.page q nr).mp inList).1.2.2.2 rfl
  · simp [placed.page2, single] at inList
  · simp [placed.free, notFree] at inFree

theorem Listed.openSingle (listed : m.Listed (some nr)) :
    (m.block nr).flags.hasPage2 = false := by
  obtain ⟨_, _, _, _, placed⟩ := listed
  exact placed.fresh.2.2.2.2

/-- A block becomes the head of the dirty list. -/
theorem Listed.pushDirty (listed : m.Listed (some nr)) : (m.pushDirty nr).Listed none := by
  obtain ⟨free, lists, lists2, linked, placed⟩ := listed
  obtain ⟨inRange, fresh, -, notFree, single⟩ := placed.fresh
  have reflagged : Reflagged nr _ m (m.pushDirty nr) := reflagged_pushDirty
  refine ⟨free, _, lists2, linked.push inRange.ne_zero fresh notFree pushed_pushDirty
    reflagged.freeList, ?_⟩
  have flags := reflagged.flags
  have phys := reflagged.proj CodeBlock.phys fun _ _ => rfl
  have phys2 := reflagged.proj CodeBlock.phys2 fun _ _ => rfl
  have live (n : Nat) : (m.pushDirty nr).Live none n ↔ m.Live (some nr) n := by
    grind [Live]
  have mem (i : Place) (n : Nat) : n ∈ Function.update lists .dirty (nr :: lists .dirty) i ↔
      n ∈ lists i ∨ i = .dirty ∧ n = nr := mem_update_cons
  constructor
  case free => grind [placed.free]
  case dirty => grind [placed.dirty]
  case page => grind [placed.page]
  case page2 => grind [placed.page2]
  case exclusive => grind [placed.exclusive, placed.openBlock]
  case hasPage2 => grind [placed.hasPage2]
  case openBlock => simp

/-- A block becomes the head of the free list. -/
theorem Listed.blockFreeListAdd (listed : m.Listed (some nr)) :
    (m.blockFreeListAdd nr).Listed none := by
  obtain ⟨free, lists, lists2, linked, placed⟩ := listed
  obtain ⟨inRange, fresh, -, notFree, single⟩ := placed.fresh
  refine ⟨_, lists, lists2, linked.freePush inRange.ne_zero fresh notFree, ?_⟩
  have flags (n : Nat) : ((m.blockFreeListAdd nr).block n).flags =
      if n = nr then { BlockFlags.none with inFreeList := true } else (m.block n).flags := by
    grind [Machine.blockFreeListAdd]
  have phys (n : Nat) : ((m.blockFreeListAdd nr).block n).phys = (m.block n).phys := by
    grind [Machine.blockFreeListAdd]
  have phys2 (n : Nat) : ((m.blockFreeListAdd nr).block n).phys2 = (m.block n).phys2 := by
    grind [Machine.blockFreeListAdd]
  have live (n : Nat) : (m.blockFreeListAdd nr).Live none n ↔ m.Live (some nr) n := by
    grind [Live, BlockFlags.none]
  constructor
  case free => grind [placed.free]
  case dirty => grind [placed.dirty, BlockFlags.none, placed.openBlock]
  case page => grind [placed.page]
  case page2 => grind [placed.page2, BlockFlags.none]
  case exclusive => grind [placed.exclusive, BlockFlags.none]
  case hasPage2 => grind [placed.hasPage2, BlockFlags.none]
  case openBlock => simp

/-- A block whose links are clear becomes the head of its pages' lists. -/
theorem Listed.addToBlockList (listed : m.Listed (some nr)) (clear : (m.block nr).prev = 0)
    (clear2 : (m.block nr).prev2 = 0) : (m.addToBlockList nr).Listed none := by
  obtain ⟨free, lists, lists2, linked, placed⟩ := listed
  obtain ⟨inRange, fresh, fresh2, notFree, single⟩ := placed.fresh
  have linked1 := linked.push inRange.ne_zero fresh notFree (pushed_addToPage clear)
    SameCore.addToPage.freeList
  have reflagged : Reflagged nr _ m (m.addToBlockList nr) := reflagged_addToBlockList
  have flags := reflagged.flags
  have phys := reflagged.proj CodeBlock.phys fun _ _ => rfl
  have phys2 := reflagged.proj CodeBlock.phys2 fun _ _ => rfl
  have live (n : Nat) : (m.addToBlockList nr).Live none n ↔ m.Live (some nr) n ∨ n = nr := by
    grind [Live, listedFlags, placed.openBlock]
  have mem (i : Place) (n : Nat) : n ∈ Function.update lists (.page (pageOf (m.block nr).phys))
      (nr :: lists (.page (pageOf (m.block nr).phys))) i ↔
      n ∈ lists i ∨ i = .page (pageOf (m.block nr).phys) ∧ n = nr := mem_update_cons
  have mask : ((m.addToPage nr).block nr).pageMask2 = (m.block nr).pageMask2 :=
    SameCore.addToPage.proj CodeBlock.pageMask2 (fun _ => rfl) nr
  have placed' {lists2' : Nat → List Nat} (mem2 : ∀ q n, n ∈ lists2' q ↔
      n ∈ lists2 q ∨ n = nr ∧ (m.block nr).pageMask2 ≠ 0 ∧ q = pageOf (m.block nr).phys2) :
      Placed (m.addToBlockList nr) none free
        (Function.update lists (.page (pageOf (m.block nr).phys))
          (nr :: lists (.page (pageOf (m.block nr).phys)))) lists2' := by
    constructor
    case free => grind [placed.free, listedFlags]
    case dirty => grind [placed.dirty, listedFlags]
    case page => grind [placed.page]
    case page2 => grind [placed.page2, listedFlags]
    case exclusive => grind [placed.exclusive, listedFlags]
    case hasPage2 => grind [placed.hasPage2, listedFlags]
    case openBlock => simp
  by_cases two : (m.block nr).pageMask2 = 0
  · have same : m.addToBlockList nr = m.addToPage nr := by
      simp only [Machine.addToBlockList, mask, two, ne_eq, not_true_eq_false, if_false]
    exact ⟨free, _, lists2, same ▸ linked1, placed' (by simp [two])⟩
  · have same : m.addToBlockList nr =
        ((m.addToPage nr).setHasPage2 nr true).addToPage2 nr := by
      simp only [Machine.addToBlockList, mask, two, ne_eq, not_false_eq_true, if_true]
    have relinked : SameLinks (m.addToPage nr) ((m.addToPage nr).setHasPage2 nr true) :=
      .modify ⟨rfl, rfl, rfl, rfl⟩
    have samePhys2 : (((m.addToPage nr).setHasPage2 nr true).block nr).phys2 =
        (m.block nr).phys2 := by
      rw [setHasPage2, block_modify_self]
      exact SameCore.addToPage.proj CodeBlock.phys2 (fun _ => rfl) nr
    have clear2' : (((m.addToPage nr).setHasPage2 nr true).block nr).prev2 = 0 := by
      rw [relinked.prev2, (pushed_addToPage clear).prev2, clear2]
    have linked2 := (linked1.congr relinked).push2 inRange.ne_zero fresh2
      (pushed2_addToPage2 clear2') SameCore.addToPage2.freeList
    refine ⟨free, _, _, same ▸ linked2, placed' fun q n => ?_⟩
    rw [samePhys2, mem_update_cons]
    grind

/-- The head of the free list is taken off, to be a block under construction. -/
theorem Placed.pop (placed : Placed m none (nr :: free) lists lists2) (fresh : nr ∉ free)
    (others : ∀ n ≠ nr, m'.block n = m.block n)
    (flags : (m'.block nr).flags = { (m.block nr).flags with inFreeList := false }) :
    Placed m' (some nr) free lists lists2 := by
  obtain ⟨inRange, inFree⟩ := (placed.free nr).mp (.head _)
  have clean := placed.exclusive _ inRange inFree
  have single : (m.block nr).flags.hasPage2 = false := by
    by_contra two
    rw [Bool.not_eq_false] at two
    exact absurd (placed.hasPage2 _ inRange two).2.1 (by simp [inFree])
  have live (n : Nat) : m'.Live (some nr) n ↔ m.Live none n := by
    rcases eq_or_ne n nr with rfl | other
    · simp [Live, inFree]
    · simp [Live, others n other, other.symm]
  constructor
  case free =>
    intro n
    rcases eq_or_ne n nr with rfl | other
    · simp [fresh, flags]
    · rw [others n other, ← placed.free, List.mem_cons, or_iff_right other]
  case dirty =>
    intro n
    rcases eq_or_ne n nr with rfl | other
    · simp [placed.dirty, flags]
    · rw [others n other, placed.dirty]
  case page =>
    intro p n
    rw [placed.page, live]
    rcases eq_or_ne n nr with rfl | other
    · simp [Live, inFree]
    · rw [others n other]
  case page2 =>
    intro p n
    rw [placed.page2]
    rcases eq_or_ne n nr with rfl | other
    · simp [flags, single]
    · rw [others n other]
  case exclusive =>
    intro n
    rcases eq_or_ne n nr with rfl | other
    · simp [flags]
    · rw [others n other]
      exact placed.exclusive n
  case hasPage2 =>
    intro n
    rw [live]
    rcases eq_or_ne n nr with rfl | other
    · simp [flags, single]
    · rw [others n other]
      exact placed.hasPage2 n
  case openBlock =>
    rintro n ⟨⟩
    exact ⟨inRange, by rw [flags], by rw [flags]; exact clean⟩

theorem Listed.freePop {f : CodeBlock → CodeBlock} (listed : m.Listed none)
    (nonempty : m.freeList ≠ 0)
    (links : ∀ b, (f b).prev = b.prev ∧ (f b).next2 = b.next2 ∧ (f b).prev2 = b.prev2)
    (flags : ∀ b, (f b).flags = { b.flags with inFreeList := false }) :
    ({ m with freeList := (m.block m.freeList).next }.modify m.freeList f).Listed
      (some m.freeList) := by
  obtain ⟨free, lists, lists2, linked, placed⟩ := listed
  obtain ⟨rest, rfl, -⟩ := linked.chain.exists_cons nonempty
  refine ⟨rest, lists, lists2, linked.freePop links, placed.pop
    (List.nodup_cons.mp linked.nodup).1 (fun n other => block_modify_of_ne other) ?_⟩
  rw [block_modify_self, flags]

end Machine

end PCemWeb.Codegen
