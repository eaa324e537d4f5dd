import Mathlib.Tactic.SplitIfs
import PCemWeb.Codegen.Dispatch

/-!
# What the block operations write

Each operation on code blocks is described by what it does to the links, to the list heads
and to everything else. `CodeBlock.core` is a block without its links, so an operation that
only relinks keeps every core.
-/

namespace PCemWeb.Codegen

/-- A block without its links. -/
def CodeBlock.core (b : CodeBlock) : CodeBlock :=
  { b with prev := 0, next := 0, prev2 := 0, next2 := 0 }

/-- What a block's core determines. -/
theorem CodeBlock.proj_of_core {α : Type} {b c : CodeBlock} (core : b.core = c.core)
    (π : CodeBlock → α) (ofCore : ∀ b, π b.core = π b) : π b = π c := by
  rw [← ofCore, core, ofCore]

/-- The lists threaded through `next` and `prev`. -/
inductive Place
  | dirty
  | page (page : Nat)
  deriving DecidableEq

namespace Machine

variable {m m' m'' : Machine} {nr n p q : Nat} {f : CodeBlock → CodeBlock} {g : Page → Page}

/-- The first block of a list. -/
def head (m : Machine) : Place → Nat
  | .dirty => m.dirtyHead
  | .page p => (m.page p).block

/-! ## Primitive writes -/

@[grind =] theorem block_modify :
    (m.modify nr f).block n = if n = nr then f (m.block nr) else m.block n := by
  simp [modify, Function.update_apply]

@[simp] theorem block_modify_self : (m.modify nr f).block nr = f (m.block nr) := by
  simp [modify]

theorem block_modify_of_ne (other : n ≠ nr) : (m.modify nr f).block n = m.block n := by
  simp [modify, Function.update_of_ne other]

@[simp, grind =] theorem page_modify : (m.modify nr f).page q = m.page q := rfl
@[simp] theorem hash_modify : (m.modify nr f).hash = m.hash := rfl
@[simp, grind =] theorem freeList_modify : (m.modify nr f).freeList = m.freeList := rfl
@[simp, grind =] theorem dirtyHead_modify : (m.modify nr f).dirtyHead = m.dirtyHead := rfl
@[simp, grind =] theorem dirtyTail_modify : (m.modify nr f).dirtyTail = m.dirtyTail := rfl
@[simp, grind =] theorem dirtyListSize_modify :
    (m.modify nr f).dirtyListSize = m.dirtyListSize := rfl

@[grind =] theorem page_modifyPage :
    (m.modifyPage p g).page q = if q = p then g (m.page p) else m.page q := by
  simp [modifyPage, Function.update_apply]

@[simp, grind =] theorem block_modifyPage : (m.modifyPage p g).block n = m.block n := rfl

@[simp, grind =] theorem block_flushWritePage (addr virt : Nat) :
    (m.flushWritePage addr virt).block n = m.block n := rfl

@[simp, grind =] theorem page_flushWritePage (addr virt : Nat) :
    (m.flushWritePage addr virt).page q = m.page q := rfl

@[simp, grind =] theorem freeList_modifyPage : (m.modifyPage p g).freeList = m.freeList := rfl
@[simp, grind =] theorem dirtyHead_modifyPage : (m.modifyPage p g).dirtyHead = m.dirtyHead := rfl
@[simp, grind =] theorem dirtyTail_modifyPage : (m.modifyPage p g).dirtyTail = m.dirtyTail := rfl
@[simp, grind =] theorem dirtyListSize_modifyPage :
    (m.modifyPage p g).dirtyListSize = m.dirtyListSize := rfl

@[simp, grind =] theorem dirtyHead_flushWritePage (addr virt : Nat) :
    (m.flushWritePage addr virt).dirtyHead = m.dirtyHead := rfl

@[simp, grind =] theorem dirtyTail_flushWritePage (addr virt : Nat) :
    (m.flushWritePage addr virt).dirtyTail = m.dirtyTail := rfl

@[simp, grind =] theorem dirtyListSize_flushWritePage (addr virt : Nat) :
    (m.flushWritePage addr virt).dirtyListSize = m.dirtyListSize := rfl

@[grind =] theorem head_dirty : m.head .dirty = m.dirtyHead := rfl
@[grind =] theorem head_page : m.head (.page p) = (m.page p).block := rfl

@[simp, grind =] theorem head_modify {i : Place} : (m.modify nr f).head i = m.head i := by
  cases i <;> rfl

@[simp, grind =] theorem head_flushWritePage {i : Place} (addr virt : Nat) :
    (m.flushWritePage addr virt).head i = m.head i := by
  cases i <;> rfl

@[grind =] theorem head_modifyPage {i : Place} :
    (m.modifyPage p g).head i = if i = .page p then (g (m.page p)).block else m.head i := by
  cases i with
  | dirty => rfl
  | page q =>
    simp only [head, page_modifyPage, Place.page.injEq]
    split <;> rfl

/-! ## Relinking -/

/-- The machines differ in links, page records and lookup tables only. -/
structure SameCore (m m' : Machine) : Prop where
  core : ∀ n, (m'.block n).core = (m.block n).core
  hash : m'.hash = m.hash
  freeList : m'.freeList = m.freeList
  blockCurrent : m'.blockCurrent = m.blockCurrent
  wasm : m'.wasm = m.wasm
  builds : m'.builds = m.builds
  memPages : m'.memPages = m.memPages

theorem SameCore.refl : SameCore m m := ⟨fun _ => rfl, rfl, rfl, rfl, rfl, rfl, rfl⟩

theorem SameCore.trans (first : SameCore m m') (second : SameCore m' m'') : SameCore m m'' :=
  ⟨fun n => (second.core n).trans (first.core n), second.hash.trans first.hash,
    second.freeList.trans first.freeList, second.blockCurrent.trans first.blockCurrent,
    second.wasm.trans first.wasm, second.builds.trans first.builds,
    second.memPages.trans first.memPages⟩

/-- What a block's core determines is the same in both machines. -/
theorem SameCore.proj {α : Type} (same : SameCore m m') (π : CodeBlock → α)
    (ofCore : ∀ b, π b.core = π b) (n : Nat) : π (m'.block n) = π (m.block n) :=
  CodeBlock.proj_of_core (same.core n) π ofCore

/-- Writing links keeps the core. -/
theorem SameCore.modify (relinks : (f (m.block nr)).core = (m.block nr).core) :
    SameCore m (m.modify nr f) where
  core n := by
    rw [block_modify]
    split
    · rename_i same
      rw [relinks, same]
    · rfl
  hash := rfl
  freeList := rfl
  blockCurrent := rfl
  wasm := rfl
  builds := rfl
  memPages := rfl

theorem SameCore.modifyPage : SameCore m (m.modifyPage p g) :=
  ⟨fun _ => rfl, rfl, rfl, rfl, rfl, rfl, rfl⟩

theorem SameCore.flushWritePage (addr virt : Nat) : SameCore m (m.flushWritePage addr virt) :=
  ⟨fun _ => rfl, rfl, rfl, rfl, rfl, rfl, rfl⟩

theorem SameCore.removeFromPage : SameCore m (m.removeFromPage nr) := by
  simp only [Machine.removeFromPage]
  split
  · split
    · exact (SameCore.modify rfl).trans (.modify rfl)
    · exact .modify rfl
  · split
    · exact SameCore.modifyPage.trans (.modify rfl)
    · exact SameCore.modifyPage.trans (.flushWritePage ..)

theorem SameCore.removeFromPage2 : SameCore m (m.removeFromPage2 nr) := by
  simp only [Machine.removeFromPage2]
  split
  · split
    · exact (SameCore.modify rfl).trans (.modify rfl)
    · exact .modify rfl
  · split
    · exact SameCore.modifyPage.trans (.modify rfl)
    · exact SameCore.modifyPage.trans (.flushWritePage ..)

theorem SameCore.addToPage : SameCore m (m.addToPage nr) := by
  simp only [Machine.addToPage]
  split
  · exact ((SameCore.modify rfl).trans (.modify rfl)).trans .modifyPage
  · exact (SameCore.modify rfl).trans .modifyPage

theorem SameCore.addToPage2 : SameCore m (m.addToPage2 nr) := by
  simp only [Machine.addToPage2]
  split
  · exact ((SameCore.modify rfl).trans (.modify rfl)).trans .modifyPage
  · exact (SameCore.modify rfl).trans .modifyPage

/-- The machines also differ in the flags of one block. -/
structure Reflagged (nr : Nat) (flags : BlockFlags → BlockFlags) (m m' : Machine) : Prop where
  core : ∀ n, (m'.block n).core =
    if n = nr then { (m.block n).core with flags := flags (m.block n).flags } else (m.block n).core
  hash : m'.hash = m.hash
  freeList : m'.freeList = m.freeList
  blockCurrent : m'.blockCurrent = m.blockCurrent
  wasm : m'.wasm = m.wasm
  builds : m'.builds = m.builds
  memPages : m'.memPages = m.memPages

theorem Reflagged.flags {φ : BlockFlags → BlockFlags} (reflagged : Reflagged nr φ m m') (n : Nat) :
    (m'.block n).flags = if n = nr then φ (m.block n).flags else (m.block n).flags := by
  have flags := congrArg CodeBlock.flags (reflagged.core n)
  rw [apply_ite CodeBlock.flags] at flags
  exact flags

/-- What a block's core without its flags determines is the same in both machines. -/
theorem Reflagged.proj {α : Type} {φ : BlockFlags → BlockFlags} (reflagged : Reflagged nr φ m m')
    (π : CodeBlock → α) (ofCore : ∀ b flags, π { b.core with flags } = π b) (n : Nat) :
    π (m'.block n) = π (m.block n) := by
  have core := reflagged.core n
  split at core
  · exact (ofCore _ _).symm.trans ((congrArg π core).trans (ofCore _ _))
  · exact (ofCore _ _).symm.trans ((congrArg π core).trans (ofCore _ _))

theorem SameCore.reflagged (same : SameCore m m') : Reflagged nr id m m' where
  core n := by
    rw [same.core]
    split <;> rfl
  hash := same.hash
  freeList := same.freeList
  blockCurrent := same.blockCurrent
  wasm := same.wasm
  builds := same.builds
  memPages := same.memPages

theorem Reflagged.modify {φ : BlockFlags → BlockFlags} :
    Reflagged nr φ m (m.modify nr fun b => { b with flags := φ b.flags }) where
  core n := by
    rw [block_modify]
    split
    · rename_i same
      rw [same]
      rfl
    · rfl
  hash := rfl
  freeList := rfl
  blockCurrent := rfl
  wasm := rfl
  builds := rfl
  memPages := rfl

theorem Reflagged.trans {φ ψ : BlockFlags → BlockFlags} (first : Reflagged nr φ m m')
    (second : Reflagged nr ψ m' m'') : Reflagged nr (ψ ∘ φ) m m'' where
  core n := by
    rw [second.core, first.core, first.flags]
    split <;> rfl
  hash := second.hash.trans first.hash
  freeList := second.freeList.trans first.freeList
  blockCurrent := second.blockCurrent.trans first.blockCurrent
  wasm := second.wasm.trans first.wasm
  builds := second.builds.trans first.builds
  memPages := second.memPages.trans first.memPages

/-! ## Leaving and joining a list -/

/-- A block leaves a list: its neighbours are joined and the head moves past it. -/
structure Unlinked (i : Place) (nr : Nat) (m m' : Machine) : Prop where
  next : ∀ n ≠ 0, n ≠ nr → (m'.block n).next =
    if n = (m.block nr).prev then (m.block nr).next else (m.block n).next
  prev : ∀ n ≠ 0, n ≠ nr → (m'.block n).prev =
    if n = (m.block nr).next then (m.block nr).prev else (m.block n).prev
  head : m'.head i = if (m.block nr).prev = 0 then (m.block nr).next else m.head i
  sameHead : ∀ j ≠ i, m'.head j = m.head j
  tail : m'.dirtyTail =
    if i = .dirty ∧ (m.block nr).next = 0 then (m.block nr).prev else m.dirtyTail
  size : m'.dirtyListSize = if i = .dirty then m.dirtyListSize - 1 else m.dirtyListSize
  next2 : ∀ n, (m'.block n).next2 = (m.block n).next2
  prev2 : ∀ n, (m'.block n).prev2 = (m.block n).prev2
  head2 : ∀ q, (m'.page q).block2 = (m.page q).block2

/-- A block joins a list before the head. -/
structure Pushed (i : Place) (nr : Nat) (m m' : Machine) : Prop where
  next : (m'.block nr).next = m.head i
  prev : m.head i ≠ nr → (m'.block nr).prev = 0
  sameNext : ∀ n ≠ 0, n ≠ nr → (m'.block n).next = (m.block n).next
  newPrev : ∀ n ≠ 0, n ≠ nr →
    (m'.block n).prev = if n = m.head i then nr else (m.block n).prev
  head : m'.head i = nr
  sameHead : ∀ j ≠ i, m'.head j = m.head j
  tail : m'.dirtyTail = if i = .dirty ∧ m.head i = 0 then nr else m.dirtyTail
  size : m'.dirtyListSize = if i = .dirty then m.dirtyListSize + 1 else m.dirtyListSize
  next2 : ∀ n, (m'.block n).next2 = (m.block n).next2
  prev2 : ∀ n, (m'.block n).prev2 = (m.block n).prev2
  head2 : ∀ q, (m'.page q).block2 = (m.page q).block2

theorem unlinked_removeFromPage :
    Unlinked (.page (pageOf (m.block nr).phys)) nr m (m.removeFromPage nr) := by
  constructor <;> intros <;> grind [removeFromPage]

theorem pushed_addToPage (unlinked : (m.block nr).prev = 0) :
    Pushed (.page (pageOf (m.block nr).phys)) nr m (m.addToPage nr) := by
  constructor <;> intros <;> grind [addToPage]

/-- A block leaves the list of its second page. -/
structure Unlinked2 (nr : Nat) (m m' : Machine) : Prop where
  next2 : ∀ n ≠ 0, n ≠ nr → (m'.block n).next2 =
    if n = (m.block nr).prev2 then (m.block nr).next2 else (m.block n).next2
  prev2 : ∀ n ≠ 0, n ≠ nr → (m'.block n).prev2 =
    if n = (m.block nr).next2 then (m.block nr).prev2 else (m.block n).prev2
  head2 : ∀ q, (m'.page q).block2 = if q = pageOf (m.block nr).phys2 ∧ (m.block nr).prev2 = 0
    then (m.block nr).next2 else (m.page q).block2
  next : ∀ n, (m'.block n).next = (m.block n).next
  prev : ∀ n, (m'.block n).prev = (m.block n).prev
  head : ∀ i, m'.head i = m.head i
  tail : m'.dirtyTail = m.dirtyTail
  size : m'.dirtyListSize = m.dirtyListSize

/-- A block joins the list of its second page. -/
structure Pushed2 (nr : Nat) (m m' : Machine) : Prop where
  next2 : (m'.block nr).next2 = (m.page (pageOf (m.block nr).phys2)).block2
  prev2 : (m.page (pageOf (m.block nr).phys2)).block2 ≠ nr → (m'.block nr).prev2 = 0
  sameNext2 : ∀ n ≠ 0, n ≠ nr → (m'.block n).next2 = (m.block n).next2
  newPrev2 : ∀ n ≠ 0, n ≠ nr → (m'.block n).prev2 =
    if n = (m.page (pageOf (m.block nr).phys2)).block2 then nr else (m.block n).prev2
  head2 : ∀ q, (m'.page q).block2 =
    if q = pageOf (m.block nr).phys2 then nr else (m.page q).block2
  next : ∀ n, (m'.block n).next = (m.block n).next
  prev : ∀ n, (m'.block n).prev = (m.block n).prev
  head : ∀ i, m'.head i = m.head i
  tail : m'.dirtyTail = m.dirtyTail
  size : m'.dirtyListSize = m.dirtyListSize

theorem unlinked2_removeFromPage2 : Unlinked2 nr m (m.removeFromPage2 nr) := by
  constructor <;> intros <;> grind [removeFromPage2]

theorem pushed2_addToPage2 (unlinked : (m.block nr).prev2 = 0) :
    Pushed2 nr m (m.addToPage2 nr) := by
  constructor <;> intros <;> grind [addToPage2]

/-! ## The dirty list -/

@[grind =] theorem head_setDirtyHead {i : Place} :
    (m.setDirtyHead nr).head i = if i = .dirty then nr else m.head i := by
  cases i <;> rfl

@[simp, grind =] theorem head_setDirtyTail {i : Place} :
    (m.setDirtyTail nr).head i = m.head i := by
  cases i <;> rfl

@[simp, grind =] theorem head_setDirtyListSize {i : Place} :
    (m.setDirtyListSize n).head i = m.head i := by
  cases i <;> rfl

@[simp, grind =] theorem block_setDirtyHead : (m.setDirtyHead nr).block n = m.block n := rfl
@[simp, grind =] theorem page_setDirtyHead : (m.setDirtyHead nr).page q = m.page q := rfl
@[simp, grind =] theorem dirtyHead_setDirtyHead : (m.setDirtyHead nr).dirtyHead = nr := rfl
@[simp, grind =] theorem dirtyTail_setDirtyHead :
    (m.setDirtyHead nr).dirtyTail = m.dirtyTail := rfl
@[simp, grind =] theorem dirtyListSize_setDirtyHead :
    (m.setDirtyHead nr).dirtyListSize = m.dirtyListSize := rfl

@[simp, grind =] theorem block_setDirtyTail : (m.setDirtyTail nr).block n = m.block n := rfl
@[simp, grind =] theorem page_setDirtyTail : (m.setDirtyTail nr).page q = m.page q := rfl
@[simp, grind =] theorem dirtyHead_setDirtyTail :
    (m.setDirtyTail nr).dirtyHead = m.dirtyHead := rfl
@[simp, grind =] theorem dirtyTail_setDirtyTail : (m.setDirtyTail nr).dirtyTail = nr := rfl
@[simp, grind =] theorem dirtyListSize_setDirtyTail :
    (m.setDirtyTail nr).dirtyListSize = m.dirtyListSize := rfl

@[simp, grind =] theorem block_setDirtyListSize :
    (m.setDirtyListSize p).block n = m.block n := rfl
@[simp, grind =] theorem page_setDirtyListSize : (m.setDirtyListSize p).page q = m.page q := rfl
@[simp, grind =] theorem dirtyHead_setDirtyListSize :
    (m.setDirtyListSize n).dirtyHead = m.dirtyHead := rfl
@[simp, grind =] theorem dirtyTail_setDirtyListSize :
    (m.setDirtyListSize n).dirtyTail = m.dirtyTail := rfl
@[simp, grind =] theorem dirtyListSize_setDirtyListSize :
    (m.setDirtyListSize n).dirtyListSize = n := rfl

theorem pushed_pushDirty : Pushed .dirty nr m (m.pushDirty nr) := by
  constructor <;> intros <;> grind [pushDirty, setInDirtyList]

theorem unlinked_blockDirtyListRemove : Unlinked .dirty nr m (m.blockDirtyListRemove nr) := by
  constructor <;> intros <;> grind [blockDirtyListRemove, setInDirtyList]

theorem unlinked_dropDirtyTail (last : (m.block m.dirtyTail).next = 0)
    (notFirst : (m.block m.dirtyTail).prev ≠ 0) :
    Unlinked .dirty m.dirtyTail m m.dropDirtyTail := by
  constructor <;> intros <;> grind [dropDirtyTail, setInDirtyList]

theorem unlinked_takeDirtyTail (last : (m.block m.dirtyTail).next = 0) :
    Unlinked .dirty m.dirtyTail m m.takeDirtyTail := by
  constructor <;> intros <;> grind [takeDirtyTail, setInDirtyList]

/-! ## The blocks' flags -/

theorem SameCore.setDirtyHead : SameCore m (m.setDirtyHead nr) :=
  ⟨fun _ => rfl, rfl, rfl, rfl, rfl, rfl, rfl⟩

theorem SameCore.setDirtyTail : SameCore m (m.setDirtyTail nr) :=
  ⟨fun _ => rfl, rfl, rfl, rfl, rfl, rfl, rfl⟩

theorem SameCore.setDirtyListSize : SameCore m (m.setDirtyListSize n) :=
  ⟨fun _ => rfl, rfl, rfl, rfl, rfl, rfl, rfl⟩

theorem SameCore.ite {c : Prop} [Decidable c] (onTrue : c → SameCore m m')
    (onFalse : ¬c → SameCore m m'') : SameCore m (if c then m' else m'') := by
  split
  · exact onTrue ‹_›
  · exact onFalse ‹_›

/-- The dirty list is relinked, and then the block's flag is set or cleared. -/
theorem SameCore.setInDirtyList {inDirtyList : Bool} (same : SameCore m m') :
    Reflagged nr (fun f => { f with inDirtyList }) m
      ((m'.setDirtyListSize n).setInDirtyList nr inDirtyList) := by
  have flagged : Reflagged nr (fun f => { f with inDirtyList }) (m'.setDirtyListSize n)
      ((m'.setDirtyListSize n).setInDirtyList nr inDirtyList) := .modify
  exact (same.trans .setDirtyListSize).reflagged.trans flagged

theorem reflagged_pushDirty :
    Reflagged nr (fun f => { f with inDirtyList := true }) m (m.pushDirty nr) :=
  SameCore.setInDirtyList <| .ite
    (fun _ => (SameCore.setDirtyHead.trans (.modify rfl)).trans (.modify rfl))
    (fun _ => (SameCore.setDirtyHead.trans .setDirtyTail).trans (.modify rfl))

theorem reflagged_blockDirtyListRemove :
    Reflagged nr (fun f => { f with inDirtyList := false }) m (m.blockDirtyListRemove nr) := by
  have joined : SameCore m (if (m.block nr).prev = 0 then m.setDirtyHead (m.block nr).next
      else m.modify (m.block nr).prev ({ · with next := (m.block nr).next })) :=
    .ite (fun _ => .setDirtyHead) (fun _ => .modify rfl)
  exact SameCore.setInDirtyList (joined.trans <| .ite (fun _ => .setDirtyTail) (fun _ => .modify rfl))

theorem reflagged_dropDirtyTail :
    Reflagged m.dirtyTail (fun f => { f with inDirtyList := false }) m m.dropDirtyTail :=
  SameCore.setInDirtyList (SameCore.setDirtyTail.trans (.modify rfl))

theorem reflagged_takeDirtyTail :
    Reflagged m.dirtyTail (fun f => { f with inDirtyList := false }) m m.takeDirtyTail :=
  SameCore.setInDirtyList (SameCore.setDirtyTail.trans <|
    .ite (fun _ => .setDirtyHead) (fun _ => .modify rfl))

/-- What `remove_from_block_list` does to a block's flags. -/
def unlistedFlags (b : CodeBlock) (f : BlockFlags) : BlockFlags :=
  if b.pageMask = 0 then f else { f with hasPage2 := false }

/-- Setting flags to what they are changes nothing. -/
theorem SameCore.reflagged_of_eq {φ : BlockFlags → BlockFlags} (same : SameCore m m')
    (fixed : φ (m.block nr).flags = (m.block nr).flags) : Reflagged nr φ m m' :=
  { (same.reflagged : Reflagged nr id m m') with
    core := fun n => by
      rw [same.core]
      split
      · rename_i self
        rw [self, fixed]
        rfl
      · rfl }

theorem reflagged_removeFromBlockList :
    Reflagged nr (unlistedFlags (m.block nr)) m (m.removeFromBlockList nr) := by
  unfold removeFromBlockList
  split
  case isTrue empty => exact SameCore.refl.reflagged_of_eq (by simp only [unlistedFlags, if_pos empty])
  case isFalse nonempty =>
    have cleared : unlistedFlags (m.block nr) = fun f => { f with hasPage2 := false } := by
      funext f
      simp only [unlistedFlags, if_neg nonempty]
    have flags : ((m.removeFromPage nr).block nr).flags = (m.block nr).flags :=
      SameCore.removeFromPage.proj CodeBlock.flags (fun _ => rfl) nr
    rw [cleared]
    simp only [flags]
    split
    case isTrue =>
      have unset : Reflagged nr (fun f => { f with hasPage2 := false }) (m.removeFromPage nr)
          ((m.removeFromPage nr).setHasPage2 nr false) := .modify
      exact (SameCore.removeFromPage.reflagged.trans unset).trans SameCore.removeFromPage2.reflagged
    case isFalse single =>
      refine SameCore.removeFromPage.reflagged_of_eq ?_
      rw [Bool.not_eq_true] at single
      simp only [← single]

/-- What `add_to_block_list` does to a block's flags. -/
def listedFlags (b : CodeBlock) (f : BlockFlags) : BlockFlags :=
  if b.pageMask2 = 0 then f else { f with hasPage2 := true }

theorem reflagged_addToBlockList :
    Reflagged nr (listedFlags (m.block nr)) m (m.addToBlockList nr) := by
  have mask : ((m.addToPage nr).block nr).pageMask2 = (m.block nr).pageMask2 :=
    SameCore.addToPage.proj CodeBlock.pageMask2 (fun _ => rfl) nr
  simp only [addToBlockList, mask]
  split
  case isTrue nonempty =>
    have set : Reflagged nr (listedFlags (m.block nr)) (m.addToPage nr)
        ((m.addToPage nr).setHasPage2 nr true) := by
      have listed : listedFlags (m.block nr) = fun f => { f with hasPage2 := true } := by
        funext f
        simp only [listedFlags, if_neg nonempty]
      exact listed ▸ .modify
    exact (SameCore.addToPage.reflagged.trans set).trans SameCore.addToPage2.reflagged
  case isFalse empty =>
    rw [not_not] at empty
    exact SameCore.addToPage.reflagged_of_eq (by simp only [listedFlags, if_pos empty])

/-! ## Deletion -/

end Machine

/-- The slot goes to the free pool, which has room for as many slots as there are blocks. -/
def WasmTable.release (w : WasmTable) (idx : Nat) : WasmTable :=
  if idx = 0 then w
  else if w.freeSlots.length < blockSize then { w with freeSlots := idx :: w.freeSlots }
  else w

/-- A block of which nothing but its place on the free list is left. -/
structure CodeBlock.Blank (b : CodeBlock) : Prop where
  pc : b.pc = pcInvalid
  flags : b.flags = { BlockFlags.none with inFreeList := true }
  wasmFnIdx : b.wasmFnIdx = 0

namespace Machine

variable {m m' m'' : Machine} {nr n : Nat}

/-- The hash table without a block. -/
def hashWithout (m : Machine) (nr : Nat) : Nat → Nat :=
  if m.hash (hashOf (m.block nr).phys) = nr then
    Function.update m.hash (hashOf (m.block nr).phys) 0
  else m.hash

/-- A block is deleted: it leaves the hash table, gives its slot back and becomes free. -/
structure Deleted (nr : Nat) (m m' : Machine) : Prop where
  others : ∀ n ≠ nr, (m'.block n).core = (m.block n).core
  blank : (m'.block nr).Blank
  hash : m'.hash = m.hashWithout nr
  freeList : m'.freeList = nr
  blockCurrent : m'.blockCurrent = m.blockCurrent
  wasm : m'.wasm = m.wasm.release (m.block nr).wasmFnIdx
  builds : m'.builds = m.builds
  memPages : m'.memPages = m.memPages

/-- `codegen_wasm_free_block` clears the block's index and releases the slot. -/
theorem wasmFreeBlock_eq : m.wasmFreeBlock nr =
    { m with wasm := m.wasm.release (m.block nr).wasmFnIdx }.modify nr
      ({ · with wasmFnIdx := 0 }) := by
  unfold wasmFreeBlock WasmTable.release
  dsimp only
  split
  case isTrue zero =>
    have same : { m.block nr with wasmFnIdx := 0 } = m.block nr := by rw [← zero]
    simp only [modify, same, Function.update_eq_self]
  case isFalse =>
    by_cases room : m.wasm.freeSlots.length < blockSize <;> simp only [modify, room, if_true, if_false]

/-- Taking a block out of the hash table and marking it invalid. -/
def forget (nr : Nat) (m : Machine) : Machine :=
  { m with hash := m.hashWithout nr }.modify nr ({ · with pc := pcInvalid })

theorem deleteDirtyBlock_eq : m.deleteDirtyBlock nr =
    ((m.forget nr).wasmFreeBlock nr).blockFreeListAdd nr := by
  unfold deleteDirtyBlock forget hashWithout
  dsimp only
  split <;> rfl

theorem deleteBlock_eq : m.deleteBlock nr =
    (((if (m.block nr).flags.inDirtyList then (m.forget nr).blockDirtyListRemove nr
      else (m.forget nr).removeFromBlockList nr).wasmFreeBlock nr).blockFreeListAdd nr) := by
  have flags : ((m.forget nr).block nr).flags = (m.block nr).flags := by
    rw [forget, block_modify_self]
  unfold deleteBlock
  rw [← flags]
  unfold forget hashWithout
  dsimp only
  split <;> rfl

/-- Unlinking comes between the hash table and the free list. -/
theorem Reflagged.deleted {φ : BlockFlags → BlockFlags} (unlinked : Reflagged nr φ (m.forget nr) m') :
    Deleted nr m ((m'.wasmFreeBlock nr).blockFreeListAdd nr) where
  others n other := by
    rw [blockFreeListAdd, block_modify_of_ne other, wasmFreeBlock_eq]
    simp only [block_modify_of_ne other]
    rw [unlinked.core, if_neg other, forget]
    exact congrArg CodeBlock.core (block_modify_of_ne other)
  blank := by
    have pc : (m'.block nr).pc = pcInvalid := by
      rw [unlinked.proj CodeBlock.pc (fun _ _ => rfl), forget, block_modify_self]
    rw [blockFreeListAdd, wasmFreeBlock_eq]
    constructor <;> simp [pc]
  hash := by
    rw [blockFreeListAdd, wasmFreeBlock_eq]
    exact unlinked.hash
  freeList := rfl
  blockCurrent := by
    rw [blockFreeListAdd, wasmFreeBlock_eq]
    exact unlinked.blockCurrent
  wasm := by
    have idx : (m'.block nr).wasmFnIdx = (m.block nr).wasmFnIdx := by
      rw [unlinked.proj CodeBlock.wasmFnIdx (fun _ _ => rfl), forget, block_modify_self]
    rw [blockFreeListAdd, wasmFreeBlock_eq]
    exact congrArg₂ WasmTable.release unlinked.wasm idx
  builds := by
    rw [blockFreeListAdd, wasmFreeBlock_eq]
    exact unlinked.builds
  memPages := by
    rw [blockFreeListAdd, wasmFreeBlock_eq]
    exact unlinked.memPages

theorem deleted_deleteBlock : Deleted nr m (m.deleteBlock nr) := by
  rw [deleteBlock_eq]
  split
  · exact reflagged_blockDirtyListRemove.deleted
  · exact reflagged_removeFromBlockList.deleted

/-- A dirty block is unlinked before it leaves the hash table. -/
theorem Reflagged.deletedDirty {φ : BlockFlags → BlockFlags} (unlinked : Reflagged nr φ m m') :
    Deleted nr m (m'.deleteDirtyBlock nr) := by
  have deleted : Deleted nr m' (m'.deleteDirtyBlock nr) := by
    rw [deleteDirtyBlock_eq]
    exact (SameCore.refl.reflagged : Reflagged nr id _ _).deleted
  have phys := unlinked.proj CodeBlock.phys (fun _ _ => rfl) nr
  refine ⟨fun n other => ?_, deleted.blank, ?_, deleted.freeList,
    deleted.blockCurrent.trans unlinked.blockCurrent, ?_, deleted.builds.trans unlinked.builds,
    deleted.memPages.trans unlinked.memPages⟩
  · rw [deleted.others n other, unlinked.core, if_neg other]
  · rw [deleted.hash, hashWithout, hashWithout, phys, unlinked.hash]
  · rw [deleted.wasm, unlinked.wasm, unlinked.proj CodeBlock.wasmFnIdx fun _ _ => rfl]

theorem deleted_evictDirtyTail : Deleted m.dirtyTail m m.evictDirtyTail :=
  reflagged_dropDirtyTail.deletedDirty

theorem deleted_takeDirtyTail :
    Deleted m.dirtyTail m (m.takeDirtyTail.deleteDirtyBlock m.dirtyTail) :=
  reflagged_takeDirtyTail.deletedDirty

end Machine

end PCemWeb.Codegen
