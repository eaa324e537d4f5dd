import PCemWeb.Lib.Run
import PCemWeb.Codegen.BlockReset

/-!
# Every block is on exactly one list

The invariant of the code blocks is carried along the runs of the dispatcher. It breaks on an
address that looks like `BLOCK_PC_INVALID`, on a block whose compilation is aborted before any
of its code was recorded, and on a reset while a page past the installed memory holds blocks.
-/

namespace PCemWeb.Codegen

open PCemWeb.Lib

/-! ## The discipline -/

/-- The single block that may be on no list. -/
def Dynarec.underConstruction (s : Dynarec) : Option Nat :=
  if s.phase = .marking then some s.machine.blockCurrent else none

/-- The links hold these lists, and each block in use is on exactly one: free, dirty or its
pages'. -/
structure Discipline (s : Dynarec) (free : List Nat) (lists : Place → List Nat)
    (lists2 : Nat → List Nat) : Prop where
  /-- Both directions agree, nothing repeats, and `dirty_list_size` is the length. -/
  linked : s.machine.Linked free lists lists2
  size : s.machine.dirtyListSize ≤ dirtyListMaxSize
  somewhere : ∀ n, InRange n → n ∈ free ∨ n ∈ lists .dirty ∨
    n ∈ lists (.page (pageOf (s.machine.block n).phys)) ∨ s.underConstruction = some n
  construction : ∀ n, s.underConstruction = some n →
    n ∉ free ∧ (∀ i, n ∉ lists i) ∧ ∀ p, n ∉ lists2 p
  inRange : ∀ n, n ∈ free ∨ (∃ i, n ∈ lists i) ∨ (∃ p, n ∈ lists2 p) → InRange n
  page : ∀ p, ∀ n ∈ lists (.page p), pageOf (s.machine.block n).phys = p
  page2 : ∀ p n, n ∈ lists2 p ↔ n ∈ lists (.page (pageOf (s.machine.block n).phys)) ∧
    (s.machine.block n).flags.hasPage2 = true ∧ pageOf (s.machine.block n).phys2 = p
  hash : ∀ h, s.machine.hash h ≠ 0 → InRange (s.machine.hash h) ∧ s.machine.hash h ∉ free

def Disciplined (s : Dynarec) : Prop := ∃ free lists lists2, Discipline s free lists lists2

/-- The invariant gives the discipline. -/
theorem Machine.Kept.disciplined {s : Dynarec} {exempt : Option Nat}
    (kept : s.machine.Kept s.underConstruction exempt) : Disciplined s := by
  obtain ⟨free, lists, lists2, linked, placed⟩ := kept.listed
  have live (n : Nat) (two : InRange n ∧ (s.machine.block n).flags.hasPage2 = true) :
      n ∈ lists (.page (pageOf (s.machine.block n).phys)) :=
    (placed.page _ n).mpr ⟨placed.hasPage2 n two.1 two.2, rfl⟩
  refine ⟨free, lists, lists2, linked, kept.size, fun n inRange => ?_, fun n construction => ?_,
    fun n somewhere => ?_, fun p n inList => ((placed.page p n).mp inList).2, fun p n => ?_,
    fun h nonzero => ?_⟩
  · rw [placed.free, placed.dirty, placed.page]
    cases notFree : (s.machine.block n).flags.inFreeList with
    | true => simp [inRange]
    | false =>
      cases clean : (s.machine.block n).flags.inDirtyList with
      | true => simp [inRange]
      | false =>
        by_cases construction : s.underConstruction = some n
        · simp [construction]
        · simp [Machine.Live, inRange, notFree, clean, construction]
  · rw [construction] at placed
    obtain ⟨-, fresh, fresh2, notFree, -⟩ := placed.fresh
    exact ⟨notFree, fresh, fresh2⟩
  · rcases somewhere with inFree | ⟨i, inList⟩ | ⟨p, inList⟩
    · exact ((placed.free n).mp inFree).1
    · cases i with
      | dirty => exact ((placed.dirty n).mp inList).1
      | page p => exact ((placed.page p n).mp inList).1.1
    · exact ((placed.page2 p n).mp inList).1
  · rw [placed.page2]
    constructor
    · rintro ⟨inRange, two, page⟩
      exact ⟨live n ⟨inRange, two⟩, two, page⟩
    · rintro ⟨inList, two, page⟩
      exact ⟨((placed.page _ n).mp inList).1.1, two, page⟩
  · obtain ⟨inRange, notFree, -⟩ := kept.coded.hash h nonzero
    refine ⟨inRange, fun inFree => ?_⟩
    rw [((placed.free _).mp inFree).2] at notFree
    cases notFree

/-! ## Runs -/

/-- No block is made or looked up at the address that marks a block without code; a compiled
block ends, and an aborted one is removed, once some of its first page's code is recorded or,
for the removal, from the dirty list; no page past the installed memory holds a block at a
reset. -/
def Dynarec.KeepsLists (s : Dynarec) : Label → Prop
  | .init a => a.pc ≠ pcInvalid
  | .select a _ | .startRecompile a _ _ => a.pc ≠ pcInvalid
  | .endRecompile _ _ _ _ => (s.machine.block s.machine.blockCurrent).pageMask ≠ 0
  | .blockRemove => s.phase = .recompiling →
      (s.machine.block s.machine.blockCurrent).flags.inDirtyList = true ∨
        (s.machine.block s.machine.blockCurrent).pageMask ≠ 0
  | .reset => ∀ p, s.machine.memPages ≤ p →
      (s.machine.page p).block = 0 ∧ (s.machine.page p).block2 = 0
  | .checkFlush _ | .demote _ | .topMismatch _ | .blockEnd _ _ | .markCode _ _ | .write _ _ _ => True

/-- The invariant of each phase. -/
def Dynarec.Inv (s : Dynarec) : Prop :=
  match s.phase with
  | .idle => s.machine.Kept none none
  | .marking => s.machine.Fresh
  | .recompiling => s.machine.Recompiling

namespace Dynarec

variable {s t : Dynarec} {m : Machine}

theorem Inv.idle (kept : m.Kept none none) : Inv ⟨m, .idle⟩ := kept
theorem Inv.marking (fresh : m.Fresh) : Inv ⟨m, .marking⟩ := fresh
theorem Inv.recompiling (recompiling : m.Recompiling) : Inv ⟨m, .recompiling⟩ := recompiling

theorem Inv.disciplined (inv : s.Inv) : Disciplined s := by
  obtain ⟨m, phase⟩ := s
  cases phase with
  | idle => exact Machine.Kept.disciplined inv
  | marking => exact Machine.Kept.disciplined inv.kept
  | recompiling => exact Machine.Kept.disciplined inv.kept

theorem Inv.init (lookup : WriteLookup) (wasm : WasmTable) (memPages : Nat) :
    (Dynarec.init lookup wasm memPages).Inv :=
  .idle (Machine.kept_codegenInit lookup wasm memPages)

/-- A valid block is one with code, at the address looked up. -/
theorem of_valid {m : Machine} {nr : Nat} {a : Lookup} (kept : m.Kept none none)
    (valid : (m.block nr).valid a = true) (coded : a.pc ≠ pcInvalid) (bound : nr < blockSize) :
    InRange nr ∧ (m.block nr).flags.inFreeList = false ∧ (m.block nr).phys = a.phys := by
  simp only [CodeBlock.valid, Bool.and_eq_true, decide_eq_true_eq] at valid
  obtain ⟨⟨⟨⟨pc, -⟩, phys⟩, -⟩, -⟩ := valid
  have inRange : InRange nr := by
    refine ⟨Nat.pos_of_ne_zero ?_, bound⟩
    rintro rfl
    exact coded (pc.symm.trans kept.coded.pcZero)
  exact ⟨inRange, kept.notFree inRange fun invalid => coded (pc.symm.trans invalid), phys⟩

/-- A number from the hash table is in bounds. -/
theorem hashed_lt {m : Machine} (kept : m.Kept none none) (a : Lookup) :
    m.hashed a < blockSize := by
  rcases eq_or_ne (m.hashed a) 0 with zero | nonzero
  · rw [zero]
    decide
  · exact (kept.coded.hash _ nonzero).1.2

theorem Inv.select {a : Lookup} {nr : Nat} (inv : s.Inv) (coded : a.pc ≠ pcInvalid)
    (next : s.step (.select a nr) = some t) : t.Inv := by
  obtain ⟨m, phase⟩ := s
  simp only [Dynarec.step] at next
  split at next <;> cases next
  rename_i selected
  obtain ⟨rfl, bound, valid⟩ := selected
  have kept : m.Kept none none := inv
  obtain ⟨inRange, notFree, phys⟩ := of_valid kept valid coded bound
  refine .idle ⟨kept.listed.congr (.of_eq rfl rfl rfl rfl rfl rfl), kept.size,
    { kept.coded with hash := fun h nonzero => ?_ }⟩
  simp only [Machine.setHash] at nonzero ⊢
  rcases eq_or_ne h (hashOf a.phys) with rfl | elsewhere
  · rw [Function.update_self]
    exact ⟨inRange, notFree, by rw [phys]⟩
  · rw [Function.update_of_ne elsewhere] at nonzero ⊢
    exact kept.coded.hash h nonzero

theorem Inv.checkFlush {p : Nat} (inv : s.Inv) (next : s.step (.checkFlush p) = some t) :
    t.Inv := by
  obtain ⟨m, phase⟩ := s
  simp only [Dynarec.step] at next
  split at next <;> cases next
  rename_i idle
  obtain rfl := idle
  exact .idle (Machine.Kept.codegenCheckFlush inv)

theorem samePlace_demote (b : CodeBlock) : Machine.SamePlace b b.demote := by
  unfold CodeBlock.demote
  split <;> exact ⟨⟨rfl, rfl, rfl, rfl⟩, ⟨rfl, rfl, rfl⟩, ⟨rfl, rfl⟩, rfl⟩

theorem Inv.demote {a : Lookup} (inv : s.Inv) (next : s.step (.demote a) = some t) : t.Inv := by
  obtain ⟨m, phase⟩ := s
  simp only [Dynarec.step] at next
  split at next <;> cases next
  rename_i demoted
  obtain ⟨rfl, -⟩ := demoted
  exact .idle (Machine.Kept.modify inv (samePlace_demote _) (.inr rfl))

theorem Inv.topMismatch {a : Lookup} (inv : s.Inv) (next : s.step (.topMismatch a) = some t) :
    t.Inv := by
  obtain ⟨m, phase⟩ := s
  simp only [Dynarec.step] at next
  split at next <;> cases next
  rename_i mismatched
  obtain ⟨rfl, -⟩ := mismatched
  refine .idle (Machine.Kept.modify inv ?_ (.inr ?_))
  · exact ⟨⟨rfl, rfl, rfl, rfl⟩, ⟨rfl, rfl, rfl⟩, ⟨rfl, rfl⟩, rfl⟩
  · rfl

theorem Inv.initBlock {a : InitArgs} (inv : s.Inv) (coded : a.pc ≠ pcInvalid)
    (next : s.step (.init a) = some t) : t.Inv := by
  obtain ⟨m, phase⟩ := s
  simp only [Dynarec.step] at next
  split at next
  · rename_i idle
    obtain rfl := idle
    obtain ⟨m', init, rfl⟩ := Option.map_eq_some_iff.mp next
    exact .marking (Machine.Kept.codegenBlockInit inv coded init)
  · cases next

theorem Inv.blockEnd {endpc : Nat} {endPhys : Option Nat} (inv : s.Inv)
    (next : s.step (.blockEnd endpc endPhys) = some t) : t.Inv := by
  obtain ⟨m, phase⟩ := s
  simp only [Dynarec.step] at next
  split at next <;> cases next
  rename_i marking
  obtain rfl := marking
  exact .idle (Machine.Fresh.codegenBlockEnd inv endpc endPhys)

theorem Inv.startRecompile {a : Lookup} {top : Nat} {victims : List Nat} (inv : s.Inv)
    (coded : a.pc ≠ pcInvalid) (next : s.step (.startRecompile a top victims) = some t) :
    t.Inv := by
  obtain ⟨m, phase⟩ := s
  simp only [Dynarec.step] at next
  split at next <;> cases next
  rename_i started
  obtain ⟨rfl, valid, -, bound⟩ := started
  have kept : m.Kept none none := inv
  obtain ⟨inRange, notFree, -⟩ := of_valid kept valid coded (hashed_lt kept a)
  exact .recompiling (kept.codegenBlockStartRecompile inRange notFree a.status top bound)

theorem Inv.markCode {startPc len : Nat} (inv : s.Inv)
    (next : s.step (.markCode startPc len) = some t) : t.Inv := by
  obtain ⟨m, phase⟩ := s
  simp only [Dynarec.step] at next
  split at next <;> cases next
  rename_i recompiling
  obtain rfl := recompiling
  exact .recompiling (Machine.Recompiling.markCode inv startPc len)

theorem Inv.endRecompile {endpc : Nat} {endPhys : Option Nat} {usesFpu : Bool}
    {outcome : Epilogue} (inv : s.Inv)
    (mask : (s.machine.block s.machine.blockCurrent).pageMask ≠ 0)
    (next : s.step (.endRecompile endpc endPhys usesFpu outcome) = some t) : t.Inv := by
  obtain ⟨m, phase⟩ := s
  simp only [Dynarec.step] at next
  split at next <;> cases next
  rename_i recompiling
  obtain rfl := recompiling
  exact .idle (Machine.Recompiling.codegenBlockEndRecompile inv mask endpc endPhys usesFpu outcome)

theorem Inv.blockRemove (inv : s.Inv) (unlinkable : s.KeepsLists .blockRemove)
    (next : s.step .blockRemove = some t) : t.Inv := by
  obtain ⟨m, phase⟩ := s
  cases phase with
  | idle => cases next
  | marking =>
    cases next
    exact .idle (Machine.Fresh.codegenBlockRemove inv)
  | recompiling =>
    cases next
    exact .idle (Machine.Recompiling.codegenBlockRemove inv (unlinkable rfl))

theorem Inv.reset (inv : s.Inv) (pages : s.KeepsLists .reset) (next : s.step .reset = some t) :
    t.Inv := by
  cases next
  obtain ⟨m, phase⟩ := s
  have resetting : ∃ dirty, m.Resetting 1 dirty := by
    cases phase with
    | idle =>
      have kept : m.Kept none none := inv
      exact kept.listed.resetting kept.coded nofun pages
    | marking =>
      have fresh : m.Fresh := inv
      refine fresh.kept.listed.resetting fresh.kept.coded ?_ pages
      rintro n ⟨⟩
      exact fresh.pageMask
    | recompiling =>
      have recompiling : m.Recompiling := inv
      exact recompiling.kept.listed.resetting recompiling.kept.coded nofun pages
  obtain ⟨dirty, resetting⟩ := resetting
  exact .idle resetting.codegenReset

/-- Guest writes change masks of pages only. -/
theorem kept_write {g : Page → Page} {p : Nat} {open_ exempt : Option Nat}
    (kept : m.Kept open_ exempt) (head : (g (m.page p)).block = (m.page p).block)
    (head2 : (g (m.page p)).block2 = (m.page p).block2) : (m.modifyPage p g).Kept open_ exempt :=
  ⟨kept.listed.congr (.modifyPage head head2), kept.size, kept.coded.congr
    ⟨fun _ => rfl, fun _ => rfl, fun _ => rfl, fun _ => rfl, fun _ _ => rfl, rfl⟩⟩

theorem Inv.write {p : Nat} {dirty : BitVec 64} {byteDirty : Nat → BitVec 64} (inv : s.Inv)
    (next : s.step (.write p dirty byteDirty) = some t) : t.Inv := by
  cases next
  obtain ⟨m, phase⟩ := s
  dsimp only
  cases phase with
  | idle =>
    refine .idle (kept_write inv ?_ ?_)
    all_goals rfl
  | marking =>
    have fresh : m.Fresh := inv
    refine .marking ⟨kept_write fresh.kept ?_ ?_, fresh.prev, fresh.pageMask⟩
    all_goals rfl
  | recompiling =>
    have recompiling : m.Recompiling := inv
    refine .recompiling ⟨kept_write recompiling.kept ?_ ?_, recompiling.inRange,
      recompiling.notFree⟩
    all_goals rfl

theorem Inv.step {l : Label} (inv : s.Inv) (keeps : s.KeepsLists l) (next : s.step l = some t) :
    t.Inv := by
  cases l with
  | select => exact inv.select keeps next
  | checkFlush => exact inv.checkFlush next
  | demote => exact inv.demote next
  | topMismatch => exact inv.topMismatch next
  | init => exact inv.initBlock keeps next
  | blockEnd => exact inv.blockEnd next
  | startRecompile => exact inv.startRecompile keeps next
  | markCode => exact inv.markCode next
  | endRecompile => exact inv.endRecompile keeps next
  | blockRemove => exact inv.blockRemove keeps next
  | reset => exact inv.reset keeps next
  | write => exact inv.write next

/-- In a run whose steps keep the lists, every block is on exactly one list in every state. -/
theorem disciplined_of_run {lookup : WriteLookup} {wasm : WasmTable} {memPages : Nat}
    (run : RunOk Dynarec.step KeepsLists (Dynarec.init lookup wasm memPages) s) : Disciplined s :=
  (run.invariant (Inv.init lookup wasm memPages) Inv.step).disciplined

/-! ## A compiled block, and one whose compilation is aborted at once -/

/-- Freshly allocated memory of 16 pages, and an empty function table. -/
def start : Dynarec :=
  .init ⟨fun _ => none, fun _ => none, fun _ => none⟩ ⟨fun _ => none, 1, [], []⟩ 16

/-- The free list in closed form, for evaluation. -/
theorem start_eq : start = ⟨
    { block := fun k => if k < blockSize then CodeBlock.pushed .zero 0 k else .zero
      hash := fun _ => 0
      page := fun _ => .zero
      freeList := blockSize - 1
      dirtyHead := 0
      dirtyTail := 0
      dirtyListSize := 0
      blockCurrent := 0
      recompPage := none
      lookup := ⟨fun _ => none, fun _ => none, fun _ => none⟩
      wasm := ⟨fun _ => none, 1, [], []⟩
      builds := 0
      memPages := 16 }, .idle⟩ := by
  rw [start, Dynarec.init, Machine.codegenInit, Machine.pushFree_eq]
  rfl

/-- A block of 16 bytes is marked at address 4096, and then compiled. -/
def compileLabels : List Label :=
  [.init ⟨0x1000, 0, 0x1000, 0, 0, 0⟩, .blockEnd 0x1010 none,
    .startRecompile ⟨0x1000, 0, 0x1000, 0⟩ 0 [], .markCode 0x1000 16,
    .endRecompile 0x1010 none false (.install true)]

/-- The compilation is aborted before any code is recorded. -/
def abortLabels : List Label :=
  [.init ⟨0x1000, 0, 0x1000, 0, 0, 0⟩, .blockEnd 0x1010 none,
    .startRecompile ⟨0x1000, 0, 0x1000, 0⟩ 0 [], .blockRemove]

/-- The condition on the steps of `compileLabels`. -/
def keepsLists (s : Dynarec) : Label → Bool
  | .init a => a.pc ≠ pcInvalid
  | .startRecompile a _ _ => a.pc ≠ pcInvalid
  | .endRecompile _ _ _ _ => (s.machine.block s.machine.blockCurrent).pageMask ≠ 0
  | .blockEnd _ _ | .markCode _ _ => true
  | _ => false

theorem keepsLists_sound (s : Dynarec) (l : Label) (keeps : keepsLists s l = true) :
    s.KeepsLists l := by
  cases l <;> simp_all [keepsLists, KeepsLists]

theorem disciplined_of_compileLabels :
    ∃ s, RunOk Dynarec.step KeepsLists start s ∧
      (s.machine.block 16383).flags.wasRecompiled = true ∧ Disciplined s := by
  have compiled : (execOk Dynarec.step keepsLists start compileLabels).map
      (fun s => (s.machine.block 16383).flags.wasRecompiled) = some true := by
    rw [start_eq]
    decide +kernel
  obtain ⟨s, done, flag⟩ := Option.map_eq_some_iff.mp compiled
  have run := RunOk.of_execOk keepsLists_sound done
  exact ⟨s, run, flag, disciplined_of_run run⟩

/-- The freed block is still the head of its page's list. -/
theorem not_disciplined_aborted :
    ¬ ∀ labels s, exec Dynarec.step start labels = some s → Disciplined s := by
  intro disciplined
  have aborted : (exec Dynarec.step start abortLabels).map
      (fun s => (s.machine.freeList, s.machine.head (.page 1))) = some (16383, 16383) := by
    rw [start_eq]
    decide +kernel
  obtain ⟨s, done, heads⟩ := Option.map_eq_some_iff.mp aborted
  obtain ⟨freeList, head⟩ := Prod.mk.inj heads
  obtain ⟨free, lists, lists2, discipline⟩ := disciplined abortLabels s done
  have inFree : 16383 ∈ free := by
    obtain ⟨rest, rfl, -⟩ := discipline.linked.chain.exists_cons (by rw [freeList]; decide)
    rw [freeList]
    exact .head _
  have inList : 16383 ∈ lists (.page 1) :=
    head ▸ (discipline.linked.first.list (.page 1)).head_mem (by rw [head]; decide)
  exact discipline.linked.notFree (.page 1) 16383 inList inFree

end Dynarec

end PCemWeb.Codegen
