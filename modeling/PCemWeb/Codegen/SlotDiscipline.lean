import PCemWeb.Codegen.BlockDiscipline
import PCemWeb.Codegen.SlotOwnership

/-!
# Exact slots

Between two steps of the dispatcher every slot of the function table that a block ever had is held
by one block or waits for reuse, and a block whose compiled code may be entered holds the slot with
its own code. Installation breaks this when it fails after a slot was taken for it, and a reset
when it skips a block that holds a slot.
-/

namespace PCemWeb.Codegen

open PCemWeb.Lib

namespace Dynarec

variable {s t : Dynarec} {known : Nat → Prop}

/-- The slots in use or waiting for reuse. -/
def Allocated (s : Dynarec) (i : Nat) : Prop :=
  i ≠ 0 ∧ ((∃ n, (s.machine.block n).wasmFnIdx = i) ∨ i ∈ s.machine.wasm.freeSlots)

/-- Who holds which slot, and what is in it. -/
structure SlotsExact (s : Dynarec) : Prop where
  oneHolder : ∀ a b, (s.machine.block a).wasmFnIdx ≠ 0 →
    (s.machine.block a).wasmFnIdx = (s.machine.block b).wasmFnIdx → a = b
  notPooled : ∀ n, (s.machine.block n).wasmFnIdx ≠ 0 →
    (s.machine.block n).wasmFnIdx ∉ s.machine.wasm.freeSlots ++ s.machine.wasm.jsFree
  pools : (s.machine.wasm.freeSlots ++ s.machine.wasm.jsFree).Nodup
  module : ∀ n, (s.phase = .recompiling → n ≠ s.machine.blockCurrent) →
    (s.machine.block n).flags.wasRecompiled = true →
    (s.machine.block n).flags.inDirtyList = false →
    (s.machine.block n).wasmFnIdx ≠ 0 ∧ s.machine.wasm.table (s.machine.block n).wasmFnIdx =
      some ⟨n, (s.machine.block n).build⟩

/-- The slots allocated in one state are in a later one. -/
def NoneLost (s t : Dynarec) : Prop := ∀ i, s.Allocated i → t.Allocated i

/-- The condition on a step: an installation fails only when there is no slot to take for it, and
a reset finds no slot in a block that it skips, one at `BLOCK_PC_INVALID`. -/
def KeepsSlots (s : Dynarec) : Label → Prop
  | .endRecompile _ _ _ outcome => ¬s.machine.LosesSlot s.machine.blockCurrent outcome
  | .reset => ∀ n < blockSize, (s.machine.block n).pc = pcInvalid →
      (s.machine.block n).wasmFnIdx = 0
  | _ => True

/-- The block being compiled. -/
def openBlock (s : Dynarec) : Option Nat :=
  if s.phase = .recompiling then some s.machine.blockCurrent else none

structure SlotInv (s : Dynarec) (known : Nat → Prop) : Prop where
  bounded : s.machine.Bounded
  slotted : s.machine.Slotted s.openBlock known

/-! ## The invariant -/

theorem accounted_iff (inv : s.SlotInv known) (i : Nat) :
    Accounted s.machine.slots s.machine.wasm.freeSlots i ↔ s.Allocated i := by
  constructor
  · intro accounted
    refine ⟨(inv.slotted.pooled.bound i accounted).1, accounted.imp_left fun ⟨n, held⟩ => ?_⟩
    exact ⟨n, (CodeBlock.slot_eq_some.mp held).2⟩
  · rintro ⟨nonzero, ⟨n, index⟩ | inPool⟩
    · exact .inl ⟨n, CodeBlock.slot_eq_some.mpr ⟨nonzero, index⟩⟩
    · exact .inr inPool

theorem SlotInv.exact (inv : s.SlotInv known) : SlotsExact s := by
  have pooled := inv.slotted.pooled
  have held (n : Nat) (nonzero : (s.machine.block n).wasmFnIdx ≠ 0) :
      s.machine.slots n = some (s.machine.block n).wasmFnIdx :=
    CodeBlock.slot_eq_some.mpr ⟨nonzero, rfl⟩
  constructor
  case oneHolder =>
    intro a b nonzero same
    exact pooled.unique (held a nonzero) (same ▸ held b (same ▸ nonzero))
  case notPooled =>
    intro n nonzero inPools
    rcases List.mem_append.mp inPools with inPool | inJs
    · exact pooled.notPooled (held n nonzero) inPool
    · exact (pooled.jsNew _ inJs).2.2 (.inl ⟨n, held n nonzero⟩)
  case pools =>
    refine List.nodup_append'.mpr ⟨pooled.nodup, pooled.jsNodup, fun i inPool inJs => ?_⟩
    exact (pooled.jsNew i inJs).2.2 (.inr inPool)
  case module =>
    intro n other compiled clean
    have closed : s.openBlock ≠ some n := by
      unfold openBlock
      split
      case isTrue recompiling => exact fun same => other recompiling (Option.some.inj same).symm
      case isFalse => nofun
    obtain ⟨i, held, module⟩ := inv.slotted.module n closed ⟨compiled, clean⟩
    obtain ⟨nonzero, rfl⟩ := CodeBlock.slot_eq_some.mp held
    exact ⟨nonzero, module⟩

theorem SlotInv.init (lookup : WriteLookup) {wasm : WasmTable} (memPages : Nat)
    (unused : wasm.Unused) : (init lookup wasm memPages).SlotInv fun _ => False :=
  ⟨Machine.bounded_codegenInit .., Machine.slotted_codegenInit lookup memPages unused⟩

/-! ## Steps -/

theorem slotted_congr {m m' : Machine} {phase : Phase}
    (slotted : m.Slotted (openBlock ⟨m, phase⟩) known) (current : m'.blockCurrent = m.blockCurrent)
    (same : Machine.SameSlots (openBlock ⟨m, phase⟩) (openBlock ⟨m, phase⟩) m m') :
    m'.Slotted (openBlock ⟨m', phase⟩) known := by
  have open_ : openBlock ⟨m', phase⟩ = openBlock ⟨m, phase⟩ := by
    simp only [openBlock, current]
  exact open_ ▸ slotted.congr same

theorem slotted_idle {m : Machine} (slotted : m.Slotted none known) :
    m.Slotted (openBlock ⟨m, .idle⟩) known := slotted

theorem blockCurrent_startRecompile {m : Machine} {nr : Nat} {status : BitVec 16} {top : Nat}
    {victims : List Nat} :
    (m.codegenBlockStartRecompile nr status top victims).blockCurrent = nr := by
  have kept (victims : List Nat) : ∀ m : Machine,
      (victims.foldl (fun m v => if v ≠ nr then m.codegenDeleteBlock v else m) m).blockCurrent =
        m.blockCurrent := by
    induction victims with
    | nil => exact fun _ => rfl
    | cons v victims ih =>
      intro m
      rw [List.foldl_cons, ih]
      split
      · unfold Machine.codegenDeleteBlock
        split
        · exact Machine.deleted_deleteBlock.blockCurrent
        · rfl
      · rfl
  unfold Machine.codegenBlockStartRecompile
  exact kept victims _

theorem slotted_step {l : Label} (inv : s.SlotInv known) (keeps : s.KeepsSlots l)
    (next : s.step l = some t) : t.machine.Slotted t.openBlock known := by
  obtain ⟨m, phase⟩ := s
  have slotted : m.Slotted (openBlock ⟨m, phase⟩) known := inv.slotted
  cases l with
  | select a nr =>
    simp only [Dynarec.step] at next
    split at next <;> cases next
    exact slotted.congr (.of_eq rfl rfl)
  | checkFlush p =>
    simp only [Dynarec.step] at next
    split at next <;> cases next
    rename_i idle
    obtain rfl := idle
    exact Machine.Slotted.codegenCheckFlush slotted
  | demote a =>
    simp only [Dynarec.step] at next
    split at next <;> cases next
    refine slotted_congr slotted rfl (.modify (fun _ closed => closed) ?_ ?_ fun _ runs => ?_)
    · rfl
    · rfl
    · refine absurd runs (BlockFlags.not_runs ?_)
      unfold CodeBlock.demote
      split <;> rfl
  | topMismatch a =>
    simp only [Dynarec.step] at next
    split at next <;> cases next
    refine slotted_congr slotted rfl ?_
    dsimp only
    refine .modify (fun _ closed => closed) ?_ ?_ fun _ runs => ?_
    · rfl
    · rfl
    · exact absurd runs (BlockFlags.not_runs rfl)
  | init a =>
    simp only [Dynarec.step] at next
    split at next
    · rename_i idle
      obtain rfl := idle
      obtain ⟨m', init, rfl⟩ := Option.map_eq_some_iff.mp next
      exact Machine.Slotted.codegenBlockInit slotted init
    · cases next
  | blockEnd endpc endPhys =>
    simp only [Dynarec.step] at next
    split at next <;> cases next
    rename_i marking
    obtain rfl := marking
    exact Machine.Slotted.codegenBlockEnd slotted endpc endPhys
  | startRecompile a top victims =>
    simp only [Dynarec.step] at next
    split at next <;> cases next
    rename_i started
    obtain ⟨rfl, -⟩ := started
    have slotted' : (m.codegenBlockStartRecompile (m.hashed a) a.status top victims).Slotted
        (some (m.hashed a)) known :=
      Machine.Slotted.codegenBlockStartRecompile slotted a.status top
    have current : openBlock ⟨m.codegenBlockStartRecompile (m.hashed a) a.status top victims,
        .recompiling⟩ = some (m.hashed a) := congrArg some blockCurrent_startRecompile
    exact current ▸ slotted'
  | markCode startPc len =>
    simp only [Dynarec.step] at next
    split at next <;> cases next
    exact slotted.markCode startPc len
  | endRecompile endpc endPhys usesFpu outcome =>
    simp only [Dynarec.step] at next
    split at next <;> cases next
    rename_i recompiling
    obtain rfl := recompiling
    exact Machine.Slotted.codegenBlockEndRecompile slotted inv.bounded endpc endPhys usesFpu keeps
  | blockRemove =>
    cases phase with
    | idle => cases next
    | marking =>
      cases next
      exact Machine.Slotted.codegenBlockRemove slotted (.inl rfl)
    | recompiling =>
      cases next
      exact Machine.Slotted.codegenBlockRemove slotted (.inr rfl)
  | reset =>
    cases next
    dsimp only
    exact slotted_idle (slotted.codegenReset keeps)
  | write p dirty byteDirty =>
    cases next
    exact slotted.congr (.of_eq rfl rfl)

theorem SlotInv.step {l : Label} (inv : s.SlotInv known) (keeps : s.KeepsSlots l)
    (next : s.step l = some t) : t.SlotInv known :=
  ⟨bounded_step inv.bounded next, slotted_step inv keeps next⟩

/-- In a run whose steps keep the slots, no slot is lost or held twice and every block that may be
entered has its own code. -/
theorem slotsExact_of_run {lookup : WriteLookup} {wasm : WasmTable} {memPages : Nat}
    (unused : wasm.Unused)
    (run : RunOk Dynarec.step KeepsSlots (Dynarec.init lookup wasm memPages) s)
    (later : RunOk Dynarec.step KeepsSlots s t) : SlotsExact t ∧ NoneLost s t := by
  have inv : s.SlotInv fun _ => False :=
    run.invariant (SlotInv.init lookup memPages unused) SlotInv.step
  have start : s.SlotInv s.Allocated :=
    ⟨inv.bounded, { inv.slotted with
      pooled := inv.slotted.pooled.learn fun i => (accounted_iff inv i).mpr }⟩
  have after : t.SlotInv s.Allocated := later.invariant start SlotInv.step
  exact ⟨after.exact, fun i known =>
    (accounted_iff after i).mp (after.slotted.pooled.known i known)⟩

/-- An installation that breaks the condition does lose a slot. -/
theorem SlotInv.lost {endpc : Nat} {endPhys : Option Nat} {usesFpu : Bool} {outcome : Epilogue}
    (inv : s.SlotInv known) (loses : s.machine.LosesSlot s.machine.blockCurrent outcome)
    (next : s.step (.endRecompile endpc endPhys usesFpu outcome) = some t) : ¬NoneLost s t := by
  obtain ⟨m, phase⟩ := s
  simp only [Dynarec.step] at next
  split at next <;> cases next
  rename_i recompiling
  obtain rfl := recompiling
  obtain ⟨m', same, ends⟩ := m.codegenBlockEndRecompile_spec endpc endPhys usesFpu outcome
  have slotted : m'.Slotted (some m.blockCurrent) known := Machine.Slotted.congr inv.slotted same
  obtain ⟨i, before, after⟩ := slotted.lost (same.losesSlot.mpr loses)
  intro noneLost
  rw [funext same.slots, same.wasm] at before
  obtain ⟨nonzero, allocated⟩ := noneLost i ((accounted_iff inv i).mp before)
  rw [← ends] at after
  refine after (allocated.imp_left ?_)
  rintro ⟨n, index⟩
  exact ⟨n, CodeBlock.slot_eq_some.mpr ⟨nonzero, index⟩⟩

/-! ## A block compiled twice -/

theorem unused_start : WasmTable.Unused ⟨fun _ => none, 1, [], []⟩ :=
  ⟨rfl, .nil, nofun, Nat.one_pos⟩

/-- The compiled block's code is written to, and the page is flushed. -/
def flushLabels : List Label := [.write 1 1 fun _ => 0, .checkFlush 1]

/-- The flushed block is compiled again, until its module is to be installed. -/
def recompileLabels : List Label :=
  [.demote ⟨0x1000, 0, 0x1000, 0⟩, .startRecompile ⟨0x1000, 0, 0x1000, 0⟩ 0 [],
    .markCode 0x1000 16]

/-- The installation fails. -/
def failLabel : Label := .endRecompile 0x1010 none false (.install false)

/-- The condition on the steps of `compileLabels` and `flushLabels`. -/
def keepsSlots (_ : Dynarec) : Label → Bool
  | .endRecompile _ _ _ outcome => outcome ≠ .install false
  | .reset => false
  | _ => true

theorem keepsSlots_sound (s : Dynarec) (l : Label) (keeps : keepsSlots s l = true) :
    s.KeepsSlots l := by
  cases l <;> simp_all [keepsSlots, KeepsSlots, Machine.LosesSlot]

/-- The block's slot goes to the pool when its page is flushed. -/
theorem slotsExact_of_flushLabels :
    ∃ s t, RunOk Dynarec.step KeepsSlots start s ∧ RunOk Dynarec.step KeepsSlots s t ∧
      s.Allocated 1 ∧ SlotsExact t ∧ NoneLost s t := by
  have compiled : (execOk Dynarec.step keepsSlots start compileLabels).map
      (fun s => ((s.machine.block 16383).wasmFnIdx,
        (execOk Dynarec.step keepsSlots s flushLabels).isSome)) = some (1, true) := by
    rw [start_eq]
    decide +kernel
  obtain ⟨s, done, both⟩ := Option.map_eq_some_iff.mp compiled
  obtain ⟨index, flushed⟩ := Prod.mk.inj both
  obtain ⟨t, done'⟩ := Option.isSome_iff_exists.mp flushed
  have run := RunOk.of_execOk keepsSlots_sound done
  have later := RunOk.of_execOk keepsSlots_sound done'
  exact ⟨s, t, run, later, ⟨Nat.one_ne_zero, .inl ⟨16383, index⟩⟩,
    slotsExact_of_run unused_start run later⟩

/-- The slot the second installation takes from the pool is lost when it fails. -/
theorem not_noneLost_recompile :
    ¬ ∀ labels labels' s t, exec Dynarec.step start labels = some s →
      exec Dynarec.step s labels' = some t → SlotsExact t ∧ NoneLost s t := by
  intro exact
  have ready : (execOk Dynarec.step keepsSlots start
      (compileLabels ++ flushLabels ++ recompileLabels)).map
        (fun s => (s.phase, s.machine.wasm.freeSlots)) = some (.recompiling, [1]) := by
    rw [start_eq]
    decide +kernel
  obtain ⟨s, done, state⟩ := Option.map_eq_some_iff.mp ready
  obtain ⟨phase, pool⟩ := Prod.mk.inj state
  have inv : s.SlotInv fun _ => False :=
    (RunOk.of_execOk keepsSlots_sound done).invariant (SlotInv.init _ _ unused_start) SlotInv.step
  have loses : s.machine.LosesSlot s.machine.blockCurrent (.install false) :=
    ⟨rfl, .inr (pool ▸ List.cons_ne_nil 1 [])⟩
  have next : s.step failLabel = some _ := if_pos phase
  have whole := exec_of_execOk done
  exact inv.lost loses next (exact _ [failLabel] s _ whole (by rw [exec, next]; rfl)).2

end Dynarec

end PCemWeb.Codegen
