import Mathlib.Data.Finset.Range
import PCemWeb.Codegen.BlockEffects
import PCemWeb.Lib.Ownership

/-!
# Slots of the function table

A block holds at most one slot, slots given back wait in `free_slots`, and the table grows when
no slot waits. `Pooled` is what releasing and installing keep of blocks and table together,
whatever the blocks are otherwise.
-/

namespace PCemWeb.Codegen

open PCemWeb.Lib

/-- The slot a block holds. -/
def CodeBlock.slot (b : CodeBlock) : Option Nat :=
  if b.wasmFnIdx = 0 then none else some b.wasmFnIdx

theorem CodeBlock.slot_eq_none {b : CodeBlock} : b.slot = none ↔ b.wasmFnIdx = 0 := by
  unfold slot
  split <;> simp [*]

theorem CodeBlock.slot_eq_some {b : CodeBlock} {i : Nat} :
    b.slot = some i ↔ i ≠ 0 ∧ b.wasmFnIdx = i := by
  unfold slot
  split <;> grind

/-- Slots and their holders; the slots in `known` are not lost. -/
structure Pooled (holds : Nat → Option Nat) (w : WasmTable) (known : Nat → Prop) : Prop
    extends Exclusive holds w.freeSlots where
  bound : ∀ i, Accounted holds w.freeSlots i → i ≠ 0 ∧ i < w.length
  known : ∀ i, known i → Accounted holds w.freeSlots i
  range : ∀ {n i}, holds n = some i → n < blockSize
  load : load (Finset.range blockSize) holds w.freeSlots ≤ blockSize
  jsNodup : w.jsFree.Nodup
  jsNew : ∀ i ∈ w.jsFree, i ≠ 0 ∧ i < w.length ∧ ¬Accounted holds w.freeSlots i
  nonempty : 0 < w.length

/-- The table before any block has a slot. -/
structure WasmTable.Unused (w : WasmTable) : Prop where
  freeSlots : w.freeSlots = []
  jsNodup : w.jsFree.Nodup
  jsFree : ∀ i ∈ w.jsFree, i ≠ 0 ∧ i < w.length
  nonempty : 0 < w.length

section

variable {holds : Nat → Option Nat} {w : WasmTable} {known : Nat → Prop} {nr i : Nat}
  {mod : WasmModule}

theorem WasmTable.Unused.pooled (unused : w.Unused) (idle : ∀ n, holds n = none) :
    Pooled holds w fun _ => False := by
  have new (i : Nat) : ¬Accounted holds w.freeSlots i := by
    rintro (⟨a, held⟩ | inPool)
    · cases (idle a).symm.trans held
    · rw [unused.freeSlots] at inPool
      cases inPool
  refine ⟨⟨?_, ?_, ?_⟩, fun i accounted => absurd accounted (new i), nofun, ?_, ?_, unused.jsNodup,
    fun i inPool => ⟨(unused.jsFree i inPool).1, (unused.jsFree i inPool).2, new i⟩, unused.nonempty⟩
  case refine_1 => exact fun held => absurd (.inl ⟨_, held⟩) (new _)
  case refine_2 => exact fun held => absurd (.inl ⟨_, held⟩) (new _)
  case refine_3 => rw [unused.freeSlots]; exact .nil
  case refine_4 => exact fun held => absurd (.inl ⟨_, held⟩) (new _)
  case refine_5 =>
    rw [unused.freeSlots]
    exact load_nil.trans (Finset.card_range _).le

/-- Known slots may be forgotten, and accounted ones known. -/
theorem Pooled.learn {known' : Nat → Prop} (pooled : Pooled holds w known)
    (accounted : ∀ i, known' i → Accounted holds w.freeSlots i) : Pooled holds w known' :=
  { pooled with known := accounted }

/-- The pool has room for a slot that is held. -/
theorem Pooled.release_eq (pooled : Pooled holds w known) (held : holds nr = some i) :
    w.release i = { w with freeSlots := i :: w.freeSlots } := by
  have inRange : nr ∈ Finset.range blockSize := Finset.mem_range.mpr (pooled.range held)
  have card := Finset.card_range blockSize
  have room : w.freeSlots.length < blockSize :=
    card ▸ room_of_load held inRange (pooled.load.trans card.ge)
  rw [WasmTable.release, if_neg (pooled.bound i (.inl ⟨nr, held⟩)).1, if_pos room]

/-- A released slot waits in the pool. -/
theorem Pooled.release (pooled : Pooled holds w known) (held : holds nr = some i) :
    Pooled (Function.update holds nr none) (w.release i) known := by
  have inRange : nr ∈ Finset.range blockSize := Finset.mem_range.mpr (pooled.range held)
  rw [pooled.release_eq held]
  exact {
    pooled.toExclusive.release held with
    bound := fun k accounted => pooled.bound k ((accounted_release held).mp accounted)
    known := fun k isKnown => (accounted_release held).mpr (pooled.known k isKnown)
    range := fun held' => pooled.range (held_of_released held').2
    load := (load_release held inRange).trans_le pooled.load
    jsNodup := pooled.jsNodup
    jsNew := fun k inPool => by
      obtain ⟨nonzero, bound, new⟩ := pooled.jsNew k inPool
      exact ⟨nonzero, bound, fun accounted => new ((accounted_release held).mp accounted)⟩
    nonempty := pooled.nonempty }

/-! ## Installing a module -/

/-- A module is installed in a slot that `holds` and `w` do not have, and the slot's new holder
is the block it was compiled for. -/
structure Installed (holds : Nat → Option Nat) (w : WasmTable) (known : Nat → Prop) (nr : Nat)
    (mod : WasmModule) (r : Nat × WasmTable) : Prop where
  pooled : Pooled (Function.update holds nr (some r.1)) r.2 known
  module : r.2.table r.1 = some mod
  others : ∀ n ≠ nr, ∀ i, holds n = some i → r.2.table i = w.table i

/-- The module is in a slot that was new, or that has just left the pool. -/
theorem Installed.of_new {w' : WasmTable} (pooled : Pooled (Function.update holds nr (some i)) w' known)
    (table : w'.table = Function.update w.table i (some mod)) :
    Installed holds w known nr mod (i, w') where
  pooled := pooled
  module := table ▸ Function.update_self ..
  others n other j held := by
    have held' : Function.update holds nr (some i) n = some j :=
      (Function.update_of_ne other ..).trans held
    have apart : j ≠ i := by
      rintro rfl
      exact other (pooled.unique held' (Function.update_self ..))
    exact table ▸ Function.update_of_ne apart ..

/-- A slot out of the pool. -/
theorem Pooled.reuse {rest : List Nat} (pooled : Pooled holds w known) (idle : holds nr = none)
    (inRange : nr < blockSize) (top : w.freeSlots = i :: rest) :
    Pooled (Function.update holds nr (some i))
      { w with freeSlots := rest, table := Function.update w.table i (some mod) } known := by
  obtain ⟨exclusive, bound, isKnown, range, load, jsNodup, jsNew, nonempty⟩ := pooled
  rw [top] at exclusive bound isKnown load jsNew
  have same (j : Nat) : Accounted (Function.update holds nr (some i)) rest j ↔
      Accounted holds (i :: rest) j := (accounted_acquire idle).trans accounted_cons.symm
  obtain ⟨popped, new⟩ := exclusive.pop
  exact {
    popped.acquire new with
    bound := fun j accounted => bound j ((same j).mp accounted)
    known := fun j knownSlot => (same j).mpr (isKnown j knownSlot)
    range := fun held => by
      rcases held_of_taken held with ⟨rfl, -⟩ | ⟨-, held⟩
      · exact inRange
      · exact range held
    load := load_take.trans load
    jsNodup := jsNodup
    jsNew := fun j inPool => by
      obtain ⟨nonzero, fits, notAccounted⟩ := jsNew j inPool
      exact ⟨nonzero, fits, fun accounted => notAccounted ((same j).mp accounted)⟩
    nonempty := nonempty }

/-- A slot from the other pool, or at the end of the table. -/
theorem Pooled.grow {w' : WasmTable} (pooled : Pooled holds w known) (idle : holds nr = none)
    (inRange : nr < blockSize) (empty : w.freeSlots = []) (empty' : w'.freeSlots = [])
    (new : ¬Accounted holds w.freeSlots i) (nonzero : i ≠ 0) (fits : i < w'.length)
    (length : w.length ≤ w'.length) (js : w'.jsFree.Sublist w.jsFree) (notPooled : i ∉ w'.jsFree) :
    Pooled (Function.update holds nr (some i)) w' known := by
  obtain ⟨exclusive, bound, isKnown, range, -, jsNodup, jsNew, nonempty⟩ := pooled
  rw [empty] at exclusive bound isKnown jsNew new
  have acquired (j : Nat) : Accounted (Function.update holds nr (some i)) [] j ↔
      j = i ∨ Accounted holds [] j := accounted_acquire idle
  refine ⟨empty' ▸ exclusive.acquire new, ?_, ?_, ?_, ?_, jsNodup.sublist js, ?_,
    nonempty.trans_le length⟩
  case refine_1 =>
    intro j accounted
    rcases (acquired j).mp (empty' ▸ accounted) with rfl | before
    · exact ⟨nonzero, fits⟩
    · exact ⟨(bound j before).1, (bound j before).2.trans_le length⟩
  case refine_2 =>
    intro j knownSlot
    exact empty' ▸ (acquired j).mpr (.inr (isKnown j knownSlot))
  case refine_3 =>
    intro n j held
    rcases held_of_taken held with ⟨rfl, -⟩ | ⟨-, held⟩
    · exact inRange
    · exact range held
  case refine_4 =>
    rw [empty']
    exact load_nil.trans (Finset.card_range _).le
  case refine_5 =>
    intro j inPool
    obtain ⟨nonzero', fits', notAccounted⟩ := jsNew j (js.subset inPool)
    refine ⟨nonzero', fits'.trans_le length, fun accounted => ?_⟩
    rcases (acquired j).mp (empty' ▸ accounted) with rfl | before
    · exact notPooled inPool
    · exact notAccounted before

/-- The slot on top of the pool is reused, if there is one. -/
theorem Pooled.install (pooled : Pooled holds w known) (idle : holds nr = none)
    (inRange : nr < blockSize) (mod : WasmModule) :
    Installed holds w known nr mod
      ({ w with freeSlots := w.freeSlots.tail }.installAt mod (w.freeSlots.headD 0)) := by
  rcases pool : w.freeSlots with _ | ⟨i, rest⟩
  · rcases js : w.jsFree with _ | ⟨i, rest⟩
    · have new : ¬Accounted holds w.freeSlots w.length := fun accounted =>
        absurd (pooled.bound _ accounted).2 (Nat.lt_irrefl _)
      have grown : Pooled (Function.update holds nr (some w.length))
          { w with freeSlots := [], table := Function.update w.table w.length (some mod),
                   length := w.length + 1 } known :=
        pooled.grow idle inRange pool rfl new pooled.nonempty.ne' (Nat.lt_succ_self _)
          (Nat.le_succ _) (.refl _) (by rw [js]; exact List.not_mem_nil)
      have result : Installed holds w known nr mod _ := .of_new grown rfl
      simpa [WasmTable.installAt, js] using result
    · obtain ⟨nonzero, fits, new⟩ := pooled.jsNew i (js ▸ .head _)
      have nodup := pooled.jsNodup
      rw [js] at nodup
      have grown : Pooled (Function.update holds nr (some i))
          { w with freeSlots := [], table := Function.update w.table i (some mod),
                   jsFree := rest } known :=
        pooled.grow idle inRange pool rfl new nonzero fits (Nat.le_refl _)
          (js ▸ List.sublist_cons_self ..) (List.nodup_cons.mp nodup).1
      have result : Installed holds w known nr mod _ := .of_new grown rfl
      simpa [WasmTable.installAt, js] using result
  · have reused : 0 < i ∧ i < w.length := by
      obtain ⟨nonzero, fits⟩ := pooled.bound i (.inr (pool ▸ .head _))
      exact ⟨Nat.pos_of_ne_zero nonzero, fits⟩
    have result : Installed holds w known nr mod _ :=
      .of_new (pooled.reuse idle inRange pool) rfl
    simpa [WasmTable.installAt, reused] using result

end

end PCemWeb.Codegen
