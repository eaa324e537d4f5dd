import PCemWeb.Lib.Layers
import PCemWeb.Memory.Mapping
import Mathlib.Tactic.NormNum

/-!
# Which mapping is on top

`InSync` is the meaning of the three tables: at each granule the last mapping of the list that
covers it and that the state of the granule admits. `mem_mapping_recalc` paints the mappings
that reach into its range in list order, which restores the tables inside the range. It also
paints the part of these mappings below the range, over whatever lies on top there; `Clear`
says that nothing does, and `recalc_inSync_iff` that this is the exact condition.
-/

namespace PCemWeb.Memory

open PCemWeb.Lib

namespace Mem

variable {w : Nat} {s t : Mem w} {id : MapId} {base size g : Nat}

/-! ## The meaning of the tables -/

/-- The mapping is enabled and covers the address. -/
def contains (m : MemMapping w) (a : Nat) : Bool :=
  m.enable ∧ m.base.toNat ≤ a ∧ a < m.base.toNat + m.size.toNat

/-- The mapping has a read handler that the state of the granule admits. -/
def canRead (s : Mem w) (g : Nat) (id : MapId) : Bool :=
  (s.maps id).handlers.reads ∧ memMappingReadAllowed (s.maps id).flags (s.memState g) = some true

/-- The same for writes. -/
def canWrite (s : Mem w) (g : Nat) (id : MapId) : Bool :=
  (s.maps id).handlers.writes ∧
    memMappingWriteAllowed (s.maps id).flags (s.memState g) = some true

/-- The mapping can be read at the granule. -/
def readable (s : Mem w) (g : Nat) (id : MapId) : Bool :=
  contains (s.maps id) (0x4000 * g) && s.canRead g id

/-- The mapping can be written at the granule. -/
def writable (s : Mem w) (g : Nat) (id : MapId) : Bool :=
  contains (s.maps id) (0x4000 * g) && s.canWrite g id

/-- The last readable mapping. -/
def topReader (s : Mem w) (g : Nat) : Option MapId := top (s.readable g) s.list

/-- The last writable mapping. -/
def topWriter (s : Mem w) (g : Nat) : Option MapId := top (s.writable g) s.list

/-- What a granule of `read_mapping` and `_mem_exec` holds when the mapping is on top. -/
def readCell (s : Mem w) (g : Nat) (id : MapId) : Option MapId × BitVec w :=
  (some id, execAt (s.maps id) (0x4000 * g))

/-- The tables hold what recomputing them from the list would give. -/
structure InSync (s : Mem w) : Prop where
  read : ∀ g < 0x40000, s.readMapping g = s.topReader g
  write : ∀ g < 0x40000, s.writeMapping g = s.topWriter g
  exec : ∀ g < 0x40000,
    s.memExec g = ((s.topReader g).map fun id => execAt (s.maps id) (0x4000 * g)).getD 0

/-! ## Loops over granules -/

theorem mem_granules {start stop c : Nat} :
    c ∈ granules start stop ↔ ∃ i, c = start + 0x4000 * i ∧ c < stop := by
  rw [granules, List.mem_range']
  constructor
  · rintro ⟨i, inside, rfl⟩
    exact ⟨i, rfl, by omega⟩
  · rintro ⟨i, rfl, below⟩
    exact ⟨i, by omega, rfl⟩

/-- The granules of a range, by number. -/
theorem granule_mem {start stop : Nat} (aligned : start % 0x4000 = 0) :
    (∃ c ∈ granules start stop, c >>> 14 = g) ↔ start ≤ 0x4000 * g ∧ 0x4000 * g < stop := by
  simp only [mem_granules, Nat.shiftRight_eq_div_pow]
  constructor
  · rintro ⟨c, ⟨i, rfl, below⟩, rfl⟩
    omega
  · rintro ⟨above, below⟩
    exact ⟨0x4000 * g, ⟨g - start / 0x4000, by omega, below⟩, by omega⟩

theorem granule_eq {start stop c : Nat} (aligned : start % 0x4000 = 0)
    (member : c ∈ granules start stop) : 0x4000 * (c >>> 14) = c := by
  obtain ⟨i, rfl, -⟩ := mem_granules.mp member
  rw [Nat.shiftRight_eq_div_pow]
  omega

/-! ## Painting one mapping -/

/-- A granule of `read_mapping` with its granule of `_mem_exec`. -/
def readAt (s : Mem w) (g : Nat) : Option MapId × BitVec w := (s.readMapping g, s.memExec g)

/-- All but the three tables. -/
structure SameSetup (s t : Mem w) : Prop where
  maps : t.maps = s.maps
  list : t.list = s.list
  memState : t.memState = s.memState
  lookups : t.lookups = s.lookups

theorem SameSetup.refl : SameSetup s s := ⟨rfl, rfl, rfl, rfl⟩

theorem SameSetup.trans {u : Mem w} (first : SameSetup s t) (second : SameSetup t u) :
    SameSetup s u :=
  ⟨second.maps.trans first.maps, second.list.trans first.list,
    second.memState.trans first.memState, second.lookups.trans first.lookups⟩

theorem SameSetup.canRead (same : SameSetup s t) : t.canRead = s.canRead := by
  funext g id
  simp only [Mem.canRead, same.maps, same.memState]

theorem SameSetup.canWrite (same : SameSetup s t) : t.canWrite = s.canWrite := by
  funext g id
  simp only [Mem.canWrite, same.maps, same.memState]

theorem SameSetup.readCell (same : SameSetup s t) : t.readCell = s.readCell := by
  funext g id
  simp only [Mem.readCell, same.maps]

/-- The mapping is painted at the granules `on`, as far as it is admitted there. -/
structure Paints (on : Nat → Bool) (id : MapId) (s t : Mem w) : Prop where
  same : SameSetup s t
  read : ∀ g, t.readAt g = if on g && s.canRead g id then s.readCell g id else s.readAt g
  write : ∀ g, t.writeMapping g = if on g && s.canWrite g id then some id else s.writeMapping g

theorem Paints.nothing : Paints (fun _ => false) id s s :=
  ⟨.refl, fun _ => rfl, fun _ => rfl⟩

theorem Paints.trans {on on' : Nat → Bool} {u : Mem w} (first : Paints on id s t)
    (second : Paints on' id t u) : Paints (fun g => on g || on' g) id s u := by
  refine ⟨first.same.trans second.same, fun g => ?_, fun g => ?_⟩
  · rw [second.read, first.read, first.same.canRead, first.same.readCell]
    cases on g <;> cases on' g <;> cases s.canRead g id <;> rfl
  · rw [second.write, first.write, first.same.canWrite]
    cases on g <;> cases on' g <;> cases s.canWrite g id <;> rfl

theorem Paints.congr {on on' : Nat → Bool} (paints : Paints on id s t)
    (same : ∀ g, on' g = on g) : Paints on' id s t :=
  ⟨paints.same, fun g => same g ▸ paints.read g, fun g => same g ▸ paints.write g⟩

theorem mapRead_same {c : Nat} (done : mapRead id s c = some t) : SameSetup s t := by
  unfold mapRead at done
  split at done
  · obtain ⟨allowed, -, rfl⟩ := Option.map_eq_some_iff.mp done
    cases allowed with
    | false => exact .refl
    | true => exact ⟨rfl, rfl, rfl, rfl⟩
  · cases done
    exact .refl

theorem mapWrite_same {c : Nat} (done : mapWrite id s c = some t) : SameSetup s t := by
  unfold mapWrite at done
  split at done
  · obtain ⟨allowed, -, rfl⟩ := Option.map_eq_some_iff.mp done
    cases allowed with
    | false => exact .refl
    | true => exact ⟨rfl, rfl, rfl, rfl⟩
  · cases done
    exact .refl

theorem mapGranule_same {c : Nat} (done : mapGranule id s c = some t) : SameSetup s t := by
  obtain ⟨mid, readDone, writeDone⟩ := Option.bind_eq_some_iff.mp done
  exact (mapRead_same readDone).trans (mapWrite_same writeDone)

theorem paints_mapRead {c : Nat} (aligned : 0x4000 * (c >>> 14) = c)
    (done : mapRead id s c = some t) :
    t.writeMapping = s.writeMapping ∧ ∀ g, t.readAt g =
      if (g == c >>> 14) && s.canRead g id then s.readCell g id else s.readAt g := by
  unfold mapRead at done
  split at done
  · rename_i reads
    obtain ⟨allowed, admitted, rfl⟩ := Option.map_eq_some_iff.mp done
    cases allowed with
    | false =>
      refine ⟨rfl, fun g => ?_⟩
      by_cases here : g = c >>> 14
      · simp [here, canRead, reads, admitted]
      · simp [here]
    | true =>
      refine ⟨rfl, fun g => ?_⟩
      by_cases here : g = c >>> 14
      · simp [here, canRead, reads, admitted, readAt, readCell, aligned]
      · simp [here, readAt]
  · rename_i noReads
    obtain rfl : s = t := Option.some.inj done
    refine ⟨rfl, fun g => ?_⟩
    simp [canRead, noReads]

theorem paints_mapWrite {c : Nat} (done : mapWrite id s c = some t) :
    t.readAt = s.readAt ∧ ∀ g, t.writeMapping g =
      if (g == c >>> 14) && s.canWrite g id then some id else s.writeMapping g := by
  unfold mapWrite at done
  split at done
  · rename_i writes
    obtain ⟨allowed, admitted, rfl⟩ := Option.map_eq_some_iff.mp done
    cases allowed with
    | false =>
      refine ⟨rfl, fun g => ?_⟩
      by_cases here : g = c >>> 14
      · simp [here, canWrite, writes, admitted]
      · simp [here]
    | true =>
      refine ⟨rfl, fun g => ?_⟩
      by_cases here : g = c >>> 14
      · simp [here, canWrite, writes, admitted]
      · simp [here]
  · rename_i noWrites
    obtain rfl : s = t := Option.some.inj done
    refine ⟨rfl, fun g => ?_⟩
    simp [canWrite, noWrites]

theorem paints_mapGranule {c : Nat} (aligned : 0x4000 * (c >>> 14) = c)
    (done : mapGranule id s c = some t) : Paints (fun g => g == c >>> 14) id s t := by
  obtain ⟨mid, readDone, writeDone⟩ := Option.bind_eq_some_iff.mp done
  obtain ⟨sameWrite, read⟩ := paints_mapRead aligned readDone
  obtain ⟨sameRead, write⟩ := paints_mapWrite writeDone
  refine ⟨mapGranule_same done, fun g => ?_, fun g => ?_⟩
  · rw [sameRead, read]
  · rw [write, sameWrite, (mapRead_same readDone).canWrite]

/-- The loop over the granules of one mapping. -/
theorem paints_loop {cs : List Nat} (aligned : ∀ c ∈ cs, 0x4000 * (c >>> 14) = c)
    (done : cs.foldlM (mapGranule id) s = some t) :
    Paints (fun g => cs.any (· >>> 14 == g)) id s t := by
  induction cs generalizing s with
  | nil =>
    obtain rfl : s = t := Option.some.inj done
    exact .nothing
  | cons c cs ih =>
    rw [List.foldlM_cons] at done
    obtain ⟨mid, first, rest⟩ := Option.bind_eq_some_iff.mp done
    have head := paints_mapGranule (aligned c (.head _)) first
    have tail := ih (fun b inRest => aligned b (.tail _ inRest)) rest
    refine (head.trans tail).congr fun g => ?_
    rw [List.any_cons, Bool.beq_comm]

/-- The loop begins at the mapping's own base. -/
theorem startOf_eq (m : MemMapping w) (base : Nat) : startOf m base = m.base.toNat := by
  unfold startOf
  dsimp only
  split_ifs <;> omega

/-- The mapping is painted when it reaches into the range, up to the end of the range. -/
def among (s : Mem w) (base size : Nat) (g : Nat) (id : MapId) : Bool :=
  reaches (s.maps id) base size && decide (0x4000 * g < base + size)

/-- The bases of the mappings are multiples of 16 KB. -/
def MapsAligned (s : Mem w) : Prop :=
  ∀ id, (s.maps id).base.toNat % 0x4000 = 0

theorem paints_mapOne (aligned : s.MapsAligned) (done : mapOne base size s id = some t) :
    Paints (fun g => s.among base size g id && contains (s.maps id) (0x4000 * g)) id s t := by
  unfold mapOne at done
  dsimp only at done
  rw [startOf_eq] at done
  split at done
  · rename_i inRange
    refine (paints_loop (fun c => granule_eq (aligned id)) done).congr fun g => ?_
    have reached := inRange
    simp only [reaches, decide_eq_true_eq] at reached
    obtain ⟨enabled, low, high⟩ := reached
    rw [Bool.eq_iff_iff, List.any_eq_true]
    simp only [beq_iff_eq, granule_mem (aligned id)]
    simp only [among, inRange, contains, enabled, endOf, true_and, Bool.true_and,
      Bool.and_eq_true, decide_eq_true_eq]
    split <;> omega
  · rename_i outside
    obtain rfl : s = t := Option.some.inj done
    refine Paints.nothing.congr fun g => ?_
    simp [among, outside]

/-! ## Painting the list -/

theorem foldlM_same {α : Type} {turn : Mem w → α → Option (Mem w)}
    (keeps : ∀ {s t a}, turn s a = some t → SameSetup s t) {l : List α}
    (done : l.foldlM turn s = some t) : SameSetup s t := by
  induction l generalizing s with
  | nil =>
    cases done
    exact .refl
  | cons a l ih =>
    rw [List.foldlM_cons] at done
    obtain ⟨mid, first, rest⟩ := Option.bind_eq_some_iff.mp done
    exact (keeps first).trans (ih rest)

theorem mapOne_same (done : mapOne base size s id = some t) : SameSetup s t := by
  unfold mapOne at done
  dsimp only at done
  split at done
  · exact foldlM_same mapGranule_same done
  · cases done
    exact .refl

theorem SameSetup.readable (same : SameSetup s t) : t.readable = s.readable := by
  funext g id
  simp only [Mem.readable, same.maps, same.canRead]

theorem SameSetup.writable (same : SameSetup s t) : t.writable = s.writable := by
  funext g id
  simp only [Mem.writable, same.maps, same.canWrite]

theorem SameSetup.among (same : SameSetup s t) : t.among = s.among := by
  funext base size g id
  simp only [Mem.among, same.maps]

theorem SameSetup.mapsAligned (same : SameSetup s t) (aligned : s.MapsAligned) :
    t.MapsAligned :=
  fun id => same.maps ▸ aligned id

theorem painted_list {l : List MapId} (aligned : s.MapsAligned)
    (done : l.foldlM (mapOne base size) s = some t) :
    SameSetup s t ∧ ∀ g,
      Painted (fun id => s.among base size g id && s.readable g id) (s.readCell g) l
        (s.readAt g) (t.readAt g) ∧
      Painted (fun id => s.among base size g id && s.writable g id) some l
        (s.writeMapping g) (t.writeMapping g) := by
  induction l generalizing s with
  | nil =>
    obtain rfl : s = t := Option.some.inj done
    exact ⟨.refl, fun g => ⟨.nil, .nil⟩⟩
  | cons id l ih =>
    rw [List.foldlM_cons] at done
    obtain ⟨mid, first, rest⟩ := Option.bind_eq_some_iff.mp done
    have head := paints_mapOne aligned first
    obtain ⟨same, tail⟩ := ih (head.same.mapsAligned aligned) rest
    rw [head.same.among, head.same.readable, head.same.writable, head.same.readCell] at tail
    refine ⟨head.same.trans same, fun g => ⟨.cons ?_ (tail g).1, .cons ?_ (tail g).2⟩⟩
    · rw [head.read, Bool.and_assoc]
      rfl
    · rw [head.write, Bool.and_assoc]
      rfl

/-! ## Recalculation -/

theorem clear_loop (cs : List Nat) : SameSetup s (cs.foldl clearGranule s) ∧ ∀ g,
    (cs.foldl clearGranule s).readAt g =
      (if cs.any (· >>> 14 == g) then (none, 0) else s.readAt g) ∧
    (cs.foldl clearGranule s).writeMapping g =
      (if cs.any (· >>> 14 == g) then none else s.writeMapping g) := by
  induction cs generalizing s with
  | nil => exact ⟨.refl, fun g => ⟨rfl, rfl⟩⟩
  | cons c cs ih =>
    rw [List.foldl_cons]
    obtain ⟨same, cleared⟩ := ih (s := s.clearGranule c)
    have first : SameSetup s (s.clearGranule c) := ⟨rfl, rfl, rfl, rfl⟩
    refine ⟨first.trans same, fun g => ?_⟩
    rw [(cleared g).1, (cleared g).2, List.any_cons]
    by_cases here : c >>> 14 = g
    · subst here
      simp [clearGranule, readAt]
    · have there : g ≠ c >>> 14 := fun same => here same.symm
      simp [clearGranule, readAt, here, there]

/-- What a recalculation leaves besides the tables. -/
theorem recalc_setup (done : s.memMappingRecalc base size = some t) :
    t.maps = s.maps ∧ t.list = s.list ∧ t.memState = s.memState ∧
      t.lookups = if size = 0 then s.lookups else s.lookups.flushmmucacheCr3 := by
  unfold memMappingRecalc at done
  split at done
  · rename_i empty
    cases done
    exact ⟨rfl, rfl, rfl, (if_pos empty).symm⟩
  · rename_i nonempty
    obtain ⟨painted, loop, rfl⟩ := Option.map_eq_some_iff.mp done
    have same := (clear_loop (s := s) (granules base (base + size))).1.trans
      (foldlM_same mapOne_same loop)
    refine ⟨same.maps, same.list, same.memState, ?_⟩
    dsimp only
    rw [if_neg nonempty, same.lookups]

/-- Inside the range the tables start from nothing, outside from what they hold. -/
def cleared {β : Type} (base size g : Nat) (nothing old : β) : β :=
  if base ≤ 0x4000 * g ∧ 0x4000 * g < base + size then nothing else old

/-- What a recalculation leaves at each granule. -/
theorem recalc_tables (aligned : s.MapsAligned) (rangeAligned : base % 0x4000 = 0)
    (done : s.memMappingRecalc base size = some t) (nonempty : size ≠ 0) :
    ∀ g,
      Painted (fun id => s.among base size g id && s.readable g id) (s.readCell g) s.list
        (cleared base size g (none, 0) (s.readAt g)) (t.readAt g) ∧
      Painted (fun id => s.among base size g id && s.writable g id) some s.list
        (cleared base size g none (s.writeMapping g)) (t.writeMapping g) := by
  unfold memMappingRecalc at done
  rw [if_neg nonempty] at done
  obtain ⟨painted, loop, rfl⟩ := Option.map_eq_some_iff.mp done
  obtain ⟨same, clear⟩ := clear_loop (s := s) (granules base (base + size))
  rw [same.list] at loop
  obtain ⟨-, paint⟩ := painted_list (same.mapsAligned aligned) loop
  rw [same.among, same.readable, same.writable, same.readCell] at paint
  intro g
  have inside : (granules base (base + size)).any (· >>> 14 == g) = true ↔
      base ≤ 0x4000 * g ∧ 0x4000 * g < base + size := by
    rw [List.any_eq_true]
    simp only [beq_iff_eq, granule_mem rangeAligned]
  have readStart := (clear g).1.trans (if_congr inside rfl rfl)
  have writeStart := (clear g).2.trans (if_congr inside rfl rfl)
  have granule := paint g
  rw [readStart, writeStart] at granule
  simp only [cleared, readAt] at granule ⊢
  exact granule

/-! ## One granule -/

/-- The tables are right at one granule. -/
def SyncedAt (s : Mem w) (g : Nat) : Prop :=
  s.readAt g = ((s.topReader g).map (s.readCell g)).getD (none, 0) ∧
    s.writeMapping g = s.topWriter g

theorem inSync_iff : s.InSync ↔ ∀ g < 0x40000, s.SyncedAt g := by
  have split (g : Nat) : s.SyncedAt g ↔ s.readMapping g = s.topReader g ∧
      s.memExec g = ((s.topReader g).map fun id => execAt (s.maps id) (0x4000 * g)).getD 0 ∧
      s.writeMapping g = s.topWriter g := by
    unfold SyncedAt readAt
    cases s.topReader g <;> simp [readCell, and_assoc]
  constructor
  · intro inSync g inTable
    exact (split g).mpr ⟨inSync.read g inTable, inSync.exec g inTable, inSync.write g inTable⟩
  · intro synced
    refine ⟨fun g inTable => ?_, fun g inTable => ?_, fun g inTable => ?_⟩
    · exact ((split g).mp (synced g inTable)).1
    · exact ((split g).mp (synced g inTable)).2.2
    · exact ((split g).mp (synced g inTable)).2.1

/-- Below the range: wherever a mapping that reaches into the range is visible, one that does is
on top. -/
def ClearAt (s : Mem w) (base size g : Nat) : Prop :=
  (∀ id ∈ s.list, s.readable g id = true → reaches (s.maps id) base size = true →
    (s.topReader g).all (fun last => reaches (s.maps last) base size) = true) ∧
  (∀ id ∈ s.list, s.writable g id = true → reaches (s.maps id) base size = true →
    (s.topWriter g).all (fun last => reaches (s.maps last) base size) = true)

/-- Nothing that stays out of the range lies over a mapping that reaches into it from below. -/
def Clear (s : Mem w) (base size : Nat) : Prop :=
  size ≠ 0 → ∀ g < base / 0x4000, s.ClearAt base size g

/-- Painting over a background that was right, one table. -/
theorem painted_over {β : Type} {visible among : MapId → Bool} {value : MapId → β} {l : List MapId}
    {nothing new : β} (distinct : ∀ a b, value a = value b → a = b)
    (differs : ∀ a, value a ≠ nothing)
    (painted : Painted (fun id => among id && visible id) value l
      (((top visible l).map value).getD nothing) new) :
    new = ((top visible l).map value).getD nothing ↔
      ∀ b ∈ l, visible b = true → among b = true → (top visible l).all among = true := by
  rw [← top_repaint, show new = _ from painted]
  cases top (fun id => among id && visible id) l with
  | none => simp
  | some a =>
    cases top visible l with
    | none => simp [differs]
    | some b => simpa using ⟨distinct a b, congrArg value⟩

theorem readCell_injective (s : Mem w) (g : Nat) (a b : MapId)
    (same : s.readCell g a = s.readCell g b) : a = b := by
  exact Option.some.inj (congrArg Prod.fst same)

/-- A mapping that covers a granule of the range reaches into the range. -/
theorem among_contains (inside : base ≤ 0x4000 * g ∧ 0x4000 * g < base + size) (id : MapId) :
    (s.among base size g id && contains (s.maps id) (0x4000 * g)) =
      contains (s.maps id) (0x4000 * g) := by
  cases covers : contains (s.maps id) (0x4000 * g) with
  | false => rw [Bool.and_false]
  | true =>
    simp only [contains, decide_eq_true_eq] at covers
    obtain ⟨enabled, low, high⟩ := covers
    have reached : (s.maps id).base.toNat < base + size ∧
        base < (s.maps id).base.toNat + (s.maps id).size.toNat := by omega
    simp [among, reaches, enabled, reached, inside.2]

theorem top_among (inside : base ≤ 0x4000 * g ∧ 0x4000 * g < base + size)
    (admits : MapId → Bool) (l : List MapId) :
    top (fun id => s.among base size g id &&
        (contains (s.maps id) (0x4000 * g) && admits id)) l =
      top (fun id => contains (s.maps id) (0x4000 * g) && admits id) l := by
  refine top_congr fun id _ => ?_
  rw [← Bool.and_assoc, among_contains inside]

theorem top_past (past : base + size ≤ 0x4000 * g) (visible : MapId → Bool) (l : List MapId) :
    top (fun id => s.among base size g id && visible id) l = none := by
  refine top_eq_none.mpr fun id _ => ?_
  simp [among, past]

/-- A granule after a recalculation. -/
theorem recalc_syncedAt (aligned : s.MapsAligned) (rangeAligned : base % 0x4000 = 0)
    (done : s.memMappingRecalc base size = some t) (nonempty : size ≠ 0)
    (outside : ¬ (base ≤ 0x4000 * g ∧ 0x4000 * g < base + size) → s.SyncedAt g) :
    t.SyncedAt g ↔ (0x4000 * g < base → s.ClearAt base size g) := by
  obtain ⟨maps, list, memState, -⟩ := recalc_setup done
  obtain ⟨readPainted, writePainted⟩ := recalc_tables aligned rangeAligned done nonempty g
  have sameReader : t.topReader g = s.topReader g := by
    unfold topReader
    rw [list]
    refine top_congr fun id _ => ?_
    simp only [readable, canRead, maps, memState]
  have sameWriter : t.topWriter g = s.topWriter g := by
    unfold topWriter
    rw [list]
    refine top_congr fun id _ => ?_
    simp only [writable, canWrite, maps, memState]
  have sameCell : t.readCell g = s.readCell g := by
    funext id
    simp only [readCell, maps]
  unfold SyncedAt
  rw [sameReader, sameWriter, sameCell]
  rcases Nat.lt_or_ge (0x4000 * g) base with below | above
  · -- below the range: the reaching mappings are painted over what was right
    obtain ⟨readBefore, writeBefore⟩ := outside (by omega)
    have outOfRange : ¬ (base ≤ 0x4000 * g ∧ 0x4000 * g < base + size) := by omega
    have reaching (id : MapId) : s.among base size g id = reaches (s.maps id) base size := by
      have inEnd : 0x4000 * g < base + size := by omega
      simp [among, inEnd]
    simp only [cleared, if_neg outOfRange, reaching] at readPainted writePainted
    rw [readBefore] at readPainted
    have readIff := painted_over (readCell_injective s g) (by simp [readCell]) readPainted
    have writeOld : s.writeMapping g = ((s.topWriter g).map some).getD none := by
      rw [writeBefore]
      cases s.topWriter g <;> rfl
    rw [writeOld] at writePainted
    have writeIff := painted_over (fun a b => Option.some.inj) (by simp) writePainted
    have writeNew : ((s.topWriter g).map some).getD none = s.topWriter g := by
      cases s.topWriter g <;> rfl
    unfold topReader
    rw [readIff, ← writeNew, topWriter, writeIff]
    exact ⟨fun clear _ => clear, fun clear => clear below⟩
  · rcases Nat.lt_or_ge (0x4000 * g) (base + size) with inside | past
    · -- inside the range every visible mapping is painted over nothing
      have inRange : base ≤ 0x4000 * g ∧ 0x4000 * g < base + size := ⟨above, inside⟩
      have readNew := readPainted
      have writeNew := writePainted
      simp only [Painted, cleared, if_pos inRange, readable, writable, top_among inRange]
        at readNew writeNew
      refine ⟨fun _ below => absurd below (by omega), fun _ => ⟨readNew, ?_⟩⟩
      rw [writeNew]
      unfold topWriter writable
      cases top _ s.list <;> rfl
    · -- past the range nothing is painted
      have outOfRange : ¬ (base ≤ 0x4000 * g ∧ 0x4000 * g < base + size) := by omega
      simp only [Painted, cleared, if_neg outOfRange, top_past past, Option.map_none,
        Option.getD_none] at readPainted writePainted
      rw [readPainted, writePainted]
      exact ⟨fun _ below => absurd below (by omega), fun _ => outside outOfRange⟩

/-! ## Recalculation restores the tables -/

/-- The tables are right after a recalculation exactly when nothing was overlaid below it. -/
theorem recalc_inSync_iff (aligned : s.MapsAligned) (rangeAligned : base % 0x4000 = 0)
    (within : base + size ≤ 0x100000000) (done : s.memMappingRecalc base size = some t)
    (outside : ∀ g < 0x40000, ¬ (base ≤ 0x4000 * g ∧ 0x4000 * g < base + size) →
      s.SyncedAt g) : t.InSync ↔ s.Clear base size := by
  by_cases empty : size = 0
  · subst empty
    obtain rfl : s = t := by
      rw [memMappingRecalc, if_pos rfl] at done
      exact Option.some.inj done
    have synced : s.InSync := inSync_iff.mpr fun g inTable => outside g inTable (by omega)
    exact ⟨fun _ nonempty => absurd rfl nonempty, fun _ => synced⟩
  · rw [inSync_iff]
    constructor
    · intro synced _ g below
      have inTable : g < 0x40000 := by omega
      exact (recalc_syncedAt aligned rangeAligned done empty (outside g inTable)).mp
        (synced g inTable) (by omega)
    · intro clear g inTable
      refine (recalc_syncedAt aligned rangeAligned done empty (outside g inTable)).mpr ?_
      intro below
      exact clear empty g (by omega)

end Mem

end PCemWeb.Memory
