import PCemWeb.Lib.Run
import PCemWeb.Memory.MappingExact

/-!
# Runs of mapping operations

Each operation changes a mapping, the list or the states, and recalculates the range of the
change; outside that range the tables keep their meaning. So they are right after every run
whose recalculated ranges are `Clear`.
-/

namespace PCemWeb.Memory

open PCemWeb.Lib

namespace Mem

variable {w : Nat} {s t : Mem w} {id : MapId} {base size g : Nat}

/-! ## Changes outside which the tables stay right -/

theorem contains_eq_false {m : MemMapping w} {a : Nat}
    (out : ¬ (m.base.toNat ≤ a ∧ a < m.base.toNat + m.size.toNat)) : contains m a = false := by
  unfold contains
  exact decide_eq_false fun covers => out covers.2

/-- A granule keeps its meaning when the same mappings are visible there with the same cells. -/
theorem SyncedAt.congr (synced : s.SyncedAt g) (sameRead : t.readAt g = s.readAt g)
    (sameWrite : t.writeMapping g = s.writeMapping g) (reader : t.topReader g = s.topReader g)
    (writer : t.topWriter g = s.topWriter g)
    (cell : ∀ id, s.topReader g = some id → t.readCell g id = s.readCell g id) :
    t.SyncedAt g := by
  obtain ⟨read, write⟩ := synced
  refine ⟨?_, by rw [sameWrite, writer, write]⟩
  rw [sameRead, reader, read]
  cases found : s.topReader g with
  | none => rfl
  | some id => exact (cell id found).symm

theorem setMap_syncedAt {m : MemMapping w} (synced : s.SyncedAt g)
    (before : id ∈ s.list → contains (s.maps id) (0x4000 * g) = false)
    (after : contains m (0x4000 * g) = false) : (s.setMap id m).SyncedAt g := by
  have other (b : MapId) (ne : b ≠ id) : (s.setMap id m).maps b = s.maps b :=
    Function.update_of_ne ne _ _
  have self : (s.setMap id m).maps id = m := Function.update_self _ _ _
  refine synced.congr rfl rfl (top_congr fun b inList => ?_) (top_congr fun b inList => ?_) ?_
  · by_cases same : b = id
    · subst same
      simp only [readable, self, after, before inList, Bool.false_and]
    · simp only [readable, canRead, other b same]
      rfl
  · by_cases same : b = id
    · subst same
      simp only [writable, self, after, before inList, Bool.false_and]
    · simp only [writable, canWrite, other b same]
      rfl
  · intro b found
    obtain ⟨inList, seen⟩ := mem_of_top found
    have ne : b ≠ id := by
      rintro rfl
      rw [readable, before inList, Bool.false_and] at seen
      cases seen
    simp only [readCell, other b ne]

theorem append_syncedAt (synced : s.SyncedAt g)
    (hidden : contains (s.maps id) (0x4000 * g) = false) :
    SyncedAt { s with list := s.list ++ [id] } g := by
  refine synced.congr rfl rfl ?_ ?_ fun _ _ => rfl
  · refine top_concat.trans (if_neg ?_)
    simp [readable, hidden]
  · refine top_concat.trans (if_neg ?_)
    simp [writable, hidden]

theorem unlinkMap_syncedAt (synced : s.SyncedAt g)
    (hidden : contains (s.maps id) (0x4000 * g) = false) : (s.unlinkMap id).SyncedAt g := by
  refine synced.congr rfl rfl (top_erase ?_) (top_erase ?_) fun _ _ => rfl
  · simp [readable, unlinkMap, hidden]
  · simp [writable, unlinkMap, hidden]

theorem fillState_syncedAt {base size state : BitVec 32} (synced : s.SyncedAt g)
    (same : (s.fillState base size state).memState g = s.memState g) :
    (s.fillState base size state).SyncedAt g := by
  refine synced.congr rfl rfl (top_congr fun b _ => ?_) (top_congr fun b _ => ?_) fun _ _ => rfl
  · simp only [readable, canRead, same]
    rfl
  · simp only [writable, canWrite, same]
    rfl

/-! ## Runs -/

/-- A 16 KB aligned range within 4 GB. -/
def Placed (base size : BitVec 32) : Prop :=
  base.toNat % 0x4000 = 0 ∧ size.toNat % 0x4000 = 0 ∧ base.toNat + size.toNat ≤ 0x100000000

/-- The state after `mem_alloc` has cleared the tables and the list. -/
structure Fresh (s : Mem w) : Prop where
  list : s.list = []
  readMapping : ∀ g, s.readMapping g = none
  writeMapping : ∀ g, s.writeMapping g = none
  memExec : ∀ g, s.memExec g = 0
  placed : ∀ id, Placed (s.maps id).base (s.maps id).size

/-- `Clear` for the range of a mapping. -/
def ClearMap (s : Mem w) (id : MapId) : Prop :=
  s.Clear (s.maps id).base.toNat (s.maps id).size.toNat

/-- The arguments that the callers pass. -/
def Allowed (s : Mem w) : MemOp w → Prop
  | .add id base size .. => Placed base size ∧ id ∉ s.list
  | .setAddr _ base size => Placed base size
  | .setMemState base size _ => Placed base size
  | .recalc base size => base % 0x4000 = 0 ∧ base + size ≤ 0x100000000
  | _ => True

/-- Every range that the operation recalculates is clear, in the setup it is recalculated in. -/
def ClearFor (s : Mem w) : MemOp w → Prop
  | .add id base size handlers exec flags p =>
    (s.linkMap id base size handlers exec flags p).ClearMap id
  | .remove id => (s.unlinkMap id).ClearMap id
  | .setHandler id handlers => (s.setMap id { s.maps id with handlers := handlers }).ClearMap id
  | .setAddr id base size =>
    let disabled := s.setMap id { s.maps id with enable := false }
    disabled.ClearMap id ∧
      (disabled.setMap id { disabled.maps id with enable := true, base := base, size := size }).ClearMap id
  | .setExec id exec => (s.setMap id { s.maps id with exec := exec }).ClearMap id
  | .disable id => (s.setMap id { s.maps id with enable := false }).ClearMap id
  | .enable id => (s.setMap id { s.maps id with enable := true }).ClearMap id
  | .setMemState base size state =>
    (s.fillState base size state).Clear base.toNat size.toNat
  | .recalc base size => s.Clear base size
  | _ => True

/-- The tables have no part in the condition. -/
theorem ClearMap.congr (clear : s.ClearMap id) (maps : t.maps = s.maps) (list : t.list = s.list)
    (memState : t.memState = s.memState) : t.ClearMap id := by
  cases s
  cases t
  dsimp only at maps list memState
  subst maps list memState
  exact clear

/-- What every run keeps. -/
structure MapInv (s : Mem w) : Prop where
  inSync : s.InSync
  placed : ∀ id, Placed (s.maps id).base (s.maps id).size

theorem MapInv.syncedAt (inv : s.MapInv) (inTable : g < 0x40000) : s.SyncedAt g :=
  inSync_iff.mp inv.inSync g inTable

theorem Fresh.mapInv (fresh : s.Fresh) : s.MapInv := by
  refine ⟨inSync_iff.mpr fun g _ => ?_, fresh.placed⟩
  simp [SyncedAt, readAt, topReader, topWriter, fresh.list, fresh.readMapping,
    fresh.writeMapping, fresh.memExec]

/-- A setup that was changed only where the range is recalculated. -/
theorem recalc_mapInv (placed : ∀ id, Placed (s.maps id).base (s.maps id).size)
    (rangeAligned : base % 0x4000 = 0) (within : base + size ≤ 0x100000000)
    (outside : ∀ g < 0x40000, ¬ (base ≤ 0x4000 * g ∧ 0x4000 * g < base + size) → s.SyncedAt g)
    (clear : s.Clear base size) (done : s.memMappingRecalc base size = some t) : t.MapInv := by
  have aligned : s.MapsAligned := fun id => (placed id).1
  refine ⟨(recalc_inSync_iff aligned rangeAligned within done outside).mpr clear, ?_⟩
  rw [(recalc_setup done).1]
  exact placed

theorem recalcMap_mapInv (placed : ∀ id, Placed (s.maps id).base (s.maps id).size)
    (outside : ∀ g < 0x40000, contains { s.maps id with enable := true } (0x4000 * g) = false →
      s.SyncedAt g)
    (clear : s.ClearMap id) (done : s.recalcMap id = some t) : t.MapInv := by
  obtain ⟨rangeAligned, -, within⟩ := placed id
  exact recalc_mapInv placed rangeAligned within
    (fun g inTable out => outside g inTable (contains_eq_false out)) clear done

theorem contains_of_disabled {m : MemMapping w} {a : Nat}
    (hidden : contains { m with enable := true } a = false) : contains m a = false := by
  simp only [contains, decide_eq_false_iff_not] at hidden ⊢
  exact fun covers => hidden ⟨trivial, covers.2⟩

theorem setMap_placed {m : MemMapping w} (placed : ∀ id, Placed (s.maps id).base (s.maps id).size)
    (new : Placed m.base m.size) (b : MapId) :
    Placed ((s.setMap id m).maps b).base ((s.setMap id m).maps b).size := by
  by_cases same : b = id
  · subst same
    simpa [setMap] using new
  · simpa [setMap, same] using placed b

/-- A change of a mapping that stays where it is. -/
theorem MapInv.setMap {m : MemMapping w} (inv : s.MapInv) (clear : (s.setMap id m).ClearMap id)
    (done : (s.setMap id m).recalcMap id = some t) (sameBase : m.base = (s.maps id).base)
    (sameSize : m.size = (s.maps id).size) : t.MapInv := by
  have new : Placed m.base m.size := sameBase ▸ sameSize ▸ inv.placed id
  have placed : ∀ b, Placed ((s.setMap id m).maps b).base ((s.setMap id m).maps b).size :=
    setMap_placed inv.placed new
  refine recalcMap_mapInv placed (fun g inTable hidden => ?_) clear done
  have self : (s.setMap id m).maps id = m := Function.update_self _ _ _
  rw [self] at hidden
  refine setMap_syncedAt (inv.syncedAt inTable) (fun _ => ?_) (contains_of_disabled hidden)
  refine contains_of_disabled ?_
  rw [← hidden]
  simp only [contains, sameBase, sameSize]

theorem add_mapInv {base size flags : BitVec 32} {handlers : Handlers w} {exec p : BitVec w}
    (inv : s.MapInv) (placed : Placed base size) (fresh : id ∉ s.list)
    (clear : (s.linkMap id base size handlers exec flags p).ClearMap id)
    (done : s.memMappingAdd id base size handlers exec flags p = some t) : t.MapInv := by
  have self : (s.linkMap id base size handlers exec flags p).maps id =
      ⟨size ≠ 0, base, size, handlers, exec, flags, p⟩ := Function.update_self _ _ _
  refine recalcMap_mapInv (s := s.linkMap id base size handlers exec flags p)
    (setMap_placed inv.placed placed) (fun g inTable hidden => ?_) clear done
  have out := contains_of_disabled hidden
  refine append_syncedAt (setMap_syncedAt (inv.syncedAt inTable) (fun inList => ?_) ?_) out
  · exact absurd inList fresh
  · rw [self] at out
    exact out

theorem remove_mapInv (inv : s.MapInv) (clear : (s.unlinkMap id).ClearMap id)
    (done : s.memMappingRemove id = some t) : t.MapInv := by
  unfold memMappingRemove at done
  split at done
  · refine recalcMap_mapInv (s := s.unlinkMap id) inv.placed (fun g inTable hidden => ?_) clear
      done
    exact unlinkMap_syncedAt (inv.syncedAt inTable) (contains_of_disabled hidden)
  · cases done

theorem setAddr_mapInv {base size : BitVec 32} (inv : s.MapInv) (placed : Placed base size)
    (clear : s.ClearFor (.setAddr id base size))
    (done : s.memMappingSetAddr id base size = some t) : t.MapInv := by
  obtain ⟨mid, first, second⟩ := Option.bind_eq_some_iff.mp done
  obtain ⟨clearOld, clearNew⟩ := clear
  have midInv : mid.MapInv := inv.setMap clearOld first rfl rfl
  obtain ⟨maps, list, memState, -⟩ := recalc_setup first
  refine recalcMap_mapInv (setMap_placed midInv.placed placed) (fun g inTable hidden => ?_) ?_
    second
  · rw [show (mid.setMap id _).maps id = _ from Function.update_self _ _ _] at hidden
    refine setMap_syncedAt (midInv.syncedAt inTable) (fun _ => ?_) (contains_of_disabled hidden)
    rw [maps]
    simp [setMap, contains]
  · refine clearNew.congr ?_ list memState
    simp [setMap, maps]

theorem fillState_memState {base size state : BitVec 32} (placed : Placed base size)
    (inTable : g < 0x40000)
    (out : ¬ (base.toNat ≤ 0x4000 * g ∧ 0x4000 * g < base.toNat + size.toNat)) :
    (s.fillState base size state).memState g = s.memState g := by
  obtain ⟨baseAligned, -, within⟩ := placed
  have other (cs : List Nat) (table : Nat → BitVec 8)
      (elsewhere : ∀ c ∈ cs, (BitVec.ofNat 32 c + base).toNat >>> 14 ≠ g) :
      cs.foldl (fun table c => Function.update table ((BitVec.ofNat 32 c + base).toNat >>> 14)
        (state.setWidth 8)) table g = table g := by
    induction cs generalizing table with
    | nil => rfl
    | cons c cs ih =>
      rw [List.foldl_cons, ih _ fun b inRest => elsewhere b (.tail _ inRest)]
      exact Function.update_of_ne (elsewhere c (.head _)).symm _ _
  refine other _ _ fun c member same => out ?_
  obtain ⟨i, rfl, below⟩ := mem_granules.mp member
  rw [BitVec.toNat_add, BitVec.toNat_ofNat, Nat.shiftRight_eq_div_pow] at same
  omega

theorem setMemState_mapInv {base size state : BitVec 32} (inv : s.MapInv)
    (placed : Placed base size) (clear : s.ClearFor (.setMemState base size state))
    (done : s.memSetMemState base size state = some t) : t.MapInv := by
  refine recalc_mapInv (s := s.fillState base size state) inv.placed placed.1 placed.2.2
    (fun g inTable out => ?_) clear done
  exact fillState_syncedAt (inv.syncedAt inTable) (fillState_memState placed inTable out)

/-- The lookups are no part of the tables. -/
theorem MapInv.lookups (inv : s.MapInv) (lookups : Lookups w) :
    MapInv { s with lookups := lookups } :=
  ⟨⟨inv.inSync.read, inv.inSync.write, inv.inSync.exec⟩, inv.placed⟩

theorem step_mapInv {h : Host w} {op : MemOp w} (inv : s.MapInv) (allowed : s.Allowed op)
    (clear : s.ClearFor op) (done : step h s op = some t) : t.MapInv := by
  cases op with
  | add id base size handlers exec flags p =>
    exact add_mapInv inv allowed.1 allowed.2 clear done
  | remove id => exact remove_mapInv inv clear done
  | setHandler id handlers => exact inv.setMap clear done rfl rfl
  | setAddr id base size => exact setAddr_mapInv inv allowed clear done
  | setExec id exec => exact inv.setMap clear done rfl rfl
  | disable id => exact inv.setMap clear done rfl rfl
  | enable id => exact inv.setMap clear done rfl rfl
  | setMemState base size state => exact setMemState_mapInv inv allowed clear done
  | recalc base size =>
    exact recalc_mapInv inv.placed allowed.1 allowed.2
      (fun g inTable _ => inv.syncedAt inTable) clear done
  | addread | addwrite | flushWritePage | flush | flushNopc | flushCr3 =>
    cases done
    exact inv.lookups _

/-- In every run whose recalculated ranges are clear, the tables are what recomputing them from
the list gives. -/
theorem inSync_of_run {h : Host w} (fresh : s.Fresh)
    (run : RunOk (step h) (fun s op => s.Allowed op ∧ s.ClearFor op) s t) : t.InSync := by
  have inv : t.MapInv := run.invariant fresh.mapInv fun before admitted done =>
    step_mapInv before admitted.1 admitted.2 done
  exact inv.inSync

/-! ## Runs on a fresh memory -/

/-- Memory before anything is registered. -/
def blank : Mem w where
  maps _ := ⟨false, 0, 0, ⟨0, 0, 0, 0, 0, 0⟩, 0, 0, 0⟩
  list := []
  readMapping _ := none
  writeMapping _ := none
  memExec _ := 0
  memState _ := 0
  lookups :=
    { readlookup := fun _ => none, readlookupp := fun _ => 0, readlookup2 := fun _ => -1
      readlnext := 0, writelookup := fun _ => none, writelookupp := fun _ => 0
      writelookup2 := fun _ => -1, writelnext := 0, pageLookup := fun _ => none
      mmuflush := 0, pccache := -1, pccache2 := -1, cycles := 0 }

theorem fresh_blank : (blank : Mem w).Fresh :=
  ⟨rfl, fun _ => rfl, fun _ => rfl, fun _ => rfl, fun _ => ⟨rfl, rfl, Nat.zero_le _⟩⟩

instance (s : Mem w) (base size : Nat) : Decidable (s.Clear base size) :=
  inferInstanceAs (Decidable (size ≠ 0 → ∀ g < base / 0x4000, _ ∧ _))

/-- A host with RAM at `0x1000`. -/
def host : Host 32 := ⟨0x1000, 256, ⟨8, by decide, rfl⟩⟩

/-- Mapping `id` over a range, with handlers for both directions. -/
def addRange (id : MapId) (base size : BitVec 32) : MemOp 32 :=
  .add id base size ⟨1, 1, 1, 1, 1, 1⟩ 0x100000 0 0

instance (base size : BitVec 32) : Decidable (Placed base size) :=
  inferInstanceAs (Decidable (_ ∧ _ ∧ _))

instance (s : Mem w) : (op : MemOp w) → Decidable (s.Allowed op)
  | .add .. => inferInstanceAs (Decidable (Placed _ _ ∧ _ ∉ _))
  | .setAddr .. | .setMemState .. => inferInstanceAs (Decidable (Placed _ _))
  | .recalc base _ => inferInstanceAs (Decidable (base % 0x4000 = 0 ∧ _ ≤ _))
  | .remove _ | .setHandler .. | .setExec .. | .disable _ | .enable _ | .addread .. | .addwrite ..
  | .flushWritePage .. | .flush | .flushNopc | .flushCr3 => .isTrue trivial

instance (s : Mem w) (id : MapId) : Decidable (s.ClearMap id) :=
  inferInstanceAs (Decidable (s.Clear _ _))

instance (s : Mem w) : (op : MemOp w) → Decidable (s.ClearFor op)
  | .add .. | .remove _ | .setHandler .. | .setExec .. | .disable _ | .enable _ =>
    inferInstanceAs (Decidable (ClearMap _ _))
  | .setAddr .. => inferInstanceAs (Decidable (ClearMap _ _ ∧ ClearMap _ _))
  | .setMemState .. | .recalc .. => inferInstanceAs (Decidable (Clear _ _ _))
  | .addread .. | .addwrite .. | .flushWritePage .. | .flush | .flushNopc | .flushCr3 =>
    .isTrue trivial

/-- A mapping over two granules, then another one over the second of them. -/
theorem inSync_twoMappings : ∃ t, exec (step host) blank
      [addRange 0 0 0x8000, addRange 1 0x4000 0x4000] = some t ∧
      t.readMapping 0 = some 0 ∧ t.readMapping 1 = some 1 ∧ t.InSync := by
  have run : (execOk (step host) (fun s op => s.Allowed op ∧ s.ClearFor op) blank
      [addRange 0 0 0x8000, addRange 1 0x4000 0x4000]).any
      (fun t => t.readMapping 0 = some 0 ∧ t.readMapping 1 = some 1) = true := by decide +kernel
  obtain ⟨t, done, ended⟩ := (Option.any_eq_true ..).mp run
  obtain ⟨first, second⟩ := of_decide_eq_true ended
  refine ⟨t, exec_of_execOk done, first, second, ?_⟩
  exact inSync_of_run fresh_blank (RunOk.of_execOk (fun _ _ => of_decide_eq_true) done)

/-- A mapping over two granules and one over the first of them; then the state of the second
granule is set, and the first mapping is painted over the second one. -/
theorem not_inSync_overlaid : ¬ ∀ {s t : Mem 32}, s.Fresh →
    RunOk (step host) (fun s op => s.Allowed op) s t → t.InSync := by
  intro claimed
  have run : (execOk (step host) (fun s op => s.Allowed op) blank
      [addRange 0 0 0x8000, addRange 1 0 0x4000, .setMemState 0x4000 0x4000 0]).any
      (fun t => t.readMapping 0 = some 0 ∧ t.topReader 0 = some 1) = true := by decide +kernel
  obtain ⟨t, done, ended⟩ := (Option.any_eq_true ..).mp run
  obtain ⟨stale, onTop⟩ := of_decide_eq_true ended
  have inSync := claimed fresh_blank (RunOk.of_execOk (fun _ _ => of_decide_eq_true) done)
  have read := inSync.read 0 (by decide)
  rw [stale, onTop] at read
  cases read

end Mem

end PCemWeb.Memory
