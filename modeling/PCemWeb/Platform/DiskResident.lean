import Mathlib.Data.List.DropRight
import Mathlib.Data.List.Nodup
import PCemWeb.Platform.DiskRing

/-!
# The block that was asked for

`diskio_block` faults a run of blocks in and enters them in the ring one by one, and each entry may
evict the oldest clean block, one of the same run included. What decides it is the tail of the ring,
the entries after the last one that names a clean block: the block that was asked for is evicted
exactly where the tail is short of the ring and the run overfills it (`roomy`). A transfer then
fails although every fetch and allocation succeeded.
-/

namespace PCemWeb.Platform

open PCemWeb.Lib

/-! ## The tail of the ring -/

/-- The entry does not name a clean block. -/
def DiskIo.stale (s : DiskIo) (e : Nat × Nat) : Bool :=
  (s.disks e.1).all fun d => d.state e.2 ≠ .clean

/-- How many entries follow the last one that names a clean block. -/
def DiskIo.staleTail (s : DiskIo) : Nat := (s.cleanRing.rtakeWhile s.stale).length

/-- The block is resident, or the run that is faulted in with it fits behind the tail. A tail that
is the whole ring is dropped before the first block enters. -/
def DiskIo.roomy (s : DiskIo) (id idx : Nat) : Bool :=
  (s.disks id).all fun d => d.state idx ≠ .absent || s.staleTail = cleanBudget ||
    s.staleTail + absentRun d idx 1 (fetchRun - 1) ≤ cleanBudget

/-- The ring lists blocks that are not absent, each once, and the tables hold a pointer for exactly
those. -/
structure RingSound (s : DiskIo) : Prop where
  nodup : s.cleanRing.Nodup
  length : s.cleanRing.length ≤ cleanBudget
  listed : ∀ e ∈ s.cleanRing, ∀ d, s.disks e.1 = some d → e.2 < d.nblocks ∧ d.state e.2 ≠ .absent
  covers : ∀ id d, s.disks id = some d → d.size ≤ d.nblocks * blockSize
  blocks : ∀ id d, s.disks id = some d → ∀ i, d.state i = .absent ↔ d.block i = none

variable {s t : DiskIo} {id idx : Nat} {d : Disk} {e : Nat × Nat}

theorem setDisk_self {d : Option Disk} : (s.setDisk id d).disks id = d := Function.update_self ..

theorem setDisk_of_ne {id' : Nat} {d : Option Disk} (apart : id' ≠ id) :
    (s.setDisk id d).disks id' = s.disks id' := Function.update_of_ne apart ..

theorem stale_iff : s.stale e = true ↔ ∀ d, s.disks e.1 = some d → d.state e.2 ≠ .clean := by
  rw [DiskIo.stale]
  cases s.disks e.1 <;> simp

theorem stale_eq_false_iff : s.stale e = false ↔ ∃ d, s.disks e.1 = some d ∧ d.state e.2 = .clean := by
  rw [DiskIo.stale]
  cases s.disks e.1 <;> simp

/-- Placing one block changes what the other entries name no more than it changes them. -/
theorem stale_place {p : Option (Nat → Byte)} {st : BlkState} (live : s.disks id = some d)
    (other : e ≠ (id, idx)) : (s.setDisk id (some (d.place idx p st))).stale e = s.stale e := by
  obtain ⟨id', i⟩ := e
  rw [DiskIo.stale, DiskIo.stale]
  rcases eq_or_ne id' id with rfl | apart
  · have elsewhere : i ≠ idx := fun same => other (same ▸ rfl)
    simp only [DiskIo.setDisk, Function.update_self, live, Option.all_some, Disk.place,
      Function.update_of_ne elsewhere]
  · simp only [DiskIo.setDisk, Function.update_of_ne apart]

/-! ## What keeps the ring sound -/

theorem RingSound.of_env (inv : RingSound s) (env : List Bool) : RingSound { s with env } :=
  ⟨inv.nodup, inv.length, inv.listed, inv.covers, inv.blocks⟩

/-- A block is placed, or stored in. -/
theorem RingSound.place {p : Nat → Byte} {st : BlkState} (inv : RingSound s)
    (live : s.disks id = some d) (kept : st ≠ .absent) :
    RingSound (s.setDisk id (some (d.place idx (some p) st))) where
  nodup := inv.nodup
  length := inv.length
  listed e inRing d' live' := by
    rcases eq_or_ne e.1 id with rfl | apart
    · obtain rfl := Option.some.inj (setDisk_self.symm.trans live')
      obtain ⟨inRange, present⟩ := inv.listed e inRing d live
      refine ⟨inRange, ?_⟩
      rcases eq_or_ne e.2 idx with here | elsewhere
      · simp only [Disk.place, here, Function.update_self]
        exact kept
      · simp only [Disk.place, Function.update_of_ne elsewhere]
        exact present
    · exact inv.listed e inRing d' ((setDisk_of_ne apart).symm.trans live')
  covers id' d' live' := by
    obtain ⟨d'', live'', size, nblocks⟩ := setDisk_place_live live live'
    exact size ▸ nblocks ▸ inv.covers id' d'' live''
  blocks id' d' live' i := by
    rcases eq_or_ne id' id with rfl | apart
    · obtain rfl := Option.some.inj (setDisk_self.symm.trans live')
      rcases eq_or_ne i idx with rfl | elsewhere
      · simp only [Disk.place, Function.update_self, reduceCtorEq, iff_false]
        exact kept
      · simp only [Disk.place, Function.update_of_ne elsewhere]
        exact inv.blocks id' d live i
    · exact inv.blocks id' d' ((setDisk_of_ne apart).symm.trans live') i

theorem RingSound.drop {ring : List (Nat × Nat)} (inv : RingSound s)
    (sub : ring.Sublist s.cleanRing) : RingSound { s with cleanRing := ring } :=
  ⟨inv.nodup.sublist sub, sub.length_le.trans inv.length,
    fun e inRing => inv.listed e (sub.subset inRing), inv.covers, inv.blocks⟩

/-- The block that an entry names is freed, and the entry is dropped. -/
theorem RingSound.free {ring : List (Nat × Nat)} (inv : RingSound s)
    (sub : (e :: ring).Sublist s.cleanRing) (live : s.disks e.1 = some d) :
    RingSound { s.setDisk e.1 (some (d.place e.2 none .absent)) with cleanRing := ring } where
  nodup := (inv.nodup.sublist sub).of_cons
  length := (List.Sublist.length_le (List.Sublist.trans (List.sublist_cons_self ..) sub)).trans
    inv.length
  listed e' inRing d' live' := by
    have distinct : e' ≠ e := by
      rintro rfl
      exact (List.nodup_cons.mp (inv.nodup.sublist sub)).1 inRing
    have inOld : e' ∈ s.cleanRing := sub.subset (.tail _ inRing)
    rcases eq_or_ne e'.1 e.1 with same | apart
    · simp only [DiskIo.setDisk, same, Function.update_self, Option.some.injEq] at live'
      subst live'
      have elsewhere : e'.2 ≠ e.2 := fun here => distinct (Prod.ext same here)
      simp only [Disk.place, Function.update_of_ne elsewhere]
      exact inv.listed e' inOld d (same ▸ live)
    · exact inv.listed e' inOld d' ((setDisk_of_ne apart).symm.trans live')
  covers id' d' live' := by
    obtain ⟨d'', live'', size, nblocks⟩ := setDisk_place_live live live'
    exact size ▸ nblocks ▸ inv.covers id' d'' live''
  blocks id' d' live' i := by
    rcases eq_or_ne id' e.1 with rfl | apart
    · obtain rfl := Option.some.inj (setDisk_self.symm.trans live')
      rcases eq_or_ne i e.2 with rfl | elsewhere
      · simp only [Disk.place, Function.update_self]
      · simp only [Disk.place, Function.update_of_ne elsewhere]
        exact inv.blocks e.1 d live i
    · exact inv.blocks id' d' ((setDisk_of_ne apart).symm.trans live') i

/-- An entry that is not in the ring enters it. -/
theorem RingSound.enter (inv : RingSound s) (new : e ∉ s.cleanRing)
    (room : s.cleanRing.length < cleanBudget) (live : s.disks e.1 = some d)
    (inRange : e.2 < d.nblocks) (present : d.state e.2 ≠ .absent) :
    RingSound { s with cleanRing := s.cleanRing ++ [e] } where
  nodup := List.Nodup.append inv.nodup (List.nodup_singleton e) (List.disjoint_singleton.mpr new)
  length := by
    rw [List.length_append]
    exact room
  listed e' inRing d' live' := by
    rcases List.mem_append.mp inRing with old | added
    · exact inv.listed e' old d' live'
    · obtain rfl := List.mem_singleton.mp added
      obtain rfl := Option.some.inj (live.symm.trans live')
      exact ⟨inRange, present⟩
  covers := inv.covers
  blocks := inv.blocks

/-! ## One insertion -/

/-- The live entries of a list lie inside their tables. -/
def InTables (s : DiskIo) (ring : List (Nat × Nat)) : Prop :=
  ∀ e ∈ ring, ∀ d, s.disks e.1 = some d → e.2 < d.nblocks

theorem evictOldest_stale {ring : List (Nat × Nat)} (inTables : InTables s ring)
    (allStale : ring.dropWhile s.stale = []) :
    evictOldest ring s = some { s with cleanRing := [] } := by
  induction ring with
  | nil => rfl
  | cons e rest ih =>
    have all := List.dropWhile_eq_nil_iff.mp allStale
    have skip := ih (fun x inRest => inTables x (.tail _ inRest))
      (List.dropWhile_eq_nil_iff.mpr fun x inRest => all x (.tail _ inRest))
    have stale := stale_iff.mp (all e (.head _))
    unfold evictOldest
    split
    · exact skip
    · rename_i d live
      rw [if_neg (Nat.not_le.mpr (inTables e (.head _) d live)), if_neg (stale d live)]
      exact skip

theorem evictOldest_clean {ring rest : List (Nat × Nat)} (inTables : InTables s ring)
    (first : ring.dropWhile s.stale = e :: rest) :
    ∃ d, s.disks e.1 = some d ∧ d.state e.2 = .clean ∧ evictOldest ring s =
      some { s.setDisk e.1 (some (d.place e.2 none .absent)) with cleanRing := rest } := by
  induction ring with
  | nil => cases first
  | cons x xs ih =>
    have inRest : InTables s xs := fun y inXs => inTables y (.tail _ inXs)
    cases stale : s.stale x with
    | true =>
      rw [List.dropWhile_cons_of_pos stale] at first
      obtain ⟨d, live, clean, done⟩ := ih inRest first
      refine ⟨d, live, clean, ?_⟩
      unfold evictOldest
      split
      · exact done
      · rename_i d' live'
        rw [if_neg (Nat.not_le.mpr (inTables x (.head _) d' live')),
          if_neg (stale_iff.mp stale d' live')]
        exact done
    | false =>
      rw [List.dropWhile_cons_of_neg (by simp [stale])] at first
      obtain ⟨rfl, rfl⟩ := List.cons.inj first
      obtain ⟨d, live, clean⟩ := stale_eq_false_iff.mp stale
      refine ⟨d, live, clean, ?_⟩
      rw [evictOldest, live]
      dsimp only
      rw [if_neg (Nat.not_le.mpr (inTables x (.head _) d live)), if_pos clean]

/-- How `clean_ring_insert` enters an entry: behind the others, behind what an eviction leaves, or
alone. -/
inductive Inserted (s : DiskIo) (e : Nat × Nat) : DiskIo → Prop
  | room (room : s.cleanRing.length < cleanBudget) :
      Inserted s e { s with cleanRing := s.cleanRing ++ [e] }
  | alone (full : s.cleanRing.length = cleanBudget) (stale : s.cleanRing.dropWhile s.stale = []) :
      Inserted s e { s with cleanRing := [e] }
  | evicts {x : Nat × Nat} {d : Disk} {rest : List (Nat × Nat)}
      (full : s.cleanRing.length = cleanBudget) (first : s.cleanRing.dropWhile s.stale = x :: rest)
      (live : s.disks x.1 = some d) (clean : d.state x.2 = .clean) :
      Inserted s e { s.setDisk x.1 (some (d.place x.2 none .absent)) with cleanRing := rest ++ [e] }

theorem cleanRingInsert_inserted (inv : RingSound s) (id idx : Nat) :
    ∃ t, cleanRingInsert id idx s = some t ∧ Inserted s (id, idx) t := by
  have inTables : InTables s s.cleanRing := fun e inRing d live => (inv.listed e inRing d live).1
  unfold cleanRingInsert
  split
  · rename_i full
    cases first : s.cleanRing.dropWhile s.stale with
    | nil =>
      rw [evictOldest_stale inTables first]
      exact ⟨_, rfl, .alone full first⟩
    | cons x rest =>
      obtain ⟨d, live, clean, done⟩ := evictOldest_clean inTables first
      rw [done]
      exact ⟨_, rfl, .evicts full first live clean⟩
  · rename_i short
    exact ⟨_, rfl, .room (lt_of_le_of_ne inv.length short)⟩

theorem RingSound.inserted (inv : RingSound s) (inserted : Inserted s e t) (new : e ∉ s.cleanRing)
    (live : s.disks e.1 = some d) (inRange : e.2 < d.nblocks) (present : d.state e.2 ≠ .absent) :
    RingSound t := by
  cases inserted with
  | room room => exact inv.enter new room live inRange present
  | alone full stale =>
    have dropped : RingSound { s with cleanRing := [] } := inv.drop (List.nil_sublist _)
    exact dropped.enter List.not_mem_nil (by rw [List.length_nil]; decide) live inRange present
  | @evicts x d' rest full first live' clean =>
    have sub : (x :: rest).Sublist s.cleanRing := first ▸ List.dropWhile_sublist _
    have freed := inv.free sub live'
    have distinct : e ≠ x := by
      rintro rfl
      exact new (sub.subset (.head _))
    have short : rest.length < cleanBudget := by
      have whole := sub.length_le
      rw [List.length_cons] at whole
      have := inv.length
      omega
    have outside : e ∉ rest := fun inRest => new (sub.subset (.tail _ inRest))
    rcases eq_or_ne e.1 x.1 with same | apart
    · obtain rfl := Option.some.inj (live.symm.trans (same ▸ live'))
      have elsewhere : e.2 ≠ x.2 := fun here => distinct (Prod.ext same here)
      have freed' : (s.setDisk x.1 (some (d.place x.2 none .absent))).disks e.1 =
          some (d.place x.2 none .absent) := by
        rw [same]
        exact setDisk_self
      refine freed.enter outside short freed' inRange ?_
      simp only [Disk.place, Function.update_of_ne elsewhere]
      exact present
    · exact freed.enter outside short ((setDisk_of_ne apart).trans live) inRange present

/-! ## A run -/

/-- The entries of the first `k` blocks of a run. -/
def runEntries (id idx k : Nat) : List (Nat × Nat) := (List.range k).map fun j => (id, idx + j)

/-- The first `k` blocks of a run are clean and last in the ring, behind a tail of `r` stale
entries. -/
structure Placing (id idx k r : Nat) (s : DiskIo) : Prop where
  sound : RingSound s
  ring : ∃ a b, s.cleanRing = a ++ (b ++ runEntries id idx k) ∧ (∀ e ∈ b, s.stale e = true) ∧
    b.length = r ∧ ∀ e ∈ a.getLast?, s.stale e = false
  clean : ∀ e ∈ runEntries id idx k, s.stale e = false

theorem Placing.start (inv : RingSound s) : Placing id idx 0 s.staleTail s where
  sound := inv
  ring := by
    refine ⟨s.cleanRing.rdropWhile s.stale, s.cleanRing.rtakeWhile s.stale, ?_, ?_, rfl, ?_⟩
    · rw [runEntries, List.range_zero, List.map_nil, List.append_nil]
      exact (List.rdropWhile_append_rtakeWhile ..).symm
    · exact fun e => List.mem_rtakeWhile_imp
    · intro e last
      have nonempty := List.ne_nil_of_mem (List.mem_of_getLast? last)
      rw [List.getLast?_eq_some_getLast nonempty] at last
      obtain rfl := Option.some.inj last
      exact Bool.eq_false_iff.mpr (List.rdropWhile_last_not _ _ nonempty)
  clean := fun e none => absurd none List.not_mem_nil

theorem runEntries_succ (k : Nat) :
    runEntries id idx (k + 1) = runEntries id idx k ++ [(id, idx + k)] := by
  rw [runEntries, List.range_succ, List.map_append]
  rfl

theorem length_runEntries (k : Nat) : (runEntries id idx k).length = k := by
  rw [runEntries, List.length_map, List.length_range]

/-- An entry of an absent block is not in the ring. -/
theorem RingSound.not_mem (inv : RingSound s) (live : s.disks id = some d)
    (absent : d.state idx = .absent) : (id, idx) ∉ s.cleanRing :=
  fun inRing => (inv.listed _ inRing d live).2 absent

/-- The state in which the next block of the run enters the ring. -/
theorem Placing.placed {k r : Nat} {p : Nat → Byte} (placing : Placing id idx k r s)
    (live : s.disks id = some d) (absent : d.state (idx + k) = .absent) :
    Placing id idx k r (s.setDisk id (some (d.place (idx + k) (some p) .clean))) := by
  have new := placing.sound.not_mem live absent
  have same (e : Nat × Nat) (inRing : e ∈ s.cleanRing) :
      (s.setDisk id (some (d.place (idx + k) (some p) .clean))).stale e = s.stale e :=
    stale_place live fun here => new (here ▸ inRing)
  obtain ⟨a, b, whole, stale, length, last⟩ := placing.ring
  have inWhole {e : Nat × Nat} : e ∈ s.cleanRing ↔ e ∈ a ++ (b ++ runEntries id idx k) := by
    rw [whole]
  simp only [List.mem_append] at inWhole
  refine ⟨placing.sound.place live nofun, ⟨a, b, whole, fun e inB => ?_, length, fun e isLast => ?_⟩,
    fun e inRun => ?_⟩
  · rw [same e (inWhole.mpr (.inr (.inl inB)))]
    exact stale e inB
  · rw [same e (inWhole.mpr (.inl (List.mem_of_getLast? isLast)))]
    exact last e isLast
  · rw [same e (inWhole.mpr (.inr (.inr inRun)))]
    exact placing.clean e inRun

/-- Where nothing before the tail is left, the run itself is next to be evicted. -/
theorem dropWhile_run {k : Nat} {b : List (Nat × Nat)} (stale : ∀ e ∈ b, s.stale e = true)
    (clean : ∀ e ∈ runEntries id idx k, s.stale e = false) :
    (b ++ runEntries id idx k).dropWhile s.stale = runEntries id idx k := by
  rw [List.dropWhile_append_of_pos stale]
  cases run : runEntries id idx k with
  | nil => rfl
  | cons e rest =>
    have first := clean e (run ▸ .head _)
    exact List.dropWhile_cons_of_neg (by rw [first]; exact Bool.false_ne_true)

/-- The next block of the run enters, unless the tail and the run so far fill the ring. -/
theorem Placing.entered {k r : Nat} (placing : Placing id idx k r s)
    (live : s.disks id = some d) (inRange : idx + k < d.nblocks) (clean : d.state (idx + k) = .clean)
    (new : (id, idx + k) ∉ s.cleanRing) (inserted : Inserted s (id, idx + k) t)
    (room : k = 0 ∨ r + k ≠ cleanBudget) :
    Placing id idx (k + 1) (if r = cleanBudget then 0 else r) t := by
  have sound := placing.sound.inserted inserted new live inRange (by rw [clean]; nofun)
  have fresh : s.stale (id, idx + k) = false := stale_eq_false_iff.mpr ⟨d, live, clean⟩
  have cleanRun (e : Nat × Nat) (inRun : e ∈ runEntries id idx (k + 1)) : s.stale e = false := by
    rw [runEntries_succ] at inRun
    rcases List.mem_append.mp inRun with old | added
    · exact placing.clean e old
    · exact List.mem_singleton.mp added ▸ fresh
  obtain ⟨a, b, whole, stale, length, last⟩ := placing.ring
  have total : s.cleanRing.length = a.length + (r + k) := by
    rw [whole, List.length_append, List.length_append, length, length_runEntries]
  cases inserted with
  | room short =>
    rw [if_neg (by omega)]
    refine ⟨sound, ⟨a, b, ?_, stale, length, last⟩, cleanRun⟩
    rw [whole, runEntries_succ, List.append_assoc, List.append_assoc]
  | alone full allStale =>
    have all := List.dropWhile_eq_nil_iff.mp allStale
    have nothing : a = [] := by
      by_contra some_
      have isLast := List.getLast?_eq_some_getLast some_
      generalize a.getLast some_ = e at isLast
      have inRing : e ∈ s.cleanRing := whole ▸ List.mem_append_left _ (List.mem_of_getLast? isLast)
      exact Bool.false_ne_true ((last e isLast).symm.trans (all e inRing))
    have first : k = 0 := by
      by_contra some_
      have inRun : (id, idx) ∈ runEntries id idx k :=
        List.mem_map.mpr ⟨0, List.mem_range.mpr (Nat.pos_of_ne_zero some_), rfl⟩
      have inRing : (id, idx) ∈ s.cleanRing :=
        whole ▸ List.mem_append_right _ (List.mem_append_right _ inRun)
      exact Bool.false_ne_true ((placing.clean _ inRun).symm.trans (all _ inRing))
    subst nothing first
    rw [List.length_nil] at total
    rw [if_pos (by omega)]
    exact ⟨sound, ⟨[], [], rfl, nofun, rfl, nofun⟩, cleanRun⟩
  | @evicts y d' rest full first live' clean' =>
    have some_ : a ≠ [] := by
      rintro rfl
      rw [whole, List.nil_append, dropWhile_run stale placing.clean] at first
      have run := congrArg List.length first
      rw [length_runEntries, List.length_cons] at run
      rw [List.length_nil] at total
      omega
    have sub : (y :: rest).Sublist s.cleanRing := first ▸ List.dropWhile_sublist _
    have outside := (List.nodup_cons.mp (placing.sound.nodup.sublist sub)).1
    have same {e : Nat × Nat} (other : e ≠ y) :
        (s.setDisk y.1 (some (d'.place y.2 none .absent))).stale e = s.stale e :=
      stale_place live' other
    rw [whole, List.dropWhile_append] at first
    cases left : a.dropWhile s.stale with
    | nil =>
      have all := List.dropWhile_eq_nil_iff.mp left
      have isLast := List.getLast?_eq_some_getLast some_
      generalize a.getLast some_ = e at isLast
      exact absurd (all e (List.mem_of_getLast? isLast)) (by rw [last e isLast]; nofun)
    | cons y' rest' =>
      rw [left, List.isEmpty_cons, if_neg Bool.false_ne_true, List.cons_append] at first
      obtain ⟨rfl, rfl⟩ := List.cons.inj first
      have short : r ≠ cleanBudget := by
        have := List.length_pos_iff.mpr some_
        omega
      rw [if_neg short]
      simp only [List.mem_append, not_or] at outside
      refine ⟨sound, ⟨rest', b, ?_, fun e inB => ?_, length, fun e isLast => ?_⟩, fun e inRun => ?_⟩
      · rw [runEntries_succ, List.append_assoc, List.append_assoc]
      · rw [← stale e inB]
        exact same fun here => outside.2.1 (here ▸ inB)
      · have suffix : a = a.takeWhile s.stale ++ (y' :: rest') := by
          rw [← left, List.takeWhile_append_dropWhile]
        have inRest := List.mem_of_getLast? isLast
        have isLast' : a.getLast? = some e := by
          rw [suffix, List.getLast?_append, List.getLast?_cons, Option.mem_def.mp isLast]
          rfl
        rw [← last e isLast']
        exact same fun here => outside.1 (here ▸ inRest)
      · rw [← cleanRun e inRun]
        refine same fun here => ?_
        rw [runEntries_succ] at inRun
        rcases List.mem_append.mp inRun with old | added
        · exact outside.2.2 (here ▸ old)
        · rw [List.mem_singleton.mp added] at here
          exact new (here ▸ sub.subset (.head _))

/-- Where the tail and the run so far fill the ring, the next block evicts the first of the run. -/
theorem Placing.lost {k r : Nat} (placing : Placing id idx k r s) (positive : 0 < k)
    (fills : r + k = cleanBudget) {x : Nat × Nat} (inserted : Inserted s x t) :
    ∃ d, t.disks id = some d ∧ d.state idx = .absent := by
  obtain ⟨a, b, whole, stale, length, last⟩ := placing.ring
  have total : s.cleanRing.length = a.length + (r + k) := by
    rw [whole, List.length_append, List.length_append, length, length_runEntries]
  have bound := placing.sound.length
  obtain rfl : a = [] := List.length_eq_zero_iff.mp (by omega)
  rw [List.length_nil] at total
  have victims : s.cleanRing.dropWhile s.stale = runEntries id idx k := by
    rw [whole, List.nil_append, dropWhile_run stale placing.clean]
  obtain ⟨k, rfl⟩ := Nat.exists_eq_add_one_of_ne_zero positive.ne'
  rw [runEntries, List.range_succ_eq_map, List.map_cons] at victims
  cases inserted with
  | room short => omega
  | alone full allStale => cases allStale.symm.trans victims
  | @evicts y d rest full first live clean =>
    obtain ⟨rfl, -⟩ := List.cons.inj (first.symm.trans victims)
    exact ⟨_, setDisk_self, Function.update_self ..⟩

theorem Placing.of_env {k r : Nat} (placing : Placing id idx k r s) (env : List Bool) :
    Placing id idx k r { s with env } :=
  ⟨placing.sound.of_env env, placing.ring, placing.clean⟩

/-- Every fetch and allocation to come succeeds. -/
def DiskIo.Succeeds (s : DiskIo) : Prop := ∀ ok ∈ s.env, ok = true

theorem DiskIo.Succeeds.outcome (ok : s.Succeeds) : s.outcome = true := by
  rw [DiskIo.outcome]
  cases env : s.env with
  | nil => rfl
  | cons b rest => exact ok b (env ▸ .head _)

theorem DiskIo.Succeeds.consume (ok : s.Succeeds) : s.consume.Succeeds :=
  fun b inTail => ok b (List.mem_of_mem_tail inTail)

theorem Inserted.env (inserted : Inserted s e t) : t.env = s.env := by
  cases inserted <;> rfl

/-- What entering one block of a run does, whatever the ring holds. -/
theorem enter_next {k more : Nat} {p : Nat → Byte} (inv : RingSound s) (live : s.disks id = some d)
    (run : AbsentRun id idx k (more + 1) s) :
    ∃ t d', cleanRingInsert id (idx + k)
        (s.setDisk id (some (d.place (idx + k) (some p) .clean))) = some t ∧
      Inserted (s.setDisk id (some (d.place (idx + k) (some p) .clean))) (id, idx + k) t ∧
      RingSound t ∧ AbsentRun id idx (k + 1) more t ∧ t.disks id = some d' ∧
      ∀ i ≠ idx + k, d.state i = .absent → d'.state i = .absent := by
  obtain ⟨inRange, absent⟩ := run d live k le_rfl (by omega)
  have placed : RingSound (s.setDisk id (some (d.place (idx + k) (some p) .clean))) :=
    inv.place live nofun
  have new := inv.not_mem live absent
  obtain ⟨t, done, inserted⟩ := cleanRingInsert_inserted placed id (idx + k)
  obtain ⟨u, evicted, rfl⟩ := cleanRingInsert_eq done
  obtain ⟨d', live', -, -, blocks⟩ := evicted.disk id _ setDisk_self
  have present : (d.place (idx + k) (some p) .clean).state (idx + k) ≠ .absent := by
    simp only [Disk.place, Function.update_self]
    nofun
  have left : AbsentRun id idx (k + 1) more u := run.next live evicted
  refine ⟨_, d', done, inserted, placed.inserted inserted new setDisk_self inRange present, left,
    live', fun i other absent' => ?_⟩
  rcases blocks i with ⟨same, -⟩ | ⟨-, freed, -⟩
  · exact same.trans ((Function.update_of_ne other ..).trans absent')
  · exact freed

/-- A run can always be placed, and a block that it has passed stays absent. -/
theorem placeRun_sound {f : Nat → Byte} {k more : Nat} (inv : RingSound s)
    (live : s.disks id = some d) (run : AbsentRun id idx k more s) :
    ∃ t d', placeRun id idx f k more s = some t ∧ RingSound t ∧
      (s.Succeeds → t.Succeeds) ∧ t.disks id = some d' ∧
      ∀ i, (∀ j, k ≤ j → i ≠ idx + j) → d.state i = .absent → d'.state i = .absent := by
  induction more generalizing k s d with
  | zero => exact ⟨s, d, rfl, inv, fun ok => ok, live, fun _ _ absent => absent⟩
  | succ more ih =>
    unfold placeRun
    split
    · have consumed : AbsentRun id idx k (more + 1) s.consume := run
      obtain ⟨u, d', entered, inserted, sound, left, live', kept⟩ := enter_next (p := fun j =>
        f (k * blockSize + j)) (inv.of_env s.env.tail) live consumed
      obtain ⟨t, d'', done, sound', succeeds, live'', kept'⟩ := ih sound live' left
      simp only [live]
      refine ⟨t, d'', Option.bind_eq_some_iff.mpr ⟨u, entered, done⟩, sound', fun ok => ?_,
        live'', ?_⟩
      · exact succeeds fun b inEnv => ok.consume b (inserted.env ▸ inEnv)
      exact fun i passed absent => kept' i (fun j high => passed j (by omega))
        (kept i (passed k le_rfl) absent)
    · exact ⟨_, d, rfl, inv.of_env s.env.tail, fun ok => ok.consume, live,
        fun _ _ absent => absent⟩

/-- A run that fits behind the tail is placed with its first block. -/
theorem placeRun_kept {f : Nat → Byte} {k more r : Nat} (placing : Placing id idx k r s)
    (positive : 0 < k) (fits : r + k + more ≤ cleanBudget) (live : s.disks id = some d)
    (run : AbsentRun id idx k more s) (ok : s.Succeeds) :
    ∃ t, placeRun id idx f k more s = some t ∧ Placing id idx (k + more) r t := by
  induction more generalizing k s d with
  | zero => exact ⟨s, rfl, placing⟩
  | succ more ih =>
    have consumed : AbsentRun id idx k (more + 1) s.consume := run
    have held := placing.of_env s.env.tail
    obtain ⟨u, d', entered, inserted, -, left, live', -⟩ := enter_next
      (p := fun j => f (k * blockSize + j))
        held.sound live consumed
    obtain ⟨inRange, absent⟩ := run d live k le_rfl (by omega)
    have next := (held.placed live absent).entered setDisk_self inRange (Function.update_self ..)
      (held.sound.not_mem live absent) inserted (.inr (by omega))
    rw [if_neg (by omega)] at next
    obtain ⟨t, done, placed⟩ := ih next (Nat.succ_pos k) (by omega) live' left
      (fun b inEnv => ok.consume b (inserted.env ▸ inEnv))
    unfold placeRun
    rw [if_pos ok.outcome, live]
    refine ⟨t, Option.bind_eq_some_iff.mpr ⟨u, entered, done⟩, ?_⟩
    rwa [show k + (more + 1) = k + 1 + more by omega]

/-- A run that overfills the ring behind the tail is placed without its first block. -/
theorem placeRun_lost {f : Nat → Byte} {k more r : Nat} (placing : Placing id idx k r s)
    (positive : 0 < k) (short : r + k ≤ cleanBudget) (excess : cleanBudget < r + k + more)
    (live : s.disks id = some d) (run : AbsentRun id idx k more s) (ok : s.Succeeds) :
    ∃ t d', placeRun id idx f k more s = some t ∧ RingSound t ∧ t.disks id = some d' ∧
      d'.state idx = .absent := by
  induction more generalizing k s d with
  | zero => omega
  | succ more ih =>
    have consumed : AbsentRun id idx k (more + 1) s.consume := run
    have held := placing.of_env s.env.tail
    obtain ⟨u, d', entered, inserted, sound, left, live', -⟩ := enter_next
      (p := fun j => f (k * blockSize + j))
        held.sound live consumed
    obtain ⟨inRange, absent⟩ := run d live k le_rfl (by omega)
    unfold placeRun
    rw [if_pos ok.outcome, live]
    by_cases fills : r + k = cleanBudget
    · obtain ⟨e, liveE, gone⟩ := (held.placed live absent).lost positive fills inserted
      obtain rfl := Option.some.inj (live'.symm.trans liveE)
      obtain ⟨t, d'', done, sound', -, live'', kept⟩ := placeRun_sound sound live' left
      exact ⟨t, d'', Option.bind_eq_some_iff.mpr ⟨u, entered, done⟩, sound', live'',
        kept idx (fun j high => by omega) gone⟩
    · have next := (held.placed live absent).entered setDisk_self inRange (Function.update_self ..)
        (held.sound.not_mem live absent) inserted (.inr fills)
      rw [if_neg (by omega)] at next
      obtain ⟨t, d'', done, lost⟩ := ih next (Nat.succ_pos k) (by omega) (by omega) live' left
        (fun b inEnv => ok.consume b (inserted.env ▸ inEnv))
      exact ⟨t, d'', Option.bind_eq_some_iff.mpr ⟨u, entered, done⟩, lost⟩

/-! ## Asking for a block -/

theorem absentRun_le (d : Disk) (idx : Nat) (run more : Nat) :
    absentRun d idx run more ≤ run + more := by
  induction more generalizing run with
  | zero => exact le_rfl
  | succ more ih =>
    unfold absentRun
    split
    · omega
    · have := ih (run + 1)
      omega

/-- The blocks that are faulted in with an absent one. -/
theorem absentRun_faults (live : s.disks id = some d) (inRange : idx < d.nblocks)
    (absent : d.state idx = .absent) :
    1 ≤ absentRun d idx 1 (fetchRun - 1) ∧
      AbsentRun id idx 0 (absentRun d idx 1 (fetchRun - 1)) s := by
  have first : ∀ j < 1, idx + j < d.nblocks ∧ d.state (idx + j) = .absent := by
    intro j zero
    obtain rfl := Nat.lt_one_iff.mp zero
    exact ⟨inRange, absent⟩
  obtain ⟨some_, all⟩ := absentRun_spec d idx 1 (fetchRun - 1) first
  refine ⟨some_, fun d' live' j _ high => ?_⟩
  obtain rfl := Option.some.inj (live.symm.trans live')
  exact all j (by omega)

/-- Placing a run leaves its first block resident exactly where the run fits. -/
theorem placeRun_roomy {f : Nat → Byte} {run : Nat} (inv : RingSound s)
    (live : s.disks id = some d) (some_ : 1 ≤ run) (short : run ≤ fetchRun)
    (absent : AbsentRun id idx 0 run s) (ok : s.Succeeds) :
    ∃ t, placeRun id idx f 0 run s = some t ∧
      (((t.disks id).bind (·.block idx)).isSome ↔
        s.staleTail = cleanBudget ∨ s.staleTail + run ≤ cleanBudget) := by
  obtain ⟨more, rfl⟩ := Nat.exists_eq_add_one_of_ne_zero (Nat.ne_of_gt some_)
  have held : Placing id idx 0 s.staleTail s.consume := (Placing.start inv).of_env s.env.tail
  have consumed : AbsentRun id idx 0 (more + 1) s.consume := absent
  obtain ⟨u, d', entered, inserted, -, left, live', -⟩ := enter_next (p := fun j =>
    f (0 * blockSize + j)) held.sound live consumed
  obtain ⟨inRange, state⟩ := absent d live 0 le_rfl (by omega)
  have next := (held.placed live state).entered setDisk_self inRange (Function.update_self ..)
    (held.sound.not_mem live state) inserted (.inl rfl)
  have tail : s.staleTail ≤ cleanBudget :=
    (List.rtakeWhile_suffix _ _).length_le.trans inv.length
  have succeeds : u.Succeeds := fun b inEnv => ok.consume b (inserted.env ▸ inEnv)
  have begun (t : DiskIo) (done : placeRun id idx f (0 + 1) more u = some t) :
      placeRun id idx f 0 (more + 1) s = some t := by
    unfold placeRun
    rw [if_pos ok.outcome, live]
    exact Option.bind_eq_some_iff.mpr ⟨u, entered, done⟩
  have budget : fetchRun < cleanBudget := by decide
  by_cases fits : s.staleTail = cleanBudget ∨ s.staleTail + (more + 1) ≤ cleanBudget
  · obtain ⟨t, done, placed⟩ := placeRun_kept (f := f) next Nat.one_pos
      (by split <;> omega) live' left succeeds
    refine ⟨t, begun t done, iff_of_true ?_ fits⟩
    have clean := placed.clean (id, idx) (List.mem_map.mpr ⟨0, List.mem_range.mpr (by omega), rfl⟩)
    obtain ⟨e, liveE, clean⟩ := stale_eq_false_iff.mp clean
    rw [show t.disks id = some e from liveE, Option.bind_some, Option.isSome_iff_ne_none]
    intro missing
    cases clean.symm.trans ((placed.sound.blocks id e liveE idx).mpr missing)
  · obtain ⟨t, e, done, sound, liveE, gone⟩ := placeRun_lost (f := f) next Nat.one_pos
      (by split <;> omega) (by split <;> omega) live' left succeeds
    refine ⟨t, begun t done, iff_of_false ?_ fits⟩
    rw [liveE, Option.bind_some, (sound.blocks id e liveE idx).mp gone]
    exact Bool.false_ne_true

theorem diskioBlock_sound (inv : RingSound s) (live : s.disks id = some d)
    (inRange : idx < d.nblocks) :
    ∃ resident t d', diskioBlock id idx s = some (resident, t) ∧ RingSound t ∧
      (s.Succeeds → t.Succeeds) ∧ t.disks id = some d' := by
  unfold diskioBlock
  rw [live]
  dsimp only
  rw [if_neg (Nat.not_le.mpr inRange)]
  split
  · exact ⟨_, s, d, rfl, inv, fun ok => ok, live⟩
  rename_i absent
  split
  · have run : AbsentRun id idx 0 (absentRun d idx 1 (fetchRun - 1)) s.consume :=
      (absentRun_faults live inRange (not_not.mp absent)).2
    obtain ⟨t, d', done, sound, succeeds, live', -⟩ := placeRun_sound
      (f := fetchStage (s.browserDisks id) (idx * blockSize)
        (min (absentRun d idx 1 (fetchRun - 1) * blockSize) (d.size - idx * blockSize)))
      (inv.of_env s.env.tail) live run
    exact ⟨_, t, d', Option.map_eq_some_iff.mpr ⟨t, done, rfl⟩, sound,
      fun ok => succeeds ok.consume, live'⟩
  · exact ⟨_, _, d, rfl, inv.of_env s.env.tail, fun ok => ok.consume, live⟩

/-- Where every fetch and allocation succeeds, the block is resident when `diskio_block` returns
exactly where its run fits behind the tail of the ring. -/
theorem diskioBlock_roomy (inv : RingSound s) (live : s.disks id = some d)
    (inRange : idx < d.nblocks) (ok : s.Succeeds) :
    ∃ resident t, diskioBlock id idx s = some (resident, t) ∧
      (resident.isSome ↔ s.roomy id idx = true) := by
  have roomy : s.roomy id idx = true ↔ d.state idx ≠ .absent ∨ s.staleTail = cleanBudget ∨
      s.staleTail + absentRun d idx 1 (fetchRun - 1) ≤ cleanBudget := by
    simp only [DiskIo.roomy, live, Option.all_some, Bool.or_eq_true, decide_eq_true_eq, or_assoc]
  rw [roomy]
  unfold diskioBlock
  rw [live]
  dsimp only
  rw [if_neg (Nat.not_le.mpr inRange)]
  split
  · rename_i present
    refine ⟨_, s, rfl, iff_of_true ?_ (.inl present)⟩
    exact Option.isSome_iff_ne_none.mpr fun missing =>
      present ((inv.blocks id d live idx).mpr missing)
  rename_i absent
  rw [if_pos ok.outcome]
  obtain ⟨some_, run⟩ := absentRun_faults live inRange (not_not.mp absent)
  have short : absentRun d idx 1 (fetchRun - 1) ≤ fetchRun := absentRun_le d idx 1 (fetchRun - 1)
  have consumed : AbsentRun id idx 0 (absentRun d idx 1 (fetchRun - 1)) s.consume := run
  obtain ⟨t, done, resident⟩ := placeRun_roomy
    (f := fetchStage (s.browserDisks id) (idx * blockSize)
      (min (absentRun d idx 1 (fetchRun - 1) * blockSize) (d.size - idx * blockSize)))
    (inv.of_env s.env.tail) live some_ short consumed ok.consume
  refine ⟨_, t, Option.map_eq_some_iff.mpr ⟨t, done, rfl⟩, resident.trans ?_⟩
  exact (or_iff_right absent).symm

/-! ## Transfers -/

/-- One iteration of the loop of `diskio_rw`, with the bytes that a write stores. -/
structure Access where
  id : Nat
  idx : Nat
  inBlock : Nat
  piece : Option (List Byte)

/-- The iteration, if its block is resident. -/
def DiskIo.access (s : DiskIo) (a : Access) : Option DiskIo :=
  (diskioBlock a.id a.idx s).bind fun (resident, s) => resident.bind fun p =>
    match a.piece with
    | none => some s
    | some piece => storeChunk a.id a.idx a.inBlock p piece s

/-- The iterations of a transfer. -/
def accesses (id : Nat) (isWrite : Bool) : (fuel offset len : Nat) → List Byte → List Access
  | 0, _, _, _ => []
  | fuel + 1, offset, len, buf =>
    if len = 0 then []
    else
      let idx := offset / blockSize
      let inBlock := offset - idx * blockSize
      let chunk := min (blockSize - inBlock) len
      ⟨id, idx, inBlock, if isWrite then some (buf.take chunk) else none⟩ ::
        accesses id isWrite fuel (offset + chunk) (len - chunk) (buf.drop chunk)

/-- Each block that a transfer asks for is resident or has room when it is asked for. -/
def DiskIo.roomyFor (s : DiskIo) (id offset len : Nat) (buf : List Byte) (isWrite : Bool) : Bool :=
  meets DiskIo.access (fun s a => s.roomy a.id a.idx) s (accesses id isWrite len offset len buf)

theorem storeChunk_sound (idx inBlock : Nat) (p : Nat → Byte) (piece : List Byte)
    (inv : RingSound s) (live : s.disks id = some d) : ∃ t d', storeChunk id idx inBlock p piece s = some t ∧
      RingSound t ∧ (s.Succeeds → t.Succeeds) ∧ t.disks id = some d' ∧ d'.size = d.size := by
  rw [storeChunk, live]
  exact ⟨_, _, rfl, inv.place live (by decide), fun ok => ok, setDisk_self, rfl⟩

theorem rwLoop_sound {isWrite : Bool} {fuel offset len : Nat} (buf : List Byte) (inv : RingSound s)
    (live : s.disks id = some d) (enough : len ≤ fuel) (inside : offset + len ≤ d.size) :
    ∃ r, rwLoop id isWrite fuel offset len buf s = some r ∧ RingSound r.after ∧
      (s.Succeeds → (r.status = 0 ↔ meets DiskIo.access (fun s a => s.roomy a.id a.idx) s
        (accesses id isWrite fuel offset len buf) = true)) := by
  induction fuel generalizing offset len buf s d with
  | zero =>
    obtain rfl := Nat.le_zero.mp enough
    exact ⟨_, rfl, inv, fun _ => iff_of_true rfl rfl⟩
  | succ fuel ih =>
    unfold rwLoop accesses
    split
    · exact ⟨_, rfl, inv, fun _ => iff_of_true rfl rfl⟩
    rename_i some_
    dsimp only
    obtain ⟨-, -, positive, within, -⟩ := chunk_bounds offset some_
    generalize offset - offset / blockSize * blockSize = inBlock at *
    generalize min (blockSize - inBlock) len = chunk at *
    have inRange : offset / blockSize < d.nblocks := by
      refine (Nat.div_lt_iff_lt_mul (by decide)).mpr (lt_of_lt_of_le ?_ (inv.covers id d live))
      omega
    obtain ⟨resident, t, d', fetched, sound, succeeds, live'⟩ :=
      diskioBlock_sound inv live inRange
    have moves : Moves ⟨s, fun _ _ => 0⟩ ⟨t, fun _ _ => 0⟩ := (moves_diskioBlock fetched).1
    obtain ⟨e, liveE, size, -⟩ := moves.disk live
    obtain rfl := Option.some.inj (live'.symm.trans liveE)
    have roomy (ok : s.Succeeds) : resident.isSome ↔ s.roomy id (offset / blockSize) = true := by
      obtain ⟨resident', t', fetched', resident⟩ := diskioBlock_roomy inv live inRange ok
      obtain ⟨rfl, -⟩ := Prod.mk.inj (Option.some.inj (fetched.symm.trans fetched'))
      exact resident
    simp only [fetched, Option.bind_some, meets, Bool.and_eq_true, DiskIo.access]
    cases resident with
    | none =>
      refine ⟨_, rfl, sound, fun ok => iff_of_false Nat.one_ne_zero fun met => ?_⟩
      cases (roomy ok).mpr met.1
    | some p =>
      have first (ok : s.Succeeds) := (roomy ok).mp rfl
      dsimp only [Option.bind_some]
      cases isWrite with
      | false =>
        obtain ⟨r, done, sound', met⟩ := ih (buf.drop chunk) sound live' (by omega)
          (show offset + chunk + (len - chunk) ≤ d'.size by omega)
        refine ⟨_, Option.map_eq_some_iff.mpr ⟨r, done, rfl⟩, sound', fun ok => ?_⟩
        simp only [first ok, true_and, Bool.false_eq_true, if_false, Option.all_some]
        exact met (succeeds ok)
      | true =>
        obtain ⟨u, d'', stored, sound', kept, live'', size'⟩ := storeChunk_sound
          (offset / blockSize) inBlock p (buf.take chunk) sound live'
        obtain ⟨r, done, sound'', met⟩ := ih (buf.drop chunk) sound' live'' (by omega)
          (show offset + chunk + (len - chunk) ≤ d''.size by omega)
        simp only [if_true, stored, Option.bind_some]
        refine ⟨_, Option.map_eq_some_iff.mpr ⟨r, done, rfl⟩, sound'', fun ok => ?_⟩
        simp only [first ok, true_and, Option.all_some]
        exact met (kept (succeeds ok))

theorem diskioRw_sound {offset len : Nat} {isWrite : Bool} (buf : List Byte) (inv : RingSound s) :
    ∃ r, diskioRw id offset len buf isWrite s = some r ∧ RingSound r.after := by
  unfold diskioRw
  split
  · exact ⟨_, rfl, inv⟩
  split
  · exact ⟨_, rfl, inv⟩
  rename_i d live
  split
  · exact ⟨_, rfl, inv⟩
  · rename_i inside
    obtain ⟨r, done, sound, -⟩ := rwLoop_sound buf inv live le_rfl (not_lt.mp inside)
    exact ⟨r, done, sound⟩

/-! ## Sessions -/

/-- A registration takes a slot of which the ring has no entry left. -/
def Session.Fresh (s : Session) : DiskOp × List Bool → Bool
  | (.register _ _, _) => (freeSlot s.cache).all fun i => s.cache.cleanRing.all fun e => e.1 ≠ i
  | _ => true

theorem RingSound.preload {len : Nat} {f : Nat → Byte} (inv : RingSound s)
    (frame : PreloadFrame id len f s t) : RingSound t := by
  have disk {id' : Nat} {d : Disk} (live : t.disks id' = some d) :
      ∃ d', s.disks id' = some d' ∧ Preloaded len f d' d := by
    rcases eq_or_ne id' id with rfl | other
    · cases before : s.disks id' with
      | none => cases (frame.free before).symm.trans live
      | some d' =>
        obtain ⟨d'', live', placed⟩ := frame.disk d' before
        obtain rfl := Option.some.inj (live.symm.trans live')
        exact ⟨d', rfl, placed⟩
    · exact ⟨d, (frame.others id' other).symm.trans live, .refl⟩
  refine ⟨frame.ring ▸ inv.nodup, frame.ring ▸ inv.length, fun e inRing d live => ?_,
    fun id' d live => ?_, fun id' d live i => ?_⟩
  · obtain ⟨d', live', placed⟩ := disk live
    obtain ⟨inRange, present⟩ := inv.listed e (frame.ring ▸ inRing) d' live'
    refine ⟨placed.nblocks ▸ inRange, ?_⟩
    rcases placed.block e.2 with ⟨same, -⟩ | ⟨absent, -⟩
    · exact same ▸ present
    · exact absurd absent present
  · obtain ⟨d', live', placed⟩ := disk live
    exact placed.size ▸ placed.nblocks ▸ inv.covers id' d' live'
  · obtain ⟨d', live', placed⟩ := disk live
    rcases placed.block i with ⟨state, block⟩ | ⟨-, -, clean, p, block, -⟩
    · exact state ▸ block ▸ inv.blocks id' d' live' i
    · rw [clean, block]
      exact iff_of_false nofun nofun

theorem RingSound.unregister (inv : RingSound s) : RingSound (diskioUnregister id s) := by
  unfold diskioUnregister
  split
  · exact inv
  have still {id' : Nat} {d : Disk} (live : (s.setDisk id none).disks id' = some d) :
      s.disks id' = some d := by
    rcases eq_or_ne id' id with rfl | other
    · cases setDisk_self.symm.trans live
    · exact (setDisk_of_ne other).symm.trans live
  exact ⟨inv.nodup, inv.length, fun e inRing d live => inv.listed e inRing d (still live),
    fun id' d live => inv.covers id' d (still live), fun id' d live => inv.blocks id' d (still live)⟩

theorem RingSound.register {size i : Nat} {f : Nat → Byte} (env : List Bool) (inv : RingSound s)
    (fresh : ∀ e ∈ s.cleanRing, e.1 ≠ i) (positive : 0 < size)
    (fits : nblocksOf size * 4 < 0x100000000) :
    RingSound { s.setDisk i (some ⟨size, nblocksOf size, fun _ => none, fun _ => .absent⟩) with
      browserDisks := Function.update s.browserDisks i f, env } where
  nodup := inv.nodup
  length := inv.length
  listed e inRing d live := inv.listed e inRing d ((setDisk_of_ne (fresh e inRing)).symm.trans live)
  covers id d live := by
    rcases eq_or_ne id i with rfl | other
    · obtain rfl := Option.some.inj (setDisk_self.symm.trans live)
      exact (DiskInv.registered f positive fits).covers
    · exact inv.covers id d ((setDisk_of_ne other).symm.trans live)
  blocks id d live j := by
    rcases eq_or_ne id i with rfl | other
    · obtain rfl := Option.some.inj (setDisk_self.symm.trans live)
      exact iff_of_true rfl rfl
    · exact inv.blocks id d ((setDisk_of_ne other).symm.trans live) j

theorem RingSound.step {s t : Session} {op : DiskOp × List Bool} (inv : RingSound s.cache)
    (fresh : s.Fresh op = true) (next : s.step op = some t) : RingSound t.cache := by
  obtain ⟨op, env⟩ := op
  have start : RingSound { s.cache with env } := inv.of_env env
  cases op with
  | register size source =>
    simp only [Session.step] at next
    rcases diskioRegister_cases size source { s.cache with env } with
      ⟨env', failed⟩ | ⟨i, env', free, positive, fits, registered⟩
    · simp only [failed] at next
      cases next
      exact start.of_env env'
    · simp only [registered] at next
      cases next
      have free' : freeSlot s.cache = some i := free
      simp only [Session.Fresh, free', Option.all_some, List.all_eq_true, decide_eq_true_eq] at fresh
      exact start.register env' fresh positive fits
  | unregister id =>
    cases next
    exact start.unregister
  | preload id len =>
    cases next
    exact start.preload preloadFrame_diskioPreload
  | read id offset len =>
    obtain ⟨r, done, rfl⟩ := Option.map_eq_some_iff.mp next
    obtain ⟨r', done', sound⟩ := diskioRw_sound [] start
    obtain rfl := Option.some.inj (done'.symm.trans done)
    exact sound
  | write id offset buf =>
    obtain ⟨r, done, rfl⟩ := Option.map_eq_some_iff.mp next
    obtain ⟨r', done', sound⟩ := diskioRw_sound buf start
    obtain rfl := Option.some.inj (done'.symm.trans done)
    exact sound

theorem ringSound_init : RingSound DiskIo.init :=
  ⟨List.nodup_nil, Nat.zero_le _, nofun, nofun, nofun⟩

/-- In every session whose registrations take slots without entries, a transfer inside its disk
whose fetches and allocations succeed returns 0 exactly where each block that it asks for is
resident or has room, and `diskio_block` returns a block exactly where that block has. -/
theorem roomy_of_run {s : Session} {id : Nat} {d : Disk} {env : List Bool}
    (run : RunOk Session.step (fun s op => s.Fresh op = true) .init s) (slot : id < maxDisks)
    (live : s.cache.disks id = some d) (ok : ∀ b ∈ env, b = true) :
    (∀ offset len buf isWrite, offset + len ≤ d.size →
      ∃ r, diskioRw id offset len buf isWrite { s.cache with env } = some r ∧
        (r.status = 0 ↔ DiskIo.roomyFor { s.cache with env } id offset len buf isWrite = true)) ∧
      ∀ idx < d.nblocks, ∃ resident t,
        diskioBlock id idx { s.cache with env } = some (resident, t) ∧
          (resident.isSome ↔ s.cache.roomy id idx = true) := by
  have inv : RingSound { s.cache with env } :=
    RingSound.of_env (run.invariant ringSound_init RingSound.step) env
  refine ⟨fun offset len buf isWrite inside => ?_, fun idx inRange => ?_⟩
  · obtain ⟨r, done, -, met⟩ := rwLoop_sound buf inv live (le_refl len) inside
    refine ⟨r, ?_, met ok⟩
    rw [← done]
    unfold diskioRw
    rw [if_neg (Nat.not_le.mpr slot)]
    simp only [live]
    exact if_neg (Nat.not_lt.mpr inside)
  · exact diskioBlock_roomy inv live inRange ok

/-- A byte of a new disk is read. -/
theorem roomy_of_register : ∃ s d, RunOk Session.step (fun s op => s.Fresh op = true) .init s ∧
    s.cache.disks 0 = some d ∧
      (∃ r, diskioRw 0 60 1 [] false { s.cache with env := [] } = some r ∧ r.status = 0) ∧
      ∃ resident t, diskioBlock 0 0 { s.cache with env := [] } = some (resident, t) ∧
        resident.isSome := by
  obtain ⟨s, done⟩ := Option.isSome_iff_exists.mp (show (execOk Session.step Session.Fresh .init
    [(.register 100 fun _ => 1, [])]).isSome from rfl)
  have run := RunOk.of_execOk (fun _ _ => id) done
  obtain ⟨d, live⟩ : ∃ d, s.cache.disks 0 = some d := by
    cases done
    exact ⟨_, rfl⟩
  have ok : ∀ b ∈ ([] : List Bool), b = true := nofun
  obtain ⟨transfers, blocks⟩ := roomy_of_run run (by decide) live ok
  have size : d.size = 100 ∧ d.nblocks = 1 := by
    cases done
    cases live
    exact ⟨rfl, rfl⟩
  obtain ⟨r, read, served⟩ := transfers 60 1 [] false (by omega)
  obtain ⟨resident, t, block, here⟩ := blocks 0 (by omega)
  refine ⟨s, d, run, live, ⟨r, read, served.mpr ?_⟩, resident, t, block, here.mpr ?_⟩
  · cases done
    rfl
  · cases done
    rfl

/-- 511 stale entries fill the ring but for one place, and the second block of the run that is
faulted in for slot 1 evicts the first. -/
def tailFault : List (DiskOp × List Bool) :=
  staleOps 127 ++ [(.register (3 * blockSize) fun _ => 1, []), (.read 0 0 1, []),
    (.unregister 0, []), (.register (4 * blockSize) fun _ => 1, []),
    (.register (4 * blockSize) fun _ => 1, [])]

theorem not_served_tailFault : ¬ ∀ ops s, exec Session.step .init ops = some s →
    ∀ id d, s.cache.disks id = some d → ∀ offset len, offset + len ≤ d.size →
      ∃ r, diskioRead id offset len { s.cache with env := [] } = some r ∧ r.status = 0 := by
  intro served
  have failed : (exec Session.step .init tailFault).any fun s =>
      (s.cache.disks 1).any fun d => decide (1 ≤ d.size) &&
        (diskioRead 1 0 1 { s.cache with env := [] }).any fun r => r.status ≠ 0 := by
    decide +kernel
  obtain ⟨s, done, failed⟩ := (Option.any_eq_true ..).mp failed
  obtain ⟨d, live, failed⟩ := (Option.any_eq_true ..).mp failed
  obtain ⟨inside, failed⟩ := Bool.and_eq_true_iff.mp failed
  obtain ⟨r, read, failed⟩ := (Option.any_eq_true ..).mp failed
  obtain ⟨r', read', ok⟩ := served _ s done 1 d live 0 1 (of_decide_eq_true inside)
  obtain rfl := Option.some.inj (read.symm.trans read')
  exact of_decide_eq_true failed ok

end PCemWeb.Platform
