import Mathlib.Data.Nat.Basic
import Mathlib.Tactic.Common
import PCemWeb.Lib.Run
import PCemWeb.Platform.DiskCache

/-!
# The block cache refines a byte array

`CacheInv` relates the tables to the contents each disk should have: a resident block holds
them, and a block that is not dirty has never been written, so its contents are still the
source's and dropping it loses nothing. Every operation keeps the invariant, with two
exceptions that `Sound` names. A preload that ends inside the final block short of the
disk's size zero-fills bytes the source has; and a slot registered again with fewer blocks
than a stale ring entry names is indexed out of range by a later eviction.
-/

namespace PCemWeb.Platform

open PCemWeb.Lib

/-! ## The invariant -/

/-- The table entry of block `idx` is right for the disk's contents. -/
structure BlockInv (d : Disk) (source contents : Nat → Byte) (idx : Nat) : Prop where
  absent : d.state idx = .absent → d.block idx = none
  resident : d.state idx ≠ .absent → ∃ p, d.block idx = some p ∧
    ∀ j < blockSize, idx * blockSize + j < d.size → p j = contents (idx * blockSize + j)
  unwritten : d.state idx ≠ .dirty →
    ∀ j < blockSize, contents (idx * blockSize + j) = source (idx * blockSize + j)

/-- The tables of one disk cover its size and are right block by block. -/
structure DiskInv (d : Disk) (source contents : Nat → Byte) : Prop where
  covers : d.size ≤ d.nblocks * blockSize
  last : (d.nblocks - 1) * blockSize < d.size
  block : ∀ idx < d.nblocks, BlockInv d source contents idx

/-- The cache holds `contents`, and the ring names only blocks inside the live tables. -/
structure CacheInv (s : DiskIo) (contents : Nat → Nat → Byte) : Prop where
  disk : ∀ id d, s.disks id = some d → DiskInv d (s.browserDisks id) (contents id)
  ring : ∀ e ∈ s.cleanRing, ∀ d, s.disks e.1 = some d → e.2 < d.nblocks
  ringLength : s.cleanRing.length ≤ cleanBudget

/-- `t` caches other blocks of the same disks: nothing was pinned and no pin was lost. -/
structure SamePins (s t : DiskIo) : Prop where
  browserDisks : t.browserDisks = s.browserDisks
  free : ∀ id, s.disks id = none → t.disks id = none
  disk : ∀ id d, s.disks id = some d → ∃ d', t.disks id = some d' ∧ d'.size = d.size ∧
    d'.nblocks = d.nblocks ∧ ∀ idx, d'.state idx = .dirty ↔ d.state idx = .dirty

section

variable {s t u : DiskIo} {contents : Nat → Nat → Byte} {id idx : Nat} {d d' : Disk}
  {source c : Nat → Byte}

theorem SamePins.refl (s : DiskIo) : SamePins s s :=
  ⟨rfl, fun _ => id, fun _ d live => ⟨d, live, rfl, rfl, fun _ => Iff.rfl⟩⟩

theorem SamePins.trans (first : SamePins s t) (second : SamePins t u) : SamePins s u where
  browserDisks := second.browserDisks.trans first.browserDisks
  free id unused := second.free id (first.free id unused)
  disk id d live := by
    obtain ⟨d', live', size', nblocks', pins'⟩ := first.disk id d live
    obtain ⟨d'', live'', size'', nblocks'', pins''⟩ := second.disk id d' live'
    exact ⟨d'', live'', size''.trans size', nblocks''.trans nblocks',
      fun idx => (pins'' idx).trans (pins' idx)⟩

/-- The tables do not depend on the coming outcomes. -/
theorem CacheInv.of_env (inv : CacheInv s contents) (env : List Bool) :
    CacheInv { s with env } contents := ⟨inv.disk, inv.ring, inv.ringLength⟩

theorem SamePins.of_env (s : DiskIo) (env : List Bool) : SamePins s { s with env } :=
  ⟨rfl, fun _ => id, fun _ d live => ⟨d, live, rfl, rfl, fun _ => Iff.rfl⟩⟩

/-- A block of one disk is replaced, and with it that disk's contents. -/
theorem CacheInv.replace {p : Option (Nat → Byte)} {st : BlkState} (inv : CacheInv s contents)
    (live : s.disks id = some d) (disk : DiskInv (d.place idx p st) (s.browserDisks id) c) :
    CacheInv (s.setDisk id (some (d.place idx p st))) (Function.update contents id c) where
  disk id' e found := by
    by_cases here : id' = id
    · subst here
      simp only [DiskIo.setDisk, Function.update_self, Option.some.injEq] at found
      rw [Function.update_self, ← found]
      exact disk
    · simp only [DiskIo.setDisk, Function.update_of_ne here] at found
      rw [Function.update_of_ne here]
      exact inv.disk id' e found
  ring entry inRing e found := by
    by_cases here : entry.1 = id
    · simp only [DiskIo.setDisk, here, Function.update_self, Option.some.injEq] at found
      exact found ▸ inv.ring entry inRing d (here ▸ live)
    · simp only [DiskIo.setDisk, Function.update_of_ne here] at found
      exact inv.ring entry inRing e found
  ringLength := inv.ringLength

/-- A block of one disk is replaced without changing the contents. -/
theorem CacheInv.place {p : Option (Nat → Byte)} {st : BlkState} (inv : CacheInv s contents)
    (live : s.disks id = some d)
    (disk : DiskInv (d.place idx p st) (s.browserDisks id) (contents id)) :
    CacheInv (s.setDisk id (some (d.place idx p st))) contents := by
  simpa only [Function.update_eq_self] using inv.replace live disk

/-- Replacing a block that is not dirty by one that is not dirty keeps the pins. -/
theorem SamePins.place (idx : Nat) (p : Option (Nat → Byte)) (st : BlkState) (live : s.disks id = some d)
    (old : d.state idx ≠ .dirty) (new : st ≠ .dirty) :
    SamePins s (s.setDisk id (some (d.place idx p st))) where
  browserDisks := rfl
  free id' unused := by
    by_cases here : id' = id
    · simp [here, live] at unused
    · simpa [DiskIo.setDisk, Function.update_of_ne here] using unused
  disk id' e found := by
    by_cases here : id' = id
    · subst here
      obtain rfl := Option.some.inj (live.symm.trans found)
      refine ⟨d.place idx p st, by simp [DiskIo.setDisk], rfl, rfl, fun i => ?_⟩
      by_cases at_ : i = idx
      · subst at_
        simp [Disk.place, old, new]
      · simp [Disk.place, Function.update_of_ne at_]
    · exact ⟨e, by simpa [DiskIo.setDisk, Function.update_of_ne here] using found, rfl, rfl,
        fun _ => Iff.rfl⟩

/-! ## Replacing one block -/

/-- Only the placed entry of the tables needs a new argument. -/
theorem DiskInv.place {p : Option (Nat → Byte)} {st : BlkState} {c' : Nat → Byte}
    (inv : DiskInv d source c)
    (same : ∀ i < d.nblocks, i ≠ idx → ∀ j < blockSize,
      c' (i * blockSize + j) = c (i * blockSize + j))
    (placed : BlockInv (d.place idx p st) source c' idx) :
    DiskInv (d.place idx p st) source c' where
  covers := inv.covers
  last := inv.last
  block i inRange := by
    by_cases here : i = idx
    · exact here ▸ placed
    have old := inv.block i inRange
    have state : (d.place idx p st).state i = d.state i := Function.update_of_ne here ..
    have block : (d.place idx p st).block i = d.block i := Function.update_of_ne here ..
    refine ⟨fun absent => block.trans (old.absent (state ▸ absent)), fun resident => ?_,
      fun clean j inBlock => ?_⟩
    · obtain ⟨q, found, holds⟩ := old.resident (state ▸ resident)
      refine ⟨q, block.trans found, fun j inBlock inDisk => ?_⟩
      rw [same i inRange here j inBlock]
      exact holds j inBlock inDisk
    · rw [same i inRange here j inBlock]
      exact old.unwritten (state ▸ clean) j inBlock

/-- Freeing a block that was not written keeps the contents. -/
theorem DiskInv.free (inv : DiskInv d source c) (inRange : idx < d.nblocks)
    (clean : d.state idx = .clean) : DiskInv (d.place idx none .absent) source c := by
  refine inv.place (fun _ _ _ _ _ => rfl) ⟨fun _ => ?_, fun resident => ?_, fun _ => ?_⟩
  · simp [Disk.place]
  · simp [Disk.place] at resident
  · exact (inv.block idx inRange).unwritten (by simp [clean])

/-- A clean block may be placed where the contents are the source's. -/
theorem DiskInv.fill (idx : Nat) {p : Nat → Byte} (inv : DiskInv d source c)
    (unwritten : ∀ j < blockSize, c (idx * blockSize + j) = source (idx * blockSize + j))
    (holds : ∀ j < blockSize, idx * blockSize + j < d.size → p j = source (idx * blockSize + j)) :
    DiskInv (d.place idx (some p) .clean) source c := by
  refine inv.place (fun _ _ _ _ _ => rfl) ⟨fun absent => ?_, fun _ => ⟨p, ?_, ?_⟩, fun _ => unwritten⟩
  · simp [Disk.place] at absent
  · simp [Disk.place]
  · intro j inBlock inDisk
    rw [unwritten j inBlock]
    exact holds j inBlock inDisk

/-- A chunk written into a resident block is written into the contents. -/
theorem DiskInv.write {p : Nat → Byte} {inBlock : Nat} {piece : List Byte}
    (inv : DiskInv d source c) (fits : inBlock + piece.length ≤ blockSize)
    (holds : ∀ j < blockSize, idx * blockSize + j < d.size → p j = c (idx * blockSize + j)) :
    DiskInv (d.place idx (some (overlay p inBlock piece)) .dirty) source
      (overlay c (idx * blockSize + inBlock) piece) := by
  refine inv.place (fun i _ other j bound => overlay_of_outside ?_)
    ⟨fun absent => ?_, fun _ => ⟨overlay p inBlock piece, by simp [Disk.place], fun j bound inDisk => ?_⟩,
      fun clean => ?_⟩
  · rcases Nat.lt_or_gt_of_ne other with before | after
    · have := Nat.mul_le_mul_right blockSize (show i + 1 ≤ idx from before)
      rw [Nat.add_mul] at this
      omega
    · have := Nat.mul_le_mul_right blockSize (show idx + 1 ≤ i from after)
      rw [Nat.add_mul] at this
      omega
  · simp [Disk.place] at absent
  · rw [overlay_shift]
    by_cases inside : inBlock ≤ j ∧ j < inBlock + piece.length
    · exact overlay_of_inside inside.1 inside.2
    · rw [overlay_of_outside (by omega), overlay_of_outside (by omega)]
      exact holds j bound inDisk
  · simp [Disk.place] at clean

/-! ## Faulting blocks in -/

/-- Eviction drops entries up to the first clean block, and only that block. -/
theorem evictOldest_spec (inv : CacheInv s contents) :
    ∀ {ring : List (Nat × Nat)}, (∀ e ∈ ring, e ∈ s.cleanRing) → ring.length ≤ cleanBudget →
      ring ≠ [] → ∃ t, evictOldest ring s = some t ∧ CacheInv t contents ∧ SamePins s t ∧
        t.cleanRing.length < cleanBudget
  | [], _, _, nonempty => absurd rfl nonempty
  | (e, bi) :: rest, sub, short, _ => by
    have restSub : ∀ x ∈ rest, x ∈ s.cleanRing := fun x inRest => sub x (.tail _ inRest)
    have restShort : rest.length < cleanBudget := short
    have goOn : ∃ t, evictOldest rest s = some t ∧ CacheInv t contents ∧ SamePins s t ∧
        t.cleanRing.length < cleanBudget := by
      by_cases more : rest = []
      · subst more
        exact ⟨_, rfl, ⟨inv.disk, by simp, by simp⟩,
          ⟨rfl, fun _ => id, fun _ d live => ⟨d, live, rfl, rfl, fun _ => Iff.rfl⟩⟩, by
            simp [cleanBudget]⟩
      · exact evictOldest_spec inv restSub (Nat.le_of_lt restShort) more
    simp only [evictOldest]
    split
    · exact goOn
    · rename_i disk live
      have inRange : bi < disk.nblocks := inv.ring (e, bi) (sub _ (.head _)) disk live
      rw [if_neg (Nat.not_le.mpr inRange)]
      split
      · rename_i clean
        have freed := inv.place live ((inv.disk e disk live).free inRange clean)
        refine ⟨_, rfl, ⟨freed.disk, fun x inRest => freed.ring x (restSub x inRest),
          (Nat.le_of_lt restShort)⟩, ?_, restShort⟩
        have pins := SamePins.place bi none .absent live (by simp [clean]) nofun
        exact ⟨pins.browserDisks, pins.free, pins.disk⟩
      · exact goOn

theorem cleanRingInsert_spec (idx : Nat) (inv : CacheInv s contents) (live : s.disks id = some d)
    (inRange : idx < d.nblocks) :
    ∃ t, cleanRingInsert id idx s = some t ∧ CacheInv t contents ∧ SamePins s t := by
  obtain ⟨t, evicted, kept, pins, room⟩ : ∃ t, (if s.cleanRing.length = cleanBudget then
      evictOldest s.cleanRing s else some s) = some t ∧ CacheInv t contents ∧ SamePins s t ∧
      t.cleanRing.length < cleanBudget := by
    split
    · rename_i full
      exact evictOldest_spec inv (fun _ inRing => inRing) (Nat.le_of_eq full)
        (List.ne_nil_of_length_eq_add_one (n := cleanBudget - 1) full)
    · exact ⟨s, rfl, inv, .refl s, lt_of_le_of_ne inv.ringLength ‹_›⟩
  obtain ⟨d', live', -, nblocks, -⟩ := pins.disk id d live
  refine ⟨{ t with cleanRing := t.cleanRing ++ [(id, idx)] }, by simp [cleanRingInsert, evicted],
    ⟨kept.disk, fun e inRing e' found => ?_, ?_⟩, ⟨pins.browserDisks, pins.free, pins.disk⟩⟩
  · rcases List.mem_append.mp inRing with old | new
    · exact kept.ring e old e' found
    · obtain rfl := List.mem_singleton.mp new
      obtain rfl := Option.some.inj (live'.symm.trans found)
      rwa [nblocks]
  · simpa using Nat.succ_le_of_lt room

/-- The blocks counted by the run scan exist and are absent. -/
theorem absentRun_spec (d : Disk) (idx : Nat) : ∀ run more : Nat,
    (∀ j < run, idx + j < d.nblocks ∧ d.state (idx + j) = .absent) →
    run ≤ absentRun d idx run more ∧
      ∀ j < absentRun d idx run more, idx + j < d.nblocks ∧ d.state (idx + j) = .absent
  | run, 0, sofar => ⟨le_rfl, sofar⟩
  | run, more + 1, sofar => by
    simp only [absentRun]
    split
    · exact ⟨le_rfl, sofar⟩
    · rename_i next
      have next := not_or.mp next
      have further := absentRun_spec d idx (run + 1) more fun j below => by
        rcases Nat.lt_succ_iff_lt_or_eq.mp below with old | rfl
        · exact sofar j old
        · exact ⟨Nat.not_le.mp next.1, not_not.mp next.2⟩
      exact ⟨by omega, further.2⟩

/-- Placing a run of absent blocks from a stage that holds the source's bytes. -/
theorem placeRun_spec (idx : Nat) (stage : Nat → Byte) (more k : Nat) (inv : CacheInv s contents)
    (live : s.disks id = some d)
    (run : ∀ j, k ≤ j → j < k + more → idx + j < d.nblocks ∧ d.state (idx + j) ≠ .dirty ∧
      ∀ i < blockSize, contents id ((idx + j) * blockSize + i) =
        s.browserDisks id ((idx + j) * blockSize + i))
    (staged : ∀ i < (k + more) * blockSize, idx * blockSize + i < d.size →
      stage i = s.browserDisks id (idx * blockSize + i)) :
    ∃ t, placeRun id idx stage k more s = some t ∧ CacheInv t contents ∧ SamePins s t := by
  induction more generalizing k s d with
  | zero => exact ⟨s, rfl, inv, .refl s⟩
  | succ more ih =>
    simp only [placeRun]
    split
    · simp only [live]
      obtain ⟨inRange, notDirty, unwritten⟩ := run k le_rfl (by omega)
      have disk := (inv.disk id d live).fill _ (p := fun j => stage (k * blockSize + j)) unwritten
        fun j bound inDisk => by
          have split : (idx + k) * blockSize + j = idx * blockSize + (k * blockSize + j) := by
            rw [Nat.add_mul, Nat.add_assoc]
          have inRun : k * blockSize + j < (k + (more + 1)) * blockSize := by
            have := Nat.mul_le_mul_right blockSize (show k + 1 ≤ k + (more + 1) by omega)
            rw [Nat.add_mul] at this
            omega
          rw [split] at inDisk ⊢
          exact staged _ inRun inDisk
      have placed := (inv.of_env s.env.tail).place live disk
      have pins := (SamePins.of_env s s.env.tail).trans
        (.place (idx + k) (some fun j => stage (k * blockSize + j)) .clean live notDirty nofun)
      obtain ⟨d', live', size, nblocks, -⟩ := pins.disk id d live
      obtain ⟨t, inserted, kept, pins'⟩ := cleanRingInsert_spec (idx + k) placed live'
        (nblocks ▸ inRange)
      have pinsT := pins.trans pins'
      obtain ⟨e, liveT, sizeT, nblocksT, dirtyT⟩ := pinsT.disk id d live
      obtain ⟨u, rest, keptU, pinsU⟩ := ih (k := k + 1) kept liveT
        (fun j low high => by
          obtain ⟨inRange, notDirty, unwritten⟩ := run j (by omega) (by omega)
          rw [nblocksT, pinsT.browserDisks]
          exact ⟨inRange, fun dirty => notDirty ((dirtyT _).mp dirty), unwritten⟩)
        (fun i bound inDisk => by
          rw [pinsT.browserDisks]
          exact staged i (by rwa [Nat.add_comm more, ← Nat.add_assoc]) (sizeT ▸ inDisk))
      exact ⟨u, by rw [DiskIo.consume, inserted]; exact rest, keptU, pinsT.trans pinsU⟩
    · exact ⟨_, rfl, inv.of_env s.env.tail, .of_env s s.env.tail⟩

/-- `diskio_block` returns a block that holds the contents, or reports that it could not. -/
theorem diskioBlock_spec (inv : CacheInv s contents) (live : s.disks id = some d)
    (inRange : idx < d.nblocks) :
    ∃ resident t, diskioBlock id idx s = some (resident, t) ∧ CacheInv t contents ∧
      SamePins s t ∧ ∀ p, resident = some p →
        ∀ j < blockSize, idx * blockSize + j < d.size →
          p j = contents id (idx * blockSize + j) := by
  -- Whatever block the table ends up with holds the contents.
  have found {t : DiskIo} {e : Disk} (kept : CacheInv t contents) (liveT : t.disks id = some e)
      (size : e.size = d.size) (nblocks : e.nblocks = d.nblocks) (p : Nat → Byte)
      (block : e.block idx = some p) : ∀ j < blockSize, idx * blockSize + j < d.size →
        p j = contents id (idx * blockSize + j) := by
    have blockInv := (kept.disk id e liveT).block idx (nblocks ▸ inRange)
    obtain ⟨q, stored, holds⟩ := blockInv.resident fun absent => by
      simp [blockInv.absent absent] at block
    obtain rfl := Option.some.inj (stored.symm.trans block)
    exact size ▸ holds
  simp only [diskioBlock, live]
  rw [if_neg (Nat.not_le.mpr inRange)]
  split
  · exact ⟨_, s, rfl, inv, .refl s, fun p block => found inv live rfl rfl p block⟩
  · rename_i absent
    have absent := not_not.mp absent
    split
    · obtain ⟨-, run⟩ := absentRun_spec d idx 1 (fetchRun - 1) fun j below => by
        obtain rfl := Nat.lt_one_iff.mp below
        exact ⟨inRange, absent⟩
      obtain ⟨t, placed, kept, pins⟩ := placeRun_spec (s := s.consume) idx
        (fetchStage (s.browserDisks id) (idx * blockSize)
          (min (absentRun d idx 1 (fetchRun - 1) * blockSize) (d.size - idx * blockSize)))
        (absentRun d idx 1 (fetchRun - 1)) 0
        (inv.of_env s.env.tail) live
        (fun j _ below => by
          obtain ⟨inRange, absent⟩ := run j (by omega)
          exact ⟨inRange, by simp [absent],
            ((inv.disk id d live).block (idx + j) inRange).unwritten (by simp [absent])⟩)
        (fun i bound inDisk => by
          rw [Nat.zero_add] at bound
          rw [fetchStage, if_pos (by omega)]
          rfl)
      obtain ⟨e, liveT, size, nblocks, -⟩ := pins.disk id d live
      refine ⟨_, t, by rw [placed]; rfl, kept, (SamePins.of_env s s.env.tail).trans pins,
        fun p block => found kept liveT size nblocks p (by simpa [liveT] using block)⟩
    · exact ⟨none, _, rfl, inv.of_env s.env.tail, .of_env s s.env.tail, by simp⟩

/-! ## Reading and writing -/

/-- The block, the offset in it and the length of the first chunk of a transfer. -/
theorem chunk_bounds (offset : Nat) {len : Nat} (some_ : len ≠ 0) :
    let inBlock := offset - offset / blockSize * blockSize
    let chunk := min (blockSize - inBlock) len
    offset / blockSize * blockSize + inBlock = offset ∧ inBlock < blockSize ∧ 0 < chunk ∧
      chunk ≤ len ∧ inBlock + chunk ≤ blockSize ∧
      (chunk < len → (offset + chunk) % blockSize = 0) := by
  simp only [blockSize]
  omega

/-- A range inside the disk lies inside its tables. -/
theorem DiskInv.index_lt (inv : DiskInv d source c) (offset : Nat) (inside : offset < d.size) :
    offset / blockSize < d.nblocks :=
  (Nat.div_lt_iff_lt_mul (by decide)).mpr (Nat.lt_of_lt_of_le inside inv.covers)

/-- A read that returns 0 has copied the contents, and no read changes them. -/
theorem rwLoop_read {fuel : Nat} (buf : List Byte) (offset len : Nat) (inv : CacheInv s contents)
    (live : s.disks id = some d) (enough : len ≤ fuel) (inside : offset + len ≤ d.size) :
    ∃ r, rwLoop id false fuel offset len buf s = some r ∧ CacheInv r.after contents ∧
      SamePins s r.after ∧ (r.status = 0 → r.moved = slice (contents id) offset len) := by
  induction fuel generalizing offset len buf s d with
  | zero =>
    obtain rfl := Nat.le_zero.mp enough
    exact ⟨_, rfl, inv, .refl s, fun _ => rfl⟩
  | succ fuel ih =>
    simp only [rwLoop]
    split
    · rename_i empty
      subst empty
      exact ⟨_, rfl, inv, .refl s, fun _ => rfl⟩
    rename_i some_
    obtain ⟨at_, inBlock, positive, short, fits, -⟩ := chunk_bounds offset some_
    generalize offset - offset / blockSize * blockSize = start at *
    generalize min (blockSize - start) len = chunk at *
    obtain ⟨resident, t, block, kept, pins, holds⟩ :=
      diskioBlock_spec inv live ((inv.disk id d live).index_lt offset (by omega))
    rw [block]
    cases resident with
    | none => exact ⟨_, rfl, kept, pins, by simp⟩
    | some p =>
      obtain ⟨e, liveT, size, -, -⟩ := pins.disk id d live
      obtain ⟨r, rest, keptR, pinsR, read⟩ := ih (buf.drop chunk) (offset + chunk) (len - chunk) kept liveT
        (by omega) (by omega)
      refine ⟨{ r with moved := slice p start chunk ++ r.moved }, by simp [rest], keptR,
        pins.trans pinsR, fun ok => ?_⟩
      have first : slice p start chunk = slice (contents id) offset chunk :=
        slice_congr fun i bound => by
          rw [holds p rfl _ (by omega) (by omega), ← Nat.add_assoc, at_]
      simp only [read ok, first]
      rw [← slice_append, Nat.add_sub_cancel' short]

/-- `t` has the same disks as `s` and every block pinned in `s` is pinned in `t`. -/
structure KeepsPins (s t : DiskIo) : Prop where
  browserDisks : t.browserDisks = s.browserDisks
  free : ∀ id, s.disks id = none → t.disks id = none
  disk : ∀ id d, s.disks id = some d → ∃ d', t.disks id = some d' ∧ d'.size = d.size ∧
    d'.nblocks = d.nblocks ∧ ∀ idx, d.state idx = .dirty → d'.state idx = .dirty

theorem SamePins.keeps (pins : SamePins s t) : KeepsPins s t where
  browserDisks := pins.browserDisks
  free := pins.free
  disk id d live := by
    obtain ⟨d', live', size, nblocks, dirty⟩ := pins.disk id d live
    exact ⟨d', live', size, nblocks, fun idx => (dirty idx).mpr⟩

theorem KeepsPins.trans (first : KeepsPins s t) (second : KeepsPins t u) : KeepsPins s u where
  browserDisks := second.browserDisks.trans first.browserDisks
  free id unused := second.free id (first.free id unused)
  disk id d live := by
    obtain ⟨d', live', size', nblocks', pins'⟩ := first.disk id d live
    obtain ⟨d'', live'', size'', nblocks'', pins''⟩ := second.disk id d' live'
    exact ⟨d'', live'', size''.trans size', nblocks''.trans nblocks',
      fun idx dirty => pins'' idx (pins' idx dirty)⟩

/-- The contents after `bytes` were written to one disk. -/
def writeContents (contents : Nat → Nat → Byte) (id offset : Nat) (bytes : List Byte) :
    Nat → Nat → Byte :=
  Function.update contents id (overlay (contents id) offset bytes)

/-- The bytes of the range lie in pinned blocks. -/
def Pinned (s : DiskIo) (id offset len : Nat) : Prop :=
  ∀ d, s.disks id = some d → ∀ i < len, d.state ((offset + i) / blockSize) = .dirty

theorem Pinned.keep {offset len : Nat} (pinned : Pinned s id offset len) (pins : KeepsPins s t)
    (live : s.disks id = some d) : Pinned t id offset len := by
  intro e liveT i bound
  obtain ⟨d', live', -, -, dirty⟩ := pins.disk id d live
  obtain rfl := Option.some.inj (live'.symm.trans liveT)
  exact dirty _ (pinned d live i bound)

/-- Storing a chunk writes it to the contents and pins its block. -/
theorem storeChunk_spec (inBlock : Nat) {p : Nat → Byte} (piece : List Byte)
    (inv : CacheInv s contents) (live : s.disks id = some d)
    (fits : inBlock + piece.length ≤ blockSize)
    (holds : ∀ j < blockSize, idx * blockSize + j < d.size →
      p j = contents id (idx * blockSize + j)) :
    ∃ t, storeChunk id idx inBlock p piece s = some t ∧
      CacheInv t (writeContents contents id (idx * blockSize + inBlock) piece) ∧
      KeepsPins s t ∧ Pinned t id (idx * blockSize + inBlock) piece.length := by
  refine ⟨s.setDisk id (some (d.place idx (some (overlay p inBlock piece)) .dirty)),
    by simp only [storeChunk, live, Option.map_some],
    inv.replace live ((inv.disk id d live).write fits holds), ⟨rfl, ?_, ?_⟩, ?_⟩
  · intro id' unused
    by_cases here : id' = id
    · simp [here, live] at unused
    · simpa [DiskIo.setDisk, Function.update_of_ne here] using unused
  · intro id' e found
    by_cases here : id' = id
    · subst here
      obtain rfl := Option.some.inj (live.symm.trans found)
      refine ⟨_, Function.update_self .., rfl, rfl, fun i dirty => ?_⟩
      by_cases at_ : i = idx
      · simp [Disk.place, at_]
      · simpa [Disk.place, Function.update_of_ne at_] using dirty
    · exact ⟨e, by simpa [DiskIo.setDisk, Function.update_of_ne here] using found, rfl, rfl,
        fun _ dirty => dirty⟩
  · intro e found i bound
    simp only [DiskIo.setDisk, Function.update_self, Option.some.injEq] at found
    have index : (idx * blockSize + inBlock + i) / blockSize = idx := by
      simp only [blockSize] at *
      omega
    rw [← found, index]
    simp [Disk.place]

/-- A write stores a prefix of its bytes: all of them if it returns 0, else whole chunks. What
it stored is in the contents, in pinned blocks. -/
theorem rwLoop_write {fuel : Nat} (buf : List Byte) (offset : Nat) (inv : CacheInv s contents)
    (live : s.disks id = some d) (enough : buf.length ≤ fuel)
    (inside : offset + buf.length ≤ d.size) :
    ∃ r, rwLoop id true fuel offset buf.length buf s = some r ∧
      CacheInv r.after (writeContents contents id offset r.moved) ∧ KeepsPins s r.after ∧
      Pinned r.after id offset r.moved.length ∧ r.moved <+: buf ∧
      (r.status = 0 → r.moved = buf) ∧
      (r.status ≠ 0 → r.moved.length < buf.length ∧
        (r.moved = [] ∨ (offset + r.moved.length) % blockSize = 0)) := by
  have nothing : writeContents contents id offset [] = contents := by
    simp [writeContents]
  induction fuel generalizing offset buf s d contents with
  | zero =>
    obtain rfl := List.length_eq_zero_iff.mp (Nat.le_zero.mp enough)
    exact ⟨_, rfl, nothing.symm ▸ inv, (SamePins.refl s).keeps, by simp [Pinned], by simp,
      by simp, by simp⟩
  | succ fuel ih =>
    simp only [rwLoop]
    split
    · rename_i empty
      obtain rfl := List.length_eq_zero_iff.mp empty
      exact ⟨_, rfl, nothing.symm ▸ inv, (SamePins.refl s).keeps, by simp [Pinned], by simp,
        by simp, by simp⟩
    rename_i some_
    obtain ⟨at_, inBlock, positive, short, fits, boundary⟩ := chunk_bounds offset some_
    generalize offset - offset / blockSize * blockSize = start at *
    generalize min (blockSize - start) buf.length = chunk at *
    obtain ⟨resident, t, block, kept, pins, holds⟩ :=
      diskioBlock_spec inv live ((inv.disk id d live).index_lt offset (by omega))
    rw [block]
    cases resident with
    | none =>
      exact ⟨_, rfl, nothing.symm ▸ kept, pins.keeps, by simp [Pinned], by simp,
        by simp, fun _ => ⟨by simp; omega, .inl rfl⟩⟩
    | some p =>
      have pieceLength : (buf.take chunk).length = chunk := List.length_take_of_le short
      obtain ⟨e, liveT, size, -, -⟩ := pins.disk id d live
      obtain ⟨v, stored, keptV, pinsV, pinned⟩ := storeChunk_spec start
        (buf.take chunk) kept liveT (by rwa [pieceLength])
        (fun j bound inDisk => holds p rfl j bound (size ▸ inDisk))
      rw [at_] at keptV pinned
      obtain ⟨f, liveV, sizeV, -, -⟩ := pinsV.disk id e liveT
      have restLength : (buf.drop chunk).length = buf.length - chunk := List.length_drop
      obtain ⟨r, rest, keptR, pinsR, pinnedR, pre, all, whole⟩ := ih (buf.drop chunk)
        (offset + chunk) keptV liveV (by omega) (by omega) (by simp [writeContents])
      rw [restLength] at rest
      have together : writeContents (writeContents contents id offset (buf.take chunk)) id
          (offset + chunk) r.moved = writeContents contents id offset (buf.take chunk ++ r.moved) := by
        simp only [writeContents, Function.update_self, Function.update_idem, overlay_append,
          pieceLength]
      refine ⟨{ r with moved := buf.take chunk ++ r.moved }, by simp [stored, rest], ?_,
        (pins.keeps.trans pinsV).trans pinsR, ?_, ?_, fun ok => ?_, fun failed => ?_⟩
      · exact together ▸ keptR
      · intro g liveR i bound
        by_cases inFirst : i < chunk
        · exact pinned.keep pinsR liveV g liveR i (by rwa [pieceLength])
        · have := pinnedR g liveR (i - chunk) (by simp [pieceLength] at bound; omega)
          rwa [show offset + chunk + (i - chunk) = offset + i by omega] at this
      · obtain ⟨tail, whole⟩ := pre
        exact ⟨tail, by rw [List.append_assoc, whole, List.take_append_drop]⟩
      · simp only [all ok, List.take_append_drop]
      · obtain ⟨less, boundary'⟩ := whole failed
        rw [restLength] at less
        refine ⟨by simp only [List.length_append, pieceLength]; omega, .inr ?_⟩
        rcases boundary' with none_ | boundary'
        · simp only [none_, List.append_nil, pieceLength]
          exact boundary (by omega)
        · rwa [List.length_append, pieceLength, ← Nat.add_assoc]

/-! ## Preloading, registering and unregistering -/

/-- A preload of `len` bytes leaves no block of the disk half covered. -/
def PreloadWhole (d : Disk) (len : Nat) : Bool :=
  d.size ≤ len || len ≤ (d.nblocks - 1) * blockSize || d.state (d.nblocks - 1) ≠ .absent

theorem preloadWhole_iff {len : Nat} : PreloadWhole d len = true ↔
    d.size ≤ len ∨ len ≤ (d.nblocks - 1) * blockSize ∨ d.state (d.nblocks - 1) ≠ .absent := by
  simp [PreloadWhole, or_assoc]

/-- A preload of whole blocks, or up to the disk's end, keeps the contents. -/
theorem preloadLoop_spec {len more : Nat} (resident : Nat) (inv : CacheInv s contents)
    (live : s.disks id = some d) (inRange : idx + more ≤ d.nblocks)
    (covered : (idx + more) * blockSize < len + blockSize) (whole : PreloadWhole d len = true) :
    CacheInv (preloadLoop id len (s.browserDisks id) idx more resident s).2 contents ∧
      SamePins s (preloadLoop id len (s.browserDisks id) idx more resident s).2 := by
  induction more generalizing idx resident s d with
  | zero => exact ⟨inv, .refl s⟩
  | succ more ih =>
    rw [show idx + (more + 1) = idx + 1 + more by omega] at inRange covered
    simp only [preloadLoop, live]
    split
    · exact ⟨inv, .refl s⟩
    rename_i full
    split
    · exact ih _ inv live inRange covered whole
    rename_i absent
    have absent := not_not.mp absent
    split
    · have started : idx * blockSize < len := by
        have := Nat.mul_le_mul_right blockSize (show idx + 1 ≤ idx + 1 + more by omega)
        rw [Nat.add_mul] at this
        omega
      have disk := (inv.disk id d live).fill idx
        (p := fun j => if j < min (len - idx * blockSize) blockSize then
          s.browserDisks id (idx * blockSize + j) else 0)
        (((inv.disk id d live).block idx (by omega)).unwritten (by simp [absent]))
        fun j bound inDisk => by
          -- Only the disk's last block may be staged in part, and then up to the disk's end.
          refine if_pos (lt_min ?_ bound)
          by_contra short
          have partial_ := lt_of_le_of_lt (not_lt.mp short) bound
          obtain rfl := not_not.mp fun other => full ⟨lt_of_le_of_lt (Nat.min_le_left ..) partial_, other⟩
          rcases preloadWhole_iff.mp whole with toEnd | before | resident
          · omega
          · omega
          · exact resident absent
      have placed := (inv.of_env s.env.tail).place live disk
      have pins := (SamePins.of_env s s.env.tail).trans (.place idx
        (some fun j => if j < min (len - idx * blockSize) blockSize then
          s.browserDisks id (idx * blockSize + j) else 0)
        .clean live (by simp [absent]) nofun)
      obtain ⟨kept, pins'⟩ := ih (resident + 1) placed (Function.update_self ..)
        inRange covered (preloadWhole_iff.mpr
          ((preloadWhole_iff.mp whole).imp_right (Or.imp_right fun resident => by
            by_cases here : d.nblocks - 1 = idx
            · simp [Disk.place, here]
            · simpa [Disk.place, Function.update_of_ne here] using resident)))
      exact ⟨kept, pins.trans pins'⟩
    · exact ⟨inv.of_env s.env.tail, .of_env s s.env.tail⟩

theorem diskioPreload_spec (len : Nat) (inv : CacheInv s contents)
    (whole : ∀ d, s.disks id = some d → PreloadWhole d len = true) :
    CacheInv (diskioPreload id len s).2 contents ∧ SamePins s (diskioPreload id len s).2 := by
  simp only [diskioPreload]
  split
  · exact ⟨inv, .refl s⟩
  split
  · exact ⟨inv, .refl s⟩
  rename_i d live
  split
  · exact ⟨inv, .refl s⟩
  · refine preloadLoop_spec _ inv live (by omega) ?_ (whole d live)
    simp only [blockSize]
    omega

/-- An unregistered slot leaves the other disks as they were. -/
theorem diskioUnregister_spec (inv : CacheInv s contents) :
    CacheInv (diskioUnregister id s) contents := by
  simp only [diskioUnregister]
  split
  · exact inv
  refine ⟨fun id' d live => ?_, fun e inRing d live => ?_, inv.ringLength⟩
  · by_cases here : id' = id
    · simp [DiskIo.setDisk, here] at live
    · exact inv.disk id' d (by simpa [DiskIo.setDisk, Function.update_of_ne here] using live)
  · by_cases here : e.1 = id
    · simp [DiskIo.setDisk, here] at live
    · exact inv.ring e inRing d (by simpa [DiskIo.setDisk, Function.update_of_ne here] using live)

/-- No ring entry of the slot that a disk of `size` bytes would take lies past its blocks. -/
def RegisterInRing (size : Nat) (s : DiskIo) : Bool :=
  match freeSlot s with
  | none => true
  | some i => s.cleanRing.all fun e => e.1 ≠ i || e.2 < nblocksOf size

/-- What a registration does: nothing, or an empty table for a source of `size` bytes. -/
theorem diskioRegister_cases (size : Nat) (source : Nat → Byte) (s : DiskIo) :
    (∃ env, diskioRegister size source s = (none, { s with env })) ∨
      ∃ i env, freeSlot s = some i ∧ 0 < size ∧ nblocksOf size * 4 < 0x100000000 ∧
        diskioRegister size source s = (some i,
          { s.setDisk i (some ⟨size, nblocksOf size, fun _ => none, fun _ => .absent⟩) with
            browserDisks := Function.update s.browserDisks i source, env }) := by
  simp only [diskioRegister]
  split
  · exact .inl ⟨s.env, rfl⟩
  split
  · exact .inl ⟨s.env, rfl⟩
  rename_i i free
  split
  · rename_i succeeds
    simp only [callocFits, Bool.and_eq_true, decide_eq_true_eq] at succeeds
    exact .inr ⟨i, s.env.tail.tail, free, by omega, succeeds.1.2, rfl⟩
  · exact .inl ⟨s.env.tail.tail, rfl⟩

/-- The tables of a disk that was just registered hold its source. -/
theorem DiskInv.registered {size : Nat} (source : Nat → Byte) (positive : 0 < size)
    (fits : nblocksOf size * 4 < 0x100000000) :
    DiskInv ⟨size, nblocksOf size, fun _ => none, fun _ => .absent⟩ source source where
  covers := by
    simp only [nblocksOf, toUint32, blockSize] at *
    omega
  last := by
    simp only [nblocksOf, toUint32, blockSize] at *
    omega
  block _ _ := ⟨fun _ => rfl, fun resident => absurd rfl resident, fun _ _ _ => rfl⟩

theorem CacheInv.register {size i : Nat} (env : List Bool) (inv : CacheInv s contents)
    (free : freeSlot s = some i) (inRing : RegisterInRing size s = true)
    (disk : DiskInv ⟨size, nblocksOf size, fun _ => none, fun _ => .absent⟩ source source) :
    CacheInv { s.setDisk i (some ⟨size, nblocksOf size, fun _ => none, fun _ => .absent⟩) with
        browserDisks := Function.update s.browserDisks i source, env }
      (Function.update contents i source) where
  disk id d live := by
    by_cases here : id = i
    · subst here
      simp only [DiskIo.setDisk, Function.update_self, Option.some.injEq] at live ⊢
      exact live ▸ disk
    · simp only [DiskIo.setDisk, Function.update_of_ne here] at live ⊢
      exact inv.disk id d live
  ring e member d live := by
    by_cases here : e.1 = i
    · simp only [DiskIo.setDisk, here, Function.update_self, Option.some.injEq] at live
      simp only [RegisterInRing, free, List.all_eq_true, Bool.or_eq_true, decide_eq_true_eq] at inRing
      exact live ▸ (inRing e member).resolve_left (not_not.mpr here)
    · simp only [DiskIo.setDisk, Function.update_of_ne here] at live
      exact inv.ring e member d live
  ringLength := inv.ringLength

end

end PCemWeb.Platform
