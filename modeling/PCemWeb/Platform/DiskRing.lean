import PCemWeb.Platform.DiskCacheMoves
import PCemWeb.Platform.DiskSession

/-!
# Evictions stay inside the tables

Entries stay in the ring after their disk is unregistered, and `clean_ring_insert` checks only that
the slot of an entry is in use. `EvictsInRange` says that every entry of a live slot is inside that
slot's tables and that no operation indexes one out of range. It holds in every session whose
registrations take no slot for which the ring has an entry past the new disk's blocks, and
`staleOps` leads out of it.
-/

namespace PCemWeb.Platform

open PCemWeb.Lib

/-- Live entries of the ring are inside their tables, and so is every access of every operation. -/
structure EvictsInRange (s : Session) : Prop where
  ring : ∀ e ∈ s.cache.cleanRing, ∀ d, s.cache.disks e.1 = some d → e.2 < d.nblocks
  defined : ∀ op, (s.step op).isSome

/-- No registration takes a slot for which the ring has an entry past the new disk's blocks. -/
def Session.RingKept (s : Session) : DiskOp × List Bool → Bool
  | (.register size _, _) => RegisterInRing size s.cache
  | _ => true

/-- The tables cover their disks, and the ring's live entries are inside them. -/
structure Shaped (s : DiskIo) : Prop where
  covers : ∀ id d, s.disks id = some d → d.size ≤ d.nblocks * blockSize
  ring : ∀ e ∈ s.cleanRing, ∀ d, s.disks e.1 = some d → e.2 < d.nblocks

variable {s t : DiskIo} {v w : View} {id idx : Nat} {d : Disk}

/-! ## Moves keep the shape -/

/-- The disks of `t` have the sizes that they have in `s`. -/
theorem Shaped.of_sizes (inv : Shaped s)
    (sizes : ∀ id d, t.disks id = some d →
      ∃ e, s.disks id = some e ∧ d.size = e.size ∧ d.nblocks = e.nblocks)
    (ring : ∀ e ∈ t.cleanRing, e ∈ s.cleanRing ∨
      ∀ d, t.disks e.1 = some d → e.2 < d.nblocks) : Shaped t where
  covers id d live := by
    obtain ⟨e, live', size, nblocks⟩ := sizes id d live
    rw [size, nblocks]
    exact inv.covers id e live'
  ring e inRing d live := by
    rcases ring e inRing with old | inRange
    · obtain ⟨d', live', -, nblocks⟩ := sizes e.1 d live
      rw [nblocks]
      exact inv.ring e old d' live'
    · exact inRange d live

/-- A disk that is live after the evictions was live before them. -/
theorem Evicted.live (evicted : Evicted s t) (live : t.disks id = some d) :
    ∃ e, s.disks id = some e ∧ d.size = e.size ∧ d.nblocks = e.nblocks := by
  cases before : s.disks id with
  | none => cases (evicted.free id before).symm.trans live
  | some e =>
    obtain ⟨d', live', size, nblocks, -⟩ := evicted.disk id e before
    obtain rfl := Option.some.inj (live.symm.trans live')
    exact ⟨e, rfl, size, nblocks⟩

theorem setDisk_place_live {p : Option (Nat → Byte)} {st : BlkState} {id' : Nat} {d' : Disk}
    (live : s.disks id = some d)
    (live' : (s.setDisk id (some (d.place idx p st))).disks id' = some d') :
    ∃ e, s.disks id' = some e ∧ d'.size = e.size ∧ d'.nblocks = e.nblocks := by
  rcases eq_or_ne id' id with rfl | other
  · simp only [DiskIo.setDisk, Function.update_self, Option.some.injEq] at live'
    subst live'
    exact ⟨d, live, rfl, rfl⟩
  · exact ⟨d', (Function.update_of_ne other ..).symm.trans live', rfl, rfl⟩

/-- A block's entry may change. -/
theorem Shaped.place {p : Option (Nat → Byte)} {st : BlkState} (inv : Shaped s)
    (live : s.disks id = some d) : Shaped (s.setDisk id (some (d.place idx p st))) :=
  inv.of_sizes (fun _ _ live' => setDisk_place_live live live') fun _ old => .inl old

theorem Shaped.of_env (inv : Shaped s) (env : List Bool) : Shaped { s with env } :=
  ⟨inv.covers, inv.ring⟩

theorem Shaped.move (inv : Shaped v.cache) (move : Move v w) : Shaped w.cache := by
  cases move with
  | env env => exact inv.of_env env
  | @fault s t image id idx d p live inRange absent evicted =>
    have sizes (id' : Nat) (d' : Disk) (live' : t.disks id' = some d') :
        ∃ e, s.disks id' = some e ∧ d'.size = e.size ∧ d'.nblocks = e.nblocks := by
      obtain ⟨e, placed, size, nblocks⟩ := evicted.live live'
      obtain ⟨e', live'', size', nblocks'⟩ := setDisk_place_live live placed
      exact ⟨e', live'', size.trans size', nblocks.trans nblocks'⟩
    refine inv.of_sizes sizes fun e inRing => ?_
    rcases List.mem_append.mp inRing with old | new
    · exact .inl (evicted.ring e old)
    · obtain rfl := List.mem_singleton.mp new
      refine .inr fun d' live' => ?_
      obtain ⟨e, live'', -, nblocks⟩ := sizes id d' live'
      obtain rfl := Option.some.inj (live.symm.trans live'')
      exact nblocks ▸ inRange
  | @store s image id idx inBlock d p piece live =>
    exact inv.place live

theorem Shaped.moves (inv : Shaped v.cache) (moves : Moves v w) : Shaped w.cache := by
  induction moves with
  | refl => exact inv
  | tail _ move ih => exact ih.move move

/-! ## No access is out of range -/

theorem evictOldest_defined {ring : List (Nat × Nat)}
    (inRange : ∀ e ∈ ring, ∀ d, s.disks e.1 = some d → e.2 < d.nblocks) :
    ∃ t, evictOldest ring s = some t := by
  induction ring with
  | nil => exact ⟨_, rfl⟩
  | cons e rest ih =>
    have skip : ∃ t, evictOldest rest s = some t := ih fun e inRest => inRange e (.tail _ inRest)
    unfold evictOldest
    split
    · exact skip
    rename_i d live
    split
    · rename_i outside
      exact absurd (inRange e (.head _) d live) (not_lt.mpr outside)
    split
    · exact ⟨_, rfl⟩
    · exact skip

theorem cleanRingInsert_defined (inv : Shaped s) : ∃ t, cleanRingInsert id idx s = some t := by
  unfold cleanRingInsert
  split
  · obtain ⟨t, done⟩ := evictOldest_defined inv.ring
    exact ⟨_, Option.map_eq_some_iff.mpr ⟨t, done, rfl⟩⟩
  · exact ⟨_, rfl⟩

theorem placeRun_defined {stage : Nat → Byte} {k more : Nat} (inv : Shaped s)
    (live : s.disks id = some d) (run : AbsentRun id idx k more s) :
    ∃ t, placeRun id idx stage k more s = some t := by
  induction more generalizing k s d with
  | zero => exact ⟨s, rfl⟩
  | succ more ih =>
    unfold placeRun
    split
    · simp only [live]
      obtain ⟨inRange, absent⟩ := run d live k (Nat.le_refl k) (by omega)
      have kept : Shaped s.consume := inv.of_env s.env.tail
      have placed : Shaped (s.consume.setDisk id (some (d.place (idx + k)
          (some fun j => stage (k * blockSize + j)) .clean))) := kept.place live
      have entered : ∃ after, cleanRingInsert id (idx + k) (s.consume.setDisk id
          (some (d.place (idx + k) (some fun j => stage (k * blockSize + j)) .clean))) =
            some after := cleanRingInsert_defined placed
      obtain ⟨after, inserted⟩ := entered
      obtain ⟨u, evicted, rfl⟩ := cleanRingInsert_eq inserted
      have faulted : Move ⟨s.consume, fun _ _ => 0⟩ _ := .fault live inRange absent evicted
      have consumed : AbsentRun id idx k (more + 1) s.consume := run
      obtain ⟨d', live', -⟩ := faulted.disk live
      have left : AbsentRun id idx (k + 1) more u := consumed.next live evicted
      obtain ⟨t, done⟩ := ih (kept.move faulted) live' left
      exact ⟨t, Option.bind_eq_some_iff.mpr ⟨_, inserted, done⟩⟩
    · exact ⟨_, rfl⟩

theorem diskioBlock_defined (inv : Shaped s) (live : s.disks id = some d)
    (inRange : idx < d.nblocks) : ∃ fetched, diskioBlock id idx s = some fetched := by
  simp only [diskioBlock, live]
  split
  · omega
  split
  · exact ⟨_, rfl⟩
  rename_i absent
  split
  · have first : ∀ j < 1, idx + j < d.nblocks ∧ d.state (idx + j) = .absent := by
      intro j zero
      obtain rfl := Nat.lt_one_iff.mp zero
      exact ⟨inRange, not_not.mp absent⟩
    have run : AbsentRun id idx 0 (absentRun d idx 1 (fetchRun - 1)) s.consume := by
      intro d' live' j _ high
      obtain rfl := Option.some.inj (live.symm.trans live')
      exact (absentRun_spec d idx 1 (fetchRun - 1) first).2 j (by omega)
    obtain ⟨t, placed⟩ := placeRun_defined (inv.of_env s.env.tail) live run
    exact ⟨_, Option.map_eq_some_iff.mpr ⟨t, placed, rfl⟩⟩
  · exact ⟨_, rfl⟩

theorem rwLoop_defined {isWrite : Bool} {fuel offset len : Nat} {buf : List Byte} (inv : Shaped s)
    (live : s.disks id = some d) (enough : len ≤ fuel) (inside : offset + len ≤ d.size)
    (whole : isWrite = true → buf.length = len) :
    ∃ r, rwLoop id isWrite fuel offset len buf s = some r := by
  induction fuel generalizing offset len buf s d with
  | zero =>
    obtain rfl := Nat.le_zero.mp enough
    exact ⟨_, rfl⟩
  | succ fuel ih =>
    simp only [rwLoop]
    split
    · exact ⟨_, rfl⟩
    rename_i some_
    obtain ⟨-, -, positive, within, fits, -⟩ := chunk_bounds offset some_
    generalize offset - offset / blockSize * blockSize = inBlock at *
    generalize min (blockSize - inBlock) len = chunk at *
    have inRange : offset / blockSize < d.nblocks := by
      refine (Nat.div_lt_iff_lt_mul (by decide)).mpr (lt_of_lt_of_le ?_ (inv.covers id d live))
      omega
    obtain ⟨⟨resident, after⟩, fetched⟩ := diskioBlock_defined inv live inRange
    have fetch : Moves ⟨s, fun _ _ => 0⟩ ⟨after, fun _ _ => 0⟩ ∧ _ := moves_diskioBlock fetched
    obtain ⟨moves, found⟩ := fetch
    have kept : Shaped after := inv.moves moves
    obtain ⟨d', live', size', -⟩ := moves.disk live
    simp only [fetched, Option.bind_some]
    cases resident with
    | none => exact ⟨_, rfl⟩
    | some p =>
      dsimp only
      cases isWrite with
      | false =>
        have rest : ∃ r, rwLoop id false fuel (offset + chunk) (len - chunk) (buf.drop chunk)
            after = some r :=
          ih kept live' (by omega) (by omega) (absurd · Bool.false_ne_true)
        obtain ⟨r, rest⟩ := rest
        exact ⟨_, Option.map_eq_some_iff.mpr ⟨r, rest, rfl⟩⟩
      | true =>
        have length := whole rfl
        have stored : storeChunk id (offset / blockSize) inBlock p (buf.take chunk) after =
            some (after.setDisk id (some (d'.place (offset / blockSize)
              (some (overlay p inBlock (buf.take chunk))) .dirty))) := by
          rw [storeChunk, live', Option.map_some]
        have rest : ∃ r, rwLoop id true fuel (offset + chunk) (len - chunk) (buf.drop chunk)
            (after.setDisk id (some (d'.place (offset / blockSize)
              (some (overlay p inBlock (buf.take chunk))) .dirty))) = some r := by
          refine ih (kept.place live') (Function.update_self ..) (by omega) ?_ fun _ => ?_
          · change offset + chunk + (len - chunk) ≤ d'.size
            omega
          · rw [List.length_drop, length]
        obtain ⟨r, rest⟩ := rest
        simp only [if_true, stored, Option.bind_some]
        exact ⟨_, Option.map_eq_some_iff.mpr ⟨r, rest, rfl⟩⟩

theorem diskioRw_defined {offset len : Nat} {buf : List Byte} {isWrite : Bool} (inv : Shaped s)
    (whole : isWrite = true → buf.length = len) :
    ∃ r, diskioRw id offset len buf isWrite s = some r := by
  unfold diskioRw
  split
  · exact ⟨_, rfl⟩
  split
  · exact ⟨_, rfl⟩
  rename_i d live
  split
  · exact ⟨_, rfl⟩
  · rename_i inside
    exact rwLoop_defined inv live le_rfl (not_lt.mp inside) whole

/-! ## Steps and runs -/

theorem Shaped.preload {len : Nat} {stage : Nat → Byte} (inv : Shaped s)
    (frame : PreloadFrame id len stage s t) : Shaped t := by
  refine inv.of_sizes (fun id' d live => ?_) fun e old => .inl (frame.ring ▸ old)
  rcases eq_or_ne id' id with rfl | other
  · cases before : s.disks id' with
    | none => cases (frame.free before).symm.trans live
    | some d' =>
      obtain ⟨d'', live', placed⟩ := frame.disk d' before
      obtain rfl := Option.some.inj (live.symm.trans live')
      exact ⟨d', rfl, placed.size, placed.nblocks⟩
  · exact ⟨d, (frame.others id' other).symm.trans live, rfl, rfl⟩

theorem Shaped.unregister (inv : Shaped s) : Shaped (diskioUnregister id s) := by
  unfold diskioUnregister
  split
  · exact inv
  · refine inv.of_sizes (fun id' d live => ?_) fun _ old => .inl old
    rcases eq_or_ne id' id with rfl | other
    · cases (Function.update_self ..).symm.trans live
    · exact ⟨d, (Function.update_of_ne other ..).symm.trans live, rfl, rfl⟩

theorem Shaped.register {size i : Nat} {source : Nat → Byte} (env : List Bool) (inv : Shaped s)
    (free : freeSlot s = some i) (inRing : RegisterInRing size s = true) (positive : 0 < size)
    (fits : nblocksOf size * 4 < 0x100000000) :
    Shaped { s.setDisk i (some ⟨size, nblocksOf size, fun _ => none, fun _ => .absent⟩) with
      browserDisks := Function.update s.browserDisks i source, env } where
  covers id d live := by
    rcases eq_or_ne id i with rfl | other
    · simp only [DiskIo.setDisk, Function.update_self, Option.some.injEq] at live
      exact live ▸ (DiskInv.registered source positive fits).covers
    · exact inv.covers id d ((Function.update_of_ne other ..).symm.trans live)
  ring e inRing' d live := by
    rcases eq_or_ne e.1 i with here | other
    · simp only [DiskIo.setDisk, here, Function.update_self, Option.some.injEq] at live
      simp only [RegisterInRing, free, List.all_eq_true, Bool.or_eq_true, decide_eq_true_eq]
        at inRing
      exact live ▸ (inRing e inRing').resolve_left (not_not.mpr here)
    · exact inv.ring e inRing' d ((Function.update_of_ne other ..).symm.trans live)

theorem Shaped.step {s t : Session} {op : DiskOp × List Bool} (inv : Shaped s.cache)
    (kept : s.RingKept op = true) (next : s.step op = some t) : Shaped t.cache := by
  obtain ⟨op, env⟩ := op
  have start : Shaped { s.cache with env } := inv.of_env env
  cases op with
  | register size source =>
    simp only [Session.step] at next
    rcases diskioRegister_cases size source { s.cache with env } with
      ⟨env', failed⟩ | ⟨i, env', free, positive, fits, registered⟩
    · simp only [failed] at next
      cases next
      exact start.of_env env'
    · simp only [registered] at next
      cases next
      exact start.register env' free kept positive fits
  | unregister id =>
    cases next
    exact start.unregister
  | preload id len =>
    cases next
    exact start.preload preloadFrame_diskioPreload
  | read id offset len =>
    obtain ⟨r, done, rfl⟩ := Option.map_eq_some_iff.mp next
    have moves : Moves ⟨{ s.cache with env }, fun _ _ => 0⟩ ⟨r.after, fun _ _ => 0⟩ :=
      moves_diskioRead done
    exact start.moves moves
  | write id offset buf =>
    obtain ⟨r, done, rfl⟩ := Option.map_eq_some_iff.mp next
    have moves : Moves ⟨{ s.cache with env }, fun _ _ => 0⟩ ⟨r.after, _⟩ := moves_diskioWrite done
    exact start.moves moves

theorem Shaped.evictsInRange {s : Session} (inv : Shaped s.cache) : EvictsInRange s where
  ring := inv.ring
  defined op := by
    obtain ⟨op, env⟩ := op
    have start : Shaped { s.cache with env } := inv.of_env env
    cases op with
    | register size source =>
      simp only [Session.step]
      split <;> rfl
    | unregister id => rfl
    | preload id len => rfl
    | read id offset len =>
      obtain ⟨r, done⟩ : ∃ r, diskioRead id offset len { s.cache with env } = some r :=
        diskioRw_defined start (absurd · Bool.false_ne_true)
      exact Option.isSome_iff_exists.mpr ⟨_, Option.map_eq_some_iff.mpr ⟨r, done, rfl⟩⟩
    | write id offset buf =>
      obtain ⟨r, done⟩ : ∃ r, diskioWrite id offset buf { s.cache with env } = some r :=
        diskioRw_defined start fun _ => rfl
      exact Option.isSome_iff_exists.mpr ⟨_, Option.map_eq_some_iff.mpr ⟨r, done, rfl⟩⟩

theorem shaped_init : Shaped DiskIo.init where
  covers := nofun
  ring := nofun

/-- The ring stays inside the tables in every session whose registrations keep it there. -/
theorem evictsInRange_of_run {s : Session}
    (run : RunOk Session.step (fun s op => s.RingKept op = true) .init s) : EvictsInRange s :=
  Shaped.evictsInRange (run.invariant shaped_init Shaped.step)

/-- A disk of `4 * blockSize` bytes is registered, faulted in and unregistered `n` times, which
leaves `4 * n` stale entries of slot 0. -/
def staleOps (n : Nat) : List (DiskOp × List Bool) :=
  (List.replicate n [(.register (4 * blockSize) fun _ => 1, []), (.read 0 0 1, []),
    (.unregister 0, [])]).flatten

/-- The slot may be taken again by a disk as large. -/
theorem evictsInRange_of_staleOps : ∃ s, RunOk Session.step (fun s op => s.RingKept op = true)
    .init s ∧ s.cache.cleanRing = [(0, 0), (0, 1), (0, 2), (0, 3)] ∧
      (s.cache.disks 0).isSome ∧ EvictsInRange s := by
  obtain ⟨s, done⟩ := Option.isSome_iff_exists.mp (show (execOk Session.step Session.RingKept
    .init (staleOps 1 ++ [(.register (4 * blockSize) fun _ => 2, [])])).isSome from rfl)
  have run := RunOk.of_execOk (fun _ _ => id) done
  refine ⟨s, run, ?_, ?_, evictsInRange_of_run run⟩ <;> cases done <;> rfl

/-- With the ring full of stale entries, disks of 100 bytes and of one block take the slots 0 and
1, and the first fault evicts the entry of block 1 of slot 0. -/
def staleFault : List (DiskOp × List Bool) :=
  staleOps 128 ++ [(.register 100 fun _ => 1, []), (.register blockSize fun _ => 1, [])]

theorem not_evictsInRange_staleFault :
    ¬ ∀ ops s, exec Session.step .init ops = some s → EvictsInRange s := by
  intro inRange
  have reached : (exec Session.step .init staleFault).isSome := by decide +kernel
  have undefined : exec Session.step .init (staleFault ++ [(.read 1 0 1, [])]) = none :=
    Option.isNone_iff_eq_none.mp (by decide +kernel)
  obtain ⟨s, done⟩ := Option.isSome_iff_exists.mp reached
  obtain ⟨t, next⟩ := Option.isSome_iff_exists.mp ((inRange _ s done).defined (.read 1 0 1, []))
  rw [exec_append, done, Option.bind_some, exec, next] at undefined
  cases undefined

end PCemWeb.Platform
