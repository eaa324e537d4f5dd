import PCemWeb.Platform.DiskCacheExact

/-!
# Sessions with browser disks

A session interleaves registrations, preloads, reads, writes and unregistrations of any number
of disks, each with its own outcomes of the fetches and allocations it makes. Beside the
cache it records what every transfer stored, so a disk's contents are its source overlaid by
the writes since it was registered. `SessionExact` says that the cache never indexes a table
out of range, that reads yield the contents, and that written bytes stay pinned.
-/

namespace PCemWeb.Platform

open PCemWeb.Lib

/-- One operation on the disk engine. -/
inductive DiskOp
  | register (size : Nat) (source : Nat → Byte)
  | unregister (id : Nat)
  | preload (id len : Nat)
  | read (id offset len : Nat)
  | write (id offset : Nat) (buf : List Byte)

structure Session where
  cache : DiskIo
  /-- Ghost: what each write since the registration stored, and where. -/
  writes : Nat → List (Nat × List Byte)

namespace Session

def init : Session := ⟨.init, fun _ => []⟩

/-- The source of a disk overlaid in order by the writes since it was registered. -/
def contents (s : Session) (id : Nat) : Nat → Byte :=
  (s.writes id).foldl (fun bytes w => overlay bytes w.1 w.2) (s.cache.browserDisks id)

/-- One operation, with the outcomes of its fetches and allocations. It is undefined where
the engine indexes a table out of range. -/
def step (s : Session) : DiskOp × List Bool → Option Session
  | (.register size source, env) =>
    match diskioRegister size source { s.cache with env } with
    | (none, cache) => some { s with cache }
    | (some id, cache) => some ⟨cache, Function.update s.writes id []⟩
  | (.unregister id, env) => some { s with cache := diskioUnregister id { s.cache with env } }
  | (.preload id len, env) => some { s with cache := (diskioPreload id len { s.cache with env }).2 }
  | (.read id offset len, env) =>
    (diskioRead id offset len { s.cache with env }).map fun r => { s with cache := r.after }
  | (.write id offset buf, env) =>
    (diskioWrite id offset buf { s.cache with env }).map fun r =>
      ⟨r.after, Function.update s.writes id (s.writes id ++ [(offset, r.moved)])⟩

/-- The operation neither stages half of a disk's final block nor registers a disk over ring
entries past its end. -/
def Sound (s : Session) : DiskOp × List Bool → Bool
  | (.register size _, _) => RegisterInRing size s.cache
  | (.preload id len, _) =>
    match s.cache.disks id with
    | none => true
    | some d => PreloadWhole d len
  | _ => true

end Session

/-- Reads that return 0 yield the contents; writes store a prefix of whole chunks, all of it
if they return 0; and what was written stays in pinned blocks. -/
structure SessionExact (s : Session) : Prop where
  reads : ∀ env id offset len, ∃ r, diskioRead id offset len { s.cache with env } = some r ∧
    (r.status = 0 → r.moved = slice (s.contents id) offset len)
  writes : ∀ env id offset buf, ∃ r, diskioWrite id offset buf { s.cache with env } = some r ∧
    r.moved <+: buf ∧ (r.status = 0 → r.moved = buf) ∧
    (r.status ≠ 0 → r.moved = [] ∨ (offset + r.moved.length) % blockSize = 0)
  pinned : ∀ id, ∀ w ∈ s.writes id, Pinned s.cache id w.1 w.2.length

/-- The invariant of a session. -/
structure SessionInv (s : Session) : Prop where
  cache : CacheInv s.cache s.contents
  pinned : ∀ id, ∀ w ∈ s.writes id, Pinned s.cache id w.1 w.2.length

variable {s t : Session} {cache : DiskIo}

theorem SessionInv.init : SessionInv .init where
  cache := ⟨by simp [Session.init, DiskIo.init], by simp [Session.init, DiskIo.init],
    by simp [Session.init, DiskIo.init]⟩
  pinned := by simp [Session.init]

/-- `diskio_read` never faults, and reads the contents when it returns 0. -/
theorem SessionInv.read (inv : SessionInv s) (env : List Bool) (id offset len : Nat) :
    ∃ r, diskioRead id offset len { s.cache with env } = some r ∧
      CacheInv r.after s.contents ∧ SamePins s.cache r.after ∧
      (r.status = 0 → r.moved = slice (s.contents id) offset len) := by
  have refused : ∃ r : Transfer, some ⟨1, [], { s.cache with env }⟩ = some r ∧
      CacheInv r.after s.contents ∧ SamePins s.cache r.after ∧
      (r.status = 0 → r.moved = slice (s.contents id) offset len) :=
    ⟨_, rfl, inv.cache.of_env env, .of_env s.cache env, by simp⟩
  simp only [diskioRead, diskioRw]
  split
  · exact refused
  split
  · exact refused
  rename_i d live
  split
  · exact refused
  rename_i inside
  obtain ⟨r, done, kept, pins, ok⟩ := rwLoop_read [] _ _ (inv.cache.of_env env) live le_rfl
    (not_lt.mp inside)
  exact ⟨r, done, kept, (SamePins.of_env s.cache env).trans pins, ok⟩

/-- `diskio_write` never faults; it stores a prefix and pins it. -/
theorem SessionInv.write (inv : SessionInv s) (env : List Bool) (id offset : Nat)
    (buf : List Byte) :
    ∃ r, diskioWrite id offset buf { s.cache with env } = some r ∧
      CacheInv r.after (writeContents s.contents id offset r.moved) ∧
      KeepsPins s.cache r.after ∧ Pinned r.after id offset r.moved.length ∧
      r.moved <+: buf ∧ (r.status = 0 → r.moved = buf) ∧
      (r.status ≠ 0 → r.moved = [] ∨ (offset + r.moved.length) % blockSize = 0) := by
  have nothing : writeContents s.contents id offset [] = s.contents := by simp [writeContents]
  have refused : ∃ r : Transfer, some ⟨1, [], { s.cache with env }⟩ = some r ∧
      CacheInv r.after (writeContents s.contents id offset r.moved) ∧
      KeepsPins s.cache r.after ∧ Pinned r.after id offset r.moved.length ∧
      r.moved <+: buf ∧ (r.status = 0 → r.moved = buf) ∧
      (r.status ≠ 0 → r.moved = [] ∨ (offset + r.moved.length) % blockSize = 0) :=
    ⟨_, rfl, nothing.symm ▸ inv.cache.of_env env, (SamePins.of_env s.cache env).keeps,
      by simp [Pinned], by simp, by simp, by simp⟩
  simp only [diskioWrite, diskioRw]
  split
  · exact refused
  split
  · exact refused
  rename_i d live
  split
  · exact refused
  rename_i inside
  obtain ⟨r, done, kept, pins, pinned, pre, all, whole⟩ := rwLoop_write _ _ (inv.cache.of_env env)
    live le_rfl (not_lt.mp inside)
  exact ⟨r, done, kept, (SamePins.of_env s.cache env).keeps.trans pins, pinned, pre, all,
    fun failed => (whole failed).2⟩

theorem SessionInv.exact (inv : SessionInv s) : SessionExact s where
  reads env id offset len := by
    obtain ⟨r, done, -, -, ok⟩ := inv.read env id offset len
    exact ⟨r, done, ok⟩
  writes env id offset buf := by
    obtain ⟨r, done, -, -, -, outcome⟩ := inv.write env id offset buf
    exact ⟨r, done, outcome⟩
  pinned := inv.pinned

/-! ## Steps -/

/-- A cache with the same disks and pins keeps the session's record of writes. -/
theorem SessionInv.of_cache (inv : SessionInv s) (kept : CacheInv cache s.contents)
    (pins : SamePins s.cache cache) : SessionInv { s with cache } where
  cache := by
    have same : Session.contents { s with cache } = s.contents := by
      funext id
      simp only [Session.contents, pins.browserDisks]
    rwa [same]
  pinned id w recorded := by
    intro d live
    cases old : s.cache.disks id with
    | none => simp [pins.free id old] at live
    | some d' => exact (inv.pinned id w recorded).keep pins.keeps old d live

theorem SessionInv.of_write {id offset : Nat} {bytes : List Byte} (inv : SessionInv s)
    (kept : CacheInv cache (writeContents s.contents id offset bytes))
    (pins : KeepsPins s.cache cache) (pinned : Pinned cache id offset bytes.length) :
    SessionInv ⟨cache, Function.update s.writes id (s.writes id ++ [(offset, bytes)])⟩ where
  cache := by
    have written : Session.contents
        ⟨cache, Function.update s.writes id (s.writes id ++ [(offset, bytes)])⟩ =
          writeContents s.contents id offset bytes := by
      funext id'
      by_cases here : id' = id
      · subst here
        simp [Session.contents, writeContents, pins.browserDisks]
      · simp [Session.contents, writeContents, pins.browserDisks, Function.update_of_ne here]
    rwa [written]
  pinned id' w recorded := by
    have keep (old : w ∈ s.writes id') : Pinned cache id' w.1 w.2.length := by
      intro d live
      cases before : s.cache.disks id' with
      | none => simp [pins.free id' before] at live
      | some d' => exact (inv.pinned id' w old).keep pins before d live
    by_cases here : id' = id
    · subst here
      simp only [Function.update_self, List.mem_append, List.mem_singleton] at recorded
      rcases recorded with old | rfl
      · exact keep old
      · exact pinned
    · exact keep (by simpa [Function.update_of_ne here] using recorded)

theorem SessionInv.register {size : Nat} {source : Nat → Byte} {env : List Bool}
    (inv : SessionInv s) (inRing : RegisterInRing size s.cache = true)
    (next : s.step (.register size source, env) = some t) : SessionInv t := by
  simp only [Session.step] at next
  rcases diskioRegister_cases size source { s.cache with env } with
    ⟨env', failed⟩ | ⟨i, env', free, positive, fits, registered⟩
  · simp only [failed] at next
    cases next
    exact inv.of_cache (inv.cache.of_env env') (.of_env s.cache env')
  · simp only [registered] at next
    cases next
    have fresh := CacheInv.register env' (inv.cache.of_env env) free inRing
      (DiskInv.registered source positive fits)
    refine ⟨?_, fun id w recorded d live => ?_⟩
    · have same : Session.contents ⟨{ DiskIo.setDisk { s.cache with env } i
          (some ⟨size, nblocksOf size, fun _ => none, fun _ => .absent⟩) with
            browserDisks := Function.update s.cache.browserDisks i source, env := env' },
          Function.update s.writes i []⟩ = Function.update s.contents i source := by
        funext id
        by_cases here : id = i
        · simp [Session.contents, here]
        · simp [Session.contents, Function.update_of_ne here]
      rwa [same]
    · by_cases here : id = i
      · simp [here] at recorded
      · simp only [Function.update_of_ne here] at recorded
        simp only [DiskIo.setDisk, Function.update_of_ne here] at live
        exact inv.pinned id w recorded d live

theorem SessionInv.unregister {id : Nat} {env : List Bool} (inv : SessionInv s)
    (next : s.step (.unregister id, env) = some t) : SessionInv t := by
  cases next
  have contents : Session.contents
      { s with cache := diskioUnregister id { s.cache with env } } = s.contents := by
    funext id'
    simp only [Session.contents, diskioUnregister, DiskIo.setDisk]
    split <;> rfl
  refine ⟨contents ▸ diskioUnregister_spec (inv.cache.of_env env), fun id' w recorded d live => ?_⟩
  refine inv.pinned id' w recorded d ?_
  simp only [diskioUnregister] at live
  split at live
  · exact live
  · by_cases here : id' = id
    · simp [DiskIo.setDisk, here] at live
    · simpa [DiskIo.setDisk, Function.update_of_ne here] using live

theorem SessionInv.step {op : DiskOp × List Bool} (inv : SessionInv s)
    (sound : s.Sound op = true) (next : s.step op = some t) : SessionInv t := by
  obtain ⟨op, env⟩ := op
  cases op with
  | register size source => exact inv.register sound next
  | unregister id => exact inv.unregister next
  | preload id len =>
    cases next
    obtain ⟨kept, pins⟩ := diskioPreload_spec len (inv.cache.of_env env)
      fun d (live : s.cache.disks id = some d) => by simpa [Session.Sound, live] using sound
    exact inv.of_cache kept ((SamePins.of_env s.cache env).trans pins)
  | read id offset len =>
    obtain ⟨r, done, kept, pins, -⟩ := inv.read env id offset len
    simp only [Session.step, done, Option.map_some] at next
    cases next
    exact inv.of_cache kept pins
  | write id offset buf =>
    obtain ⟨r, done, kept, pins, pinned, -⟩ := inv.write env id offset buf
    simp only [Session.step, done, Option.map_some] at next
    cases next
    exact inv.of_write kept pins pinned

/-! ## Runs -/

/-- In a session whose preloads stage whole blocks or up to the disk's end, and whose
registrations keep the ring inside the tables, the cache refines a byte array. -/
theorem sessionExact_of_run (run : RunOk Session.step (fun s op => s.Sound op = true) .init s) :
    SessionExact s :=
  (run.invariant SessionInv.init SessionInv.step).exact

/-- A disk of 100 bytes, all 1, whose header is preloaded up to byte `len`. -/
def preloadOps (len : Nat) : List (DiskOp × List Bool) :=
  [(.register 100 fun _ => 1, []), (.preload 0 len, [])]

/-- After a whole preload and a write, a read across the written byte yields both. -/
theorem sessionExact_of_preloadOps :
    ∃ s, RunOk Session.step (fun s op => s.Sound op = true) .init s ∧
      (s.cache.disks 0).isSome ∧ SessionExact s := by
  obtain ⟨s, done⟩ := Option.isSome_iff_exists.mp (show (execOk Session.step Session.Sound .init
    (preloadOps 100 ++ [(.write 0 60 [2], [])])).isSome from rfl)
  have run := RunOk.of_execOk (fun _ _ => id) done
  exact ⟨s, run, by cases done; rfl, sessionExact_of_run run⟩

/-- A preload of 50 of the 100 bytes serves zeros for the others. -/
theorem not_sessionExact_preload :
    ¬ ∀ ops s, exec Session.step .init ops = some s → SessionExact s := by
  intro exact
  obtain ⟨s, done⟩ := Option.isSome_iff_exists.mp
    (show (exec Session.step .init (preloadOps 50)).isSome from rfl)
  obtain ⟨r, read, ok⟩ := (exact _ s done).reads [] 0 60 1
  have zero : diskioRead 0 60 1 { s.cache with env := [] } = some r ∧ r.status = 0 ∧ r.moved = [0] := by
    cases done
    cases read
    exact ⟨rfl, rfl, rfl⟩
  have one : slice (s.contents 0) 60 1 = [1] := by
    cases done
    rfl
  exact absurd ((zero.2.2.symm.trans (ok zero.2.1)).trans one) (by decide)

end PCemWeb.Platform
