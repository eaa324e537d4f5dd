import PCemWeb.Platform.DiskSession

/-!
# The exported disk image

`streamMergedDisk` of `export.js` merges a disk block by block: a dirty block is copied out of the
cache, every other one is read from the disk's source. It has its own block arithmetic and never
calls the C read path. In a session of whole preloads both yield the same bytes; after a preload
that stages a part of the final block, reads serve zeros where the export has the source.
-/

namespace PCemWeb.Platform

open PCemWeb.Lib

/-! ## The export -/

/-- `wasm_diskio_get_size`. -/
def diskioGetSize (id : Nat) (s : DiskIo) : Nat :=
  if maxDisks ≤ id then 0 else (s.disks id).elim 0 (·.size)

/-- `wasm_diskio_nblocks`. -/
def diskioNblocks (id : Nat) (s : DiskIo) : Nat :=
  if maxDisks ≤ id then 0 else (s.disks id).elim 0 (·.nblocks)

/-- `wasm_diskio_block_state`. -/
def diskioBlockState (id idx : Nat) (s : DiskIo) : BlkState :=
  if maxDisks ≤ id then .absent
  else
    match s.disks id with
    | none => .absent
    | some d => if d.nblocks ≤ idx then .absent else d.state idx

/-- What `wasm_diskio_block_ptr` points to. -/
def diskioBlockPtr (id idx : Nat) (s : DiskIo) : Option (Nat → Byte) :=
  if diskioBlockState id idx s = .absent then none else (s.disks id).bind (·.block idx)

/-- `readSourceSlice`. -/
def readSourceSlice (entry : Nat → Byte) (offset len : Nat) : List Byte := slice entry offset len

/-- The chunk that `streamMergedDisk` writes for block `b`. -/
def mergedChunk (id b : Nat) (s : DiskIo) : Option (List Byte) :=
  let off := b * blockSize
  let len := min blockSize (diskioGetSize id s - off)
  if diskioBlockState id b s = .dirty then
    (diskioBlockPtr id b s).map fun p => slice p 0 len
  else some (readSourceSlice (s.browserDisks id) off len)

/-- `streamMergedDisk`: the chunks in order. A disk that is not attached throws. -/
def streamMergedDisk (id : Nat) (s : DiskIo) : Option (List (List Byte)) :=
  if (s.disks id).isNone then none
  else (List.range (diskioNblocks id s)).mapM fun b => mergedChunk id b s

/-- The export of every attached disk has the disk's size, and every read that returns 0 yields the
same bytes. -/
structure ExportExact (s : DiskIo) : Prop where
  exported : ∀ id < maxDisks, ∀ d, s.disks id = some d → ∃ chunks, streamMergedDisk id s = some chunks ∧
    chunks.flatten.length = d.size ∧
    ∀ env offset len, offset + len ≤ d.size → ∃ r, diskioRead id offset len { s with env } = some r ∧
      (r.status = 0 → r.moved = (chunks.flatten.drop offset).take len)

/-! ## Chunks of a range -/

variable {s : DiskIo} {contents : Nat → Nat → Byte} {id : Nat} {d : Disk}

/-- The chunks of blocks of `size` bytes join to the range. -/
theorem flatten_chunks {size : Nat} (image : Nat → Byte) (n : Nat) :
    ((List.range n).map fun b =>
      slice image (b * blockSize) (min blockSize (size - b * blockSize))).flatten =
        slice image 0 (min (n * blockSize) size) := by
  induction n with
  | zero => simp only [List.range_zero, List.map_nil, List.flatten_nil, Nat.zero_mul, Nat.zero_min,
      slice_zero]
  | succ n ih =>
    rw [List.range_succ, List.map_append, List.flatten_append, ih, Nat.succ_mul]
    simp only [List.map_cons, List.map_nil, List.flatten_cons, List.flatten_nil, List.append_nil]
    rcases Nat.le_total size (n * blockSize) with past | within
    · rw [Nat.sub_eq_zero_of_le past, Nat.min_zero, slice_zero, List.append_nil,
        Nat.min_eq_right past, Nat.min_eq_right (by omega)]
    · rw [Nat.min_eq_left within]
      have joined := slice_append image 0 (n * blockSize) (min blockSize (size - n * blockSize))
      rw [Nat.zero_add] at joined
      rw [← joined]
      congr 1
      omega

theorem drop_take_slice {image : Nat → Byte} {offset len size : Nat}
    (inside : offset + len ≤ size) :
    ((slice image 0 size).drop offset).take len = slice image offset len := by
  have split : slice image 0 size =
      slice image 0 offset ++ (slice image offset len ++ slice image (offset + len)
        (size - offset - len)) := by
    have tail := slice_append image offset len (size - offset - len)
    have whole := slice_append image 0 offset (len + (size - offset - len))
    rw [Nat.zero_add] at whole
    rw [← tail, ← whole]
    congr 1
    omega
  rw [split, List.drop_left' (length_slice), List.take_left' (length_slice)]

theorem mapM_eq_map {α β : Type} {f : α → Option β} {g : α → β} {l : List α}
    (each : ∀ a ∈ l, f a = some (g a)) : l.mapM f = some (l.map g) := by
  induction l with
  | nil => rfl
  | cons a l ih =>
    rw [List.mapM_cons, each a (.head _), ih fun b later => each b (.tail _ later)]
    rfl

/-! ## The export of a sound session -/

/-- A chunk holds the contents, whether it comes from the cache or from the source. -/
theorem mergedChunk_eq {b : Nat} (inv : CacheInv s contents) (slot : id < maxDisks)
    (live : s.disks id = some d) (inRange : b < d.nblocks) : mergedChunk id b s =
      some (slice (contents id) (b * blockSize) (min blockSize (d.size - b * blockSize))) := by
  have block := (inv.disk id d live).block b inRange
  simp only [mergedChunk, diskioBlockPtr, diskioBlockState, diskioGetSize, not_le.mpr slot, if_false,
    live, not_le.mpr inRange, Option.elim_some, Option.bind_some]
  by_cases dirty : d.state b = .dirty
  · obtain ⟨p, held, holds⟩ := block.resident (by rw [dirty]; decide)
    have resident : d.state b ≠ .absent := by
      rw [dirty]
      decide
    rw [if_pos dirty, if_neg resident, held, Option.map_some]
    refine congrArg some (slice_congr fun j bound => ?_)
    rw [Nat.zero_add]
    exact holds j (by omega) (by omega)
  · rw [if_neg dirty, readSourceSlice]
    exact congrArg some (slice_congr fun j bound => (block.unwritten dirty j (by omega)).symm)

theorem streamMergedDisk_eq (inv : CacheInv s contents) (slot : id < maxDisks)
    (live : s.disks id = some d) : ∃ chunks, streamMergedDisk id s = some chunks ∧
      chunks.flatten = slice (contents id) 0 d.size := by
  refine ⟨(List.range d.nblocks).map fun b =>
    slice (contents id) (b * blockSize) (min blockSize (d.size - b * blockSize)), ?_, ?_⟩
  · have attached : (s.disks id).isNone = false := by rw [live, Option.isNone_some]
    have nblocks : diskioNblocks id s = d.nblocks := by
      rw [diskioNblocks, if_neg (not_le.mpr slot), live, Option.elim_some]
    rw [streamMergedDisk, attached, if_neg Bool.false_ne_true, nblocks]
    exact mapM_eq_map fun b inRange => mergedChunk_eq inv slot live (List.mem_range.mp inRange)
  · rw [flatten_chunks, Nat.min_eq_right (inv.disk id d live).covers]

/-- In a session of whole preloads and of registrations that keep the ring inside the tables, the
export is what reads yield. -/
theorem exportExact_of_run {s : Session}
    (run : RunOk Session.step (fun s op => s.Sound op = true) .init s) : ExportExact s.cache where
  exported id slot d live := by
    have inv := run.invariant SessionInv.init SessionInv.step
    obtain ⟨chunks, streamed, joined⟩ := streamMergedDisk_eq inv.cache slot live
    refine ⟨chunks, streamed, by rw [joined, length_slice], fun env offset len inside => ?_⟩
    obtain ⟨r, done, -, -, ok⟩ := inv.read env id offset len
    refine ⟨r, done, fun success => ?_⟩
    rw [ok success, joined, drop_take_slice inside]

/-- A disk of 100 bytes with a write, whose header was preloaded whole. -/
theorem exportExact_of_preloadOps :
    ∃ s, RunOk Session.step (fun s op => s.Sound op = true) .init s ∧
      (s.cache.disks 0).isSome ∧ ExportExact s.cache := by
  obtain ⟨s, done⟩ := Option.isSome_iff_exists.mp (show (execOk Session.step Session.Sound .init
    (preloadOps 100 ++ [(.write 0 60 [2], [])])).isSome from rfl)
  have run := RunOk.of_execOk (fun _ _ => id) done
  exact ⟨s, run, by cases done; rfl, exportExact_of_run run⟩

/-- After a preload of 50 of the 100 bytes the export has the source where reads yield zeros. -/
theorem not_exportExact_preload :
    ¬ ∀ ops s, exec Session.step .init ops = some s → ExportExact s.cache := by
  intro exact
  obtain ⟨s, done⟩ := Option.isSome_iff_exists.mp
    (show (exec Session.step .init (preloadOps 50)).isSome from rfl)
  have live : ∃ d, s.cache.disks 0 = some d ∧ d.size = 100 := by
    cases done
    exact ⟨_, rfl, rfl⟩
  obtain ⟨d, live, size⟩ := live
  obtain ⟨chunks, streamed, -, reads⟩ := (exact _ s done).exported 0 (by decide) d live
  have byte : (chunks.flatten.drop 60).take 1 = [1] := by
    cases done
    cases streamed
    rfl
  obtain ⟨r, read, ok⟩ := reads [] 60 1 (by omega)
  have zero : r.status = 0 ∧ r.moved = [0] := by
    cases done
    cases read
    exact ⟨rfl, rfl⟩
  exact absurd ((zero.2.symm.trans (ok zero.1)).trans byte) (by decide)

end PCemWeb.Platform
