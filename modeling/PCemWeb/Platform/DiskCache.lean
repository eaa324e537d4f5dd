import PCemWeb.Lib.Bytes
import PCemWeb.Platform.DiskMailbox

/-!
# The browser disk's block cache

A registered disk is a table of 128 KB blocks, each absent, clean or dirty. `diskio_block`
faults a run of up to `DISKIO_FETCH_RUN` absent blocks in through the mailbox, every faulted
block enters the FIFO ring of clean blocks, and a full ring evicts its oldest entry that is
still clean. `diskio_rw` copies block by block; a write pins its block as dirty.

The tables are functions of the block index with the bound `nblocks` beside them. An access
at or past the bound has no defined result, and the functions that index the tables return
`none` there. `env` lists the outcomes of the coming mailbox fetches and allocations; once it
is exhausted they succeed.
-/

namespace PCemWeb.Platform

open PCemWeb.Lib

/-- `DISKIO_MAX_DISKS`. -/
def maxDisks : Nat := 8

/-- `DISKIO_BLOCK_SIZE`. -/
def blockSize : Nat := 0x20000

/-- `DISKIO_CLEAN_BUDGET`. -/
def cleanBudget : Nat := 512

/-- `DISKIO_FETCH_RUN`. -/
def fetchRun : Nat := 4

/-- `BLK_ABSENT`, `BLK_CLEAN` and `BLK_DIRTY`. -/
inductive BlkState
  | absent
  | clean
  | dirty
  deriving DecidableEq, Repr

/-- `diskio_disk_t` of a slot in use. -/
structure Disk where
  size : Nat
  nblocks : Nat
  block : Nat → Option (Nat → Byte)
  state : Nat → BlkState

/-- The module's static state, the files registered on the JavaScript side, and the outcomes
of the coming fetches and allocations. -/
structure DiskIo where
  /-- `disks`; `none` is a slot that is not in use. -/
  disks : Nat → Option Disk
  /-- `clean_ring` from `clean_head`, `clean_count` entries of disk and block index. -/
  cleanRing : List (Nat × Nat)
  /-- `browserDisks`: the content behind each slot. -/
  browserDisks : Nat → Nat → Byte
  env : List Bool

namespace DiskIo

/-- No slot is in use and the ring is empty. -/
def init : DiskIo := ⟨fun _ => none, [], fun _ _ => 0, []⟩

def setDisk (s : DiskIo) (id : Nat) (d : Option Disk) : DiskIo :=
  { s with disks := Function.update s.disks id d }

/-- The outcome of the next fetch or allocation. -/
def outcome (s : DiskIo) : Bool := s.env.headD true

def consume (s : DiskIo) : DiskIo := { s with env := s.env.tail }

end DiskIo

/-- `d->block[idx] = p; d->state[idx] = st`. -/
def Disk.place (d : Disk) (idx : Nat) (p : Option (Nat → Byte)) (st : BlkState) : Disk :=
  { d with block := Function.update d.block idx p, state := Function.update d.state idx st }

/-! ## Registration -/

/-- The conversion of a double to `uint32_t`, which wasm saturates. -/
def toUint32 (x : Nat) : Nat := min x 0xffffffff

/-- The number of blocks of a disk of `size` bytes. -/
def nblocksOf (size : Nat) : Nat := toUint32 ((size + blockSize - 1) / blockSize)

/-- The first slot that is not in use. -/
def freeSlot (s : DiskIo) : Option Nat :=
  (List.range maxDisks).find? fun i => (s.disks i).isNone

/-- `calloc(nblocks, sizeof(uint8_t *))` has a 32-bit size. -/
def callocFits (nblocks : Nat) : Bool := nblocks * 4 < 0x100000000

/-- `wasm_diskio_register`, with `browserDisks.set` for the id it returned. -/
def diskioRegister (size : Nat) (source : Nat → Byte) (s : DiskIo) : Option Nat × DiskIo :=
  if size = 0 then (none, s)
  else
    match freeSlot s with
    | none => (none, s)
    | some i =>
      let nblocks := nblocksOf size
      let blockOk := s.outcome && callocFits nblocks
      let s := s.consume
      let stateOk := s.outcome
      let s := s.consume
      if blockOk && stateOk then
        (some i, { s.setDisk i (some ⟨size, nblocks, fun _ => none, fun _ => .absent⟩) with
          browserDisks := Function.update s.browserDisks i source })
      else (none, s)

/-- `wasm_diskio_unregister`. -/
def diskioUnregister (id : Nat) (s : DiskIo) : DiskIo :=
  if maxDisks ≤ id then s else s.setDisk id none

/-! ## The clean-block ring -/

/-- The eviction loop of `clean_ring_insert`: entries are dropped from the head until one of
them names a clean block, which is freed. -/
def evictOldest : List (Nat × Nat) → DiskIo → Option DiskIo
  | [], s => some { s with cleanRing := [] }
  | (d, bi) :: rest, s =>
    match s.disks d with
    | none => evictOldest rest s
    | some disk =>
      if disk.nblocks ≤ bi then none
      else if disk.state bi = .clean then
        some { s.setDisk d (some (disk.place bi none .absent)) with cleanRing := rest }
      else evictOldest rest s

/-- `clean_ring_insert`. -/
def cleanRingInsert (id idx : Nat) (s : DiskIo) : Option DiskIo :=
  (if s.cleanRing.length = cleanBudget then evictOldest s.cleanRing s else some s).map
    fun s => { s with cleanRing := s.cleanRing ++ [(id, idx)] }

/-! ## Faulting blocks in -/

/-- How many consecutive blocks from `idx` are absent, counting on from `run` for at most
`more` blocks. -/
def absentRun (d : Disk) (idx : Nat) : (run more : Nat) → Nat
  | run, 0 => run
  | run, more + 1 =>
    if d.nblocks ≤ idx + run ∨ d.state (idx + run) ≠ .absent then run
    else absentRun d idx (run + 1) more

/-- `fetch_stage` after a successful fetch of `len` bytes at `off` and the `memset` of the
rest. -/
def fetchStage (source : Nat → Byte) (off len : Nat) : Nat → Byte :=
  fun i => if i < len then source (off + i) else 0

/-- The placement loop of `diskio_block`: the `more` blocks of the run from its `k`-th on. -/
def placeRun (id idx : Nat) (stage : Nat → Byte) : (k more : Nat) → DiskIo → Option DiskIo
  | _, 0, s => some s
  | k, more + 1, s =>
    if s.outcome then
      match s.disks id with
      | none => none
      | some d =>
        let p := fun j => stage (k * blockSize + j)
        (cleanRingInsert id (idx + k)
          (s.consume.setDisk id (some (d.place (idx + k) (some p) .clean)))).bind
            (placeRun id idx stage (k + 1) more)
    else some s.consume

/-- `diskio_block`: the block `idx`, if it is resident or could be faulted in. -/
def diskioBlock (id idx : Nat) (s : DiskIo) : Option (Option (Nat → Byte) × DiskIo) :=
  match s.disks id with
  | none => none
  | some d =>
    if d.nblocks ≤ idx then none
    else if d.state idx ≠ .absent then some (d.block idx, s)
    else
      let run := absentRun d idx 1 (fetchRun - 1)
      let off := idx * blockSize
      let len := min (run * blockSize) (d.size - off)
      if s.outcome then
        (placeRun id idx (fetchStage (s.browserDisks id) off len) 0 run s.consume).map fun s =>
          ((s.disks id).bind (·.block idx), s)
      else some (none, s.consume)

/-! ## Reading and writing -/

/-- `memcpy(p + in_block, buf, chunk)` and the pin of the block. -/
def storeChunk (id idx inBlock : Nat) (p : Nat → Byte) (piece : List Byte) (s : DiskIo) :
    Option DiskIo :=
  (s.disks id).map fun d =>
    s.setDisk id (some (d.place idx (some (overlay p inBlock piece)) .dirty))

/-- The result of a transfer: the status, the bytes copied in order, and the state after. -/
structure Transfer where
  status : Nat
  moved : List Byte
  after : DiskIo

/-- The copy loop of `diskio_rw`. A write takes its bytes from `buf`; every chunk moves at
least one byte, so `len` bounds the number of iterations. -/
def rwLoop (id : Nat) (isWrite : Bool) :
    (fuel offset len : Nat) → (buf : List Byte) → DiskIo → Option Transfer
  | 0, _, len, _, s => if len = 0 then some ⟨0, [], s⟩ else none
  | fuel + 1, offset, len, buf, s =>
    if len = 0 then some ⟨0, [], s⟩
    else
      let idx := offset / blockSize
      let inBlock := offset - idx * blockSize
      let chunk := min (blockSize - inBlock) len
      (diskioBlock id idx s).bind fun (resident, s) =>
        match resident with
        | none => some ⟨1, [], s⟩
        | some p =>
          let piece := if isWrite then buf.take chunk else slice p inBlock chunk
          (if isWrite then storeChunk id idx inBlock p piece s else some s).bind fun s =>
            (rwLoop id isWrite fuel (offset + chunk) (len - chunk) (buf.drop chunk) s).map
              fun rest => { rest with moved := piece ++ rest.moved }

/-- `diskio_rw`. -/
def diskioRw (id offset len : Nat) (buf : List Byte) (isWrite : Bool) (s : DiskIo) :
    Option Transfer :=
  if maxDisks ≤ id then some ⟨1, [], s⟩
  else
    match s.disks id with
    | none => some ⟨1, [], s⟩
    | some d =>
      if d.size < offset + len then some ⟨1, [], s⟩
      else rwLoop id isWrite len offset len buf s

/-- `wasm_diskio_read`. -/
def diskioRead (id offset len : Nat) : DiskIo → Option Transfer := diskioRw id offset len [] false

/-- `wasm_diskio_write`. -/
def diskioWrite (id offset : Nat) (buf : List Byte) : DiskIo → Option Transfer :=
  diskioRw id offset buf.length buf true

/-! ## Preloading a header -/

/-- The loop of `wasm_diskio_preload` over the `more` blocks from `idx`, with the count
`resident` so far; `stage` holds the leading bytes in `preload_stage`. -/
def preloadLoop (id len : Nat) (stage : Nat → Byte) :
    (idx more resident : Nat) → DiskIo → Nat × DiskIo
  | _, 0, resident, s => (resident, s)
  | idx, more + 1, resident, s =>
    match s.disks id with
    | none => (resident, s)
    | some d =>
      let off := idx * blockSize
      let n := min (len - off) blockSize
      if n < blockSize ∧ idx ≠ d.nblocks - 1 then (resident, s)
      else if d.state idx ≠ .absent then preloadLoop id len stage (idx + 1) more (resident + 1) s
      else if s.outcome then
        let p := fun j => if j < n then stage (off + j) else 0
        preloadLoop id len stage (idx + 1) more (resident + 1)
          (s.consume.setDisk id (some (d.place idx (some p) .clean)))
      else (resident, s.consume)

/-- `wasm_diskio_preload`, after the source's own leading `len` bytes were staged. -/
def diskioPreload (id len : Nat) (s : DiskIo) : Nat × DiskIo :=
  if maxDisks ≤ id then (0, s)
  else
    match s.disks id with
    | none => (0, s)
    | some d =>
      if len = 0 ∨ fetchRun * blockSize < len then (0, s)
      else
        let nblk := (len + blockSize - 1) / blockSize
        preloadLoop id len (s.browserDisks id) 0 (min nblk d.nblocks) 0 s

end PCemWeb.Platform
