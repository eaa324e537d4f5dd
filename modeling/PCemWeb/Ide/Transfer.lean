import PCemWeb.Ide.IdeErrors

/-!
# The sectors of a transfer

A guest writes the six registers of a `Request` to an idle channel and then keeps to the data port
until the command ends. `TransferExact` says which sectors a command has to move, each once and in
order, and which sector its registers have to name in the end. `Stage` is the invariant: it counts
the sectors that have been moved, and says what the registers, the history and the timer hold
between two accesses. `Stage.callbackide` is the step lemma of the callback and `Stage.step` that of
an access.
-/

namespace PCemWeb.Ide

open PCemWeb.Lib

/-! ## Requests -/

/-- The bytes that a guest writes to the task file for one command. -/
structure Request where
  count : Byte
  sector : Byte
  cylinderLow : Byte
  cylinderHigh : Byte
  driveHead : Byte
  command : Byte

def Request.ops (r : Request) : List Op :=
  [.write .secount r.count, .write .sector r.sector, .write .cylinderLow r.cylinderLow,
    .write .cylinderHigh r.cylinderHigh, .write .driveHead r.driveHead, .write .command r.command]

/-- The count of sectors, where 0 means 256. -/
def Request.due (r : Request) : Nat := if r.count.toNat = 0 then 256 else r.count.toNat

def Request.lba (r : Request) : Bool := r.driveHead.getLsbD 6

def Request.head (r : Request) : Nat := (r.driveHead &&& 0xF).toNat

def Request.cylinder (r : Request) : Nat := r.cylinderHigh.toNat * 256 + r.cylinderLow.toNat

/-- The sector that the address registers name. -/
def sectorAt (lba : Bool) (h : HddFile) (cylinder head sector : Nat) : Nat :=
  if lba then head * 16777216 + cylinder * 256 + sector
  else (cylinder * h.hpc + head) * h.spt + sector - 1

/-- The start address of a request. -/
def Request.start (r : Request) (h : HddFile) : Nat :=
  sectorAt r.lba h r.cylinder r.head r.sector.toNat

/-- The sector that the registers name to a guest that reads them. -/
def Drive.named (d : Drive) : Nat :=
  sectorAt d.lba d.hddFile (d.cylinder % 65536) (d.head % 16) (d.sector % 256)

/-- The write commands that store sectors of the guest. -/
def Command.writes : Command → Bool
  | .write | .writeNoretry | .writeMultiple | .writeDma => true
  | _ => false

/-- The commands that move their data through the data port. -/
def Command.pio : Command → Bool
  | .read | .readNoretry | .readMultiple | .write | .writeNoretry | .writeMultiple => true
  | _ => false

/-! ## What a transfer has to do -/

/-- The call moved all of its sector `i`. -/
def Call.moves (k : Call) (i : Nat) : Bool := (i + 1) * 512 ≤ k.result.moved

/-- The sectors that the command has moved between the image and the guest, in order. A read command
moves those of its call that it has handed to the guest. -/
def Drive.transferred (d : Drive) : List Int :=
  d.calls.flatMap fun k =>
    ((if d.command.reads then d.handed else List.range k.nrSectors).filter k.moves).map
      fun i : Nat => k.offset + (i : Int)

/-- A request was carried out on `d`. -/
structure TransferExact (r : Request) (h : HddFile) (d : Drive) : Prop where
  sectors : d.transferred = (List.range r.due).map fun i => ((r.start h + i : Nat) : Int)
  registers : d.named = r.start h + r.due - 1

/-- The storage layer moves all that the call asks for: the sectors lie on the image, which may be
written to where they are written, and the medium serves them. -/
def Call.whole (k : Call) : Bool :=
  (k.kind.answer k.file k.offset k.nrSectors k.medium).any fun t => k.nrSectors * 512 ≤ t.moved

/-- The registers can name the last sector: those of a block address are not advanced, and those of
a cylinder, head and sector address have 16, 4 and 8 bits. -/
def Request.lastFits (r : Request) (h : HddFile) : Prop :=
  if r.lba then r.due = 1
  else
    let last := r.start h + r.due - 1
    last / (h.hpc * h.spt) < 65536 ∧ last / h.spt % h.hpc < 16 ∧ last % h.spt < 255

/-! ## The guest -/

/-- The drive that a request selects. -/
def Channel.selected (c : Channel) (r : Request) : Drive :=
  if c.cur = r.driveHead.getLsbD 4 then c.ide else c.other

/-- No reset and no timer is pending, and the request is a read or a write of the disk that it
selects, from a sector of its geometry on. Its sector numbers fit an `int`, as those of a disk do.
Nothing in the source sets `skip512`. -/
structure Channel.Ready (c : Channel) (r : Request) : Prop where
  present : (c.selected r).type = .hdd
  awake : c.ide.reset = false ∧ c.other.reset = false
  quiet : c.armed = false
  skip : (c.selected r).skip512 = 0
  transfers : (Command.ofByte r.command).reads = true ∨ (Command.ofByte r.command).writes = true
  inside : r.start (c.selected r).hddFile + r.due ≤ 2147483648
  sector : r.lba = false → 1 ≤ r.sector.toNat ∧ r.sector.toNat ≤ (c.selected r).hddFile.spt
  head : r.lba = false → r.head < (c.selected r).hddFile.hpc

/-- The drive asks for `n` bytes of data more. -/
def Drive.asks (d : Drive) (n : Nat) : Bool :=
  d.command.pio && d.atastat.getLsbD 3 && d.pos + n ≤ 512

/-- What a guest does until its command ends: it reads or writes the data port when the drive asks
for data, in the direction of the command, and reads the other registers. -/
def Channel.attends (c : Channel) : Op × Answer → Bool
  | (.timer, _) => true
  | (.read .data, _) | (.readw, _) => c.ide.command.reads && c.ide.asks 2
  | (.readl, _) => c.ide.command.reads && c.ide.asks 4
  | (.write .data _, _) | (.writew _, _) => c.ide.command.writes && c.ide.asks 2
  | (.writel _, _) => c.ide.command.writes && c.ide.asks 4
  | (.read _, _) => true
  | _ => false

/-! ## The invariant -/

/-- The registers name sector `k` of the request. -/
structure Drive.At (r : Request) (h : HddFile) (d : Drive) (k : Nat) : Prop where
  file : d.hddFile = h
  lba : d.lba = r.lba
  skip : d.skip512 = 0
  linear : r.lba = true → d.lbaAddr = r.start h + k ∧ d.sector = r.sector.toNat ∧
    d.cylinder = r.cylinder ∧ d.head = r.head
  tracks : r.lba = false → (d.cylinder * h.hpc + d.head) * h.spt + d.sector = r.start h + k + 1
  sector : r.lba = false → 1 ≤ d.sector ∧ d.sector ≤ h.spt
  head : r.lba = false → d.head < h.hpc

/-- The command is under way, with `k` of its sectors moved. -/
structure Drive.Under (r : Request) (h : HddFile) (d : Drive) (k : Nat) : Prop where
  command : d.command = .ofByte r.command
  awake : d.reset = false
  place : d.At r h k
  left : d.secount = (r.due - k) % 256
  more : k < r.due

/-- The history of a read after `k` slices: they come from one call for all the sectors. -/
structure Drive.Fetched (r : Request) (h : HddFile) (d : Drive) (k : Nat) : Prop where
  handed : d.handed = List.range k
  before : d.doInitialRead = true → k = 0 ∧ d.calls = []
  after : d.doInitialRead = false → d.sectorPos = k ∧ ∃ m t,
    hddReadSectors h (r.start h) r.due m = some t ∧
      d.calls = [⟨.read, h, r.start h, r.due, m, t⟩]

/-- The history of a write after `k` sectors: one call for each. -/
structure Drive.Stored (r : Request) (h : HddFile) (d : Drive) (k : Nat) : Prop where
  answered : ∀ call ∈ d.calls, call.Answered
  requests : d.calls.map (fun call => (call.offset, call.nrSectors)) =
    (List.range k).map fun i => (((r.start h + i : Nat) : Int), 1)

/-- The history after `k` sectors. -/
def Drive.History (r : Request) (h : HddFile) (d : Drive) (k : Nat) : Prop :=
  if (Command.ofByte r.command).reads then d.Fetched r h k else d.Stored r h k

/-- Where a request stands between two accesses. -/
inductive Stage (r : Request) (h : HddFile) (c : Channel) : Prop
  /-- The drive is busy, and the timer goes on with sector `k`. -/
  | waiting (k : Nat) (under : c.ide.Under r h k) (history : c.ide.History r h k)
      (busy : c.ide.atastat.getLsbD 7 = true) (quiet : c.ide.atastat.getLsbD 3 = false)
  /-- The guest reads sector `k`, which has been handed to it. -/
  | reading (k : Nat) (under : c.ide.Under r h k) (history : c.ide.History r h (k + 1))
      (fetched : c.ide.doInitialRead = false) (reads : (Command.ofByte r.command).reads = true)
      (pio : (Command.ofByte r.command).pio = true) (asks : c.ide.atastat.getLsbD 3 = true)
      (still : c.armed = false)
  /-- The guest writes sector `k`. -/
  | writing (k : Nat) (under : c.ide.Under r h k) (history : c.ide.History r h k)
      (writes : (Command.ofByte r.command).writes = true)
      (pio : (Command.ofByte r.command).pio = true) (asks : c.ide.atastat.getLsbD 3 = true)
      (still : c.armed = false)
  /-- All the sectors have been moved. -/
  | done (command : c.ide.command = .ofByte r.command) (place : c.ide.At r h (r.due - 1))
      (history : c.ide.History r h r.due)
      (quiet : (Command.ofByte r.command).pio = true → c.ide.atastat.getLsbD 3 = false)
      (still : c.armed = false)

variable {r : Request} {h : HddFile} {c c' : Channel} {d d' : Drive} {k : Nat} {a : Answer}
  {m : Medium}

theorem Request.due_pos : 0 < r.due := by
  simp only [Request.due]
  split <;> omega

theorem Request.due_le : r.due ≤ 256 := by
  have := r.count.isLt
  simp only [Request.due]
  split <;> omega

/-! ## The address registers -/

theorem Drive.At.getSector (place : d.At r h k) (small : r.start h + k < 2147483648) :
    d.getSector = ((r.start h + k : Nat) : Int) := by
  have value : (if d.lba then (d.lbaAddr : Int) + d.skip512
      else ((d.cylinder : Int) * d.hddFile.hpc + d.head) * d.hddFile.spt + ((d.sector : Int) - 1) +
        d.skip512) = ((r.start h + k : Nat) : Int) := by
    rw [place.lba, place.skip, place.file]
    cases lba : r.lba with
    | true =>
      obtain ⟨linear, -⟩ := place.linear lba
      simp [linear]
    | false =>
      have tracks : (((d.cylinder * h.hpc + d.head) * h.spt + d.sector : Nat) : Int) =
          ((r.start h + k + 1 : Nat) : Int) := congrArg _ (place.tracks lba)
      push_cast at tracks
      simp only [Bool.false_eq_true, if_false]
      push_cast
      omega
  rw [Drive.getSector, value]
  exact Int.bmod_eq_of_le (by omega) (by omega)

/-- The registers go on to the next sector, with the carries. -/
theorem Drive.At.nextSector (place : d.At r h k) (small : r.start h + k + 1 < 2147483648) :
    d.nextSector.At r h (k + 1) := by
  cases lba : r.lba with
  | true =>
    obtain ⟨linear, sector, cylinder, head⟩ := place.linear lba
    have next : d.nextSector = { d with lbaAddr := (d.lbaAddr + 1) % 4294967296 } :=
      if_pos (place.lba.trans lba)
    rw [next]
    exact ⟨place.file, place.lba, place.skip,
      fun _ => ⟨by dsimp only; omega, sector, cylinder, head⟩, by simp [lba], by simp [lba],
      by simp [lba]⟩
  | false =>
    have tracks := place.tracks lba
    have sector := place.sector lba
    have head := place.head lba
    have linear {p : Prop} : r.lba = true → p := by simp [lba]
    have notLba : ¬d.lba = true := by simp [place.lba, lba]
    rw [Drive.nextSector, if_neg notLba]
    split
    · rename_i track
      have full : d.sector = h.spt := by rw [place.file] at track; omega
      split
      · rename_i last
        rw [place.file] at last
        have turn : (d.cylinder + 1) * h.hpc = d.cylinder * h.hpc + d.head + 1 := by
          rw [Nat.add_one_mul]
          omega
        refine ⟨place.file, place.lba, place.skip, linear, fun _ => ?_,
          fun _ => ⟨Nat.le_refl 1, by dsimp only; omega⟩, fun _ => by dsimp only; omega⟩
        dsimp only
        rw [turn, Nat.add_zero, Nat.add_one_mul]
        omega
      · rename_i inner
        rw [place.file] at inner
        refine ⟨place.file, place.lba, place.skip, linear, fun _ => ?_,
          fun _ => ⟨Nat.le_refl 1, by dsimp only; omega⟩, fun _ => by dsimp only; omega⟩
        dsimp only
        rw [← Nat.add_assoc, Nat.add_one_mul]
        omega
    · rename_i track
      rw [place.file] at track
      exact ⟨place.file, place.lba, place.skip, linear, fun _ => by dsimp only; omega,
        fun _ => ⟨by dsimp only; omega, by dsimp only; omega⟩, fun _ => head⟩

/-- A change of other fields keeps the place. -/
theorem Drive.At.congr (place : d.At r h k)
    (same : (d'.hddFile, d'.lba, d'.skip512, d'.lbaAddr, d'.sector, d'.cylinder, d'.head) =
      (d.hddFile, d.lba, d.skip512, d.lbaAddr, d.sector, d.cylinder, d.head)) : d'.At r h k := by
  simp only [Prod.mk.injEq] at same
  obtain ⟨file, lba, skip, lbaAddr, sector, cylinder, head⟩ := same
  refine ⟨file.trans place.file, lba.trans place.lba, skip.trans place.skip, ?_, ?_, ?_, ?_⟩
  · rw [lbaAddr, sector, cylinder, head]
    exact place.linear
  · rw [sector, cylinder, head]
    exact place.tracks
  · rw [sector]
    exact place.sector
  · rw [head]
    exact place.head

/-! ## The history -/

theorem Drive.History.fetched (history : d.History r h k)
    (reads : (Command.ofByte r.command).reads = true) : d.Fetched r h k := by
  rwa [Drive.History, if_pos reads] at history

theorem Drive.Fetched.history (fetched : d.Fetched r h k)
    (reads : (Command.ofByte r.command).reads = true) : d.History r h k := by
  rwa [Drive.History, if_pos reads]

theorem Command.reads_of_writes {command : Command} (writes : command.writes = true) :
    command.reads = false := by
  cases command <;> first | rfl | cases writes

theorem Drive.History.stored (history : d.History r h k)
    (writes : (Command.ofByte r.command).writes = true) : d.Stored r h k := by
  rwa [Drive.History, if_neg (by simp [Command.reads_of_writes writes])] at history

theorem Drive.Stored.history (stored : d.Stored r h k)
    (writes : (Command.ofByte r.command).writes = true) : d.History r h k := by
  rwa [Drive.History, if_neg (by simp [Command.reads_of_writes writes])]

/-- The history of a drive is in four of its fields. -/
theorem Drive.History.congr (history : d.History r h k)
    (same : (d'.handed, d'.doInitialRead, d'.sectorPos, d'.calls) =
      (d.handed, d.doInitialRead, d.sectorPos, d.calls)) : d'.History r h k := by
  simp only [Prod.mk.injEq] at same
  obtain ⟨handed, initial, position, calls⟩ := same
  rw [Drive.History] at history ⊢
  split
  · rename_i reads
    rw [if_pos reads] at history
    exact ⟨handed.trans history.handed, by rw [initial, calls]; exact history.before,
      by rw [initial, position, calls]; exact history.after⟩
  · rename_i reads
    rw [if_neg reads] at history
    exact ⟨by rw [calls]; exact history.answered, by rw [calls]; exact history.requests⟩

theorem Drive.History.nextSector (history : d.History r h k) : d.nextSector.History r h k := by
  obtain ⟨sector, head, cylinder, lbaAddr, next⟩ := d.nextSector_eq
  exact history.congr (by rw [next])

/-- The first callback of a read asks for all the sectors from the start on. -/
theorem Drive.initialRead_fetched (under : d.Under r h k) (fetched : d.Fetched r h k)
    (inside : r.start h + r.due ≤ 2147483648) (read : d.initialRead m = some d') :
    d'.Under r h k ∧ d'.Fetched r h k ∧ d'.doInitialRead = false ∧ d'.atastat = d.atastat := by
  have due := r.due_le
  simp only [Drive.initialRead] at read
  split at read
  · rename_i first
    obtain ⟨rfl, none⟩ := fetched.before first
    have count : (if d.secount ≠ 0 then d.secount else 256) = r.due := by
      have left := under.left
      have more := under.more
      split <;> omega
    have start : d.getSector = r.start h :=
      under.place.getSector (by have := under.more; omega)
    obtain ⟨t, answer, small⟩ := Option.bind_eq_some_iff.mp read
    split at small
    · cases small
      refine ⟨⟨under.command, under.awake, under.place.congr rfl, under.left, under.more⟩,
        ⟨fetched.handed, by simp, fun _ => ⟨rfl, m, t, ?_, ?_⟩⟩, rfl, rfl⟩
      · rwa [count, start, under.place.file] at answer
      · dsimp only
        rw [none, count, start, under.place.file, List.nil_append]
    · cases small
  · rename_i later
    cases read
    exact ⟨under, fetched, Bool.eq_false_iff.mpr later, rfl⟩

/-- The next slice goes to the guest. -/
theorem Drive.takeSlice_fetched (fetched : d.Fetched r h k) (later : d.doInitialRead = false)
    (taken : d.takeSlice = some d') :
    d'.Fetched r h (k + 1) ∧ ∃ sectorPos handed, d' = { d with sectorPos, handed } := by
  obtain ⟨position, call⟩ := fetched.after later
  simp only [Drive.takeSlice] at taken
  split at taken
  · cases taken
    refine ⟨⟨?_, by simp [later], fun _ => ⟨congrArg (· + 1) position, call⟩⟩, _, _, rfl⟩
    dsimp only
    rw [fetched.handed, position, List.range_succ]
  · cases taken

/-- The next sector goes to the image. -/
theorem Drive.storeSector_stored (under : d.Under r h k) (stored : d.Stored r h k)
    (inside : r.start h + r.due ≤ 2147483648) (store : d.storeSector m = some d') :
    d'.Stored r h (k + 1) ∧ ∃ calls, d' = { d with calls } := by
  have sector : d.getSector = ((r.start h + k : Nat) : Int) :=
    under.place.getSector (by have := under.more; omega)
  simp only [Drive.storeSector] at store
  obtain ⟨t, answer, small⟩ := Option.bind_eq_some_iff.mp store
  split at small
  · cases small
    refine ⟨⟨fun call made => ?_, ?_⟩, _, rfl⟩
    · rcases List.mem_append.mp made with earlier | new
      · exact stored.answered call earlier
      · obtain rfl := List.mem_singleton.mp new
        exact ⟨answer, fun _ => Nat.one_pos⟩
    · dsimp only
      rw [List.map_append, stored.requests, List.range_succ, List.map_append, sector]
      rfl
  · cases small

/-! ## Counting -/

theorem Drive.Under.countDown (under : d.Under r h k) :
    (d.secount + 255) % 256 = (r.due - (k + 1)) % 256 ∧
      ((d.secount + 255) % 256 ≠ 0 ↔ k + 1 < r.due) := by
  have left := under.left
  have more := under.more
  have due := r.due_le
  omega

/-- The command goes on to the next sector. -/
theorem Drive.Under.next (under : d.Under r h k) (inside : r.start h + r.due ≤ 2147483648)
    (more : (d.secount + 255) % 256 ≠ 0) : d.countDown.nextSector.Under r h (k + 1) := by
  obtain ⟨left, iff⟩ := under.countDown
  have less := iff.mp more
  have here : d.countDown.At r h k := under.place.congr rfl
  have place := here.nextSector (by omega)
  obtain ⟨sector, head, cylinder, lbaAddr, next⟩ := d.countDown.nextSector_eq
  rw [next] at place ⊢
  exact ⟨under.command, under.awake, place, left, less⟩

/-- The last sector has been moved, and the registers still name it. -/
theorem Drive.Under.last (under : d.Under r h k) (none : ¬(d.secount + 255) % 256 ≠ 0) :
    k + 1 = r.due ∧ d.At r h (r.due - 1) := by
  obtain ⟨-, iff⟩ := under.countDown
  have more := under.more
  have last : ¬k + 1 < r.due := fun less => none (iff.mpr less)
  have same : r.due - 1 = k := by omega
  exact ⟨by omega, same ▸ under.place⟩

/-! ## The callback -/

/-- A drive that asks for data is not busy with it. -/
theorem drqStatus : (drqStat ||| readyStat ||| dscStat).getLsbD 3 = true := by decide

theorem busyStatus : busyStat.getLsbD 7 = true ∧ busyStat.getLsbD 3 = false := by decide

section Callback

variable {p : Drive × Bool} (under : d.Under r h k)
  (inside : r.start h + r.due ≤ 2147483648)

include under inside

theorem Stage.callbackRead (fetched : d.Fetched r h k) (command : d.command = .read ∨
    d.command = .readNoretry) (done : d.callbackRead a = some p) :
    Stage r h { c with ide := p.1, armed := p.2 } := by
  have kind : (Command.ofByte r.command).reads = true ∧ (Command.ofByte r.command).pio = true := by
    rw [← under.command]
    rcases command with read | read <;> rw [read] <;> decide
  obtain ⟨read, initial, slice⟩ := Option.bind_eq_some_iff.mp done
  obtain ⟨under, fetched, later, -⟩ := Drive.initialRead_fetched under fetched inside initial
  obtain ⟨taken, take, rfl⟩ := Option.map_eq_some_iff.mp slice
  obtain ⟨fetched, sectorPos, handed, rfl⟩ := Drive.takeSlice_fetched fetched later take
  exact .reading k ⟨under.command, under.awake, under.place.congr rfl, under.left, under.more⟩
    (Drive.Fetched.history ⟨fetched.handed, fetched.before, fetched.after⟩ kind.1) later kind.1
    kind.2 drqStatus rfl

theorem Stage.callbackReadMultiple (fetched : d.Fetched r h k) (command : d.command = .readMultiple)
    (done : d.callbackReadMultiple a = some p) :
    Stage r h { c with ide := p.1, armed := p.2 } := by
  have kind : (Command.ofByte r.command).reads = true ∧ (Command.ofByte r.command).pio = true := by
    rw [← under.command, command]
    decide
  obtain ⟨read, initial, slice⟩ := Option.bind_eq_some_iff.mp done
  obtain ⟨under, fetched, later, -⟩ := Drive.initialRead_fetched under fetched inside initial
  obtain ⟨taken, take, rfl⟩ := Option.map_eq_some_iff.mp slice
  obtain ⟨fetched, sectorPos, handed, rfl⟩ := Drive.takeSlice_fetched fetched later take
  dsimp only
  -- an interrupt, at the first sector of a block, is all that the count of blocks decides
  split
  all_goals
    exact .reading k ⟨under.command, under.awake, under.place.congr rfl, under.left, under.more⟩
      (Drive.Fetched.history ⟨fetched.handed, fetched.before, fetched.after⟩ kind.1) later kind.1
      kind.2 drqStatus rfl

/-- What follows a sector of a DMA transfer. -/
theorem Stage.nextDma (history : d.History r h (k + 1))
    (dma : (Command.ofByte r.command).pio = false) :
    Stage r h { c with ide := d.nextDma.1, armed := d.nextDma.2 } := by
  have noPio {p : Prop} : (Command.ofByte r.command).pio = true → p := by simp [dma]
  simp only [Drive.nextDma]
  split
  · rename_i more
    have here : Drive.Under r h { d with atastat := drqStat ||| readyStat ||| dscStat } k :=
      ⟨under.command, under.awake, under.place.congr rfl, under.left, under.more⟩
    have next := here.next inside more
    have moved : Drive.History r h
        (Drive.countDown { d with atastat := drqStat ||| readyStat ||| dscStat }) (k + 1) :=
      history.congr rfl
    exact .waiting (k + 1) ⟨next.command, next.awake, next.place.congr rfl, next.left, next.more⟩
      (moved.nextSector.congr rfl) busyStatus.1 busyStatus.2
  · rename_i none
    obtain ⟨last, place⟩ := under.last none
    exact .done under.command (place.congr rfl) (last ▸ history.congr rfl) noPio rfl

theorem Stage.callbackReadDma (fetched : d.Fetched r h k) (command : d.command = .readDma)
    (busy : d.atastat.getLsbD 7 = true) (quiet : d.atastat.getLsbD 3 = false)
    (done : d.callbackReadDma a = some p) : Stage r h { c with ide := p.1, armed := p.2 } := by
  have kind : (Command.ofByte r.command).reads = true ∧ (Command.ofByte r.command).pio = false := by
    rw [← under.command, command]
    decide
  obtain ⟨read, initial, slice⟩ := Option.bind_eq_some_iff.mp done
  obtain ⟨under, fetched, later, status⟩ := Drive.initialRead_fetched under fetched inside initial
  rw [← status] at busy quiet
  -- without a transfer the callback finds the same sector again, if it comes at all
  have still (again : Bool) : Stage r h { c with ide := { read with pos := 0 }, armed := again } :=
    .waiting k ⟨under.command, under.awake, under.place.congr rfl, under.left, under.more⟩
      ((fetched.history kind.1).congr rfl) busy quiet
  cases answer : a.busMaster with
  | none =>
    rw [answer] at slice
    cases slice
    exact still false
  | some performed =>
    rw [answer] at slice
    obtain ⟨taken, take, rfl⟩ := Option.map_eq_some_iff.mp slice
    obtain ⟨fetched, sectorPos, handed, rfl⟩ := Drive.takeSlice_fetched fetched later take
    cases performed with
    | false => exact still true
    | true =>
      have here : Drive.Under r h { read with sectorPos, handed, pos := 0 } k :=
        ⟨under.command, under.awake, under.place.congr rfl, under.left, under.more⟩
      exact Stage.nextDma here inside ((fetched.history kind.1).congr rfl) kind.2

/-- What follows a sector that the guest wrote to the data port. -/
theorem Stage.nextWrite (history : d.History r h (k + 1))
    (writes : (Command.ofByte r.command).writes = true)
    (pio : (Command.ofByte r.command).pio = true) :
    Stage r h { c with ide := d.nextWrite, armed := false } := by
  simp only [Drive.nextWrite]
  split
  · rename_i more
    have here : Drive.Under r h { d with atastat := drqStat ||| readyStat ||| dscStat, pos := 0 } k
      :=
      ⟨under.command, under.awake, under.place.congr rfl, under.left, under.more⟩
    have next := here.next inside more
    have moved : Drive.History r h
        (Drive.countDown { d with atastat := drqStat ||| readyStat ||| dscStat, pos := 0 })
          (k + 1) :=
      history.congr rfl
    obtain ⟨sector, head, cylinder, lbaAddr, eq⟩ := Drive.nextSector_eq
      (Drive.countDown { d with atastat := drqStat ||| readyStat ||| dscStat, pos := 0 })
    exact .writing (k + 1) next moved.nextSector writes pio
      ((congrArg (fun d => d.atastat.getLsbD 3) eq).trans drqStatus) rfl
  · rename_i none
    obtain ⟨last, place⟩ := under.last none
    have quiet : (readyStat ||| dscStat).getLsbD 3 = false := by decide
    exact .done under.command (place.congr rfl) (last ▸ history.congr rfl) (fun _ => quiet) rfl

theorem Stage.callbackWrite (stored : d.Stored r h k) (command : d.command = .write ∨
    d.command = .writeNoretry) (done : d.callbackWrite a = some p) :
    Stage r h { c with ide := p.1, armed := p.2 } := by
  have kind : (Command.ofByte r.command).writes = true ∧
      (Command.ofByte r.command).pio = true := by
    rw [← under.command]
    rcases command with write | write <;> rw [write] <;> decide
  obtain ⟨written, store, rfl⟩ := Option.map_eq_some_iff.mp done
  obtain ⟨stored, calls, rfl⟩ := Drive.storeSector_stored under stored inside store
  have here : Drive.Under r h (Drive.irqRaise { d with calls }) k :=
    ⟨under.command, under.awake, under.place.congr rfl, under.left, under.more⟩
  exact Stage.nextWrite here inside ((stored.history kind.1).congr rfl) kind.1 kind.2

theorem Stage.callbackWriteMultiple (stored : d.Stored r h k) (command : d.command = .writeMultiple)
    (done : d.callbackWriteMultiple a = some p) :
    Stage r h { c with ide := p.1, armed := p.2 } := by
  have kind : (Command.ofByte r.command).writes = true ∧
      (Command.ofByte r.command).pio = true := by
    rw [← under.command, command]
    decide
  obtain ⟨written, store, rfl⟩ := Option.map_eq_some_iff.mp done
  obtain ⟨stored, calls, rfl⟩ := Drive.storeSector_stored under stored inside store
  dsimp only
  split
  · have here : Drive.Under r h (Drive.irqRaise { d with calls, blockcount := 0 }) k :=
      ⟨under.command, under.awake, under.place.congr rfl, under.left, under.more⟩
    exact Stage.nextWrite here inside ((stored.history kind.1).congr rfl) kind.1 kind.2
  · have here : Drive.Under r h { d with calls, blockcount := d.blockcount + 1 } k :=
      ⟨under.command, under.awake, under.place.congr rfl, under.left, under.more⟩
    exact Stage.nextWrite here inside ((stored.history kind.1).congr rfl) kind.1 kind.2

theorem Stage.callbackWriteDma (stored : d.Stored r h k) (command : d.command = .writeDma)
    (busy : d.atastat.getLsbD 7 = true) (quiet : d.atastat.getLsbD 3 = false)
    (done : d.callbackWriteDma a = some p) : Stage r h { c with ide := p.1, armed := p.2 } := by
  have kind : (Command.ofByte r.command).writes = true ∧
      (Command.ofByte r.command).pio = false := by
    rw [← under.command, command]
    decide
  have history := stored.history kind.1
  simp only [Drive.callbackWriteDma] at done
  split at done
  · cases done
    exact .waiting k under history busy quiet
  · cases done
    exact .waiting k ⟨under.command, under.awake, under.place.congr rfl, under.left, under.more⟩
      (history.congr rfl) busy quiet
  · obtain ⟨written, store, rfl⟩ := Option.map_eq_some_iff.mp done
    have here : Drive.Under r h
        { d with buffer := fun i => if i < 256 then a.dmaWords i else d.buffer i } k :=
      ⟨under.command, under.awake, under.place.congr rfl, under.left, under.more⟩
    obtain ⟨stored, calls, rfl⟩ := Drive.storeSector_stored here
      ⟨stored.answered, stored.requests⟩ inside store
    exact Stage.nextDma
      ⟨here.command, here.awake, here.place.congr rfl, here.left, here.more⟩ inside
      (stored.history kind.1) kind.2

end Callback

/-- The callback of a busy drive moves one sector, or leaves the transfer where it stands. -/
theorem Stage.callbackide (under : c.ide.Under r h k) (history : c.ide.History r h k)
    (transfers : (Command.ofByte r.command).reads = true ∨ (Command.ofByte r.command).writes = true)
    (inside : r.start h + r.due ≤ 2147483648) (busy : c.ide.atastat.getLsbD 7 = true)
    (quiet : c.ide.atastat.getLsbD 3 = false) (still : c.armed = false)
    (done : callbackide c a = some c') : Stage r h c' := by
  simp only [Ide.callbackide, under.awake, still, Bool.false_eq_true, if_false,
    Bool.false_or] at done
  obtain ⟨p, called, rfl⟩ := Option.map_eq_some_iff.mp done
  rw [← under.command] at transfers
  simp only [Drive.callback] at called
  cases command : c.ide.command with
  | read | readNoretry =>
    rw [command] at called
    have fetched := history.fetched (by rw [← under.command, command]; rfl)
    exact Stage.callbackRead under inside fetched (by simp [command]) called
  | readMultiple =>
    rw [command] at called
    have fetched := history.fetched (by rw [← under.command, command]; rfl)
    exact Stage.callbackReadMultiple under inside fetched command called
  | readDma =>
    rw [command] at called
    have fetched := history.fetched (by rw [← under.command, command]; rfl)
    exact Stage.callbackReadDma under inside fetched command busy quiet called
  | write | writeNoretry =>
    rw [command] at called
    have stored := history.stored (by rw [← under.command, command]; rfl)
    exact Stage.callbackWrite under inside stored (by simp [command]) called
  | writeMultiple =>
    rw [command] at called
    have stored := history.stored (by rw [← under.command, command]; rfl)
    exact Stage.callbackWriteMultiple under inside stored command called
  | writeDma =>
    rw [command] at called
    have stored := history.stored (by rw [← under.command, command]; rfl)
    exact Stage.callbackWriteDma under inside stored command busy quiet called
  | _ => simp [command, Command.reads, Command.writes] at transfers

/-! ## The data port -/

theorem Command.reads_or_writes {command : Command} (pio : command.pio = true) :
    (command.reads = true ↔ command = .read ∨ command = .readNoretry ∨ command = .readMultiple) ∧
      (command.reads = false → command.writes = true) ∧ command ≠ .packetcmd ∧ command ≠ .idle := by
  cases command <;> first | decide | cases pio

theorem Drive.asks_two (asks : d.asks 4 = true) : d.asks 2 = true := by
  simp only [Drive.asks, Bool.and_eq_true, decide_eq_true_eq] at asks ⊢
  exact ⟨asks.1, by omega⟩

/-- A drive that asks for data is in the middle of a sector of a command for the data port. -/
theorem Stage.of_asks {n : Nat} (stage : Stage r h c) (asks : c.ide.asks n = true) :
    ∃ k, c.ide.Under r h k ∧ (Command.ofByte r.command).pio = true ∧ c.armed = false ∧
      c.ide.atastat.getLsbD 3 = true ∧ c.ide.pos + n ≤ 512 ∧
      ((c.ide.History r h (k + 1) ∧ c.ide.doInitialRead = false ∧ c.ide.command.reads = true) ∨
        (c.ide.History r h k ∧ c.ide.command.writes = true)) := by
  simp only [Drive.asks, Bool.and_eq_true, decide_eq_true_eq] at asks
  obtain ⟨⟨pio, drq⟩, fits⟩ := asks
  cases stage with
  | waiting k _ _ _ quiet => exact absurd (quiet.symm.trans drq) (by decide)
  | reading k under history fetched reads pio asks still =>
    exact ⟨k, under, pio, still, drq, fits, .inl ⟨history, fetched, under.command ▸ reads⟩⟩
  | writing k under history writes pio asks still =>
    exact ⟨k, under, pio, still, drq, fits, .inr ⟨history, under.command ▸ writes⟩⟩
  | done command _ _ quiet => exact absurd ((quiet (command ▸ pio)).symm.trans drq) (by decide)

/-- A read goes on to the next sector, busy with it. -/
theorem Drive.Under.readOn (under : d.Under r h k) (inside : r.start h + r.due ≤ 2147483648)
    (more : (d.secount + 255) % 256 ≠ 0) : d.countDown.readOn.Under r h (k + 1) := by
  have next := under.next inside more
  exact ⟨next.command, next.awake, next.place.congr rfl, next.left, next.more⟩

theorem Drive.History.readOn (history : d.History r h k) : d.countDown.readOn.History r h k := by
  have counted : d.countDown.History r h k := history.congr rfl
  exact counted.nextSector.congr rfl

theorem Drive.readOn_status : d.readOn.atastat.getLsbD 7 = true ∧
    d.readOn.atastat.getLsbD 3 = false := by
  change (busyStat ||| readyStat ||| dscStat).getLsbD 7 = true ∧
    (busyStat ||| readyStat ||| dscStat).getLsbD 3 = false
  decide

theorem Stage.readidew {q : Word × Channel} (stage : Stage r h c)
    (inside : r.start h + r.due ≤ 2147483648) (reads : c.ide.command.reads = true)
    (asks : c.ide.asks 2 = true) (done : readidew c a = some q) :
    Stage r h q.2 ∧
      (c.ide.asks 4 = true → q.2.ide.command.reads = true ∧ q.2.ide.asks 2 = true) := by
  obtain ⟨k, under, pio, still, drq, fits, direction⟩ := stage.of_asks asks
  have pio' : c.ide.command.pio = true := by rw [under.command, pio]
  obtain ⟨forms, -, noPacket, noIdle⟩ := Command.reads_or_writes pio'
  have kind : (Command.ofByte r.command).reads = true := under.command ▸ reads
  obtain ⟨history, fetched, -⟩ | ⟨-, writes⟩ := direction
  case inr => exact absurd (reads.symm.trans (Command.reads_of_writes writes)) (by decide)
  simp only [Ide.readidew, noPacket, if_false, show c.ide.pos / 2 < 65536 by omega, if_true] at done
  split at done
  case isFalse more =>
    cases done
    refine ⟨.reading k ⟨under.command, under.awake, under.place.congr rfl, under.left, under.more⟩
      (history.congr rfl) fetched kind pio drq still, fun twice => ⟨reads, ?_⟩⟩
    simp only [Drive.asks, Bool.and_eq_true, decide_eq_true_eq] at twice ⊢
    exact ⟨twice.1, by omega⟩
  rename_i last
  have once : ¬c.ide.asks 4 = true := by
    simp only [Drive.asks, Bool.and_eq_true, decide_eq_true_eq]
    omega
  refine ⟨?_, fun twice => absurd twice once⟩
  have form : c.ide.sectorRead.command = .read ∨ c.ide.sectorRead.command = .readNoretry ∨
      c.ide.sectorRead.command = .readMultiple := forms.mp reads
  rw [if_pos form] at done
  have here : Drive.Under r h c.ide.sectorRead k :=
    ⟨under.command, under.awake, under.place.congr rfl, under.left, under.more⟩
  split at done
  · rename_i more
    have next := here.readOn inside more
    have moved : Drive.History r h c.ide.sectorRead.countDown.readOn (k + 1) :=
      Drive.History.readOn (history.congr rfl)
    obtain ⟨busy, quiet⟩ := Drive.readOn_status (d := c.ide.sectorRead.countDown)
    split at done
    · obtain ⟨c', called, rfl⟩ := Option.map_eq_some_iff.mp done
      refine Stage.callbackide (k := k + 1) ?_ ?_ (.inl kind) inside ?_ ?_ ?_ called
      · exact next
      · exact moved
      · exact busy
      · exact quiet
      · exact still
    · cases done
      exact .waiting (k + 1) next moved busy quiet
  · rename_i none
    obtain ⟨last, place⟩ := here.last none
    have quiet : (readyStat ||| dscStat).getLsbD 3 = false := by decide
    cases done
    exact .done under.command (place.congr rfl) (last ▸ history.congr rfl) (fun _ => quiet) still

theorem Stage.writeidew {val : Word} (stage : Stage r h c)
    (inside : r.start h + r.due ≤ 2147483648) (writes : c.ide.command.writes = true)
    (asks : c.ide.asks 2 = true) (done : writeidew c val a = some c') :
    Stage r h c' ∧
      (c.ide.asks 4 = true → c'.ide.command.writes = true ∧ c'.ide.asks 2 = true) := by
  obtain ⟨k, under, pio, still, drq, fits, direction⟩ := stage.of_asks asks
  have pio' : c.ide.command.pio = true := by rw [under.command, pio]
  obtain ⟨-, -, noPacket, -⟩ := Command.reads_or_writes pio'
  have kind : (Command.ofByte r.command).writes = true := under.command ▸ writes
  obtain ⟨-, -, reads⟩ | ⟨history, -⟩ := direction
  case inl => exact absurd (reads.symm.trans (Command.reads_of_writes writes)) (by decide)
  simp only [Ide.writeidew, noPacket, if_false, show c.ide.pos / 2 < 65536 by omega, if_true] at done
  split at done
  case isFalse more =>
    cases done
    refine ⟨.writing k ⟨under.command, under.awake, under.place.congr rfl, under.left, under.more⟩
      (history.congr rfl) kind pio drq still, fun twice => ⟨writes, ?_⟩⟩
    simp only [Drive.asks, Bool.and_eq_true, decide_eq_true_eq] at twice ⊢
    exact ⟨twice.1, by omega⟩
  rename_i last
  have once : ¬c.ide.asks 4 = true := by
    simp only [Drive.asks, Bool.and_eq_true, decide_eq_true_eq]
    omega
  refine ⟨?_, fun twice => absurd twice once⟩
  have here : Drive.Under r h { c.ide with
      buffer := Function.update c.ide.buffer (c.ide.pos / 2) val, pos := 0, atastat := busyStat } k
        :=
    ⟨under.command, under.awake, under.place.congr rfl, under.left, under.more⟩
  split at done
  · refine Stage.callbackide (k := k) ?_ ?_ (.inr kind) inside ?_ ?_ ?_ done
    · exact here
    · exact history.congr rfl
    · exact busyStatus.1
    · exact busyStatus.2
    · exact still
  · cases done
    exact .waiting k here (history.congr rfl) busyStatus.1 busyStatus.2

theorem Stage.timer (stage : Stage r h c)
    (transfers : (Command.ofByte r.command).reads = true ∨ (Command.ofByte r.command).writes = true)
    (inside : r.start h + r.due ≤ 2147483648) (done : c.step (.timer, a) = some c') :
    Stage r h c' := by
  simp only [Channel.step] at done
  split at done
  · rename_i armed
    cases stage with
    | waiting k under history busy quiet =>
      exact Stage.callbackide (c := { c with armed := false }) under history transfers inside busy
        quiet rfl done
    | reading _ _ _ _ _ _ _ still => exact absurd (still.symm.trans armed) (by decide)
    | writing _ _ _ _ _ _ still => exact absurd (still.symm.trans armed) (by decide)
    | done _ _ _ _ still => exact absurd (still.symm.trans armed) (by decide)
  · cases done
    exact stage

/-- The status register acknowledges the interrupt. -/
theorem Stage.irqLower (stage : Stage r h c) : Stage r h { c with ide := c.ide.irqLower } := by
  have lower {k : Nat} (under : c.ide.Under r h k) : c.ide.irqLower.Under r h k :=
    ⟨under.command, under.awake, under.place.congr rfl, under.left, under.more⟩
  cases stage with
  | waiting k under history busy quiet =>
    exact .waiting k (lower under) (history.congr rfl) busy quiet
  | reading k under history fetched reads pio asks still =>
    exact .reading k (lower under) (history.congr rfl) fetched reads pio asks still
  | writing k under history writes pio asks still =>
    exact .writing k (lower under) (history.congr rfl) writes pio asks still
  | done command place history quiet still =>
    exact .done command (place.congr rfl) (history.congr rfl) quiet still

/-- A register other than the data port tells the guest how the command stands. -/
theorem Stage.readRegister {port : Port} {q : Byte × Channel} (stage : Stage r h c)
    (noData : port ≠ .data) (done : readide c port a = some q) : Stage r h q.2 := by
  cases port with
  | data => exact absurd rfl noData
  | command =>
    simp only [readide] at done
    split at done <;> cases done
    · exact stage
    · exact stage.irqLower
  | control =>
    simp only [readide] at done
    split at done <;> cases done <;> exact stage
  | features | secount | sector | cylinderLow | cylinderHigh | driveHead =>
    cases done
    exact stage

/-- An access of a guest that attends to its command. -/
theorem Stage.step {op : Op × Answer} (stage : Stage r h c)
    (transfers : (Command.ofByte r.command).reads = true ∨ (Command.ofByte r.command).writes = true)
    (inside : r.start h + r.due ≤ 2147483648) (attends : c.attends op = true)
    (done : c.step op = some c') : Stage r h c' := by
  obtain ⟨op, a⟩ := op
  cases op with
  | timer => exact stage.timer transfers inside done
  | read port =>
    obtain ⟨q, read, rfl⟩ := Option.map_eq_some_iff.mp done
    by_cases data : port = .data
    · subst data
      obtain ⟨reads, asks⟩ := Bool.and_eq_true_iff.mp attends
      simp only [readide] at read
      split at read
      · cases read
        exact stage
      · obtain ⟨word, moved, rfl⟩ := Option.map_eq_some_iff.mp read
        exact (stage.readidew inside reads asks moved).1
    · exact stage.readRegister data read
  | readw =>
    obtain ⟨reads, asks⟩ := Bool.and_eq_true_iff.mp attends
    obtain ⟨q, read, rfl⟩ := Option.map_eq_some_iff.mp done
    exact (stage.readidew inside reads asks read).1
  | readl =>
    obtain ⟨reads, asks⟩ := Bool.and_eq_true_iff.mp attends
    obtain ⟨q, read, rfl⟩ := Option.map_eq_some_iff.mp done
    obtain ⟨low, first, rest⟩ := Option.bind_eq_some_iff.mp read
    obtain ⟨high, second, rfl⟩ := Option.map_eq_some_iff.mp rest
    obtain ⟨stage, again⟩ := stage.readidew inside reads (Drive.asks_two asks) first
    obtain ⟨reads, asks⟩ := again asks
    exact (stage.readidew inside reads asks second).1
  | write port val =>
    cases port with
    | data =>
      obtain ⟨writes, asks⟩ := Bool.and_eq_true_iff.mp attends
      simp only [Channel.step, writeide] at done
      split at done
      · cases done
        exact stage
      · exact (stage.writeidew inside writes asks done).1
    | _ => cases attends
  | writew val =>
    obtain ⟨writes, asks⟩ := Bool.and_eq_true_iff.mp attends
    exact (stage.writeidew inside writes asks done).1
  | writel val =>
    obtain ⟨writes, asks⟩ := Bool.and_eq_true_iff.mp attends
    obtain ⟨low, first, second⟩ := Option.bind_eq_some_iff.mp done
    obtain ⟨stage, again⟩ := stage.writeidew inside writes (Drive.asks_two asks) first
    obtain ⟨writes, asks⟩ := again asks
    exact (stage.writeidew inside writes asks second).1
  | resetDevices => cases attends

end PCemWeb.Ide
