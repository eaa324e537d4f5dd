import PCemWeb.Ide.Ide
import PCemWeb.Lib.Run

/-!
# The buffers of a drive

Every access of a guest stays inside `buffer` and `sector_buffer` and reaches no `fatal`, provided
that the guest keeps to the discipline `fits`: it sets a block size before the multiple commands,
does not read the data port to the end with no command, does not ask for a slice after the last of
`sector_buffer`, and starts no request past the end of a raw or VHD image. `Bounded` is the
invariant. `callback_defined` is the step lemma of the callback, and `inBuffers_of_run` the run.
-/

namespace PCemWeb.Ide

open PCemWeb.Lib

/-! ## The discipline -/

/-- The sectors that a count of the register asks for. -/
def Drive.due (d : Drive) : Nat := if d.secount = 0 then 256 else d.secount

/-- The callback of a read command finds its slice in `sector_buffer`: `n` more of them for a read
through the data port, and all that the count asks for in a DMA read. -/
def Drive.spare (d : Drive) (n : Nat) : Bool :=
  d.doInitialRead ||
    match d.command with
    | .read | .readNoretry | .readMultiple => d.sectorPos + n ≤ 256
    | .readDma => d.sectorPos + d.due ≤ 256
    | _ => true

/-- The storage request that the callback would make begins inside the image. -/
def Drive.requestStarts (d : Drive) (a : Answer) : Bool :=
  match d.command with
  | .read | .readNoretry | .readMultiple | .readDma =>
    !d.doInitialRead || d.hddFile.starts d.getSector
  | .write | .writeNoretry | .writeMultiple => d.hddFile.starts d.getSector
  | .writeDma => a.busMaster != some true || d.hddFile.starts d.getSector
  | .format => d.hddFile.formatStarts d.getSector d.secount
  | _ => true

/-- A word may be written to the data port. -/
def Channel.wordWriteFits (c : Channel) (a : Answer) : Bool :=
  c.ide.pos + 2 < 512 || c.ide.reset ||
    if c.ide.command = .writeMultiple then c.ide.requestStarts a else c.ide.spare 1

/-- A word may be read from the data port. The read that empties a sector may call for the next
slice, once more where the timer is still set. -/
def Channel.wordReadFits (c : Channel) (a : Answer) : Bool :=
  if c.ide.command = .idle then c.ide.pos + 2 < 131072
  else if c.ide.pos + 2 < 512 then true
  else if c.ide.secount = 1 then true
  else match c.ide.command with
    | .read | .readNoretry => c.ide.reset || c.ide.spare 1
    | .readMultiple =>
      c.ide.spare (if c.armed then 2 else 1) &&
        (c.ide.reset || c.ide.sectorRead.countDown.readOn.requestStarts a)
    | _ => true

/-- The discipline that keeps a channel inside its buffers. -/
def Channel.fits (c : Channel) : Op × Answer → Bool
  | (.write .data _, a) => c.ide.type = .none || c.wordWriteFits a
  | (.write .secount val, _) =>
    !c.armed || c.ide.reset || Drive.spare { c.ide with secount := val.toNat } 1
  | (.write .driveHead val, _) =>
    c.cur = val.getLsbD 4 || c.ide.reset || c.other.reset || !c.armed || c.other.spare 1
  | (.write .command val, _) =>
    c.ide.type = .none || c.ide.blocksize ≠ 0 ||
      (Command.ofByte val ≠ .readMultiple && Command.ofByte val ≠ .writeMultiple)
  | (.read .data, a) => c.ide.type = .none || c.wordReadFits a
  | (.writew _, a) => c.wordWriteFits a
  | (.writel val, a) =>
    c.wordWriteFits a && (writeidew c (val.truncate 16) a).all (·.wordWriteFits a)
  | (.readw, a) => c.wordReadFits a
  | (.readl, a) => c.wordReadFits a && (readidew c a).all (·.2.wordReadFits a)
  | (.timer, a) => !c.armed || c.ide.reset || c.ide.requestStarts a
  | _ => true

/-- The data-port indices are inside `buffer`, and each access that `ok` admits indexes the
buffers in range and reaches no `fatal`. -/
structure InBuffers (ok : Channel → Op × Answer → Bool) (c : Channel) : Prop where
  ide : c.ide.pos / 2 < 65536
  other : c.other.pos / 2 < 65536
  defined : ∀ op, ok c op = true → (c.step op).isSome

/-! ## The invariant -/

/-- The commands that read `sector_buffer`. -/
def Command.reads : Command → Bool
  | .read | .readNoretry | .readMultiple | .readDma => true
  | _ => false

/-- The position is inside `buffer` and the count is a byte. -/
structure Drive.Bounded (d : Drive) : Prop where
  pos : d.pos ≤ 131071
  secount : d.secount ≤ 255

/-- A set timer finds its slice. -/
structure Bounded (c : Channel) : Prop where
  ide : c.ide.Bounded
  other : c.other.Bounded
  due : c.armed = true → c.ide.reset = false → c.ide.spare 1 = true

variable {c c' : Channel} {d d' : Drive} {a : Answer} {m : Medium} {n : Nat}

theorem Drive.due_pos : 0 < d.due := by
  simp only [Drive.due]
  split <;> omega

theorem Drive.due_le (bounded : d.Bounded) : d.due ≤ 256 := by
  have := bounded.secount
  simp only [Drive.due]
  split <;> omega

/-- A command that does not read needs no slice. -/
theorem Drive.spare_of_writes (writes : d.command.reads = false) : d.spare n = true := by
  cases command : d.command <;> simp_all [Drive.spare, Command.reads]

theorem Drive.spare_anti (spare : d.spare (n + 1) = true) : d.spare n = true := by
  simp only [Drive.spare, Bool.or_eq_true] at spare ⊢
  rcases spare with initial | fits
  · exact .inl initial
  · right
    cases command : d.command <;> simp only [command, decide_eq_true_eq] at fits ⊢ <;> omega

/-- The next sector changes the address only. -/
theorem Drive.nextSector_eq (d : Drive) : ∃ sector head cylinder lbaAddr,
    d.nextSector = { d with sector, head, cylinder, lbaAddr } := by
  simp only [Drive.nextSector]
  split
  · exact ⟨_, _, _, _, rfl⟩
  split
  · split <;> exact ⟨_, _, _, _, rfl⟩
  · exact ⟨_, _, _, _, rfl⟩

/-- The initial read fills `sector_buffer` and starts again at its first sector. -/
theorem Drive.initialRead_defined (bounded : d.Bounded)
    (starts : d.doInitialRead = true → d.hddFile.starts d.getSector = true) :
    ∃ sectorPos sectorBuffer calls,
      d.initialRead m = some { d with doInitialRead := false, sectorPos, sectorBuffer, calls } ∧
        (d.doInitialRead = true ∧ sectorPos = 0 ∨
          d.doInitialRead = false ∧ sectorPos = d.sectorPos) := by
  cases initial : d.doInitialRead with
  | false =>
    have none : d.initialRead m = some d := if_neg (by simp [initial])
    refine ⟨d.sectorPos, d.sectorBuffer, d.calls, none.trans (congrArg some ?_), .inr ⟨rfl, rfl⟩⟩
    cases d
    cases initial
    rfl
  | true =>
    have read : ∃ t, hddReadSectors d.hddFile d.getSector
        (if d.secount ≠ 0 then d.secount else 256) m = some t ∧
          t.moved ≤ (if d.secount ≠ 0 then d.secount else 256) * 512 :=
      hddReadSectors_defined (starts initial)
    obtain ⟨t, done, bytes⟩ := read
    have fits : t.moved ≤ bufferBytes := by
      have := bounded.secount
      have size : bufferBytes = 131072 := rfl
      split at bytes <;> omega
    exact ⟨0, _, _, (if_pos initial).trans ((congrArg (Option.bind · _) done).trans (if_pos fits)),
      .inl ⟨rfl, rfl⟩⟩

/-- What the callback of one command leaves: a timer that it sets finds its slice, and so does one
that was set before it if there were two slices to spare. -/
structure Drive.After (d : Drive) (r : Drive × Bool) : Prop where
  bounded : r.1.Bounded
  due : r.2 = true → r.1.spare 1 = true
  again : d.command ≠ .readDma → d.spare 2 = true → r.1.spare 1 = true

theorem Drive.countDown_bounded : (d.secount + 255) % 256 ≤ 255 := by omega

/-- The slice at hand is inside `sector_buffer`. -/
theorem Drive.takeSlice_defined (inside : d.sectorPos < 256) :
    d.takeSlice =
      some { d with sectorPos := d.sectorPos + 1, handed := d.handed ++ [d.sectorPos] } := by
  have size : bufferBytes = 131072 := rfl
  exact if_pos (by omega)

theorem Drive.callbackRead_defined (bounded : d.Bounded) (spare : d.spare 1 = true)
    (reads : d.command = .read ∨ d.command = .readNoretry)
    (starts : d.doInitialRead = true → d.hddFile.starts d.getSector = true) :
    ∃ r, d.callbackRead a = some r ∧ d.After r := by
  obtain ⟨sectorPos, sectorBuffer, calls, initial, position⟩ :=
    Drive.initialRead_defined (m := a.medium) bounded starts
  have fits (k : Nat) (some_ : 0 < k) (spare : d.spare k = true) : sectorPos + k ≤ 256 ∨ k > 256 := by
    rcases position with ⟨first, rfl⟩ | ⟨later, rfl⟩
    · omega
    · rcases reads with read | read <;> simp [Drive.spare, later, read] at spare <;> omega
  have inside := fits 1 (by omega) spare
  simp only [Drive.callbackRead, initial, Option.bind_some]
  rw [Drive.takeSlice_defined (by dsimp only; omega)]
  refine ⟨_, rfl, ⟨⟨by simp [Drive.irqRaise], bounded.secount⟩, nofun, fun _ spare => ?_⟩⟩
  have twice := fits 2 (by omega) spare
  rcases reads with read | read <;> simp [Drive.spare, Drive.irqRaise, read] <;> omega

theorem Drive.callbackReadMultiple_defined (bounded : d.Bounded) (spare : d.spare 1 = true)
    (reads : d.command = .readMultiple)
    (starts : d.doInitialRead = true → d.hddFile.starts d.getSector = true) :
    ∃ r, d.callbackReadMultiple a = some r ∧ d.After r := by
  obtain ⟨sectorPos, sectorBuffer, calls, initial, position⟩ :=
    Drive.initialRead_defined (m := a.medium) bounded starts
  have fits (k : Nat) (some_ : 0 < k) (spare : d.spare k = true) : sectorPos + k ≤ 256 ∨ k > 256 := by
    rcases position with ⟨first, rfl⟩ | ⟨later, rfl⟩
    · omega
    · simp [Drive.spare, later, reads] at spare
      omega
  have inside := fits 1 (by omega) spare
  simp only [Drive.callbackReadMultiple, initial, Option.bind_some]
  rw [Drive.takeSlice_defined (by dsimp only; omega)]
  refine ⟨_, rfl, ⟨?_, nofun, fun _ spare => ?_⟩⟩
  · dsimp only
    split <;> exact ⟨by simp [Drive.irqRaise], bounded.secount⟩
  · have twice := fits 2 (by omega) spare
    dsimp only
    split <;> simp [Drive.spare, Drive.irqRaise, reads] <;> omega

/-- The next sector of a DMA transfer, with its fields. -/
theorem Drive.nextDma_eq (d : Drive) :
    ∃ atastat sector head cylinder lbaAddr irqstat service,
      d.nextDma.1 = { d with secount := (d.secount + 255) % 256, atastat, sector, head, cylinder,
                             lbaAddr, irqstat, service } ∧
        (d.nextDma.2 = true → (d.secount + 255) % 256 ≠ 0) := by
  simp only [Drive.nextDma]
  split
  · rename_i more
    obtain ⟨sector, head, cylinder, lbaAddr, next⟩ := Drive.nextSector_eq
      (Drive.countDown { d with atastat := drqStat ||| readyStat ||| dscStat })
    rw [next]
    exact ⟨_, _, _, _, _, _, _, rfl, fun _ => more⟩
  · exact ⟨_, _, _, _, _, _, _, rfl, nofun⟩

theorem Drive.callbackReadDma_defined (bounded : d.Bounded) (spare : d.spare 1 = true)
    (reads : d.command = .readDma)
    (starts : d.doInitialRead = true → d.hddFile.starts d.getSector = true) :
    ∃ r, d.callbackReadDma a = some r ∧ d.After r := by
  obtain ⟨sectorPos, sectorBuffer, calls, initial, position⟩ :=
    Drive.initialRead_defined (m := a.medium) bounded starts
  have fits : sectorPos + d.due ≤ 256 := by
    rcases position with ⟨first, rfl⟩ | ⟨later, rfl⟩
    · simpa using Drive.due_le bounded
    · simpa [Drive.spare, later, reads] using spare
  have positive := d.due_pos
  have noAgain {r : Drive × Bool} (dma : d.command ≠ .readDma) : d.spare 2 = true →
      r.1.spare 1 = true := absurd reads dma
  simp only [Drive.callbackReadDma, initial, Option.bind_some]
  cases a.busMaster with
  | none => exact ⟨_, rfl, ⟨Nat.zero_le _, bounded.secount⟩, nofun, noAgain⟩
  | some performed =>
    dsimp only
    rw [Drive.takeSlice_defined (by dsimp only; omega)]
    refine ⟨_, rfl, ?_⟩
    cases performed with
    | false =>
      refine ⟨⟨Nat.zero_le _, bounded.secount⟩, fun _ => ?_, noAgain⟩
      simpa [Drive.spare, Drive.due, reads] using fits
    | true =>
      simp only [if_true]
      obtain ⟨atastat, sector, head, cylinder, lbaAddr, irqstat, service, next, more⟩ :=
        Drive.nextDma_eq { d with
          doInitialRead := false, sectorPos := sectorPos + 1, sectorBuffer, calls, pos := 0,
          handed := d.handed ++ [sectorPos] }
      refine ⟨?_, fun again => ?_, noAgain⟩
      · rw [next]
        exact ⟨Nat.zero_le _, Drive.countDown_bounded⟩
      · have left : (d.secount + 255) % 256 ≠ 0 := more again
        have := bounded.secount
        rw [next]
        simp only [Drive.due] at fits
        simp only [Drive.spare, reads, Drive.due, Bool.false_or, decide_eq_true_eq, left, if_false]
        split at fits <;> omega

/-! ## Writes and formats -/

theorem Drive.storeSector_defined (starts : d.hddFile.starts d.getSector = true) :
    ∃ calls, d.storeSector m = some { d with calls } := by
  have write : ∃ t, hddWriteSectors d.hddFile d.getSector 1 m = some t ∧ t.moved ≤ 1 * 512 :=
    hddWriteSectors_defined starts
  obtain ⟨t, done, bytes⟩ := write
  have fits : t.moved ≤ bufferBytes := Nat.le_trans bytes (by decide)
  exact ⟨_, (congrArg (Option.bind · _) done).trans (if_pos fits)⟩

/-- A command other than a read leaves nothing for the timer to find. -/
theorem Drive.After.of_writes {r : Drive × Bool} (bounded : r.1.Bounded)
    (writes : r.1.command.reads = false) : d.After r :=
  ⟨bounded, fun _ => Drive.spare_of_writes writes, fun _ _ => Drive.spare_of_writes writes⟩

/-- The next sector of a write, with its fields. -/
theorem Drive.nextWrite_eq (d : Drive) : ∃ atastat pos sector head cylinder lbaAddr,
    d.nextWrite = { d with
      secount := (d.secount + 255) % 256, atastat, pos, sector, head, cylinder, lbaAddr } ∧
        (pos = 0 ∨ pos = d.pos) := by
  simp only [Drive.nextWrite]
  split
  · obtain ⟨sector, head, cylinder, lbaAddr, next⟩ := Drive.nextSector_eq
      { d.countDown with atastat := drqStat ||| readyStat ||| dscStat, pos := 0 }
    exact ⟨_, _, _, _, _, _, next, .inl rfl⟩
  · exact ⟨_, _, _, _, _, _, rfl, .inr rfl⟩

theorem Drive.nextWrite_bounded (bounded : d.Bounded) : d.nextWrite.Bounded := by
  obtain ⟨atastat, pos, sector, head, cylinder, lbaAddr, next, position⟩ := d.nextWrite_eq
  have := bounded.pos
  rw [next]
  exact ⟨by dsimp only; omega, Drive.countDown_bounded⟩

theorem Drive.nextWrite_command : d.nextWrite.command = d.command := by
  obtain ⟨atastat, pos, sector, head, cylinder, lbaAddr, next, -⟩ := d.nextWrite_eq
  rw [next]

theorem Drive.callbackWrite_defined (bounded : d.Bounded)
    (writes : d.command = .write ∨ d.command = .writeNoretry)
    (starts : d.hddFile.starts d.getSector = true) :
    ∃ r, d.callbackWrite a = some r ∧ d.After r := by
  obtain ⟨calls, stored⟩ := Drive.storeSector_defined (m := a.medium) starts
  refine ⟨_, congrArg (Option.map _) stored, .of_writes ?_ ?_⟩
  · exact Drive.nextWrite_bounded ⟨bounded.pos, bounded.secount⟩
  · dsimp only
    rw [Drive.nextWrite_command]
    rcases writes with write | write <;> exact congrArg Command.reads write

theorem Drive.callbackWriteMultiple_defined (bounded : d.Bounded)
    (writes : d.command = .writeMultiple) (starts : d.hddFile.starts d.getSector = true) :
    ∃ r, d.callbackWriteMultiple a = some r ∧ d.After r := by
  obtain ⟨calls, stored⟩ := Drive.storeSector_defined (m := a.medium) starts
  refine ⟨_, congrArg (Option.map _) stored, .of_writes ?_ ?_⟩
  · refine Drive.nextWrite_bounded ?_
    split <;> exact ⟨bounded.pos, bounded.secount⟩
  · dsimp only
    rw [Drive.nextWrite_command]
    split <;> exact congrArg Command.reads writes

theorem Drive.callbackWriteDma_defined (bounded : d.Bounded) (writes : d.command = .writeDma)
    (starts : a.busMaster = some true → d.hddFile.starts d.getSector = true) :
    ∃ r, d.callbackWriteDma a = some r ∧ d.After r := by
  simp only [Drive.callbackWriteDma]
  cases answer : a.busMaster with
  | none => exact ⟨_, rfl, .of_writes bounded (congrArg Command.reads writes)⟩
  | some performed =>
    cases performed with
    | false =>
      exact ⟨_, rfl, .of_writes ⟨bounded.pos, bounded.secount⟩ (congrArg Command.reads writes)⟩
    | true =>
      obtain ⟨calls, stored⟩ := Drive.storeSector_defined (m := a.medium)
        (d := { d with buffer := fun i => if i < 256 then a.dmaWords i else d.buffer i })
        (starts answer)
      obtain ⟨atastat, sector, head, cylinder, lbaAddr, irqstat, service, next, -⟩ :=
        Drive.nextDma_eq { d with
          buffer := fun i => if i < 256 then a.dmaWords i else d.buffer i, calls }
      refine ⟨_, congrArg (Option.map _) stored, .of_writes ?_ ?_⟩ <;> rw [next]
      · exact ⟨bounded.pos, Drive.countDown_bounded⟩
      · exact congrArg Command.reads writes

theorem Drive.formatSectors_defined
    (starts : d.hddFile.formatStarts d.getSector d.secount = true) :
    ∃ calls, d.formatSectors m = some { d with calls } := by
  obtain ⟨t, done⟩ := hddFormatSectors_defined (m := m) starts
  exact ⟨_, congrArg (Option.map _) done⟩

/-- The callback of the selected drive stays inside its buffers. -/
theorem Drive.callback_defined (bounded : d.Bounded) (spare : d.spare 1 = true)
    (starts : d.requestStarts a = true) : ∃ r, d.callback a = some r ∧ d.After r := by
  have written {r : Drive × Bool} (kept : r.1.Bounded)
      (writes : r.1.command.reads = false) : ∃ r', some r = some r' ∧ d.After r' :=
    ⟨r, rfl, .of_writes kept writes⟩
  have aborted : ∃ r, some (d.abortCmd, false) = some r ∧ d.After r :=
    written ⟨Nat.zero_le _, bounded.secount⟩ rfl
  have kept : d.Bounded := bounded
  obtain ⟨pos, secount⟩ := bounded
  cases command : d.command <;>
    simp only [Drive.callback, Drive.requestStarts, command, Bool.or_eq_true,
      Bool.not_eq_true'] at starts ⊢
  case read | readNoretry =>
    exact Drive.callbackRead_defined kept spare (by simp [command]) fun initial => by simp_all
  case readMultiple =>
    exact Drive.callbackReadMultiple_defined kept spare command fun initial => by simp_all
  case readDma =>
    exact Drive.callbackReadDma_defined kept spare command fun initial => by simp_all
  case write | writeNoretry =>
    exact Drive.callbackWrite_defined kept (by simp [command]) starts
  case writeMultiple => exact Drive.callbackWriteMultiple_defined kept command starts
  case writeDma =>
    exact Drive.callbackWriteDma_defined kept command fun performed => by simp_all
  case format =>
    obtain ⟨calls, formatted⟩ := Drive.formatSectors_defined (m := a.medium) starts
    rw [formatted]
    exact written ⟨pos, secount⟩ (congrArg Command.reads command)
  case srst | driveDiagnostics =>
    exact written ⟨pos, show 1 ≤ 255 by decide⟩
      (congrArg Command.reads command)
  case restore | seek => exact written ⟨pos, secount⟩ (congrArg Command.reads command)
  case verify | verifyOnce => exact written ⟨Nat.zero_le _, secount⟩ rfl
  case specify | setMultipleMode => exact written ⟨pos, secount⟩ rfl
  case identify =>
    split
    · exact aborted
    · exact written ⟨Nat.zero_le _, secount⟩ rfl
  case checkPowerMode =>
    split
    · exact aborted
    · exact written ⟨pos, Nat.le_refl 255⟩ rfl
  all_goals exact aborted

/-! ## The channel -/

/-- Whether a slice fits is a matter of four fields. -/
theorem Drive.spare_congr (initial : d'.doInitialRead = d.doInitialRead)
    (command : d'.command = d.command) (position : d'.sectorPos = d.sectorPos)
    (count : d.command = .readDma → d'.secount = d.secount) : d'.spare n = d.spare n := by
  simp only [Drive.spare, initial, command, position]
  cases dma : d.command
  case readDma =>
    have same : d'.due = d.due := by rw [Drive.due, Drive.due, count dma]
    dsimp only
    rw [same]
  all_goals rfl

theorem Drive.resetDone_bounded : d.resetDone.absent.Bounded ↔ d.pos ≤ 131071 := by
  simp only [Drive.absent]
  constructor
  · intro bounded
    have := bounded.pos
    split at this <;> exact this
  · intro pos
    split <;> exact ⟨pos, show 1 ≤ 255 by decide⟩

theorem Drive.spare_resetDone (command : d.command ≠ .readDma) :
    d.resetDone.absent.spare n = d.spare n := by
  simp only [Drive.absent]
  split <;> exact Drive.spare_congr rfl rfl rfl fun dma => absurd dma command

theorem callbackide_defined (ide : c.ide.Bounded) (other : c.other.Bounded)
    (due : c.ide.reset = false → c.ide.spare 1 = true)
    (starts : c.ide.reset = true ∨ c.ide.requestStarts a = true)
    (again : c.armed = true → c.ide.command ≠ .readDma ∧ c.ide.spare 2 = true) :
    ∃ c', callbackide c a = some c' ∧ Bounded c' := by
  simp only [callbackide]
  cases reset : c.ide.reset with
  | true =>
    refine ⟨_, rfl, Drive.resetDone_bounded.mpr ide.pos, Drive.resetDone_bounded.mpr other.pos, ?_⟩
    intro armed _
    obtain ⟨command, twice⟩ := again armed
    exact (Drive.spare_resetDone command).trans (Drive.spare_anti twice)
  | false =>
    obtain ⟨r, done, after⟩ := Drive.callback_defined ide (due reset) (starts.resolve_left (by simp [reset]))
    refine ⟨_, congrArg (Option.map _) done, after.bounded, other, fun armed _ => ?_⟩
    rcases Bool.or_eq_true _ _ ▸ armed with before | sets
    · obtain ⟨command, twice⟩ := again before
      exact after.again command twice
    · exact after.due sets

/-- A word written to the data port. -/
theorem writeidew_defined {val : Word} (inv : Bounded c) (fits : c.wordWriteFits a = true) :
    ∃ c', writeidew c val a = some c' ∧ Bounded c' := by
  have pos := inv.ide.pos
  simp only [writeidew]
  split
  · exact ⟨c, rfl, inv⟩
  rw [if_pos (by omega)]
  by_cases full : c.ide.pos + 2 ≥ 512
  · simp only [full, if_true]
    simp only [Channel.wordWriteFits, Bool.or_eq_true, decide_eq_true_eq, or_assoc] at fits
    have fits := fits.resolve_left (by omega)
    split
    · rename_i multiple
      have stored : c.ide.command = .writeMultiple := multiple
      have spare (k : Nat) : c.ide.spare k = true := Drive.spare_of_writes (congrArg Command.reads stored)
      refine callbackide_defined ⟨Nat.zero_le _, inv.ide.secount⟩ inv.other ?_ ?_ ?_
      · exact fun _ => (Drive.spare_congr rfl rfl rfl fun _ => rfl).trans (spare 1)
      · simpa [stored, Drive.requestStarts, Drive.getSector] using fits
      · exact fun _ => ⟨by simp [stored],
          (Drive.spare_congr rfl rfl rfl fun _ => rfl).trans (spare 2)⟩
    · rename_i single
      have single : c.ide.command ≠ .writeMultiple := single
      refine ⟨_, rfl, ⟨Nat.zero_le _, inv.ide.secount⟩, inv.other, fun _ reset => ?_⟩
      have reset : c.ide.reset = false := reset
      simp only [reset, Bool.false_eq_true, false_or, single, if_false] at fits
      exact (Drive.spare_congr rfl rfl rfl fun _ => rfl).trans fits
  · simp only [full, if_false]
    refine ⟨_, rfl, ⟨show c.ide.pos + 2 ≤ 131071 by omega, inv.ide.secount⟩, inv.other, ?_⟩
    exact fun armed reset =>
      (Drive.spare_congr rfl rfl rfl fun _ => rfl).trans (inv.due armed reset)

/-- The fields that a data-port read of a whole sector leaves alone. -/
theorem Drive.readOn_eq (d : Drive) : ∃ sector head cylinder lbaAddr,
    d.sectorRead.countDown.readOn = { d with
      secount := (d.secount + 255) % 256, pos := 0,
      atastat := busyStat ||| readyStat ||| dscStat, sector, head, cylinder, lbaAddr } := by
  obtain ⟨sector, head, cylinder, lbaAddr, next⟩ := Drive.nextSector_eq d.sectorRead.countDown
  refine ⟨sector, head, cylinder, lbaAddr, ?_⟩
  rw [Drive.readOn, next]
  rfl

/-- A word read from the data port. -/
theorem readidew_defined (inv : Bounded c) (fits : c.wordReadFits a = true) :
    ∃ r, readidew c a = some r ∧ Bounded r.2 := by
  have pos := inv.ide.pos
  have count := inv.ide.secount
  simp only [readidew]
  split
  · exact ⟨_, rfl, inv⟩
  rw [if_pos (by omega)]
  simp only [Channel.wordReadFits] at fits
  by_cases full : c.ide.pos + 2 ≥ 512 ∧ c.ide.command ≠ .idle
  · obtain ⟨full, busy⟩ := full
    simp only [busy, if_false, show ¬ c.ide.pos + 2 < 512 by omega] at fits
    simp only [full, busy, ne_eq, not_false_eq_true, and_self, if_true]
    have emptied : Bounded { c with ide := c.ide.sectorRead } :=
      ⟨⟨Nat.zero_le _, count⟩, inv.other, fun armed reset =>
        (Drive.spare_congr rfl rfl rfl fun _ => rfl).trans (inv.due armed reset)⟩
    split
    rename_i pio
    · have pio : c.ide.command = .read ∨ c.ide.command = .readNoretry ∨
        c.ide.command = .readMultiple := pio
      have noDma : c.ide.command ≠ .readDma := by rcases pio with is | is | is <;> simp [is]
      split
      · rename_i more
        have more : (c.ide.secount + 255) % 256 ≠ 0 := more
        simp only [show c.ide.secount ≠ 1 by omega, if_false] at fits
        obtain ⟨sector, head, cylinder, lbaAddr, next⟩ := Drive.readOn_eq c.ide
        have same (k : Nat) : c.ide.sectorRead.countDown.readOn.spare k = c.ide.spare k := by
          rw [next]
          exact Drive.spare_congr rfl rfl rfl fun dma => absurd dma noDma
        have small : c.ide.sectorRead.countDown.readOn.Bounded := by
          rw [next]
          exact ⟨Nat.zero_le _, Drive.countDown_bounded⟩
        split
        · rename_i multiple
          have multiple : c.ide.command = .readMultiple := multiple
          simp only [multiple, Bool.and_eq_true, Bool.or_eq_true] at fits
          obtain ⟨slices, starts⟩ := fits
          have one : c.ide.spare 1 = true := by
            split at slices
            · exact Drive.spare_anti slices
            · exact slices
          have done : ∃ c', callbackide { c with ide := c.ide.sectorRead.countDown.readOn } a =
              some c' ∧ Bounded c' := by
            refine callbackide_defined small inv.other (fun _ => (same 1).trans one) ?_ ?_
            · exact starts.imp_left fun reset => by rw [next]; exact reset
            · intro armed
              have armed : c.armed = true := armed
              rw [if_pos armed] at slices
              exact ⟨by rw [next]; simp [multiple], (same 2).trans slices⟩
          obtain ⟨c', done, bounded⟩ := done
          exact ⟨_, congrArg (Option.map _) done, bounded⟩
        · rename_i single
          have single : c.ide.command ≠ .readMultiple := single
          have fits : c.ide.reset = true ∨ c.ide.spare 1 = true := by
            rcases pio with is | is | is
            · simpa [is] using fits
            · simpa [is] using fits
            · exact absurd is single
          refine ⟨_, rfl, small, inv.other, fun _ reset => (same 1).trans (fits.resolve_left ?_)⟩
          have reset : c.ide.reset = false := by
            rw [← reset]
            dsimp only
            rw [next]
          simp [reset]
      · have same : c.ide.sectorRead.countDown.spare 1 = c.ide.spare 1 :=
          Drive.spare_congr rfl rfl rfl fun dma => absurd dma noDma
        have small : c.ide.sectorRead.countDown.Bounded := ⟨Nat.zero_le _, Drive.countDown_bounded⟩
        exact ⟨_, rfl, small, inv.other, fun armed reset => same.trans (inv.due armed reset)⟩
    · exact ⟨_, rfl, emptied⟩
  · rw [if_neg full]
    have next : c.ide.pos + 2 ≤ 131071 := by
      by_cases idle : c.ide.command = .idle
      · simp only [idle, if_true, decide_eq_true_eq] at fits
        omega
      · have := not_and'.mp full idle
        omega
    refine ⟨_, rfl, ?_⟩
    exact ⟨⟨next, count⟩, inv.other, fun armed reset =>
      (Drive.spare_congr rfl rfl rfl fun _ => rfl).trans (inv.due armed reset)⟩

/-! ## The task file -/

/-- A command that has been written, with its first registers. -/
theorem writeCommand_defined {command : Command} (inv : Bounded c)
    (sized : c.ide.blocksize ≠ 0 ∨ (command ≠ .readMultiple ∧ command ≠ .writeMultiple)) :
    ∃ c', writeCommand c command a = some c' ∧ Bounded c' := by
  have pos := inv.ide.pos
  have count := inv.ide.secount
  have started {d : Drive} {armed : Bool} (kept : d.Bounded) (spare : d.spare 1 = true) :
      ∃ c', some { c with ide := d, armed := armed } = some c' ∧ Bounded c' :=
    ⟨_, rfl, kept, inv.other, fun _ _ => spare⟩
  cases command
  case readMultiple | writeMultiple =>
    have sized : c.ide.blocksize ≠ 0 := by simpa using sized
    simp only [writeCommand, Drive.irqLower, sized, if_false]
    first
    | exact started ⟨pos, count⟩ (by simp [Drive.spare])
    | exact started ⟨Nat.zero_le _, count⟩ (Drive.spare_of_writes rfl)
  case read | readNoretry | readDma => exact started ⟨pos, count⟩ (by simp [Drive.spare])
  case write | writeNoretry | format =>
    exact started ⟨Nat.zero_le _, count⟩ (Drive.spare_of_writes rfl)
  case pidentify | setMultipleMode | setidle1 | checkPowerMode =>
    refine callbackide_defined ⟨pos, count⟩ inv.other ?_ (.inr rfl) ?_
    · exact fun _ => Drive.spare_of_writes rfl
    · exact fun _ => ⟨by simp, Drive.spare_of_writes rfl⟩
  all_goals exact started ⟨pos, count⟩ (Drive.spare_of_writes rfl)

/-- A register that both drives take and that no slice depends on. -/
theorem Bounded.both {f : Drive → Drive} (inv : Bounded c) (pos : ∀ d, (f d).pos = d.pos)
    (count : ∀ d, d.Bounded → (f d).secount ≤ 255)
    (due : c.armed = true → (f c.ide).reset = false → (f c.ide).spare 1 = true) :
    Bounded (c.both f) where
  ide := ⟨(pos _).symm ▸ inv.ide.pos, count _ inv.ide⟩
  other := ⟨(pos _).symm ▸ inv.other.pos, count _ inv.other⟩
  due := due

theorem writeDriveHead_bounded {val : Byte} (inv : Bounded c)
    (fits : c.fits (.write .driveHead val, a) = true) : Bounded (writeDriveHead c val) := by
  simp only [writeDriveHead]
  split
  · rename_i moves
    split
    · exact ⟨⟨inv.other.pos, show 1 ≤ 255 by decide⟩, ⟨inv.ide.pos, show 1 ≤ 255 by decide⟩, nofun⟩
    · rename_i running
      refine ⟨⟨inv.other.pos, inv.other.secount⟩, inv.ide, fun armed _ => ?_⟩
      have armed : c.armed = true := armed
      simp only [Bool.or_eq_true, not_or, Bool.not_eq_true] at running
      simp only [Channel.fits, Bool.or_eq_true, decide_eq_true_eq, moves, running, armed,
        Bool.not_true, Bool.false_eq_true, or_self, false_or] at fits
      exact (Drive.spare_congr rfl rfl rfl fun _ => rfl).trans fits
  · exact inv.both (fun _ => rfl) (fun _ bounded => bounded.secount) fun armed reset =>
      (Drive.spare_congr rfl rfl rfl fun _ => rfl).trans (inv.due armed reset)

theorem Bounded.beginReset (inv : Bounded c) : Bounded c.beginReset :=
  ⟨⟨inv.ide.pos, inv.ide.secount⟩, ⟨inv.other.pos, inv.other.secount⟩, fun _ running =>
    absurd running (by simp [Channel.beginReset, Channel.both])⟩

theorem writeControl_bounded {val : Byte} (inv : Bounded c) : Bounded (writeControl c val) := by
  have fdisk {c : Channel} (inv : Bounded c) : Bounded (c.both fun d => { d with fdisk := val }) :=
    inv.both (fun _ => rfl) (fun _ bounded => bounded.secount) fun armed reset =>
      (Drive.spare_congr rfl rfl rfl fun _ => rfl).trans (inv.due armed reset)
  have hold {c : Channel} (inv : Bounded c) : Bounded c.holdReset :=
    ⟨⟨inv.ide.pos, inv.ide.secount⟩, ⟨inv.other.pos, inv.other.secount⟩, nofun⟩
  simp only [writeControl]
  refine fdisk ?_
  split
  · refine hold ?_
    split
    · exact inv.beginReset
    · exact inv
  · split
    · exact inv.beginReset
    · exact inv

theorem ideResetDevices_bounded (inv : Bounded c) : Bounded (ideResetDevices c) := by
  simp only [ideResetDevices]
  split
  · split
    · have begun := inv.beginReset
      exact ⟨begun.other, begun.ide, fun _ running =>
        absurd running (by simp [Channel.swap, Channel.beginReset, Channel.both])⟩
    · exact inv.beginReset
  · exact inv

/-! ## Steps and runs -/

/-- Every access that keeps to the discipline is carried out inside the buffers. -/
theorem Bounded.step (inv : Bounded c) {op : Op × Answer} (fits : c.fits op = true) :
    ∃ c', c.step op = some c' ∧ Bounded c' := by
  obtain ⟨op, a⟩ := op
  have spare {f : Drive → Drive} (same : (f c.ide).spare 1 = c.ide.spare 1)
      (reset : (f c.ide).reset = c.ide.reset) :
      c.armed = true → (f c.ide).reset = false → (f c.ide).spare 1 = true :=
    fun armed running => same.trans (inv.due armed (reset.symm.trans running))
  have register {f : Drive → Drive} (pos : ∀ d, (f d).pos = d.pos)
      (count : ∀ d, (f d).secount = d.secount) (same : (f c.ide).spare 1 = c.ide.spare 1)
      (reset : (f c.ide).reset = c.ide.reset) : ∃ c', some (c.both f) = some c' ∧ Bounded c' :=
    ⟨_, rfl, inv.both pos (fun d bounded => (count d).symm ▸ bounded.secount) (spare same reset)⟩
  cases op with
  | write port val =>
    cases port with
    | data =>
      simp only [Channel.fits, Bool.or_eq_true, decide_eq_true_eq] at fits
      simp only [Channel.step, writeide]
      split
      · exact ⟨_, rfl, inv⟩
      · exact writeidew_defined inv (fits.resolve_left ‹_›)
    | secount =>
      refine ⟨_, rfl, inv.both (fun _ => rfl) (fun _ _ => ?_) fun armed running => ?_⟩
      · exact Nat.le_of_lt_succ val.isLt
      · simpa [Channel.fits, armed, show c.ide.reset = false from running] using fits
    | command =>
      simp only [Channel.fits, Bool.or_eq_true, decide_eq_true_eq, Bool.and_eq_true] at fits
      simp only [Channel.step, writeide]
      split
      · exact ⟨_, rfl, inv⟩
      · rename_i present
        exact writeCommand_defined inv (by simpa [present] using fits)
    | driveHead => exact ⟨_, rfl, writeDriveHead_bounded inv fits⟩
    | control => exact ⟨_, rfl, writeControl_bounded inv⟩
    | features | sector | cylinderLow | cylinderHigh =>
      exact register (fun _ => rfl) (fun _ => rfl)
        (Drive.spare_congr rfl rfl rfl fun _ => rfl) rfl
  | read port =>
    cases port with
    | data =>
      simp only [Channel.fits, Bool.or_eq_true, decide_eq_true_eq] at fits
      simp only [Channel.step, readide]
      split
      · exact ⟨_, rfl, inv⟩
      · obtain ⟨r, done, kept⟩ := readidew_defined inv (fits.resolve_left ‹_›)
        exact ⟨r.2, by rw [done]; rfl, kept⟩
    | command =>
      simp only [Channel.step, readide]
      split
      · exact ⟨_, rfl, inv⟩
      · exact ⟨_, rfl, ⟨inv.ide.pos, inv.ide.secount⟩, inv.other, fun armed running =>
          (Drive.spare_congr rfl rfl rfl fun _ => rfl).trans (inv.due armed running)⟩
    | control =>
      simp only [Channel.step, readide]
      split <;> exact ⟨_, rfl, inv⟩
    | features | secount | sector | cylinderLow | cylinderHigh | driveHead => exact ⟨_, rfl, inv⟩
  | writew val => exact writeidew_defined inv fits
  | writel val =>
    simp only [Channel.fits, Bool.and_eq_true] at fits
    have low : ∃ c', writeidew c (val.truncate 16) a = some c' ∧ Bounded c' :=
      writeidew_defined inv fits.1
    obtain ⟨low, done, kept⟩ := low
    have more : low.wordWriteFits a = true := by simpa only [done, Option.all_some] using fits.2
    obtain ⟨high, done', kept'⟩ := writeidew_defined kept more
    exact ⟨high, (congrArg (Option.bind · _) done).trans done', kept'⟩
  | readw =>
    obtain ⟨r, done, kept⟩ := readidew_defined inv fits
    exact ⟨r.2, congrArg (Option.map _) done, kept⟩
  | readl =>
    simp only [Channel.fits, Bool.and_eq_true] at fits
    obtain ⟨low, done, kept⟩ := readidew_defined inv fits.1
    obtain ⟨high, done', kept'⟩ := readidew_defined kept (by simpa [done] using fits.2)
    refine ⟨high.2, ?_, kept'⟩
    simp only [Channel.step, readidel, done, done', Option.bind_some, Option.map_some]
  | timer =>
    simp only [Channel.step]
    split
    · rename_i armed
      refine callbackide_defined inv.ide inv.other (inv.due armed) ?_ nofun
      simpa [Channel.fits, armed] using fits
    · exact ⟨_, rfl, inv⟩
  | resetDevices => exact ⟨_, rfl, ideResetDevices_bounded inv⟩

theorem bounded_init {first second : DriveType × HddFile} : Bounded (.init first second) :=
  ⟨⟨Nat.zero_le _, show 1 ≤ 255 by decide⟩, ⟨Nat.zero_le _, show 1 ≤ 255 by decide⟩, nofun⟩

/-- A channel whose guest keeps to the discipline stays inside its buffers. -/
theorem inBuffers_of_run {first second : DriveType × HddFile} {c : Channel}
    (run : RunOk Channel.step (fun c op => c.fits op = true) (.init first second) c) :
    InBuffers Channel.fits c := by
  have inv : Bounded c := run.invariant bounded_init fun {s t op} inv fits next => by
    obtain ⟨t', next', kept⟩ := inv.step fits
    exact Option.some.inj (next.symm.trans next') ▸ kept
  have ide := inv.ide.pos
  have other := inv.other.pos
  refine ⟨by omega, by omega, fun op fits => ?_⟩
  obtain ⟨c', next, -⟩ := inv.step fits
  exact Option.isSome_iff_exists.mpr ⟨c', next⟩

/-- A disk of 20 MB with 17 sectors to the track and 4 heads. -/
def exampleDisk (image : Image) : DriveType × HddFile := (.hdd, ⟨17, 4, 41820, false, image⟩)

/-- No second drive. -/
def noDisk : DriveType × HddFile := (.none, ⟨0, 0, 0, false, .raw⟩)

/-- A medium that serves every request, under a bus master. -/
def goodAnswer : Answer := ⟨⟨true, 0, fun _ => 0xAA⟩, some true, fun _ => 0, fun _ => 0⟩

/-- A read of one sector, up to the first word of its data. -/
def readOps : List (Op × Answer) :=
  [.write .secount 1, .write .sector 5, .write .driveHead 0xA0, .write .command 0x20, .timer,
    .read .command, .readw].map (·, goodAnswer)

theorem inBuffers_of_readOps : ∃ c,
    execOk Channel.step Channel.fits (.init (exampleDisk .browser) noDisk) readOps = some c ∧
      InBuffers Channel.fits c := by
  have served : (execOk Channel.step Channel.fits (.init (exampleDisk .browser) noDisk)
      readOps).isSome := by decide +kernel
  obtain ⟨c, done⟩ := Option.isSome_iff_exists.mp served
  exact ⟨c, done, inBuffers_of_run (RunOk.of_execOk (fun _ _ => id) done)⟩

/-- A DMA write of one sector past the end of the disk. -/
def strayWriteOps : List (Op × Answer) :=
  [.write .driveHead 0xEF, .write .command 0xCA].map (·, goodAnswer)

/-- The timer makes a raw image write 4 GiB less a few sectors out of `buffer`. -/
theorem not_inBuffers_strayWrite :
    ¬ ∀ first second c, RunOk Channel.step (fun _ _ => True) (.init first second) c →
      InBuffers (fun _ _ => true) c := by
  intro safe
  have reached : (execOk Channel.step (fun _ _ => true) (.init (exampleDisk .raw) noDisk)
      strayWriteOps).isSome := by decide +kernel
  have stray : ((execOk Channel.step (fun _ _ => true) (.init (exampleDisk .raw) noDisk)
      strayWriteOps).bind (·.step (.timer, goodAnswer))).isNone := by decide +kernel
  obtain ⟨c, done⟩ := Option.isSome_iff_exists.mp reached
  have run : RunOk Channel.step (fun _ _ => True) (.init (exampleDisk .raw) noDisk) c :=
    RunOk.of_execOk (fun _ _ _ => trivial) done
  have defined := (safe _ _ c run).defined (.timer, goodAnswer) rfl
  rw [done, Option.bind_some] at stray
  simp [Option.isNone_iff_eq_none.mp stray] at defined

end PCemWeb.Ide
