import PCemWeb.Ide.IdeBounds

/-!
# Storage errors and the status register

`callbackide` drops what `hdd_read_sectors`, `hdd_write_sectors` and `hdd_format_sectors` return.
`ErrorsReported` says that a command with a failed call ends with the error bit and has handed the
guest nothing that the call did not store. `Truthful` is the invariant that refutes it: a drive
whose command register holds a storage command never shows the error bit. So a command that has
ended is reported as it should be exactly if each of its requests was `carried` out.
-/

namespace PCemWeb.Ide

open PCemWeb.Lib

/-! ## Requests -/

/-- A request that lies inside the disk, on a medium that takes it: a condition on the image, the
address, the count and the medium. -/
def Call.carried (k : Call) : Bool :=
  match k.file.image with
  | .vhd v =>
    k.kind = .format || (k.kind = .write && k.file.readOnly) ||
      k.nrSectors ≤ v.rest (toUInt32 k.offset)
  | .browser =>
    (k.kind = .read || !k.file.readOnly) && k.offset + k.nrSectors ≤ k.file.sectors &&
      (k.medium.ok || k.nrSectors = 0)
  | .raw | .rawRam => (k.kind = .read || !k.file.readOnly) && k.offset + k.nrSectors ≤ k.file.sectors

/-- What the storage layer answers. -/
def CallKind.answer : CallKind → HddFile → Int → Nat → Medium → Option Transfer
  | .read => hddReadSectors
  | .write => hddWriteSectors
  | .format => hddFormatSectors

/-- The result of the call is what the layer gives for the request. -/
structure Call.Answered (k : Call) : Prop where
  result : k.kind.answer k.file k.offset k.nrSectors k.medium = some k.result
  some_ : k.kind ≠ .format → 0 < k.nrSectors

section Results

variable {h : HddFile} {offset : Int} {nrSectors : Nat} {m : Medium} {t : Transfer}

theorem partly_ret {sectors : Int} {moved : Nat} :
    (partly nrSectors sectors moved).ret = 0 ↔ sectors = nrSectors := by
  simp only [partly]
  split <;> omega

/-- A request is whole exactly if it lies inside the disk. -/
theorem HddFile.transferSectors_eq :
    h.transferSectors offset nrSectors = nrSectors ↔ offset + nrSectors ≤ h.sectors := by
  simp only [HddFile.transferSectors]
  split <;> omega

/-- A VHD call reports the sectors that it left out. -/
theorem Vhd.truncated_eq_zero {v : Vhd} {o : Nat} :
    (nrSectors : Int) - v.checkSectors o nrSectors = 0 ↔ nrSectors ≤ v.rest o := by
  simp only [Vhd.checkSectors]
  split <;> omega

theorem hddReadSectors_ret (result : hddReadSectors h offset nrSectors m = some t)
    (some_ : 0 < nrSectors) :
    t.ret = 0 ↔ Call.carried ⟨.read, h, offset, nrSectors, m, t⟩ = true := by
  have whole : h.transferSectors offset nrSectors = nrSectors ↔ offset + nrSectors ≤ h.sectors :=
    HddFile.transferSectors_eq
  cases image : h.image with
  | vhd v =>
    simp only [hddReadSectors, image, Option.map_eq_some_iff] at result
    obtain ⟨moved, -, rfl⟩ := result
    simpa [Call.carried, image] using Vhd.truncated_eq_zero
  | browser =>
    simp only [hddReadSectors, image] at result
    simp only [Call.carried, image]
    split at result
    · cases result
      simp
      omega
    split at result <;> cases result <;> simp_all [partly_ret]
    omega
  | raw | rawRam =>
    simp only [hddReadSectors, image] at result
    cases result
    simp [Call.carried, image, partly_ret, whole]

theorem hddWriteSectors_ret (result : hddWriteSectors h offset nrSectors m = some t)
    (some_ : 0 < nrSectors) :
    t.ret = 0 ↔ Call.carried ⟨.write, h, offset, nrSectors, m, t⟩ = true := by
  have whole : h.transferSectors offset nrSectors = nrSectors ↔ offset + nrSectors ≤ h.sectors :=
    HddFile.transferSectors_eq
  by_cases readOnly : h.readOnly = true
  · cases image : h.image <;> simp only [hddWriteSectors, image, readOnly, if_true] at result <;>
      cases result <;> simp [Call.carried, image, readOnly]
  simp only [hddWriteSectors, readOnly, Bool.false_eq_true, if_false] at result
  cases image : h.image with
  | vhd v =>
    simp only [image, Option.map_eq_some_iff] at result
    obtain ⟨moved, -, rfl⟩ := result
    simpa [Call.carried, image, readOnly] using Vhd.truncated_eq_zero
  | browser =>
    simp only [image] at result
    simp only [Call.carried, image]
    split at result
    · cases result
      simp
      omega
    split at result <;> cases result <;> simp_all [partly_ret]
    omega
  | raw | rawRam =>
    simp only [image] at result
    cases result
    simp [Call.carried, image, readOnly, partly_ret, whole]

theorem hddFormatSectors_ret (result : hddFormatSectors h offset nrSectors m = some t) :
    t.ret = 0 ↔ Call.carried ⟨.format, h, offset, nrSectors, m, t⟩ = true := by
  have whole : h.transferSectors offset nrSectors = nrSectors ↔ offset + nrSectors ≤ h.sectors :=
    HddFile.transferSectors_eq
  by_cases readOnly : h.readOnly = true
  · cases image : h.image <;> simp only [hddFormatSectors, image, readOnly, if_true] at result <;>
      cases result <;> simp [Call.carried, image, readOnly]
  simp only [hddFormatSectors, readOnly, Bool.false_eq_true, if_false] at result
  cases image : h.image with
  | vhd v =>
    simp only [image] at result
    split at result <;> cases result
    simp [Call.carried, image]
  | browser =>
    simp only [image] at result
    simp only [Call.carried, image]
    split at result
    · rename_i fails
      obtain ⟨some_, fails⟩ := fails
      cases result
      have upper : h.transferSectors offset nrSectors ≤ nrSectors := HddFile.transferSectors_le
      simp [fails]
      omega
    · rename_i served
      cases result
      rw [partly_ret, whole]
      cases ok : m.ok with
      | true => simp [readOnly]
      | false =>
        have none : ¬ 0 < h.transferSectors offset nrSectors := fun some_ => served ⟨some_, ok⟩
        simp [readOnly]
        intro inside
        have := whole.mpr inside
        omega
  | raw | rawRam =>
    simp only [image] at result
    cases result
    simp [Call.carried, image, readOnly, partly_ret, whole]

end Results

/-- A call fails exactly if its request is not carried out. -/
theorem Call.ret_eq_zero {k : Call} (answered : k.Answered) :
    k.result.ret = 0 ↔ k.carried = true := by
  obtain ⟨kind, file, offset, nrSectors, medium, result⟩ := k
  obtain ⟨result, some_⟩ := answered
  cases kind with
  | read => exact hddReadSectors_ret result (some_ nofun)
  | write => exact hddWriteSectors_ret result (some_ nofun)
  | format => exact hddFormatSectors_ret result

/-! ## The property -/

/-- The commands that call the storage layer. -/
def Command.stores : Command → Bool
  | .read | .readNoretry | .readMultiple | .readDma | .write | .writeNoretry | .writeMultiple
  | .writeDma | .format => true
  | _ => false

/-- The command has ended: the drive is not busy and asks for no data. The DMA commands leave the
data request set when they end. -/
def Drive.ended (d : Drive) : Bool :=
  !d.atastat.getLsbD 7 && (!d.atastat.getLsbD 3 || d.command = .readDma || d.command = .writeDma)

/-- If a storage call of a command that has ended failed, the status has the error bit, which also stands for a
sector that was not stored, and each sector handed to the guest was filled by a call. -/
def Drive.ErrorsReported (d : Drive) : Prop :=
  d.ended = true → (∃ k ∈ d.calls, k.result.ret ≠ 0) →
    d.atastat.getLsbD 0 = true ∧
      ∀ i ∈ d.handed, ∃ k ∈ d.calls, k.kind = .read ∧ (i + 1) * 512 ≤ k.result.moved

/-! ## The status of a storage command -/

/-- The calls of a drive are answered by the layer, belong to a storage command, and leave the
error bit of its status clear. -/
structure Drive.Truthful (d : Drive) : Prop where
  calls : ∀ k ∈ d.calls, k.Answered
  stores : d.calls ≠ [] → d.command.stores = true
  silent : d.command.stores = true → d.atastat.getLsbD 0 = false

variable {c c' : Channel} {d d' : Drive} {a : Answer} {m : Medium}

/-- A change of other fields keeps a drive truthful. -/
theorem Drive.Truthful.congr (truthful : d.Truthful) (calls : d'.calls = d.calls)
    (command : d'.command = d.command) (atastat : d'.atastat = d.atastat) : d'.Truthful where
  calls := calls ▸ truthful.calls
  stores := calls ▸ command ▸ truthful.stores
  silent := command ▸ atastat ▸ truthful.silent

/-- So does a status without the error bit. -/
theorem Drive.Truthful.status (truthful : d.Truthful) (s : Byte) (quiet : s.getLsbD 0 = false)
    (calls : d'.calls = d.calls) (command : d'.command = d.command) (atastat : d'.atastat = s) :
    d'.Truthful where
  calls := calls ▸ truthful.calls
  stores := calls ▸ command ▸ truthful.stores
  silent := fun _ => atastat ▸ quiet

/-- A drive with no calls whose command stores nothing. -/
theorem Drive.Truthful.of_other (calls : d.calls = []) (command : d.command.stores = false) :
    d.Truthful where
  calls := by simp [calls]
  stores := absurd calls
  silent := by simp [command]

/-- A storage call is answered. -/
theorem Drive.Truthful.call {k : Call} (truthful : d.Truthful) (stores : d.command.stores = true)
    (calls : d'.calls = d.calls ++ [k]) (command : d'.command = d.command)
    (atastat : d'.atastat = d.atastat) (answered : k.Answered) : d'.Truthful where
  calls k' made := by
    rcases List.mem_append.mp (calls ▸ made) with old | new
    · exact truthful.calls k' old
    · exact List.mem_singleton.mp new ▸ answered
  stores := fun _ => command ▸ stores
  silent := command ▸ atastat ▸ truthful.silent

theorem Drive.Truthful.initialRead (truthful : d.Truthful) (stores : d.command.stores = true)
    (read : d.initialRead m = some d') : d'.Truthful ∧ d'.command = d.command := by
  simp only [Drive.initialRead] at read
  split at read
  · obtain ⟨t, done, rest⟩ := Option.bind_eq_some_iff.mp read
    split at rest <;> cases rest
    exact ⟨truthful.call stores rfl rfl rfl ⟨done, fun _ => by dsimp only; split <;> omega⟩, rfl⟩
  · cases read
    exact ⟨truthful, rfl⟩

theorem Drive.Truthful.storeSector (truthful : d.Truthful) (stores : d.command.stores = true)
    (write : d.storeSector m = some d') : d'.Truthful ∧ d'.command = d.command := by
  obtain ⟨t, done, rest⟩ := Option.bind_eq_some_iff.mp write
  split at rest <;> cases rest
  exact ⟨truthful.call stores rfl rfl rfl ⟨done, fun _ => Nat.one_pos⟩, rfl⟩

theorem Drive.Truthful.formatSectors (truthful : d.Truthful) (stores : d.command.stores = true)
    (write : d.formatSectors m = some d') : d'.Truthful := by
  obtain ⟨t, done, rfl⟩ := Option.map_eq_some_iff.mp write
  exact truthful.call stores rfl rfl rfl ⟨done, fun other => absurd rfl other⟩

theorem Drive.Truthful.takeSlice (truthful : d.Truthful) (taken : d.takeSlice = some d') :
    d'.Truthful := by
  simp only [Drive.takeSlice] at taken
  split at taken <;> cases taken
  exact truthful.congr rfl rfl rfl

theorem Drive.Truthful.nextSector (truthful : d.Truthful) : d.nextSector.Truthful := by
  obtain ⟨sector, head, cylinder, lbaAddr, next⟩ := d.nextSector_eq
  rw [next]
  exact truthful.congr rfl rfl rfl

theorem Drive.Truthful.nextDma (truthful : d.Truthful) : d.nextDma.1.Truthful := by
  have counted : (Drive.countDown { d with atastat := drqStat ||| readyStat ||| dscStat }).Truthful :=
    truthful.status (drqStat ||| readyStat ||| dscStat) (by decide) rfl rfl rfl
  simp only [Drive.nextDma]
  split
  · exact counted.nextSector.status busyStat (by decide) rfl rfl rfl
  · exact counted.congr rfl rfl rfl

theorem Drive.Truthful.nextWrite (truthful : d.Truthful) : d.nextWrite.Truthful := by
  simp only [Drive.nextWrite]
  split
  · have counted : { d.countDown with
        atastat := drqStat ||| readyStat ||| dscStat, pos := 0 : Drive }.Truthful :=
      truthful.status (drqStat ||| readyStat ||| dscStat) (by decide) rfl rfl rfl
    exact counted.nextSector
  · exact truthful.status (readyStat ||| dscStat) (by decide) rfl rfl rfl

/-- The callback keeps a drive truthful. -/
theorem Drive.Truthful.callback {r : Drive × Bool} (truthful : d.Truthful)
    (done : d.callback a = some r) : r.1.Truthful := by
  have aborted (calls : d.command.stores = false) : d.abortCmd.Truthful := by
    refine .of_other ?_ rfl
    by_contra made
    exact absurd (truthful.stores made) (by simp [calls])
  have stores {k : Command} (is : d.command = k) : d.command.stores = k.stores := congrArg _ is
  have ends {e : Drive} (calls : e.calls = d.calls) (command : e.command = d.command) :
      e.finish.Truthful :=
    truthful.status (readyStat ||| dscStat) (by decide) calls command rfl
  cases command : d.command <;> simp only [Drive.callback, command] at done
  case read | readNoretry =>
    obtain ⟨initial, read, rest⟩ := Option.bind_eq_some_iff.mp done
    obtain ⟨taken, slice, rfl⟩ := Option.map_eq_some_iff.mp rest
    exact ((truthful.initialRead (stores command) read).1.takeSlice slice).status
      (drqStat ||| readyStat ||| dscStat) (by decide) rfl rfl rfl
  case readMultiple =>
    obtain ⟨initial, read, rest⟩ := Option.bind_eq_some_iff.mp done
    obtain ⟨taken, slice, rfl⟩ := Option.map_eq_some_iff.mp rest
    have kept := (truthful.initialRead (stores command) read).1.takeSlice slice
    dsimp only
    split <;> exact kept.status (drqStat ||| readyStat ||| dscStat) (by decide) rfl rfl rfl
  case readDma =>
    obtain ⟨initial, read, rest⟩ := Option.bind_eq_some_iff.mp done
    have kept := (truthful.initialRead (stores command) read).1
    split at rest
    · cases rest
      exact kept.congr rfl rfl rfl
    · obtain ⟨taken, slice, rfl⟩ := Option.map_eq_some_iff.mp rest
      split
      · refine Drive.Truthful.nextDma ?_
        exact (kept.takeSlice slice).congr rfl rfl rfl
      · exact kept.congr rfl rfl rfl
  case write | writeNoretry =>
    obtain ⟨stored, write, rfl⟩ := Option.map_eq_some_iff.mp done
    refine Drive.Truthful.nextWrite ?_
    exact (truthful.storeSector (stores command) write).1.congr rfl rfl rfl
  case writeMultiple =>
    obtain ⟨stored, write, rfl⟩ := Option.map_eq_some_iff.mp done
    have kept := (truthful.storeSector (stores command) write).1
    refine Drive.Truthful.nextWrite ?_
    split <;> exact kept.congr rfl rfl rfl
  case writeDma =>
    simp only [Drive.callbackWriteDma] at done
    split at done
    · cases done
      exact truthful
    · cases done
      exact truthful.congr rfl rfl rfl
    · obtain ⟨stored, write, rfl⟩ := Option.map_eq_some_iff.mp done
      have filled : Drive.Truthful
          { d with buffer := fun i => if i < 256 then a.dmaWords i else d.buffer i } :=
        truthful.congr rfl rfl rfl
      exact (filled.storeSector (stores command) write).1.nextDma
  case format =>
    obtain ⟨formatted, write, rfl⟩ := Option.map_eq_some_iff.mp done
    exact (truthful.formatSectors (stores command) write).status (readyStat ||| dscStat) (by decide)
      rfl rfl rfl
  case identify =>
    split at done <;> cases done
    · exact aborted (stores command)
    · exact truthful.status (drqStat ||| readyStat ||| dscStat) (by decide) rfl command.symm rfl
  case checkPowerMode =>
    split at done <;> cases done
    · exact aborted (stores command)
    · exact ends rfl command.symm
  case srst =>
    cases done
    exact truthful.status (readyStat ||| dscStat) (by decide) rfl rfl rfl
  case restore | seek =>
    cases done
    exact ends rfl rfl
  case verify | verifyOnce =>
    cases done
    exact ends rfl command.symm
  case driveDiagnostics =>
    cases done
    exact ends rfl rfl
  case specify =>
    cases done
    exact ends rfl command.symm
  case setMultipleMode =>
    cases done
    exact ends rfl command.symm
  all_goals
    cases done
    exact aborted (stores command)

/-! ## The channel -/

/-- Both drives are truthful. -/
structure Channel.Truthful (c : Channel) : Prop where
  ide : c.ide.Truthful
  other : c.other.Truthful

/-- A drive with no calls and a status without the error bit. -/
theorem Drive.Truthful.of_quiet (s : Byte) (quiet : s.getLsbD 0 = false) (calls : d.calls = [])
    (atastat : d.atastat = s) : d.Truthful where
  calls := by simp [calls]
  stores := absurd calls
  silent := fun _ => atastat ▸ quiet

theorem Drive.resetDone_truthful : d.resetDone.Truthful :=
  .of_quiet (readyStat ||| dscStat) (by decide) rfl rfl

theorem truthful_callbackide (done : callbackide c a = some c') (ide : c.ide.Truthful)
    (other : c.other.Truthful) : c'.Truthful := by
  have reset {d : Drive} : d.resetDone.absent.Truthful := by
    simp only [Drive.absent]
    split
    · exact Drive.resetDone_truthful.congr rfl rfl rfl
    · exact Drive.resetDone_truthful
  simp only [callbackide] at done
  split at done
  · cases done
    exact ⟨reset, reset⟩
  · obtain ⟨r, carried, rfl⟩ := Option.map_eq_some_iff.mp done
    exact ⟨ide.callback carried, other⟩

theorem Channel.Truthful.writeidew {val : Word} (truthful : c.Truthful)
    (done : writeidew c val a = some c') : c'.Truthful := by
  simp only [Ide.writeidew] at done
  split at done
  · cases done
    exact truthful
  split at done
  · split at done
    · split at done
      · refine truthful_callbackide done ?_ truthful.other
        exact truthful.ide.status busyStat (by decide) rfl rfl rfl
      · cases done
        exact ⟨truthful.ide.status busyStat (by decide) rfl rfl rfl, truthful.other⟩
    · cases done
      exact ⟨truthful.ide.congr rfl rfl rfl, truthful.other⟩
  · cases done

theorem Channel.Truthful.readidew {r : Word × Channel} (truthful : c.Truthful)
    (done : readidew c a = some r) : r.2.Truthful := by
  have emptied : c.ide.sectorRead.Truthful :=
    truthful.ide.status (readyStat ||| dscStat) (by decide) rfl rfl rfl
  have counted : c.ide.sectorRead.countDown.Truthful := emptied.congr rfl rfl rfl
  have next : c.ide.sectorRead.countDown.readOn.Truthful :=
    counted.nextSector.status (busyStat ||| readyStat ||| dscStat) (by decide) rfl rfl rfl
  simp only [Ide.readidew] at done
  split at done
  · cases done
    exact truthful
  split at done
  · split at done
    · split at done
      · split at done
        · split at done
          · obtain ⟨c', called, rfl⟩ := Option.map_eq_some_iff.mp done
            exact truthful_callbackide called next truthful.other
          · cases done
            exact ⟨next, truthful.other⟩
        · cases done
          exact ⟨counted, truthful.other⟩
      · cases done
        exact ⟨emptied, truthful.other⟩
    · cases done
      exact ⟨truthful.ide.congr rfl rfl rfl, truthful.other⟩
  · cases done

/-- A command starts with no calls, and a storage command with no error bit. -/
theorem Channel.Truthful.writeCommand {command : Command} (truthful : c.Truthful)
    (done : writeCommand c command a = some c') : c'.Truthful := by
  have quiet (s : Byte) {d : Drive} {armed : Bool} (quiet : s.getLsbD 0 = false)
      (calls : d.calls = []) (atastat : d.atastat = s) :
      Channel.Truthful { c with ide := d, armed := armed } :=
    ⟨.of_quiet s quiet calls atastat, truthful.other⟩
  cases command <;> simp only [Ide.writeCommand] at done
  case readMultiple =>
    split at done <;> cases done
    exact quiet busyStat (by decide) rfl rfl
  case writeMultiple =>
    split at done <;> cases done
    exact quiet (drqStat ||| dscStat ||| readyStat) (by decide) rfl rfl
  case pidentify | setMultipleMode | setidle1 | checkPowerMode =>
    exact truthful_callbackide done (.of_quiet busyStat (by decide) rfl rfl) truthful.other
  case idle | other =>
    cases done
    exact ⟨.of_other rfl rfl, truthful.other⟩
  case srst =>
    cases done
    exact quiet readyStat (by decide) rfl rfl
  case restore | seek =>
    cases done
    exact quiet (readyStat ||| busyStat) (by decide) rfl rfl
  case write | writeNoretry =>
    cases done
    exact quiet (drqStat ||| dscStat ||| readyStat) (by decide) rfl rfl
  case format =>
    cases done
    exact quiet drqStat (by decide) rfl rfl
  all_goals
    cases done
    exact quiet busyStat (by decide) rfl rfl

/-- A register that touches neither status, command nor calls. -/
theorem Channel.Truthful.both {f : Drive → Drive} (truthful : c.Truthful)
    (kept : ∀ {d : Drive}, d.Truthful → (f d).Truthful) : (c.both f).Truthful :=
  ⟨kept truthful.ide, kept truthful.other⟩

theorem Channel.Truthful.swap (truthful : c.Truthful) : c.swap.Truthful :=
  ⟨truthful.other, truthful.ide⟩

theorem Channel.Truthful.beginReset (truthful : c.Truthful) : c.beginReset.Truthful :=
  ⟨truthful.ide.status busyStat (by decide) rfl rfl rfl,
    truthful.other.status busyStat (by decide) rfl rfl rfl⟩

theorem Channel.Truthful.writeDriveHead {val : Byte} (truthful : c.Truthful) :
    (writeDriveHead c val).Truthful := by
  simp only [Ide.writeDriveHead]
  split
  · split
    · exact ⟨Drive.resetDone_truthful, Drive.resetDone_truthful⟩
    · exact ⟨truthful.other.congr rfl rfl rfl, truthful.ide⟩
  · exact truthful.both fun kept => kept.congr rfl rfl rfl

theorem Channel.Truthful.writeControl {val : Byte} (truthful : c.Truthful) :
    (writeControl c val).Truthful := by
  have hold {c : Channel} (truthful : c.Truthful) : c.holdReset.Truthful :=
    ⟨truthful.ide.status busyStat (by decide) rfl rfl rfl,
      truthful.other.status busyStat (by decide) rfl rfl rfl⟩
  simp only [Ide.writeControl]
  refine Channel.Truthful.both ?_ fun kept => kept.congr rfl rfl rfl
  split
  · refine hold ?_
    split
    · exact truthful.beginReset
    · exact truthful
  · split
    · exact truthful.beginReset
    · exact truthful

/-- Every step keeps both drives truthful. -/
theorem Channel.Truthful.step {op : Op × Answer} (truthful : c.Truthful)
    (next : c.step op = some c') : c'.Truthful := by
  obtain ⟨op, a⟩ := op
  have register {f : Drive → Drive} (next : some (c.both f) = some c')
      (kept : ∀ {d : Drive}, d.Truthful → (f d).Truthful) : c'.Truthful := by
    cases next
    exact truthful.both kept
  cases op with
  | write port val =>
    simp only [Channel.step] at next
    cases port <;> simp only [writeide] at next
    case data =>
      split at next
      · cases next
        exact truthful
      · exact truthful.writeidew next
    case command =>
      split at next
      · cases next
        exact truthful
      · exact truthful.writeCommand next
    case driveHead =>
      cases next
      exact truthful.writeDriveHead
    case control =>
      cases next
      exact truthful.writeControl
    all_goals exact register next fun kept => kept.congr rfl rfl rfl
  | read port =>
    obtain ⟨r, done, rfl⟩ := Option.map_eq_some_iff.mp next
    cases port <;> simp only [readide] at done
    case data =>
      split at done
      · cases done
        exact truthful
      · obtain ⟨r, read, rfl⟩ := Option.map_eq_some_iff.mp done
        exact truthful.readidew read
    case command =>
      split at done <;> cases done
      · exact truthful
      · exact ⟨truthful.ide.congr rfl rfl rfl, truthful.other⟩
    case control => split at done <;> cases done <;> exact truthful
    all_goals
      cases done
      exact truthful
  | writew val => exact truthful.writeidew next
  | writel val =>
    obtain ⟨low, first, second⟩ := Option.bind_eq_some_iff.mp next
    exact (truthful.writeidew first).writeidew second
  | readw =>
    obtain ⟨r, done, rfl⟩ := Option.map_eq_some_iff.mp next
    exact truthful.readidew done
  | readl =>
    obtain ⟨r, done, rfl⟩ := Option.map_eq_some_iff.mp next
    obtain ⟨low, first, rest⟩ := Option.bind_eq_some_iff.mp done
    obtain ⟨high, second, rfl⟩ := Option.map_eq_some_iff.mp rest
    exact (truthful.readidew first).readidew second
  | timer =>
    simp only [Channel.step] at next
    split at next
    · exact truthful_callbackide next truthful.ide truthful.other
    · cases next
      exact truthful
  | resetDevices =>
    simp only [Channel.step, ideResetDevices] at next
    split at next <;> cases next
    · split
      · exact truthful.beginReset.swap
      · exact truthful.beginReset
    · exact truthful

theorem truthful_init {first second : DriveType × HddFile} :
    (Channel.init first second).Truthful :=
  ⟨.of_other rfl rfl, .of_other rfl rfl⟩

/-- A truthful drive reports its errors exactly if there were none. -/
theorem Drive.Truthful.errorsReported_iff (truthful : d.Truthful) :
    d.ErrorsReported ↔ (d.ended = true → ∀ k ∈ d.calls, k.carried = true) := by
  constructor
  · intro reported ended k made
    by_contra refused
    have failed : k.result.ret ≠ 0 := fun served =>
      refused ((Call.ret_eq_zero (truthful.calls k made)).mp served)
    have error := (reported ended ⟨k, made, failed⟩).1
    have silent := truthful.silent (truthful.stores (List.ne_nil_of_mem made))
    exact absurd (error.symm.trans silent) (by decide)
  · rintro carried ended ⟨k, made, failed⟩
    exact absurd ((Call.ret_eq_zero (truthful.calls k made)).mpr (carried ended k made)) failed

/-- A DMA read of one sector under a medium that answers `ok`. -/
def dmaReadOps (ok : Bool) : List (Op × Answer) :=
  [.write .secount 1, .write .sector 5, .write .command 0xC8, .timer].map
    (·, ⟨⟨ok, 0, fun _ => 0xAA⟩, some true, fun _ => 0, fun _ => 0⟩)

end PCemWeb.Ide
