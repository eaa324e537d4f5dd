import PCemWeb.Ide.HddFile

/-!
# The IDE channel

`ide.c` for a channel whose drives are hard disks or absent: the task-file and control registers,
the data port and the timer callback. `ide` is the drive that `cur_ide` selects and `other` the
one beside it, so a drive select swaps them. The PIC, which only receives interrupts, the ATAPI
device of a CD-ROM and the activity light are left out.

A step gives no result where the source calls `fatal` or indexes one of its buffers out of range.
Two fields of a drive are history that no modelled function reads: `calls`, the storage calls made
for the command in the command register, and `handed`, the sectors of `sector_buffer` that this
command gave to the guest.
-/

namespace PCemWeb.Ide

abbrev Word := BitVec 16

/-! ## Drives -/

/-- `type`: `IDE_NONE` and `IDE_HDD`. -/
inductive DriveType
  | none
  | hdd
  deriving DecidableEq, Repr

/-- The command register: `idle` is 0 and `other` every byte that names no command. -/
inductive Command
  | idle
  | srst
  | restore
  | seek
  | read
  | readNoretry
  | write
  | writeNoretry
  | verify
  | verifyOnce
  | format
  | driveDiagnostics
  | specify
  | packetcmd
  | pidentify
  | readMultiple
  | writeMultiple
  | setMultipleMode
  | readDma
  | writeDma
  | setidle1
  | checkPowerMode
  | identify
  | setFeatures
  | other
  deriving DecidableEq, Repr

/-- The `WIN_` constants. -/
def Command.ofByte (val : Byte) : Command :=
  match val.toNat with
  | 0x00 => .idle
  | 0x08 => .srst
  | 0x10 => .restore
  | 0x20 => .read
  | 0x21 => .readNoretry
  | 0x30 => .write
  | 0x31 => .writeNoretry
  | 0x40 => .verify
  | 0x41 => .verifyOnce
  | 0x50 => .format
  | 0x70 => .seek
  | 0x90 => .driveDiagnostics
  | 0x91 => .specify
  | 0xA0 => .packetcmd
  | 0xA1 => .pidentify
  | 0xC4 => .readMultiple
  | 0xC5 => .writeMultiple
  | 0xC6 => .setMultipleMode
  | 0xC8 => .readDma
  | 0xCA => .writeDma
  | 0xE3 => .setidle1
  | 0xE5 => .checkPowerMode
  | 0xEC => .identify
  | 0xEF => .setFeatures
  | _ => .other

abbrev errStat : Byte := 0x01
abbrev drqStat : Byte := 0x08
abbrev dscStat : Byte := 0x10
abbrev readyStat : Byte := 0x40
abbrev busyStat : Byte := 0x80
abbrev abrtErr : Byte := 0x04

/-- The bytes of `sector_buffer` and of `buffer`. -/
abbrev bufferBytes : Nat := 131072

inductive CallKind
  | read
  | write
  | format
  deriving DecidableEq, Repr

/-- A call of the storage layer and what came of it. -/
structure Call where
  kind : CallKind
  file : HddFile
  offset : Int
  nrSectors : Nat
  medium : Medium
  result : Transfer

/-- `IDE`. -/
structure Drive where
  type : DriveType
  atastat : Byte
  error : Byte
  secount : Nat
  sector : Nat
  cylinder : Nat
  head : Nat
  cylprecomp : Nat
  command : Command
  fdisk : Byte
  pos : Nat
  reset : Bool
  buffer : Nat → Word
  irqstat : Bool
  service : Bool
  lba : Bool
  lbaAddr : Nat
  skip512 : Nat
  blocksize : Nat
  blockcount : Nat
  sectorBuffer : Nat → Byte
  doInitialRead : Bool
  sectorPos : Nat
  hddFile : HddFile
  calls : List Call
  handed : List Nat

/-- What the world answers during one access: the medium, the bus master (`none` where there is
none, and otherwise whether it performed the transfer), the words it wrote to `buffer`, and the
words of `ide_identify`. -/
structure Answer where
  medium : Medium
  busMaster : Option Bool
  dmaWords : Nat → Word
  identify : Nat → Word

def Drive.irqRaise (d : Drive) : Drive := { d with irqstat := true, service := true }

def Drive.irqLower (d : Drive) : Drive := { d with irqstat := false }

/-- `ide_get_sector`, as the `int` that the storage calls take. -/
def Drive.getSector (d : Drive) : Int :=
  Int.bmod
    (if d.lba then (d.lbaAddr : Int) + d.skip512
    else ((d.cylinder : Int) * d.hddFile.hpc + d.head) * d.hddFile.spt + ((d.sector : Int) - 1) +
      d.skip512)
    4294967296

def Drive.nextSector (d : Drive) : Drive :=
  if d.lba then { d with lbaAddr := (d.lbaAddr + 1) % 4294967296 }
  else if d.sector + 1 = d.hddFile.spt + 1 then
    if d.head + 1 = d.hddFile.hpc then
      { d with sector := 1, head := 0, cylinder := d.cylinder + 1 }
    else { d with sector := 1, head := d.head + 1 }
  else { d with sector := d.sector + 1 }

def Drive.setSignature (d : Drive) : Drive :=
  { d with secount := 1, sector := 1, head := 0, cylinder := if d.type = .hdd then 0 else 0xFFFF }

/-- The reset of one drive, with the command abandoned. -/
def Drive.resetDone (d : Drive) : Drive :=
  { d with
    atastat := readyStat ||| dscStat, error := 1, secount := 1, sector := 1, head := 0,
    cylinder := 0, reset := false, calls := [], handed := [] }

/-- What the callback adds to the reset of an absent drive. -/
def Drive.absent (d : Drive) : Drive :=
  if d.type = .none then { d with cylinder := 0xFFFF, error := 0xFF } else d

/-- `abort_cmd`. -/
def Drive.abortCmd (d : Drive) : Drive :=
  { d with command := .idle, atastat := readyStat ||| errStat ||| dscStat, error := abrtErr,
           pos := 0 }.irqRaise

/-- A command that ends well. -/
def Drive.finish (d : Drive) : Drive := { d with atastat := readyStat ||| dscStat }.irqRaise

/-! ## Storage -/

/-- The read of the whole request into `sector_buffer`, at a read command's first callback. -/
def Drive.initialRead (d : Drive) (m : Medium) : Option Drive :=
  if d.doInitialRead then
    let nrSectors := if d.secount ≠ 0 then d.secount else 256
    (hddReadSectors d.hddFile d.getSector nrSectors m).bind fun t =>
      if t.moved ≤ bufferBytes then
        some { d with
          doInitialRead := false, sectorPos := 0,
          sectorBuffer := fun i => if i < t.moved then m.bytes i else d.sectorBuffer i,
          calls := d.calls ++ [⟨.read, d.hddFile, d.getSector, nrSectors, m, t⟩] }
      else none
  else some d

/-- The slice of `sector_buffer` at `sector_pos` goes to the guest. -/
def Drive.takeSlice (d : Drive) : Option Drive :=
  if d.sectorPos * 512 + 512 ≤ bufferBytes then
    some { d with sectorPos := d.sectorPos + 1, handed := d.handed ++ [d.sectorPos] }
  else none

/-- The slice of `sector_buffer` at `sector_pos` as words. -/
def Drive.sliceWords (d : Drive) (i : Nat) : Word :=
  if i < 256 then
    d.sectorBuffer (d.sectorPos * 512 + 2 * i + 1) ++ d.sectorBuffer (d.sectorPos * 512 + 2 * i)
  else d.buffer i

/-- The write of one sector from `buffer`. -/
def Drive.storeSector (d : Drive) (m : Medium) : Option Drive :=
  (hddWriteSectors d.hddFile d.getSector 1 m).bind fun t =>
    if t.moved ≤ bufferBytes then
      some { d with calls := d.calls ++ [⟨.write, d.hddFile, d.getSector, 1, m, t⟩] }
    else none

def Drive.formatSectors (d : Drive) (m : Medium) : Option Drive :=
  (hddFormatSectors d.hddFile d.getSector d.secount m).map fun t =>
    { d with calls := d.calls ++ [⟨.format, d.hddFile, d.getSector, d.secount, m, t⟩] }

/-- `(secount - 1) & 0xff`. -/
def Drive.countDown (d : Drive) : Drive := { d with secount := (d.secount + 255) % 256 }

/-! ## The callback, command by command

Each gives the drive and whether it sets the timer. -/

/-- `WIN_READ`, `WIN_READ_NORETRY`. -/
def Drive.callbackRead (d : Drive) (a : Answer) : Option (Drive × Bool) :=
  (d.initialRead a.medium).bind fun d =>
    d.takeSlice.map fun taken =>
      ({ taken with buffer := d.sliceWords, pos := 0,
                    atastat := drqStat ||| readyStat ||| dscStat }.irqRaise, false)

/-- What the DMA commands do after a sector is moved. -/
def Drive.nextDma (d : Drive) : Drive × Bool :=
  let next := Drive.countDown { d with atastat := drqStat ||| readyStat ||| dscStat }
  if next.secount ≠ 0 then ({ next.nextSector with atastat := busyStat }, true)
  else (next.irqRaise, false)

/-- `WIN_READ_DMA`. -/
def Drive.callbackReadDma (d : Drive) (a : Answer) : Option (Drive × Bool) :=
  (d.initialRead a.medium).bind fun d =>
    match a.busMaster with
    | none => some ({ d with pos := 0 }, false)
    | some performed =>
      d.takeSlice.map fun taken =>
        if performed then Drive.nextDma { taken with pos := 0 } else ({ d with pos := 0 }, true)

/-- `WIN_READ_MULTIPLE`. -/
def Drive.callbackReadMultiple (d : Drive) (a : Answer) : Option (Drive × Bool) :=
  (d.initialRead a.medium).bind fun d =>
    d.takeSlice.map fun taken =>
      let next : Drive := { taken with
        buffer := d.sliceWords, pos := 0, atastat := drqStat ||| readyStat ||| dscStat }
      let raised := if next.blockcount = 0 then next.irqRaise else next
      ({ raised with
          blockcount := if raised.blockcount + 1 ≥ raised.blocksize then 0
            else raised.blockcount + 1 }, false)

/-- What the write commands do after a sector is stored. -/
def Drive.nextWrite (d : Drive) : Drive :=
  let next := d.countDown
  if next.secount ≠ 0 then
    { next with atastat := drqStat ||| readyStat ||| dscStat, pos := 0 }.nextSector
  else { next with atastat := readyStat ||| dscStat }

/-- `WIN_WRITE`, `WIN_WRITE_NORETRY`. -/
def Drive.callbackWrite (d : Drive) (a : Answer) : Option (Drive × Bool) :=
  (d.storeSector a.medium).map fun d => (d.irqRaise.nextWrite, false)

/-- `WIN_WRITE_DMA`. -/
def Drive.callbackWriteDma (d : Drive) (a : Answer) : Option (Drive × Bool) :=
  match a.busMaster with
  | none => some (d, false)
  | some false =>
    some ({ d with buffer := fun i => if i < 256 then a.dmaWords i else d.buffer i }, true)
  | some true =>
    (Drive.storeSector { d with buffer := fun i => if i < 256 then a.dmaWords i else d.buffer i }
        a.medium).map Drive.nextDma

/-- `WIN_WRITE_MULTIPLE`. -/
def Drive.callbackWriteMultiple (d : Drive) (a : Answer) : Option (Drive × Bool) :=
  (d.storeSector a.medium).map fun d =>
    let next := if d.blockcount + 1 ≥ d.blocksize ∨ d.secount = 1 then
        Drive.irqRaise { d with blockcount := 0 }
      else { d with blockcount := d.blockcount + 1 }
    (next.nextWrite, false)

/-- The `switch` of `callbackide` over the command of the selected drive. -/
def Drive.callback (d : Drive) (a : Answer) : Option (Drive × Bool) :=
  match d.command with
  | .srst =>
    some ({ d.setSignature with atastat := readyStat ||| dscStat, error := 1 }.irqRaise, false)
  | .restore | .seek => some (d.finish, false)
  | .read | .readNoretry => d.callbackRead a
  | .readDma => d.callbackReadDma a
  | .readMultiple => d.callbackReadMultiple a
  | .write | .writeNoretry => d.callbackWrite a
  | .writeDma => d.callbackWriteDma a
  | .writeMultiple => d.callbackWriteMultiple a
  | .verify | .verifyOnce => some ({ d with pos := 0 }.finish, false)
  | .format => (d.formatSectors a.medium).map fun d => (d.finish, false)
  | .driveDiagnostics => some ({ d.setSignature with error := 1 }.finish, false)
  | .specify =>
    some ({ d with hddFile := { d.hddFile with spt := d.secount, hpc := d.head + 1 } }.finish, false)
  | .setMultipleMode => some ({ d with blocksize := d.secount }.finish, false)
  | .identify =>
    if d.type = .none then some (d.abortCmd, false)
    else some ({ d with buffer := fun i => if i < 256 then a.identify i else d.buffer i, pos := 0,
                        atastat := drqStat ||| readyStat ||| dscStat }.irqRaise, false)
  | .checkPowerMode =>
    if d.type = .none then some (d.abortCmd, false)
    else some ({ d with secount := 0xFF }.finish, false)
  | .pidentify | .setidle1 | .setFeatures | .packetcmd | .idle | .other => some (d.abortCmd, false)

/-! ## The channel -/

/-- The two drives of a channel, `cur_ide` and whether `ide_timer` is set. -/
structure Channel where
  ide : Drive
  other : Drive
  cur : Bool
  armed : Bool

def callbackide (c : Channel) (a : Answer) : Option Channel :=
  if c.ide.reset then
    some { c with ide := c.ide.resetDone.absent, other := c.other.resetDone.absent }
  else (c.ide.callback a).map fun r => { c with ide := r.1, armed := c.armed || r.2 }

def writeidew (c : Channel) (val : Word) (a : Answer) : Option Channel :=
  -- atapi_data_write ignores a device that is not in a packet
  if c.ide.command = .packetcmd then some c
  else if c.ide.pos / 2 < 65536 then
    let buffer := Function.update c.ide.buffer (c.ide.pos / 2) val
    if c.ide.pos + 2 ≥ 512 then
      let d : Drive := { c.ide with buffer := buffer, pos := 0, atastat := busyStat }
      if d.command = .writeMultiple then callbackide { c with ide := d } a
      else some { c with ide := d, armed := true }
    else some { c with ide := { c.ide with buffer := buffer, pos := c.ide.pos + 2 } }
  else none

def writeidel (c : Channel) (val : BitVec 32) (a : Answer) : Option Channel :=
  (writeidew c (val.truncate 16) a).bind fun c => writeidew c ((val >>> 16).truncate 16) a

/-- The registers of a drive after a data-port read has emptied its sector. -/
def Drive.sectorRead (d : Drive) : Drive :=
  { d with pos := 0, atastat := readyStat ||| dscStat }

/-- The registers of a drive that goes on to the next sector of a read. -/
def Drive.readOn (d : Drive) : Drive :=
  { d.nextSector with atastat := busyStat ||| readyStat ||| dscStat }

def readidew (c : Channel) (a : Answer) : Option (Word × Channel) :=
  -- atapi_data_read gives 0xffff for a device that is not in a packet
  if c.ide.command = .packetcmd then some (0xFFFF, c)
  else if c.ide.pos / 2 < 65536 then
    let temp := c.ide.buffer (c.ide.pos / 2)
    if c.ide.pos + 2 ≥ 512 ∧ c.ide.command ≠ .idle then
      let d := c.ide.sectorRead
      if d.command = .read ∨ d.command = .readNoretry ∨ d.command = .readMultiple then
        let d := d.countDown
        if d.secount ≠ 0 then
          if d.command = .readMultiple then
            (callbackide { c with ide := d.readOn } a).map fun c => (temp, c)
          else some (temp, { c with ide := d.readOn, armed := true })
        else some (temp, { c with ide := d })
      else some (temp, { c with ide := d })
    else some (temp, { c with ide := { c.ide with pos := c.ide.pos + 2 } })
  else none

def readidel (c : Channel) (a : Answer) : Option (BitVec 32 × Channel) :=
  (readidew c a).bind fun r => (readidew r.2 a).map fun r' => (r'.1 ++ r.1, r'.2)

/-! ## The task file -/

/-- The addresses `0x1F0` to `0x1F7` and `0x3F6`. -/
inductive Port
  | data
  | features
  | secount
  | sector
  | cylinderLow
  | cylinderHigh
  | driveHead
  | command
  | control
  deriving DecidableEq, Repr

/-- The `switch` over a byte written to the command register. The history of the drive starts
again with the command. -/
def writeCommand (c : Channel) (command : Command) (a : Answer) : Option Channel :=
  let d := { c.ide.irqLower with command := command, error := 0, calls := [], handed := [] }
  let start (atastat : Byte) : Option Channel :=
    some { c with ide := { d with atastat := atastat }, armed := true }
  match command with
  | .srst => start readyStat
  | .restore | .seek => start (readyStat ||| busyStat)
  | .readMultiple =>
    if d.blocksize = 0 then none
    else some { c with
      ide := { d with blockcount := 0, atastat := busyStat, doInitialRead := true }, armed := true }
  | .read | .readNoretry | .readDma =>
    some { c with ide := { d with atastat := busyStat, doInitialRead := true }, armed := true }
  | .writeMultiple =>
    if d.blocksize = 0 then none
    else some { c with
      ide := { d with blockcount := 0, atastat := drqStat ||| dscStat ||| readyStat, pos := 0 } }
  | .write | .writeNoretry =>
    some { c with ide := { d with atastat := drqStat ||| dscStat ||| readyStat, pos := 0 } }
  | .writeDma | .verify | .verifyOnce | .specify | .driveDiagnostics | .identify | .setFeatures =>
    start busyStat
  | .format => some { c with ide := { d with atastat := drqStat, pos := 0 } }
  | .pidentify | .setMultipleMode | .setidle1 | .checkPowerMode =>
    callbackide { c with ide := { d with atastat := busyStat } } a
  | .packetcmd => start busyStat
  | .idle | .other =>
    some { c with ide := { d with atastat := readyStat ||| errStat ||| dscStat,
                                  error := abrtErr }.irqRaise }

/-- A register that both drives of the channel take. -/
def Channel.both (c : Channel) (f : Drive → Drive) : Channel :=
  { c with ide := f c.ide, other := f c.other }

/-- The other drive is selected. -/
def Channel.swap (c : Channel) : Channel := { c with ide := c.other, other := c.ide, cur := !c.cur }

/-- Both drives start a reset, which the timer ends. -/
def Channel.beginReset (c : Channel) : Channel :=
  { c.both fun d => { d with reset := true, atastat := busyStat } with armed := true }

/-- Both drives are held in reset. -/
def Channel.holdReset (c : Channel) : Channel :=
  { c.both fun d => { d with atastat := busyStat } with armed := false }

/-- `0x1F6`: a select that ends a pending reset, or else the head and the address mode. After a
select only the drive that it selects takes them. -/
def writeDriveHead (c : Channel) (val : Byte) : Channel :=
  let take (d : Drive) : Drive :=
    { d with head := (val &&& 0xF).toNat, lba := val.getLsbD 6,
             lbaAddr := (d.lbaAddr &&& 0x0FFFFFF) ||| ((val &&& 0xF).toNat <<< 24) }
  if c.cur ≠ val.getLsbD 4 then
    if c.ide.reset || c.other.reset then
      { c.swap.both Drive.resetDone with armed := false }
    else { c.swap with ide := take c.other }
  else c.both take

/-- `0x3F6`. -/
def writeControl (c : Channel) (val : Byte) : Channel :=
  let present := c.ide.type ≠ .none ∨ c.other.type ≠ .none
  let released := c.ide.fdisk.getLsbD 2 && !val.getLsbD 2
  let begun := if released = true ∧ present then c.beginReset else c
  let held := if val.getLsbD 2 then begun.holdReset else begun
  held.both fun d => { d with fdisk := val }

def writeide (c : Channel) (port : Port) (val : Byte) (a : Answer) : Option Channel :=
  let v := val.toNat
  match port with
  | .data => if c.ide.type = .none then some c else writeidew c (val ++ val) a
  | .features => some (c.both fun d => { d with cylprecomp := v })
  | .secount => some (c.both fun d => { d with secount := v })
  | .sector =>
    some (c.both fun d => { d with sector := v, lbaAddr := (d.lbaAddr &&& 0xFFFFF00) ||| v })
  | .cylinderLow =>
    some (c.both fun d => { d with cylinder := (d.cylinder &&& 0xFF00) ||| v,
                                   lbaAddr := (d.lbaAddr &&& 0xFFF00FF) ||| (v <<< 8) })
  | .cylinderHigh =>
    some (c.both fun d => { d with cylinder := (d.cylinder &&& 0xFF) ||| (v <<< 8),
                                   lbaAddr := (d.lbaAddr &&& 0xF00FFFF) ||| (v <<< 16) })
  | .driveHead => some (writeDriveHead c val)
  | .command => if c.ide.type = .none then some c else writeCommand c (.ofByte val) a
  | .control => some (writeControl c val)

def readide (c : Channel) (port : Port) (a : Answer) : Option (Byte × Channel) :=
  let d := c.ide
  match port with
  | .data => if d.type = .none then some (0, c) else (readidew c a).map fun r => (r.1.truncate 8, r.2)
  | .features => some (d.error, c)
  | .secount => some (BitVec.ofNat 8 d.secount, c)
  | .sector => some (BitVec.ofNat 8 d.sector, c)
  | .cylinderLow => some (BitVec.ofNat 8 d.cylinder, c)
  | .cylinderHigh => some (BitVec.ofNat 8 (d.cylinder >>> 8), c)
  | .driveHead =>
    some (BitVec.ofNat 8 (d.head ||| (if c.cur then 0x10 else 0) ||| (if d.lba then 0x40 else 0) |||
      0xA0), c)
  | .command =>
    if d.type = .none then some (0, c) else some (d.atastat, { c with ide := d.irqLower })
  | .control => if d.type = .none then some (0, c) else some (d.atastat, c)

/-- The first drive of the channel. -/
def Channel.first (c : Channel) : Drive := if c.cur then c.other else c.ide

/-- `ide_reset_devices` for one channel: the reset starts with the first drive that is present. -/
def ideResetDevices (c : Channel) : Channel :=
  if c.ide.type ≠ .none ∨ c.other.type ≠ .none then
    if c.cur ≠ (c.first.type = .none : Bool) then c.beginReset.swap else c.beginReset
  else c

/-! ## Steps -/

/-- What can happen to a channel. -/
inductive Op
  | write (port : Port) (val : Byte)
  | read (port : Port)
  | writew (val : Word)
  | writel (val : BitVec 32)
  | readw
  | readl
  | timer
  | resetDevices

/-- One access with what the world answers. A timer that is not set does not fire. -/
def Channel.step (c : Channel) : Op × Answer → Option Channel
  | (.write port val, a) => writeide c port val a
  | (.read port, a) => (readide c port a).map (·.2)
  | (.writew val, a) => writeidew c val a
  | (.writel val, a) => writeidel c val a
  | (.readw, a) => (readidew c a).map (·.2)
  | (.readl, a) => (readidel c a).map (·.2)
  | (.timer, a) => if c.armed then callbackide { c with armed := false } a else some c
  | (.resetDevices, _) => some (ideResetDevices c)

/-- A drive after power-on and `resetide`. -/
def Drive.init (type : DriveType) (hddFile : HddFile) : Drive :=
  Drive.setSignature {
    type, hddFile, atastat := readyStat ||| dscStat, error := 0, secount := 0, sector := 0,
    cylinder := 0, head := 0, cylprecomp := 0, command := .idle, fdisk := 0, pos := 0,
    reset := false, buffer := fun _ => 0, irqstat := false, service := false, lba := false,
    lbaAddr := 0, skip512 := 0, blocksize := 0, blockcount := 0, sectorBuffer := fun _ => 0,
    doInitialRead := false, sectorPos := 0, calls := [], handed := [] }

/-- A channel with two drives after power-on. -/
def Channel.init (first second : DriveType × HddFile) : Channel :=
  ⟨.init first.1 first.2, .init second.1 second.2, false, false⟩

end PCemWeb.Ide
