import PCemWeb.Atapi.Atapi

/-!
# The task file of an ATAPI drive

What the ports of `ide.c` and `callbackide` do for a drive of type `IDE_CDROM`. `selected` says
whether `cur_ide` is this drive. An access of the other drive leaves this one alone, except that a
reset takes both.
-/

namespace PCemWeb.Atapi

open PCemWeb.Ide (Byte Word Command Port errStat drqStat dscStat readyStat busyStat abrtErr)

/-- `IDE`, as far as a drive with a packet interface uses it. -/
structure CdDrive (τ : Type) where
  atapi : Device τ
  selected : Bool
  command : Command
  secount : Nat
  cylprecomp : Byte
  fdisk : Byte
  pos : Nat
  reset : Bool

variable {τ : Type} (T : Target τ)

/-- The status and error registers, which the packet engine shares. -/
def CdDrive.status (c : CdDrive τ) (atastat : Byte) : CdDrive τ :=
  { c with atapi := { c.atapi with atastat } }

/-- `ide_set_signature`. -/
def CdDrive.setSignature (c : CdDrive τ) : CdDrive τ :=
  { c with secount := 1, atapi := { c.atapi with cylinder := 0xEB14 } }

/-- `abort_cmd`. -/
def CdDrive.abortCmd (c : CdDrive τ) : CdDrive τ :=
  { c with
    command := .idle, pos := 0
    atapi := { c.atapi with atastat := readyStat ||| errStat ||| dscStat, error := abrtErr } }

/-- The registers after a reset, without that of the packet engine. -/
def CdDrive.resetDone (c : CdDrive τ) : CdDrive τ :=
  { c with
    secount := 1, reset := false
    atapi := { c.atapi with atastat := readyStat ||| dscStat, error := 1, cylinder := 0xEB14 } }

/-- The `switch` of `callbackide`. -/
def CdDrive.callback (c : CdDrive τ) (a : Answer) : Option (CdDrive τ) :=
  match c.command with
  | .srst =>
    let c := c.setSignature
    some { c with atapi := { c.atapi with atastat := 0, error := 1 } }
  | .read | .readNoretry | .identify => some c.setSignature.abortCmd
  | .driveDiagnostics =>
    let c := c.setSignature
    some { c with atapi := { c.atapi with atastat := 0, error := 1 } }
  | .pidentify =>
    some { c with
      pos := 0
      atapi := { c.atapi with atastat := drqStat ||| readyStat ||| dscStat, error := 0 } }
  | .setFeatures =>
    let answer := T.setFeature c.cylprecomp c.secount c.atapi.bus.target
    let c := { c with atapi := { c.atapi with bus := { c.atapi.bus with target := answer.2 } } }
    some (if answer.1 then c.status (readyStat ||| dscStat) else c.abortCmd)
  | .checkPowerMode => some (CdDrive.status { c with secount := 0xFF } (readyStat ||| dscStat))
  | .packetcmd => (c.atapi.processPacket T a).map fun d => { c with atapi := d }
  | .restore | .seek | .readDma | .readMultiple | .write | .writeNoretry | .writeDma
  | .writeMultiple | .verify | .verifyOnce | .format | .specify | .setMultipleMode | .setidle1
  | .idle | .other => some c.abortCmd

/-- `callbackide`: a reset reaches the drive also when the other one is selected. -/
def CdDrive.callbackide (c : CdDrive τ) (a : Answer) : Option (CdDrive τ) :=
  if c.reset then some { c.resetDone with atapi := c.resetDone.atapi.reset T }
  else if c.selected then c.callback T a
  else some c

/-- The command register. -/
def CdDrive.writeCommand (c : CdDrive τ) (command : Command) (a : Answer) : Option (CdDrive τ) :=
  let d := { c with command := command, atapi := { c.atapi with error := 0 } }
  match command with
  | .srst => some (d.status busyStat)
  | .restore | .seek => some (d.status (readyStat ||| busyStat))
  | .read | .readNoretry | .readMultiple | .readDma => some (d.status busyStat)
  | .write | .writeNoretry | .writeMultiple =>
    some (CdDrive.status { d with pos := 0 } (drqStat ||| dscStat ||| readyStat))
  | .writeDma | .verify | .verifyOnce | .specify | .driveDiagnostics | .identify | .setFeatures =>
    some (d.status busyStat)
  | .format => some (CdDrive.status { d with pos := 0 } drqStat)
  | .pidentify | .setMultipleMode | .setidle1 | .checkPowerMode =>
    (d.status busyStat).callbackide T a
  | .packetcmd =>
    (d.atapi.commandStart T d.cylprecomp).map fun started =>
      { d with atapi := { started with atastat := busyStat, busState := (.dataOut, false) } }
  | .idle | .other =>
    some { d with
      atapi := { d.atapi with atastat := readyStat ||| errStat ||| dscStat, error := abrtErr } }

/-- `writeidew`. -/
def CdDrive.writeidew (c : CdDrive τ) (val : Word) (a : Answer) : Option (CdDrive τ) :=
  if c.command = .packetcmd then some { c with atapi := c.atapi.dataWrite val }
  else if c.pos + 2 ≥ 512 then
    let d := CdDrive.status { c with pos := 0 } busyStat
    if d.command = .writeMultiple then d.callbackide T a else some d
  else some { c with pos := c.pos + 2 }

/-- `readidew`. The words outside a packet come from `buffer`, which is left out. -/
def CdDrive.readidew (c : CdDrive τ) (a : Answer) : Option (CdDrive τ) :=
  if c.command = .packetcmd then some { c with atapi := c.atapi.dataRead.2 }
  else if c.pos + 2 ≥ 512 ∧ c.command ≠ .idle then
    let d := CdDrive.status { c with pos := 0 } (readyStat ||| dscStat)
    if d.command = .read ∨ d.command = .readNoretry ∨ d.command = .readMultiple then
      let d := { d with secount := (d.secount + 255) % 256 }
      if d.secount ≠ 0 then
        let d := d.status (busyStat ||| readyStat ||| dscStat)
        if d.command = .readMultiple then d.callbackide T a else some d
      else some d
    else some d
  else some { c with pos := c.pos + 2 }

/-- `0x1F6`. A select that ends a pending reset leaves the packet engine as it is. -/
def CdDrive.writeDriveHead (c : CdDrive τ) (select : Bool) : CdDrive τ :=
  if c.selected ≠ select then
    if c.reset then { c.resetDone with selected := select } else { c with selected := select }
  else c

/-- `0x3F6`. -/
def CdDrive.writeControl (c : CdDrive τ) (val : Byte) : CdDrive τ :=
  let begun := if c.fdisk.getLsbD 2 && !val.getLsbD 2 then
      CdDrive.status { c with reset := true } busyStat
    else c
  let held := if val.getLsbD 2 then begun.status busyStat else begun
  { held with fdisk := val }

/-- What can happen to the drive: an access of its ports, of which `select` is that of the drive and
head register, a callback of the timer of the channel, a reset of the devices of the machine, which
selects the first drive that is present, and the timer of the target. -/
inductive Op
  | features (val : Byte)
  | secount (val : Byte)
  | cylinderLow (val : Byte)
  | cylinderHigh (val : Byte)
  | select (this : Bool)
  | command (val : Byte)
  | control (val : Byte)
  | writew (val : Word)
  | readw
  | timer
  | resetDevices (this : Bool)
  | target

/-- A command or data access of the other drive goes past this one. -/
def CdDrive.step (c : CdDrive τ) : Op × Answer → Option (CdDrive τ)
  | (.features val, _) => some { c with cylprecomp := val }
  | (.secount val, _) => some { c with secount := val.toNat }
  | (.cylinderLow val, _) =>
    some { c with atapi := { c.atapi with cylinder := (c.atapi.cylinder &&& 0xFF00) ||| val.toNat } }
  | (.cylinderHigh val, _) =>
    some { c with
      atapi := { c.atapi with cylinder := (c.atapi.cylinder &&& 0xFF) ||| (val.toNat <<< 8) } }
  | (.select this, _) => some (c.writeDriveHead this)
  | (.command val, a) => if c.selected then c.writeCommand T (.ofByte val) a else some c
  | (.control val, _) => some (c.writeControl val)
  | (.writew val, a) => if c.selected then c.writeidew T val a else some c
  | (.readw, a) => if c.selected then c.readidew T a else some c
  | (.timer, a) => c.callbackide T a
  | (.resetDevices this, _) => some { CdDrive.status { c with reset := true } busyStat with selected := this }
  | (.target, _) =>
    (c.atapi.bus.tick T).map fun b => { c with atapi := { c.atapi with bus := b } }

/-- The drive after `resetide`, with a target in state `t`. -/
def CdDrive.init (t : τ) (selected : Bool) : CdDrive τ where
  atapi := {
    bus := .init t, command := [], state := .idle, data := fun _ => 0, dataReadPos := 0,
    dataWritePos := 0, busState := (.dataOut, false), useDma := false,
    atastat := readyStat ||| dscStat, error := 0, cylinder := 0xEB14, overran := false,
    delivered := [], offered := [] }
  selected := selected
  command := .idle
  secount := 1
  cylprecomp := 0
  fdisk := 0
  pos := 0
  reset := false

end PCemWeb.Atapi
