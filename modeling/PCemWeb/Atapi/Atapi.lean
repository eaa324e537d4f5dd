import PCemWeb.Atapi.ScsiBus
import PCemWeb.Lib.Polling

/-!
# The ATAPI packet engine

`ide_atapi.c`, and what `ide.c` does for a drive of type `IDE_CDROM`. The drive has its task-file
registers, the packet engine and the bus with its target. The timer of the channel is shared with
the other drive, so a callback may come at any time; only the callback of the drive that `cur_ide`
selects reaches the engine, but a reset reaches both drives.

A step gives no result where the source calls `fatal`, calls a bus master that is not there, or polls
the bus without end. An index past the end of `data`, which only a transfer by the bus master can
reach, is recorded in `overran` and not followed further. `delivered` and `offered` are history that
no modelled function reads: the bytes that the guest got and gave for the command. The interrupt
lines, the words of `buffer` and the registers that no packet uses are left out.
-/

namespace PCemWeb.Atapi

open PCemWeb.Ide (Byte Word Command errStat drqStat dscStat readyStat busyStat abrtErr)
open PCemWeb.Lib

/-- The `ATAPI_STATE_` constants. -/
inductive State
  | idle
  | command
  | gotCommand
  | nextPhase
  | readStatus
  | readMessage
  | endPhase
  | readData
  | readDataWait
  | writeData
  | writeDataWait
  | retryReadDma
  | retryWriteDma
  deriving DecidableEq, Repr

/-- `atapi_device_t`, with the registers of the drive that it points to. `command` holds
`command_pos` bytes, and `busState` is the phase and request that the guest is told of. -/
structure Device (τ : Type) where
  bus : ScsiBus τ
  command : List Byte
  state : State
  data : Nat → Byte
  dataReadPos : Nat
  dataWritePos : Nat
  busState : Phase × Bool
  useDma : Bool
  atastat : Byte
  error : Byte
  cylinder : Nat
  overran : Bool
  delivered : List Byte
  offered : List Byte

/-- What the bus master answers: `none` where there is none, and otherwise whether it performed the
transfer; and the bytes that it fetches for a write. -/
structure Answer where
  busMaster : Option Bool
  dmaBytes : Nat → Byte

abbrev mcrErr : Byte := 0x08
abbrev statusGood : Byte := 0
abbrev keyUnitAttention : Byte := 6
abbrev msgCommandComplete : Byte := 0

/-- The size of `data`. -/
abbrev dataBytes : Nat := 65536

variable {τ : Type} (T : Target τ)

/-- What is left of the status when the drive gets busy with a packet. -/
def Device.busy (d : Device τ) : Device τ := { d with atastat := busyStat ||| (d.atastat &&& errStat) }

/-- The drive asks the guest for words. -/
def Device.requests (d : Device τ) : Device τ :=
  { d with atastat := readyStat ||| drqStat ||| (d.atastat &&& errStat) }

/-- `atapi_data_write`. -/
def Device.dataWrite (d : Device τ) (val : Word) : Device τ :=
  let low : Byte := val.truncate 8
  let high : Byte := (val >>> 8).truncate 8
  match d.state with
  | .command =>
    let d := { d with command := d.command ++ [low, high] }
    if d.command.length ≥ 12 then { d with state := .gotCommand }.busy else d
  | .writeDataWait =>
    let pos := d.dataWritePos
    let d := { d with
      data := Function.update (Function.update d.data pos low) (pos + 1) high,
      dataWritePos := pos + 2, offered := d.offered ++ [low, high] }
    if d.dataWritePos ≥ d.dataReadPos then
      { d with busState := (.dataOut, false), state := .writeData }.busy
    else d
  | _ => d

/-- `atapi_data_read`. -/
def Device.dataRead (d : Device τ) : Word × Device τ :=
  if d.state = .readDataWait ∧ d.dataReadPos < d.dataWritePos then
    let pos := d.dataReadPos
    let low := d.data pos
    let r : Word × Device τ :=
      if pos + 1 < d.dataWritePos then
        (d.data (pos + 1) ++ low,
          { d with dataReadPos := pos + 2, delivered := d.delivered ++ [low, d.data (pos + 1)] })
      else (low.setWidth 16, { d with dataReadPos := pos + 1, delivered := d.delivered ++ [low] })
    if r.2.dataReadPos ≥ r.2.dataWritePos then (r.1, { r.2 with state := .nextPhase }.busy) else r
  else (0xFFFF, d)

/-! ## Polling -/

/-- A byte is handed over: `BUS_ACK` with it, and then without. -/
def ScsiBus.handshake (b : ScsiBus τ) (val : Byte) : Option (ScsiBus τ) :=
  (b.update T ⟨false, true, val⟩).bind fun b => b.update T ⟨false, false, val⟩

/-- `wait_for_bus`, with a request: whether the bus came to the phase in 20 reads. -/
def ScsiBus.waitFor (b : ScsiBus τ) (phase : Phase) : Option (ScsiBus τ × Bool) :=
  pollLoop (fun b => (b.read T).map fun b => (b, b.phase = phase && b.bsy && b.req)) 20 b

/-- `atapi_command_start`. -/
def Device.commandStart (d : Device τ) (features : Byte) : Option (Device τ) :=
  (d.bus.update T ⟨true, false, 1⟩).bind fun b => (b.read T).bind fun b =>
    if b.bsy then
      (b.update T ⟨false, false, 0⟩).bind fun b => (b.read T).bind fun b =>
        if b.bsy then
          (b.waitFor T .command).bind fun r =>
            if r.2 then
              some { d with
                bus := { r.1 with put := [], taken := [] }, useDma := features.getLsbD 0,
                state := .command, command := [], delivered := [], offered := [] }
            else none
        else none
    else none

/-- The packet engine goes on at the next callback. -/
def Device.goto (d : Device τ) (state : State) (bus : ScsiBus τ) : Device τ :=
  { d with state := state, bus := bus }

/-- The wait for the first request of a command: broken off by the request, without one after 20
reads. -/
def ScsiBus.awaitCommand (b : ScsiBus τ) : Option (ScsiBus τ × Bool) :=
  pollLoop (fun b => (b.read T).bind fun b =>
    if b.bsy && b.phase = .command then some (b, b.req) else none) 20 b

/-- The wait for the next request of a command, broken off also by another phase. -/
def ScsiBus.awaitByte (b : ScsiBus τ) : Option (ScsiBus τ × Bool) :=
  pollLoop (fun b => (b.read T).bind fun b =>
    if b.bsy then some (b, b.phase ≠ .command || b.req) else none) 20 b

/-- The `while` of `ATAPI_STATE_GOT_COMMAND` over the bytes that are left. No target takes more than
`n`. -/
def ScsiBus.sendCommand : Nat → List Byte → ScsiBus τ → Option (ScsiBus τ)
  | 0, _, _ => none
  | n + 1, bytes, b =>
    (b.awaitByte T).bind fun r =>
      if r.2 then
        (r.1.read T).bind fun b =>
          if b.phase = .command ∧ b.req = true then
            (b.handshake T (bytes.headD 0)).bind fun next =>
              if b.bsy then next.sendCommand n bytes.tail else none
          else some b
      else some r.1

/-- `ATAPI_STATE_GOT_COMMAND`. -/
def Device.gotCommand (d : Device τ) : Option (Device τ) :=
  (d.bus.awaitCommand T).bind fun r =>
    if r.2 then (r.1.sendCommand T 32 d.command).map (d.goto .nextPhase) else none

/-- The wait for a request in any phase. -/
def ScsiBus.awaitRequest (b : ScsiBus τ) : Option (ScsiBus τ × Bool) :=
  pollLoop (fun b => (b.read T).bind fun b => if b.bsy then some (b, b.req) else none) 20 b

/-- The start of a data-out phase. -/
def Device.startDataOut (d : Device τ) (a : Answer) : Device τ :=
  let required := T.getBytesRequired d.bus.target
  let d := { d with dataReadPos := required, dataWritePos := 0 }
  if d.useDma then
    if a.busMaster = some true then
      { d with
        data := fun i => if i < required then a.dmaBytes i else d.data i
        overran := d.overran || decide (dataBytes < required)
        offered := d.offered ++ (List.range required).map a.dmaBytes
        dataWritePos := required, busState := (.dataOut, false), state := .writeData }
    else { d with state := .retryWriteDma }
  else
    let len := if required > d.bus.maxTransferLen then d.bus.maxTransferLen else required
    Device.requests { d with
      dataReadPos := len, state := .writeDataWait, cylinder := len, busState := (.dataOut, true) }

/-- `ATAPI_STATE_NEXT_PHASE`. -/
def Device.nextPhase (d : Device τ) (a : Answer) : Option (Device τ) :=
  (d.bus.awaitRequest T).bind fun r =>
    let d := { d with bus := r.1 }
    if r.2 then
      match r.1.phase with
      | .dataOut => some (d.startDataOut T a)
      | .dataIn => some { d with state := .readData, dataReadPos := 0, dataWritePos := 0 }
      | .status => some { d with state := .readStatus }
      | .messageIn => some { d with state := .readMessage }
      | .command | .messageOut => none
    else some d

/-- `ATAPI_STATE_READ_STATUS`. -/
def Device.readStatus (d : Device τ) : Option (Device τ) :=
  (pollLoop (fun b => (b.read T).bind fun b =>
    if b.bsy && b.phase = .status then some (b, b.req) else none) 20 d.bus).bind fun r =>
      if r.2 then (r.1.handshake T 0).map (d.goto .nextPhase) else some { d with bus := r.1 }

/-- `ATAPI_STATE_READ_MESSAGE`. -/
def Device.readMessage (d : Device τ) : Option (Device τ) :=
  (pollLoop (fun b => (b.read T).bind fun b =>
    if b.bsy then some (b, b.phase ≠ .messageIn || b.req) else none) 20 d.bus).bind fun r =>
      if r.2 then
        if r.1.phase ≠ .messageIn then some (d.goto .nextPhase r.1)
        else (r.1.handshake T 0).bind fun b =>
          if r.1.data = msgCommandComplete then some (d.goto .endPhase b) else none
      else some { d with bus := r.1 }

/-- The wait for a byte of a data-in phase, broken off also by another phase. -/
def ScsiBus.awaitData (b : ScsiBus τ) (phase : Phase) : Option (ScsiBus τ × Bool) :=
  pollLoop (fun b => (b.read T).bind fun b =>
    if b.bsy then some (b, b.phase ≠ phase || b.req) else none) 20 b

/-- The `while` of `ATAPI_STATE_READ_DATA`, for at most `n` bytes. A bus that keeps the phase without
a request for 20 reads is polled without end. -/
def Device.fetchData : Nat → Device τ → Option (Device τ)
  | 0, d => some d
  | n + 1, d =>
    (d.bus.awaitData T .dataIn).bind fun r =>
      if r.2 then
        let taken : Option (Device τ) :=
          if r.1.phase = .dataIn then
            (r.1.handshake T 0).map fun b =>
              { d with bus := b, data := Function.update d.data d.dataWritePos r.1.data,
                       dataWritePos := d.dataWritePos + 1 }
          else some { d with bus := r.1 }
        taken.bind fun d => (d.bus.read T).bind fun b =>
          let d := { d with bus := b }
          if b.phase = .dataIn then d.fetchData n else some d
      else none

/-- The bus master takes what has been fetched. -/
def Device.deliverDma (d : Device τ) : Device τ :=
  { d with state := .nextPhase, delivered := d.delivered ++ (List.range d.dataWritePos).map d.data }

/-- `ATAPI_STATE_READ_DATA`. -/
def Device.readData (d : Device τ) (a : Answer) : Option (Device τ) :=
  (d.fetchData T (d.bus.maxTransferLen - d.dataWritePos)).map fun d =>
    if d.useDma then
      if a.busMaster = some true then d.deliverDma else { d with state := .retryReadDma }
    else
      Device.requests { d with
        state := .readDataWait, cylinder := d.dataWritePos, busState := (.dataIn, true) }

/-- The `while` of `ATAPI_STATE_WRITE_DATA`, for the `n` bytes that are left. A bus that keeps the
phase without a request for 20 reads is polled without end. -/
def Device.storeData : Nat → Device τ → Option (Device τ)
  | 0, d => some d
  | n + 1, d =>
    (d.bus.awaitData T .dataOut).bind fun r =>
      if r.2 then
        if r.1.phase = .dataOut then
          (r.1.handshake T (d.data d.dataReadPos)).bind fun b =>
            Device.storeData n { d with bus := b, dataReadPos := d.dataReadPos + 1 }
        else some { d with bus := r.1 }
      else none

/-- `ATAPI_STATE_WRITE_DATA`. -/
def Device.writeData (d : Device τ) : Option (Device τ) :=
  (Device.storeData T d.dataWritePos { d with dataReadPos := 0 }).map fun d =>
    { d with state := .nextPhase }

/-- What the task file says when a packet has ended. -/
def Device.finish (d : Device τ) : Device τ :=
  let d := { d with atastat := readyStat, busState := (.status, false) }
  if T.getStatus d.bus.target ≠ statusGood then
    let error := (T.getSenseKey d.bus.target <<< 4) ||| abrtErr
    { d with
      error := if T.getSenseKey d.bus.target = keyUnitAttention then error ||| mcrErr else error
      atastat := d.atastat ||| errStat }
  else d

/-- `ATAPI_STATE_END_PHASE`. -/
def Device.endPhase (d : Device τ) : Option (Device τ) :=
  (pollLoop (fun b => (b.read T).bind fun b =>
    if b.bsy && b.req then none else some (b, !b.bsy)) 20 d.bus).map fun r =>
      if r.2 then (d.goto .idle r.1).finish T else { d with bus := r.1 }

/-- `ATAPI_STATE_RETRY_READ_DMA`. -/
def Device.retryReadDma (d : Device τ) (a : Answer) : Option (Device τ) :=
  a.busMaster.map fun performed => if performed then d.deliverDma else d

/-- `ATAPI_STATE_RETRY_WRITE_DMA`. -/
def Device.retryWriteDma (d : Device τ) (a : Answer) : Option (Device τ) :=
  a.busMaster.map fun performed =>
    if performed then
      { d with
        data := fun i => if i < d.dataReadPos then a.dmaBytes i else d.data i
        overran := d.overran || decide (dataBytes < d.dataReadPos)
        offered := d.offered ++ (List.range d.dataReadPos).map a.dmaBytes
        busState := (.dataOut, false), state := .writeData }
    else d

/-- `atapi_process_packet`. -/
def Device.processPacket (d : Device τ) (a : Answer) : Option (Device τ) :=
  match d.state with
  | .command =>
    let len := d.cylinder - d.cylinder % 2
    some { d with
      atastat := readyStat ||| (d.atastat &&& errStat)
      bus := { d.bus with maxTransferLen := if len = 0 then 0xFFFE else len }
      busState := (.command, true) }
  | .gotCommand => d.gotCommand T
  | .nextPhase => d.nextPhase T a
  | .readStatus => d.readStatus T
  | .readMessage => d.readMessage T
  | .readData => d.readData T a
  | .writeData => d.writeData T
  | .endPhase => d.endPhase T
  | .retryReadDma => d.retryReadDma a
  | .retryWriteDma => d.retryWriteDma a
  | .idle | .readDataWait | .writeDataWait => some d

/-- `atapi_reset`. -/
def Device.reset (d : Device τ) : Device τ :=
  { d with state := .idle, command := [], dataReadPos := 0, dataWritePos := 0, bus := d.bus.reset T,
           delivered := [], offered := [] }

end PCemWeb.Atapi
