import PCemWeb.Ide.Ide

/-!
# The SCSI bus of an ATAPI drive

`scsi_bus_update` and `scsi_bus_read` over the bus of an ATAPI drive, which has one target, with id
0. The target is a parameter: what its callbacks do, and the phases that `command` may answer. The
two functions give no result where the source calls `fatal`. `put` and `taken` are history that no
function reads: the bytes of the command that the target put on the bus and those that it took, until
a reset abandons the command.
The parity line, arbitration and the initiator's own lines, which the ATAPI code never asserts, are
left out.
-/

namespace PCemWeb.Atapi

open PCemWeb.Ide (Byte Word)

/-- The `SCSI_PHASE_` constants: the lines `BUS_IO`, `BUS_CD` and `BUS_MSG`. -/
inductive Phase
  | dataOut
  | dataIn
  | command
  | status
  | messageOut
  | messageIn
  deriving DecidableEq, Repr

/-- `scsi_device_t`, over the device's own data. `tick` is the device's timer, which may kick the
bus, and `granularity` the size that `command` passes to `atapi_set_transfer_granularity`, if it
does. `receives` is the device's own knowledge that it is taking data: `command` asks for no more
than data, a status or time, and once the data is complete it does not ask for time. -/
structure Target (τ : Type) where
  startCommand : τ → τ
  command : List Byte → τ → Phase × τ
  granularity : List Byte → τ → Option Nat
  read : τ → Byte × τ
  write : Byte → τ → τ
  readComplete : τ → Bool
  writeComplete : τ → Bool
  getBytesRequired : τ → Nat
  getStatus : τ → Byte
  getSenseKey : τ → Byte
  setFeature : Byte → Nat → τ → Bool × τ
  reset : τ → τ
  tick : τ → τ × Bool
  receives : τ → Prop
  phase_command : ∀ cdb t, (command cdb t).1 = .command ∨ (command cdb t).1 = .dataIn ∨
    (command cdb t).1 = .dataOut ∨ (command cdb t).1 = .status
  receives_command : ∀ cdb t, (command cdb t).1 = .dataOut → receives (command cdb t).2
  receives_write : ∀ val t, receives t → receives (write val t)
  receives_setFeature : ∀ feature val t, receives t → receives (setFeature feature val t).2
  receives_tick : ∀ t, receives t → receives (tick t).1
  granularity_even : ∀ cdb t size, granularity cdb t = some size → 0 < size ∧ size % 2 = 0
  phase_complete : ∀ cdb t, receives t → writeComplete t = true → (command cdb t).1 ≠ .command

/-- `state` of `scsi_bus_t`. -/
inductive BusState
  | idle
  | command
  | commandWait
  | dataIn
  | dataOut
  | status
  | messageIn
  | phaseSel
  deriving DecidableEq, Repr

/-- `scsi_bus_t`. `phase`, `req`, `bsy` and `data` are the lines of `bus_out`, `ackIn` is `BUS_ACK`
of `bus_in`, and a `newState` of `none` is `BUS_IDLE`. `maxTransferLen` is the field of the ATAPI
device, which the target's command may round down. -/
structure ScsiBus (τ : Type) where
  state : BusState
  newState : Option Phase
  clearReq : Nat
  ackIn : Bool
  phase : Phase
  req : Bool
  bsy : Bool
  data : Byte
  command : List Byte
  changeStateDelay : Nat
  newReqDelay : Nat
  maxTransferLen : Nat
  target : τ
  put : List Byte
  taken : List Byte

/-- The lines that the initiator asserts. `BUS_ATN` is the same line as `BUS_ACK`. -/
structure Lines where
  sel : Bool
  ack : Bool
  data : Byte

variable {τ : Type} (T : Target τ)

/-! ## Updates -/

/-- The length of a command on an ATAPI bus. -/
abbrev cmdLen : Nat := 12

/-- `atapi_set_transfer_granularity`. -/
def setTransferGranularity (maxTransferLen size : Nat) : Nat :=
  if maxTransferLen > size then maxTransferLen - maxTransferLen % size else maxTransferLen

/-- The target's `command`, with the phase that it answers. -/
def ScsiBus.ask (b : ScsiBus τ) (t : τ) : Phase × ScsiBus τ :=
  let answer := T.command b.command t
  (answer.1, { b with
    target := answer.2
    maxTransferLen := ((T.granularity b.command t).map
      (setTransferGranularity b.maxTransferLen)).getD b.maxTransferLen })

/-- `STATE_COMMAND`: a byte of the command. -/
def ScsiBus.takeCommand (b : ScsiBus τ) (val : Byte) : ScsiBus τ :=
  let b := { b with
    command := b.command ++ [val], clearReq := 3, newState := some b.phase, req := false }
  if b.command.length = cmdLen then
    let answer := b.ask T (T.startCommand b.target)
    if answer.1 = .command then { answer.2 with state := .commandWait, clearReq := 0 }
    else { answer.2 with newState := some answer.1, changeStateDelay := 4 }
  else b

/-- `STATE_COMMANDWAIT`. -/
def ScsiBus.pollCommand (b : ScsiBus τ) : ScsiBus τ :=
  let answer := b.ask T b.target
  if answer.1 ≠ .command then
    { answer.2 with newState := some answer.1, changeStateDelay := 4, clearReq := 4 }
  else answer.2

/-- `STATE_DATAIN`: the byte on the bus has been read. -/
def ScsiBus.nextDataIn (b : ScsiBus τ) : ScsiBus τ :=
  if T.readComplete b.target then
    { b with req := false, newState := some .status, changeStateDelay := 4, newReqDelay := 8 }
  else
    let val := T.read b.target
    { b with target := val.2, data := val.1, put := b.put ++ [val.1], clearReq := 3, req := false,
             newState := some .dataIn }

/-- `STATE_DATAOUT`: a byte of data. -/
def ScsiBus.nextDataOut (b : ScsiBus τ) (val : Byte) : ScsiBus τ :=
  let b := { b with target := T.write val b.target, taken := b.taken ++ [val] }
  if T.writeComplete b.target then
    let answer := b.ask T b.target
    { answer.2 with req := false, newState := some answer.1, changeStateDelay := 4,
                    newReqDelay := 8 }
  else { b with req := true }

/-- `scsi_bus_update`. -/
def ScsiBus.update (b : ScsiBus τ) (lines : Lines) : Option (ScsiBus τ) :=
  let acked := lines.ack && !b.ackIn
  let next : Option (ScsiBus τ) := match b.state with
    | .idle =>
      let b := { b with clearReq := 0, changeStateDelay := 0, newReqDelay := 0 }
      some (if lines.sel && lines.data.getLsbD 0 then { b with bsy := true, state := .phaseSel }
        else b)
    | .phaseSel =>
      if lines.sel then some b
      else if lines.ack then none
      else some { b with
        state := .command, phase := .command, req := true, bsy := true, data := 0, command := [] }
    | .command => some (if acked then b.takeCommand T lines.data else b)
    | .commandWait => some (b.pollCommand T)
    | .dataIn => some (if acked then b.nextDataIn T else b)
    | .dataOut => some (if acked then b.nextDataOut T lines.data else b)
    | .status =>
      some (if acked then
        { b with req := false, newState := some .messageIn, changeStateDelay := 4, newReqDelay := 8 }
      else b)
    | .messageIn =>
      some (if acked then { b with req := false, newState := none, changeStateDelay := 4 } else b)
  next.map fun b => { b with ackIn := lines.ack }

/-! ## Reads -/

def ScsiBus.tickClearReq (b : ScsiBus τ) : ScsiBus τ :=
  if b.clearReq = 0 then b
  else if b.clearReq = 1 then
    { b with clearReq := 0, phase := b.newState.getD .dataOut, req := true }
  else { b with clearReq := b.clearReq - 1 }

/-- The change to the new phase. -/
def ScsiBus.changeState (b : ScsiBus τ) : Option (ScsiBus τ) :=
  let b := { b with changeStateDelay := 0, phase := b.newState.getD .dataOut }
  match b.phase with
  | .dataIn =>
    let val := T.read b.target
    some { b with state := .dataIn, target := val.2, data := val.1, put := b.put ++ [val.1] }
  | .dataOut =>
    if b.newState = none then some { b with state := .idle, bsy := false }
    else some { b with state := .dataOut }
  | .status => some { b with state := .status, data := T.getStatus b.target }
  | .messageIn => some { b with state := .messageIn, data := 0 }
  | .command | .messageOut => none

def ScsiBus.tickChange (b : ScsiBus τ) : Option (ScsiBus τ) :=
  if b.changeStateDelay = 0 then some b
  else if b.changeStateDelay = 1 then b.changeState T
  else some { b with changeStateDelay := b.changeStateDelay - 1 }

def ScsiBus.tickNewReq (b : ScsiBus τ) : ScsiBus τ :=
  if b.newReqDelay = 0 then b
  else if b.newReqDelay = 1 then { b with newReqDelay := 0, req := true }
  else { b with newReqDelay := b.newReqDelay - 1 }

/-- `scsi_bus_read`: the lines of `bus_out` are those of the bus it leaves. -/
def ScsiBus.read (b : ScsiBus τ) : Option (ScsiBus τ) :=
  (b.tickClearReq.tickChange T).map ScsiBus.tickNewReq

/-- `scsi_bus_reset`. -/
def ScsiBus.reset (b : ScsiBus τ) : ScsiBus τ :=
  { b with state := .idle, clearReq := 0, changeStateDelay := 0, newReqDelay := 0, ackIn := false,
           phase := .dataOut, req := false, bsy := false, data := 0, command := [],
           target := T.reset b.target, put := [], taken := [] }

/-- The device's timer, with `scsi_bus_kick`. -/
def ScsiBus.tick (b : ScsiBus τ) : Option (ScsiBus τ) :=
  let ticked := T.tick b.target
  if ticked.2 then ScsiBus.update T { b with target := ticked.1 } ⟨false, false, 0⟩
  else some { b with target := ticked.1 }

/-- The bus after `scsi_bus_atapi_init`. -/
def ScsiBus.init (t : τ) : ScsiBus τ :=
  ⟨.idle, none, 0, false, .dataOut, false, false, 0, [], 0, 0, 0, t, [], []⟩

end PCemWeb.Atapi
