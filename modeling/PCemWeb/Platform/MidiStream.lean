import PCemWeb.Lib.Transducer

/-!
# The MIDI byte stream

The guest writes raw bytes to the MPU-401, and the page reassembles them into the whole messages
that a Web MIDI output takes. `MidiService` follows `midi.js`: `_byte` for each byte that `_drain`
pulls. `Reference` is the parse that MIDI 1.0 describes. Bytes are numbers, and messages are lists of
bytes.
-/

namespace PCemWeb.Platform.MidiStream

open PCemWeb.Lib

abbrev Message := List Nat

/-! ## The forwarder -/

/-- What `_send` finds: whether there is a selected output, and whether SysEx was granted. -/
structure Port where
  output : Bool
  sysexEnabled : Bool
  deriving DecidableEq

/-- The parser's state: `_status`, `_need`, `_msg` and `_sysex`. -/
structure MidiService where
  status : Nat
  need : Nat
  msg : Message
  sysex : Option Message
  deriving DecidableEq

/-- `configureForBoot`. -/
def MidiService.boot : MidiService := ⟨0, 0, [], none⟩

/-- `_dataLen`. -/
def dataLen (status : Nat) : Nat :=
  let hi := status &&& 0xf0
  if hi = 0xc0 ∨ hi = 0xd0 then 1
  else if 0x80 ≤ hi ∧ hi ≤ 0xe0 then 2
  else if status = 0xf1 ∨ status = 0xf3 then 1
  else if status = 0xf2 then 2
  else 0

/-- The output takes the message: SysEx is filtered where it was not granted. -/
def Port.takes (p : Port) (msg : Message) : Bool :=
  p.output && (msg.head? != some 0xf0 || p.sysexEnabled)

/-- `_send`. -/
def Port.send (p : Port) (msg : Message) : List Message :=
  if p.takes msg then [msg] else []

namespace MidiService

/-- `_byte` outside a SysEx, for a byte below the real-time ones. -/
def byteOutside (p : Port) (s : MidiService) (b : Nat) : MidiService × List Message :=
  if b = 0xf0 then ({ s with sysex := some [0xf0] }, [])
  else if 0x80 ≤ b then
    let need := dataLen b
    if need = 0 then ({ s with status := if 0xf0 ≤ b then 0 else b, need, msg := [] }, p.send [b])
    else ({ s with status := b, need, msg := [b] }, [])
  else if s.status = 0 then (s, [])
  else
    let msg := (if s.msg.length = 0 then [s.status] else s.msg) ++ [b]
    if s.need ≤ msg.length - 1 then ({ s with msg := [] }, p.send msg) else ({ s with msg }, [])

/-- `_byte`. -/
def byte (p : Port) (s : MidiService) (b : Nat) : MidiService × List Message :=
  if 0xf8 ≤ b then (s, if p.output then [[b]] else [])
  else
    match s.sysex with
    | none => s.byteOutside p b
    | some sysex =>
      let sysex := sysex ++ [b]
      if b = 0xf7 then ({ s with sysex := none }, p.send sysex)
      else if 0x80 ≤ b then { s with sysex := none }.byteOutside p b
      else if 65536 < sysex.length then ({ s with sysex := none }, [])
      else ({ s with sysex := some sysex }, [])

/-- What `_drain` sends for the bytes of a machine's run, pulled in these parts. -/
def drain (p : Port) (pulls : List (List Nat)) : List Message :=
  outputsOfParts (byte p) .boot pulls

end MidiService

/-! ## The reference parse -/

/-- What a MIDI 1.0 receiver remembers of the bytes so far: between messages the status that is
running, within a message its status and data, or the data of a SysEx. -/
inductive Reference
  | between (running : Option Nat)
  | within (status : Nat) (data : List Nat)
  | exclusive (data : List Nat)
  deriving DecidableEq

/-- How many data bytes follow a status: one after a program change, channel pressure, quarter frame
and song select, two after a song position and the other channel statuses, none after a tune request
and the undefined statuses. -/
def messageLength (status : Nat) : Nat :=
  if status < 0xc0 then 2
  else if status < 0xe0 then 1
  else if status < 0xf0 then 2
  else if status = 0xf1 ∨ status = 0xf3 then 1
  else if status = 0xf2 then 2
  else 0

namespace Reference

/-- The data byte of a message: when it is the last, the message is complete, and only a channel
status stays in force. -/
def data (status : Nat) (before : List Nat) (b : Nat) : Reference × List Message :=
  let bytes := before ++ [b]
  if bytes.length = messageLength status then
    (between (if status < 0xf0 then some status else none), [status :: bytes])
  else (within status bytes, [])

/-- The parse of one byte. -/
def byte (r : Reference) (b : Nat) : Reference × List Message :=
  if 0xf8 ≤ b then (r, [[b]])
  else if b < 0x80 then
    match r with
    | between none => (r, [])
    | between (some status) => data status [] b
    | within status before => data status before b
    | exclusive before => (exclusive (before ++ [b]), [])
  else if b = 0xf0 then (exclusive [], [])
  else if b = 0xf7 then
    match r with
    | exclusive before => (between none, [0xf0 :: before ++ [0xf7]])
    | _ => (between none, [])
  else if b = 0xf6 then (between none, [[0xf6]])
  else if b = 0xf4 ∨ b = 0xf5 then (between none, [])
  else (within b [], [])

/-- The messages in a stream. -/
def messages (bytes : List Nat) : List Message := outputs byte (between none) bytes

end Reference

/-! ## Where the two agree -/

/-- The longest SysEx the forwarder collects, in data bytes. -/
def maxExclusive : Nat := 65535

/-- What decides whether the next byte of a stream is misplaced. -/
structure Framing where
  /-- The last status that takes data, other than a SysEx; 0 after one that takes none. -/
  status : Nat
  /-- How many data bytes outside a SysEx came after the last complete set of this status. -/
  count : Nat
  /-- A data byte belongs to a message of this status. -/
  belongs : Bool
  /-- How many data bytes the SysEx under way has, if it is not too long. -/
  exclusive : Option Nat
  deriving DecidableEq

namespace Framing

def start : Framing := ⟨0, 0, false, none⟩

/-- How a byte changes the framing. -/
def next (f : Framing) (b : Nat) : Framing :=
  if 0xf8 ≤ b then f
  else if b = 0xf0 then { f with belongs := false, exclusive := some 0 }
  else if 0x80 ≤ b then
    if b = 0xf7 ∧ f.exclusive ≠ none then { f with exclusive := none }
    else if messageLength b = 0 then start
    else ⟨b, 0, true, none⟩
  else
    match f.exclusive with
    | some n => { f with exclusive := if n < maxExclusive then some (n + 1) else none }
    | none =>
      if f.status = 0 then f
      else if f.count + 1 < messageLength f.status then { f with count := f.count + 1 }
      else { f with count := 0, belongs := f.belongs && f.status < 0xf0 }

/-- The byte is an undefined status, an end of SysEx that ends none of at most `maxExclusive` bytes, or
the last data byte for a status that is not running any more. -/
def Misplaced (f : Framing) (b : Nat) : Prop :=
  b = 0xf4 ∨ b = 0xf5 ∨ (b = 0xf7 ∧ f.exclusive = none) ∨
    (b < 0x80 ∧ f.exclusive = none ∧ f.belongs = false ∧ f.status ≠ 0 ∧
      f.count + 1 = messageLength f.status)

instance (f : Framing) (b : Nat) : Decidable (f.Misplaced b) := inferInstanceAs (Decidable (_ ∨ _))

/-- No byte of the stream is misplaced. -/
def WellFramed (bytes : List Nat) : Prop := Faultless next Misplaced start bytes

instance (bytes : List Nat) : Decidable (WellFramed bytes) := decideFaultless next Misplaced start bytes

end Framing

end PCemWeb.Platform.MidiStream
