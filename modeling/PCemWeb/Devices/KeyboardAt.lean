import Mathlib.Logic.Function.Basic
import PCemWeb.Lib.Run
import PCemWeb.Lib.WrapRing

/-!
# The AT keyboard controller

`keyboard_at.c`: three rings of 16 entries without a full test, for keyboard bytes, mouse bytes and
replies of the controller, an output slot, a slot for a byte that a reply displaces, and the poll
that serves them. A write to a port changes registers and then works on the queues; the latter is
listed as `KeyOp`s, each of which is one call or statement of the source.

Effects outside the controller are left out: interrupt requests, A20, resets of the processor, the
speaker, the notifications of the T3100e. What other files answer is in `KeyAround`.
-/

namespace PCemWeb.Devices

open PCemWeb.Lib

abbrev KeyByte := BitVec 8

inductive KeyStream : Type
  | keyboard
  | mouse
  | reply
  deriving DecidableEq

/-- The rings and slots. `out_new` is a byte with the flag `0x100` for the mouse or `0x200` for a
reply, or -1. `queued`, `taken` and `outStream` are history: the bytes that each stream has queued,
the bytes that the guest has read, and the stream of the byte in `out`. -/
structure KeySlots : Type where
  out : KeyByte
  /-- `STAT_OFULL`. -/
  ofull : Bool
  outNew : Option (KeyStream × KeyByte)
  outDelayed : Option KeyByte
  lastIrq : Nat
  keyQueue : WrapRing 16 KeyByte
  mouseQueue : WrapRing 16 KeyByte
  ctrlQueue : WrapRing 16 KeyByte
  queued : KeyStream → List KeyByte
  taken : List (KeyStream × KeyByte)
  outStream : KeyStream

inductive ScancodeSet : Type
  | set1
  | set2
  | set3
  deriving DecidableEq

/-- `keyboard_at`, with `mouse_scan` and `keyboard_scan`. -/
structure KeyboardAt extends KeySlots where
  initialised : Bool
  want60 : Bool
  wantirq : Bool
  command : KeyByte
  ifull : Bool
  mfull : Bool
  sysflag : Bool
  mem : BitVec 5 → KeyByte
  scancodeSet : ScancodeSet
  translate : Bool
  nextIsRelease : Bool
  inputPort : KeyByte
  outputPort : KeyByte
  keyCommand : KeyByte
  keyWantdata : Bool
  resetDelay : Nat
  mouseScan : Bool
  keyboardScan : Bool

/-- Which machine it is. -/
structure KeyRom : Type where
  t3100e : Bool
  spc6000a : Bool
  /-- `ROM_ENDEAVOR`, `ROM_ZAPPA` or `ROM_ITAUTEC_INFOWAYM`. -/
  endeavor : Bool
  ga686bx : Bool

/-- What other files answer during a write: `t3100e_config_get`, `t3100e_mono_get`, whether a Fn key
is down, and what `mouse_write` queues, if there is one, and whether it first clears the queue. -/
structure KeyAround : Type where
  t3100eConfig : KeyByte
  t3100eMono : KeyByte
  fn : Bool
  mouse : Option (Bool × List KeyByte)

def atTranslation : List KeyByte :=
  [0xff, 0x43, 0x41, 0x3f, 0x3d, 0x3b, 0x3c, 0x58, 0x64, 0x44, 0x42, 0x40, 0x3e, 0x0f, 0x29, 0x59,
    0x65, 0x38, 0x2a, 0x70, 0x1d, 0x10, 0x02, 0x5a, 0x66, 0x71, 0x2c, 0x1f, 0x1e, 0x11, 0x03, 0x5b,
    0x67, 0x2e, 0x2d, 0x20, 0x12, 0x05, 0x04, 0x5c, 0x68, 0x39, 0x2f, 0x21, 0x14, 0x13, 0x06, 0x5d,
    0x69, 0x31, 0x30, 0x23, 0x22, 0x15, 0x07, 0x5e, 0x6a, 0x72, 0x32, 0x24, 0x16, 0x08, 0x09, 0x5f,
    0x6b, 0x33, 0x25, 0x17, 0x18, 0x0b, 0x0a, 0x60, 0x6c, 0x34, 0x35, 0x26, 0x27, 0x19, 0x0c, 0x61,
    0x6d, 0x73, 0x28, 0x74, 0x1a, 0x0d, 0x62, 0x6e, 0x3a, 0x36, 0x1c, 0x1b, 0x75, 0x2b, 0x63, 0x76,
    0x55, 0x56, 0x77, 0x78, 0x79, 0x7a, 0x0e, 0x7b, 0x7c, 0x4f, 0x7d, 0x4b, 0x47, 0x7e, 0x7f, 0x6f,
    0x52, 0x53, 0x50, 0x4c, 0x4d, 0x48, 0x01, 0x45, 0x57, 0x4e, 0x51, 0x4a, 0x37, 0x49, 0x46, 0x54,
    0x80, 0x81, 0x82, 0x41, 0x54, 0x85, 0x86, 0x87, 0x88, 0x89, 0x8a, 0x8b, 0x8c, 0x8d, 0x8e, 0x8f,
    0x90, 0x91, 0x92, 0x93, 0x94, 0x95, 0x96, 0x97, 0x98, 0x99, 0x9a, 0x9b, 0x9c, 0x9d, 0x9e, 0x9f,
    0xa0, 0xa1, 0xa2, 0xa3, 0xa4, 0xa5, 0xa6, 0xa7, 0xa8, 0xa9, 0xaa, 0xab, 0xac, 0xad, 0xae, 0xaf,
    0xb0, 0xb1, 0xb2, 0xb3, 0xb4, 0xb5, 0xb6, 0xb7, 0xb8, 0xb9, 0xba, 0xbb, 0xbc, 0xbd, 0xbe, 0xbf,
    0xc0, 0xc1, 0xc2, 0xc3, 0xc4, 0xc5, 0xc6, 0xc7, 0xc8, 0xc9, 0xca, 0xcb, 0xcc, 0xcd, 0xce, 0xcf,
    0xd0, 0xd1, 0xd2, 0xd3, 0xd4, 0xd5, 0xd6, 0xd7, 0xd8, 0xd9, 0xda, 0xdb, 0xdc, 0xdd, 0xde, 0xdf,
    0xe0, 0xe1, 0xe2, 0xe3, 0xe4, 0xe5, 0xe6, 0xe7, 0xe8, 0xe9, 0xea, 0xeb, 0xec, 0xed, 0xee, 0xef,
    0xf0, 0xf1, 0xf2, 0xf3, 0xf4, 0xf5, 0xf6, 0xf7, 0xf8, 0xf9, 0xfa, 0xfb, 0xfc, 0xfd, 0xfe, 0xff]

/-! ## The queues -/

/-- What a port write does to the queues, and the parts of a poll. -/
inductive KeyOp : Type
  | adddata (val : KeyByte)
  | adddataKeyboard (val : KeyByte)
  | adddataMouse (val : KeyByte)
  | clearKeys
  | clearMouse
  | clearReplies
  | startReset
  | load
  | refill
  | resetTick
  | read

namespace KeySlots

variable (k : KeySlots)

def note (stream : KeyStream) (val : KeyByte) : KeyStream → List KeyByte :=
  Function.update k.queued stream (k.queued stream ++ [val])

/-- `keyboard_at_adddata`. A key byte that waits in `out_new` gives way. -/
def adddata (val : KeyByte) : KeySlots :=
  let k := { k with ctrlQueue := k.ctrlQueue.push val, queued := k.note .reply val }
  match k.outNew with
  | some (.keyboard, key) => { k with outDelayed := some key, outNew := none }
  | _ => k

/-- The end of `keyboard_at_adddata_keyboard`. -/
def pushKey (val : KeyByte) : KeySlots :=
  { k with keyQueue := k.keyQueue.push val, queued := k.note .keyboard val }

/-- `keyboard_at_adddata_mouse`. -/
def adddataMouse (val : KeyByte) : KeySlots :=
  { k with mouseQueue := k.mouseQueue.push val, queued := k.note .mouse val }

/-- The move of `out_new` to `out`. -/
def moveOut (stream : KeyStream) (val : KeyByte) : KeySlots :=
  { k with
    out := val
    outStream := stream
    outNew := none
    ofull := true
    lastIrq := if stream = .mouse then 0x1000 else 2 }

/-- The second half of `keyboard_at_poll`. -/
def refill (keyboardDisabled : Bool) : KeySlots :=
  if k.outNew = none ∧ k.ofull = false ∧ k.ctrlQueue.isEmpty = false then
    { k with outNew := some (.reply, k.ctrlQueue.head), ctrlQueue := k.ctrlQueue.pop }
  else if k.ofull || k.outNew.isSome then k
  else
    match k.outDelayed with
    | some key => { k with outNew := some (.keyboard, key), outDelayed := none }
    | none =>
      if k.mouseQueue.isEmpty = false then
        { k with outNew := some (.mouse, k.mouseQueue.head), mouseQueue := k.mouseQueue.pop }
      else if !keyboardDisabled && !k.keyQueue.isEmpty then
        { k with outNew := some (.keyboard, k.keyQueue.head), keyQueue := k.keyQueue.pop }
      else k

/-- `keyboard_at_read` of port `0x60`. -/
def read : KeySlots :=
  { k with ofull := false, lastIrq := 0, taken := k.taken ++ [(k.outStream, k.out)] }

end KeySlots

namespace KeyboardAt

variable (s : KeyboardAt)

/-- `keyboard_at_adddata_keyboard`. -/
def adddataKeyboard (val : KeyByte) : KeyboardAt :=
  if s.resetDelay ≠ 0 then s
  else if s.translate then
    if val = 0xf0 then { s with nextIsRelease := true }
    else
      let val := atTranslation.getD val.toNat 0
      let val := if s.nextIsRelease then val ||| 0x80 else val
      { s with nextIsRelease := false, toKeySlots := s.pushKey val }
  else { s with toKeySlots := s.pushKey val }

/-- The first half of `keyboard_at_poll`. A mouse byte is dropped while the mouse is disabled. -/
def load : KeyboardAt :=
  match s.outNew with
  | some (stream, val) =>
    if s.lastIrq ≠ 0 then s
    else
      let s := { s with wantirq := false }
      if stream = .mouse ∧ s.mouseScan = false then { s with outNew := none }
      else { s with toKeySlots := s.moveOut stream val, ifull := false, mfull := stream = .mouse }
  | none => s

def resetTick : KeyboardAt :=
  if s.resetDelay = 0 then s
  else
    let s := { s with resetDelay := s.resetDelay - 1 }
    if s.resetDelay = 0 then s.adddataKeyboard 0xaa else s

def apply : KeyOp → KeyboardAt
  | .adddata val => { s with toKeySlots := s.adddata val }
  | .adddataKeyboard val => s.adddataKeyboard val
  | .adddataMouse val => { s with toKeySlots := s.adddataMouse val }
  | .clearKeys => { s with keyQueue := s.keyQueue.clear }
  | .clearMouse => { s with mouseQueue := s.mouseQueue.clear }
  | .clearReplies => { s with ctrlQueue := s.ctrlQueue.clear, ofull := false }
  | .startReset => { s with resetDelay := 1000 }
  | .load => s.load
  | .refill => { s with toKeySlots := s.refill ((s.mem 0).getLsbD 4) }
  | .resetTick => s.resetTick
  | .read => { s with toKeySlots := s.read }

/-! ## Port writes -/

def setMem (i : BitVec 5) (val : KeyByte) : KeyboardAt :=
  { s with mem := Function.update s.mem i val }

/-- The data byte of a command to the controller. -/
def writeController (around : KeyAround) (val : KeyByte) : KeyboardAt × List KeyOp :=
  let s := { s with want60 := false }
  if 0x60 ≤ s.command ∧ s.command ≤ 0x7f then
    let s := s.setMem (s.command.setWidth 5) val
    if s.command = 0x60 then
      ({ s with
        wantirq := (val.getLsbD 0 && (s.ofull || s.wantirq))
        mouseScan := !val.getLsbD 5
        translate := val.getLsbD 6 }, [])
    else (s, [])
  else if s.command = 0xd1 then ({ s with outputPort := val }, [])
  else if s.command = 0xd2 then (s, [.adddata val])
  else if s.command = 0xd3 then (s, [.adddataMouse val])
  else if s.command = 0xd4 then
    match around.mouse with
    | some (clears, bytes) =>
      ({ s.setMem 0 (s.mem 0 &&& 0xdf) with mouseScan := true },
        (if clears then [.clearMouse] else []) ++ bytes.map .adddataMouse)
    | none => (s, [])
  else (s, [])

/-- The data byte of a command to the keyboard. -/
def writeKeyData (val : KeyByte) : KeyboardAt × List KeyOp :=
  let s := { s with keyWantdata := false }
  if s.keyCommand = 0xf0 then
    if val = 0 then
      (s, [.adddataKeyboard 0xfa, .adddataKeyboard (match s.scancodeSet with
        | .set1 => 1
        | .set2 => 2
        | .set3 => 3)])
    else if val = 1 then ({ s with scancodeSet := .set1 }, [.adddataKeyboard 0xfa])
    else if val = 2 then ({ s with scancodeSet := .set2 }, [.adddataKeyboard 0xfa])
    else if val = 3 then ({ s with scancodeSet := .set3 }, [.adddataKeyboard 0xfa])
    else (s, [.adddataKeyboard 0xfe])
  else if s.keyCommand = 0xed ∨ s.keyCommand = 0xf3 then (s, [.adddataKeyboard 0xfa])
  else (s, [])

/-- A command to the keyboard. -/
def writeKeyCommand (val : KeyByte) : KeyboardAt × List KeyOp :=
  let s := { s with keyCommand := val }
  if val = 0xed ∨ val = 0xf0 ∨ val = 0xf3 then
    ({ s with keyWantdata := true }, [.adddataKeyboard 0xfa])
  else if val = 0xee then (s, [.adddataKeyboard 0xee])
  else if val = 0xf2 then
    (s, [.adddataKeyboard 0xfa, .adddataKeyboard 0xab, .adddataKeyboard 0x83])
  else if val = 0xf4 then ({ s with keyboardScan := true }, [.adddataKeyboard 0xfa])
  else if val = 0xf5 then ({ s with keyboardScan := false }, [.adddataKeyboard 0xfa])
  else if val = 0xff then (s, [.clearKeys, .adddataKeyboard 0xfa, .startReset])
  else (s, [.adddataKeyboard 0xfe])

/-- `keyboard_at_write` to port `0x60`. -/
def write60 (around : KeyAround) (val : KeyByte) : KeyboardAt × List KeyOp :=
  if s.want60 then s.writeController around val
  else
    let s := s.setMem 0 (s.mem 0 &&& 0xef)
    if s.keyWantdata then s.writeKeyData val else s.writeKeyCommand val

/-- The self-test, which discards replies when it is the first. -/
def selfTest (rom : KeyRom) : KeyboardAt × List KeyOp :=
  let s' := { s with
    initialised := true
    ifull := rom.t3100e || rom.spc6000a || s.ifull
    sysflag := true
    outputPort := 0xcf }
  (s'.setMem 0 (s.mem 0 ||| 0x04),
    (if s.initialised then [] else [.clearReplies]) ++ [.adddata 0x55])

/-- Read of the input port. -/
def inputPortCommand (rom : KeyRom) (around : KeyAround) : KeyboardAt × List KeyOp :=
  let port := if rom.t3100e then if around.t3100eMono.getLsbD 0 then 0xff else 0xbf
    else s.inputPort
  ({ s with inputPort := ((port + 1) &&& 3) ||| (port &&& 0xfc) },
    [.adddata (if rom.endeavor then port ||| 4 ||| 0x40 else port ||| 4)])

/-- `keyboard_at_write` to port `0x64`. -/
def write64 (rom : KeyRom) (around : KeyAround) (val : KeyByte) : KeyboardAt × List KeyOp :=
  let s := { s with want60 := false, command := val }
  if 0x20 ≤ val ∧ val ≤ 0x3f then (s, [.adddata (s.mem (val.setWidth 5))])
  else if 0x60 ≤ val ∧ val ≤ 0x7f then ({ s with want60 := true }, [])
  else if val = 0xa7 then ({ s.setMem 0 (s.mem 0 ||| 0x20) with mouseScan := false }, [])
  else if val = 0xa8 then ({ s.setMem 0 (s.mem 0 &&& 0xdf) with mouseScan := true }, [])
  else if val = 0xa9 ∨ val = 0xab ∨ val = 0xe0 then (s, [.adddata 0])
  else if val = 0xaa then s.selfTest rom
  else if val = 0xad then (s.setMem 0 (s.mem 0 ||| 0x10), [])
  else if val = 0xae then (s.setMem 0 (s.mem 0 &&& 0xef), [])
  else if val = 0xb4 ∧ rom.t3100e then (s, [.adddata around.t3100eConfig])
  else if val = 0xb5 ∧ rom.t3100e then (s, [.adddata around.t3100eMono])
  else if val = 0xb6 ∧ rom.t3100e then ({ s with want60 := true }, [])
  else if val = 0xba ∧ rom.endeavor then (s, [.adddata 0])
  else if val = 0xbb ∧ rom.t3100e then (s, [.adddata (if around.fn then 4 else 0)])
  else if val = 0xc0 then s.inputPortCommand rom around
  else if val = 0xca then (s, [.adddata (if rom.ga686bx then 1 else 0)])
  else if val = 0xcb ∨ val = 0xcf ∨ val = 0xd1 ∨ val = 0xd2 ∨ val = 0xd3 ∨ val = 0xd4 then
    ({ s with want60 := true }, [])
  else if val = 0xd0 then (s, [.adddata s.outputPort])
  else (s, [])

/-! ## Runs -/

/-- The state after operations on the queues, one after another. -/
def applyAll (ops : List KeyOp) : KeyboardAt := ops.foldl apply s

end KeyboardAt

/-- A byte of the keyboard or of the mouse, a write to a port, a poll, a read of port `0x60`. -/
inductive KeyEvent : Type
  | key (val : KeyByte)
  | mouse (val : KeyByte)
  | write60 (around : KeyAround) (val : KeyByte)
  | write64 (around : KeyAround) (val : KeyByte)
  | poll
  | read60

namespace KeyboardAt

/-- What an event does to the registers first, and then to the queues. -/
def opsOf (rom : KeyRom) (s : KeyboardAt) : KeyEvent → KeyboardAt × List KeyOp
  | .key val => (s, [.adddataKeyboard val])
  | .mouse val => (s, [.adddataMouse val])
  | .write60 around val => s.write60 around val
  | .write64 around val => s.write64 rom around val
  | .poll => (s, [.load, .refill, .resetTick])
  | .read60 => (s, [.read])

def step (rom : KeyRom) (s : KeyboardAt) (event : KeyEvent) : Option KeyboardAt :=
  some ((s.opsOf rom event).1.applyAll (s.opsOf rom event).2)

def emptyRing : WrapRing 16 KeyByte := ⟨fun _ => 0, 0, 0, by decide, by decide⟩

/-- `keyboard_at_init`, with the input port that the display gives and the mouse as it is. -/
def init (inputPort : KeyByte) (mouseScan : Bool) : KeyboardAt where
  out := 0
  ofull := false
  outNew := none
  outDelayed := none
  lastIrq := 0
  keyQueue := emptyRing
  mouseQueue := emptyRing
  ctrlQueue := emptyRing
  queued _ := []
  taken := []
  outStream := .keyboard
  initialised := false
  want60 := false
  wantirq := false
  command := 0
  ifull := false
  mfull := false
  sysflag := false
  mem := Function.update (fun _ => 0) 0 0x11
  scancodeSet := .set2
  translate := false
  nextIsRelease := false
  inputPort
  outputPort := 0xcf
  keyCommand := 0
  keyWantdata := false
  resetDelay := 0
  mouseScan
  keyboardScan := true

end KeyboardAt

end PCemWeb.Devices
