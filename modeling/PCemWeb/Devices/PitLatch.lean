import PCemWeb.Devices.Pit
import PCemWeb.Lib.Run

/-!
# Latches and byte order of the interval timer

What a program may rely on of a channel is a `PitView`: the access mode, the last reload value that
was written completely, and the count that a latch or read-back command holds. Reads and reloads
agree with it, except after a counter latch outside the two-byte mode, which changes the mode of
reading, after a count read-back, which does not hold the count, and where a channel reloads between
the two bytes of a new value.
-/

namespace PCemWeb.Devices

/-! ## What a program sees -/

/-- The access mode of a control word. -/
inductive PitAccess
  | lsb
  | msb
  | both
  deriving DecidableEq

/-- A channel as a program sees it. -/
structure PitView where
  access : PitAccess
  /-- the low byte of a reload value whose high byte is still to be written -/
  written : Option (BitVec 8)
  reload : BitVec 16
  /-- the count of the last latch or read-back command, until it has been read -/
  held : Option (BitVec 16)
  /-- the count whose low byte has been read -/
  half : BitVec 16
  /-- the high byte is read next -/
  high : Bool
  status : Option (BitVec 8)

namespace PitView

variable (v : PitView)

def lowByte (w : BitVec 16) : BitVec 8 := w.setWidth 8

def highByte (w : BitVec 16) : BitVec 8 := (w >>> 8).setWidth 8

/-- Before the first control word a channel is inside two-byte accesses. -/
def powerOn : PitView := ⟨.both, some 0xff, 0xffff, none, 0, true, none⟩

def program (val : BitVec 8) : PitView :=
  let access : PitAccess :=
    if (val >>> 4) &&& 3 = 1 then .lsb else if (val >>> 4) &&& 3 = 2 then .msb else .both
  { v with access, written := none, high := false }

def latch (count : BitVec 16) : PitView := { v with held := some count, high := false }

def readBack (val : BitVec 8) (count : BitVec 16) (status : BitVec 8) : PitView :=
  let v := if val &&& 0x20 = 0 then v.latch count else v
  if val &&& 0x10 = 0 then { v with status := some status } else v

/-- A write of a byte of the reload value. -/
def writeData (val : BitVec 8) : PitView :=
  match v.access, v.written with
  | .lsb, _ => { v with reload := val.setWidth 16 }
  | .msb, _ => { v with reload := val.setWidth 16 <<< 8 }
  | .both, none => { v with written := some val }
  | .both, some low => { v with reload := val ++ low, written := none }

/-- A read: the status, or a byte of the count that is held or else of the live count. -/
def readData (count : BitVec 16) : BitVec 8 × PitView :=
  match v.status with
  | some status => (status, { v with status := none })
  | none =>
    let now := v.held.getD count
    match v.access with
    | .lsb => (lowByte now, { v with held := none })
    | .msb => (highByte now, { v with held := none })
    | .both =>
      if v.high then (highByte (v.held.getD v.half), { v with held := none, high := false })
      else (lowByte now, { v with half := now, high := true })

/-- Between the bytes of a reload value of which the low one differs. -/
def Torn : Prop := ∃ low, v.written = some low ∧ low ≠ lowByte v.reload

end PitView

/-! ## Steps -/

/-- An access of a port, or the counting of a channel. -/
inductive PitStep
  | write (addr : BitVec 16) (val : BitVec 8)
  | read (addr : BitVec 16)
  | timerOver (t : Nat)
  | gate (t : Nat) (gate : Bool)
  | clock (t : Nat)
  | usingTimer (t : Nat) (usingTimer : Bool)
  | pass (clock : PitClock)

namespace Pit

variable (s : Pit)

def step : PitStep → Pit
  | .write addr val => s.write addr val
  | .read addr => (s.read addr).2
  | .timerOver t => s.onChannel t fun e c => c.timerOver e
  | .gate t gate => s.onChannel t fun e c => c.setGate e gate
  | .clock t => s.onChannel t fun e c => c.clock e
  | .usingTimer t usingTimer => s.onChannel t fun e c => c.setUsingTimer e usingTimer
  | .pass clock => { s with clock }

/-- The count of a channel. -/
def live (t : Nat) : BitVec 16 := (s.channel t).liveCount s.clock

/-- The status byte of a channel. -/
def status (t : Nat) : BitVec 8 :=
  ((s.channel t).ctrls &&& 0x3f) ||| if (s.channel t).out then 0x80 else 0

/-- The channels that a read-back command names. -/
def names (val : BitVec 8) (t : Nat) : Bool := t < 3 && val &&& (2#8 <<< t) ≠ 0

/-- What a program sees after a step. -/
def viewStep (v : Nat → PitView) : PitStep → Nat → PitView
  | .write addr val =>
    if addr &&& 3 = 3 then
      if val &&& 0xc0 = 0xc0 then fun t =>
        if names val t then (v t).readBack val (s.live t) (s.status t) else v t
      else
        let t := (val >>> 6).toNat
        Function.update v t (if val &&& 0x30 = 0 then (v t).latch (s.live t) else (v t).program val)
    else
      let t := (addr &&& 3).toNat
      Function.update v t ((v t).writeData val)
  | .read addr =>
    if addr &&& 3 = 3 then v
    else
      let t := (addr &&& 3).toNat
      Function.update v t ((v t).readData (s.live t)).2
  | _ => v

end Pit

/-! ## The law -/

/-- The function uses the reload value as if it were `reload`. -/
def UsesReload (f : PitChannel → PitChannel) (c : PitChannel) (reload : BitVec 16) : Prop :=
  f c = { f { c with l := reload.setWidth 32 } with l := c.l }

/-- What a step has to do: reads return what the program sees, and a reload value takes effect when
its last byte is written and not before. -/
structure PitLaw (s : Pit) (v : Nat → PitView) (a : PitStep) : Prop where
  read : ∀ addr, a = .read addr → addr &&& 3 ≠ 3 →
    (s.read addr).1 = ((v (addr &&& 3).toNat).readData (s.live (addr &&& 3).toNat)).1
  written : ∀ addr val, a = .write addr val → addr &&& 3 ≠ 3 →
    let t := (addr &&& 3).toNat
    let c := (s.step a).channel t
    if ((v t).writeData val).written = none then
      c.l = ((v t).writeData val).reload.setWidth 32
    else c = { s.channel t with l := c.l, wm := c.wm }
  timerOver : ∀ t, a = .timerOver t →
    UsesReload (PitChannel.timerOver s.clock) (s.channel t) (v t).reload
  gate : ∀ t g, a = .gate t g →
    UsesReload (PitChannel.setGate s.clock · g) (s.channel t) (v t).reload
  clock : ∀ t, a = .clock t →
    UsesReload (PitChannel.clock s.clock) (s.channel t) (v t).reload

/-! ## When it holds -/

namespace PitChannel

variable (c : PitChannel)

/-- `pit_over` starts again with the reload value. -/
def overReloads : Bool := !c.disabled && (c.m = 2 || c.m = 3 || c.m = 4 && c.newcount)

/-- A gate starts with the reload value. -/
def gateReloads (gate : Bool) : Bool :=
  !c.disabled &&
    if c.m = 0 ∨ c.m = 4 then c.usingTimer && !c.running else gate && !c.gate

/-- A clock ends the count of a channel without a timer. -/
def clockReloads : Bool :=
  !c.thit && c.enabled && !c.usingTimer && c.count = (if c.m = 3 then 2 else 1) && c.overReloads

end PitChannel

/-- A counter latch is for a channel with two-byte accesses, a count read-back for channels that
hold a count of which nothing has been read, and no channel reloads between different bytes. -/
def PitOk (s : Pit) (v : Nat → PitView) : PitStep → Prop
  | .write addr val =>
    addr &&& 3 = 3 →
      if val &&& 0xc0 = 0xc0 then
        val &&& 0x20 = 0 → ∀ t, Pit.names val t = true → (v t).held ≠ none ∧ (v t).high = false
      else val &&& 0x30 = 0 → (v (val >>> 6).toNat).access = .both
  | .timerOver t => ¬((v t).Torn ∧ (s.channel t).overReloads = true)
  | .gate t gate => ¬((v t).Torn ∧ (s.channel t).gateReloads gate = true)
  | .clock t => ¬((v t).Torn ∧ (s.channel t).clockReloads = true)
  | _ => True

/-- The timer together with what a program sees. -/
def observe (w : Pit × (Nat → PitView)) (a : PitStep) : Option (Pit × (Nat → PitView)) :=
  some (w.1.step a, w.1.viewStep w.2 a)

end PCemWeb.Devices
