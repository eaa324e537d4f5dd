import Mathlib.Logic.Function.Basic
import Mathlib.Tactic.Common

/-!
# The interval timer

One `PIT`: its three channels with their reload registers, latches and byte pointers, and the timer
that counts for a channel. What `set_out_funcs` do is not part of it; a gate, a clock or a timer
that they change is a step of its own.
-/

namespace PCemWeb.Devices

/-- The time stamp counter, and `PITCONST`: the time of one count in 32:32 format. -/
structure PitClock where
  tsc : BitVec 64
  pitConst : BitVec 64

/-- One channel of `PIT`; its `pc_timer_t` is the expiry time `ts`, where it is enabled. -/
structure PitChannel where
  l : BitVec 32
  timerEnabled : Bool
  ts : BitVec 64
  m : BitVec 8
  ctrls : BitVec 8
  rm : BitVec 8
  wm : BitVec 8
  rl : BitVec 16
  thit : Bool
  rereadlatch : Bool
  gate : Bool
  out : Bool
  running : Bool
  enabled : Bool
  newcount : Bool
  count : Int
  usingTimer : Bool
  initial : Bool
  latched : Bool
  disabled : Bool
  readStatus : BitVec 8
  doReadStatus : Bool

namespace PitChannel

variable (e : PitClock) (c : PitChannel)

/-! ## Counting -/

/-- `timer_get_remaining_u64`. -/
def remaining : BitVec 64 :=
  let remaining := c.ts - e.tsc <<< 32
  if remaining.slt 0 then 0 else remaining

/-- `timer_set_delay_u64`. -/
def setDelay (delay : BitVec 64) : PitChannel :=
  { c with timerEnabled := true, ts := delay + e.tsc <<< 32 }

/-- `timer_advance_u64`. -/
def advance (delay : BitVec 64) : PitChannel := { c with timerEnabled := true, ts := c.ts + delay }

/-- The time of `n` counts. -/
def counts (n : Int) : BitVec 64 := BitVec.ofInt 64 n * e.pitConst

/-- `pit_read_timer`. -/
def readTimer : Int :=
  if c.usingTimer && !(c.m = 3 && !c.gate) && c.timerEnabled then
    let read := ((c.remaining e / e.pitConst).setWidth 32).toInt
    let read := if c.m = 2 then read + 1 else read
    let read := if read < 0 then 0 else read
    let read := if read > 0x10000 then 0x10000 else read
    if c.m = 3 then read * 2 else read
  else if c.m = 2 then c.count + 1
  else c.count

/-- `pit_dump_and_disable_timer`. -/
def dumpAndDisableTimer : PitChannel :=
  if c.usingTimer && c.timerEnabled then { c with count := c.readTimer e, timerEnabled := false }
  else c

/-- The end of `pit_load`, `pit_set_gate_no_timer` and `pit_over`. -/
def settle : PitChannel :=
  let c := { c with running := c.enabled && c.usingTimer && !c.disabled }
  if c.usingTimer && !c.running then c.dumpAndDisableTimer e else c

/-- The reload value; 0 counts as 65536. -/
def reloadCount : Int := if c.l ≠ 0 then c.l.toNat else 0x10000

/-- The count and the timer of a channel start with a number of counts. -/
def start (count delay : Int) (out : Bool) : PitChannel :=
  let c := { c with count }
  let c := if c.usingTimer then c.setDelay e (counts e delay) else c
  { c with out, thit := false }

/-- The count and the timer go on by a number of counts. -/
def goOn (count : Int) : PitChannel :=
  let c := { c with count := c.count + count }
  if c.usingTimer then c.advance (counts e count) else c

/-- `pit_load`. -/
def load : PitChannel :=
  let l := c.reloadCount
  let c := { c with newcount := false, disabled := false }
  let c := match c.m.toNat with
    | 0 =>
      let c := c.start e l l false
      { c with enabled := c.gate }
    | 1 => { c with enabled := true }
    | 2 =>
      let c := if c.initial then c.start e (l - 1) (l - 1) true else c
      { c with enabled := c.gate }
    | 3 =>
      let c := if c.initial then c.start e l ((l + 1) / 2) true else c
      { c with enabled := c.gate }
    | 4 =>
      let c := if !c.thit && !c.initial then { c with newcount := true } else c.start e l l false
      { c with enabled := c.gate }
    | 5 => { c with enabled := true }
    | _ => c
  { c with initial := false }.settle e

/-- The modes of `pit_set_gate_no_timer`. -/
def gateMode (gate : Bool) : PitChannel :=
  let l := c.reloadCount
  let rises := gate && !c.gate
  match c.m.toNat with
  | 0 | 4 =>
    let c := if c.usingTimer && !c.running then c.setDelay e (counts e l) else c
    { c with enabled := gate }
  | 1 | 5 => if rises then { c.start e l l false with enabled := true } else c
  | 2 =>
    let c := if rises then c.start e (l - 1) l true else c
    { c with enabled := gate }
  | 3 =>
    let c := if rises then c.start e l ((l + 1) / 2) true else c
    { c with enabled := gate }
  | _ => c

/-- `pit_set_gate`, which is `pit_set_gate_no_timer` after the same test. -/
def setGate (gate : Bool) : PitChannel :=
  if c.disabled then { c with gate } else { c.gateMode e gate with gate }.settle e

/-- The modes of `pit_over`. -/
def overMode : PitChannel :=
  let l := c.reloadCount
  match c.m.toNat with
  | 0 | 1 =>
    let c := if !c.thit then { c with out := true } else c
    { c with thit := true }.goOn e 0xffff
  | 2 => { c.goOn e l with out := true }
  | 3 =>
    if c.out then { c with out := false }.goOn e (l / 2)
    else { c with out := true }.goOn e ((l + 1) / 2)
  | 4 =>
    let c := if !c.thit then { c with out := true } else c
    if c.newcount then { c with newcount := false }.goOn e l
    else { c with thit := true }.goOn e 0xffff
  | 5 =>
    let c := if !c.thit then { c with out := true } else c
    { c with thit := true }.goOn e 0xffff
  | _ => c

/-- `pit_over`. -/
def over_ : PitChannel := if c.disabled then c.goOn e 0xffff else (c.overMode e).settle e

/-- The callback `pit_timer_over`: the timer has been disabled when it is called. -/
def timerOver : PitChannel := { c with timerEnabled := false }.over_ e

/-- `pit_clock`. -/
def clock : PitChannel :=
  if c.thit || !c.enabled then c
  else if c.usingTimer then c
  else
    let c := { c with count := c.count - if c.m = 3 then 2 else 1 }
    if c.count = 0 then c.over_ e else c

/-- `pit_set_using_timer`, after the callbacks of the timers that are due. -/
def setUsingTimer (usingTimer : Bool) : PitChannel :=
  let c := if c.usingTimer && !usingTimer then { c with count := c.readTimer e } else c
  let c := { c with running := c.enabled && usingTimer && !c.disabled }
  let c :=
    if !c.usingTimer && usingTimer && c.running then c.setDelay e (counts e c.count)
    else if !c.running then { c with timerEnabled := false }
    else c
  { c with usingTimer }

/-! ## Commands -/

/-- The count as `rl` holds it. -/
def liveCount : BitVec 16 := BitVec.ofInt 16 (c.readTimer e)

/-- The two parts of the read-back command for one channel. -/
def readBack (val : BitVec 8) : PitChannel :=
  let c := if val &&& 0x20 = 0 then { c with rl := c.liveCount e } else c
  if val &&& 0x10 = 0 then
    { c with
      readStatus := (c.ctrls &&& 0x3f) ||| (if c.out then 0x80 else 0), doReadStatus := true }
  else c

/-- The counter-latch command. -/
def latch : PitChannel :=
  { c with rl := c.liveCount e, rereadlatch := false, rm := 3, latched := true, thit := false }

/-- A control word. -/
def program (val : BitVec 8) : PitChannel :=
  let access := (val >>> 4) &&& 3
  let m := (val >>> 1) &&& 7
  let m := if m > 5 then m &&& 3 else m
  let c := { c with ctrls := val, rm := access, wm := access, m }
  let c := if c.rm = 0 then { c with rm := 3, rl := c.liveCount e } else c
  { c with
    rereadlatch := true, initial := true, out := c.m ≠ 0, disabled := true, thit := false }

/-- A write of the channel's data port. -/
def writeData (val : BitVec 8) : PitChannel :=
  match c.wm.toNat with
  | 1 => { c with l := val.setWidth 32 }.load e
  | 2 => { c with l := val.setWidth 32 <<< 8 }.load e
  | 0 => { ({ c with l := (c.l &&& 0xff#32) ||| val.setWidth 32 <<< 8 } : PitChannel).load e with
      wm := 3 }
  | 3 => { c with l := (c.l &&& 0xff00#32) ||| val.setWidth 32, wm := 0 }
  | _ => c

/-- The live count goes to `rl` where no count is latched. -/
def relatch : PitChannel :=
  if c.rereadlatch && !c.latched then { c with rereadlatch := false, rl := c.liveCount e } else c

/-- The byte that `rm` names. -/
def readByte : BitVec 8 × PitChannel :=
  match c.rm.toNat with
  | 0 => ((c.rl >>> 8).setWidth 8, { c with rm := 3, latched := false, rereadlatch := true })
  | 1 => (c.rl.setWidth 8, { c with latched := false, rereadlatch := true })
  | 2 => ((c.rl >>> 8).setWidth 8, { c with latched := false, rereadlatch := true })
  | 3 =>
    (c.rl.setWidth 8, if c.m &&& 0x80 ≠ 0 then { c with m := c.m &&& 7 } else { c with rm := 0 })
  | _ => (0xff, c)

/-- A read of the channel's data port. -/
def readData : BitVec 8 × PitChannel :=
  if c.doReadStatus then (c.readStatus, { c with doReadStatus := false })
  else (c.relatch e).readByte

end PitChannel

/-- `PIT`, the clock and the last control word. -/
structure Pit where
  channel : Nat → PitChannel
  ctrl : BitVec 8
  clock : PitClock

namespace Pit

variable (s : Pit)

/-- One channel changes. -/
def onChannel (t : Nat) (f : PitClock → PitChannel → PitChannel) : Pit :=
  { s with channel := Function.update s.channel t (f s.clock (s.channel t)) }

/-- A write of the control port: the read-back command for the channels of its bits, or a command
for the channel that it names. -/
def writeControl (val : BitVec 8) : Pit :=
  if val &&& 0xc0 = 0xc0 then
    let names (t : Nat) := t < 3 && val &&& (2#8 <<< t) ≠ 0
    { s with channel := fun t =>
        if names t then (s.channel t).readBack s.clock val else s.channel t }
  else
    let t := (val >>> 6).toNat
    if val &&& 0x30 = 0 then { s with ctrl := val ||| 0x30 }.onChannel t fun e c => c.latch e
    else { s with ctrl := val }.onChannel t fun e c => c.program e val

/-- `pit_write`. -/
def write (addr : BitVec 16) (val : BitVec 8) : Pit :=
  if addr &&& 3 = 3 then s.writeControl val
  else s.onChannel (addr &&& 3).toNat fun e c => c.writeData e val

/-- `pit_read`. -/
def read (addr : BitVec 16) : BitVec 8 × Pit :=
  if addr &&& 3 = 3 then (s.ctrl, s)
  else
    let t := (addr &&& 3).toNat
    ((s.channel t).readData s.clock |>.1, s.onChannel t fun e c => (c.readData e).2)

/-- `pit_reset`. -/
def reset (clock : PitClock) : Pit where
  channel := fun t =>
    { l := 0xffff, timerEnabled := false, ts := 0, m := 0, ctrls := 0, rm := 0, wm := 0, rl := 0
      thit := t = 0, rereadlatch := false, gate := t ≠ 2, out := false, running := false
      enabled := false, newcount := false, count := 0, usingTimer := true, initial := false
      latched := false, disabled := false, readStatus := 0, doReadStatus := false }
  ctrl := 0
  clock

/-- `pit2` after `pit_ps2_init`. -/
def ps2Init (clock : PitClock) : Pit :=
  (reset clock).onChannel 0 fun _ c => { c with gate := false, usingTimer := false, disabled := true
    }

end Pit

end PCemWeb.Devices
