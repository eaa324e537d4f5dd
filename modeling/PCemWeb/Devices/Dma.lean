import Mathlib.Logic.Function.Basic
import Mathlib.Tactic.Common

/-!
# The DMA controllers

The two 8237 controllers with their page registers, and the extended commands of the PS/2 one:
writes of the registers, the transfer of one element that a device asks for, and the transfer of a
whole block that `dma_ps2_run` makes. The copies of raw register values that only reads return are
left out, as is the time that a refresh takes.
-/

namespace PCemWeb.Devices

/-- `dma_t`. -/
structure DmaChannel where
  ab : BitVec 32
  ac : BitVec 32
  cb : BitVec 16
  cc : Int
  mode : BitVec 8
  page : BitVec 8
  size : Bool
  ps2Mode : BitVec 8
  arbLevel : BitVec 8
  ioAddr : BitVec 16

/-- The values that `byte_ptr` takes. -/
inductive BytePtr
  | zero
  | one
  | two
  deriving DecidableEq

/-- `(byte_ptr + 1) & 1`. -/
def BytePtr.toggle : BytePtr → BytePtr
  | zero => one
  | one => zero
  | two => one

/-- The state of `dma.c`, physical memory and the ports of devices. `bus` lists the bytes of memory
that were accessed for each channel. -/
structure Dma where
  dma : Nat → DmaChannel
  wp : Bool
  wp16 : Bool
  m : BitVec 8
  stat : BitVec 8
  statRq : BitVec 8
  command : BitVec 8
  command16 : BitVec 8
  xfrCommand : BitVec 8
  xfrChannel : Nat
  bytePtr : BytePtr
  isPs2 : Bool
  at_ : Bool
  mem : BitVec 32 → BitVec 8
  bus : List (Nat × BitVec 32)
  inputs : List (BitVec 16)
  outputs : List (BitVec 16 × BitVec 16)

namespace Dma

variable (s : Dma)

/-- Changes of one channel's registers. -/
def setChannel (channel : Nat) (c : DmaChannel) : Dma :=
  { s with dma := Function.update s.dma channel c }

/-- `dma_reset`. -/
def reset : Dma :=
  { s with
    wp := false, wp16 := false, m := 0
    dma := fun c => { s.dma c with
      mode := 0, ac := 0, cc := 0, ab := 0, cb := 0, size := c &&& 4 ≠ 0 } }

/-! ## Registers -/

/-- A mask bit set or cleared. -/
def setMask (channel : Nat) (on : Bool) : Dma :=
  { s with m := if on then s.m ||| 1#8 <<< channel else s.m &&& ~~~(1#8 <<< channel) }

def masked (channel : Nat) : Bool := s.m &&& 1#8 <<< channel ≠ 0

/-- The base and current address. -/
def setAddress (channel : Nat) (ab : BitVec 32) : Dma :=
  s.setChannel channel { s.dma channel with ab, ac := ab }

/-- One byte of the base count, and the current count. -/
def setCount (channel : Nat) (low : Bool) (val : BitVec 8) : Dma :=
  let c := s.dma channel
  let cb := if low then (c.cb &&& 0xff00#16) ||| val.setWidth 16
    else (c.cb &&& 0x00ff#16) ||| val.setWidth 16 <<< 8
  s.setChannel channel { c with cb, cc := cb.toNat }

/-- The mode register, which sets bits of the PS/2 mode as well. -/
def setMode (channel : Nat) (val : BitVec 8) : Dma :=
  let c := { s.dma channel with mode := val }
  if s.isPs2 then
    let ps2Mode := c.ps2Mode &&& ~~~0x1c
    let ps2Mode := if val &&& 0x20 ≠ 0 then ps2Mode ||| 0x10 else ps2Mode
    let ps2Mode :=
      if val &&& 0xc = 8 then ps2Mode ||| 4
      else if val &&& 0xc = 4 then ps2Mode ||| 0xc
      else ps2Mode
    s.setChannel channel { c with ps2Mode }
  else s.setChannel channel c

/-- `dma_write`. -/
def dmaWrite (addr : BitVec 16) (val : BitVec 8) : Dma :=
  let channel := (addr >>> 1 &&& 3).toNat
  let register := (addr &&& 0xf).toNat
  if register < 8 then
    let s := { s with wp := !s.wp }
    if register % 2 = 0 then
      let ab := (s.dma channel).ab
      s.setAddress channel
        (if s.wp then (ab &&& 0xffff00#32) ||| val.setWidth 32
        else (ab &&& 0xff00ff#32) ||| val.setWidth 32 <<< 8)
    else s.setCount channel s.wp val
  else
    match register with
    | 0x8 => { s with command := val }
    | 0xa => s.setMask (val &&& 3).toNat (val &&& 4 ≠ 0)
    | 0xb => s.setMode (val &&& 3).toNat val
    | 0xc => { s with wp := false }
    | 0xd => { s with wp := false, m := s.m ||| 0xf }
    | 0xf => { s with m := (s.m &&& 0xf0#8) ||| (val &&& 0xf#8) }
    | _ => s

/-- `dma16_write`; its control register is not stored. -/
def dma16Write (addr : BitVec 16) (val : BitVec 8) : Dma :=
  let channel := (addr >>> 2 &&& 3).toNat + 4
  let register := (addr >>> 1 &&& 0xf).toNat
  if register < 8 then
    let s := { s with wp16 := !s.wp16 }
    if register % 2 = 0 then
      let ab := (s.dma channel).ab
      s.setAddress channel
        (if s.isPs2 then
          if s.wp16 then (ab &&& 0xffff00#32) ||| val.setWidth 32
          else (ab &&& 0xff00ff#32) ||| val.setWidth 32 <<< 8
        else if s.wp16 then (ab &&& 0xfffe00#32) ||| val.setWidth 32 <<< 1
        else (ab &&& 0xfe01ff#32) ||| val.setWidth 32 <<< 9)
    else s.setCount channel s.wp16 val
  else
    match register with
    | 0xa => s.setMask ((val &&& 3).toNat + 4) (val &&& 4 ≠ 0)
    | 0xb => s.setMode ((val &&& 3).toNat + 4) val
    | 0xc => { s with wp16 := false }
    | 0xd => { s with wp16 := false, m := s.m ||| 0xf0 }
    | 0xf => { s with m := (s.m &&& 0x0f#8) ||| (val &&& 0xf#8) <<< 4 }
    | _ => s

/-- The page of a channel in its base and current address. -/
def setPage (channel : Nat) (page : BitVec 8) (keep : BitVec 32) : Dma :=
  let c := s.dma channel
  s.setChannel channel { c with
    page, ab := (c.ab &&& keep) ||| page.setWidth 32 <<< 16
    ac := (c.ac &&& keep) ||| page.setWidth 32 <<< 16 }

/-- `dma_page_write`. -/
def dmaPageWrite (addr : BitVec 16) (val : BitVec 8) : Dma :=
  let page := if s.at_ then val else val &&& 0xf
  match (addr &&& 0xf).toNat with
  | 0x1 => s.setPage 2 page 0xffff
  | 0x2 => s.setPage 3 page 0xffff
  | 0x3 => s.setPage 1 page 0xffff
  | 0x7 => s.setPage 0 page 0xffff
  | 0x9 => s.setPage 6 (val &&& 0xfe) 0x1ffff
  | 0xa => s.setPage 7 (val &&& 0xfe) 0x1ffff
  | 0xb => s.setPage 5 (val &&& 0xfe) 0x1ffff
  | _ => s

/-! ## Elements -/

/-- Bytes of memory are accessed for a channel. -/
def touch (channel : Nat) (addrs : List (BitVec 32)) : Dma :=
  { s with bus := s.bus ++ addrs.map (channel, ·) }

/-- The bytes of the element at the current address. -/
def elementAddrs (channel : Nat) : List (BitVec 32) :=
  let c := s.dma channel
  if c.size then [c.ac, c.ac + 1#32] else [c.ac]

/-- `_dma_read` of each byte of an element. -/
def readElement (channel : Nat) : BitVec 16 × Dma :=
  let c := s.dma channel
  (if c.size then s.mem (c.ac + 1#32) ++ s.mem c.ac else (s.mem c.ac).setWidth 16,
    s.touch channel (s.elementAddrs channel))

/-- `_dma_write` of each byte of an element. -/
def writeElement (channel : Nat) (val : BitVec 16) : Dma :=
  let c := s.dma channel
  let mem := Function.update s.mem c.ac (val.setWidth 8)
  let mem := if c.size then Function.update mem (c.ac + 1#32) ((val >>> 8).setWidth 8) else mem
  { s with mem }.touch channel (s.elementAddrs channel)

/-! ## One element for a device -/

/-- The next current address. -/
def nextAc (c : DmaChannel) : BitVec 32 :=
  if !c.size then
    if c.mode &&& 0x20 ≠ 0 then
      if s.isPs2 then c.ac - 1#32 else (c.ac &&& 0xff0000#32) ||| ((c.ac - 1#32) &&& 0xffff#32)
    else if s.isPs2 then c.ac + 1#32
    else (c.ac &&& 0xff0000#32) ||| ((c.ac + 1#32) &&& 0xffff#32)
  else if c.mode &&& 0x20 ≠ 0 then
    if s.isPs2 then c.ac - 2#32 else (c.ac &&& 0xfe0000#32) ||| ((c.ac - 2#32) &&& 0x1ffff#32)
  else if s.isPs2 then c.ac + 2#32
  else (c.ac &&& 0xfe0000#32) ||| ((c.ac + 2#32) &&& 0x1ffff#32)

/-- The controller is off, the channel is masked, or its mode is for the other direction. -/
def refuses (channel : Nat) (direction : BitVec 8) : Bool :=
  (if channel < 4 then s.command &&& 4 ≠ 0 else s.command16 &&& 4 ≠ 0) || s.masked channel ||
    (s.dma channel).mode &&& 0xc ≠ direction

/-- What follows the transfer of an element: the address, the count and terminal count, which is
returned. -/
def advance (channel : Nat) : Bool × Dma :=
  let c := s.dma channel
  let c := { c with ac := s.nextAc c, cc := c.cc - 1 }
  let s := { s with statRq := s.statRq ||| 1#8 <<< channel }
  if c.cc < 0 then
    let s :=
      if c.mode &&& 0x10 ≠ 0 then s.setChannel channel { c with cc := c.cb.toNat, ac := c.ab }
      else (s.setChannel channel c).setMask channel true
    (true, { s with stat := s.stat ||| 1#8 <<< channel })
  else (false, s.setChannel channel c)

/-- `dma_channel_read`: no data, or the element with terminal count. -/
def dmaChannelRead (channel : Nat) : Option (BitVec 16 × Bool) × Dma :=
  if s.refuses channel 8 then (none, s)
  else
    let (temp, s) := s.readElement channel
    let (tc, s) := s.advance channel
    (some (temp, tc), s)

/-- `dma_channel_write`: no data, or whether the channel is masked afterwards. -/
def dmaChannelWrite (channel : Nat) (val : BitVec 16) : Option Bool × Dma :=
  if s.refuses channel 4 then (none, s)
  else
    let (_, s) := (s.writeElement channel val).advance channel
    (some (s.masked channel), s)

/-! ## A block of the PS/2 controller -/

/-- The transfer to or from the port of one element; a verify run transfers nothing. -/
def ps2Element (channel : Nat) : Dma :=
  let c := s.dma channel
  if c.ps2Mode &&& 0xc = 4 then
    let (temp, s) := s.readElement channel
    { s with outputs := s.outputs ++ [(c.ioAddr, temp)] }
  else if c.ps2Mode &&& 0xc = 0xc then
    { s with inputs := s.inputs.tail }.writeElement channel (s.inputs.headD 0xffff)
  else s

def ps2Ac (c : DmaChannel) : BitVec 32 :=
  if !c.size then if c.ps2Mode &&& 0x10 ≠ 0 then c.ac - 1#32 else c.ac + 1#32
  else if c.ps2Mode &&& 0x10 ≠ 0 then c.ac - 2#32
  else c.ac + 2#32

/-- The channel whose count the loop uses: a verify run writes `dma->cc`, the count of channel 0. -/
def countedBy (channel : Nat) : Nat :=
  let mode := (s.dma channel).ps2Mode &&& 0xc
  if mode = 4 ∨ mode = 0xc then channel else 0

/-- The body of the loops of `dma_ps2_run`. -/
def ps2Body (channel : Nat) : Dma :=
  let counted := s.countedBy channel
  let s := s.ps2Element channel
  let s := s.setChannel channel { s.dma channel with ac := ps2Ac (s.dma channel) }
  let s := { s with statRq := s.statRq ||| 1#8 <<< channel }
  s.setChannel counted { s.dma counted with cc := (s.dma counted).cc - 1 }

/-- The loops, which end when no count is left. -/
def ps2Loop (channel : Nat) : Nat → Dma → Dma
  | 0, s => s
  | fuel + 1, s =>
    let t := s.ps2Body channel
    if 0 < (t.dma (s.countedBy channel)).cc then ps2Loop channel fuel t else t

/-- `dma_ps2_run`; each pass counts one down. -/
def dmaPs2Run (channel : Nat) : Dma :=
  let s := ps2Loop channel ((s.dma (s.countedBy channel)).cc.toNat + 1) s
  { s with stat := s.stat ||| 1#8 <<< channel }

/-- The bits of the mode register that the PS/2 mode determines. -/
def ps2ModeBits (val : BitVec 8) : BitVec 8 :=
  (if val &&& 0x10 ≠ 0 then 0x20 else 0) |||
    (if val &&& 0xc = 4 then 8 else if val &&& 0xc = 0xc then 4 else 0)

/-- A write of `dma_ps2_write` to port `0x1a`; `none` is `fatal`. -/
def ps2Data (val : BitVec 8) : Option Dma :=
  let c := s.dma s.xfrChannel
  match s.xfrCommand.toNat with
  | 0 =>
    let ioAddr :=
      if s.bytePtr ≠ .zero then (c.ioAddr &&& 0x00ff#16) ||| val.setWidth 16 <<< 8
      else (c.ioAddr &&& 0xff00#16) ||| val.setWidth 16
    some { s.setChannel s.xfrChannel { c with ioAddr } with bytePtr := s.bytePtr.toggle }
  | 2 =>
    let ac : BitVec 32 := match s.bytePtr with
      | .zero => (c.ac &&& 0xffff00#32) ||| val.setWidth 32
      | .one => (c.ac &&& 0xff00ff#32) ||| val.setWidth 32 <<< 8
      | .two => (c.ac &&& 0x00ffff#32) ||| val.setWidth 32 <<< 16
    let bytePtr : BytePtr := match s.bytePtr with
      | .zero => .one
      | .one => .two
      | .two => .zero
    some { s.setAddress s.xfrChannel ac with bytePtr }
  | 4 =>
    let cc := BitVec.ofInt 32 c.cc
    let cc :=
      if s.bytePtr ≠ .zero then (cc &&& 0xff#32) ||| val.setWidth 32 <<< 8
      else (cc &&& 0xff00#32) ||| val.setWidth 32
    some { s.setChannel s.xfrChannel { c with cc := cc.toNat, cb := cc.setWidth 16 } with
      bytePtr := s.bytePtr.toggle }
  | 7 =>
    some (s.setChannel s.xfrChannel { c with
      mode := (c.mode &&& ~~~0x2c) ||| ps2ModeBits val, ps2Mode := val, size := val &&& 0x40 ≠ 0 })
  | 8 => some (s.setChannel s.xfrChannel { c with arbLevel := val })
  | _ => none

/-- A write of `dma_ps2_write` to port `0x18`. -/
def ps2Command (val : BitVec 8) : Dma :=
  let s := { s with
    xfrChannel := (val &&& 7).toNat, xfrCommand := val >>> 4, bytePtr := .zero }
  match s.xfrCommand.toNat with
  | 9 => s.setMask s.xfrChannel true
  | 0xa => s.setMask s.xfrChannel false
  | 0xb => if !s.masked s.xfrChannel then s.dmaPs2Run s.xfrChannel else s
  | _ => s

end Dma

end PCemWeb.Devices
