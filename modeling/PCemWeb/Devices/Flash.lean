import PCemWeb.Lib.Segments

/-!
# Intel flash parts

`flash/intel_flash.c`: the block tables of the parts, the command machine behind the byte
handlers, the word and long readers, and the file that keeps the blocks between sessions.
-/

namespace PCemWeb

open Lib

/-! ## Parts and their blocks -/

/-- The bits `FLASH_INVERT`, `FLASH_IS_BXB` and `FLASH_2MBIT` of `type`. -/
structure FlashType : Type where
  invert : Bool
  isBxb : Bool
  twoMbit : Bool
  deriving DecidableEq, Repr

/-- `BLOCK_MAIN`, `BLOCK_DATA1`, `BLOCK_DATA2`, `BLOCK_BOOT` and `BLOCK_MAIN2`. -/
inductive FlashBlock : Type
  | main
  | data1
  | data2
  | boot
  | main2
  deriving DecidableEq, Repr

namespace FlashType

/-- `addr_mask`. -/
def addrMask (t : FlashType) : Nat := if t.twoMbit then 0x3ffff else 0x1ffff

/-- `block_len`, as `intel_flash_init` fills it over the zeros of `memset`. -/
def blockLen (t : FlashType) : FlashBlock → Nat
  | .main => if t.twoMbit then 0x20000 else 0x1c000
  | .main2 => if t.twoMbit then 0x18000 else 0
  | .data1 => if t.twoMbit then 0x02000 else 0x01000
  | .data2 => if t.twoMbit then 0x02000 else 0x01000
  | .boot => if t.twoMbit then 0x04000 else 0x02000

/-- `block_start`. -/
def blockStart (t : FlashType) (b : FlashBlock) : Nat :=
  if t.twoMbit then
    if t.isBxb then
      match b with
      | .main => 0x20000
      | .main2 => 0x08000
      | .data1 => 0x04000
      | .data2 => 0x06000
      | .boot => 0x00000
    else
      match b with
      | .main => 0x00000
      | .main2 => 0x20000
      | .data1 => 0x38000
      | .data2 => 0x3a000
      | .boot => 0x3c000
  else if t.isBxb then
    match b with
    | .main => 0x04000
    | .data1 => 0x03000
    | .data2 => 0x04000
    | .boot => 0x00000
    | .main2 => 0
  else
    match b with
    | .main => 0x00000
    | .data1 => 0x1c000
    | .data2 => 0x1d000
    | .boot => 0x1e000
    | .main2 => 0

/-- `block_end`. -/
def blockEnd (t : FlashType) (b : FlashBlock) : Nat :=
  if t.twoMbit then
    if t.isBxb then
      match b with
      | .main => 0x3ffff
      | .main2 => 0x1ffff
      | .data1 => 0x05fff
      | .data2 => 0x07fff
      | .boot => 0x03fff
    else
      match b with
      | .main => 0x1ffff
      | .main2 => 0x37fff
      | .data1 => 0x39fff
      | .data2 => 0x3bfff
      | .boot => 0x3ffff
  else if t.isBxb then
    match b with
    | .main => 0x1ffff
    | .data1 => 0x03fff
    | .data2 => 0x04fff
    | .boot => 0x01fff
    | .main2 => 0
  else
    match b with
    | .main => 0x1bfff
    | .data1 => 0x1cfff
    | .data2 => 0x1dfff
    | .boot => 0x1ffff
    | .main2 => 0

end FlashType

def CMD_READ_ARRAY : BitVec 8 := 0xff
def CMD_IID : BitVec 8 := 0x90
def CMD_READ_STATUS : BitVec 8 := 0x70
def CMD_CLEAR_STATUS : BitVec 8 := 0x50
def CMD_ERASE_SETUP : BitVec 8 := 0x20
def CMD_ERASE_CONFIRM : BitVec 8 := 0xd0
def CMD_PROGRAM_SETUP : BitVec 8 := 0x40

/-- `flash_t`, without the mappings; `invert_high_pin`, `addr_mask` and the block tables follow
from `type`. -/
structure Flash : Type where
  command : BitVec 8
  status : BitVec 8
  flashId : BitVec 8
  type : FlashType
  array : Nat → BitVec 8

namespace Flash

variable (s : Flash)

/-! ## Reads -/

/-- The array index of the byte handlers: inverted, then masked. -/
def byteIndex (addr : Nat) : Nat :=
  (if s.type.invert then addr ^^^ 0x10000 else addr) &&& s.type.addrMask

/-- The array index of the word and long readers: masked, then inverted. -/
def wideIndex (addr : Nat) : Nat :=
  if s.type.invert then (addr &&& s.type.addrMask) ^^^ 0x10000 else addr &&& s.type.addrMask

/-- `flash_read`. -/
def read (addr : Nat) : BitVec 8 :=
  let addr := s.byteIndex addr
  if s.command = CMD_IID then
    if addr &&& 1 ≠ 0 then s.flashId else 0x89
  else if s.command = CMD_READ_STATUS then s.status
  else s.array addr

/-- `flash_readw`, a little-endian load from the array. -/
def readw (addr : Nat) : BitVec 16 :=
  let addr := s.wideIndex addr
  if s.command = CMD_IID then 0x89 ||| s.flashId.setWidth 16 <<< 8
  else if s.command = CMD_READ_STATUS then s.status.setWidth 16
  else s.array (addr + 1) ++ s.array addr

/-- `flash_readl`, which does not look at the command. -/
def readl (addr : Nat) : BitVec 32 :=
  let addr := s.wideIndex addr
  s.array (addr + 3) ++ s.array (addr + 2) ++ s.array (addr + 1) ++ s.array addr

/-! ## Writes -/

/-- `memset(&flash->array[start], 0xff, len)`. -/
def memset (array : Nat → BitVec 8) (start len : Nat) : Nat → BitVec 8 :=
  overlay array start (List.replicate len 0xff)

/-- The loop of a confirmed erase over the first three blocks of the table. -/
def erase (t : FlashType) (addr : Nat) (array : Nat → BitVec 8) : Nat → BitVec 8 :=
  [FlashBlock.main, .data1, .data2].foldl (fun array b =>
    if t.blockStart b ≤ addr ∧ addr ≤ t.blockEnd b then
      memset array (t.blockStart b) (t.blockLen b)
    else array) array

/-- `flash_write`. -/
def write (addr : Nat) (val : BitVec 8) : Flash :=
  let addr := s.byteIndex addr
  if s.command = CMD_ERASE_SETUP then
    let s :=
      if val = CMD_ERASE_CONFIRM then
        { s with array := erase s.type addr s.array, status := 0x80 }
      else s
    { s with command := CMD_READ_STATUS }
  else if s.command = CMD_PROGRAM_SETUP then
    let s :=
      if addr &&& 0x3e000 ≠ s.type.blockStart .boot &&& 0x3e000 then
        { s with array := fun i => if i = addr then val else s.array i }
      else s
    { s with command := CMD_READ_STATUS, status := 0x80 }
  else
    let s := { s with command := val }
    if val = CMD_CLEAR_STATUS then { s with status := 0 } else s

/-! ## Sessions -/

/-- The blocks in the order in which the file keeps them. -/
def savedBlocks (t : FlashType) : List (Nat × Nat) :=
  (if t.twoMbit then [FlashBlock.main, .main2, .data1, .data2]
    else [FlashBlock.main, .data1, .data2]).map fun b => (t.blockStart b, t.blockLen b)

/-- The array as it is copied from the ROM image. -/
def romArray (t : FlashType) (rom : Nat → BitVec 8) : Nat → BitVec 8 :=
  let zeros : Nat → BitVec 8 := fun _ => 0
  if t.invert then
    let array := overlay (overlay zeros 0 (slice rom 65536 65536)) 65536 (slice rom 0 65536)
    if t.twoMbit then
      overlay (overlay array 0x20000 (slice rom 0x30000 65536)) 0x30000 (slice rom 0x20000 65536)
    else array
  else
    let array := overlay zeros 0 (slice rom 0 131072)
    if t.twoMbit then overlay array 0x20000 (slice rom 0x20000 131072) else array

/-- `intel_flash_init`, with the contents of `flash.bin` where the file exists. -/
def init (t : FlashType) (flashId : BitVec 8) (rom : Nat → BitVec 8)
    (file : Option (List (BitVec 8))) : Flash :=
  { command := CMD_READ_ARRAY
    status := 0
    flashId := flashId
    type := t
    array :=
      match file with
      | none => romArray t rom
      | some bytes => scatter (romArray t rom) (savedBlocks t) bytes }

/-- `intel_flash_close`: what it writes to `flash.bin`. -/
def close : List (BitVec 8) := gather s.array (savedBlocks s.type)

end Flash

/-- An access of the guest; word and long writes go to `mem_write_nullw` and `mem_write_nulll`. -/
inductive FlashOp : Type
  | readb (addr : Nat)
  | readw (addr : Nat)
  | readl (addr : Nat)
  | writeb (addr : Nat) (val : BitVec 8)
  | writew (addr : Nat) (val : BitVec 16)
  | writel (addr : Nat) (val : BitVec 32)
  deriving DecidableEq

/-- The part after an access. -/
def Flash.step (s : Flash) : FlashOp → Flash
  | .writeb addr val => s.write addr val
  | .readb _ | .readw _ | .readl _ | .writew _ _ | .writel _ _ => s

/-- The part after a sequence of accesses. -/
def Flash.after (s : Flash) (ops : List FlashOp) : Flash := ops.foldl Flash.step s

end PCemWeb
