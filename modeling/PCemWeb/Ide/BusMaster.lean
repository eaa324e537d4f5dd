import PCemWeb.Lib.Bytes

/-!
# IDE bus mastering

`ide/ide_sff8038i.c` with `mem_invalidate_range` of `mem.c`: two channels whose descriptor tables
  lie
in guest memory, the guest's registers, and the transfers that the drives request. An access outside
`ram` or `pages`, and a call of `fatal`, end the model with a fault. `copied` lists the pairs of
address and buffer position that the copies of a call have moved.
-/

namespace PCemWeb

open Lib

/-- What ends the emulator. -/
inductive DmaFault : Type
  | fatal
  | ram
  | pages
  | spin
  deriving DecidableEq

/-- `mem_size`, in KB: `(mem_size + 384) * 1024` is an `int`. -/
structure MemSize : Type where
  kb : Nat
  bound : kb + 384 < 2097152

namespace MemSize

/-- Bytes of `ram`. -/
def bytes (mem : MemSize) : Nat := mem.kb * 1024

/-- Entries of `pages`. -/
def pages (mem : MemSize) : Nat := (mem.kb + 384) * 1024 / 4096

end MemSize

/-- `sff_busmaster_t`. -/
structure SffBusmaster : Type where
  command : BitVec 8
  status : BitVec 8
  ptr : BitVec 32
  ptrCur : Nat
  count : Nat
  addr : Nat
  eot : Bool
  deriving DecidableEq

/-- The guest's memory, the buffer of the caller and what the copies have moved. -/
structure DmaStore : Type where
  ram : Nat → BitVec 8
  buf : Nat → BitVec 8
  copied : List (Nat × Nat)

/-- `dirty_mask` and `code_present_mask` by 64-byte granule, and the pages of the evict list. -/
structure DmaMarks : Type where
  dirty : Nat → Bool
  codePresent : Nat → Bool
  evicted : List Nat

/-! ## Descriptors -/

/-- `*(uint32_t *)&ram[a]`. -/
def ramDword (ram : Nat → BitVec 8) (a : Nat) : BitVec 32 :=
  ram (a + 3) ++ ram (a + 2) ++ ram (a + 1) ++ ram a

namespace SffBusmaster

variable (b : SffBusmaster)

/-- `status & 1`. -/
def Active : Prop := b.status &&& 1 ≠ 0

instance : Decidable b.Active := inferInstanceAs (Decidable (_ ≠ _))

/-- The registers that a descriptor fills. -/
def load (ram : Nat → BitVec 8) : SffBusmaster :=
  let count := (ramDword ram (b.ptrCur + 4) &&& 0xfffe).toNat
  { b with
    addr := (ramDword ram b.ptrCur &&& ~~~1).toNat
    count := if count = 0 then 0x10000 else count
    eot := ramDword ram (b.ptrCur + 4) >>> 31 ≠ 0
    ptrCur := (b.ptrCur + 8) % 4294967296 }

/-- `sff_bus_master_next_addr`. -/
def nextAddr (mem : MemSize) (ram : Nat → BitVec 8) : Except DmaFault SffBusmaster :=
  if mem.bytes < b.ptrCur + 8 then .error .ram else .ok (b.load ram)

/-- `sff_bus_master_write`, the register of one channel. -/
def write (mem : MemSize) (ram : Nat → BitVec 8) (reg : Nat) (val : BitVec 8) :
    Except DmaFault SffBusmaster :=
  if reg = 0 then do
    let b ←
      if val &&& 1 ≠ 0 ∧ b.command &&& 1 = 0 then do
        let b := { b with ptrCur := b.ptr.toNat }
        let b ← b.nextAddr mem ram
        .ok { b with status := b.status ||| 1 }
      else .ok b
    let b :=
      if val &&& 1 = 0 ∧ b.command &&& 1 ≠ 0 then { b with status := b.status &&& ~~~1 } else b
    .ok { b with command := val }
  else if reg = 2 then
    .ok { b with status := (val &&& 0x60) ||| ((b.status &&& ~~~val) &&& 6) ||| (b.status &&& 1) }
  else if reg = 4 then .ok { b with ptr := (b.ptr &&& 0xffffff00) ||| val.setWidth 32 }
  else if reg = 5 then .ok { b with ptr := (b.ptr &&& 0xffff00ff) ||| val.setWidth 32 <<< 8 }
  else if reg = 6 then .ok { b with ptr := (b.ptr &&& 0xff00ffff) ||| val.setWidth 32 <<< 16 }
  else if reg = 7 then .ok { b with ptr := (b.ptr &&& 0x00ffffff) ||| val.setWidth 32 <<< 24 }
  else .ok b

end SffBusmaster

/-! ## Marks -/

/-- A granule becomes dirty, and its page is listed when the granule holds code. -/
def DmaMarks.mark (start : Nat) (k : DmaMarks) : DmaMarks :=
  let k := { k with dirty := fun g => if g = start / 64 then true else k.dirty g }
  if k.codePresent (start / 64) = true ∧ start / 4096 ∉ k.evicted then
    { k with evicted := start / 4096 :: k.evicted }
  else k

/-- The loop of `mem_invalidate_range`. An address from 2^32 on is never reached: the entry of
`pages` for the last granule below it does not exist. -/
def invalidateLoop (mem : MemSize) (start stop : Nat) (k : DmaMarks) : Except DmaFault DmaMarks :=
  if start ≤ stop then
    if mem.pages ≤ start / 4096 then .error .pages
    else invalidateLoop mem (start + 64) stop (k.mark start)
  else .ok k
  termination_by stop + 1 - start

/-- `mem_invalidate_range`, with its 32-bit addresses. -/
def memInvalidateRange (mem : MemSize) (startAddr endAddr : Nat) (k : DmaMarks) :
    Except DmaFault DmaMarks :=
  invalidateLoop mem (startAddr / 64 * 64) ((endAddr + 63) % 4294967296 / 64 * 64) k

/-! ## Transfers -/

/-- `data_read` stores the buffer in memory, `data_write` fetches it. -/
inductive DmaDir : Type
  | read
  | write
  deriving DecidableEq

/-- The `memcpy` of a piece: `count` bytes between `ram[addr]` and `data[transferred]`. -/
def DmaStore.copy (dir : DmaDir) (addr transferred count : Nat) (w : DmaStore) : DmaStore :=
  let moved := (List.range count).map fun j : Nat => (addr + j, transferred + j)
  match dir with
  | .read =>
      { w with
        ram := overlay w.ram addr (slice w.buf transferred count)
        copied := w.copied ++ moved }
  | .write =>
      { w with
        buf := overlay w.buf transferred (slice w.ram addr count)
        copied := w.copied ++ moved }

/-- The part of a piece that lies in memory is copied. -/
def DmaStore.copyPiece (mem : MemSize) (dir : DmaDir) (addr transferred count : Nat)
    (w : DmaStore) : DmaStore :=
  if addr < mem.bytes then
    let count := if mem.bytes < (addr + count) % 4294967296 then mem.bytes - addr else count
    w.copy dir addr transferred count
  else w

/-- A transfer to memory marks the range of its whole size in every round. -/
def roundMarks (mem : MemSize) (dir : DmaDir) (size addr : Nat) (k : DmaMarks) :
    Except DmaFault DmaMarks :=
  match dir with
  | .read => memInvalidateRange mem addr ((addr + (size - 1)) % 4294967296) k
  | .write => .ok k

/-- After a region the table is over or its next descriptor is loaded. -/
def roundEnd (mem : MemSize) (b : SffBusmaster) (ram : Nat → BitVec 8) :
    Except DmaFault SffBusmaster :=
  if b.count = 0 then
    if b.eot = true then .ok { b with status := b.status &&& ~~~1 } else b.nextAddr mem ram
  else .ok b

/-- The `while` loop of both transfers, with at most `fuel` rounds. -/
def transferLoop (mem : MemSize) (dir : DmaDir) (size : Nat) :
    Nat → Nat → SffBusmaster → DmaStore → DmaMarks →
      Except DmaFault (SffBusmaster × DmaStore × DmaMarks)
  | 0, transferred, b, w, k => if transferred < size then .error .spin else .ok (b, w, k)
  | fuel + 1, transferred, b, w, k =>
      if transferred < size then
        if b.count < size - transferred ∧ b.eot = true then .error .fatal
        else do
          let k ← roundMarks mem dir size b.addr k
          let count := if b.count < size - transferred then b.count else size - transferred
          let w := w.copyPiece mem dir b.addr transferred count
          let transferred := transferred + count
          let b := { b with addr := (b.addr + count) % 4294967296, count := b.count - count }
          let b ← roundEnd mem b w.ram
          transferLoop mem dir size fuel transferred b w k
      else .ok (b, w, k)

/-- What a transfer leaves, and the value it returns. -/
structure DmaEnd : Type where
  ret : Nat
  bus : SffBusmaster
  store : DmaStore
  marks : DmaMarks

/-- `sff_bus_master_data_read` and `sff_bus_master_data_write`. A round moves at least a byte. -/
def busMasterData (mem : MemSize) (dir : DmaDir) (size : Nat) (b : SffBusmaster)
    (ram buf : Nat → BitVec 8) (k : DmaMarks) : Except DmaFault DmaEnd :=
  if b.Active then
    (transferLoop mem dir size size 0 b ⟨ram, buf, []⟩ k).map fun (b, w, k) => ⟨0, b, w, k⟩
  else .ok ⟨1, b, ⟨ram, buf, []⟩, k⟩

/-! ## The system -/

/-- Both channels, the memory and its marks. -/
structure DmaSystem : Type where
  bus : Fin 2 → SffBusmaster
  ram : Nat → BitVec 8
  marks : DmaMarks

/-- What may happen: the guest writes a register or its memory, a drive raises its interrupt or
transfers a buffer, and the marks change as code runs. -/
inductive DmaOp : Type
  | write (channel : Fin 2) (reg : Nat) (val : BitVec 8)
  | store (addr : Nat) (val : BitVec 8)
  | irq (channel : Fin 2)
  | transfer (channel : Fin 2) (dir : DmaDir) (size : Fin 2147483648) (buf : Nat → BitVec 8)
  | marks (marks : DmaMarks)

namespace DmaSystem

/-- `busmaster[channel] = b`. -/
def setBus (s : DmaSystem) (channel : Fin 2) (b : SffBusmaster) : DmaSystem :=
  { s with bus := fun c => if c = channel then b else s.bus c }

/-- The state after one of them. -/
def step (mem : MemSize) (s : DmaSystem) : DmaOp → Except DmaFault DmaSystem
  | .write channel reg val =>
      ((s.bus channel).write mem s.ram reg val).map fun b => s.setBus channel b
  | .store addr val => .ok { s with ram := fun a => if a = addr then val else s.ram a }
  | .irq channel =>
      .ok (s.setBus channel { s.bus channel with status := (s.bus channel).status ||| 4 })
  | .transfer channel dir size buf =>
      (busMasterData mem dir size (s.bus channel) s.ram buf s.marks).map fun e =>
        { s.setBus channel e.bus with ram := e.store.ram, marks := e.marks }
  | .marks marks => .ok { s with marks := marks }

/-- The state after a sequence of them. -/
def run (mem : MemSize) : DmaSystem → List DmaOp → Except DmaFault DmaSystem
  | s, [] => .ok s
  | s, op :: ops => s.step mem op >>= fun t => t.run mem ops

/-- Power-on. -/
def init (ram : Nat → BitVec 8) (marks : DmaMarks) : DmaSystem :=
  { bus := fun _ => ⟨0, 0, 0, 0, 0, 0, false⟩, ram := ram, marks := marks }

end DmaSystem

end PCemWeb
