import Mathlib.Logic.Function.Basic
import PCemWeb.Lib.Bytes
import PCemWeb.Lib.Run

/-!
# The receive ring of the NE2000

Received frames are stored in 256-byte pages of the card's packet memory, each behind a header of
four bytes. The pages from PSTART up to PSTOP form a ring. CURR is the page of the next frame, BNRY
the first page that the guest has not released, and the guest reads the ring by remote DMA through
the data port.

The definitions follow `ne2000.c`, with `unsigned long` the 32 bits of the wasm build. `mem` is
indexed by the address on the card, which starts at `0x4000`. `buf` is the host memory from the
first byte of a frame on, and `readTo` says how far a receive has read it.
-/

namespace PCemWeb.Network

open PCemWeb.Lib

abbrev Byte := BitVec 8

/-- `BX_NE2K_MEMSTART`. -/
def memStart : Nat := 0x4000

/-- `BX_NE2K_MEMEND`. -/
def memEnd : Nat := 0xc000

/-- The registers of `ne2000_t` that a receive and a remote DMA read. -/
structure Ne2000 where
  crStop : Bool
  isrPktRx : Bool
  isrRdmaDone : Bool
  imrRxInte : Bool
  imrRdmaInte : Bool
  /-- `DCR.wdsize & 1`. -/
  dcrWdsize : Bool
  rcrRuntsOk : Bool
  rcrBroadcast : Bool
  rcrMulticast : Bool
  rcrPromisc : Bool
  rsrRxOk : Bool
  rsrRxMbit : Bool
  pageStart : Nat
  pageStop : Nat
  boundPtr : Nat
  currPage : Nat
  remoteStart : Nat
  remoteDma : Nat
  remoteBytes : Nat
  physaddr : List Byte
  mchash : Nat → Byte
  macaddr : Nat → Byte
  mem : Nat → Byte
  /-- Whether `ne2000_raise_irq` has been called. -/
  irq : Bool

namespace Ne2000

/-! ## Remote DMA -/

/-- `ne2000_chipmem_read_b`. -/
def chipmemReadB (s : Ne2000) (address : Nat) : Byte :=
  if address ≤ 31 then s.macaddr address
  else if memStart ≤ address ∧ address < memEnd then s.mem address
  else 0xff

/-- `ne2000_chipmem_read_w`, as its low and its high byte. -/
def chipmemReadW (s : Ne2000) (address : Nat) : Byte × Byte :=
  if address ≤ 31 then (s.macaddr address, s.macaddr (address + 1))
  else if memStart ≤ address ∧ address < memEnd then (s.mem address, s.mem (address + 1))
  else (0xff, 0xff)

/-- `ne2000_dma_read`. -/
def dmaRead (ioLen : Nat) (s : Ne2000) : Ne2000 :=
  let dma := (s.remoteDma + ioLen) % 0x10000
  let dma := if dma = s.pageStop * 256 then s.pageStart * 256 % 0x10000 else dma
  let bytes := if 1 < s.remoteBytes then (s.remoteBytes + 0x10000 - ioLen) % 0x10000 else 0
  { s with
    remoteDma := dma
    remoteBytes := bytes
    isrRdmaDone := bytes = 0 || s.isrRdmaDone
    irq := (bytes = 0 && s.imrRdmaInte) || s.irq }

/-- `ne2000_asic_read_w`, as the bytes that the guest takes from the data port. -/
def asicReadW (s : Ne2000) : List Byte × Ne2000 :=
  if s.dcrWdsize then
    let (low, high) := s.chipmemReadW s.remoteDma
    ([low, high], s.dmaRead 2)
  else ([s.chipmemReadB s.remoteDma], s.dmaRead 1)

/-- Successive reads of the data port. -/
def asicReads : Nat → Ne2000 → List Byte × Ne2000
  | 0, s => ([], s)
  | n + 1, s =>
    let (bytes, s) := s.asicReadW
    let (rest, s) := asicReads n s
    (bytes ++ rest, s)

/-! ## Register writes -/

/-- The write of `BNRY`. -/
def writeBnry (value : Byte) (s : Ne2000) : Ne2000 := { s with boundPtr := value.toNat }

/-- The write of `RSAR0`. -/
def writeRsar0 (value : Byte) (s : Ne2000) : Ne2000 :=
  let start := s.remoteStart / 256 * 256 + value.toNat
  { s with remoteStart := start, remoteDma := start }

/-- The write of `RSAR1`. -/
def writeRsar1 (value : Byte) (s : Ne2000) : Ne2000 :=
  let start := value.toNat * 256 + s.remoteStart % 256
  { s with remoteStart := start, remoteDma := start }

/-- The write of `RBCR0`. -/
def writeRbcr0 (value : Byte) (s : Ne2000) : Ne2000 :=
  { s with remoteBytes := s.remoteBytes / 256 * 256 + value.toNat }

/-- The write of `RBCR1`. -/
def writeRbcr1 (value : Byte) (s : Ne2000) : Ne2000 :=
  { s with remoteBytes := value.toNat * 256 + s.remoteBytes % 256 }

/-- A remote DMA of `length` bytes from the start of a page is set up. -/
def setRemote (page length : Nat) (s : Ne2000) : Ne2000 :=
  s.writeRsar0 0 |>.writeRsar1 (BitVec.ofNat 8 page) |>.writeRbcr0 (BitVec.ofNat 8 length)
    |>.writeRbcr1 (BitVec.ofNat 8 (length / 256))

/-! ## Receiving -/

/-- One bit of `mcast_index`. -/
def mcastBit (crc : BitVec 32) (bit : Bool) : BitVec 32 :=
  if crc.msb ^^ bit then (crc <<< 1 ^^^ 0x04c11db6) ||| 1 else crc <<< 1

/-- `mcast_index`. -/
def mcastIndex (buf : Nat → Byte) : Nat :=
  let bits := (slice buf 0 6).flatMap fun b => (List.range 8).map b.getLsbD
  (bits.foldl mcastBit 0xffffffff).toNat >>> 26

/-- The address filter of `ne2000_rx_frame`: whether the frame is refused. -/
def filtered (s : Ne2000) (buf : Nat → Byte) : Bool :=
  if s.rcrPromisc then false
  else if slice buf 0 6 = List.replicate 6 0xff then !s.rcrBroadcast
  else if (buf 0).getLsbD 0 then
    if s.rcrMulticast then
      let idx := mcastIndex buf
      !(s.mchash (idx >>> 3)).getLsbD (idx % 8)
    else true
  else slice buf 0 6 ≠ s.physaddr

/-- The pages that a frame occupies with its header and a checksum. -/
def pagesOf (ioLen : Nat) : Nat := (ioLen + 4 + 4 + 255) / 256

/-- `avail`. -/
def avail (s : Ne2000) : Int :=
  if s.currPage < s.boundPtr then s.boundPtr - s.currPage
  else (s.pageStop - s.pageStart : Int) - (s.currPage - s.boundPtr)

/-- `nextpage`. -/
def nextpage (s : Ne2000) (pages : Nat) : Int :=
  let next : Int := s.currPage + pages
  if s.pageStop ≤ next then next - (s.pageStop - s.pageStart) else next

/-- `pkthdr`. -/
def pkthdr (multicast : Bool) (nextpage : Int) (ioLen : Nat) : List Byte :=
  [if multicast then 0x21 else 1, BitVec.ofInt 8 nextpage, BitVec.ofNat 8 (ioLen + 4),
    BitVec.ofNat 8 ((ioLen + 4) / 256)]

/-- What a receive leaves, and how far it has read the buffer. -/
structure Received where
  after : Ne2000
  readTo : Nat

/-- `ne2000_rx_frame`. -/
def rxFrame (buf : Nat → Byte) (ioLen : Nat) (s : Ne2000) : Received :=
  if s.crStop || s.pageStart = 0 then ⟨s, 0⟩
  else
    let pages := pagesOf ioLen
    if s.avail < pages || s.avail = pages then ⟨s, 0⟩
    else if ioLen < 40 && !s.rcrRuntsOk then ⟨s, 0⟩
    else
      let ioLen := if ioLen < 60 then 60 else ioLen
      if s.filtered buf then ⟨s, 6⟩
      else
        let next := s.nextpage pages
        let hdr := pkthdr ((buf 0).getLsbD 0) next ioLen
        let start := s.currPage * 256
        let (mem, readTo) :=
          if s.currPage < next || s.currPage + pages = s.pageStop then
            (overlay (overlay s.mem start hdr) (start + 4) (slice buf 0 ioLen), ioLen)
          else
            let endbytes := (s.pageStop - s.currPage) * 256
            let mem := overlay (overlay s.mem start hdr) (start + 4) (slice buf 0 (endbytes - 4))
            -- the length has an allowance for the header and one for a checksum
            let rest := ioLen + 8 - endbytes
            (overlay mem (s.pageStart * 256) (slice buf (endbytes - 4) rest),
              max (endbytes - 4) (endbytes - 4 + rest))
        ⟨{ s with
            mem
            currPage := (next % 256).toNat
            rsrRxOk := true
            rsrRxMbit := (buf 0).getLsbD 7 || s.rsrRxMbit
            isrPktRx := true
            irq := s.imrRxInte || s.irq }, readTo⟩

end Ne2000

end PCemWeb.Network
