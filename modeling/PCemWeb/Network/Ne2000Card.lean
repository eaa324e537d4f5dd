import PCemWeb.Network.Ne2000Rx

/-!
# The registers of the NE2000

All writes of the guest, the data port, reset and received frames, each with the accesses that it
makes to the packet memory and to the address ROM. The card transmits to the relay's backend, where
`slirp_input` copies a frame of 14 to 1600 bytes if the backend is alive and its ring has room.

Addresses are those of `ne2000.c`: `&mem[page * 256 - BX_NE2K_MEMSTART]` may lie before the array,
and a size that `memcpy` is given is the 32-bit `size_t` of the expression.
-/

namespace PCemWeb.Network

open PCemWeb.Lib

/-- `ne2000_t`. The registers that a receive and a remote DMA read are those of `Ne2000`. -/
structure Ne2000Card extends Ne2000 where
  rtl8029as : Bool
  crStart : Bool
  rdmaCmd : Byte
  pgsel : Byte
  isrPktTx : Bool
  isrRxErr : Bool
  isrTxErr : Bool
  isrOverwrite : Bool
  isrCntOflow : Bool
  isrReset : Bool
  imrTxInte : Bool
  imrRxerrInte : Bool
  imrTxerrInte : Bool
  imrOverwInte : Bool
  imrCoflInte : Bool
  dcrEndian : Bool
  dcrLongaddr : Bool
  dcrLoop : Bool
  dcrAutoRx : Bool
  dcrFifoSize : Byte
  tcrLoopCntl : Byte
  tcrCollPrio : Bool
  tsrTxOk : Bool
  rcrErrorsOk : Bool
  rcrMonitor : Bool
  localDma : Nat
  txPageStart : Nat
  txBytes : Nat
  rempktPtr : Byte
  localpktPtr : Byte
  addressCnt : Nat
  cr9346 : Byte
  config2 : Byte
  config3 : Byte

/-! ## Accesses -/

/-- `mem` and `macaddr`. -/
inductive CardArray : Type
  | packet
  | rom
  deriving DecidableEq

def CardArray.size : CardArray → Nat
  | .packet => 0x8000
  | .rom => 32

/-- An access to `length` bytes of an array from an offset on. -/
structure CardAccess : Type where
  array : CardArray
  offset : Int
  length : Nat
  deriving DecidableEq

def CardAccess.Inside (a : CardAccess) : Prop :=
  a.length = 0 ∨ 0 ≤ a.offset ∧ a.offset + a.length ≤ a.array.size

instance (a : CardAccess) : Decidable a.Inside := inferInstanceAs (Decidable (_ ∨ _))

/-- The packet memory from a page of the card on. -/
def pageAccess (page : Nat) (offset : Int) (length : Nat) : CardAccess :=
  ⟨.packet, page * 256 - memStart + offset, length⟩

/-- A `size_t`. -/
def sizeT (n : Int) : Nat := (n % 4294967296).toNat

/-- A read of a frame that may lie in the packet memory, from the start of a page. -/
def frameRead (source : Option Nat) (offset : Int) (length : Nat) : List CardAccess :=
  (source.map fun page => pageAccess page offset length).toList

namespace Ne2000

/-- The accesses of `ne2000_chipmem_read_b` and `ne2000_chipmem_read_w`. -/
def chipmemReads (length address : Nat) : List CardAccess :=
  if address ≤ 31 then [⟨.rom, address, length⟩]
  else if memStart ≤ address ∧ address < memEnd then [⟨.packet, address - memStart, length⟩]
  else []

/-- The accesses of `ne2000_chipmem_write_b` and `ne2000_chipmem_write_w`. -/
def chipmemWrites (length address : Nat) : List CardAccess :=
  if memStart ≤ address ∧ address < memEnd then [⟨.packet, address - memStart, length⟩] else []

/-- `ne2000_chipmem_write_b` and `ne2000_chipmem_write_w`. -/
def chipmemWrite (address : Nat) (value : List Byte) (s : Ne2000) : Ne2000 :=
  if memStart ≤ address ∧ address < memEnd then { s with mem := overlay s.mem address value } else s

/-- `ne2000_dma_write`. -/
def dmaWrite (ioLen : Nat) (s : Ne2000) : Ne2000 :=
  let dma := (s.remoteDma + ioLen) % 0x10000
  let dma := if dma = s.pageStop * 256 then s.pageStart * 256 % 0x10000 else dma
  let bytes := (s.remoteBytes + 0x10000 - ioLen) % 0x10000
  let bytes := if 0x8000 < bytes then 0 else bytes
  { s with
    remoteDma := dma
    remoteBytes := bytes
    isrRdmaDone := bytes = 0 || s.isrRdmaDone
    irq := (bytes = 0 && s.imrRdmaInte) || s.irq }

/-- `ne2000_asic_write_w`. -/
def asicWriteW (value : BitVec 16) (s : Ne2000) : Ne2000 :=
  if s.remoteBytes = 0 then s
  else if s.dcrWdsize then
    (s.chipmemWrite s.remoteDma [value.setWidth 8, (value >>> 8).setWidth 8]).dmaWrite 2
  else (s.chipmemWrite s.remoteDma [value.setWidth 8]).dmaWrite 1

/-- The accesses of `asicReadW`. -/
def asicReadAccesses (s : Ne2000) : List CardAccess :=
  chipmemReads (if s.dcrWdsize then 2 else 1) s.remoteDma

/-- The accesses of `asicWriteW`. -/
def asicWriteAccesses (s : Ne2000) : List CardAccess :=
  if s.remoteBytes = 0 then [] else chipmemWrites (if s.dcrWdsize then 2 else 1) s.remoteDma

/-- The frame is not refused before its address is looked at. -/
def reaches (s : Ne2000) (ioLen : Nat) : Bool :=
  !s.crStop && s.pageStart ≠ 0 && (pagesOf ioLen : Int) < s.avail && (40 ≤ ioLen || s.rcrRuntsOk)

/-- The copy of the frame goes on at PSTART. -/
def Wraps (s : Ne2000) (ioLen : Nat) : Prop :=
  ¬((s.currPage : Int) < s.nextpage (pagesOf ioLen) ∨ s.currPage + pagesOf ioLen = s.pageStop)

instance (s : Ne2000) (ioLen : Nat) : Decidable (s.Wraps ioLen) := inferInstanceAs (Decidable ¬_)

/-- The accesses of `rxFrame` for a frame that is not refused. -/
def storeAccesses (source : Option Nat) (ioLen : Nat) (s : Ne2000) : List CardAccess :=
  let n := if ioLen < 60 then 60 else ioLen
  if s.Wraps ioLen then
    let endbytes : Int := (s.pageStop - s.currPage) * 256
    [pageAccess s.currPage 0 4, pageAccess s.currPage 4 (sizeT (endbytes - 4)),
      pageAccess s.pageStart 0 (sizeT (n - endbytes + 8))] ++
    frameRead source 0 (sizeT (endbytes - 4)) ++
    frameRead source (endbytes - 4) (sizeT (n - endbytes + 8))
  else
    [pageAccess s.currPage 0 4, pageAccess s.currPage 4 n] ++ frameRead source 0 n

/-- The accesses of `rxFrame`. A frame of a loopback is read from the packet memory itself: its
address by the filter, its first byte for the header, and what is copied. -/
def rxAccesses (source : Option Nat) (buf : Nat → Byte) (ioLen : Nat) (s : Ne2000) :
    List CardAccess :=
  if s.reaches ioLen then
    (if s.rcrPromisc then [] else frameRead source 0 6) ++
      if s.filtered buf then [] else frameRead source 0 1 ++ s.storeAccesses source ioLen
  else []

end Ne2000

namespace Ne2000Card

variable (s : Ne2000Card)

/-! ## Register writes -/

/-- An interrupt is pending that is not masked. -/
def pending : Bool :=
  s.isrRdmaDone && s.imrRdmaInte || s.isrCntOflow && s.imrCoflInte ||
    s.isrOverwrite && s.imrOverwInte || s.isrTxErr && s.imrTxerrInte ||
    s.isrRxErr && s.imrRxerrInte || s.isrPktTx && s.imrTxInte || s.isrPktRx && s.imrRxInte

/-- The write of `ISR`, which clears. -/
def writeIsr (value : Byte) : Ne2000Card :=
  let s := { s with
    isrPktRx := s.isrPktRx && !value.getLsbD 0
    isrPktTx := s.isrPktTx && !value.getLsbD 1
    isrRxErr := s.isrRxErr && !value.getLsbD 2
    isrTxErr := s.isrTxErr && !value.getLsbD 3
    isrOverwrite := s.isrOverwrite && !value.getLsbD 4
    isrCntOflow := s.isrCntOflow && !value.getLsbD 5
    isrRdmaDone := s.isrRdmaDone && !value.getLsbD 6 }
  { s with irq := s.pending && s.irq }

def writeRcr (value : Byte) : Ne2000Card :=
  { s with
    rcrErrorsOk := value.getLsbD 0
    rcrRuntsOk := value.getLsbD 1
    rcrBroadcast := value.getLsbD 2
    rcrMulticast := value.getLsbD 3
    rcrPromisc := value.getLsbD 4
    rcrMonitor := value.getLsbD 5 }

/-- The write of `TCR`, which ends early when it inhibits the checksum. -/
def writeTcr (value : Byte) : Ne2000Card :=
  let s := { s with tcrLoopCntl := (value &&& 6) >>> 1 }
  if value.getLsbD 0 then s else { s with tcrCollPrio := value.getLsbD 3 }

def writeDcr (value : Byte) : Ne2000Card :=
  { s with
    dcrWdsize := value.getLsbD 0
    dcrEndian := value.getLsbD 1
    dcrLongaddr := value.getLsbD 2
    dcrLoop := value.getLsbD 3
    dcrAutoRx := value.getLsbD 4
    dcrFifoSize := (value &&& 0x50) >>> 5 }

def writeImr (value : Byte) : Ne2000Card :=
  let s := { s with
    imrRxInte := value.getLsbD 0
    imrTxInte := value.getLsbD 1
    imrRxerrInte := value.getLsbD 2
    imrTxerrInte := value.getLsbD 3
    imrOverwInte := value.getLsbD 4
    imrCoflInte := value.getLsbD 5
    imrRdmaInte := value.getLsbD 6 }
  { s with irq := s.pending }

/-- A 16-bit register with its low byte written. -/
def lowByte (register : Nat) (value : Byte) : Nat := register / 256 * 256 + value.toNat

/-- A 16-bit register with its high byte written. -/
def highByte (register : Nat) (value : Byte) : Nat := value.toNat * 256 + register % 256

def writePage0 (address : Nat) (value : Byte) : Ne2000Card :=
  match address with
  | 1 => { s with pageStart := value.toNat }
  | 2 => { s with pageStop := value.toNat }
  | 3 => { s with toNe2000 := s.writeBnry value }
  | 4 => { s with txPageStart := value.toNat }
  | 5 => { s with txBytes := lowByte s.txBytes value }
  | 6 => { s with txBytes := highByte s.txBytes value }
  | 7 => s.writeIsr value
  | 8 => { s with toNe2000 := s.writeRsar0 value }
  | 9 => { s with toNe2000 := s.writeRsar1 value }
  | 10 => { s with toNe2000 := s.writeRbcr0 value }
  | 11 => { s with toNe2000 := s.writeRbcr1 value }
  | 12 => s.writeRcr value
  | 13 => s.writeTcr value
  | 14 => s.writeDcr value
  | 15 => s.writeImr value
  | _ => s

def writePage1 (address : Nat) (value : Byte) : Ne2000Card :=
  if address ≤ 6 then { s with physaddr := s.physaddr.set (address - 1) value }
  else if address = 7 then { s with currPage := value.toNat }
  else { s with mchash := Function.update s.mchash (address - 8) value }

def writePage2 (address : Nat) (value : Byte) : Ne2000Card :=
  match address with
  | 1 => { s with localDma := lowByte s.localDma value }
  | 2 => { s with localDma := highByte s.localDma value }
  | 3 => { s with rempktPtr := value }
  | 5 => { s with localpktPtr := value }
  | 6 => { s with addressCnt := highByte s.addressCnt value }
  | 7 => { s with addressCnt := lowByte s.addressCnt value }
  | _ => s

def writePage3 (address : Nat) (value : Byte) : Ne2000Card :=
  if s.rtl8029as then
    match address with
    | 1 => { s with cr9346 := value &&& 0xfe }
    | 5 => { s with config2 := value &&& 0xe0 }
    | 6 => { s with config3 := value &&& 0x46 }
    | _ => s
  else s

/-! ## The command register -/

/-- Remote DMA command 0 is made 4. -/
def validated (value : Byte) : Byte := if value &&& 0x38 = 0 then value ||| 0x20 else value

/-- The fields of `CR`, and the reset status. -/
def setCr (value : Byte) : Ne2000Card :=
  { s with
    crStop := value.getLsbD 0
    rdmaCmd := (value &&& 0x38) >>> 3
    isrReset := (value.getLsbD 0 || s.isrReset) && !(value.getLsbD 1 && !s.crStart)
    crStart := value.getLsbD 1
    pgsel := (value &&& 0xc0) >>> 6 }

/-- The send-packet command: a remote DMA of the record at BNRY. -/
def sendPacket : Ne2000Card :=
  if s.rdmaCmd = 3 then
    { s with
      remoteStart := s.boundPtr * 256
      remoteDma := s.boundPtr * 256
      remoteBytes := (s.mem (s.boundPtr * 256 + 2)).toNat +
        256 * (s.mem (s.boundPtr * 256 + 3)).toNat }
  else s

def sendPacketAccesses : List CardAccess :=
  if s.rdmaCmd = 3 then [pageAccess s.boundPtr 2 2] else []

/-- A transmission has ended. -/
def txDone : Ne2000Card :=
  { s with irq := (s.imrTxInte && !s.isrPktTx) || s.irq, isrPktTx := true }

/-- The frame that a loopback copies: the header is written before the copy begins, and where the
frame overlaps its own copy `memcpy` promises nothing. -/
def loopSource (a : Nat) : Byte :=
  let at_ := s.txPageStart * 256 + a
  let n := if s.txBytes < 60 then 60 else s.txBytes
  let hdr := Ne2000.pkthdr ((s.mem (s.txPageStart * 256)).getLsbD 0)
    (s.nextpage (Ne2000.pagesOf s.txBytes)) n
  if s.txPageStart = s.currPage then s.mem at_ else overlay s.mem (s.currPage * 256) hdr at_

/-- The start-transmit bit. -/
def transmit : Ne2000Card :=
  if s.tcrLoopCntl = 0 then { s.txDone with tsrTxOk := true }
  else if s.tcrLoopCntl = 1 then
    txDone { s with toNe2000 := (s.rxFrame s.loopSource s.txBytes).after }
  else s

/-- The accesses of a transmission. `ready` says that the backend is alive and its ring has room. -/
def transmitAccesses (ready : Bool) : List CardAccess :=
  if s.tcrLoopCntl = 0 then
    if ready ∧ 14 ≤ s.txBytes ∧ s.txBytes ≤ 1600 then [pageAccess s.txPageStart 0 s.txBytes] else []
  else if s.tcrLoopCntl = 1 then
    s.rxAccesses (some s.txPageStart) s.loopSource s.txBytes
  else []

/-- A remote read of no bytes is done at once. -/
def probe : Ne2000Card :=
  if s.rdmaCmd = 1 ∧ s.crStart ∧ s.remoteBytes = 0 then
    { s with isrRdmaDone := true, irq := s.imrRdmaInte || s.irq }
  else s

/-- The write of `CR`. -/
def writeCr (value : Byte) : Ne2000Card :=
  let s := (s.setCr (validated value)).sendPacket
  let s := if value.getLsbD 2 then s.transmit else s
  s.probe

def writeCrAccesses (value : Byte) (ready : Bool) : List CardAccess :=
  let s := s.setCr (validated value)
  s.sendPacketAccesses ++
    if value.getLsbD 2 then s.sendPacket.transmitAccesses ready else []

/-- `ne2000_write`. -/
def write (address : BitVec 16) (value : Byte) : Ne2000Card :=
  let address := address.toNat % 16
  if address = 0 then s.writeCr value
  else if s.pgsel = 0 then s.writePage0 address value
  else if s.pgsel = 1 then s.writePage1 address value
  else if s.pgsel = 2 then s.writePage2 address value
  else s.writePage3 address value

/-- `ne2000_reset`. It keeps `RCR`, the address and the hash. -/
def reset : Ne2000Card where
  crStop := true
  isrPktRx := false
  isrRdmaDone := false
  imrRxInte := false
  imrRdmaInte := false
  dcrWdsize := false
  rcrRuntsOk := s.rcrRuntsOk
  rcrBroadcast := s.rcrBroadcast
  rcrMulticast := s.rcrMulticast
  rcrPromisc := s.rcrPromisc
  rsrRxOk := false
  rsrRxMbit := false
  pageStart := 0
  pageStop := 0
  boundPtr := 0
  currPage := 0
  remoteStart := 0
  remoteDma := 0
  remoteBytes := 0
  physaddr := s.physaddr
  mchash := s.mchash
  macaddr i := if i < 12 then s.physaddr.getD (i / 2) 0 else 0x57
  mem _ := 0
  irq := false
  rtl8029as := s.rtl8029as
  crStart := false
  rdmaCmd := 4
  pgsel := 0
  isrPktTx := false
  isrRxErr := false
  isrTxErr := false
  isrOverwrite := false
  isrCntOflow := false
  isrReset := true
  imrTxInte := false
  imrRxerrInte := false
  imrTxerrInte := false
  imrOverwInte := false
  imrCoflInte := false
  dcrEndian := false
  dcrLongaddr := true
  dcrLoop := false
  dcrAutoRx := false
  dcrFifoSize := 0
  tcrLoopCntl := 0
  tcrCollPrio := false
  tsrTxOk := false
  rcrErrorsOk := s.rcrErrorsOk
  rcrMonitor := s.rcrMonitor
  localDma := 0
  txPageStart := 0
  txBytes := 0
  rempktPtr := 0
  localpktPtr := 0
  addressCnt := 0
  cr9346 := s.cr9346
  config2 := s.config2
  config3 := s.config3

/-- `ne2000_poller` for one queued frame, of which `pcem_slirp_send_packet` keeps 2000 bytes. -/
def poll (buf : Nat → Byte) (len : Nat) : Ne2000Card :=
  if !s.dcrLoop || s.tcrLoopCntl ≠ 0 then s
  else { s with toNe2000 := (s.rxFrame buf (min len 2000)).after }

def pollAccesses (buf : Nat → Byte) (len : Nat) : List CardAccess :=
  if !s.dcrLoop || s.tcrLoopCntl ≠ 0 then [] else s.rxAccesses none buf (min len 2000)

end Ne2000Card

/-! ## Runs -/

/-- What happens to the card: a write to a register, a read or a write of the data port, a read of
the reset port, a frame from the network. -/
inductive CardOp : Type
  | write (address : BitVec 16) (value : Byte) (ready : Bool)
  | dataRead
  | dataWrite (value : BitVec 16)
  | reset
  | frame (buf : Nat → Byte) (len : Nat)

namespace Ne2000Card

/-- The card of `ne2000_common_init`, with its address. -/
def powerOn (rtl8029as : Bool) (physaddr : List Byte) : Ne2000Card :=
  reset
    { crStop := false, isrPktRx := false, isrRdmaDone := false, imrRxInte := false
      imrRdmaInte := false, dcrWdsize := false, rcrRuntsOk := false, rcrBroadcast := false
      rcrMulticast := false, rcrPromisc := false, rsrRxOk := false, rsrRxMbit := false
      pageStart := 0, pageStop := 0, boundPtr := 0, currPage := 0, remoteStart := 0, remoteDma := 0
      remoteBytes := 0, physaddr, mchash := fun _ => 0, macaddr := fun _ => 0, mem := fun _ => 0
      irq := false, rtl8029as, crStart := false, rdmaCmd := 0, pgsel := 0, isrPktTx := false
      isrRxErr := false, isrTxErr := false, isrOverwrite := false, isrCntOflow := false
      isrReset := false, imrTxInte := false, imrRxerrInte := false, imrTxerrInte := false
      imrOverwInte := false, imrCoflInte := false, dcrEndian := false, dcrLongaddr := false
      dcrLoop := false, dcrAutoRx := false, dcrFifoSize := 0, tcrLoopCntl := 0
      tcrCollPrio := false, tsrTxOk := false, rcrErrorsOk := false, rcrMonitor := false
      localDma := 0, txPageStart := 0, txBytes := 0, rempktPtr := 0, localpktPtr := 0
      addressCnt := 0, cr9346 := 0, config2 := 0, config3 := 0 }

def step (s : Ne2000Card) : CardOp → Option Ne2000Card
  | .write address value _ => some (s.write address value)
  | .dataRead => some { s with toNe2000 := s.asicReadW.2 }
  | .dataWrite value => some { s with toNe2000 := s.asicWriteW value }
  | .reset => some s.reset
  | .frame buf len => some (s.poll buf len)

/-- The accesses of an operation. A reset fills both arrays. -/
def accesses (s : Ne2000Card) : CardOp → List CardAccess
  | .write address value ready =>
    if address.toNat % 16 = 0 then s.writeCrAccesses value ready else []
  | .dataRead => s.asicReadAccesses
  | .dataWrite _ => s.asicWriteAccesses
  | .reset => [⟨.rom, 0, 32⟩, ⟨.packet, 0, 0x8000⟩]
  | .frame buf len => s.pollAccesses buf len

end Ne2000Card

end PCemWeb.Network
