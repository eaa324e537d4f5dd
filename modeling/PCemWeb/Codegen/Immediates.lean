import PCemWeb.Lib.ByteLanes

/-!
# Immediates from memory

The code fetches of `386_common.h` with `getpccache` of `mem.c`, and the micro-operations that
`LOAD_IMMEDIATE_FROM_RAM_8`, `_16` and `_32` emit for a block whose immediates are not inlined. Code
memory is host memory: a page of the guest is a host address.
-/

namespace PCemWeb

open Lib

/-! ## Fetches -/

/-- `getpccache`: the host address of the first byte of a linear page (`ram` at the page's own
address when the translation fails), and whether it sets `abrt`. -/
structure CodePages : Type where
  base : BitVec 20 → Nat
  faults : BitVec 20 → Bool

/-- `pccache` with `pccache2`, as the page's host address. -/
abbrev PcCache : Type := Option (BitVec 20 × Nat)

/-- `a >> 12`. -/
def codePage (a : BitVec 32) : BitVec 20 := a.extractLsb' 12 20

/-- `a & 0xfff`. -/
def pageOffset (a : BitVec 32) : Nat := a.toNat % 4096

/-- The host address of a page that is cached. -/
def cachedBase (page : BitVec 20) (c : PcCache) : Option Nat :=
  match c with
  | some (p, base) => if p = page then some base else none
  | none => none

/-- The test of `pccache` at the head of each fetch, and `getpccache` behind it. -/
def fetchPage (pages : CodePages) (a : BitVec 32) (c : PcCache) : Option (Nat × PcCache) :=
  match cachedBase (codePage a) c with
  | some base => some (base, c)
  | none =>
      if pages.faults (codePage a) = true then none
      else some (pages.base (codePage a), some (codePage a, pages.base (codePage a)))

section Fetch

variable (pages : CodePages) (host : Nat → BitVec 8)

/-- `fastreadb`; `none` where `abrt` is set. -/
def fastreadb (a : BitVec 32) (c : PcCache) : Option (BitVec 8 × PcCache) := do
  let (base, c) ← fetchPage pages a c
  pure (host (base + pageOffset a), c)

/-- `fastreadw`. -/
def fastreadw (a : BitVec 32) (c : PcCache) : Option (BitVec 16 × PcCache) :=
  if 0xffe < pageOffset a then do
    let (lo, c) ← fastreadb pages host a c
    let (hi, c) ← fastreadb pages host (a + 1) c
    pure (lo.setWidth 16 ||| hi.setWidth 16 <<< 8, c)
  else do
    let (base, c) ← fetchPage pages a c
    pure (le16 host (base + pageOffset a), c)

/-- `fastreadl`. -/
def fastreadl (a : BitVec 32) (c : PcCache) : Option (BitVec 32 × PcCache) :=
  if pageOffset a < 0xffd then do
    let (base, c) ← fetchPage pages a c
    pure (le32 host (base + pageOffset a), c)
  else do
    let (lo, c) ← fastreadw pages host a c
    let (hi, c) ← fastreadw pages host (a + 2) c
    pure (lo.setWidth 32 ||| hi.setWidth 32 <<< 16, c)

end Fetch

/-- `get_ram_ptr`: no fault is noticed, and the cache stays. -/
def getRamPtr (pages : CodePages) (c : PcCache) (a : BitVec 32) : Nat :=
  (cachedBase (codePage a) c).getD (pages.base (codePage a)) + pageOffset a

/-! ## Registers -/

/-- The integer sizes of `IREG_GET_SIZE`. -/
inductive IregSize : Type
  | l
  | w
  | b
  | bh
  deriving DecidableEq

/-- A sized register; `reg` is `IREG_GET_REG`. -/
structure Ireg : Type where
  reg : Nat
  size : IregSize
  deriving DecidableEq

/-- The registers of a block, each with its 32 bits. -/
abbrev IRegs : Type := Nat → BitVec 32

namespace IRegs

variable (regs : IRegs)

/-- `e_src`. -/
def src (r : Ireg) : BitVec 32 :=
  match r.size with
  | .l => regs r.reg
  | .w => regs r.reg &&& 0xffff
  | .b => regs r.reg &&& 0xff
  | .bh => regs r.reg >>> 8 &&& 0xff

/-- `e_set`. -/
def set (reg : Nat) (v : BitVec 32) : IRegs := fun r => if r = reg then v else regs r

/-- `e_dst`. -/
def dst (r : Ireg) (v : BitVec 32) : IRegs :=
  match r.size with
  | .l => regs.set r.reg v
  | .w => regs.set r.reg ((v &&& 0xffff) ||| (regs r.reg &&& 0xffff0000))
  | .b => regs.set r.reg ((v &&& 0xff) ||| (regs r.reg &&& 0xffffff00))
  | .bh => regs.set r.reg ((v &&& 0xff) <<< 8 ||| (regs r.reg &&& 0xffff00ff))

end IRegs

/-! ## Micro-operations -/

/-- The ones that load an immediate. -/
inductive ImmUop : Type
  | movRegPtr (dest : Ireg) (p : Nat)
  | movzxRegPtr8 (dest : Ireg) (p : Nat)
  | movzxRegPtr16 (dest : Ireg) (p : Nat)
  | shlImm (dest src : Ireg) (imm : Nat)
  | shrImm (dest src : Ireg) (imm : Nat)
  | or (dest srcA srcB : Ireg)

/-- What the code that the handlers emit does; `none` is `fatal` in the handler. -/
def ImmUop.exec (host : Nat → BitVec 8) (regs : IRegs) : ImmUop → Option IRegs
  | .movRegPtr dest p => if dest.size = .l then some (regs.set dest.reg (le32 host p)) else none
  | .movzxRegPtr8 dest p =>
      if dest.size = .l then some (regs.set dest.reg ((host p).setWidth 32))
      else if dest.size = .w ∨ dest.size = .b then some (regs.dst dest ((host p).setWidth 32))
      else none
  | .movzxRegPtr16 dest p =>
      if dest.size = .l then some (regs.set dest.reg ((le16 host p).setWidth 32))
      else if dest.size = .w then some (regs.dst dest ((le16 host p).setWidth 32))
      else none
  | .shlImm dest src imm =>
      if dest.size = src.size then
        some (regs.dst dest ((if src.size = .bh then regs.src src else regs src.reg) <<<
          (imm % 32)))
      else none
  | .shrImm dest src imm =>
      if dest.size = src.size then some (regs.dst dest (regs.src src >>> (imm % 32))) else none
  | .or dest srcA srcB => some (regs.dst dest (regs.src srcA ||| regs.src srcB))

/-- A sequence of them. -/
def runUops (host : Nat → BitVec 8) : List ImmUop → IRegs → Option IRegs
  | [], regs => some regs
  | uop :: uops, regs => uop.exec host regs >>= runUops host uops

/-- `IREG_temp3`. -/
def IREG_temp3 : Ireg := ⟨36, .l⟩

/-- `IREG_temp3_W`. -/
def IREG_temp3_W : Ireg := ⟨36, .w⟩

section Emit

variable (pages : CodePages) (c : PcCache) (dest : Ireg) (addr : BitVec 32)

/-- `LOAD_IMMEDIATE_FROM_RAM_8`. -/
def loadImmediateFromRam8 : List ImmUop := [.movzxRegPtr8 dest (getRamPtr pages c addr)]

/-- `LOAD_IMMEDIATE_FROM_RAM_16_unaligned`. -/
def loadImmediateFromRam16Unaligned : List ImmUop :=
  [.movzxRegPtr8 IREG_temp3_W (getRamPtr pages c addr),
    .movzxRegPtr8 dest (getRamPtr pages c (addr + 1)),
    .shlImm IREG_temp3_W IREG_temp3_W 8,
    .or dest dest IREG_temp3_W]

/-- `LOAD_IMMEDIATE_FROM_RAM_16`. -/
def loadImmediateFromRam16 : List ImmUop :=
  if pageOffset addr = 0xfff then loadImmediateFromRam16Unaligned pages c dest addr
  else [.movzxRegPtr16 dest (getRamPtr pages c addr)]

/-- `LOAD_IMMEDIATE_FROM_RAM_32_unaligned`. -/
def loadImmediateFromRam32Unaligned : List ImmUop :=
  [.movRegPtr dest (getRamPtr pages c (addr &&& ~~~3)),
    .movRegPtr IREG_temp3 (getRamPtr pages c ((addr + 4) &&& ~~~3)),
    .shrImm dest dest ((addr &&& 3).toNat * 8),
    .shlImm IREG_temp3 IREG_temp3 ((4 - (addr &&& 3).toNat) * 8),
    .or dest dest IREG_temp3]

/-- `LOAD_IMMEDIATE_FROM_RAM_32`. -/
def loadImmediateFromRam32 : List ImmUop :=
  if 0xffd ≤ pageOffset addr then loadImmediateFromRam32Unaligned pages c dest addr
  else [.movRegPtr dest (getRamPtr pages c addr)]

end Emit

end PCemWeb
