import Mathlib.Logic.Function.Basic
import Mathlib.Tactic.Common

/-!
# Loading segment registers

The segment caches, the status word that compiled blocks are selected by, and the functions that
load them: the two resets, `x86seg_reset`, `loadseg` and `loadcs`. Descriptors are read through a
`Bus` that answers each access of one call with a word or with a page fault.
-/

namespace PCemWeb.Cpu

/-- `x86seg`. -/
structure X86Seg where
  base : BitVec 32
  limit : BitVec 32
  limitRaw : BitVec 32
  access : BitVec 8
  access2 : BitVec 8
  seg : BitVec 16
  limitLow : BitVec 32
  limitHigh : BitVec 32
  checked : Bool
  deriving DecidableEq

/-- Which of the six caches an `x86seg *` points to. -/
inductive SegName
  | cs
  | ds
  | es
  | fs
  | gs
  | ss
  deriving DecidableEq

/-- The base and limit of `gdt` and `ldt`. -/
structure Table where
  base : BitVec 32
  limit : BitVec 32

/-- The processor that is emulated. -/
structure CpuType where
  at_ : Bool
  is386 : Bool
  is486 : Bool

/-- The part of `cpu_state` and of the globals beside it that the loads use. -/
structure SegState where
  segs : SegName → X86Seg
  cr0 : BitVec 32
  eflags : BitVec 16
  stack32 : Bool
  use32 : BitVec 32
  curStatus : BitVec 16
  abrt : BitVec 8
  abrtError : BitVec 32
  oldcpl : BitVec 8
  gdt : Table
  ldt : Table

/-- What memory answers during one call: words read, and the abort and error code of a fault. -/
structure Bus where
  readmemw : BitVec 32 → Except (BitVec 8 × BitVec 32) (BitVec 16)
  writeFault : BitVec 32 → Option (BitVec 8 × BitVec 32)

/-- `segdat`. -/
structure Segdat where
  w0 : BitVec 16
  w1 : BitVec 16
  w2 : BitVec 16
  w3 : BitVec 16

/-- `CPU_STATUS_USE32`. -/
def statusUse32 : BitVec 16 := 0x1

/-- `CPU_STATUS_STACK32`. -/
def statusStack32 : BitVec 16 := 0x2

/-- `CPU_STATUS_NOTFLATDS`. -/
def statusNotFlatDs : BitVec 16 := 0x100

/-- `CPU_STATUS_NOTFLATSS`. -/
def statusNotFlatSs : BitVec 16 := 0x200

namespace X86Seg

/-- Base 0 and every offset inside the limits. -/
def flat (s : X86Seg) : Bool := s.base = 0 && s.limitLow = 0 && s.limitHigh = 0xffffffff

/-- `seg_reset`. -/
def reset (type : CpuType) (name : SegName) (s : X86Seg) : X86Seg :=
  let s := { s with
    access := 2, access2 := 0, limit := 0xffff, limitLow := 0, limitHigh := 0xffff }
  if name = .cs then
    { s with
      base := if type.at_ then 0xf0000 else 0xffff0
      seg := if type.at_ then 0xf000 else 0xffff }
  else { s with base := 0, seg := 0 }

/-- The cache that `do_seg_load` fills from a descriptor. -/
def ofSegdat (type : CpuType) (segdat : Segdat) (s : X86Seg) : X86Seg :=
  let limitRaw := segdat.w0.setWidth 32 ||| ((segdat.w3 &&& 0xf).setWidth 32 <<< 16)
  let limit := if segdat.w3 &&& 0x80 ≠ 0 then (limitRaw <<< 12) ||| 0xfff else limitRaw
  let base := segdat.w1.setWidth 32 ||| ((segdat.w2 &&& 0xff).setWidth 32 <<< 16)
  let base := if type.is386 then base ||| ((segdat.w3 >>> 8).setWidth 32 <<< 24) else base
  let s := { s with
    limit, limitRaw, base, access := (segdat.w2 >>> 8).setWidth 8
    access2 := (segdat.w3 &&& 0xf0).setWidth 8 }
  if segdat.w2 &&& 0x1800 ≠ 0x1000 ∨ segdat.w2 &&& 0x400 = 0 then
    { s with limitHigh := limit, limitLow := 0 }
  else
    { s with
      limitHigh := if segdat.w3 &&& 0x40 ≠ 0 then 0xffffffff else 0xffff
      limitLow := limit + 1 }

end X86Seg

namespace SegState

variable (c : SegState)

/-- `msw & 1`. -/
def protectedMode : Bool := c.cr0 &&& 1 ≠ 0

/-- `cpu_state.eflags & VM_FLAG`. -/
def vm : Bool := c.eflags &&& 2 ≠ 0

/-- `CPL`. -/
def cpl : BitVec 8 := ((c.segs .cs).access >>> 5) &&& 3

def setSeg (name : SegName) (s : X86Seg) : SegState :=
  { c with segs := Function.update c.segs name s }

/-- A status bit set or cleared. -/
def putStatus (mask : BitVec 16) (on : Bool) : SegState :=
  { c with curStatus := if on then c.curStatus ||| mask else c.curStatus &&& ~~~mask }

/-- `set_stack32`. -/
def setStack32 (s : Bool) : SegState := { c with stack32 := s }.putStatus statusStack32 s

/-- `set_use32`. -/
def setUse32 (u : Bool) : SegState :=
  { c with use32 := if u then 0x300 else 0 }.putStatus statusUse32 u

/-- The two tests of the flat segments at the end of `do_seg_load` and of `loadseg`. -/
def updateFlat (name : SegName) : SegState :=
  match name with
  | .ds => c.putStatus statusNotFlatDs !(c.segs .ds).flat
  | .ss => c.putStatus statusNotFlatSs !(c.segs .ss).flat
  | _ => c

/-- `do_seg_load`. -/
def doSegLoad (type : CpuType) (name : SegName) (segdat : Segdat) : SegState :=
  (c.setSeg name ((c.segs name).ofSegdat type segdat)).updateFlat name

/-- `x86gpf`, `x86ss`, `x86np`: the abort and its error code. -/
def fault (abrt : BitVec 8) (error : BitVec 16) : SegState :=
  { c with abrt, abrtError := error.setWidth 32 }

def x86gpf (error : BitVec 16) : SegState := c.fault 0xd error

def x86ss (error : BitVec 16) : SegState := c.fault 0xc error

def x86np (error : BitVec 16) : SegState := c.fault 0xb error

/-! ## Resets -/

/-- `x86seg_reset`. -/
def x86segReset (type : CpuType) : SegState :=
  { c with segs := fun name => (c.segs name).reset type name }

/-- `oldcpl = CPL`; flushing the translation caches has no effect here. -/
def noteCpl : SegState := { c with oldcpl := c.cpl }

/-- The branch of `loadcs` for real and virtual-8086 mode. -/
def loadcsReal (seg : BitVec 16) : SegState :=
  (c.setSeg .cs { c.segs .cs with
    base := seg.setWidth 32 <<< 4, limit := 0xffff, limitLow := 0, limitHigh := 0xffff, seg
    access := if c.vm then 0x62 else 0x02 }).noteCpl

/-- `resetx86` on these fields; the call of `loadcs` is in real mode. -/
def resetx86 (type : CpuType) : SegState :=
  let c := { c with
    use32 := 0, curStatus := 0, stack32 := false, eflags := 0
    cr0 := if type.is486 then 0x40000000 else 0 }
  (c.loadcsReal (if type.at_ then 0xf000 else 0xffff)).x86segReset type

/-- `softresetx86` on these fields. -/
def softresetx86 (type : CpuType) : SegState :=
  let c := { c with
    use32 := 0, stack32 := false, curStatus := 0, eflags := 0
    cr0 := if type.is486 then 0x40000000 else 0 }
  (c.loadcsReal (if type.at_ then 0xf000 else 0xffff)).x86segReset type

/-! ## Descriptors -/

/-- The address of a selector's descriptor, or the fault of a selector past its table. -/
def descriptorAddr (seg : BitVec 16) : Except SegState (BitVec 32) :=
  let addr := (seg &&& ~~~7#16).setWidth 32
  let table := if seg &&& 4 ≠ 0 then c.ldt else c.gdt
  if table.limit ≤ addr then .error (c.x86gpf (seg &&& ~~~3#16)) else .ok (addr + table.base)

/-- The four words of the descriptor; a fault of one read leaves its abort. -/
def readSegdat (bus : Bus) (addr : BitVec 32) : Except SegState Segdat :=
  let words := do
    let w0 ← bus.readmemw addr
    let w1 ← bus.readmemw (addr + 2)
    let w2 ← bus.readmemw (addr + 4)
    let w3 ← bus.readmemw (addr + 6)
    return Segdat.mk w0 w1 w2 w3
  match words with
  | .error (abrt, abrtError) => .error { c with abrt, abrtError }
  | .ok segdat => if c.abrt ≠ 0 then .error c else .ok segdat

/-- `writememw(0, addr + 4, segdat[2] | 0x100)`, which may fault. -/
def setAccessed (bus : Bus) (addr : BitVec 32) : SegState :=
  match bus.writeFault (addr + 4) with
  | some (abrt, abrtError) => { c with abrt, abrtError }
  | none => c

/-- The descriptor's present bit. -/
def present (segdat : Segdat) : Bool := segdat.w2 &&& 0x8000 ≠ 0

/-- The descriptor's type with its system bit. -/
def descriptorType (segdat : Segdat) : BitVec 16 := (segdat.w2 >>> 8) &&& 0x1f

/-- The descriptor's `dpl`. -/
def dpl (segdat : Segdat) : BitVec 16 := (segdat.w2 >>> 13) &&& 3

/-! ## `loadseg` -/

/-- The checks of a stack segment, up to the new stack size. -/
def checkStack (seg : BitVec 16) (segdat : Segdat) : Except SegState SegState :=
  if seg &&& ~~~3#16 = 0 then .error (c.x86gpf (seg &&& ~~~3#16))
  else if seg &&& 3 ≠ c.cpl.setWidth 16 ∨ dpl segdat ≠ c.cpl.setWidth 16 then
    .error (c.x86gpf (seg &&& ~~~3#16))
  else if descriptorType segdat ∉ [0x12, 0x13, 0x16, 0x17] then
    .error (c.x86gpf (seg &&& ~~~3#16))
  else if !present segdat then .error (c.x86ss (seg &&& ~~~3#16))
  else .ok (c.setStack32 (segdat.w3 &&& 0x40 ≠ 0))

/-- The checks of a data segment. -/
def checkData (seg : BitVec 16) (segdat : Segdat) : Except SegState SegState :=
  if descriptorType segdat ∈
      [0x10, 0x11, 0x12, 0x13, 0x14, 0x15, 0x16, 0x17, 0x1a, 0x1b] then
    if seg &&& 3 > dpl segdat ∨ c.cpl.setWidth 16 > dpl segdat then
      .error (c.x86gpf (seg &&& ~~~3#16))
    else .ok c
  else if descriptorType segdat ∈ [0x1e, 0x1f] then .ok c
  else .error (c.x86gpf (seg &&& ~~~3#16))

/-- The checks of `loadseg` in protected mode: the state they leave, with the descriptor and its
address, or the state with the fault. -/
def checkSeg (bus : Bus) (seg : BitVec 16) (name : SegName) :
    Except SegState (SegState × BitVec 32 × Segdat) := do
  let addr ← c.descriptorAddr seg
  let segdat ← c.readSegdat bus addr
  let c ← match name with
    | .ss => c.checkStack seg segdat
    | .cs => .ok c
    | _ => c.checkData seg segdat
  if !present segdat then .error (c.x86np (seg &&& 0xfffc)) else .ok (c, addr, segdat)

/-- The branch of `loadseg` for real and virtual-8086 mode. -/
def loadsegReal (seg : BitVec 16) (name : SegName) : SegState :=
  let c := c.setSeg name { c.segs name with
    access := 0x62, access2 := 0, base := seg.setWidth 32 <<< 4, seg, checked := true }
  if name = .ss ∧ c.vm then c.setStack32 false else c

/-- A null selector in a data segment register. -/
def loadNull (name : SegName) : SegState :=
  let c := c.setSeg name { c.segs name with seg := 0, access := 0, base := -1 }
  if name = .ds then c.putStatus statusNotFlatDs true else c

/-- `loadseg`: the value it returns and the state. -/
def loadseg (type : CpuType) (bus : Bus) (seg : BitVec 16) (name : SegName) : BitVec 8 × SegState :=
  if c.protectedMode && !c.vm then
    if seg &&& ~~~3#16 = 0 then
      if name = .ss then (1, c.x86ss 0) else (0, c.loadNull name)
    else
      match c.checkSeg bus seg name with
      | .error c => (1, c)
      | .ok (c, addr, segdat) =>
        let c := c.setSeg name { c.segs name with seg }
        let c := (c.doSegLoad type name segdat).setAccessed bus addr
        let c := c.setSeg name { c.segs name with checked := false }
        let c := c.updateFlat name
        (c.abrt, c)
  else
    let c := (c.loadsegReal seg name).updateFlat name
    (c.abrt, c)

/-! ## `loadcs` -/

/-- The checks of `loadcs` on a descriptor. -/
def checkCode (seg : BitVec 16) (segdat : Segdat) : Except SegState Unit :=
  if segdat.w2 &&& 0x1000 ≠ 0 then
    if segdat.w2 &&& 0x400 = 0 ∧
        (seg &&& 3 > c.cpl.setWidth 16 ∨ c.cpl.setWidth 16 ≠ dpl segdat) then
      .error (c.x86gpf (seg &&& ~~~3#16))
    else if c.cpl.setWidth 16 < dpl segdat then .error (c.x86gpf (seg &&& ~~~3#16))
    else if !present segdat then .error (c.x86np (seg &&& 0xfffc))
    else .ok ()
  else if !present segdat then .error (c.x86np (seg &&& 0xfffc))
  else .error (c.x86gpf (seg &&& ~~~3#16))

/-- The checks of `loadcs` in protected mode. -/
def checkCs (bus : Bus) (seg : BitVec 16) : Except SegState (BitVec 32 × Segdat) :=
  if seg &&& ~~~3#16 = 0 then .error (c.x86gpf 0)
  else do
    let addr ← c.descriptorAddr seg
    let segdat ← c.readSegdat bus addr
    c.checkCode seg segdat
    return (addr, segdat)

/-- `loadcs`. -/
def loadcs (type : CpuType) (bus : Bus) (seg : BitVec 16) : SegState :=
  if c.protectedMode && !c.vm then
    match c.checkCs bus seg with
    | .error c => c
    | .ok (addr, segdat) =>
      let c := c.setUse32 (segdat.w3 &&& 0x40 ≠ 0)
      let c := c.setSeg .cs { c.segs .cs with seg := (seg &&& ~~~3#16) ||| c.cpl.setWidth 16 }
      let c := c.doSegLoad type .cs segdat
      let c := { c with use32 := if segdat.w3 &&& 0x40 ≠ 0 then 0x300 else 0 }
      c.noteCpl.setAccessed bus addr
  else c.loadcsReal seg

end SegState

end PCemWeb.Cpu
