import PCemWeb.Cpu.Flags
import PCemWeb.Lib.HostDivision

/-!
# Division helpers

`wjit_grp_div_b`, `_w`, `_l` and `wjit_grp_idiv_b`, `_w`, `_l` of `codegen_ops_misc.c`, with `divl`
and `idivl` of `386_common.c`. A host division that C leaves undefined, and that traps in
WebAssembly, is `none`.
-/

namespace PCemWeb

open Lib

/-- What the helpers touch of `cpu_state`; `mem` is the rest of the machine, which an operand read
from memory may change. -/
structure DivCpu (M : Type) : Type where
  regs : Fin 8 → BitVec 32
  pc : BitVec 32
  eaaddr : BitVec 32
  fl : FlagState
  mem : M

/-- `src` as `rop_grp_muldiv` builds it: `fetchdat & 7`, or `0x100` for memory at `eaaddr`. -/
inductive GrpSrc : Type
  | reg (r : Fin 8)
  | mem
  deriving DecidableEq

/-- How a helper ends: it returns 0, it returns 1 because the operand read left `abrt` set, or it
has entered `x86_int(0)` and returns 1. -/
inductive DivExit (M : Type) : Type
  | returns (s : DivCpu M)
  | faulted (s : DivCpu M)
  | divideError (s : DivCpu M)

/-! ## Registers -/

section Registers

variable (regs : Fin 8 → BitVec 32)

def getr8 (r : Fin 8) : BitVec 8 :=
  if r.val &&& 4 ≠ 0 then (regs (Fin.ofNat 8 (r.val &&& 3))).extractLsb' 8 8
  else (regs (Fin.ofNat 8 (r.val &&& 3))).setWidth 8

def getr16 (r : Fin 8) : BitVec 16 := (regs r).setWidth 16

def getr32 (r : Fin 8) : BitVec 32 := regs r

/-- `getr8`, `getr16` and `getr32` by operand size. -/
def getr : (sz : Size) → Fin 8 → BitVec sz.bits
  | .b8 => getr8 regs
  | .b16 => getr16 regs
  | .b32 => getr32 regs

/-- `AX` and `DX` are registers 0 and 2 at 16 bits, `EAX` and `EDX` at 32. -/
def regAX : BitVec 16 := getr16 regs 0

def regDX : BitVec 16 := getr16 regs 2

def regEAX : BitVec 32 := getr32 regs 0

def regEDX : BitVec 32 := getr32 regs 2

/-- `AL = v`. -/
def setAL (v : BitVec 8) : Fin 8 → BitVec 32 := fun r =>
  if r = 0 then (regs 0).extractLsb' 8 24 ++ v else regs r

/-- `AH = v`. -/
def setAH (v : BitVec 8) : Fin 8 → BitVec 32 := fun r =>
  if r = 0 then (regs 0).extractLsb' 16 16 ++ v ++ (regs 0).setWidth 8 else regs r

/-- `cpu_state.regs[i].w = v`. -/
def setw (i : Fin 8) (v : BitVec 16) : Fin 8 → BitVec 32 := fun r =>
  if r = i then (regs i).extractLsb' 16 16 ++ v else regs r

/-- `cpu_state.regs[i].l = v`. -/
def setl (i : Fin 8) (v : BitVec 32) : Fin 8 → BitVec 32 := fun r => if r = i then v else regs r

end Registers

/-- Quotient and remainder in `AL` and `AH`, `AX` and `DX`, or `EAX` and `EDX`. -/
def storeDivided (regs : Fin 8 → BitVec 32) :
    (sz : Size) → (q r : BitVec sz.bits) → Fin 8 → BitVec 32
  | .b8, q, r => fun i => if i = 0 then (regs 0).extractLsb' 16 16 ++
    (r ++ q : BitVec 16) else regs i
  | .b16, q, r => fun i =>
      if i = 0 then (regs 0).extractLsb' 16 16 ++ (q : BitVec 16)
      else if i = 2 then (regs 2).extractLsb' 16 16 ++ (r : BitVec 16) else regs i
  | .b32, q, r => fun i => if i = 0 then q else if i = 2 then r else regs i

/-! ## The helpers -/

section Helpers

variable {M : Type}

/-- `readmemb`, `readmemw` and `readmeml`: the machine after the read, and the value unless the
read has set `abrt`. -/
abbrev ReadMem (M : Type) : Type :=
  (sz : Size) → M → BitVec 32 → BitVec 32 → M × Option (BitVec sz.bits)

variable (readmem : ReadMem M) (cpuIscyrix : Bool)
variable (src : GrpSrc) (segBase nextPc : BitVec 32) (s : DivCpu M)

/-- `WJIT_GRP_FETCH`: the operand, or the state in which its read has faulted. -/
def wjitGrpFetch (sz : Size) : Except (DivCpu M) (BitVec sz.bits × DivCpu M) :=
  let s := { s with pc := nextPc }
  match src with
  | .reg r => .ok (getr s.regs sz r, s)
  | .mem =>
      match readmem sz s.mem segBase s.eaaddr with
      | (mem, none) => .error { s with mem := mem }
      | (mem, some dst) => .ok (dst, { s with mem := mem })

/-- `flags_rebuild(); flags |= 0x8D5; flags &= ~1;`, not on a Cyrix. -/
def divFlagsByte (fl : FlagState) : FlagState :=
  if cpuIscyrix then fl
  else { flagsRebuild fl with flags := ((flagsRebuild fl).flags ||| 0x8d5) &&& ~~~1 }

/-- `setznp16` or `setznp32` of the quotient, not on a Cyrix. -/
def divFlags (sz : Size) (quotient : BitVec sz.bits) (fl : FlagState) : FlagState :=
  if cpuIscyrix then fl else setznp sz fl quotient

def wjitGrpDivB : Option (DivExit M) :=
  match wjitGrpFetch readmem src segBase nextPc s .b8 with
  | .error s => some (.faulted s)
  | .ok ((dst : BitVec 8), s) => do
      let src16 := regAX s.regs
      -- both operands are promoted to `int`
      let tempw ←
        if dst ≠ 0 then
          (hostSDiv (src16.setWidth 32) (dst.setWidth 32)).map (·.setWidth 16)
        else some (0 : BitVec 16)
      if dst ≠ 0 ∧ tempw &&& 0xff00 = 0 then
        let rem ← hostSRem (src16.setWidth 32) (dst.setWidth 32)
        let regs := setAH s.regs (rem.setWidth 8)
        let quo ← hostSDiv (src16.setWidth 32) (dst.setWidth 32)
        let regs := setAL regs ((quo &&& 0xff).setWidth 8)
        some (.returns { s with regs := regs, fl := divFlagsByte cpuIscyrix s.fl })
      else some (.divideError s)

def wjitGrpIdivB : Option (DivExit M) :=
  match wjitGrpFetch readmem src segBase nextPc s .b8 with
  | .error s => some (.faulted s)
  | .ok ((dst : BitVec 8), s) => do
      let tempws : BitVec 32 := (regAX s.regs).signExtend 32
      let tempws2 ← if dst ≠ 0 then hostSDiv tempws (dst.signExtend 32) else some 0
      let temps : BitVec 8 := (tempws2 &&& 0xff).setWidth 8
      if dst ≠ 0 ∧ temps.signExtend 32 = tempws2 then
        let rem ← hostSRem tempws (dst.signExtend 32)
        let regs := setAH s.regs ((rem &&& 0xff).setWidth 8)
        let regs := setAL regs ((tempws2 &&& 0xff).setWidth 8)
        some (.returns { s with regs := regs, fl := divFlagsByte cpuIscyrix s.fl })
      else some (.divideError s)

def wjitGrpDivW : Option (DivExit M) :=
  match wjitGrpFetch readmem src segBase nextPc s .b16 with
  | .error s => some (.faulted s)
  | .ok ((dst : BitVec 16), s) => do
      let templ : BitVec 32 := (regDX s.regs).setWidth 32 <<< 16 ||| (regAX s.regs).setWidth 32
      let templ2 ← if dst ≠ 0 then hostUDiv templ (dst.setWidth 32) else some 0
      if dst ≠ 0 ∧ templ2 &&& 0xffff0000 = 0 then
        let rem ← hostURem templ (dst.setWidth 32)
        let regs := setw s.regs 2 (rem.setWidth 16)
        let quo ← hostUDiv templ (dst.setWidth 32)
        let regs := setw regs 0 ((quo &&& 0xffff).setWidth 16)
        some (.returns { s with regs := regs, fl := divFlags cpuIscyrix .b16 (regAX regs) s.fl })
      else some (.divideError s)

def wjitGrpIdivW : Option (DivExit M) :=
  match wjitGrpFetch readmem src segBase nextPc s .b16 with
  | .error s => some (.faulted s)
  | .ok ((dst : BitVec 16), s) => do
      let tempws : BitVec 32 := (regDX s.regs).setWidth 32 <<< 16 ||| (regAX s.regs).setWidth 32
      let tempws2 ← if dst ≠ 0 then hostSDiv tempws (dst.signExtend 32) else some 0
      let temps16 : BitVec 16 := (tempws2 &&& 0xffff).setWidth 16
      if dst ≠ 0 ∧ temps16.signExtend 32 = tempws2 then
        let rem ← hostSRem tempws (dst.signExtend 32)
        let regs := setw s.regs 2 (rem.setWidth 16)
        let regs := setw regs 0 ((tempws2 &&& 0xffff).setWidth 16)
        some (.returns { s with regs := regs, fl := divFlags cpuIscyrix .b16 (regAX regs) s.fl })
      else some (.divideError s)

/-- `divl`: the registers it leaves, or none where it has raised `divexcp` and returns 1. -/
def divl (val : BitVec 32) (regs : Fin 8 → BitVec 32) : Option (Option (Fin 8 → BitVec 32)) :=
  if val = 0 then some none
  else do
    let num : BitVec 64 := (regEDX regs).setWidth 64 <<< 32 ||| (regEAX regs).setWidth 64
    let quo ← hostUDiv num (val.setWidth 64)
    let rem ← hostURem num (val.setWidth 64)
    let quo32 : BitVec 32 := (quo &&& 0xffffffff).setWidth 32
    if quo ≠ quo32.setWidth 64 then some none
    else some (some (setl (setl regs 2 (rem.setWidth 32)) 0 quo32))

/-- `idivl`, likewise. -/
def idivl (val : BitVec 32) (regs : Fin 8 → BitVec 32) : Option (Option (Fin 8 → BitVec 32)) :=
  if val = 0 then some none
  else do
    let num : BitVec 64 := (regEDX regs).setWidth 64 <<< 32 ||| (regEAX regs).setWidth 64
    let quo ← hostSDiv num (val.signExtend 64)
    let rem ← hostSRem num (val.signExtend 64)
    let quo32 : BitVec 32 := (quo &&& 0xffffffff).setWidth 32
    if quo ≠ quo32.signExtend 64 then some none
    else some (some (setl (setl regs 2 (rem.setWidth 32)) 0 quo32))

/-- `wjit_grp_div_l` and `wjit_grp_idiv_l`, around `divl` and `idivl`. -/
def wjitGrpLong (divide : BitVec 32 → (Fin 8 → BitVec 32) → Option (Option (Fin 8 → BitVec 32))) :
    Option (DivExit M) :=
  match wjitGrpFetch readmem src segBase nextPc s .b32 with
  | .error s => some (.faulted s)
  | .ok ((dst : BitVec 32), s) => do
      match ← divide dst s.regs with
      | none => some (.divideError s)
      | some regs =>
          some (.returns { s with
            regs := regs, fl := divFlags cpuIscyrix .b32 (regEAX regs) s.fl })

def wjitGrpDivL : Option (DivExit M) := wjitGrpLong readmem cpuIscyrix src segBase nextPc s divl

def wjitGrpIdivL : Option (DivExit M) := wjitGrpLong readmem cpuIscyrix src segBase nextPc s idivl

/-- The division columns of `wjit_grp_helpers`. -/
structure DivHelper : Type where
  signed : Bool
  sz : Size
  deriving DecidableEq

/-- The helper in a column and row of the table. -/
def DivHelper.run : DivHelper → Option (DivExit M)
  | ⟨false, .b8⟩ => wjitGrpDivB readmem cpuIscyrix src segBase nextPc s
  | ⟨true, .b8⟩ => wjitGrpIdivB readmem cpuIscyrix src segBase nextPc s
  | ⟨false, .b16⟩ => wjitGrpDivW readmem cpuIscyrix src segBase nextPc s
  | ⟨true, .b16⟩ => wjitGrpIdivW readmem cpuIscyrix src segBase nextPc s
  | ⟨false, .b32⟩ => wjitGrpDivL readmem cpuIscyrix src segBase nextPc s
  | ⟨true, .b32⟩ => wjitGrpIdivL readmem cpuIscyrix src segBase nextPc s

end Helpers

end PCemWeb
