import PCemWeb.Lib.PageWalk

/-!
# Address translation

`mmutranslatereal` walks the page tables of the guest, raises the page fault and marks the entries
used; `mmutranslate_noabrt` repeats the walk without side effects. The tables are in RAM, where
`mmu_readl`, `mmu_writel` and the `ram` array reach the same words. `-1` is returned on a fault.
-/

namespace PCemWeb.Memory

open PCemWeb.Lib

/-- `ABRT_PF`. -/
def abrtPf : BitVec 8 := 0xe

/-- `WP_FLAG`, in CR0. -/
def wpFlag : BitVec 32 := 0x10000

/-- `CR4_PSE`. -/
def cr4Pse : BitVec 32 := 0x10

/-- The state that a translation reads and writes. -/
structure Mmu where
  ram : Paging.Words
  cr0 : BitVec 32
  cr2 : BitVec 32
  cr3 : BitVec 32
  cr4 : BitVec 32
  /-- `cpu_state.seg_cs.access`. -/
  csAccess : BitVec 8
  cplOverride : Bool
  abrt : BitVec 8
  abrtError : BitVec 32
  mmuPerm : BitVec 32

namespace Mmu

/-- `CPL`. -/
def cpl (m : Mmu) : BitVec 8 := (m.csAccess >>> 5) &&& 3

/-- The word that an aligned address names. -/
def wordIndex (addr : BitVec 32) : BitVec 30 := addr.extractLsb' 2 30

/-- `mmu_readl`. -/
def mmuReadl (m : Mmu) (addr : BitVec 32) : BitVec 32 := m.ram (wordIndex addr)

/-- `mmu_writel`. -/
def mmuWritel (m : Mmu) (addr val : BitVec 32) : Mmu :=
  { m with ram := Function.update m.ram (wordIndex addr) val }

/-- `cr2 = addr` and the abort with its error code, as each of the three fault branches does. -/
def pageFault (m : Mmu) (addr temp : BitVec 32) (rw : Bool) : Mmu :=
  let temp := temp &&& 1
  let temp := if m.cpl = 3 then temp ||| 4 else temp
  let temp := if rw then temp ||| 2 else temp
  { m with cr2 := addr, abrt := abrtPf, abrtError := temp }

/-- The protection check of `mmutranslatereal`; `temp` holds the rights. -/
def denies (m : Mmu) (temp : BitVec 32) (rw : Bool) : Bool :=
  (m.cpl = 3 ∧ temp &&& 4 = 0 ∧ ¬ m.cplOverride) ∨
    (rw ∧ temp &&& 2 = 0 ∧ ((m.cpl = 3 ∧ ¬ m.cplOverride) ∨ m.cr0 &&& wpFlag ≠ 0))

/-- `mmutranslatereal`. -/
def mmutranslatereal (m : Mmu) (addr : BitVec 32) (rw : Bool) : BitVec 32 × Mmu :=
  if m.abrt ≠ 0 then (-1, m)
  else
    let addr2 := (m.cr3 &&& ~~~0xfff#32) + ((addr >>> 20) &&& 0xffc)
    let temp2 := m.mmuReadl addr2
    if temp2 &&& 1 = 0 then (-1, m.pageFault addr temp2 rw)
    else if temp2 &&& 0x80 ≠ 0 ∧ m.cr4 &&& cr4Pse ≠ 0 then
      if m.denies temp2 rw then (-1, m.pageFault addr temp2 rw)
      else
        ((temp2 &&& ~~~0x3fffff#32) + (addr &&& 0x3fffff),
          { m.mmuWritel addr2 (m.mmuReadl addr2 ||| 0x20) with mmuPerm := temp2 &&& 4 })
    else
      let addr3 := (temp2 &&& ~~~0xfff#32) + ((addr >>> 10) &&& 0xffc)
      let temp := m.mmuReadl addr3
      let temp3 := temp &&& temp2
      if temp &&& 1 = 0 ∨ m.denies temp3 rw then (-1, m.pageFault addr temp rw)
      else
        ((temp &&& ~~~0xfff#32) + (addr &&& 0xfff),
          ({ m with mmuPerm := temp &&& 4 }.mmuWritel addr2 (temp2 ||| 0x20)).mmuWritel addr3
            (temp ||| (if rw then 0x60 else 0x20)))

/-- The protection check of `mmutranslate_noabrt`, which passes over `cpl_override` on writes. -/
def deniesNoabrt (m : Mmu) (temp : BitVec 32) (rw : Bool) : Bool :=
  (m.cpl = 3 ∧ temp &&& 4 = 0 ∧ ¬ m.cplOverride) ∨
    (rw ∧ temp &&& 2 = 0 ∧ (m.cpl = 3 ∨ m.cr0 &&& wpFlag ≠ 0))

/-- `mmutranslate_noabrt`. -/
def mmutranslateNoabrt (m : Mmu) (addr : BitVec 32) (rw : Bool) : BitVec 32 :=
  if m.abrt ≠ 0 then -1
  else
    let addr2 := (m.cr3 &&& ~~~0xfff#32) + ((addr >>> 20) &&& 0xffc)
    let temp2 := m.mmuReadl addr2
    if temp2 &&& 1 = 0 then -1
    else if temp2 &&& 0x80 ≠ 0 ∧ m.cr4 &&& cr4Pse ≠ 0 then
      if m.deniesNoabrt temp2 rw then -1
      else (temp2 &&& ~~~0x3fffff#32) + (addr &&& 0x3fffff)
    else
      let temp := m.mmuReadl ((temp2 &&& ~~~0xfff#32) + ((addr >>> 10) &&& 0xffc))
      let temp3 := temp &&& temp2
      if temp &&& 1 = 0 ∨ m.deniesNoabrt temp3 rw then -1
      else (temp &&& ~~~0xfff#32) + (addr &&& 0xfff)

end Mmu

end PCemWeb.Memory
