import PCemWeb.Cpu.Descriptor
import PCemWeb.Cpu.SegLoadExact

/-!
# Which segment loads are atomic

A load in protected mode should either cache exactly the descriptor or fault and leave the register,
the stack size, the status word and memory alone. The code fills the register before the write of
the accessed bit that can fault, compares only the first byte of a descriptor with the limit of its
table, and lets the low bound of an expand-down segment wrap. `LoadServed` is when none of this
shows.
-/

namespace PCemWeb.Cpu

/-! ## Memory -/

/-- Linear memory, and the abort with the error code where an access of a word faults. -/
structure SegMemory where
  mem : BitVec 32 → BitVec 8
  readFault : BitVec 32 → Option (BitVec 8 × BitVec 32)
  writeFault : BitVec 32 → Option (BitVec 8 × BitVec 32)
  aborts : ∀ a f, readFault a = some f ∨ writeFault a = some f → f.1 ≠ 0

namespace SegMemory

variable (b : SegMemory)

def word (a : BitVec 32) : BitVec 16 := b.mem (a + 1) ++ b.mem a

def bus : Bus where
  readmemw a :=
    match b.readFault a with
    | some f => .error f
    | none => .ok (b.word a)
  writeFault := b.writeFault

/-- The descriptor at an address. -/
def descriptor (addr : BitVec 32) : Segdat :=
  ⟨b.word addr, b.word (addr + 2), b.word (addr + 4), b.word (addr + 6)⟩

/-- A read of the descriptor faults. -/
def ReadFaults (addr : BitVec 32) : Prop :=
  ∃ k ∈ [(0 : BitVec 32), 2, 4, 6], b.readFault (addr + k) ≠ none

/-- Memory after the write of the accessed bit; a faulting write leaves it. -/
def setAccessed (addr : BitVec 32) (d : Segdat) : BitVec 32 → BitVec 8 :=
  if b.writeFault (addr + 4) ≠ none then b.mem
  else fun a =>
    if a = addr + 4 then (d.w2 ||| 0x100).setWidth 8
    else if a = addr + 5 then ((d.w2 ||| 0x100) >>> 8).setWidth 8
    else b.mem a

end SegMemory

/-! ## Selectors -/

/-- The offset of the descriptor in its table. -/
def tableOffset (seg : BitVec 16) : BitVec 32 := (seg &&& ~~~7#16).setWidth 32

namespace SegState

variable (c : SegState)

def tableOf (seg : BitVec 16) : Table := if seg &&& 4 ≠ 0 then c.ldt else c.gdt

def descriptorAt (seg : BitVec 16) : BitVec 32 := tableOffset seg + (c.tableOf seg).base

/-- `loadseg` on memory. -/
def loadsegMem (b : SegMemory) (seg : BitVec 16) (name : SegName) : BitVec 32 → BitVec 8 :=
  if c.protectedMode && !c.vm then
    if seg &&& ~~~3#16 = 0 then b.mem
    else
      match c.checkSeg b.bus seg name with
      | .error _ => b.mem
      | .ok (_, addr, segdat) => b.setAccessed addr segdat
  else b.mem

end SegState

/-! ## What a load should do -/

section Spec

variable (type : CpuType) (c : SegState) (b : SegMemory) (seg : BitVec 16) (name : SegName)

/-- The descriptor that the selector names. -/
def namedBy : Segdat := b.descriptor (c.descriptorAt seg)

/-- A load has to be refused, or touching the descriptor faults. A null selector is refused for
`SS` only. -/
def ShouldFault : Prop :=
  if seg &&& ~~~3#16 = 0 then name = .ss
  else
    (c.tableOf seg).limit.toNat < (tableOffset seg).toNat + 7 ∨
      b.ReadFaults (c.descriptorAt seg) ∨
      ¬(namedBy c b seg).Permits c.cpl.toNat (seg &&& 3).toNat name ∨
      b.writeFault (c.descriptorAt seg + 4) ≠ none

/-- The register caches the descriptor, and the status word and the stack size agree with it. -/
structure Loaded (e : SegState) : Prop where
  cached : (namedBy c b seg).CachedIn type.is386 seg (e.segs name)
  others : ∀ other ≠ name, e.segs other = c.segs other
  ds : name = .ds → (e.curStatus.getLsbD 8 = false ↔ (namedBy c b seg).Flat type.is386)
  ss : name = .ss → (e.curStatus.getLsbD 9 = false ↔ (namedBy c b seg).Flat type.is386)
  stack32 : name = .ss →
    e.stack32 = (namedBy c b seg).big ∧ e.curStatus.getLsbD 1 = (namedBy c b seg).big

/-- The register is marked null. -/
structure LoadedNull (e : SegState) : Prop where
  null : (e.segs name).seg = 0 ∧ (e.segs name).base = -1 ∧ (e.segs name).access = 0
  others : ∀ other ≠ name, e.segs other = c.segs other
  ds : name = .ds → e.curStatus.getLsbD 8 = true

/-- All that a refused load must leave alone. -/
structure Untouched (e : SegState) : Prop where
  segs : e.segs = c.segs
  stack32 : e.stack32 = c.stack32
  status : e.curStatus = c.curStatus

/-- The load succeeds and caches the descriptor, or it faults and nothing has changed. -/
def LoadAtomic : Prop :=
  let r := c.loadseg type b.bus seg name
  (¬ShouldFault c b seg name ∧ r.1 = 0 ∧
      if seg &&& ~~~3#16 = 0 then LoadedNull c name r.2 else Loaded type c b seg name r.2) ∨
    (ShouldFault c b seg name ∧ r.1 ≠ 0 ∧ r.2.abrt ≠ 0 ∧ Untouched c r.2 ∧
      c.loadsegMem b seg name = b.mem)

/-! ## When it does -/

/-- A register that already holds all that `do_seg_load` stores for the descriptor `d`. -/
structure HeldBy (is386 : Bool) (seg : BitVec 16) (d : Segdat) (s : X86Seg) : Prop where
  selector : s.seg = seg
  base : s.base.toNat = d.baseField is386
  limitRaw : s.limitRaw.toNat = d.limitField
  limit : s.limit.toNat = d.limitBytes
  access : s.access.toNat = d.accessByte
  access2 : s.access2 = (d.w3 &&& 0xf0).setWidth 8
  limitLow : s.limitLow.toNat = if d.expandDown then (d.limitBytes + 1) % 4294967296 else 0
  limitHigh : s.limitHigh.toNat =
    if d.expandDown then if d.big then 4294967295 else 65535 else d.limitBytes
  checked : s.checked = false

/-- The load would change nothing. -/
structure HoldsAlready : Prop where
  cache : HeldBy type.is386 seg (namedBy c b seg) (c.segs name)
  flat : ∀ k, name = .ss ∧ k = 9 ∨ name = .ds ∧ k = 8 →
    c.curStatus.getLsbD k = !(c.segs name).flat
  stack32 : name = .ss →
    c.stack32 = (namedBy c b seg).big ∧ c.curStatus.getLsbD 1 = (namedBy c b seg).big

/-- A load that the checks of the code let through has no reason to fault, or faults with nothing to
undo. -/
def LoadServed : Prop :=
  seg &&& ~~~3#16 = 0 ∨ (c.tableOf seg).limit ≤ tableOffset seg ∨
    b.ReadFaults (c.descriptorAt seg) ∨
    ¬(namedBy c b seg).Permits c.cpl.toNat (seg &&& 3).toNat name ∨
    if c.abrt ≠ 0 then
      -- an abort that is pending ends the load after the reads
      (c.tableOf seg).limit.toNat < (tableOffset seg).toNat + 7 ∨
        b.writeFault (c.descriptorAt seg + 4) ≠ none
    else if b.writeFault (c.descriptorAt seg + 4) ≠ none then HoldsAlready type c b seg name
    else
      (tableOffset seg).toNat + 7 ≤ (c.tableOf seg).limit.toNat ∧
        ¬((namedBy c b seg).expandDown = true ∧ (namedBy c b seg).limitBytes = 4294967295)

end Spec

/-! ## Faults of the checks -/

/-- Only the abort and its error code are set. -/
def Faulted (c e : SegState) : Prop :=
  ∃ f : BitVec 8 × BitVec 32, f.1 ≠ 0 ∧ e = { c with abrt := f.1, abrtError := f.2 }

section Checks

variable {c e : SegState} {b : SegMemory} {seg : BitVec 16} {name : SegName} {addr : BitVec 32}
  {d : Segdat} {type : CpuType}

theorem Faulted.untouched (faulted : Faulted c e) : Untouched c e ∧ e.abrt ≠ 0 := by
  obtain ⟨f, abort, rfl⟩ := faulted
  exact ⟨⟨rfl, rfl, rfl⟩, abort⟩

theorem faulted_gpf (error : BitVec 16) : Faulted c (c.x86gpf error) :=
  ⟨(0xd, error.setWidth 32), show (0xd : BitVec 8) ≠ 0 from by decide, rfl⟩

theorem faulted_ss (error : BitVec 16) : Faulted c (c.x86ss error) :=
  ⟨(0xc, error.setWidth 32), show (0xc : BitVec 8) ≠ 0 from by decide, rfl⟩

theorem faulted_np (error : BitVec 16) : Faulted c (c.x86np error) :=
  ⟨(0xb, error.setWidth 32), show (0xb : BitVec 8) ≠ 0 from by decide, rfl⟩

/-! ### Reading the descriptor -/

theorem readmemw_ok {a : BitVec 32} (reads : b.readFault a = none) :
    b.bus.readmemw a = .ok (b.word a) := by
  show (match b.readFault a with | some f => Except.error f | none => .ok (b.word a)) = _
  rw [reads]

theorem readmemw_fault {a : BitVec 32} {f : BitVec 8 × BitVec 32}
    (faults : b.readFault a = some f) :
    b.bus.readmemw a = .error f := by
  show (match b.readFault a with | some f => Except.error f | none => .ok (b.word a)) = _
  rw [faults]

theorem readSegdat_ok (reads : ¬b.ReadFaults addr) (clear : c.abrt = 0) :
    c.readSegdat b.bus addr = .ok (b.descriptor addr) := by
  have each {k : BitVec 32} (listed : k ∈ [(0 : BitVec 32), 2, 4, 6]) :
      b.readFault (addr + k) = none := by
    by_contra faults
    exact reads ⟨k, listed, faults⟩
  have first : b.readFault addr = none := by
    have same : addr + 0 = addr := BitVec.add_zero addr
    have zero := each (k := 0) (by decide)
    rwa [same] at zero
  simp only [SegState.readSegdat, readmemw_ok first, readmemw_ok (each (k := 2) (by decide)),
    readmemw_ok (each (k := 4) (by decide)), readmemw_ok (each (k := 6) (by decide))]
  exact if_neg fun pending => pending clear

theorem readSegdat_fault (faults : b.ReadFaults addr) :
    ∃ e, c.readSegdat b.bus addr = .error e ∧ Faulted c e := by
  -- the first of the four reads that faults sets the abort
  have first (a : BitVec 32) (f : BitVec 8 × BitVec 32) (at_ : b.readFault a = some f) :
      Faulted c { c with abrt := f.1, abrtError := f.2 } := ⟨f, b.aborts a f (.inl at_), rfl⟩
  unfold SegState.readSegdat
  cases w0 : b.readFault addr with
  | some f => exact ⟨_, by rw [readmemw_fault w0]; rfl, first _ f w0⟩
  | none =>
    cases w1 : b.readFault (addr + 2) with
    | some f => exact ⟨_, by rw [readmemw_ok w0, readmemw_fault w1]; rfl, first _ f w1⟩
    | none =>
      cases w2 : b.readFault (addr + 4) with
      | some f =>
        exact ⟨_, by rw [readmemw_ok w0, readmemw_ok w1, readmemw_fault w2]; rfl, first _ f w2⟩
      | none =>
        cases w3 : b.readFault (addr + 6) with
        | some f =>
          refine ⟨_, ?_, first _ f w3⟩
          rw [readmemw_ok w0, readmemw_ok w1, readmemw_ok w2, readmemw_fault w3]
          rfl
        | none =>
          obtain ⟨k, listed, fault⟩ := faults
          simp only [List.mem_cons, List.not_mem_nil, or_false] at listed
          rcases listed with rfl | rfl | rfl | rfl
          · have same : addr + 0 = addr := BitVec.add_zero addr
            rw [same] at fault
            exact absurd w0 fault
          · exact absurd w1 fault
          · exact absurd w2 fault
          · exact absurd w3 fault

/-! ### Types and privileges -/

theorem toNat_dpl : (SegState.dpl d).toNat = d.privilege := by
  rw [SegState.dpl, BitVec.toNat_and, BitVec.toNat_ushiftRight, Nat.shiftRight_eq_div_pow]
  exact Nat.and_two_pow_sub_one_eq_mod _ 2

theorem toNat_cpl : (c.cpl.setWidth 16).toNat = c.cpl.toNat := by
  have bound := c.cpl.isLt
  rw [BitVec.toNat_setWidth]
  omega

theorem present_iff : SegState.present d = true ↔ d.isPresent = true := by
  rw [SegState.present, decide_eq_true_eq, ne_eq, ← Bool.not_eq_false, not_iff_not]
  exact Lib.and_twoPow_eq_zero d.w2 (k := 15) (by decide)

theorem descriptorType_lt : (SegState.descriptorType d).toNat < 32 := by
  rw [SegState.descriptorType, BitVec.toNat_and]
  exact Nat.lt_of_le_of_lt Nat.and_le_right (by decide)

theorem descriptorType_bits : d.application = (SegState.descriptorType d).getLsbD 4 ∧
    d.code = (SegState.descriptorType d).getLsbD 3 ∧
    d.downOrConforming = (SegState.descriptorType d).getLsbD 2 ∧
    d.writableOrReadable = (SegState.descriptorType d).getLsbD 1 := by
  simp [SegState.descriptorType, Segdat.application, Segdat.code, Segdat.downOrConforming,
    Segdat.writableOrReadable]

/-- A fact about the 32 types. -/
theorem forall_types {p : BitVec 16 → Prop} (all : ∀ k < 32, p (BitVec.ofNat 16 k)) :
    p (SegState.descriptorType d) := by
  have same : BitVec.ofNat 16 (SegState.descriptorType d).toNat = SegState.descriptorType d :=
    BitVec.eq_of_toNat_eq (by
      rw [BitVec.toNat_ofNat]
      exact Nat.mod_eq_of_lt (BitVec.isLt _))
  rw [← same]
  exact all _ descriptorType_lt

theorem stackType_iff : SegState.descriptorType d ∈ [(0x12 : BitVec 16), 0x13, 0x16, 0x17] ↔
    (d.application && !d.code && d.writableOrReadable) = true := by
  obtain ⟨application, code, -, writable⟩ := @descriptorType_bits d
  rw [application, code, writable]
  refine forall_types (p := fun t => t ∈ [(0x12 : BitVec 16), 0x13, 0x16, 0x17] ↔
    (t.getLsbD 4 && !t.getLsbD 3 && t.getLsbD 1) = true) ?_
  decide

theorem dataType_iff : (SegState.descriptorType d ∈
      [(0x10 : BitVec 16), 0x11, 0x12, 0x13, 0x14, 0x15, 0x16, 0x17, 0x1a, 0x1b] ↔
      (d.application && (!d.code || d.writableOrReadable) && !(d.code && d.downOrConforming)) =
        true) ∧
    (SegState.descriptorType d ∈ [(0x1e : BitVec 16), 0x1f] ↔
      (d.application && (!d.code || d.writableOrReadable) && (d.code && d.downOrConforming)) =
        true) := by
  obtain ⟨application, code, conforming, readable⟩ := @descriptorType_bits d
  rw [application, code, conforming, readable]
  refine forall_types (p := fun t => (t ∈
      [(0x10 : BitVec 16), 0x11, 0x12, 0x13, 0x14, 0x15, 0x16, 0x17, 0x1a, 0x1b] ↔
      (t.getLsbD 4 && (!t.getLsbD 3 || t.getLsbD 1) && !(t.getLsbD 3 && t.getLsbD 2)) = true) ∧
    (t ∈ [(0x1e : BitVec 16), 0x1f] ↔
      (t.getLsbD 4 && (!t.getLsbD 3 || t.getLsbD 1) && (t.getLsbD 3 && t.getLsbD 2)) = true)) ?_
  decide

/-! ### What the checks let through -/

theorem rpl_eq_iff : seg &&& 3 = c.cpl.setWidth 16 ↔ (seg &&& 3).toNat = c.cpl.toNat := by
  rw [← toNat_cpl]
  exact BitVec.toNat_inj.symm

theorem dpl_eq_iff : SegState.dpl d = c.cpl.setWidth 16 ↔ d.privilege = c.cpl.toNat := by
  rw [← toNat_cpl, ← toNat_dpl]
  exact BitVec.toNat_inj.symm

theorem big_decide : decide (d.w3 &&& 0x40 ≠ 0) = d.big :=
  Bool.eq_iff_iff.mpr (by rw [decide_eq_true_eq]; exact Segdat.big_iff)

theorem checkStack_ok (named : ¬seg &&& ~~~3#16 = 0)
    (permits : d.PermitsStack c.cpl.toNat (seg &&& 3).toNat) :
    c.checkStack seg d = .ok (c.setStack32 d.big) := by
  obtain ⟨rpl, dpl, type, present⟩ := permits
  have privileged : ¬(seg &&& 3 ≠ c.cpl.setWidth 16 ∨ SegState.dpl d ≠ c.cpl.setWidth 16) := by
    rw [not_or, not_not, not_not]
    exact ⟨rpl_eq_iff.mpr rpl, dpl_eq_iff.mpr dpl⟩
  have absent : ¬(!SegState.present d) = true := by
    rw [present_iff.mpr present]
    decide
  rw [SegState.checkStack, if_neg named, if_neg privileged,
    if_neg (not_not.mpr (stackType_iff.mpr type)), if_neg absent, big_decide]

theorem checkStack_fault (named : ¬seg &&& ~~~3#16 = 0)
    (refused : ¬d.PermitsStack c.cpl.toNat (seg &&& 3).toNat) :
    ∃ e, c.checkStack seg d = .error e ∧ Faulted c e := by
  unfold SegState.checkStack
  rw [if_neg named]
  split
  · exact ⟨_, rfl, faulted_gpf _⟩
  next privileged =>
    split
    · exact ⟨_, rfl, faulted_gpf _⟩
    next type =>
      split
      · exact ⟨_, rfl, faulted_ss _⟩
      next present =>
        rw [not_or, not_not, not_not] at privileged
        rw [Bool.not_eq_true, Bool.not_eq_false'] at present
        exact absurd ⟨rpl_eq_iff.mp privileged.1, dpl_eq_iff.mp privileged.2,
          stackType_iff.mp (not_not.mp type), present_iff.mp present⟩ refused

/-- The privileges that the code compares for data and non-conforming code. -/
theorem reached_iff : ¬(seg &&& 3 > SegState.dpl d ∨ c.cpl.setWidth 16 > SegState.dpl d) ↔
    (seg &&& 3).toNat ≤ d.privilege ∧ c.cpl.toNat ≤ d.privilege := by
  rw [not_or, gt_iff_lt, gt_iff_lt, BitVec.lt_def, BitVec.lt_def, toNat_dpl, toNat_cpl, Nat.not_lt,
    Nat.not_lt]

theorem checkData_ok (permits : d.PermitsData c.cpl.toNat (seg &&& 3).toNat) :
    c.checkData seg d = .ok c := by
  obtain ⟨data, privileged, -⟩ := permits
  obtain ⟨strict, conforming⟩ := @dataType_iff d
  rw [SegState.checkData]
  rcases Bool.eq_false_or_eq_true (d.code && d.downOrConforming) with free | strict_
  · rw [if_neg (mt strict.mp (by rw [data, free]; decide)),
      if_pos (conforming.mpr (by rw [data, free]; rfl))]
  · rw [if_pos (strict.mpr (by rw [data, strict_]; rfl))]
    rcases privileged with free | reached
    · rw [strict_] at free
      exact absurd free Bool.false_ne_true
    · exact if_neg (reached_iff.mpr reached)

theorem checkData_fault (refused : ¬d.PermitsData c.cpl.toNat (seg &&& 3).toNat)
    (present : d.isPresent = true) : ∃ e, c.checkData seg d = .error e ∧ Faulted c e := by
  obtain ⟨strict, conforming⟩ := @dataType_iff d
  unfold SegState.checkData
  split
  next type =>
    have bits := strict.mp type
    rw [Bool.and_eq_true] at bits
    split
    · exact ⟨_, rfl, faulted_gpf _⟩
    next reached => exact absurd ⟨bits.1, .inr (reached_iff.mp reached), present⟩ refused
  next other =>
    split
    next type =>
      have bits := conforming.mp type
      rw [Bool.and_eq_true] at bits
      exact absurd ⟨bits.1, .inl bits.2, present⟩ refused
    · exact ⟨_, rfl, faulted_gpf _⟩

theorem checkData_cases : c.checkData seg d = .ok c ∨
    ∃ e, c.checkData seg d = .error e ∧ Faulted c e := by
  unfold SegState.checkData
  split
  · split
    · exact .inr ⟨_, rfl, faulted_gpf _⟩
    · exact .inl rfl
  split
  · exact .inl rfl
  · exact .inr ⟨_, rfl, faulted_gpf _⟩

theorem descriptorAddr_ok (inside : ¬(c.tableOf seg).limit ≤ tableOffset seg) :
    c.descriptorAddr seg = .ok (c.descriptorAt seg) :=
  if_neg inside

theorem descriptorAddr_fault (outside : (c.tableOf seg).limit ≤ tableOffset seg) :
    c.descriptorAddr seg = .error (c.x86gpf (seg &&& ~~~3#16)) :=
  if_pos outside

/-- An abort that is pending ends the load like a fault of a read. -/
theorem readSegdat_refused (refused : c.abrt ≠ 0 ∨ b.ReadFaults addr) :
    ∃ e, c.readSegdat b.bus addr = .error e ∧ Untouched c e ∧ e.abrt ≠ 0 := by
  by_cases faults : b.ReadFaults addr
  · obtain ⟨e, ran, faulted⟩ := @readSegdat_fault c b addr faults
    exact ⟨e, ran, faulted.untouched⟩
  · have pending := refused.resolve_right faults
    refine ⟨c, ?_, ⟨rfl, rfl, rfl⟩, pending⟩
    have clear := @readSegdat_ok { c with abrt := 0 } b addr faults rfl
    unfold SegState.readSegdat at clear ⊢
    dsimp only at clear ⊢
    split at clear
    · cases clear
    · rw [if_pos pending]

/-- The type and privilege check of a register other than `CS`. -/
def checkType (c : SegState) (seg : BitVec 16) (name : SegName) (d : Segdat) :
    Except SegState SegState :=
  if name = .ss then c.checkStack seg d else c.checkData seg d

theorem checkSeg_read (other : name ≠ .cs) (inside : ¬(c.tableOf seg).limit ≤ tableOffset seg)
    (read : c.readSegdat b.bus (c.descriptorAt seg) = .ok d) :
    c.checkSeg b.bus seg name = (checkType c seg name d).bind fun e =>
      if !SegState.present d then .error (e.x86np (seg &&& 0xfffc))
      else .ok (e, c.descriptorAt seg, d) := by
  simp only [SegState.checkSeg, bind, Except.bind, descriptorAddr_ok inside, read]
  cases name with
  | cs => exact absurd rfl other
  | ss => rfl
  | ds => rfl
  | es => rfl
  | fs => rfl
  | gs => rfl

theorem checkSeg_ok (other : name ≠ .cs) (named : ¬seg &&& ~~~3#16 = 0)
    (inside : ¬(c.tableOf seg).limit ≤ tableOffset seg)
    (reads : ¬b.ReadFaults (c.descriptorAt seg))
    (permits : (namedBy c b seg).Permits c.cpl.toNat (seg &&& 3).toNat name) (clear : c.abrt = 0) :
    c.checkSeg b.bus seg name =
      .ok (if name = .ss then c.setStack32 (namedBy c b seg).big else c, c.descriptorAt seg,
        namedBy c b seg) := by
  have absent (present : (namedBy c b seg).isPresent = true) :
      ¬(!SegState.present (namedBy c b seg)) = true := by
    rw [present_iff.mpr present]
    decide
  rw [checkSeg_read other inside (readSegdat_ok reads clear), checkType]
  unfold Segdat.Permits at permits
  by_cases stack : name = .ss
  · rw [if_pos stack] at permits ⊢
    rw [if_pos stack]
    show (c.checkStack seg (namedBy c b seg)).bind _ = _
    rw [checkStack_ok named permits]
    exact if_neg (absent permits.2.2.2)
  · rw [if_neg stack] at permits ⊢
    rw [if_neg stack]
    show (c.checkData seg (namedBy c b seg)).bind _ = _
    rw [checkData_ok permits]
    exact if_neg (absent permits.2.2)

theorem checkSeg_refused (other : name ≠ .cs) (named : ¬seg &&& ~~~3#16 = 0)
    (refused : c.abrt ≠ 0 ∨ (c.tableOf seg).limit ≤ tableOffset seg ∨
      b.ReadFaults (c.descriptorAt seg) ∨
      ¬(namedBy c b seg).Permits c.cpl.toNat (seg &&& 3).toNat name) :
    ∃ e, c.checkSeg b.bus seg name = .error e ∧ Untouched c e ∧ e.abrt ≠ 0 := by
  by_cases inside : (c.tableOf seg).limit ≤ tableOffset seg
  · refine ⟨_, ?_, (faulted_gpf (seg &&& ~~~3#16)).untouched⟩
    simp only [SegState.checkSeg, bind, Except.bind, descriptorAddr_fault inside]
  by_cases unread : c.abrt ≠ 0 ∨ b.ReadFaults (c.descriptorAt seg)
  · obtain ⟨e, ran, untouched⟩ := readSegdat_refused unread
    refine ⟨e, ?_, untouched⟩
    simp only [SegState.checkSeg, bind, Except.bind, descriptorAddr_ok inside, ran]
  rw [not_or, not_not] at unread
  have denied : ¬(namedBy c b seg).Permits c.cpl.toNat (seg &&& 3).toNat name := by
    rcases refused with pending | outside | faults | denied
    · exact absurd unread.1 pending
    · exact absurd outside inside
    · exact absurd faults unread.2
    · exact denied
  rw [checkSeg_read other inside (readSegdat_ok unread.2 unread.1), checkType]
  unfold Segdat.Permits at denied
  by_cases stack : name = .ss
  · rw [if_pos stack] at denied ⊢
    obtain ⟨e, ran, faulted⟩ := checkStack_fault named denied
    refine ⟨e, ?_, faulted.untouched⟩
    show (c.checkStack seg (namedBy c b seg)).bind _ = _
    rw [ran]
    rfl
  · rw [if_neg stack] at denied ⊢
    show ∃ e, (c.checkData seg (namedBy c b seg)).bind _ = _ ∧ _
    cases present : (namedBy c b seg).isPresent with
    | true =>
      obtain ⟨e, ran, faulted⟩ := checkData_fault denied present
      refine ⟨e, ?_, faulted.untouched⟩
      rw [ran]
      rfl
    | false =>
      have absent : (!SegState.present (namedBy c b seg)) = true := by
        rw [Bool.not_eq_true', ← Bool.not_eq_true, present_iff, present]
        decide
      rcases @checkData_cases c seg (namedBy c b seg) with ran | ⟨e, ran, faulted⟩
      · refine ⟨_, ?_, (faulted_np (seg &&& 0xfffc)).untouched⟩
        rw [ran]
        exact if_pos absent
      · refine ⟨e, ?_, faulted.untouched⟩
        rw [ran]
        rfl

end Checks

/-! ## The load once the checks have passed -/

/-- The cache that `loadseg` leaves. -/
def filledCache (type : CpuType) (seg : BitVec 16) (d : Segdat) (s : X86Seg) : X86Seg :=
  { s.ofSegdat type d with seg, checked := false }

/-- The register, the stack size and the status word after the load. -/
structure Filled (type : CpuType) (c : SegState) (seg : BitVec 16) (name : SegName) (d : Segdat)
    (e : SegState) : Prop where
  segs : e.segs = Function.update c.segs name (filledCache type seg d (c.segs name))
  stack32 : e.stack32 = if name = .ss then d.big else c.stack32
  status : ∀ k, e.curStatus.getLsbD k =
    if name = .ss ∧ k = 9 ∨ name = .ds ∧ k = 8 then
      !(filledCache type seg d (c.segs name)).flat
    else if name = .ss ∧ k = 1 then d.big
    else c.curStatus.getLsbD k

section Fill

variable {type : CpuType} {c : SegState} {b : SegMemory} {seg : BitVec 16} {name : SegName}
  {d : Segdat} {e : SegState} {addr : BitVec 32}

/-- The state that `loadseg` leaves when the checks leave `c`. -/
def fill (type : CpuType) (b : SegMemory) (c : SegState) (seg : BitVec 16) (name : SegName)
    (addr : BitVec 32) (d : Segdat) : SegState :=
  let c := c.setSeg name { c.segs name with seg }
  let c := (c.doSegLoad type name d).setAccessed b.bus addr
  let c := c.setSeg name { c.segs name with checked := false }
  c.updateFlat name

theorem loadseg_error (prot : (c.protectedMode && !c.vm) = true) (named : ¬seg &&& ~~~3#16 = 0)
    (ran : c.checkSeg b.bus seg name = .error e) : c.loadseg type b.bus seg name = (1, e) := by
  rw [SegState.loadseg, if_pos prot, if_neg named, ran]

theorem loadseg_ok (prot : (c.protectedMode && !c.vm) = true) (named : ¬seg &&& ~~~3#16 = 0)
    (ran : c.checkSeg b.bus seg name = .ok (e, addr, d)) :
    c.loadseg type b.bus seg name =
      ((fill type b e seg name addr d).abrt, fill type b e seg name addr d) := by
  rw [SegState.loadseg, if_pos prot, if_neg named, ran]
  rfl

theorem segs_updateFlat : (c.updateFlat name).segs = c.segs := by
  cases name <;> rfl

theorem stack32_updateFlat : (c.updateFlat name).stack32 = c.stack32 := by
  cases name <;> rfl

theorem abrt_updateFlat : (c.updateFlat name).abrt = c.abrt := by
  cases name <;> rfl

theorem getLsbD_updateFlat (k : Nat) : (c.updateFlat name).curStatus.getLsbD k =
    if name = .ss ∧ k = 9 ∨ name = .ds ∧ k = 8 then !(c.segs name).flat
    else c.curStatus.getLsbD k := by
  cases name with
  | ds =>
    have bit := SegState.getLsbD_notFlatDs (c := c) (!(c.segs .ds).flat) k
    simpa [SegState.updateFlat] using bit
  | ss =>
    have bit := SegState.getLsbD_notFlatSs (c := c) (!(c.segs .ss).flat) k
    simpa [SegState.updateFlat] using bit
  | cs => simp [SegState.updateFlat]
  | es => simp [SegState.updateFlat]
  | fs => simp [SegState.updateFlat]
  | gs => simp [SegState.updateFlat]

theorem setAccessed_keeps : (c.setAccessed b.bus addr).segs = c.segs ∧
    (c.setAccessed b.bus addr).stack32 = c.stack32 ∧
    (c.setAccessed b.bus addr).curStatus = c.curStatus := by
  unfold SegState.setAccessed
  split
  · exact ⟨rfl, rfl, rfl⟩
  · exact ⟨rfl, rfl, rfl⟩

theorem abrt_setAccessed : (c.setAccessed b.bus addr).abrt =
    (b.writeFault (addr + 4)).elim c.abrt Prod.fst := by
  have bus : b.bus.writeFault = b.writeFault := rfl
  unfold SegState.setAccessed
  rw [bus]
  cases b.writeFault (addr + 4) <;> rfl

theorem filledCache_seg (s : X86Seg) :
    { ({ s with seg } : X86Seg).ofSegdat type d with checked := false } =
      filledCache type seg d s := by
  unfold filledCache X86Seg.ofSegdat
  dsimp only
  split <;> rfl

theorem segs_doSegLoad : ((c.setSeg name { c.segs name with seg }).doSegLoad type name d).segs =
    Function.update c.segs name (({ c.segs name with seg } : X86Seg).ofSegdat type d) := by
  unfold SegState.doSegLoad
  rw [segs_updateFlat]
  show Function.update (Function.update c.segs name _) name
    ((Function.update c.segs name _ name).ofSegdat type d) = _
  rw [Function.update_idem, Function.update_self]

theorem segs_fill : (fill type b c seg name addr d).segs =
    Function.update c.segs name (filledCache type seg d (c.segs name)) := by
  have loaded : (((c.setSeg name { c.segs name with seg }).doSegLoad type name d).setAccessed b.bus
      addr).segs = _ := setAccessed_keeps.1.trans segs_doSegLoad
  have unchecked (m : SegState) {f : SegName → X86Seg} (same : m.segs = f) :
      (m.setSeg name { m.segs name with checked := false }).segs =
        Function.update f name { f name with checked := false } := by
    rw [← same]
    rfl
  unfold fill
  dsimp only
  rw [segs_updateFlat, unchecked _ loaded, Function.update_idem, Function.update_self,
    filledCache_seg]

theorem stack32_fill : (fill type b c seg name addr d).stack32 = c.stack32 := by
  unfold fill
  dsimp only
  rw [stack32_updateFlat]
  show (SegState.setAccessed _ _ _).stack32 = _
  rw [setAccessed_keeps.2.1, SegState.doSegLoad, stack32_updateFlat]
  rfl

theorem abrt_fill : (fill type b c seg name addr d).abrt =
    (b.writeFault (addr + 4)).elim c.abrt Prod.fst := by
  unfold fill
  dsimp only
  rw [abrt_updateFlat]
  show (SegState.setAccessed _ _ _).abrt = _
  rw [abrt_setAccessed, SegState.doSegLoad, abrt_updateFlat]
  rfl

/-- The tests of a flat segment are made twice, with the same result. -/
theorem getLsbD_fill (k : Nat) : (fill type b c seg name addr d).curStatus.getLsbD k =
    if name = .ss ∧ k = 9 ∨ name = .ds ∧ k = 8 then
      !(filledCache type seg d (c.segs name)).flat
    else c.curStatus.getLsbD k := by
  have filled := @segs_fill type c b seg name d addr
  unfold fill at filled ⊢
  dsimp only at filled ⊢
  rw [segs_updateFlat] at filled
  rw [getLsbD_updateFlat, filled, Function.update_self]
  split
  · rfl
  next other =>
    show (SegState.setAccessed _ _ _).curStatus.getLsbD k = _
    rw [setAccessed_keeps.2.2, SegState.doSegLoad, getLsbD_updateFlat, if_neg other]
    rfl

theorem filled_fill : Filled type c seg name d
    (fill type b (if name = .ss then c.setStack32 d.big else c) seg name addr d) := by
  have segs : (if name = .ss then c.setStack32 d.big else c).segs = c.segs := by
    split <;> rfl
  refine ⟨?_, ?_, fun k => ?_⟩
  · rw [segs_fill, segs]
  · rw [stack32_fill]
    split <;> rfl
  · rw [getLsbD_fill, segs]
    split
    · rfl
    by_cases stack : name = .ss
    · rw [if_pos stack, SegState.getLsbD_setStack32]
      by_cases first : k = 1
      · rw [if_pos first, if_pos ⟨stack, first⟩]
      · rw [if_neg first, if_neg fun both => first both.2]
    · rw [if_neg stack, if_neg fun both => stack both.1]

/-! ### What is filled against the descriptor -/

/-- Bounds are flat when every offset is between them. -/
theorem flat_bounds {low high : BitVec 32} :
    low = 0 ∧ high = 0xffffffff ↔ ∀ o : BitVec 32, low ≤ o ∧ o ≤ high := by
  constructor
  · rintro ⟨rfl, rfl⟩ o
    exact ⟨Nat.zero_le _, Nat.le_of_lt_succ o.isLt⟩
  · intro bounds
    have first := (bounds 0).1
    have last := (bounds 0xffffffff).2
    have bound := high.isLt
    rw [BitVec.le_def] at first last
    have zero : (0 : BitVec 32).toNat = 0 := rfl
    have top : (0xffffffff : BitVec 32).toNat = 4294967295 := rfl
    rw [zero] at first
    rw [top] at last
    exact ⟨BitVec.eq_of_toNat_eq (by rw [zero]; omega), BitVec.eq_of_toNat_eq (by rw [top]; omega)⟩

theorem flat_filledCache {s : X86Seg} (exact_ : ¬(d.expandDown = true ∧ d.limitBytes = 4294967295))
    :
    (filledCache type seg d s).flat = true ↔ d.Flat type.is386 := by
  have bounds := (@Segdat.bounds_ofSegdat d type s).mpr exact_
  have base := @Segdat.base_ofSegdat d type s
  have zero : (s.ofSegdat type d).base = 0 ↔ d.baseField type.is386 = 0 := by
    rw [← base]
    exact BitVec.toNat_inj.symm
  show ((s.ofSegdat type d).base = 0 && (s.ofSegdat type d).limitLow = 0 &&
    (s.ofSegdat type d).limitHigh = 0xffffffff) = true ↔ _
  rw [Bool.and_eq_true, Bool.and_eq_true, decide_eq_true_eq, decide_eq_true_eq, decide_eq_true_eq,
    and_assoc, zero, flat_bounds, Segdat.Flat]
  exact and_congr_right fun _ => forall_congr' bounds

theorem cachedIn_iff {s : X86Seg} : d.CachedIn type.is386 seg (filledCache type seg d s) ↔
    ¬(d.expandDown = true ∧ d.limitBytes = 4294967295) := by
  rw [← @Segdat.bounds_ofSegdat d type s]
  constructor
  · intro cached
    exact cached.bounds
  · intro bounds
    exact ⟨rfl, Segdat.base_ofSegdat, Segdat.limitRaw_ofSegdat, Segdat.limit_ofSegdat, bounds,
      Segdat.access_ofSegdat⟩

theorem Filled.loaded_iff (filled : Filled type c seg name (namedBy c b seg) e) :
    Loaded type c b seg name e ↔ ¬((namedBy c b seg).expandDown = true ∧
      (namedBy c b seg).limitBytes = 4294967295) := by
  have own : e.segs name = filledCache type seg (namedBy c b seg) (c.segs name) := by
    rw [filled.segs, Function.update_self]
  constructor
  · intro loaded
    have cached := loaded.cached
    rw [own] at cached
    exact cachedIn_iff.mp cached
  · intro exact_
    have flat (k : Nat) (tested : name = .ss ∧ k = 9 ∨ name = .ds ∧ k = 8) :
        e.curStatus.getLsbD k = false ↔ (namedBy c b seg).Flat type.is386 := by
      rw [filled.status, if_pos tested, Bool.not_eq_false', flat_filledCache exact_]
    refine ⟨?_, fun other apart => ?_, fun ds => flat 8 (.inr ⟨ds, rfl⟩),
      fun ss => flat 9 (.inl ⟨ss, rfl⟩), fun ss => ⟨?_, ?_⟩⟩
    · rw [own]
      exact cachedIn_iff.mpr exact_
    · rw [filled.segs, Function.update_of_ne apart]
    · rw [filled.stack32, if_pos ss]
    · rw [filled.status, if_neg (by rintro (⟨-, ⟨⟩⟩ | ⟨-, ⟨⟩⟩)), if_pos ⟨ss, rfl⟩]

/-- Registers with the same fields. -/
theorem eq_of_fields {s t : X86Seg} (base : s.base = t.base) (limit : s.limit = t.limit)
    (limitRaw : s.limitRaw = t.limitRaw) (access : s.access = t.access)
    (access2 : s.access2 = t.access2) (selector : s.seg = t.seg) (low : s.limitLow = t.limitLow)
    (high : s.limitHigh = t.limitHigh) (checked : s.checked = t.checked) : s = t := by
  cases s
  cases t
  subst base limit limitRaw access access2 selector low high checked
  rfl

theorem toNat_limitLow {s : X86Seg} : (filledCache type seg d s).limitLow.toNat =
    if d.expandDown then (d.limitBytes + 1) % 4294967296 else 0 := by
  show (s.ofSegdat type d).limitLow.toNat = _
  rw [(@Segdat.limits_ofSegdat d type s).1]
  split
  · rw [BitVec.toNat_add, Segdat.limit_ofSegdat]
    rfl
  · rfl

theorem toNat_limitHigh {s : X86Seg} : (filledCache type seg d s).limitHigh.toNat =
    if d.expandDown then if d.big then 4294967295 else 65535 else d.limitBytes := by
  show (s.ofSegdat type d).limitHigh.toNat = _
  rw [(@Segdat.limits_ofSegdat d type s).2]
  split
  · split <;> rfl
  · exact Segdat.limit_ofSegdat

theorem access2_filledCache {s : X86Seg} :
    (filledCache type seg d s).access2 = (d.w3 &&& 0xf0).setWidth 8 := by
  unfold filledCache X86Seg.ofSegdat
  dsimp only
  split <;> rfl

theorem heldBy_iff {s : X86Seg} :
    HeldBy type.is386 seg d s ↔ filledCache type seg d s = s := by
  have base : (filledCache type seg d s).base.toNat = d.baseField type.is386 :=
    Segdat.base_ofSegdat
  have limitRaw : (filledCache type seg d s).limitRaw.toNat = d.limitField :=
    Segdat.limitRaw_ofSegdat
  have limit : (filledCache type seg d s).limit.toNat = d.limitBytes := Segdat.limit_ofSegdat
  have access : (filledCache type seg d s).access.toNat = d.accessByte := Segdat.access_ofSegdat
  constructor
  · intro held
    apply eq_of_fields
    · exact BitVec.eq_of_toNat_eq (base.trans held.base.symm)
    · exact BitVec.eq_of_toNat_eq (limit.trans held.limit.symm)
    · exact BitVec.eq_of_toNat_eq (limitRaw.trans held.limitRaw.symm)
    · exact BitVec.eq_of_toNat_eq (access.trans held.access.symm)
    · exact access2_filledCache.trans held.access2.symm
    · exact held.selector.symm
    · exact BitVec.eq_of_toNat_eq (toNat_limitLow.trans held.limitLow.symm)
    · exact BitVec.eq_of_toNat_eq (toNat_limitHigh.trans held.limitHigh.symm)
    · exact held.checked.symm
  · intro same
    rw [same] at base limitRaw limit access
    exact ⟨by rw [← same]; rfl, base, limitRaw, limit, access, by rw [← same, access2_filledCache],
      by rw [← same, toNat_limitLow], by rw [← same, toNat_limitHigh], by rw [← same]; rfl⟩

theorem Filled.untouched_iff (filled : Filled type c seg name (namedBy c b seg) e) :
    Untouched c e ↔ HoldsAlready type c b seg name := by
  constructor
  · intro untouched
    have same : filledCache type seg (namedBy c b seg) (c.segs name) = c.segs name := by
      rw [← Function.update_self (β := fun _ => X86Seg) name
        (filledCache type seg (namedBy c b seg) (c.segs name)) c.segs, ← filled.segs,
        untouched.segs]
    refine ⟨heldBy_iff.mpr same, fun k tested => ?_, fun ss => ⟨?_, ?_⟩⟩
    · rw [← untouched.status, filled.status, if_pos tested, same]
    · rw [← untouched.stack32, filled.stack32, if_pos ss]
    · rw [← untouched.status, filled.status, if_neg (by rintro (⟨-, ⟨⟩⟩ | ⟨-, ⟨⟩⟩)),
        if_pos ⟨ss, rfl⟩]
  · intro holds
    have same := heldBy_iff.mp holds.cache
    refine ⟨?_, ?_, BitVec.eq_of_getLsbD_eq fun k _ => ?_⟩
    · rw [filled.segs, same, Function.update_eq_self]
    · rw [filled.stack32]
      split
      next ss => exact (holds.stack32 ss).1.symm
      · rfl
    · rw [filled.status, same]
      split
      next tested => exact (holds.flat k tested).symm
      next =>
        split
        next ss =>
          rw [ss.2]
          exact (holds.stack32 ss.1).2.symm
        · rfl

end Fill

/-! ## Atomic loads -/

section Atomic

variable {type : CpuType} {c : SegState} {b : SegMemory} {seg : BitVec 16} {name : SegName}
  {e : SegState}

theorem shouldFault_iff (named : ¬seg &&& ~~~3#16 = 0) : ShouldFault c b seg name ↔
    (c.tableOf seg).limit.toNat < (tableOffset seg).toNat + 7 ∨
      b.ReadFaults (c.descriptorAt seg) ∨
      ¬(namedBy c b seg).Permits c.cpl.toNat (seg &&& 3).toNat name ∨
      b.writeFault (c.descriptorAt seg + 4) ≠ none := by
  rw [ShouldFault, if_neg named]

theorem loadAtomic_null (prot : (c.protectedMode && !c.vm) = true) (null : seg &&& ~~~3#16 = 0) :
    LoadAtomic type c b seg name := by
  unfold LoadAtomic
  rw [SegState.loadseg, if_pos prot, if_pos null]
  dsimp only
  rw [if_pos null, ShouldFault, if_pos null]
  by_cases stack : name = .ss
  · rw [if_pos stack]
    obtain ⟨untouched, abort⟩ := (@faulted_ss c 0).untouched
    refine .inr ⟨stack, show (1 : BitVec 8) ≠ 0 from by decide, abort, untouched, ?_⟩
    rw [SegState.loadsegMem, if_pos prot, if_pos null]
  · rw [if_neg stack]
    have segs : (c.loadNull name).segs =
        Function.update c.segs name { c.segs name with seg := 0, access := 0, base := -1 } := by
      unfold SegState.loadNull
      dsimp only
      split <;> rfl
    refine .inl ⟨stack, rfl, ⟨?_, fun other apart => ?_, fun ds => ?_⟩⟩
    · rw [segs, Function.update_self]
      exact ⟨rfl, rfl, rfl⟩
    · rw [segs, Function.update_of_ne apart]
    · rw [SegState.loadNull, if_pos ds, SegState.getLsbD_notFlatDs]
      rfl

/-- A load that ends in the checks is atomic where it had to be refused. -/
theorem loadAtomic_error (prot : (c.protectedMode && !c.vm) = true) (named : ¬seg &&& ~~~3#16 = 0)
    (ran : c.checkSeg b.bus seg name = .error e) (untouched : Untouched c e) (abort : e.abrt ≠ 0) :
    LoadAtomic type c b seg name ↔ ShouldFault c b seg name := by
  unfold LoadAtomic
  rw [loadseg_error prot named ran]
  dsimp only
  rw [if_neg named]
  constructor
  · intro atomic
    rcases atomic with ⟨-, zero, -⟩ | ⟨should, -⟩
    · cases zero
    · exact should
  · intro should
    refine .inr ⟨should, by decide, abort, untouched, ?_⟩
    rw [SegState.loadsegMem, if_pos prot, if_neg named, ran]

theorem loadAtomic_ok (prot : (c.protectedMode && !c.vm) = true) (named : ¬seg &&& ~~~3#16 = 0)
    (ran : c.checkSeg b.bus seg name =
      .ok (if name = .ss then c.setStack32 (namedBy c b seg).big else c, c.descriptorAt seg,
        namedBy c b seg)) (clear : c.abrt = 0) :
    LoadAtomic type c b seg name ↔
      if b.writeFault (c.descriptorAt seg + 4) ≠ none then HoldsAlready type c b seg name
      else ¬ShouldFault c b seg name ∧ ¬((namedBy c b seg).expandDown = true ∧
        (namedBy c b seg).limitBytes = 4294967295) := by
  have filled := @filled_fill type c b seg name (namedBy c b seg) (c.descriptorAt seg)
  have pending : (if name = .ss then c.setStack32 (namedBy c b seg).big else c).abrt = 0 := by
    split <;> exact clear
  have mem : c.loadsegMem b seg name = b.setAccessed (c.descriptorAt seg) (namedBy c b seg) := by
    rw [SegState.loadsegMem, if_pos prot, if_neg named, ran]
  unfold LoadAtomic
  rw [loadseg_ok prot named ran]
  dsimp only
  rw [if_neg named, mem, SegMemory.setAccessed, abrt_fill, pending, filled.loaded_iff,
    filled.untouched_iff]
  cases fault : b.writeFault (c.descriptorAt seg + 4) with
  | none =>
    rw [if_neg fun some_ => some_ rfl]
    constructor
    · intro atomic
      rcases atomic with ⟨fits, -, exact_⟩ | ⟨-, abort, -⟩
      · exact ⟨fits, exact_⟩
      · exact absurd rfl abort
    · intro served
      exact .inl ⟨served.1, rfl, served.2⟩
  | some f =>
    have abort : f.1 ≠ 0 := b.aborts _ f (.inr fault)
    have some_ : some f ≠ none := Option.some_ne_none f
    have should : ShouldFault c b seg name :=
      (shouldFault_iff named).mpr (.inr (.inr (.inr (by rw [fault]; exact some_))))
    rw [if_pos some_, if_pos some_]
    constructor
    · intro atomic
      rcases atomic with ⟨fits, -⟩ | ⟨-, -, -, holds, -⟩
      · exact absurd should fits
      · exact holds
    · intro holds
      exact .inr ⟨should, abort, abort, holds, rfl⟩

/-- A load of a register other than `CS` in protected mode is atomic exactly when it is served. -/
theorem loadAtomic_iff (prot : c.protectedMode = true) (vm : c.vm = false) (other : name ≠ .cs) :
    LoadAtomic type c b seg name ↔ LoadServed type c b seg name := by
  have both : (c.protectedMode && !c.vm) = true := by rw [prot, vm]; rfl
  unfold LoadServed
  by_cases named : seg &&& ~~~3#16 = 0
  · exact iff_of_true (loadAtomic_null both named) (.inl named)
  rw [or_iff_right named]
  by_cases refused : (c.tableOf seg).limit ≤ tableOffset seg ∨
      b.ReadFaults (c.descriptorAt seg) ∨
      ¬(namedBy c b seg).Permits c.cpl.toNat (seg &&& 3).toNat name
  · obtain ⟨e, ran, untouched, abort⟩ :=
      checkSeg_refused (b := b) other named (.inr refused)
    refine iff_of_true ((loadAtomic_error both named ran untouched abort).mpr
      ((shouldFault_iff named).mpr ?_)) ?_
    · rcases refused with outside | faults | denied
      · exact .inl (Nat.lt_of_le_of_lt outside (by omega))
      · exact .inr (.inl faults)
      · exact .inr (.inr (.inl denied))
    · rcases refused with outside | faults | denied
      · exact .inl outside
      · exact .inr (.inl faults)
      · exact .inr (.inr (.inl denied))
  rw [not_or, not_or, not_not] at refused
  obtain ⟨inside, reads, permits⟩ := refused
  rw [or_iff_right inside, or_iff_right reads, or_iff_right (not_not.mpr permits)]
  have should : ShouldFault c b seg name ↔
      (c.tableOf seg).limit.toNat < (tableOffset seg).toNat + 7 ∨
        b.writeFault (c.descriptorAt seg + 4) ≠ none := by
    rw [shouldFault_iff named, or_iff_right reads, or_iff_right (not_not.mpr permits)]
  by_cases pending : c.abrt ≠ 0
  · obtain ⟨e, ran, untouched, abort⟩ :=
      checkSeg_refused (b := b) other named (.inl pending)
    rw [if_pos pending, loadAtomic_error both named ran untouched abort, should]
  rw [if_neg pending]
  rw [not_not] at pending
  rw [loadAtomic_ok both named (checkSeg_ok other named inside reads permits pending) pending,
    should]
  split
  · rfl
  next writes => rw [or_iff_left writes, Nat.not_lt]

end Atomic

/-! ## A stack segment whose descriptor cannot be marked accessed -/

/-- A machine at privilege 0 with one descriptor after the null one. -/
def oneDescriptor : SegState where
  segs := fun _ => ⟨0, 0xffffffff, 0xfffff, 0x93, 0xc0, 0x10, 0, 0xffffffff, false⟩
  cr0 := 1
  eflags := 0
  stack32 := true
  use32 := 0x300
  curStatus := 3
  abrt := 0
  abrtError := 0
  oldcpl := 0
  gdt := ⟨0x1000, 15⟩
  ldt := ⟨0, 0⟩

/-- A writable segment of 64 KB at 0 that has not been accessed yet; the page may be read-only. -/
def dataDescriptor (readOnly : Bool) : SegMemory where
  mem := fun a =>
    if a = 0x1008 ∨ a = 0x1009 then 0xff else if a = 0x100d then 0x92 else 0
  readFault := fun _ => none
  writeFault := fun _ => if readOnly then some (0xe, 3) else none
  aborts := by
    intro a f faults
    rcases faults with reads | writes
    · cases reads
    · cases readOnly with
      | false => cases writes
      | true =>
        cases writes
        decide

theorem loadAtomic_ds : oneDescriptor.protectedMode = true ∧
    (LoadAtomic ⟨true, true, true⟩ oneDescriptor (dataDescriptor false) 8 .ds ↔
      LoadServed ⟨true, true, true⟩ oneDescriptor (dataDescriptor false) 8 .ds) :=
  ⟨by decide, loadAtomic_iff (by decide) (by decide) (by decide)⟩

/-- `SS` is loaded with the new segment although the load faults. -/
theorem not_loadAtomic_readOnly :
    ¬LoadAtomic ⟨true, true, true⟩ oneDescriptor (dataDescriptor true) 8 .ss := by
  intro atomic
  rcases atomic with ⟨fits, -⟩ | ⟨-, -, -, untouched, -⟩
  · refine fits (.inr (.inr (.inr ?_)))
    exact Option.some_ne_none _
  · have same := congrArg X86Seg.limit (congrFun untouched.segs .ss)
    revert same
    decide +kernel

end PCemWeb.Cpu
