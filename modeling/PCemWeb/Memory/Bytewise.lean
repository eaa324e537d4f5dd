import PCemWeb.Memory.AccessWrites

/-!
# Whole accesses

A read of 2, 4 or 8 bytes that does not fault returns what the reads of its bytes return, a write
leaves RAM as the writes of its bytes leave it, and a write that faults on either page writes no
byte (`bytewise_of_consistent`). A read that faults returns one value for all of its bytes, those on
a page that is there included (`not_bytewise_halfPresent`); and the last address of the bus is taken
for a fault.
-/

namespace PCemWeb.Memory

open PCemWeb.Lib

/-- The accesses of more than one byte. -/
inductive Width
  | w
  | l
  | q
deriving DecidableEq

def Width.size : Width → Nat
  | w => 2
  | l => 4
  | q => 8

namespace BusEnv

variable {w : Nat}

/-! ## Accesses and bytes -/

section

variable (env : BusEnv w)

/-- `readmemwl`, `readmemll` and `readmemql`. -/
def readmem (addr : BitVec 32) (s : Bus w) : Width → Nat
  | .w => (env.readmemwl addr s).1.toNat
  | .l => (env.readmemll addr s).1.toNat
  | .q => (env.readmemql addr s).1.toNat

/-- `writememwl`, `writememll` and `writememql`. -/
def writemem (addr : BitVec 32) (val : BitVec 64) (s : Bus w) : Width → Bus w
  | .w => env.writememwl addr (val.setWidth 16) s
  | .l => env.writememll addr (val.setWidth 32) s
  | .q => env.writememql addr val s

/-- The bytes read at successive addresses. -/
def readBytes : Nat → BitVec 32 → Bus w → List (BitVec 8)
  | 0, _, _ => []
  | n + 1, addr, s => (env.readmembl addr s).1 :: readBytes n (addr + 1) (env.readmembl addr s).2

/-- Bytes written one after the other. -/
def writeBytes (s : Bus w) (bytes : List (BitVec 32 × BitVec 8)) : Bus w :=
  bytes.foldl (fun s x => env.writemembl x.1 x.2 s) s

/-! ## What an access may rely on -/

/-- The place of an address in RAM, if it is translated to one. -/
def placeOf (rw : Bool) (m : Mmu) (addr : BitVec 32) : Option (BitVec 32) :=
  (m.reach addr rw).bind fun x => env.ramAt rw (x.1 &&& env.rammask)

/-- The marks that the translation of an address makes. -/
def marksOf (rw : Bool) (m : Mmu) (addr : BitVec 32) : WordRam :=
  ((m.reach addr rw).map Prod.snd).getD fun _ => 0

/-- The entries of a page in the lookup tables are what the page tables give. -/
def Consistent (rw : Bool) (s : Bus w) (addr : BitVec 32) : Prop :=
  if rw then
    (s.lookups.writelookup2 (vpn addr) ≠ -1 →
      env.placeOf true s.mmu addr =
          some (env.hostIndex (s.lookups.writelookup2 (vpn addr)) addr) ∧
        WordRam.mark (marksOf true s.mmu addr) s.ram = s.ram) ∧
    ∀ p, s.lookups.pageLookup (vpn addr) = some p →
      env.placeOf true s.mmu addr = some (env.inPage p addr) ∧
        WordRam.mark (marksOf true s.mmu addr) s.ram = s.ram
  else
    s.lookups.readlookup2 (vpn addr) ≠ -1 →
      env.placeOf false s.mmu addr =
        some (env.hostIndex (s.lookups.readlookup2 (vpn addr)) addr)

/-- The entries of the touched pages are consistent, and the operand overlaps none of the entries
that translate it. -/
structure Operand (rw : Bool) (s : Bus w) (addr : BitVec 32) (size : Nat) : Prop where
  consistent : ∀ i < size, env.Consistent rw s (addr + BitVec.ofNat 32 i)
  apart : ∀ i < size, ∀ j < size, ∀ p, env.placeOf rw s.mmu (addr + BitVec.ofNat 32 i) = some p →
    marksOf rw s.mmu (addr + BitVec.ofNat 32 j) (WordRam.word p) = 0

/-- Every byte is translated to RAM, and none to the last address. -/
def InRam (rw : Bool) (m : Mmu) (addr : BitVec 32) (size : Nat) : Prop :=
  ∀ i < size, (env.placeOf rw m (addr + BitVec.ofNat 32 i)).isSome = true ∧
    (m.cr0 >>> 31 = 0 ∨ ∀ x ∈ m.reach (addr + BitVec.ofNat 32 i) rw, x.1 ≠ 0xffffffff)

/-- Some byte is on a page that faults. -/
def Faults (rw : Bool) (m : Mmu) (addr : BitVec 32) (size : Nat) : Prop :=
  ∃ i < size, m.reach (addr + BitVec.ofNat 32 i) rw = none

end

variable {env : BusEnv w} {rw : Bool} {s : Bus w} {addr : BitVec 32} {size : Nat} {m : Mmu}

/-- The addresses of an access. -/
def touched (addr : BitVec 32) (size : Nat) (a : BitVec 32) : Prop :=
  ∃ i < size, a = addr + BitVec.ofNat 32 i

theorem reaches_of_operand (operand : env.Operand rw s addr size)
    (inRam : env.InRam rw s.mmu addr size) : env.Reaches rw (touched addr size)
      (fun a => (env.placeOf rw s.mmu a).getD 0) (fun a => marksOf rw s.mmu a) s.mmu where
  reach := by
    rintro a ⟨i, below, rfl⟩
    obtain ⟨isSome, real⟩ := inRam i below
    obtain ⟨p, placed⟩ := Option.isSome_iff_exists.mp isSome
    obtain ⟨⟨phys, k⟩, found, at'⟩ := Option.bind_eq_some_iff.mp placed
    refine ⟨phys, ?_, real.imp_right fun away => away _ found, ?_⟩
    · rw [found, marksOf, found]
      rfl
    · rw [placed]
      exact at'
  apart := by
    rintro a b ⟨i, below, rfl⟩ ⟨j, below', rfl⟩
    obtain ⟨p, placed⟩ := Option.isSome_iff_exists.mp (inRam i below).1
    rw [placed]
    exact operand.apart i below j below' p placed

theorem readEntries_of_operand (operand : env.Operand false s addr size) :
    env.ReadEntries (touched addr size) (fun a => (env.placeOf false s.mmu a).getD 0)
      s.lookups := by
  rintro a ⟨i, below, rfl⟩ present
  have consistent := operand.consistent i below
  rw [Consistent, if_neg Bool.false_ne_true] at consistent
  dsimp only
  rw [consistent present]
  rfl

theorem writeEntries_of_operand (operand : env.Operand true s addr size) :
    env.WriteEntries (touched addr size) (fun a => (env.placeOf true s.mmu a).getD 0)
      (fun a => marksOf true s.mmu a) s.lookups s.ram := by
  refine ⟨?_, ?_⟩ <;> rintro a ⟨i, below, rfl⟩ <;> have consistent := operand.consistent i below <;>
    rw [Consistent, if_pos rfl] at consistent
  · intro present
    obtain ⟨at', marked⟩ := consistent.1 present
    rw [at']
    exact ⟨rfl, marked⟩
  · intro p present
    obtain ⟨at', marked⟩ := consistent.2 p present
    rw [at']
    exact ⟨rfl, marked⟩

theorem mem_touched (addr : BitVec 32) {i : Nat} (below : i < size) :
    touched addr size (addr + BitVec.ofNat 32 i) := ⟨i, below, rfl⟩

/-! ## Bytes one by one -/

section

variable {operand : BitVec 32 → Prop} {place : BitVec 32 → BitVec 32} {mask : BitVec 32 → WordRam}

theorem readBytes_eq (reaches : env.Reaches false operand place mask s.mmu)
    (entries : env.ReadEntries operand place s.lookups)
    (inOperand : ∀ i < size, operand (addr + BitVec.ofNat 32 i)) :
    env.readBytes size addr s = placed place s.ram addr size := by
  induction size generalizing addr s with
  | zero => rfl
  | succ n ih =>
    have first : addr + BitVec.ofNat 32 0 = addr := BitVec.add_zero addr
    have next (i : Nat) : addr + 1 + BitVec.ofNat 32 i = addr + BitVec.ofNat 32 (1 + i) := by
      rw [BitVec.add_assoc, BitVec.ofNat_add]
      rfl
    have inRest (i : Nat) (below : i < n) : operand (addr + 1 + BitVec.ofNat 32 i) := by
      rw [next]
      exact inOperand (1 + i) (by omega)
    obtain ⟨value, read⟩ := readmembl_bytes env s addr reaches entries fun i below =>
      inOperand i (by omega)
    have byte : (env.readmembl addr s).1 = s.ram.load8 (place addr) := by
      apply BitVec.eq_of_toNat_eq
      rw [value]
      simp [placed, WordRam.fromBytes]
    rw [readBytes, ih read.reaches read.entries inRest, read.placed inRest, byte, Nat.add_comm n 1,
      placed_add 1 n]
    simp only [placed, List.range, List.range.loop, List.map, List.cons_append, List.nil_append,
      first]
    rfl

theorem writeBytes_ok (reaches : env.Reaches true operand place mask s.mmu)
    (entries : env.WriteEntries operand place mask s.lookups s.ram)
    {bytes : List (BitVec 32 × BitVec 8)} (inOperand : ∀ x ∈ bytes, operand x.1) :
    env.WriteOk operand place mask bytes s (env.writeBytes s bytes) := by
  induction bytes generalizing s with
  | nil => exact ⟨⟨s.mmu.mmuPerm, rfl⟩, entries⟩
  | cons x bytes ih =>
    have inFirst (i : Nat) (below : i < 1) : operand (x.1 + BitVec.ofNat 32 i) := by
      obtain rfl : i = 0 := by omega
      rw [show x.1 + BitVec.ofNat 32 0 = x.1 from BitVec.add_zero x.1]
      exact inOperand x (.head _)
    have first := writemembl_bytes env s x.1 x.2 reaches entries inFirst
    rw [bytesOf_one] at first
    exact first.trans (ih (first.reaches reaches fun y member => by
      rw [List.mem_singleton.mp member]
      exact inOperand x (.head _)) first.entries fun y inRest => inOperand y (.tail _ inRest))

end

/-! ## Every width -/

theorem readmem_bytes {a : BitVec 32} {width : Width} (operand : env.Operand false s a width.size)
    (inRam : env.InRam false s.mmu a width.size) :
    env.readmem a s width = WordRam.fromBytes (env.readBytes width.size a s) := by
  have reaches := reaches_of_operand operand inRam
  have entries := readEntries_of_operand operand
  have inOperand (i : Nat) (below : i < width.size) := mem_touched a below
  rw [readBytes_eq reaches entries inOperand]
  cases width with
  | w => exact (readmemwl_bytes env s a reaches entries inOperand).1
  | l => exact (readmemll_bytes env s a reaches entries inOperand).1
  | q => exact (readmemql_bytes env s a reaches entries inOperand).1

theorem bytesOf_setWidth {n : Nat} (fits : 8 * size ≤ n) (a : BitVec 32) (v : BitVec 64) :
    bytesOf size a (v.setWidth n) = bytesOf size a v := by
  apply List.map_congr_left
  intro i inRange
  have below := List.mem_range.mp inRange
  refine Prod.ext rfl (BitVec.eq_of_getLsbD_eq fun j inside => ?_)
  have narrow : 8 * i + j < n := by omega
  simp [inside, narrow]

theorem writemem_bytes {a : BitVec 32} {width : Width} {val : BitVec 64}
    (operand : env.Operand true s a width.size) (inRam : env.InRam true s.mmu a width.size) :
    (env.writemem a val s width).ram = (env.writeBytes s (bytesOf width.size a val)).ram := by
  have reaches := reaches_of_operand operand inRam
  have entries := writeEntries_of_operand operand
  have inOperand (i : Nat) (below : i < width.size) := mem_touched a below
  have apart := reaches.apart
  rw [(writeBytes_ok reaches entries (operand_bytesOf inOperand)).ram]
  cases width with
  | w =>
    refine (writememwl_bytes env apart s a _ reaches entries inOperand).ram.trans ?_
    rw [bytesOf_setWidth (by decide)]
    rfl
  | l =>
    refine (writememll_bytes env apart s a _ reaches entries inOperand).ram.trans ?_
    rw [bytesOf_setWidth (by decide)]
    rfl
  | q => exact (writememql_bytes env apart s a val reaches entries inOperand).ram

/-! ## Faults -/

theorem reach_none {a b : BitVec 32} (samePage : vpn a = vpn b) (fault : m.reach b rw = none) :
    m.reach a rw = none := by
  cases found : m.reach a rw with
  | none => rfl
  | some x =>
    obtain ⟨phys', again, -, -⟩ := Mmu.reach_same_page samePage found
    cases fault.symm.trans again

/-- The bytes of an access are on the page of the first or on that of the last. -/
theorem vpn_ends {a : BitVec 32} {size i : Nat} (small : size ≤ 8) (below : i < size) :
    vpn (a + BitVec.ofNat 32 i) = vpn a ∨
      vpn (a + BitVec.ofNat 32 (size - 1)) = vpn (a + BitVec.ofNat 32 i) := by
  by_cases first : a.toNat % 4096 + i < 4096
  · exact .inl (vpn_add first)
  · right
    have split : BitVec.ofNat 32 (size - 1) =
        BitVec.ofNat 32 i + BitVec.ofNat 32 (size - 1 - i) := by
      rw [← BitVec.ofNat_add]
      congr 1
      omega
    have offset : (a + BitVec.ofNat 32 i).toNat % 4096 = a.toNat % 4096 + i - 4096 := by
      rw [BitVec.toNat_add, BitVec.toNat_ofNat]
      omega
    rw [split, ← BitVec.add_assoc]
    apply vpn_add
    omega

theorem translate_fault {a : BitVec 32} (fault : s.mmu.reach a rw = none) :
    ∃ t, s.translate a rw = (none, t) ∧ t.ram = s.ram := by
  obtain ⟨refused, same⟩ := Bus.translate_of_fault fault
  exact ⟨_, Prod.ext refused rfl, same⟩

theorem writeMapped_fault {n : Nat} {toPage : BitVec 32 → BitVec n → BitVec 20 → Bus w → Bus w}
    {write : Option (BusHandlers w) → BitVec 32 → BitVec n → Bus w → Bus w} {a : BitVec 32}
    {v : BitVec n} (fault : s.mmu.reach a true = none)
    (unmapped : s.lookups.pageLookup (vpn a) = none) :
    (env.writeMapped toPage write a v s).ram = s.ram := by
  obtain ⟨t, translated, same⟩ := translate_fault fault
  unfold writeMapped
  rw [unmapped]
  dsimp only
  rw [translated]
  exact same

/-- A check that meets a fault leaves at most the marks of the first page. -/
theorem check_fault {a b : BitVec 32}
    (fault : s.mmu.reach a true = none ∨ s.mmu.reach b true = none) :
    ∃ t, s.check a b true = (false, t) ∧
      (t.ram = s.ram ∨ t.ram = WordRam.mark (marksOf true s.mmu a) s.ram) := by
  unfold Bus.check
  cases found : s.mmu.reach a true with
  | none =>
    obtain ⟨t, translated, same⟩ := translate_fault found
    rw [translated]
    exact ⟨t, rfl, .inl same⟩
  | some x =>
    obtain ⟨phys, k⟩ := x
    have marks : marksOf true s.mmu a = k := by
      rw [marksOf, found]
      rfl
    rw [marks]
    by_cases real : s.mmu.cr0 >>> 31 = 0 ∨ phys ≠ 0xffffffff
    · obtain ⟨perm, translated⟩ := Bus.translate_of_reach found real
      have still : (s.withRam (WordRam.mark k s.ram) perm).mmu.reach b true = none := by
        refine (Mmu.reach_eq_of_alike _ perm fun e => Mmu.alike_mark_reach found s.ram e).trans ?_
        exact fault.resolve_left fun missing => by cases found.symm.trans missing
      obtain ⟨t, refused, same⟩ := translate_fault still
      rw [translated]
      dsimp only
      rw [refused]
      exact ⟨t, rfl, .inr same⟩
    · obtain ⟨paging, last⟩ := not_or.mp real
      obtain ⟨perm, translated⟩ := Bus.translate_of_last found paging (not_not.mp last)
      rw [translated]
      exact ⟨_, rfl, .inr rfl⟩

/-- A write that faults writes at most the marks of its first page. -/
theorem writeWide_fault {n : Nat} (size : Nat) {half : BitVec 32 → BitVec n → Bus w → Bus w}
    {charged : Bool} {store : WordRam → BitVec 32 → BitVec (n + n) → WordRam}
    {toPage : BitVec 32 → BitVec (n + n) → BitVec 20 → Bus w → Bus w}
    {write : Option (BusHandlers w) → BitVec 32 → BitVec (n + n) → Bus w → Bus w}
    {a step : BitVec 32} {v : BitVec (n + n)} (sizes : size = 1 ∨ size = 2 ∨ size = 4)
    (operand : env.Operand true s a (size + size)) (faults : Faults true s.mmu a (size + size)) :
    (env.writeWide (BitVec.ofNat 32 (2 * size - 1)) charged half step store
        (env.writeMapped toPage write) a v s).ram = s.ram ∨
      (env.writeWide (BitVec.ofNat 32 (2 * size - 1)) charged half step store
        (env.writeMapped toPage write) a v s).ram = WordRam.mark (marksOf true s.mmu a) s.ram := by
  obtain ⟨i, below, fault⟩ := faults
  have first : a + BitVec.ofNat 32 0 = a := BitVec.add_zero a
  have consistent := operand.consistent 0 (by omega)
  rw [Consistent, if_pos rfl, first] at consistent
  -- on one page no entry leads past the fault
  have alone (onPage : OnPage a (size + size)) : s.mmu.reach a true = none ∧
      s.lookups.writelookup2 (vpn a) = -1 ∧ s.lookups.pageLookup (vpn a) = none := by
    have none := reach_none (onPage i below).symm fault
    have nowhere : env.placeOf true s.mmu a = Option.none := by rw [placeOf, none]; rfl
    refine ⟨none, ?_, ?_⟩
    · by_contra present
      cases nowhere.symm.trans (consistent.1 present).1
    · cases present : s.lookups.pageLookup (vpn a) with
      | none => rfl
      | some p => cases nowhere.symm.trans (consistent.2 p present).1
  unfold writeWide
  dsimp only
  split
  · rename_i misaligned
    have begun := begun_charged env charged s a
    generalize env.chargeMisaligned charged { s with memLogicalAddr := a } = s' at begun ⊢
    have ram : s'.ram = s.ram := congrArg Mmu.ram begun.mmu
    split
    · have ends : s'.mmu.reach a true = none ∨
          s'.mmu.reach (a + BitVec.ofNat 32 (2 * size - 1)) true = none := by
        rw [begun.mmu]
        rcases vpn_ends (by omega) below with same | same
        · exact .inl (reach_none same.symm fault)
        · rw [← Nat.two_mul] at same
          exact .inr (reach_none same fault)
      obtain ⟨t, checked, left⟩ := check_fault ends
      rw [checked, ← ram, ← begun.mmu]
      exact left
    · rename_i within
      obtain ⟨missing, noPointer, noPage⟩ :=
        alone (onPage_of_split sizes fun both => within both.2)
      rw [begun.writelookup2, if_neg (not_not.mpr noPointer)]
      left
      rw [← ram]
      exact writeMapped_fault (begun.mmu ▸ missing) (begun.pageLookup ▸ noPage)
  · rename_i aligned
    obtain ⟨missing, -, noPage⟩ := alone (onPage_of_split sizes fun both => aligned both.1)
    exact .inl (writeMapped_fault (s := { s with memLogicalAddr := a }) missing noPage)

theorem writemem_fault {a : BitVec 32} {width : Width} (val : BitVec 64)
    (operand : env.Operand true s a width.size) (faults : Faults true s.mmu a width.size) :
    (env.writemem a val s width).ram = s.ram ∨
      (env.writemem a val s width).ram = WordRam.mark (marksOf true s.mmu a) s.ram := by
  cases width with
  | w => exact writeWide_fault 1 (by decide) operand faults
  | l => exact writeWide_fault 2 (by decide) operand faults
  | q => exact writeWide_fault 4 (by decide) operand faults

/-! ## The accesses -/

/-- Where the lookup tables are consistent and the operand is apart from the page tables, an access
to RAM is that of its bytes, and a write that faults on any page writes none of them. -/
theorem bytewise_of_consistent (env : BusEnv w) (s : Bus w) (addr : BitVec 32) (width : Width) :
    (env.Operand false s addr width.size → env.InRam false s.mmu addr width.size →
        env.readmem addr s width = WordRam.fromBytes (env.readBytes width.size addr s)) ∧
      ∀ val, env.Operand true s addr width.size →
        (env.InRam true s.mmu addr width.size →
          (env.writemem addr val s width).ram =
            (env.writeBytes s (bytesOf width.size addr val)).ram) ∧
        (Faults true s.mmu addr width.size → ∀ i < width.size, ∀ p,
          env.placeOf true s.mmu (addr + BitVec.ofNat 32 i) = some p →
            (env.writemem addr val s width).ram.load8 p = s.ram.load8 p) := by
  refine ⟨readmem_bytes, fun val operand =>
    ⟨writemem_bytes operand, fun faults i below p at' => ?_⟩⟩
  have some : 0 < width.size := by cases width <;> decide
  rcases writemem_fault val operand faults with same | marked
  · rw [same]
  · have apart := operand.apart i below 0 some p at'
    rw [show addr + BitVec.ofNat 32 0 = addr from BitVec.add_zero addr] at apart
    rw [marked, WordRam.load8_mark apart]

/-! ## Two pages -/

/-- RAM everywhere, with the A20 gate open. -/
def flat : BusEnv 32 where
  host := ⟨0x10000, 64, ⟨6, by decide, rfl⟩⟩
  nofill := false
  block _ := 0
  recompPage := 0xffffffff
  inRecompile := false
  rammask := 0xffffffff
  readMapping _ := some (.ram 0)
  writeMapping _ := some (.ram 0)
  pageMem p := p
  cpuCyrixAlignment := false
  timingMisaligned := 3
  wide := by decide
  masksPages := by decide
  byPages := by
    rintro g d (mapped | mapped) <;> cases mapped <;> rfl
  pagesMem := by
    intro p d mapped
    cases mapped
    exact ⟨congrArg vpn (BitVec.add_zero p).symm, rfl⟩

/-- Pages 1 and 2 are mapped to RAM at `0x3000` and `0x5000`, page 3 is not present. -/
def twoPages : Bus 32 where
  mmu := {
    ram := fun e =>
      if e = 0x400 then 0x2003 else if e = 0x801 then 0x3003 else if e = 0x802 then 0x5003
      else if e = 0xfff then 0x44332211 else if e = 0x1400 then 0x88776655 else 0
    cr0 := 0x80000001
    cr2 := 0
    cr3 := 0x1000
    cr4 := 0
    csAccess := 0
    cplOverride := false
    abrt := 0
    abrtError := 0
    mmuPerm := 0 }
  lookups := {
    readlookup := fun _ => none
    readlookupp := fun _ => 0
    readlookup2 := fun _ => -1
    readlnext := 0
    writelookup := fun _ => none
    writelookupp := fun _ => 0
    writelookup2 := fun _ => -1
    writelnext := 0
    pageLookup := fun _ => none
    mmuflush := 0
    pccache := 0xffffffff
    pccache2 := -1
    cycles := 0 }
  memLogicalAddr := 0

/-- Whether an operand is apart from the entries that translate it. -/
def testApart (env : BusEnv w) (rw : Bool) (m : Mmu) (addr : BitVec 32) (size : Nat) : Bool :=
  (List.range size).all fun i => (List.range size).all fun j =>
    (env.placeOf rw m (addr + BitVec.ofNat 32 i)).all fun p =>
      marksOf rw m (addr + BitVec.ofNat 32 j) (WordRam.word p) = 0

theorem operand_twoPages {rw : Bool} (test : flat.testApart rw twoPages.mmu addr size = true) :
    flat.Operand rw twoPages addr size where
  consistent i below := by
    cases rw with
    | false => exact fun present => absurd rfl present
    | true => exact ⟨fun present => absurd rfl present, fun p present => by cases present⟩
  apart i below j below' p at' := by
    have outer := List.all_eq_true.mp test i (List.mem_range.mpr below)
    have inner := List.all_eq_true.mp outer j (List.mem_range.mpr below')
    rw [at'] at inner
    exact of_decide_eq_true inner

instance (env : BusEnv w) (rw : Bool) (m : Mmu) (addr : BitVec 32) (size : Nat) :
    Decidable (env.InRam rw m addr size) :=
  -- the entry of each address is tested, not every entry there could be
  have (a : BitVec 32) : Decidable (∀ x ∈ m.reach a rw, x.1 ≠ 0xffffffff) :=
    Option.decidableForallMem _
  inferInstanceAs (Decidable (∀ i < size, _ = true ∧ (_ = _ ∨ ∀ x ∈ m.reach _ rw, x.1 ≠ _)))

/-- Four bytes across the edge of two pages, and two across the edge of a page that is not there. -/
theorem bytewise_twoPages :
    flat.readmem 0x1ffd twoPages .l = 0x55443322 ∧
      WordRam.fromBytes (flat.readBytes Width.l.size 0x1ffd twoPages) = 0x55443322 ∧
      (flat.writemem 0x1ffd 0x1234 twoPages .l).ram =
        (flat.writeBytes twoPages (bytesOf Width.l.size 0x1ffd (0x1234 : BitVec 64))).ram ∧
      (flat.writemem 0x2fff 0x1234 twoPages .w).ram.load8 0x5fff = twoPages.ram.load8 0x5fff := by
  obtain ⟨read, write⟩ := bytewise_of_consistent flat twoPages 0x1ffd .l
  obtain ⟨-, fault⟩ := bytewise_of_consistent flat twoPages 0x2fff .w
  have operand : flat.Operand true twoPages 0x1ffd Width.l.size :=
    operand_twoPages (by decide +kernel)
  have operand' : flat.Operand true twoPages 0x2fff Width.w.size :=
    operand_twoPages (by decide +kernel)
  have absent : Faults true twoPages.mmu 0x2fff Width.w.size := by
    refine ⟨1, by decide, Option.isNone_iff_eq_none.mp ?_⟩
    decide +kernel
  have place : flat.placeOf true twoPages.mmu (0x2fff + BitVec.ofNat 32 0) = some 0x5fff := by
    decide +kernel
  have value : flat.readmem 0x1ffd twoPages .l = 0x55443322 := by decide +kernel
  have bytes := read (operand_twoPages (by decide +kernel)) (by decide +kernel)
  exact ⟨value, bytes.symm.trans value, (write 0x1234 operand).1 (by decide +kernel),
    (fault 0x1234 operand').2 absent 0 (by decide) 0x5fff place⟩

/-- A word of which the first byte is there is read as `0xffff`, and as its bytes is not. -/
theorem not_bytewise_halfPresent : ¬ ∀ (s : Bus 32) (addr : BitVec 32) (width : Width),
    flat.Operand false s addr width.size → (flat.placeOf false s.mmu addr).isSome = true →
      flat.readmem addr s width = WordRam.fromBytes (flat.readBytes width.size addr s) := by
  intro claimed
  have same := claimed twoPages 0x2fff .w (operand_twoPages (by decide +kernel)) (by decide +kernel)
  revert same
  decide +kernel

end BusEnv

end PCemWeb.Memory
