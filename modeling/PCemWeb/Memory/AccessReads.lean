import PCemWeb.Memory.AccessExact

/-!
# Reads and their bytes

The entries of the lookup tables that agree with the translation of an operand outlast the fills of
an access. Every read returns the bytes of its operand, whichever way it takes, and leaves it as it
was.
-/

namespace PCemWeb.Memory

open PCemWeb.Lib

namespace BusEnv

variable {w : Nat}

/-! ## Entries of the lookup tables -/

section

variable (env : BusEnv w) (operand : BitVec 32 → Prop) (place : BitVec 32 → BitVec 32)
  (mask : BitVec 32 → WordRam)

/-- The pointers for reads reach the operand. -/
def ReadEntries (l : Lookups w) : Prop :=
  ∀ a, operand a → l.readlookup2 (vpn a) ≠ -1 →
    env.hostIndex (l.readlookup2 (vpn a)) a = place a

/-- The pointers and pages for writes reach the operand, whose translation is marked already. -/
structure WriteEntries (l : Lookups w) (r : WordRam) : Prop where
  direct : ∀ a, operand a → l.writelookup2 (vpn a) ≠ -1 →
    env.hostIndex (l.writelookup2 (vpn a)) a = place a ∧ WordRam.mark (mask a) r = r
  page : ∀ a, operand a → ∀ p, l.pageLookup (vpn a) = some p →
    env.inPage p a = place a ∧ WordRam.mark (mask a) r = r

end

variable {env : BusEnv w} {operand : BitVec 32 → Prop} {place : BitVec 32 → BitVec 32}
  {mask : BitVec 32 → WordRam} {m : Mmu} {l : Lookups w} {r r' : WordRam} {a b p q : BitVec 32}
  {rw : Bool} {fill : FillEnv}

/-- The place of an address, from a place on its page. -/
theorem Reaches.place_eq (reaches : env.Reaches rw operand place mask m) (inA : operand a)
    (inB : operand b) (samePage : vpn b = vpn a) (page : vpn q = vpn (place a)) :
    place b = vpn q ++ b.extractLsb' 0 12 := by
  obtain ⟨-, same, -⟩ := reaches.page inA inB samePage.symm
  rw [page, ← same, ← reaches.low inB]
  apply BitVec.eq_of_toNat_eq
  rw [BitVec.toNat_append, ← Nat.shiftLeft_add_eq_or_of_lt (BitVec.isLt _), Nat.shiftLeft_eq]
  exact toNat_eq_page (place b)

theorem ReadEntries.evict (entries : env.ReadEntries operand place l) :
    env.ReadEntries operand place l.evictRead := by
  unfold Lookups.evictRead
  split
  · exact entries
  · rename_i page _
    intro a inA present
    dsimp only at present ⊢
    by_cases here : vpn a = page
    · rw [here, Function.update_self] at present
      exact absurd rfl present
    · rw [Function.update_of_ne here] at present ⊢
      exact entries a inA present

theorem ReadEntries.addreadlookup (entries : env.ReadEntries operand place l)
    (reaches : env.Reaches rw operand place mask m) (inA : operand a)
    (page : vpn q = vpn (place a)) :
    env.ReadEntries operand place (l.addreadlookup env.host fill a q) := by
  unfold Lookups.addreadlookup
  split
  · exact entries
  · intro b inB present
    dsimp only at present ⊢
    by_cases here : vpn b = vpn a
    · rw [here, Function.update_self, hostIndex_target here, reaches.place_eq inA inB here page]
    · rw [Function.update_of_ne here] at present ⊢
      exact entries.evict b inB present

theorem WriteEntries.ram (entries : env.WriteEntries operand place mask l r)
    (settled : ∀ a, operand a → WordRam.mark (mask a) r = r → WordRam.mark (mask a) r' = r') :
    env.WriteEntries operand place mask l r' where
  direct a inA present := (entries.direct a inA present).imp_right (settled a inA)
  page a inA p present := (entries.page a inA p present).imp_right (settled a inA)

theorem WriteEntries.evict (entries : env.WriteEntries operand place mask l r) :
    env.WriteEntries operand place mask l.evictWrite r := by
  unfold Lookups.evictWrite
  split
  · exact entries
  · rename_i page _
    refine ⟨fun a inA present => ?_, fun a inA p present => ?_⟩
    · dsimp only at present ⊢
      by_cases here : vpn a = page
      · rw [here, Function.update_self] at present
        exact absurd rfl present
      · rw [Function.update_of_ne here] at present ⊢
        exact entries.direct a inA present
    · dsimp only at present
      by_cases here : vpn a = page
      · rw [here, Function.update_self] at present
        cases present
      · rw [Function.update_of_ne here] at present
        exact entries.page a inA p present

theorem WriteEntries.mapWrite (entries : env.WriteEntries operand place mask l r)
    (reaches : env.Reaches rw operand place mask m) (inA : operand a)
    (settled : WordRam.mark (mask a) r = r) (page : vpn q = vpn (place a))
    (mem : env.pageMem (vpn q) = vpn q) :
    env.WriteEntries operand place mask (l.mapWrite env.host fill a q) r := by
  have marked (b : BitVec 32) (inB : operand b) (here : vpn b = vpn a) :
      WordRam.mark (mask b) r = r := by
    rw [(reaches.page inA inB here.symm).1, settled]
  unfold Lookups.mapWrite
  split
  · refine ⟨fun b inB present => entries.direct b inB present, fun b inB p present => ?_⟩
    dsimp only at present
    by_cases here : vpn b = vpn a
    · rw [here, Function.update_self] at present
      cases present
      refine ⟨?_, marked b inB here⟩
      rw [inPage, mem, reaches.place_eq inA inB here page]
    · rw [Function.update_of_ne here] at present
      exact entries.page b inB p present
  · refine ⟨fun b inB present => ?_, fun b inB p present => entries.page b inB p present⟩
    dsimp only at present ⊢
    by_cases here : vpn b = vpn a
    · refine ⟨?_, marked b inB here⟩
      rw [here, Function.update_self, hostIndex_target here, reaches.place_eq inA inB here page]
    · rw [Function.update_of_ne here] at present ⊢
      exact entries.direct b inB present

theorem WriteEntries.addwritelookup (entries : env.WriteEntries operand place mask l r)
    (reaches : env.Reaches rw operand place mask m) (inA : operand a)
    (settled : WordRam.mark (mask a) r = r) (page : vpn q = vpn (place a))
    (mem : env.pageMem (vpn q) = vpn q) :
    env.WriteEntries operand place mask (l.addwritelookup env.host fill a q) r := by
  unfold Lookups.addwritelookup
  split
  · exact entries
  · have mapped : env.WriteEntries operand place mask (l.evictWrite.mapWrite env.host fill a q) r :=
      entries.evict.mapWrite reaches inA settled page mem
    exact ⟨mapped.direct, mapped.page⟩

/-! ## Reads -/

/-- The bytes at the places of the addresses from `a` on. -/
def placed (place : BitVec 32 → BitVec 32) (r : WordRam) (a : BitVec 32) (size : Nat) :
    List (BitVec 8) :=
  (List.range size).map fun i => r.load8 (place (a + BitVec.ofNat 32 i))

theorem placed_add (size size' : Nat) : placed place r a (size + size') =
    placed place r a size ++ placed place r (a + BitVec.ofNat 32 size) size' := by
  simp only [placed, List.range_add, List.map_append, List.map_map, Function.comp_def,
    BitVec.add_assoc, BitVec.ofNat_add]

/-- A read leaves the operand reached, and as it was. -/
structure ReadOk (env : BusEnv w) (operand : BitVec 32 → Prop) (place : BitVec 32 → BitVec 32)
    (mask : BitVec 32 → WordRam) (s s' : Bus w) : Prop where
  reaches : env.Reaches false operand place mask s'.mmu
  entries : env.ReadEntries operand place s'.lookups
  same : ∀ a, operand a → s'.ram.load8 (place a) = s.ram.load8 (place a)

variable {s s' s'' : Bus w}

theorem ReadOk.trans (first : env.ReadOk operand place mask s s')
    (second : env.ReadOk operand place mask s' s'') : env.ReadOk operand place mask s s'' :=
  ⟨second.reaches, second.entries, fun a inA => (second.same a inA).trans (first.same a inA)⟩

theorem ReadOk.placed (read : env.ReadOk operand place mask s s') {size : Nat}
    (inOperand : ∀ i < size, operand (a + BitVec.ofNat 32 i)) :
    BusEnv.placed place s'.ram a size = BusEnv.placed place s.ram a size :=
  List.map_congr_left fun i inRange => read.same _ (inOperand i (List.mem_range.mp inRange))

/-- The translation of an address of the operand. -/
theorem Reaches.translate (reaches : env.Reaches rw operand place mask s.mmu) (inA : operand a) :
    ∃ phys mmuPerm,
      s.translate a rw = (some phys, s.withRam (WordRam.mark (mask a) s.ram) mmuPerm) ∧
      s.mmu.reach a rw = some (phys, mask a) ∧
      env.ramAt rw (phys &&& env.rammask) = some (place a) := by
  obtain ⟨phys, found, real, inRam⟩ := reaches.reach a inA
  obtain ⟨mmuPerm, translated⟩ := Bus.translate_of_reach found real
  exact ⟨phys, mmuPerm, translated, found, inRam⟩

theorem ReadOk.marked (reaches : env.Reaches false operand place mask s.mmu)
    (entries : env.ReadEntries operand place s.lookups) (inA : operand a) (mmuPerm : BitVec 32) :
    env.ReadOk operand place mask s (s.withRam (WordRam.mark (mask a) s.ram) mmuPerm) where
  reaches := reaches.marked inA mmuPerm
  entries := entries
  same b inB := WordRam.load8_mark (reaches.apart b a inB inA)

/-- The check of two addresses of the operand. -/
theorem Reaches.check (reaches : env.Reaches rw operand place mask s.mmu) (inA : operand a)
    (inB : operand b) : ∃ mmuPerm, s.check a b rw = (true,
      s.withRam (WordRam.mark (mask b) (WordRam.mark (mask a) s.ram)) mmuPerm) := by
  obtain ⟨phys, perm, first, -⟩ := reaches.translate inA
  obtain ⟨phys', perm', second, -⟩ :=
    Reaches.translate (s := s.withRam (WordRam.mark (mask a) s.ram) perm)
      (reaches.marked inA perm) inB
  refine ⟨perm', ?_⟩
  rw [Bus.check, first]
  dsimp only
  rw [second]
  rfl

/-! ## Within a page -/

/-- The addresses from `a` on are on its page. -/
def OnPage (a : BitVec 32) (size : Nat) : Prop := ∀ i < size, vpn (a + BitVec.ofNat 32 i) = vpn a

theorem vpn_add {i : Nat} (fits : a.toNat % 4096 + i < 4096) :
    vpn (a + BitVec.ofNat 32 i) = vpn a := by
  have bound := a.isLt
  apply BitVec.eq_of_toNat_eq
  simp only [vpn, BitVec.extractLsb'_toNat, BitVec.toNat_add, BitVec.toNat_ofNat,
    Nat.shiftRight_eq_div_pow]
  omega

/-- An access that is aligned, or that is found not to cross, stays on its page. -/
theorem onPage_of_split {size : Nat} (sizes : size = 1 ∨ size = 2 ∨ size = 4)
    (within : ¬ (a &&& BitVec.ofNat 32 (2 * size - 1) ≠ 0 ∧
      a &&& 0xfff > 0xfff - BitVec.ofNat 32 (2 * size - 1))) : OnPage a (size + size) := by
  have offset : (a &&& 0xfff).toNat = a.toNat % 4096 := by
    rw [BitVec.toNat_and]
    exact Nat.and_two_pow_sub_one_eq_mod a.toNat 12
  have aligned (k : Nat) (mask : BitVec 32) (ones : mask.toNat = 2 ^ k - 1) :
      (a &&& mask).toNat = a.toNat % 2 ^ k := by
    rw [BitVec.toNat_and, ones, Nat.and_two_pow_sub_one_eq_mod]
  intro i below
  apply vpn_add
  by_cases misaligned : a &&& BitVec.ofNat 32 (2 * size - 1) = 0
  · have zero := congrArg BitVec.toNat misaligned
    rcases sizes with rfl | rfl | rfl
    · rw [aligned 1 _ rfl] at zero
      simp at zero
      omega
    · rw [aligned 2 _ rfl] at zero
      simp at zero
      omega
    · rw [aligned 3 _ rfl] at zero
      simp at zero
      omega
  · have fits : ¬ (a &&& 0xfff > 0xfff - BitVec.ofNat 32 (2 * size - 1)) :=
      fun crosses => within ⟨misaligned, crosses⟩
    rw [gt_iff_lt, BitVec.lt_def, offset] at fits
    rcases sizes with rfl | rfl | rfl
    · have limit : (0xfff - BitVec.ofNat 32 (2 * 1 - 1)).toNat = 0xffe := rfl
      omega
    · have limit : (0xfff - BitVec.ofNat 32 (2 * 2 - 1)).toNat = 0xffc := rfl
      omega
    · have limit : (0xfff - BitVec.ofNat 32 (2 * 4 - 1)).toNat = 0xff8 := rfl
      omega

/-- On a page the places are consecutive, with the same marks. -/
theorem Reaches.consecutive (reaches : env.Reaches rw operand place mask m) {size : Nat}
    (inOperand : ∀ i < size, operand (a + BitVec.ofNat 32 i)) (onPage : OnPage a size) {i : Nat}
    (below : i < size) : place (a + BitVec.ofNat 32 i) = place a + BitVec.ofNat 32 i ∧
      mask (a + BitVec.ofNat 32 i) = mask a := by
  have inA : operand a := by
    have first := inOperand 0 (by omega)
    rwa [show a + BitVec.ofNat 32 0 = a from BitVec.add_zero a] at first
  obtain ⟨marks, -, at'⟩ := reaches.page inA (inOperand i below) (onPage i below).symm
  refine ⟨at'.trans ?_, marks⟩
  rw [BitVec.add_comm a, BitVec.add_sub_cancel]

theorem Reaches.bytesAt (reaches : env.Reaches rw operand place mask m) {size : Nat}
    (inOperand : ∀ i < size, operand (a + BitVec.ofNat 32 i)) (onPage : OnPage a size) :
    r.bytesAt (place a) size = placed place r a size := by
  apply List.map_congr_left
  intro i inRange
  rw [(reaches.consecutive inOperand onPage (List.mem_range.mp inRange)).1]

theorem operand_zero {size : Nat} (positive : 0 < size)
    (inOperand : ∀ i < size, operand (a + BitVec.ofNat 32 i)) : operand a := by
  have first := inOperand 0 positive
  rwa [show a + BitVec.ofNat 32 0 = a from BitVec.add_zero a] at first

/-! ## Reads of every size -/

/-- A function reads the bytes of its operand. -/
def ReadsBytes (env : BusEnv w) (operand : BitVec 32 → Prop) (place : BitVec 32 → BitVec 32)
    (mask : BitVec 32 → WordRam) (size : Nat) {n : Nat}
    (f : BitVec 32 → Bus w → BitVec n × Bus w) : Prop :=
  ∀ s a, env.Reaches false operand place mask s.mmu → env.ReadEntries operand place s.lookups →
    (∀ i < size, operand (a + BitVec.ofNat 32 i)) →
    (f a s).1.toNat = WordRam.fromBytes (placed place s.ram a size) ∧
      env.ReadOk operand place mask s (f a s).2

/-- The same on one page, for the logical address. -/
def ReadsMapped (env : BusEnv w) (operand : BitVec 32 → Prop) (place : BitVec 32 → BitVec 32)
    (mask : BitVec 32 → WordRam) (size : Nat) {n : Nat}
    (f : BitVec 32 → Bus w → BitVec n × Bus w) : Prop :=
  ∀ s a, s.memLogicalAddr = a → env.Reaches false operand place mask s.mmu →
    env.ReadEntries operand place s.lookups →
    (∀ i < size, operand (a + BitVec.ofNat 32 i)) → OnPage a size →
    (f a s).1.toNat = WordRam.fromBytes (placed place s.ram a size) ∧
      env.ReadOk operand place mask s (f a s).2

/-- Two reads of halves. -/
theorem readPair_bytes {n size : Nat} {half : BitVec 32 → Bus w → BitVec n × Bus w}
    (whole : n = 8 * size) (reads : env.ReadsBytes operand place mask size half) :
    env.ReadsBytes operand place mask (size + size) (readPair half (BitVec.ofNat 32 size)) := by
  intro s a reaches entries inOperand
  have next (i : Nat) : a + BitVec.ofNat 32 size + BitVec.ofNat 32 i =
      a + BitVec.ofNat 32 (size + i) := by rw [BitVec.add_assoc, BitVec.ofNat_add]
  have inFirst (i : Nat) (below : i < size) := inOperand i (by omega)
  have inSecond (i : Nat) (below : i < size) :
      operand (a + BitVec.ofNat 32 size + BitVec.ofNat 32 i) :=
    next i ▸ inOperand (size + i) (by omega)
  obtain ⟨low, first⟩ := reads s a reaches entries inFirst
  obtain ⟨high, second⟩ := reads (half a s).2 (a + BitVec.ofNat 32 size) first.reaches
    first.entries inSecond
  refine ⟨?_, first.trans second⟩
  rw [readPair, WordRam.toNat_join, low, high, first.placed inSecond, placed_add,
    WordRam.fromBytes_append, placed, List.length_map, List.length_range, whole]

/-- What an access does first changes neither RAM nor the tables. -/
structure Begun (s s' : Bus w) (a : BitVec 32) : Prop where
  mmu : s'.mmu = s.mmu
  readlookup2 : s'.lookups.readlookup2 = s.lookups.readlookup2
  writelookup2 : s'.lookups.writelookup2 = s.lookups.writelookup2
  pageLookup : s'.lookups.pageLookup = s.lookups.pageLookup
  logical : s'.memLogicalAddr = a

theorem begun_logical (s : Bus w) (a : BitVec 32) : Begun s { s with memLogicalAddr := a } a :=
  ⟨rfl, rfl, rfl, rfl, rfl⟩

theorem begun_charged (env : BusEnv w) (charged : Bool) (s : Bus w) (a : BitVec 32) :
    Begun s (env.chargeMisaligned charged { s with memLogicalAddr := a }) a := by
  unfold chargeMisaligned
  split
  · exact ⟨rfl, rfl, rfl, rfl, rfl⟩
  · exact begun_logical s a

theorem Begun.readEntries (begun : Begun s s' a)
    (entries : env.ReadEntries operand place s.lookups) :
    env.ReadEntries operand place s'.lookups := by
  intro b inB
  rw [begun.readlookup2]
  exact entries b inB

theorem Begun.readOk (begun : Begun s s' a) (read : env.ReadOk operand place mask s' s'') :
    env.ReadOk operand place mask s s'' := by
  refine ⟨read.reaches, read.entries, fun b inB => ?_⟩
  rw [read.same b inB, Bus.ram, begun.mmu]

theorem readWide_bytes {n : Nat} (size : Nat) {half : BitVec 32 → Bus w → BitVec n × Bus w}
    {charged : BitVec 32 → Bool} {fault : BitVec (n + n)}
    {load : WordRam → BitVec 32 → BitVec (n + n)}
    {mapped : BitVec 32 → Bus w → BitVec (n + n) × Bus w}
    (whole : n = 8 * size) (sizes : size = 1 ∨ size = 2 ∨ size = 4)
    (reads : env.ReadsBytes operand place mask size half)
    (loads : ∀ r p, (load r p).toNat = WordRam.fromBytes (r.bytesAt p (size + size)))
    (mappedReads : env.ReadsMapped operand place mask (size + size) mapped) :
    env.ReadsBytes operand place mask (size + size) fun a =>
      env.readWide (BitVec.ofNat 32 (2 * size - 1)) (charged a) fault half (BitVec.ofNat 32 size)
        load mapped a := by
  intro s a reaches entries inOperand
  have inA : operand a := operand_zero (by omega) inOperand
  have inLast : operand (a + BitVec.ofNat 32 (2 * size - 1)) := inOperand _ (by omega)
  -- each way is taken from a state that an access begins with
  have back {s' : Bus w} {x : BitVec (n + n) × Bus w} (begun : Begun s s' a)
      (done : env.Reaches false operand place mask s'.mmu →
        env.ReadEntries operand place s'.lookups →
        x.1.toNat = WordRam.fromBytes (placed place s'.ram a (size + size)) ∧
          env.ReadOk operand place mask s' x.2) :
      x.1.toNat = WordRam.fromBytes (placed place s.ram a (size + size)) ∧
        env.ReadOk operand place mask s x.2 := by
    obtain ⟨value, read⟩ := done (begun.mmu ▸ reaches) (begun.readEntries entries)
    rw [Bus.ram, begun.mmu] at value
    exact ⟨value, begun.readOk read⟩
  dsimp only
  unfold readWide
  dsimp only
  split
  · rename_i misaligned
    have begun := begun_charged env (charged a) s a
    generalize env.chargeMisaligned (charged a) { s with memLogicalAddr := a } = s' at begun ⊢
    apply back begun
    intro reaches' entries'
    split
    · obtain ⟨perm, checked⟩ := reaches'.check inA inLast
      rw [checked]
      have marked := ReadOk.marked reaches' entries' inA s'.mmu.mmuPerm
      have ready := marked.trans (ReadOk.marked marked.reaches marked.entries inLast perm)
      obtain ⟨value, read⟩ := readPair_bytes whole reads _ a ready.reaches ready.entries inOperand
      exact ⟨value.trans (congrArg WordRam.fromBytes (ready.placed inOperand)), ready.trans read⟩
    · rename_i within
      have onPage : OnPage a (size + size) := onPage_of_split sizes fun both => within both.2
      split
      · rename_i present
        refine ⟨?_, reaches', entries', fun _ _ => rfl⟩
        dsimp only
        rw [entries' a inA present, loads, reaches'.bytesAt inOperand onPage]
      · exact mappedReads s' a begun.logical reaches' entries' inOperand onPage
  · rename_i aligned
    have onPage : OnPage a (size + size) := onPage_of_split sizes fun both => aligned both.1
    apply back (begun_logical s a)
    intro reaches' entries'
    exact mappedReads _ a rfl reaches' entries' inOperand onPage

/-! ## Reads by way of a mapping -/

/-- A handler of RAM reads at its displacement, within the page of the logical address. -/
def HandlerReads (env : BusEnv w) (operand : BitVec 32 → Prop) (place : BitVec 32 → BitVec 32)
    (mask : BitVec 32 → WordRam) (size : Nat) {n : Nat} (load : WordRam → BitVec 32 → BitVec n)
    (f : BitVec 32 → BitVec 32 → Bus w → BitVec n × Bus w) : Prop :=
  ∀ d x s, env.Reaches false operand place mask s.mmu → env.ReadEntries operand place s.lookups →
    operand s.memLogicalAddr →
    (∀ i < size, vpn (x + d + BitVec.ofNat 32 i) = vpn (place s.memLogicalAddr)) →
    (f d x s).1 = load s.ram (x + d) ∧ env.ReadOk operand place mask s (f d x s).2 ∧
      (f d x s).2.ram = s.ram ∧ (f d x s).2.memLogicalAddr = s.memLogicalAddr

theorem readRam_reads {n size : Nat} {load : WordRam → BitVec 32 → BitVec n} (positive : 0 < size) :
    env.HandlerReads operand place mask size load (env.readRam load) := by
  intro d x s reaches entries inA page
  have first := page 0 positive
  rw [show x + d + BitVec.ofNat 32 0 = x + d from BitVec.add_zero _] at first
  exact ⟨rfl, ⟨reaches, entries.addreadlookup reaches inA first, fun _ _ => rfl⟩, rfl, rfl⟩

theorem readPair_reads {n : Nat} (size : Nat) {load : WordRam → BitVec 32 → BitVec n}
    {f : BitVec 32 → BitVec 32 → Bus w → BitVec n × Bus w}
    (half : env.HandlerReads operand place mask size load f) :
    env.HandlerReads operand place mask (size + size)
      (fun r p => WordRam.join (load r p) (load r (p + BitVec.ofNat 32 size)))
      fun d => readPair (f d) (BitVec.ofNat 32 size) := by
  intro d x s reaches entries inA page
  have moved : x + BitVec.ofNat 32 size + d = x + d + BitVec.ofNat 32 size := by
    rw [BitVec.add_assoc, BitVec.add_comm _ d, BitVec.add_assoc]
  obtain ⟨low, first, ram, logical⟩ := half d x s reaches entries inA fun i below =>
    page i (by omega)
  obtain ⟨high, second, ram', logical'⟩ := half d (x + BitVec.ofNat 32 size) (f d x s).2
    first.reaches first.entries (logical ▸ inA) fun i below => by
      rw [moved, BitVec.add_assoc, ← BitVec.ofNat_add, logical]
      exact page (size + i) (by omega)
  refine ⟨?_, first.trans second, ram'.trans ram, logical'.trans logical⟩
  calc (readPair (f d) (BitVec.ofNat 32 size) x s).1 =
      WordRam.join (f d x s).1 (f d (x + BitVec.ofNat 32 size) (f d x s).2).1 := rfl
    _ = WordRam.join (load s.ram (x + d)) (load s.ram (x + d + BitVec.ofNat 32 size)) := by
      rw [low, high, ram, moved]

theorem readMapped_reads {n size : Nat} {load : WordRam → BitVec 32 → BitVec n}
    {f : BitVec 32 → BitVec 32 → Bus w → BitVec n × Bus w} {fault : BitVec n}
    {read : Option (BusHandlers w) → BitVec 32 → Bus w → BitVec n × Bus w} (positive : 0 < size)
    (handler : env.HandlerReads operand place mask size load f)
    (onRam : ∀ d, read (some (env.ramHandlers d)) = f d)
    (loads : ∀ r p, (load r p).toNat = WordRam.fromBytes (r.bytesAt p size)) :
    env.ReadsMapped operand place mask size (env.readMapped fault read) := by
  intro s a logical reaches entries inOperand onPage
  have inA : operand a := operand_zero positive inOperand
  obtain ⟨phys, perm, translated, -, inRam⟩ := reaches.translate inA
  obtain ⟨d, mapped, at', -⟩ := ramAt_eq inRam
  have marked := ReadOk.marked reaches entries inA perm
  have region : env.reads (phys &&& env.rammask) = some (env.ramHandlers d) := by
    rw [reads, show env.readMapping (granule (phys &&& env.rammask)) = some (.ram d) from mapped]
    rfl
  have page (i : Nat) (below : i < size) : vpn ((phys &&& env.rammask) + d + BitVec.ofNat 32 i) =
      vpn (place s.memLogicalAddr) := by
    rw [← at', logical, ← (reaches.consecutive inOperand onPage below).1]
    exact (reaches.page inA (inOperand i below) (onPage i below).symm).2.1
  obtain ⟨value, read, -, -⟩ := handler d (phys &&& env.rammask) _ marked.reaches marked.entries
    (show operand s.memLogicalAddr from logical ▸ inA) page
  unfold readMapped
  rw [translated]
  dsimp only
  rw [region, onRam]
  refine ⟨?_, marked.trans read⟩
  rw [value, loads, ← at', reaches.bytesAt inOperand onPage, marked.placed inOperand]

theorem readmembl_bytes (env : BusEnv w) : env.ReadsBytes operand place mask 1 env.readmembl := by
  intro s a reaches entries inOperand
  have single (r : WordRam) (p : BitVec 32) :
      (r.load8 p).toNat = WordRam.fromBytes (r.bytesAt p 1) := by
    simp [WordRam.bytesAt, WordRam.fromBytes]
  have mapped {read : Option (BusHandlers w) → BitVec 32 → Bus w → BitVec 8 × Bus w}
      (onRam : ∀ d, read (some (env.ramHandlers d)) = env.readRam WordRam.load8 d) :
      env.ReadsMapped operand place mask 1 (env.readMapped 0xff read) :=
    readMapped_reads (by decide) (readRam_reads (by decide)) onRam single
  have onPage : OnPage a 1 := by
    intro i below
    obtain rfl : i = 0 := by omega
    rw [show a + BitVec.ofNat 32 0 = a from BitVec.add_zero a]
  have begun := begun_logical s a
  unfold readmembl
  exact (mapped (by exact fun _ => rfl) _ a rfl (begun.mmu ▸ reaches) (begun.readEntries entries)
    inOperand onPage).imp_right begun.readOk

theorem readmemwl_bytes (env : BusEnv w) : env.ReadsBytes operand place mask 2 env.readmemwl :=
  readWide_bytes 1 rfl (by decide) (readmembl_bytes env) WordRam.toNat_load16
    (readMapped_reads (by decide) (readRam_reads (by decide)) (fun _ => rfl) WordRam.toNat_load16)

theorem readmemll_bytes (env : BusEnv w) : env.ReadsBytes operand place mask 4 env.readmemll :=
  readWide_bytes 2 rfl (by decide) (readmemwl_bytes env) WordRam.toNat_load32
    (readMapped_reads (by decide) (readRam_reads (by decide)) (fun _ => rfl) WordRam.toNat_load32)

theorem readmemql_bytes (env : BusEnv w) : env.ReadsBytes operand place mask 8 env.readmemql :=
  readWide_bytes 4 rfl (by decide) (readmemll_bytes env) WordRam.toNat_load64
    (readMapped_reads (by decide) (readPair_reads 4 (readRam_reads (by decide)))
      (fun _ => rfl) WordRam.toNat_load64)

end BusEnv

end PCemWeb.Memory
