import PCemWeb.Memory.AccessReads

/-!
# Writes and their bytes

Every write stores the bytes of its operand, each after the marks of its translation, whichever way
it takes.
-/

namespace PCemWeb.Memory

open PCemWeb.Lib

namespace BusEnv

variable {w : Nat} {env : BusEnv w} {operand : BitVec 32 → Prop} {place : BitVec 32 → BitVec 32}
  {mask : BitVec 32 → WordRam} {r : WordRam} {a b p x : BitVec 32} {s s' s'' : Bus w}
  {bytes bytes' : List (BitVec 32 × BitVec 8)} {mmuPerm : BitVec 32}

/-! ## Stores to the operand -/

/-- A write stores bytes and keeps the entries of the operand. -/
structure WriteOk (env : BusEnv w) (operand : BitVec 32 → Prop) (place : BitVec 32 → BitVec 32)
    (mask : BitVec 32 → WordRam) (bytes : List (BitVec 32 × BitVec 8)) (s s' : Bus w) : Prop where
  stored : ∃ mmuPerm, s'.mmu = s.mmu.withRam (puts place mask bytes s.ram) mmuPerm
  entries : env.WriteEntries operand place mask s'.lookups s'.ram

theorem WriteOk.ram (write : env.WriteOk operand place mask bytes s s') :
    s'.ram = puts place mask bytes s.ram := by
  obtain ⟨mmuPerm, stored⟩ := write.stored
  exact congrArg Mmu.ram stored

theorem WriteOk.trans (first : env.WriteOk operand place mask bytes s s')
    (second : env.WriteOk operand place mask bytes' s' s'') :
    env.WriteOk operand place mask (bytes ++ bytes') s s'' := by
  obtain ⟨mmuPerm, stored⟩ := first.stored
  obtain ⟨mmuPerm', stored'⟩ := second.stored
  refine ⟨⟨mmuPerm', ?_⟩, second.entries⟩
  rw [stored', stored, puts_append, first.ram]
  rfl

/-- The bytes of an operand do not touch the marks of any of it. -/
theorem Reaches.settled (reaches : env.Reaches true operand place mask s.mmu)
    (inOperand : ∀ x ∈ bytes, operand x.1) (inA : operand a)
    (marked : WordRam.mark (mask a) r = r) :
    WordRam.mark (mask a) (puts place mask bytes r) = puts place mask bytes r := by
  rw [mark_puts fun x member => reaches.apart x.1 a (inOperand x member) inA, marked]

theorem Reaches.stored (reaches : env.Reaches true operand place mask s.mmu)
    (inOperand : ∀ x ∈ bytes, operand x.1) (mmuPerm : BitVec 32) :
    env.Reaches true operand place mask (s.mmu.withRam (puts place mask bytes s.ram) mmuPerm) := by
  apply reaches.withRam
  intro a inA e used
  apply puts_alike
  · rintro x member rfl
    exact used (reaches.apart x.1 a (inOperand x member) inA)
  · intro x member r
    obtain ⟨phys, found, -, -⟩ := reaches.reach x.1 (inOperand x member)
    exact Mmu.alike_mark_reach found r e

theorem WriteOk.reaches (write : env.WriteOk operand place mask bytes s s')
    (reaches : env.Reaches true operand place mask s.mmu) (inOperand : ∀ x ∈ bytes, operand x.1) :
    env.Reaches true operand place mask s'.mmu := by
  obtain ⟨mmuPerm, stored⟩ := write.stored
  rw [stored]
  exact reaches.stored inOperand mmuPerm

theorem operand_bytesOf {n size : Nat} {v : BitVec n}
    (inOperand : ∀ i < size, operand (a + BitVec.ofNat 32 i)) :
    ∀ x ∈ bytesOf size a v, operand x.1 := by
  intro x member
  obtain ⟨i, below, at'⟩ := mem_bytesOf member
  rw [at']
  exact inOperand i below

/-! ## Writes of every size -/

/-- A function writes the bytes of its operand. -/
def WritesBytes (env : BusEnv w) (operand : BitVec 32 → Prop) (place : BitVec 32 → BitVec 32)
    (mask : BitVec 32 → WordRam) (size : Nat) {n : Nat}
    (f : BitVec 32 → BitVec n → Bus w → Bus w) : Prop :=
  ∀ s a v, env.Reaches true operand place mask s.mmu →
    env.WriteEntries operand place mask s.lookups s.ram →
    (∀ i < size, operand (a + BitVec.ofNat 32 i)) →
    env.WriteOk operand place mask (bytesOf size a v) s (f a v s)

/-- The same on one page, for the logical address. -/
def WritesMapped (env : BusEnv w) (operand : BitVec 32 → Prop) (place : BitVec 32 → BitVec 32)
    (mask : BitVec 32 → WordRam) (size : Nat) {n : Nat}
    (f : BitVec 32 → BitVec n → Bus w → Bus w) : Prop :=
  ∀ s a v, s.memLogicalAddr = a → env.Reaches true operand place mask s.mmu →
    env.WriteEntries operand place mask s.lookups s.ram →
    (∀ i < size, operand (a + BitVec.ofNat 32 i)) → OnPage a size →
    env.WriteOk operand place mask (bytesOf size a v) s (f a v s)

/-- Two writes of halves. -/
theorem writePair_bytes {n size : Nat} {half : BitVec 32 → BitVec n → Bus w → Bus w}
    (whole : n = 8 * size) (writes : env.WritesBytes operand place mask size half) :
    env.WritesBytes operand place mask (size + size) (writePair half (BitVec.ofNat 32 size)) := by
  intro s a v reaches entries inOperand
  have inFirst (i : Nat) (below : i < size) := inOperand i (by omega)
  have inSecond (i : Nat) (below : i < size) :
      operand (a + BitVec.ofNat 32 size + BitVec.ofNat 32 i) := by
    rw [BitVec.add_assoc, ← BitVec.ofNat_add]
    exact inOperand (size + i) (by omega)
  have first := writes s a (v.setWidth n) reaches entries inFirst
  have second := writes _ (a + BitVec.ofNat 32 size) ((v >>> n).setWidth n)
    (first.reaches reaches (operand_bytesOf inFirst)) first.entries inSecond
  rw [bytesOf_double whole]
  exact first.trans second

theorem Begun.writeEntries (begun : Begun s s' a)
    (entries : env.WriteEntries operand place mask s.lookups s.ram) :
    env.WriteEntries operand place mask s'.lookups s'.ram := by
  have ram : s'.ram = s.ram := congrArg Mmu.ram begun.mmu
  rw [ram]
  refine ⟨fun b inB => ?_, fun b inB => ?_⟩
  · rw [begun.writelookup2]
    exact entries.direct b inB
  · rw [begun.pageLookup]
    exact entries.page b inB

theorem Begun.writeOk (begun : Begun s s' a)
    (write : env.WriteOk operand place mask bytes s' s'') :
    env.WriteOk operand place mask bytes s s'' := by
  obtain ⟨mmuPerm, stored⟩ := write.stored
  refine ⟨⟨mmuPerm, ?_⟩, write.entries⟩
  rw [stored, Bus.ram, begun.mmu]

/-- A store at a place that is marked. -/
theorem writeOk_setRam {n size : Nat} {store : WordRam → BitVec 32 → BitVec n → WordRam}
    {v : BitVec n}
    (stores : StoresBytes operand place mask size store)
    (reaches : env.Reaches true operand place mask s.mmu)
    (entries : env.WriteEntries operand place mask s.lookups s.ram)
    (inOperand : ∀ i < size, operand (a + BitVec.ofNat 32 i)) (onPage : OnPage a size)
    (marked : WordRam.mark (mask a) s.ram = s.ram) :
    env.WriteOk operand place mask (bytesOf size a v) s (s.setRam (store s.ram (place a) v)) := by
  have bytes : store s.ram (place a) v = puts place mask (bytesOf size a v) s.ram :=
    (congrArg (store · (place a) v) marked.symm).trans
      (stores s.ram a v inOperand fun i below => reaches.consecutive inOperand onPage below)
  refine ⟨⟨s.mmu.mmuPerm, ?_⟩, ?_⟩
  · rw [Bus.setRam, bytes]
    rfl
  · rw [Bus.setRam, bytes]
    exact entries.ram fun b inB => reaches.settled (operand_bytesOf inOperand) inB

/-- Marks before the bytes that they belong to. -/
theorem WriteOk.after_marks {marks : WordRam} {t : Bus w}
    (write : env.WriteOk operand place mask bytes t s')
    (reached : t.mmu = s.mmu.withRam marks mmuPerm)
    (same : puts place mask bytes marks = puts place mask bytes s.ram) :
    env.WriteOk operand place mask bytes s s' := by
  obtain ⟨mmuPerm', stored⟩ := write.stored
  refine ⟨⟨mmuPerm', ?_⟩, write.entries⟩
  rw [stored, Bus.ram, reached]
  exact congrArg (s.mmu.withRam · mmuPerm') same

theorem WriteEntries.marked {l : Lookups w} (entries : env.WriteEntries operand place mask l r)
    (b : BitVec 32) : env.WriteEntries operand place mask l (WordRam.mark (mask b) r) :=
  entries.ram fun a _ settled => by rw [WordRam.mark_comm, settled]

/-- Marks of a byte that follows change nothing. -/
theorem Reaches.absorb (reaches : env.Reaches true operand place mask s.mmu)
    (inOperand : ∀ x ∈ bytes, operand x.1) {x : BitVec 32 × BitVec 8} (member : x ∈ bytes) :
    puts place mask bytes (WordRam.mark (mask x.1) r) =
      puts place mask bytes r := by
  rw [← mark_puts fun y inY => reaches.apart y.1 x.1 (inOperand y inY) (inOperand x member)]
  exact mark_puts_self
    (fun y inY z inZ => reaches.apart z.1 y.1 (inOperand z inZ) (inOperand y inY)) member

theorem getElem_bytesOf {n size : Nat} (a : BitVec 32) (v : BitVec n) {i : Nat} (below : i < size) :
    (a + BitVec.ofNat 32 i, v.extractLsb' (8 * i) 8) ∈ bytesOf size a v :=
  List.mem_map.mpr ⟨i, List.mem_range.mpr below, rfl⟩

theorem writeWide_bytes {n : Nat} (size : Nat) {half : BitVec 32 → BitVec n → Bus w → Bus w}
    {charged : BitVec 32 → Bool} {store : WordRam → BitVec 32 → BitVec (n + n) → WordRam}
    {mapped : BitVec 32 → BitVec (n + n) → Bus w → Bus w}
    (whole : n = 8 * size) (sizes : size = 1 ∨ size = 2 ∨ size = 4)
    (writes : env.WritesBytes operand place mask size half)
    (stores : StoresBytes operand place mask (size + size) store)
    (mappedWrites : env.WritesMapped operand place mask (size + size) mapped) :
    env.WritesBytes operand place mask (size + size) fun a =>
      env.writeWide (BitVec.ofNat 32 (2 * size - 1)) (charged a) half (BitVec.ofNat 32 size)
        store mapped a := by
  intro s a v reaches entries inOperand
  have first : a + BitVec.ofNat 32 0 = a := BitVec.add_zero a
  have inA : operand a := operand_zero (by omega) inOperand
  have inLast : operand (a + BitVec.ofNat 32 (2 * size - 1)) := inOperand _ (by omega)
  -- each way is taken from a state that an access begins with
  have back {s' t : Bus w} (begun : Begun s s' a)
      (done : env.Reaches true operand place mask s'.mmu →
        env.WriteEntries operand place mask s'.lookups s'.ram →
        env.WriteOk operand place mask (bytesOf (size + size) a v) s' t) :
      env.WriteOk operand place mask (bytesOf (size + size) a v) s t :=
    begun.writeOk (done (begun.mmu ▸ reaches) (begun.writeEntries entries))
  dsimp only
  unfold writeWide
  dsimp only
  split
  · rename_i misaligned
    have begun := begun_charged env (charged a) s a
    generalize env.chargeMisaligned (charged a) { s with memLogicalAddr := a } = s' at begun ⊢
    apply back begun
    intro reaches' entries'
    split
    · obtain ⟨perm, checked⟩ := reaches'.check inA inLast
      rw [checked]
      have ready := (reaches'.marked inA s'.mmu.mmuPerm).marked inLast perm
      have inBytes := operand_bytesOf (v := v) inOperand
      have write := writePair_bytes whole writes (s'.withRam (WordRam.mark
        (mask (a + BitVec.ofNat 32 (2 * size - 1))) (WordRam.mark (mask a) s'.ram)) perm) a v ready
        ((entries'.marked a).marked _) inOperand
      dsimp only
      refine write.after_marks rfl ?_
      have absorbLast := reaches'.absorb (r := WordRam.mark (mask a) s'.ram) inBytes
        (getElem_bytesOf a v (i := 2 * size - 1) (by omega))
      have absorbFirst := reaches'.absorb (r := s'.ram) inBytes
        (getElem_bytesOf a v (i := 0) (by omega))
      rw [first] at absorbFirst
      exact absorbLast.trans absorbFirst
    · rename_i within
      have onPage : OnPage a (size + size) := onPage_of_split sizes fun both => within both.2
      split
      · rename_i present
        obtain ⟨pointer, marked⟩ := entries'.direct a inA present
        rw [pointer]
        exact writeOk_setRam stores reaches' entries' inOperand onPage marked
      · exact mappedWrites s' a v begun.logical reaches' entries' inOperand onPage
  · rename_i aligned
    have onPage : OnPage a (size + size) := onPage_of_split sizes fun both => aligned both.1
    apply back (begun_logical s a)
    intro reaches' entries'
    exact mappedWrites _ a v rfl reaches' entries' inOperand onPage

/-! ## Writes by way of a page or a mapping -/

/-- A handler of a page stores at the page's own place. -/
def PageWrites (env : BusEnv w) (size : Nat) {n : Nat}
    (store : WordRam → BitVec 32 → BitVec n → WordRam)
    (f : BitVec 32 → BitVec n → BitVec 20 → Bus w → Bus w) : Prop :=
  ∀ x v p s, (∀ i < size,
      env.inPage p (x + BitVec.ofNat 32 i) = env.inPage p x + BitVec.ofNat 32 i) →
    f x v p s = s.setRam (store s.ram (env.inPage p x) v)

theorem writePage_writes {n size : Nat} {load : WordRam → BitVec 32 → BitVec n}
    {store : WordRam → BitVec 32 → BitVec n → WordRam}
    (idle : ∀ r a, store r a (load r a) = r) :
    env.PageWrites size store (env.writePage load store) := by
  intro x v p s _
  unfold writePage
  split
  · rfl
  · rename_i unchanged
    have same : v = load s.ram (env.inPage p x) :=
      not_not.mp fun other => unchanged (.inl other)
    rw [same, idle]
    rfl

theorem writePair_writes {n : Nat} (size : Nat) {store : WordRam → BitVec 32 → BitVec n → WordRam}
    {f : BitVec 32 → BitVec n → BitVec 20 → Bus w → Bus w} (positive : 0 < size)
    (half : env.PageWrites size store f) :
    env.PageWrites (size + size) (fun r a (v : BitVec (n + n)) =>
      store (store r a (v.setWidth n)) (a + BitVec.ofNat 32 size) ((v >>> n).setWidth n))
      fun x v p => writePair (f · · p) (BitVec.ofNat 32 size) x v := by
  intro x v p s consecutive
  have second := consecutive size (by omega)
  dsimp only
  rw [writePair, half x _ p s fun i below => consecutive i (by omega),
    half _ _ p _ fun i below => ?_, second]
  · rfl
  · rw [BitVec.add_assoc, ← BitVec.ofNat_add, consecutive (size + i) (by omega), second,
      BitVec.add_assoc, BitVec.ofNat_add]

/-- A handler of RAM writes at its displacement, within the page of the logical address. -/
def HandlerWrites (env : BusEnv w) (operand : BitVec 32 → Prop) (place : BitVec 32 → BitVec 32)
    (mask : BitVec 32 → WordRam) (size : Nat) {n : Nat}
    (f : BitVec 32 → BitVec 32 → BitVec n → Bus w → Bus w) : Prop :=
  ∀ d x s a v, env.Reaches true operand place mask s.mmu →
    env.WriteEntries operand place mask s.lookups s.ram → operand s.memLogicalAddr →
    WordRam.mark (mask s.memLogicalAddr) s.ram = s.ram →
    (∀ i < size, operand (a + BitVec.ofNat 32 i)) →
    (∀ i < size, vpn (a + BitVec.ofNat 32 i) = vpn s.memLogicalAddr) →
    (∀ i < size, env.writeMapping (granule (x + BitVec.ofNat 32 i)) = some (.ram d)) →
    x + d = place a →
    env.WriteOk operand place mask (bytesOf size a v) s (f d x v s) ∧
      (f d x v s).memLogicalAddr = s.memLogicalAddr

theorem inPage_self {p : BitVec 20} (own : env.pageMem p = vpn x) : env.inPage p x = x := by
  rw [inPage, own]
  apply BitVec.eq_of_toNat_eq
  rw [BitVec.toNat_append, ← Nat.shiftLeft_add_eq_or_of_lt (BitVec.isLt _), Nat.shiftLeft_eq]
  exact (toNat_eq_page x).symm

theorem onPage_of_logical {size : Nat} (positive : 0 < size)
    (page : ∀ i < size, vpn (a + BitVec.ofNat 32 i) = vpn b) : OnPage a size ∧ vpn a = vpn b := by
  have first := page 0 positive
  rw [show a + BitVec.ofNat 32 0 = a from BitVec.add_zero a] at first
  exact ⟨fun i below => (page i below).trans first.symm, first⟩

theorem writeRam_writes {n size : Nat} {store : WordRam → BitVec 32 → BitVec n → WordRam}
    {f : BitVec 32 → BitVec n → BitVec 20 → Bus w → Bus w} (positive : 0 < size)
    (stores : StoresBytes operand place mask size store) (page : env.PageWrites size store f) :
    env.HandlerWrites operand place mask size fun d => env.writeRam f d := by
  intro d x s a v reaches entries inLogical marked inOperand samePage mapped at'
  obtain ⟨onPage, first⟩ := onPage_of_logical positive samePage
  have inA := operand_zero positive inOperand
  have here : env.writeMapping (granule x) = some (.ram d) := by
    have zero := mapped 0 positive
    rwa [show x + BitVec.ofNat 32 0 = x from BitVec.add_zero x] at zero
  obtain ⟨pageX, pageOwn⟩ := env.pagesMem x d here
  rw [at'] at pageX pageOwn
  obtain ⟨marks, places, -⟩ := reaches.page inA inLogical first
  have filled : env.WriteEntries operand place mask (env.fillWrite (place a) s).lookups
      (env.fillWrite (place a) s).ram :=
    entries.addwritelookup reaches inLogical marked places.symm pageOwn
  have written := page (place a) v (vpn x) (env.fillWrite (place a) s) fun i below => by
    obtain ⟨next, -⟩ := reaches.consecutive inOperand onPage below
    have own := (reaches.page inA (inOperand i below) (onPage i below).symm).2.1
    rw [← next, inPage_self (pageX.trans own.symm), inPage_self pageX, next]
  rw [inPage_self pageX] at written
  have same : env.writeRam f d x v s = f (place a) v (vpn x) (env.fillWrite (place a) s) := by
    rw [← at']
    rfl
  have ok : env.WriteOk operand place mask (bytesOf size a v) (env.fillWrite (place a) s)
      ((env.fillWrite (place a) s).setRam (store s.ram (place a) v)) :=
    writeOk_setRam (s := env.fillWrite (place a) s) stores reaches filled inOperand onPage
      (marks ▸ marked)
  dsimp only
  rw [same, written]
  exact ⟨⟨ok.stored, ok.entries⟩, rfl⟩

theorem writePair_handler {n : Nat} (size : Nat)
    {f : BitVec 32 → BitVec 32 → BitVec n → Bus w → Bus w}
    (positive : 0 < size) (whole : n = 8 * size)
    (half : env.HandlerWrites operand place mask size f) :
    env.HandlerWrites operand place mask (size + size)
      fun d => writePair (f d) (BitVec.ofNat 32 size) := by
  intro d x s a v reaches entries inLogical marked inOperand samePage mapped at'
  obtain ⟨onPage, -⟩ := onPage_of_logical (by omega) samePage
  have next (y : BitVec 32) (i : Nat) : y + BitVec.ofNat 32 size + BitVec.ofNat 32 i =
      y + BitVec.ofNat 32 (size + i) := by rw [BitVec.add_assoc, BitVec.ofNat_add]
  have inFirst (i : Nat) (below : i < size) := inOperand i (by omega)
  obtain ⟨first, logical⟩ := half d x s a (v.setWidth n) reaches entries inLogical marked inFirst
    (fun i below => samePage i (by omega)) (fun i below => mapped i (by omega)) at'
  have moved : x + BitVec.ofNat 32 size + d = place (a + BitVec.ofNat 32 size) := by
    rw [(reaches.consecutive inOperand onPage (by omega)).1, ← at', BitVec.add_assoc,
      BitVec.add_comm _ d, BitVec.add_assoc]
  have settled : WordRam.mark (mask s.memLogicalAddr) (f d x (v.setWidth n) s).ram =
      (f d x (v.setWidth n) s).ram := by
    rw [first.ram]
    exact reaches.settled (operand_bytesOf inFirst) inLogical marked
  obtain ⟨second, logical'⟩ := half d (x + BitVec.ofNat 32 size) (f d x (v.setWidth n) s)
    (a + BitVec.ofNat 32 size) ((v >>> n).setWidth n)
    (first.reaches reaches (operand_bytesOf inFirst)) first.entries (logical ▸ inLogical)
    (logical ▸ settled) (fun i below => next a i ▸ inOperand (size + i) (by omega))
    (fun i below => by rw [next, logical]; exact samePage (size + i) (by omega))
    (fun i below => by rw [next]; exact mapped (size + i) (by omega)) moved
  refine ⟨?_, logical'.trans logical⟩
  rw [bytesOf_double whole]
  exact first.trans second

theorem writeMapped_writes {n size : Nat} {store : WordRam → BitVec 32 → BitVec n → WordRam}
    {toPage : BitVec 32 → BitVec n → BitVec 20 → Bus w → Bus w}
    {f : BitVec 32 → BitVec 32 → BitVec n → Bus w → Bus w}
    {write : Option (BusHandlers w) → BitVec 32 → BitVec n → Bus w → Bus w} (positive : 0 < size)
    (stores : StoresBytes operand place mask size store) (page : env.PageWrites size store toPage)
    (handler : env.HandlerWrites operand place mask size f)
    (onRam : ∀ d, write (some (env.ramHandlers d)) = f d) :
    env.WritesMapped operand place mask size (env.writeMapped toPage write) := by
  intro s a v logical reaches entries inOperand onPage
  have inA : operand a := operand_zero positive inOperand
  unfold writeMapped
  split
  · rename_i p present
    obtain ⟨own, marked⟩ := entries.page a inA p present
    rw [page a v p s fun i below => ?_, own]
    · exact writeOk_setRam stores reaches entries inOperand onPage marked
    · rw [own, ← (reaches.consecutive inOperand onPage below).1]
      exact (entries.page _ (inOperand i below) p ((onPage i below).symm ▸ present)).1
  · obtain ⟨phys, perm, translated, found, inRam⟩ := reaches.translate inA
    obtain ⟨d, mapped, at', -⟩ := ramAt_eq inRam
    have region (i : Nat) (below : i < size) :
        env.writeMapping (granule ((phys &&& env.rammask) + BitVec.ofNat 32 i)) =
          some (.ram d) := by
      obtain ⟨phys', found', -, -⟩ := reaches.reach _ (inOperand i below)
      have bus := reach_bus env (onPage i below).symm found found'
      rw [BitVec.add_comm a, BitVec.add_sub_cancel] at bus
      rw [granule_of_vpn bus]
      exact mapped
    have region' : env.writes (phys &&& env.rammask) = some (env.ramHandlers d) := by
      have here : env.writeMapping (granule (phys &&& env.rammask)) = some (.ram d) := mapped
      rw [writes, here]
      rfl
    rw [translated]
    dsimp only
    rw [region', onRam]
    have bytes := operand_bytesOf (v := v) inOperand
    obtain ⟨write, -⟩ := handler d (phys &&& env.rammask)
      (s.withRam (WordRam.mark (mask a) s.ram) perm) a v (reaches.marked inA perm)
      (entries.marked a) (show operand s.memLogicalAddr from logical ▸ inA)
      (show WordRam.mark (mask s.memLogicalAddr) (WordRam.mark (mask a) s.ram) = _ by
        rw [logical, WordRam.mark_self]
        rfl)
      inOperand
      (show ∀ i < size, vpn (a + BitVec.ofNat 32 i) = vpn s.memLogicalAddr by
        rw [logical]
        exact onPage)
      region at'.symm
    refine write.after_marks rfl ?_
    have absorbed := reaches.absorb (r := s.ram) bytes (getElem_bytesOf a v (i := 0) positive)
    rwa [show a + BitVec.ofNat 32 0 = a from BitVec.add_zero a] at absorbed

theorem writemembl_bytes (env : BusEnv w) :
    env.WritesBytes operand place mask 1 env.writemembl := by
  intro s a v reaches entries inOperand
  have mapped {write : Option (BusHandlers w) → BitVec 32 → BitVec 8 → Bus w → Bus w}
      (onRam : ∀ d, write (some (env.ramHandlers d)) = env.writeRam env.memWriteRambPage d) :
      env.WritesMapped operand place mask 1 (env.writeMapped env.memWriteRambPage write) :=
    writeMapped_writes (by decide) stores_one (writePage_writes fun _ _ => WordRam.store8_load8)
      (writeRam_writes (by decide) stores_one (writePage_writes fun _ _ => WordRam.store8_load8))
      onRam
  have onPage : OnPage a 1 := by
    intro i below
    obtain rfl : i = 0 := by omega
    rw [show a + BitVec.ofNat 32 0 = a from BitVec.add_zero a]
  have begun := begun_logical s a
  unfold writemembl
  exact begun.writeOk (mapped (by exact fun _ => rfl) _ a v rfl (begun.mmu ▸ reaches)
    (begun.writeEntries entries) inOperand onPage)

section

variable (env : BusEnv w)
  (apart : ∀ a b, operand a → operand b → mask b (WordRam.word (place a)) = 0)

include apart

theorem stores16 : StoresBytes operand place mask 2 WordRam.store16 :=
  stores_double stores_one rfl (by decide) apart

theorem stores32 : StoresBytes operand place mask 4 WordRam.store32 :=
  stores_double (stores16 apart) rfl (by decide) apart

theorem stores64 : StoresBytes operand place mask 8 WordRam.store64 :=
  stores_double (stores32 apart) rfl (by decide) apart

theorem writememwl_bytes : env.WritesBytes operand place mask 2 env.writememwl :=
  writeWide_bytes 1 rfl (by decide) (writemembl_bytes env) (stores16 apart)
    (writeMapped_writes (by decide) (stores16 apart)
      (writePage_writes fun _ _ => WordRam.store16_load16)
      (writeRam_writes (by decide) (stores16 apart)
        (writePage_writes fun _ _ => WordRam.store16_load16)) fun _ => rfl)

theorem writememll_bytes : env.WritesBytes operand place mask 4 env.writememll :=
  writeWide_bytes 2 rfl (by decide) (writememwl_bytes env apart) (stores32 apart)
    (writeMapped_writes (by decide) (stores32 apart)
      (writePage_writes fun _ _ => WordRam.store32_load32)
      (writeRam_writes (by decide) (stores32 apart)
        (writePage_writes fun _ _ => WordRam.store32_load32)) fun _ => rfl)

theorem writememql_bytes : env.WritesBytes operand place mask 8 env.writememql :=
  writeWide_bytes 4 rfl (by decide) (writememll_bytes env apart) (stores64 apart)
    (writeMapped_writes (by decide) (stores64 apart)
      (writePair_writes 4 (by decide) (writePage_writes fun _ _ => WordRam.store32_load32))
      (writePair_handler 4 (by decide) rfl (writeRam_writes (by decide) (stores32 apart)
        (writePage_writes fun _ _ => WordRam.store32_load32))) fun _ => rfl)

end

end BusEnv

end PCemWeb.Memory
