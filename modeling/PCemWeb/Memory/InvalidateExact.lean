import PCemWeb.Memory.Invalidate

/-!
# Which device writes invalidate the code they hit

A call is safe when it stays inside the page table and leaves both dirty bits of every byte of its
range set, so that every block compiled from one of them is found stale. `mem_invalidate_range`
rounds the end of its range up to a granule that the range need not touch, and it sets no byte dirty
bit: `CallServed` says what the range and the marks must already be like.
-/

namespace PCemWeb.Memory

namespace PageTable

variable (t : PageTable)

/-- The 64-byte dirty bit of an address. -/
def dirty (a : Nat) : Bool := (t.pages (a / 4096)).dirtyMask.getLsbD (a / 64 % 64)

/-- The byte dirty bit of an address. -/
def byteDirty (a : Nat) : Bool :=
  ((t.pages (a / 4096)).byteDirtyMask (a / 64 % 64)).getLsbD (a % 64)

end PageTable

/-! ## Blocks -/

/-- The marks of a compiled block in its first page: a mask of 64-byte granules, or of the bytes of
one granule. -/
structure BlockMarks : Type where
  page : Nat
  byteWord : Option Nat
  mask : BitVec 64

/-- The block was compiled from the byte at `a`. -/
def BlockMarks.Covers (b : BlockMarks) (a : Nat) : Prop :=
  a / 4096 = b.page ∧
    match b.byteWord with
    | none => b.mask.getLsbD (a / 64 % 64) = true
    | some word => a / 64 % 64 = word ∧ b.mask.getLsbD (a % 64) = true

/-- `*block->dirty_mask & block->page_mask`, which keeps the block from being entered. -/
def BlockMarks.Stale (b : BlockMarks) (t : PageTable) : Prop :=
  match b.byteWord with
  | none => (t.pages b.page).dirtyMask &&& b.mask ≠ 0
  | some word => (t.pages b.page).byteDirtyMask word &&& b.mask ≠ 0

/-! ## Calls -/

/-- What devices call, with any address and any ordered range. -/
inductive DmaCall : Type
  | write (addr : BitVec 32) (val : BitVec 8)
  | invalidate (start stop : BitVec 32) (ordered : start ≤ stop)

namespace DmaCall

def run (t : PageTable) : DmaCall → Option PageTable
  | write addr val => t.dmaWrite addr val
  | invalidate start stop _ => t.memInvalidateRange start stop

/-- The bytes that a call is about. -/
def Touches (a : Nat) : DmaCall → Prop
  | write addr _ => a = addr.toNat
  | invalidate start stop _ => start.toNat ≤ a ∧ a ≤ stop.toNat

end DmaCall

/-- The call accesses allocated pages only and sets both dirty bits of all bytes it is about. -/
def CallDirties (t : PageTable) (c : DmaCall) : Prop :=
  ∃ t', c.run t = some t' ∧ ∀ a, c.Touches a → t'.dirty a = true ∧ t'.byteDirty a = true

/-- Such a call, after which no block compiled from these bytes is entered. -/
def CallSafe (t : PageTable) (c : DmaCall) : Prop :=
  ∃ t', c.run t = some t' ∧ ∀ a, c.Touches a →
    t'.dirty a = true ∧ t'.byteDirty a = true ∧ ∀ b : BlockMarks, b.Covers a → b.Stale t'

/-- A write that `mem_write_ramb_page` carries out. -/
def WritesRam (t : PageTable) (addr : Nat) (val : BitVec 8) : Prop :=
  t.ramMapped addr = true ∧ (val ≠ t.ram addr ∨ t.inRecompile = true)

/-- The rounded end of the range is in an allocated page, and the byte dirty bits are set already or
by the write itself. The last 63 addresses round up to 0, so that no granule is marked there. -/
def CallServed (t : PageTable) : DmaCall → Prop
  | .write addr val =>
      (t.ramMapped addr.toNat = true → addr.toNat / 4096 < t.count) ∧
        PageTable.roundUp addr.toNat / 4096 < t.count ∧
        (t.byteDirty addr.toNat = true ∨ WritesRam t addr.toNat val) ∧
        (addr.toNat ≤ 4294967232 ∨ t.dirty addr.toNat = true)
  | .invalidate start stop _ =>
      PageTable.roundUp stop.toNat / 4096 < t.count ∧
        (∀ a, start.toNat ≤ a → a ≤ stop.toNat → t.byteDirty a = true) ∧
        (stop.toNat ≤ 4294967232 ∨
          ∀ a, start.toNat ≤ a → a ≤ stop.toNat → 64 ≤ a → t.dirty a = true)

/-! ## One granule -/

namespace PageTable

variable {t t' : PageTable} {addr a start stop fuel : Nat}

theorem count_lt (t : PageTable) : t.count < 524288 := by
  have bound := t.fits
  rw [count]
  omega

theorem count_pos (t : PageTable) : 0 < t.count := by
  rw [count]
  omega

theorem pages_setPage_self {page : Nat} {p : PageMarks} : (t.setPage page p).pages page = p := by
  show Function.update t.pages page p page = p
  rw [Function.update_self]

theorem pages_setPage_of_ne {page other : Nat} {p : PageMarks} (apart : other ≠ page) :
    (t.setPage page p).pages other = t.pages other := by
  show Function.update t.pages page p other = t.pages other
  rw [Function.update_of_ne apart]

theorem updatePage_inside {f : PageMarks → PageMarks} (inside : addr / 4096 < t.count) :
    t.updatePage addr f = some (t.setPage (addr / 4096) (f (t.pages (addr / 4096)))) :=
  if_pos inside

theorem updatePage_outside {f : PageMarks → PageMarks} (outside : t.count ≤ addr / 4096) :
    t.updatePage addr f = none :=
  if_neg (Nat.not_lt.mpr outside)

theorem dirty_mark (p : PageMarks) (k j : Nat) (inside : k < 64) :
    (p.markDirty (BitVec.twoPow 64 k)).dirtyMask.getLsbD j =
      (p.dirtyMask.getLsbD j || decide (k = j)) := by
  rw [PageMarks.markDirty, BitVec.getLsbD_or, BitVec.getLsbD_twoPow, decide_eq_true inside,
    Bool.true_and]

theorem byteDirty_mark (p : PageMarks) (offset k j : Nat) (inside : k < 64) :
    ((p.markByteDirty offset (BitVec.twoPow 64 k)).byteDirtyMask offset).getLsbD j =
      ((p.byteDirtyMask offset).getLsbD j || decide (k = j)) := by
  show (Function.update p.byteDirtyMask offset _ offset).getLsbD j = _
  rw [Function.update_self, BitVec.getLsbD_or, BitVec.getLsbD_twoPow, decide_eq_true inside,
    Bool.true_and]

/-- Two addresses with one page and one granule in it are in one granule. -/
theorem same_granule : (a / 4096 = addr / 4096 ∧ addr / 64 % 64 = a / 64 % 64) ↔
    a / 64 = addr / 64 := by
  omega

/-- What one round marks. -/
theorem invalidateGranule_inside (inside : addr / 4096 < t.count) :
    ∃ t', t.invalidateGranule addr = some t' ∧ t'.memSize = t.memSize ∧
      (∀ a, t'.dirty a = (t.dirty a || decide (a / 64 = addr / 64))) ∧
      ∀ a, t'.byteDirty a = t.byteDirty a := by
  refine ⟨_, updatePage_inside inside, rfl, fun a => ?_, fun a => ?_⟩
  · rw [dirty, dirty]
    rcases eq_or_ne (a / 4096) (addr / 4096) with page | other
    · rw [page, pages_setPage_self, dirty_mark _ _ _ (Nat.mod_lt _ (by decide))]
      congr 1
      exact decide_eq_decide.mpr ⟨fun same => same_granule.mp ⟨page, same⟩,
        fun same => (same_granule.mpr same).2⟩
    · have apart : a / 64 ≠ addr / 64 := fun same => other (same_granule.mpr same).1
      rw [pages_setPage_of_ne other, decide_eq_false apart, Bool.or_false]
  · rw [byteDirty, byteDirty]
    rcases eq_or_ne (a / 4096) (addr / 4096) with page | other
    · rw [page, pages_setPage_self, PageMarks.markDirty]
    · rw [pages_setPage_of_ne other]

/-! ## The loop -/

/-- A loop whose last granule is allocated marks all granules up to it and nothing else. -/
theorem invalidateLoop_inside (inside : stop / 4096 < t.count) (aligned : start % 64 = 0)
    (end_aligned : stop % 64 = 0) (enough : (stop + 64 - start) / 64 < fuel) :
    ∃ t', invalidateLoop fuel start stop t = some t' ∧
      (∀ a, t'.dirty a = (t.dirty a || decide (start ≤ a ∧ a < stop + 64))) ∧
      ∀ a, t'.byteDirty a = t.byteDirty a := by
  have small := count_lt t
  induction fuel generalizing t start with
  | zero => omega
  | succ fuel ih =>
    rcases Nat.lt_or_ge stop start with done | more
    · refine ⟨t, by rw [invalidateLoop, if_neg (by omega)], fun a => ?_, fun a => rfl⟩
      rw [decide_eq_false (by omega), Bool.or_false]
    · have page : start / 4096 < t.count := by omega
      obtain ⟨u, round, size, marked, bytes⟩ := invalidateGranule_inside page
      have count : u.count = t.count := by rw [PageTable.count, size, PageTable.count]
      have next : (start + 64) % 4294967296 = start + 64 := by omega
      obtain ⟨t', rest, marks, same⟩ := @ih u (start + 64) (by omega) (by omega)
        (by omega) (by omega)
      refine ⟨t', ?_, fun a => ?_, fun a => ?_⟩
      · rw [invalidateLoop, if_pos more, round, Option.bind_some, next, rest]
      · rw [marks, marked, Bool.or_assoc, ← Bool.decide_or]
        congr 1
        exact decide_eq_decide.mpr (by omega)
      · rw [same, bytes]

/-- A loop whose last granule is not allocated leaves the table. -/
theorem invalidateLoop_outside (outside : t.count ≤ stop / 4096) (below : stop < 4294967296)
    (aligned : start % 64 = 0) (end_aligned : stop % 64 = 0) (more : start ≤ stop) :
    invalidateLoop fuel start stop t = none := by
  induction fuel generalizing t start with
  | zero => rfl
  | succ fuel ih =>
    rw [invalidateLoop, if_pos more]
    rcases Nat.lt_or_ge (start / 4096) t.count with page | past
    · obtain ⟨u, round, size, -⟩ := invalidateGranule_inside page
      have count : u.count = t.count := by rw [PageTable.count, size, PageTable.count]
      have short : start + 64 ≤ stop := by omega
      have next : (start + 64) % 4294967296 = start + 64 := by omega
      rw [round, Option.bind_some, next]
      exact ih (by omega) (by omega) (by omega)
    · rw [invalidateGranule, updatePage_outside past, Option.bind_none]

/-! ## Ranges -/

theorem roundUp_lt (a : Nat) : roundUp a < 4294967296 := by
  rw [roundUp]
  omega

/-- Away from the last 63 addresses the rounded end is not below the end. -/
theorem le_roundUp {a : Nat} (low : a ≤ 4294967232) : a ≤ roundUp a := by
  rw [roundUp]
  omega

theorem roundUp_high {a : Nat} (high : 4294967232 < a) (bound : a < 4294967296) :
    roundUp a = 0 := by
  rw [roundUp]
  omega

theorem memInvalidateRange_inside {start stop : BitVec 32}
    (inside : roundUp stop.toNat / 4096 < t.count) :
    ∃ t', t.memInvalidateRange start stop = some t' ∧
      (∀ a, t'.dirty a =
        (t.dirty a || decide (start.toNat / 64 * 64 ≤ a ∧ a < roundUp stop.toNat + 64))) ∧
      ∀ a, t'.byteDirty a = t.byteDirty a := by
  have below := roundUp_lt stop.toNat
  exact invalidateLoop_inside inside (by omega) (by rw [roundUp]; omega) (by omega)

theorem memInvalidateRange_outside {start stop : BitVec 32} (ordered : start ≤ stop)
    (outside : t.count ≤ roundUp stop.toNat / 4096) : t.memInvalidateRange start stop = none := by
  have order : start.toNat ≤ stop.toNat := ordered
  have bound := stop.isLt
  have some_page := count_pos t
  have low : stop.toNat ≤ 4294967232 := by
    by_contra high
    rw [roundUp_high (by omega) bound] at outside
    omega
  have reach := le_roundUp low
  exact invalidateLoop_outside outside (roundUp_lt _) (by omega) (by rw [roundUp]; omega) (by omega)

/-- A call that stays inside marks the granules of its range, unless its end is one of the last 63
addresses. -/
theorem callDirties_invalidate {start stop : BitVec 32} (ordered : start ≤ stop) :
    CallDirties t (.invalidate start stop ordered) ↔
      CallServed t (.invalidate start stop ordered) := by
  have order : start.toNat ≤ stop.toNat := ordered
  have bound := stop.isLt
  constructor
  · rintro ⟨t', run, clean⟩
    rcases Nat.lt_or_ge (roundUp stop.toNat / 4096) t.count with inside | outside
    · obtain ⟨u, ran, marks, bytes⟩ := @memInvalidateRange_inside t start stop inside
      obtain rfl : u = t' := Option.some.inj (ran.symm.trans run)
      refine ⟨inside, fun a above below => ?_, ?_⟩
      · rw [← bytes]
        exact (clean a ⟨above, below⟩).2
      · rcases Nat.lt_or_ge 4294967232 stop.toNat with high | low
        · right
          intro a above below large
          have set := (clean a ⟨above, below⟩).1
          rw [marks, roundUp_high high bound, decide_eq_false (by omega), Bool.or_false] at set
          exact set
        · exact Or.inl low
    · have fails := memInvalidateRange_outside ordered outside
      rw [DmaCall.run, fails] at run
      cases run
  · rintro ⟨inside, bytesSet, granulesSet⟩
    obtain ⟨u, ran, marks, bytes⟩ := @memInvalidateRange_inside t start stop inside
    refine ⟨u, ran, fun a ⟨above, below⟩ => ⟨?_, by rw [bytes]; exact bytesSet a above below⟩⟩
    rw [marks, Bool.or_eq_true, decide_eq_true_eq]
    rcases granulesSet with low | set
    · have reach := le_roundUp low
      right
      omega
    · rcases Nat.lt_or_ge a 64 with first | large
      · right
        omega
      · exact Or.inl (set a above below large)

/-! ## Writes -/

theorem count_setRam {val : BitVec 8} : (t.setRam addr val).count = t.count := rfl

theorem dirty_memWrite {val : BitVec 8} (inside : addr / 4096 < t.count)
    (writes : WritesRam t addr val) :
    ∃ u, t.memWritebPhys addr val = some u ∧ u.count = t.count ∧ u.dirty addr = true ∧
      u.byteDirty addr = true := by
  have ran : t.memWritebPhys addr val =
      some ((t.setRam addr val).setPage (addr / 4096)
        ((t.pages (addr / 4096)).markWritten addr)) := by
    rw [memWritebPhys, if_pos writes.1, memWriteRambPage, if_pos writes.2]
    exact @updatePage_inside (t.setRam addr val) addr _ (by rw [count_setRam]; exact inside)
  refine ⟨_, ran, rfl, ?_, ?_⟩
  · rw [dirty, pages_setPage_self, PageMarks.markWritten, PageMarks.markByteDirty,
      dirty_mark _ _ _ (Nat.mod_lt _ (by decide)), decide_eq_true rfl, Bool.or_true]
  · rw [byteDirty, pages_setPage_self, PageMarks.markWritten,
      byteDirty_mark _ _ _ _ (Nat.mod_lt _ (by decide)), decide_eq_true rfl, Bool.or_true]

theorem memWritebPhys_unwritten {val : BitVec 8} (inside : t.ramMapped addr = true →
    addr / 4096 < t.count) (quiet : ¬WritesRam t addr val) : t.memWritebPhys addr val = some t := by
  rw [memWritebPhys]
  rcases Bool.eq_false_or_eq_true (t.ramMapped addr) with mapped | other
  · rw [if_pos mapped, memWriteRambPage, if_neg fun changes => quiet ⟨mapped, changes⟩,
      if_pos (inside mapped)]
  · rw [if_neg (by rw [other]; exact Bool.false_ne_true)]

theorem memWritebPhys_outside {val : BitVec 8} (mapped : t.ramMapped addr = true)
    (outside : t.count ≤ addr / 4096) : t.memWritebPhys addr val = none := by
  rw [memWritebPhys, if_pos mapped, memWriteRambPage]
  split
  · exact updatePage_outside (by rw [count_setRam]; exact outside)
  · exact if_neg (Nat.not_lt.mpr outside)

/-- After its own store, a write is the invalidation of one byte. -/
theorem callDirties_write_eq {addr : BitVec 32} {val : BitVec 8} {u : PageTable}
    (stored : t.memWritebPhys addr.toNat val = some u) :
    CallDirties t (.write addr val) ↔ CallDirties u
      (.invalidate addr addr (BitVec.le_refl addr)) := by
  have run : DmaCall.run t (.write addr val) = u.memInvalidateRange addr addr := by
    rw [DmaCall.run, dmaWrite, stored, Option.bind_some]
  have touches (a : Nat) : DmaCall.Touches a (.write addr val) ↔
      DmaCall.Touches a (.invalidate addr addr (BitVec.le_refl addr)) := by
    simp only [DmaCall.Touches]
    omega
  simp only [CallDirties, run, touches]
  rfl

theorem callServed_byte {addr : BitVec 32} :
    CallServed t (.invalidate addr addr (BitVec.le_refl addr)) ↔
      roundUp addr.toNat / 4096 < t.count ∧ t.byteDirty addr.toNat = true ∧
        (addr.toNat ≤ 4294967232 ∨ t.dirty addr.toNat = true) := by
  constructor
  · rintro ⟨inside, bytes, granules⟩
    refine ⟨inside, bytes _ (Nat.le_refl _) (Nat.le_refl _), ?_⟩
    rcases granules with low | set
    · exact Or.inl low
    · rcases Nat.lt_or_ge addr.toNat 64 with first | large
      · left
        omega
      · exact Or.inr (set _ (Nat.le_refl _) (Nat.le_refl _) large)
  · rintro ⟨inside, byte, granule⟩
    have only {a : Nat} (above : addr.toNat ≤ a) (below : a ≤ addr.toNat) : a = addr.toNat := by
      omega
    refine ⟨inside, fun a above below => ?_, granule.imp_right fun set a above below _ => ?_⟩
    · rw [only above below]
      exact byte
    · rw [only above below]
      exact set

theorem callDirties_write {addr : BitVec 32} {val : BitVec 8} :
    CallDirties t (.write addr val) ↔ CallServed t (.write addr val) := by
  have page : 4294967232 < addr.toNat → t.count ≤ addr.toNat / 4096 := fun high => by
    have small := count_lt t
    omega
  by_cases outside : t.ramMapped addr.toNat = true ∧ t.count ≤ addr.toNat / 4096
  · have fails := @memWritebPhys_outside t addr.toNat val outside.1 outside.2
    constructor
    · rintro ⟨t', run, -⟩
      rw [DmaCall.run, dmaWrite, fails] at run
      cases run
    · rintro ⟨inside, -⟩
      exact absurd (inside outside.1) (Nat.not_lt.mpr outside.2)
  have inside : t.ramMapped addr.toNat = true → addr.toNat / 4096 < t.count := fun mapped =>
    Nat.lt_of_not_le fun past => outside ⟨mapped, past⟩
  by_cases writes : WritesRam t addr.toNat val
  · obtain ⟨u, stored, count, dirtied, byteDirtied⟩ := dirty_memWrite (inside writes.1) writes
    rw [callDirties_write_eq stored, callDirties_invalidate, callServed_byte, count]
    constructor
    · rintro ⟨last, -, -⟩
      refine ⟨inside, last, Or.inr writes, Or.inl ?_⟩
      by_contra high
      exact absurd (inside writes.1) (Nat.not_lt.mpr (page (by omega)))
    · rintro ⟨-, last, -, -⟩
      exact ⟨last, byteDirtied, Or.inr dirtied⟩
  · rw [callDirties_write_eq (memWritebPhys_unwritten inside writes), callDirties_invalidate,
      callServed_byte]
    constructor
    · rintro ⟨last, byte, granule⟩
      exact ⟨inside, last, Or.inl byte, granule⟩
    · rintro ⟨-, last, byte, granule⟩
      exact ⟨last, byte.resolve_right writes, granule⟩

end PageTable

/-- A block that covers a byte with both dirty bits set is stale. -/
theorem BlockMarks.stale_of_dirty {b : BlockMarks} {t : PageTable} {a : Nat} (covers : b.Covers a)
    (granule : t.dirty a = true) (byte : t.byteDirty a = true) : b.Stale t := by
  obtain ⟨page, bits⟩ := covers
  obtain ⟨bpage, word, mask⟩ := b
  rw [PageTable.dirty, page] at granule
  rw [PageTable.byteDirty, page] at byte
  have meets {x y : BitVec 64} {k : Nat} (left : x.getLsbD k = true) (right : y.getLsbD k = true) :
      x &&& y ≠ 0 := by
    intro zero
    have bit := congrArg (BitVec.getLsbD · k) zero
    simp [left, right] at bit
  cases word with
  | none => exact meets granule bits
  | some word =>
    obtain ⟨same, bit⟩ := bits
    rw [same] at byte
    exact meets byte bit

theorem callSafe_iff_dirties {t : PageTable} {c : DmaCall} : CallSafe t c ↔ CallDirties t c := by
  constructor
  · rintro ⟨t', run, clean⟩
    exact ⟨t', run, fun a touched => ⟨(clean a touched).1, (clean a touched).2.1⟩⟩
  · rintro ⟨t', run, clean⟩
    refine ⟨t', run, fun a touched => ?_⟩
    obtain ⟨granule, byte⟩ := clean a touched
    exact ⟨granule, byte, fun b covers => b.stale_of_dirty covers granule byte⟩

theorem callDirties_iff {t : PageTable} {c : DmaCall} : CallDirties t c ↔ CallServed t c := by
  cases c with
  | write addr val => exact PageTable.callDirties_write
  | invalidate start stop ordered => exact PageTable.callDirties_invalidate ordered

/-- Every device write and every invalidated range is safe exactly where `CallServed` says so, for
every memory size and every state of the marks. -/
theorem callSafe_iff (t : PageTable) (c : DmaCall) : CallSafe t c ↔ CallServed t c :=
  callSafe_iff_dirties.trans callDirties_iff

/-- With 640 KB, a channel's write to the last granule below 1 MB rounds up past the table, and a
range in RAM keeps the blocks that are marked by bytes. -/
theorem not_callSafe_fresh :
    ¬CallSafe (PageTable.memAlloc 640 (by decide)) (.write 0xfffc1 0) ∧
      ¬CallSafe (PageTable.memAlloc 640 (by decide))
        (.invalidate 0x1000 0x1fff (by decide)) := by
  constructor
  · intro safe
    obtain ⟨-, inside, -⟩ := callDirties_iff.mp (callSafe_iff_dirties.mp safe)
    revert inside
    decide
  · intro safe
    obtain ⟨-, bytes, -⟩ := callDirties_iff.mp (callSafe_iff_dirties.mp safe)
    have set := bytes 0x1000 (by decide) (by decide)
    revert set
    decide

end PCemWeb.Memory
