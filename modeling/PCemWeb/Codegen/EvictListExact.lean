import PCemWeb.Codegen.EvictList

/-!
# The evict list and page 0

The first page that is added to the empty list has its number written into `evict_prev` of page 0,
which is the end of the list and also a page; page 0 then counts as a member that no link reaches.
What holds regardless: the tests of a mark find every overlap of dirty and code bits that it makes,
so a page with dirty code is flagged, and a flush takes off only such pages.
-/

namespace PCemWeb.Codegen

open PCemWeb.Lib

/-- Code is dirty, at the granularity of the page or of bytes. -/
def EvictPage.Overlap (q : EvictPage) : Prop :=
  q.codePresentMask &&& q.dirtyMask ≠ 0 ∨
    ∃ c < 64, q.byteCodePresentMask c &&& q.byteDirtyMask c ≠ 0

/-! ## Marks -/

namespace Mark

variable {m m' : Mark} {q : EvictPage}

@[simp] theorem change_prev (m : Mark) (q : EvictPage) : (m.change q).evictPrev = q.evictPrev := by
  cases m <;> rfl

@[simp] theorem change_next (m : Mark) (q : EvictPage) : (m.change q).evictNext = q.evictNext := by
  cases m <;> rfl

/-- Whether the mark makes bits dirty; otherwise it makes them code. -/
def isDirty : Mark → Bool
  | dirty .. | dirtyByte .. | dirtyBoth .. => true
  | present .. | presentByte .. => false

/-- The test of a mark is not about the masks that marks of its kind change. -/
theorem hits_change (same : m.isDirty = m'.isDirty) (q : EvictPage) :
    m.hits (m'.change q) = m.hits q := by
  cases m <;> cases m' <;> first | rfl | cases same

theorem and_or_ne_zero {a b mask : BitVec 64} (overlap : a &&& (b ||| mask) ≠ 0) :
    a &&& b ≠ 0 ∨ a &&& mask ≠ 0 := by
  by_contra neither
  simp only [not_or, ne_eq, not_not] at neither
  apply overlap
  rw [BitVec.and_or_distrib_left, neither.1, neither.2]
  rfl

theorem orMask_ne_zero {a : BitVec 64} {masks : Nat → BitVec 64} {offset c : Nat}
    {mask : BitVec 64} (overlap : a &&& orMask masks offset mask c ≠ 0) :
    a &&& masks c ≠ 0 ∨ c = offset ∧ a &&& mask ≠ 0 := by
  unfold orMask at overlap
  by_cases here : c = offset
  · subst here
    rw [Function.update_self] at overlap
    exact (and_or_ne_zero overlap).imp_right fun hit => ⟨rfl, hit⟩
  · rw [Function.update_of_ne here] at overlap
    exact .inl overlap

/-- Only a hit makes code dirty. -/
theorem overlap_change (overlap : (m.change q).Overlap) : q.Overlap ∨ m.hits q = true := by
  unfold EvictPage.Overlap at *
  cases m with
  | dirty p mask =>
    rcases overlap with page | bytes
    · rcases and_or_ne_zero page with before | hit
      · exact .inl (.inl before)
      · exact .inr (decide_eq_true hit)
    · exact .inl (.inr bytes)
  | dirtyByte p offset mask =>
    rcases overlap with page | ⟨c, inRange, bytes⟩
    · exact .inl (.inl page)
    · rcases orMask_ne_zero bytes with before | ⟨rfl, hit⟩
      · exact .inl (.inr ⟨c, inRange, before⟩)
      · exact .inr (decide_eq_true hit)
  | dirtyBoth p mask offset byteMask =>
    rcases overlap with page | ⟨c, inRange, bytes⟩
    · rcases and_or_ne_zero page with before | hit
      · exact .inl (.inl before)
      · exact .inr (decide_eq_true (.inl hit))
    · rcases orMask_ne_zero bytes with before | ⟨rfl, hit⟩
      · exact .inl (.inr ⟨c, inRange, before⟩)
      · exact .inr (decide_eq_true (.inr hit))
  | present p mask =>
    rcases overlap with page | bytes
    · rw [BitVec.and_comm] at page
      rcases and_or_ne_zero page with before | hit
      · rw [BitVec.and_comm] at before
        exact .inl (.inl before)
      · exact .inr (decide_eq_true hit)
    · exact .inl (.inr bytes)
  | presentByte p offset mask =>
    rcases overlap with page | ⟨c, inRange, bytes⟩
    · exact .inl (.inl page)
    · rw [BitVec.and_comm] at bytes
      rcases orMask_ne_zero bytes with before | ⟨rfl, hit⟩
      · rw [BitVec.and_comm] at before
        exact .inl (.inr ⟨c, inRange, before⟩)
      · exact .inr (decide_eq_true hit)

end Mark

/-! ## Flushed and stored pages -/

theorem not_overlap_flushMasks (q : EvictPage) : ¬ (EvictList.flushMasks q).Overlap := by
  rintro (page | ⟨c, inRange, bytes⟩)
  · exact page (BitVec.and_zero)
  · simp [EvictList.flushMasks, inRange] at bytes

theorem overlap_store {addr len : Nat} {val : BitVec 32} {q : EvictPage} :
    (EvictList.store addr len val q).Overlap ↔ q.Overlap := Iff.rfl

theorem overlap_of_removes {q : EvictPage} (removed : EvictList.removes q = true) : q.Overlap :=
  .inl (of_decide_eq_true removed).1

namespace EvictList

variable {s t : EvictList} {m : Mark} {ms : List Mark} {p q : Nat} {op : Op}

/-! ## One mark -/

@[simp] theorem modify_page_self (s : EvictList) (p : Nat) (f : EvictPage → EvictPage) :
    (s.modify p f).page p = f (s.page p) := Function.update_self _ _ _

theorem modify_page_of_ne (f : EvictPage → EvictPage) (other : q ≠ p) :
    (s.modify p f).page q = s.page q := Function.update_of_ne other _ _

/-- A page as a test or a link sees it, after an update that keeps what is read. -/
theorem modify_keeps {α : Type} {f : EvictPage → EvictPage} (read : EvictPage → α)
    (same : read (f (s.page p)) = read (s.page p)) (q : Nat) :
    read ((s.modify p f).page q) = read (s.page q) := by
  by_cases here : q = p
  · subst here
    rw [modify_page_self, same]
  · rw [modify_page_of_ne f here]

theorem pageInEvictList_modify {f : EvictPage → EvictPage}
    (same : (f (s.page p)).evictPrev = (s.page p).evictPrev) (q : Nat) :
    (s.modify p f).pageInEvictList q = s.pageInEvictList q := by
  unfold pageInEvictList
  rw [modify_keeps EvictPage.evictPrev same]

/-- What a mark does: it changes the masks, and on a hit adds a page that is not in the list. -/
theorem mark_eq (s : EvictList) (m : Mark) : s.mark m =
    if m.hits (s.page m.page) ∧ ¬ s.pageInEvictList m.page then
      (s.modify m.page m.change).pageAddToEvictList m.page
    else s.modify m.page m.change := by
  unfold mark
  dsimp only
  rw [modify_page_self, Mark.hits_change rfl, pageInEvictList_modify (Mark.change_prev m _)]

/-- Adding a page writes to the masks and contents of none. -/
theorem pageAddToEvictList_keeps {α : Type} (read : EvictPage → α)
    (prev : ∀ q v, read { q with evictPrev := v } = read q)
    (next : ∀ q v, read { q with evictNext := v } = read q) (s : EvictList) (p q : Nat) :
    read ((s.pageAddToEvictList p).page q) = read (s.page q) := by
  unfold pageAddToEvictList setPrev setNext
  dsimp only
  rw [modify_keeps read (prev _ _), modify_keeps read (next _ _), modify_keeps read (prev _ _)]

theorem overlap_pageAddToEvictList (s : EvictList) (p q : Nat) :
    ((s.pageAddToEvictList p).page q).Overlap ↔ (s.page q).Overlap :=
  Iff.of_eq (pageAddToEvictList_keeps EvictPage.Overlap (fun _ _ => rfl) (fun _ _ => rfl) s p q)

/-- The links that an addition writes. -/
theorem pageAddToEvictList_prev (s : EvictList) (p q : Nat) :
    ((s.pageAddToEvictList p).page q).evictPrev =
      if q = p then 0 else if q = s.head then p else (s.page q).evictPrev := by
  unfold pageAddToEvictList setPrev setNext modify
  by_cases self : q = p
  · simp [self]
  · by_cases head : q = s.head
    · rw [head] at self ⊢
      simp [self]
    · simp [self, head]

theorem pageAddToEvictList_next (s : EvictList) (p q : Nat) :
    ((s.pageAddToEvictList p).page q).evictNext =
      if q = p then s.head else (s.page q).evictNext := by
  unfold pageAddToEvictList setPrev setNext modify
  by_cases self : q = p
  · by_cases head : p = s.head <;> simp [self, head]
  · by_cases head : q = s.head
    · rw [head] at self ⊢
      simp [self]
    · simp [self, head]

theorem pageAddToEvictList_head (s : EvictList) (p : Nat) :
    (s.pageAddToEvictList p).head = if s.head = p then 0 else p := by
  have prev := pageAddToEvictList_prev s p s.head
  rw [if_pos rfl] at prev
  exact prev

/-- An added page is in the list, as far as the flag tells, and so is the old head. -/
theorem pageInEvictList_add (real : p ≠ evictNotInList) (q : Nat) :
    (s.pageAddToEvictList p).pageInEvictList q = true ↔
      q = p ∨ q = s.head ∨ s.pageInEvictList q = true := by
  have zero : (0 : Nat) ≠ evictNotInList := by decide
  simp only [pageInEvictList, pageAddToEvictList_prev, decide_eq_true_eq]
  by_cases self : q = p
  · simp [self, zero]
  · by_cases head : q = s.head
    · simp [self, ← head, real]
    · simp [self, head]

/-- A mark takes no page out of the list. -/
theorem mark_flagged (real : m.page ≠ evictNotInList) (before : s.pageInEvictList q = true) :
    (s.mark m).pageInEvictList q = true := by
  have same := pageInEvictList_modify (f := fun q => m.change q)
    (Mark.change_prev m (s.page m.page)) q
  rw [mark_eq]
  split
  · exact (pageInEvictList_add real q).mpr (.inr (.inr (same.trans before)))
  · exact same.trans before

theorem marks_flagged (real : ∀ m ∈ ms, m.page ≠ evictNotInList)
    (before : s.pageInEvictList q = true) : (ms.foldl mark s).pageInEvictList q = true := by
  induction ms generalizing s with
  | nil => exact before
  | cons m ms ih =>
    exact ih (fun b inRest => real b (.tail _ inRest)) (mark_flagged (real m (.head _)) before)

/-! ## Dirty code is flagged -/

/-- Every page with dirty code is flagged as in the list. -/
def Flagged (s : EvictList) : Prop :=
  ∀ p, (s.page p).Overlap → s.pageInEvictList p = true

/-- New dirty code is on the page that is hit. -/
theorem overlap_mark (overlap : ((s.mark m).page q).Overlap) :
    (s.page q).Overlap ∨ q = m.page ∧ m.hits (s.page q) = true := by
  have changed : ((s.modify m.page m.change).page q).Overlap := by
    rw [mark_eq] at overlap
    split at overlap
    · exact (overlap_pageAddToEvictList _ _ _).mp overlap
    · exact overlap
  by_cases here : q = m.page
  · subst here
    rw [modify_page_self] at changed
    exact (Mark.overlap_change changed).imp_right fun hit => ⟨rfl, hit⟩
  · rw [modify_page_of_ne _ here] at changed
    exact .inl changed

theorem Flagged.mark (flagged : s.Flagged) (real : m.page ≠ evictNotInList) :
    (s.mark m).Flagged := by
  intro q overlap
  rcases overlap_mark overlap with before | ⟨rfl, hit⟩
  · exact mark_flagged real (flagged q before)
  · rw [mark_eq]
    split
    · exact (pageInEvictList_add real _).mpr (.inl rfl)
    · rename_i stays
      rw [pageInEvictList_modify (Mark.change_prev m _)]
      simpa [hit] using stays

theorem Flagged.marks (flagged : s.Flagged) (real : ∀ m ∈ ms, m.page ≠ evictNotInList) :
    (ms.foldl EvictList.mark s).Flagged := by
  induction ms generalizing s with
  | nil => exact flagged
  | cons m ms ih =>
    exact ih (flagged.mark (real m (.head _))) fun b inRest => real b (.tail _ inRest)

/-! ## One call -/

/-- The marks of a write, if it is one. -/
def writeMarks (s : EvictList) (p addr len : Nat) (val : BitVec 32) (marks : List Mark) :
    List Mark :=
  if val ≠ load (s.page p) addr len ∨ s.inRecompile then marks else []

/-- The marks that a call makes. -/
def marksOf (s : EvictList) : Op → List Mark
  | .writeb p addr val => s.writeMarks p addr 1 (val.setWidth 32) (rambMarks p addr)
  | .writew p addr val => s.writeMarks p addr 2 (val.setWidth 32) (ramwMarks p addr)
  | .writel p addr val => s.writeMarks p addr 4 val (ramlMarks p addr)
  | .invalidateRange startAddr endAddr => rangeMarks startAddr endAddr
  | .endMask byteMask phys pageMask second =>
    blockMark byteMask phys pageMask ::
      second.toList.map fun (phys2, pageMask2) => blockMark byteMask phys2 pageMask2
  | .checkFlush _ | .recompiling _ => []

/-- Pages exist, and writes stay within theirs. -/
def Allowed : Op → Prop
  | .writeb p addr _ => p < 0x100000 ∧ addr % 4096 + 1 ≤ 4096
  | .writew p addr _ => p < 0x100000 ∧ addr % 4096 + 2 ≤ 4096
  | .writel p addr _ => p < 0x100000 ∧ addr % 4096 + 4 ≤ 4096
  | .invalidateRange _ endAddr => endAddr < 0xffffffc0
  | .endMask _ phys _ second =>
    phys < 0x100000000 ∧ ∀ phys2 ∈ second.map Prod.fst, phys2 < 0x100000000
  | .checkFlush p => p < 0x100000
  | .recompiling _ => True

theorem mem_writeMarks {addr len : Nat} {val : BitVec 32} {marks : List Mark}
    (member : m ∈ s.writeMarks p addr len val marks) : m ∈ marks := by
  unfold writeMarks at member
  split at member
  · exact member
  · cases member

theorem rambMarks_kind {addr : Nat} : ∀ m ∈ rambMarks p addr, m.isDirty = true ∧ m.page = p := by
  simp [rambMarks, Mark.isDirty, Mark.page]

theorem ramwMarks_kind {addr : Nat} : ∀ m ∈ ramwMarks p addr, m.isDirty = true ∧ m.page = p := by
  unfold ramwMarks
  dsimp only
  split <;> simp [Mark.isDirty, Mark.page]

theorem ramlMarks_kind {addr : Nat} : ∀ m ∈ ramlMarks p addr, m.isDirty = true ∧ m.page = p := by
  unfold ramlMarks
  dsimp only
  split <;> simp [Mark.isDirty, Mark.page]

/-- The marks of a call are all of one kind, and on pages. -/
theorem marksOf_kind (s : EvictList) (allowed : Allowed op) :
    ∃ dirty, ∀ m ∈ s.marksOf op, m.isDirty = dirty ∧ m.page ≠ evictNotInList := by
  have far {n : Nat} (bound : n ≤ 0x100000) : n ≠ evictNotInList := by
    rintro rfl
    exact absurd bound (by decide)
  cases op with
  | writeb p addr val =>
    refine ⟨true, fun m member => ?_⟩
    obtain ⟨dirty, rfl⟩ := rambMarks_kind m (mem_writeMarks member)
    exact ⟨dirty, far (Nat.le_of_lt allowed.1)⟩
  | writew p addr val =>
    refine ⟨true, fun m member => ?_⟩
    obtain ⟨dirty, rfl⟩ := ramwMarks_kind m (mem_writeMarks member)
    exact ⟨dirty, far (Nat.le_of_lt allowed.1)⟩
  | writel p addr val =>
    refine ⟨true, fun m member => ?_⟩
    obtain ⟨dirty, rfl⟩ := ramlMarks_kind m (mem_writeMarks member)
    exact ⟨dirty, far (Nat.le_of_lt allowed.1)⟩
  | invalidateRange startAddr endAddr =>
    refine ⟨true, fun m member => ?_⟩
    obtain ⟨c, inRange, rfl⟩ := List.mem_map.mp member
    obtain ⟨i, below, rfl⟩ := List.mem_range'.mp inRange
    have bound : endAddr < 0xffffffc0 := allowed
    exact ⟨rfl, far (show (startAddr / 64 + 1 * i) / 64 ≤ 0x100000 by omega)⟩
  | endMask byteMask phys pageMask second =>
    have block (phys' : Nat) (mask : BitVec 64) (bound : phys' < 0x100000000) :
        (blockMark byteMask phys' mask).isDirty = false ∧
          (blockMark byteMask phys' mask).page ≠ evictNotInList := by
      have small : phys' / 4096 ≤ 0x100000 := by omega
      unfold blockMark
      split <;> exact ⟨rfl, far small⟩
    refine ⟨false, fun m member => ?_⟩
    rcases List.mem_cons.mp member with rfl | inSecond
    · exact block phys pageMask allowed.1
    · obtain ⟨⟨phys2, mask2⟩, given, rfl⟩ := List.mem_map.mp inSecond
      refine block phys2 mask2 (allowed.2 phys2 ?_)
      rw [Option.mem_toList] at given
      exact Option.map_eq_some_iff.mpr ⟨_, given, rfl⟩
  | checkFlush p => exact ⟨true, fun _ member => absurd member (List.not_mem_nil)⟩
  | recompiling inRecompile => exact ⟨true, fun _ member => absurd member (List.not_mem_nil)⟩

/-- All but the contents of the pages and `codegen_in_recompile`. -/
structure Same (s t : EvictList) : Prop where
  head : t.head = s.head
  count : t.count = s.count
  page : ∀ q, { t.page q with mem := (s.page q).mem } = s.page q

theorem Same.refl : Same s s := ⟨rfl, rfl, fun _ => rfl⟩

theorem Same.keeps {α : Type} (same : Same s t) (read : EvictPage → α)
    (mem : ∀ q f, read { q with mem := f } = read q) (q : Nat) :
    read (t.page q) = read (s.page q) :=
  (mem (t.page q) _).symm.trans (congrArg read (same.page q))

theorem Same.pageInEvictList (same : Same s t) (q : Nat) :
    t.pageInEvictList q = s.pageInEvictList q := by
  unfold EvictList.pageInEvictList
  rw [same.keeps EvictPage.evictPrev (fun _ _ => rfl)]

theorem Same.overlap (same : Same s t) (q : Nat) : (t.page q).Overlap ↔ (s.page q).Overlap :=
  Iff.of_eq (same.keeps EvictPage.Overlap (fun _ _ => rfl) q)

theorem Same.hits (same : Same s t) (m : Mark) (q : Nat) :
    m.hits (t.page q) = m.hits (s.page q) := by
  refine same.keeps (fun q => m.hits q) (fun q f => ?_) q
  cases m <;> rfl

theorem same_store (s : EvictList) (p addr len : Nat) (val : BitVec 32) :
    Same s (s.modify p (store addr len val)) := by
  refine ⟨rfl, rfl, fun q => ?_⟩
  by_cases here : q = p
  · subst here
    rw [modify_page_self]
    rfl
  · rw [modify_page_of_ne _ here]

theorem write_marks (s : EvictList) (p addr len : Nat) (val : BitVec 32) (marks : List Mark) :
    ∃ s', Same s s' ∧
      s.write p addr len val marks = (s.writeMarks p addr len val marks).foldl mark s' := by
  unfold write writeMarks
  split
  · exact ⟨_, same_store s p addr len val, rfl⟩
  · exact ⟨s, .refl, rfl⟩

/-- A call other than a flush makes its marks, one after the other. -/
theorem step_marks (notFlush : ∀ p, op ≠ .checkFlush p) (done : s.step op = some t) :
    ∃ s', Same s s' ∧ t = (s.marksOf op).foldl mark s' := by
  cases op with
  | writeb p addr val =>
    cases done
    exact write_marks s p addr 1 _ _
  | writew p addr val =>
    cases done
    exact write_marks s p addr 2 _ _
  | writel p addr val =>
    cases done
    exact write_marks s p addr 4 _ _
  | invalidateRange startAddr endAddr =>
    cases done
    exact ⟨s, .refl, rfl⟩
  | endMask byteMask phys pageMask second =>
    cases done
    exact ⟨s, .refl, rfl⟩
  | checkFlush p => exact absurd rfl (notFlush p)
  | recompiling inRecompile =>
    cases done
    exact ⟨{ s with inRecompile }, ⟨rfl, rfl, fun _ => rfl⟩, rfl⟩

/-! ## No run reaches the fatal error -/

theorem Flagged.same (flagged : s.Flagged) (same : Same s t) : t.Flagged := by
  intro q overlap
  rw [same.pageInEvictList]
  exact flagged q ((same.overlap q).mp overlap)

/-- The state after the links around a page are joined. -/
theorem remove_eq (done : s.pageRemoveFromEvictList p = some t) :
    s.pageInEvictList p = true ∧ ∃ u v : EvictList,
      ((s.page p).evictPrev ≠ 0 ∧ u = s.setNext (s.page p).evictPrev (s.page p).evictNext ∨
        (s.page p).evictPrev = 0 ∧ u = { s with head := (s.page p).evictNext }) ∧
      ((u.page p).evictNext ≠ 0 ∧ v = u.setPrev (u.page p).evictNext (u.page p).evictPrev ∨
        (u.page p).evictNext = 0 ∧ v = u) ∧
      t = { v.setPrev p evictNotInList with count := v.count - 1 } := by
  unfold pageRemoveFromEvictList at done
  split at done
  · rename_i listed
    dsimp only at done
    split at done <;> rename_i first <;> split at done <;> rename_i last <;> cases done
    · exact ⟨listed, _, _, .inl ⟨first, rfl⟩, .inl ⟨last, rfl⟩, rfl⟩
    · exact ⟨listed, _, _, .inl ⟨first, rfl⟩, .inr ⟨not_not.mp last, rfl⟩, rfl⟩
    · exact ⟨listed, _, _, .inr ⟨not_not.mp first, rfl⟩, .inl ⟨last, rfl⟩, rfl⟩
    · exact ⟨listed, _, _, .inr ⟨not_not.mp first, rfl⟩, .inr ⟨not_not.mp last, rfl⟩, rfl⟩
  · cases done

/-- Taking a page off writes to the masks and contents of none. -/
theorem remove_keeps {α : Type} (read : EvictPage → α)
    (prev : ∀ q v, read { q with evictPrev := v } = read q)
    (next : ∀ q v, read { q with evictNext := v } = read q)
    (done : s.pageRemoveFromEvictList p = some t) (q : Nat) :
    read (t.page q) = read (s.page q) := by
  obtain ⟨-, u, v, joined, back, rfl⟩ := remove_eq done
  have first : read (u.page q) = read (s.page q) := by
    rcases joined with ⟨-, rfl⟩ | ⟨-, rfl⟩
    · exact modify_keeps read (next _ _) q
    · rfl
  have second : read (v.page q) = read (u.page q) := by
    rcases back with ⟨-, rfl⟩ | ⟨-, rfl⟩
    · exact modify_keeps read (prev _ _) q
    · rfl
  calc read ((v.setPrev p evictNotInList).page q) = read (v.page q) :=
        modify_keeps read (prev _ _) q
    _ = read (s.page q) := second.trans first

theorem remove_overlap (done : s.pageRemoveFromEvictList p = some t) (q : Nat) :
    (t.page q).Overlap ↔ (s.page q).Overlap :=
  Iff.of_eq (remove_keeps EvictPage.Overlap (fun _ _ => rfl) (fun _ _ => rfl) done q)

/-- A link that is not `EVICT_NOT_IN_LIST` is written: no flag is lost. -/
theorem setPrev_flagged {n : Nat} (real : n ≠ evictNotInList)
    (flagged : s.pageInEvictList q = true) : (s.setPrev p n).pageInEvictList q = true := by
  unfold setPrev
  by_cases here : q = p
  · subst here
    rw [pageInEvictList, modify_page_self]
    exact decide_eq_true real
  · rw [pageInEvictList, modify_page_of_ne _ here]
    exact flagged

/-- Taking a page off leaves the other flags. -/
theorem remove_flagged (done : s.pageRemoveFromEvictList p = some t) (other : q ≠ p)
    (flagged : s.pageInEvictList q = true) : t.pageInEvictList q = true := by
  obtain ⟨listed, u, v, joined, back, rfl⟩ := remove_eq done
  have first (r : Nat) : u.pageInEvictList r = s.pageInEvictList r := by
    rcases joined with ⟨-, rfl⟩ | ⟨-, rfl⟩
    · exact pageInEvictList_modify rfl r
    · rfl
  have second : v.pageInEvictList q = true := by
    rcases back with ⟨-, rfl⟩ | ⟨-, rfl⟩
    · exact setPrev_flagged (of_decide_eq_true ((first p).trans listed)) ((first q).trans flagged)
    · exact (first q).trans flagged
  have kept : (v.setPrev p evictNotInList).page q = v.page q := modify_page_of_ne _ other
  unfold pageInEvictList at second ⊢
  dsimp only
  rw [kept]
  exact second

theorem Flagged.checkFlush (flagged : s.Flagged) (done : s.codegenCheckFlush p = some t) :
    t.Flagged := by
  -- a page other than the flushed one keeps its masks and its flag
  have masked : (s.modify p flushMasks).Flagged := by
    intro q overlap
    rw [pageInEvictList_modify rfl]
    by_cases here : q = p
    · subst here
      rw [modify_page_self] at overlap
      exact absurd overlap (not_overlap_flushMasks _)
    · rw [modify_page_of_ne _ here] at overlap
      exact flagged q overlap
  unfold codegenCheckFlush at done
  dsimp only at done
  split at done
  · intro q overlap
    rw [remove_overlap done] at overlap
    by_cases here : q = p
    · subst here
      rw [modify_page_self] at overlap
      exact absurd overlap (not_overlap_flushMasks _)
    · exact remove_flagged done here (masked q overlap)
  · cases done
    exact masked

/-- A flush of a flagged page takes it off. -/
theorem Flagged.checkFlush_isSome (flagged : s.Flagged) (p : Nat) :
    (s.codegenCheckFlush p).isSome = true := by
  unfold codegenCheckFlush
  dsimp only
  split
  · rename_i removed
    have here : (s.modify p flushMasks).pageInEvictList p = true := by
      rw [pageInEvictList_modify rfl]
      exact flagged p (overlap_of_removes removed)
    rw [pageRemoveFromEvictList, if_pos here]
    rfl
  · rfl

theorem Flagged.step (flagged : s.Flagged) (allowed : Allowed op) (done : s.step op = some t) :
    t.Flagged := by
  by_cases flush : ∃ p, op = .checkFlush p
  · obtain ⟨p, rfl⟩ := flush
    exact flagged.checkFlush done
  · have notFlush (p : Nat) : op ≠ .checkFlush p := fun same => flush ⟨p, same⟩
    obtain ⟨s', same, rfl⟩ := step_marks notFlush done
    obtain ⟨dirty, kind⟩ := marksOf_kind s allowed
    exact (flagged.same same).marks fun m member => (kind m member).2

end EvictList

end PCemWeb.Codegen
