import PCemWeb.Codegen.EvictListExact

/-!
# Runs of the evict list

The list is what it should be until a page is added, and not after that (`sound_of_run`). Dirty
code stays flagged in every run, so a page is never taken off that is not in the list
(`neverFatal_of_run`), and as long as no code on page 0 is dirty the list is right about all the
other pages (`others_of_run`).
-/

namespace PCemWeb.Codegen

open PCemWeb.Lib

namespace EvictList

variable {s t : EvictList} {m : Mark} {ms : List Mark} {p : Nat} {op : Op} {dirty : Bool}

/-- The links of the pages. -/
def next (s : EvictList) (p : Nat) : Nat := (s.page p).evictNext

def prev (s : EvictList) (p : Nat) : Nat := (s.page p).evictPrev

/-- The links are a list of the pages that are flagged as in it, the count is its length, and dirty
code is in it. -/
structure Sound (s : EvictList) : Prop where
  listed : ∃ l, ListAt s.next s.prev s.head l ∧ (∀ p, p ∈ l ↔ s.pageInEvictList p = true) ∧
    s.count = l.length
  flagged : s.Flagged

/-- A mark of the call hits on a page that is not in the list. -/
def Adds (s : EvictList) (op : Op) : Prop :=
  ∃ m ∈ s.marksOf op, m.hits (s.page m.page) = true ∧ ¬ s.pageInEvictList m.page = true

/-- The list is empty, and no page is flagged. -/
structure Quiet (s : EvictList) : Prop where
  head : s.head = 0
  count : s.count = 0
  none : ∀ p, s.pageInEvictList p = false

theorem quiet_initial : initial.Quiet := ⟨rfl, rfl, fun _ => rfl⟩

theorem flagged_initial : initial.Flagged := by
  rintro p (page | ⟨c, -, bytes⟩)
  · exact (page BitVec.and_zero).elim
  · exact (bytes BitVec.and_zero).elim

theorem Quiet.sound (quiet : s.Quiet) (flagged : s.Flagged) : s.Sound := by
  refine ⟨⟨[], ?_, fun p => ?_, quiet.count⟩, flagged⟩
  · rw [quiet.head]
    exact .nil
  · rw [quiet.none p]
    simp

/-- Page 0 is in no list. -/
theorem not_sound_of_zero (zero : s.pageInEvictList 0 = true) : ¬ s.Sound := by
  rintro ⟨⟨l, list, members, -⟩, -⟩
  exact list.ne_zero ((members 0).mpr zero) rfl

/-! ## Calls that only make marks -/

theorem Quiet.same (quiet : s.Quiet) (same : Same s t) : t.Quiet where
  head := same.head.trans quiet.head
  count := same.count.trans quiet.count
  none p := (same.pageInEvictList p).trans (quiet.none p)

theorem Quiet.modify {f : EvictPage → EvictPage} (quiet : s.Quiet)
    (same : (f (s.page p)).evictPrev = (s.page p).evictPrev) : (s.modify p f).Quiet where
  head := quiet.head
  count := quiet.count
  none q := (pageInEvictList_modify same q).trans (quiet.none q)

/-- A mark leaves the tests of marks of its kind alone when it adds nothing. -/
theorem hits_modify {m' : Mark} (same : m.isDirty = m'.isDirty) (q : Nat) :
    m.hits ((s.modify m'.page m'.change).page q) = m.hits (s.page q) :=
  modify_keeps (f := fun q => m'.change q) (fun q => m.hits q) (Mark.hits_change same _) q

theorem mark_of_miss (miss : m.hits (s.page m.page) = false) :
    s.mark m = s.modify m.page m.change := by
  rw [mark_eq, if_neg]
  rw [miss]
  exact fun hit => Bool.noConfusion hit.1

theorem Quiet.marks (quiet : s.Quiet) (kind : ∀ m ∈ ms, m.isDirty = dirty)
    (miss : ∀ m ∈ ms, m.hits (s.page m.page) = false) : (ms.foldl mark s).Quiet := by
  induction ms generalizing s with
  | nil => exact quiet
  | cons m ms ih =>
    have first := mark_of_miss (miss m (.head _))
    rw [List.foldl_cons, first]
    apply ih (quiet.modify (Mark.change_prev m _)) fun m' inRest => kind m' (.tail _ inRest)
    intro m' inRest
    have same : m'.isDirty = m.isDirty :=
      (kind m' (.tail _ inRest)).trans (kind m (.head _)).symm
    exact (hits_modify same _).trans (miss m' (.tail _ inRest))

/-- The first hit flags page 0, and it stays flagged. -/
theorem Quiet.zero_of_hit (quiet : s.Quiet)
    (kind : ∀ m ∈ ms, m.isDirty = dirty ∧ m.page ≠ evictNotInList)
    (hit : ∃ m ∈ ms, m.hits (s.page m.page) = true) :
    (ms.foldl mark s).pageInEvictList 0 = true := by
  induction ms generalizing s with
  | nil =>
    obtain ⟨m, member, -⟩ := hit
    cases member
  | cons m ms ih =>
    have rest (m' : Mark) (inRest : m' ∈ ms) := kind m' (.tail _ inRest)
    rw [List.foldl_cons]
    cases here : m.hits (s.page m.page) with
    | true =>
      apply marks_flagged fun m' inRest => (rest m' inRest).2
      rw [mark_eq, if_pos ⟨here, by simp [quiet.none]⟩]
      exact (pageInEvictList_add (kind m (.head _)).2 0).mpr (.inr (.inl quiet.head.symm))
    | false =>
      rw [mark_of_miss here]
      apply ih (quiet.modify (Mark.change_prev m _)) rest
      obtain ⟨m', member, hit⟩ := hit
      rcases List.mem_cons.mp member with rfl | inRest
      · rw [here] at hit
        cases hit
      · have same : m'.isDirty = m.isDirty := (rest m' inRest).1.trans (kind m (.head _)).1.symm
        exact ⟨m', inRest, (hits_modify same _).trans hit⟩

/-! ## One call -/

/-- A flush takes no page off an empty list. -/
theorem Quiet.checkFlush (quiet : s.Quiet) (flagged : s.Flagged)
    (done : s.codegenCheckFlush p = some t) : t.Quiet := by
  have kept : removes (s.page p) = false := by
    by_contra removed
    have listed := flagged p (overlap_of_removes (by simpa using removed))
    rw [quiet.none p] at listed
    cases listed
  simp only [codegenCheckFlush, kept] at done
  cases done
  exact quiet.modify rfl

theorem Quiet.step (quiet : s.Quiet) (flagged : s.Flagged) (allowed : Allowed op)
    (stays : ¬ s.Adds op) (done : s.step op = some t) : t.Quiet := by
  by_cases flush : ∃ p, op = .checkFlush p
  · obtain ⟨p, rfl⟩ := flush
    exact quiet.checkFlush flagged done
  · obtain ⟨s', same, rfl⟩ := step_marks (fun p is => flush ⟨p, is⟩) done
    obtain ⟨dirty, kind⟩ := marksOf_kind s allowed
    apply (quiet.same same).marks fun m member => (kind m member).1
    intro m member
    rw [same.hits, Bool.eq_false_iff]
    exact fun hit => stays ⟨m, member, hit, by simp [quiet.none]⟩

/-- A call that adds a page makes page 0 a member that is in no list. -/
theorem Quiet.not_sound (quiet : s.Quiet) (allowed : Allowed op) (adds : s.Adds op)
    (done : s.step op = some t) : ¬ t.Sound := by
  apply not_sound_of_zero
  obtain ⟨m, member, hit, -⟩ := adds
  have notFlush (p : Nat) : op ≠ .checkFlush p := by
    rintro rfl
    cases member
  obtain ⟨s', same, rfl⟩ := step_marks notFlush done
  obtain ⟨dirty, kind⟩ := marksOf_kind s allowed
  exact (quiet.same same).zero_of_hit kind ⟨m, member, (same.hits m _).trans hit⟩

/-! ## Runs -/

/-- In every run, dirty code is flagged and no flush is fatal. -/
theorem neverFatal_of_run (run : RunOk EvictList.step (fun _ op => Allowed op) initial s) :
    s.Flagged ∧ ∀ p, (s.codegenCheckFlush p).isSome = true := by
  have flagged : s.Flagged := run.invariant flagged_initial fun before ok done =>
    before.step ok done
  exact ⟨flagged, flagged.checkFlush_isSome⟩

/-- In a run that never adds a page the list is what it should be, and a next call leaves it so
when it adds none and only then. -/
theorem sound_of_run
    (run : RunOk EvictList.step (fun s op => Allowed op ∧ ¬ s.Adds op) initial s) :
    s.Sound ∧ (∀ p, (s.codegenCheckFlush p).isSome = true) ∧
      ∀ op t, Allowed op → s.step op = some t → (t.Sound ↔ ¬ s.Adds op) := by
  have inv : s.Quiet ∧ s.Flagged := by
    apply run.invariant (And.intro quiet_initial flagged_initial)
    intro s t op before ok done
    exact ⟨before.1.step before.2 ok.1 ok.2 done, before.2.step ok.1 done⟩
  obtain ⟨quiet, flagged⟩ := inv
  refine ⟨quiet.sound flagged, flagged.checkFlush_isSome, fun op t allowed done => ?_⟩
  constructor
  · intro sound adds
    exact quiet.not_sound allowed adds done sound
  · intro stays
    exact (quiet.step flagged allowed stays done).sound (flagged.step allowed done)

/-! ## Two runs -/

instance : (op : Op) → Decidable (Allowed op)
  | .writeb .. | .writew .. | .writel .. | .endMask .. => inferInstanceAs (Decidable (_ ∧ _))
  | .invalidateRange .. | .checkFlush _ => inferInstanceAs (Decidable (_ < _))
  | .recompiling _ => .isTrue trivial

instance (s : EvictList) (op : Op) : Decidable (s.Adds op) :=
  inferInstanceAs (Decidable (∃ m ∈ s.marksOf op, _))

/-- Code on page 5 and the second half of page 6, data on pages 3, 6 and 7; nothing is hit. -/
def apartMarks : List Op :=
  [.writel 3 0x303e 1, .endMask false 0x5000 0x7 (some (0x6000, 0xffff0000#64 <<< 32)),
    .writew 6 0x6010 7, .checkFlush 3, .invalidateRange 0x7000 0x7fff]

/-- Code on page 1 is written to. -/
def dirtyCode : List Op := [.endMask false 0x1000 1 none, .writeb 1 0x1000 1]

/-- The list stays empty, and the next write to code breaks it. -/
theorem sound_apartMarks : ∃ s, exec step initial apartMarks = some s ∧ s.Sound ∧
    s.step (.writeb 5 0x5041 1) ≠ none ∧
    ∀ t, s.step (.writeb 5 0x5041 1) = some t → ¬ t.Sound := by
  have run : (execOk step (fun s op => Allowed op ∧ ¬ s.Adds op) initial apartMarks).any
      (fun s => s.Adds (.writeb 5 0x5041 1)) = true := by decide +kernel
  obtain ⟨s, done, ended⟩ := (Option.any_eq_true ..).mp run
  have adds : s.Adds (.writeb 5 0x5041 1) := of_decide_eq_true ended
  obtain ⟨sound, -, next⟩ := sound_of_run (RunOk.of_execOk (fun _ _ => of_decide_eq_true) done)
  refine ⟨s, exec_of_execOk done, sound, Option.some_ne_none _, fun t stepped kept => ?_⟩
  exact (next _ t (by decide) stepped).mp kept adds

/-- Page 0 is flagged when page 1 is added, and no link reaches it. -/
theorem not_sound_dirtyCode : ¬ ∀ {s : EvictList} {ops : List Op}, (∀ op ∈ ops, Allowed op) →
    exec step initial ops = some s → s.Sound := by
  intro claimed
  have run : (exec step initial dirtyCode).any (fun s => s.pageInEvictList 0) = true := by
    decide +kernel
  obtain ⟨s, done, zero⟩ := (Option.any_eq_true ..).mp run
  exact not_sound_of_zero zero (claimed (by decide) done)

/-! ## The other pages -/

/-- The list is right about the pages other than 0. -/
structure Others (s : EvictList) (l : List Nat) : Prop where
  list : ListAt s.next s.prev s.head l
  members : ∀ p ≠ 0, p ∈ l ↔ s.pageInEvictList p = true
  count : s.count = l.length

/-- No mark of the call hits on page 0. -/
def SparesZero (s : EvictList) (op : Op) : Prop :=
  ∀ m ∈ s.marksOf op, m.page = 0 → m.hits (s.page 0) = false

theorem others_initial : initial.Others [] where
  list := .nil
  members p _ := ⟨fun member => absurd member List.not_mem_nil, fun flagged => by cases flagged⟩
  count := rfl

variable {l : List Nat}

theorem Others.congr (others : s.Others l) (head : t.head = s.head) (count : t.count = s.count)
    (next : ∀ p, (t.page p).evictNext = (s.page p).evictNext)
    (prev : ∀ p, (t.page p).evictPrev = (s.page p).evictPrev) : t.Others l where
  list := by
    rw [head]
    exact others.list.congr (fun b _ => next b) fun b _ => prev b
  members p real := by
    rw [others.members p real, pageInEvictList, pageInEvictList, prev]
  count := count.trans others.count

/-- A page that is not in the list becomes its head. -/
theorem Others.add (others : s.Others l) (real : p ≠ 0) (exists' : p ≠ evictNotInList)
    (fresh : ¬ s.pageInEvictList p = true) : (s.pageAddToEvictList p).Others (p :: l) where
  list := by
    have out : p ∉ l := fun member => fresh ((others.members p real).mp member)
    have other (b : Nat) (member : b ∈ l) : b ≠ p := fun same => out (same ▸ member)
    have newHead : (s.pageAddToEvictList p).head = p := by
      rw [pageAddToEvictList_head, if_neg]
      intro head
      exact out (head ▸ others.list.head_mem (head ▸ real))
    rw [newHead]
    apply others.list.push real out
    · rw [next, pageAddToEvictList_next, if_pos rfl]
    · rw [prev, pageAddToEvictList_prev, if_pos rfl]
    · intro b member
      rw [next, pageAddToEvictList_next, if_neg (other b member)]
      rfl
    · intro b member
      rw [prev, pageAddToEvictList_prev, if_neg (other b member)]
      rfl
  members q nonzero := by
    rw [pageInEvictList_add exists', List.mem_cons, others.members q nonzero]
    constructor
    · rintro (rfl | flagged)
      · exact .inl rfl
      · exact .inr (.inr flagged)
    · rintro (rfl | rfl | flagged)
      · exact .inl rfl
      · exact .inr ((others.members _ nonzero).mp (others.list.head_mem nonzero))
      · exact .inr flagged
  count := by
    simp [pageAddToEvictList, setPrev, setNext, EvictList.modify, others.count]

theorem setNext_next (s : EvictList) (a v q : Nat) :
    (s.setNext a v).next q = if q = a then v else s.next q := by
  unfold next setNext EvictList.modify
  by_cases here : q = a
  · rw [here, if_pos rfl]
    dsimp only
    rw [Function.update_self]
  · rw [if_neg here]
    dsimp only
    rw [Function.update_of_ne here]

theorem setNext_prev (s : EvictList) (a v q : Nat) : (s.setNext a v).prev q = s.prev q :=
  modify_keeps EvictPage.evictPrev rfl q

theorem setPrev_prev (s : EvictList) (a v q : Nat) :
    (s.setPrev a v).prev q = if q = a then v else s.prev q := by
  unfold prev setPrev EvictList.modify
  by_cases here : q = a
  · rw [here, if_pos rfl]
    dsimp only
    rw [Function.update_self]
  · rw [if_neg here]
    dsimp only
    rw [Function.update_of_ne here]

theorem setPrev_next (s : EvictList) (a v q : Nat) : (s.setPrev a v).next q = s.next q :=
  modify_keeps EvictPage.evictNext rfl q

/-- The links after a page is taken off. -/
theorem remove_links (done : s.pageRemoveFromEvictList p = some t) :
    (∀ q ≠ 0, q ≠ p → t.next q = if q = s.prev p then s.next p else s.next q) ∧
      (∀ q ≠ 0, q ≠ p → t.prev q = if q = s.next p then s.prev p else s.prev q) ∧
      t.prev p = evictNotInList ∧ t.head = (if s.prev p = 0 then s.next p else s.head) ∧
      t.count = s.count - 1 := by
  obtain ⟨-, u, v, joined, back, rfl⟩ := remove_eq done
  -- the first link that is written may be one of the page itself, and is then what it was
  have first : (∀ q ≠ 0, u.next q = if q = s.prev p then s.next p else s.next q) ∧
      u.next p = s.next p ∧ (∀ q, u.prev q = s.prev q) ∧
      u.head = (if s.prev p = 0 then s.next p else s.head) ∧ u.count = s.count := by
    rcases joined with ⟨linked, rfl⟩ | ⟨unlinked, rfl⟩
    · refine ⟨fun q _ => setNext_next .., ?_, setNext_prev s _ _, (if_neg linked).symm, rfl⟩
      rw [setNext_next]
      split <;> rfl
    · refine ⟨fun q nonzero => (if_neg ?_).symm, rfl, fun _ => rfl, (if_pos unlinked).symm, rfl⟩
      exact fun same => nonzero (same.trans unlinked)
  obtain ⟨uNext, uNextSelf, uPrev, uHead, uCount⟩ := first
  have second : (∀ q, v.next q = u.next q) ∧
      (∀ q ≠ 0, v.prev q = if q = s.next p then s.prev p else s.prev q) ∧
      v.head = u.head ∧ v.count = u.count := by
    rcases back with ⟨linked, rfl⟩ | ⟨unlinked, rfl⟩
    · refine ⟨setPrev_next u _ _, fun q _ => ?_, rfl, rfl⟩
      rw [← uNextSelf, ← uPrev p, ← uPrev q]
      exact setPrev_prev ..
    · refine ⟨fun _ => rfl, fun q nonzero => ?_, rfl, rfl⟩
      rw [if_neg, uPrev]
      exact fun same => nonzero (same.trans (uNextSelf.symm.trans unlinked))
  obtain ⟨vNext, vPrev, vHead, vCount⟩ := second
  refine ⟨fun q nonzero other => ?_, fun q nonzero other => ?_, ?_, vHead.trans uHead, ?_⟩
  · exact (setPrev_next v p evictNotInList q).trans ((vNext q).trans (uNext q nonzero))
  · refine (setPrev_prev v p evictNotInList q).trans ?_
    rw [if_neg other, vPrev q nonzero]
  · exact (setPrev_prev v p evictNotInList p).trans (if_pos rfl)
  · dsimp only
    rw [vCount, uCount]

/-- A page in the list is taken off it. -/
theorem Others.remove (others : s.Others l) (real : p ≠ 0)
    (done : s.pageRemoveFromEvictList p = some t) : t.Others (l.erase p) := by
  have listed := (remove_eq done).1
  have member : p ∈ l := (others.members p real).mpr listed
  have nonzero (b : Nat) (inList : b ∈ l) := others.list.ne_zero inList
  obtain ⟨newNext, newPrev, flag, head, count⟩ := remove_links done
  refine ⟨?_, fun q present => ?_, ?_⟩
  · exact others.list.remove member (fun b inList => newNext b (nonzero b inList))
      (fun b inList => newPrev b (nonzero b inList)) head
  · rw [others.list.nodup.mem_erase_iff]
    by_cases here : q = p
    · subst here
      have off : t.pageInEvictList q = false := decide_eq_false (not_not.mpr flag)
      simp [off]
    · have linked : t.pageInEvictList q = true ↔
          (if q = s.next p then s.prev p else s.prev q) ≠ evictNotInList := by
        rw [← newPrev q present here]
        exact decide_eq_true_iff
      rw [linked, others.members q present]
      split
      · rename_i successor
        have inList : q ∈ l := successor ▸
          (others.list.next_mem member).resolve_left (successor ▸ present)
        exact ⟨fun _ => of_decide_eq_true listed,
          fun _ => ⟨here, (others.members q present).mp inList⟩⟩
      · exact ⟨fun both => of_decide_eq_true both.2, fun flagged => ⟨here, decide_eq_true flagged⟩⟩
  · rw [count, others.count, List.length_erase_of_mem member]
    have : 0 < l.length := List.length_pos_of_mem member
    omega

/-! ## No dirty code on page 0 -/

/-- The list is right about the other pages, and no code on page 0 is dirty. -/
def Spared (s : EvictList) : Prop := (∃ l, s.Others l) ∧ ¬ (s.page 0).Overlap

theorem Others.modify {f : EvictPage → EvictPage} (others : s.Others l)
    (next : (f (s.page p)).evictNext = (s.page p).evictNext)
    (prev : (f (s.page p)).evictPrev = (s.page p).evictPrev) : (s.modify p f).Others l :=
  others.congr rfl rfl (modify_keeps EvictPage.evictNext next)
    (modify_keeps EvictPage.evictPrev prev)

theorem hits_mark {m' : Mark} (same : m.isDirty = m'.isDirty) (q : Nat) :
    m.hits ((s.mark m').page q) = m.hits (s.page q) := by
  have added (s : EvictList) (p : Nat) :
      m.hits ((s.pageAddToEvictList p).page q) = m.hits (s.page q) := by
    apply pageAddToEvictList_keeps (fun q => m.hits q) <;> intro q v <;> cases m <;> rfl
  rw [mark_eq]
  split
  · exact (added _ _).trans (hits_modify same q)
  · exact hits_modify same q

theorem Spared.mark (spared : s.Spared) (real : m.page ≠ evictNotInList)
    (spares : m.page = 0 → m.hits (s.page 0) = false) : (s.mark m).Spared := by
  obtain ⟨⟨l, others⟩, clean⟩ := spared
  refine ⟨?_, fun overlap => ?_⟩
  · have masked : (s.modify m.page m.change).Others l :=
      others.modify (Mark.change_next m _) (Mark.change_prev m _)
    rw [mark_eq]
    split
    · rename_i hit
      have nonzero : m.page ≠ 0 := by
        intro zero
        have miss := spares zero
        rw [← zero, hit.1] at miss
        cases miss
      refine ⟨_, masked.add nonzero real ?_⟩
      rw [pageInEvictList_modify (Mark.change_prev m _)]
      exact hit.2
    · exact ⟨l, masked⟩
  · rcases overlap_mark overlap with before | ⟨zero, hit⟩
    · exact clean before
    · cases hit.symm.trans (spares zero.symm)

theorem Spared.marks (spared : s.Spared)
    (kind : ∀ m ∈ ms, m.isDirty = dirty ∧ m.page ≠ evictNotInList)
    (spares : ∀ m ∈ ms, m.page = 0 → m.hits (s.page 0) = false) :
    (ms.foldl EvictList.mark s).Spared := by
  induction ms generalizing s with
  | nil => exact spared
  | cons m ms ih =>
    apply ih (spared.mark (kind m (.head _)).2 (spares m (.head _)))
    · exact fun m' inRest => kind m' (.tail _ inRest)
    · intro m' inRest zero
      have same : m'.isDirty = m.isDirty :=
        (kind m' (.tail _ inRest)).1.trans (kind m (.head _)).1.symm
      exact (hits_mark same 0).trans (spares m' (.tail _ inRest) zero)

theorem Spared.checkFlush (spared : s.Spared) (done : s.codegenCheckFlush p = some t) :
    t.Spared := by
  obtain ⟨⟨l, others⟩, clean⟩ := spared
  have masked : (s.modify p flushMasks).Others l := others.modify rfl rfl
  have stays : ¬ ((s.modify p flushMasks).page 0).Overlap := by
    by_cases here : p = 0
    · subst here
      rw [modify_page_self]
      exact not_overlap_flushMasks _
    · rw [modify_page_of_ne _ (Ne.symm here)]
      exact clean
  unfold codegenCheckFlush at done
  dsimp only at done
  split at done
  · rename_i removed
    have nonzero : p ≠ 0 := by
      rintro rfl
      exact clean (overlap_of_removes removed)
    exact ⟨⟨_, masked.remove nonzero done⟩,
      fun overlap => stays ((remove_overlap done 0).mp overlap)⟩
  · cases done
    exact ⟨⟨l, masked⟩, stays⟩

theorem Spared.step (spared : s.Spared) (allowed : Allowed op) (spares : s.SparesZero op)
    (done : s.step op = some t) : t.Spared := by
  by_cases flush : ∃ p, op = .checkFlush p
  · obtain ⟨p, rfl⟩ := flush
    exact spared.checkFlush done
  · obtain ⟨s', same, rfl⟩ := step_marks (fun p is => flush ⟨p, is⟩) done
    obtain ⟨dirty, kind⟩ := marksOf_kind s allowed
    have before : s'.Spared := by
      obtain ⟨⟨l, others⟩, clean⟩ := spared
      refine ⟨⟨l, others.congr same.head same.count ?_ ?_⟩, fun overlap => ?_⟩
      · exact same.keeps EvictPage.evictNext fun _ _ => rfl
      · exact same.keeps EvictPage.evictPrev fun _ _ => rfl
      · exact clean ((same.overlap 0).mp overlap)
    exact before.marks kind fun m member zero => (same.hits m 0).trans (spares m member zero)

/-- In a run that makes no code on page 0 dirty, the list is a list of the other pages that are
flagged, and dirty code is in it. -/
theorem others_of_run
    (run : RunOk EvictList.step (fun s op => Allowed op ∧ s.SparesZero op) initial s) :
    ∃ l, s.Others l ∧ ∀ p, (s.page p).Overlap → p ∈ l := by
  have spared : s.Spared := by
    apply run.invariant (show initial.Spared from ⟨⟨[], others_initial⟩, ?_⟩)
    · intro s t op before ok done
      exact before.step ok.1 ok.2 done
    · exact fun overlap => by cases flagged_initial 0 overlap
  have flagged := (neverFatal_of_run (run.mono fun _ _ ok => ok.1)).1
  obtain ⟨⟨l, others⟩, clean⟩ := spared
  refine ⟨l, others, fun p overlap => (others.members p ?_).mpr (flagged p overlap)⟩
  rintro rfl
  exact clean overlap

end EvictList

end PCemWeb.Codegen
