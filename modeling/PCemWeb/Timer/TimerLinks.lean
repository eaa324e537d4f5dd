import Mathlib.Data.List.Perm.Subperm
import PCemWeb.Timer.Timer

/-!
# The timer list and its links

What each operation of `timer.c` does to the list behind `timer_head`: unlinking removes a timer,
linking inserts it, and neither changes an expiry.
-/

namespace PCemWeb.Timer

open Lib

namespace Timers

variable {s s' : Timers} {t u n : Nat} {l xs ys : List Nat}

/-- The list of the enabled timers; timers outside it have no links. -/
structure Linked (s : Timers) (l : List Nat) : Prop where
  list : ListAt (fun t => (s.timer t).next) (fun t => (s.timer t).prev) s.timerHead l
  mem : ∀ t, t ∈ l ↔ (s.timer t).enabled = true
  magic : ∀ t ∈ l, (s.timer t).magic = timerMagic
  known : ∀ t ∈ l, t ≤ s.count
  loose : ∀ t ∉ l, t ≠ 0 → (s.timer t).next = 0 ∧ (s.timer t).prev = 0

/-- Everything but links, flags and the target is as before. -/
structure SameStamps (s s' : Timers) : Prop where
  stamp : ∀ t, (s'.timer t).tsInteger = (s.timer t).tsInteger
  magic : ∀ t, (s'.timer t).magic = (s.timer t).magic
  count : s'.count = s.count
  tsc : s'.tsc = s.tsc
  allTimers : s'.allTimers = s.allTimers
  active : s'.active = s.active

theorem SameStamps.refl (s : Timers) : SameStamps s s :=
  ⟨fun _ => rfl, fun _ => rfl, rfl, rfl, rfl, rfl⟩

theorem SameStamps.trans {s'' : Timers} (first : SameStamps s s') (second : SameStamps s' s'') :
    SameStamps s s'' where
  stamp t := (second.stamp t).trans (first.stamp t)
  magic t := (second.magic t).trans (first.magic t)
  count := second.count.trans first.count
  tsc := second.tsc.trans first.tsc
  allTimers := second.allTimers.trans first.allTimers
  active := second.active.trans first.active

section

variable (same : SameStamps s s')

include same

theorem SameStamps.put {f : PcTimer → PcTimer}
    (stamp : (f (s'.timer t)).tsInteger = (s'.timer t).tsInteger)
    (magic : (f (s'.timer t)).magic = (s'.timer t).magic) : SameStamps s (s'.put t f) := by
  refine .trans same ⟨fun u => ?_, fun u => ?_, rfl, rfl, rfl, rfl⟩
  · rw [put_timer]
    split
    · rw [stamp, ‹u = t›]
    · rfl
  · rw [put_timer]
    split
    · rw [magic, ‹u = t›]
    · rfl

theorem SameStamps.putNext : SameStamps s (s'.putNext t n) := same.put rfl rfl

theorem SameStamps.putPrev : SameStamps s (s'.putPrev t n) := same.put rfl rfl

theorem SameStamps.putHead : SameStamps s (s'.putHead n) :=
  same.trans ⟨fun _ => rfl, fun _ => rfl, rfl, rfl, rfl, rfl⟩

theorem SameStamps.putTarget {target : BitVec 32} : SameStamps s (s'.putTarget target) :=
  same.trans ⟨fun _ => rfl, fun _ => rfl, rfl, rfl, rfl, rfl⟩

end

theorem SameStamps.ite {c : Prop} [Decidable c] {a b : Timers} (yes : SameStamps s a)
    (no : SameStamps s b) : SameStamps s (if c then a else b) := by
  split
  · exact yes
  · exact no

theorem Linked.ne_zero (linked : s.Linked l) (member : t ∈ l) : t ≠ 0 := linked.list.ne_zero member

theorem Linked.valid (linked : s.Linked l) (member : t ∈ l) : s.valid t = true := by
  simp [Timers.valid, linked.ne_zero member, linked.magic t member]

theorem Linked.length_le (linked : s.Linked l) : l.length ≤ s.count := by
  have inRange : l ⊆ (List.range s.count).map (· + 1) := by
    intro t member
    have positive := linked.ne_zero member
    have known := linked.known t member
    simp only [List.mem_map, List.mem_range]
    exact ⟨t - 1, by omega, by omega⟩
  simpa using (List.subperm_of_subset linked.list.nodup inRange).length_le

/-! ## Unlinking -/

section Unlink

theorem unlink_head : (s.unlink t).timerHead =
    if (s.timer t).prev = 0 then (s.timer t).next else s.timerHead := by
  by_cases first : (s.timer t).prev = 0 <;> by_cases last : (s.timer t).next = 0 <;>
    simp [unlink, put_timer, first, last]

theorem unlink_enabled :
    ((s.unlink t).timer u).enabled = if u = t then false else (s.timer u).enabled := by
  by_cases first : (s.timer t).prev = 0 <;> by_cases last : (s.timer t).next = 0 <;>
    by_cases same : u = t <;> simp [unlink, put_timer, first, last, same]

theorem unlink_next (nonzero : u ≠ 0) :
    ((s.unlink t).timer u).next = if u = t then 0
      else if u = (s.timer t).prev then (s.timer t).next else (s.timer u).next := by
  by_cases first : (s.timer t).prev = 0 <;> by_cases last : (s.timer t).next = 0 <;>
    by_cases same : u = t <;> simp [unlink, put_timer, nonzero, first, last, same]

theorem unlink_prev (nonzero : u ≠ 0) :
    ((s.unlink t).timer u).prev = if u = t then 0
      else if u = (s.timer t).next then (s.timer t).prev else (s.timer u).prev := by
  by_cases first : (s.timer t).prev = 0 <;> by_cases last : (s.timer t).next = 0 <;>
    by_cases same : u = t <;> simp [unlink, put_timer, nonzero, first, last, same]

theorem SameStamps.unlink : SameStamps s (s.unlink t) := by
  have disabled : SameStamps s (s.put t fun timer => { timer with enabled := false }) :=
    .put (.refl s) rfl rfl
  unfold Timers.unlink
  refine .put (.ite (.putPrev (.ite disabled.putNext disabled.putHead))
    (.ite disabled.putNext disabled.putHead)) ?_ ?_
  · rfl
  · rfl

theorem Linked.unlink (linked : s.Linked l) (member : t ∈ l) : (s.unlink t).Linked (l.erase t) where
  list := by
    refine linked.list.remove member (fun u inList other => ?_) (fun u inList other => ?_) ?_
    · rw [unlink_next (linked.ne_zero inList), if_neg other]
    · rw [unlink_prev (linked.ne_zero inList), if_neg other]
    · exact unlink_head
  mem u := by
    rw [linked.list.nodup.mem_erase_iff, linked.mem, unlink_enabled]
    split
    · simp [*]
    · simp [*]
  magic u inRest := by
    rw [SameStamps.unlink.magic]
    exact linked.magic u (List.mem_of_mem_erase inRest)
  known u inRest := by
    rw [SameStamps.unlink.count]
    exact linked.known u (List.mem_of_mem_erase inRest)
  loose u outside nonzero := by
    rw [unlink_next nonzero, unlink_prev nonzero]
    rcases eq_or_ne u t with rfl | other
    · simp
    · have outside' : u ∉ l := fun inList =>
        outside ((linked.list.nodup.mem_erase_iff).mpr ⟨other, inList⟩)
      have noNext : u ≠ (s.timer t).next := by
        rintro rfl
        exact (linked.list.next_mem member).elim nonzero outside'
      have noPrev : u ≠ (s.timer t).prev := by
        rintro rfl
        exact (linked.list.prev_mem member).elim nonzero outside'
      rw [if_neg other, if_neg other, if_neg noPrev, if_neg noNext]
      exact linked.loose u outside' nonzero

theorem unlink_timerTarget : (s.unlink t).timerTarget = s.timerTarget := by
  by_cases first : (s.timer t).prev = 0 <;> by_cases last : (s.timer t).next = 0 <;>
    simp [Timers.unlink, put_timer, first, last]

/-- Only the head of the list has no predecessor. -/
theorem Linked.head_of_prev (linked : s.Linked l) (member : t ∈ l) (first : (s.timer t).prev = 0) :
    t = s.timerHead := by
  obtain ⟨xs, ys, rfl, -, back, -, before, -⟩ := linked.list.split member
  have headEq := linked.list.head_eq
  rcases getLastD_mem_or xs 0 with inXs | rfl
  · exact absurd (back.symm.trans first) (before.ne_zero _ inXs)
  · exact headEq.symm

/-- `timer_disable` never calls `fatal`, and it removes the timer if it is in the list. -/
theorem Linked.timerDisable (linked : s.Linked l) :
    ∃ s', s.timerDisable t = some s' ∧ s'.Linked (l.erase t) ∧ SameStamps s s' ∧
      s'.timerTarget = s.timerTarget ∧ (t ∉ l → s' = s) := by
  unfold Timers.timerDisable
  by_cases member : t ∈ l
  · have enabled := (linked.mem t).mp member
    have notFatal : ((s.timer t).next = 0 && (s.timer t).prev = 0 && t ≠ s.timerHead) = false := by
      by_cases first : (s.timer t).prev = 0
      · simp [linked.head_of_prev member first]
      · simp [first]
    rw [linked.valid member, enabled, notFatal]
    exact ⟨_, rfl, linked.unlink member, .unlink, unlink_timerTarget, fun absent =>
      absurd member absent⟩
  · have idle : (s.timer t).enabled = false := by
      have := (linked.mem t).not.mp member
      simpa using this
    rw [idle, List.erase_of_not_mem member]
    refine ⟨s, ?_, linked, .refl s, rfl, fun _ => rfl⟩
    cases s.valid t <;> rfl

end Unlink

/-! ## Linking -/

section Link

/-- What `timer_enable` leaves of the timer it links in. -/
structure LinkedIn (s s' : Timers) (t : Nat) (xs ys : List Nat) : Prop where
  linked : s'.Linked (xs ++ t :: ys)
  same : SameStamps s s'
  target : s'.timerTarget = if xs = [] then (s.timer t).tsInteger else s.timerTarget

/-- A timer that is not in the list, with its flag set. -/
structure Loose (s : Timers) (l : List Nat) (t : Nat) : Prop where
  list : ListAt (fun t => (s.timer t).next) (fun t => (s.timer t).prev) s.timerHead l
  mem : ∀ u, u ∈ t :: l ↔ (s.timer u).enabled = true
  magic : ∀ u ∈ t :: l, (s.timer u).magic = timerMagic
  known : ∀ u ∈ t :: l, u ≤ s.count
  loose : ∀ u ∉ l, u ≠ 0 → (s.timer u).next = 0 ∧ (s.timer u).prev = 0
  nonzero : t ≠ 0
  fresh : t ∉ l

theorem Linked.enable (linked : s.Linked l) (fresh : t ∉ l) (nonzero : t ≠ 0)
    (magic : (s.timer t).magic = timerMagic) (known : t ≤ s.count) :
    (s.put t fun timer => { timer with enabled := true }).Loose l t where
  list := linked.list.congr (fun u _ => by rw [put_timer]; split <;> simp [*])
    fun u _ => by rw [put_timer]; split <;> simp [*]
  mem u := by
    rw [List.mem_cons, linked.mem, put_timer]
    split <;> simp [*]
  magic u inList := by
    rw [put_timer]
    rcases List.mem_cons.mp inList with rfl | inRest
    · simp [magic]
    · split <;> simp [*, linked.magic u inRest]
  known u inList := by
    rcases List.mem_cons.mp inList with rfl | inRest
    · exact known
    · exact linked.known u inRest
  loose u outside nonzero := by
    rw [put_timer]
    have := linked.loose u outside nonzero
    split
    · subst u
      exact this
    · exact this
  nonzero := nonzero
  fresh := fresh

/-- Links that insert a loose timer between the parts of the list. -/
theorem Loose.linkedIn (loose : s.Loose (xs ++ ys) t) (same : SameStamps s s')
    (enabled : ∀ u, (s'.timer u).enabled = (s.timer u).enabled)
    (next : ∀ u ≠ 0, (s'.timer u).next = if u = t then ys.headD 0
      else if u = xs.getLastD 0 then t else (s.timer u).next)
    (prev : ∀ u ≠ 0, (s'.timer u).prev = if u = t then xs.getLastD 0
      else if u = ys.headD 0 then t else (s.timer u).prev)
    (head : s'.timerHead = if xs = [] then t else s.timerHead)
    (target : s'.timerTarget = if xs = [] then (s.timer t).tsInteger else s.timerTarget) :
    LinkedIn s s' t xs ys where
  same := same
  target := target
  linked := by
    have inRest (u : Nat) : u ∈ xs ++ t :: ys ↔ u ∈ t :: (xs ++ ys) := by
      simp only [List.mem_append, List.mem_cons]
      tauto
    have apart (u : Nat) (inList : u ∈ xs ++ ys) : u ≠ t := fun eq => loose.fresh (eq ▸ inList)
    constructor
    · refine loose.list.insert loose.nonzero loose.fresh ?_ ?_ (fun u inList => ?_)
        (fun u inList => ?_) head
      · rw [prev t loose.nonzero, if_pos rfl]
      · rw [next t loose.nonzero, if_pos rfl]
      · rw [next u (loose.list.ne_zero inList), if_neg (apart u inList)]
      · rw [prev u (loose.list.ne_zero inList), if_neg (apart u inList)]
    · intro u
      rw [inRest, loose.mem, enabled]
    · intro u inList
      rw [same.magic]
      exact loose.magic u ((inRest u).mp inList)
    · intro u inList
      rw [same.count]
      exact loose.known u ((inRest u).mp inList)
    · intro u outside nonzero
      rw [inRest, List.mem_cons, not_or] at outside
      have notLast : u ≠ xs.getLastD 0 := by
        rcases getLastD_mem_or xs 0 with inXs | rfl
        · exact fun eq => outside.2 (List.mem_append_left _ (eq ▸ inXs))
        · exact nonzero
      have notFirst : u ≠ ys.headD 0 := by
        rcases headD_mem_or ys 0 with inYs | rfl
        · exact fun eq => outside.2 (List.mem_append_right _ (eq ▸ inYs))
        · exact nonzero
      rw [next u nonzero, prev u nonzero, if_neg outside.1, if_neg outside.1, if_neg notLast,
        if_neg notFirst]
      exact loose.loose u outside.2 nonzero

theorem Loose.startList (loose : s.Loose [] t) : LinkedIn s (s.startList t) t [] [] := by
  have same : SameStamps s (s.startList t) := by
    unfold Timers.startList
    refine .putTarget (.put (.putHead (.refl s)) ?_ ?_)
    · rfl
    · rfl
  apply loose.linkedIn same
  · intro u
    by_cases self : u = t <;> simp [Timers.startList, put_timer, self]
  · intro u nonzero
    by_cases self : u = t <;> simp [Timers.startList, put_timer, self, nonzero]
  · intro u nonzero
    by_cases self : u = t <;> simp [Timers.startList, put_timer, self, nonzero]
  · rfl
  · simp [Timers.startList, put_timer]

theorem Loose.linkBefore (loose : s.Loose (xs ++ n :: ys) t) :
    LinkedIn s (s.linkBefore t n) t xs (n :: ys) := by
  have inList : n ∈ xs ++ n :: ys := List.mem_append_right _ (.head _)
  have apart : n ≠ t := fun same => loose.fresh (same ▸ inList)
  have back : (s.timer n).prev = xs.getLastD 0 := (segment_append.mp loose.list.segment).2.2.1
  have lastNe : xs.getLastD 0 ≠ t := by
    rcases getLastD_mem_or xs 0 with inXs | rfl
    · exact fun same => loose.fresh (List.mem_append_left _ (same ▸ inXs))
    · exact loose.nonzero.symm
  have emptyIff : xs.getLastD 0 = 0 ↔ xs = [] := by
    refine ⟨fun zero => ?_, fun empty => by rw [empty]; rfl⟩
    rcases getLastD_mem_or xs 0 with inXs | empty
    · exact absurd zero (loose.list.ne_zero (List.mem_append_left _ inXs))
    · exact empty
  have same : SameStamps s (s.linkBefore t n) := by
    have linked : SameStamps s
        (((s.putNext t n).putPrev t ((s.putNext t n).timer n).prev).putPrev n t) :=
      .putPrev (.putPrev (.putNext (.refl s)))
    exact .ite linked.putNext (.putTarget linked.putHead)
  obtain ⟨p, last⟩ : ∃ p, xs.getLastD 0 = p := ⟨_, rfl⟩
  rw [last] at back lastNe emptyIff
  apply loose.linkedIn same
  · intro u
    by_cases first : p = 0 <;> simp [Timers.linkBefore, apart.symm, back, first]
  · intro u nonzero
    rw [last]
    by_cases first : p = 0 <;> by_cases self : u = t <;>
      simp [Timers.linkBefore, apart.symm, back, first, self, lastNe.symm, nonzero]
  · intro u nonzero
    rw [last]
    by_cases first : p = 0 <;> by_cases self : u = t <;>
      simp [Timers.linkBefore, apart.symm, back, first, self]
  · simp only [← emptyIff]
    by_cases first : p = 0 <;> simp [Timers.linkBefore, apart.symm, back, first]
  · simp only [← emptyIff]
    by_cases first : p = 0 <;> simp [Timers.linkBefore, apart.symm, back, first]

theorem Loose.linkLast (loose : s.Loose (xs ++ [n]) t) :
    LinkedIn s (s.linkLast t n) t (xs ++ [n]) [] := by
  have inList : n ∈ xs ++ [n] := List.mem_append_right _ (.head _)
  have apart : n ≠ t := fun same => loose.fresh (same ▸ inList)
  have last : (xs ++ [n]).getLastD 0 = n := by simp
  have free := loose.loose t loose.fresh loose.nonzero
  have loose' : s.Loose ((xs ++ [n]) ++ []) t := by
    rw [List.append_nil]
    exact loose
  apply loose'.linkedIn (.putPrev (.putNext (.refl s)))
  · intro u
    simp
  · intro u nonzero
    rw [last]
    by_cases self : u = t
    · simp [self, apart.symm, free.1]
    · simp [self]
  · intro u nonzero
    rw [last]
    by_cases self : u = t
    · simp [self]
    · simp [self, nonzero]
  · simp
  · simp

/-- The loop of `timer_enable`, entered at a node of the list when the timer expires after all the
nodes before it, links the timer in front of the first node that does not expire before it. -/
theorem Loose.insertFrom (loose : s.Loose l t) (fuel : Nat) : ∀ {xs n ys}, l = xs ++ n :: ys →
    (∀ u ∈ xs, s.lessThan t u = false) → ys.length < fuel →
    ∃ s' us vs, s.insertFrom t fuel n = some s' ∧ l = us ++ vs ∧ LinkedIn s s' t us vs ∧
      (∀ u ∈ us, s.lessThan t u = false) ∧ ∀ u ∈ vs.head?, s.lessThan t u = true := by
  induction fuel with
  | zero => exact fun _ _ enough => absurd enough (Nat.not_lt_zero _)
  | succ fuel ih =>
    intro xs n ys split after enough
    subst split
    have inList : n ∈ xs ++ n :: ys := List.mem_append_right _ (.head _)
    have valid : s.valid n = true := by
      simp [Timers.valid, loose.list.ne_zero inList, loose.magic n (.tail _ inList)]
    have forth : (s.timer n).next = ys.headD 0 := (segment_append.mp loose.list.segment).2.2.2.1
    simp only [Timers.insertFrom, valid, forth]
    by_cases before : s.lessThan t n = true
    · refine ⟨_, xs, n :: ys, ?_, rfl, loose.linkBefore, after, ?_⟩
      · simp [before]
      · simpa using before
    · have later : s.lessThan t n = false := by simpa using before
      have after' : ∀ u ∈ xs ++ [n], s.lessThan t u = false := by
        intro u inFirst
        rcases List.mem_append.mp inFirst with inXs | isN
        · exact after u inXs
        · rw [List.mem_singleton.mp isN, later]
      cases ys with
      | nil =>
        refine ⟨_, xs ++ [n], [], ?_, by simp, loose.linkLast, after', by simp⟩
        simp [later]
      | cons m ys =>
        have nonzero : m ≠ 0 := loose.list.ne_zero (by simp)
        have shorter : ys.length < fuel := by
          simp only [List.length_cons] at enough
          omega
        have split : xs ++ n :: m :: ys = (xs ++ [n]) ++ m :: ys := by simp
        obtain ⟨s', us, vs, run, rest⟩ := ih split after' shorter
        refine ⟨s', us, vs, ?_, rest⟩
        simpa [later, nonzero] using run

/-- `timer_enable` ends and never calls `fatal`: the timer is linked in behind the timers that
expire before it. -/
theorem Linked.insert (linked : s.Linked l) (fresh : t ∉ l) (nonzero : t ≠ 0)
    (magic : (s.timer t).magic = timerMagic) (known : t ≤ s.count) :
    ∃ s' us vs, s.insert t = some s' ∧ l = us ++ vs ∧ LinkedIn s s' t us vs ∧
      (∀ u ∈ us, s.lessThan t u = false) ∧ ∀ u ∈ vs.head?, s.lessThan t u = true := by
  have loose := linked.enable fresh nonzero magic known
  have same : SameStamps s (s.put t fun timer => { timer with enabled := true }) :=
    .put (.refl s) rfl rfl
  have order (u : Nat) : (s.put t fun timer => { timer with enabled := true }).lessThan t u =
      s.lessThan t u := by
    simp only [lessThan, same.stamp]
  have free := linked.loose t fresh nonzero
  have headEq := linked.list.head_eq
  unfold Timers.insert
  rw [if_neg (by simp [free])]
  cases l with
  | nil =>
    obtain ⟨linked', same', target⟩ := loose.startList
    refine ⟨_, [], [], ?_, rfl, ⟨linked', same.trans same', ?_⟩, by simp, by simp⟩
    · exact if_pos headEq
    · rw [target, same.stamp]
      rfl
  | cons n ys =>
    have headNe : n ≠ 0 := linked.ne_zero (.head _)
    have enough : ys.length < s.count := linked.length_le
    obtain ⟨s', us, vs, run, split, ⟨linked', same', target⟩, after, before⟩ :=
      loose.insertFrom s.count (List.nil_append _).symm (by simp) enough
    refine ⟨s', us, vs, ?_, split, ⟨linked', same.trans same', ?_⟩, ?_, ?_⟩
    · simp only [put_timerHead, headEq, List.headD_cons]
      rw [if_neg headNe]
      exact run
    · rw [target, same.stamp]
      rfl
    · exact fun u inFirst => order u ▸ after u inFirst
    · exact fun u isHead => order u ▸ before u isHead

end Link

end Timers

end PCemWeb.Timer
