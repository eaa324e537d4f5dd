import PCemWeb.Timer.TimerLinks

/-!
# The timer queue over whole runs

While the expiries of the enabled timers, the time stamp counter and the target stay within one
stretch of half the 32-bit range, the list of enabled timers is sorted by expiry and
`timer_process` serves exactly the due timers, earliest first.
-/

namespace PCemWeb.Timer

open Lib

namespace Timers

variable {s s' : Timers} {t u : Nat} {l : List Nat}

/-- The list headed by `timer_head` is doubly linked, has exactly the enabled timers and is
ordered by expiry. -/
def Queued (s : Timers) : Prop :=
  ∃ l, s.Linked l ∧ l.Pairwise fun a b => s.lessThan a b = true

/-- While a timer is enabled, the target is not after the head's expiry. -/
def Targeted (s : Timers) : Prop :=
  s.timerHead ≠ 0 → SerialLe s.timerTarget (s.timer s.timerHead).tsInteger

/-- Every enabled timer's expiry, the time stamp counter and, while a timer is enabled, the target
are within the `2^31` cycles from `b`. -/
structure Within (s : Timers) (b : BitVec 32) : Prop where
  stamp : ∀ t ≤ s.count, (s.timer t).enabled = true → InHalf b (s.timer t).tsInteger
  tsc : InHalf b s.tsc32
  target : s.timerHead ≠ 0 → InHalf b s.timerTarget

/-- The expiries, the time stamp counter and the target are within one stretch of `2^31`
cycles. -/
def Timely (s : Timers) : Prop := ∃ b, s.Within b

/-- Every enabled timer is among those that `timer_reset` visits. -/
def Registered (s : Timers) : Prop := ∀ t ≤ s.count, (s.timer t).enabled = true → t ∈ s.allTimers

/-- No timer that a call would look at has a link. -/
def Clean (s : Timers) : Prop :=
  s.timerHead = 0 ∧ ∀ t, s.valid t = true → (s.timer t).enabled = false ∧ (s.timer t).next = 0 ∧
    (s.timer t).prev = 0

/-- The enabled timer `t` is due. -/
def Due (s : Timers) (t : Nat) : Prop :=
  (s.timer t).enabled = true ∧ s.lessThanVal t s.tsc32 = true

/-- A turn of `timer_process` calls back the earliest timer, which is due and then no longer
enabled, or it ends the call and leaves no timer due. -/
def Serves (s s' : Timers) : Prop :=
  (s.Due s.timerHead ∧ (∀ u, (s.timer u).enabled = true → s.lessThan s.timerHead u = true) ∧
      (s'.timer s.timerHead).enabled = false ∧ s'.active = .inCallback :: s.active.tail) ∨
    ((∀ t, ¬ s'.Due t) ∧ s'.active = s.active.tail)

/-! ## One call -/

/-- The list of the enabled timers, sorted, with the target before all of it. -/
structure Ordered (s : Timers) (l : List Nat) : Prop where
  linked : s.Linked l
  sorted : l.Pairwise fun a b => s.lessThan a b = true
  target : ∀ t ∈ l, SerialLe s.timerTarget (s.timer t).tsInteger

/-- `Ordered`, but for the expiry of `t`. -/
structure OrderedBut (s : Timers) (l : List Nat) (t : Nat) : Prop where
  linked : s.Linked l
  sorted : (l.erase t).Pairwise fun a b => s.lessThan a b = true
  target : ∀ u ∈ l.erase t, SerialLe s.timerTarget (s.timer u).tsInteger

theorem SameStamps.lessThan (same : SameStamps s s') (a b : Nat) :
    s'.lessThan a b = s.lessThan a b := by
  simp only [Timers.lessThan, same.stamp]

theorem Ordered.but (ordered : s.Ordered l) (t : Nat) : s.OrderedBut l t where
  linked := ordered.linked
  sorted := ordered.sorted.sublist List.erase_sublist
  target u inRest := ordered.target u (List.mem_of_mem_erase inRest)

theorem Ordered.queued (ordered : s.Ordered l) : s.Queued := ⟨l, ordered.linked, ordered.sorted⟩

theorem Ordered.targeted (ordered : s.Ordered l) : s.Targeted := fun nonempty =>
  ordered.target _ (ordered.linked.list.head_mem nonempty)

/-- A state with the same list, expiries and target. -/
theorem OrderedBut.congr (ordered : s.OrderedBut l t) (linked : s'.Linked (l.erase t))
    (same : SameStamps s s') (target : s'.timerTarget = s.timerTarget) : s'.Ordered (l.erase t) where
  linked := linked
  sorted := by
    simp only [same.lessThan]
    exact ordered.sorted
  target u inRest := by
    rw [target, same.stamp]
    exact ordered.target u inRest

theorem OrderedBut.timerDisable (ordered : s.OrderedBut l t) :
    ∃ s', s.timerDisable t = some s' ∧ s'.Ordered (l.erase t) ∧ SameStamps s s' := by
  obtain ⟨s', run, linked, same, target, -⟩ := Linked.timerDisable (t := t) ordered.linked
  exact ⟨s', run, ordered.congr linked same target, same⟩

/-- Where the timer is linked in, the list is sorted if the expiries are close. -/
theorem Ordered.linkedIn {us vs : List Nat} (ordered : s.Ordered (us ++ vs))
    (into : LinkedIn s s' t us vs) (after : ∀ u ∈ us, s.lessThan t u = false)
    (before : ∀ u ∈ vs.head?, s.lessThan t u = true) (timely : s'.Timely) :
    s'.Ordered (us ++ t :: vs) := by
  obtain ⟨b, within⟩ := timely
  have close (u : Nat) (inList : u ∈ us ++ t :: vs) : InHalf b (s.timer u).tsInteger := by
    have := within.stamp u (into.linked.known u inList) ((into.linked.mem u).mp inList)
    rwa [into.same.stamp] at this
  have closeT := close t (by simp)
  obtain ⟨sortedUs, sortedVs, across⟩ := List.pairwise_append.mp ordered.sorted
  have sortedT : ∀ v ∈ vs, s.lessThan t v = true := by
    cases vs with
    | nil => simp
    | cons v vs =>
      have first := before v rfl
      intro w inVs
      rcases List.mem_cons.mp inVs with rfl | inRest
      · exact first
      · have second := (List.pairwise_cons.mp sortedVs).1 w inRest
        simp only [Timers.lessThan, decide_eq_true_eq] at first second ⊢
        exact serialLe_trans closeT (close v (by simp)) (close w (by simp [inRest])) first second
  have usT : ∀ u ∈ us, s.lessThan u t = true := by
    intro u inUs
    have late := after u inUs
    simp only [Timers.lessThan, decide_eq_true_eq, decide_eq_false_iff_not] at late ⊢
    exact (serialLe_total (close u (by simp [inUs])) closeT).resolve_right late
  have sorted : (us ++ t :: vs).Pairwise fun a b => s.lessThan a b = true := by
    refine List.pairwise_append.mpr ⟨sortedUs, List.pairwise_cons.mpr ⟨sortedT, sortedVs⟩, ?_⟩
    intro u inUs w inRest
    rcases List.mem_cons.mp inRest with rfl | inVs
    · exact usT u inUs
    · exact across u inUs w inVs
  refine ⟨into.linked, ?_, ?_⟩
  · simp only [into.same.lessThan]
    exact sorted
  · intro u inList
    rw [into.same.stamp]
    cases us with
    | nil =>
      rw [into.target, if_pos rfl]
      rcases List.mem_cons.mp inList with rfl | inVs
      · exact serialLe_refl _
      · simpa [Timers.lessThan] using sortedT u inVs
    | cons x us =>
      have targetSame : s'.timerTarget = s.timerTarget := by
        rw [into.target, if_neg (List.cons_ne_nil x us)]
      have inX : x ∈ (x :: us) ++ t :: vs := .head _
      have nonempty : s'.timerHead ≠ 0 := by
        rw [into.linked.list.head_eq]
        exact into.linked.ne_zero inX
      have closeTarget := within.target nonempty
      rw [targetSame] at closeTarget ⊢
      rcases List.mem_append.mp inList with inUs | inRest
      · exact ordered.target u (List.mem_append_left _ inUs)
      · rcases List.mem_cons.mp inRest with rfl | inVs
        · have first := ordered.target x (.head _)
          have second := usT x (.head _)
          simp only [Timers.lessThan, decide_eq_true_eq] at second
          exact serialLe_trans closeTarget (close x inX) closeT first second
        · exact ordered.target u (List.mem_append_right _ inVs)

theorem Ordered.insert (ordered : s.Ordered l) (fresh : t ∉ l) (nonzero : t ≠ 0)
    (magic : (s.timer t).magic = timerMagic) (known : t ≤ s.count) :
    ∃ s', s.insert t = some s' ∧ (s'.Timely → ∃ l', s'.Ordered l') := by
  obtain ⟨s', us, vs, run, rfl, into, after, before⟩ :=
    ordered.linked.insert fresh nonzero magic known
  exact ⟨s', run, fun timely => ⟨_, ordered.linkedIn into after before timely⟩⟩

/-- `timer_enable`, which may be called with the timer's own expiry just changed. -/
theorem OrderedBut.timerEnable (ordered : s.OrderedBut l t) (nonzero : t ≠ 0)
    (known : t ≤ s.count) :
    ∃ s', s.timerEnable t = some s' ∧ (s'.Timely → ∃ l', s'.Ordered l') := by
  unfold Timers.timerEnable
  cases valid : s.valid t with
  | false =>
    have absent : t ∉ l := fun member => by
      rw [ordered.linked.valid member] at valid
      cases valid
    have here := ordered.congr (by rw [List.erase_of_not_mem absent]; exact ordered.linked)
      (.refl s) rfl
    exact ⟨s, rfl, fun _ => ⟨_, here⟩⟩
  | true =>
    have magic : (s.timer t).magic = timerMagic := by
      simp only [Timers.valid, Bool.and_eq_true, decide_eq_true_eq] at valid
      exact valid.2
    obtain ⟨mid, run, rest, same⟩ := ordered.timerDisable
    have fresh : t ∉ l.erase t := ordered.linked.list.nodup.not_mem_erase
    obtain ⟨s', run', result⟩ := rest.insert fresh nonzero ((same.magic t).trans magic)
      (same.count ▸ known)
    cases enabled : (s.timer t).enabled with
    | true =>
      refine ⟨s', ?_, result⟩
      simp [run, run']
    | false =>
      have unchanged : mid = s := by
        simpa [Timers.timerDisable, valid, enabled, eq_comm] using run
      refine ⟨s', ?_, result⟩
      rw [← unchanged]
      simpa using run'

/-- A timer's expiry changes. -/
theorem OrderedBut.restamp (ordered : s.OrderedBut l t) (f : PcTimer → PcTimer)
    (fields : ∀ timer, (f timer).magic = timer.magic ∧ (f timer).enabled = timer.enabled ∧
      (f timer).prev = timer.prev ∧ (f timer).next = timer.next) : (s.put t f).OrderedBut l t where
  linked := by
    have keeps (u : Nat) : ((s.put t f).timer u).magic = (s.timer u).magic ∧
        ((s.put t f).timer u).enabled = (s.timer u).enabled ∧
        ((s.put t f).timer u).prev = (s.timer u).prev ∧
        ((s.put t f).timer u).next = (s.timer u).next := by
      rw [put_timer]
      split
      · subst u
        exact fields _
      · exact ⟨rfl, rfl, rfl, rfl⟩
    have linked := ordered.linked
    refine ⟨linked.list.congr (fun u _ => (keeps u).2.2.2) fun u _ => (keeps u).2.2.1, ?_, ?_,
      linked.known, ?_⟩
    · intro u
      rw [(keeps u).2.1]
      exact linked.mem u
    · intro u member
      rw [(keeps u).1]
      exact linked.magic u member
    · intro u outside nonzero
      rw [(keeps u).2.2.1, (keeps u).2.2.2]
      exact linked.loose u outside nonzero
  sorted := by
    have others (u : Nat) (inRest : u ∈ l.erase t) : u ≠ t :=
      (ordered.linked.list.nodup.mem_erase_iff.mp inRest).1
    refine ordered.sorted.imp_of_mem fun {a b} inA inB order => ?_
    simpa only [Timers.lessThan, put_timer, if_neg (others a inA), if_neg (others b inB)] using order
  target u inRest := by
    rw [put_timer, if_neg (ordered.linked.list.nodup.mem_erase_iff.mp inRest).1]
    exact ordered.target u inRest

theorem Ordered.timerSetDelay (ordered : s.Ordered l) (delay : BitVec 64) (nonzero : t ≠ 0)
    (known : t ≤ s.count) :
    ∃ s', s.timerSetDelay t delay = some s' ∧ (s'.Timely → ∃ l', s'.Ordered l') := by
  have restamped := (ordered.but t).restamp (fun timer => { timer with
    tsFrac := delay.setWidth 32, tsInteger := (delay >>> 32).setWidth 32 + s.tsc32 })
    fun _ => ⟨rfl, rfl, rfl, rfl⟩
  exact restamped.timerEnable nonzero known

theorem Ordered.timerAdvance (ordered : s.Ordered l) (delay : BitVec 64) (nonzero : t ≠ 0)
    (known : t ≤ s.count) :
    ∃ s', s.timerAdvance t delay = some s' ∧ (s'.Timely → ∃ l', s'.Ordered l') := by
  have advance {mid : Timers} (ordered : mid.OrderedBut l t) (known : t ≤ mid.count) :=
    (ordered.restamp (fun timer => { timer with
      tsFrac := timer.tsFrac + delay.setWidth 32
      tsInteger := timer.tsInteger + (delay >>> 32).setWidth 32 })
      fun _ => ⟨rfl, rfl, rfl, rfl⟩).timerEnable nonzero known
  unfold Timers.timerAdvance
  dsimp only
  split
  · have carried := (ordered.but t).restamp
      (fun timer => { timer with tsInteger := timer.tsInteger + 1 }) fun _ => ⟨rfl, rfl, rfl, rfl⟩
    exact advance carried known
  · exact advance (ordered.but t) known

/-- `timer_add` clears the timer, which is not in the list by then. -/
theorem Ordered.register (ordered : s.Ordered l) (absent : t ∉ l) : (s.register t).Ordered l := by
  have timer (u : Nat) : (s.register t).timer u =
      if u = t then { PcTimer.zero with magic := timerMagic } else s.timer u := by
    unfold Timers.register
    dsimp only
    split <;> exact Function.update_apply _ _ _ _
  have others : (s.register t).timerHead = s.timerHead ∧
      (s.register t).timerTarget = s.timerTarget ∧ (s.register t).count = s.count := by
    unfold Timers.register
    dsimp only
    split <;> exact ⟨rfl, rfl, rfl⟩
  have inList (u : Nat) (member : u ∈ l) : (s.register t).timer u = s.timer u := by
    rw [timer, if_neg fun (same : u = t) => absent (same ▸ member)]
  have linked := ordered.linked
  constructor
  · constructor
    · rw [others.1]
      exact linked.list.congr (fun u member => by rw [inList u member])
        fun u member => by rw [inList u member]
    · intro u
      rw [timer]
      split
      · subst u
        simp [absent, PcTimer.zero]
      · exact linked.mem u
    · intro u member
      rw [inList u member]
      exact linked.magic u member
    · intro u member
      rw [others.2.2]
      exact linked.known u member
    · intro u outside nonzero
      rw [timer]
      split
      · exact ⟨rfl, rfl⟩
      · exact linked.loose u outside nonzero
  · refine ordered.sorted.imp_of_mem fun {a b} inA inB order => ?_
    simpa only [Timers.lessThan, inList a inA, inList b inB] using order
  · intro u member
    rw [inList u member, others.2.1]
    exact ordered.target u member

theorem Ordered.timerAdd (ordered : s.Ordered l) (startTimer : Bool) (nonzero : t ≠ 0)
    (known : t ≤ s.count) :
    ∃ s', s.timerAdd t startTimer = some s' ∧ (s'.Timely → ∃ l', s'.Ordered l') := by
  have added {mid : Timers} {l : List Nat} (ordered : mid.Ordered l) (absent : t ∉ l)
      (known : t ≤ mid.count) : ∃ s', (if startTimer then (mid.register t).timerSetDelay t 0
        else some (mid.register t)) = some s' ∧ (s'.Timely → ∃ l', s'.Ordered l') := by
    have registered := ordered.register absent
    have known' : t ≤ (mid.register t).count := by
      unfold Timers.register
      dsimp only
      split <;> exact known
    cases startTimer with
    | true => exact registered.timerSetDelay 0 nonzero known'
    | false => exact ⟨_, rfl, fun _ => ⟨l, registered⟩⟩
  unfold Timers.timerAdd
  by_cases linked : (s.timer t).magic = timerMagic ∧ (s.timer t).enabled = true
  · obtain ⟨mid, run, rest, same⟩ := (ordered.but t).timerDisable
    obtain ⟨s', run', result⟩ := added rest ordered.linked.list.nodup.not_mem_erase
      (same.count ▸ known)
    refine ⟨s', ?_, result⟩
    simp only [linked.1, linked.2, decide_true, Bool.and_self, if_true, run]
    exact run'
  · have absent : t ∉ l := fun member =>
      linked ⟨ordered.linked.magic t member, (ordered.linked.mem t).mp member⟩
    obtain ⟨s', run', result⟩ := added ordered absent known
    refine ⟨s', ?_, result⟩
    have skipped : ((s.timer t).magic = timerMagic && (s.timer t).enabled) = false := by
      simpa using linked
    rw [skipped]
    exact run'

/-- `timer_reset` disables every timer and clears its links, if it visits the enabled ones. -/
theorem Linked.forget (linked : s.Linked l) (registered : s.Registered) (t : Nat) :
    (s.forget s.timer t).enabled = false ∧
      (t ≠ 0 → (s.forget s.timer t).next = 0 ∧ (s.forget s.timer t).prev = 0) := by
  unfold Timers.forget
  split
  · exact ⟨rfl, fun _ => ⟨rfl, rfl⟩⟩
  · rename_i skipped
    have absent : t ∉ l := fun member => skipped
      ⟨registered t (linked.known t member) ((linked.mem t).mp member), linked.ne_zero member,
        linked.magic t member⟩
    exact ⟨by simpa using (linked.mem t).not.mp absent, linked.loose t absent⟩

theorem Ordered.timerReset (ordered : s.Ordered l) (registered : s.Registered) :
    s.timerReset.Ordered [] ∧ s.timerReset.Clean := by
  have forgotten := ordered.linked.forget registered
  refine ⟨⟨⟨.nil, fun t => ?_, by simp, by simp, fun t _ nonzero => ?_⟩, .nil, by simp⟩, rfl, ?_⟩
  · have idle : (s.timerReset.timer t).enabled = false := (forgotten t).1
    simp [idle]
  · exact (forgotten t).2 nonzero
  · intro t valid
    have nonzero : t ≠ 0 := by
      rintro rfl
      simp [Timers.valid] at valid
    exact ⟨(forgotten t).1, (forgotten t).2 nonzero⟩

/-! ## Processing -/

/-- The head is removed as `timer_disable` would remove it. -/
theorem Linked.timerRemoveHead (linked : s.Linked l) (nonempty : s.timerHead ≠ 0) :
    s.timerRemoveHead = s.unlink s.timerHead := by
  have member := linked.list.head_mem nonempty
  have headEq := linked.list.head_eq
  have first : (s.timer s.timerHead).prev = 0 := by
    cases l with
    | nil => cases member
    | cons h rest =>
      obtain rfl : s.timerHead = h := headEq
      exact linked.list.segment.2.1
  have nextNe : (s.timer s.timerHead).next ≠ s.timerHead := linked.list.next_ne member
  by_cases last : (s.timer s.timerHead).next = 0
  · have removed : s.timerRemoveHead = (s.putHead 0).put s.timerHead fun timer =>
        { timer with prev := 0, next := 0, enabled := false } := by
      simp [Timers.timerRemoveHead, last]
    have unlinked : s.unlink s.timerHead = (s.putHead 0).put s.timerHead fun timer =>
        { timer with prev := 0, next := 0, enabled := false } := by
      simp [Timers.unlink, put, putHead, first, last]
    rw [removed, unlinked]
  · have valid : s.valid (s.timer s.timerHead).next = true :=
      linked.valid ((linked.list.next_mem member).resolve_left last)
    have valid' : (s.putHead (s.timer s.timerHead).next).valid (s.timer s.timerHead).next = true :=
      valid
    have removed : s.timerRemoveHead =
        ((s.putHead (s.timer s.timerHead).next).putPrev (s.timer s.timerHead).next 0).put
          s.timerHead fun timer => { timer with prev := 0, next := 0, enabled := false } := by
      simp [Timers.timerRemoveHead, last, valid']
    rw [removed]
    simp only [Timers.unlink, put, putHead, putPrev, Function.update_self, first]
    simp only [ne_eq, not_true_eq_false, if_false, last, not_false_eq_true, if_true,
      Function.update_self, Function.update_of_ne nextNe]
    congr 1
    funext u
    by_cases self : u = s.timerHead
    · subst self
      simp [nextNe.symm]
    · simp [Function.update_apply, self]

theorem Ordered.timerRemoveHead (ordered : s.Ordered l) (nonempty : s.timerHead ≠ 0) :
    s.timerRemoveHead.Ordered (l.erase s.timerHead) := by
  rw [ordered.linked.timerRemoveHead nonempty]
  have member := ordered.linked.list.head_mem nonempty
  exact (ordered.but _).congr (ordered.linked.unlink member) .unlink unlink_timerTarget

/-- The links do not depend on the target or on the active calls. -/
theorem Linked.congr (linked : s.Linked l) (timer : s'.timer = s.timer) (count : s'.count = s.count)
    (head : s'.timerHead = s.timerHead) : s'.Linked l := by
  constructor
  · rw [timer, head]
    exact linked.list
  · rw [timer]
    exact linked.mem
  · rw [timer]
    exact linked.magic
  · rw [count]
    exact linked.known
  · rw [timer]
    exact linked.loose

/-- The head expires first. -/
theorem Ordered.head_first (ordered : s.Ordered l) {u : Nat} (member : u ∈ l) :
    s.lessThan s.timerHead u = true := by
  have headEq := ordered.linked.list.head_eq
  have sorted := ordered.sorted
  cases l with
  | nil => cases member
  | cons h rest =>
    obtain rfl : s.timerHead = h := headEq
    rcases List.mem_cons.mp member with rfl | inRest
    · simp [Timers.lessThan, serialLe_refl]
    · exact (List.pairwise_cons.mp sorted).1 u inRest

theorem Ordered.activate (ordered : s.Ordered l) (active : List Activation) :
    ({ s with active } : Timers).Ordered l :=
  ⟨ordered.linked.congr rfl rfl rfl, ordered.sorted, ordered.target⟩

/-- The end of `timer_process` moves the target to the head's expiry. -/
theorem Ordered.finish (ordered : s.Ordered l) (rest : List Activation) :
    (s.finish rest).Ordered l := by
  unfold Timers.finish
  apply Ordered.activate
  split
  · refine ⟨ordered.linked.congr rfl rfl rfl, ordered.sorted, fun t member => ?_⟩
    simpa [Timers.lessThan] using ordered.head_first member
  · exact ordered

/-- In time, no timer is due when the earliest is not. -/
theorem Ordered.not_due (ordered : s.Ordered l) (timely : s.Timely)
    (early : s.timerHead ≠ 0 → s.lessThanVal s.timerHead s.tsc32 = false) (t : Nat) : ¬ s.Due t := by
  rintro ⟨enabled, due⟩
  obtain ⟨b, within⟩ := timely
  have member := (ordered.linked.mem t).mpr enabled
  have nonempty : s.timerHead ≠ 0 := by
    intro zero
    have headEq := ordered.linked.list.head_eq
    rw [zero] at headEq
    cases l with
    | nil => cases member
    | cons h rest => exact ordered.linked.ne_zero (.head _) headEq.symm
  have headIn := ordered.linked.list.head_mem nonempty
  have notYet := early nonempty
  have first := ordered.head_first member
  have close (u : Nat) (inList : u ∈ l) :=
    within.stamp u (ordered.linked.known u inList) ((ordered.linked.mem u).mp inList)
  simp only [lessThanVal, Timers.lessThan, decide_eq_true_eq, decide_eq_false_iff_not] at due first notYet
  exact notYet (serialLe_trans (close _ headIn) (close t member) within.tsc first due)

/-- One turn of `timer_process`. -/
theorem Ordered.turn (ordered : s.Ordered l) :
    (∃ l', (s.turn s.active.tail).Ordered l') ∧
      ((s.turn s.active.tail).Timely → s.Serves (s.turn s.active.tail)) := by
  unfold Timers.turn
  have finished := ordered.finish s.active.tail
  have ended (early : s.timerHead ≠ 0 → s.lessThanVal s.timerHead s.tsc32 = false)
      (timely : (s.finish s.active.tail).Timely) : s.Serves (s.finish s.active.tail) := by
    refine .inr ⟨finished.not_due timely ?_, ?_⟩
    · unfold Timers.finish
      split <;> exact early
    · rfl
  by_cases empty : s.timerHead = 0
  · rw [if_pos empty]
    exact ⟨⟨l, finished⟩, ended fun nonempty => absurd empty nonempty⟩
  rw [if_neg empty]
  have member := ordered.linked.list.head_mem empty
  have valid := ordered.linked.valid member
  rw [if_neg (by simp [valid])]
  cases due : s.lessThanVal s.timerHead s.tsc32 with
  | false =>
    rw [if_pos (show (!false) = true from rfl)]
    exact ⟨⟨l, finished⟩, ended fun _ => due⟩
  | true =>
    rw [if_neg (by simp)]
    refine ⟨⟨_, (ordered.timerRemoveHead empty).activate _⟩, fun _ => .inl ⟨?_, ?_, ?_, rfl⟩⟩
    · exact ⟨(ordered.linked.mem _).mp member, due⟩
    · exact fun u enabled => ordered.head_first ((ordered.linked.mem u).mpr enabled)
    · simp [Timers.timerRemoveHead, put_timer]

/-! ## Runs -/

/-- The calls that keep to the design: the expiries stay within one stretch of `2^31` cycles, and
`timer_reset` visits every enabled timer. -/
def Kept (s : Timers) (call : Call) : Prop :=
  (∀ s', s.step call = some s' → s'.Timely) ∧ (call = .timerReset → s.Registered)

theorem step_eq {call : Call} (stepEq : s.step call = some s') :
    s.admits call = true ∧ s.run call = some s' := by
  unfold step at stepEq
  split at stepEq
  · exact ⟨‹_›, stepEq⟩
  · cases stepEq

theorem Ordered.initial (count : Nat) : (initial count).Ordered [] :=
  ⟨⟨.nil, by simp [Timers.initial, PcTimer.zero], by simp, by simp, fun _ _ _ => ⟨rfl, rfl⟩⟩, .nil,
    by simp⟩

/-- Every admitted call returns, and keeps the list in order. -/
theorem Ordered.run (ordered : s.Ordered l) {call : Call} (admits : s.admits call = true)
    (registered : call = .timerReset → s.Registered) :
    ∃ s', s.run call = some s' ∧ (s'.Timely → ∃ l', s'.Ordered l') := by
  have known {t : Nat} (inRange : call.timer = some t) (other : s.admits call =
      (s.active.head? ≠ some .looping && call.timer.all fun t => 0 < t && t ≤ s.count)) :
      t ≠ 0 ∧ t ≤ s.count := by
    rw [other, inRange] at admits
    simp only [Option.all_some, Bool.and_eq_true, decide_eq_true_eq] at admits
    exact ⟨Nat.pos_iff_ne_zero.mp admits.2.1, admits.2.2⟩
  cases call with
  | timerAdd t startTimer =>
    obtain ⟨nonzero, inRange⟩ := known rfl rfl
    exact ordered.timerAdd startTimer nonzero inRange
  | timerSetDelay t delay =>
    obtain ⟨nonzero, inRange⟩ := known rfl rfl
    exact ordered.timerSetDelay delay nonzero inRange
  | timerAdvance t delay =>
    obtain ⟨nonzero, inRange⟩ := known rfl rfl
    exact ordered.timerAdvance delay nonzero inRange
  | timerEnable t =>
    obtain ⟨nonzero, inRange⟩ := known rfl rfl
    exact (ordered.but t).timerEnable nonzero inRange
  | timerDisable t =>
    obtain ⟨s', run, rest, -⟩ := (ordered.but t).timerDisable
    exact ⟨s', run, fun _ => ⟨_, rest⟩⟩
  | timerReset => exact ⟨_, rfl, fun _ => ⟨[], (ordered.timerReset (registered rfl)).1⟩⟩
  | timerProcess => exact ⟨_, rfl, fun _ => ⟨l, ordered.activate _⟩⟩
  | turn => exact ⟨_, rfl, fun _ => ordered.turn.1⟩
  | callbackReturns => exact ⟨_, rfl, fun _ => ⟨l, ordered.activate _⟩⟩
  | setTsc tsc =>
    exact ⟨_, rfl, fun _ => ⟨l, ordered.linked.congr rfl rfl rfl, ordered.sorted, ordered.target⟩⟩

/-- In every state that a run of kept calls reaches, the list is in order. -/
theorem ordered_of_run {count : Nat} (run : RunOk step Kept (initial count) s) :
    ∃ l, s.Ordered l := by
  have keeps {s s' : Timers} {call : Call} (before : ∃ l, s.Ordered l) (kept : Kept s call)
      (stepEq : s.step call = some s') : ∃ l, s'.Ordered l := by
    obtain ⟨l, ordered⟩ := before
    obtain ⟨timely, registered⟩ := kept
    obtain ⟨admits, run⟩ := step_eq stepEq
    obtain ⟨next, run', result⟩ := ordered.run admits registered
    cases run.symm.trans run'
    exact result (timely _ stepEq)
  exact run.invariant ⟨[], .initial count⟩ keeps

/-- In every state that a run of kept calls reaches, the list is doubly linked, has exactly the
enabled timers and is ordered by expiry, with the target not after the head; every call returns;
a turn of `timer_process` serves the earliest timer if it is due and otherwise leaves none due; and
after `timer_reset` there is no link to follow. -/
theorem queue_of_run {count : Nat} (run : RunOk step Kept (initial count) s) :
    s.Queued ∧ s.Targeted ∧
      (∀ s', s.step .turn = some s' → s'.Timely → s.Serves s') ∧
      (∀ s', s.step .timerReset = some s' → s.Registered → s'.Clean) ∧
      ∀ call, s.admits call = true → (call = .timerReset → s.Registered) →
        (s.run call).isSome = true := by
  obtain ⟨l, ordered⟩ := ordered_of_run run
  refine ⟨ordered.queued, ordered.targeted, fun s' stepEq timely => ?_, fun s' stepEq registered => ?_,
    fun call admits registered => ?_⟩
  · cases (step_eq stepEq).2
    exact ordered.turn.2 timely
  · cases (step_eq stepEq).2
    exact (ordered.timerReset registered).2
  · obtain ⟨s', run, -⟩ := ordered.run admits registered
    rw [run]
    rfl

instance (s : Timers) (b : BitVec 32) : Decidable (s.Within b) :=
  decidable_of_iff ((∀ t ≤ s.count, (s.timer t).enabled = true → InHalf b (s.timer t).tsInteger) ∧
      InHalf b s.tsc32 ∧ (s.timerHead ≠ 0 → InHalf b s.timerTarget))
    ⟨fun ⟨stamp, tsc, target⟩ => ⟨stamp, tsc, target⟩, fun w => ⟨w.stamp, w.tsc, w.target⟩⟩

instance (s : Timers) : Decidable s.Registered :=
  inferInstanceAs (Decidable (∀ t ≤ s.count, (s.timer t).enabled = true → t ∈ s.allTimers))

/-- The stretch around the time stamp counter contains everything after the call. -/
def keptNow (s : Timers) (call : Call) : Bool :=
  (s.step call).all (fun s' => s'.Within (s'.tsc32 - 0x40000000)) &&
    match call with
    | .timerReset => s.Registered
    | _ => true

theorem kept_of_keptNow (s : Timers) (call : Call) (kept : s.keptNow call = true) :
    s.Kept call := by
  simp only [keptNow, Bool.and_eq_true] at kept
  refine ⟨fun s' stepEq => ?_, ?_⟩
  · rw [stepEq] at kept
    exact ⟨_, of_decide_eq_true kept.1⟩
  · rintro rfl
    exact of_decide_eq_true kept.2

/-- Two timers, of which one is due and set again in its callback. -/
def twoTimers : List Call :=
  [.timerAdd 1 false, .timerAdd 2 false, .timerSetDelay 1 (10#64 <<< 32),
    .timerSetDelay 2 (30#64 <<< 32), .setTsc 12, .timerProcess, .turn, .timerAdvance 1 (10#64 <<< 32),
    .callbackReturns, .turn]

theorem queue_twoTimers : ∃ s, exec step (initial 2) twoTimers = some s ∧ s.timerHead = 1 ∧
    s.timerTarget = 20 ∧ s.Queued ∧ s.Targeted := by
  have run : (execOk step keptNow (initial 2) twoTimers).any
      (fun s => s.timerHead = 1 && s.timerTarget = 20) = true := by decide +kernel
  obtain ⟨s, done, ended⟩ := (Option.any_eq_true ..).mp run
  simp only [Bool.and_eq_true, decide_eq_true_eq] at ended
  obtain ⟨queued, targeted, -⟩ := queue_of_run (RunOk.of_execOk kept_of_keptNow done)
  exact ⟨s, exec_of_execOk done, ended.1, ended.2, queued, targeted⟩

/-- While neither has wrapped, every enabled timer's expiry is within `2^31` cycles of the time
stamp counter. -/
def near (s : Timers) : Bool :=
  ∀ t ≤ s.count, (s.timer t).enabled = true →
    ((s.timer t).tsInteger.toNat : Int) - s.tsc.toNat < 0x80000000 ∧
      (s.tsc.toNat : Int) - (s.timer t).tsInteger.toNat < 0x80000000

/-- One timer nearly `2^31` cycles overdue and one nearly `2^31` cycles ahead. -/
def farApart : List Call :=
  [.timerAdd 1 false, .timerAdd 2 false, .timerSetDelay 1 (10#64 <<< 32), .setTsc 0x7fffffff,
    .timerSetDelay 2 (0x7fffffff#64 <<< 32), .timerProcess, .turn]

/-- `timer_process` ends with a timer due, although every expiry is within `2^31` cycles of the
time stamp counter after each call. -/
theorem not_queue_farApart : ∃ s,
    execOk step (fun s call => (s.step call).all near) (initial 2) farApart = some s ∧
      s.active = [] ∧ s.Due 1 ∧ (s.timer 1).tsInteger.toNat < s.tsc.toNat := by
  have run : (execOk step (fun s call => (s.step call).all near) (initial 2) farApart).any
      (fun s => s.active = [] && ((s.timer 1).enabled && s.lessThanVal 1 s.tsc32) &&
        decide ((s.timer 1).tsInteger.toNat < s.tsc.toNat)) = true := by decide +kernel
  obtain ⟨s, done, ended⟩ := (Option.any_eq_true ..).mp run
  simp only [Bool.and_eq_true, decide_eq_true_eq] at ended
  exact ⟨s, done, ended.1.1, ended.1.2, ended.2⟩

end Timers

end PCemWeb.Timer
