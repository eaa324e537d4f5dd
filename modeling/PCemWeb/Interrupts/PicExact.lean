import PCemWeb.Interrupts.Pic

/-!
# Priority of the interrupt controllers

`Acknowledged` is what an acknowledgement should do: serve the first request in fully nested
order that no request in service holds off, and leave the other requests alone. The code does so
when the second controller's request is not preferred over lines 0 and 1 and its line is not
also pending on the first controller (`AckClear`).
-/

namespace PCemWeb.Interrupts

open PCemWeb.Lib

/-! ## Bits -/

theorem getLsbD_bit {c k : Nat} (inRange : k < 8) : (bit c).getLsbD k = decide (k = c) := by
  unfold bit
  rw [BitVec.getLsbD_shiftLeft, BitVec.getLsbD_one]
  by_cases same : k = c
  · subst same
    simp [inRange]
  · rcases Nat.lt_or_ge k c with below | above
    · simp [below, same]
    · have apart : k - c ≠ 0 := by omega
      simp [same, apart]

theorem getLsbD_or_bit (v : BitVec 8) {c k : Nat} (inRange : k < 8) :
    (v ||| bit c).getLsbD k = (v.getLsbD k || decide (k = c)) := by
  rw [BitVec.getLsbD_or, getLsbD_bit inRange]

theorem getLsbD_and_not_bit (v : BitVec 8) {c k : Nat} (inRange : k < 8) :
    (v &&& ~~~bit c).getLsbD k = (v.getLsbD k && !decide (k = c)) := by
  rw [BitVec.getLsbD_and, BitVec.getLsbD_not, getLsbD_bit inRange, decide_eq_true inRange,
    Bool.true_and]

theorem and_bit_eq_zero {v : BitVec 8} {c : Nat} (inRange : c < 8) :
    v &&& bit c = 0 ↔ v.getLsbD c = false := by
  constructor
  · intro clear
    have here := congrArg (·.getLsbD c) clear
    simpa [BitVec.getLsbD_and, getLsbD_bit inRange] using here
  · intro clear
    refine BitVec.eq_of_getLsbD_eq fun k kRange => ?_
    rw [BitVec.getLsbD_and, getLsbD_bit kRange]
    by_cases same : k = c
    · simp [same, clear]
    · simp [same]

theorem exists_getLsbD {v : BitVec 8} (nonzero : v ≠ 0) : ∃ k < 8, v.getLsbD k = true := by
  cases found : lowest v with
  | none => exact absurd (lowest_eq_none.mp found) nonzero
  | some c =>
    have set := (lowest_eq_some.mp found).1
    exact ⟨c, BitVec.lt_of_getLsbD set, set⟩

/-! ## What should be served -/

/-- A request that the guest does not mask. -/
def Pic.Requests (p : Pic) (k : Nat) : Prop :=
  p.pend.getLsbD k = true ∧ p.mask.getLsbD k = false

/-- A level is held off by an equal or higher one in service. -/
def Pic.Held (p : Pic) (k : Nat) : Prop := ∃ c ≤ k, p.ins.getLsbD c = true

/-- `mask2` is what `ins` gives. -/
def Pic.Derived (p : Pic) : Prop := p.mask2 = fromLowest p.ins

namespace Pics

/-- The lines that may be served: 0 to 7 but the cascade, and 8 to 15 through the cascade. -/
def Eligible (s : Pics) (n : Nat) : Prop :=
  n ≠ 2 ∧ n < 8 ∧ s.pic.Requests n ∧ ¬ s.pic.Held n ∨
    8 ≤ n ∧ n < 16 ∧ s.pic2.Requests (n - 8) ∧ ¬ s.pic2.Held (n - 8) ∧
      s.pic.mask.getLsbD 2 = false ∧ ¬ s.pic.Held 2

/-- The fully nested order: 0, 1, 8 to 15, 3 to 7. -/
def rank (n : Nat) : Nat := if n < 2 then n else if 8 ≤ n then n - 6 else n + 7

/-- `n` is first in order among the lines that may be served. -/
def First (s : Pics) (n : Nat) : Prop := s.Eligible n ∧ ∀ m, s.Eligible m → rank n ≤ rank m

/-- Line `n` was served: its vector was returned, it alone was taken into service (and is out of
service again where ICW4 asks for automatic EOI), and no other request was dropped. -/
structure Served (s : Pics) (n : Nat) (vector : BitVec 8) (t : Pics) : Prop where
  vector : vector = if n < 8 then BitVec.ofNat 8 n + s.pic.vector
    else BitVec.ofNat 8 (n - 8) + s.pic2.vector
  ins : t.pic.ins = if n < 8 then
      if s.pic.icw4 &&& 2 ≠ 0 then s.pic.ins else s.pic.ins ||| bit n
    else s.pic.ins ||| bit 2
  ins2 : t.pic2.ins = if n < 8 then s.pic2.ins
    else if s.pic2.icw4 &&& 2 ≠ 0 then s.pic2.ins else s.pic2.ins ||| bit (n - 8)
  pend : ∀ k < 8, k ≠ 2 → k ≠ n → t.pic.pend.getLsbD k = s.pic.pend.getLsbD k
  pend2 : ∀ k < 8, k + 8 ≠ n → t.pic2.pend.getLsbD k = s.pic2.pend.getLsbD k

/-- The acknowledgement serves the first line. -/
def Acknowledged (s : Pics) : Prop :=
  ∃ n, s.First n ∧ s.Served n s.picinterrupt.1 s.picinterrupt.2

/-- The condition on an acknowledgement: with the cascade pending, lines 0 and 1 are not, and
the line that the second controller serves is level sensitive there, is its line 2 or is not
pending on the first controller. -/
def AckClear (s : Pics) : Prop :=
  s.pic.unmasked.getLsbD 2 = true →
    s.pic.unmasked.getLsbD 0 = false ∧ s.pic.unmasked.getLsbD 1 = false ∧
    ∀ c, lowest s.pic2.unmasked = some c →
      s.pic2.levelSensitive.getLsbD c = true ∨ c = 2 ∨ s.pic.pend.getLsbD c = false

end Pics

/-! ## Masks -/

theorem Pic.getLsbD_unmasked {p : Pic} {k : Nat} (inRange : k < 8) :
    p.unmasked.getLsbD k = true ↔ p.Requests k := by
  simp [Pic.unmasked, Pic.Requests, inRange]

theorem Pic.Derived.held {p : Pic} (derived : p.Derived) {k : Nat} (inRange : k < 8) :
    p.mask2.getLsbD k = true ↔ p.Held k := by
  rw [derived, getLsbD_fromLowest]
  exact ⟨fun masked => masked.2, fun held => ⟨inRange, held⟩⟩

theorem Pic.Derived.getLsbD_ready {p : Pic} (derived : p.Derived) {k : Nat} (inRange : k < 8) :
    p.ready.getLsbD k = true ↔ p.Requests k ∧ ¬ p.Held k := by
  rw [← derived.held inRange, ← Pic.getLsbD_unmasked inRange]
  simp [Pic.ready, inRange]

theorem Pic.Held.mono {p : Pic} {j k : Nat} (held : p.Held j) (above : j ≤ k) : p.Held k := by
  obtain ⟨c, below, set⟩ := held
  exact ⟨c, Nat.le_trans below above, set⟩

theorem Pic.derived_service (p : Pic) (c : Nat) : (p.service c).Derived := rfl

theorem Pic.derived_endService (p : Pic) (c : Nat) : (p.endService c).Derived := rfl

/-- The lowest unmasked request of a controller with some request that is not held off is the
first of these. -/
theorem Pic.Derived.lowest {p : Pic} (derived : p.Derived) {k : Nat} (inRange : k < 8)
    (ready : p.ready.getLsbD k = true) :
    ∃ c ≤ k, Lib.lowest p.unmasked = some c ∧ p.Requests c ∧ ¬ p.Held c := by
  obtain ⟨requests, free⟩ := (derived.getLsbD_ready inRange).mp ready
  obtain ⟨c, below, found⟩ := exists_lowest ((Pic.getLsbD_unmasked inRange).mpr requests)
  have cRange : c < 8 := Nat.lt_of_le_of_lt below inRange
  refine ⟨c, below, found, (Pic.getLsbD_unmasked cRange).mp (lowest_eq_some.mp found).1, ?_⟩
  exact fun held => free (held.mono below)

namespace Pics

variable {s t : Pics} {c k : Nat}

/-! ## The derived parts of the state -/

@[simp] theorem picUpdatepending_pic2 (s : Pics) : s.picUpdatepending.pic2 = s.pic2 := by
  unfold picUpdatepending
  split <;> rfl

@[simp] theorem picUpdatepending_at (s : Pics) : s.picUpdatepending.at_ = s.at_ := by
  unfold picUpdatepending
  split <;> rfl

@[simp] theorem picUpdatepending_ins (s : Pics) : s.picUpdatepending.pic.ins = s.pic.ins := by
  unfold picUpdatepending
  split <;> rfl

@[simp] theorem picUpdatepending_mask2 (s : Pics) : s.picUpdatepending.pic.mask2 = s.pic.mask2 := by
  unfold picUpdatepending
  split <;> rfl

@[simp] theorem picUpdatepending_icw4 (s : Pics) : s.picUpdatepending.pic.icw4 = s.pic.icw4 := by
  unfold picUpdatepending
  split <;> rfl

theorem withCascade_pend (p p2 : Pic) (inRange : k < 8) (other : k ≠ 2) :
    (p.withCascade p2).pend.getLsbD k = p.pend.getLsbD k := by
  unfold Pic.withCascade
  dsimp only
  split
  · simp only [getLsbD_or_bit _ inRange, other, decide_false, Bool.or_false]
  · simp only [getLsbD_and_not_bit _ inRange, other, decide_false, Bool.not_false, Bool.and_true]

theorem withCascade_cascade (p p2 : Pic) :
    (p.withCascade p2).pend.getLsbD 2 = true ↔ p2.ready ≠ 0 := by
  unfold Pic.withCascade
  dsimp only
  split
  · rename_i ready
    rw [getLsbD_or_bit _ (by decide)]
    simpa using ready
  · rename_i quiet
    rw [getLsbD_and_not_bit _ (by decide)]
    simp [not_not.mp quiet]

theorem withCascade_idem (p p2 : Pic) : (p.withCascade p2).withCascade p2 = p.withCascade p2 := by
  unfold Pic.withCascade
  dsimp only
  split
  · rw [BitVec.or_assoc, BitVec.or_self]
  · rw [BitVec.and_assoc, BitVec.and_self]

theorem picUpdatepending_pend (s : Pics) (inRange : k < 8) (other : k ≠ 2) :
    s.picUpdatepending.pic.pend.getLsbD k = s.pic.pend.getLsbD k := by
  unfold picUpdatepending
  split
  · exact withCascade_pend s.pic s.pic2 inRange other
  · rfl

/-- A second pass finds nothing to do. -/
theorem picUpdatepending_idem (s : Pics) :
    s.picUpdatepending.picUpdatepending = s.picUpdatepending := by
  by_cases two : s.at_ = true
  · simp only [picUpdatepending, two, if_true, withCascade_idem]
  · simp only [picUpdatepending, two, if_false, Bool.false_eq_true]

/-- What holds between calls on an AT. -/
structure Inv (s : Pics) : Prop where
  at_ : s.at_ = true
  derived : s.pic.Derived
  derived2 : s.pic2.Derived
  settled : s.picUpdatepending = s

theorem Inv.pic (inv : s.Inv) : s.pic = s.pic.withCascade s.pic2 := by
  have settled := congrArg Pics.pic inv.settled
  rw [picUpdatepending, if_pos inv.at_] at settled
  exact settled.symm

/-- The cascade bit stands for the second controller. -/
theorem Inv.cascadeBit (inv : s.Inv) : s.pic.pend.getLsbD 2 = true ↔ s.pic2.ready ≠ 0 := by
  rw [inv.pic]
  exact withCascade_cascade s.pic s.pic2

/-- A request is pending for the processor when the first controller has one, or the second has
one and the first lets it through. -/
theorem Inv.intpending (inv : s.Inv) (nonzero : s.intpending ≠ 0) :
    s.pic.ready ≠ 0 ∨ s.pic2.ready ≠ 0 ∧ s.pic.mask.getLsbD 2 = false ∧
      s.pic.mask2.getLsbD 2 = false := by
  have settled := congrArg Pics.intpending inv.settled
  rw [picUpdatepending, if_pos inv.at_] at settled
  dsimp only at settled
  rw [← inv.pic, outgoing] at settled
  by_cases first : s.pic.ready = 0
  · right
    split at settled
    · rename_i through
      rw [and_bit_eq_zero (by decide)] at through
      refine ⟨fun none => nonzero ?_, by simpa using through⟩
      rw [← settled, first, none]
      rfl
    · exact absurd (settled.symm.trans first) nonzero
  · exact .inl first

/-! ## Acknowledgement -/

theorem accept_pend (p : Pic) (inRange : k < 8) (other : k ≠ c) :
    (p.accept c).pend.getLsbD k = p.pend.getLsbD k := by
  unfold Pic.accept
  split
  · rw [Pic.drop, getLsbD_and_not_bit _ inRange]
    simp [other]
  · rfl

@[simp] theorem accept_ins (p : Pic) (c : Nat) : (p.accept c).ins = p.ins := by
  unfold Pic.accept
  split <;> rfl

/-- Automatic EOI ends the level that was just taken. -/
theorem endService_service {ins : BitVec 8} (inRange : c < 8)
    (free : ∀ k ≤ c, ins.getLsbD k = false) :
    lowest (ins ||| bit c) = some c ∧ (ins ||| bit c) &&& ~~~bit c = ins := by
  constructor
  · rw [lowest_eq_some, getLsbD_or_bit _ inRange]
    refine ⟨by simp, fun k below => ?_⟩
    rw [getLsbD_or_bit _ (Nat.lt_trans below inRange)]
    simp [free k (Nat.le_of_lt below), Nat.ne_of_lt below]
  · refine BitVec.eq_of_getLsbD_eq fun k kRange => ?_
    rw [getLsbD_and_not_bit _ kRange, getLsbD_or_bit _ kRange]
    by_cases same : k = c
    · simp [same, free c (Nat.le_refl c)]
    · simp [same]

theorem not_held {p : Pic} (free : ¬ p.Held c) : ∀ k ≤ c, p.ins.getLsbD k = false := by
  intro k below
  by_contra set
  exact free ⟨k, below, by simpa using set⟩

@[simp] theorem cascade_ins (s : Pics) : s.cascade.pic.ins = s.pic.ins := by
  unfold cascade
  split <;> rfl

@[simp] theorem cascade_pic2 (s : Pics) : s.cascade.pic2 = s.pic2 := by
  unfold cascade
  split <;> rfl

theorem cascade_pend (s : Pics) (inRange : k < 8) (other : k ≠ 2) :
    s.cascade.pic.pend.getLsbD k = s.pic.pend.getLsbD k := by
  unfold cascade
  split
  · dsimp only
    rw [getLsbD_or_bit _ inRange]
    simp [other]
  · rfl

/-- The automatic EOI of the first controller. -/
theorem picAutoeoi_effect (found : lowest s.pic.ins = some c) :
    s.picAutoeoi.pic.ins = s.pic.ins &&& ~~~bit c ∧ s.picAutoeoi.pic2 = s.pic2 ∧
      ∀ k < 8, k ≠ 2 → s.picAutoeoi.pic.pend.getLsbD k = s.pic.pend.getLsbD k := by
  unfold picAutoeoi
  rw [found]
  dsimp only
  refine ⟨?_, ?_, fun k inRange other => ?_⟩
  · rw [picUpdatepending_ins]
    split <;> simp [Pic.endService]
  · rw [picUpdatepending_pic2]
    split <;> simp
  · rw [picUpdatepending_pend _ inRange other]
    split
    · rw [cascade_pend _ inRange other]
      rfl
    · rfl

/-- The automatic EOI of the second. -/
theorem pic2Autoeoi_effect (found : lowest s.pic2.ins = some c) :
    s.pic2Autoeoi.pic2.ins = s.pic2.ins &&& ~~~bit c ∧
      s.pic2Autoeoi.pic2.pend = s.pic2.pend ∧ s.pic2Autoeoi.pic.ins = s.pic.ins ∧
      ∀ k < 8, k ≠ 2 → s.pic2Autoeoi.pic.pend.getLsbD k = s.pic.pend.getLsbD k := by
  unfold pic2Autoeoi
  rw [found]
  dsimp only
  refine ⟨by simp [Pic.endService], by simp [Pic.endService], by simp, fun k inRange other => ?_⟩
  rw [picUpdatepending_pend _ inRange other]

/-- The state before the automatic EOI. -/
def taken (s : Pics) (c : Nat) : Pics :=
  { s with pic := (s.pic.accept c).service c }.picUpdatepending

theorem taken_pend (inRange : k < 8) (notCascade : k ≠ 2) (other : k ≠ c) :
    (s.taken c).pic.pend.getLsbD k = s.pic.pend.getLsbD k := by
  rw [taken, picUpdatepending_pend _ inRange notCascade]
  exact accept_pend s.pic inRange other

theorem served_acknowledge (inRange : c < 8) (free : ¬ s.pic.Held c) :
    s.Served c (s.acknowledge c).1 (s.acknowledge c).2 := by
  have ins : (s.taken c).pic.ins = s.pic.ins ||| bit c := by simp [taken, Pic.service]
  have pic2 : (s.taken c).pic2 = s.pic2 := by simp [taken]
  obtain ⟨found, ended⟩ := endService_service inRange (not_held free)
  have result : (s.acknowledge c).2 =
      if s.pic.icw4 &&& 2 ≠ 0 then (s.taken c).picAutoeoi else s.taken c := rfl
  rw [result]
  by_cases automatic : s.pic.icw4 &&& 2 ≠ 0
  · rw [if_pos automatic]
    obtain ⟨insAfter, pic2After, pendAfter⟩ := picAutoeoi_effect (ins ▸ found)
    refine ⟨by rw [if_pos inRange]; rfl, ?_, ?_, fun k kRange notCascade other => ?_, fun k _ _ => ?_⟩
    · rw [if_pos inRange, if_pos automatic, insAfter, ins, ended]
    · rw [if_pos inRange, pic2After, pic2]
    · rw [pendAfter k kRange notCascade, taken_pend kRange notCascade other]
    · rw [pic2After, pic2]
  · rw [if_neg automatic]
    refine ⟨by rw [if_pos inRange]; rfl, ?_, ?_, fun k kRange notCascade other => ?_, fun k _ _ => ?_⟩
    · rw [if_pos inRange, if_neg automatic, ins]
    · rw [if_pos inRange, pic2]
    · rw [taken_pend kRange notCascade other]
    · rw [pic2]

/-- The state before the automatic EOI of the second controller. -/
def taken2 (s : Pics) (c : Nat) : Pics :=
  { s with
    pic := (if s.pic2.levelSensitive &&& bit c = 0 then s.pic.drop c else s.pic).service 2
    pic2 := (s.pic2.accept c).service c }.picUpdatepending

theorem taken2_pend (inRange : c < 8)
    (alone : s.pic2.levelSensitive.getLsbD c = true ∨ c = 2 ∨ s.pic.pend.getLsbD c = false)
    (kRange : k < 8) (notCascade : k ≠ 2) :
    (s.taken2 c).pic.pend.getLsbD k = s.pic.pend.getLsbD k := by
  rw [taken2, picUpdatepending_pend _ kRange notCascade, Pic.service]
  dsimp only
  split
  · rename_i edge
    rw [and_bit_eq_zero inRange] at edge
    rw [Pic.drop, getLsbD_and_not_bit _ kRange]
    by_cases same : k = c
    · subst same
      simp only [edge, notCascade, Bool.false_eq_true, false_or] at alone
      simp [alone]
    · simp [same]
  · rfl

theorem served_acknowledge2 (inRange : c < 8) (free : ¬ s.pic2.Held c)
    (alone : s.pic2.levelSensitive.getLsbD c = true ∨ c = 2 ∨ s.pic.pend.getLsbD c = false) :
    s.Served (c + 8) (s.acknowledge2 c).1 (s.acknowledge2 c).2 := by
  have ins : (s.taken2 c).pic.ins = s.pic.ins ||| bit 2 := by
    rw [taken2, picUpdatepending_ins, Pic.service]
    dsimp only
    split <;> rfl
  have ins2 : (s.taken2 c).pic2.ins = s.pic2.ins ||| bit c := by simp [taken2, Pic.service]
  have pend2 (k : Nat) (kRange : k < 8) (other : k + 8 ≠ c + 8) :
      (s.taken2 c).pic2.pend.getLsbD k = s.pic2.pend.getLsbD k := by
    rw [taken2, picUpdatepending_pic2]
    exact accept_pend s.pic2 kRange (by omega)
  obtain ⟨found, ended⟩ := endService_service inRange (not_held free)
  have result : (s.acknowledge2 c).2 =
      if s.pic2.icw4 &&& 2 ≠ 0 then (s.taken2 c).pic2Autoeoi else s.taken2 c := rfl
  have second : ¬ c + 8 < 8 := by omega
  rw [result]
  by_cases automatic : s.pic2.icw4 &&& 2 ≠ 0
  · rw [if_pos automatic]
    obtain ⟨ins2After, pend2After, insAfter, pendAfter⟩ := pic2Autoeoi_effect (ins2 ▸ found)
    refine ⟨by rw [if_neg second]; rfl, ?_, ?_, fun k kRange notCascade _ => ?_,
      fun k kRange other => ?_⟩
    · rw [if_neg second, insAfter, ins]
    · rw [if_neg second, if_pos automatic, ins2After, ins2, ended]
    · rw [pendAfter k kRange notCascade, taken2_pend inRange alone kRange notCascade]
    · rw [pend2After, pend2 k kRange other]
  · rw [if_neg automatic]
    refine ⟨by rw [if_neg second]; rfl, ?_, ?_, fun k kRange notCascade _ => ?_,
      fun k kRange other => ?_⟩
    · rw [if_neg second, ins]
    · rw [if_neg second, if_neg automatic, ins2]
      rfl
    · rw [taken2_pend inRange alone kRange notCascade]
    · rw [pend2 k kRange other]

/-! ## The order of the search -/

/-- With no request through the cascade, the first controller's lowest request is first. -/
theorem first_of_lowest (inv : s.Inv) (noCascade : s.pic.unmasked.getLsbD 2 = false)
    (found : lowest s.pic.unmasked = some c) (requests : s.pic.Requests c)
    (free : ¬ s.pic.Held c) : s.First c := by
  have inRange : c < 8 := BitVec.lt_of_getLsbD (lowest_eq_some.mp found).1
  have notCascade : c ≠ 2 := by
    rintro rfl
    cases noCascade.symm.trans (lowest_eq_some.mp found).1
  refine ⟨.inl ⟨notCascade, inRange, requests, free⟩, fun m eligible => ?_⟩
  rcases eligible with ⟨mNotCascade, mRange, mRequests, -⟩ | ⟨-, mRange, mRequests, mFree, open_, -⟩
  · have above : c ≤ m := by
      rcases Nat.lt_or_ge m c with below | above
      · cases ((lowest_eq_some.mp found).2 m below).symm.trans
          ((Pic.getLsbD_unmasked mRange).mpr mRequests)
      · exact above
    unfold rank
    split_ifs <;> omega
  · -- a request of the second controller would be on the cascade
    have ready : s.pic2.ready ≠ 0 := by
      intro quiet
      have here := (inv.derived2.getLsbD_ready (by omega)).mpr ⟨mRequests, mFree⟩
      rw [quiet] at here
      simp at here
    have cascade := (Pic.getLsbD_unmasked (by decide)).mpr ⟨inv.cascadeBit.mpr ready, open_⟩
    cases noCascade.symm.trans cascade

/-- With the cascade open and lines 0 and 1 quiet, the second controller's lowest request is. -/
theorem first_of_lowest2 (quiet0 : s.pic.unmasked.getLsbD 0 = false)
    (quiet1 : s.pic.unmasked.getLsbD 1 = false) (open_ : s.pic.mask.getLsbD 2 = false)
    (through : ¬ s.pic.Held 2) (found : lowest s.pic2.unmasked = some c)
    (requests : s.pic2.Requests c) (free : ¬ s.pic2.Held c) : s.First (c + 8) := by
  have inRange : c < 8 := BitVec.lt_of_getLsbD (lowest_eq_some.mp found).1
  refine ⟨.inr ⟨by omega, by omega, requests, free, open_, through⟩, fun m eligible => ?_⟩
  rcases eligible with ⟨mNotCascade, mRange, mRequests, -⟩ | ⟨mSecond, mRange, mRequests, -⟩
  · have unmasked := (Pic.getLsbD_unmasked mRange).mpr mRequests
    have not0 : m ≠ 0 := by
      rintro rfl
      cases quiet0.symm.trans unmasked
    have not1 : m ≠ 1 := by
      rintro rfl
      cases quiet1.symm.trans unmasked
    unfold rank
    split_ifs <;> omega
  · have above : c ≤ m - 8 := by
      rcases Nat.lt_or_ge (m - 8) c with below | above
      · cases ((lowest_eq_some.mp found).2 (m - 8) below).symm.trans
          ((Pic.getLsbD_unmasked (by omega)).mpr mRequests)
      · exact above
    unfold rank
    split_ifs <;> omega

/-- With lines 0 and 1 quiet, something is pending for the processor only if the cascade is not
held off. -/
theorem Inv.notHeld (inv : s.Inv) (nonzero : s.intpending ≠ 0)
    (quiet0 : s.pic.unmasked.getLsbD 0 = false) (quiet1 : s.pic.unmasked.getLsbD 1 = false) :
    ¬ s.pic.Held 2 := by
  intro held
  rcases inv.intpending nonzero with ready | ⟨-, -, through⟩
  · obtain ⟨k, kRange, here⟩ := exists_getLsbD ready
    obtain ⟨requests, free⟩ := (inv.derived.getLsbD_ready kRange).mp here
    have unmasked := (Pic.getLsbD_unmasked kRange).mpr requests
    have not0 : k ≠ 0 := by
      rintro rfl
      cases quiet0.symm.trans unmasked
    have not1 : k ≠ 1 := by
      rintro rfl
      cases quiet1.symm.trans unmasked
    exact free (held.mono (by omega))
  · cases through.symm.trans ((inv.derived.held (by decide)).mpr held)

/-- The branch for the second controller is taken when the cascade is pending and not masked. -/
theorem Inv.picinterrupt_cascade (inv : s.Inv) (cascade : s.pic.unmasked.getLsbD 2 = true) :
    ∃ c < 8, lowest s.pic2.unmasked = some c ∧ s.picinterrupt = s.acknowledge2 c ∧
      s.pic2.Requests c ∧ ¬ s.pic2.Held c := by
  obtain ⟨pending, -⟩ := (Pic.getLsbD_unmasked (by decide)).mp cascade
  obtain ⟨k, kRange, ready⟩ := exists_getLsbD (inv.cascadeBit.mp pending)
  obtain ⟨c, below, found, requests, free⟩ := inv.derived2.lowest kRange ready
  refine ⟨c, by omega, found, ?_, requests, free⟩
  have branch : s.at_ = true ∧ s.pic.unmasked &&& bit 2 ≠ 0 := by
    refine ⟨inv.at_, fun zero => ?_⟩
    cases cascade.symm.trans ((and_bit_eq_zero (by decide)).mp zero)
  rw [picinterrupt, if_pos branch, found]

/-- An acknowledgement in a clear state serves the first line. -/
theorem Inv.acknowledged (inv : s.Inv) (nonzero : s.intpending ≠ 0) (clear : s.AckClear) :
    s.Acknowledged := by
  by_cases cascade : s.pic.unmasked.getLsbD 2 = true
  · obtain ⟨quiet0, quiet1, alone⟩ := clear cascade
    obtain ⟨c, inRange, found, taken, requests, free⟩ := inv.picinterrupt_cascade cascade
    have open_ := ((Pic.getLsbD_unmasked (by decide)).mp cascade).2
    have through : ¬ s.pic.Held 2 := inv.notHeld nonzero quiet0 quiet1
    refine ⟨c + 8, first_of_lowest2 quiet0 quiet1 open_ through found requests free, ?_⟩
    rw [taken]
    exact served_acknowledge2 inRange free (alone c found)
  · have noCascade : s.pic.unmasked.getLsbD 2 = false := by simpa using cascade
    have ready : s.pic.ready ≠ 0 := by
      rcases inv.intpending nonzero with ready | ⟨ready2, open_, -⟩
      · exact ready
      · exact absurd ((Pic.getLsbD_unmasked (by decide)).mpr ⟨inv.cascadeBit.mpr ready2, open_⟩)
          cascade
    obtain ⟨k, kRange, here⟩ := exists_getLsbD ready
    obtain ⟨c, -, found, requests, free⟩ := inv.derived.lowest kRange here
    have inRange : c < 8 := BitVec.lt_of_getLsbD (lowest_eq_some.mp found).1
    refine ⟨c, first_of_lowest inv noCascade found requests free, ?_⟩
    have taken : s.picinterrupt = s.acknowledge c := by
      have branch : ¬ (s.at_ = true ∧ s.pic.unmasked &&& bit 2 ≠ 0) := by
        rintro ⟨-, nonzero⟩
        exact nonzero ((and_bit_eq_zero (by decide)).mpr noCascade)
      rw [picinterrupt, if_neg branch, found]
    rw [taken]
    exact served_acknowledge inRange free

/-! ## The condition is needed -/

/-- No two lines share a vector across the controllers. -/
def VectorsApart (s : Pics) : Prop :=
  ∀ a < 8, ∀ b < 8, BitVec.ofNat 8 a + s.pic.vector ≠ BitVec.ofNat 8 b + s.pic2.vector

/-- A request on line 0 or 1 may be served when something is pending for the processor. -/
theorem Inv.eligible_low (inv : s.Inv) (nonzero : s.intpending ≠ 0)
    (low : s.pic.unmasked.getLsbD 0 = true ∨ s.pic.unmasked.getLsbD 1 = true) :
    ∃ n < 2, s.Eligible n := by
  obtain ⟨c, below, found⟩ : ∃ c ≤ 1, lowest s.pic.unmasked = some c := by
    rcases low with set | set
    · obtain ⟨c, below, found⟩ := exists_lowest set
      exact ⟨c, by omega, found⟩
    · exact exists_lowest set
  have inRange : c < 8 := by omega
  refine ⟨c, by omega, .inl ⟨by omega, inRange,
    (Pic.getLsbD_unmasked inRange).mp (lowest_eq_some.mp found).1, fun held => ?_⟩⟩
  rcases inv.intpending nonzero with ready | ⟨-, -, through⟩
  · obtain ⟨k, kRange, here⟩ := exists_getLsbD ready
    obtain ⟨requests, free⟩ := (inv.derived.getLsbD_ready kRange).mp here
    rcases Nat.lt_or_ge k c with less | more
    · cases ((lowest_eq_some.mp found).2 k less).symm.trans
        ((Pic.getLsbD_unmasked kRange).mpr requests)
    · exact free (held.mono more)
  · cases through.symm.trans ((inv.derived.held (by decide)).mpr (held.mono (by omega)))

/-- A line that only the first controller's request stands on loses it. -/
theorem acknowledge2_pend (inRange : c < 8) (notCascade : c ≠ 2)
    (edge : s.pic2.levelSensitive.getLsbD c = false) :
    (s.acknowledge2 c).2.pic.pend.getLsbD c = false := by
  have dropped : (s.taken2 c).pic.pend.getLsbD c = false := by
    rw [taken2, picUpdatepending_pend _ inRange notCascade, Pic.service]
    dsimp only
    rw [if_pos ((and_bit_eq_zero inRange).mpr edge), Pic.drop, getLsbD_and_not_bit _ inRange]
    simp
  have result : (s.acknowledge2 c).2 =
      if s.pic2.icw4 &&& 2 ≠ 0 then (s.taken2 c).pic2Autoeoi else s.taken2 c := rfl
  rw [result]
  split
  · cases found : lowest (s.taken2 c).pic2.ins with
    | none =>
      rw [pic2Autoeoi, found]
      exact dropped
    | some d => rw [(pic2Autoeoi_effect found).2.2.2 c inRange notCascade, dropped]
  · exact dropped

/-- An acknowledgement in a state that is not clear does not serve the first line, or loses a
request. -/
theorem Inv.ackClear (inv : s.Inv) (nonzero : s.intpending ≠ 0) (apart : s.VectorsApart)
    (acknowledged : s.Acknowledged) : s.AckClear := by
  intro cascade
  obtain ⟨c, inRange, found, taken, requests, free⟩ := inv.picinterrupt_cascade cascade
  obtain ⟨n, ⟨eligible, first⟩, served⟩ := acknowledged
  rw [taken] at served
  have quiet : ¬ (s.pic.unmasked.getLsbD 0 = true ∨ s.pic.unmasked.getLsbD 1 = true) := by
    intro low
    obtain ⟨m, below, mEligible⟩ := inv.eligible_low nonzero low
    have order := first m mEligible
    have nLow : n < 2 := by
      unfold rank at order
      split_ifs at order <;> omega
    have vector := served.vector
    rw [if_pos (by omega)] at vector
    exact apart n (by omega) c inRange vector.symm
  have quiet0 : s.pic.unmasked.getLsbD 0 = false := by simpa using fun set => quiet (.inl set)
  have quiet1 : s.pic.unmasked.getLsbD 1 = false := by simpa using fun set => quiet (.inr set)
  refine ⟨quiet0, quiet1, fun d dFound => ?_⟩
  obtain rfl : c = d := Option.some.inj (found.symm.trans dFound)
  by_contra stands
  simp only [not_or, Bool.not_eq_true, Bool.not_eq_false] at stands
  obtain ⟨edge, notCascade, pending⟩ := stands
  have other : c ≠ n := by
    rintro rfl
    have open_ := (Pic.getLsbD_unmasked (by decide)).mp cascade
    have second : s.Eligible (c + 8) :=
      .inr ⟨by omega, by omega, requests, free, open_.2, inv.notHeld nonzero quiet0 quiet1⟩
    have order := first (c + 8) second
    rcases eligible with ⟨-, -, own, -⟩ | ⟨above, -⟩
    · have unmasked := (Pic.getLsbD_unmasked inRange).mpr own
      have not0 : c ≠ 0 := by
        rintro rfl
        cases quiet0.symm.trans unmasked
      have not1 : c ≠ 1 := by
        rintro rfl
        cases quiet1.symm.trans unmasked
      unfold rank at order
      split_ifs at order <;> omega
    · omega
  have kept := served.pend c inRange notCascade other
  rw [acknowledge2_pend inRange notCascade edge, pending] at kept
  cases kept

end Pics

end PCemWeb.Interrupts
