import PCemWeb.Lib.Run
import PCemWeb.Interrupts.PicExact

/-!
# Runs of the interrupt controllers

Every call but the reset settles the derived parts of the state. The reset leaves `mask2` of the
second controller, so the masks stay derived in the runs whose resets find it clear; there each
acknowledgement in a clear state serves the first line.
-/

namespace PCemWeb.Interrupts

open PCemWeb.Lib

/-- What the machine and the guest do to the controllers. -/
inductive Op
  | reset
  | write (addr : BitVec 16) (val : BitVec 8)
  | write2 (addr : BitVec 16) (val : BitVec 8)
  | elcrx (addr : BitVec 16) (val : BitVec 8)
  | int (num : BitVec 16)
  | intlevel (num : BitVec 16)
  | intc (num : BitVec 16)
  | interrupt

namespace Pics

variable {s t : Pics}

/-- One call. -/
def step (s : Pics) : Op → Option Pics
  | .reset => some s.picReset
  | .write addr val => some (s.picWrite addr val)
  | .write2 addr val => some (s.pic2Write addr val)
  | .elcrx addr val => some (s.picElcrxWrite addr val)
  | .int num => some (s.picint num)
  | .intlevel num => s.picintlevel num
  | .intc num => some (s.picintc num)
  | .interrupt => some s.picinterrupt.2

/-- A reset finds nothing of the second controller in service. -/
def ResetClear (s : Pics) : Op → Prop
  | .reset => s.pic2.mask2 = 0
  | _ => True

/-- What settles keeps the masks derived. -/
theorem Inv.settle (two : s.at_ = true) (derived : s.pic.Derived) (derived2 : s.pic2.Derived) :
    s.picUpdatepending.Inv := by
  refine ⟨by simpa using two, ?_, by simpa using derived2, picUpdatepending_idem s⟩
  rw [Pic.Derived, picUpdatepending_mask2, picUpdatepending_ins]
  exact derived

theorem settled_iff (two : s.at_ = true) : s.picUpdatepending = s ↔
    (s.pic.withCascade s.pic2).pend = s.pic.pend ∧ outgoing s.pic s.pic2 = s.intpending := by
  have same (pend : (s.pic.withCascade s.pic2).pend = s.pic.pend) :
      s.pic.withCascade s.pic2 = s.pic := by
    simp only [Pic.withCascade] at pend ⊢
    rw [pend]
  rw [picUpdatepending, if_pos two]
  constructor
  · intro settled
    have pic := congrArg Pics.pic settled
    have out := congrArg Pics.intpending settled
    dsimp only at pic out
    rw [pic] at out
    exact ⟨congrArg Pic.pend pic, out⟩
  · rintro ⟨pend, out⟩
    rw [same pend, out]

/-- A change that no derived part depends on. -/
theorem Inv.congr (inv : s.Inv) (two : t.at_ = s.at_) (first : t.pic.Derived)
    (second : t.pic2.Derived) (pend : t.pic.pend = s.pic.pend) (mask : t.pic.mask = s.pic.mask)
    (mask2 : t.pic.mask2 = s.pic.mask2) (ready : t.pic2.ready = s.pic2.ready)
    (intpending : t.intpending = s.intpending) : t.Inv := by
  have tTwo : t.at_ = true := two.trans inv.at_
  obtain ⟨cascade, out⟩ := (settled_iff inv.at_).mp inv.settled
  refine ⟨tTwo, first, second, (settled_iff tTwo).mpr ⟨?_, ?_⟩⟩
  · simp only [Pic.withCascade, pend, ready] at cascade ⊢
    exact cascade
  · have ready1 : t.pic.ready = s.pic.ready := by
      simp only [Pic.ready, Pic.unmasked, pend, mask, mask2]
    simp only [outgoing, ready, ready1, mask, mask2, intpending] at out ⊢
    exact out

theorem cascade_derived (derived : s.pic.Derived) : s.cascade.pic.Derived := by
  unfold cascade
  split <;> exact derived

@[simp] theorem cascade_at (s : Pics) : s.cascade.at_ = s.at_ := by
  unfold cascade
  split <;> rfl

/-! ## One step -/

/-- A write to the odd port that is not OCW1 changes no mask and no request. -/
theorem writeOdd_effect (p : Pic) (val : BitVec 8) : (p.writeOdd val).1.pend = p.pend ∧
    (p.writeOdd val).1.ins = p.ins ∧ (p.writeOdd val).1.mask2 = p.mask2 ∧
    ((p.writeOdd val).2 = false → (p.writeOdd val).1.mask = p.mask) := by
  unfold Pic.writeOdd
  cases p.icw <;> simp

theorem writeOdd_derived {p : Pic} (derived : p.Derived) (val : BitVec 8) :
    (p.writeOdd val).1.Derived := by
  obtain ⟨-, ins, mask2, -⟩ := writeOdd_effect p val
  rw [Pic.Derived, ins, mask2]
  exact derived

theorem icw1Write_derived (p : Pic) (val : BitVec 8) : (p.icw1Write val).Derived :=
  fromLowest_zero.symm

theorem ocw3Write_effect (p : Pic) (val : BitVec 8) : (p.ocw3Write val).pend = p.pend ∧
    (p.ocw3Write val).ins = p.ins ∧ (p.ocw3Write val).mask2 = p.mask2 ∧
    (p.ocw3Write val).mask = p.mask := by
  unfold Pic.ocw3Write
  split <;> exact ⟨rfl, rfl, rfl, rfl⟩

theorem ready_congr {p q : Pic} (pend : q.pend = p.pend) (mask : q.mask = p.mask)
    (mask2 : q.mask2 = p.mask2) : q.ready = p.ready := by
  simp only [Pic.ready, Pic.unmasked, pend, mask, mask2]

theorem Inv.picWrite (inv : s.Inv) (addr : BitVec 16) (val : BitVec 8) :
    (s.picWrite addr val).Inv := by
  unfold Pics.picWrite
  split
  · obtain ⟨pend, ins, mask2, mask⟩ := writeOdd_effect s.pic val
    dsimp only
    split
    · exact .settle inv.at_ (writeOdd_derived inv.derived val) inv.derived2
    · rename_i other
      exact inv.congr rfl (writeOdd_derived inv.derived val) inv.derived2 pend
        (mask (by simpa using other)) mask2 rfl rfl
  split
  · exact .settle inv.at_ (icw1Write_derived s.pic val) inv.derived2
  split
  · split
    · dsimp only
      split
      · exact .settle (by simpa using inv.at_) (cascade_derived (Pic.derived_endService _ _))
          (by simpa using inv.derived2)
      · exact .settle inv.at_ (Pic.derived_endService _ _) inv.derived2
    · split
      · exact inv
      · dsimp only
        split
        · exact .settle (by simpa using inv.at_) (cascade_derived (Pic.derived_endService _ _))
            (by simpa using inv.derived2)
        · exact .settle inv.at_ (Pic.derived_endService _ _) inv.derived2
  · obtain ⟨pend, ins, mask2, mask⟩ := ocw3Write_effect s.pic val
    have derived : (s.pic.ocw3Write val).Derived := by
      rw [Pic.Derived, ins, mask2]
      exact inv.derived
    exact inv.congr rfl derived inv.derived2 pend mask mask2 rfl rfl

theorem Inv.pic2Write (inv : s.Inv) (addr : BitVec 16) (val : BitVec 8) :
    (s.pic2Write addr val).Inv := by
  unfold Pics.pic2Write
  split
  · obtain ⟨pend, ins, mask2, mask⟩ := writeOdd_effect s.pic2 val
    dsimp only
    split
    · exact .settle inv.at_ inv.derived (writeOdd_derived inv.derived2 val)
    · rename_i other
      exact inv.congr rfl inv.derived (writeOdd_derived inv.derived2 val) rfl rfl rfl
        (ready_congr pend (mask (by simpa using other)) mask2) rfl
  split
  · exact .settle inv.at_ inv.derived (icw1Write_derived s.pic2 val)
  split
  · split
    · exact .settle inv.at_ inv.derived (Pic.derived_endService _ _)
    · split
      · exact inv
      · exact .settle inv.at_ inv.derived (Pic.derived_endService _ _)
  · obtain ⟨pend, ins, mask2, mask⟩ := ocw3Write_effect s.pic2 val
    have derived : (s.pic2.ocw3Write val).Derived := by
      rw [Pic.Derived, ins, mask2]
      exact inv.derived2
    exact inv.congr rfl inv.derived derived rfl rfl rfl (ready_congr pend mask mask2) rfl

theorem Inv.picElcrxWrite (inv : s.Inv) (addr : BitVec 16) (val : BitVec 8) :
    (s.picElcrxWrite addr val).Inv := by
  unfold Pics.picElcrxWrite
  split
  · exact inv.congr rfl inv.derived inv.derived2 rfl rfl rfl rfl rfl
  split
  · exact inv.congr rfl inv.derived inv.derived2 rfl rfl rfl rfl rfl
  · exact inv

theorem Inv.picint (inv : s.Inv) (num : BitVec 16) : (s.picint num).Inv := by
  unfold Pics.picint
  dsimp only
  split
  · refine .settle ?_ (cascade_derived inv.derived) ?_
    · rw [cascade_at]
      exact inv.at_
    · rw [cascade_pic2]
      exact inv.derived2
  split
  · exact .settle inv.at_ inv.derived inv.derived2
  · exact .settle inv.at_ inv.derived inv.derived2

theorem Inv.picintlevel (inv : s.Inv) {num : BitVec 16} (done : s.picintlevel num = some t) :
    t.Inv := by
  obtain ⟨c, -, rfl⟩ := Option.map_eq_some_iff.mp done
  dsimp only
  split
  · exact .settle inv.at_ inv.derived inv.derived2
  split
  · exact .settle inv.at_ inv.derived inv.derived2
  · exact .settle inv.at_ inv.derived inv.derived2

theorem Inv.picintc (inv : s.Inv) (num : BitVec 16) : (s.picintc num).Inv := by
  unfold Pics.picintc
  split
  · exact inv
  dsimp only
  split
  · split
    · exact .settle inv.at_ inv.derived inv.derived2
    · exact .settle inv.at_ inv.derived inv.derived2
  split
  · exact .settle inv.at_ inv.derived inv.derived2
  · exact .settle inv.at_ inv.derived inv.derived2

theorem Inv.picAutoeoi (inv : s.Inv) : s.picAutoeoi.Inv := by
  unfold Pics.picAutoeoi
  split
  · exact inv
  dsimp only
  split
  · exact .settle (by simpa using inv.at_) (cascade_derived (Pic.derived_endService _ _))
      (by simpa using inv.derived2)
  · exact .settle inv.at_ (Pic.derived_endService _ _) inv.derived2

theorem Inv.pic2Autoeoi (inv : s.Inv) : s.pic2Autoeoi.Inv := by
  unfold Pics.pic2Autoeoi
  split
  · exact inv
  · exact .settle inv.at_ inv.derived (Pic.derived_endService _ _)

theorem Inv.picinterrupt (inv : s.Inv) : s.picinterrupt.2.Inv := by
  have taken (c : Nat) : (s.taken c).Inv :=
    .settle inv.at_ (Pic.derived_service _ _) inv.derived2
  have taken2 (c : Nat) : (s.taken2 c).Inv :=
    .settle inv.at_ (Pic.derived_service _ _) (Pic.derived_service _ _)
  unfold Pics.picinterrupt
  split
  · split
    · exact inv
    · rename_i c _
      unfold acknowledge2
      dsimp only
      split
      · exact (taken2 c).pic2Autoeoi
      · exact taken2 c
  · split
    · exact inv
    · rename_i c _
      unfold acknowledge
      dsimp only
      split
      · exact (taken c).picAutoeoi
      · exact taken c

/-- A reset leaves `mask2` of the second controller as it was. -/
theorem Inv.picReset (inv : s.Inv) (clear : s.pic2.mask2 = 0) : s.picReset.Inv := by
  refine ⟨inv.at_, fromLowest_zero.symm, clear.trans fromLowest_zero.symm, ?_⟩
  refine (settled_iff (s := s.picReset) inv.at_).mpr ⟨?_, ?_⟩
  · simp [Pics.picReset, Pic.withCascade, Pic.ready, Pic.unmasked]
  · simp [Pics.picReset, outgoing, Pic.ready, Pic.unmasked]

theorem Inv.step (inv : s.Inv) {op : Op} (clear : s.ResetClear op) (done : s.step op = some t) :
    t.Inv := by
  cases op with
  | reset =>
    cases done
    exact inv.picReset clear
  | write addr val =>
    cases done
    exact inv.picWrite addr val
  | write2 addr val =>
    cases done
    exact inv.pic2Write addr val
  | elcrx addr val =>
    cases done
    exact inv.picElcrxWrite addr val
  | int num =>
    cases done
    exact inv.picint num
  | intlevel num => exact inv.picintlevel done
  | intc num =>
    cases done
    exact inv.picintc num
  | interrupt =>
    cases done
    exact inv.picinterrupt

/-! ## Runs -/

/-- The controllers of an AT before the first call. -/
def initial : Pics :=
  let pic : Pic := ⟨0, 0, 0, 0, 0, 0, .ocw1, 0, false, 0⟩
  ⟨pic, pic, 0, fun _ => false, true⟩

theorem initial_inv : initial.Inv := by
  refine ⟨rfl, fromLowest_zero.symm, fromLowest_zero.symm, (settled_iff rfl).mpr ⟨?_, ?_⟩⟩
  · decide
  · decide

theorem inv_of_run (run : RunOk step ResetClear initial s) : s.Inv :=
  run.invariant initial_inv fun before clear done => before.step clear done

/-- In every state of a run whose resets are clear, both `mask2` are what the levels in service
give, after a reset exactly if it is clear; and an acknowledgement serves the first line if the
state is clear, and only then where the vectors of the two controllers are apart. -/
theorem acknowledged_of_run (run : RunOk step ResetClear initial s) :
    s.pic.Derived ∧ s.pic2.Derived ∧
      (s.picReset.pic.Derived ∧ s.picReset.pic2.Derived ↔ s.ResetClear .reset) ∧
      (s.intpending ≠ 0 → s.AckClear → s.Acknowledged) ∧
      (s.intpending ≠ 0 → s.VectorsApart → s.Acknowledged → s.AckClear) := by
  have inv := inv_of_run run
  refine ⟨inv.derived, inv.derived2, ⟨fun derived => ?_, fun clear => ?_⟩, inv.acknowledged,
    inv.ackClear⟩
  · exact derived.2.trans fromLowest_zero
  · exact ⟨(inv.picReset clear).derived, (inv.picReset clear).derived2⟩

/-! ## Two runs -/

instance (s : Pics) : (op : Op) → Decidable (s.ResetClear op)
  | .reset => inferInstanceAs (Decidable (_ = _))
  | .write .. | .write2 .. | .elcrx .. | .int _ | .intlevel _ | .intc _ | .interrupt =>
    .isTrue trivial

/-- Lines 14 and 5 are pending. -/
def apartLines : List Op := [.reset, .write 0x21 0, .write2 0xa1 0, .int 0x4000, .int 0x20]

/-- Lines 8 and 0 are pending. -/
def crossedLines : List Op := [.reset, .write 0x21 0, .write2 0xa1 0, .int 0x100, .int 0x1]

/-- Line 14 is served before line 5. -/
theorem acknowledged_apartLines : ∃ s, exec step initial apartLines = some s ∧
    s.picinterrupt.1 = 6 ∧ s.picinterrupt.2.pic.pend = 0x20 ∧ s.Acknowledged := by
  have run : (execOk step (fun s op => s.ResetClear op) initial apartLines).any (fun s =>
      (s.intpending ≠ 0 ∧ s.pic.unmasked.getLsbD 0 = false ∧ s.pic.unmasked.getLsbD 1 = false ∧
        lowest s.pic2.unmasked = some 6 ∧ s.pic.pend.getLsbD 6 = false) ∧
      s.picinterrupt.1 = 6 ∧ s.picinterrupt.2.pic.pend = 0x20) = true := by decide +kernel
  obtain ⟨s, done, ended⟩ := (Option.any_eq_true ..).mp run
  obtain ⟨⟨pending, quiet0, quiet1, found, alone⟩, vector, kept⟩ := of_decide_eq_true ended
  have clear : s.AckClear := by
    intro _
    refine ⟨quiet0, quiet1, fun c cFound => .inr (.inr ?_)⟩
    obtain rfl : 6 = c := Option.some.inj (found.symm.trans cFound)
    exact alone
  obtain ⟨-, -, -, acknowledged, -⟩ :=
    acknowledged_of_run (RunOk.of_execOk (fun _ _ => of_decide_eq_true) done)
  exact ⟨s, exec_of_execOk done, vector, kept, acknowledged pending clear⟩

/-- Line 8 is served before line 0, whose request is lost. -/
theorem not_acknowledged_crossedLines : ¬ ∀ {s : Pics} {ops : List Op},
    exec step initial ops = some s →
      s.pic.Derived ∧ s.pic2.Derived ∧ (s.intpending ≠ 0 → s.Acknowledged) := by
  intro claimed
  have run : (execOk step (fun s op => s.ResetClear op) initial crossedLines).any (fun s =>
      s.intpending ≠ 0 ∧ s.pic.unmasked.getLsbD 2 = true ∧ s.pic.unmasked.getLsbD 0 = true ∧
      ∀ a < 8, ∀ b < 8, BitVec.ofNat 8 a + s.pic.vector ≠ BitVec.ofNat 8 b + s.pic2.vector) =
      true := by decide +kernel
  obtain ⟨s, done, ended⟩ := (Option.any_eq_true ..).mp run
  obtain ⟨pending, cascade, low, apart⟩ := of_decide_eq_true ended
  have inv := inv_of_run (RunOk.of_execOk (fun _ _ => of_decide_eq_true) done)
  have acknowledged := (claimed (exec_of_execOk done)).2.2 pending
  obtain ⟨quiet, -⟩ := inv.ackClear pending apart acknowledged cascade
  cases quiet.symm.trans low

end Pics

end PCemWeb.Interrupts
