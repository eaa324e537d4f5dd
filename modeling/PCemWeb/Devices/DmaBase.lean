import PCemWeb.Devices.DmaSteps

/-!
# Base addresses of the DMA channels

The base address has 24 bits, and outside the PS/2 controller a channel that transfers words has an
even one: this holds after any writes of registers and any transfers.
-/

namespace PCemWeb.Devices

namespace Dma

/-! ## Base addresses -/

/-- States after a reset, writes of registers and transfers. -/
inductive Reachable : Dma → Prop
  | reset (s : Dma) : Reachable s.reset
  | dmaWrite {s : Dma} (addr : BitVec 16) (val : BitVec 8) :
      Reachable s → Reachable (s.dmaWrite addr val)
  | dma16Write {s : Dma} (addr : BitVec 16) (val : BitVec 8) :
      Reachable s → Reachable (s.dma16Write addr val)
  | dmaPageWrite {s : Dma} (addr : BitVec 16) (val : BitVec 8) :
      Reachable s → Reachable (s.dmaPageWrite addr val)
  | ps2Command {s : Dma} (val : BitVec 8) :
      Reachable s → s.isPs2 = true → Reachable (s.ps2Command val)
  | ps2Data {s t : Dma} (val : BitVec 8) :
      Reachable s → s.isPs2 = true → s.ps2Data val = some t → Reachable t
  | step {s : Dma} (a : DmaStep) : Reachable s → Reachable (s.step a)

/-- The base address of one channel: 24 bits and, outside the PS/2 controller, even for channels
that transfer words. -/
structure Based (isPs2 : Bool) (channel : Nat) (c : DmaChannel) : Prop where
  bound : c.ab.toNat < 16777216
  size : isPs2 = false → (c.size = true ↔ channel &&& 4 ≠ 0)
  even : isPs2 = false → channel &&& 4 ≠ 0 → c.ab.toNat % 2 = 0

def AllBased (s : Dma) : Prop := ∀ channel, Based s.isPs2 channel (s.dma channel)

section Base

variable {s t : Dma} {channel : Nat} {c : DmaChannel}

/-- A base address that differs from a good one in one place only. -/
theorem AllBased.set (based : s.AllBased) (dma : ∀ other ≠ channel, t.dma other = s.dma other)
    (isPs2 : t.isPs2 = s.isPs2) (own : Based s.isPs2 channel (t.dma channel)) : t.AllBased := by
  intro other
  rw [isPs2]
  rcases eq_or_ne other channel with rfl | apart
  · exact own
  · rw [dma other apart]
    exact based other

/-- Neither the base address nor the size changes. -/
theorem AllBased.keep (based : s.AllBased) (isPs2 : t.isPs2 = s.isPs2)
    (dma : ∀ k, (t.dma k).ab = (s.dma k).ab ∧ (t.dma k).size = (s.dma k).size) : t.AllBased := by
  intro other
  obtain ⟨bound, size, even⟩ := based other
  rw [← isPs2, ← (dma other).1] at *
  rw [← (dma other).2] at size
  exact ⟨bound, size, even⟩

theorem mask24 {x y : BitVec 32} (low : x.toNat < 16777216) (high : y.toNat < 16777216) :
    (x ||| y).toNat < 16777216 := by
  rw [BitVec.toNat_or]
  exact Nat.or_lt_two_pow (n := 24) low high

theorem and_lt {x : BitVec 32} {m : BitVec 32} (mask : m.toNat < 16777216) :
    (x &&& m).toNat < 16777216 := by
  rw [BitVec.toNat_and]
  exact Nat.lt_of_le_of_lt Nat.and_le_right mask

theorem shifted_lt {val : BitVec 8} {k : Nat} (small : k ≤ 16) :
    (val.setWidth 32 <<< k).toNat < 16777216 := by
  have bound := val.isLt
  have wide : (val.setWidth 32).toNat = val.toNat := by
    rw [BitVec.toNat_setWidth]
    omega
  rw [BitVec.toNat_shiftLeft, wide, Nat.shiftLeft_eq]
  have scale : val.toNat * 2 ^ k ≤ val.toNat * 65536 :=
    Nat.mul_le_mul_left _ (Nat.pow_le_pow_right (n := 2) (by decide) small)
  exact Nat.lt_of_le_of_lt (Nat.mod_le _ _) (by omega)

theorem small_lt {val : BitVec 8} : (val.setWidth 32).toNat < 16777216 := by
  have bound := val.isLt
  rw [BitVec.toNat_setWidth]
  omega

theorem even_iff {x : BitVec 32} : x.toNat % 2 = 0 ↔ x.getLsbD 0 = false := by
  rw [BitVec.getLsbD, Nat.testBit_zero, decide_eq_false_iff_not]
  omega

theorem even_or {x y : BitVec 32} (left : x.getLsbD 0 = false) (right : y.getLsbD 0 = false) :
    (x ||| y).toNat % 2 = 0 := by
  rw [even_iff, BitVec.getLsbD_or, left, right]
  rfl

theorem even_shifted {val : BitVec 8} {k : Nat} (positive : 0 < k) :
    (val.setWidth 32 <<< k).getLsbD 0 = false := by
  rw [BitVec.getLsbD_shiftLeft]
  simp [positive]

theorem even_masked {x m : BitVec 32} (mask : m.getLsbD 0 = false) :
    (x &&& m).getLsbD 0 = false := by
  rw [BitVec.getLsbD_and, mask, Bool.and_false]

theorem even_kept {x m : BitVec 32} (even : x.toNat % 2 = 0) :
    (x &&& m).getLsbD 0 = false := by
  rw [BitVec.getLsbD_and, even_iff.mp even, Bool.false_and]

theorem low_channel {k : Nat} (low : k < 4) : k &&& 4 = 0 := by
  revert k
  decide

theorem allBased_setAddress {ab : BitVec 32} (based : s.AllBased) (bound : ab.toNat < 16777216)
    (even : s.isPs2 = false → channel &&& 4 ≠ 0 → ab.toNat % 2 = 0) :
    (s.setAddress channel ab).AllBased := by
  refine based.set (fun other (apart : other ≠ channel) => Function.update_of_ne apart ..) rfl ?_
  show Based _ _ (Function.update s.dma channel _ channel)
  rw [Function.update_self]
  exact ⟨bound, (based channel).size, even⟩

theorem allBased_setChannel (based : s.AllBased) (ab : c.ab = (s.dma channel).ab)
    (size : s.isPs2 = false → c.size = (s.dma channel).size) :
    (s.setChannel channel c).AllBased := by
  refine based.set (fun other (apart : other ≠ channel) => Function.update_of_ne apart ..) rfl ?_
  show Based _ _ (Function.update s.dma channel c channel)
  rw [Function.update_self]
  obtain ⟨bound, size_, even⟩ := based channel
  rw [← ab] at bound even
  exact ⟨bound, fun compat => by rw [size compat]; exact size_ compat, even⟩

theorem allBased_setCount (based : s.AllBased) (low : Bool) (val : BitVec 8) :
    (s.setCount channel low val).AllBased :=
  allBased_setChannel based rfl fun _ => rfl

theorem allBased_setMode (based : s.AllBased) (val : BitVec 8) :
    (s.setMode channel val).AllBased := by
  unfold setMode
  dsimp only
  split
  · exact allBased_setChannel based rfl fun _ => rfl
  · exact allBased_setChannel based rfl fun _ => rfl

theorem allBased_flags (based : s.AllBased) (dma : t.dma = s.dma) (isPs2 : t.isPs2 = s.isPs2) :
    t.AllBased :=
  based.keep isPs2 fun k => by rw [dma]; exact ⟨rfl, rfl⟩

theorem toNat_channel (w : BitVec 16) : (w &&& 3).toNat < 4 := by
  rw [BitVec.toNat_and]
  exact Nat.lt_of_le_of_lt Nat.and_le_right (by decide)

theorem allBased_dmaWrite (based : s.AllBased) (addr : BitVec 16) (val : BitVec 8) :
    (s.dmaWrite addr val).AllBased := by
  have flagged : ({ s with wp := !s.wp } : Dma).AllBased := allBased_flags based rfl rfl
  unfold dmaWrite
  dsimp only
  split
  · split
    · refine allBased_setAddress flagged ?_ fun _ high => absurd
        (low_channel (toNat_channel _)) high
      split
      · exact mask24 (and_lt (by decide)) small_lt
      · exact mask24 (and_lt (by decide)) (shifted_lt (by decide))
    · exact allBased_setCount flagged _ val
  · split
    · exact allBased_flags based rfl rfl
    · exact allBased_flags based rfl rfl
    · exact allBased_setMode based val
    · exact allBased_flags based rfl rfl
    · exact allBased_flags based rfl rfl
    · exact allBased_flags based rfl rfl
    · exact based

theorem allBased_dma16Write (based : s.AllBased) (addr : BitVec 16) (val : BitVec 8) :
    (s.dma16Write addr val).AllBased := by
  have flagged : ({ s with wp16 := !s.wp16 } : Dma).AllBased := allBased_flags based rfl rfl
  have own := based ((addr >>> 2 &&& 3).toNat + 4)
  unfold dma16Write
  dsimp only
  split
  · split
    · refine allBased_setAddress flagged ?_ fun compat high => ?_
      · split
        · split
          · exact mask24 (and_lt (by decide)) small_lt
          · exact mask24 (and_lt (by decide)) (shifted_lt (by decide))
        split
        · exact mask24 (and_lt (by decide)) (shifted_lt (by decide))
        · exact mask24 (and_lt (by decide)) (shifted_lt (by decide))
      · -- the registers hold the address in words
        have even := own.even compat high
        have other : ¬s.isPs2 = true := by
          rw [Bool.not_eq_true]
          exact compat
        rw [if_neg other]
        split
        · exact even_or (even_masked (by decide)) (even_shifted (by decide))
        · exact even_or (even_kept even) (even_shifted (by decide))
    · exact allBased_setCount flagged _ val
  · split
    · exact allBased_flags based rfl rfl
    · exact allBased_setMode based val
    · exact allBased_flags based rfl rfl
    · exact allBased_flags based rfl rfl
    · exact allBased_flags based rfl rfl
    · exact based

theorem allBased_setPage {page : BitVec 8} {keep : BitVec 32} (based : s.AllBased)
    (mask : keep.toNat < 16777216) : (s.setPage channel page keep).AllBased := by
  refine based.set (fun other (apart : other ≠ channel) => Function.update_of_ne apart ..) rfl ?_
  show Based _ _ (Function.update s.dma channel _ channel)
  rw [Function.update_self]
  obtain ⟨bound, size, even⟩ := based channel
  refine ⟨mask24 (and_lt mask) (shifted_lt (by decide)), size, fun compat high => ?_⟩
  exact even_or (even_kept (even compat high)) (even_shifted (by decide))

theorem allBased_dmaPageWrite (based : s.AllBased) (addr : BitVec 16) (val : BitVec 8) :
    (s.dmaPageWrite addr val).AllBased := by
  unfold dmaPageWrite
  dsimp only
  split
  · exact allBased_setPage based (by decide)
  · exact allBased_setPage based (by decide)
  · exact allBased_setPage based (by decide)
  · exact allBased_setPage based (by decide)
  · exact allBased_setPage based (by decide)
  · exact allBased_setPage based (by decide)
  · exact allBased_setPage based (by decide)
  · exact based

/-! ### The PS/2 controller and transfers -/

theorem base_update {dma : Nat → DmaChannel} (ab : c.ab = (dma channel).ab)
    (size : c.size = (dma channel).size) (k : Nat) :
    (Function.update dma channel c k).ab = (dma k).ab ∧
      (Function.update dma channel c k).size = (dma k).size := by
  rcases eq_or_ne k channel with rfl | apart
  · rw [Function.update_self]
    exact ⟨ab, size⟩
  · rw [Function.update_of_ne apart]
    exact ⟨rfl, rfl⟩

/-- A transfer changes the current address and the current count of its channel. -/
theorem dma_advance : ∃ ac cc,
    (s.advance channel).2.dma = Function.update s.dma channel { s.dma channel with ac, cc } := by
  unfold advance
  dsimp only
  split
  · split
    · exact ⟨_, _, rfl⟩
    · exact ⟨_, _, rfl⟩
  · exact ⟨_, _, rfl⟩

theorem isPs2_advance : (s.advance channel).2.isPs2 = s.isPs2 := by
  unfold advance
  dsimp only
  split
  · split <;> rfl
  · rfl

theorem allBased_advance (based : s.AllBased) (dma : t.dma = s.dma) (isPs2 : t.isPs2 = s.isPs2) :
    (t.advance channel).2.AllBased := by
  obtain ⟨ac, cc, moved⟩ := @dma_advance t channel
  refine based.keep (isPs2_advance.trans isPs2) fun k => ?_
  rw [moved, dma]
  refine base_update ?_ ?_ k
  · rfl
  · rfl

theorem allBased_ps2Loop (fuel : Nat) :
    ∀ {s : Dma}, s.AllBased → (ps2Loop channel fuel s).AllBased := by
  induction fuel with
  | zero => exact fun based => based
  | succ fuel ih =>
    intro s based
    have body : (s.ps2Body channel).AllBased := by
      have element := sameFor_ps2Element (s := s) (Nat.succ_ne_self channel)
      have isPs2 : (s.ps2Body channel).isPs2 = s.isPs2 := element.isPs2
      refine based.keep isPs2 fun k => ?_
      rw [dma_ps2Body]
      dsimp only
      obtain ⟨ab, size⟩ := @base_update channel { s.dma channel with ac := ps2Ac (s.dma channel) }
        s.dma rfl rfl k
      rw [← ab, ← size]
      refine base_update ?_ ?_ k
      · rfl
      · rfl
    unfold ps2Loop
    dsimp only
    split
    · exact ih body
    · exact body

theorem allBased_run (based : s.AllBased) : (s.dmaPs2Run channel).AllBased :=
  allBased_flags (allBased_ps2Loop _ based) rfl rfl

theorem allBased_step (based : s.AllBased) (a : DmaStep) : (s.step a).AllBased := by
  cases a with
  | read channel =>
    show (s.dmaChannelRead channel).2.AllBased
    unfold dmaChannelRead
    split
    · exact based
    · exact allBased_advance based rfl rfl
  | write channel val =>
    show (s.dmaChannelWrite channel val).2.AllBased
    unfold dmaChannelWrite
    split
    · exact based
    · exact allBased_advance based rfl rfl
  | run channel => exact allBased_run based

theorem allBased_ps2Command (based : s.AllBased) (val : BitVec 8) :
    (s.ps2Command val).AllBased := by
  have named : ({ s with
      xfrChannel := (val &&& 7).toNat, xfrCommand := val >>> 4, bytePtr := .zero } : Dma).AllBased
        :=
    allBased_flags based rfl rfl
  unfold ps2Command
  dsimp only
  split
  · exact allBased_flags named rfl rfl
  · exact allBased_flags named rfl rfl
  · split
    · exact allBased_run named
    · exact named
  · exact named

theorem allBased_ps2Data {val : BitVec 8} (based : s.AllBased) (ps2 : s.isPs2 = true)
    (written : s.ps2Data val = some t) : t.AllBased := by
  have other (p : Prop) : s.isPs2 = false → p := by
    rw [ps2]
    exact fun compat => absurd compat (by decide)
  unfold ps2Data at written
  dsimp only at written
  split at written
  · cases written
    refine allBased_flags (s := s.setChannel s.xfrChannel _) ?_ rfl rfl
    exact allBased_setChannel based rfl fun _ => rfl
  · cases written
    refine allBased_flags (s := s.setAddress s.xfrChannel _) ?_ rfl rfl
    refine allBased_setAddress based ?_ (other _)
    cases s.bytePtr with
    | zero => exact mask24 (and_lt (by decide)) small_lt
    | one => exact mask24 (and_lt (by decide)) (shifted_lt (by decide))
    | two => exact mask24 (and_lt (by decide)) (shifted_lt (by decide))
  · cases written
    refine allBased_flags (s := s.setChannel s.xfrChannel _) ?_ rfl rfl
    exact allBased_setChannel based rfl fun _ => rfl
  · cases written
    show (s.setChannel s.xfrChannel _).AllBased
    exact allBased_setChannel based rfl (other _)
  · cases written
    show (s.setChannel s.xfrChannel _).AllBased
    exact allBased_setChannel based rfl fun _ => rfl
  · cases written

theorem allBased_reset : s.reset.AllBased := by
  intro channel
  exact ⟨Nat.zero_lt_succ _, fun _ => decide_eq_true_iff, fun _ _ => rfl⟩

theorem Reachable.allBased (reached : Reachable s) : s.AllBased := by
  induction reached with
  | reset s => exact allBased_reset
  | dmaWrite addr val _ ih => exact allBased_dmaWrite ih addr val
  | dma16Write addr val _ ih => exact allBased_dma16Write ih addr val
  | dmaPageWrite addr val _ ih => exact allBased_dmaPageWrite ih addr val
  | ps2Command val _ _ ih => exact allBased_ps2Command ih val
  | ps2Data val _ ps2 written ih => exact allBased_ps2Data ih ps2 written
  | step a _ ih => exact allBased_step ih a

end Base

end Dma

end PCemWeb.Devices
