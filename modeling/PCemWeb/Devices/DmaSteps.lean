import PCemWeb.Devices.Dma
import PCemWeb.Lib.BitFields

/-!
# Steps of the DMA controllers

What a transfer on one channel leaves alone of the others, and which base addresses programs can
set. A verify run of `dma_ps2_run` counts on channel 0 whatever its channel is, so it is the one
step that changes another channel.
-/

namespace PCemWeb.Devices

/-- The transfer of one element, or of a block. -/
inductive DmaStep
  | read (channel : Nat)
  | write (channel : Nat) (val : BitVec 16)
  | run (channel : Nat)

def DmaStep.channel : DmaStep → Nat
  | read channel => channel
  | write channel _ => channel
  | run channel => channel

namespace Dma

variable (s : Dma)

def step : DmaStep → Dma
  | .read channel => (s.dmaChannelRead channel).2
  | .write channel val => (s.dmaChannelWrite channel val).2
  | .run channel => s.dmaPs2Run channel

def runs (steps : List DmaStep) : Dma := steps.foldl step s

/-- A verify run that counts on a channel other than its own. -/
def MiscountedBy : DmaStep → Prop
  | .run channel => s.countedBy channel ≠ channel
  | _ => False

/-- The addresses that were accessed for a channel. -/
def busOf (channel : Nat) : List Nat :=
  (s.bus.filter fun access => access.1 = channel).map fun access => access.2.toNat

/-- The step changes the address, count, mode and mask state of its own channel only. -/
def Isolated (a : DmaStep) : Prop :=
  ∀ other ≠ a.channel,
    ((s.step a).dma other).ac = (s.dma other).ac ∧ ((s.step a).dma other).ab = (s.dma other).ab ∧
    ((s.step a).dma other).cc = (s.dma other).cc ∧ ((s.step a).dma other).cb = (s.dma other).cb ∧
    ((s.step a).dma other).mode = (s.dma other).mode ∧ (s.step a).masked other = s.masked other

/-- All about a channel that its transfers use. -/
structure SameFor (other : Nat) (s t : Dma) : Prop where
  dma : t.dma other = s.dma other
  masked : t.masked other = s.masked other
  bus : t.busOf other = s.busOf other
  isPs2 : t.isPs2 = s.isPs2
  command : t.command = s.command
  command16 : t.command16 = s.command16

section Steps

variable {s} {t u : Dma} {channel other : Nat} {c : DmaChannel} {a : DmaStep}

theorem SameFor.refl : SameFor other s s := ⟨rfl, rfl, rfl, rfl, rfl, rfl⟩

theorem SameFor.trans (first : SameFor other s t) (second : SameFor other t u) :
    SameFor other s u :=
  ⟨second.dma.trans first.dma, second.masked.trans first.masked, second.bus.trans first.bus,
    second.isPs2.trans first.isPs2, second.command.trans first.command,
    second.command16.trans first.command16⟩

/-! ## Masks -/

theorem masked_eq : s.masked channel = s.m.getLsbD channel := by
  rw [masked, ← BitVec.twoPow_eq]
  by_cases inside : channel < 8
  · cases bit : s.m.getLsbD channel with
    | false => exact decide_eq_false (not_not.mpr ((Lib.and_twoPow_eq_zero s.m inside).mpr bit))
    | true =>
      refine decide_eq_true fun zero => ?_
      rw [(Lib.and_twoPow_eq_zero s.m inside).mp zero] at bit
      cases bit
  · rw [BitVec.getLsbD_of_ge _ _ (Nat.le_of_not_lt inside), BitVec.and_twoPow,
      BitVec.getLsbD_of_ge _ _ (Nat.le_of_not_lt inside)]
    rfl

theorem masked_setMask_self (inside : channel < 8) (on : Bool) :
    (s.setMask channel on).masked channel = on := by
  rw [masked_eq, setMask, ← BitVec.twoPow_eq]
  cases on <;> simp [inside]

theorem masked_setMask_of_ne (apart : other ≠ channel) (on : Bool) :
    (s.setMask channel on).masked other = s.masked other := by
  rw [masked_eq, masked_eq, setMask, ← BitVec.twoPow_eq]
  cases on <;> simp [apart.symm]
  intro bit
  exact BitVec.lt_of_getLsbD bit

theorem sameFor_setMask (apart : other ≠ channel) (on : Bool) :
    SameFor other s (s.setMask channel on) :=
  ⟨rfl, masked_setMask_of_ne apart on, rfl, rfl, rfl, rfl⟩

theorem sameFor_setChannel (apart : other ≠ channel) :
    SameFor other s (s.setChannel channel c) :=
  ⟨Function.update_of_ne apart .., rfl, rfl, rfl, rfl, rfl⟩

/-! ## Elements -/

theorem busOf_touch_self (addrs : List (BitVec 32)) :
    (s.touch channel addrs).busOf channel = s.busOf channel ++ addrs.map BitVec.toNat := by
  rw [busOf, busOf, touch, List.filter_append, List.map_append]
  congr 1
  rw [List.filter_eq_self.mpr (by simp), List.map_map]
  rfl

theorem busOf_touch_of_ne (apart : other ≠ channel) (addrs : List (BitVec 32)) :
    (s.touch channel addrs).busOf other = s.busOf other := by
  rw [busOf, busOf, touch, List.filter_append,
    List.filter_eq_nil_iff (l := addrs.map (channel, ·)) |>.mpr (by simp [apart.symm]),
    List.append_nil]

theorem sameFor_touch (apart : other ≠ channel) (addrs : List (BitVec 32)) :
    SameFor other s (s.touch channel addrs) :=
  ⟨rfl, rfl, busOf_touch_of_ne apart addrs, rfl, rfl, rfl⟩

theorem sameFor_readElement (apart : other ≠ channel) :
    SameFor other s (s.readElement channel).2 :=
  sameFor_touch apart _

theorem sameFor_writeElement (apart : other ≠ channel) (val : BitVec 16) :
    SameFor other s (s.writeElement channel val) :=
  ⟨rfl, rfl, busOf_touch_of_ne apart _, rfl, rfl, rfl⟩

/-! ## Single elements -/

theorem sameFor_advance (apart : other ≠ channel) : SameFor other s (s.advance channel).2 := by
  unfold advance
  dsimp only
  split
  · split
    · exact ⟨Function.update_of_ne apart .., rfl, rfl, rfl, rfl, rfl⟩
    · exact ⟨Function.update_of_ne apart .., masked_setMask_of_ne apart true, rfl, rfl, rfl, rfl⟩
  · exact ⟨Function.update_of_ne apart .., rfl, rfl, rfl, rfl, rfl⟩

theorem sameFor_read (apart : other ≠ channel) : SameFor other s (s.dmaChannelRead channel).2 := by
  unfold dmaChannelRead
  split
  · exact .refl
  · exact (sameFor_readElement apart).trans (sameFor_advance apart)

theorem sameFor_write (apart : other ≠ channel) (val : BitVec 16) :
    SameFor other s (s.dmaChannelWrite channel val).2 := by
  unfold dmaChannelWrite
  split
  · exact .refl
  · exact (sameFor_writeElement apart val).trans (sameFor_advance apart)

/-! ## Blocks -/

theorem dma_touch (addrs : List (BitVec 32)) : (s.touch channel addrs).dma = s.dma := rfl

theorem dma_ps2Element : (s.ps2Element channel).dma = s.dma := by
  unfold ps2Element
  dsimp only
  split
  · rfl
  split <;> rfl

theorem sameFor_ps2Element (apart : other ≠ channel) :
    SameFor other s (s.ps2Element channel) := by
  unfold ps2Element
  dsimp only
  split
  · exact ⟨rfl, rfl, busOf_touch_of_ne apart _, rfl, rfl, rfl⟩
  split
  · exact ⟨rfl, rfl, busOf_touch_of_ne apart _, rfl, rfl, rfl⟩
  · exact .refl

/-- The channel of a block and the one that counts it. -/
theorem dma_ps2Body : (s.ps2Body channel).dma =
    let moved := Function.update s.dma channel
      { s.dma channel with ac := ps2Ac (s.dma channel) }
    Function.update moved (s.countedBy channel)
      { moved (s.countedBy channel) with cc := (moved (s.countedBy channel)).cc - 1 } := by
  unfold ps2Body
  dsimp only [setChannel]
  rw [dma_ps2Element]

theorem sameFor_ps2Body (apart : other ≠ channel) (uncounted : other ≠ s.countedBy channel) :
    SameFor other s (s.ps2Body channel) := by
  have element := sameFor_ps2Element (s := s) apart
  refine ⟨?_, element.masked, element.bus, element.isPs2, element.command, element.command16⟩
  rw [dma_ps2Body]
  dsimp only
  rw [Function.update_of_ne uncounted, Function.update_of_ne apart]

theorem ps2Mode_ps2Body (d : Nat) :
    ((s.ps2Body channel).dma d).ps2Mode = (s.dma d).ps2Mode := by
  rw [dma_ps2Body]
  dsimp only
  rcases eq_or_ne d (s.countedBy channel) with same | apart
  · rw [same, Function.update_self]
    show (Function.update s.dma channel _ (s.countedBy channel)).ps2Mode = _
    rcases eq_or_ne (s.countedBy channel) channel with own | other
    · rw [own, Function.update_self]
    · rw [Function.update_of_ne other]
  · rw [Function.update_of_ne apart]
    rcases eq_or_ne d channel with rfl | other
    · rw [Function.update_self]
    · rw [Function.update_of_ne other]

theorem countedBy_ps2Body : (s.ps2Body channel).countedBy channel = s.countedBy channel := by
  rw [countedBy, countedBy, ps2Mode_ps2Body]

theorem sameFor_ps2Loop (apart : other ≠ channel) (fuel : Nat) :
    ∀ {s : Dma}, other ≠ s.countedBy channel → SameFor other s (ps2Loop channel fuel s) := by
  induction fuel with
  | zero =>
    intro s _
    exact .refl
  | succ fuel ih =>
    intro s uncounted
    unfold ps2Loop
    dsimp only
    have body := sameFor_ps2Body apart uncounted
    split
    · exact body.trans (ih (by rw [countedBy_ps2Body]; exact uncounted))
    · exact body

theorem sameFor_run (apart : other ≠ channel) (uncounted : other ≠ s.countedBy channel) :
    SameFor other s (s.dmaPs2Run channel) := by
  have loop := sameFor_ps2Loop apart ((s.dma (s.countedBy channel)).cc.toNat + 1) uncounted
  exact ⟨loop.dma, loop.masked, loop.bus, loop.isPs2, loop.command, loop.command16⟩

/-- A step that does not miscount leaves every other channel alone. -/
theorem sameFor_step (apart : other ≠ a.channel) (counted : ¬s.MiscountedBy a) :
    SameFor other s (s.step a) := by
  cases a with
  | read channel => exact sameFor_read apart
  | write channel val => exact sameFor_write apart val
  | run channel =>
    have own : s.countedBy channel = channel := not_not.mp counted
    exact sameFor_run apart (by rw [own]; exact apart)

theorem isolated_step (counted : ¬s.MiscountedBy a) : s.Isolated a := by
  intro other apart
  have same := sameFor_step apart counted
  rw [same.dma]
  exact ⟨rfl, rfl, rfl, rfl, rfl, same.masked⟩

end Steps

end Dma

end PCemWeb.Devices
