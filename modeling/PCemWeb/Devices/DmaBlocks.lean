import PCemWeb.Devices.DmaLaw

/-!
# Blocks of the PS/2 controller

`dma_ps2_run` transfers a block without its device asking: as many elements as the count says, but
one where the count is 0, at addresses that are not kept in the page. A verify run has its count
from channel 0.
-/

namespace PCemWeb.Devices

namespace DmaChannel

variable (c : DmaChannel)

def ps2Down : Bool := c.ps2Mode &&& 0x10 ≠ 0

/-- The current address after `k` elements. -/
def ps2At (k : Nat) : BitVec 32 :=
  if c.ps2Down then c.ac - BitVec.ofNat 32 (k * c.unit) else c.ac + BitVec.ofNat 32 (k * c.unit)

/-- The addresses of the bytes of the element there. -/
def ps2Bytes (k : Nat) : List Nat :=
  if c.size then [(c.ps2At k).toNat, (c.ps2At k + 1).toNat] else [(c.ps2At k).toNat]

/-- Not a verify run. -/
def transfers : Bool := c.ps2Mode &&& 0xc = 4 || c.ps2Mode &&& 0xc = 0xc

end DmaChannel

namespace Dma

variable {s t : Dma} {channel : Nat}

/-- What `dma_ps2_run` does of the transfer law: exactly the programmed number of elements, in the
page of the base address, and no change of other channels. -/
structure BlockLaw (s : Dma) (channel : Nat) : Prop where
  bus : (s.dmaPs2Run channel).busOf channel = s.busOf channel ++
    if (s.dma channel).transfers then
      (List.range (s.dma channel).cb.toNat).flatMap (s.dma channel).ps2Bytes
    else []
  ends : ((s.dmaPs2Run channel).dma channel).ac =
      (s.dma channel).ps2At (s.dma channel).cb.toNat ∧
    ((s.dmaPs2Run channel).dma channel).cc = 0
  page : ∀ k < (s.dma channel).cb.toNat, ∀ a ∈ (s.dma channel).ps2Bytes k,
    a / (s.dma channel).pageSize = (s.dma channel).ab.toNat / (s.dma channel).pageSize
  isolated : s.Isolated (.run channel)

/-- A count above 0, a block inside its page, and the channel's own count. -/
structure BlockServed (s : Dma) (channel : Nat) : Prop where
  counts : (s.dma channel).cb ≠ 0
  fits : (s.dma channel).FitsPage (s.dma channel).ps2Down (s.dma channel).cb.toNat
  own : s.countedBy channel = channel

/-! ## One element -/

theorem ps2At_zero {c : DmaChannel} : c.ps2At 0 = c.ac := by
  unfold DmaChannel.ps2At
  split <;> simp

theorem ps2Ac_eq {c : DmaChannel} : ps2Ac c = c.ps2At 1 := by
  unfold ps2Ac DmaChannel.ps2At DmaChannel.unit DmaChannel.ps2Down
  cases c.size <;> simp

theorem ps2At_move {c : DmaChannel} (k : Nat) {cc : Int} :
    DmaChannel.ps2At { c with ac := c.ps2At 1, cc } k = c.ps2At (k + 1) := by
  show (if c.ps2Down then c.ps2At 1 - BitVec.ofNat 32 (k * c.unit)
    else c.ps2At 1 + BitVec.ofNat 32 (k * c.unit)) = _
  have sum : BitVec.ofNat 32 ((k + 1) * c.unit) =
      BitVec.ofNat 32 (1 * c.unit) + BitVec.ofNat 32 (k * c.unit) := by
    rw [← BitVec.ofNat_add, ← Nat.add_mul, Nat.add_comm k 1]
  unfold DmaChannel.ps2At
  rw [sum]
  split
  · apply BitVec.eq_of_toNat_eq
    simp only [BitVec.toNat_sub, BitVec.toNat_add]
    omega
  · exact BitVec.add_assoc ..

/-- Where a block is after `n` elements. -/
structure BlockAt (s : Dma) (channel n : Nat) (t : Dma) : Prop where
  ac : (t.dma channel).ac = (s.dma channel).ps2At n
  cc : (t.dma channel).cc = (s.dma channel).cc - n
  bus : t.busOf channel = s.busOf channel ++
    if (s.dma channel).transfers then (List.range n).flatMap (s.dma channel).ps2Bytes else []

theorem bus_ps2Element : (s.ps2Element channel).busOf channel = s.busOf channel ++
    if (s.dma channel).transfers then (s.dma channel).ps2Bytes 0 else [] := by
  have addrs : (s.elementAddrs channel).map BitVec.toNat = (s.dma channel).ps2Bytes 0 := by
    unfold elementAddrs DmaChannel.ps2Bytes
    dsimp only
    rw [ps2At_zero]
    split <;> rfl
  unfold ps2Element DmaChannel.transfers
  dsimp only
  split
  next toPort =>
    rw [if_pos (by rw [decide_eq_true toPort]; rfl), ← addrs]
    exact busOf_touch_self _
  next other =>
    split
    next fromPort =>
      rw [if_pos (by rw [decide_eq_true fromPort, Bool.or_true]), ← addrs]
      exact busOf_touch_self _
    next verify =>
      rw [if_neg (by rw [decide_eq_false other, decide_eq_false verify]; decide), List.append_nil]

theorem dma_own (own : s.countedBy channel = channel) : (s.ps2Body channel).dma channel =
    { s.dma channel with
      ac := (s.dma channel).ps2At 1, cc := (s.dma channel).cc - 1 } := by
  rw [dma_ps2Body, own]
  dsimp only
  rw [Function.update_self, Function.update_self, ps2Ac_eq]

theorem bus_ps2Body : (s.ps2Body channel).busOf channel = s.busOf channel ++
    if (s.dma channel).transfers then (s.dma channel).ps2Bytes 0 else [] :=
  bus_ps2Element

/-- One element, and then a block of `n`. -/
theorem BlockAt.cons {n : Nat} (own : s.countedBy channel = channel)
    (rest : BlockAt (s.ps2Body channel) channel n t) : BlockAt s channel (n + 1) t := by
  obtain ⟨ac, cc, bus⟩ := rest
  rw [dma_own own] at ac cc bus
  refine ⟨ac.trans (ps2At_move n), ?_, ?_⟩
  · rw [cc]
    push_cast
    omega
  · have bytes (k : Nat) : DmaChannel.ps2Bytes { s.dma channel with
        ac := (s.dma channel).ps2At 1, cc := (s.dma channel).cc - 1 } k =
          (s.dma channel).ps2Bytes (k + 1) := by
      unfold DmaChannel.ps2Bytes
      rw [ps2At_move]
    rw [bus, bus_ps2Body]
    show _ ++ (if (s.dma channel).transfers then _ else _) ++
      (if (s.dma channel).transfers then _ else _) = _
    split
    · rw [List.append_assoc, List.range_succ_eq_map, List.flatMap_cons, List.flatMap_map]
      congr 3
      exact funext bytes
    · rw [List.append_nil]

theorem blockAt_body (own : s.countedBy channel = channel) :
    BlockAt s channel 1 (s.ps2Body channel) := by
  refine BlockAt.cons own ⟨ps2At_zero.symm, ?_, ?_⟩
  · exact (Int.sub_zero _).symm
  · split
    · exact (List.append_nil _).symm
    · exact (List.append_nil _).symm

/-- The loop ends by its own test: it makes as many passes as the count says, and at least one. -/
theorem blockAt_loop (fuel : Nat) : ∀ {s : Dma}, s.countedBy channel = channel →
    (s.dma channel).cc.toNat < fuel →
    BlockAt s channel (max 1 (s.dma channel).cc.toNat) (ps2Loop channel fuel s) := by
  induction fuel with
  | zero =>
    intro s _ enough
    exact absurd enough (Nat.not_lt_zero _)
  | succ fuel ih =>
    intro s own enough
    have left : ((s.ps2Body channel).dma channel).cc = (s.dma channel).cc - 1 := by
      rw [dma_own own]
    unfold ps2Loop
    dsimp only
    rw [own, left]
    split
    next more =>
      have rest := ih (s := s.ps2Body channel) (by rw [countedBy_ps2Body, own])
        (by rw [left]; omega)
      rw [left] at rest
      have passes : max 1 (s.dma channel).cc.toNat = max 1 ((s.dma channel).cc - 1).toNat + 1 := by
        omega
      rw [passes]
      exact rest.cons own
    next done =>
      have passes : max 1 (s.dma channel).cc.toNat = 1 := by omega
      rw [passes]
      exact blockAt_body own

/-! ## The count of another channel -/

theorem cc_counted : ((s.ps2Body channel).dma (s.countedBy channel)).cc =
    (s.dma (s.countedBy channel)).cc - 1 := by
  rw [dma_ps2Body]
  dsimp only
  rw [Function.update_self]
  show (Function.update s.dma channel _ (s.countedBy channel)).cc - 1 = _
  rcases eq_or_ne (s.countedBy channel) channel with own | other
  · rw [own, Function.update_self]
  · rw [Function.update_of_ne other]

theorem cc_loop (channel fuel : Nat) : ∀ {s : Dma},
    ((ps2Loop channel (fuel + 1) s).dma (s.countedBy channel)).cc <
      (s.dma (s.countedBy channel)).cc := by
  induction fuel with
  | zero =>
    intro s
    unfold ps2Loop ps2Loop
    dsimp only
    split
    · rw [cc_counted]
      omega
    · rw [cc_counted]
      omega
  | succ fuel ih =>
    intro s
    have body := @cc_counted s channel
    unfold ps2Loop
    dsimp only
    split
    · have rest := ih (s := s.ps2Body channel)
      rw [countedBy_ps2Body] at rest
      omega
    · omega

/-- Exactly the verify runs of channels other than 0 change another channel. -/
theorem isolated_run_iff : s.Isolated (.run channel) ↔ s.countedBy channel = channel := by
  constructor
  · intro isolated
    by_contra other
    obtain ⟨-, -, cc, -⟩ := isolated (s.countedBy channel) other
    have less := cc_loop channel (s.dma (s.countedBy channel)).cc.toNat (s := s)
    exact absurd cc (Int.ne_of_lt less)
  · intro own
    exact isolated_step (not_not.mpr own)

/-! ## The page -/

theorem toNat_ps2At {c : DmaChannel} {k : Nat} (bound : c.ac.toNat < 16777216)
    (few : k ≤ 65535) : (c.ps2At k).toNat =
      if c.ps2Down then (4294967296 - k * c.unit + c.ac.toNat) % 4294967296
      else c.ac.toNat + k * c.unit := by
  have small : k * c.unit ≤ 131070 := by
    unfold DmaChannel.unit
    split <;> omega
  have value : (BitVec.ofNat 32 (k * c.unit)).toNat = k * c.unit := by
    rw [BitVec.toNat_ofNat]
    exact Nat.mod_eq_of_lt (by omega)
  unfold DmaChannel.ps2At
  split
  · rw [toNat_sub _ value]
  · rw [toNat_add _ (by omega) value]

theorem page_iff {c : DmaChannel} (bound : c.ab.toNat < 16777216) (ac : c.ac = c.ab) {n : Nat}
    (some_ : 0 < n) (few : n ≤ 65535) :
    (∀ k < n, ∀ a ∈ c.ps2Bytes k, a / c.pageSize = c.ab.toNat / c.pageSize) ↔
      c.FitsPage c.ps2Down n := by
  have at_ {k : Nat} (inside : k < n) := toNat_ps2At (c := c) (k := k) (by rw [ac]; exact bound)
    (by omega)
  rw [ac] at at_
  have one : (1 : BitVec 32).toNat = 1 := rfl
  constructor
  · intro page
    have first := page 0 some_
    have last := page (n - 1) (by omega)
    have at_first := at_ some_
    have at_last := at_ (k := n - 1) (by omega)
    unfold DmaChannel.FitsPage
    unfold DmaChannel.ps2Bytes DmaChannel.pageSize DmaChannel.unit at *
    cases size : c.size <;> cases down : c.ps2Down <;>
      simp only [size, down, Bool.false_eq_true, if_true, if_false,
        List.mem_cons, List.not_mem_nil, or_false, forall_eq, forall_eq_or_imp,
        BitVec.toNat_add, one] at first last at_first at_last ⊢ <;>
      rw [at_first] at first <;> rw [at_last] at last
    all_goals omega
  · intro fits k inside a listed
    have at_k := at_ inside
    unfold DmaChannel.FitsPage at fits
    unfold DmaChannel.ps2Bytes DmaChannel.pageSize DmaChannel.unit at *
    cases size : c.size <;> cases down : c.ps2Down <;>
      simp only [size, down, Bool.false_eq_true, if_true, if_false,
        List.mem_cons, List.not_mem_nil, or_false, BitVec.toNat_add, one] at fits listed at_k ⊢ <;>
      rw [at_k] at listed
    all_goals omega

/-! ## Blocks -/

theorem blockAt_run (own : s.countedBy channel = channel) : BlockAt s channel
    (max 1 (s.dma channel).cc.toNat) (s.dmaPs2Run channel) := by
  have loop := blockAt_loop ((s.dma channel).cc.toNat + 1) own (Nat.lt_succ_self _)
  unfold dmaPs2Run
  dsimp only
  rw [own]
  exact ⟨loop.ac, loop.cc, loop.bus⟩

theorem blockLaw_iff (bound : (s.dma channel).ab.toNat < 16777216)
    (programmed : s.Programmed channel) : BlockLaw s channel ↔ BlockServed s channel := by
  have cb := (s.dma channel).cb.isLt
  have count : (s.dma channel).cc.toNat = (s.dma channel).cb.toNat := by
    rw [programmed.cc]
    exact Int.toNat_natCast _
  have positive : (s.dma channel).cb ≠ 0 ↔ 0 < (s.dma channel).cb.toNat := by
    rw [Nat.pos_iff_ne_zero, ne_eq, ne_eq, not_iff_not]
    exact BitVec.toNat_inj.symm
  constructor
  · intro law
    have own := isolated_run_iff.mp law.isolated
    have run := blockAt_run own
    have counts : 0 < (s.dma channel).cb.toNat := by
      have cc := run.cc
      rw [law.ends.2, programmed.cc, Int.toNat_natCast] at cc
      omega
    exact ⟨positive.mpr counts,
      (page_iff bound programmed.ac counts (by omega)).mp law.page, own⟩
  · intro served
    have counts := positive.mp served.counts
    have run := blockAt_run served.own
    have passes : max 1 (s.dma channel).cc.toNat = (s.dma channel).cb.toNat := by omega
    rw [passes] at run
    refine ⟨run.bus, ⟨run.ac, ?_⟩, (page_iff bound programmed.ac counts (by omega)).mpr served.fits,
      isolated_run_iff.mpr served.own⟩
    rw [run.cc, programmed.cc]
    exact Int.sub_self _

/-- A programmed channel keeps the transfer law in every run that serves it, and a block of the PS/2
controller exactly when it is served. -/
theorem transferLaws (reached : Reachable s) (inside : channel < 8)
    (programmed : s.Programmed channel) :
    (∀ steps, Served s channel steps → TransferLaw s channel steps) ∧
      (BlockLaw s channel ↔ BlockServed s channel) := by
  have based := reached.allBased channel
  exact ⟨fun steps served => transferLaw_of_served programmed inside based steps served,
    blockLaw_iff based.bound programmed⟩

/-- A controller without any history. -/
def powerOn (isPs2 : Bool) : Dma where
  dma := fun _ => ⟨0, 0, 0, 0, 0, 0, false, 0, 0, 0⟩
  wp := false
  wp16 := false
  m := 0
  stat := 0
  statRq := 0
  command := 0
  command16 := 0
  xfrCommand := 0
  xfrChannel := 0
  bytePtr := .zero
  isPs2
  at_ := true
  mem := fun _ => 0
  bus := []
  inputs := []
  outputs := []

theorem transferLaws_powerOn :
    (∀ steps, Served (powerOn false).reset 3 steps → TransferLaw (powerOn false).reset 3 steps) ∧
      (BlockLaw (powerOn false).reset 3 ↔ BlockServed (powerOn false).reset 3) :=
  transferLaws (.reset _) (by decide) ⟨rfl, rfl, by decide⟩

/-- A verify run of channel 1 uses up the count of channel 0. -/
theorem not_isolated_verify :
    Reachable (((powerOn true).reset.dmaWrite 1 5).dmaWrite 1 0) ∧
      ¬(((powerOn true).reset.dmaWrite 1 5).dmaWrite 1 0).Isolated (.run 1) :=
  ⟨.dmaWrite 1 0 (.dmaWrite 1 5 (.reset _)), mt isolated_run_iff.mp (by decide)⟩

end Dma

end PCemWeb.Devices
