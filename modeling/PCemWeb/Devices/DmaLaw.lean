import PCemWeb.Devices.DmaBase
import Mathlib.Data.BitVec
import Mathlib.Data.List.Induction

/-!
# What a channel transfers

A channel that has been programmed serves the requests of its device with the elements of its block
in order, inside one page, and masks itself or starts again after the last one, whatever the other
channels do. On the PS/2 controller this needs a block that stays in its page, and a block that
`dma_ps2_run` transfers needs a count above 0.
-/

namespace PCemWeb.Devices

namespace DmaChannel

variable (c : DmaChannel)

/-- The bytes of an element. -/
def unit : Nat := if c.size then 2 else 1

/-- The bytes of a page. -/
def pageSize : Nat := if c.size then 131072 else 65536

/-- The address of an element of the block at the base address, inside its page. -/
def element (down : Bool) (k : Nat) : Nat :=
  c.ab.toNat / c.pageSize * c.pageSize +
    (if down then c.ab.toNat % c.pageSize + c.pageSize - k * c.unit
    else c.ab.toNat % c.pageSize + k * c.unit) % c.pageSize

/-- The addresses of its bytes. -/
def bytes (down : Bool) (k : Nat) : List Nat :=
  if c.size then [c.element down k, c.element down k + 1] else [c.element down k]

/-- A block of `n` elements does not run out of its page. -/
def FitsPage (down : Bool) (n : Nat) : Prop :=
  if down then
    (n - 1) * c.unit ≤ c.ab.toNat % c.pageSize ∧ c.ab.toNat % c.pageSize + c.unit ≤ c.pageSize
  else c.ab.toNat % c.pageSize + n * c.unit ≤ c.pageSize

def down : Bool := c.mode &&& 0x20 ≠ 0

def autoInit : Bool := c.mode &&& 0x10 ≠ 0

/-- The elements of a block: one more than the base count. -/
def length : Nat := c.cb.toNat + 1

variable {c}

theorem element_zero (down : Bool) : c.element down 0 = c.ab.toNat := by
  unfold element pageSize unit
  cases c.size <;> cases down <;> simp <;> omega

end DmaChannel

/-- An address whose low bits are moved inside a page. -/
theorem toNat_inPage {p : Nat} {x y : BitVec 32} {page offset : BitVec 32} (small : p ≤ 24)
    (pageMask : page.toNat = 2 ^ p * (2 ^ (24 - p) - 1)) (offsetMask : offset.toNat = 2 ^ p - 1)
    (bound : x.toNat < 2 ^ 24) :
    (x &&& page ||| y &&& offset).toNat = 2 ^ p * (x.toNat / 2 ^ p) + y.toNat % 2 ^ p := by
  rw [BitVec.toNat_or, BitVec.toNat_and, BitVec.toNat_and, pageMask, offsetMask,
    Nat.and_two_pow_sub_one_eq_mod]
  apply Nat.eq_of_testBit_eq
  intro j
  rw [Nat.testBit_two_pow_mul_add _ (Nat.mod_lt _ (Nat.two_pow_pos p)), Nat.testBit_or,
    Nat.testBit_and, Nat.testBit_two_pow_mul, Nat.testBit_two_pow_sub_one, Nat.testBit_mod_two_pow,
    Nat.testBit_div_two_pow]
  by_cases low : j < p
  · have under : ¬j ≥ p := by omega
    rw [if_pos low]
    simp [low, under]
  · have over_ : j ≥ p := by omega
    have back : j - p + p = j := by omega
    rw [if_neg low, back]
    by_cases high : j < 24
    · have inside : j - p < 24 - p := by omega
      simp [low, inside, over_]
    · have above : x.toNat.testBit j = false :=
        Nat.testBit_lt_two_pow (Nat.lt_of_lt_of_le bound
          (Nat.pow_le_pow_right (by decide) (Nat.le_of_not_lt high)))
      simp [low, above]

namespace Dma

variable {s t u : Dma} {channel : Nat} {c : DmaChannel} {i : Nat}

theorem toNat_add {x : BitVec 32} (y : BitVec 32) {n : Nat} (small : x.toNat + n < 4294967296)
    (value : y.toNat = n) : (x + y).toNat = x.toNat + n := by
  rw [BitVec.toNat_add, value]
  exact Nat.mod_eq_of_lt small

theorem toNat_sub {x : BitVec 32} (y : BitVec 32) {n : Nat} (value : y.toNat = n) : (x - y).toNat =
    (4294967296 - n + x.toNat) % 4294967296 := by
  rw [BitVec.toNat_sub, value]

/-- The next address is that of the next element. -/
theorem toNat_nextAc (bound : c.ab.toNat < 16777216) (inside : i + 1 < c.length)
    (fits : s.isPs2 = true → c.FitsPage c.down c.length) {d : DmaChannel}
    (mode : d.mode = c.mode) (size : d.size = c.size)
    (at_ : d.ac.toNat = c.element c.down i) :
    (s.nextAc d).toNat = c.element c.down (i + 1) := by
  have cb := c.cb.isLt
  have down_iff : c.mode &&& 0x20 ≠ 0 ↔ c.down = true := decide_eq_true_iff.symm
  unfold nextAc
  rw [mode, size]
  simp only [down_iff]
  unfold DmaChannel.length at inside fits
  unfold DmaChannel.element DmaChannel.FitsPage DmaChannel.pageSize DmaChannel.unit at *
  generalize c.down = down at *
  have one : (1#32).toNat = 1 := rfl
  have two : (2#32).toNat = 2 := rfl
  have add1 := @toNat_add d.ac 1#32 1
  have add2 := @toNat_add d.ac 2#32 2
  have sub1 := @toNat_sub d.ac 1#32 1 rfl
  have sub2 := @toNat_sub d.ac 2#32 2 rfl
  cases size_ : c.size <;> cases ps2 : s.isPs2 <;> cases down <;>
    simp only [size_, ps2, Bool.not_false, Bool.not_true, Bool.false_eq_true, if_true, if_false,
      forall_true_left] at *
  · rw [toNat_inPage (p := 16) (by decide) rfl rfl (by omega), add1 (by omega) rfl]
    omega
  · rw [toNat_inPage (p := 16) (by decide) rfl rfl (by omega), sub1]
    omega
  · rw [add1 (by omega) rfl]
    omega
  · rw [sub1]
    omega
  · rw [toNat_inPage (p := 17) (by decide) rfl rfl (by omega), add2 (by omega) rfl]
    omega
  · rw [toNat_inPage (p := 17) (by decide) rfl rfl (by omega), sub2]
    omega
  · rw [add2 (by omega) rfl]
    omega
  · rw [sub2]
    omega

theorem map_elementAddrs (bound : c.ab.toNat < 16777216) {down : Bool}
    (size : (s.dma channel).size = c.size)
    (at_ : (s.dma channel).ac.toNat = c.element down i) :
    (s.elementAddrs channel).map BitVec.toNat = c.bytes down i := by
  unfold elementAddrs
  dsimp only
  rw [size, DmaChannel.bytes]
  have small : c.element down i < 33554432 := by
    unfold DmaChannel.element DmaChannel.pageSize
    split <;> omega
  split
  · have next := toNat_add (x := (s.dma channel).ac) 1#32 (n := 1) (by omega) rfl
    show [_, (_ + 1#32).toNat] = _
    rw [next, at_]
  · show [_] = _
    rw [at_]

/-- Every byte of an element is in the page of the base address. -/
theorem page_bytes (based : Based s.isPs2 channel c) {down : Bool} {n : Nat} (inside : i < n)
    (small : n ≤ 65536) (fits : s.isPs2 = true → c.FitsPage down n) {a : Nat}
    (listed : a ∈ c.bytes down i) : a / c.pageSize = c.ab.toNat / c.pageSize := by
  obtain ⟨bound, size, even⟩ := based
  unfold DmaChannel.bytes at listed
  unfold DmaChannel.FitsPage at fits
  unfold DmaChannel.element DmaChannel.pageSize DmaChannel.unit at *
  cases size_ : c.size with
  | false =>
    simp only [size_, Bool.false_eq_true, if_false, List.mem_singleton] at *
    omega
  | true =>
    simp only [size_, if_true, List.mem_cons, List.not_mem_nil, or_false, true_iff] at *
    cases ps2 : s.isPs2 with
    | false =>
      have words := even ps2 (size ps2)
      cases down <;> simp only [Bool.false_eq_true, if_true, if_false] at listed <;> omega
    | true =>
      have room := fits ps2
      cases down <;> simp only [Bool.false_eq_true, if_true, if_false] at listed room <;> omega

/-! ## Requests -/

/-- The controller of a channel is on. -/
def enabled (s : Dma) (channel : Nat) : Bool :=
  if channel < 4 then s.command &&& 4 = 0 else s.command16 &&& 4 = 0

/-- A device asks for an element in the direction that the channel is programmed for. -/
def isRequest (s : Dma) (channel : Nat) : DmaStep → Bool
  | .read d => d = channel && s.enabled channel && (s.dma channel).mode &&& 0xc = 8
  | .write d _ => d = channel && s.enabled channel && (s.dma channel).mode &&& 0xc = 4
  | .run _ => false

/-- The elements that are transferred for `r` requests. -/
def served (s : Dma) (channel : Nat) (r : Nat) : Nat :=
  if (s.dma channel).autoInit then r else min r (s.dma channel).length

/-- A channel that starts with the base address and count. -/
structure Programmed (s : Dma) (channel : Nat) : Prop where
  ac : (s.dma channel).ac = (s.dma channel).ab
  cc : (s.dma channel).cc = (s.dma channel).cb.toNat
  unmasked : s.masked channel = false

/-- What a channel has been programmed with. -/
structure SameProgram (c d : DmaChannel) : Prop where
  ab : d.ab = c.ab
  cb : d.cb = c.cb
  mode : d.mode = c.mode
  size : d.size = c.size

/-- Where a channel is after `r` requests since state `s`. -/
structure Tracks (s : Dma) (channel : Nat) (r : Nat) (t : Dma) : Prop where
  own : SameProgram (s.dma channel) (t.dma channel)
  isPs2 : t.isPs2 = s.isPs2
  command : t.command = s.command
  command16 : t.command16 = s.command16
  bus : t.busOf channel = s.busOf channel ++ (List.range (s.served channel r)).flatMap fun k =>
    (s.dma channel).bytes (s.dma channel).down (k % (s.dma channel).length)
  open_ : (s.dma channel).autoInit = true ∨ r < (s.dma channel).length →
    t.masked channel = false ∧
    (t.dma channel).ac.toNat =
      (s.dma channel).element (s.dma channel).down (r % (s.dma channel).length) ∧
    (t.dma channel).cc = ((s.dma channel).cb.toNat - r % (s.dma channel).length : Nat)
  closed : (s.dma channel).autoInit = false → (s.dma channel).length ≤ r →
    t.masked channel = true

theorem Programmed.tracks (programmed : s.Programmed channel) : Tracks s channel 0 s := by
  have none_ : s.served channel 0 = 0 := by
    unfold served
    split
    · rfl
    · exact Nat.zero_min _
  refine ⟨⟨rfl, rfl, rfl, rfl⟩, rfl, rfl, rfl, ?_, fun _ => ⟨programmed.unmasked, ?_, ?_⟩,
    fun _ full => ?_⟩
  · rw [none_]
    exact (List.append_nil _).symm
  · rw [Nat.zero_mod, DmaChannel.element_zero, programmed.ac]
  · rw [Nat.zero_mod, programmed.cc]
    rfl
  · exact absurd full (Nat.not_succ_le_zero _)

theorem Tracks.frame {r : Nat} (tracks : Tracks s channel r t) (same : SameFor channel t u) :
    Tracks s channel r u := by
  obtain ⟨own, isPs2, command, command16, bus, open_, closed⟩ := tracks
  refine ⟨?_, same.isPs2.trans isPs2, same.command.trans command,
    same.command16.trans command16, same.bus.trans bus, ?_, ?_⟩
  · rw [same.dma]
    exact own
  · rw [same.dma, same.masked]
    exact open_
  · rw [same.masked]
    exact closed

/-! ## One transfer -/

section Advance

variable {v : Dma}

theorem advance_keeps : SameProgram (v.dma channel) ((v.advance channel).2.dma channel) ∧
    (v.advance channel).2.isPs2 = v.isPs2 ∧ (v.advance channel).2.command = v.command ∧
    (v.advance channel).2.command16 = v.command16 ∧
    (v.advance channel).2.busOf channel = v.busOf channel := by
  obtain ⟨ac, cc, dma⟩ := @dma_advance v channel
  rw [dma, Function.update_self]
  refine ⟨⟨rfl, rfl, rfl, rfl⟩, isPs2_advance, ?_⟩
  unfold Dma.advance
  dsimp only
  split
  · split
    · exact ⟨rfl, rfl, rfl⟩
    · exact ⟨rfl, rfl, rfl⟩
  · exact ⟨rfl, rfl, rfl⟩

theorem advance_more (more : ¬(v.dma channel).cc - 1 < 0) :
    ((v.advance channel).2.dma channel).ac = v.nextAc (v.dma channel) ∧
      ((v.advance channel).2.dma channel).cc = (v.dma channel).cc - 1 ∧
      (v.advance channel).2.masked channel = v.masked channel := by
  unfold Dma.advance
  dsimp only
  rw [if_neg more]
  show (Function.update v.dma channel _ channel).ac = _ ∧
    (Function.update v.dma channel _ channel).cc = _ ∧ _
  rw [Function.update_self]
  exact ⟨rfl, rfl, rfl⟩

theorem advance_reload (last : (v.dma channel).cc - 1 < 0)
    (auto : (v.dma channel).autoInit = true) :
    ((v.advance channel).2.dma channel).ac = (v.dma channel).ab ∧
      ((v.advance channel).2.dma channel).cc = (v.dma channel).cb.toNat ∧
      (v.advance channel).2.masked channel = v.masked channel := by
  unfold Dma.advance
  dsimp only
  rw [if_pos last, if_pos (of_decide_eq_true auto)]
  show (Function.update v.dma channel _ channel).ac = _ ∧
    (Function.update v.dma channel _ channel).cc = _ ∧ _
  rw [Function.update_self]
  exact ⟨rfl, rfl, rfl⟩

theorem advance_mask (inside : channel < 8) (last : (v.dma channel).cc - 1 < 0)
    (single : (v.dma channel).autoInit = false) :
    (v.advance channel).2.masked channel = true := by
  unfold Dma.advance
  dsimp only
  rw [if_pos last, if_neg (of_decide_eq_false single)]
  exact masked_setMask_self inside true

end Advance

/-- The state after the element has been transferred. -/
structure Moved (channel : Nat) (t v : Dma) : Prop where
  dma : v.dma = t.dma
  m : v.m = t.m
  isPs2 : v.isPs2 = t.isPs2
  command : v.command = t.command
  command16 : v.command16 = t.command16
  bus : v.busOf channel = t.busOf channel ++ (t.elementAddrs channel).map BitVec.toNat

theorem moved_read : Moved channel t (t.readElement channel).2 :=
  ⟨rfl, rfl, rfl, rfl, rfl, busOf_touch_self _⟩

theorem moved_write (val : BitVec 16) : Moved channel t (t.writeElement channel val) :=
  ⟨rfl, rfl, rfl, rfl, rfl, busOf_touch_self _⟩

theorem served_eq {r : Nat}
    (open_ : (s.dma channel).autoInit = true ∨ r ≤ (s.dma channel).length) :
    s.served channel r = r := by
  unfold served
  split
  · rfl
  next single => exact Nat.min_eq_left (open_.resolve_left single)

/-- The bytes of one more element. -/
theorem flatMap_range_succ {α : Type} (f : Nat → List α) (n : Nat) :
    (List.range (n + 1)).flatMap f = (List.range n).flatMap f ++ f n := by
  rw [List.range_succ, List.flatMap_append, List.flatMap_singleton]

theorem Tracks.advance {r : Nat} {v : Dma} (tracks : Tracks s channel r t) (inside : channel < 8)
    (based : Based s.isPs2 channel (s.dma channel))
    (fits : s.isPs2 = true →
      (s.dma channel).FitsPage (s.dma channel).down (s.dma channel).length)
    (open_ : (s.dma channel).autoInit = true ∨ r < (s.dma channel).length)
    (moved : Moved channel t v) : Tracks s channel (r + 1) (v.advance channel).2 := by
  obtain ⟨unmasked, ac, cc⟩ := tracks.open_ open_
  obtain ⟨ab, cb, mode, size⟩ := tracks.own
  rw [← moved.dma] at ab cb mode size ac cc
  obtain ⟨kept, isPs2, command, command16, same⟩ := @advance_keeps channel v
  have length : (s.dma channel).length = (s.dma channel).cb.toNat + 1 := rfl
  have place : r % (s.dma channel).length < (s.dma channel).length :=
    Nat.mod_lt r (Nat.succ_pos _)
  have count : (v.dma channel).cc - 1 < 0 ↔
      r % (s.dma channel).length + 1 = (s.dma channel).length := by
    rw [cc]
    omega
  have again : (v.dma channel).autoInit = (s.dma channel).autoInit := by
    rw [DmaChannel.autoInit, mode]
    rfl
  have mask : v.masked channel = false := by
    rw [masked, moved.m]
    exact unmasked
  refine ⟨⟨kept.ab.trans ab, kept.cb.trans cb, kept.mode.trans mode, kept.size.trans size⟩,
    isPs2.trans (moved.isPs2.trans tracks.isPs2),
    command.trans (moved.command.trans tracks.command),
    command16.trans (moved.command16.trans tracks.command16), ?_, fun more => ?_, fun single full =>
      ?_⟩
  · rw [moved.dma] at size ac
    rw [same, moved.bus, tracks.bus, map_elementAddrs based.bound size ac,
      served_eq (open_.imp_right Nat.le_of_lt), served_eq (r := r + 1) open_, flatMap_range_succ,
      List.append_assoc]
  · by_cases last : r % (s.dma channel).length + 1 = (s.dma channel).length
    · have first : (r + 1) % (s.dma channel).length = 0 := by
        rw [← Nat.mod_add_mod, last, Nat.mod_self]
      have auto : (s.dma channel).autoInit = true := by
        rcases more with auto | short
        · exact auto
        · rw [Nat.mod_eq_of_lt (by omega)] at last
          omega
      obtain ⟨ac', cc', mask'⟩ := advance_reload (count.mpr last) (again.trans auto)
      rw [first, DmaChannel.element_zero, ac', cc', mask', ab, cb]
      exact ⟨mask, rfl, rfl⟩
    · have next : (r + 1) % (s.dma channel).length = r % (s.dma channel).length + 1 := by
        rw [← Nat.mod_add_mod]
        exact Nat.mod_eq_of_lt (by omega)
      obtain ⟨ac', cc', mask'⟩ := advance_more (mt count.mp last)
      rw [next, ac', cc', mask', cc]
      refine ⟨mask, toNat_nextAc based.bound (by omega) ?_ mode size ac, by omega⟩
      rw [moved.isPs2, tracks.isPs2]
      exact fits
  · have short := open_.resolve_left (by rw [single]; decide)
    have last : r % (s.dma channel).length + 1 = (s.dma channel).length := by
      rw [Nat.mod_eq_of_lt short]
      omega
    exact advance_mask inside (count.mpr last) (again.trans single)

/-! ## Runs -/

/-- A request after the last element finds the channel masked. -/
theorem Tracks.exhausted {r : Nat} (tracks : Tracks s channel r t)
    (closed : (s.dma channel).autoInit = false ∧ (s.dma channel).length ≤ r) :
    Tracks s channel (r + 1) t := by
  obtain ⟨single, full⟩ := closed
  have same : s.served channel (r + 1) = s.served channel r := by
    unfold served
    rw [single, if_neg Bool.false_ne_true, if_neg Bool.false_ne_true, Nat.min_eq_right full,
      Nat.min_eq_right (Nat.le_succ_of_le full)]
  refine ⟨tracks.own, tracks.isPs2, tracks.command, tracks.command16, ?_, fun more => ?_,
    fun _ _ => tracks.closed single full⟩
  · rw [same]
    exact tracks.bus
  · rcases more with auto | short
    · rw [single] at auto
      cases auto
    · omega

theorem Tracks.refuses_iff {r : Nat} (tracks : Tracks s channel r t) (direction : BitVec 8) :
    t.refuses channel direction = false ↔
      (s.enabled channel && (s.dma channel).mode &&& 0xc = direction) = true ∧
        t.masked channel = false := by
  rw [refuses, tracks.own.mode, tracks.command, tracks.command16, enabled, Bool.or_eq_false_iff,
    Bool.or_eq_false_iff, Bool.and_eq_true]
  split <;> simp only [ne_eq, decide_not, Bool.not_eq_false', decide_eq_true_eq] <;> tauto

/-- A request of the channel's device in its direction. -/
theorem Tracks.request {r : Nat} {v : Dma} (tracks : Tracks s channel r t) (inside : channel < 8)
    (based : Based s.isPs2 channel (s.dma channel))
    (fits : s.isPs2 = true →
      (s.dma channel).FitsPage (s.dma channel).down (s.dma channel).length)
    (direction : BitVec 8) (moved : Moved channel t v) :
    Tracks s channel
      (if s.enabled channel && (s.dma channel).mode &&& 0xc = direction then r + 1 else r)
      (if t.refuses channel direction then t else (v.advance channel).2) := by
  have refuses := tracks.refuses_iff direction
  cases asked : s.enabled channel && decide ((s.dma channel).mode &&& 0xc = direction) with
  | false =>
    have refused : t.refuses channel direction = true := by
      rw [← Bool.not_eq_false, refuses, asked]
      exact fun both => Bool.false_ne_true both.1
    rw [if_pos refused]
    exact tracks
  | true =>
    rw [asked] at refuses
    by_cases closed : (s.dma channel).autoInit = false ∧ (s.dma channel).length ≤ r
    · have refused : t.refuses channel direction = true := by
        rw [← Bool.not_eq_false, refuses, tracks.closed closed.1 closed.2]
        exact fun both => absurd both.2 (by decide)
      rw [if_pos refused]
      exact tracks.exhausted closed
    · have open_ : (s.dma channel).autoInit = true ∨ r < (s.dma channel).length := by
        rw [not_and_or, Bool.not_eq_false, Nat.not_le] at closed
        exact closed
      have accepted := refuses.mpr ⟨rfl, (tracks.open_ open_).1⟩
      rw [accepted]
      exact tracks.advance inside based fits open_ moved

theorem state_read : (t.dmaChannelRead channel).2 =
    if t.refuses channel 8 then t else ((t.readElement channel).2.advance channel).2 := by
  unfold dmaChannelRead
  split <;> rfl

theorem state_write (val : BitVec 16) : (t.dmaChannelWrite channel val).2 =
    if t.refuses channel 4 then t else ((t.writeElement channel val).advance channel).2 := by
  unfold dmaChannelWrite
  split <;> rfl

theorem Tracks.step {r : Nat} (tracks : Tracks s channel r t) (inside : channel < 8)
    (based : Based s.isPs2 channel (s.dma channel))
    (fits : s.isPs2 = true →
      (s.dma channel).FitsPage (s.dma channel).down (s.dma channel).length)
    {a : DmaStep} (counted : ¬t.MiscountedBy a) (unrun : a ≠ .run channel) :
    Tracks s channel (if s.isRequest channel a then r + 1 else r) (t.step a) := by
  by_cases apart : channel = a.channel
  · cases a with
    | read d =>
      obtain rfl : channel = d := apart
      have request := tracks.request inside based fits 8 moved_read
      show Tracks s channel (if (decide (channel = channel) && _ && _) then _ else _)
        (t.dmaChannelRead channel).2
      rw [decide_eq_true rfl, Bool.true_and, state_read]
      exact request
    | write d val =>
      obtain rfl : channel = d := apart
      have request := tracks.request inside based fits 4 (moved_write val)
      show Tracks s channel (if (decide (channel = channel) && _ && _) then _ else _)
        (t.dmaChannelWrite channel val).2
      rw [decide_eq_true rfl, Bool.true_and, state_write]
      exact request
    | run d =>
      obtain rfl : channel = d := apart
      exact absurd rfl unrun
  · have other : s.isRequest channel a = false := by
      cases a with
      | read d =>
        have named : decide (d = channel) = false := decide_eq_false fun same => apart same.symm
        rw [isRequest, named]
        rfl
      | write d val =>
        have named : decide (d = channel) = false := decide_eq_false fun same => apart same.symm
        rw [isRequest, named]
        rfl
      | run d => rfl
    rw [other]
    exact tracks.frame (sameFor_step apart counted)

/-! ## Runs -/

theorem ps2Mode_ps2Loop (fuel d : Nat) :
    ∀ {s : Dma}, ((ps2Loop channel fuel s).dma d).ps2Mode = (s.dma d).ps2Mode := by
  induction fuel with
  | zero =>
    intro s
    rfl
  | succ fuel ih =>
    intro s
    unfold ps2Loop
    dsimp only
    split
    · rw [ih, ps2Mode_ps2Body]
    · rw [ps2Mode_ps2Body]

theorem ps2Mode_advance (d : Nat) :
    ((s.advance channel).2.dma d).ps2Mode = (s.dma d).ps2Mode := by
  obtain ⟨ac, cc, dma⟩ := @dma_advance s channel
  rw [dma]
  rcases eq_or_ne d channel with rfl | apart
  · rw [Function.update_self]
  · rw [Function.update_of_ne apart]

theorem ps2Mode_step (a : DmaStep) (d : Nat) :
    ((s.step a).dma d).ps2Mode = (s.dma d).ps2Mode := by
  cases a with
  | read channel =>
    show ((s.dmaChannelRead channel).2.dma d).ps2Mode = _
    rw [state_read]
    split
    · rfl
    · exact ps2Mode_advance d
  | write channel val =>
    show ((s.dmaChannelWrite channel val).2.dma d).ps2Mode = _
    rw [state_write]
    split
    · rfl
    · exact ps2Mode_advance d
  | run channel => exact ps2Mode_ps2Loop _ d

theorem countedBy_runs (steps : List DmaStep) (d : Nat) :
    (s.runs steps).countedBy d = s.countedBy d := by
  induction steps generalizing s with
  | nil => rfl
  | cons a steps ih =>
    show ((s.step a).runs steps).countedBy d = _
    rw [ih, countedBy, ps2Mode_step]
    rfl

theorem miscountedBy_runs (steps : List DmaStep) (a : DmaStep) :
    (s.runs steps).MiscountedBy a ↔ s.MiscountedBy a := by
  cases a with
  | read channel => exact Iff.rfl
  | write channel val => exact Iff.rfl
  | run channel =>
    show (s.runs steps).countedBy channel ≠ channel ↔ _
    rw [countedBy_runs]
    rfl

/-- No run of a block touches the channel, no verify run counts on channel 0 for another one, and
on the PS/2 controller the block stays in its page. -/
structure Served (s : Dma) (channel : Nat) (steps : List DmaStep) : Prop where
  fits : s.isPs2 = true →
    (s.dma channel).FitsPage (s.dma channel).down (s.dma channel).length
  counted : ∀ a ∈ steps, ¬s.MiscountedBy a
  unrun : .run channel ∉ steps

/-- What a channel does between its programming and the end of a run: every request is served in
order until the last element, inside the page; then the channel is masked, or its base address and
count are loaded again; and no step changes another channel than its own. -/
structure TransferLaw (s : Dma) (channel : Nat) (steps : List DmaStep) : Prop where
  bus : (s.runs steps).busOf channel = s.busOf channel ++
    (List.range (s.served channel (steps.countP (s.isRequest channel)))).flatMap fun k =>
      (s.dma channel).bytes (s.dma channel).down (k % (s.dma channel).length)
  page : ∀ k < (s.dma channel).length, ∀ a ∈ (s.dma channel).bytes (s.dma channel).down k,
    a / (s.dma channel).pageSize = (s.dma channel).ab.toNat / (s.dma channel).pageSize
  masks : (s.dma channel).autoInit = false →
    ((s.runs steps).masked channel = true ↔
      (s.dma channel).length ≤ steps.countP (s.isRequest channel))
  reloads : (s.dma channel).autoInit = true → (s.runs steps).masked channel = false ∧
    (steps.countP (s.isRequest channel) % (s.dma channel).length = 0 →
      ((s.runs steps).dma channel).ac = (s.dma channel).ab ∧
        ((s.runs steps).dma channel).cc = (s.dma channel).cb.toNat)
  isolated : ∀ before a after, steps = before ++ a :: after → (s.runs before).Isolated a

theorem runs_append (front : List DmaStep) (a : DmaStep) :
    s.runs (front ++ [a]) = (s.runs front).step a :=
  List.foldl_append ..

theorem tracks_runs (programmed : s.Programmed channel) (inside : channel < 8)
    (based : Based s.isPs2 channel (s.dma channel)) (steps : List DmaStep)
    (served : Served s channel steps) :
    Tracks s channel (steps.countP (s.isRequest channel)) (s.runs steps) := by
  induction steps using List.reverseRecOn with
  | nil => exact programmed.tracks
  | append_singleton front a ih =>
    have earlier : Served s channel front :=
      ⟨served.fits, fun b listed => served.counted b (List.mem_append_left _ listed),
        fun listed => served.unrun (List.mem_append_left _ listed)⟩
    have last : a ∈ front ++ [a] := List.mem_append_right _ (List.mem_singleton_self a)
    have next := (ih earlier).step inside based served.fits (a := a)
      (by rw [miscountedBy_runs]; exact served.counted a last)
      (by rintro rfl; exact served.unrun last)
    rw [runs_append, List.countP_append, List.countP_singleton]
    cases asked : s.isRequest channel a with
    | false =>
      rw [asked] at next
      exact next
    | true =>
      rw [asked] at next
      exact next

theorem transferLaw_of_served (programmed : s.Programmed channel) (inside : channel < 8)
    (based : Based s.isPs2 channel (s.dma channel)) (steps : List DmaStep)
    (served : Served s channel steps) : TransferLaw s channel steps := by
  have tracks := tracks_runs programmed inside based steps served
  have cb := (s.dma channel).cb.isLt
  refine ⟨tracks.bus, fun k short a listed => page_bytes based short cb served.fits listed,
    fun single => ⟨fun masked => ?_, tracks.closed single⟩, fun auto => ?_, ?_⟩
  · by_contra short
    obtain ⟨unmasked, -⟩ := tracks.open_ (.inr (Nat.lt_of_not_le short))
    rw [unmasked] at masked
    cases masked
  · obtain ⟨unmasked, ac, cc⟩ := tracks.open_ (.inl auto)
    refine ⟨unmasked, fun whole => ?_⟩
    rw [whole] at ac cc
    rw [DmaChannel.element_zero] at ac
    exact ⟨BitVec.eq_of_toNat_eq ac, cc⟩
  · rintro before a after rfl
    refine isolated_step ?_
    rw [miscountedBy_runs]
    exact served.counted a (List.mem_append_right _ List.mem_cons_self)

end Dma

end PCemWeb.Devices
