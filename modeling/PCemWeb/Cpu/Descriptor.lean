import PCemWeb.Cpu.SegLoad
import PCemWeb.Lib.BitFields
import Mathlib.Tactic.IntervalCases

/-!
# Segment descriptors

What the eight bytes of a descriptor say by the architecture: its fields, the offsets inside the
segment, and which loads of it are permitted. The caches that `do_seg_load` fills and the checks of
`loadseg` are compared with it.
-/

namespace PCemWeb.Cpu

namespace Segdat

variable (d : Segdat)

/-- The base, of 24 bits before the 386. -/
def baseField (is386 : Bool) : Nat :=
  d.w1.toNat + d.w2.toNat % 256 * 65536 + (if is386 then d.w3.toNat / 256 * 16777216 else 0)

def limitField : Nat := d.w0.toNat + d.w3.toNat % 16 * 65536

/-- The last byte's offset, in bytes or in pages. -/
def limitBytes : Nat :=
  if d.w3.getLsbD 7 then d.limitField * 4096 + 4095 else d.limitField

def accessByte : Nat := d.w2.toNat / 256

/-- Not a system descriptor. -/
def application : Bool := d.w2.getLsbD 12

def code : Bool := d.w2.getLsbD 11

/-- Expand-down for data, conforming for code. -/
def downOrConforming : Bool := d.w2.getLsbD 10

/-- Writable for data, readable for code. -/
def writableOrReadable : Bool := d.w2.getLsbD 9

def isPresent : Bool := d.w2.getLsbD 15

def privilege : Nat := d.w2.toNat / 8192 % 4

/-- The default operand size, which is the size of a stack and the top of an expand-down segment. -/
def big : Bool := d.w3.getLsbD 6

def expandDown : Bool := d.application && !d.code && d.downOrConforming

/-- An offset is inside the segment. -/
def Inside (offset : Nat) : Prop :=
  if d.expandDown then d.limitBytes < offset ∧ offset ≤ (if d.big then 4294967295 else 65535)
  else offset ≤ d.limitBytes

/-- A load of `SS`: writable data at exactly the current privilege. -/
def PermitsStack (cpl rpl : Nat) : Prop :=
  rpl = cpl ∧ d.privilege = cpl ∧ (d.application && !d.code && d.writableOrReadable) ∧ d.isPresent

/-- A load of another data segment register: data or readable code, at a privilege that both the
current and the requested one reach unless the code is conforming. -/
def PermitsData (cpl rpl : Nat) : Prop :=
  (d.application && (!d.code || d.writableOrReadable)) ∧
    ((d.code && d.downOrConforming) ∨ rpl ≤ d.privilege ∧ cpl ≤ d.privilege) ∧ d.isPresent

/-- The load of a register with a selector's requested privilege. -/
def Permits (cpl rpl : Nat) (name : SegName) : Prop :=
  if name = .ss then d.PermitsStack cpl rpl else d.PermitsData cpl rpl

/-- `s` holds what the descriptor `d` and the selector `seg` say. -/
structure CachedIn (is386 : Bool) (seg : BitVec 16) (s : X86Seg) : Prop where
  selector : s.seg = seg
  base : s.base.toNat = d.baseField is386
  limitRaw : s.limitRaw.toNat = d.limitField
  limit : s.limit.toNat = d.limitBytes
  bounds : ∀ o : BitVec 32, s.limitLow ≤ o ∧ o ≤ s.limitHigh ↔ d.Inside o.toNat
  access : s.access.toNat = d.accessByte

/-- The segment is flat: it starts at 0 and every offset is inside. -/
def Flat (is386 : Bool) : Prop := d.baseField is386 = 0 ∧ ∀ o : BitVec 32, d.Inside o.toNat

/-! ## The fields as the code computes them -/

variable {d}

/-- Two fields side by side. -/
theorem toNat_or_shiftLeft {a b : BitVec 32} {k : Nat} (low : a.toNat < 2 ^ k)
    (high : b.toNat * 2 ^ k < 4294967296) :
    (a ||| b <<< k).toNat = a.toNat + b.toNat * 2 ^ k := by
  rw [BitVec.toNat_or, BitVec.toNat_shiftLeft, Nat.shiftLeft_eq, Nat.mod_eq_of_lt high, Nat.or_comm,
    ← Nat.shiftLeft_eq, ← Nat.shiftLeft_add_eq_or_of_lt low, Nat.shiftLeft_eq, Nat.add_comm]

theorem toNat_low_byte (w : BitVec 16) : ((w &&& 0xff).setWidth 32).toNat = w.toNat % 256 := by
  have mask : (w &&& 0xff).toNat = w.toNat % 256 := by
    rw [BitVec.toNat_and]
    exact Nat.and_two_pow_sub_one_eq_mod _ 8
  rw [BitVec.toNat_setWidth, mask]
  omega

theorem toNat_low_nibble (w : BitVec 16) : ((w &&& 0xf).setWidth 32).toNat = w.toNat % 16 := by
  have mask : (w &&& 0xf).toNat = w.toNat % 16 := by
    rw [BitVec.toNat_and]
    exact Nat.and_two_pow_sub_one_eq_mod _ 4
  rw [BitVec.toNat_setWidth, mask]
  omega

theorem toNat_word (w : BitVec 16) : (w.setWidth 32).toNat = w.toNat := by
  have bound := w.isLt
  rw [BitVec.toNat_setWidth]
  omega

theorem toNat_high_byte (w : BitVec 16) : ((w >>> 8).setWidth 32).toNat = w.toNat / 256 := by
  have bound := w.isLt
  rw [BitVec.toNat_setWidth, BitVec.toNat_ushiftRight, Nat.shiftRight_eq_div_pow]
  omega

theorem toNat_base24 : (d.w1.setWidth 32 ||| ((d.w2 &&& 0xff).setWidth 32 <<< 16)).toNat =
    d.w1.toNat + d.w2.toNat % 256 * 65536 := by
  have low := d.w1.isLt
  rw [toNat_or_shiftLeft (by rw [toNat_word]; omega) (by rw [toNat_low_byte]; omega), toNat_word,
    toNat_low_byte]
  rfl

theorem toNat_limitField : (d.w0.setWidth 32 ||| ((d.w3 &&& 0xf).setWidth 32 <<< 16)).toNat =
    d.limitField := by
  have low := d.w0.isLt
  rw [toNat_or_shiftLeft (by rw [toNat_word]; omega) (by rw [toNat_low_nibble]; omega), toNat_word,
    toNat_low_nibble, limitField]
  rfl

theorem limitField_lt : d.limitField < 1048576 := by
  have low := d.w0.isLt
  rw [limitField]
  omega

theorem limitBytes_lt : d.limitBytes < 4294967296 := by
  have small := @limitField_lt d
  rw [limitBytes]
  split <;> omega

/-! ## The cache that is filled -/

variable {type : CpuType} {s : X86Seg} {seg : BitVec 16}

/-- The tests of the type for an expand-down segment. -/
theorem expandDown_iff : d.expandDown = true ↔
    ¬(d.w2 &&& 0x1800 ≠ 0x1000 ∨ d.w2 &&& 0x400 = 0) := by
  have data : d.w2 &&& 0x1800 = 0x1000 ↔ d.w2.getLsbD 12 = true ∧ d.w2.getLsbD 11 = false := by
    constructor
    · intro masked
      have high := congrArg (BitVec.getLsbD · 12) masked
      have low := congrArg (BitVec.getLsbD · 11) masked
      simp at high low
      exact ⟨high, low⟩
    · rintro ⟨high, low⟩
      apply BitVec.eq_of_getLsbD_eq
      intro i inside
      rw [BitVec.getLsbD_and]
      interval_cases i
      all_goals first | rw [high]; rfl | rw [low]; rfl | exact Bool.and_false _
  have down : d.w2 &&& 0x400 = 0 ↔ d.w2.getLsbD 10 = false :=
    Lib.and_twoPow_eq_zero d.w2 (k := 10) (by decide)
  rw [not_or, not_not, data, down, expandDown, application, code, downOrConforming]
  cases d.w2.getLsbD 12 <;> cases d.w2.getLsbD 11 <;> cases d.w2.getLsbD 10 <;> decide

theorem granular_iff : d.w3 &&& 0x80 ≠ 0 ↔ d.w3.getLsbD 7 = true := by
  rw [ne_eq, ← Bool.not_eq_false, not_iff_not]
  exact Lib.and_twoPow_eq_zero d.w3 (k := 7) (by decide)

theorem big_iff : d.w3 &&& 0x40 ≠ 0 ↔ d.big = true := by
  rw [ne_eq, ← Bool.not_eq_false, not_iff_not]
  exact Lib.and_twoPow_eq_zero d.w3 (k := 6) (by decide)

theorem base_ofSegdat : (s.ofSegdat type d).base.toNat = d.baseField type.is386 := by
  have low := d.w1.isLt
  have high := d.w3.isLt
  have whole : (s.ofSegdat type d).base =
      if type.is386 then
        d.w1.setWidth 32 ||| ((d.w2 &&& 0xff).setWidth 32 <<< 16) |||
          ((d.w3 >>> 8).setWidth 32 <<< 24)
      else d.w1.setWidth 32 ||| ((d.w2 &&& 0xff).setWidth 32 <<< 16) := by
    rw [X86Seg.ofSegdat]
    dsimp only
    split <;> rfl
  rw [whole, baseField]
  split
  · rw [toNat_or_shiftLeft (by rw [toNat_base24]; omega) (by rw [toNat_high_byte]; omega),
      toNat_base24, toNat_high_byte]
    rfl
  · rw [toNat_base24, Nat.add_zero]

theorem limitRaw_ofSegdat : (s.ofSegdat type d).limitRaw.toNat = d.limitField := by
  have whole : (s.ofSegdat type d).limitRaw =
      d.w0.setWidth 32 ||| ((d.w3 &&& 0xf).setWidth 32 <<< 16) := by
    rw [X86Seg.ofSegdat]
    dsimp only
    split <;> rfl
  rw [whole, toNat_limitField]

theorem limit_ofSegdat : (s.ofSegdat type d).limit.toNat = d.limitBytes := by
  have small := @limitField_lt d
  have whole : (s.ofSegdat type d).limit =
      if d.w3 &&& 0x80 ≠ 0 then
        ((d.w0.setWidth 32 ||| ((d.w3 &&& 0xf).setWidth 32 <<< 16)) <<< 12) ||| 0xfff
      else d.w0.setWidth 32 ||| ((d.w3 &&& 0xf).setWidth 32 <<< 16) := by
    rw [X86Seg.ofSegdat]
    dsimp only
    split <;> rfl
  rw [whole, limitBytes]
  by_cases pages : d.w3.getLsbD 7 = true
  · rw [if_pos (granular_iff.mpr pages), if_pos pages, BitVec.or_comm,
      toNat_or_shiftLeft (by decide) (by rw [toNat_limitField]; omega), toNat_limitField]
    exact Nat.add_comm ..
  · rw [if_neg (mt granular_iff.mp pages), if_neg pages, toNat_limitField]

theorem access_ofSegdat : (s.ofSegdat type d).access.toNat = d.accessByte := by
  have bound := d.w2.isLt
  have whole : (s.ofSegdat type d).access = (d.w2 >>> 8).setWidth 8 := by
    rw [X86Seg.ofSegdat]
    dsimp only
    split <;> rfl
  rw [whole, BitVec.toNat_setWidth, BitVec.toNat_ushiftRight, Nat.shiftRight_eq_div_pow, accessByte]
  omega

theorem limits_ofSegdat : (s.ofSegdat type d).limitLow =
      (if d.expandDown then (s.ofSegdat type d).limit + 1 else 0) ∧
    (s.ofSegdat type d).limitHigh =
      (if d.expandDown then if d.big then 0xffffffff else 0xffff
      else (s.ofSegdat type d).limit) := by
  have down := @expandDown_iff d
  rw [X86Seg.ofSegdat]
  dsimp only
  split
  next up =>
    rw [if_neg fun expands => down.mp expands up, if_neg fun expands => down.mp expands up]
    exact ⟨rfl, rfl⟩
  next expands =>
    rw [if_pos (down.mpr expands), if_pos (down.mpr expands)]
    refine ⟨rfl, ?_⟩
    by_cases large : d.big = true
    · rw [if_pos (big_iff.mpr large), if_pos large]
    · rw [if_neg (mt big_iff.mp large), if_neg large]

/-- The bounds are the descriptor's, except where the low bound of an expand-down segment wraps. -/
theorem bounds_ofSegdat : (∀ o : BitVec 32, (s.ofSegdat type d).limitLow ≤ o ∧
      o ≤ (s.ofSegdat type d).limitHigh ↔ d.Inside o.toNat) ↔
    ¬(d.expandDown = true ∧ d.limitBytes = 4294967295) := by
  obtain ⟨low, high⟩ := @limits_ofSegdat d type s
  have limit := @limit_ofSegdat d type s
  have small := @limitBytes_lt d
  rw [low, high]
  by_cases down : d.expandDown = true
  · simp only [down, if_true, Inside, true_and]
    constructor
    · intro bounds full
      have zero : (s.ofSegdat type d).limit + 1 = 0 := by
        apply BitVec.eq_of_toNat_eq
        rw [BitVec.toNat_add, limit, full]
        rfl
      have first := (bounds 0).mp ⟨by rw [zero]; exact BitVec.le_refl _, Nat.zero_le _⟩
      exact absurd first.1 (by rw [full]; decide)
    · intro partial_ o
      have next : ((s.ofSegdat type d).limit + 1).toNat = d.limitBytes + 1 := by
        rw [BitVec.toNat_add, limit]
        exact Nat.mod_eq_of_lt (by show d.limitBytes + 1 < _; omega)
      rw [BitVec.le_def, BitVec.le_def, next]
      cases d.big
      · exact Iff.rfl
      · exact Iff.rfl
  · refine iff_of_true (fun o => ?_) fun both => down both.1
    rw [if_neg down, if_neg down, Inside, if_neg down, BitVec.le_def, BitVec.le_def, limit]
    exact and_iff_right (Nat.zero_le _)

end Segdat

end PCemWeb.Cpu
