import Mathlib.Algebra.Order.Ring.Int
import Mathlib.Tactic.Common

/-!
# Division on the host, narrowed afterwards

A machine division as C and WebAssembly define it: undefined by zero, and for a signed division
also where the quotient of the most negative dividend by minus one leaves the type. A caller
divides in a wide type and asks afterwards whether the quotient survives a cast to the narrow one.
-/

namespace PCemWeb.Lib

/-! ## Where a host division is defined -/

/-- `a / b` of an unsigned type. -/
def hostUDiv {W : Nat} (n d : BitVec W) : Option (BitVec W) :=
  if d = 0 then none else some (n / d)

/-- `a % b` of an unsigned type. -/
def hostURem {W : Nat} (n d : BitVec W) : Option (BitVec W) :=
  if d = 0 then none else some (n % d)

/-- `a / b` of a signed type. -/
def hostSDiv {W : Nat} (n d : BitVec W) : Option (BitVec W) :=
  if d = 0 ∨ (n = BitVec.intMin W ∧ d = -1) then none else some (n.sdiv d)

/-- `a % b` of a signed type, undefined where `a / b` is. -/
def hostSRem {W : Nat} (n d : BitVec W) : Option (BitVec W) :=
  if d = 0 ∨ (n = BitVec.intMin W ∧ d = -1) then none else some (n.srem d)

section Signed

variable {W : Nat} {n d : BitVec W}

theorem hostSDiv_of_overflow (most : n = BitVec.intMin W) (minusOne : d = -1) :
    hostSDiv n d = none :=
  if_pos (.inr ⟨most, minusOne⟩)

theorem hostSDiv_of_defined (nonzero : d ≠ 0) (inside : ¬(n = BitVec.intMin W ∧ d = -1)) :
    hostSDiv n d = some (n.sdiv d) :=
  if_neg fun bad => bad.elim nonzero inside

theorem hostSRem_of_defined (nonzero : d ≠ 0) (inside : ¬(n = BitVec.intMin W ∧ d = -1)) :
    hostSRem n d = some (n.srem d) :=
  if_neg fun bad => bad.elim nonzero inside

/-- Where the host division is defined, its quotient is the exact one. -/
theorem toInt_sdiv_of_inside (inside : ¬(n = BitVec.intMin W ∧ d = -1)) :
    (n.sdiv d).toInt = n.toInt.tdiv d.toInt := by
  apply BitVec.toInt_sdiv_of_ne_or_ne
  by_cases most : n = BitVec.intMin W
  · exact .inr fun minusOne => inside ⟨most, minusOne⟩
  · exact .inl most

end Signed

/-! ## The cast to the narrow type -/

section Narrow

variable {w W : Nat}

/-- A signed value of the wide type is one of the narrow type. -/
def FitsSigned (w : Nat) (v : Int) : Prop := -2 ^ (w - 1) ≤ v ∧ v < 2 ^ (w - 1)

/-- An unsigned value of the wide type is one of the narrow type. -/
def FitsUnsigned (w : Nat) (v : Int) : Prop := 0 ≤ v ∧ v < 2 ^ w

/-- The cast keeps a value that fits. -/
theorem toInt_setWidth_of_fits (positive : 0 < w) (narrow : w ≤ W) (q : BitVec W)
    (fits : FitsSigned w q.toInt) : (q.setWidth w).toInt = q.toInt := by
  obtain ⟨least, most⟩ := fits
  have half : (2 : Int) ^ w = 2 * 2 ^ (w - 1) := by
    obtain ⟨k, rfl⟩ : ∃ k, w = k + 1 := ⟨w - 1, by omega⟩
    rw [Nat.add_sub_cancel, Int.pow_succ, Int.mul_comm]
  rw [← BitVec.signExtend_eq_setWidth_of_le _ narrow,
    BitVec.toInt_signExtend_eq_toInt_bmod_of_le q narrow]
  apply Int.bmod_eq_of_le_mul_two
  · push_cast
    omega
  · push_cast
    omega

/-- A signed quotient is compared with its own cast: the two agree exactly where it fits. -/
theorem signExtend_setWidth_eq_iff (positive : 0 < w) (narrow : w ≤ W) (q : BitVec W) :
    (q.setWidth w).signExtend W = q ↔ FitsSigned w q.toInt := by
  rw [← BitVec.toInt_inj, BitVec.toInt_signExtend_of_le narrow]
  constructor
  · intro same
    rw [← same]
    exact ⟨BitVec.le_toInt _, BitVec.toInt_lt⟩
  · exact toInt_setWidth_of_fits positive narrow q

theorem toInt_ne_zero {d : BitVec w} (nonzero : d ≠ 0) : d.toInt ≠ 0 := fun zero =>
  nonzero (BitVec.toInt_inj.mp (by rw [zero]; simp))

theorem toNat_ne_zero {d : BitVec w} (nonzero : d ≠ 0) : (d.toNat : Int) ≠ 0 := fun zero =>
  nonzero (BitVec.eq_of_toNat_eq (by simpa using zero))

/-- A remainder by a narrow divisor is itself narrow. -/
theorem fitsSigned_tmod (n : Int) (d : BitVec w) (nonzero : d ≠ 0) :
    FitsSigned w (n.tmod d.toInt) := by
  have least := BitVec.le_toInt d
  have most := BitVec.toInt_lt (x := d)
  rcases Int.lt_or_gt_of_ne (toInt_ne_zero nonzero) with negative | above
  · have upper := Int.tmod_lt_of_pos n (b := -d.toInt) (by omega)
    have lower := Int.lt_tmod_of_pos n (b := -d.toInt) (by omega)
    rw [Int.tmod_neg] at upper lower
    refine ⟨?_, ?_⟩ <;> omega
  · have upper := Int.tmod_lt_of_pos n above
    have lower := Int.lt_tmod_of_pos n above
    refine ⟨?_, ?_⟩ <;> omega

/-- The remainder survives the cast. -/
theorem toInt_setWidth_srem (positive : 0 < w) (narrow : w ≤ W) (n : BitVec W) (d : BitVec w)
    (nonzero : d ≠ 0) :
    ((n.srem (d.signExtend W)).setWidth w).toInt = n.toInt.tmod d.toInt := by
  have value : (n.srem (d.signExtend W)).toInt = n.toInt.tmod d.toInt := by
    rw [BitVec.toInt_srem, BitVec.toInt_signExtend_of_le narrow]
  rw [toInt_setWidth_of_fits positive narrow, value]
  rw [value]
  exact fitsSigned_tmod _ d nonzero

/-- A divisor is zero in the wide type only where it is in the narrow one. -/
theorem signExtend_eq_zero_iff (narrow : w ≤ W) (d : BitVec w) : d.signExtend W = 0 ↔ d = 0 := by
  rw [← BitVec.toInt_inj, ← BitVec.toInt_inj, BitVec.toInt_signExtend_of_le narrow]
  simp

theorem signExtend_eq_neg_one_iff (positive : 0 < w) (narrow : w ≤ W) (d : BitVec w) :
    d.signExtend W = -1 ↔ d = -1 := by
  rw [← BitVec.toInt_inj, ← BitVec.toInt_inj, BitVec.toInt_signExtend_of_le narrow]
  have wide : (-1 : BitVec W).toInt = -1 := by
    rw [show (-1 : BitVec W) = BitVec.allOnes W from BitVec.neg_one_eq_allOnes,
      BitVec.toInt_allOnes, if_pos (by omega)]
  have thin : (-1 : BitVec w).toInt = -1 := by
    rw [show (-1 : BitVec w) = BitVec.allOnes w from BitVec.neg_one_eq_allOnes,
      BitVec.toInt_allOnes, if_pos positive]
  rw [wide, thin]

theorem fitsUnsigned_iff (v : Nat) : FitsUnsigned w v ↔ v < 2 ^ w := by
  unfold FitsUnsigned
  norm_cast
  omega

/-- A mask of the upper bits is clear exactly where an unsigned value fits. -/
theorem and_upper_eq_zero_iff (q : BitVec W) :
    q &&& (BitVec.allOnes W <<< w) = 0 ↔ FitsUnsigned w q.toNat := by
  have masked : q &&& (BitVec.allOnes W <<< w) = (q >>> w) <<< w := by
    refine BitVec.eq_of_getLsbD_eq fun i inside => ?_
    by_cases low : i < w
    · simp [low]
    · have back : w + (i - w) = i := by omega
      simp [low, inside, back]
  have kept : q.toNat / 2 ^ w * 2 ^ w < 2 ^ W :=
    Nat.lt_of_le_of_lt (Nat.div_mul_le_self _ _) q.isLt
  have value : ((q >>> w) <<< w).toNat = q.toNat / 2 ^ w * 2 ^ w := by
    rw [BitVec.toNat_shiftLeft, BitVec.toNat_ushiftRight, Nat.shiftLeft_eq,
      Nat.shiftRight_eq_div_pow, Nat.mod_eq_of_lt kept]
  have unit : 0 < 2 ^ w := Nat.two_pow_pos w
  rw [masked, fitsUnsigned_iff, ← BitVec.toNat_inj, value, ← Nat.div_eq_zero_iff_lt unit]
  constructor
  · intro zero
    rcases Nat.mul_eq_zero.mp zero with none | none
    · exact none
    · omega
  · intro zero
    rw [zero]
    simp

/-- An unsigned quotient is compared with its own cast: the two agree exactly where it fits. -/
theorem setWidth_setWidth_eq_iff (q : BitVec W) :
    q = (q.setWidth w).setWidth W ↔ FitsUnsigned w q.toNat := by
  rw [fitsUnsigned_iff, ← BitVec.toNat_inj, BitVec.toNat_setWidth, BitVec.toNat_setWidth]
  constructor
  · intro same
    have below : q.toNat % 2 ^ w < 2 ^ w := Nat.mod_lt _ (Nat.two_pow_pos w)
    have outer := Nat.mod_le (q.toNat % 2 ^ w) (2 ^ W)
    omega
  · intro fits
    rw [Nat.mod_eq_of_lt fits, Nat.mod_eq_of_lt q.isLt]

/-- An unsigned remainder survives the cast. -/
theorem toNat_setWidth_umod (narrow : w ≤ W) (n : BitVec W) (d : BitVec w) (nonzero : d ≠ 0) :
    ((n % d.setWidth W).setWidth w).toNat = n.toNat % d.toNat := by
  have apart : 0 < d.toNat := Nat.pos_of_ne_zero fun zero => nonzero (BitVec.eq_of_toNat_eq zero)
  have below := Nat.mod_lt n.toNat apart
  rw [BitVec.toNat_setWidth, BitVec.toNat_umod, BitVec.toNat_setWidth_of_le narrow]
  exact Nat.mod_eq_of_lt (Nat.lt_trans below d.isLt)

/-- Values promoted from a narrower unsigned type divide as unsigned ones. -/
theorem hostSDiv_promoted {v : Nat} (wider : v < W) (wide : w < W) (n : BitVec v) (d : BitVec w) :
    hostSDiv (n.setWidth W) (d.setWidth W) = hostUDiv (n.setWidth W) (d.setWidth W) ∧
      hostSRem (n.setWidth W) (d.setWidth W) = hostURem (n.setWidth W) (d.setWidth W) := by
  have positive {u : Nat} (inner : u < W) (x : BitVec u) : (x.setWidth W).msb = false := by
    rw [BitVec.msb_eq_getLsbD_last, BitVec.getLsbD_setWidth, BitVec.getLsbD_of_ge x _ (by omega),
      Bool.and_false]
  have inside : ¬(n.setWidth W = BitVec.intMin W ∧ d.setWidth W = -1) := by
    rintro ⟨most, -⟩
    have sign := positive wider n
    rw [most, BitVec.msb_intMin, decide_eq_false_iff_not] at sign
    omega
  by_cases zero : d.setWidth W = 0
  · simp only [hostSDiv, hostUDiv, hostSRem, hostURem, zero, true_or, if_true, and_self]
  · rw [hostSDiv_of_defined zero inside, hostSRem_of_defined zero inside, hostUDiv, hostURem,
      if_neg zero, if_neg zero, BitVec.sdiv_eq, BitVec.srem_eq, positive wider, positive wide]
    exact ⟨rfl, rfl⟩

/-- The low bits of a value, masked before the cast. -/
theorem setWidth_and_low (q mask : BitVec W) (low : mask.setWidth w = BitVec.allOnes w) :
    (q &&& mask).setWidth w = q.setWidth w := by
  rw [BitVec.setWidth_and, low, BitVec.and_allOnes]

end Narrow

/-! ## A division narrowed afterwards -/

section Divided

variable {w W : Nat}

/-- A signed division in the wide type: its own cast tells whether the quotient fits, and casts
of quotient and remainder are the exact ones. -/
theorem signedDivision (positive : 0 < w) (narrow : w ≤ W) (n : BitVec W) (d : BitVec w)
    (nonzero : d ≠ 0) (inside : ¬(n = BitVec.intMin W ∧ d = -1)) :
    ∃ q r : BitVec W, hostSDiv n (d.signExtend W) = some q ∧
      hostSRem n (d.signExtend W) = some r ∧
      ((q.setWidth w).signExtend W = q ↔ FitsSigned w (n.toInt.tdiv d.toInt)) ∧
      (FitsSigned w (n.toInt.tdiv d.toInt) → (q.setWidth w).toInt = n.toInt.tdiv d.toInt) ∧
      (r.setWidth w).toInt = n.toInt.tmod d.toInt := by
  have apart : d.signExtend W ≠ 0 := fun zero => nonzero ((signExtend_eq_zero_iff narrow d).mp zero)
  have defined : ¬(n = BitVec.intMin W ∧ d.signExtend W = -1) := fun ⟨most, minusOne⟩ =>
    inside ⟨most, (signExtend_eq_neg_one_iff positive narrow d).mp minusOne⟩
  have exact : (n.sdiv (d.signExtend W)).toInt = n.toInt.tdiv d.toInt := by
    rw [toInt_sdiv_of_inside defined, BitVec.toInt_signExtend_of_le narrow]
  refine ⟨_, _, hostSDiv_of_defined apart defined, hostSRem_of_defined apart defined, ?_, ?_,
    toInt_setWidth_srem positive narrow n d nonzero⟩
  · rw [signExtend_setWidth_eq_iff positive narrow, exact]
  · intro fits
    rw [← exact] at fits ⊢
    exact toInt_setWidth_of_fits positive narrow _ fits

/-- An unsigned division in the wide type. -/
theorem unsignedDivision (narrow : w ≤ W) (n : BitVec W) (d : BitVec w) (nonzero : d ≠ 0) :
    ∃ q r : BitVec W, hostUDiv n (d.setWidth W) = some q ∧
      hostURem n (d.setWidth W) = some r ∧
      (q.toNat : Int) = (n.toNat : Int).tdiv d.toNat ∧
      (FitsUnsigned w ((n.toNat : Int).tdiv d.toNat) →
        ((q.setWidth w).toNat : Int) = (n.toNat : Int).tdiv d.toNat) ∧
      ((r.setWidth w).toNat : Int) = (n.toNat : Int).tmod d.toNat := by
  have apart : d.setWidth W ≠ 0 := by
    intro zero
    have same := congrArg BitVec.toNat zero
    rw [BitVec.toNat_setWidth_of_le narrow] at same
    exact nonzero (BitVec.eq_of_toNat_eq (by simpa using same))
  have exact : (n / d.setWidth W).toNat = n.toNat / d.toNat := by
    rw [BitVec.toNat_udiv, BitVec.toNat_setWidth_of_le narrow]
  refine ⟨_, _, if_neg apart, if_neg apart, ?_, ?_, ?_⟩
  · rw [exact, Int.ofNat_tdiv]
  · intro fits
    rw [← Int.ofNat_tdiv] at fits ⊢
    rw [BitVec.toNat_setWidth, exact, Nat.mod_eq_of_lt ((fitsUnsigned_iff _).mp fits)]
  · rw [toNat_setWidth_umod narrow n d nonzero, Int.ofNat_tmod]

end Divided

end PCemWeb.Lib
