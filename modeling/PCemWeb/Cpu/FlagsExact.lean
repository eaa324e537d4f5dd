import PCemWeb.Cpu.ArchFlags
import PCemWeb.Cpu.Flags

/-!
# Lazy flags against the architecture

What the six readers decode after an instruction, flag by flag, and when it is what
the architecture says.
-/

namespace PCemWeb

open Arch

/-! ## Views of the flags -/

/-- The status flags held in the flags register. -/
def statusOfFlags (flags : BitVec 16) : Status :=
  { cf := flags &&& C_FLAG != 0
    pf := flags &&& P_FLAG != 0
    af := flags &&& A_FLAG != 0
    zf := flags &&& Z_FLAG != 0
    sf := flags &&& N_FLAG != 0
    of := flags &&& V_FLAG != 0 }

/-- The status flags as the lazy readers see them. -/
def lazyStatus (s : FlagState) : Status :=
  { cf := isSet (cfSet s)
    pf := isSet (pfSet s)
    af := isSet (afSet s)
    zf := isSet (zfSet s)
    sf := isSet (nfSet s)
    of := isSet (vfSet s) }

/-- A flag tested in the 16-bit register or in a register widened to an `int`. -/
theorem isSet_setWidth (v : BitVec 16) : isSet (v.setWidth 32) = (v != 0) := by
  rw [Bool.eq_iff_iff]
  simp only [isSet, bne_iff_ne, ne_eq, not_iff_not]
  constructor
  · intro wide
    have := congrArg (BitVec.setWidth 16) wide
    simpa using this
  · rintro rfl
    rfl

/-- The mask `0x8d5` covers the six status flags and nothing else. -/
theorem statusOfFlags_merge (flags : BitVec 16) (c p a z n v : Bool) :
    statusOfFlags ((flags &&& ~~~0x8d5) |||
      ((if c then C_FLAG else 0) ||| (if p then P_FLAG else 0) ||| (if a then A_FLAG else 0) |||
        (if z then Z_FLAG else 0) ||| (if n then N_FLAG else 0) |||
        (if v then V_FLAG else 0))) = ⟨c, p, a, z, n, v⟩ := by
  have drop (x y m : BitVec 16) (outside : ~~~0x8d5 &&& m = 0) :
      ((x &&& ~~~0x8d5) ||| y) &&& m = y &&& m := by
    rw [BitVec.and_or_distrib_right, BitVec.and_assoc, outside]
    simp
  simp only [statusOfFlags]
  rw [drop _ _ C_FLAG (by decide), drop _ _ P_FLAG (by decide), drop _ _ A_FLAG (by decide),
    drop _ _ Z_FLAG (by decide), drop _ _ N_FLAG (by decide), drop _ _ V_FLAG (by decide)]
  revert c p a z n v
  decide

/-- The lazy readers agree with the flags that `flags_rebuild` produces. -/
theorem statusOfFlags_flagsRebuild (s : FlagState) :
    statusOfFlags (flagsRebuild s).flags = lazyStatus s := by
  unfold flagsRebuild
  split
  · exact statusOfFlags_merge ..
  · rename_i known
    have unknown : s.flagsOp = .unknown := by simpa using known
    simp only [statusOfFlags, lazyStatus, cfSet, pfSet, afSet, zfSet, nfSet, vfSet, unknown,
      isSet_setWidth]

/-- `flags_rebuild` keeps every bit that is not a status flag. -/
theorem flagsRebuild_other (s : FlagState) :
    (flagsRebuild s).flags &&& ~~~0x8d5 = s.flags &&& ~~~0x8d5 := by
  unfold flagsRebuild
  split
  · have rebuilt : rebuiltBits s &&& ~~~0x8d5 = 0 := by
      unfold rebuiltBits
      split <;> split <;> split <;> split <;> split <;> split <;> decide
    rw [BitVec.and_or_distrib_right, rebuilt, BitVec.and_assoc, BitVec.and_self]
    simp
  · rfl

/-! ## Operands and results in 32-bit fields -/

section Fields

variable {sz : Size}

theorem and_mask (sz : Size) (x : BitVec 32) :
    x &&& sz.mask = (x.setWidth sz.bits).setWidth 32 := by
  apply BitVec.eq_of_toNat_eq
  have xLt := x.isLt
  have low (k : Nat) : x.toNat &&& (2 ^ k - 1) = x.toNat % 2 ^ k :=
    Nat.and_two_pow_sub_one_eq_mod _ k
  cases sz
  · simpa [Size.mask, Size.bits] using (low 8).trans (by omega)
  · simpa [Size.mask, Size.bits] using (low 16).trans (by omega)
  · simpa [Size.mask, Size.bits] using (low 32).trans (by omega)

theorem and_nibble (x : BitVec 32) : x &&& 0xf = (x.setWidth 4).setWidth 32 := by
  apply BitVec.eq_of_toNat_eq
  have xLt := x.isLt
  simpa using (Nat.and_two_pow_sub_one_eq_mod x.toNat 4).trans (by omega)

/-- A one-bit mask tests that bit. -/
theorem isSet_and_twoPow (x : BitVec 32) {i : Nat} (inside : i < 32) :
    isSet (x &&& BitVec.twoPow 32 i) = x.getLsbD i := by
  rw [BitVec.and_twoPow]
  split
  · rename_i bit
    have nonzero : BitVec.twoPow 32 i ≠ 0#32 := by
      intro zero
      have := congrArg (BitVec.getLsbD · i) zero
      simp [inside] at this
    simp [isSet, bit, nonzero]
  · rename_i bit
    simp [isSet, bit]

theorem isSet_and_msb (sz : Size) (x : BitVec 32) :
    isSet (x &&& sz.msb) = x.getLsbD (sz.bits - 1) := by
  have mask : sz.msb = BitVec.twoPow 32 (sz.bits - 1) := by cases sz <;> decide
  rw [mask]
  exact isSet_and_twoPow x (by have := sz.bits_le; have := sz.bits_pos; omega)

theorem isSet_and_one (x : BitVec 32) : isSet (x &&& 1) = x.getLsbD 0 :=
  isSet_and_twoPow (i := 0) x (by decide)

/-- The sign bit of an operand held in a 32-bit field. -/
theorem getLsbD_msb (a : BitVec sz.bits) :
    (a.setWidth 32).getLsbD (sz.bits - 1) = a.msb := by
  have := sz.bits_le
  have := sz.bits_pos
  rw [BitVec.getLsbD_setWidth, BitVec.msb_eq_getLsbD_last]
  simp only [decide_eq_true (show sz.bits - 1 < 32 by omega), Bool.true_and]

theorem toNat_setWidth_bits (a : BitVec sz.bits) : (a.setWidth 32).toNat = a.toNat := by
  rw [BitVec.toNat_setWidth]
  exact Nat.mod_eq_of_lt (a.isLt.trans_le (Nat.pow_le_pow_right (by decide) sz.bits_le))

theorem setWidth_setWidth_bits (a : BitVec sz.bits) : (a.setWidth 32).setWidth sz.bits = a := by
  rw [BitVec.setWidth_setWidth (by have := sz.bits_le; omega), BitVec.setWidth_eq]

theorem setWidth_inj_bits {a b : BitVec sz.bits} :
    a.setWidth 32 = b.setWidth 32 ↔ a = b := by
  refine ⟨fun wide => ?_, fun equal => by rw [equal]⟩
  rw [← setWidth_setWidth_bits a, wide, setWidth_setWidth_bits]

theorem setWidth_cInt (sz : Size) (c : Bool) :
    (cInt c).setWidth sz.bits = carryWord sz.bits c := by
  cases sz <;> cases c <;> rfl

/-- A masked sum is the sum of the operands at their own width. -/
theorem sum_field (a b : BitVec sz.bits) (c : Bool) :
    (a.setWidth 32 + b.setWidth 32 + cInt c) &&& sz.mask =
      (a + b + carryWord sz.bits c).setWidth 32 := by
  rw [and_mask, BitVec.setWidth_add _ _ sz.bits_le, BitVec.setWidth_add _ _ sz.bits_le,
    setWidth_setWidth_bits, setWidth_setWidth_bits, setWidth_cInt]

/-- A masked difference is the difference of the operands at their own width. -/
theorem difference_field (a b : BitVec sz.bits) (c : Bool) :
    (a.setWidth 32 - (b.setWidth 32 + cInt c)) &&& sz.mask =
      (a - (b + carryWord sz.bits c)).setWidth 32 := by
  rw [and_mask, BitVec.sub_eq_add_neg, BitVec.setWidth_add _ _ sz.bits_le,
    BitVec.setWidth_neg_of_le sz.bits_le, BitVec.setWidth_add _ _ sz.bits_le,
    setWidth_setWidth_bits, setWidth_setWidth_bits, setWidth_cInt, ← BitVec.sub_eq_add_neg]

/-- The low nibble of an operand held in a 32-bit field. -/
theorem nibble_field (a : BitVec sz.bits) :
    (a.setWidth 32) &&& 0xf = (a.setWidth 4).setWidth 32 := by
  rw [and_nibble, BitVec.setWidth_setWidth_of_le a (show 4 ≤ 32 by decide)]

theorem toNat_nibble (a : BitVec sz.bits) : (a.setWidth 4).toNat = a.toNat % 16 :=
  BitVec.toNat_setWidth 4 a

theorem nibble_add (a b : BitVec sz.bits) (c : Bool) :
    (a + b + carryWord sz.bits c).setWidth 4 =
      a.setWidth 4 + b.setWidth 4 + carryWord 4 c := by
  have wide : 4 ≤ sz.bits := by cases sz <;> decide
  rw [BitVec.setWidth_add _ _ wide, BitVec.setWidth_add _ _ wide]
  congr 1
  cases sz <;> cases c <;> rfl

theorem nibble_sub (a b : BitVec sz.bits) (c : Bool) :
    (a - (b + carryWord sz.bits c)).setWidth 4 =
      a.setWidth 4 - (b.setWidth 4 + carryWord 4 c) := by
  have wide : 4 ≤ sz.bits := by cases sz <;> decide
  rw [BitVec.sub_eq_add_neg, BitVec.setWidth_add _ _ wide, BitVec.setWidth_neg_of_le wide,
    BitVec.setWidth_add _ _ wide, ← BitVec.sub_eq_add_neg]
  congr 2
  cases sz <;> cases c <;> rfl

end Fields

/-! ## The readers, family by family -/

/-- The operand size of a record whose result field is valid, as `flags_res_valid` tests. -/
def FlagsOp.resultSize? : FlagsOp → Option Size
  | .zn sz | .add sz | .sub sz | .shl sz | .shr sz | .sar sz | .inc sz | .dec sz | .adc sz
  | .sbc sz => some sz
  | .rol _ | .ror _ | .unknown => none

section ResultReaders

variable {sz : Size} {s : FlagState} {r : BitVec sz.bits}

theorem zfSet_of_result (valid : s.flagsOp.resultSize? = some sz)
    (res : s.flagsRes = r.setWidth 32) : isSet (zfSet s) = (r == 0) := by
  have read : zfSet s = cInt (s.flagsRes == 0) := by
    unfold zfSet
    split <;> simp_all [FlagsOp.resultSize?]
  have zero : (0 : BitVec 32) = (0 : BitVec sz.bits).setWidth 32 := by simp
  rw [read, isSet_cInt, res, Bool.eq_iff_iff, beq_iff_eq, beq_iff_eq, zero, setWidth_inj_bits]

theorem nfSet_of_result (valid : s.flagsOp.resultSize? = some sz)
    (res : s.flagsRes = r.setWidth 32) : isSet (nfSet s) = r.msb := by
  have read : nfSet s = s.flagsRes &&& sz.msb := by
    unfold nfSet
    split <;> simp_all [FlagsOp.resultSize?]
  rw [read, isSet_and_msb, res, getLsbD_msb]

/-- The parity table marks the bytes with an even number of one bits. -/
theorem znptable8_parity (c : BitVec 8) :
    isSet ((znptable8 c &&& P_FLAG.setWidth 8).setWidth 32) = evenParity c := by
  revert c
  decide

theorem evenParity_low (r : BitVec sz.bits) : evenParity (r.setWidth 8) = evenParity r := by
  have low (i : Nat) (inside : i < 8) : (r.setWidth 8).getLsbD i = r.getLsbD i := by
    simp only [BitVec.getLsbD_setWidth, inside, decide_true, Bool.true_and]
  unfold evenParity
  rw [List.countP_congr (q := (r.getLsbD ·))]
  intro i mem
  rw [low i (List.mem_range.mp mem)]

theorem pfSet_of_result (valid : s.flagsOp.resultSize? = some sz)
    (res : s.flagsRes = r.setWidth 32) : isSet (pfSet s) = evenParity r := by
  have read :
      pfSet s = (znptable8 (s.flagsRes.setWidth 8) &&& P_FLAG.setWidth 8).setWidth 32 := by
    unfold pfSet
    split <;> simp_all [FlagsOp.resultSize?]
  rw [read, znptable8_parity, res, BitVec.setWidth_setWidth_of_le r (show 8 ≤ 32 by decide),
    evenParity_low]

/-- The three flags that depend on the result alone are right whenever the record holds
the architectural result; the other three are the instruction's own. -/
theorem agrees_ofResult_iff (valid : s.flagsOp.resultSize? = some sz)
    (res : s.flagsRes = r.setWidth 32) (cf af of : Option Bool) :
    (ofResult r cf af of).Agrees (lazyStatus s) ↔
      Meets cf (isSet (cfSet s)) ∧ Meets af (isSet (afSet s)) ∧ Meets of (isSet (vfSet s)) := by
  constructor
  · rintro ⟨hcf, -, haf, -, -, hof⟩
    exact ⟨hcf, haf, hof⟩
  · rintro ⟨hcf, haf, hof⟩
    exact ⟨hcf, by simp [ofResult, lazyStatus, pfSet_of_result valid res], haf,
      by simp [ofResult, lazyStatus, zfSet_of_result valid res],
      by simp [ofResult, lazyStatus, nfSet_of_result valid res], hof⟩

end ResultReaders

/-! ## Carry -/

section Carry

variable {sz : Size} (a b : BitVec sz.bits) (c : Bool)

theorem toNat_mask (sz : Size) : sz.mask.toNat = 2 ^ sz.bits - 1 := by cases sz <;> rfl

theorem cfSet_add (s : FlagState) :
    isSet (cfSet (setadd sz s a b)) = decide (2 ^ sz.bits ≤ a.toNat + b.toNat) := by
  have aLt := a.isLt
  have bLt := b.isLt
  have bit (i : Nat) (inside : i < 32) (x : BitVec 32) :
      isSet (x &&& BitVec.twoPow 32 i) = decide (x.toNat / 2 ^ i % 2 = 1) := by
    rw [isSet_and_twoPow x inside, BitVec.getLsbD, Nat.testBit_eq_decide_div_mod_eq]
  have aField := toNat_setWidth_bits a
  have bField := toNat_setWidth_bits b
  cases sz with
  | b8 =>
      refine (isSet_cInt _).trans ((bit 8 (by decide) _).trans (decide_eq_decide.mpr ?_))
      simp only [setadd, BitVec.toNat_add, aField, bField]
      dsimp only [Size.bits] at *
      omega
  | b16 =>
      refine (isSet_cInt _).trans ((bit 16 (by decide) _).trans (decide_eq_decide.mpr ?_))
      simp only [setadd, BitVec.toNat_add, aField, bField]
      dsimp only [Size.bits] at *
      omega
  | b32 =>
      have masked : (a.setWidth 32 + b.setWidth 32) &&& Size.b32.mask =
          a.setWidth 32 + b.setWidth 32 := BitVec.and_allOnes
      simp only [cfSet, setadd, isSet_cInt, masked, BitVec.ult_eq_decide]
      refine decide_eq_decide.mpr ?_
      rw [BitVec.toNat_add, aField, bField]
      dsimp only [Size.bits] at *
      omega

theorem cfSet_adc (s : FlagState) :
    isSet (cfSet (setadc sz s (cInt c) a b)) =
      decide (2 ^ sz.bits ≤ a.toNat + b.toNat + c.toNat) := by
  have aLt := a.isLt
  have bLt := b.isLt
  have cLe := Bool.toNat_le c
  rw [Bool.eq_iff_iff]
  simp only [cfSet, setadc, isSet_cInt, sum_field, BitVec.ult_eq_decide, Bool.or_eq_true,
    Bool.and_eq_true, decide_eq_true_eq, beq_iff_eq, ← BitVec.toNat_inj,
    toNat_setWidth_bits, toNat_mask, toNat_add_carry a b c sz.bits_pos]
  have wide : 2 ≤ 2 ^ sz.bits := Nat.le_self_pow (by have := sz.bits_pos; omega) 2
  split <;> omega

theorem cfSet_sub (s : FlagState) :
    isSet (cfSet (setsub sz s a b)) = decide (a.toNat < b.toNat) := by
  simp only [cfSet, setsub, isSet_cInt, BitVec.ult_eq_decide, toNat_setWidth_bits]

theorem cfSet_sbc (s : FlagState) :
    isSet (cfSet (setsbc sz s (cInt c) a b)) = decide (a.toNat < b.toNat + c.toNat) := by
  have aLt := a.isLt
  have bLt := b.isLt
  have cLe := Bool.toNat_le c
  rw [Bool.eq_iff_iff]
  simp only [cfSet, setsbc, isSet_cInt, difference_field, BitVec.ult_eq_decide, Bool.or_eq_true,
    Bool.and_eq_true, decide_eq_true_eq, beq_iff_eq,
    bne_iff_ne, ne_eq, ← BitVec.toNat_inj, toNat_setWidth_bits,
    toNat_sub_borrow a b c sz.bits_pos, show (0 : BitVec 32).toNat = 0 from rfl]
  have wide : 2 ≤ 2 ^ sz.bits := Nat.le_self_pow (by have := sz.bits_pos; omega) 2
  split <;> omega

/-- `flags_rebuild_c` leaves the carry that was held, in the register, in any lazy state. -/
theorem flagsRebuildC_carry (s : FlagState) :
    ((flagsRebuildC s).flags &&& C_FLAG != 0) = isSet (cfSet s) := by
  have set (f : BitVec 16) : (f ||| C_FLAG) &&& C_FLAG = C_FLAG := by
    rw [BitVec.and_or_distrib_right, BitVec.and_self]
    ext i inside
    simp only [BitVec.getElem_or, BitVec.getElem_and]
    cases f[i] <;> simp
  have clear (f : BitVec 16) : f &&& ~~~C_FLAG &&& C_FLAG = 0 := by
    rw [BitVec.and_assoc]
    simp [C_FLAG]
  unfold flagsRebuildC
  split
  · split
    · rename_i carry
      simp only [set, carry]
      decide
    · rename_i carry
      simp only [clear]
      simpa using carry
  · rename_i known
    have unknown : s.flagsOp = .unknown := by simpa using known
    simp only [cfSet, unknown, isSet_setWidth]

theorem cfSet_inc (s : FlagState) : isSet (cfSet (setaddnc sz s a b)) = isSet (cfSet s) := by
  rw [← flagsRebuildC_carry s, ← isSet_setWidth]
  rfl

theorem cfSet_dec (s : FlagState) : isSet (cfSet (setsubnc sz s a b)) = isSet (cfSet s) := by
  rw [← flagsRebuildC_carry s, ← isSet_setWidth]
  rfl

end Carry

/-! ## Overflow -/

section Overflow

variable {sz : Size} (a b : BitVec sz.bits) (c : Bool)

/-- The overflow test of the sums, on the operands and the result. -/
theorem overflow_of_sum (r : BitVec sz.bits) :
    (!isSet ((a.setWidth 32 ^^^ b.setWidth 32) &&& sz.msb) &&
        isSet ((a.setWidth 32 ^^^ r.setWidth 32) &&& sz.msb)) =
      (a.msb == b.msb && a.msb != r.msb) := by
  simp only [isSet_and_msb, BitVec.getLsbD_xor, getLsbD_msb]
  cases a.msb <;> cases b.msb <;> cases r.msb <;> rfl

/-- The overflow test of the differences, on the operands and the result. -/
theorem overflow_of_difference (r : BitVec sz.bits) :
    isSet ((a.setWidth 32 ^^^ b.setWidth 32) &&& (a.setWidth 32 ^^^ r.setWidth 32) &&& sz.msb) =
      (a.msb != b.msb && a.msb != r.msb) := by
  simp only [isSet_and_msb, BitVec.getLsbD_xor, BitVec.getLsbD_and, getLsbD_msb]

variable {s : FlagState}

theorem vfSet_of_sum (op : s.flagsOp = .add sz ∨ s.flagsOp = .adc sz ∨ s.flagsOp = .inc sz)
    (op1 : s.flagsOp1 = a.setWidth 32) (op2 : s.flagsOp2 = b.setWidth 32)
    (res : s.flagsRes = (a + b + carryWord sz.bits c).setWidth 32) :
    isSet (vfSet s) = signedOverflow sz.bits (a.toInt + b.toInt + c.toNat) := by
  rw [signedOverflow_add a b c sz.bits_pos, ← overflow_of_sum]
  rcases op with op | op | op <;> simp only [vfSet, op, op1, op2, res, isSet_cInt]

theorem vfSet_of_difference
    (op : s.flagsOp = .sub sz ∨ s.flagsOp = .sbc sz ∨ s.flagsOp = .dec sz)
    (op1 : s.flagsOp1 = a.setWidth 32) (op2 : s.flagsOp2 = b.setWidth 32)
    (res : s.flagsRes = (a - (b + carryWord sz.bits c)).setWidth 32) :
    isSet (vfSet s) = signedOverflow sz.bits (a.toInt - b.toInt - c.toNat) := by
  rw [signedOverflow_sub a b c sz.bits_pos, ← overflow_of_difference]
  rcases op with op | op | op <;> simp only [vfSet, op, op1, op2, res]

end Overflow

/-! ## Auxiliary carry -/

section AuxCarry

variable {sz : Size} (a b : BitVec sz.bits) (c : Bool) {s : FlagState}

theorem afSet_of_sum (op : s.flagsOp = .add sz ∨ s.flagsOp = .inc sz)
    (op1 : s.flagsOp1 = a.setWidth 32) (op2 : s.flagsOp2 = b.setWidth 32) :
    isSet (afSet s) = decide (16 ≤ a.toNat % 16 + b.toNat % 16) := by
  have table (p q : BitVec 4) :
      isSet ((p.setWidth 32 + q.setWidth 32) &&& 0x10) = decide (16 ≤ p.toNat + q.toNat) := by
    revert p q
    decide
  have read : afSet s = ((s.flagsOp1 &&& 0xf) + (s.flagsOp2 &&& 0xf)) &&& 0x10 := by
    rcases op with op | op <;> simp only [afSet, op]
  rw [read, op1, op2, nibble_field, nibble_field, table, toNat_nibble, toNat_nibble]

theorem afSet_of_difference (op : s.flagsOp = .sub sz ∨ s.flagsOp = .dec sz)
    (op1 : s.flagsOp1 = a.setWidth 32) (op2 : s.flagsOp2 = b.setWidth 32) :
    isSet (afSet s) = decide (a.toNat % 16 < b.toNat % 16) := by
  have table (p q : BitVec 4) :
      isSet ((p.setWidth 32 - q.setWidth 32) &&& 0x10) = decide (p.toNat < q.toNat) := by
    revert p q
    decide
  have read : afSet s = ((s.flagsOp1 &&& 0xf) - (s.flagsOp2 &&& 0xf)) &&& 0x10 := by
    rcases op with op | op <;> simp only [afSet, op]
  rw [read, op1, op2, nibble_field, nibble_field, table, toNat_nibble, toNat_nibble]

theorem afSet_sbc (op : s.flagsOp = .sbc sz)
    (op1 : s.flagsOp1 = a.setWidth 32) (op2 : s.flagsOp2 = b.setWidth 32)
    (res : s.flagsRes = (a - (b + carryWord sz.bits c)).setWidth 32) :
    isSet (afSet s) = decide (a.toNat % 16 < b.toNat % 16 + c.toNat) := by
  have table (p q : BitVec 4) (c : Bool) :
      ((p.setWidth 32).ult (q.setWidth 32) || (p.setWidth 32 == q.setWidth 32 &&
          (p - (q + carryWord 4 c)).setWidth 32 != (0 : BitVec 32))) =
        decide (p.toNat < q.toNat + c.toNat) := by
    revert p q c
    decide
  simp only [afSet, op, op1, op2, res, nibble_field, nibble_sub, isSet_cInt, table, toNat_nibble]

/-- The auxiliary carry of a sum with carry-in misses the sums whose second operand has
an all-ones low nibble without being all ones. -/
theorem afSet_adc (op : s.flagsOp = .adc sz)
    (op1 : s.flagsOp1 = a.setWidth 32) (op2 : s.flagsOp2 = b.setWidth 32)
    (res : s.flagsRes = (a + b + carryWord sz.bits c).setWidth 32) :
    isSet (afSet s) = decide (16 ≤ a.toNat % 16 + b.toNat % 16 + c.toNat ∧
      ¬ (c = true ∧ b.toNat % 16 = 15 ∧ b ≠ BitVec.allOnes sz.bits)) := by
  have table (p q : BitVec 4) (c full : Bool) (fullNibble : full = true → q.toNat = 15) :
      (((p + q + carryWord 4 c).setWidth 32).ult (p.setWidth 32) ||
          ((p + q + carryWord 4 c).setWidth 32 == (p.setWidth 32 : BitVec 32) && full)) =
        decide (16 ≤ p.toNat + q.toNat + c.toNat ∧
          ¬ (c = true ∧ q.toNat = 15 ∧ full = false)) := by
    revert p q c full
    decide
  have full : (b.setWidth 32 == sz.mask) = decide (b = BitVec.allOnes sz.bits) := by
    have mask : sz.mask = (BitVec.allOnes sz.bits).setWidth 32 := by cases sz <;> rfl
    rw [mask, Bool.eq_iff_iff, beq_iff_eq, decide_eq_true_eq, setWidth_inj_bits]
  have nibble : decide (b = BitVec.allOnes sz.bits) = true → (b.setWidth 4).toNat = 15 := by
    intro ones
    rw [of_decide_eq_true ones]
    cases sz <;> rfl
  simp only [afSet, op, op1, op2, res, nibble_field, nibble_add, isSet_cInt, full,
    table _ _ _ _ nibble, toNat_nibble, decide_eq_false_iff_not, ne_eq]

end AuxCarry

/-! ## Shifts -/

section Shifts

variable {sz : Size} (a : BitVec sz.bits) (c : ShiftCount) {s : FlagState}

theorem ShiftCount.toNat_pred (c : ShiftCount) : (c.1 - 1).toNat = c.1.toNat - 1 := by
  have := c.2
  have := c.1.isLt
  simp only [BitVec.toNat_sub, show (1 : BitVec 32).toNat = 1 from rfl]
  omega

theorem shl_field :
    (a.setWidth 32 <<< c.1) &&& sz.mask = (a <<< c.1.toNat).setWidth 32 := by
  have := sz.bits_le
  rw [and_mask]
  congr 1
  apply BitVec.eq_of_getLsbD_eq
  intro i inside
  have inside' : i < 32 := by omega
  have inner : i - c.1.toNat < 32 := by omega
  simp only [BitVec.shiftLeft_eq', BitVec.getLsbD_setWidth, BitVec.getLsbD_shiftLeft, inside,
    inside', inner, decide_true, Bool.true_and]

theorem shr_field : a.setWidth 32 >>> c.1 = (a >>> c.1.toNat).setWidth 32 := by
  apply BitVec.eq_of_toNat_eq
  simp only [BitVec.ushiftRight_eq', BitVec.toNat_ushiftRight, toNat_setWidth_bits]

theorem sar_field :
    ((((a.signExtend 32).sshiftRight' c.1).setWidth sz.bits).setWidth 32 : BitVec 32) =
      (a.sshiftRight c.1.toNat).setWidth 32 := by
  have wide := sz.bits_le
  have := sz.bits_pos
  congr 1
  apply BitVec.eq_of_getLsbD_eq
  intro i inside
  have signBit : (a.signExtend 32).msb = a.msb := by
    rw [BitVec.msb_signExtend]
    cases sz <;> rfl
  have inside' : i < 32 := by omega
  simp only [BitVec.sshiftRight_eq', BitVec.getLsbD_setWidth, BitVec.getLsbD_sshiftRight,
    BitVec.getLsbD_signExtend, inside, decide_true, Bool.true_and, signBit,
    show ¬ 32 ≤ i by omega, show ¬ sz.bits ≤ i by omega, decide_false, Bool.not_false]
  split <;> split <;> first | rfl | omega | simp [*]

/-- `SHL` shifts the carry out of the top. -/
theorem cfSet_shl (op : s.flagsOp = .shl sz) (op1 : s.flagsOp1 = a.setWidth 32)
    (op2 : s.flagsOp2 = c.1) (inRange : c.1.toNat ≤ sz.bits) :
    isSet (cfSet s) = a.getLsbD (sz.bits - c.1.toNat) := by
  have := sz.bits_le
  have := sz.bits_pos
  have positive := c.2.1
  have below : sz.bits - 1 < 32 := by omega
  have above : ¬ sz.bits - 1 < c.1.toNat - 1 := by omega
  have inner : sz.bits - 1 - (c.1.toNat - 1) = sz.bits - c.1.toNat := by omega
  have inner' : sz.bits - c.1.toNat < 32 := by omega
  simp only [cfSet, op, op1, op2, isSet_cInt, isSet_and_msb, BitVec.shiftLeft_eq',
    c.toNat_pred, BitVec.getLsbD_shiftLeft, BitVec.getLsbD_setWidth, below, above, inner, inner',
    decide_true, decide_false, Bool.not_false, Bool.true_and]

theorem cfSet_shr (op : s.flagsOp = .shr sz) (op1 : s.flagsOp1 = a.setWidth 32)
    (op2 : s.flagsOp2 = c.1) : isSet (cfSet s) = a.getLsbD (c.1.toNat - 1) := by
  have := c.2.2
  have inner : c.1.toNat - 1 < 32 := by omega
  simp only [cfSet, op, op1, op2, isSet_and_one, BitVec.ushiftRight_eq', c.toNat_pred,
    BitVec.getLsbD_ushiftRight, BitVec.getLsbD_setWidth, Nat.add_zero, inner, decide_true,
    Bool.true_and]

/-- `SAR` keeps shifting the sign out once the operand is used up. -/
theorem cfSet_sar (op : s.flagsOp = .sar sz) (op1 : s.flagsOp1 = a.setWidth 32)
    (op2 : s.flagsOp2 = c.1) :
    isSet (cfSet s) = if c.1.toNat ≤ sz.bits then a.getLsbD (c.1.toNat - 1) else a.msb := by
  have positive := c.2.1
  have := c.2.2
  have inner : c.1.toNat - 1 < 32 := by omega
  have same : (c.1.toNat - 1 < sz.bits) = (c.1.toNat ≤ sz.bits) := by
    apply propext
    omega
  simp only [cfSet, op, op1, op2, castInt, setWidth_setWidth_bits, isSet_and_one,
    BitVec.sshiftRight_eq', c.toNat_pred, BitVec.getLsbD_sshiftRight, BitVec.getLsbD_signExtend,
    Nat.add_zero, inner, decide_true, Bool.true_and, same]
  simp

theorem vfSet_shl (op : s.flagsOp = .shl sz) (op1 : s.flagsOp1 = a.setWidth 32)
    (op2 : s.flagsOp2 = c.1) (one : c.1.toNat = 1) :
    isSet (vfSet s) = ((a <<< c.1.toNat).msb ^^ a.getLsbD (sz.bits - c.1.toNat)) := by
  have := sz.bits_le
  have wide : 1 < sz.bits := by cases sz <;> decide
  have below : sz.bits - 1 < 32 := by omega
  have inside : sz.bits - 1 < sz.bits := by omega
  have inner : sz.bits - 1 - 1 < 32 := by omega
  have above : ¬ sz.bits - 1 < 1 := by omega
  simp only [vfSet, op, op1, op2, isSet_and_msb, BitVec.getLsbD_xor, BitVec.shiftLeft_eq',
    c.toNat_pred, one, BitVec.msb_eq_getLsbD_last, BitVec.getLsbD_shiftLeft,
    BitVec.getLsbD_setWidth, below, inside, inner, above, decide_true, decide_false,
    Bool.not_false, Bool.true_and, Nat.sub_self, Nat.not_lt_zero, Nat.sub_zero]

theorem vfSet_shr (op : s.flagsOp = .shr sz) (op1 : s.flagsOp1 = a.setWidth 32)
    (op2 : s.flagsOp2 = c.1) (one : c.1.toNat = 1) : isSet (vfSet s) = a.msb := by
  have count : c.1 = 1 := BitVec.eq_of_toNat_eq one
  simp only [vfSet, op, op1, op2, count, isSet_cInt, isSet_and_msb, getLsbD_msb, beq_self_eq_true,
    Bool.true_and]

end Shifts

/-! ## Instructions -/

namespace FlagInstr

variable {sz : Size}

/-- What the architecture says of an instruction, given the carry flag before it. -/
def spec (carry : Bool) : FlagInstr sz → StatusSpec
  | add dst src => addSpec dst src false
  | sub dst src => subSpec dst src false
  | adc dst src => addSpec dst src carry
  | sbc dst src => subSpec dst src carry
  | inc dst => incSpec dst carry
  | dec dst => decSpec dst carry
  | logic res => logicSpec res
  | shl dst c => shlSpec dst c.1.toNat
  | shr dst c => shrSpec dst c.1.toNat
  | sar dst c => sarSpec dst c.1.toNat

/-- The additions with carry whose auxiliary carry `AF_SET` misses: a carry-in and an
all-ones low nibble, in a second operand that is not all ones. -/
def MissesAuxCarry (carry : Bool) : FlagInstr sz → Prop
  | adc _ src => carry = true ∧ src.toNat % 16 = 15 ∧ src ≠ BitVec.allOnes sz.bits
  | _ => False

/-- After the instruction `flags_rebuild` produces the architectural flags, and the lazy
readers show the bits it produces. -/
def FlagsExact (s : FlagState) (i : FlagInstr sz) : Prop :=
  (i.spec (isSet (cfSet s))).Agrees (statusOfFlags (flagsRebuild (i.run s)).flags) ∧
    lazyStatus (i.run s) = statusOfFlags (flagsRebuild (i.run s)).flags

instance (s : FlagState) (i : FlagInstr sz) : Decidable (FlagsExact s i) :=
  inferInstanceAs (Decidable (_ ∧ _))

theorem flagsExact_iff_lazy (s : FlagState) (i : FlagInstr sz) :
    FlagsExact s i ↔ (i.spec (isSet (cfSet s))).Agrees (lazyStatus (i.run s)) := by
  simp only [FlagsExact, statusOfFlags_flagsRebuild, and_true]

section Agreement

variable (s : FlagState)

theorem agrees_add (a b : BitVec sz.bits) :
    (addSpec a b false).Agrees (lazyStatus (setadd sz s a b)) := by
  have res : (setadd sz s a b).flagsRes = (a + b + carryWord sz.bits false).setWidth 32 := by
    rw [← sum_field]
    simp [setadd, cInt]
  refine (agrees_ofResult_iff rfl res _ _ _).mpr ?_
  simp only [meets_some]
  exact ⟨cfSet_add a b s, afSet_of_sum a b (.inl rfl) rfl rfl,
    vfSet_of_sum a b false (.inl rfl) rfl rfl res⟩

theorem agrees_sub (a b : BitVec sz.bits) :
    (subSpec a b false).Agrees (lazyStatus (setsub sz s a b)) := by
  have res : (setsub sz s a b).flagsRes =
      (a - (b + carryWord sz.bits false)).setWidth 32 := by
    rw [← difference_field]
    simp [setsub, cInt]
  refine (agrees_ofResult_iff rfl res _ _ _).mpr ?_
  simp only [meets_some]
  exact ⟨cfSet_sub a b s, afSet_of_difference a b (.inl rfl) rfl rfl,
    vfSet_of_difference a b false (.inl rfl) rfl rfl res⟩

theorem agrees_inc (a : BitVec sz.bits) :
    (incSpec a (isSet (cfSet s))).Agrees (lazyStatus (setaddnc sz s a 1)) := by
  have res : (setaddnc sz s a 1).flagsRes =
      (a + 1 + carryWord sz.bits false).setWidth 32 := by
    rw [← sum_field]
    simp [setaddnc, cInt]
  refine (agrees_ofResult_iff rfl res (some (isSet (cfSet s))) _ _).mpr ?_
  have af := afSet_of_sum (s := setaddnc sz s a 1) a 1 (.inr rfl) rfl rfl
  have of := vfSet_of_sum a 1 false (.inr (.inr rfl)) rfl rfl res
  exact ⟨(meets_some ..).mpr (cfSet_inc a 1 s), (meets_some ..).mpr af, (meets_some ..).mpr of⟩

theorem agrees_dec (a : BitVec sz.bits) :
    (decSpec a (isSet (cfSet s))).Agrees (lazyStatus (setsubnc sz s a 1)) := by
  have res : (setsubnc sz s a 1).flagsRes =
      (a - (1 + carryWord sz.bits false)).setWidth 32 := by
    rw [← difference_field]
    simp [setsubnc, cInt]
  refine (agrees_ofResult_iff rfl res (some (isSet (cfSet s))) _ _).mpr ?_
  have af := afSet_of_difference (s := setsubnc sz s a 1) a 1 (.inr rfl) rfl rfl
  have of := vfSet_of_difference a 1 false (.inr (.inr rfl)) rfl rfl res
  exact ⟨(meets_some ..).mpr (cfSet_dec a 1 s), (meets_some ..).mpr af, (meets_some ..).mpr of⟩

theorem agrees_sbc (a b : BitVec sz.bits) (c : Bool) :
    (subSpec a b c).Agrees (lazyStatus (setsbc sz s (cInt c) a b)) := by
  have res : (setsbc sz s (cInt c) a b).flagsRes =
      (a - (b + carryWord sz.bits c)).setWidth 32 := difference_field a b c
  refine (agrees_ofResult_iff rfl res _ _ _).mpr ?_
  simp only [meets_some]
  exact ⟨cfSet_sbc a b c s, afSet_sbc a b c rfl rfl rfl res,
    vfSet_of_difference a b c (.inr (.inl rfl)) rfl rfl res⟩

/-- An addition with carry is right exactly where its auxiliary carry is. -/
theorem agrees_adc_iff (a b : BitVec sz.bits) (c : Bool) :
    (addSpec a b c).Agrees (lazyStatus (setadc sz s (cInt c) a b)) ↔
      ¬ (c = true ∧ b.toNat % 16 = 15 ∧ b ≠ BitVec.allOnes sz.bits) := by
  have res : (setadc sz s (cInt c) a b).flagsRes =
      (a + b + carryWord sz.bits c).setWidth 32 := sum_field a b c
  have af := afSet_adc a b c (s := setadc sz s (cInt c) a b) rfl rfl rfl res
  refine (agrees_ofResult_iff rfl res _ _ _).trans ?_
  simp only [meets_some]
  constructor
  · rintro ⟨-, afExact, -⟩ ⟨carry, nibble, notOnes⟩
    rw [af, decide_eq_decide] at afExact
    have reached : 16 ≤ a.toNat % 16 + b.toNat % 16 + c.toNat := by
      simp only [carry, Bool.toNat_true]
      omega
    exact (afExact.mpr reached).2 ⟨carry, nibble, notOnes⟩
  · intro hit
    refine ⟨cfSet_adc a b c s, ?_, vfSet_of_sum a b c (.inr (.inl rfl)) rfl rfl res⟩
    rw [af, decide_eq_decide]
    exact and_iff_left hit

theorem agrees_logic (r : BitVec sz.bits) :
    (logicSpec r).Agrees (lazyStatus (setznp sz s r)) := by
  refine (agrees_ofResult_iff (s := setznp sz s r) rfl rfl _ _ _).mpr ?_
  simp only [meets_some, meets_none, true_and]
  exact ⟨rfl, rfl⟩

theorem agrees_shl (a : BitVec sz.bits) (c : ShiftCount) :
    (shlSpec a c.1.toNat).Agrees (lazyStatus (run s (shl a c))) := by
  refine (agrees_ofResult_iff (s := run s (shl a c)) rfl (shl_field a c) _ _ _).mpr ?_
  refine ⟨?_, meets_none _, ?_⟩
  · split
    · exact (meets_some ..).mpr (cfSet_shl a c rfl rfl rfl ‹_›)
    · exact meets_none _
  · split
    · exact (meets_some ..).mpr (vfSet_shl a c rfl rfl rfl ‹_›)
    · exact meets_none _

theorem agrees_shr (a : BitVec sz.bits) (c : ShiftCount) :
    (shrSpec a c.1.toNat).Agrees (lazyStatus (run s (shr a c))) := by
  refine (agrees_ofResult_iff (s := run s (shr a c)) rfl (shr_field a c) _ _ _).mpr ?_
  refine ⟨?_, meets_none _, ?_⟩
  · split
    · exact (meets_some ..).mpr (cfSet_shr a c rfl rfl rfl)
    · exact meets_none _
  · split
    · exact (meets_some ..).mpr (vfSet_shr a c rfl rfl rfl ‹_›)
    · exact meets_none _

theorem agrees_sar (a : BitVec sz.bits) (c : ShiftCount) :
    (sarSpec a c.1.toNat).Agrees (lazyStatus (run s (sar a c))) := by
  refine (agrees_ofResult_iff (s := run s (sar a c)) rfl (sar_field a c) _ _ _).mpr ?_
  refine ⟨(meets_some ..).mpr (cfSet_sar a c rfl rfl rfl), meets_none _, ?_⟩
  split
  · exact (meets_some ..).mpr rfl
  · exact meets_none _

end Agreement

/-- The flags are the architecture's after every instruction but the additions with carry
whose auxiliary carry is missed. -/
theorem flagsExact_iff (s : FlagState) (i : FlagInstr sz) :
    FlagsExact s i ↔ ¬ i.MissesAuxCarry (isSet (cfSet s)) := by
  rw [flagsExact_iff_lazy]
  cases i with
  | add dst src => exact iff_of_true (agrees_add s dst src) id
  | sub dst src => exact iff_of_true (agrees_sub s dst src) id
  | adc dst src => exact agrees_adc_iff s dst src (isSet (cfSet s))
  | sbc dst src => exact iff_of_true (agrees_sbc s dst src (isSet (cfSet s))) id
  | inc dst => exact iff_of_true (agrees_inc s dst) id
  | dec dst => exact iff_of_true (agrees_dec s dst) id
  | logic res => exact iff_of_true (agrees_logic s res) id
  | shl dst c => exact iff_of_true (agrees_shl s dst c) id
  | shr dst c => exact iff_of_true (agrees_shr s dst c) id
  | sar dst c => exact iff_of_true (agrees_sar s dst c) id

/-- `ADC AL, 0x0F` with the carry set and `AL` zero: the low nibbles carry, and `AF`
comes out clear. -/
theorem not_flagsExact_adc_nibble :
    ¬ @FlagsExact .b8 ⟨.unknown, 0, 0, 0, C_FLAG⟩ (adc 0x00 0x0f) := by
  decide

end FlagInstr

end PCemWeb
