import Mathlib.Data.BitVec

/-!
# Architectural status flags

The six status flags that an x86 arithmetic, logic or shift instruction defines,
stated on words of any width without reference to how an emulator keeps them.
-/

namespace PCemWeb.Arch

/-- The six status flags of a processor state. -/
structure Status : Type where
  cf : Bool
  pf : Bool
  af : Bool
  zf : Bool
  sf : Bool
  of : Bool
  deriving DecidableEq, Repr

/-- What an instruction says about the status flags; `none` where it leaves a flag
undefined. -/
structure StatusSpec : Type where
  cf : Option Bool
  pf : Option Bool
  af : Option Bool
  zf : Option Bool
  sf : Option Bool
  of : Option Bool
  deriving DecidableEq, Repr

/-- A flag has the specified value wherever one is specified. -/
def Meets (spec : Option Bool) (flag : Bool) : Prop := ∀ v ∈ spec, flag = v

instance (spec : Option Bool) (flag : Bool) : Decidable (Meets spec flag) :=
  match spec with
  | none => isTrue (by simp [Meets])
  | some v => decidable_of_iff (flag = v) (by simp [Meets])

@[simp] theorem meets_none (flag : Bool) : Meets none flag := by simp [Meets]

@[simp] theorem meets_some (v flag : Bool) : Meets (some v) flag ↔ flag = v := by simp [Meets]

/-- The status flags satisfy a specification. -/
structure StatusSpec.Agrees (spec : StatusSpec) (st : Status) : Prop where
  cf : Meets spec.cf st.cf
  pf : Meets spec.pf st.pf
  af : Meets spec.af st.af
  zf : Meets spec.zf st.zf
  sf : Meets spec.sf st.sf
  of : Meets spec.of st.of

instance (spec : StatusSpec) (st : Status) : Decidable (spec.Agrees st) :=
  decidable_of_iff (Meets spec.cf st.cf ∧ Meets spec.pf st.pf ∧ Meets spec.af st.af ∧
      Meets spec.zf st.zf ∧ Meets spec.sf st.sf ∧ Meets spec.of st.of)
    ⟨fun ⟨a, b, c, d, e, f⟩ => ⟨a, b, c, d, e, f⟩,
      fun ⟨a, b, c, d, e, f⟩ => ⟨a, b, c, d, e, f⟩⟩

section Results

variable {w : Nat}

/-- `PF`: the low byte of the result has an even number of one bits. -/
def evenParity (r : BitVec w) : Bool := (List.range 8).countP (r.getLsbD ·) % 2 == 0

/-- An integer does not fit a signed word. -/
def signedOverflow (w : Nat) (v : Int) : Bool := v < -2 ^ (w - 1) || 2 ^ (w - 1) ≤ v

/-- `ZF`, `SF` and `PF` follow from the result. -/
def ofResult (r : BitVec w) (cf af of : Option Bool) : StatusSpec :=
  { cf, pf := some (evenParity r), af, zf := some (r == 0), sf := some r.msb, of }

/-- A carry or borrow as a word. -/
def carryWord (w : Nat) (carry : Bool) : BitVec w := (BitVec.ofBool carry).setWidth w

/-- `ADD` and `ADC`. -/
def addSpec (a b : BitVec w) (carry : Bool) : StatusSpec :=
  ofResult (a + b + carryWord w carry)
    (some (2 ^ w ≤ a.toNat + b.toNat + carry.toNat))
    (some (16 ≤ a.toNat % 16 + b.toNat % 16 + carry.toNat))
    (some (signedOverflow w (a.toInt + b.toInt + carry.toNat)))

/-- `SUB` and `SBB`. -/
def subSpec (a b : BitVec w) (borrow : Bool) : StatusSpec :=
  ofResult (a - (b + carryWord w borrow))
    (some (a.toNat < b.toNat + borrow.toNat))
    (some (a.toNat % 16 < b.toNat % 16 + borrow.toNat))
    (some (signedOverflow w (a.toInt - b.toInt - borrow.toNat)))

/-- `INC` adds one and keeps the carry flag. -/
def incSpec (a : BitVec w) (carry : Bool) : StatusSpec :=
  { addSpec a 1 false with cf := some carry }

/-- `DEC` subtracts one and keeps the carry flag. -/
def decSpec (a : BitVec w) (carry : Bool) : StatusSpec :=
  { subSpec a 1 false with cf := some carry }

/-- `AND`, `OR`, `XOR` and `TEST` clear carry and overflow and leave `AF` undefined. -/
def logicSpec (r : BitVec w) : StatusSpec := ofResult r (some false) none (some false)

/-- `SHL` by `1 ≤ c`: the carry is the last bit shifted out, if the operand had one
there; overflow is defined for a shift by one. -/
def shlSpec (a : BitVec w) (c : Nat) : StatusSpec :=
  ofResult (a <<< c) (if c ≤ w then some (a.getLsbD (w - c)) else none) none
    (if c = 1 then some ((a <<< c).msb ^^ a.getLsbD (w - c)) else none)

/-- `SHR` by `1 ≤ c`. -/
def shrSpec (a : BitVec w) (c : Nat) : StatusSpec :=
  ofResult (a >>> c) (if c ≤ w then some (a.getLsbD (c - 1)) else none) none
    (if c = 1 then some a.msb else none)

/-- `SAR` by `1 ≤ c`: past the top bit the sign is shifted out. -/
def sarSpec (a : BitVec w) (c : Nat) : StatusSpec :=
  ofResult (a.sshiftRight c) (some (if c ≤ w then a.getLsbD (c - 1) else a.msb)) none
    (if c = 1 then some false else none)

end Results

/-! ## Overflow in terms of sign bits -/

section Overflow

variable {w : Nat}

theorem two_pow_eq_two_mul_half (pos : 0 < w) : 2 ^ w = 2 * 2 ^ (w - 1) := by
  rw [← Nat.pow_succ']
  congr 1
  omega

theorem toNat_carryWord (carry : Bool) (pos : 0 < w) :
    (carryWord w carry).toNat = carry.toNat := by
  have room : 2 ≤ 2 ^ w := Nat.le_self_pow (by omega) 2
  simp only [carryWord, BitVec.toNat_setWidth, BitVec.toNat_ofBool]
  exact Nat.mod_eq_of_lt (by have := Bool.toNat_le carry; omega)

/-- The sum of two words and a carry, without the remainder. -/
theorem toNat_add_carry (a b : BitVec w) (carry : Bool) (pos : 0 < w) :
    (a + b + carryWord w carry).toNat =
      if a.toNat + b.toNat + carry.toNat < 2 ^ w then a.toNat + b.toNat + carry.toNat
      else a.toNat + b.toNat + carry.toNat - 2 ^ w := by
  have aLt := a.isLt
  have bLt := b.isLt
  have carryLe := Bool.toNat_le carry
  simp only [BitVec.toNat_add, toNat_carryWord carry pos, Nat.mod_add_mod]
  split
  · exact Nat.mod_eq_of_lt ‹_›
  · rw [Nat.mod_eq_sub_mod (by omega), Nat.mod_eq_of_lt (by omega)]

/-- The difference of two words and a borrow, without the remainder. -/
theorem toNat_sub_borrow (a b : BitVec w) (borrow : Bool) (pos : 0 < w) :
    (a - (b + carryWord w borrow)).toNat =
      if b.toNat + borrow.toNat ≤ a.toNat then a.toNat - (b.toNat + borrow.toNat)
      else 2 ^ w + a.toNat - (b.toNat + borrow.toNat) := by
  have aLt := a.isLt
  have bLt := b.isLt
  have borrowLe := Bool.toNat_le borrow
  have rearrange : a - (b + carryWord w borrow) + (b + carryWord w borrow) = a :=
    BitVec.sub_add_cancel a _
  have sum : (a - (b + carryWord w borrow)).toNat + (b.toNat + borrow.toNat) = a.toNat ∨
      (a - (b + carryWord w borrow)).toNat + (b.toNat + borrow.toNat) = a.toNat + 2 ^ w := by
    have resultLt := (a - (b + carryWord w borrow)).isLt
    have total := congrArg BitVec.toNat rearrange
    rw [← BitVec.add_assoc, toNat_add_carry _ _ _ pos] at total
    split at total <;> omega
  split <;> omega

/-- The sum with carry overflows exactly when both operands have one sign and the
result has the other. -/
theorem signedOverflow_add (a b : BitVec w) (carry : Bool) (pos : 0 < w) :
    signedOverflow w (a.toInt + b.toInt + carry.toNat) =
      (a.msb == b.msb && a.msb != (a + b + carryWord w carry).msb) := by
  have aLt := a.isLt
  have bLt := b.isLt
  have carryLe := Bool.toNat_le carry
  have whole := two_pow_eq_two_mul_half pos
  have half : ((2 : Int) ^ (w - 1)) = ((2 ^ (w - 1) : Nat) : Int) := by push_cast; rfl
  rw [Bool.eq_iff_iff]
  simp only [signedOverflow, half, BitVec.msb_eq_decide, BitVec.toInt_eq_toNat_cond,
    toNat_add_carry a b carry pos, whole, Bool.or_eq_true, Bool.and_eq_true, decide_eq_true_eq,
    beq_iff_eq, bne_iff_ne, ne_eq, decide_eq_decide]
  generalize 2 ^ (w - 1) = half at *
  split <;> split <;> split <;> push_cast <;> omega

/-- The difference with borrow overflows exactly when the operands differ in sign and
the result does not have the sign of the first. -/
theorem signedOverflow_sub (a b : BitVec w) (borrow : Bool) (pos : 0 < w) :
    signedOverflow w (a.toInt - b.toInt - borrow.toNat) =
      (a.msb != b.msb && a.msb != (a - (b + carryWord w borrow)).msb) := by
  have aLt := a.isLt
  have bLt := b.isLt
  have borrowLe := Bool.toNat_le borrow
  have whole := two_pow_eq_two_mul_half pos
  have half : ((2 : Int) ^ (w - 1)) = ((2 ^ (w - 1) : Nat) : Int) := by push_cast; rfl
  rw [Bool.eq_iff_iff]
  simp only [signedOverflow, half, BitVec.msb_eq_decide, BitVec.toInt_eq_toNat_cond,
    toNat_sub_borrow a b borrow pos, whole, Bool.or_eq_true, Bool.and_eq_true, decide_eq_true_eq,
    bne_iff_ne, ne_eq, decide_eq_decide]
  generalize 2 ^ (w - 1) = half at *
  split <;> split <;> split <;> push_cast <;> omega

end Overflow

end PCemWeb.Arch
