import Mathlib.Tactic.Common

/-!
# Order of wrapping time stamps

Time stamps of a fixed width wrap around, and a program compares two of them by the sign of their
difference. The comparison is total but not transitive; inside a window of half the range it is
the order of the distances from the window's start.
-/

namespace PCemWeb.Lib

variable {w : Nat} {b x y z : BitVec w}

/-- `x` is not after `y`, going by the sign of the difference. -/
def SerialLe (x y : BitVec w) : Prop := (x - y).toInt ≤ 0

instance : Decidable (SerialLe x y) := inferInstanceAs (Decidable (_ ≤ _))

/-- `x` is in the half of the range that starts at `b`. -/
def InHalf (b x : BitVec w) : Prop := (x - b).msb = false

instance : Decidable (InHalf b x) := inferInstanceAs (Decidable (_ = _))

theorem serialLe_refl (x : BitVec w) : SerialLe x x := by
  rw [SerialLe, BitVec.sub_self]
  simp

/-- In one half, the sign of the difference compares the distances from its start. -/
theorem serialLe_iff (inX : InHalf b x) (inY : InHalf b y) : SerialLe x y ↔ x - b ≤ y - b := by
  have difference : x - y = (x - b) - (y - b) := by grind
  have smallX := BitVec.msb_eq_false_iff_two_mul_lt.mp inX
  have smallY := BitVec.msb_eq_false_iff_two_mul_lt.mp inY
  rw [SerialLe, difference, BitVec.toInt_sub, BitVec.toInt_eq_toNat_of_msb inX,
    BitVec.toInt_eq_toNat_of_msb inY, Int.bmod_eq_of_le_mul_two, BitVec.le_def]
  · omega
  · omega
  · omega

theorem serialLe_trans (inX : InHalf b x) (inY : InHalf b y) (inZ : InHalf b z)
    (first : SerialLe x y) (second : SerialLe y z) : SerialLe x z := by
  rw [serialLe_iff inX inY] at first
  rw [serialLe_iff inY inZ] at second
  rw [serialLe_iff inX inZ]
  exact BitVec.le_trans first second

theorem serialLe_total (inX : InHalf b x) (inY : InHalf b y) : SerialLe x y ∨ SerialLe y x := by
  rw [serialLe_iff inX inY, serialLe_iff inY inX]
  exact BitVec.le_total _ _

end PCemWeb.Lib
