import Mathlib.Tactic.Common

/-!
# Byte lanes of a bit vector

Byte `j` of a word, the low one first, and where the bytes go under shifts, unions, extensions and
concatenation. Two words are equal when their bytes are.
-/

namespace PCemWeb.Lib

section Lanes

variable {m n : Nat} {x y : BitVec n} {j k : Nat}

/-- Byte `j` of a word. -/
def byteLane {n : Nat} (x : BitVec n) (j : Nat) : BitVec 8 := x.extractLsb' (8 * j) 8

theorem getLsbD_byteLane {i : Nat} (inside : i < 8) :
    (byteLane x j).getLsbD i = x.getLsbD (8 * j + i) := by
  rw [byteLane, BitVec.getLsbD_extractLsb', decide_eq_true inside, Bool.true_and]

theorem eq_of_byteLane (same : ∀ j, 8 * j < n → byteLane x j = byteLane y j) : x = y := by
  apply BitVec.eq_of_getLsbD_eq
  intro i inside
  have small : i % 8 < 8 := Nat.mod_lt _ (by decide)
  have whole : 8 * (i / 8) + i % 8 = i := Nat.div_add_mod i 8
  have lane := congrArg (BitVec.getLsbD · (i % 8)) (same (i / 8) (by omega))
  rwa [getLsbD_byteLane small, getLsbD_byteLane small, whole] at lane

theorem byteLane_or : byteLane (x ||| y) j = byteLane x j ||| byteLane y j := by
  apply BitVec.eq_of_getLsbD_eq
  intro i inside
  rw [BitVec.getLsbD_or, getLsbD_byteLane inside, getLsbD_byteLane inside, getLsbD_byteLane inside,
    BitVec.getLsbD_or]

theorem byteLane_and : byteLane (x &&& y) j = byteLane x j &&& byteLane y j := by
  apply BitVec.eq_of_getLsbD_eq
  intro i inside
  rw [BitVec.getLsbD_and, getLsbD_byteLane inside, getLsbD_byteLane inside,
    getLsbD_byteLane inside, BitVec.getLsbD_and]

theorem byteLane_shiftRight : byteLane (x >>> (8 * k)) j = byteLane x (k + j) := by
  apply BitVec.eq_of_getLsbD_eq
  intro i inside
  rw [getLsbD_byteLane inside, getLsbD_byteLane inside, BitVec.getLsbD_ushiftRight]
  congr 1
  omega

theorem byteLane_shiftLeft (room : 8 * j + 8 ≤ n) :
    byteLane (x <<< (8 * k)) j = if j < k then 0 else byteLane x (j - k) := by
  apply BitVec.eq_of_getLsbD_eq
  intro i inside
  rw [getLsbD_byteLane inside, BitVec.getLsbD_shiftLeft, decide_eq_true (by omega), Bool.true_and]
  by_cases low : j < k
  · rw [if_pos low, decide_eq_true (by omega), Bool.not_true, Bool.false_and]
    simp
  · rw [if_neg low, decide_eq_false (by omega), Bool.not_false, Bool.true_and,
      getLsbD_byteLane inside]
    congr 1
    omega

theorem byteLane_setWidth (room : 8 * j + 8 ≤ m) :
    byteLane (x.setWidth m) j = byteLane x j := by
  apply BitVec.eq_of_getLsbD_eq
  intro i inside
  rw [getLsbD_byteLane inside, getLsbD_byteLane inside, BitVec.getLsbD_setWidth,
    decide_eq_true (by omega), Bool.true_and]

theorem byteLane_of_ge (outside : n ≤ 8 * j) : byteLane x j = 0 := by
  apply BitVec.eq_of_getLsbD_eq
  intro i inside
  rw [getLsbD_byteLane inside, BitVec.getLsbD_of_ge _ _ (by omega)]
  simp

theorem byteLane_append {low : BitVec 8} :
    byteLane (x ++ low) j = if j = 0 then low else byteLane x (j - 1) := by
  apply BitVec.eq_of_getLsbD_eq
  intro i inside
  rw [getLsbD_byteLane inside, BitVec.getLsbD_append]
  by_cases first : j = 0
  · rw [if_pos first, if_pos (by omega)]
    congr 1
    omega
  · rw [if_neg first, if_neg (by omega), getLsbD_byteLane inside]
    congr 1
    omega

end Lanes

/-! ## Little-endian loads -/

section Loads

variable {mem : Nat → BitVec 8} {p j : Nat}

/-- The word at `p`. -/
def le16 (mem : Nat → BitVec 8) (p : Nat) : BitVec 16 := mem (p + 1) ++ mem p

/-- The double word at `p`. -/
def le32 (mem : Nat → BitVec 8) (p : Nat) : BitVec 32 :=
  mem (p + 3) ++ mem (p + 2) ++ mem (p + 1) ++ mem p

theorem byteLane_self {x : BitVec 8} : byteLane x 0 = x := by
  apply BitVec.eq_of_getLsbD_eq
  intro i inside
  rw [getLsbD_byteLane inside, Nat.mul_zero, Nat.zero_add]

theorem byteLane_le16 (inside : j < 2) : byteLane (le16 mem p) j = mem (p + j) := by
  unfold le16
  match j with
  | 0 => rw [byteLane_append, if_pos rfl, Nat.add_zero]
  | 1 => rw [byteLane_append, if_neg Nat.one_ne_zero, byteLane_self]

theorem byteLane_le32 (inside : j < 4) : byteLane (le32 mem p) j = mem (p + j) := by
  unfold le32
  match j with
  | 0 => rw [byteLane_append, if_pos rfl, Nat.add_zero]
  | 1 => rw [byteLane_append, if_neg Nat.one_ne_zero, byteLane_append, if_pos rfl]
  | 2 =>
    rw [byteLane_append, if_neg (by decide), byteLane_append, if_neg (by decide), byteLane_append,
      if_pos rfl]
  | 3 =>
    rw [byteLane_append, if_neg (by decide), byteLane_append, if_neg (by decide), byteLane_append,
      if_neg (by decide), byteLane_self]

end Loads

end PCemWeb.Lib
