import Mathlib.Data.Nat.Basic
import Mathlib.Tactic.Common

/-!
# Fields of machine words

Masks and shifts as C code writes them, read as single bits and as concatenated fields.
-/

namespace PCemWeb.Lib

/-- A word masked with one bit is zero where the bit is clear. -/
theorem and_twoPow_eq_zero {w : Nat} (x : BitVec w) {k : Nat} (inside : k < w) :
    x &&& BitVec.twoPow w k = 0#w ↔ x.getLsbD k = false := by
  rw [BitVec.and_twoPow]
  cases bit : x.getLsbD k with
  | false => simp only [Bool.false_eq_true, if_false]
  | true =>
    simp only [if_true, Bool.true_eq_false, iff_false]
    intro zero
    have same := congrArg (BitVec.getLsbD · k) zero
    simp [inside] at same

/-- The bits of two words below and from position `k`, added. -/
theorem splice_eq_append {w k : Nat} (inside : k ≤ w) {mask : BitVec w} (x y : BitVec w)
    (low : ∀ i < w, mask.getLsbD i = decide (i < k)) :
    (x &&& ~~~mask) + (y &&& mask) =
      (x.extractLsb' k (w - k) ++ y.extractLsb' 0 k).cast (by omega) := by
  rw [BitVec.add_eq_or_of_and_eq_zero]
  · refine BitVec.eq_of_getLsbD_eq fun i bound => ?_
    simp only [BitVec.getLsbD_or, BitVec.getLsbD_and, BitVec.getLsbD_not, low i bound, bound,
      BitVec.getLsbD_cast, BitVec.getLsbD_append, BitVec.getLsbD_extractLsb', decide_true,
      Bool.true_and, Nat.zero_add]
    by_cases below : i < k
    · simp only [below, decide_true, Bool.not_true, Bool.and_false, Bool.and_true, Bool.false_or,
        if_true, Bool.true_and]
    · have shifted : k + (i - k) = i := by omega
      have upper : i - k < w - k := by omega
      simp only [below, decide_false, Bool.not_false, Bool.and_true, Bool.and_false, Bool.or_false,
        if_false, shifted, upper, decide_true, Bool.true_and]
  · refine BitVec.eq_of_getLsbD_eq fun i bound => ?_
    simp only [BitVec.getLsbD_and, BitVec.getLsbD_not, low i bound, bound, BitVec.getLsbD_zero,
      decide_true, Bool.true_and]
    by_cases below : i < k
    · simp only [below, decide_true, Bool.not_true, Bool.and_false, Bool.false_and]
    · simp only [below, decide_false, Bool.and_false]

end PCemWeb.Lib
