import Mathlib.Data.List.Range
import Mathlib.Tactic.Common

/-!
# The lowest bit of a word

A priority encoder: the lowest bit that is set, and the mask of all bits from there on.
-/

namespace PCemWeb.Lib

variable {w : Nat} {v : BitVec w} {c k : Nat}

/-- The number of the lowest bit that is set. -/
def lowest (v : BitVec w) : Option Nat := (List.range w).find? v.getLsbD

theorem lowest_eq_some : lowest v = some c ↔
    v.getLsbD c = true ∧ ∀ k < c, v.getLsbD k = false := by
  unfold lowest
  rw [List.find?_range_eq_some]
  constructor
  · rintro ⟨set, -, clear⟩
    exact ⟨set, fun k less => by simpa using clear k less⟩
  · rintro ⟨set, clear⟩
    refine ⟨set, List.mem_range.mpr ?_, fun k less => by simpa using clear k less⟩
    exact BitVec.lt_of_getLsbD set

theorem lowest_eq_none : lowest v = none ↔ v = 0 := by
  unfold lowest
  rw [List.find?_eq_none]
  constructor
  · intro clear
    refine BitVec.eq_of_getLsbD_eq fun k inRange => ?_
    simpa using clear k (List.mem_range.mpr inRange)
  · rintro rfl k -
    simp

/-- Some bit at or below a set bit is the lowest one. -/
theorem exists_lowest (set : v.getLsbD k = true) : ∃ c ≤ k, lowest v = some c := by
  cases found : lowest v with
  | none =>
    rw [lowest_eq_none.mp found] at set
    simp at set
  | some c =>
    refine ⟨c, ?_, rfl⟩
    rcases Nat.lt_or_ge k c with below | above
    · cases ((lowest_eq_some.mp found).2 k below).symm.trans set
    · exact above

/-- All bits from the lowest one on. -/
def fromLowest (v : BitVec w) : BitVec w :=
  match lowest v with
  | none => 0
  | some c => BitVec.allOnes w <<< c

theorem getLsbD_fromLowest : (fromLowest v).getLsbD k = true ↔
    k < w ∧ ∃ c ≤ k, v.getLsbD c = true := by
  unfold fromLowest
  cases found : lowest v with
  | none =>
    rw [lowest_eq_none.mp found]
    simp
  | some c =>
    obtain ⟨set, clear⟩ := lowest_eq_some.mp found
    simp only [BitVec.getLsbD_shiftLeft, BitVec.getLsbD_allOnes, Bool.and_eq_true,
      decide_eq_true_eq, Bool.not_eq_true', decide_eq_false_iff_not, Nat.not_lt]
    constructor
    · rintro ⟨⟨inRange, above⟩, -⟩
      exact ⟨inRange, c, above, set⟩
    · rintro ⟨inRange, b, below, bit⟩
      have above : c ≤ b := by
        rcases Nat.lt_or_ge b c with less | more
        · cases (clear b less).symm.trans bit
        · exact more
      exact ⟨⟨inRange, Nat.le_trans above below⟩, by omega⟩

@[simp] theorem fromLowest_zero : fromLowest (0 : BitVec w) = 0 := by
  unfold fromLowest
  rw [lowest_eq_none.mpr rfl]

/-- The mask is closed upwards. -/
theorem fromLowest_mono {j : Nat} (masked : (fromLowest v).getLsbD k = true) (above : k ≤ j)
    (inRange : j < w) : (fromLowest v).getLsbD j = true := by
  obtain ⟨-, c, below, set⟩ := getLsbD_fromLowest.mp masked
  exact getLsbD_fromLowest.mpr ⟨inRange, c, Nat.le_trans below above, set⟩

end PCemWeb.Lib
