import Mathlib.Data.Option.Basic
import Mathlib.Logic.Function.Basic
import Mathlib.Tactic.Common

/-!
# Sparse tables with a list of their live keys

A large table whose few live entries are recorded in slots, so that clearing the recorded keys
clears the table. A slot may name a key that is no longer live, and two slots may name one key;
what counts is that no live key goes unrecorded. `used` says which slots the program walks.
-/

namespace PCemWeb.Lib

universe u v

variable {ι : Type u} {κ : Type v} {used : ι → Prop} {slots slots' : ι → Option κ}
  {live live' : κ → Prop}

/-- Every live key has a slot in use. -/
def Covers (used : ι → Prop) (slots : ι → Option κ) (live : κ → Prop) : Prop :=
  ∀ k, live k → ∃ i, used i ∧ slots i = some k

/-- A slot can be emptied when the key that it names dies with it. -/
theorem Covers.drop (covers : Covers used slots live)
    (kept : ∀ i k, live' k → slots i = some k → slots' i = some k)
    (fewer : ∀ k, live' k → live k) : Covers used slots' live' := by
  intro k alive
  obtain ⟨i, inUse, named⟩ := covers k (fewer k alive)
  exact ⟨i, inUse, kept i k alive named⟩

/-- A slot is reused for a new key once the key that it named is dead. -/
theorem Covers.store [DecidableEq ι] (covers : Covers used slots live) {i : ι} (inUse : used i)
    (key : κ) (stored : ∀ k, live' k → k = key ∨ live k ∧ slots i ≠ some k) :
    Covers used (Function.update slots i (some key)) live' := by
  intro k alive
  rcases stored k alive with rfl | ⟨before, spared⟩
  · exact ⟨i, inUse, Function.update_self i _ _⟩
  · obtain ⟨j, jUsed, named⟩ := covers k before
    have other : j ≠ i := by
      rintro rfl
      exact spared named
    refine ⟨j, jUsed, ?_⟩
    rwa [Function.update_of_ne other]

/-- With every slot empty nothing is live. -/
theorem Covers.dead (covers : Covers used slots live) (empty : ∀ i, used i → slots i = none)
    (k : κ) : ¬ live k := by
  intro alive
  obtain ⟨i, inUse, named⟩ := covers k alive
  cases (empty i inUse).symm.trans named

end PCemWeb.Lib
