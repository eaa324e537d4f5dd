import Mathlib.Data.List.Basic
import Mathlib.Tactic.Common

/-!
# Layers

Layers in a list, later ones over earlier ones, and what shows at one point: the top visible
layer, or the background. Painting the layers in order leaves what shows.
-/

namespace PCemWeb.Lib

universe u v

variable {α : Type u} {β : Type v} {visible visible' : α → Bool} {l : List α} {a : α}

/-- The last visible layer. -/
def top (visible : α → Bool) (l : List α) : Option α := (l.filter visible).getLast?

@[simp] theorem top_nil : top visible [] = none := rfl

theorem top_cons : top visible (a :: l) =
    (top visible l).or (if visible a then some a else none) := by
  unfold top
  by_cases seen : visible a = true
  · rw [List.filter_cons_of_pos seen, List.getLast?_cons, if_pos seen]
    cases (l.filter visible).getLast? <;> simp
  · rw [List.filter_cons_of_neg seen, if_neg seen, Option.or_none]

theorem top_concat : top visible (l ++ [a]) = if visible a then some a else top visible l := by
  unfold top
  rw [List.filter_append]
  by_cases seen : visible a = true
  · rw [List.filter_cons_of_pos seen, if_pos seen, List.filter_nil, List.getLast?_concat]
  · rw [List.filter_cons_of_neg seen, if_neg seen, List.filter_nil, List.append_nil]

theorem top_congr (same : ∀ b ∈ l, visible b = visible' b) : top visible l = top visible' l := by
  unfold top
  rw [List.filter_congr same]

theorem mem_of_top (found : top visible l = some a) : a ∈ l ∧ visible a = true := by
  have member : a ∈ l.filter visible := List.mem_of_getLast? found
  exact List.mem_filter.mp member

theorem top_eq_none : top visible l = none ↔ ∀ b ∈ l, visible b = false := by
  unfold top
  rw [List.getLast?_eq_none_iff, List.filter_eq_nil_iff]
  simp

/-- A layer that does not show can be taken out. -/
theorem top_erase [BEq α] [LawfulBEq α] (hidden : visible a = false) :
    top visible (l.erase a) = top visible l := by
  induction l with
  | nil => rfl
  | cons b l ih =>
    by_cases same : b = a
    · rw [same, List.erase_cons_head, top_cons, hidden, if_neg Bool.false_ne_true, Option.or_none]
    · rw [List.erase_cons_tail (by simpa using same), top_cons, top_cons, ih]

/-- The top layer of some of the layers, when the top of all of them is among these. -/
theorem top_and {among : α → Bool} (found : top visible l = some a) (chosen : among a = true) :
    top (fun b => among b && visible b) l = some a := by
  unfold top at *
  obtain ⟨below, split⟩ := List.getLast?_eq_some_iff.mp found
  rw [← List.filter_filter, split, List.filter_append, List.filter_cons_of_pos chosen,
    List.filter_nil, List.getLast?_concat]

/-- Painting some of the layers again over what shows changes nothing exactly when the top layer
is one of them, or none of them is visible. -/
theorem top_repaint {among : α → Bool} :
    (top (fun b => among b && visible b) l).or (top visible l) = top visible l ↔
      ∀ b ∈ l, visible b = true → among b = true → (top visible l).all among = true := by
  constructor
  · intro unchanged b inList seen chosen
    cases painted : top (fun b => among b && visible b) l with
    | none =>
      have hidden := top_eq_none.mp painted b inList
      rw [seen, chosen] at hidden
      cases hidden
    | some c =>
      obtain ⟨-, both⟩ := mem_of_top painted
      rw [painted, Option.some_or] at unchanged
      rw [← unchanged]
      exact (Bool.and_eq_true_iff.mp both).1
  · intro onTop
    cases painted : top (fun b => among b && visible b) l with
    | none => rfl
    | some c =>
      obtain ⟨inList, both⟩ := mem_of_top painted
      obtain ⟨chosen, seen⟩ := Bool.and_eq_true_iff.mp both
      cases found : top visible l with
      | none => cases (top_eq_none.mp found c inList).symm.trans seen
      | some d =>
        have topChosen := onTop c inList seen chosen
        rw [found] at topChosen
        rw [← painted, top_and found topChosen]
        rfl

/-- What is left at a point when the layers are painted in order. -/
def Painted (visible : α → Bool) (value : α → β) (l : List α) (old new : β) : Prop :=
  new = ((top visible l).map value).getD old

theorem Painted.nil {value : α → β} {old : β} : Painted visible value [] old old := rfl

theorem Painted.cons {value : α → β} {old mid new : β}
    (first : mid = if visible a then value a else old) (rest : Painted visible value l mid new) :
    Painted visible value (a :: l) old new := by
  unfold Painted at *
  rw [rest, top_cons]
  cases top visible l with
  | none => by_cases seen : visible a = true <;> simp [first, seen]
  | some b => rfl

end PCemWeb.Lib
