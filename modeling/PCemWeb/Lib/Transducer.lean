import Mathlib.Data.List.Basic
import Mathlib.Tactic.Common

/-!
# Transducers

A transducer reads symbols one at a time and emits a list of outputs for each. Two transducers are
compared through a relation of their states and of a scan of the input: as long as the scan meets no
fault they emit the same, and at each fault the first emits one output too many of a kind that
counts. Then their outputs agree exactly on the inputs without a fault.
-/

namespace PCemWeb.Lib

universe u v w x y

variable {σ : Type u} {τ : Type v} {υ : Type w} {α : Type x} {β : Type y}

/-- What is emitted for a list of symbols, from a state on. -/
def outputs (step : σ → α → σ × List β) : σ → List α → List β
  | _, [] => []
  | s, a :: as => (step s a).2 ++ outputs step (step s a).1 as

/-- The state after a list of symbols. -/
def final (step : σ → α → σ × List β) (s : σ) (as : List α) : σ :=
  as.foldl (fun s a => (step s a).1) s

/-- What is emitted when the symbols come in parts, one read after the other. -/
def outputsOfParts (step : σ → α → σ × List β) : σ → List (List α) → List β
  | _, [] => []
  | s, part :: parts => outputs step s part ++ outputsOfParts step (final step s part) parts

variable {step : σ → α → σ × List β} {step' : τ → α → τ × List β} {s : σ} {t : τ} {l : υ}

theorem outputs_append {as bs : List α} :
    outputs step s (as ++ bs) = outputs step s as ++ outputs step (final step s as) bs := by
  induction as generalizing s with
  | nil => rfl
  | cons a as ih =>
    rw [List.cons_append, outputs, ih, outputs, List.append_assoc]
    rfl

/-- How the input is split makes no difference. -/
theorem outputsOfParts_eq {parts : List (List α)} :
    outputsOfParts step s parts = outputs step s parts.flatten := by
  induction parts generalizing s with
  | nil => rfl
  | cons part parts ih => rw [outputsOfParts, ih, List.flatten_cons, outputs_append]

/-! ## Comparing two transducers -/

/-- No symbol is a fault where the scan of the symbols before it stands. -/
def Faultless (scan : υ → α → υ) (fault : υ → α → Prop) : υ → List α → Prop
  | _, [] => True
  | l, a :: as => ¬fault l a ∧ Faultless scan fault (scan l a) as

/-- The scan decides it. -/
def decideFaultless (scan : υ → α → υ) (fault : υ → α → Prop) [∀ l a, Decidable (fault l a)] :
    (l : υ) → (as : List α) → Decidable (Faultless scan fault l as)
  | _, [] => isTrue trivial
  | l, a :: as =>
    have := decideFaultless scan fault (scan l a) as
    inferInstanceAs (Decidable (_ ∧ _))

/-- What one symbol keeps: the relation, and the outputs but for one more at a fault. -/
structure Matches (step : σ → α → σ × List β) (step' : τ → α → τ × List β) (scan : υ → α → υ)
    (fault : υ → α → Prop) (counts : β → Bool) (R : σ → τ → υ → Prop) : Prop where
  related : ∀ s t l a, R s t l → R (step s a).1 (step' t a).1 (scan l a)
  same : ∀ s t l a, R s t l → ¬fault l a → (step s a).2 = (step' t a).2
  extra : ∀ s t l a, R s t l → fault l a →
    (step s a).2.countP counts = (step' t a).2.countP counts + 1

variable {scan : υ → α → υ} {fault : υ → α → Prop} {counts : β → Bool} {R : σ → τ → υ → Prop}

theorem Matches.countP_le (m : Matches step step' scan fault counts R) (related : R s t l)
    (as : List α) : (outputs step' t as).countP counts ≤ (outputs step s as).countP counts ∧
      ((outputs step s as).countP counts = (outputs step' t as).countP counts →
        Faultless scan fault l as) := by
  induction as generalizing s t l with
  | nil => exact ⟨Nat.le_refl _, fun _ => trivial⟩
  | cons a as ih =>
    obtain ⟨le, faultless⟩ := ih (m.related s t l a related)
    simp only [outputs, List.countP_append]
    by_cases bad : fault l a
    · have extra := m.extra s t l a related bad
      exact ⟨by omega, fun same => by omega⟩
    · rw [m.same s t l a related bad]
      exact ⟨by omega, fun same => ⟨bad, faultless (by omega)⟩⟩

theorem Matches.eq_of_faultless (m : Matches step step' scan fault counts R) (related : R s t l)
    {as : List α} (faultless : Faultless scan fault l as) :
    outputs step s as = outputs step' t as := by
  induction as generalizing s t l with
  | nil => rfl
  | cons a as ih =>
    rw [outputs, outputs, m.same s t l a related faultless.1,
      ih (m.related s t l a related) faultless.2]

/-- The outputs agree on the inputs without a fault and on no others. -/
theorem Matches.eq_iff (m : Matches step step' scan fault counts R) (related : R s t l)
    (as : List α) : outputs step s as = outputs step' t as ↔ Faultless scan fault l as :=
  ⟨fun same => (m.countP_le related as).2 (congrArg _ same), m.eq_of_faultless related⟩

end PCemWeb.Lib
