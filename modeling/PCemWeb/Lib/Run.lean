import Mathlib.Logic.Relation

/-!
# Runs of a partial step function

A machine is a partial function `step : σ → α → Option σ`: from a state, a label is
either refused or leads to one next state. Interleavings are runs over arbitrary label
sequences. `RunOk` restricts a run to steps that meet a condition on the state before
the step, which is how a property that fails on some runs is stated of the others.
-/

namespace PCemWeb.Lib

universe u v

variable {σ : Type u} {α : Type v} (step : σ → α → Option σ)

/-- The state after a sequence of labels, if each is accepted. -/
def exec : σ → List α → Option σ
  | s, [] => some s
  | s, a :: as => (step s a).bind (exec · as)

/-- `RunOk step ok s t`: some run leads from `s` to `t` and each of its steps meets `ok`. -/
inductive RunOk (ok : σ → α → Prop) (s : σ) : σ → Prop
  | refl : RunOk ok s s
  | tail {t u : σ} {a : α} : RunOk ok s t → ok t a → step t a = some u → RunOk ok s u

variable {step} {ok : σ → α → Prop} {s t : σ}

/-- An invariant of every admitted step holds in every state a run reaches. -/
theorem RunOk.invariant {Inv : σ → Prop} (run : RunOk step ok s t) (init : Inv s)
    (preserved : ∀ {s t a}, Inv s → ok s a → step s a = some t → Inv t) : Inv t := by
  induction run with
  | refl => exact init
  | tail _ admitted next ih => exact preserved ih admitted next

theorem RunOk.mono {ok' : σ → α → Prop} (weaker : ∀ s a, ok s a → ok' s a)
    (run : RunOk step ok s t) : RunOk step ok' s t := by
  induction run with
  | refl => exact .refl
  | tail _ admitted next ih => exact .tail ih (weaker _ _ admitted) next

theorem RunOk.trans {u : σ} (first : RunOk step ok s t) (second : RunOk step ok t u) :
    RunOk step ok s u := by
  induction second with
  | refl => exact first
  | tail _ admitted next ih => exact .tail ih admitted next

/-- An invariant of every step holds after a sequence of labels. -/
theorem exec_invariant {I : σ → Prop} {as : List α} (done : exec step s as = some t)
    (init : I s) (preserved : ∀ {s t a}, I s → step s a = some t → I t) : I t := by
  induction as generalizing s with
  | nil =>
    cases done
    exact init
  | cons a as ih =>
    obtain ⟨next, stepEq, rest⟩ := Option.bind_eq_some_iff.mp done
    exact ih rest (preserved init stepEq)

theorem exec_append {as bs : List α} :
    exec step s (as ++ bs) = (exec step s as).bind (exec step · bs) := by
  induction as generalizing s with
  | nil => rfl
  | cons a as ih =>
    rw [List.cons_append, exec, exec, Option.bind_assoc]
    exact Option.bind_congr fun next _ => ih

/-- The condition, evaluated along a sequence of labels. -/
def execOk (step : σ → α → Option σ) (ok : σ → α → Bool) : σ → List α → Option σ
  | s, [] => some s
  | s, a :: as => if ok s a then (step s a).bind (execOk step ok · as) else none

/-- Every label of a sequence meets the condition in the state in which its turn comes. -/
def meets (step : σ → α → Option σ) (ok : σ → α → Bool) : σ → List α → Bool
  | _, [] => true
  | s, a :: as => ok s a && (step s a).all (meets step ok · as)

/-- Admitted steps are steps. -/
theorem exec_of_execOk {test : σ → α → Bool} :
    ∀ {as : List α} {s : σ}, execOk step test s as = some t → exec step s as = some t
  | [], _, done => done
  | a :: as, s, done => by
      simp only [execOk] at done
      split at done
      · obtain ⟨next, stepEq, rest⟩ := Option.bind_eq_some_iff.mp done
        exact Option.bind_eq_some_iff.mpr ⟨next, stepEq, exec_of_execOk rest⟩
      · cases done

theorem RunOk.head {a : α} {u : σ} (admitted : ok s a) (next : step s a = some t)
    (run : RunOk step ok t u) : RunOk step ok s u := by
  induction run with
  | refl => exact .tail .refl admitted next
  | tail _ admitted' next' ih => exact .tail ih admitted' next'

/-- An evaluated sequence of admitted labels is a run. -/
theorem RunOk.of_execOk {test : σ → α → Bool} (sound : ∀ s a, test s a = true → ok s a) :
    ∀ {as : List α} {s : σ}, execOk step test s as = some t → RunOk step ok s t
  | [], s, done => by
      cases done
      exact .refl
  | a :: as, s, done => by
      simp only [execOk] at done
      split at done
      · rename_i admitted
        obtain ⟨next, stepEq, rest⟩ := Option.bind_eq_some_iff.mp done
        exact .head (sound s a admitted) stepEq (RunOk.of_execOk sound rest)
      · cases done

end PCemWeb.Lib
