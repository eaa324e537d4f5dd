import Mathlib.Data.List.Basic
import Mathlib.Tactic.Common

/-!
# Undo logs

Each entry of a log can be done to a state and undone. A log is exact between two states when
doing its entries in order leads from the one to the other and undoing them, the last one first,
leads back. Logs grow at their end, by entries that are exact by themselves.
-/

namespace PCemWeb.Lib

universe u v

variable {σ : Type u} {ε : Type v} (redo undo : ε → σ → σ)

/-- All entries are done, in order. -/
def redoAll (log : List ε) (s : σ) : σ := log.foldl (fun s e => redo e s) s

/-- All entries are undone, the last one first. -/
def undoAll (log : List ε) (s : σ) : σ := log.foldr undo s

/-- The log leads from `s` to `t` and back. -/
structure ExactLog (log : List ε) (s t : σ) : Prop where
  redo_eq : redoAll redo log s = t
  undo_eq : undoAll undo log t = s

variable {redo undo} {s t t' : σ} {log : List ε} {e : ε}

theorem ExactLog.nil : ExactLog redo undo [] s s := ⟨rfl, rfl⟩

theorem ExactLog.concat (exact : ExactLog redo undo log s t) (done : redo e t = t')
    (undone : undo e t' = t) : ExactLog redo undo (log ++ [e]) s t' where
  redo_eq := by
    rw [redoAll, List.foldl_append]
    show redo e (redoAll redo log s) = t'
    rw [exact.redo_eq, done]
  undo_eq := by
    rw [undoAll, List.foldr_append, List.foldr_cons, List.foldr_nil, undone]
    exact exact.undo_eq

/-- Entries that are done alike lead to one state. -/
theorem redoAll_congr {κ : Type*} {key : ε → κ} {log' : List ε}
    (alike : ∀ e e' : ε, key e = key e' → redo e = redo e')
    (same : log.map key = log'.map key) : redoAll redo log s = redoAll redo log' s := by
  induction log generalizing log' s with
  | nil =>
    cases log' with
    | nil => rfl
    | cons => cases same
  | cons e log ih =>
    cases log' with
    | nil => cases same
    | cons e' log' =>
      rw [List.map_cons, List.map_cons, List.cons.injEq] at same
      rw [redoAll, redoAll, List.foldl_cons, List.foldl_cons, alike e e' same.1]
      exact ih same.2

end PCemWeb.Lib
