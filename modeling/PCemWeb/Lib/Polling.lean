import Mathlib.Tactic.Common

/-!
# Polling loops

A loop that runs its body a bounded number of times: the body may fail, break off the loop or go
on. `pollLoop` also says whether it was broken off. `pollLoop_of_invariant` is the rule for what
holds after it, and `pollLoop_stops` the rule for a body that breaks off before the bound.
-/

namespace PCemWeb.Lib

universe u

variable {σ : Type u}

/-- The state after at most `n` passes, and whether the last of them broke off. -/
def pollLoop (body : σ → Option (σ × Bool)) : Nat → σ → Option (σ × Bool)
  | 0, s => some (s, false)
  | n + 1, s => (body s).bind fun r => if r.2 then some r else pollLoop body n r.1

variable {body : σ → Option (σ × Bool)} {Inv Post : σ → Prop} {s : σ}

/-- A pass keeps the invariant or breaks off with the postcondition. -/
theorem pollLoop_of_invariant (pass : ∀ s, Inv s → ∃ r, body s = some r ∧
    (r.2 = true → Post r.1) ∧ (r.2 = false → Inv r.1)) (n : Nat) (inv : Inv s) :
    ∃ r, pollLoop body n s = some r ∧ (r.2 = true → Post r.1) ∧ (r.2 = false → Inv r.1) := by
  induction n generalizing s with
  | zero => exact ⟨(s, false), rfl, by simp, fun _ => inv⟩
  | succ n ih =>
    obtain ⟨r, passed, broken, onward⟩ := pass s inv
    cases stop : r.2 with
    | true =>
      refine ⟨r, ?_, broken, by simp [stop]⟩
      rw [pollLoop, passed, Option.bind_some, if_pos stop]
    | false =>
      obtain ⟨last, rest, post, kept⟩ := ih (onward stop)
      refine ⟨last, ?_, post, kept⟩
      rw [pollLoop, passed, Option.bind_some, if_neg (by simp [stop]), rest]

/-- A body that goes on for at most `m` more passes breaks off a loop of more than `m`. -/
theorem pollLoop_stops {Inv : Nat → σ → Prop} (pass : ∀ m s, Inv m s → ∃ r, body s = some r ∧
    (r.2 = true → Post r.1) ∧ (r.2 = false → ∃ k < m, Inv k r.1)) :
    ∀ {m n : Nat} {s : σ}, Inv m s → m < n →
      ∃ t, pollLoop body n s = some (t, true) ∧ Post t := by
  intro m n
  induction n generalizing m with
  | zero => exact fun _ less => absurd less (Nat.not_lt_zero _)
  | succ n ih =>
    intro s inv less
    obtain ⟨r, passed, broken, onward⟩ := pass m s inv
    cases stop : r.2 with
    | true =>
      refine ⟨r.1, ?_, broken stop⟩
      rw [pollLoop, passed, Option.bind_some, if_pos stop, ← stop]
    | false =>
      obtain ⟨k, fewer, next⟩ := onward stop
      obtain ⟨t, rest, post⟩ := ih next (by omega)
      refine ⟨t, ?_, post⟩
      rw [pollLoop, passed, Option.bind_some, if_neg (by simp [stop]), rest]

/-- A loop whose passes all go on is not broken off. -/
theorem pollLoop_of_onward (pass : ∀ s, Inv s → ∃ t, body s = some (t, false) ∧ Inv t) (n : Nat)
    (inv : Inv s) : ∃ t, pollLoop body n s = some (t, false) ∧ Inv t := by
  induction n generalizing s with
  | zero => exact ⟨s, rfl, inv⟩
  | succ n ih =>
    obtain ⟨t, passed, kept⟩ := pass s inv
    obtain ⟨last, rest, inv⟩ := ih kept
    exact ⟨last, by rw [pollLoop, passed, Option.bind_some]; exact rest, inv⟩

end PCemWeb.Lib
