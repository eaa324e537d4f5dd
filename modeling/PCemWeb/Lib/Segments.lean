import PCemWeb.Lib.Bytes

/-!
# Segments of a store in one file

A list of segments, each a start and a length, is written to a file one after the other and read
back in the same order. Overlapping segments carry the same values, so the order does not matter.
-/

namespace PCemWeb.Lib

universe u

variable {β : Type u}

/-- The address lies in a segment. -/
def Segment.Has (seg : Nat × Nat) (a : Nat) : Prop := seg.1 ≤ a ∧ a < seg.1 + seg.2

instance (seg : Nat × Nat) (a : Nat) : Decidable (Segment.Has seg a) :=
  inferInstanceAs (Decidable (_ ∧ _))

/-- The segments of a store, one after the other. -/
def gather (store : Nat → β) (segs : List (Nat × Nat)) : List β :=
  segs.flatMap fun seg => slice store seg.1 seg.2

/-- The file read into the segments; a file that ends early leaves the rest as it was. -/
def scatter : (Nat → β) → List (Nat × Nat) → List β → Nat → β
  | store, [], _ => store
  | store, seg :: segs, file =>
      scatter (overlay store seg.1 (file.take seg.2)) segs (file.drop seg.2)

/-- Outside all segments nothing changes, whatever the file holds. -/
theorem scatter_of_outside {segs : List (Nat × Nat)} {a : Nat}
    (outside : ∀ seg ∈ segs, ¬Segment.Has seg a) (store : Nat → β) (file : List β) :
    scatter store segs file a = store a := by
  induction segs generalizing store file with
  | nil => rfl
  | cons seg segs ih =>
    rw [scatter, ih (fun other inside => outside other (.tail _ inside))]
    have apart := outside seg (.head _)
    apply overlay_of_outside
    have short := List.length_take_le seg.2 file
    unfold Segment.Has at apart
    omega

/-- One segment read back. -/
theorem overlay_gather (store target : Nat → β) (seg : Nat × Nat) (a : Nat) :
    overlay target seg.1 (slice store seg.1 seg.2) a =
      if Segment.Has seg a then store a else target a := by
  rw [overlay_slice]
  by_cases inside : Segment.Has seg a
  · rw [if_pos inside, if_pos (And.intro inside.1 inside.2), Nat.add_sub_of_le inside.1]
  · rw [if_neg inside]
    exact if_neg inside

/-- What was written is read back on every segment. -/
theorem scatter_gather {segs : List (Nat × Nat)} {a : Nat} (store target : Nat → β)
    (inside : target a = store a ∨ ∃ seg ∈ segs, Segment.Has seg a) :
    scatter target segs (gather store segs) a = store a := by
  induction segs generalizing target with
  | nil => simpa [scatter] using inside
  | cons seg segs ih =>
    have first : (gather store (seg :: segs)).take seg.2 = slice store seg.1 seg.2 := by
      rw [gather, List.flatMap_cons]
      exact List.take_left' length_slice
    have rest : (gather store (seg :: segs)).drop seg.2 = gather store segs := by
      rw [gather, List.flatMap_cons]
      exact List.drop_left' length_slice
    rw [scatter, first, rest]
    apply ih
    rw [overlay_gather]
    by_cases here : Segment.Has seg a
    · exact .inl (if_pos here)
    · rw [if_neg here]
      rcases inside with same | ⟨other, listed, has⟩
      · exact .inl same
      · rcases List.mem_cons.mp listed with rfl | later
        · exact absurd has here
        · exact .inr ⟨other, later, has⟩

end PCemWeb.Lib
