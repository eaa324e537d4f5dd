import Mathlib.Data.List.Basic
import Mathlib.Tactic.Common

/-!
# Byte arrays as functions

A store is a function from addresses to values. `overlay` writes a list at an address and
`slice` reads a window back. The lemmas say where an overlay is visible and how windows and
overlays split at a boundary.
-/

namespace PCemWeb.Lib

universe u

variable {β : Type u} {mem : Nat → β} {base at_ len : Nat} {bytes : List β}

/-- `bytes` written at `base`. -/
def overlay (mem : Nat → β) (base : Nat) (bytes : List β) : Nat → β :=
  fun a => if base ≤ a then (bytes[a - base]?).getD (mem a) else mem a

/-- The `len` values from `base`. -/
def slice (mem : Nat → β) (base len : Nat) : List β :=
  (List.range len).map fun i => mem (base + i)

@[simp] theorem length_slice : (slice mem base len).length = len := by
  simp [slice]

theorem getElem_slice {i : Nat} (inside : i < (slice mem base len).length) :
    (slice mem base len)[i] = mem (base + i) := by
  simp [slice]

@[simp] theorem slice_zero : slice mem base 0 = [] := rfl

@[simp] theorem overlay_nil : overlay mem base [] = mem := by
  funext a
  simp [overlay]

/-- Outside the written range an overlay changes nothing. -/
theorem overlay_of_outside (outside : at_ < base ∨ base + bytes.length ≤ at_) :
    overlay mem base bytes at_ = mem at_ := by
  simp only [overlay]
  split
  · rw [List.getElem?_eq_none (by omega), Option.getD_none]
  · rfl

/-- Inside the written range an overlay reads the written value, whatever was there. -/
theorem overlay_of_inside {mem' : Nat → β} (low : base ≤ at_) (high : at_ < base + bytes.length) :
    overlay mem base bytes at_ = overlay mem' base bytes at_ := by
  simp only [overlay, low, if_true]
  rw [List.getElem?_eq_getElem (by omega), Option.getD_some, Option.getD_some]

theorem overlay_add {i : Nat} (inside : i < bytes.length) :
    overlay mem base bytes (base + i) = bytes[i] := by
  rw [overlay, if_pos (Nat.le_add_right ..), Nat.add_sub_cancel_left,
    List.getElem?_eq_getElem inside, Option.getD_some]

/-- A window of one store laid over another. -/
theorem overlay_slice {src : Nat → β} {start : Nat} :
    overlay mem base (slice src start len) at_ =
      if base ≤ at_ ∧ at_ < base + len then src (start + (at_ - base)) else mem at_ := by
  by_cases inside : base ≤ at_ ∧ at_ < base + len
  · have small : at_ - base < (slice src start len).length := by
      simp only [length_slice]
      omega
    rw [if_pos inside, overlay, if_pos inside.1, List.getElem?_eq_getElem small, Option.getD_some,
      getElem_slice]
  · rw [if_neg inside]
    refine overlay_of_outside ?_
    simp only [length_slice]
    omega

/-- A shifted overlay is the overlay of a shifted store. -/
theorem overlay_shift (shift : Nat) :
    overlay mem (shift + base) bytes (shift + at_) =
      overlay (fun a => mem (shift + a)) base bytes at_ := by
  simp only [overlay, Nat.add_le_add_iff_left, Nat.add_sub_add_left]

/-- Two adjacent overlays are one. -/
theorem overlay_append (mem : Nat → β) (base : Nat) (xs ys : List β) :
    overlay mem base (xs ++ ys) = overlay (overlay mem base xs) (base + xs.length) ys := by
  funext a
  simp only [overlay, List.getElem?_append]
  by_cases low : base ≤ a
  · by_cases inXs : a - base < xs.length
    · simp [low, inXs, show ¬ base + xs.length ≤ a by omega]
    · simp [low, inXs, show base + xs.length ≤ a by omega, Nat.sub_sub]
  · simp [low, show ¬ base + xs.length ≤ a by omega]

theorem slice_append (mem : Nat → β) (base m n : Nat) :
    slice mem base (m + n) = slice mem base m ++ slice mem (base + m) n := by
  simp only [slice, List.range_add, List.map_append, List.map_map, Function.comp_def, Nat.add_assoc]

/-- What an overlay wrote is what a window of its length reads back. -/
@[simp] theorem slice_overlay : slice (overlay mem base bytes) base bytes.length = bytes := by
  refine List.ext_getElem (by simp) fun i left right => ?_
  simp [slice, overlay, right]

/-- Windows of two stores agree where the stores do. -/
theorem slice_congr {mem' : Nat → β} {base' : Nat}
    (same : ∀ i < len, mem (base + i) = mem' (base' + i)) :
    slice mem base len = slice mem' base' len := by
  refine List.map_congr_left fun i inRange => same i (List.mem_range.mp inRange)

end PCemWeb.Lib
