import Mathlib.Data.Nat.ModEq
import Mathlib.Logic.Function.Basic
import PCemWeb.Lib.Bytes

/-!
# Rings with free-running indices

A ring has `size` cells, and a position `i` of the stream through it is kept in the cell `i % size`.
`unroll` shows the ring as a store of positions, of which any `size` in a row have cells of their
own. Positions are unbounded; a program keeps them modulo 2³², which tells the cell of a position
if `size` divides 2³², and the distance of two positions if it is below 2³².
-/

namespace PCemWeb.Lib

universe u

variable {β : Type u} {size i j n : Nat} {ring : Nat → β}

/-! ## Cells -/

/-- The value at each position. -/
def unroll (size : Nat) (ring : Nat → β) : Nat → β := fun i => ring (i % size)

/-- Positions at a distance less than the size have different cells. -/
theorem mod_ne_of_near (lt : i < j) (near : j < i + size) : i % size ≠ j % size := by
  intro same
  have distance : (j - i) % size = j - i := Nat.mod_eq_of_lt (by omega)
  have divides : (j - i) % size = 0 := Nat.sub_mod_eq_zero_of_mod_eq same.symm
  omega

/-- A write at a position less than a turn away is not seen. -/
theorem slice_unroll_update (x : β) (after : i + n ≤ j) (near : j < i + size) :
    slice (unroll size (Function.update ring (j % size) x)) i n = slice (unroll size ring) i n := by
  refine slice_congr fun k inRange => ?_
  have other : (i + k) % size ≠ j % size := mod_ne_of_near (by omega) (by omega)
  exact Function.update_of_ne other x ring

/-- A write behind a slice extends it. -/
theorem slice_unroll_concat (x : β) (room : n < size) :
    slice (unroll size (Function.update ring ((i + n) % size) x)) i (n + 1) =
      slice (unroll size ring) i n ++ [x] := by
  rw [slice_append, slice_unroll_update x (Nat.le_refl _) (by omega)]
  congr 1
  simp only [slice, List.range_one, List.map_cons, List.map_nil, unroll, Nat.add_zero,
    Function.update_self]

/-! ## Cells in turn -/

/-- The cells of values written from a position on. -/
def cells (size : Nat) : (i : Nat) → List β → List (Nat × β)
  | _, [] => []
  | i, x :: xs => (i % size, x) :: cells size (i + 1) xs

/-- The cells of positions in a row. -/
def places (size : Nat) : (i n : Nat) → List Nat
  | _, 0 => []
  | i, n + 1 => i % size :: places size (i + 1) n

theorem cells_append {xs ys : List β} :
    cells size i (xs ++ ys) = cells size i xs ++ cells size (i + xs.length) ys := by
  induction xs generalizing i with
  | nil => rfl
  | cons x xs ih =>
    simp only [List.cons_append, cells, ih, List.length_cons, Nat.add_assoc, Nat.add_comm 1]

theorem places_add {m : Nat} : places size i (m + n) = places size i m ++ places size (i + m) n := by
  induction m generalizing i with
  | zero => rw [Nat.zero_add, Nat.add_zero, places, List.nil_append]
  | succ m ih =>
    rw [Nat.add_right_comm, places, ih, places, List.cons_append, Nat.add_assoc i 1 m, Nat.add_comm 1]

theorem length_places : (places size i n).length = n := by
  induction n generalizing i with
  | zero => rfl
  | succ n ih => rw [places, List.length_cons, ih]

theorem cells_congr {xs : List β} (same : i % size = j % size) : cells size i xs = cells size j xs := by
  induction xs generalizing i j with
  | nil => rfl
  | cons x xs ih => rw [cells, cells, same, ih (Nat.ModEq.add_right 1 same)]

theorem places_congr (same : i % size = j % size) : places size i n = places size j n := by
  induction n generalizing i j with
  | zero => rfl
  | succ n ih => rw [places, places, same, ih (Nat.ModEq.add_right 1 same)]

/-! ## Writing in steps -/

/-- Values are being written from a position on, and those in `todo` are left to write. -/
def Writing (size : Nat) (ring : Nat → β) (start : Nat) (all : List β) (todo : List (Nat × β)) :
    Prop :=
  ∃ done rest, all = done ++ rest ∧ slice (unroll size ring) start done.length = done ∧
    todo = cells size (start + done.length) rest

section

variable {start at_ : Nat} {all : List β} {todo : List (Nat × β)} {x : β}

theorem Writing.of_cells : Writing size ring start all (cells size start all) :=
  ⟨[], all, rfl, rfl, rfl⟩

/-- Nothing is left to write. -/
theorem Writing.written (writing : Writing size ring start all []) :
    slice (unroll size ring) start all.length = all := by
  obtain ⟨done, rest, rfl, written, none_⟩ := writing
  obtain rfl : rest = [] := by
    rcases rest with _ | ⟨y, rest⟩
    · rfl
    · cases none_
  rw [List.append_nil]
  exact written

/-- The next value is written behind those that are. -/
theorem Writing.next (writing : Writing size ring start all ((at_, x) :: todo))
    (short : all.length ≤ size) : Writing size (Function.update ring at_ x) start all todo := by
  obtain ⟨done, rest, rfl, written, todo'⟩ := writing
  obtain _ | ⟨y, rest⟩ := rest
  · cases todo'
  obtain ⟨⟨rfl, rfl⟩, rfl⟩ := List.cons.inj todo' |>.imp_left Prod.mk.inj
  rw [List.length_append, List.length_cons] at short
  refine ⟨done ++ [x], rest, ?_, ?_, ?_⟩
  · rw [List.append_assoc]
    rfl
  · rw [List.length_append, List.length_singleton, slice_unroll_concat x (by omega), written]
  · rw [List.length_append]
    rfl

/-- What is before the start, and less than a turn away from the end, is not seen to change. -/
theorem Writing.frame (writing : Writing size ring start all ((at_, x) :: todo))
    (before : i + n ≤ start) (near : start + all.length ≤ i + size) :
    slice (unroll size (Function.update ring at_ x)) i n = slice (unroll size ring) i n := by
  obtain ⟨done, rest, rfl, -, todo'⟩ := writing
  obtain _ | ⟨y, rest⟩ := rest
  · cases todo'
  obtain ⟨⟨rfl, rfl⟩, -⟩ := List.cons.inj todo' |>.imp_left Prod.mk.inj
  rw [List.length_append, List.length_cons] at near
  exact slice_unroll_update x (by omega) (by omega)

end

/-! ## Indices of 32 bits -/

theorem ofNat_add_ofNat (i n : Nat) : UInt32.ofNat i + UInt32.ofNat n = UInt32.ofNat (i + n) :=
  (UInt32.ofNat_add i n).symm

/-- The distance of two positions, from their indices. -/
theorem toNat_sub_ofNat (le : i ≤ j) (near : j - i < 0x100000000) :
    (UInt32.ofNat j - UInt32.ofNat i).toNat = j - i := by
  have same : UInt32.ofNat j - UInt32.ofNat i = UInt32.ofNat (j - i) := by
    rw [← Nat.sub_add_cancel le, ← ofNat_add_ofNat, Nat.add_sub_cancel, UInt32.add_sub_cancel]
  rw [same, UInt32.toNat_ofNat']
  exact Nat.mod_eq_of_lt near

/-- The cell of a position, from its index. -/
theorem toNat_ofNat_mod (divides : size ∣ 0x100000000) : (UInt32.ofNat i).toNat % size = i % size := by
  rw [UInt32.toNat_ofNat']
  exact Nat.mod_mod_of_dvd i divides

/-- Near positions with one index are the same. -/
theorem ofNat_eq_iff (le : i ≤ j) (near : j - i < 0x100000000) :
    UInt32.ofNat j = UInt32.ofNat i ↔ j = i := by
  constructor
  · intro same
    have distance := toNat_sub_ofNat le near
    rw [same, UInt32.sub_self] at distance
    have : 0 = j - i := distance
    omega
  · rintro rfl
    rfl

end PCemWeb.Lib
