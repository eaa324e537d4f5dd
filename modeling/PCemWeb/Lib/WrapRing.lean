import Mathlib.Logic.Function.Basic
import Mathlib.Tactic.Common

/-!
# Rings without a full test

A ring of `n` entries between two indices that wrap. It holds what lies between them, so `n - 1`
entries at most: a push that makes the indices meet leaves it empty.
-/

namespace PCemWeb.Lib

universe u

structure WrapRing (n : Nat) (α : Type u) : Type u where
  buf : Nat → α
  start : Nat
  stop : Nat
  start_lt : start < n
  stop_lt : stop < n

namespace WrapRing

variable {n : Nat} {α : Type u}

theorem next_lt {i : Nat} (inside : i < n) : (i + 1) % n < n :=
  Nat.mod_lt _ (Nat.zero_lt_of_lt inside)

variable (r : WrapRing n α)

def push (x : α) : WrapRing n α where
  buf := Function.update r.buf r.stop x
  start := r.start
  stop := (r.stop + 1) % n
  start_lt := r.start_lt
  stop_lt := next_lt r.stop_lt

def head : α := r.buf r.start

def pop : WrapRing n α where
  buf := r.buf
  start := (r.start + 1) % n
  stop := r.stop
  start_lt := next_lt r.start_lt
  stop_lt := r.stop_lt

/-- Both indices are set to 0. -/
def clear : WrapRing n α where
  buf := r.buf
  start := 0
  stop := 0
  start_lt := Nat.zero_lt_of_lt r.start_lt
  stop_lt := Nat.zero_lt_of_lt r.stop_lt

def isEmpty : Bool := r.start = r.stop

/-- The next push makes the indices meet. -/
def isFull : Bool := (r.stop + 1) % n = r.start

/-- How many entries lie between the indices. -/
def count : Nat := (r.stop + n - r.start) % n

def contents : List α := (List.range r.count).map fun i => r.buf ((r.start + i) % n)

variable {r}

theorem next_eq {i : Nat} (inside : i < n) : (i + 1) % n = if i + 1 = n then 0 else i + 1 := by
  split
  · rename_i wraps
    rw [wraps, Nat.mod_self]
  · exact Nat.mod_eq_of_lt (by omega)

theorem index_eq {base i : Nat} (inside : base < n) (small : i < n) :
    (base + i) % n = if base + i < n then base + i else base + i - n := by
  split
  · rename_i below
    exact Nat.mod_eq_of_lt below
  · rw [Nat.mod_eq_sub_mod (by omega)]
    exact Nat.mod_eq_of_lt (by omega)

theorem count_eq : r.count = if r.start ≤ r.stop then r.stop - r.start else r.stop + n - r.start :=
    by
  have start := r.start_lt
  have stop := r.stop_lt
  unfold count
  split
  · have whole : r.stop + n - r.start = r.stop - r.start + n := by omega
    rw [whole, Nat.add_mod_right]
    exact Nat.mod_eq_of_lt (by omega)
  · exact Nat.mod_eq_of_lt (by omega)

@[simp] theorem length_contents : r.contents.length = r.count := by
  rw [contents, List.length_map, List.length_range]

theorem contents_of_empty (empty : r.isEmpty = true) : r.contents = [] := by
  have meet : r.start = r.stop := of_decide_eq_true empty
  apply List.eq_nil_of_length_eq_zero
  rw [length_contents, count_eq, meet, if_pos (Nat.le_refl _), Nat.sub_self]

theorem contents_clear : r.clear.contents = [] := contents_of_empty (decide_eq_true rfl)

/-- A full ring holds one entry less than it has. -/
theorem count_of_full (full : r.isFull = true) : r.count + 1 = n := by
  have start := r.start_lt
  have stop := r.stop_lt
  have meet : (r.stop + 1) % n = r.start := of_decide_eq_true full
  rw [next_eq stop] at meet
  rw [count_eq]
  split at meet <;> split <;> omega

theorem count_pos (some_ : r.isEmpty = false) : 0 < r.count := by
  have start := r.start_lt
  have stop := r.stop_lt
  have apart : r.start ≠ r.stop := of_decide_eq_false some_
  rw [count_eq]
  split <;> omega

/-- A push on a ring that is not full appends. -/
theorem contents_push {x : α} (room : r.isFull = false) : (r.push x).contents = r.contents ++
    [x] := by
  have start := r.start_lt
  have stop := r.stop_lt
  have apart : (r.stop + 1) % n ≠ r.start := of_decide_eq_false room
  have next := next_eq stop
  have pushed : (r.push x).count = r.count + 1 := by
    rw [count_eq, count_eq]
    show (if r.start ≤ (r.stop + 1) % n then (r.stop + 1) % n - r.start
      else (r.stop + 1) % n + n - r.start) = _
    rw [next] at apart ⊢
    by_cases wraps : r.stop + 1 = n
    · rw [if_pos wraps] at apart ⊢
      split <;> split <;> omega
    · rw [if_neg wraps] at apart ⊢
      split <;> split <;> omega
  have last : (r.start + r.count) % n = r.stop := by
    rw [count_eq]
    split
    · rename_i ordered
      rw [Nat.add_sub_cancel' ordered]
      exact Nat.mod_eq_of_lt stop
    · have whole : r.start + (r.stop + n - r.start) = r.stop + n := by omega
      rw [whole, Nat.add_mod_right]
      exact Nat.mod_eq_of_lt stop
  have short : r.count < n := Nat.mod_lt _ (Nat.zero_lt_of_lt start)
  rw [contents, pushed, List.range_succ, List.map_append, contents]
  congr 1
  · apply List.map_congr_left
    intro i inside
    show Function.update r.buf r.stop x ((r.start + i) % n) = _
    refine Function.update_of_ne (fun same => ?_) ..
    have below := List.mem_range.mp inside
    rw [← last, index_eq start (by omega), index_eq start short] at same
    split at same <;> split at same <;> omega
  · show [Function.update r.buf r.stop x ((r.start + r.count) % n)] = [x]
    rw [last, Function.update_self]

/-- A push on a full ring drops all that it holds, and the new entry. -/
theorem contents_push_full {x : α} (full : r.isFull = true) : (r.push x).contents = [] := by
  apply contents_of_empty
  have meet : (r.stop + 1) % n = r.start := of_decide_eq_true full
  exact decide_eq_true meet.symm

theorem contents_pop (some_ : r.isEmpty = false) : r.contents = r.head :: r.pop.contents := by
  have start := r.start_lt
  have stop := r.stop_lt
  have apart : r.start ≠ r.stop := of_decide_eq_false some_
  have next := next_eq start
  have popped : r.count = r.pop.count + 1 := by
    rw [count_eq, count_eq]
    show _ = (if (r.start + 1) % n ≤ r.stop then r.stop - (r.start + 1) % n
      else r.stop + n - (r.start + 1) % n) + 1
    rw [next]
    split <;> split <;> split <;> omega
  rw [contents, popped, List.range_succ_eq_map, List.map_cons, List.map_map, contents]
  congr 1
  · show r.buf ((r.start + 0) % n) = r.buf r.start
    rw [Nat.add_zero, Nat.mod_eq_of_lt start]
  · apply List.map_congr_left
    intro i _
    show r.buf ((r.start + (i + 1)) % n) = r.buf (((r.start + 1) % n + i) % n)
    rw [Nat.mod_add_mod, Nat.add_assoc, Nat.add_comm 1 i]

end WrapRing

end PCemWeb.Lib
