import Mathlib.Data.List.Basic
import Mathlib.Tactic.Common

/-!
# Structured control

Code is a sequence of tokens, some of which open a construct and some of which close one. A
branch names an enclosing construct by its depth, 0 being the innermost: out of a block it goes
to the code after the block's end, and to a loop it goes to the loop's start. The branch out
of all constructs leaves the code. The token type is a parameter; `shape` tells what a token
does.
-/

namespace PCemWeb.Lib

universe u

/-- What a token does to the nesting. -/
inductive Shape
  | opens
  | loops
  | closes
  | plain
  deriving DecidableEq, Repr

variable {τ : Type u} (shape : τ → Shape)

/-- The number of constructs open after some code, unless it closes one too many. -/
def nest : (depth : Nat) → List τ → Option Nat
  | depth, [] => some depth
  | depth, t :: rest =>
    match shape t, depth with
    | .opens, _ | .loops, _ => nest (depth + 1) rest
    | .closes, 0 => none
    | .closes, depth + 1 => nest depth rest
    | .plain, _ => nest depth rest

/-- The code after the end of the enclosing construct of a given depth. -/
def exitFrom : (depth : Nat) → List τ → Option (List τ)
  | _, [] => none
  | depth, t :: rest =>
    match shape t, depth with
    | .opens, _ | .loops, _ => exitFrom (depth + 1) rest
    | .closes, 0 => some rest
    | .closes, depth + 1 => exitFrom depth rest
    | .plain, _ => exitFrom depth rest

/-- An enclosing construct: a block, or a loop with the code from its start. -/
inductive Frame (τ : Type u)
  | block
  | loop (start : List τ)

/-- The constructs open between two parts of a code, the innermost first. -/
def frames : (open_ : List (Frame τ)) → (before after : List τ) → List (Frame τ)
  | open_, [], _ => open_
  | open_, t :: rest, after =>
    match shape t with
    | .opens => frames (.block :: open_) rest after
    | .loops => frames (.loop (t :: rest ++ after) :: open_) rest after
    | .closes => frames open_.tail rest after
    | .plain => frames open_ rest after

/-- Where the branch `t` goes, with the code before it and after it. -/
def branchTarget (before : List τ) (t : τ) (after : List τ) (depth : Nat) : Option (List τ) :=
  let open_ := frames shape [] before (t :: after)
  match open_[depth]? with
  | some .block => exitFrom shape depth after
  | some (.loop start) => some start
  | none => if depth = open_.length then some [] else none

variable {shape} {before after code rest : List τ} {t : τ} {d e k : Nat}

theorem nest_append (nested : nest shape d code = some e) :
    nest shape d (code ++ rest) = nest shape e rest := by
  induction code generalizing d with
  | nil =>
    cases nested
    rfl
  | cons t code ih =>
    rcases kind : shape t with _ | _ | _ | _ <;>
      simp only [List.cons_append, nest, kind] at nested ⊢
    case opens => exact ih nested
    case loops => exact ih nested
    case plain => exact ih nested
    case closes =>
      rcases d with _ | d
      · cases nested
      · exact ih nested

/-- Constructs around nested code stay open. -/
theorem nest_add (nested : nest shape d code = some e) :
    nest shape (d + k) code = some (e + k) := by
  induction code generalizing d with
  | nil =>
    cases nested
    rfl
  | cons t code ih =>
    rcases kind : shape t with _ | _ | _ | _ <;> simp only [nest, kind] at nested ⊢
    case opens => exact Nat.add_right_comm d k 1 ▸ ih nested
    case loops => exact Nat.add_right_comm d k 1 ▸ ih nested
    case plain => exact ih nested
    case closes =>
      rcases d with _ | d
      · cases nested
      · rw [Nat.add_right_comm]
        exact ih nested

/-- A construct around nested code ends behind it. -/
theorem exitFrom_append (nested : nest shape d code = some e) :
    exitFrom shape (d + k) (code ++ rest) = exitFrom shape (e + k) rest := by
  induction code generalizing d with
  | nil =>
    cases nested
    rfl
  | cons t code ih =>
    rcases kind : shape t with _ | _ | _ | _ <;>
      simp only [nest, List.cons_append, exitFrom, kind] at nested ⊢
    case opens => exact Nat.add_right_comm d k 1 ▸ ih nested
    case loops => exact Nat.add_right_comm d k 1 ▸ ih nested
    case plain => exact ih nested
    case closes =>
      rcases d with _ | d
      · cases nested
      · rw [Nat.add_right_comm]
        exact ih nested

theorem exitFrom_closes (closes : shape t = .closes) :
    exitFrom shape 0 (t :: rest) = some rest := by
  simp only [exitFrom, closes]

theorem frames_append {open_ : List (Frame τ)} {more : List τ} :
    frames shape open_ (before ++ more) after =
      frames shape (frames shape open_ before (more ++ after)) more after := by
  induction before generalizing open_ with
  | nil => rfl
  | cons t before ih =>
    rcases kind : shape t with _ | _ | _ | _ <;>
      simp only [List.cons_append, frames, kind, ih, List.append_assoc]

/-- Nested code opens as many constructs as it should, above those that are open. -/
theorem frames_of_nest {open_ : List (Frame τ)} (nested : nest shape open_.length before = some d) :
    ∃ opened, opened.length = d ∧ ∀ around,
      frames shape (open_ ++ around) before after = opened ++ around := by
  induction before generalizing open_ with
  | nil =>
    cases nested
    exact ⟨open_, rfl, fun _ => rfl⟩
  | cons t before ih =>
    rcases kind : shape t with _ | _ | _ | _ <;> simp only [nest, kind] at nested
    case opens =>
      obtain ⟨opened, length, same⟩ := @ih (.block :: open_) nested
      refine ⟨opened, length, fun around => ?_⟩
      simp only [frames, kind]
      exact same around
    case loops =>
      obtain ⟨opened, length, same⟩ :=
        @ih (.loop (t :: before ++ after) :: open_) nested
      refine ⟨opened, length, fun around => ?_⟩
      simp only [frames, kind]
      exact same around
    case plain =>
      obtain ⟨opened, length, same⟩ := ih nested
      refine ⟨opened, length, fun around => ?_⟩
      simp only [frames, kind]
      exact same around
    case closes =>
      rcases open_ with _ | ⟨frame, open_⟩
      · cases nested
      · obtain ⟨opened, length, same⟩ := @ih open_ nested
        refine ⟨opened, length, fun around => ?_⟩
        simp only [List.cons_append, frames, kind, List.tail_cons]
        exact same around

end PCemWeb.Lib
