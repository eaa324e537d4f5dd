import Mathlib.Data.BitVec
import Mathlib.Logic.Function.Basic

/-!
# Straight-line WebAssembly code on 32-bit values

Code without branches over local variables of any kind. Code that pushes one value and code that
pops one are described by what they do to every stack, and put together by the rules below.
-/

namespace PCemWeb.Lib

universe u

/-- The binary operations. Shift and rotate counts are taken modulo 32. -/
inductive I32Op : Type
  | and
  | or
  | sub
  | shl
  | shrU
  | shrS
  | rotl
  | rotr
  deriving DecidableEq

def I32Op.eval : I32Op → BitVec 32 → BitVec 32 → BitVec 32
  | .and, a, b => a &&& b
  | .or, a, b => a ||| b
  | .sub, a, b => a - b
  | .shl, a, b => a <<< (b.toNat % 32)
  | .shrU, a, b => a >>> (b.toNat % 32)
  | .shrS, a, b => a.sshiftRight (b.toNat % 32)
  | .rotl, a, b => a.rotateLeft (b.toNat % 32)
  | .rotr, a, b => a.rotateRight (b.toNat % 32)

inductive I32Instr (ι : Type u) : Type u
  | const (v : BitVec 32)
  | get (x : ι)
  | set (x : ι)
  | tee (x : ι)
  | op (o : I32Op)

namespace I32Instr

variable {ι : Type u} [DecidableEq ι]

def step : I32Instr ι → List (BitVec 32) × (ι → BitVec 32) →
    Option (List (BitVec 32) × (ι → BitVec 32))
  | .const v, (stack, locals) => some (v :: stack, locals)
  | .get x, (stack, locals) => some (locals x :: stack, locals)
  | .set x, (v :: stack, locals) => some (stack, Function.update locals x v)
  | .tee x, (v :: stack, locals) => some (v :: stack, Function.update locals x v)
  | .op o, (b :: a :: stack, locals) => some (o.eval a b :: stack, locals)
  | _, _ => none

def run : List (I32Instr ι) → List (BitVec 32) × (ι → BitVec 32) →
    Option (List (BitVec 32) × (ι → BitVec 32))
  | [], s => some s
  | i :: code, s => i.step s >>= run code

variable {code code' : List (I32Instr ι)} {locals locals' locals'' : ι → BitVec 32}
  {a b v : BitVec 32}

theorem run_append (s : List (BitVec 32) × (ι → BitVec 32)) :
    run (code ++ code') s = run code s >>= run code' := by
  induction code generalizing s with
  | nil => rfl
  | cons i code ih =>
    rw [List.cons_append, run, run, bind_assoc]
    exact congrArg _ (funext ih)

/-- On every stack the code leaves one value more. -/
def Pushes (code : List (I32Instr ι)) (locals : ι → BitVec 32) (v : BitVec 32)
    (locals' : ι → BitVec 32) : Prop :=
  ∀ stack, run code (stack, locals) = some (v :: stack, locals')

/-- The code takes the value from every stack. -/
def Pops (code : List (I32Instr ι)) (locals : ι → BitVec 32) (v : BitVec 32)
    (locals' : ι → BitVec 32) : Prop :=
  ∀ stack, run code (v :: stack, locals) = some (stack, locals')

theorem pushes_const : Pushes [.const v] locals v locals := fun _ => rfl

theorem pushes_get {x : ι} : Pushes [.get x] locals (locals x) locals := fun _ => rfl

theorem Pushes.binary {o : I32Op} (first : Pushes code locals a locals')
    (second : Pushes code' locals' b locals'') :
    Pushes (code ++ code' ++ [.op o]) locals (o.eval a b) locals'' := by
  intro stack
  rw [run_append, run_append, first, Option.bind_eq_bind, Option.bind_some, second]
  rfl

theorem Pushes.tee {x : ι} (first : Pushes code locals v locals') :
    Pushes (code ++ [.tee x]) locals v (Function.update locals' x v) := by
  intro stack
  rw [run_append, first]
  rfl

theorem Pushes.pops (first : Pushes code locals v locals') (second : Pops code' locals' v locals'')
    (stack : List (BitVec 32)) : run (code ++ code') (stack, locals) = some (stack, locals'') := by
  rw [run_append, first]
  exact second stack

end I32Instr

end PCemWeb.Lib
