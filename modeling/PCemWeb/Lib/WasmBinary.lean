import PCemWeb.Lib.Decoder

/-!
# The binary format of WebAssembly modules

The decoder takes modules of a type, an import, a function, an export and a code section, in this
order, which import tables and memories and export functions. Every section and every code entry has
its size in front. The instructions of a function body are left as bytes, up to the `end` that
closes the body.
-/

namespace PCemWeb.Lib.Wasm

open Decoder

/-! ## Modules -/

inductive ValType
  | i32
  | i64
  | f32
  | f64
  deriving DecidableEq

structure FuncType where
  params : List ValType
  results : List ValType
  deriving DecidableEq

structure Limits where
  min : Nat
  max : Option Nat
  shared : Bool
  deriving DecidableEq

inductive ImportDesc
  | funcrefTable (limits : Limits)
  | memory (limits : Limits)
  deriving DecidableEq

/-- Names are kept as bytes. -/
structure Import where
  source : List UInt8
  name : List UInt8
  desc : ImportDesc
  deriving DecidableEq

/-- A function that is exported. -/
structure Export where
  name : List UInt8
  func : Nat
  deriving DecidableEq

/-- A function body: groups of locals of one type, and instructions. -/
structure Code where
  locals : List (Nat × ValType)
  body : List UInt8
  deriving DecidableEq

structure Module where
  types : List FuncType
  imports : List Import
  funcs : List Nat
  exports : List Export
  codes : List Code
  deriving DecidableEq

/-! ## Decoders -/

def valType : Decoder ValType := do
  match ← byte with
  | 0x7f => pure .i32
  | 0x7e => pure .i64
  | 0x7d => pure .f32
  | 0x7c => pure .f64
  | _ => failure

def funcType : Decoder FuncType := do
  expect [0x60]
  let params ← vec valType
  let results ← vec valType
  pure ⟨params, results⟩

def limits : Decoder Limits := do
  match ← byte with
  | 0x00 => do
    let min ← u32
    pure ⟨min, none, false⟩
  | 0x01 => do
    let min ← u32
    let max ← u32
    pure ⟨min, some max, false⟩
  | 0x03 => do
    let min ← u32
    let max ← u32
    pure ⟨min, some max, true⟩
  | _ => failure

def importDesc : Decoder ImportDesc := do
  match ← byte with
  | 0x01 => do
    expect [0x70]
    let limits ← limits
    pure (.funcrefTable limits)
  | 0x02 => do
    let limits ← limits
    pure (.memory limits)
  | _ => failure

def import_ : Decoder Import := do
  let source ← vec byte
  let name ← vec byte
  let desc ← importDesc
  pure ⟨source, name, desc⟩

def export_ : Decoder Export := do
  let name ← vec byte
  expect [0x00]
  let func ← u32
  pure ⟨name, func⟩

def localGroup : Decoder (Nat × ValType) := do
  let n ← u32
  let t ← valType
  pure (n, t)

/-- The rest of a code entry, which an `end` closes. -/
def expr : Decoder (List UInt8) := fun input =>
  if input.getLast? = some 0x0b then some (input.dropLast, []) else none

def code : Decoder Code := do
  let locals ← vec localGroup
  let body ← expr
  pure ⟨locals, body⟩

def section_ {α : Type} (id : UInt8) (p : Decoder α) : Decoder α := do
  expect [id]
  sized p

/-- The magic number and the version. -/
def header : List UInt8 := [0x00, 0x61, 0x73, 0x6d, 0x01, 0x00, 0x00, 0x00]

def module_ : Decoder Module := do
  expect header
  let types ← section_ 1 (vec funcType)
  let imports ← section_ 2 (vec import_)
  let funcs ← section_ 3 (vec u32)
  let exports ← section_ 7 (vec export_)
  let codes ← section_ 10 (vec (sized code))
  pure ⟨types, imports, funcs, exports, codes⟩

/-- The module that some bytes stand for. -/
def decodeModule (bytes : List UInt8) : Option Module := whole module_ bytes

/-! ## Sections and code entries -/

variable {α : Type} {p : Decoder α} {bytes body : List UInt8} {x : α}

theorem decodes_section (id : UInt8) {more : Nat} (content : whole p bytes = some x)
    (fits : bytes.length < paddedRange more) (width : bytes.length < 0x100000000) :
    Decodes (section_ id p) ([id] ++ (uleb more bytes.length ++ bytes)) x :=
  (decodes_expect [id]).bind (decodes_sized content fits width)

/-- A code entry's content. -/
theorem whole_code {locals : List (Nat × ValType)} {groups : List UInt8}
    (decodes : Decodes (vec localGroup) groups locals) (body : List UInt8) :
    whole code (groups ++ body ++ [0x0b]) = some ⟨locals, body⟩ := by
  have rest : expr (body ++ [0x0b]) = some (body, []) := by
    rw [expr, if_pos List.getLast?_concat, List.dropLast_concat]
  have all : code (groups ++ body ++ [0x0b]) = some (⟨locals, body⟩, []) := by
    rw [List.append_assoc]
    change (vec localGroup (groups ++ _)).bind _ = _
    rw [decodes]
    change (expr _).bind _ = _
    rw [rest]
    rfl
  rw [whole, all]

end PCemWeb.Lib.Wasm
