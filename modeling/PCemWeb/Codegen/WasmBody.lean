import PCemWeb.Codegen.Block
import PCemWeb.Lib.Leb128
import PCemWeb.Lib.StructuredControl

/-!
# The body of a compiled block

Uop handlers write WebAssembly instructions into a body buffer. A forward jump is a branch whose
depth is left open, with a patch that names the label where the branch is to go; the label is
bound when the destination uop is reached. At the end of the block the body is rewritten: a block
for each label is opened at the start and ended at the label, and every branch gets its depth.

The definitions follow `wasm-emit.c` and `codegen_backend_wasm.c`. A body is described by what is
written in turn, an instruction at a time. An instruction's bytes are written one by one; the few
operands that the emitter copies whole are either all written or make it fail in the same way.
-/

namespace PCemWeb.Codegen

open PCemWeb.Lib

/-! ## The emitter -/

/-- `wasm_emit_t`: the bytes written so far, with the nesting they leave open. -/
structure Emitter where
  buf : List UInt8
  cap : Nat
  failed : Bool
  depth : Int
  deriving DecidableEq

def wasmEmitInit (cap : Nat) : Emitter := ⟨[], cap, false, 0⟩

namespace Emitter

/-- `wemit_byte`. -/
def wemitByte (e : Emitter) (b : UInt8) : Emitter :=
  if e.cap ≤ e.buf.length then { e with failed := true } else { e with buf := e.buf ++ [b] }

/-- `wemit_bytes`. -/
def wemitBytes (e : Emitter) (bytes : List UInt8) : Emitter :=
  if e.cap < e.buf.length + bytes.length then { e with failed := true }
  else { e with buf := e.buf ++ bytes }

/-- Bytes written one by one. -/
def wemitEach (e : Emitter) (bytes : List UInt8) : Emitter := bytes.foldl wemitByte e

def wemitBlock (e : Emitter) : Emitter :=
  { (e.wemitByte 0x02).wemitByte 0x40 with depth := e.depth + 1 }

def wemitLoop (e : Emitter) : Emitter :=
  { (e.wemitByte 0x03).wemitByte 0x40 with depth := e.depth + 1 }

def wemitIf (e : Emitter) : Emitter :=
  { (e.wemitByte 0x04).wemitByte 0x40 with depth := e.depth + 1 }

def wemitElse (e : Emitter) : Emitter := e.wemitByte 0x05

def wemitEnd (e : Emitter) : Emitter := { e.wemitByte 0x0b with depth := e.depth - 1 }

end Emitter

/-! ## Branches and labels -/

/-- `UOP_NR_MAX`. -/
def uopNrMax : Nat := 4096

/-- `WJIT_BODY_CAP`. -/
def wjitBodyCap : Nat := 0x80000

/-- `WJIT_FINAL_CAP`. -/
def wjitFinalCap : Nat := wjitBodyCap + 0x10000

/-- `WJIT_MAX_LABELS`. -/
def wjitMaxLabels : Nat := uopNrMax + 16

/-- `WJIT_MAX_PATCHES`. -/
def wjitMaxPatches : Nat := uopNrMax * 2 + 32

/-- `wjit_patch_t`; the label is -1 until bound. -/
structure WjitPatch where
  operandPos : Nat
  label : Option Nat
  extraDepth : Int
  deriving DecidableEq

/-- The emission state; a label is a position in the body. -/
structure Wjit where
  bodyEmit : Emitter
  labels : List Nat
  patches : List WjitPatch
  emitFailed : Bool
  deriving DecidableEq

/-- What is written to a body: an instruction without influence on the nesting, one that opens or
closes a construct, a branch to be patched, or the destination of the branch with a handle. -/
inductive Emit
  | instr (op : UInt8) (operands : List UInt8)
  | block
  | loop
  | if_
  | else_
  | end_
  | brPatch (isConditional : Bool)
  | setJumpDest (p : Nat)
  deriving DecidableEq

/-- The opcodes of `br_if` and `br`. -/
def brOp (isConditional : Bool) : UInt8 := if isConditional then 0x0d else 0x0c

/-- The operand of a branch until it is patched. -/
def brPlaceholder : List UInt8 := [0x80, 0x80, 0x80, 0x80, 0x00]

namespace Wjit

/-- The state that `codegen_backend_prologue` sets up. -/
def prologue : Wjit := ⟨wasmEmitInit wjitBodyCap, [], [], false⟩

/-- `wjit_emit_br_patch`; the patch's handle is its number, from 1 on. -/
def wjitEmitBrPatch (isConditional : Bool) (w : Wjit) : Wjit :=
  if wjitMaxPatches ≤ w.patches.length then { w with emitFailed := true }
  else
    let body := w.bodyEmit.wemitByte (brOp isConditional)
    { w with
      bodyEmit := body.wemitEach brPlaceholder
      patches := w.patches ++ [⟨body.buf.length, none, body.depth⟩] }

/-- The label of a patch is the last one made. -/
def bind (p : Nat) (w : Wjit) : Wjit :=
  { w with patches := w.patches.modify (p - 1) ({ · with label := some (w.labels.length - 1) }) }

/-- `codegen_set_jump_dest`. -/
def codegenSetJumpDest (p : Nat) (w : Wjit) : Wjit :=
  if p = 0 ∨ w.patches.length < p then { w with emitFailed := true }
  else if w.labels.getLast? = some w.bodyEmit.buf.length then w.bind p
  else if wjitMaxLabels ≤ w.labels.length then { w with emitFailed := true }
  else bind p { w with labels := w.labels ++ [w.bodyEmit.buf.length] }

def emit (w : Wjit) : Emit → Wjit
  | .instr op operands => { w with bodyEmit := w.bodyEmit.wemitEach (op :: operands) }
  | .block => { w with bodyEmit := w.bodyEmit.wemitBlock }
  | .loop => { w with bodyEmit := w.bodyEmit.wemitLoop }
  | .if_ => { w with bodyEmit := w.bodyEmit.wemitIf }
  | .else_ => { w with bodyEmit := w.bodyEmit.wemitElse }
  | .end_ => { w with bodyEmit := w.bodyEmit.wemitEnd }
  | .brPatch isConditional => w.wjitEmitBrPatch isConditional
  | .setJumpDest p => w.codegenSetJumpDest p

/-- The state after a body is written. -/
def emitAll (w : Wjit) (ops : List Emit) : Wjit := ops.foldl emit w

/-! ## The rewriting -/

/-- The position a patch's branch goes to. -/
def targetPos (w : Wjit) (p : WjitPatch) : Nat := w.labels.getD (p.label.getD 0) 0

/-- The depth of a branch: the labels that end strictly between the branch and its target, and
the nesting at the branch. -/
def depthOf (w : Wjit) (p : WjitPatch) : Int :=
  p.extraDepth + (w.labels.countP fun pos => p.operandPos < pos ∧ pos < w.targetPos p : Nat)

/-- Five bytes of seven bits. -/
def leb5 (depth : Int) : List UInt8 :=
  let bits (shift : Nat) : UInt8 := UInt8.ofNat ((depth >>> shift) % 128).toNat
  [0x80 ||| bits 0, 0x80 ||| bits 7, 0x80 ||| bits 14, 0x80 ||| bits 21, bits 28]

def writeAt (buf : List UInt8) (pos : Nat) (bytes : List UInt8) : List UInt8 :=
  buf.take pos ++ bytes ++ buf.drop (pos + bytes.length)

/-- The loop that patches the branches. -/
def patchAll (w : Wjit) : List UInt8 :=
  w.patches.foldl (fun buf p => writeAt buf p.operandPos (leb5 (w.depthOf p))) w.bodyEmit.buf

/-- The loop that copies the body up to each label and ends the label's block there. -/
def rebuildFrom (body : List UInt8) (src : Nat) (f : Emitter) : List Nat → Emitter
  | [] => f.wemitBytes (body.drop src)
  | pos :: labels =>
    rebuildFrom body pos ((f.wemitBytes ((body.drop src).take (pos - src))).wemitEnd) labels

/-- The body with its labels' blocks. -/
def rebuild (w : Wjit) (body : List UInt8) : Emitter :=
  rebuildFrom body 0 (w.labels.foldl (fun f _ => f.wemitBlock) (wasmEmitInit wjitFinalCap)) w.labels

/-- Whether `codegen_backend_epilogue` gives up at once. -/
def failed (w : Wjit) : Bool := w.emitFailed || w.bodyEmit.failed || w.bodyEmit.depth ≠ 0

/-- The rest of `codegen_backend_epilogue` up to the wrapping of the body as a module. -/
def restructure (w : Wjit) : Option (List UInt8) :=
  if w.patches.any (·.label.isNone) then none
  else if ¬w.labels.IsChain (· < ·) then none
  else
    let f := w.rebuild w.patchAll
    if f.failed then none else some f.buf

end Wjit

/-- The verdict of the cost model. -/
inductive CostModel
  | compile
  | nojit
  | deferIo
  deriving DecidableEq

/-- How `codegen_backend_epilogue` ends, with `wasm_emit_wrap_module` and the installer. -/
def Wjit.outcome (w : Wjit) (cost : CostModel) (wrap : List UInt8 → Option (List UInt8))
    (installs : List UInt8 → Bool) : Epilogue :=
  if w.failed then .emitFails
  else
    match cost with
    | .nojit => .nojit
    | .deferIo => .deferIo
    | .compile =>
      match w.restructure.bind wrap with
      | none => .restructureFails
      | some module => .install (installs module)

end PCemWeb.Codegen
