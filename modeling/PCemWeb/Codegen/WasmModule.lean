import PCemWeb.Codegen.WasmBody
import PCemWeb.Lib.WasmBinary

/-!
# Wrapping a body as a module

The wrapper writes a whole module around a finished body. Sections whose size is not known before
are written to scratch buffers first. The emitter drops what does not fit and remembers that it has
failed, so that a failure shows at the end only.

The definitions follow `wasm-emit.c`. A size is an `int` there; the body and the output lie in one
memory of 2 GB, so that no sum of sizes that is used leaves its range.
-/

namespace PCemWeb.Codegen

open PCemWeb.Lib

namespace Emitter

/-- The loop of `wemit_uleb`, with a bound on the bytes after the next one. -/
def ulebLoop : (more : Nat) → Emitter → (v : Nat) → Emitter
  | 0, e, v => e.wemitByte (UInt8.ofNat (v % 128))
  | more + 1, e, v =>
    let b := UInt8.ofNat (v % 128)
    let v := v / 128
    if v ≠ 0 then ulebLoop more (e.wemitByte (b ||| 0x80)) v else e.wemitByte b

/-- `wemit_uleb`; a number of 64 bits takes ten bytes at most. -/
def wemitUleb (e : Emitter) (v : Nat) : Emitter := e.ulebLoop 9 v

end Emitter

/-! ## The type table -/

def wvtI32 : UInt8 := 0x7f

def wvtI64 : UInt8 := 0x7e

def wvtF64 : UInt8 := 0x7c

/-- `type_defs`: the number of parameters, the parameters, the number of results, the result. -/
def typeDefs : List (List UInt8) := [
  [0, 0],
  [1, wvtI32, 0],
  [2, wvtI32, wvtI32, 0],
  [3, wvtI32, wvtI32, wvtI32, 0],
  [4, wvtI32, wvtI32, wvtI32, wvtI32, 0],
  [0, 1, wvtI32],
  [1, wvtI32, 1, wvtI32],
  [2, wvtI32, wvtI32, 1, wvtI32],
  [3, wvtI32, wvtI32, wvtI32, 1, wvtI32],
  [4, wvtI32, wvtI32, wvtI32, wvtI32, 1, wvtI32],
  [2, wvtI32, wvtI32, 1, wvtI64],
  [2, wvtI32, wvtI32, 1, wvtF64],
  [3, wvtI32, wvtI32, wvtI64, 0],
  [3, wvtI32, wvtI32, wvtF64, 0],
  [1, wvtF64, 1, wvtI32],
  [1, wvtF64, 1, wvtI64],
  [7, wvtI32, wvtI32, wvtI32, wvtI32, wvtI32, wvtI32, wvtI32, 0],
  [1, wvtI32, 1, wvtI64],
  [2, wvtI32, wvtI64, 0],
  [2, wvtI64, wvtI64, 1, wvtI64],
  [2, wvtI64, wvtI32, 1, wvtI64]]

/-- `WTYPE_COUNT`. -/
def wtypeCount : Nat := 21

/-! ## The sections -/

/-- One entry of the type section. -/
def emitTypeDef (s : Emitter) (d : List UInt8) : Emitter :=
  let np := (d.headD 0).toNat
  let d := d.drop 1
  let s := ((s.wemitByte 0x60).wemitUleb np).wemitEach (d.take np)
  let d := d.drop np
  let nr := (d.headD 0).toNat
  let d := d.drop 1
  (s.wemitUleb nr).wemitEach (d.take nr)

def typeSection : Emitter := typeDefs.foldl emitTypeDef ((wasmEmitInit 512).wemitUleb wtypeCount)

/-- The bytes of `env`. -/
def envName : List UInt8 := [0x65, 0x6e, 0x76]

/-- The bytes of `memory`. -/
def memoryName : List UInt8 := [0x6d, 0x65, 0x6d, 0x6f, 0x72, 0x79]

/-- The bytes of `table`. -/
def tableName : List UInt8 := [0x74, 0x61, 0x62, 0x6c, 0x65]

def importSection : Emitter :=
  let s := (wasmEmitInit 64).wemitUleb 2
  let s := (s.wemitUleb 3).wemitBytes envName
  let s := (s.wemitUleb 6).wemitBytes memoryName
  let s := (s.wemitByte 0x02).wemitByte 0x03
  let s := (s.wemitUleb 0).wemitUleb 32768
  let s := (s.wemitUleb 3).wemitBytes envName
  let s := (s.wemitUleb 5).wemitBytes tableName
  let s := ((s.wemitByte 0x01).wemitByte 0x70).wemitByte 0x00
  s.wemitUleb 0

def localsHeader (nI64 nF64 nI32 : Nat) : Emitter :=
  let ngroups := (if nI64 ≠ 0 then 1 else 0) + (if nF64 ≠ 0 then 1 else 0) +
    if nI32 ≠ 0 then 1 else 0
  let l := (wasmEmitInit 32).wemitUleb ngroups
  let l := if nI64 ≠ 0 then (l.wemitUleb nI64).wemitByte wvtI64 else l
  let l := if nF64 ≠ 0 then (l.wemitUleb nF64).wemitByte wvtF64 else l
  if nI32 ≠ 0 then (l.wemitUleb nI32).wemitByte wvtI32 else l

/-- `wasm_emit_wrap_module`: what it returns, and the bytes it has written to the output. -/
def wasmEmitWrapModule (body : List UInt8) (funcType nI64 nF64 nI32 outCap : Nat) :
    Int × List UInt8 :=
  let e := (wasmEmitInit outCap).wemitBytes [0x00, 0x61, 0x73, 0x6d, 0x01, 0x00, 0x00, 0x00]
  let s := typeSection.buf
  let e := ((e.wemitByte 1).wemitUleb s.length).wemitBytes s
  let s := importSection.buf
  let e := ((e.wemitByte 2).wemitUleb s.length).wemitBytes s
  let e := (((e.wemitByte 3).wemitUleb 2).wemitUleb 1).wemitUleb funcType
  let e := (((e.wemitByte 7).wemitUleb 5).wemitUleb 1).wemitUleb 1
  let e := ((e.wemitByte 0x66).wemitByte 0x00).wemitUleb 0
  let l := (localsHeader nI64 nF64 nI32).buf
  let funcSize := l.length + body.length + 1
  let s := (((wasmEmitInit 16).wemitUleb 1).wemitUleb funcSize).buf
  let e := (e.wemitByte 10).wemitUleb (s.length + funcSize)
  let e := (((e.wemitBytes s).wemitBytes l).wemitBytes body).wemitByte 0x0b
  (if e.failed then -1 else e.buf.length, e.buf)

end PCemWeb.Codegen
