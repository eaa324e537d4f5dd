import PCemWeb.Codegen.WasmModule
import PCemWeb.Codegen.WasmRebuild

/-!
# Wrapped modules are exact

What the wrapper writes is the encoding of the module as far as it fits, and the wrapper fails just
if it does not. The encoding stands for the module that is asked for.
-/

namespace PCemWeb.Codegen

open PCemWeb.Lib

/-! ## What is asked for -/

/-- The function types that the table describes, in the order of the `WTYPE_` numbers. -/
def wtypes : List Wasm.FuncType := [
  ⟨[], []⟩,
  ⟨[.i32], []⟩,
  ⟨[.i32, .i32], []⟩,
  ⟨[.i32, .i32, .i32], []⟩,
  ⟨[.i32, .i32, .i32, .i32], []⟩,
  ⟨[], [.i32]⟩,
  ⟨[.i32], [.i32]⟩,
  ⟨[.i32, .i32], [.i32]⟩,
  ⟨[.i32, .i32, .i32], [.i32]⟩,
  ⟨[.i32, .i32, .i32, .i32], [.i32]⟩,
  ⟨[.i32, .i32], [.i64]⟩,
  ⟨[.i32, .i32], [.f64]⟩,
  ⟨[.i32, .i32, .i64], []⟩,
  ⟨[.i32, .i32, .f64], []⟩,
  ⟨[.f64], [.i32]⟩,
  ⟨[.f64], [.i64]⟩,
  ⟨[.i32, .i32, .i32, .i32, .i32, .i32, .i32], []⟩,
  ⟨[.i32], [.i64]⟩,
  ⟨[.i32, .i64], []⟩,
  ⟨[.i64, .i64], [.i64]⟩,
  ⟨[.i64, .i32], [.i64]⟩]

/-- The groups of locals that are not empty. -/
def localGroups (nI64 nF64 nI32 : Nat) : List (Nat × Wasm.ValType) :=
  [(nI64, .i64), (nF64, .f64), (nI32, .i32)].filter (·.1 ≠ 0)

/-- The shared memory of at most 2 GB and the function table. -/
def envImports : List Wasm.Import := [
  ⟨envName, memoryName, .memory ⟨0, some 32768, true⟩⟩,
  ⟨envName, tableName, .funcrefTable ⟨0, none, false⟩⟩]

/-- A module with one function, which is exported as `f`. -/
def moduleFor (body : List UInt8) (funcType nI64 nF64 nI32 : Nat) : Wasm.Module :=
  ⟨wtypes, envImports, [funcType], [⟨[0x66], 0⟩], [⟨localGroups nI64 nF64 nI32, body⟩]⟩

/-! ## The encoding -/

/-- The binary form of a value type. -/
def valTypeByte : Wasm.ValType → UInt8
  | .i32 => 0x7f
  | .i64 => 0x7e
  | .f32 => 0x7d
  | .f64 => 0x7c

def groupBytes (group : Nat × Wasm.ValType) : List UInt8 :=
  uleb 9 group.1 ++ [valTypeByte group.2]

def localsBytes (nI64 nF64 nI32 : Nat) : List UInt8 :=
  uleb 9 (localGroups nI64 nF64 nI32).length ++ (localGroups nI64 nF64 nI32).flatMap groupBytes

/-- A code entry without its size. -/
def entryBytes (body : List UInt8) (nI64 nF64 nI32 : Nat) : List UInt8 :=
  localsBytes nI64 nF64 nI32 ++ body ++ [0x0b]

/-- Bytes with their size in front. -/
def sizedBytes (bytes : List UInt8) : List UInt8 := uleb 9 bytes.length ++ bytes

/-- The sections after the header. -/
def sectionBytes (body : List UInt8) (funcType nI64 nF64 nI32 : Nat) : List (List UInt8) := [
  [1] ++ sizedBytes typeSection.buf,
  [2] ++ sizedBytes importSection.buf,
  [3] ++ sizedBytes (uleb 9 1 ++ uleb 9 funcType),
  [7] ++ sizedBytes (uleb 9 1 ++ uleb 9 1 ++ [0x66] ++ [0x00] ++ uleb 9 0),
  [10] ++ sizedBytes (uleb 9 1 ++ sizedBytes (entryBytes body nI64 nF64 nI32))]

def moduleBytes (body : List UInt8) (funcType nI64 nF64 nI32 : Nat) : List UInt8 :=
  Wasm.header ++ (sectionBytes body funcType nI64 nF64 nI32).flatten

/-! ## Emitting into a limited buffer -/

namespace Emitter

variable {e : Emitter} {limit : Nat} {sent : List UInt8} {b : UInt8}

/-- The emitter has written the bytes so far, or they do not fit and it has failed. -/
structure Tracks (limit : Nat) (sent : List UInt8) (e : Emitter) : Prop where
  fits : e.Fits limit
  written : e.failed = false → e.buf = sent
  failed : e.failed = true ↔ limit < sent.length

theorem tracks_init (limit : Nat) : Tracks limit [] (wasmEmitInit limit) :=
  ⟨⟨rfl, Nat.zero_le _⟩, fun _ => rfl, nofun, nofun⟩

theorem Tracks.bytes (tracks : e.Tracks limit sent) (more : List UInt8) :
    (e.wemitBytes more).Tracks limit (sent ++ more) := by
  obtain ⟨⟨cap, room⟩, written, failed⟩ := tracks
  unfold wemitBytes
  split
  case isTrue full =>
    refine ⟨⟨cap, room⟩, nofun, iff_of_true rfl ?_⟩
    rw [List.length_append]
    rcases state : e.failed
    · rw [written state] at full
      omega
    · have := failed.mp state
      omega
  case isFalse fits =>
    refine ⟨⟨cap, ?_⟩, fun ok => by rw [← written ok], ?_⟩
    · rw [List.length_append]
      omega
    · rcases state : e.failed
      · refine iff_of_false Bool.false_ne_true ?_
        rw [List.length_append, ← written state]
        omega
      · refine iff_of_true rfl ?_
        have := failed.mp state
        rw [List.length_append]
        omega

theorem wemitByte_eq : e.wemitByte b = e.wemitBytes [b] := by
  unfold wemitByte wemitBytes
  rw [List.length_singleton]
  by_cases full : e.cap ≤ e.buf.length
  · rw [if_pos full, if_pos (by omega)]
  · rw [if_neg full, if_neg (by omega)]

theorem Tracks.byte (tracks : e.Tracks limit sent) (b : UInt8) :
    (e.wemitByte b).Tracks limit (sent ++ [b]) := wemitByte_eq ▸ tracks.bytes [b]

theorem ulebLoop_eq {more v : Nat} : e.ulebLoop more v = e.wemitEach (uleb more v) := by
  have continued : ∀ x < 128, UInt8.ofNat x ||| (0x80 : UInt8) = UInt8.ofNat (128 + x) := by
    decide +kernel
  induction more generalizing e v with
  | zero => rfl
  | succ more ih =>
    rw [ulebLoop, uleb]
    by_cases small : v < 128
    · rw [if_neg (by omega), if_pos small, Nat.mod_eq_of_lt small]
      rfl
    · rw [if_pos (by omega), if_neg small, ih, continued _ (Nat.mod_lt _ (by decide))]
      rfl

theorem Tracks.each (tracks : e.Tracks limit sent) (more : List UInt8) :
    (e.wemitEach more).Tracks limit (sent ++ more) := by
  induction more generalizing e sent with
  | nil =>
    rw [List.append_nil]
    exact tracks
  | cons b more ih =>
    rw [List.append_cons]
    exact ih (tracks.byte b)

theorem Tracks.uleb (tracks : e.Tracks limit sent) (v : Nat) :
    (e.wemitUleb v).Tracks limit (sent ++ Lib.uleb 9 v) := by
  rw [wemitUleb, ulebLoop_eq]
  exact tracks.each _

theorem Tracks.congr {sent' : List UInt8} (tracks : e.Tracks limit sent) (same : sent = sent') :
    e.Tracks limit sent' := same ▸ tracks

/-- An emitter into a buffer that is large enough. -/
theorem Tracks.buf (tracks : e.Tracks limit sent) (fits : sent.length ≤ limit) :
    e.buf = sent := tracks.written (eq_false_of_ne_true fun failed => by
      have := tracks.failed.mp failed
      omega)

end Emitter

/-! ## The scratch buffers -/

theorem length_typeSection : typeSection.buf.length = 122 := by decide +kernel

theorem whole_typeSection :
    Decoder.whole (Decoder.vec Wasm.funcType) typeSection.buf = some wtypes := by decide +kernel

theorem length_importSection : importSection.buf.length = 32 := by decide +kernel

theorem whole_importSection :
    Decoder.whole (Decoder.vec Wasm.import_) importSection.buf = some envImports := by
  decide +kernel

theorem length_groupBytes_le {n : Nat} (int : n < 0x80000000) (t : Wasm.ValType) :
    (groupBytes (n, t)).length ≤ 6 := by
  have fits : n < paddedRange 4 := Nat.lt_trans int (by decide)
  have count : (uleb 9 n).length ≤ 5 := length_uleb_le fits
  change (uleb 9 n ++ [valTypeByte t]).length ≤ 6
  rw [List.length_append, List.length_singleton]
  omega

section

variable {nI64 nF64 nI32 : Nat}

/-- A group of locals, unless it is empty. -/
abbrev group (n : Nat) (t : Wasm.ValType) : List (Nat × Wasm.ValType) :=
  [(n, t)].filter (·.1 ≠ 0)

theorem localGroups_eq :
    localGroups nI64 nF64 nI32 = group nI64 .i64 ++ group nF64 .f64 ++ group nI32 .i32 := by
  rw [← List.filter_append, ← List.filter_append]
  rfl

theorem length_group (n : Nat) (t : Wasm.ValType) :
    (group n t).length = if n ≠ 0 then 1 else 0 := by
  by_cases empty : n = 0 <;> simp [group, empty]

/-- Each group is written unless it is empty. -/
theorem tracks_group {e : Emitter} {sent : List UInt8} {limit n : Nat} {t : Wasm.ValType}
    (tracks : e.Tracks limit sent) :
    (if n ≠ 0 then (e.wemitUleb n).wemitByte (valTypeByte t) else e).Tracks limit
      (sent ++ (group n t).flatMap groupBytes) := by
  by_cases empty : n = 0
  · rw [if_neg (not_not.mpr empty), empty]
    exact (List.append_nil sent).symm ▸ tracks
  · have written : (group n t).flatMap groupBytes = uleb 9 n ++ [valTypeByte t] := by
      simp [group, empty, groupBytes]
    rw [if_pos empty, written, ← List.append_assoc]
    exact (tracks.uleb n).byte _

theorem tracks_localsHeader :
    (localsHeader nI64 nF64 nI32).Tracks 32 (localsBytes nI64 nF64 nI32) := by
  have count : (localGroups nI64 nF64 nI32).length = (if nI64 ≠ 0 then 1 else 0) +
      (if nF64 ≠ 0 then 1 else 0) + if nI32 ≠ 0 then 1 else 0 := by
    rw [localGroups_eq, List.length_append, List.length_append, length_group, length_group,
      length_group]
  rw [localsBytes, count, localGroups_eq, List.flatMap_append, List.flatMap_append,
    ← List.append_assoc, ← List.append_assoc]
  exact tracks_group (tracks_group (tracks_group ((Emitter.tracks_init 32).uleb _)))

/-- The header of the locals fits in its buffer. -/
theorem localsHeader_buf (i64 : nI64 < 0x80000000) (f64 : nF64 < 0x80000000)
    (i32 : nI32 < 0x80000000) :
    (localsHeader nI64 nF64 nI32).buf = localsBytes nI64 nF64 nI32 := by
  have one {n : Nat} (int : n < 0x80000000) (t : Wasm.ValType) :
      ((group n t).flatMap groupBytes).length ≤ 6 := by
    by_cases empty : n = 0
    · simp [group, empty]
    · have := length_groupBytes_le int t
      simpa [group, empty] using this
  have few : (localGroups nI64 nF64 nI32).length < 128 := by
    refine Nat.lt_of_le_of_lt (List.length_filter_le _ _) ?_
    exact (by decide : 3 < 128)
  refine tracks_localsHeader.buf ?_
  have count : (uleb 9 (localGroups nI64 nF64 nI32).length).length ≤ 0 + 1 := length_uleb_le few
  have a := one i64 .i64
  have b := one f64 .f64
  have c := one i32 .i32
  rw [localsBytes, localGroups_eq, List.flatMap_append, List.flatMap_append, ← localGroups_eq]
  simp only [List.length_append]
  omega

/-! ## The encoding stands for the module -/

theorem decodes_valType (t : Wasm.ValType) : Decoder.Decodes Wasm.valType [valTypeByte t] t := by
  intro rest
  cases t <;> rfl

theorem decodes_groups (i64 : nI64 < 0x80000000) (f64 : nF64 < 0x80000000)
    (i32 : nI32 < 0x80000000) :
    Decoder.Decodes (Decoder.vec Wasm.localGroup) (localsBytes nI64 nF64 nI32)
      (localGroups nI64 nF64 nI32) := by
  have few : (localGroups nI64 nF64 nI32).length < 128 := by
    refine Nat.lt_of_le_of_lt (List.length_filter_le _ _) ?_
    exact (by decide : 3 < 128)
  refine Decoder.decodes_vec (fun g isGroup => ?_) (Nat.lt_trans few (by decide))
    (Nat.lt_trans few (by decide))
  have int : g.1 < 0x80000000 := by
    have listed := List.mem_of_mem_filter isGroup
    simp only [List.mem_cons, List.not_mem_nil, or_false] at listed
    rcases listed with rfl | rfl | rfl
    · exact i64
    · exact f64
    · exact i32
  exact (Decoder.decodes_u32 (Nat.lt_trans int (by decide)) (Nat.lt_trans int (by decide))).bind
    (decodes_valType g.2).map

/-- A section of the encoding. -/
theorem decodes_sizedSection {α : Type} {p : Decoder α} {content : List UInt8} {x : α} (id : UInt8)
    (whole : Decoder.whole p content = some x) (short : content.length < 0x80000000) :
    Decoder.Decodes (Wasm.section_ id p) ([id] ++ sizedBytes content) x :=
  Wasm.decodes_section id whole (Nat.lt_trans short (by decide)) (Nat.lt_trans short (by decide))

theorem decode_moduleBytes {body : List UInt8} {funcType : Nat} (type_ : funcType < wtypeCount)
    (i64 : nI64 < 0x80000000) (f64 : nF64 < 0x80000000) (i32 : nI32 < 0x80000000)
    (short : (moduleBytes body funcType nI64 nF64 nI32).length < 0x80000000) :
    Wasm.decodeModule (moduleBytes body funcType nI64 nF64 nI32) =
      some (moduleFor body funcType nI64 nF64 nI32) := by
  let entry := entryBytes body nI64 nF64 nI32
  have parts : (moduleBytes body funcType nI64 nF64 nI32).length =
      8 + ([1] ++ sizedBytes typeSection.buf).length +
        ([2] ++ sizedBytes importSection.buf).length +
        ([3] ++ sizedBytes (uleb 9 1 ++ uleb 9 funcType)).length +
        ([7] ++ sizedBytes (uleb 9 1 ++ uleb 9 1 ++ [0x66] ++ [0x00] ++ uleb 9 0)).length +
        (1 + ((uleb 9 (uleb 9 1 ++ sizedBytes entry).length).length +
          ((uleb 9 1).length + ((uleb 9 entry.length).length + entry.length)))) := by
    simp only [moduleBytes, sectionBytes, List.length_append, List.length_flatten, List.map_cons,
      List.map_nil, List.sum_cons, List.sum_nil, List.length_cons, List.length_nil, sizedBytes,
      Wasm.header, entry]
    omega
  have funcs : Decoder.whole (Decoder.vec Decoder.u32) (uleb 9 1 ++ uleb 9 funcType) =
      some [funcType] := by
    have : ∀ t < wtypeCount,
        Decoder.whole (Decoder.vec Decoder.u32) (uleb 9 1 ++ uleb 9 t) = some [t] := by
      decide +kernel
    exact this funcType type_
  have exports : Decoder.whole (Decoder.vec Wasm.export_)
      (uleb 9 1 ++ uleb 9 1 ++ [0x66] ++ [0x00] ++ uleb 9 0) = some [⟨[0x66], 0⟩] := by
    decide +kernel
  -- the code section
  let func : Wasm.Code := ⟨localGroups nI64 nF64 nI32, body⟩
  have code : Decoder.whole Wasm.code entry = some func :=
    Wasm.whole_code (decodes_groups i64 f64 i32) body
  have sized : Decoder.Decodes (Decoder.sized Wasm.code) (sizedBytes entry) func :=
    Decoder.decodes_sized code (Nat.lt_trans (by omega : _ < 0x80000000) (by decide))
      (Nat.lt_trans (by omega : _ < 0x80000000) (by decide))
  have codes : Decoder.Decodes (Decoder.vec (Decoder.sized Wasm.code))
      (uleb 9 1 ++ [func].flatMap fun _ => sizedBytes entry) [func] := by
    have one : [func].length < paddedRange 9 := (by decide : 1 < paddedRange 9)
    refine Decoder.decodes_vec (fun c isCode => ?_) one (by decide : 1 < 0x100000000)
    rw [List.mem_singleton.mp isCode]
    exact sized
  rw [List.flatMap_cons, List.flatMap_nil, List.append_nil] at codes
  have all : Decoder.Decodes Wasm.module_ (Wasm.header ++ (([1] ++ sizedBytes typeSection.buf) ++
      (([2] ++ sizedBytes importSection.buf) ++
        (([3] ++ sizedBytes (uleb 9 1 ++ uleb 9 funcType)) ++
          (([7] ++ sizedBytes (uleb 9 1 ++ uleb 9 1 ++ [0x66] ++ [0x00] ++ uleb 9 0)) ++
            ([10] ++ sizedBytes (uleb 9 1 ++ sizedBytes entry)))))))
      (moduleFor body funcType nI64 nF64 nI32) := by
    refine (Decoder.decodes_expect Wasm.header).bind ?_
    refine (decodes_sizedSection 1 whole_typeSection ?_).bind ?_
    · rw [length_typeSection]
      decide
    refine (decodes_sizedSection 2 whole_importSection ?_).bind ?_
    · rw [length_importSection]
      decide
    refine (decodes_sizedSection 3 funcs ?_).bind ?_
    · simp only [sizedBytes, List.length_append] at parts ⊢
      omega
    refine (decodes_sizedSection 7 exports (by decide)).bind ?_
    refine (decodes_sizedSection 10 codes.whole ?_).map
    simp only [sizedBytes, List.length_append] at parts ⊢
    omega
  rw [Wasm.decodeModule, moduleBytes, sectionBytes]
  simp only [List.flatten_cons, List.flatten_nil, List.append_nil]
  exact all.whole

end

/-! ## The wrapper -/

/-- The wrapper writes the encoding as far as it fits. -/
theorem tracks_wrapModule {body : List UInt8} {funcType nI64 nF64 nI32 outCap : Nat}
    (type_ : funcType < wtypeCount) (i64 : nI64 < 0x80000000) (f64 : nF64 < 0x80000000)
    (i32 : nI32 < 0x80000000) :
    ∃ e : Emitter, e.Tracks outCap (moduleBytes body funcType nI64 nF64 nI32) ∧
      wasmEmitWrapModule body funcType nI64 nF64 nI32 outCap =
        ((if e.failed then -1 else (e.buf.length : Int)), e.buf) := by
  let funcSize := (localsBytes nI64 nF64 nI32).length + body.length + 1
  have entrySize : funcSize = (entryBytes body nI64 nF64 nI32).length := by
    rw [entryBytes, List.length_append, List.length_append]
    rfl
  have shdr : (((wasmEmitInit 16).wemitUleb 1).wemitUleb funcSize).buf =
      uleb 9 1 ++ uleb 9 funcSize := by
    refine (((Emitter.tracks_init 16).uleb 1).uleb funcSize).buf ?_
    have one : (uleb 9 1).length = 1 := rfl
    have size := length_uleb_le_more 9 funcSize
    rw [List.nil_append, List.length_append, one]
    omega
  have emitted := (((Emitter.tracks_init outCap).bytes Wasm.header).byte 1
    |>.uleb typeSection.buf.length |>.bytes typeSection.buf
    |>.byte 2 |>.uleb importSection.buf.length |>.bytes importSection.buf
    |>.byte 3 |>.uleb 2 |>.uleb 1 |>.uleb funcType
    |>.byte 7 |>.uleb 5 |>.uleb 1 |>.uleb 1 |>.byte 0x66 |>.byte 0x00 |>.uleb 0
    |>.byte 10 |>.uleb ((uleb 9 1 ++ uleb 9 funcSize).length + funcSize)
    |>.bytes (uleb 9 1 ++ uleb 9 funcSize) |>.bytes (localsBytes nI64 nF64 nI32)
    |>.bytes body |>.byte 0x0b)
  have codeSize : (uleb 9 1 ++ uleb 9 funcSize).length + funcSize =
      (uleb 9 1 ++ sizedBytes (entryBytes body nI64 nF64 nI32)).length := by
    simp only [sizedBytes, List.length_append, ← entrySize]
    omega
  have funcsSize : (uleb 9 1 ++ uleb 9 funcType).length = 2 := by
    have : ∀ t < wtypeCount, (uleb 9 1 ++ uleb 9 t).length = 2 := by decide +kernel
    exact this funcType type_
  have exportsSize :
      (uleb 9 1 ++ uleb 9 1 ++ [(0x66 : UInt8)] ++ [0x00] ++ uleb 9 0).length = 5 := by decide
  refine ⟨_, emitted.congr ?_, ?_⟩
  · rw [codeSize, entrySize, ← funcsSize, ← exportsSize]
    simp only [moduleBytes, sectionBytes, sizedBytes, entryBytes, List.flatten_cons,
      List.flatten_nil, List.append_assoc, List.nil_append, List.append_nil]
  · unfold wasmEmitWrapModule
    rw [localsHeader_buf i64 f64 i32]
    dsimp only
    rw [shdr]
    rfl

/-- The wrapper fails just if the encoding does not fit, and else it returns the encoding's length and
has written the encoding, which stands for the module that is asked for. It never writes more than
the output holds. -/
theorem wrapModule_exact (body : List UInt8) (funcType : Fin wtypeCount)
    (nI64 nF64 nI32 outCap : Fin 0x80000000) :
    let result := wasmEmitWrapModule body funcType nI64 nF64 nI32 outCap
    let encoding := moduleBytes body funcType nI64 nF64 nI32
    (result.1 = -1 ↔ outCap < encoding.length) ∧
      (result.1 ≠ -1 → result = ((encoding.length : Int), encoding) ∧
        Wasm.decodeModule encoding = some (moduleFor body funcType nI64 nF64 nI32)) ∧
      result.2.length ≤ outCap := by
  obtain ⟨e, tracks, result⟩ : ∃ e : Emitter,
      e.Tracks outCap (moduleBytes body funcType nI64 nF64 nI32) ∧
        wasmEmitWrapModule body funcType nI64 nF64 nI32 outCap =
          ((if e.failed then -1 else (e.buf.length : Int)), e.buf) :=
    tracks_wrapModule funcType.2 nI64.2 nF64.2 nI32.2
  dsimp only
  refine ⟨?_, ?_, ?_⟩
  · rw [result, ← tracks.failed]
    rcases state : e.failed
    · refine iff_of_false ?_ Bool.false_ne_true
      simp only [Bool.false_eq_true, if_false]
      omega
    · exact iff_of_true rfl rfl
  · rw [result]
    rcases state : e.failed
    · intro _
      have room := tracks.fits.room
      have cap := outCap.2
      rw [tracks.written state] at room ⊢
      exact ⟨rfl, decode_moduleBytes funcType.2 nI64.2 nF64.2 nI32.2 (by omega)⟩
    · exact fun noFailure => absurd rfl noFailure
  · rw [result]
    exact tracks.fits.room

/-- A module that fits, and does not fit in a byte less. -/
example : (wasmEmitWrapModule [0x01] 0 1 0 2 188).1 = 188 ∧
    (wasmEmitWrapModule [0x01] 0 1 0 2 187).1 = -1 := by decide +kernel

end PCemWeb.Codegen
