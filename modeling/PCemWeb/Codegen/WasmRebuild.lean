import PCemWeb.Codegen.WasmEmission

/-!
# The bytes of the rewritten body

The rewriting never runs out of room, and what it gives is the body's bytes in their order, with
five bytes of its own for each branch's operand and one more for each label.
-/

namespace PCemWeb.Codegen

open PCemWeb.Lib

/-! ## Limits -/

namespace Emitter

variable {e : Emitter} {b : UInt8} {bytes : List UInt8}

/-- The emitter stays in its buffer. -/
structure Fits (limit : Nat) (e : Emitter) : Prop where
  cap : e.cap = limit
  room : e.buf.length ≤ limit

theorem Fits.wemitByte {limit : Nat} (fits : e.Fits limit) : (e.wemitByte b).Fits limit := by
  obtain ⟨same, room⟩ := fits
  unfold Emitter.wemitByte
  split
  · exact ⟨same, room⟩
  · refine ⟨same, ?_⟩
    rw [List.length_append, List.length_singleton]
    omega

theorem Fits.wemitEach {limit : Nat} (fits : e.Fits limit) : (e.wemitEach bytes).Fits limit := by
  induction bytes generalizing e with
  | nil => exact fits
  | cons b bytes ih => exact ih fits.wemitByte

theorem Fits.with_depth {limit : Nat} (fits : e.Fits limit) (depth : Int) :
    Fits limit { e with depth } := ⟨fits.cap, fits.room⟩

end Emitter

namespace Wjit

variable {w : Wjit} {ops : List Emit}

/-- The limits of the emission state. -/
structure Limits (w : Wjit) : Prop where
  body : w.bodyEmit.Fits wjitBodyCap
  labels : w.labels.length ≤ wjitMaxLabels

theorem Limits.emit (limits : w.Limits) (e : Emit) : (w.emit e).Limits := by
  obtain ⟨body, labels⟩ := limits
  rcases e
  case instr => exact ⟨body.wemitEach, labels⟩
  case else_ => exact ⟨body.wemitByte, labels⟩
  case end_ => exact ⟨body.wemitByte.with_depth _, labels⟩
  case brPatch c =>
    simp only [Wjit.emit, wjitEmitBrPatch]
    split
    · exact ⟨body, labels⟩
    · exact ⟨body.wemitByte.wemitEach, labels⟩
  case setJumpDest p =>
    simp only [Wjit.emit, codegenSetJumpDest]
    split
    · exact ⟨body, labels⟩
    · split
      · exact ⟨body, labels⟩
      · split
        · exact ⟨body, labels⟩
        · refine ⟨body, ?_⟩
          simp only [bind, List.length_append, List.length_singleton]
          omega
  all_goals exact ⟨body.wemitByte.wemitByte.with_depth _, labels⟩

theorem Limits.emitAll (limits : w.Limits) : (w.emitAll ops).Limits := by
  induction ops generalizing w with
  | nil => exact limits
  | cons e ops ih => exact ih (limits.emit e)

/-! ## The operand of a branch -/

theorem length_leb5 (depth : Int) : (leb5 depth).length = 5 := rfl

theorem leb5_bits (n shift : Nat) : (((n : Int) >>> shift) % 128).toNat = n >>> shift % 128 := rfl

/-- A depth is written as a five-byte number. -/
theorem leb5_natCast (n : Nat) : leb5 n = paddedUleb 4 n := by
  have continued : ∀ x < 128, (0x80 : UInt8) ||| UInt8.ofNat x = UInt8.ofNat (128 + x) := by
    decide +kernel
  have low (x : Nat) : (0x80 : UInt8) ||| UInt8.ofNat (x % 128) = UInt8.ofNat (128 + x % 128) :=
    continued _ (Nat.mod_lt _ (by decide))
  simp only [leb5, leb5_bits, low, paddedUleb, Nat.shiftRight_eq_div_pow,
    Nat.div_div_eq_div_mul, Nat.reducePow, Nat.reduceMul, Nat.div_one]

/-! ## The patched body -/

/-- The bytes of a body with operands for its branches. -/
def patched : (operands : List (List UInt8)) → List Emit → List UInt8
  | _, [] => []
  | operands, .brPatch c :: ops => brOp c :: operands.headD [] ++ patched operands.tail ops
  | operands, e :: ops => e.bytes ++ patched operands ops

theorem patched_cons {e : Emit} {operands : List (List UInt8)} {ops : List Emit}
    (branch : e.isBranch = false) : patched operands (e :: ops) = e.bytes ++ patched operands ops := by
  rcases e
  case brPatch => cases branch
  all_goals rfl

theorem writeAt_append {done old new rest : List UInt8} (same : new.length = old.length) :
    writeAt (done ++ old ++ rest) done.length new = done ++ new ++ rest := by
  rw [writeAt, same, ← List.length_append, List.drop_left, List.append_assoc done, List.take_left]

/-- The branches are patched in their order. -/
theorem foldl_writeAt {leb : WjitPatch → List UInt8} {patches : List WjitPatch} {ops : List Emit}
    {done : List UInt8} (five : ∀ p, (leb p).length = 5)
    (operands : patches.map WjitPatch.operandPos = operandsFrom done.length ops) :
    patches.foldl (fun buf p => writeAt buf p.operandPos (leb p)) (done ++ ops.flatMap Emit.bytes) =
      done ++ patched (patches.map leb) ops := by
  induction ops generalizing patches done with
  | nil =>
    rw [List.map_eq_nil_iff.mp operands]
    rfl
  | cons e ops ih =>
    rcases branch : e.isBranch
    case false =>
      rw [operandsFrom, branch, if_neg Bool.false_ne_true, ← List.length_append] at operands
      rw [List.flatMap_cons, ← List.append_assoc, ih operands, patched_cons branch,
        List.append_assoc]
    case true =>
      obtain ⟨c, rfl⟩ : ∃ c, e = .brPatch c := by
        rcases e
        case brPatch c => exact ⟨c, rfl⟩
        all_goals cases branch
      rw [operandsFrom, branch, if_pos rfl] at operands
      obtain ⟨p, patches, rfl, first, others⟩ := List.map_eq_cons_iff.mp operands
      have position : p.operandPos = (done ++ [brOp c]).length := by
        rw [first, List.length_append, List.length_singleton]
      have start : done ++ (Emit.brPatch c :: ops).flatMap Emit.bytes =
          done ++ [brOp c] ++ brPlaceholder ++ ops.flatMap Emit.bytes := by
        simp only [List.flatMap_cons, Emit.bytes, List.cons_append, List.append_assoc,
          List.nil_append]
      rw [List.foldl_cons, start, position, writeAt_append (five p), ih]
      · simp only [patched, List.map_cons, List.headD_cons, List.tail_cons, List.append_assoc,
          List.cons_append, List.nil_append]
      · rw [others]
        congr 1
        simp only [List.length_append, five, List.length_singleton]
        rfl

/-! ## The rebuilt body -/

/-- An emitter after some bytes are written to another, with no failure. -/
structure Wrote (bytes : List UInt8) (f g : Emitter) : Prop where
  ok : g.failed = false
  buf : g.buf = f.buf ++ bytes
  cap : g.cap = f.cap

theorem Wrote.trans {xs ys : List UInt8} {f g h : Emitter} (first : Wrote xs f g)
    (second : Wrote ys g h) : Wrote (xs ++ ys) f h :=
  ⟨second.ok, by rw [second.buf, first.buf, List.append_assoc], second.cap.trans first.cap⟩

theorem wrote_wemitBytes {f : Emitter} {bytes : List UInt8} (ok : f.failed = false)
    (room : f.buf.length + bytes.length ≤ f.cap) : Wrote bytes f (f.wemitBytes bytes) := by
  unfold Emitter.wemitBytes
  rw [if_neg (by omega)]
  exact ⟨ok, rfl, rfl⟩

theorem wrote_wemitByte {f : Emitter} {b : UInt8} (ok : f.failed = false)
    (room : f.buf.length + 1 ≤ f.cap) : Wrote [b] f (f.wemitByte b) := by
  unfold Emitter.wemitByte
  rw [if_neg (by omega)]
  exact ⟨ok, rfl, rfl⟩

theorem wrote_wemitEnd {f : Emitter} (ok : f.failed = false) (room : f.buf.length + 1 ≤ f.cap) :
    Wrote [0x0b] f f.wemitEnd :=
  have wrote := wrote_wemitByte (b := 0x0b) ok room
  ⟨wrote.ok, wrote.buf, wrote.cap⟩

theorem wrote_wemitBlock {f : Emitter} (ok : f.failed = false) (room : f.buf.length + 2 ≤ f.cap) :
    Wrote [0x02, 0x40] f f.wemitBlock := by
  have first := wrote_wemitByte (b := 0x02) ok (Nat.le_of_succ_le room)
  have length : (f.wemitByte 0x02).buf.length = f.buf.length + 1 := by
    rw [first.buf, List.length_append, List.length_singleton]
  have second := wrote_wemitByte (b := 0x40) first.ok (by rw [length, first.cap]; exact room)
  have both := first.trans second
  exact ⟨both.ok, both.buf, both.cap⟩

/-- The blocks at the start. -/
theorem wrote_blocks {labels : List Nat} {f : Emitter} (ok : f.failed = false)
    (room : f.buf.length + 2 * labels.length ≤ f.cap) :
    Wrote (labels.flatMap fun _ => [0x02, 0x40]) f (labels.foldl (fun f _ => f.wemitBlock) f) := by
  induction labels generalizing f with
  | nil => exact ⟨ok, (List.append_nil _).symm, rfl⟩
  | cons l labels ih =>
    rw [List.length_cons] at room
    have block := wrote_wemitBlock ok (by omega)
    have length : f.wemitBlock.buf.length = f.buf.length + 2 := by
      rw [block.buf, List.length_append]
      rfl
    exact block.trans (ih block.ok (by rw [length, block.cap]; omega))

/-- The bytes of a body with operands for its branches and an end for each label. -/
def rebuilt : (operands : List (List UInt8)) → (bound : Bool) → List Emit → List UInt8
  | _, _, [] => []
  | operands, bound, e :: ops =>
    match e, bound with
    | .setJumpDest _, true => rebuilt operands true ops
    | .setJumpDest _, false => 0x0b :: rebuilt operands true ops
    | .brPatch c, _ => brOp c :: operands.headD [] ++ rebuilt operands.tail false ops
    | e, _ => e.bytes ++ rebuilt operands false ops

/-- An instruction has the same bytes in both, with the first operand if it is a branch. -/
theorem exists_piece {e : Emit} {ops : List Emit} {operands : List (List UInt8)}
    (emits : e.isLabel = false) (count : operands.length = branches (e :: ops))
    (five : ∀ o ∈ operands, o.length = 5) :
    ∃ piece operands', piece.length = e.bytes.length ∧
      patched operands (e :: ops) = piece ++ patched operands' ops ∧
      (∀ bound, rebuilt operands bound (e :: ops) = piece ++ rebuilt operands' false ops) ∧
      operands'.length = branches ops ∧ ∀ o ∈ operands', o.length = 5 := by
  rw [branches, List.countP_cons] at count
  rcases e
  case brPatch c =>
    obtain _ | ⟨first, operands⟩ := operands
    · simp [Emit.isBranch] at count
    refine ⟨brOp c :: first, operands, ?_, rfl, fun _ => rfl, Nat.succ_inj.mp count,
      fun o later => five o (.tail _ later)⟩
    rw [List.length_cons, five first (.head _)]
    rfl
  case setJumpDest => cases emits
  all_goals exact ⟨_, operands, rfl, rfl, fun _ => rfl, count, five⟩

theorem length_patched {operands : List (List UInt8)} {ops : List Emit}
    (count : operands.length = branches ops) (five : ∀ o ∈ operands, o.length = 5) :
    (patched operands ops).length = size ops := by
  induction ops generalizing operands with
  | nil => rfl
  | cons e ops ih =>
    rcases isLabel : e.isLabel
    case false =>
      obtain ⟨piece, operands', length, same, -, count', five'⟩ := exists_piece isLabel count five
      rw [same, List.length_append, length, ih count' five', size_cons]
    case true =>
      rcases e
      case setJumpDest p => exact ih count five
      all_goals cases isLabel

/-- The copying keeps up with the labels; `chunk` is the part since the last one. -/
theorem wrote_rebuildFrom {ops : List Emit} {operands : List (List UInt8)} {bound : Bool}
    {body before chunk : List UInt8} {pos : Nat} {f : Emitter}
    (split : body = before ++ chunk ++ patched operands ops)
    (count : operands.length = branches ops) (five : ∀ o ∈ operands, o.length = 5)
    (reached : pos = (before ++ chunk).length) (ok : f.failed = false)
    (room : f.buf.length + chunk.length + size ops + (labelsFrom pos bound ops).length ≤ f.cap) :
    Wrote (chunk ++ rebuilt operands bound ops) f
      (rebuildFrom body before.length f (labelsFrom pos bound ops)) := by
  induction ops generalizing before chunk operands bound pos f with
  | nil =>
    have rest : body.drop before.length = chunk := by
      rw [split, patched, List.append_nil, List.drop_left]
    rw [labelsFrom, rebuildFrom, rest, rebuilt, List.append_nil]
    exact wrote_wemitBytes ok (by omega)
  | cons e ops ih =>
    rw [size_cons] at room
    rcases isLabel : e.isLabel
    case false =>
      obtain ⟨piece, operands', length, same, same', count', five'⟩ :=
        exists_piece isLabel count five
      rw [labelsFrom_cons isLabel] at room ⊢
      rw [same'] at *
      rw [← List.append_assoc]
      have bytes : (chunk ++ piece).length = chunk.length + e.bytes.length := by
        rw [List.length_append, length]
      refine ih ?_ count' five' ?_ ok (by omega)
      · rw [split, same]
        simp only [List.append_assoc]
      · rw [reached, ← List.append_assoc, ← length, ← List.length_append]
    case true =>
      obtain ⟨p, rfl⟩ : ∃ p, e = .setJumpDest p := by
        rcases e
        case setJumpDest p => exact ⟨p, rfl⟩
        all_goals cases isLabel
      rw [labelsFrom_label rfl] at room ⊢
      rcases bound
      case true =>
        rw [if_pos rfl] at room ⊢
        exact ih split count five reached ok (by simpa [Emit.bytes] using room)
      case false =>
        rw [if_neg Bool.false_ne_true] at room ⊢
        rw [List.length_cons] at room
        have copied : (body.drop before.length).take (pos - before.length) = chunk := by
          have length : pos - before.length = chunk.length := by
            rw [reached, List.length_append, Nat.add_sub_cancel_left]
          rw [split, List.append_assoc, List.drop_left, length, List.take_left]
        rw [rebuildFrom, copied]
        have copy : Wrote chunk f (f.wemitBytes chunk) := wrote_wemitBytes ok (by omega)
        have size' : (f.wemitBytes chunk).buf.length = f.buf.length + chunk.length := by
          rw [copy.buf, List.length_append]
        have ended := wrote_wemitEnd copy.ok (by rw [size', copy.cap]; omega)
        have size'' : (f.wemitBytes chunk).wemitEnd.buf.length =
            f.buf.length + chunk.length + 1 := by
          rw [ended.buf, List.length_append, size']
          rfl
        have both := copy.trans ended
        have rest : Wrote ([] ++ rebuilt operands true ops) (f.wemitBytes chunk).wemitEnd
            (rebuildFrom body (before ++ chunk).length (f.wemitBytes chunk).wemitEnd
              (labelsFrom pos true ops)) := by
          refine ih ?_ count five ?_ both.ok ?_
          · rw [split, List.append_nil]
            rfl
          · rw [reached, List.append_nil]
          · rw [size'', both.cap, List.length_nil]
            omega
        rw [← reached] at rest
        have all := both.trans rest
        rw [List.append_assoc] at all
        exact all

/-! ## The rewriting of a body -/

/-- The state after a body is written to an empty one. -/
def written (ops : List Emit) : Wjit := prologue.emitAll ops

theorem limits_written (ops : List Emit) : (written ops).Limits :=
  Limits.emitAll ⟨⟨rfl, Nat.zero_le _⟩, Nat.zero_le _⟩

theorem labels_written (ok : (written ops).Ok) : (written ops).labels = labelsFrom 0 false ops :=
  labels_emitAll ok nofun

theorem buf_written (ok : (written ops).Ok) :
    (written ops).bodyEmit.buf = ops.flatMap Emit.bytes := buf_emitAll ok

/-- The operands that the branches get. -/
def operands (ops : List Emit) : List (List UInt8) :=
  (written ops).patches.map fun p => leb5 ((written ops).depthOf p)

theorem length_operands (ok : (written ops).Ok) : (operands ops).length = branches ops := by
  rw [operands, List.length_map]
  exact (length_patches_emitAll ok).trans (Nat.zero_add _)

theorem patchAll_written (ok : (written ops).Ok) :
    (written ops).patchAll = patched (operands ops) ops := by
  have positions := operands_emitAll ok
  rw [patchAll, buf_written ok]
  exact foldl_writeAt (fun _ => rfl) positions

/-- The rewriting succeeds if every patch is bound. -/
theorem restructure_written (ok : (written ops).Ok) : (written ops).restructure =
    if (written ops).patches.any (·.label.isNone) then none
    else some ((labelsFrom 0 false ops).flatMap (fun _ => [0x02, 0x40]) ++
      rebuilt (operands ops) false ops) := by
  have labels := labels_written ok
  have few := (limits_written ops).labels
  have room := (limits_written ops).body.room
  rw [buf_written ok] at room
  change size ops ≤ wjitBodyCap at room
  rw [labels] at few
  have five : ∀ o ∈ operands ops, o.length = 5 := by
    intro o isOperand
    obtain ⟨p, -, rfl⟩ := List.mem_map.mp isOperand
    rfl
  have caps : wjitFinalCap = wjitBodyCap + 0x10000 ∧ wjitMaxLabels = 4112 := ⟨rfl, rfl⟩
  have blocks : Wrote ((labelsFrom 0 false ops).flatMap fun _ => [0x02, 0x40])
      (wasmEmitInit wjitFinalCap)
      ((labelsFrom 0 false ops).foldl (fun f _ => f.wemitBlock) (wasmEmitInit wjitFinalCap)) :=
    wrote_blocks rfl (by simp only [wasmEmitInit, List.length_nil]; omega)
  have length : ((labelsFrom 0 false ops).flatMap fun _ => [(0x02 : UInt8), 0x40]).length =
      2 * (labelsFrom 0 false ops).length := by
    simp [List.length_flatMap, Nat.mul_comm]
  have copied : Wrote ([] ++ rebuilt (operands ops) false ops)
      ((labelsFrom 0 false ops).foldl (fun f _ => f.wemitBlock) (wasmEmitInit wjitFinalCap))
      (rebuildFrom (written ops).patchAll ([] : List UInt8).length
        ((labelsFrom 0 false ops).foldl (fun f _ => f.wemitBlock) (wasmEmitInit wjitFinalCap))
        (labelsFrom 0 false ops)) := by
    refine wrote_rebuildFrom (patchAll_written ok) (length_operands ok) five rfl blocks.ok ?_
    rw [blocks.buf, blocks.cap]
    simp only [wasmEmitInit, List.length_append, length, List.length_nil]
    omega
  have all := blocks.trans copied
  rw [List.length_nil] at all
  unfold restructure
  split
  · rfl
  · have ascending : (written ops).labels.IsChain (· < ·) := by
      rw [labels]
      exact pairwise_labelsFrom.isChain
    rw [if_neg (not_not.mpr ascending), rebuild, labels]
    dsimp only
    rw [if_neg (by rw [all.ok]; exact Bool.false_ne_true)]
    exact congrArg some all.buf

end Wjit

end PCemWeb.Codegen
