import PCemWeb.Codegen.WasmBody

/-!
# What emission leaves

The state after a body is written, in terms of what was written: the bytes, the positions of the
labels, the positions and depths of the branches and the label each branch is bound to.
-/

namespace PCemWeb.Codegen

open PCemWeb.Lib

/-! ## What is written -/

/-- The bytes of what is written to a body. -/
def Emit.bytes : Emit → List UInt8
  | .instr op operands => op :: operands
  | .block => [0x02, 0x40]
  | .loop => [0x03, 0x40]
  | .if_ => [0x04, 0x40]
  | .else_ => [0x05]
  | .end_ => [0x0b]
  | .brPatch isConditional => brOp isConditional :: brPlaceholder
  | .setJumpDest _ => []

def Emit.isBranch : Emit → Bool
  | .brPatch _ => true
  | _ => false

def Emit.isLabel : Emit → Bool
  | .setJumpDest _ => true
  | _ => false

/-- The nesting after a body, if no construct is ended that it does not open and every
destination is at nesting depth 0. -/
def nestFrom : (depth : Nat) → List Emit → Option Nat
  | depth, [] => some depth
  | depth, e :: ops =>
    match e, depth with
    | .block, _ | .loop, _ | .if_, _ => nestFrom (depth + 1) ops
    | .end_, 0 => none
    | .end_, depth + 1 => nestFrom depth ops
    | .setJumpDest _, 0 => nestFrom 0 ops
    | .setJumpDest _, _ + 1 => none
    | .instr _ _, _ | .else_, _ | .brPatch _, _ => nestFrom depth ops

/-- The size of a body. -/
def size (ops : List Emit) : Nat := (ops.flatMap Emit.bytes).length

/-- The number of branches in a body. -/
def branches (ops : List Emit) : Nat := ops.countP Emit.isBranch

/-- Whether the last thing written is a destination, if `bound` tells so of what came before. -/
def boundAfter (bound : Bool) : List Emit → Bool
  | [] => bound
  | e :: ops => boundAfter e.isLabel ops

/-- The positions of the labels in a body from a position on: destinations at one position share
a label. -/
def labelsFrom : (pos : Nat) → (bound : Bool) → List Emit → List Nat
  | _, _, [] => []
  | pos, bound, e :: ops =>
    match e, bound with
    | .setJumpDest _, true => labelsFrom pos true ops
    | .setJumpDest _, false => pos :: labelsFrom pos true ops
    | e, _ => labelsFrom (pos + e.bytes.length) false ops

/-- The positions of the branches' operands. -/
def operandsFrom : (pos : Nat) → List Emit → List Nat
  | _, [] => []
  | pos, e :: ops =>
    if e.isBranch then (pos + 1) :: operandsFrom (pos + e.bytes.length) ops
    else operandsFrom (pos + e.bytes.length) ops

section

variable {xs ys ops : List Emit} {bound : Bool} {pos d n : Nat} {e : Emit}

theorem size_append : size (xs ++ ys) = size xs + size ys := by
  simp only [size, List.flatMap_append, List.length_append]

theorem size_cons : size (e :: ops) = e.bytes.length + size ops := by
  simp only [size, List.flatMap_cons, List.length_append]

theorem branches_append : branches (xs ++ ys) = branches xs + branches ys :=
  List.countP_append

theorem nestFrom_append : nestFrom d (xs ++ ys) = (nestFrom d xs).bind (nestFrom · ys) := by
  induction xs generalizing d with
  | nil => rfl
  | cons e xs ih =>
    rcases e <;> rcases d with _ | d <;> simp only [List.cons_append, nestFrom, ih, Option.bind_none]

theorem boundAfter_append : boundAfter bound (xs ++ ys) = boundAfter (boundAfter bound xs) ys := by
  induction xs generalizing bound with
  | nil => rfl
  | cons e xs ih => exact ih

theorem labelsFrom_append : labelsFrom pos bound (xs ++ ys) =
    labelsFrom pos bound xs ++ labelsFrom (pos + size xs) (boundAfter bound xs) ys := by
  induction xs generalizing pos bound with
  | nil => rfl
  | cons e xs ih =>
    rcases e <;> rcases bound <;>
      simp only [List.cons_append, labelsFrom, ih, boundAfter, Emit.isLabel, size_cons, Emit.bytes,
        Nat.add_assoc, List.length_nil, Nat.zero_add]

theorem labelsFrom_cons (emits : e.isLabel = false) :
    labelsFrom pos bound (e :: ops) = labelsFrom (pos + e.bytes.length) false ops := by
  rcases e
  case setJumpDest => cases emits
  all_goals rfl

theorem bytes_of_isLabel (label : e.isLabel = true) : e.bytes = [] := by
  rcases e
  case setJumpDest => rfl
  all_goals cases label

theorem length_bytes_pos (emits : e.isLabel = false) : 0 < e.bytes.length := by
  rcases e
  case setJumpDest => cases emits
  all_goals exact Nat.succ_pos _

theorem labelsFrom_label (label : e.isLabel = true) : labelsFrom pos bound (e :: ops) =
    if bound then labelsFrom pos true ops else pos :: labelsFrom pos true ops := by
  rcases e
  case setJumpDest => cases bound <;> rfl
  all_goals cases label

/-- A label is made at the position where it is bound. -/
theorem le_of_mem_labelsFrom (label : n ∈ labelsFrom pos bound ops) :
    pos ≤ n ∧ n ≤ pos + size ops := by
  induction ops generalizing pos bound with
  | nil => cases label
  | cons e ops ih =>
    rw [size_cons]
    rcases isLabel : e.isLabel
    case false =>
      rw [labelsFrom_cons isLabel] at label
      have := ih label
      omega
    case true =>
      rw [labelsFrom_label isLabel] at label
      split at label
      · have := ih label
        omega
      · rcases List.mem_cons.mp label with rfl | later
        · omega
        · have := ih later
          omega

/-- Where a label is made already, the next one comes later. -/
theorem lt_of_mem_labelsFrom (label : n ∈ labelsFrom pos true ops) : pos < n := by
  induction ops with
  | nil => cases label
  | cons e ops ih =>
    rcases isLabel : e.isLabel
    case false =>
      rw [labelsFrom_cons isLabel] at label
      have later := (le_of_mem_labelsFrom label).1
      have advanced := length_bytes_pos isLabel
      omega
    case true =>
      rw [labelsFrom_label isLabel, if_pos rfl] at label
      exact ih label

/-- A body that goes on after its labels has them before its end. -/
theorem mem_labelsFrom_lt (goesOn : boundAfter bound ops = false)
    (label : n ∈ labelsFrom pos bound ops) : n < pos + size ops := by
  have positive : ∀ {ops : List Emit}, boundAfter true ops = false → 0 < size ops := by
    intro ops goesOn
    induction ops with
    | nil => cases goesOn
    | cons e ops ih =>
      rw [size_cons]
      rcases isLabel : e.isLabel
      case false =>
        have := length_bytes_pos isLabel
        omega
      case true =>
        have := ih (isLabel ▸ goesOn)
        omega
  induction ops generalizing pos bound with
  | nil => cases label
  | cons e ops ih =>
    rw [boundAfter] at goesOn
    rw [size_cons]
    rcases isLabel : e.isLabel
    case false =>
      rw [labelsFrom_cons isLabel] at label
      have := ih (isLabel ▸ goesOn) label
      omega
    case true =>
      rw [isLabel] at goesOn
      rw [labelsFrom_label isLabel] at label
      split at label
      · have := ih goesOn label
        omega
      · rcases List.mem_cons.mp label with rfl | later
        · have := positive goesOn
          omega
        · have := ih goesOn later
          omega

theorem pairwise_labelsFrom : (labelsFrom pos bound ops).Pairwise (· < ·) := by
  induction ops generalizing pos bound with
  | nil => exact .nil
  | cons e ops ih =>
    rcases isLabel : e.isLabel
    case false =>
      rw [labelsFrom_cons isLabel]
      exact ih
    case true =>
      rw [labelsFrom_label isLabel]
      split
      · exact ih
      · exact List.pairwise_cons.mpr ⟨fun n later => lt_of_mem_labelsFrom later, ih⟩

/-- A construct takes two bytes. -/
theorem nestFrom_le (nested : nestFrom d ops = some n) : n ≤ d + size ops := by
  induction ops generalizing d with
  | nil =>
    cases nested
    exact Nat.le_add_right ..
  | cons e ops ih =>
    rw [size_cons]
    rcases e <;> rcases d with _ | d <;> simp only [nestFrom] at nested
    case end_.zero => cases nested
    case setJumpDest.succ => cases nested
    all_goals
      have := ih nested
      simp only [Emit.bytes, List.length_cons, List.length_nil]
      omega

end

/-! ## The emitter -/

namespace Emitter

variable {e : Emitter} {b : UInt8} {bytes : List UInt8}

/-- A byte is written, or the emitter has failed. -/
theorem wemitByte_buf (ok : (e.wemitByte b).failed = false) :
    e.failed = false ∧ (e.wemitByte b).buf = e.buf ++ [b] := by
  unfold wemitByte at ok ⊢
  split at ok
  · cases ok
  · rename_i room
    exact ⟨ok, by rw [if_neg room]⟩

theorem wemitByte_depth : (e.wemitByte b).depth = e.depth := by
  unfold wemitByte
  split <;> rfl

theorem wemitEach_buf (ok : (e.wemitEach bytes).failed = false) :
    e.failed = false ∧ (e.wemitEach bytes).buf = e.buf ++ bytes := by
  induction bytes generalizing e with
  | nil => exact ⟨ok, (List.append_nil _).symm⟩
  | cons b bytes ih =>
    obtain ⟨ok', rest⟩ := ih ok
    obtain ⟨ok'', first⟩ := wemitByte_buf ok'
    refine ⟨ok'', ?_⟩
    change ((e.wemitByte b).wemitEach bytes).buf = _
    rw [rest, first, List.append_assoc, List.singleton_append]

theorem wemitEach_depth : (e.wemitEach bytes).depth = e.depth := by
  induction bytes generalizing e with
  | nil => rfl
  | cons b bytes ih => exact ih.trans wemitByte_depth

end Emitter

namespace Wjit

variable {w : Wjit} {e : Emit} {ops : List Emit} {i d n : Nat}

/-- Nothing has failed so far. -/
structure Ok (w : Wjit) : Prop where
  emitter : w.bodyEmit.failed = false
  limits : w.emitFailed = false

/-- The length of the body. -/
def pos (w : Wjit) : Nat := w.bodyEmit.buf.length

/-! ## One emission -/

/-- What a successful emission does. -/
structure Emitted (e : Emit) (w w' : Wjit) : Prop where
  ok : w.Ok
  buf : w'.bodyEmit.buf = w.bodyEmit.buf ++ e.bytes
  labels : w'.labels =
    if e.isLabel ∧ w.labels.getLast? ≠ some w.pos then w.labels ++ [w.pos] else w.labels
  patches : w'.patches =
    match e with
    | .brPatch _ => w.patches ++ [⟨w.pos + 1, none, w.bodyEmit.depth⟩]
    | .setJumpDest p => w.patches.modify (p - 1) ({ · with label := some (w'.labels.length - 1) })
    | _ => w.patches
  handle : ∀ p, e = .setJumpDest p → 0 < p ∧ p ≤ w.patches.length

theorem Emitted.of_each {body : Emitter}
    (failed : body.failed = (w.bodyEmit.wemitEach e.bytes).failed)
    (buf : body.buf = (w.bodyEmit.wemitEach e.bytes).buf)
    (label : e.isLabel = false) (branch : e.isBranch = false)
    (ok : Ok { w with bodyEmit := body }) : Emitted e w { w with bodyEmit := body } := by
  obtain ⟨ok', buf'⟩ := Emitter.wemitEach_buf (failed ▸ ok.emitter)
  refine ⟨⟨ok', ok.limits⟩, buf.trans buf', ?_, ?_, ?_⟩
  · rw [if_neg]
    rintro ⟨isLabel, -⟩
    cases label.symm.trans isLabel
  · rcases e
    case brPatch => cases branch
    case setJumpDest => cases label
    all_goals rfl
  · rintro p rfl
    cases label

theorem emitted_brPatch {c : Bool} (ok : (w.wjitEmitBrPatch c).Ok) :
    Emitted (.brPatch c) w (w.wjitEmitBrPatch c) := by
  unfold wjitEmitBrPatch at ok ⊢
  split at ok
  · cases ok.limits
  · rename_i room
    rw [if_neg room]
    obtain ⟨ok', rest⟩ := Emitter.wemitEach_buf ok.emitter
    obtain ⟨ok'', first⟩ := Emitter.wemitByte_buf ok'
    refine ⟨⟨ok'', ok.limits⟩, ?_, ?_, ?_, nofun⟩
    · exact rest.trans (first ▸ List.append_assoc ..)
    · rw [if_neg (by rintro ⟨label, -⟩; cases label)]
    · dsimp only
      rw [first, Emitter.wemitByte_depth, List.length_append]
      rfl

theorem emitted_setJumpDest {p : Nat} (ok : (w.codegenSetJumpDest p).Ok) :
    Emitted (.setJumpDest p) w (w.codegenSetJumpDest p) := by
  unfold codegenSetJumpDest at ok ⊢
  split at ok
  case isTrue => cases ok.limits
  case isFalse valid =>
    rw [if_neg valid]
    have handle : ∀ q, Emit.setJumpDest p = .setJumpDest q → 0 < q ∧ q ≤ w.patches.length := by
      rintro q ⟨⟩
      omega
    split at ok
    case isTrue last =>
      rw [if_pos last]
      refine ⟨⟨ok.emitter, ok.limits⟩, (List.append_nil _).symm, ?_, rfl, handle⟩
      rw [if_neg]
      · rfl
      · rintro ⟨-, other⟩
        exact other last
    case isFalse new =>
      rw [if_neg new]
      split at ok
      case isTrue => cases ok.limits
      case isFalse room =>
        rw [if_neg room]
        refine ⟨⟨ok.emitter, ok.limits⟩, (List.append_nil _).symm, ?_, rfl, handle⟩
        rw [if_pos ⟨rfl, new⟩]
        rfl

theorem emitted_emit (ok : (w.emit e).Ok) : Emitted e w (w.emit e) := by
  rcases e
  case brPatch c => exact emitted_brPatch ok
  case setJumpDest p => exact emitted_setJumpDest ok
  all_goals exact .of_each rfl rfl rfl rfl ok

/-- The nesting that the emitter counts. -/
theorem depth_emit : (w.emit e).bodyEmit.depth = w.bodyEmit.depth +
    match e with
    | .block | .loop | .if_ => 1
    | .end_ => -1
    | _ => 0 := by
  rcases e
  case instr op operands => exact Emitter.wemitEach_depth.trans (Int.add_zero _).symm
  case else_ => exact Emitter.wemitByte_depth.trans (Int.add_zero _).symm
  case brPatch c =>
    simp only [emit, wjitEmitBrPatch, Int.add_zero]
    split
    · rfl
    · exact Emitter.wemitEach_depth.trans Emitter.wemitByte_depth
  case setJumpDest p =>
    simp only [emit, codegenSetJumpDest, Int.add_zero]
    split
    · rfl
    · split
      · rfl
      · split <;> rfl
  all_goals rfl

/-! ## A whole body -/

theorem emitAll_append {more : List Emit} :
    w.emitAll (ops ++ more) = (w.emitAll ops).emitAll more := List.foldl_append

theorem Ok.of_emitAll (ok : (w.emitAll ops).Ok) : w.Ok := by
  induction ops generalizing w with
  | nil => exact ok
  | cons e ops ih => exact (emitted_emit (ih ok)).ok

theorem buf_emitAll (ok : (w.emitAll ops).Ok) :
    (w.emitAll ops).bodyEmit.buf = w.bodyEmit.buf ++ ops.flatMap Emit.bytes := by
  induction ops generalizing w with
  | nil => exact (List.append_nil _).symm
  | cons e ops ih =>
    have rest : (w.emitAll (e :: ops)).bodyEmit.buf = _ := ih ok
    rw [rest, (emitted_emit (Ok.of_emitAll ok)).buf, List.append_assoc, List.flatMap_cons]

theorem pos_emitAll (ok : (w.emitAll ops).Ok) : (w.emitAll ops).pos = w.pos + size ops := by
  rw [pos, buf_emitAll ok, List.length_append]
  rfl

/-- The depth counted is the nesting, when there is one. -/
theorem depth_emitAll (nested : nestFrom d ops = some n) (depth : w.bodyEmit.depth = d) :
    (w.emitAll ops).bodyEmit.depth = n := by
  induction ops generalizing w d with
  | nil =>
    cases nested
    exact depth
  | cons e ops ih =>
    have step := depth_emit (w := w) (e := e)
    change ((w.emit e).emitAll ops).bodyEmit.depth = n
    rcases e <;> rcases d with _ | d <;> simp only [nestFrom] at nested step
    case end_.zero => cases nested
    case setJumpDest.succ => cases nested
    all_goals exact ih nested (by omega)

/-- No label is ahead of the body. -/
def LabelsBehind (w : Wjit) : Prop := ∀ l ∈ w.labels, l ≤ w.pos

/-- Whether the last label is at the body's end. -/
def bound (w : Wjit) : Bool := w.labels.getLast? = some w.pos

theorem labels_emitAll (ok : (w.emitAll ops).Ok) (behind : w.LabelsBehind) :
    (w.emitAll ops).labels = w.labels ++ labelsFrom w.pos w.bound ops := by
  induction ops generalizing w with
  | nil => exact (List.append_nil _).symm
  | cons e ops ih =>
    have emitted := emitted_emit (Ok.of_emitAll (w := w.emit e) ok)
    have pos' : (w.emit e).pos = w.pos + e.bytes.length := by
      rw [pos, emitted.buf, List.length_append]
      rfl
    have labels := emitted.labels
    change ((w.emit e).emitAll ops).labels = _
    rcases isLabel : e.isLabel
    case false =>
      have advanced := length_bytes_pos isLabel
      rw [if_neg (by rw [isLabel]; exact fun both => nomatch both.1)] at labels
      have behind' : (w.emit e).LabelsBehind := by
        intro l inLabels
        rw [labels] at inLabels
        have := behind l inLabels
        omega
      have unbound : (w.emit e).bound = false := by
        rw [bound, labels, pos']
        refine decide_eq_false fun last => ?_
        have := behind _ (List.mem_of_getLast? last)
        omega
      rw [ih ok behind', labels, unbound, pos', labelsFrom_cons isLabel]
    case true =>
      have same : (w.emit e).pos = w.pos := by
        rw [pos', bytes_of_isLabel isLabel]
        rfl
      have bound' : (w.emit e).bound = true := by
        rw [bound, same, labels]
        refine decide_eq_true ?_
        split
        · exact List.getLast?_concat
        · rename_i neither
          by_contra other
          exact neither ⟨isLabel, other⟩
      have behind' : (w.emit e).LabelsBehind := by
        intro l inLabels
        rw [same]
        rw [labels] at inLabels
        split at inLabels
        · rcases List.mem_append.mp inLabels with before | new
          · exact behind l before
          · exact Nat.le_of_eq (List.mem_singleton.mp new)
        · exact behind l inLabels
      rw [ih ok behind', bound', same, labels, labelsFrom_label isLabel]
      by_cases last : w.labels.getLast? = some w.pos
      · rw [if_neg (fun both => both.2 last), bound, decide_eq_true last, if_pos rfl]
      · rw [if_pos ⟨isLabel, last⟩, bound, decide_eq_false last, List.append_assoc]
        rfl

theorem operandPos_modify (patches : List WjitPatch) (i : Nat) (label : Option Nat) :
    (patches.modify i ({ · with label })).map WjitPatch.operandPos =
      patches.map WjitPatch.operandPos := by
  refine List.ext_getElem? fun j => ?_
  rw [List.getElem?_map, List.getElem?_map, List.getElem?_modify]
  rcases patches[j]? with _ | patch
  · rfl
  · dsimp only [Option.map_some]
    split <;> rfl

theorem operands_emitAll (ok : (w.emitAll ops).Ok) :
    (w.emitAll ops).patches.map WjitPatch.operandPos =
      w.patches.map WjitPatch.operandPos ++ operandsFrom w.pos ops := by
  induction ops generalizing w with
  | nil => exact (List.append_nil _).symm
  | cons e ops ih =>
    have emitted := emitted_emit (Ok.of_emitAll (w := w.emit e) ok)
    have pos' : (w.emit e).pos = w.pos + e.bytes.length := by
      rw [pos, emitted.buf, List.length_append]
      rfl
    have patches := emitted.patches
    change ((w.emit e).emitAll ops).patches.map WjitPatch.operandPos = _
    rw [ih ok, pos', patches]
    rcases e
    case brPatch c => simp [operandsFrom, Emit.isBranch]
    case setJumpDest p =>
      dsimp only
      rw [operandPos_modify]
      rfl
    all_goals rfl

theorem length_patches_emitAll (ok : (w.emitAll ops).Ok) :
    (w.emitAll ops).patches.length = w.patches.length + branches ops := by
  have operands : ∀ (ops : List Emit) (pos : Nat), (operandsFrom pos ops).length = branches ops := by
    intro ops
    induction ops with
    | nil => exact fun _ => rfl
    | cons e ops ih =>
      intro pos
      rw [operandsFrom, branches, List.countP_cons]
      split
      · exact congrArg (· + 1) (ih _)
      · exact ih _
  rw [← List.length_map (f := WjitPatch.operandPos), operands_emitAll ok, List.length_append,
    List.length_map, operands]

/-- A patch keeps its position and its nesting. -/
theorem patch_emitAll (ok : (w.emitAll ops).Ok) {patch : WjitPatch}
    (made : w.patches[i]? = some patch) :
    ∃ label, (w.emitAll ops).patches[i]? = some { patch with label } := by
  induction ops generalizing w patch with
  | nil => exact ⟨patch.label, made⟩
  | cons e ops ih =>
    have emitted := emitted_emit (Ok.of_emitAll (w := w.emit e) ok)
    have patches := emitted.patches
    have kept : ∃ label, (w.emit e).patches[i]? = some { patch with label } := by
      rw [patches]
      rcases e
      case brPatch c =>
        refine ⟨patch.label, ?_⟩
        rw [List.getElem?_append_left (List.getElem?_eq_some_iff.mp made).1]
        exact made
      case setJumpDest p =>
        dsimp only
        simp only [List.getElem?_modify, made, Option.map_eq_map, Option.map_some]
        split
        · exact ⟨_, rfl⟩
        · exact ⟨patch.label, rfl⟩
      all_goals exact ⟨patch.label, made⟩
    obtain ⟨label, kept⟩ := kept
    obtain ⟨label', result⟩ := ih ok kept
    exact ⟨label', result⟩

/-- A patch keeps its label until it is bound again. -/
theorem label_emitAll (ok : (w.emitAll ops).Ok) {patch : WjitPatch}
    (made : w.patches[i]? = some patch) (unbound : Emit.setJumpDest (i + 1) ∉ ops) :
    (w.emitAll ops).patches[i]? = some patch := by
  induction ops generalizing w with
  | nil => exact made
  | cons e ops ih =>
    have emitted := emitted_emit (Ok.of_emitAll (w := w.emit e) ok)
    have patches := emitted.patches
    refine ih ok ?_ fun later => unbound (.tail _ later)
    rw [patches]
    rcases e
    case brPatch c =>
      rw [List.getElem?_append_left (List.getElem?_eq_some_iff.mp made).1]
      exact made
    case setJumpDest p =>
      obtain ⟨positive, -⟩ := emitted.handle p rfl
      have other : p - 1 ≠ i := by
        rintro rfl
        exact unbound (by rw [Nat.sub_add_cancel positive]; exact .head _)
      rw [List.getElem?_modify_ne _ _ other]
      exact made
    all_goals exact made

end Wjit

end PCemWeb.Codegen
