import Mathlib.Data.List.Induction
import PCemWeb.Codegen.WasmRebuild

/-!
# The rewritten body

The rewriting turns a body into code in which every branch goes to its own label, if destinations
are at nesting depth 0, which the uop handlers see to by ending what they open. Nothing in the
rewriting itself checks it.
-/

namespace PCemWeb.Codegen

open PCemWeb.Lib

/-! ## The code -/

/-- A token of the rewritten body. -/
inductive Token
  | instr (op : UInt8) (operands : List UInt8)
  | block
  | loop
  | if_
  | else_
  | end_
  | br (isConditional : Bool) (depth : Nat)
  | labelBlock
  | labelEnd
  deriving DecidableEq

namespace Token

/-- The binary form; a branch depth is a five-byte number. -/
def encode : Token → List UInt8
  | instr op operands => op :: operands
  | block | labelBlock => [0x02, 0x40]
  | loop => [0x03, 0x40]
  | if_ => [0x04, 0x40]
  | else_ => [0x05]
  | end_ | labelEnd => [0x0b]
  | br isConditional depth => brOp isConditional :: paddedUleb 4 depth

def shape : Token → Shape
  | block | labelBlock | if_ => .opens
  | loop => .loops
  | end_ | labelEnd => .closes
  | instr _ _ | else_ | br _ _ => .plain

/-- What was written to the body for the token; the labels' blocks were not. -/
def source : Token → Option Emit
  | instr op operands => some (.instr op operands)
  | block => some .block
  | loop => some .loop
  | if_ => some .if_
  | else_ => some .else_
  | end_ => some .end_
  | br isConditional _ => some (.brPatch isConditional)
  | labelBlock | labelEnd => none

end Token

/-- The instructions of a body. -/
def instructions (ops : List Emit) : List Emit := ops.filter (!·.isLabel)

/-- Code made of the body's instructions in their order, in which the branch of every patch goes
to the instructions after the destination that the patch was last bound to. -/
structure Restructured (ops : List Emit) (code : List Token) : Prop where
  instructions : code.filterMap Token.source = instructions ops
  operands : ∀ c depth, .br c depth ∈ code → depth < 0x100000000 ∧
    ∀ rest, decodeUleb (paddedUleb 4 depth ++ rest) = some (depth, rest)
  targets : ∀ pre c mid tail,
    ops = pre ++ .brPatch c :: mid ++ .setJumpDest (branches pre + 1) :: tail →
    .setJumpDest (branches pre + 1) ∉ tail →
    ∃ before depth after rest, code = before ++ .br c depth :: after ∧
      before.filterMap Token.source = PCemWeb.Codegen.instructions pre ∧
      branchTarget Token.shape before (.br c depth) after depth = some rest ∧
      rest.filterMap Token.source = PCemWeb.Codegen.instructions tail ∧
      ∃ skipped, after = skipped ++ .labelEnd :: rest

/-! ## The code of a body -/

/-- A token for each instruction, and an end for each label. -/
def render : (depths : List Nat) → (bound : Bool) → List Emit → List Token
  | _, _, [] => []
  | depths, bound, e :: ops =>
    match e, bound with
    | .instr op operands, _ => .instr op operands :: render depths false ops
    | .block, _ => .block :: render depths false ops
    | .loop, _ => .loop :: render depths false ops
    | .if_, _ => .if_ :: render depths false ops
    | .else_, _ => .else_ :: render depths false ops
    | .end_, _ => .end_ :: render depths false ops
    | .brPatch c, _ => .br c (depths.headD 0) :: render depths.tail false ops
    | .setJumpDest _, true => render depths true ops
    | .setJumpDest _, false => .labelEnd :: render depths true ops

section

variable {xs ys ops : List Emit} {depths : List Nat} {bound : Bool} {pos d n : Nat}

theorem render_append : render depths bound (xs ++ ys) =
    render depths bound xs ++ render (depths.drop (branches xs)) (boundAfter bound xs) ys := by
  induction xs generalizing depths bound with
  | nil => rfl
  | cons e xs ih =>
    have count : branches (e :: xs) = branches xs + if e.isBranch then 1 else 0 :=
      List.countP_cons
    rcases e <;> rcases bound <;>
      simp [List.cons_append, render, ih, boundAfter, Emit.isLabel, count, Emit.isBranch]

theorem source_render : (render depths bound ops).filterMap Token.source = instructions ops := by
  induction ops generalizing depths bound with
  | nil => rfl
  | cons e ops ih =>
    rw [instructions, List.filter_cons]
    rcases e <;> rcases bound <;>
      simp only [render, List.filterMap_cons, Token.source, Emit.isLabel, Bool.not_false,
        Bool.not_true, if_true, Bool.false_eq_true, if_false, ih, instructions]

/-- The labels' ends take the nesting down to that of the body. -/
theorem nest_render (nested : nestFrom d ops = some n) :
    nest Token.shape (d + (labelsFrom pos bound ops).length) (render depths bound ops) = some n := by
  induction ops generalizing d pos bound depths with
  | nil => exact nested
  | cons e ops ih =>
    rcases e
    case setJumpDest p =>
      rcases d with _ | d <;> simp only [nestFrom] at nested
      case succ => cases nested
      rcases bound
      case true => exact ih nested
      case false =>
        simp only [labelsFrom, render, List.length_cons, ← Nat.add_assoc, nest, Token.shape]
        exact ih nested
    case end_ =>
      rcases d with _ | d <;> simp only [nestFrom] at nested
      case zero => cases nested
      have shift (length : Nat) : d + 1 + length = d + length + 1 := Nat.add_right_comm d 1 length
      simp only [labelsFrom, render]
      rw [shift]
      exact ih nested
    all_goals
      simp only [nestFrom] at nested
      simp only [labelsFrom, render, nest, Token.shape]
    case block => exact Nat.add_right_comm .. ▸ ih nested
    case loop => exact Nat.add_right_comm .. ▸ ih nested
    case if_ => exact Nat.add_right_comm .. ▸ ih nested
    all_goals exact ih nested

/-! ## Destinations at one position -/

/-- A destination is at the position of a label made there, or makes one. -/
theorem exists_label (mid : List Emit) (p : Nat) : ∃ mid' q dups,
    mid ++ [.setJumpDest p] = mid' ++ .setJumpDest q :: dups ∧ boundAfter false mid' = false ∧
      ∀ e ∈ dups, e.isLabel = true := by
  induction mid using List.reverseRecOn generalizing p with
  | nil => exact ⟨[], p, [], rfl, rfl, nofun⟩
  | append_singleton mid e ih =>
    rcases isLabel : e.isLabel
    case false =>
      refine ⟨mid ++ [e], p, [], rfl, ?_, nofun⟩
      rw [boundAfter_append]
      exact isLabel
    case true =>
      obtain ⟨q, rfl⟩ : ∃ q, e = .setJumpDest q := by
        rcases e
        case setJumpDest q => exact ⟨q, rfl⟩
        all_goals cases isLabel
      obtain ⟨mid', q', dups, split, goesOn, labels⟩ := ih q
      refine ⟨mid', q', dups ++ [.setJumpDest p], ?_, goesOn, fun e inDups => ?_⟩
      · rw [split, List.append_assoc]
        rfl
      · rcases List.mem_append.mp inDups with before | last
        · exact labels e before
        · rw [List.mem_singleton.mp last]
          rfl

section

variable {dups : List Emit} (labels : ∀ e ∈ dups, e.isLabel = true)
include labels

theorem labelsFrom_dups : labelsFrom pos true (dups ++ ys) = labelsFrom pos true ys := by
  induction dups with
  | nil => rfl
  | cons e dups ih =>
    rw [List.cons_append, labelsFrom_label (labels e (.head _)), if_pos rfl]
    exact ih fun e inDups => labels e (.tail _ inDups)

theorem render_dups : render depths true (dups ++ ys) = render depths true ys := by
  induction dups with
  | nil => rfl
  | cons e dups ih =>
    have isLabel := labels e (.head _)
    rcases e
    case setJumpDest p => exact ih fun e inDups => labels e (.tail _ inDups)
    all_goals cases isLabel

theorem instructions_dups : instructions (dups ++ ys) = instructions ys := by
  rw [instructions, List.filter_append, List.filter_eq_nil_iff.mpr, List.nil_append, instructions]
  intro e inDups
  rw [labels e inDups]
  exact Bool.false_ne_true

end

/-! ## The label of a branch -/

/-- The labels before a branch, between it and its label, that label, and those after it. -/
theorem labels_split {pre mid post : List Emit} {c : Bool} {q : Nat}
    (goesOn : boundAfter false mid = false) :
    labelsFrom 0 false (pre ++ .brPatch c :: mid ++ .setJumpDest q :: post) =
      labelsFrom 0 false pre ++ labelsFrom (size pre + 6) false mid ++
        (size pre + 6 + size mid) :: labelsFrom (size pre + 6 + size mid) true post := by
  have bytes : size (pre ++ .brPatch c :: mid) = size pre + 6 + size mid := by
    rw [size_append, size_cons, ← Nat.add_assoc]
    rfl
  have bound : boundAfter false (pre ++ .brPatch c :: mid) = false := by
    rw [boundAfter_append]
    exact goesOn
  have branch : labelsFrom (0 + size pre) (boundAfter false pre) (.brPatch c :: mid) =
      labelsFrom (size pre + 6) false mid := by
    rw [Nat.zero_add]
    exact labelsFrom_cons rfl
  rw [labelsFrom_append, labelsFrom_append, bound, bytes, branch, Nat.zero_add, labelsFrom_label rfl,
    if_neg Bool.false_ne_true]

/-- The labels strictly between a branch and its label. -/
theorem countP_labels {pre mid post : List Emit} (goesOn : boundAfter false mid = false) :
    (labelsFrom 0 false pre ++ labelsFrom (size pre + 6) false mid ++
      (size pre + 6 + size mid) :: labelsFrom (size pre + 6 + size mid) true post).countP
        (fun n => size pre + 1 < n ∧ n < size pre + 6 + size mid) =
      (labelsFrom (size pre + 6) false mid).length := by
  have before : (labelsFrom 0 false pre).countP
      (fun n => size pre + 1 < n ∧ n < size pre + 6 + size mid) = 0 := by
    refine List.countP_eq_zero.mpr fun n inPre => ?_
    have := (le_of_mem_labelsFrom inPre).2
    simp only [decide_eq_true_eq]
    omega
  have between : (labelsFrom (size pre + 6) false mid).countP
      (fun n => size pre + 1 < n ∧ n < size pre + 6 + size mid) =
        (labelsFrom (size pre + 6) false mid).length := by
    refine List.countP_eq_length.mpr fun n inMid => ?_
    have first := (le_of_mem_labelsFrom inMid).1
    have last := mem_labelsFrom_lt goesOn inMid
    simp only [decide_eq_true_eq]
    omega
  have after : ((size pre + 6 + size mid) :: labelsFrom (size pre + 6 + size mid) true post).countP
      (fun n => size pre + 1 < n ∧ n < size pre + 6 + size mid) = 0 := by
    refine List.countP_eq_zero.mpr fun n inPost => ?_
    have : size pre + 6 + size mid ≤ n := by
      rcases List.mem_cons.mp inPost with rfl | later
      · exact Nat.le_refl _
      · exact (le_of_mem_labelsFrom later).1
    simp only [decide_eq_true_eq]
    omega
  rw [List.countP_append, List.countP_append, before, between, after, Nat.zero_add, Nat.add_zero]

end

namespace Wjit

variable {ops pre mid tail : List Emit} {c : Bool} {e : Nat}

theorem written_append {more : List Emit} : written (ops ++ more) = (written ops).emitAll more :=
  emitAll_append

theorem Ok.emitAll {more : List Emit} (ok : (written (ops ++ more)).Ok) :
    ((written ops).emitAll more).Ok := written_append ▸ ok

theorem Ok.of_append {more : List Emit} (ok : (written (ops ++ more)).Ok) : (written ops).Ok :=
  Ok.of_emitAll (ok.emitAll)

/-- A patch for each branch. -/
theorem exists_branch {i : Nat} (lt : i < branches ops) :
    ∃ pre c tail, ops = pre ++ .brPatch c :: tail ∧ branches pre = i := by
  induction ops generalizing i with
  | nil => cases lt
  | cons e ops ih =>
    rw [branches, List.countP_cons] at lt
    rcases branch : e.isBranch
    case false =>
      rw [branch] at lt
      obtain ⟨pre, c, tail, rfl, count⟩ := ih lt
      refine ⟨e :: pre, c, tail, rfl, ?_⟩
      rw [branches, List.countP_cons, branch]
      exact count
    case true =>
      obtain ⟨c, rfl⟩ : ∃ c, e = .brPatch c := by
        rcases e
        case brPatch c => exact ⟨c, rfl⟩
        all_goals cases branch
      rcases i with _ | i
      · exact ⟨[], c, ops, rfl, rfl⟩
      · obtain ⟨pre, c', tail, rfl, count⟩ := ih (Nat.lt_of_succ_lt_succ lt)
        refine ⟨.brPatch c :: pre, c', tail, rfl, ?_⟩
        rw [branches, List.countP_cons]
        exact congrArg (· + 1) count

/-- The patch of a branch, when it is made. -/
theorem patch_made (ok : (written (pre ++ [.brPatch c])).Ok) :
    (written (pre ++ [.brPatch c])).patches[branches pre]? =
      some ⟨size pre + 1, none, (written pre).bodyEmit.depth⟩ := by
  have count : (written pre).patches.length = branches pre :=
    (length_patches_emitAll ok.of_append).trans (Nat.zero_add _)
  have pos : (written pre).pos = size pre := (pos_emitAll ok.of_append).trans (Nat.zero_add _)
  have branch := (emitted_emit (w := written pre) (e := .brPatch c) ok.emitAll).patches
  rw [written_append]
  change ((written pre).emit (.brPatch c)).patches[branches pre]? = _
  rw [branch, ← count, List.getElem?_concat_length, pos]

/-- The patch of a branch, at the end. -/
theorem patch_written
    (ok : (written (pre ++ .brPatch c :: mid ++ .setJumpDest (branches pre + 1) :: tail)).Ok)
    (last : .setJumpDest (branches pre + 1) ∉ tail) :
    (written (pre ++ .brPatch c :: mid ++ .setJumpDest (branches pre + 1) :: tail)).patches[
        branches pre]? =
      some ⟨size pre + 1, some ((labelsFrom 0 false
        (pre ++ .brPatch c :: mid ++ [.setJumpDest (branches pre + 1)])).length - 1),
        (written pre).bodyEmit.depth⟩ := by
  have whole : pre ++ .brPatch c :: mid ++ .setJumpDest (branches pre + 1) :: tail =
      pre ++ [.brPatch c] ++ mid ++ [.setJumpDest (branches pre + 1)] ++ tail := by simp
  have bound : pre ++ .brPatch c :: mid ++ [.setJumpDest (branches pre + 1)] =
      pre ++ [.brPatch c] ++ mid ++ [.setJumpDest (branches pre + 1)] := by simp
  rw [whole] at ok ⊢
  rw [bound]
  have okBound := ok.of_append
  have okMid := okBound.of_append
  -- the patch is there up to its destination
  obtain ⟨label, kept⟩ := patch_emitAll okMid.emitAll (patch_made okMid.of_append)
  rw [← written_append] at kept
  -- the destination is bound, and not again
  have bind := (emitted_emit (w := written (pre ++ [Emit.brPatch c] ++ mid))
    (e := .setJumpDest (branches pre + 1)) okBound.emitAll).patches
  have labels := labels_written okBound
  have bound' : (written (pre ++ [.brPatch c] ++ mid ++
      [.setJumpDest (branches pre + 1)])).patches[branches pre]? =
        some ⟨size pre + 1, some ((labelsFrom 0 false (pre ++ [.brPatch c] ++ mid ++
          [.setJumpDest (branches pre + 1)])).length - 1), (written pre).bodyEmit.depth⟩ := by
    rw [← labels, written_append]
    change ((written _).emit (.setJumpDest _)).patches[branches pre]? = _
    rw [bind]
    simp only [Nat.add_sub_cancel, List.getElem?_modify_eq, kept, Option.map_eq_map,
      Option.map_some]
    rfl
  rw [written_append]
  exact label_emitAll ok.emitAll bound' last

/-- The patch of a branch without destination. -/
theorem patch_unbound (ok : (written (pre ++ .brPatch c :: tail)).Ok)
    (unbound : .setJumpDest (branches pre + 1) ∉ tail) :
    (written (pre ++ .brPatch c :: tail)).patches[branches pre]? =
      some ⟨size pre + 1, none, (written pre).bodyEmit.depth⟩ := by
  have whole : pre ++ .brPatch c :: tail = pre ++ [.brPatch c] ++ tail := by simp
  rw [whole] at ok ⊢
  rw [written_append]
  exact label_emitAll ok.emitAll (patch_made ok.of_append) unbound

/-! ## Depths -/

/-- The nesting at a branch is within the body. -/
theorem extraDepth_written {n : Nat} {p : WjitPatch} (ok : (written ops).Ok)
    (nested : nestFrom 0 ops = some n) (isPatch : p ∈ (written ops).patches) :
    ∃ e ≤ wjitBodyCap, p.extraDepth = (e : Nat) := by
  obtain ⟨i, at_⟩ := List.mem_iff_getElem?.mp isPatch
  have count : (written ops).patches.length = branches ops :=
    (length_patches_emitAll ok).trans (Nat.zero_add _)
  have lt := (List.getElem?_eq_some_iff.mp at_).1
  rw [count] at lt
  obtain ⟨pre, c, tail, whole, rfl⟩ := exists_branch lt
  have split : ops = pre ++ [.brPatch c] ++ tail := by
    rw [whole, List.append_assoc]
    rfl
  rw [split] at ok at_
  obtain ⟨label, kept⟩ := patch_emitAll ok.emitAll (patch_made ok.of_append)
  rw [← written_append, at_] at kept
  have room := (limits_written pre).body.room
  rw [buf_written ok.of_append.of_append] at room
  rw [whole, nestFrom_append] at nested
  obtain ⟨e, nestedPre, -⟩ := Option.bind_eq_some_iff.mp nested
  have within := nestFrom_le nestedPre
  rw [Nat.zero_add] at within
  refine ⟨e, ?_, ?_⟩
  · exact Nat.le_trans within room
  · rw [Option.some.inj kept]
    exact depth_emitAll nestedPre rfl

/-- The depths that the branches get. -/
def depths (ops : List Emit) : List Nat :=
  (written ops).patches.map fun p => ((written ops).depthOf p).toNat

theorem length_depths (ok : (written ops).Ok) : (depths ops).length = branches ops := by
  rw [depths, List.length_map]
  exact (length_patches_emitAll ok).trans (Nat.zero_add _)

theorem operands_eq {n : Nat} (ok : (written ops).Ok) (nested : nestFrom 0 ops = some n) :
    operands ops = (depths ops).map (paddedUleb 4) := by
  rw [operands, depths, List.map_map]
  refine List.map_congr_left fun p isPatch => ?_
  obtain ⟨e, -, nonneg⟩ := extraDepth_written ok nested isPatch
  have depth : (((written ops).depthOf p).toNat : Int) = (written ops).depthOf p :=
    Int.toNat_of_nonneg (by unfold depthOf; omega)
  rw [← depth, leb5_natCast]
  rfl

/-- The labels that a branch and its destination are between. -/
theorem labels_of_split {mid' dups : List Emit} {q : Nat} (goesOn : boundAfter false mid' = false)
    (same : mid ++ [.setJumpDest (branches pre + 1)] = mid' ++ .setJumpDest q :: dups)
    (labels : ∀ e ∈ dups, e.isLabel = true) :
    labelsFrom 0 false (pre ++ .brPatch c :: mid ++ [.setJumpDest (branches pre + 1)]) =
      labelsFrom 0 false pre ++ labelsFrom (size pre + 6) false mid' ++
        [size pre + 6 + size mid'] := by
  have split : pre ++ .brPatch c :: mid ++ [.setJumpDest (branches pre + 1)] =
      pre ++ .brPatch c :: mid' ++ .setJumpDest q :: dups := by
    rw [List.append_assoc, List.cons_append, same]
    simp only [List.append_assoc, List.cons_append]
  have none_ : labelsFrom (size pre + 6 + size mid') true (dups ++ []) = [] :=
    labelsFrom_dups labels
  rw [List.append_nil] at none_
  rw [split, labels_split goesOn, none_]

/-- The depth of a branch: what is open in the body there, and the labels up to its own. -/
theorem depth_of_branch {mid' dups : List Emit} {q : Nat}
    (ok : (written (pre ++ .brPatch c :: mid ++ .setJumpDest (branches pre + 1) :: tail)).Ok)
    (nested : nestFrom 0 pre = some e) (last : .setJumpDest (branches pre + 1) ∉ tail)
    (goesOn : boundAfter false mid' = false)
    (same : mid ++ [.setJumpDest (branches pre + 1)] = mid' ++ .setJumpDest q :: dups)
    (labels : ∀ e ∈ dups, e.isLabel = true) :
    (depths (pre ++ .brPatch c :: mid ++ .setJumpDest (branches pre + 1) :: tail))[branches pre]? =
      some (e + (labelsFrom (size pre + 6) false mid').length) := by
  have split : pre ++ .brPatch c :: mid ++ .setJumpDest (branches pre + 1) :: tail =
      pre ++ .brPatch c :: mid' ++ .setJumpDest q :: (dups ++ tail) := by
    have := congrArg (· ++ tail) same
    simp only [List.append_assoc, List.cons_append, List.nil_append] at this ⊢
    rw [this]
  have open_ : (written pre).bodyEmit.depth = e := depth_emitAll nested rfl
  have patch := patch_written ok last
  rw [labels_of_split goesOn same labels] at patch
  rw [depths, List.getElem?_map, patch, Option.map_some, depthOf, targetPos, labels_written ok,
    split, labels_split goesOn, open_]
  have index : (labelsFrom 0 false pre ++ labelsFrom (size pre + 6) false mid' ++
      [size pre + 6 + size mid']).length - 1 =
        (labelsFrom 0 false pre ++ labelsFrom (size pre + 6) false mid').length := by
    rw [List.length_append, List.length_singleton, Nat.add_sub_cancel]
  have target (l : List Nat) (n : Nat) (ns : List Nat) : (l ++ n :: ns).getD l.length 0 = n := by
    simp
  simp only [index, Option.getD_some, target, countP_labels goesOn]
  rw [← Int.natCast_add, Int.toNat_natCast]

end Wjit

/-! ## Where the branches go -/

section

variable {ops pre mid tail : List Emit} {ds : List Nat} {bound c : Bool} {d e k : Nat}

theorem encode_render (count : ds.length = branches ops) :
    (render ds bound ops).flatMap Token.encode =
      Wjit.rebuilt (ds.map (paddedUleb 4)) bound ops := by
  induction ops generalizing ds bound with
  | nil => rfl
  | cons op ops ih =>
    rw [branches, List.countP_cons] at count
    rcases op
    case brPatch c =>
      obtain _ | ⟨first, ds⟩ := ds
      · simp [Emit.isBranch] at count
      · rw [render, List.flatMap_cons, List.tail_cons, ih (Nat.succ_inj.mp count)]
        rfl
    case setJumpDest p =>
      rcases bound
      case true => exact ih count
      case false =>
        rw [render, List.flatMap_cons, ih count]
        rfl
    all_goals
      rw [render, List.flatMap_cons, ih count]
      rfl

/-- The blocks at the start are all open. -/
theorem frames_labelBlocks {open_ : List (Frame Token)} {n : Nat} {after : List Token} :
    frames Token.shape open_ (.replicate n .labelBlock) after = .replicate n .block ++ open_ := by
  induction n generalizing open_ with
  | zero => rfl
  | succ n ih =>
    rw [List.replicate_succ, List.replicate_succ', List.append_assoc]
    exact ih

/-- A branch out of its own constructs and past the labels up to its own leaves the right block. -/
theorem branchTarget_block {outer inner k e : Nat} {before between rest : List Token} {t t' : Token}
    (nested : nest Token.shape inner before = some e)
    (closed : nest Token.shape (e + k) between = some 0) (end_ : t'.shape = .closes)
    (enough : inner + k < outer) :
    branchTarget Token.shape (.replicate outer .labelBlock ++ before) t
      (between ++ t' :: rest) (e + k) = some rest := by
  obtain ⟨n, rfl⟩ : ∃ n, outer = inner + (k + 1 + n) := ⟨outer - (inner + k + 1), by omega⟩
  have nested' : nest Token.shape (List.replicate inner (Frame.block (τ := Token))).length before =
      some e := by
    rw [List.length_replicate]
    exact nested
  obtain ⟨opened, length, same⟩ : ∃ opened, opened.length = e ∧ ∀ around,
      frames Token.shape (.replicate inner .block ++ around) before (t :: (between ++ t' :: rest)) =
        opened ++ around := frames_of_nest nested'
  have open_ : frames Token.shape [] (.replicate (inner + (k + 1 + n)) .labelBlock ++ before)
      (t :: (between ++ t' :: rest)) = opened ++ .replicate (k + 1 + n) .block := by
    rw [frames_append, frames_labelBlocks, List.append_nil, ← List.replicate_append_replicate]
    exact same _
  have own : (opened ++ List.replicate (k + 1 + n) Frame.block)[e + k]? = some .block := by
    rw [List.getElem?_append_right (by omega), length, Nat.add_sub_cancel_left,
      List.getElem?_replicate, if_pos (by omega)]
  have leaves : exitFrom Token.shape (e + k + 0) (between ++ t' :: rest) =
      exitFrom Token.shape (0 + 0) (t' :: rest) := exitFrom_append closed
  rw [Nat.add_zero, Nat.add_zero, exitFrom_closes end_] at leaves
  simp only [branchTarget, open_, own]
  exact leaves

/-- The rewritten code of a body. -/
def codeOf (ops : List Emit) : List Token :=
  .replicate (labelsFrom 0 false ops).length .labelBlock ++ render (Wjit.depths ops) false ops

theorem source_replicate (n : Nat) :
    (List.replicate n Token.labelBlock).filterMap Token.source = [] := by
  induction n with
  | zero => rfl
  | succ n ih => exact ih

theorem mem_render {ds : List Nat} {depth : Nat} (branch : .br c depth ∈ render ds bound ops) :
    depth = 0 ∨ depth ∈ ds := by
  induction ops generalizing ds bound with
  | nil => cases branch
  | cons e ops ih =>
    rcases e
    case brPatch c' =>
      rcases List.mem_cons.mp branch with same | later
      · cases same
        rcases ds with _ | ⟨d, ds⟩
        · exact .inl rfl
        · exact .inr (.head _)
      · refine (ih later).imp_right List.mem_of_mem_tail
    case setJumpDest p =>
      rcases bound
      case true => exact ih branch
      case false =>
        rcases List.mem_cons.mp branch with same | later
        · cases same
        · exact ih later
    all_goals
      rcases List.mem_cons.mp branch with same | later
      · cases same
      · exact ih later

/-- A depth is at most that of the body and its labels. -/
theorem fits_of_mem_depths {n depth : Nat} (ok : (Wjit.written ops).Ok)
    (nested : nestFrom 0 ops = some n) (isDepth : depth ∈ Wjit.depths ops) :
    depth ≤ wjitBodyCap + wjitMaxLabels := by
  obtain ⟨p, isPatch, rfl⟩ := List.mem_map.mp isDepth
  obtain ⟨e, within, nesting⟩ := Wjit.extraDepth_written ok nested isPatch
  have labels := (Wjit.limits_written ops).labels
  have count := List.countP_le_length (l := (Wjit.written ops).labels)
    (p := fun pos => p.operandPos < pos ∧ pos < (Wjit.written ops).targetPos p)
  rw [Wjit.depthOf, nesting, ← Int.natCast_add, Int.toNat_natCast]
  omega

theorem restructured_codeOf (ok : (Wjit.written ops).Ok) (nested : nestFrom 0 ops = some 0) :
    Restructured ops (codeOf ops) := by
  refine ⟨?_, ?_, ?_⟩
  · rw [codeOf, List.filterMap_append, source_replicate, source_render, List.nil_append]
  · intro c depth branch
    have fits : depth ≤ wjitBodyCap + wjitMaxLabels := by
      rcases List.mem_append.mp branch with block | branch
      · cases (List.mem_replicate.mp block).2
      · rcases mem_render branch with rfl | isDepth
        · exact Nat.zero_le _
        · exact fits_of_mem_depths ok nested isDepth
    have caps : wjitBodyCap + wjitMaxLabels < 0x100000000 := by decide
    exact ⟨Nat.lt_of_le_of_lt fits caps, decodeUleb_paddedUleb
      (Nat.lt_trans (Nat.lt_of_le_of_lt fits caps) (by decide))⟩
  · rintro pre c mid tail rfl last
    obtain ⟨mid', q, dups, same, goesOn, labels⟩ := exists_label mid (branches pre + 1)
    have split : pre ++ .brPatch c :: mid ++ .setJumpDest (branches pre + 1) :: tail =
        pre ++ (.brPatch c :: (mid' ++ .setJumpDest q :: (dups ++ tail))) := by
      have := congrArg (· ++ tail) same
      simp only [List.append_assoc, List.cons_append, List.nil_append] at this ⊢
      rw [this]
    -- the nesting at the branch and at its destination
    obtain ⟨e, nestedPre, nestedRest⟩ : ∃ e, nestFrom 0 pre = some e ∧
        nestFrom e (.brPatch c :: (mid' ++ .setJumpDest q :: (dups ++ tail))) = some 0 := by
      rw [split, nestFrom_append] at nested
      exact Option.bind_eq_some_iff.mp nested
    have nestedMid : nestFrom e mid' = some 0 := by
      have nested' : nestFrom e (mid' ++ .setJumpDest q :: (dups ++ tail)) = some 0 := by
        rcases e <;> exact nestedRest
      rw [nestFrom_append] at nested'
      obtain ⟨n, nestedMid, nestedTail⟩ := Option.bind_eq_some_iff.mp nested'
      rcases n with _ | n
      · exact nestedMid
      · cases nestedTail
    -- the labels of the parts
    have depth := Wjit.depth_of_branch ok nestedPre last goesOn same labels
    have count : (labelsFrom 0 false
        (pre ++ .brPatch c :: mid ++ .setJumpDest (branches pre + 1) :: tail)).length =
          (labelsFrom 0 false pre).length + (labelsFrom (size pre + 6) false mid').length + 1 +
            (labelsFrom (size pre + 6 + size mid') true (dups ++ tail)).length := by
      have whole : pre ++ (.brPatch c :: (mid' ++ .setJumpDest q :: (dups ++ tail))) =
          pre ++ .brPatch c :: mid' ++ .setJumpDest q :: (dups ++ tail) := by
        simp only [List.append_assoc, List.cons_append]
      rw [split, whole, labels_split goesOn]
      simp only [List.length_append, List.length_cons]
      omega
    -- the code of the parts
    rw [codeOf, count]
    generalize Wjit.depths (pre ++ .brPatch c :: mid ++ .setJumpDest (branches pre + 1) :: tail) =
      ds at depth ⊢
    have head : (ds.drop (branches pre)).headD 0 =
        e + (labelsFrom (size pre + 6) false mid').length := by
      rw [List.headD_eq_head?_getD, List.head?_drop, depth]
      rfl
    have open_ : nest Token.shape (0 + (labelsFrom 0 false pre).length) (render ds false pre) =
        some e := nest_render nestedPre
    rw [Nat.zero_add] at open_
    rw [split, render_append, render, head, render_append, goesOn, render, render_dups labels,
      ← List.append_assoc]
    refine ⟨_, _, _, _, rfl, ?_, branchTarget_block open_ ?_ rfl ?_, source_render, _, rfl⟩
    · rw [List.filterMap_append, source_replicate, source_render]
      rfl
    · exact nest_render nestedMid
    · omega

end

/-! ## Which bodies are accepted -/

/-- Every branch has a destination. -/
def AllBound (ops : List Emit) : Prop :=
  ∀ pre c tail, ops = pre ++ .brPatch c :: tail → .setJumpDest (branches pre + 1) ∈ tail

/-- The rewriting of a body gives a code. -/
def Wjit.Accepts (w : Wjit) (code : List UInt8) : Prop :=
  w.failed = false ∧ w.restructure = some code

/-- What the uop handlers write ends what it opens, and destinations are bound between them. -/
inductive ByHandlers : List Emit → Prop
  | nil : ByHandlers []
  | handler {ops rest : List Emit} : nestFrom 0 ops = some 0 → ByHandlers rest →
      ByHandlers (ops ++ rest)
  | dest {rest : List Emit} (p : Nat) : ByHandlers rest → ByHandlers (.setJumpDest p :: rest)

theorem ByHandlers.nested {ops : List Emit} (written : ByHandlers ops) :
    nestFrom 0 ops = some 0 := by
  induction written with
  | nil => rfl
  | handler closed _ ih =>
    rw [nestFrom_append, closed]
    exact ih
  | dest p _ ih => exact ih

namespace Wjit

variable {ops : List Emit}

/-- The last destination that has a handle. -/
theorem exists_last {p : Nat} {tail : List Emit} (bound : Emit.setJumpDest p ∈ tail) :
    ∃ mid rest, tail = mid ++ .setJumpDest p :: rest ∧ .setJumpDest p ∉ rest := by
  induction tail with
  | nil => cases bound
  | cons e tail ih =>
    by_cases later : .setJumpDest p ∈ tail
    · obtain ⟨mid, rest, rfl, last⟩ := ih later
      exact ⟨e :: mid, rest, rfl, last⟩
    · rcases List.mem_cons.mp bound with rfl | later'
      · exact ⟨[], tail, rfl, later⟩
      · exact absurd later' later

/-- A patch is left unbound just if a branch has no destination. -/
theorem unbound_iff (ok : (written ops).Ok) :
    (written ops).patches.any (·.label.isNone) = true ↔ ¬AllBound ops := by
  rw [List.any_eq_true]
  constructor
  · rintro ⟨p, isPatch, isNone⟩ allBound
    obtain ⟨i, at_⟩ := List.mem_iff_getElem?.mp isPatch
    have count : (written ops).patches.length = branches ops :=
      (length_patches_emitAll ok).trans (Nat.zero_add _)
    obtain ⟨pre, c, tail, rfl, rfl⟩ :=
      exists_branch (count ▸ (List.getElem?_eq_some_iff.mp at_).1)
    obtain ⟨mid, rest, rfl, last⟩ := exists_last (allBound pre c tail rfl)
    have whole : pre ++ .brPatch c :: (mid ++ .setJumpDest (branches pre + 1) :: rest) =
        pre ++ .brPatch c :: mid ++ .setJumpDest (branches pre + 1) :: rest := by
      rw [List.append_assoc]
      rfl
    rw [whole] at ok at_
    rw [Option.some.inj (at_.symm.trans (patch_written ok last))] at isNone
    cases isNone
  · intro someUnbound
    unfold AllBound at someUnbound
    push Not at someUnbound
    obtain ⟨pre, c, tail, rfl, unbound⟩ := someUnbound
    exact ⟨_, List.mem_of_getElem? (patch_unbound ok unbound), rfl⟩

/-- The code of a nested body. -/
theorem encode_codeOf (ok : (written ops).Ok) (nested : nestFrom 0 ops = some 0) :
    (labelsFrom 0 false ops).flatMap (fun _ => [0x02, 0x40]) ++ rebuilt (operands ops) false ops =
      (codeOf ops).flatMap Token.encode := by
  have blocks : (List.replicate (labelsFrom 0 false ops).length Token.labelBlock).flatMap
      Token.encode = (labelsFrom 0 false ops).flatMap fun _ => [0x02, 0x40] := by
    rw [← List.map_const', List.flatMap_map]
    rfl
  rw [codeOf, List.flatMap_append, encode_render (length_depths ok), blocks,
    operands_eq ok nested]

theorem accepts_iff {code : List UInt8} : (written ops).Accepts code ↔
    (written ops).Ok ∧ (written ops).bodyEmit.depth = 0 ∧ AllBound ops ∧
      (labelsFrom 0 false ops).flatMap (fun _ => [0x02, 0x40]) ++
        rebuilt (operands ops) false ops = code := by
  have notFailed : (written ops).failed = false ↔
      (written ops).Ok ∧ (written ops).bodyEmit.depth = 0 := by
    simp only [failed, Bool.or_eq_false_iff, decide_eq_false_iff_not, not_not]
    exact ⟨fun ⟨⟨limits, emitter⟩, depth⟩ => ⟨⟨emitter, limits⟩, depth⟩,
      fun ⟨ok, depth⟩ => ⟨⟨ok.limits, ok.emitter⟩, depth⟩⟩
  rw [Accepts, notFailed, and_assoc]
  refine and_congr_right fun ok => and_congr_right fun _ => ?_
  rw [restructure_written ok]
  split
  · rename_i unbound
    have := (unbound_iff ok).mp unbound
    exact ⟨nofun, fun ⟨allBound, _⟩ => absurd allBound this⟩
  · rename_i bound
    have := not_not.mp (mt (unbound_iff ok).mpr bound)
    exact ⟨fun code => ⟨this, Option.some.inj code⟩, fun ⟨_, code⟩ => congrArg some code⟩

/-- A body is rejected just if its emission has failed, a construct is open at its end, or a branch
has no destination, and what is installed is an accepted body. The code of an accepted body whose
destinations are at nesting depth 0 has every branch go to its own destination. -/
theorem restructured_of_accepts (ops : List Emit) :
    ((∀ code, ¬(written ops).Accepts code) ↔
      ¬(written ops).Ok ∨ (written ops).bodyEmit.depth ≠ 0 ∨ ¬AllBound ops) ∧
    (∀ cost wrap installs done, (written ops).outcome cost wrap installs = .install done →
      ∃ code, (written ops).Accepts code) ∧
    (ByHandlers ops → nestFrom 0 ops = some 0) ∧
    ∀ code, (written ops).Accepts code → nestFrom 0 ops = some 0 →
      ∃ tokens, code = tokens.flatMap Token.encode ∧ Restructured ops tokens := by
  refine ⟨?_, ?_, ByHandlers.nested, ?_⟩
  · have accepts : (∃ code, (written ops).Accepts code) ↔
        (written ops).Ok ∧ (written ops).bodyEmit.depth = 0 ∧ AllBound ops := by
      simp only [accepts_iff, exists_and_left, exists_eq', and_true]
    rw [← not_exists, accepts, not_and_or, not_and_or]
  · intro cost wrap installs done installed
    unfold outcome at installed
    split at installed
    · cases installed
    · rename_i notFailed
      rcases cost <;> dsimp only at installed
      case nojit => cases installed
      case deferIo => cases installed
      case compile =>
        rcases rewritten : (written ops).restructure with _ | code
        · rw [rewritten] at installed
          cases installed
        · exact ⟨code, eq_false_of_ne_true notFailed, rewritten⟩
  · intro code accepted nested
    obtain ⟨ok, -, -, rfl⟩ := accepts_iff.mp accepted
    exact ⟨codeOf ops, encode_codeOf ok nested, restructured_codeOf ok nested⟩

/-- Two branches with a destination each, the second one from inside an `if`. -/
theorem restructured_of_accepts_two : ∃ tokens,
    [0x02, 0x40, 0x02, 0x40, 0x0d, 0x80, 0x80, 0x80, 0x80, 0x00, 0x04, 0x40,
      0x0c, 0x82, 0x80, 0x80, 0x80, 0x00, 0x0b, 0x0b, 0x01, 0x0b, 0x01] =
        tokens.flatMap Token.encode ∧
    Restructured [.brPatch true, .if_, .brPatch false, .end_, .setJumpDest 1, .instr 0x01 [],
      .setJumpDest 2, .instr 0x01 []] tokens :=
  (restructured_of_accepts _).2.2.2 _ (by unfold Accepts; decide +kernel) rfl

/-- The rewriting does not look at the nesting of a destination. -/
theorem installs_dest_inside_if : ¬∀ ops, nestFrom 0 ops ≠ some 0 → ∀ cost wrap installs done,
    (written ops).outcome cost wrap installs ≠ .install done := by
  intro rejected
  exact rejected [.brPatch true, .if_, .setJumpDest 1, .instr 0x01 [], .end_] (by decide) .compile
    some (fun _ => true) true (by decide +kernel)

end Wjit

end PCemWeb.Codegen
