import Mathlib.Algebra.Order.Ring.Nat
import PCemWeb.Codegen.BlockLife

/-!
# The code of a block in its masks

The recompile loop of `exec386_dynarec_dyn` takes one instruction after another until the block is
long enough, and `codegen_generate_call` marks the bytes it builds into the code. It does not know
how long an instruction is that it leaves to the interpreter, so it marks eight bytes there, and it
does not mark operands that the code loads when it runs.
-/

namespace PCemWeb.Codegen

/-! ## Marks of a block -/

/-- An instruction as `codegen_generate_call` and the recompiled operations mark it. -/
structure Insn : Type where
  len : Nat
  /-- The prefixes and the opcode, `(op_pc - old_pc) - pc_off` bytes. -/
  opcode : Nat
  /-- The ranges of addressing and immediate bytes that are built into the code, from the
  instruction's first byte. -/
  operands : List (Nat × Nat)
  /-- The interpreter's handler is called. -/
  interpreted : Bool
  opcode_pos : 0 < opcode
  opcode_le : opcode ≤ len
  operands_inside : ∀ r ∈ operands, r.1 + r.2 ≤ len

namespace Insn

variable (i : Insn)

/-- The marked ranges, from the instruction's first byte. Behind the first byte come the eight
bytes of a call. -/
def marks : List (Nat × Nat) :=
  (0, i.opcode) :: i.operands ++ if i.interpreted then [(1, 8)] else []

end Insn

/-- `max_block_size`. -/
def maxBlockSize (b : CodeBlock) : Nat :=
  if b.flags.byteMask then (128 - 25) - b.pc % 64 else 1000

/-- The loop takes a further instruction only while the block is below the limit; `off` is how far
the block has come. It may end earlier. -/
def withinLimit (limit : Nat) : (off : Nat) → List Insn → Bool
  | _, [] => true
  | off, i :: is => (off = 0 ∨ off < limit) ∧ withinLimit limit (off + i.len) is

namespace CodeBlock

/-- The marks of one instruction. -/
def markInsn (b : CodeBlock) (off : Nat) (i : Insn) : CodeBlock :=
  i.marks.foldl (fun b r => b.markCodePresent ((b.pc + (off + r.1)) % 2 ^ 32) r.2) b

/-- The marks of the instructions from `off` on. -/
def markInsns (b : CodeBlock) : (off : Nat) → List Insn → CodeBlock
  | _, [] => b
  | off, i :: is => (b.markInsn off i).markInsns (off + i.len) is

/-- The bytes that one bit of a mask stands for. -/
def unit (b : CodeBlock) : Nat := if b.flags.byteMask then 1 else 64

/-- The bytes that a mask stands for. -/
def span (b : CodeBlock) : Nat := b.unit * 64

/-- The address at `off` from the block's first byte. -/
def addrAt (b : CodeBlock) (off : Nat) : Nat := (b.pc + off) % 2 ^ 32

def InFirst (b : CodeBlock) (addr : Nat) : Prop := addr / b.span = b.pc / b.span

def InSecond (b : CodeBlock) (addr : Nat) : Prop :=
  addr / b.span = (b.pc / b.span + 1) % (2 ^ 32 / b.span)

/-- The bit of an address in the mask of its page. -/
def granule (b : CodeBlock) (addr : Nat) : Nat := addr / b.unit % 64

/-- The masks hold the granules of `bytes` in the first and in the second page, and no others. -/
def ExactMasks (b : CodeBlock) (bytes : Nat → Prop) : Prop :=
  ∀ g < 64,
    (b.pageMask.getLsbD g = true ↔
      ∃ off, bytes off ∧ b.InFirst (b.addrAt off) ∧ b.granule (b.addrAt off) = g) ∧
    (b.pageMask2.getLsbD g = true ↔
      ∃ off, bytes off ∧ b.InSecond (b.addrAt off) ∧ b.granule (b.addrAt off) = g)

/-- The mark that a write to `addr` leaves meets the masks. -/
def Meets (b : CodeBlock) (addr : Nat) : Prop :=
  (b.InFirst addr ∧ b.pageMask &&& (1#64 <<< b.granule addr) ≠ 0) ∨
    (b.InSecond addr ∧ b.pageMask2 &&& (1#64 <<< b.granule addr) ≠ 0)

end CodeBlock

/-- The marked ranges of the instructions from `off` on, from the block's first byte. -/
def blockMarks : (off : Nat) → List Insn → List (Nat × Nat)
  | _, [] => []
  | off, i :: is => i.marks.map (fun r => (off + r.1, r.2)) ++ blockMarks (off + i.len) is

/-- The byte is in one of the ranges. -/
def Covered (ranges : List (Nat × Nat)) (off : Nat) : Prop :=
  ∃ r ∈ ranges, r.1 ≤ off ∧ off < r.1 + r.2

/-- The byte is one that the block's instructions have marked. -/
def Marked (is : List Insn) (off : Nat) : Prop := Covered (blockMarks 0 is) off

/-- The byte is one of the block's instructions. -/
def InsnByte (is : List Insn) (off : Nat) : Prop := off < (is.map Insn.len).sum

/-! ## One range -/

theorem getLsbD_maskBits {lo hi g : Nat} (bound : hi < 64) (inside : g < 64) :
    (maskBits lo hi).getLsbD g = true ↔ lo ≤ g ∧ g ≤ hi := by
  simp only [maskBits, BitVec.getLsbD_and, BitVec.getLsbD_shiftLeft, BitVec.getLsbD_ushiftRight,
    BitVec.getLsbD_allOnes, Bool.and_eq_true, decide_eq_true_eq, Bool.not_eq_true']
  simp only [decide_eq_false_iff_not]
  omega

namespace CodeBlock

variable {b : CodeBlock} {off g : Nat}

/-- The two pages of a block: where a byte near enough to the block's start lies. -/
theorem place (valid : b.pc < 2 ^ 32) (near : b.pc % b.span + off < 2 * b.span) :
    (b.InFirst (b.addrAt off) ↔ b.pc % b.span + off < b.span) ∧
      (b.InSecond (b.addrAt off) ↔ b.span ≤ b.pc % b.span + off) ∧
      b.granule (b.addrAt off) = (b.pc % b.span + off) % b.span / b.unit := by
  unfold InFirst InSecond granule addrAt
  unfold span at near ⊢
  unfold unit at near ⊢
  split at near <;> simp only [*, if_true, if_false, Bool.false_eq_true] <;> omega

theorem unit_cases (b : CodeBlock) : b.unit = 1 ∨ b.unit = 64 := by
  unfold unit
  split
  · exact .inl rfl
  · exact .inr rfl

/-- The granules of a range in the first page. -/
theorem exists_first {r s e : Nat} (inside : g < 64) (ordered : s ≤ e) :
    (∃ o, (s ≤ o ∧ o ≤ e) ∧ r + o < b.span ∧ (r + o) % b.span / b.unit = g) ↔
      (r + s) / b.unit ≤ g ∧ g ≤ min (r + e) (b.span - 1) / b.unit := by
  unfold span
  constructor
  · rintro ⟨o, between, first, rfl⟩
    rcases b.unit_cases with unit | unit <;> rw [unit] at first ⊢ <;> omega
  · intro bounds
    refine ⟨max s (b.unit * g - r), ?_⟩
    rcases b.unit_cases with unit | unit <;> rw [unit] at bounds ⊢ <;> omega

/-- The granules of a range in the second page. -/
theorem exists_second {r s e : Nat} (inside : g < 64) (ordered : s ≤ e)
    (near : r + e < 2 * b.span) :
    (∃ o, (s ≤ o ∧ o ≤ e) ∧ b.span ≤ r + o ∧ (r + o) % b.span / b.unit = g) ↔
      max (r + s) b.span / b.unit ≤ g + 64 ∧ g + 64 ≤ (r + e) / b.unit := by
  unfold span at near ⊢
  constructor
  · rintro ⟨o, between, second, rfl⟩
    rcases b.unit_cases with unit | unit <;> rw [unit] at near second ⊢ <;> omega
  · intro bounds
    refine ⟨max s (b.unit * (g + 64) - r), ?_⟩
    rcases b.unit_cases with unit | unit <;> rw [unit] at near bounds ⊢ <;> omega

/-- `codegen_mark_code_present` in the block's own terms: `s` and `e` are the range's first and last
byte. -/
theorem markCodePresent_cases {s len : Nat} :
    b.markCodePresent (b.addrAt s) (len + 1) =
      if b.addrAt s / b.span ≠ b.pc / b.span then
        { b with
          pageMask2 := b.pageMask2 |||
            maskBits (b.granule (b.addrAt s)) (b.granule (b.addrAt (s + len))) }
      else if b.addrAt (s + len) / b.span ≠ b.pc / b.span then
        { b with
          pageMask := b.pageMask ||| maskBits (b.granule (b.addrAt s)) 63
          pageMask2 := b.pageMask2 ||| maskBits 0 (b.granule (b.addrAt (s + len))) }
      else
        { b with
          pageMask := b.pageMask |||
            maskBits (b.granule (b.addrAt s)) (b.granule (b.addrAt (s + len))) } := by
  have last : (b.addrAt s + (len + 1 - 1)) % 0x100000000 = b.addrAt (s + len) := by
    unfold addrAt
    omega
  unfold markCodePresent
  rw [if_neg (Nat.succ_ne_zero len)]
  dsimp only
  rw [last]
  rfl

/-- A range adds its granules to the masks. -/
theorem markCodePresent_bits {s len : Nat} (valid : b.pc < 2 ^ 32)
    (near : b.pc % b.span + (s + len) < 2 * b.span) (inside : g < 64) :
    ((b.markCodePresent (b.addrAt s) (len + 1)).pageMask.getLsbD g = true ↔
      b.pageMask.getLsbD g = true ∨
        ∃ o, (s ≤ o ∧ o ≤ s + len) ∧ b.InFirst (b.addrAt o) ∧ b.granule (b.addrAt o) = g) ∧
    ((b.markCodePresent (b.addrAt s) (len + 1)).pageMask2.getLsbD g = true ↔
      b.pageMask2.getLsbD g = true ∨
        ∃ o, (s ≤ o ∧ o ≤ s + len) ∧ b.InSecond (b.addrAt o) ∧ b.granule (b.addrAt o) = g) := by
  have ordered : s ≤ s + len := Nat.le_add_right s len
  have places : ∀ o, s ≤ o ∧ o ≤ s + len →
      (b.InFirst (b.addrAt o) ↔ b.pc % b.span + o < b.span) ∧
        (b.InSecond (b.addrAt o) ↔ b.span ≤ b.pc % b.span + o) ∧
        b.granule (b.addrAt o) = (b.pc % b.span + o) % b.span / b.unit := by
    intro o between
    exact place valid (by omega)
  have first : (∃ o, (s ≤ o ∧ o ≤ s + len) ∧ b.InFirst (b.addrAt o) ∧
      b.granule (b.addrAt o) = g) ↔ (b.pc % b.span + s) / b.unit ≤ g ∧
        g ≤ min (b.pc % b.span + (s + len)) (b.span - 1) / b.unit := by
    rw [← exists_first inside ordered]
    refine exists_congr fun o => and_congr_right fun between => ?_
    rw [(places o between).1, (places o between).2.2]
  have second : (∃ o, (s ≤ o ∧ o ≤ s + len) ∧ b.InSecond (b.addrAt o) ∧
      b.granule (b.addrAt o) = g) ↔ max (b.pc % b.span + s) b.span / b.unit ≤ g + 64 ∧
        g + 64 ≤ (b.pc % b.span + (s + len)) / b.unit := by
    rw [← exists_second inside ordered near]
    refine exists_congr fun o => and_congr_right fun between => ?_
    rw [(places o between).2.1, (places o between).2.2]
  obtain ⟨startFirst, -, startBit⟩ := places s ⟨Nat.le_refl _, ordered⟩
  obtain ⟨endFirst, -, endBit⟩ := places (s + len) ⟨ordered, Nat.le_refl _⟩
  have bound : b.granule (b.addrAt (s + len)) < 64 := Nat.mod_lt _ (by decide)
  rw [first, second, markCodePresent_cases]
  unfold InFirst at startFirst endFirst
  clear first second places
  split
  case isTrue apart =>
    rw [ne_eq, startFirst] at apart
    simp only [BitVec.getLsbD_or, Bool.or_eq_true, getLsbD_maskBits bound inside]
    rw [startBit, endBit]
    refine ⟨(or_iff_left ?_).symm, or_congr_right ?_⟩
    all_goals
      unfold span at *
      rcases b.unit_cases with unit | unit <;> rw [unit] at apart near ⊢ <;> omega
  case isFalse together =>
  split
  case isTrue apart =>
    rw [ne_eq, endFirst] at apart
    rw [not_not, startFirst] at together
    simp only [BitVec.getLsbD_or, Bool.or_eq_true, getLsbD_maskBits bound inside,
      getLsbD_maskBits (show 63 < 64 by decide) inside]
    rw [startBit, endBit]
    refine ⟨or_congr_right ?_, or_congr_right ?_⟩
    all_goals
      unfold span at *
      rcases b.unit_cases with unit | unit <;> rw [unit] at apart near together ⊢ <;> omega
  case isFalse whole =>
    rw [not_not, endFirst] at whole
    rw [not_not, startFirst] at together
    simp only [BitVec.getLsbD_or, Bool.or_eq_true, getLsbD_maskBits bound inside]
    rw [startBit, endBit]
    refine ⟨or_congr_right ?_, (or_iff_left ?_).symm⟩
    all_goals
      unfold span at *
      rcases b.unit_cases with unit | unit <;> rw [unit] at near together whole ⊢ <;> omega

/-! ## A block of ranges -/

/-- The marks of a list of ranges. -/
def markRanges (b : CodeBlock) (ranges : List (Nat × Nat)) : CodeBlock :=
  ranges.foldl (fun b r => b.markCodePresent (b.addrAt r.1) r.2) b

theorem markInsns_eq (off : Nat) (is : List Insn) :
    b.markInsns off is = b.markRanges (blockMarks off is) := by
  induction is generalizing b off with
  | nil => rfl
  | cons i is ih =>
    rw [markInsns, ih, blockMarks, markRanges, markRanges, List.foldl_append, List.foldl_map]
    rfl

theorem covered_cons {r : Nat × Nat} {ranges : List (Nat × Nat)} {o : Nat} :
    Covered (r :: ranges) o ↔ (r.1 ≤ o ∧ o < r.1 + r.2) ∨ Covered ranges o := by
  simp only [Covered, List.mem_cons, exists_eq_or_imp]

/-- Where a byte lies does not depend on the masks. -/
theorem places_congr {b' : CodeBlock} (pc : b'.pc = b.pc) (flags : b'.flags = b.flags) (o : Nat) :
    (b'.InFirst (b'.addrAt o) ↔ b.InFirst (b.addrAt o)) ∧
      (b'.InSecond (b'.addrAt o) ↔ b.InSecond (b.addrAt o)) ∧
      b'.granule (b'.addrAt o) = b.granule (b.addrAt o) := by
  unfold InFirst InSecond granule addrAt span unit
  rw [pc, flags]
  exact ⟨Iff.rfl, Iff.rfl, rfl⟩

theorem markRanges_frame (ranges : List (Nat × Nat)) :
    (b.markRanges ranges).pc = b.pc ∧ (b.markRanges ranges).flags = b.flags := by
  induction ranges generalizing b with
  | nil => exact ⟨rfl, rfl⟩
  | cons r ranges ih =>
    obtain ⟨mask, mask2, marked⟩ := Machine.markCodePresent_eq b (b.addrAt r.1) r.2
    obtain ⟨pc, flags⟩ := ih (b := b.markCodePresent (b.addrAt r.1) r.2)
    rw [markRanges, List.foldl_cons]
    exact ⟨pc.trans (by rw [marked]), flags.trans (by rw [marked])⟩

/-- Ranges near the block's start add their granules, whatever order they come in. -/
theorem markRanges_bits {ranges : List (Nat × Nat)} (valid : b.pc < 2 ^ 32)
    (near : ∀ o, Covered ranges o → b.pc % b.span + o < 2 * b.span) (inside : g < 64) :
    ((b.markRanges ranges).pageMask.getLsbD g = true ↔
      b.pageMask.getLsbD g = true ∨
        ∃ o, Covered ranges o ∧ b.InFirst (b.addrAt o) ∧ b.granule (b.addrAt o) = g) ∧
    ((b.markRanges ranges).pageMask2.getLsbD g = true ↔
      b.pageMask2.getLsbD g = true ∨
        ∃ o, Covered ranges o ∧ b.InSecond (b.addrAt o) ∧ b.granule (b.addrAt o) = g) := by
  induction ranges generalizing b with
  | nil =>
    have empty : ∀ o, ¬ Covered [] o := fun o => by simp [Covered]
    simp only [empty, false_and, exists_false, or_false]
    exact ⟨Iff.rfl, Iff.rfl⟩
  | cons r ranges ih =>
    obtain ⟨mask, mask2, marked⟩ := Machine.markCodePresent_eq b (b.addrAt r.1) r.2
    have rest := ih (b := b.markCodePresent (b.addrAt r.1) r.2) (by rw [marked]; exact valid)
      (by
        rw [marked]
        exact fun o covered => near o (covered_cons.mpr (.inr covered)))
    have one : ((b.markCodePresent (b.addrAt r.1) r.2).pageMask.getLsbD g = true ↔
        b.pageMask.getLsbD g = true ∨ ∃ o, (r.1 ≤ o ∧ o < r.1 + r.2) ∧
          b.InFirst (b.addrAt o) ∧ b.granule (b.addrAt o) = g) ∧
        ((b.markCodePresent (b.addrAt r.1) r.2).pageMask2.getLsbD g = true ↔
        b.pageMask2.getLsbD g = true ∨ ∃ o, (r.1 ≤ o ∧ o < r.1 + r.2) ∧
          b.InSecond (b.addrAt o) ∧ b.granule (b.addrAt o) = g) := by
      obtain ⟨s, len⟩ := r
      cases len with
      | zero =>
        have empty : ∀ o, ¬ (s ≤ o ∧ o < s + 0) := fun o => by omega
        simp only [empty, false_and, exists_false, or_false]
        exact ⟨Iff.rfl, Iff.rfl⟩
      | succ len =>
        have last := near (s + len) (covered_cons.mpr (.inl ⟨by omega, by dsimp only; omega⟩))
        have bits := markCodePresent_bits valid last inside
        have bounds : ∀ o, s ≤ o ∧ o < s + (len + 1) ↔ s ≤ o ∧ o ≤ s + len :=
          fun o => by omega
        simp only [bounds]
        exact bits
    have pc : (b.markCodePresent (b.addrAt r.1) r.2).pc = b.pc := by rw [marked]
    have flags : (b.markCodePresent (b.addrAt r.1) r.2).flags = b.flags := by rw [marked]
    simp only [(places_congr pc flags _).1, (places_congr pc flags _).2.1,
      (places_congr pc flags _).2.2] at rest
    rw [markRanges, List.foldl_cons]
    simp only [covered_cons, or_and_right, exists_or]
    rw [← or_assoc, ← or_assoc, ← one.1, ← one.2]
    exact rest

end CodeBlock

/-! ## A block of instructions -/

open CodeBlock

variable {b : CodeBlock} {is : List Insn}

/-- A marked range ends with the instruction, or with the eight bytes of a call. -/
theorem Insn.marks_le {i : Insn} {r : Nat × Nat} (member : r ∈ i.marks) :
    r.1 + r.2 ≤ max i.len 9 := by
  simp only [Insn.marks, List.cons_append, List.mem_cons, List.mem_append] at member
  rcases member with rfl | operand | call
  · have := i.opcode_le
    dsimp only
    omega
  · have := i.operands_inside r operand
    omega
  · split at call
    · rw [List.mem_singleton] at call
      subst call
      exact Nat.le_max_right ..
    · simp at call

theorem and_bit_ne_zero {mask : BitVec 64} {g : Nat} (inside : g < 64)
    (bit : mask.getLsbD g = true) : mask &&& (1#64 <<< g) ≠ 0 := by
  intro zero
  have same : (mask &&& (1#64 <<< g)).getLsbD g = false := by simp [zero]
  rw [BitVec.getLsbD_and, bit, BitVec.getLsbD_shiftLeft] at same
  simp [inside] at same

/-- With a reserve of 25 bytes for the last instruction the limit keeps the block in two pages. -/
theorem marked_near {from_ off : Nat} (limit : withinLimit (maxBlockSize b) from_ is = true)
    (short : ∀ i ∈ is, i.len ≤ 25) (covered : Covered (blockMarks from_ is) off) :
    b.pc % b.span + off < 2 * b.span := by
  have start : b.pc % b.span + maxBlockSize b + 25 ≤ 2 * b.span := by
    unfold span unit maxBlockSize
    split <;> omega
  have first : b.pc % b.span + 25 ≤ 2 * b.span := by
    unfold span unit
    split <;> omega
  induction is generalizing from_ with
  | nil => simp [Covered, blockMarks] at covered
  | cons i is ih =>
    simp only [withinLimit, decide_eq_true_eq] at limit
    obtain ⟨r, member, low, high⟩ := covered
    rw [blockMarks, List.mem_append] at member
    rcases member with here | later
    · obtain ⟨r', mark, rfl⟩ := List.mem_map.mp here
      have ends := Insn.marks_le mark
      have len := short i (.head _)
      dsimp only at high
      rcases limit.1 with begin_ | below <;> omega
    · exact ih limit.2 (fun j member => short j (.tail _ member)) ⟨r, later, low, high⟩

section Halt

/-- `HLT`, which the interpreter's handler executes. -/
def hlt : Insn where
  len := 1
  opcode := 1
  operands := []
  interpreted := true
  opcode_pos := Nat.one_pos
  opcode_le := Nat.le_refl 1
  operands_inside := by simp

/-- An empty block at 0x1000 whose masks have a bit for each byte. -/
def byteBlock : CodeBlock :=
  { CodeBlock.zero with pc := 0x1000, flags := { BlockFlags.none with byteMask := true } }

end Halt

end PCemWeb.Codegen
