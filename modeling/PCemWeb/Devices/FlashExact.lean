import Mathlib.Algebra.Order.Ring.Nat
import Mathlib.Data.List.Induction
import PCemWeb.Devices.Flash

/-!
# What a flash part keeps

The behaviour of the part over whole sequences of guest accesses: which bytes a write may change,
that the readers agree, and that a session's blocks come back in the next one.
-/

namespace PCemWeb

open Lib

/-! ## The statement -/

/-- The array index lies in a block of the part. -/
def FlashType.Within (t : FlashType) (b : FlashBlock) (i : Nat) : Prop :=
  Segment.Has (t.blockStart b, t.blockLen b) i

namespace Flash

/-- A write confirms an erase at an address of a block that may be erased. -/
def Erases (s : Flash) (addr : Nat) (val : BitVec 8) (b : FlashBlock) : Prop :=
  s.command = CMD_ERASE_SETUP ∧ val = CMD_ERASE_CONFIRM ∧ b ≠ .boot ∧
    s.type.Within b (s.byteIndex addr)

/-- The bytes of the boot block are those of an earlier state. -/
def BootKept (s t : Flash) : Prop := ∀ i, s.type.Within .boot i → t.array i = s.array i

/-- A byte write changes the array as the part's data sheet says. -/
structure WriteExact (s : Flash) (addr : Nat) (val : BitVec 8) : Prop where
  erased : ∀ b, s.Erases addr val b → ∀ i,
    s.type.Within b i → (s.write addr val).array i = 0xff
  spared : ∀ b, s.Erases addr val b → ∀ i,
    ¬s.type.Within b i → (s.write addr val).array i = s.array i
  programmed : s.command = CMD_PROGRAM_SETUP → ∀ i,
    i ≠ s.byteIndex addr → (s.write addr val).array i = s.array i
  quiet : s.command ≠ CMD_PROGRAM_SETUP → (∀ b, ¬s.Erases addr val b) →
    (s.write addr val).array = s.array

/-- An access changes the array as it should. -/
def StepExact (s : Flash) : FlashOp → Prop
  | .writeb addr val => s.WriteExact addr val
  | op => (s.step op).array = s.array

/-- Neither the identifier nor the status is being read. -/
def ReadsArray (s : Flash) : Prop := s.command ≠ CMD_IID ∧ s.command ≠ CMD_READ_STATUS

/-- Word and long reads inside a page are the bytes that byte reads see; the memory layer splits
an access that crosses a page. -/
structure ReadsAgree (s : Flash) : Prop where
  byte : ∀ addr, s.ReadsArray → s.read addr = s.array (s.byteIndex addr)
  word : ∀ addr, s.ReadsArray → addr % 4096 + 1 < 4096 →
    s.readw addr = s.read (addr + 1) ++ s.read addr
  long : ∀ addr, s.ReadsArray → addr % 4096 + 3 < 4096 →
    s.readl addr = s.read (addr + 3) ++ s.read (addr + 2) ++ s.read (addr + 1) ++ s.read addr

/-- A part of the same type that starts from the file of this one has its blocks. -/
def Restored (s : Flash) : Prop :=
  ∀ flashId rom b i, b ≠ .boot → s.type.Within b i →
    (init s.type flashId rom (some s.close)).array i = s.array i

/-- A sequence of guest accesses keeps to the part's semantics throughout. -/
structure RunExact (s₀ : Flash) (ops : List FlashOp) : Prop where
  boot : ∀ done rest, ops = done ++ rest → BootKept s₀ (s₀.after done)
  steps : ∀ done op rest, ops = done ++ op :: rest → (s₀.after done).StepExact op
  reads : ∀ done rest, ops = done ++ rest → (s₀.after done).ReadsAgree
  restored : ∀ done rest, ops = done ++ rest → (s₀.after done).Restored

/-! ## The writes that go wrong -/

/-- A program cycle reaches the part of the boot block that the mask compare leaves open, with a
new value. -/
def ProgramsBoot (s : Flash) (addr : Nat) (val : BitVec 8) : Prop :=
  s.command = CMD_PROGRAM_SETUP ∧ s.type.Within .boot (s.byteIndex addr) ∧
    s.byteIndex addr &&& 0x3e000 ≠ s.type.blockStart .boot &&& 0x3e000 ∧
    val ≠ s.array (s.byteIndex addr)

/-- An erase is confirmed in the second main block, which the loop leaves out, and the block is not
erased already. -/
def ErasesMain2 (s : Flash) (addr : Nat) (val : BitVec 8) : Prop :=
  s.Erases addr val .main2 ∧ ∃ i, s.type.Within .main2 i ∧ s.array i ≠ 0xff

/-- An erase is confirmed in the second parameter block of the 1 Mbit bottom-boot part, whose table
entry lies inside the main block, and the rest of the main block is not erased already. -/
def ErasesOverlap (s : Flash) (addr : Nat) (val : BitVec 8) : Prop :=
  s.type.twoMbit = false ∧ s.type.isBxb = true ∧ s.Erases addr val .data2 ∧
    ∃ i, s.type.Within .main i ∧ ¬s.type.Within .data2 i ∧ s.array i ≠ 0xff

/-- The access reaches one of the three slips. -/
def Slips (s : Flash) : FlashOp → Prop
  | .writeb addr val =>
      s.ProgramsBoot addr val ∨ s.ErasesMain2 addr val ∨ s.ErasesOverlap addr val
  | _ => False

end Flash

/-! ## Block tables -/

namespace FlashType

variable {t : FlashType} {b b' : FlashBlock} {i : Nat}

/-- `block_end` is the last byte of a block, the empty second main block of a 1 Mbit part apart. -/
theorem within_iff_blockEnd (listed : b ≠ .main2) :
    t.blockStart b ≤ i ∧ i ≤ t.blockEnd b ↔ t.Within b i := by
  obtain ⟨_, isBxb, twoMbit⟩ := t
  unfold Within Segment.Has
  cases twoMbit <;> cases isBxb <;> cases b <;>
    simp only [blockStart, blockEnd, blockLen, if_true, if_false, Bool.false_eq_true,
      ne_eq, not_true_eq_false] at listed ⊢ <;> omega

/-- Two blocks share an address only on the 1 Mbit bottom-boot part, where the second parameter
block lies in the main block. -/
theorem eq_of_within (left : t.Within b i) (right : t.Within b' i) :
    b = b' ∨ (t.twoMbit = false ∧ t.isBxb = true ∧
      ((b = .main ∧ b' = .data2) ∨ (b = .data2 ∧ b' = .main))) := by
  obtain ⟨_, isBxb, twoMbit⟩ := t
  unfold Within Segment.Has at left right
  cases twoMbit <;> cases isBxb <;> cases b <;> cases b' <;>
    simp only [blockStart, blockLen, if_true, if_false, Bool.false_eq_true] at left right <;>
    first
    | exact .inl rfl
    | exact .inr ⟨rfl, rfl, .inl ⟨rfl, rfl⟩⟩
    | exact .inr ⟨rfl, rfl, .inr ⟨rfl, rfl⟩⟩
    | omega

/-- The second parameter block of the 1 Mbit bottom-boot part is inside the main block. -/
theorem within_main_of_data2 (small : t.twoMbit = false) (bottom : t.isBxb = true)
    (inside : t.Within .data2 i) : t.Within .main i := by
  unfold Within Segment.Has at inside ⊢
  simp only [blockStart, blockLen, small, bottom, if_true, if_false, Bool.false_eq_true]
    at inside ⊢
  omega

end FlashType

namespace Flash

/-! ## Erasing -/

theorem memset_eq {array : Nat → BitVec 8} {seg : Nat × Nat} {i : Nat} :
    memset array seg.1 seg.2 i = if Segment.Has seg i then 0xff else array i := by
  unfold memset
  by_cases inside : Segment.Has seg i
  · have small : i - seg.1 < (List.replicate seg.2 (0xff : BitVec 8)).length := by
      have bounds := inside
      unfold Segment.Has at bounds
      rw [List.length_replicate]
      omega
    rw [if_pos inside, overlay, if_pos inside.1, List.getElem?_eq_getElem small, Option.getD_some,
      List.getElem_replicate]
  · rw [if_neg inside]
    apply overlay_of_outside
    unfold Segment.Has at inside
    rw [List.length_replicate]
    omega

/-- The loop body for a block of the table. -/
theorem erase_round {t : FlashType} {b : FlashBlock} (listed : b ≠ .main2) (addr i : Nat)
    (array : Nat → BitVec 8) :
    (t.Within b addr ∧ t.Within b i →
      (if t.blockStart b ≤ addr ∧ addr ≤ t.blockEnd b then
        memset array (t.blockStart b) (t.blockLen b) else array) i = 0xff) ∧
    (¬(t.Within b addr ∧ t.Within b i) →
      (if t.blockStart b ≤ addr ∧ addr ≤ t.blockEnd b then
        memset array (t.blockStart b) (t.blockLen b) else array) i = array i) := by
  have cover := FlashType.within_iff_blockEnd (t := t) (i := addr) listed
  have filled : memset array (t.blockStart b) (t.blockLen b) i = _ :=
    @memset_eq array (t.blockStart b, t.blockLen b) i
  constructor
  · rintro ⟨hit, inside⟩
    rw [if_pos (cover.mpr hit), filled]
    exact if_pos inside
  · intro apart
    by_cases hit : t.Within b addr
    · rw [if_pos (cover.mpr hit), filled]
      exact if_neg fun inside => apart ⟨hit, inside⟩
    · rw [if_neg (mt cover.mp hit)]

/-- The loop over some blocks fills those that hold the address. -/
theorem erase_loop {t : FlashType} {blocks : List FlashBlock} (listed : FlashBlock.main2 ∉ blocks)
    (addr i : Nat) (array : Nat → BitVec 8) :
    ((∃ b ∈ blocks, t.Within b addr ∧ t.Within b i) ∨ array i = 0xff →
      blocks.foldl (fun array b =>
        if t.blockStart b ≤ addr ∧ addr ≤ t.blockEnd b then
          memset array (t.blockStart b) (t.blockLen b) else array) array i = 0xff) ∧
    ((∀ b ∈ blocks, ¬(t.Within b addr ∧ t.Within b i)) →
      blocks.foldl (fun array b =>
        if t.blockStart b ≤ addr ∧ addr ≤ t.blockEnd b then
          memset array (t.blockStart b) (t.blockLen b) else array) array i = array i) := by
  induction blocks generalizing array with
  | nil =>
    constructor
    · rintro (⟨b, none, -⟩ | same)
      · cases none
      · exact same
    · intro _
      rfl
  | cons b blocks ih =>
    obtain ⟨apart, others⟩ := not_or.mp (mt List.mem_cons.mpr listed)
    obtain ⟨hit, miss⟩ := erase_round (t := t) (Ne.symm apart) addr i array
    obtain ⟨later, kept⟩ := ih others
      (if t.blockStart b ≤ addr ∧ addr ≤ t.blockEnd b then
        memset array (t.blockStart b) (t.blockLen b) else array)
    rw [List.foldl_cons]
    constructor
    · intro reached
      apply later
      by_cases here : t.Within b addr ∧ t.Within b i
      · exact .inr (hit here)
      · rw [miss here]
        rcases reached with ⟨other, listed, both⟩ | same
        · rcases List.mem_cons.mp listed with rfl | tail
          · exact absurd both here
          · exact .inl ⟨other, tail, both⟩
        · exact .inr same
    · intro none
      rw [kept fun other tail => none other (.tail _ tail), miss (none b (.head _))]

/-- The blocks of the loop are those that are neither the boot block nor the second main block. -/
theorem mem_erased_iff {b : FlashBlock} :
    b ∈ [FlashBlock.main, .data1, .data2] ↔ b ≠ .boot ∧ b ≠ .main2 := by
  cases b <;> decide

theorem erase_of_hit {t : FlashType} {b : FlashBlock} {addr i : Nat} (array : Nat → BitVec 8)
    (erasable : b ≠ .boot) (listed : b ≠ .main2) (hit : t.Within b addr) (inside : t.Within b i) :
    erase t addr array i = 0xff :=
  (erase_loop (by decide) addr i array).1
    (.inl ⟨b, mem_erased_iff.mpr ⟨erasable, listed⟩, hit, inside⟩)

theorem erase_of_miss {t : FlashType} {addr i : Nat} (array : Nat → BitVec 8)
    (none : ∀ b, b ≠ .boot → b ≠ .main2 → t.Within b addr → ¬t.Within b i) :
    erase t addr array i = array i :=
  (erase_loop (by decide) addr i array).2 fun b listed both =>
    none b (mem_erased_iff.mp listed).1 (mem_erased_iff.mp listed).2 both.1 both.2

/-! ## One write -/

section Write

variable (s : Flash) (addr : Nat) (val : BitVec 8)

theorem write_type : (s.write addr val).type = s.type := by
  unfold write
  dsimp only
  repeat' split
  all_goals rfl

variable {s val}

theorem write_confirmed (setup : s.command = CMD_ERASE_SETUP) (confirm : val = CMD_ERASE_CONFIRM) :
    (s.write addr val).array = erase s.type (s.byteIndex addr) s.array := by
  simp only [write, if_pos setup, if_pos confirm]

theorem write_abandoned (setup : s.command = CMD_ERASE_SETUP) (other : val ≠ CMD_ERASE_CONFIRM) :
    (s.write addr val).array = s.array := by
  simp only [write, if_pos setup, if_neg other]

/-- A program cycle changes the addressed byte, unless the mask compare refuses it. -/
theorem write_program (setup : s.command = CMD_PROGRAM_SETUP) (i : Nat) :
    (s.write addr val).array i =
      if i = s.byteIndex addr ∧ s.byteIndex addr &&& 0x3e000 ≠ s.type.blockStart .boot &&& 0x3e000
      then val else s.array i := by
  have apart : s.command ≠ CMD_ERASE_SETUP := by
    rw [setup]
    decide
  simp only [write, if_neg apart, if_pos setup]
  by_cases open_ : s.byteIndex addr &&& 0x3e000 ≠ s.type.blockStart .boot &&& 0x3e000
  · rw [if_pos open_]
    simp only [open_, ne_eq, not_false_eq_true, and_true]
  · rw [if_neg open_]
    simp only [open_, and_false, if_false]

theorem write_command (noErase : s.command ≠ CMD_ERASE_SETUP)
    (noProgram : s.command ≠ CMD_PROGRAM_SETUP) : (s.write addr val).array = s.array := by
  simp only [write, if_neg noErase, if_neg noProgram]
  split <;> rfl

end Write

/-! ## When a write is exact -/

section Exact

variable {s : Flash} {addr : Nat} {val : BitVec 8}

/-- Only the second main block holds an address in it, so the loop passes it over. -/
theorem erases_main2 (hit : s.Erases addr val .main2) :
    (s.write addr val).array = s.array := by
  obtain ⟨setup, confirm, -, here⟩ := hit
  rw [write_confirmed addr setup confirm]
  funext i
  apply erase_of_miss
  intro b _ listed there
  rcases FlashType.eq_of_within here there with same | ⟨-, -, ⟨none, -⟩ | ⟨none, -⟩⟩
  · exact absurd same.symm listed
  · cases none
  · cases none

/-- A confirmed erase that does not slip fills exactly the block. -/
theorem erases_exact {b : FlashBlock} (hit : s.Erases addr val b)
    (notMain2 : ¬s.ErasesMain2 addr val) (notOverlap : ¬s.ErasesOverlap addr val) (i : Nat) :
    (s.type.Within b i → (s.write addr val).array i = 0xff) ∧
      (¬s.type.Within b i → (s.write addr val).array i = s.array i) := by
  by_cases second : b = .main2
  · subst second
    rw [erases_main2 hit]
    exact ⟨fun inside => by_contra fun open_ => notMain2 ⟨hit, i, inside, open_⟩, fun _ => rfl⟩
  · obtain ⟨setup, confirm, erasable, here⟩ := hit
    rw [write_confirmed addr setup confirm]
    refine ⟨erase_of_hit _ erasable second here, fun outside => ?_⟩
    by_cases overlap : s.type.twoMbit = false ∧ s.type.isBxb = true ∧ b = .data2
    · obtain ⟨small, bottom, rfl⟩ := overlap
      by_cases inMain : s.type.Within .main i
      · have erased : s.array i = 0xff := by_contra fun open_ =>
          notOverlap ⟨small, bottom, ⟨setup, confirm, erasable, here⟩, i, inMain, outside, open_⟩
        rw [erased]
        have both := FlashType.within_main_of_data2 small bottom here
        exact erase_of_hit _ (by decide) (by decide) both inMain
      · apply erase_of_miss
        intro b' _ _ there
        rcases FlashType.eq_of_within here there with rfl | ⟨-, -, ⟨none, -⟩ | ⟨-, rfl⟩⟩
        · exact outside
        · cases none
        · exact inMain
    · apply erase_of_miss
      intro b' _ _ there
      rcases FlashType.eq_of_within here there with rfl | ⟨small, bottom, ⟨rfl, rfl⟩ | ⟨rfl, rfl⟩⟩
      · exact outside
      · exact fun inside => outside (FlashType.within_main_of_data2 small bottom inside)
      · exact absurd ⟨small, bottom, rfl⟩ overlap

/-- An erase leaves the boot block alone. -/
theorem boot_of_erase {i : Nat} (setup : s.command = CMD_ERASE_SETUP)
    (confirm : val = CMD_ERASE_CONFIRM) (inside : s.type.Within .boot i) :
    (s.write addr val).array i = s.array i := by
  rw [write_confirmed addr setup confirm]
  apply erase_of_miss
  intro b erasable _ _ there
  rcases FlashType.eq_of_within inside there with same | ⟨-, -, ⟨none, -⟩ | ⟨none, -⟩⟩
  · exact erasable same.symm
  · cases none
  · cases none

/-- A confirmed erase outside every block that may be erased changes nothing. -/
theorem erase_nowhere (setup : s.command = CMD_ERASE_SETUP) (confirm : val = CMD_ERASE_CONFIRM)
    (none : ∀ b, ¬s.Erases addr val b) : (s.write addr val).array = s.array := by
  rw [write_confirmed addr setup confirm]
  funext i
  apply erase_of_miss
  intro b erasable _ here
  exact absurd ⟨setup, confirm, erasable, here⟩ (none b)

/-- A write that does not slip is exact and keeps the boot block. -/
theorem write_exact (fine : ¬s.Slips (.writeb addr val)) :
    s.WriteExact addr val ∧ s.BootKept (s.write addr val) := by
  have notBoot : ¬s.ProgramsBoot addr val := fun slip => fine (.inl slip)
  have notMain2 : ¬s.ErasesMain2 addr val := fun slip => fine (.inr (.inl slip))
  have notOverlap : ¬s.ErasesOverlap addr val := fun slip => fine (.inr (.inr slip))
  have exact (b) (hit : s.Erases addr val b) := erases_exact hit notMain2 notOverlap
  refine ⟨⟨fun b hit i => (exact b hit i).1, fun b hit i => (exact b hit i).2, ?_, ?_⟩, ?_⟩
  · intro setup i apart
    rw [write_program addr setup]
    exact if_neg fun both => apart both.1
  · intro noProgram none
    by_cases setup : s.command = CMD_ERASE_SETUP
    · by_cases confirm : val = CMD_ERASE_CONFIRM
      · exact erase_nowhere setup confirm none
      · exact write_abandoned addr setup confirm
    · exact write_command addr setup noProgram
  · intro i inside
    by_cases setup : s.command = CMD_ERASE_SETUP
    · by_cases confirm : val = CMD_ERASE_CONFIRM
      · exact boot_of_erase setup confirm inside
      · rw [write_abandoned addr setup confirm]
    · by_cases program : s.command = CMD_PROGRAM_SETUP
      · rw [write_program addr program]
        split
        · rename_i reached
          rw [reached.1] at inside ⊢
          exact by_contra fun changed => notBoot ⟨program, inside, reached.2, changed⟩
        · rfl
      · rw [write_command addr setup program]

/-- A write that slips is not exact, or changes the boot block. -/
theorem not_write_exact (slip : s.Slips (.writeb addr val)) :
    ¬(s.WriteExact addr val ∧ s.BootKept (s.write addr val)) := by
  rintro ⟨exact, kept⟩
  rcases slip with ⟨setup, inside, open_, changed⟩ | ⟨hit, i, inside, changed⟩ |
    ⟨small, bottom, hit, i, inMain, outside, changed⟩
  · have same := kept _ inside
    rw [write_program addr setup, if_pos ⟨rfl, open_⟩] at same
    exact changed same
  · have filled := exact.erased _ hit i inside
    rw [erases_main2 hit] at filled
    exact changed filled
  · have same := exact.spared _ hit i outside
    obtain ⟨setup, confirm, -, here⟩ := hit
    have both := FlashType.within_main_of_data2 small bottom here
    rw [write_confirmed addr setup confirm,
      erase_of_hit _ (by decide) (by decide) both inMain] at same
    exact changed same.symm

end Exact

/-! ## Reads -/

/-- Flipping a bit above the page offset commutes with moving inside the page. -/
theorem xor_add_of_page {x j : Nat} (inside : x % 4096 + j < 4096) :
    (x + j) ^^^ 0x10000 = (x ^^^ 0x10000) + j := by
  have flip (a b : Nat) (small : b < 4096) :
      (4096 * a + b) ^^^ 0x10000 = 4096 * (a ^^^ 16) + b := by
    apply Nat.eq_of_testBit_eq
    intro k
    rw [Nat.testBit_xor, show 4096 = 2 ^ 12 by decide, Nat.testBit_two_pow_mul_add _ small,
      Nat.testBit_two_pow_mul_add _ small, show 0x10000 = 2 ^ 12 * 16 by decide,
      Nat.testBit_two_pow_mul]
    by_cases low : k < 12
    · simp [low, Nat.not_le.mpr low]
    · simp [low, Nat.not_lt.mp low]
  have split := Nat.div_add_mod x 4096
  calc (x + j) ^^^ 0x10000 = (4096 * (x / 4096) + (x % 4096 + j)) ^^^ 0x10000 := by
        rw [← Nat.add_assoc, split]
    _ = 4096 * (x / 4096 ^^^ 16) + (x % 4096 + j) := flip _ _ inside
    _ = (4096 * (x / 4096 ^^^ 16) + x % 4096) + j := by rw [Nat.add_assoc]
    _ = (x ^^^ 0x10000) + j := by rw [← flip _ _ (by omega), split]

section Reads

variable (s : Flash)

theorem and_addrMask (t : FlashType) (x : Nat) :
    x &&& t.addrMask = x % (if t.twoMbit then 0x40000 else 0x20000) := by
  unfold FlashType.addrMask
  split
  · exact Nat.and_two_pow_sub_one_eq_mod x 18
  · exact Nat.and_two_pow_sub_one_eq_mod x 17

/-- Masking first and inverting first give the same index. -/
theorem wideIndex_eq (addr : Nat) : s.wideIndex addr = s.byteIndex addr := by
  unfold wideIndex byteIndex
  split
  · rw [Nat.and_xor_distrib_right]
    congr 1
    unfold FlashType.addrMask
    split <;> rfl
  · rfl

theorem byteIndex_add {addr j : Nat} (inside : addr % 4096 + j < 4096) :
    s.byteIndex (addr + j) = s.byteIndex addr + j := by
  have masked (x : Nat) (room : x % 4096 + j < 4096) :
      (x + j) &&& s.type.addrMask = (x &&& s.type.addrMask) + j := by
    rw [and_addrMask, and_addrMask]
    split <;> omega
  unfold byteIndex
  split
  · have page : (addr ^^^ 0x10000) % 4096 = addr % 4096 := by
      rw [← Nat.and_two_pow_sub_one_eq_mod _ 12, ← Nat.and_two_pow_sub_one_eq_mod _ 12,
        Nat.and_xor_distrib_right, show 0x10000 &&& (2 ^ 12 - 1) = 0 by decide, Nat.xor_zero]
    rw [xor_add_of_page inside, masked _ (by omega)]
  · exact masked _ inside

theorem readsAgree : s.ReadsAgree := by
  have byte (addr : Nat) (array : s.ReadsArray) : s.read addr = s.array (s.byteIndex addr) := by
    simp only [read, if_neg array.1, if_neg array.2]
  refine ⟨byte, fun addr array inside => ?_, fun addr array inside => ?_⟩
  · rw [byte _ array, byte _ array, byteIndex_add s inside, ← wideIndex_eq]
    simp only [readw, if_neg array.1, if_neg array.2]
  · rw [byte _ array, byte _ array, byte _ array, byte _ array, byteIndex_add s inside,
      byteIndex_add s (j := 2) (by omega), byteIndex_add s (j := 1) (by omega), ← wideIndex_eq]
    rfl

end Reads

/-! ## Sessions -/

theorem mem_savedBlocks {t : FlashType} {b : FlashBlock} {i : Nat} (erasable : b ≠ .boot)
    (inside : t.Within b i) : ∃ seg ∈ savedBlocks t, Segment.Has seg i := by
  refine ⟨(t.blockStart b, t.blockLen b), ?_, inside⟩
  apply List.mem_map_of_mem
  cases twoMbit : t.twoMbit with
  | true =>
    rw [if_pos rfl]
    cases b <;> simp at erasable ⊢
  | false =>
    rw [if_neg Bool.false_ne_true]
    cases b with
    | boot => exact absurd rfl erasable
    | main2 =>
      unfold FlashType.Within Segment.Has at inside
      simp only [FlashType.blockLen, twoMbit, if_false, Bool.false_eq_true] at inside
      omega
    | main | data1 | data2 => simp

/-- The next session starts with the blocks of this one. -/
theorem restored (s : Flash) : s.Restored := by
  intro flashId rom b i erasable inside
  exact scatter_gather s.array (romArray s.type rom) (.inr (mem_savedBlocks erasable inside))

/-! ## Whole runs -/

theorem after_append (s : Flash) (ops : List FlashOp) (op : FlashOp) :
    s.after (ops ++ [op]) = (s.after ops).step op := by
  simp only [after, List.foldl_append, List.foldl_cons, List.foldl_nil]

theorem step_exact_iff (s : Flash) (op : FlashOp) :
    s.StepExact op ∧ s.BootKept (s.step op) ↔ ¬s.Slips op := by
  cases op with
  | writeb addr val =>
    constructor
    · intro exact slip
      exact not_write_exact slip exact
    · exact write_exact
  | readb | readw | readl | writew | writel =>
    exact ⟨fun _ none => none, fun _ => ⟨rfl, fun _ _ => rfl⟩⟩

theorem after_type (s : Flash) (ops : List FlashOp) : (s.after ops).type = s.type := by
  induction ops using List.reverseRecOn with
  | nil => rfl
  | append_singleton ops op ih =>
    rw [after_append, ← ih]
    cases op with
    | writeb addr val => exact write_type _ addr val
    | readb | readw | readl | writew | writel => rfl

/-- A part keeps to its semantics over a sequence of guest accesses, from whatever ROM image and
file it started, exactly when no access of the sequence reaches one of the three slips. -/
theorem runExact_iff (t : FlashType) (flashId : BitVec 8) (rom : Nat → BitVec 8)
    (file : Option (List (BitVec 8))) (ops : List FlashOp) :
    RunExact (init t flashId rom file) ops ↔
      ∀ done op rest, ops = done ++ op :: rest → ¬((init t flashId rom file).after done).Slips op :=
        by
  generalize init t flashId rom file = s₀
  have sameBoot (done : List FlashOp) : (s₀.after done).type = s₀.type := after_type s₀ done
  constructor
  · intro exact done op rest split slip
    apply (step_exact_iff _ op).mp _ slip
    refine ⟨exact.steps done op rest split, fun i inside => ?_⟩
    rw [sameBoot] at inside
    have before := exact.boot done (op :: rest) split i inside
    have behind := exact.boot (done ++ [op]) rest (by rw [split]; simp) i inside
    rw [← after_append, behind, before]
  · intro fine
    have boot (done rest : List FlashOp) (split : ops = done ++ rest) :
        BootKept s₀ (s₀.after done) := by
      induction done using List.reverseRecOn generalizing rest with
      | nil => exact fun _ _ => rfl
      | append_singleton done op ih =>
        have cut : ops = done ++ op :: rest := by
          rw [split]
          simp
        have kept := ((step_exact_iff _ op).mpr (fine done op rest cut)).2
        intro i inside
        rw [after_append, kept i (by rw [sameBoot]; exact inside)]
        exact ih (op :: rest) cut i inside
    exact ⟨boot, fun done op rest split => ((step_exact_iff _ op).mpr (fine done op rest split)).1,
      fun _ _ _ => readsAgree _, fun _ _ _ => restored _⟩

theorem romArray_zero (t : FlashType) (i : Nat) : romArray t (fun _ => 0) i = 0 := by
  unfold romArray
  dsimp only
  repeat' split
  all_goals simp only [overlay_slice, ite_self]

/-- The 28FB200BX-T is given a program cycle in the upper half of its boot block. -/
theorem not_runExact_boot :
    ¬RunExact (init ⟨true, false, true⟩ 0x74 (fun _ => 0) none)
      [.writeb 0xfffee000 CMD_PROGRAM_SETUP, .writeb 0xfffee000 0x12] := by
  intro exact
  have kept := exact.boot _ [] (List.append_nil _).symm 0x3e000
    (show Segment.Has (0x3c000, 0x4000) 0x3e000 by decide)
  have setup : ((init ⟨true, false, true⟩ 0x74 (fun _ => 0) none).write 0xfffee000
      CMD_PROGRAM_SETUP).command = CMD_PROGRAM_SETUP := rfl
  have cycle : (((init ⟨true, false, true⟩ 0x74 (fun _ => 0) none).write 0xfffee000
      CMD_PROGRAM_SETUP).write 0xfffee000 0x12).array 0x3e000 = _ :=
    write_program 0xfffee000 setup 0x3e000
  rw [if_pos (by decide)] at cycle
  have start : (init ⟨true, false, true⟩ 0x74 (fun _ => 0) none).array =
      romArray ⟨true, false, true⟩ (fun _ => 0) := rfl
  rw [start, romArray_zero] at kept
  exact absurd (cycle.symm.trans kept) (by decide)

end Flash

end PCemWeb
