import PCemWeb.Codegen.EffectiveAddressExact

/-!
# The operands of the stack instructions

The stack instructions have their operand without an instruction pointer and with inlined
immediates. Theirs are the same addresses and the same code.
-/

namespace PCemWeb

open Lib Cpu

section StackInstructions

variable {i : EaInsn} (memory : i.mod ≠ 3)

theorem modrm_fields (i : EaInsn) : (byteLane i.fetchdat 0).extractLsb' 6 2 = i.mod ∧
    (byteLane i.fetchdat 0).extractLsb' 0 3 = i.rm := by
  constructor
  · apply BitVec.eq_of_getLsbD_eq
    intro k inside
    rw [BitVec.getLsbD_extractLsb', getLsbD_byteLane (by omega), EaInsn.mod,
      BitVec.getLsbD_extractLsb', Nat.mul_zero, Nat.zero_add]
  · apply BitVec.eq_of_getLsbD_eq
    intro k inside
    rw [BitVec.getLsbD_extractLsb', getLsbD_byteLane (by omega), EaInsn.rm,
      BitVec.getLsbD_extractLsb', Nat.mul_zero, Nat.zero_add]

/-- The operand as the stack instructions have it. -/
def EaInsn.modRm (i : EaInsn) (memory : i.mod ≠ 3) : ModRm where
  modrm := byteLane i.fetchdat 0
  memory := (modrm_fields i).1.symm ▸ memory
  code := fun n => i.mem.byte (i.cs + (i.pc + 1) + BitVec.ofNat 32 n)
  ssegs := i.ssegs
  eaSeg := i.eaSeg
  a32 := i.a32

theorem modRm_mod : (i.modRm memory).mod = i.mod := (modrm_fields i).1

theorem modRm_rm : (i.modRm memory).rm = i.rm := (modrm_fields i).2

theorem sib_byte : (i.modRm memory).code 0 = byteLane i.fetchdat 1 := by
  have place : i.cs + (i.pc + 1) + BitVec.ofNat 32 0 = i.cs + i.pc + BitVec.ofNat 32 1 := by
    bv_omega
  rw [i.fetched 1 (by decide)]
  exact congrArg i.mem.byte place

theorem extract_byteLane {j lo len : Nat} (x : BitVec 32) (inside : lo + len ≤ 8) :
    (byteLane x j).extractLsb' lo len = x.extractLsb' (8 * j + lo) len := by
  apply BitVec.eq_of_getLsbD_eq
  intro k small
  rw [BitVec.getLsbD_extractLsb', BitVec.getLsbD_extractLsb', getLsbD_byteLane (by omega),
    Nat.add_assoc]

theorem modRm_base : (i.modRm memory).base = i.base := by
  rw [ModRm.base, sib_byte, extract_byteLane _ (by decide), EaInsn.base]

theorem modRm_index : (i.modRm memory).index = i.index := by
  rw [ModRm.index, sib_byte, extract_byteLane _ (by decide), EaInsn.index]

theorem modRm_scale : (i.modRm memory).scale = i.scale := by
  rw [ModRm.scale, sib_byte, extract_byteLane _ (by decide), EaInsn.scale]

theorem le32_code (n : Nat) : le32 (i.modRm memory).code n =
    readl i.mem.byte (i.cs + (i.pc + 1) + BitVec.ofNat 32 n) := by
  have byte (k : Nat) : (i.modRm memory).code (n + k) =
      i.mem.byte (i.cs + (i.pc + 1) + BitVec.ofNat 32 n + BitVec.ofNat 32 k) := by
    change i.mem.byte _ = _
    rw [BitVec.ofNat_add, ← BitVec.add_assoc]
  rw [le32, byte 3, byte 2, byte 1]
  rfl

theorem le16_code : (le16 (i.modRm memory).code 0).setWidth 32 =
    readw i.mem.byte (i.cs + (i.pc + 1)) := by
  have byte : (i.modRm memory).code 0 = i.mem.byte (i.cs + (i.pc + 1)) :=
    congrArg i.mem.byte (BitVec.add_zero _)
  rw [le16, readw, byte]
  rfl

theorem mod1ss_modRm : (i.modRm memory).mod1ss = i.mod1ss := by
  rw [ModRm.mod1ss, modRm_rm, EaInsn.mod1ss]

theorem mod1add_modRm (regs : IRegs) : mod1add regs (i.modRm memory) = i.mod1add regs := by
  rw [mod1add, EaInsn.mod1add, modRm_rm]

theorem fetchEa16Long_modRm (regs : IRegs) :
    fetchEa16Long regs (i.modRm memory) = ((i.fetchEa16Long regs (i.pc + 1)).eaaddr,
      (i.fetchEa16Long regs (i.pc + 1)).seg) := by
  unfold fetchEa16Long EaInsn.fetchEa16Long
  rw [modRm_mod, modRm_rm, le16_code, mod1ss_modRm, mod1add_modRm, sib_byte]
  split
  · rfl
  · dsimp only
    rcases mod_cases memory with mod | mod | mod <;> rw [mod] <;> rfl

theorem sibBase_modRm (regs : IRegs) :
    (if i.mod = 0 then if i.base = 5 then le32 (i.modRm memory).code 1 else regs i.base.toNat
      else if i.mod = 1 then ((i.modRm memory).code 1).signExtend 32 + regs i.base.toNat
      else le32 (i.modRm memory).code 1 + regs i.base.toNat) =
    (i.fetchSibBase regs (i.pc + 1)).1 := by
  have next : i.cs + (i.pc + 1) + BitVec.ofNat 32 1 = i.cs + (i.pc + 1 + 1) :=
    BitVec.add_assoc _ _ _
  have byte : (i.modRm memory).code 1 = i.mem.byte (i.cs + (i.pc + 1 + 1)) :=
    congrArg i.mem.byte next
  rw [EaInsn.fetchSibBase, le32_code, byte]
  rcases mod_cases memory with mod | mod | mod <;> rw [mod]
  · rw [if_pos rfl, if_pos rfl, next]
    split
    · rfl
    · rfl
  · rfl
  · rfl

theorem fetchEa32Long_modRm (regs : IRegs) :
    fetchEa32Long regs (i.modRm memory) = ((i.fetchEa32Long regs (i.pc + 1)).eaaddr,
      (i.fetchEa32Long regs (i.pc + 1)).seg) := by
  unfold fetchEa32Long EaInsn.fetchEa32Long
  rw [modRm_mod, modRm_rm, modRm_base, modRm_index, modRm_scale]
  split
  case isTrue =>
    have pair : ∀ base : BitVec 3, (base = 4 ∨ base = 5) = (base.extractLsb' 1 2 = 2) := by
      intro base
      apply propext
      revert base
      decide
    dsimp only
    simp only [sibBase_modRm memory, pair]
    rw [ite_not]
    rfl
  case isFalse =>
    have here : le32 (i.modRm memory).code 0 = readl i.mem.byte (i.cs + (i.pc + 1)) := by
      rw [le32_code]
      exact congrArg _ (BitVec.add_zero _)
    rw [here, sib_byte, ite_not]
    split
    · split
      · rfl
      · rfl
    · split
      · rfl
      · rfl

/-- The stack instructions compute the same address. -/
theorem fetchEa_modRm (regs : IRegs) : ∃ pc, (i.fetchEa regs).1 =
    some ⟨(fetchEa regs (i.modRm memory)).1, (fetchEa regs (i.modRm memory)).2, pc⟩ := by
  rw [EaInsn.fetchEa, if_pos memory, fetchEa, fetchEa32Long_modRm, fetchEa16Long_modRm,
    show (i.modRm memory).a32 = i.a32 from rfl]
  dsimp only
  split
  · exact ⟨_, rfl⟩
  · exact ⟨_, rfl⟩

theorem codegenGenerateEa16Long_modRm : i.codegenGenerateEa16Long.uops =
      (codegenGenerateEa16Long (i.modRm memory)).1.map .uop ∧
    i.codegenGenerateEa16Long.seg = (codegenGenerateEa16Long (i.modRm memory)).2 := by
  unfold EaInsn.codegenGenerateEa16Long codegenGenerateEa16Long
  rw [modRm_mod, modRm_rm, le16_code, ← imm16_eq, mod1ss_modRm, sib_byte]
  split
  · exact ⟨rfl, rfl⟩
  · have base : IREG_32 (ea16Base (i.modRm memory)) = i.baseReg := by
      rw [ea16Base, EaInsn.baseReg, modRm_rm]
      split
      · rfl
      · split
        · rfl
        · split
          · rfl
          · rfl
    rw [base]
    refine ⟨?_, rfl⟩
    rcases mod_cases memory with mod | mod | mod <;> rw [mod]
    · split
      · rfl
      · rfl
    · split
      · rfl
      · rfl
    · split
      · rfl
      · rfl

theorem codegenSibBase_modRm (inlined : i.noImmediates = false) : i.codegenSibBase.1 =
    (if i.mod = 0 then
        if i.base = 5 then [.movImm IREG_eaaddr (le32 (i.modRm memory).code 1)]
        else [.mov IREG_eaaddr (IREG_32 i.base)]
      else if i.mod = 1 then
        [.movImm IREG_eaaddr (((i.modRm memory).code 1).signExtend 32),
          .add IREG_eaaddr IREG_eaaddr (IREG_32 i.base)]
      else
        [.movImm IREG_eaaddr (le32 (i.modRm memory).code 1),
          .add IREG_eaaddr IREG_eaaddr (IREG_32 i.base)]).map .uop := by
  have next : i.cs + (i.pc + 1) + BitVec.ofNat 32 1 = i.cs + (i.pc + 1 + 1) :=
    BitVec.add_assoc _ _ _
  have byte : (i.modRm memory).code 1 = i.sibImm8 := by
    rw [sibImm8_eq]
    exact congrArg i.mem.byte next
  unfold EaInsn.codegenSibBase EaInsn.loadDisp32
  rw [inlined, byte, le32_code]
  rcases mod_cases memory with mod | mod | mod <;> rw [mod]
  · rw [if_pos rfl, if_pos rfl]
    split
    · rfl
    · rfl
  · rfl
  · rfl

theorem codegenSibIndex_modRm : i.codegenSibIndex =
    (if i.index = 4 then []
      else if i.scale = 0 then [StackUop.add IREG_eaaddr IREG_eaaddr (IREG_32 i.index)]
      else [.addLshift IREG_eaaddr IREG_eaaddr (IREG_32 i.index) i.scale.toNat]).map .uop := by
  rw [EaInsn.codegenSibIndex, ite_not]
  split
  · rfl
  · split
    · rfl
    · rfl

theorem codegenGenerateEa32Long_modRm (inlined : i.noImmediates = false) (k : BitVec 32) :
    (i.codegenGenerateEa32Long k).uops =
        (codegenGenerateEa32Long (i.modRm memory) k).1.map .uop ∧
      (i.codegenGenerateEa32Long k).seg = (codegenGenerateEa32Long (i.modRm memory) k).2 := by
  unfold EaInsn.codegenGenerateEa32Long codegenGenerateEa32Long
  rw [modRm_mod, modRm_rm, modRm_base, modRm_index, modRm_scale]
  split
  case isTrue =>
    refine ⟨?_, rfl⟩
    dsimp only
    rw [codegenSibBase_modRm memory inlined, codegenSibIndex_modRm, List.map_append,
      List.map_append]
    have pushed : k ≠ 0 ∧ i.base = 4 ∧ (i.mod ≠ 0 ∨ i.base ≠ 5) ↔ k ≠ 0 ∧ i.base = 4 :=
      and_congr_right fun _ => and_iff_left_of_imp fun esp => Or.inr (by rw [esp]; decide)
    rw [if_congr pushed rfl rfl]
    congr 2
    split
    · rfl
    · rfl
  case isFalse =>
    have here : le32 (i.modRm memory).code 0 = readl i.mem.byte (i.cs + (i.pc + 1)) := by
      rw [le32_code]
      exact congrArg _ (BitVec.add_zero _)
    unfold EaInsn.loadDisp32
    rw [here, sib_byte, inlined, BitVec.add_assoc]
    split
    · exact ⟨rfl, rfl⟩
    · refine ⟨?_, rfl⟩
      rcases mod_cases memory with mod | mod | mod <;> rw [mod]
      · rfl
      · rfl
      · rfl

/-- In blocks with inlined immediates it is the same code. -/
theorem codegenGenerateEa_modRm (inlined : i.noImmediates = false) (k : BitVec 32) : ∃ opPc,
    i.codegenGenerateEa k = some ⟨(codegenGenerateEa (i.modRm memory) k).1.map .uop,
      (codegenGenerateEa (i.modRm memory) k).2, opPc⟩ := by
  rw [EaInsn.codegenGenerateEa, if_neg memory, codegenGenerateEa,
    show (i.modRm memory).a32 = i.a32 from rfl]
  split
  · obtain ⟨uops, seg⟩ := codegenGenerateEa32Long_modRm memory inlined k
    exact ⟨_, by rw [← uops, ← seg]⟩
  · obtain ⟨uops, seg⟩ := codegenGenerateEa16Long_modRm memory
    exact ⟨_, by rw [← uops, ← seg]⟩

end StackInstructions
end PCemWeb
