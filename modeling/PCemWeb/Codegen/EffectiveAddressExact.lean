import PCemWeb.Codegen.EffectiveAddress
import PCemWeb.Codegen.ImmediatesExact

/-!
# When the effective addresses agree

The emitted code is followed by what it leaves in `eaaddr`, with the general registers as they were.
The two sides compute the same address from the same registers; only the registers differ, where an
instruction has popped a word from the end of a 16-bit stack.
-/

namespace PCemWeb

open Lib Cpu

/-! ## Code by linear address -/

namespace CodeMem

variable (mem : CodeMem) {a : BitVec 32} {j : Nat}

theorem pageBase_cache (page : BitVec 20) :
    pageBase mem.pages mem.cache page = mem.pages.base page := by
  rw [pageBase]
  cases cached : cachedBase page mem.cache with
  | none => rfl
  | some base => exact mem.coherent page base cached

theorem byte_add (near : j < 4096) : mem.byte (a + BitVec.ofNat 32 j) =
    if pageOffset a + j < 4096 then mem.host (mem.pages.base (codePage a) + (pageOffset a + j))
    else mem.host (mem.pages.base (codePage a + 1) + (pageOffset a + j - 4096)) := by
  unfold byte
  split
  case isTrue inside =>
    obtain ⟨page, offset⟩ := page_add inside
    rw [page, offset]
  case isFalse outside =>
    obtain ⟨page, offset⟩ := page_next near (Nat.le_of_not_lt outside)
    rw [page, offset]

theorem loadedByte_eq (near : j < 4096) :
    loadedByte mem.pages mem.host a mem.cache j = mem.byte (a + BitVec.ofNat 32 j) := by
  rw [loadedByte, mem.pageBase_cache, mem.pageBase_cache, mem.byte_add near]

theorem fetchedByte_eq (near : j < 4096) :
    fetchedByte mem.pages mem.host a mem.cache j = mem.byte (a + BitVec.ofNat 32 j) := by
  rw [fetchedByte, mem.pageBase_cache, mem.byte_add near]

theorem byteLane_readl {m : LinMem} (inside : j < 4) :
    byteLane (readl m a) j = m (a + BitVec.ofNat 32 j) := by
  unfold readl
  match j with
  | 0 => rw [byteLane_append, if_pos rfl]; exact congrArg m (BitVec.add_zero a).symm
  | 1 => rw [byteLane_append, if_neg (by decide), byteLane_append, if_pos rfl]; rfl
  | 2 =>
    rw [byteLane_append, if_neg (by decide), byteLane_append, if_neg (by decide),
      byteLane_append, if_pos rfl]
    rfl
  | 3 =>
    rw [byteLane_append, if_neg (by decide), byteLane_append, if_neg (by decide),
      byteLane_append, if_neg (by decide), byteLane_self]
    rfl

theorem eq_readl {v : BitVec 32} (lanes : ∀ j < 4, byteLane v j = mem.byte
    (a + BitVec.ofNat 32 j)) :
    v = readl mem.byte a := by
  apply eq_of_byteLane
  intro j inside
  rw [lanes j (by omega), byteLane_readl (by omega)]

/-- The fetch that is modelled by `readl`. -/
theorem fastreadl_eq (ok : FetchOk 4 mem.pages a mem.cache) :
    ∃ c', fastreadl mem.pages mem.host a mem.cache = some (readl mem.byte a, c') := by
  obtain ⟨v, c', fetched, lanes⟩ := @fastreadl_ok mem.pages mem.host a mem.cache ok
  refine ⟨c', ?_⟩
  rw [fetched, mem.eq_readl fun j inside => (lanes j inside).trans
    (mem.fetchedByte_eq (Nat.lt_trans inside (by decide)))]

end CodeMem

/-! ## Loads of displacements -/

section Loads

variable {host : Nat → BitVec 8} {regs regs' : IRegs} {r : Nat}

/-- The register that is written. -/
def ImmUop.dest : ImmUop → Nat
  | .movRegPtr dest _ => dest.reg
  | .movzxRegPtr8 dest _ => dest.reg
  | .movzxRegPtr16 dest _ => dest.reg
  | .shlImm dest _ _ => dest.reg
  | .shrImm dest _ _ => dest.reg
  | .or dest _ _ => dest.reg

theorem frame_of_set {reg : Nat} {v : BitVec 32} (done : some (regs.set reg v) = some regs')
    (other : r ≠ reg) : regs' r = regs r := by
  obtain rfl := Option.some.inj done
  exact set_of_ne other

theorem frame_of_dst {dest : Ireg} {v : BitVec 32} (done : some (regs.dst dest v) = some regs')
    (other : r ≠ dest.reg) : regs' r = regs r := by
  obtain rfl := Option.some.inj done
  exact dst_of_ne other

theorem exec_frame {uop : ImmUop} (done : uop.exec host regs = some regs') (other : r ≠ uop.dest) :
    regs' r = regs r := by
  cases uop with
  | movRegPtr dest p => exact frame_of_set (Option.ite_none_right_eq_some.mp done).2 other
  | movzxRegPtr8 dest p =>
    unfold ImmUop.exec at done
    dsimp only at done
    split at done
    · exact frame_of_set done other
    · exact frame_of_dst (Option.ite_none_right_eq_some.mp done).2 other
  | movzxRegPtr16 dest p =>
    unfold ImmUop.exec at done
    dsimp only at done
    split at done
    · exact frame_of_set done other
    · exact frame_of_dst (Option.ite_none_right_eq_some.mp done).2 other
  | shlImm dest src imm => exact frame_of_dst (Option.ite_none_right_eq_some.mp done).2 other
  | shrImm dest src imm => exact frame_of_dst (Option.ite_none_right_eq_some.mp done).2 other
  | or dest srcA srcB => exact frame_of_dst done other

theorem runUops_frame {uops : List ImmUop} (done : runUops host uops regs = some regs')
    (others : ∀ uop ∈ uops, r ≠ uop.dest) : regs' r = regs r := by
  induction uops generalizing regs with
  | nil => cases done; rfl
  | cons uop uops ih =>
    obtain ⟨mid, first, rest⟩ := Option.bind_eq_some_iff.mp done
    obtain ⟨here, there⟩ := List.forall_mem_cons.mp others
    rw [ih rest there, exec_frame first here]

/-- The loads leave the double word, and touch `temp3` besides. -/
theorem run_loadImmediateFromRam32 (mem : CodeMem) {dest : Ireg} (whole : dest.size = .l)
    (apart : dest.reg ≠ 36) (a : BitVec 32) (regs : IRegs) : ∃ regs',
    runUops mem.host (loadImmediateFromRam32 mem.pages mem.cache dest a) regs = some regs' ∧
      regs'.src dest = readl mem.byte a ∧ ∀ r, r ≠ dest.reg → r ≠ 36 → regs' r = regs r := by
  obtain ⟨regs', run, lanes⟩ := @loaded_dword mem.pages mem.host a mem.cache
    ⟨dest, whole, apart⟩ regs
  refine ⟨regs', run, ?_, fun r other apart' => runUops_frame run ?_⟩
  · exact mem.eq_readl fun j inside => (lanes j inside).trans
      (mem.loadedByte_eq (Nat.lt_trans inside (by decide)))
  · change ∀ uop ∈ loadImmediateFromRam32 mem.pages mem.cache dest a, r ≠ uop.dest
    unfold loadImmediateFromRam32
    split
    · simp [loadImmediateFromRam32Unaligned, ImmUop.dest, IREG_temp3, other, apart']
    · simp [ImmUop.dest, other]

end Loads

/-! ## Emitted code -/

section Emitted

variable {loadseg : LoadSeg} {host : Nat → BitVec 8} {s : StackCpu} {uops uops' : List EaUop}
  {v w : BitVec 32} {reg : Nat}

theorem runEa_append : runEa loadseg host (uops ++ uops') s =
    runEa loadseg host uops s >>= runEa loadseg host uops' := by
  induction uops generalizing s with
  | nil => rfl
  | cons uop uops ih =>
    cases uop with
    | uop u => exact ih
    | imm u =>
      rw [List.cons_append, runEa, runEa, bind_assoc]
      exact congrArg _ (funext fun regs => ih)

theorem runEa_imm (imms : List ImmUop) : runEa loadseg host (imms.map .imm) s =
    (runUops host imms s.regs).map fun regs => { s with regs := regs } := by
  induction imms generalizing s with
  | nil => rfl
  | cons uop imms ih =>
    rw [List.map_cons, runEa, runUops]
    cases uop.exec host s.regs with
    | none => rfl
    | some regs => exact ih

/-- The code leaves `v` in `eaaddr`, and the general registers as they were. -/
def LeavesEa (loadseg : LoadSeg) (host : Nat → BitVec 8) (s : StackCpu) (uops : List EaUop)
    (v : BitVec 32) : Prop :=
  ∃ s', runEa loadseg host uops s = some s' ∧ s'.regs 14 = v ∧ ∀ r < 8, s'.regs r = s.regs r

/-- A micro-operation that computes `w` from `v` and the general registers into `eaaddr`. -/
theorem LeavesEa.uop {u : StackUop} (first : LeavesEa loadseg host s uops v)
    (writes : ∀ t : StackCpu, t.regs 14 = v → (∀ r < 8, t.regs r = s.regs r) →
      (u.exec loadseg t).regs = t.regs.set 14 w) :
    LeavesEa loadseg host s (uops ++ [.uop u]) w := by
  obtain ⟨t, run, value, general⟩ := first
  have written := writes t value general
  refine ⟨u.exec loadseg t, ?_, ?_, fun r low => ?_⟩
  · rw [runEa_append, run]
    rfl
  · rw [written]
    exact set_self 14
  · rw [written, set_of_ne (by omega), general r low]

theorem ne_eaaddr {r : Nat} (low : r < 8) : r ≠ IREG_eaaddr.reg := by
  change r ≠ 14
  omega

theorem leavesEa_mov :
    LeavesEa loadseg host s [.uop (.mov IREG_eaaddr ⟨reg, .l⟩)] (s.regs reg) :=
  ⟨_, rfl, rfl, fun _ low => set_of_ne (ne_eaaddr low)⟩

theorem leavesEa_movImm : LeavesEa loadseg host s [.uop (.movImm IREG_eaaddr v)] v :=
  ⟨_, rfl, rfl, fun _ low => set_of_ne (ne_eaaddr low)⟩

theorem LeavesEa.add (first : LeavesEa loadseg host s uops v) (general : reg < 8) :
    LeavesEa loadseg host s (uops ++ [.uop (.add IREG_eaaddr IREG_eaaddr ⟨reg, .l⟩)])
      (v + s.regs reg) :=
  first.uop fun t value same => by rw [← value, ← same reg general]; rfl

theorem LeavesEa.addLshift (first : LeavesEa loadseg host s uops v) (general : reg < 8)
    (shift : Nat) :
    LeavesEa loadseg host s (uops ++ [.uop (.addLshift IREG_eaaddr IREG_eaaddr ⟨reg, .l⟩ shift)])
      (v + s.regs reg <<< shift) :=
  first.uop fun t value same => by rw [← value, ← same reg general]; rfl

theorem LeavesEa.addImm (first : LeavesEa loadseg host s uops v) (imm : BitVec 32) :
    LeavesEa loadseg host s (uops ++ [.uop (.addImm IREG_eaaddr IREG_eaaddr imm)]) (v + imm) :=
  first.uop fun t value _ => by rw [← value]; rfl

theorem LeavesEa.andImm (first : LeavesEa loadseg host s uops v) (imm : BitVec 32) :
    LeavesEa loadseg host s (uops ++ [.uop (.andImm IREG_eaaddr (.ireg IREG_eaaddr) imm)])
      (v &&& imm) :=
  first.uop fun t value _ => by rw [← value]; rfl

variable (i : EaInsn)

/-- A displacement, inlined or loaded. -/
theorem runEa_loadDisp32 (loadseg : LoadSeg) {dest : Ireg} (whole : dest.size = .l)
    (apart : dest.reg ≠ 36)
    (opPc : BitVec 32) (s : StackCpu) : ∃ s',
    runEa loadseg i.mem.host (i.loadDisp32 dest opPc) s = some s' ∧
      s'.regs.src dest = readl i.mem.byte (i.cs + opPc + 1) ∧
      ∀ r, r ≠ dest.reg → r ≠ 36 → s'.regs r = s.regs r := by
  rw [EaInsn.loadDisp32]
  split
  case isTrue =>
    obtain ⟨regs', run, value, frame⟩ := run_loadImmediateFromRam32 i.mem whole apart
      (i.cs + opPc + 1) s.regs
    refine ⟨{ s with regs := regs' }, ?_, value, frame⟩
    rw [runEa_imm, run]
    rfl
  case isFalse =>
    obtain ⟨reg, size⟩ := dest
    obtain rfl : size = .l := whole
    exact ⟨_, rfl, set_self reg, fun r other _ => set_of_ne other⟩

theorem leavesEa_load (opPc : BitVec 32) :
    LeavesEa loadseg i.mem.host s (i.loadDisp32 IREG_eaaddr opPc)
      (readl i.mem.byte (i.cs + opPc + 1)) := by
  obtain ⟨s', run, value, frame⟩ := runEa_loadDisp32 i loadseg (show IREG_eaaddr.size = .l from rfl)
    (by decide) opPc s
  exact ⟨s', run, value, fun r low => frame r (ne_eaaddr low) (by omega)⟩

/-- A displacement that goes through `temp0`. -/
theorem LeavesEa.addLoad (first : LeavesEa loadseg i.mem.host s uops v) (opPc : BitVec 32) :
    LeavesEa loadseg i.mem.host s (uops ++ (i.loadDisp32 IREG_temp0 opPc ++
      [.uop (.add IREG_eaaddr IREG_eaaddr IREG_temp0)]))
      (v + readl i.mem.byte (i.cs + opPc + 1)) := by
  obtain ⟨t, run, value, general⟩ := first
  obtain ⟨t', run', loaded, frame⟩ := runEa_loadDisp32 i loadseg
    (show IREG_temp0.size = .l from rfl)
    (by decide) opPc t
  refine ⟨StackUop.exec loadseg t' (.add IREG_eaaddr IREG_eaaddr IREG_temp0), ?_, ?_,
    fun r low => ?_⟩
  · rw [runEa_append, run, Option.bind_eq_bind, Option.bind_some, runEa_append, run']
    rfl
  · rw [← value, ← loaded, ← frame 14 (by decide) (by decide)]
    rfl
  · rw [← general r low, ← frame r (by change r ≠ 33; omega) (by omega)]
    exact set_of_ne (ne_eaaddr low)

end Emitted

/-! ## Displacements -/

section Displacements

variable (i : EaInsn)

theorem sibImm8_eq : i.sibImm8 = i.mem.byte (i.cs + (i.pc + 1 + 1)) := by
  rw [EaInsn.sibImm8, i.fetched 2 (by decide)]
  exact congrArg _ (by bv_omega)

theorem imm16_eq : i.imm16.setWidth 32 = readw i.mem.byte (i.cs + (i.pc + 1)) := by
  have lane : ∀ j < 2, byteLane i.imm16 j = byteLane i.fetchdat (j + 1) := by
    intro j inside
    apply BitVec.eq_of_getLsbD_eq
    intro k small
    rw [getLsbD_byteLane small, getLsbD_byteLane small, EaInsn.imm16, BitVec.getLsbD_extractLsb',
      decide_eq_true (by omega), Bool.true_and]
    congr 1
    omega
  have bytes : i.imm16 =
      i.mem.byte (i.cs + (i.pc + 1) + 1) ++ i.mem.byte (i.cs + (i.pc + 1)) := by
    apply eq_of_byteLane
    intro j inside
    rw [lane j (by omega), i.fetched (j + 1) (by omega)]
    obtain rfl | rfl : j = 0 ∨ j = 1 := by omega
    · rw [byteLane_append, if_pos rfl]
      exact congrArg _ (by bv_omega)
    · rw [byteLane_append, if_neg (by decide), byteLane_self]
      exact congrArg _ (by bv_omega)
  rw [bytes, readw]

/-- Addresses of 16 bits are equal when their low halves are. -/
theorem and_0xffff_congr {x y : BitVec 32} (low : x.setWidth 16 = y.setWidth 16) :
    x &&& 0xffff = y &&& 0xffff := by
  apply BitVec.eq_of_getLsbD_eq
  intro k inside
  rw [BitVec.getLsbD_and, BitVec.getLsbD_and]
  rcases Nat.lt_or_ge k 16 with small | large
  · have bit := congrArg (BitVec.getLsbD · k) low
    simp only [BitVec.getLsbD_setWidth, decide_eq_true small, Bool.true_and] at bit
    rw [bit]
  · have clear : (0xffff : BitVec 32).getLsbD k = false :=
      Nat.testBit_lt_two_pow (Nat.lt_of_lt_of_le (by decide)
        (Nat.pow_le_pow_right (by decide) large))
    rw [clear, Bool.and_false, Bool.and_false]

theorem setWidth_and_0xffff (x : BitVec 32) : (x &&& 0xffff).setWidth 16 = x.setWidth 16 := by
  apply BitVec.eq_of_getLsbD_eq
  intro k small
  have set : (0xffff : BitVec 32).getLsbD k = true := by
    revert k
    decide
  rw [BitVec.getLsbD_setWidth, BitVec.getLsbD_setWidth, BitVec.getLsbD_and, set, Bool.and_true]

end Displacements

/-! ## 16-bit addresses -/

section Ea16

variable {loadseg : LoadSeg} {i : EaInsn} {s : StackCpu}

/-- Base and index, of which the low halves are the interpreter's. -/
theorem leavesEa_indexed : ∃ v, LeavesEa loadseg i.mem.host s
    ([.uop (.mov IREG_eaaddr i.baseReg)] ++
      if i.rm.getLsbD 2 = false then
        [.uop (.add IREG_eaaddr IREG_eaaddr
          (if i.rm.getLsbD 0 = false then IREG_ESI else IREG_EDI))]
      else []) v ∧ v.setWidth 16 = (i.mod1add s.regs).setWidth 16 := by
  have cases_ : ∀ rm : BitVec 3, rm = 0 ∨ rm = 1 ∨ rm = 2 ∨ rm = 3 ∨ rm = 4 ∨ rm = 5 ∨ rm = 6 ∨
    rm = 7 := by decide
  have low (reg : Nat) : (s.regs.src ⟨reg, .w⟩).setWidth 16 = (s.regs reg).setWidth 16 :=
    setWidth_and_0xffff _
  have two {base index : Nat} (general : index < 8) : ∃ v, LeavesEa loadseg i.mem.host s
      ([.uop (.mov IREG_eaaddr ⟨base, .l⟩)] ++
        [.uop (.add IREG_eaaddr IREG_eaaddr ⟨index, .l⟩)]) v ∧
      v.setWidth 16 = (s.regs.src ⟨base, .w⟩ + s.regs.src ⟨index, .w⟩).setWidth 16 := by
    refine ⟨_, leavesEa_mov.add general, ?_⟩
    rw [BitVec.setWidth_add _ _ (by decide), BitVec.setWidth_add _ _ (by decide), low, low]
  have one {base : Nat} : ∃ v, LeavesEa loadseg i.mem.host s
      ([.uop (.mov IREG_eaaddr ⟨base, .l⟩)] ++ []) v ∧
      v.setWidth 16 = (s.regs.src ⟨base, .w⟩).setWidth 16 :=
    ⟨_, leavesEa_mov, (low base).symm⟩
  rw [EaInsn.baseReg, EaInsn.mod1add]
  rcases cases_ i.rm with rm | rm | rm | rm | rm | rm | rm | rm <;> rw [rm]
  · exact two (by decide)
  · exact two (by decide)
  · exact two (by decide)
  · exact two (by decide)
  · exact one
  · exact one
  · exact one
  · exact one

/-- The forms of an operand in memory. -/
theorem mod_cases (memory : i.mod ≠ 3) : i.mod = 0 ∨ i.mod = 1 ∨ i.mod = 2 := by
  have cases_ : ∀ m : BitVec 2, m ≠ 3 → m = 0 ∨ m = 1 ∨ m = 2 := by decide
  exact cases_ _ memory

theorem leavesEa_16 (memory : i.mod ≠ 3) : LeavesEa loadseg i.mem.host s
    i.codegenGenerateEa16Long.uops (i.fetchEa16Long s.regs (i.pc + 1)).eaaddr := by
  obtain ⟨v, indexed, low⟩ := @leavesEa_indexed loadseg i s
  have summed {x y : BitVec 32} (same : x.setWidth 16 = y.setWidth 16) :
      (v + x) &&& 0xffff = (y + i.mod1add s.regs) &&& 0xffff := by
    apply and_0xffff_congr
    rw [BitVec.setWidth_add _ _ (by decide), BitVec.setWidth_add _ _ (by decide), low, same,
      BitVec.add_comm]
  unfold EaInsn.codegenGenerateEa16Long EaInsn.fetchEa16Long
  split
  case isTrue =>
    dsimp only
    rw [imm16_eq]
    exact leavesEa_movImm
  case isFalse =>
    dsimp only
    rcases mod_cases memory with mod | mod | mod <;> rw [mod]
    · have sum : v &&& 0xffff = (0 + i.mod1add s.regs) &&& 0xffff :=
        and_0xffff_congr (low.trans (congrArg _ (BitVec.zero_add _).symm))
      change LeavesEa _ _ _ (_ ++ [] ++ _) ((0 + i.mod1add s.regs) &&& 0xffff)
      rw [List.append_nil, ← sum]
      exact indexed.andImm 0xffff
    · change LeavesEa _ _ _ _
        (((i.imm8.signExtend 16).setWidth 32 + i.mod1add s.regs) &&& 0xffff)
      rw [← summed (x := i.imm8.signExtend 32)]
      · exact (indexed.addImm _).andImm 0xffff
      · rw [BitVec.setWidth_setWidth_of_le _ (by decide), BitVec.setWidth_eq]
        apply BitVec.eq_of_getLsbD_eq
        intro k small
        rw [BitVec.getLsbD_setWidth, BitVec.getLsbD_signExtend, BitVec.getLsbD_signExtend,
          decide_eq_true small, decide_eq_true (show k < 32 by omega), Bool.true_and,
          Bool.true_and]
    · change LeavesEa _ _ _ _ ((readw i.mem.byte (i.cs + (i.pc + 1)) + _) &&& 0xffff)
      rw [← imm16_eq, ← summed (x := i.imm16.setWidth 32) rfl]
      exact (indexed.addImm _).andImm 0xffff

end Ea16

/-! ## 32-bit addresses -/

section Ea32

variable {loadseg : LoadSeg} {i : EaInsn} {s : StackCpu} {regs regs' : IRegs} {pc : BitVec 32}

/-- The registers but for `ESP`. -/
def SameButEsp (regs regs' : IRegs) : Prop := ∀ r < 8, r ≠ 4 → regs' r = regs r

theorem SameButEsp.apply (same : SameButEsp regs regs') {r : BitVec 3} (other : r ≠ 4) :
    regs' r.toNat = regs r.toNat :=
  same _ r.isLt fun esp => other (BitVec.eq_of_toNat_eq esp)

theorem fetchSibBase_congr (same : SameButEsp regs regs') (other : i.base ≠ 4) :
    i.fetchSibBase regs' pc = i.fetchSibBase regs pc := by
  rw [EaInsn.fetchSibBase, EaInsn.fetchSibBase, same.apply other]

theorem fetchSibBase_esp (esp : i.base = 4) :
    (i.fetchSibBase regs' pc).1 - regs' 4 = (i.fetchSibBase regs pc).1 - regs 4 := by
  have plain (regs : IRegs) : i.fetchSibBase regs pc =
      if i.mod = 0 then (regs 4, pc + 1)
      else if i.mod = 1 then
        ((i.getbyte (pc + 1)).1.signExtend 32 + regs 4, (i.getbyte (pc + 1)).2)
      else (readl i.mem.byte (i.cs + pc + 1) + regs 4, pc + 5) := by
    rw [EaInsn.fetchSibBase, esp]
    rfl
  rw [plain, plain]
  split
  · rw [BitVec.sub_self, BitVec.sub_self]
  · split
    · rw [BitVec.add_sub_cancel, BitVec.add_sub_cancel]
    · rw [BitVec.add_sub_cancel, BitVec.add_sub_cancel]

theorem leavesEa_sibBase (memory : i.mod ≠ 3) : LeavesEa loadseg i.mem.host s i.codegenSibBase.1
    (i.fetchSibBase s.regs (i.pc + 1)).1 := by
  unfold EaInsn.codegenSibBase EaInsn.fetchSibBase
  dsimp only
  rcases mod_cases memory with mod | mod | mod <;> rw [mod]
  · rw [if_pos rfl, if_pos rfl]
    split
    case isTrue =>
      have load := @leavesEa_load loadseg s i (i.pc + 1)
      rw [BitVec.add_assoc] at load
      exact load
    case isFalse => exact leavesEa_mov
  · rw [sibImm8_eq]
    exact leavesEa_movImm.add i.base.isLt
  · exact (leavesEa_load i (i.pc + 1)).add i.base.isLt

theorem leavesEa_sibIndex {uops : List EaUop} {v : BitVec 32}
    (first : LeavesEa loadseg i.mem.host s uops v) :
    LeavesEa loadseg i.mem.host s (uops ++ i.codegenSibIndex)
      (if i.index ≠ 4 then v + s.regs i.index.toNat <<< i.scale.toNat else v) := by
  rw [EaInsn.codegenSibIndex]
  split
  case isFalse =>
    rw [List.append_nil]
    exact first
  case isTrue =>
    split
    case isTrue unscaled =>
      rw [unscaled]
      have whole : s.regs i.index.toNat <<< (0 : BitVec 2).toNat = s.regs i.index.toNat :=
        BitVec.shiftLeft_zero _
      rw [whole]
      exact first.add i.index.isLt
    case isFalse => exact first.addLshift i.index.isLt _

/-- The stack offset makes up for a stack pointer that is advanced as a whole. -/
theorem leavesEa_sibStack (memory : i.mod ≠ 3) (k : BitVec 32) (same : SameButEsp s.regs regs)
    (advanced : regs 4 = s.regs 4 + k) : LeavesEa loadseg i.mem.host s
      (i.codegenSibBase.1 ++
        if k ≠ 0 ∧ i.base = 4 ∧ (i.mod ≠ 0 ∨ i.base ≠ 5) then
          [.uop (.addImm IREG_eaaddr IREG_eaaddr k)]
        else []) (i.fetchSibBase regs (i.pc + 1)).1 := by
  have based := @leavesEa_sibBase loadseg i s memory
  by_cases esp : i.base = 4
  · have moved : (i.fetchSibBase regs (i.pc + 1)).1 =
        (i.fetchSibBase s.regs (i.pc + 1)).1 + k := by
      have apart := @fetchSibBase_esp i s.regs regs (i.pc + 1) esp
      rw [advanced] at apart
      bv_omega
    rw [moved]
    by_cases none_ : k = 0
    · rw [if_neg fun adds => adds.1 none_, List.append_nil, none_]
      exact (BitVec.add_zero (i.fetchSibBase s.regs (i.pc + 1)).1).symm ▸ based
    · rw [if_pos ⟨none_, esp, Or.inr (by rw [esp]; decide)⟩]
      exact based.addImm k
  · rw [if_neg fun adds => esp adds.2.1, List.append_nil, fetchSibBase_congr same esp]
    exact based

theorem leavesEa_32 (memory : i.mod ≠ 3) (k : BitVec 32) (same : SameButEsp s.regs regs)
    (advanced : regs 4 = s.regs 4 + k) : LeavesEa loadseg i.mem.host s
      (i.codegenGenerateEa32Long k).uops (i.fetchEa32Long regs (i.pc + 1)).eaaddr := by
  unfold EaInsn.codegenGenerateEa32Long EaInsn.fetchEa32Long
  split
  case isTrue sib =>
    have indexed := leavesEa_sibIndex (@leavesEa_sibStack loadseg i s regs memory k same advanced)
    dsimp only
    by_cases plain : i.index = 4
    · rw [if_neg (not_not.mpr plain)] at indexed ⊢
      exact indexed
    · rw [if_pos plain] at indexed ⊢
      rw [same.apply plain]
      exact indexed
  case isFalse other =>
    rw [same.apply other]
    have based : LeavesEa loadseg i.mem.host s [.uop (.mov IREG_eaaddr (IREG_32 i.rm))]
      (s.regs i.rm.toNat) := leavesEa_mov
    rcases mod_cases memory with mod | mod | mod <;> rw [mod]
    · rw [if_neg (not_not.mpr rfl)]
      by_cases direct : i.rm = 5
      · rw [if_pos ⟨rfl, direct⟩, if_pos direct]
        have load := @leavesEa_load loadseg s i i.pc
        rw [BitVec.add_assoc] at load
        exact load
      · rw [if_neg fun both => direct both.2, if_neg direct]
        exact based
    · exact based.addImm _
    · rw [if_neg fun both : (2 : BitVec 2) = 0 ∧ i.rm = 5 => absurd both.1 (by decide)]
      change LeavesEa _ _ _ (_ ++ (if i.noImmediates = true then _ else _ : _ × BitVec 32).1)
        (_ + readl i.mem.byte (i.cs + (i.pc + 1)))
      rw [← BitVec.add_assoc i.cs]
      split
      case isTrue => exact based.addLoad i i.pc
      case isFalse => exact based.addImm _

end Ea32

/-! ## Segment and instruction pointer -/

section Place

variable {i : EaInsn} {regs regs' : IRegs} {pc : BitVec 32}

theorem place_16 (memory : i.mod ≠ 3) :
    i.codegenGenerateEa16Long.seg = (i.fetchEa16Long regs (i.pc + 1)).seg ∧
      (i.fetchEa16Long regs (i.pc + 1)).pc = i.codegenGenerateEa16Long.opPc + 1 := by
  unfold EaInsn.codegenGenerateEa16Long EaInsn.fetchEa16Long
  split
  case isTrue => exact ⟨rfl, show i.pc + 1 + 2 = i.pc + 2 + 1 by bv_omega⟩
  case isFalse =>
    refine ⟨rfl, ?_⟩
    dsimp only
    rcases mod_cases memory with mod | mod | mod <;> rw [mod]
    · rfl
    · rfl
    · exact show i.pc + 1 + 2 = i.pc + 2 + 1 by bv_omega

theorem sibSeg : (if i.base = 5 ∧ i.mod = 0 then i.eaSeg
      else i.segFor (i.base.extractLsb' 1 2 = 2)) =
    i.segFor (i.base = 4 ∨ i.mod ≠ 0 ∧ i.base = 5) := by
  have pair : ∀ base : BitVec 3, base.extractLsb' 1 2 = 2 ↔ base = 4 ∨ base = 5 := by decide
  split
  case isTrue direct =>
    rw [direct.1, direct.2]
    rfl
  case isFalse other =>
    congr 2
    rw [eq_iff_iff, pair]
    exact or_congr_right ⟨fun five => ⟨fun zero => other ⟨five, zero⟩, five⟩, fun five => five.2⟩

theorem place_sibBase (memory : i.mod ≠ 3) :
    (i.fetchSibBase regs (i.pc + 1)).2 = i.codegenSibBase.2 + 1 := by
  unfold EaInsn.codegenSibBase EaInsn.fetchSibBase
  dsimp only
  rcases mod_cases memory with mod | mod | mod <;> rw [mod]
  · rw [if_pos rfl, if_pos rfl]
    split
    · exact show i.pc + 1 + 1 + 4 = i.pc + 1 + 4 + 1 by bv_omega
    · rfl
  · rfl
  · exact show i.pc + 1 + 5 = i.pc + 1 + 4 + 1 by bv_omega

theorem place_32 (memory : i.mod ≠ 3) (k : BitVec 32) :
    (i.codegenGenerateEa32Long k).seg = (i.fetchEa32Long regs (i.pc + 1)).seg ∧
      (i.fetchEa32Long regs (i.pc + 1)).pc = (i.codegenGenerateEa32Long k).opPc + 1 := by
  unfold EaInsn.codegenGenerateEa32Long EaInsn.fetchEa32Long
  split
  case isTrue => exact ⟨sibSeg.symm, place_sibBase memory⟩
  case isFalse =>
    rcases mod_cases memory with mod | mod | mod <;> rw [mod]
    · rw [if_neg (not_not.mpr rfl)]
      by_cases direct : i.rm = 5
      · rw [if_pos ⟨rfl, direct⟩, if_pos direct]
        exact ⟨rfl, show i.pc + 1 + 4 = i.pc + 4 + 1 by bv_omega⟩
      · rw [if_neg fun both => direct both.2, if_neg direct]
        exact ⟨rfl, rfl⟩
    · rw [if_neg fun both : (1 : BitVec 2) = 0 ∧ i.rm = 5 => absurd both.1 (by decide)]
      refine ⟨?_, rfl⟩
      change i.segFor (decide ((1 : BitVec 2) ≠ 0 ∧ i.rm = 5)) = i.segFor (decide (i.rm = 5))
      congr 2
      exact propext (and_iff_right (by decide))
    · rw [if_neg fun both : (2 : BitVec 2) = 0 ∧ i.rm = 5 => absurd both.1 (by decide)]
      refine ⟨?_, ?_⟩
      · change i.segFor (decide ((2 : BitVec 2) ≠ 0 ∧ i.rm = 5)) = i.segFor (decide (i.rm = 5))
        congr 2
        exact propext (and_iff_right (by decide))
      · change i.pc + 1 + 4 = (if i.noImmediates = true then _ else _ : _ × BitVec 32).2 + 1
        split
        · exact show i.pc + 1 + 4 = i.pc + 4 + 1 by bv_omega
        · exact show i.pc + 1 + 4 = i.pc + 4 + 1 by bv_omega

end Place

/-! ## The stack pointer -/

section StackPointer

variable {i : EaInsn} {regs regs' : IRegs} {pc : BitVec 32}

theorem mod1add_congr (same : SameButEsp regs regs') : i.mod1add regs' = i.mod1add regs := by
  have word (reg : Nat) (low : reg < 8) (other : reg ≠ 4) :
      regs'.src ⟨reg, .w⟩ = regs.src ⟨reg, .w⟩ := congrArg (· &&& 0xffff) (same reg low other)
  rw [EaInsn.mod1add, EaInsn.mod1add, IREG_BX, IREG_BP, IREG_SI, IREG_DI,
    word 3 (by decide) (by decide), word 5 (by decide) (by decide),
    word 6 (by decide) (by decide), word 7 (by decide) (by decide)]

theorem fetchEa16Long_congr (same : SameButEsp regs regs') :
    i.fetchEa16Long regs' pc = i.fetchEa16Long regs pc := by
  rw [EaInsn.fetchEa16Long, EaInsn.fetchEa16Long, mod1add_congr same]

/-- Only a base of `ESP` shows the stack pointer. -/
theorem fetchEa32Long_eaaddr_iff (same : SameButEsp regs regs') :
    (i.fetchEa32Long regs pc).eaaddr = (i.fetchEa32Long regs' pc).eaaddr ↔
      (i.rm = 4 → i.base = 4 → regs 4 = regs' 4) := by
  unfold EaInsn.fetchEa32Long
  by_cases sib : i.rm = 4
  · rw [if_pos sib, if_pos sib]
    dsimp only
    by_cases esp : i.base = 4
    · have apart := @fetchSibBase_esp i regs regs' pc esp
      have base : (i.fetchSibBase regs pc).1 = (i.fetchSibBase regs' pc).1 ↔ regs 4 = regs' 4 := by
        constructor
        · intro eq
          bv_omega
        · intro eq
          bv_omega
      rw [imp_iff_right sib, imp_iff_right esp, ← base]
      by_cases plain : i.index = 4
      · rw [if_neg (not_not.mpr plain), if_neg (not_not.mpr plain)]
      · rw [if_pos plain, if_pos plain, same.apply plain]
        exact BitVec.add_left_inj _
    · refine iff_of_true ?_ fun _ contra => absurd contra esp
      rw [fetchSibBase_congr same esp]
      split
      case isTrue plain => rw [same.apply plain]
      case isFalse => rfl
  · refine iff_of_true ?_ fun contra => absurd contra sib
    rw [if_neg sib, if_neg sib, same.apply sib]

/-- The halves of a register. -/
theorem or_halves (v x : BitVec 32) :
    (v &&& 0xffff) ||| (x &&& 0xffff0000) = (v &&& 0xffff) + (x &&& 0xffff0000) := by
  refine (BitVec.add_eq_or_of_and_eq_zero _ _ ?_).symm
  rw [show (v &&& 0xffff) &&& (x &&& 0xffff0000) = (v &&& x) &&& (0xffff &&& 0xffff0000) by
    ac_rfl]
  exact BitVec.and_zero

theorem sum_halves (x : BitVec 32) : (x &&& 0xffff) + (x &&& 0xffff0000) = x := by
  rw [← or_halves, ← BitVec.and_or_distrib_left]
  exact BitVec.and_allOnes

/-- Advancing `SP` is advancing `ESP` when nothing is carried. -/
theorem advance_sp_iff (x k : BitVec 32) :
    (((x &&& 0xffff) + k) &&& 0xffff) ||| (x &&& 0xffff0000) = x + k ↔
      ((x &&& 0xffff) + k).toNat < 65536 := by
  have whole := sum_halves x
  have small (v : BitVec 32) : v &&& 0xffff = v ↔ v.toNat < 65536 := by
    have low : (v &&& 0xffff).toNat = v.toNat % 65536 := by
      rw [BitVec.toNat_and]
      exact Nat.and_two_pow_sub_one_eq_mod v.toNat 16
    rw [← BitVec.toNat_inj, low]
    omega
  rw [or_halves, ← small]
  constructor
  · intro eq
    bv_omega
  · intro eq
    bv_omega

variable {s : StackCpu}

theorem before_frame (popped : Popped) (stack32 : Bool) :
    SameButEsp s.regs (popped.before stack32 s).regs := by
  have advance (k : BitVec 32) : SameButEsp s.regs (addEsp stack32 s k).regs := by
    intro r _ other
    rw [addEsp]
    dsimp only
    split
    · exact dst_of_ne other
    · exact dst_of_ne other
  cases popped with
  | nothing => exact fun _ _ _ => rfl
  | word => exact advance 2
  | long => exact advance 4

theorem before_esp_iff (popped : Popped) (stack32 : Bool) :
    (popped.before stack32 s).regs 4 = s.regs 4 + popped.offset ↔
      ¬ (stack32 = false ∧ 65536 ≤ (s.regs.src IREG_SP + popped.offset).toNat) := by
  have advance (k : BitVec 32) : (addEsp stack32 s k).regs 4 = s.regs 4 + k ↔
      ¬ (stack32 = false ∧ 65536 ≤ (s.regs.src IREG_SP + k).toNat) := by
    cases stack32 with
    | true => exact iff_of_true rfl fun narrow => nomatch narrow.1
    | false =>
      have exact_ := advance_sp_iff (s.regs 4) k
      rw [not_and, imp_iff_right rfl, Nat.not_le]
      exact exact_
  cases popped with
  | word => exact advance 2
  | long => exact advance 4
  | nothing =>
    refine iff_of_true (BitVec.add_zero _).symm fun wraps => ?_
    have low : (s.regs 4 &&& 0xffff).toNat < 65536 := by
      rw [BitVec.toNat_and]
      exact Nat.lt_succ_of_le Nat.and_le_right
    have sum : s.regs.src IREG_SP + Popped.offset .nothing = s.regs 4 &&& 0xffff :=
      BitVec.add_zero _
    rw [sum] at wraps
    exact absurd low (Nat.not_lt_of_le wraps.2)

end StackPointer

/-! ## Agreement -/

/-- An operand addressed through `ESP` with a 32-bit address, in an instruction that pops over the
end of a 16-bit stack. -/
def StackWraps (i : EaInsn) (popped : Popped) (stack32 : Bool) (s : StackCpu) : Prop :=
  i.mod ≠ 3 ∧ i.a32 = true ∧ i.rm = 4 ∧ i.base = 4 ∧ stack32 = false ∧
    65536 ≤ (s.regs.src IREG_SP + popped.offset).toNat

section Agreement

variable {loadseg : LoadSeg} {i : EaInsn} {s : StackCpu}

theorem LeavesEa.value_iff {uops : List EaUop} {v : BitVec 32} (ea : BitVec 32)
    (leaves : LeavesEa loadseg i.mem.host s uops v) :
    (∃ s', runEa loadseg i.mem.host uops s = some s' ∧ s'.regs.src IREG_eaaddr = ea) ↔ v = ea := by
  obtain ⟨t, run, value, -⟩ := leaves
  constructor
  · rintro ⟨s', run', value'⟩
    obtain rfl := Option.some.inj (run.symm.trans run')
    exact value.symm.trans value'
  · intro eq
    exact ⟨t, run, value.trans eq⟩

theorem eaAgrees_16 (popped : Popped) (stack32 : Bool) (memory : i.mod ≠ 3)
    (short : i.a32 = false) : EaAgrees loadseg i popped stack32 s := by
  have same := @before_frame s popped stack32
  have code : i.codegenGenerateEa popped.offset = some i.codegenGenerateEa16Long := by
    rw [EaInsn.codegenGenerateEa, if_neg memory, short]
    rfl
  have ea : i.fetchEa (popped.before stack32 s).regs =
      (some (i.fetchEa16Long s.regs (i.pc + 1)), (i.fetchEa16Long s.regs (i.pc + 1)).pc) := by
    rw [EaInsn.fetchEa, if_pos memory, short, ← fetchEa16Long_congr same]
    rfl
  rw [EaAgrees, code, ea]
  exact ⟨((leavesEa_16 memory).value_iff _).mpr rfl, place_16 memory⟩

/-- The code computes with a stack pointer that is advanced as a whole. -/
theorem eaAgrees_32_iff (popped : Popped) (stack32 : Bool) (memory : i.mod ≠ 3)
    (long : i.a32 = true) : EaAgrees loadseg i popped stack32 s ↔
      (i.rm = 4 → i.base = 4 → (popped.before stack32 s).regs 4 = s.regs 4 + popped.offset) := by
  have same := @before_frame s popped stack32
  have code : i.codegenGenerateEa popped.offset =
      some (i.codegenGenerateEa32Long popped.offset) := by
    rw [EaInsn.codegenGenerateEa, if_neg memory, if_pos long]
  have ea : i.fetchEa (popped.before stack32 s).regs =
      (some (i.fetchEa32Long (popped.before stack32 s).regs (i.pc + 1)),
        (i.fetchEa32Long (popped.before stack32 s).regs (i.pc + 1)).pc) := by
    rw [EaInsn.fetchEa, if_pos memory, long]
    rfl
  have advanced : SameButEsp s.regs (s.regs.set 4 (s.regs 4 + popped.offset)) :=
    fun _ _ other => set_of_ne other
  have apart : SameButEsp (popped.before stack32 s).regs
      (s.regs.set 4 (s.regs 4 + popped.offset)) :=
    fun r low other => (advanced r low other).trans (same r low other).symm
  have leaves := @leavesEa_32 loadseg i s _ memory popped.offset advanced (set_self 4)
  rw [EaAgrees, code, ea]
  refine (and_iff_left (place_32 memory _)).trans ((leaves.value_iff _).trans ?_)
  rw [eq_comm, fetchEa32Long_eaaddr_iff apart, set_self]

/-- The recompiled address is the interpreter's, with its segment and its end of the instruction,
for every encoding and in every state, but for a pop that wraps a 16-bit stack and stores through
`ESP`: there the offset is carried into the upper half. -/
theorem eaAgrees_iff (loadseg : LoadSeg) (i : EaInsn) (popped : Popped) (stack32 : Bool)
    (s : StackCpu) : EaAgrees loadseg i popped stack32 s ↔ ¬ StackWraps i popped stack32 s := by
  by_cases memory : i.mod = 3
  · have code : i.codegenGenerateEa popped.offset = none := if_pos memory
    have ea : i.fetchEa (popped.before stack32 s).regs = (none, i.pc + 1) :=
      if_neg (not_not.mpr memory)
    rw [EaAgrees, code, ea]
    exact iff_of_true rfl fun wraps => wraps.1 memory
  cases long : i.a32 with
  | false =>
    refine iff_of_true (eaAgrees_16 popped stack32 memory long) fun wraps => ?_
    exact absurd (long.symm.trans wraps.2.1) Bool.false_ne_true
  | true =>
    rw [eaAgrees_32_iff popped stack32 memory long, before_esp_iff]
    constructor
    · rintro agrees ⟨-, -, sib, esp, wraps⟩
      exact agrees sib esp wraps
    · intro unwrapped sib esp wraps
      exact unwrapped ⟨memory, long, sib, esp, wraps⟩

end Agreement

/-- `POP WORD PTR [ESP]` with the prefixes before it. -/
def popEsp : EaInsn where
  mem := ⟨⟨fun page => page.toNat * 4096, fun _ => false⟩,
    fun p => if p = 0 then 0x04 else if p = 1 then 0x24 else 0, none, nofun⟩
  cs := 0
  pc := 0
  fetchdat := 0x2404
  fetched := by decide
  ssegs := false
  eaSeg := .ds
  a32 := true
  noImmediates := false

/-- `SP` is 0xfffe. -/
def stackEnd : StackCpu where
  regs := fun r => if r = 4 then 0xfffe else 0
  fl := ⟨.unknown, 0, 0, 0, 0⟩
  eflags := 0
  vme := false
  segs := fun _ => ⟨0, 0⟩
  mem := fun _ => 0

/-- The interpreter stores at 0, the code at 0x10000. -/
theorem not_eaAgrees_popEsp :
    ¬ ∀ loadseg i popped stack32 s, EaAgrees loadseg i popped stack32 s := by
  intro agrees
  have esp := (eaAgrees_32_iff .word false (by decide) rfl).mp
    (agrees (fun _ _ loaded => loaded) popEsp .word false stackEnd) (by decide) (by decide)
  exact absurd esp (by decide)

end PCemWeb
