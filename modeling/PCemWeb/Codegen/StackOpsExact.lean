import PCemWeb.Codegen.EffectiveAddressModRm

/-!
# When the recompiled stack instructions agree

Two states are the same to the guest when they differ in the temporaries of a block only. The
emitted code is followed helper by helper: `LOAD_SP_WITH_OFFSET` leaves the address that the
interpreter computes for its first access, and the accesses after it are the interpreter's as long
as the stack pointer does not pass the end of a 16-bit stack between them.
-/

namespace PCemWeb

open Lib Cpu

/-! ## Registers -/

section Registers

variable {regs regs' : IRegs} {p q : Ireg}

theorem dst_own_congr (same : regs p.reg = regs' p.reg) (v : BitVec 32) :
    regs.dst p v p.reg = regs'.dst p v p.reg := by
  unfold IRegs.dst
  rw [same]
  cases p.size with
  | l => exact (set_self _).trans (set_self _).symm
  | w => exact (set_self _).trans (set_self _).symm
  | b => exact (set_self _).trans (set_self _).symm
  | bh => exact (set_self _).trans (set_self _).symm

theorem dst_comm (apart : p.reg ≠ q.reg) (v w : BitVec 32) :
    (regs.dst p v).dst q w = (regs.dst q w).dst p v := by
  funext r
  by_cases first : r = p.reg
  · rw [first, dst_of_ne apart]
    exact dst_own_congr (dst_of_ne apart).symm v
  · by_cases second : r = q.reg
    · rw [second, dst_of_ne apart.symm]
      exact dst_own_congr (dst_of_ne apart.symm) w
    · rw [dst_of_ne second, dst_of_ne first, dst_of_ne first, dst_of_ne second]

theorem src_dst_of_ne (apart : q.reg ≠ p.reg) (v : BitVec 32) :
    (regs.dst p v).src q = regs.src q := by
  rw [IRegs.src, IRegs.src, dst_of_ne apart]

theorem low_of_halves (v x : BitVec 32) :
    ((v &&& 0xffff) ||| (x &&& 0xffff0000)) &&& 0xffff = v &&& 0xffff := by
  rw [BitVec.and_or_distrib_right, BitVec.and_assoc, BitVec.and_assoc,
    show (0xffff : BitVec 32) &&& 0xffff = 0xffff by decide,
    show (0xffff0000 : BitVec 32) &&& 0xffff = 0#32 by decide, BitVec.and_zero, BitVec.or_zero]

theorem high_of_halves (v x : BitVec 32) :
    ((v &&& 0xffff) ||| (x &&& 0xffff0000)) &&& 0xffff0000 = x &&& 0xffff0000 := by
  rw [BitVec.and_or_distrib_right, BitVec.and_assoc, BitVec.and_assoc,
    show (0xffff : BitVec 32) &&& 0xffff0000 = 0#32 by decide,
    show (0xffff0000 : BitVec 32) &&& 0xffff0000 = 0xffff0000 by decide, BitVec.and_zero,
    BitVec.zero_or]

theorem src_dst_word (regs : IRegs) (reg : Nat) (v : BitVec 32) :
    (regs.dst ⟨reg, .w⟩ v).src ⟨reg, .w⟩ = v &&& 0xffff := by
  change (regs.set reg ((v &&& 0xffff) ||| (regs reg &&& 0xffff0000))) reg &&& 0xffff = _
  rw [set_self, low_of_halves]

theorem src_dst_long (regs : IRegs) (reg : Nat) (v : BitVec 32) :
    (regs.dst ⟨reg, .l⟩ v).src ⟨reg, .l⟩ = v := @set_self regs v reg

theorem dst_word_high (regs : IRegs) (reg : Nat) (v : BitVec 32) :
    regs.dst ⟨reg, .w⟩ v reg &&& 0xffff0000 = regs reg &&& 0xffff0000 := by
  change regs.set reg ((v &&& 0xffff) ||| (regs reg &&& 0xffff0000)) reg &&& 0xffff0000 = _
  rw [set_self, high_of_halves]

theorem set_set (regs : IRegs) (reg : Nat) (x v : BitVec 32) :
    (regs.set reg x).set reg v = regs.set reg v := by
  funext r
  unfold IRegs.set
  split
  · rfl
  · rfl

/-- The upper half of a sum, where nothing is carried into it. -/
theorem high_of_add {x k : BitVec 32} (within : ((x &&& 0xffff) + k).toNat < 65536) :
    (x + k) &&& 0xffff0000 = x &&& 0xffff0000 := by
  rw [← (advance_sp_iff x k).mpr within]
  exact high_of_halves _ _

/-- A register is written as a word on top of a double word with the same upper half. -/
theorem dst_word_set {reg : Nat} {x : BitVec 32}
    (same : x &&& 0xffff0000 = regs reg &&& 0xffff0000) (v : BitVec 32) :
    (regs.set reg x).dst ⟨reg, .w⟩ v = regs.dst ⟨reg, .w⟩ v := by
  funext r
  by_cases own : r = reg
  · rw [own]
    refine (set_self reg).trans ((congrArg ((v &&& 0xffff) ||| ·) ?_).trans (set_self reg).symm)
    rw [set_self, same]
  · exact (dst_of_ne own).trans ((set_of_ne own).trans (dst_of_ne own).symm)

end Registers

/-! ## The guest's part of a state -/

/-- The general registers and all that is not a register of the block. -/
structure SameGuest (a b : StackCpu) : Prop where
  regs : ∀ r < 8, a.regs r = b.regs r
  fl : a.fl = b.fl
  eflags : a.eflags = b.eflags
  vme : a.vme = b.vme
  segs : a.segs = b.segs
  mem : a.mem = b.mem

namespace SameGuest

variable {a b : StackCpu}

theorem refl (s : StackCpu) : SameGuest s s := ⟨fun _ _ => rfl, rfl, rfl, rfl, rfl, rfl⟩

theorem trans {c : StackCpu} (first : SameGuest a b) (second : SameGuest b c) : SameGuest a c :=
  ⟨fun r low => (first.regs r low).trans (second.regs r low), first.fl.trans second.fl,
    first.eflags.trans second.eflags, first.vme.trans second.vme, first.segs.trans second.segs,
    first.mem.trans second.mem⟩

theorem src (same : SameGuest a b) {r : Ireg} (general : r.reg < 8) :
    a.regs.src r = b.regs.src r := by
  rw [IRegs.src, IRegs.src, same.regs r.reg general]

/-- A temporary is not seen by the guest. -/
theorem temporary (same : SameGuest a b) {dest : Ireg} (v : BitVec 32) (high : 8 ≤ dest.reg) :
    SameGuest { a with regs := a.regs.dst dest v } b where
  regs := fun r low => (dst_of_ne (by omega)).trans (same.regs r low)
  fl := same.fl
  eflags := same.eflags
  vme := same.vme
  segs := same.segs
  mem := same.mem

theorem write (same : SameGuest a b) {dest : Ireg} {v w : BitVec 32} (eq : v = w)
    (general : dest.reg < 8) :
    SameGuest { a with regs := a.regs.dst dest v } { b with regs := b.regs.dst dest w } where
  regs := by
    intro r low
    by_cases own : r = dest.reg
    · rw [eq, own]
      change a.regs.dst dest w dest.reg = b.regs.dst dest w dest.reg
      unfold IRegs.dst
      rw [same.regs dest.reg general]
      cases dest.size with
      | l => exact (set_self _).trans (set_self _).symm
      | w => exact (set_self _).trans (set_self _).symm
      | b => exact (set_self _).trans (set_self _).symm
      | bh => exact (set_self _).trans (set_self _).symm
    · exact (dst_of_ne own).trans ((same.regs r low).trans (dst_of_ne own).symm)
  fl := same.fl
  eflags := same.eflags
  vme := same.vme
  segs := same.segs
  mem := same.mem

theorem store (same : SameGuest a b) {m n : LinMem} (eq : m = n) :
    SameGuest { a with mem := m } { b with mem := n } :=
  ⟨same.regs, same.fl, same.eflags, same.vme, same.segs, eq⟩

theorem rebuilt (same : SameGuest a b) :
    SameGuest { a with fl := flagsRebuild a.fl } b.rebuilt :=
  ⟨same.regs, congrArg flagsRebuild same.fl, same.eflags, same.vme, same.segs, same.mem⟩

theorem guestAddr (same : SameGuest a b) {seg : SegName} {r : Ireg} {v : BitVec 32}
    (value : a.regs r.reg = v) (offset : BitVec 32) :
    a.guestAddr seg r offset = (b.segs seg).base + v + offset := by
  rw [StackCpu.guestAddr, same.segs, value]

end SameGuest

/-! ## Emitted code -/

section Run

variable {loadseg : LoadSeg} {s : StackCpu} {uops uops' : List StackUop}

theorem execUops_append : execUops loadseg s (uops ++ uops') =
    execUops loadseg (execUops loadseg s uops) uops' := List.foldl_append

/-- The code computes in `eaaddr` and in nothing else. -/
def OnlyEa (s t : StackCpu) : Prop :=
  { s with regs := t.regs } = t ∧ ∀ r, r ≠ 14 → t.regs r = s.regs r

theorem OnlyEa.same {t : StackCpu} (only : OnlyEa s t) : SameGuest t s := by
  obtain ⟨rest, regs⟩ := only
  refine ⟨fun r low => regs r (by omega), ?_, ?_, ?_, ?_, ?_⟩
  all_goals exact (rest ▸ rfl)

theorem OnlyEa.refl (s : StackCpu) : OnlyEa s s := ⟨rfl, fun _ _ => rfl⟩

theorem OnlyEa.dst {t : StackCpu} (only : OnlyEa s t) {dest : Ireg} (v : BitVec 32)
    (ea : dest.reg = 14) : OnlyEa s { t with regs := t.regs.dst dest v } := by
  obtain ⟨rest, regs⟩ := only
  refine ⟨?_, fun r other => (dst_of_ne (ea.symm ▸ other)).trans (regs r other)⟩
  rw [← rest]

end Run

/-! ## The stack pointer -/

section StackPointer

variable {loadseg : LoadSeg} {s t : StackCpu} {c : RopContext} {n : BitVec 32}

/-- The offset of a stack access. -/
def spAt (stack32 : Bool) (s : StackCpu) (offset : BitVec 32) : BitVec 32 :=
  if stack32 = true then s.regs 4 + offset else ((s.regs 4 &&& 0xffff) + offset) &&& 0xffff

theorem stackBelow_eq (stack32 : Bool) : stackBelow stack32 s n = spAt stack32 s (-n) := by
  unfold stackBelow spAt
  rw [BitVec.sub_eq_add_neg, BitVec.sub_eq_add_neg]
  rfl

theorem stackAbove_eq (stack32 : Bool) : stackAbove stack32 s n = spAt stack32 s n := rfl

/-- `LOAD_SP_WITH_OFFSET` leaves the offset in the register that it returns. -/
theorem loadSp_spec (s : StackCpu) (offset : BitVec 32) :
    OnlyEa s (execUops loadseg s (loadSpWithOffset c offset).1) ∧
      (execUops loadseg s (loadSpWithOffset c offset).1).regs (loadSpWithOffset c offset).2.reg =
        spAt c.mode.stack32 s offset := by
  unfold loadSpWithOffset spAt
  split
  · split
    · exact ⟨(OnlyEa.refl s).dst _ rfl, @set_self s.regs _ 14⟩
    · next zero =>
      rw [not_not.mp zero]
      exact ⟨OnlyEa.refl s, (BitVec.add_zero _).symm⟩
  · split
    · refine ⟨((OnlyEa.refl s).dst _ rfl).dst _ rfl, ?_⟩
      change s.regs.set 14 (((s.regs.src IREG_SP + offset) &&& 0xffff) |||
        (s.regs 14 &&& 0xffff0000)) 14 &&& 0xffff = _
      rw [set_self, low_of_halves]
      rfl
    · next zero =>
      have sum : (s.regs 4 &&& 0xffff) + offset &&& 0xffff = s.regs 4 &&& 0xffff := by
        rw [not_not.mp zero]
        change (s.regs 4 &&& 0xffff) + 0#32 &&& 0xffff = _
        rw [BitVec.add_zero, BitVec.and_assoc]
        rfl
      exact ⟨(OnlyEa.refl s).dst _ rfl, (@set_self s.regs _ 14).trans sum.symm⟩

theorem loadSp_reg (offset : BitVec 32) : (loadSpWithOffset c offset).2.reg = 4 ∨
    (loadSpWithOffset c offset).2.reg = 14 := by
  unfold loadSpWithOffset
  split
  · split
    · exact Or.inr rfl
    · exact Or.inl rfl
  · split
    · exact Or.inr rfl
    · exact Or.inr rfl

/-- `SUB_SP` is the interpreter's. -/
theorem subSp_spec (same : SameGuest t s) :
    SameGuest (execUops loadseg t (subSp c n)) (subEsp c.mode.stack32 s n) := by
  unfold subSp subEsp
  split
  · exact same.write (congrArg (· - n) (same.src (by decide))) (by decide)
  · exact same.write (congrArg (· - n) (same.src (by decide))) (by decide)

/-- So is `ADD_SP`. -/
theorem addSp_spec (same : SameGuest t s) :
    SameGuest (execUops loadseg t (addSp c n)) (addEsp c.mode.stack32 s n) := by
  unfold addSp addEsp
  split
  · exact same.write (congrArg (· + n) (same.src (by decide))) (by decide)
  · exact same.write (congrArg (· + n) (same.src (by decide))) (by decide)

theorem movOldpc_spec (same : SameGuest t s) : SameGuest (execUops loadseg t (movOldpc c)) s :=
  same.temporary _ (by decide)

end StackPointer

/-! ## Pushes -/

section Push

variable {loadseg : LoadSeg} {s t : StackCpu} {c : RopContext} {n : BitVec 32} {m : LinMem}

theorem spAt_congr (same : SameGuest t s) (stack32 : Bool) (offset : BitVec 32) :
    spAt stack32 t offset = spAt stack32 s offset := by
  rw [spAt, spAt, same.regs 4 (by decide)]

/-- A push whose stores are the interpreter's, behind the code in front of it. -/
theorem push_tail (same : SameGuest t s) (store : Ireg → List StackUop)
    (stored : ∀ u, OnlyEa t u → SameGuest u s →
      u.regs (loadSpWithOffset c (-n)).2.reg = spAt c.mode.stack32 s (-n) →
      SameGuest (execUops loadseg u (store (loadSpWithOffset c (-n)).2)) { s with mem := m }) :
    SameGuest (execUops loadseg (execUops loadseg (execUops loadseg t
        (loadSpWithOffset c (-n)).1) (store (loadSpWithOffset c (-n)).2)) (subSp c n))
      (subEsp c.mode.stack32 { s with mem := m } n) := by
  obtain ⟨only, sp⟩ := @loadSp_spec loadseg c t (-n)
  rw [spAt_congr same] at sp
  exact subSp_spec (stored _ only (only.same.trans same) sp)

theorem push_spec (begins : SameGuest t s) {store : Ireg → List StackUop}
    (stored : ∀ u, SameGuest u s →
      u.regs (loadSpWithOffset c (-n)).2.reg = spAt c.mode.stack32 s (-n) →
      SameGuest (execUops loadseg u (store (loadSpWithOffset c (-n)).2)) { s with mem := m }) :
    SameGuest (execUops loadseg t (ropPushOf c n store))
      (subEsp c.mode.stack32 { s with mem := m } n) := by
  unfold ropPushOf
  rw [execUops_append, execUops_append, execUops_append]
  exact push_tail (movOldpc_spec begins) store fun u _ same sp => stored u same sp

/-- The address of its first access. -/
theorem below_addr (same : SameGuest t s) {sp : Ireg} (value : t.regs sp.reg =
    spAt c.mode.stack32 s (-n)) :
    t.guestAddr .ss sp 0 = s.ss + stackBelow c.mode.stack32 s n := by
  rw [same.guestAddr value, stackBelow_eq]
  exact BitVec.add_zero _

theorem stored_word (loadseg : LoadSeg) (same : SameGuest t s) {seg : SegName} {r : Ireg}
    {offset a v : BitVec 32}
    {src : UopSrc} (short : src.isL = false) (addr : t.guestAddr seg r offset = a)
    (value : t.get src = v) :
    SameGuest ((StackUop.memStoreReg seg r offset src).exec loadseg t)
      { s with mem := writew s.mem a v } := by
  refine same.store ?_
  rw [if_neg (by rw [short]; decide), addr, value, same.mem]

theorem stored_long (loadseg : LoadSeg) (same : SameGuest t s) {seg : SegName} {r : Ireg}
    {offset a v : BitVec 32}
    {src : UopSrc} (long : src.isL = true) (addr : t.guestAddr seg r offset = a)
    (value : t.get src = v) :
    SameGuest ((StackUop.memStoreReg seg r offset src).exec loadseg t)
      { s with mem := writel s.mem a v } := by
  refine same.store ?_
  rw [if_pos long, addr, value, same.mem]

theorem push_word (begins : SameGuest t s) {src : UopSrc} {v : BitVec 32} (short : src.isL = false)
    (value : ∀ t, SameGuest t s → t.get src = v) :
    SameGuest (execUops loadseg t (ropPushOf c 2 fun sp => [.memStoreReg .ss sp 0 src]))
      (pushW c.mode.stack32 s v) :=
  push_spec begins fun t same sp => stored_word loadseg same short (below_addr same sp)
    (value t same)

theorem push_long (begins : SameGuest t s) {src : UopSrc} {v : BitVec 32} (long : src.isL = true)
    (value : ∀ t, SameGuest t s → t.get src = v) :
    SameGuest (execUops loadseg t (ropPushOf c 4 fun sp => [.memStoreReg .ss sp 0 src]))
      (pushL c.mode.stack32 s v) :=
  push_spec begins fun t same sp => stored_long loadseg same long (below_addr same sp)
    (value t same)

theorem push_imm16 (begins : SameGuest t s) {imm : BitVec 16} {v : BitVec 32}
    (value : imm.setWidth 32 = v) :
    SameGuest (execUops loadseg t (ropPushOf c 2 fun sp => [.memStoreImm16 .ss sp imm]))
      (pushW c.mode.stack32 s v) := by
  refine push_spec begins fun t same sp => same.store ?_
  rw [value, same.mem, below_addr same sp]

theorem push_imm32 (begins : SameGuest t s) {imm : BitVec 32} :
    SameGuest (execUops loadseg t (ropPushOf c 4 fun sp => [.memStoreImm32 .ss sp imm]))
      (pushL c.mode.stack32 s imm) := by
  refine push_spec begins fun t same sp => same.store ?_
  rw [same.mem, below_addr same sp]

/-- A selector goes through a temporary to be stored as a double word. -/
theorem push_seg32 (begins : SameGuest t s) (name : SegName) :
    SameGuest (execUops loadseg t (ropPushSeg32 c name))
    (pushL c.mode.stack32 s ((s.segs name).seg.setWidth 32)) := by
  refine push_spec begins fun t same sp => ?_
  have held : (t.regs.dst IREG_temp0 (t.get (.segW name))) (loadSpWithOffset c (-4)).2.reg =
      spAt c.mode.stack32 s (-4) := by
    refine (dst_of_ne ?_).trans sp
    rcases loadSp_reg (c := c) (-4) with reg | reg <;> rw [reg] <;> decide
  have moved := same.temporary (t.get (.segW name)) (show 8 ≤ IREG_temp0.reg by decide)
  refine stored_long loadseg moved rfl (below_addr moved held) ?_
  rw [← same.segs]
  exact @set_self t.regs _ 33

theorem signExtend_16 :
    ∀ imm : BitVec 8, (imm.signExtend 16).setWidth 32 = widenImm 0xff00 imm := by
  decide +kernel

theorem signExtend_32 : ∀ imm : BitVec 8, imm.signExtend 32 = widenImm 0xffffff00 imm := by
  decide +kernel

end Push

/-! ## Pops of a register -/

section Pop

variable {loadseg : LoadSeg} {s t : StackCpu} {c : RopContext} {n : BitVec 32}

/-- What is read from the top of the stack. -/
def popped (c : RopContext) (s : StackCpu) (dest : Ireg) : BitVec 32 :=
  if dest.size = .l then readl s.mem (s.ss + stackAbove c.mode.stack32 s 0)
  else readw s.mem (s.ss + stackAbove c.mode.stack32 s 0)

theorem loaded_spec (loadseg : LoadSeg) (same : SameGuest t s) {dest sp : Ireg}
    (value : t.regs sp.reg = spAt c.mode.stack32 s 0) :
    (StackUop.memLoadReg dest .ss sp 0).exec loadseg t =
      { t with regs := t.regs.dst dest (popped c s dest) } := by
  have addr : t.guestAddr .ss sp 0 = s.ss + stackAbove c.mode.stack32 s 0 := by
    rw [same.guestAddr value, stackAbove_eq]
    exact BitVec.add_zero _
  rw [StackUop.exec, popped, addr, same.mem]

/-- The load leaves the interpreter's value, and nothing else but in the temporary. -/
theorem popLoad_spec (loadseg : LoadSeg) (same : SameGuest t s) (dest : Ireg) {temp : Ireg}
    (high : 8 ≤ temp.reg) (long : temp.size = .l) :
    ∃ u, SameGuest u s ∧ (∀ r, r ≠ temp.reg → u.regs r = t.regs r) ∧
      execUops loadseg t (ropPopLoad c dest temp) =
        { u with regs := u.regs.dst dest (popped c s dest) } := by
  unfold ropPopLoad
  split
  case isTrue wide =>
    refine ⟨t, same, fun _ _ => rfl, loaded_spec loadseg same ?_⟩
    rw [spAt, if_pos wide]
    exact (same.regs 4 (by decide)).trans (BitVec.add_zero _).symm
  case isFalse narrow =>
    have moved := same.temporary (t.regs.src IREG_SP) high
    refine ⟨_, moved, fun r other => ?_, loaded_spec loadseg moved ?_⟩
    · exact dst_of_ne other
    · have sum : (s.regs 4 &&& 0xffff) + 0#32 &&& 0xffff = s.regs 4 &&& 0xffff := by
        rw [BitVec.add_zero, BitVec.and_assoc]
        rfl
      rw [spAt, if_neg narrow]
      refine Eq.trans ?_ ((same.src (r := IREG_SP) (by decide)).trans sum.symm)
      dsimp only
      rw [IRegs.dst, long]
      exact set_self temp.reg

/-- The stack pointer is advanced before or after another register is written. -/
theorem addEsp_dst (stack32 : Bool) {dest : Ireg} (other : dest.reg ≠ 4) (v : BitVec 32) :
    addEsp stack32 { s with regs := s.regs.dst dest v } n =
      (addEsp stack32 s n).setReg dest v := by
  unfold addEsp StackCpu.setReg
  dsimp only
  rw [src_dst_of_ne (show IREG_ESP.reg ≠ dest.reg from other.symm),
    src_dst_of_ne (show IREG_SP.reg ≠ dest.reg from other.symm)]
  split
  · rw [dst_comm other]
  · rw [dst_comm other]

/-- `ropPOP_r16` and `ropPOP_r32` of a register that is not the stack pointer. -/
theorem pop_reg (begins : SameGuest t s) {dest : Ireg} (general : dest.reg < 8)
    (other : dest.reg ≠ 4) :
    SameGuest (execUops loadseg t (movOldpc c ++ ropPopLoad c dest IREG_eaaddr ++ addSp c n))
      ((addEsp c.mode.stack32 s n).setReg dest (popped c s dest)) := by
  have start : SameGuest (execUops loadseg t (movOldpc c)) s := movOldpc_spec begins
  obtain ⟨u, same, -, run⟩ := @popLoad_spec s _ c loadseg start dest IREG_eaaddr (by decide) rfl
  rw [execUops_append, execUops_append, run, ← addEsp_dst _ other]
  exact addSp_spec (same.write rfl general)

/-- The same of the stack pointer, which is not advanced. -/
theorem pop_sp (begins : SameGuest t s) {dest : Ireg} (esp : dest.reg = 4) :
    SameGuest (execUops loadseg t (movOldpc c ++ ropPopLoad c dest IREG_eaaddr ++ []))
      (s.setReg dest (popped c s dest)) := by
  have start : SameGuest (execUops loadseg t (movOldpc c)) s := movOldpc_spec begins
  obtain ⟨u, same, -, run⟩ := @popLoad_spec s _ c loadseg start dest IREG_eaaddr (by decide) rfl
  rw [List.append_nil, execUops_append, run]
  exact same.write rfl (by omega)

/-- `POP SP` keeps the upper half of `ESP`, so that nothing may be carried into it. -/
theorem addEsp_setSp (stack32 : Bool)
    (within : stack32 = true → (s.regs.src IREG_SP + n).toNat < 65536) (v : BitVec 32) :
    (addEsp stack32 s n).setReg IREG_SP v = s.setReg IREG_SP v := by
  unfold addEsp StackCpu.setReg
  dsimp only
  split
  case isTrue wide =>
    exact congrArg (fun regs => { s with regs := regs })
      (dst_word_set (high_of_add (within wide)) v)
  case isFalse =>
    exact congrArg (fun regs => { s with regs := regs }) (dst_word_set (high_of_halves _ _) v)

theorem addEsp_setEsp (stack32 : Bool) (v : BitVec 32) :
    (addEsp stack32 s n).setReg IREG_ESP v = s.setReg IREG_ESP v := by
  unfold addEsp StackCpu.setReg
  dsimp only
  split
  · exact congrArg (fun regs => { s with regs := regs }) (set_set s.regs 4 _ v)
  · exact congrArg (fun regs => { s with regs := regs }) (set_set s.regs 4 _ v)

end Pop

/-! ## Operands in memory -/

section Operand

variable {loadseg : LoadSeg} {s t : StackCpu} {m m' : ModRm}

/-- The two operands are encoded alike. -/
structure ModRm.Alike (m m' : ModRm) : Prop where
  modrm : m'.modrm = m.modrm
  code : ∀ n < 5, m'.code n = m.code n
  ssegs : m'.ssegs = m.ssegs
  eaSeg : m'.eaSeg = m.eaSeg
  a32 : m'.a32 = m.a32

namespace ModRm.Alike

theorem mod (alike : Alike m m') : m'.mod = m.mod := by rw [ModRm.mod, ModRm.mod, alike.modrm]

theorem rm (alike : Alike m m') : m'.rm = m.rm := by rw [ModRm.rm, ModRm.rm, alike.modrm]

theorem base (alike : Alike m m') : m'.base = m.base := by
  rw [ModRm.base, ModRm.base, alike.code 0 (by decide)]

theorem index (alike : Alike m m') : m'.index = m.index := by
  rw [ModRm.index, ModRm.index, alike.code 0 (by decide)]

theorem scale (alike : Alike m m') : m'.scale = m.scale := by
  rw [ModRm.scale, ModRm.scale, alike.code 0 (by decide)]

theorem segFor (alike : Alike m m') : m'.segFor = m.segFor := by
  funext stack
  rw [ModRm.segFor, ModRm.segFor, alike.ssegs, alike.eaSeg]

theorem mod1ss (alike : Alike m m') : m'.mod1ss = m.mod1ss := by
  rw [ModRm.mod1ss, ModRm.mod1ss, alike.rm]

theorem le16_eq (alike : Alike m m') : le16 m'.code 0 = le16 m.code 0 := by
  rw [le16, le16, alike.code 0 (by decide), alike.code (0 + 1) (by decide)]

theorem le32_eq (alike : Alike m m') {n : Nat} (near : n < 2) :
    le32 m'.code n = le32 m.code n := by
  rw [le32, le32, alike.code n (by omega), alike.code (n + 1) (by omega),
    alike.code (n + 2) (by omega), alike.code (n + 3) (by omega)]

/-- An address depends on the bytes that it is decoded from. -/
theorem fetchEa_eq (alike : Alike m m') (regs : IRegs) : fetchEa regs m' = fetchEa regs m := by
  unfold fetchEa fetchEa16Long fetchEa32Long mod1add
  rw [alike.mod, alike.rm, alike.base, alike.index, alike.scale, alike.segFor, alike.mod1ss,
    alike.le16_eq, alike.le32_eq (by decide : 0 < 2), alike.le32_eq (by decide : 1 < 2),
    alike.code 0 (by decide), alike.code 1 (by decide), alike.eaSeg, alike.a32]

theorem codegenGenerateEa_eq (alike : Alike m m') (k : BitVec 32) :
    codegenGenerateEa m' k = codegenGenerateEa m k := by
  unfold codegenGenerateEa codegenGenerateEa16Long codegenGenerateEa32Long ea16Base
  rw [alike.mod, alike.rm, alike.base, alike.index, alike.scale, alike.segFor, alike.mod1ss,
    alike.le16_eq, alike.le32_eq (by decide : 0 < 2), alike.le32_eq (by decide : 1 < 2),
    alike.code 0 (by decide), alike.code 1 (by decide), alike.eaSeg, alike.a32]

end ModRm.Alike

/-- A page at its own address. -/
def flatPages : CodePages := ⟨fun page => page.toNat * 4096, fun _ => false⟩

theorem coherent_none (pages : CodePages) (page : BitVec 20) (base : Nat)
    (cached : cachedBase page none = some base) : base = pages.base page :=
  absurd cached.symm (Option.some_ne_none base)

/-- The bytes of the operand from address 0 on. -/
def ModRm.codeMem (m : ModRm) : CodeMem where
  pages := flatPages
  host := fun p => if p = 0 then m.modrm else m.code (p - 1)
  cache := none
  coherent := coherent_none flatPages

theorem codeMem_byte (m : ModRm) (a : BitVec 32) :
    m.codeMem.byte a = if a.toNat = 0 then m.modrm else m.code (a.toNat - 1) := by
  have page : (codePage a).toNat * 4096 + pageOffset a = a.toNat := by
    rw [codePage, pageOffset, BitVec.extractLsb'_toNat, Nat.shiftRight_eq_div_pow]
    have bound := a.isLt
    omega
  have host := congrArg m.codeMem.host page
  exact host

/-- The operand of an instruction at address 0. -/
def ModRm.insn (m : ModRm) : EaInsn where
  mem := m.codeMem
  cs := 0
  pc := 0
  fetchdat := 0#8 ++ m.code 1 ++ m.code 0 ++ m.modrm
  fetched := by
    intro j inside
    rw [codeMem_byte]
    obtain rfl | rfl | rfl : j = 0 ∨ j = 1 ∨ j = 2 := by omega
    · rw [byteLane_append, if_pos rfl]
      rfl
    · rw [byteLane_append, if_neg (by decide), byteLane_append, if_pos rfl]
      rfl
    · rw [byteLane_append, if_neg (by decide), byteLane_append, if_neg (by decide),
        byteLane_append, if_pos rfl]
      rfl
  ssegs := m.ssegs
  eaSeg := m.eaSeg
  a32 := m.a32
  noImmediates := false

theorem insn_modrm (m : ModRm) : byteLane m.insn.fetchdat 0 = m.modrm := by
  change byteLane (0#8 ++ m.code 1 ++ m.code 0 ++ m.modrm) 0 = _
  rw [byteLane_append, if_pos rfl]

theorem insn_memory (m : ModRm) : m.insn.mod ≠ 3 := by
  rw [← (modrm_fields m.insn).1, insn_modrm]
  exact m.memory

theorem alike_insn (m : ModRm) : ModRm.Alike m (m.insn.modRm (insn_memory m)) where
  modrm := insn_modrm m
  code := by
    intro n near
    have place : (m.insn.cs + (m.insn.pc + 1) + BitVec.ofNat 32 n).toNat = n + 1 := by
      change (0 + (0 + 1) + BitVec.ofNat 32 n : BitVec 32).toNat = n + 1
      bv_omega
    refine (codeMem_byte m _).trans ?_
    rw [place, if_neg (Nat.succ_ne_zero n), Nat.add_sub_cancel]
  ssegs := rfl
  eaSeg := rfl
  a32 := rfl

/-- The micro-operations that compute into `eaaddr`. -/
def StackUop.ToEa : StackUop → Prop
  | .movImm dest _ | .mov dest _ | .add dest _ _ | .addImm dest _ _ | .andImm dest _ _
  | .addLshift dest _ _ _ => dest = IREG_eaaddr
  | _ => False

theorem OnlyEa.exec {u : StackUop} (only : OnlyEa s t) (toEa : u.ToEa) :
    OnlyEa s (u.exec loadseg t) := by
  cases u with
  | movImm dest imm => cases toEa; exact only.dst _ rfl
  | mov dest src => cases toEa; exact only.dst _ rfl
  | add dest srcA srcB => cases toEa; exact only.dst _ rfl
  | addImm dest src imm => cases toEa; exact only.dst _ rfl
  | andImm dest src imm => cases toEa; exact only.dst _ rfl
  | addLshift dest srcA srcB shift => cases toEa; exact @OnlyEa.dst _ _ only IREG_eaaddr _ rfl
  | _ => exact toEa.elim

theorem onlyEa_of_forall {uops : List StackUop} (toEa : ∀ u ∈ uops, u.ToEa) (only : OnlyEa s t) :
    OnlyEa s (execUops loadseg t uops) := by
  induction uops generalizing t with
  | nil => exact only
  | cons u uops ih =>
    exact ih (fun v mem => toEa v (List.mem_cons_of_mem _ mem))
      (only.exec (toEa u List.mem_cons_self))

theorem toEa_one {u : StackUop} (toEa : u.ToEa) : ∀ v ∈ [u], v.ToEa :=
  List.forall_mem_singleton.mpr toEa

theorem toEa_16 : ∀ u ∈ (codegenGenerateEa16Long m).1, u.ToEa := by
  unfold codegenGenerateEa16Long
  split
  · exact toEa_one rfl
  · simp only [List.forall_mem_append]
    refine ⟨⟨⟨toEa_one rfl, ?_⟩, ?_⟩, toEa_one rfl⟩
    · split
      · exact toEa_one rfl
      · exact List.forall_mem_nil _
    · split
      · exact toEa_one rfl
      · split
        · exact toEa_one rfl
        · exact List.forall_mem_nil _

theorem toEa_32 (k : BitVec 32) : ∀ u ∈ (codegenGenerateEa32Long m k).1, u.ToEa := by
  have two {u v : StackUop} (first : u.ToEa) (second : v.ToEa) : ∀ w ∈ [u, v], w.ToEa :=
    List.forall_mem_cons.mpr ⟨first, toEa_one second⟩
  unfold codegenGenerateEa32Long
  split
  · simp only [List.forall_mem_append]
    refine ⟨⟨?_, ?_⟩, ?_⟩
    · split
      · split
        · exact toEa_one rfl
        · exact toEa_one rfl
      · split
        · exact two rfl rfl
        · exact two rfl rfl
    · split
      · exact toEa_one rfl
      · exact List.forall_mem_nil _
    · split
      · exact List.forall_mem_nil _
      · split
        · exact toEa_one rfl
        · exact toEa_one rfl
  · split
    · exact toEa_one rfl
    · simp only [List.forall_mem_append]
      refine ⟨toEa_one rfl, ?_⟩
      split
      · exact List.forall_mem_nil _
      · split
        · exact toEa_one rfl
        · exact toEa_one rfl

theorem runEa_uops (host : Nat → BitVec 8) (uops : List StackUop) :
    runEa loadseg host (uops.map .uop) s = some (execUops loadseg s uops) := by
  induction uops generalizing s with
  | nil => rfl
  | cons u uops ih => exact ih

theorem LeavesEa.ea {host : Nat → BitVec 8} {uops : List StackUop} {v : BitVec 32}
    (leaves : LeavesEa loadseg host s (uops.map .uop) v) :
    (execUops loadseg s uops).regs 14 = v := by
  obtain ⟨t, run, value, -⟩ := leaves
  rw [runEa_uops] at run
  rw [Option.some.inj run, value]

/-- The code of an operand computes the interpreter's address, in a state whose stack pointer is
advanced by the offset that it was generated for. -/
theorem operand_spec (loadseg : LoadSeg) (s : StackCpu) (m : ModRm) (k : BitVec 32) {regs : IRegs}
    (same : SameButEsp s.regs regs)
    (advanced : m.a32 = true → m.rm = 4 → m.base = 4 → regs 4 = s.regs 4 + k) :
    OnlyEa s (execUops loadseg s (codegenGenerateEa m k).1) ∧
      (execUops loadseg s (codegenGenerateEa m k).1).regs 14 = (fetchEa regs m).1 ∧
      (codegenGenerateEa m k).2 = (fetchEa regs m).2 := by
  have memory := insn_memory m
  have alike := alike_insn m
  rw [← alike.fetchEa_eq, ← alike.codegenGenerateEa_eq]
  unfold codegenGenerateEa fetchEa
  rw [alike.a32]
  split
  case isTrue long =>
    have whole : SameButEsp s.regs (s.regs.set 4 (s.regs 4 + k)) := fun _ _ other => set_of_ne other
    have apart : SameButEsp regs (s.regs.set 4 (s.regs 4 + k)) :=
      fun r low other => (whole r low other).trans (same r low other).symm
    have leaves := @leavesEa_32 loadseg m.insn s _ memory k whole (set_self 4)
    obtain ⟨uops, seg⟩ := codegenGenerateEa32Long_modRm memory rfl k
    rw [uops] at leaves
    rw [fetchEa32Long_modRm memory]
    refine ⟨onlyEa_of_forall (toEa_32 k) (OnlyEa.refl s), leaves.ea.trans ?_, ?_⟩
    · refine ((fetchEa32Long_eaaddr_iff apart).mpr fun sib esp => ?_).symm
      rw [set_self]
      exact advanced long (alike.rm ▸ (modRm_rm memory).trans sib)
        (alike.base ▸ (modRm_base memory).trans esp)
    · rw [← seg]
      exact (place_32 memory k).1
  case isFalse =>
    have leaves := @leavesEa_16 loadseg m.insn s memory
    obtain ⟨uops, seg⟩ := codegenGenerateEa16Long_modRm memory
    rw [uops] at leaves
    rw [fetchEa16Long_modRm memory, fetchEa16Long_congr same]
    refine ⟨onlyEa_of_forall toEa_16 (OnlyEa.refl s), leaves.ea, ?_⟩
    rw [← seg]
    exact (place_16 memory).1

end Operand

/-! ## Pops of the other operands -/

section PopOperand

variable {loadseg : LoadSeg} {s t : StackCpu} {c : RopContext} {n : BitVec 32} {m : ModRm}

theorem readw_low (mem : LinMem) (a : BitVec 32) : readw mem a &&& 0xffff = readw mem a := by
  apply BitVec.eq_of_toNat_eq
  rw [BitVec.toNat_and, readw, BitVec.toNat_setWidth]
  have bound := (mem (a + 1) ++ mem a).isLt
  refine (Nat.and_two_pow_sub_one_eq_mod _ 16).trans (Nat.mod_eq_of_lt ?_)
  omega

theorem zero_offset (a : BitVec 32) : a + 0 = a := BitVec.add_zero a

/-- A word that is popped into the temporary is read back from it. -/
theorem get_popped_word (u : StackCpu) :
    StackCpu.get { u with regs := u.regs.dst IREG_temp0_W (popped c s IREG_temp0_W) }
      (.ireg IREG_temp0_W) = popped c s IREG_temp0_W :=
  (src_dst_word u.regs 33 _).trans (readw_low _ _)

/-- So is a double word. -/
theorem get_popped_long (u : StackCpu) :
    StackCpu.get { u with regs := u.regs.dst IREG_temp0 (popped c s IREG_temp0) }
      (.ireg IREG_temp0) = popped c s IREG_temp0 := src_dst_long u.regs 33 _

/-- `ropPOP_W` and `ropPOP_L` of an operand in memory up to the store. -/
theorem pop_operand (begins : SameGuest t s) (loadseg : LoadSeg) (c : RopContext) (m : ModRm)
    {dest : Ireg} {regs : IRegs} (same : SameButEsp s.regs regs)
    (advanced : m.a32 = true → m.rm = 4 → m.base = 4 → regs 4 = s.regs 4 + n) :
    ∃ u, SameGuest u s ∧ execUops loadseg t (movOldpc c ++ (codegenGenerateEa m n).1 ++
        ropPopLoad c dest IREG_temp0) =
          { u with regs := u.regs.dst dest (popped c s dest) } ∧
      (codegenGenerateEa m n).2 = (fetchEa regs m).2 ∧ u.regs 14 = (fetchEa regs m).1 := by
  have start : SameGuest (execUops loadseg t (movOldpc c)) s := movOldpc_spec begins
  have still : SameButEsp (execUops loadseg t (movOldpc c)).regs regs :=
    fun r low other => (same r low other).trans (start.regs r low).symm
  obtain ⟨only, ea, seg⟩ := operand_spec loadseg (execUops loadseg t (movOldpc c)) m n still
    fun long sib esp => (advanced long sib esp).trans (by rw [start.regs 4 (by decide)])
  obtain ⟨u, guest, frame, run⟩ := @popLoad_spec s _ c loadseg (only.same.trans start)
    dest IREG_temp0 (by decide) rfl
  refine ⟨u, guest, ?_, seg, (frame 14 (by decide)).trans ea⟩
  rw [execUops_append, execUops_append, run]

theorem pop_mem16 (begins : SameGuest t s)
    (same : SameButEsp s.regs (addEsp c.mode.stack32 s 2).regs)
    (advanced : m.a32 = true → m.rm = 4 → m.base = 4 →
      (addEsp c.mode.stack32 s 2).regs 4 = s.regs 4 + 2) :
    SameGuest (execUops loadseg t (ropPopW c (.mem m))) (opPopW c.mode.stack32 s (.mem m)) := by
  obtain ⟨u, guest, run, seg, ea⟩ :=
    @pop_operand s t 2 begins loadseg c m IREG_temp0_W
      (addEsp c.mode.stack32 s 2).regs same advanced
  unfold ropPopW
  dsimp only
  rw [execUops_append, execUops_append, run, seg]
  have held := guest.temporary (popped c s IREG_temp0_W) (show 8 ≤ IREG_temp0_W.reg by decide)
  have value : u.regs.dst IREG_temp0_W (popped c s IREG_temp0_W) IREG_eaaddr.reg =
      (fetchEa (addEsp c.mode.stack32 s 2).regs m).1 :=
    (dst_of_ne (by decide)).trans ea
  have addr := @SameGuest.guestAddr _ _ held (fetchEa (addEsp c.mode.stack32 s 2).regs m).2
    IREG_eaaddr _ value 0
  rw [zero_offset] at addr
  exact addSp_spec (stored_word loadseg held rfl addr (get_popped_word u))

theorem pop_mem32 (begins : SameGuest t s)
    (same : SameButEsp s.regs (addEsp c.mode.stack32 s 4).regs)
    (advanced : m.a32 = true → m.rm = 4 → m.base = 4 →
      (addEsp c.mode.stack32 s 4).regs 4 = s.regs 4 + 4) :
    SameGuest (execUops loadseg t (ropPopL c (.mem m))) (opPopL c.mode.stack32 s (.mem m)) := by
  obtain ⟨u, guest, run, seg, ea⟩ :=
    @pop_operand s t 4 begins loadseg c m IREG_temp0 (addEsp c.mode.stack32 s 4).regs same advanced
  unfold ropPopL
  dsimp only
  rw [execUops_append, execUops_append, run, seg]
  have held := guest.temporary (popped c s IREG_temp0) (show 8 ≤ IREG_temp0.reg by decide)
  have value : u.regs.dst IREG_temp0 (popped c s IREG_temp0) IREG_eaaddr.reg =
      (fetchEa (addEsp c.mode.stack32 s 4).regs m).1 :=
    (dst_of_ne (by decide)).trans ea
  have addr := @SameGuest.guestAddr _ _ held (fetchEa (addEsp c.mode.stack32 s 4).regs m).2
    IREG_eaaddr _ value 0
  rw [zero_offset] at addr
  exact addSp_spec (stored_long loadseg held rfl addr (get_popped_long u))

theorem readl_low (mem : LinMem) (a : BitVec 32) : readl mem a &&& 0xffff = readw mem a := by
  have mask : ∀ j < 4, byteLane (0xffff : BitVec 32) j = if j < 2 then 0xff else 0 := by decide
  apply eq_of_byteLane
  intro j inside
  rw [byteLane_and, mask j (by omega), CodeMem.byteLane_readl (by omega), readw,
    byteLane_setWidth (by omega), byteLane_append]
  obtain rfl | rfl | high : j = 0 ∨ j = 1 ∨ 2 ≤ j := by omega
  · rw [if_pos (by decide), if_pos rfl]
    exact BitVec.and_allOnes.trans (congrArg mem (BitVec.add_zero a))
  · rw [if_pos (by decide), if_neg (by decide)]
    exact BitVec.and_allOnes.trans BitVec.extractLsb'_eq_self.symm
  · rw [if_neg (by omega), if_neg (by omega), byteLane_of_ge (by omega)]
    exact BitVec.and_zero

/-- `ropPOP_xS_16` and `ropPOP_xS_32`. -/
theorem pop_seg (begins : SameGuest t s) (name : SegName) {v : BitVec 32}
    (low : v &&& 0xffff = popped c s IREG_temp0_W) :
    SameGuest (execUops loadseg t (movOldpc c ++ ropPopLoad c IREG_temp0_W IREG_eaaddr ++
        [.loadSeg name IREG_temp0_W] ++ addSp c n))
      (loadPopped loadseg name (v, addEsp c.mode.stack32 s n)) := by
  have start : SameGuest (execUops loadseg t (movOldpc c)) s := movOldpc_spec begins
  obtain ⟨u, same, -, run⟩ :=
    @popLoad_spec s _ c loadseg start IREG_temp0_W IREG_eaaddr (by decide) rfl
  rw [execUops_append, execUops_append, execUops_append, run]
  have held := same.temporary (popped c s IREG_temp0_W) (show 8 ≤ IREG_temp0_W.reg by decide)
  have value := get_popped_word (c := c) (s := s) u
  have loaded : loadseg name ((StackCpu.get { u with
        regs := u.regs.dst IREG_temp0_W (popped c s IREG_temp0_W) }
          (.ireg IREG_temp0_W)).setWidth 16)
      (u.segs, u.mem) = loadseg name ((v &&& 0xffff).setWidth 16) (s.segs, s.mem) := by
    rw [value, low, same.segs, same.mem]
  have loads : SameGuest
      ((StackUop.loadSeg name IREG_temp0_W).exec loadseg
        { u with regs := u.regs.dst IREG_temp0_W (popped c s IREG_temp0_W) })
      { s with
        segs := (loadseg name ((v &&& 0xffff).setWidth 16) (s.segs, s.mem)).1
        mem := (loadseg name ((v &&& 0xffff).setWidth 16) (s.segs, s.mem)).2 } :=
    ⟨held.regs, held.fl, held.eflags, held.vme, congrArg Prod.fst loaded,
      congrArg Prod.snd loaded⟩
  exact addSp_spec loads

end PopOperand

/-! ## `LEAVE` -/

section Leave

variable {loadseg : LoadSeg} {s t : StackCpu} {c : RopContext}

/-- Where `LEAVE` reads. -/
def frameAt (c : RopContext) (s : StackCpu) : BitVec 32 :=
  s.ss + if c.mode.stack32 = true then s.regs 5 else s.regs 5 &&& 0xffff

/-- What it reads there. -/
def framed (c : RopContext) (s : StackCpu) (dest : Ireg) : BitVec 32 :=
  if dest.size = .l then readl s.mem (frameAt c s) else readw s.mem (frameAt c s)

theorem leave_load (begins : SameGuest t s) (loadseg : LoadSeg) (c : RopContext) (dest : Ireg) :
    ∃ u, SameGuest u s ∧ execUops loadseg t (movOldpc c ++
        if c.mode.stack32 = true then [.memLoadReg dest .ss IREG_EBP 0]
        else [.movzx IREG_eaaddr (.ireg IREG_BP), .memLoadReg dest .ss IREG_eaaddr 0]) =
      { u with regs := u.regs.dst dest (framed c s dest) } := by
  have start : SameGuest (execUops loadseg t (movOldpc c)) s := movOldpc_spec begins
  have load {u : StackCpu} {r : Ireg} (same : SameGuest u s)
      (value : s.ss + u.regs r.reg = frameAt c s) :
      (StackUop.memLoadReg dest .ss r 0).exec loadseg u =
        { u with regs := u.regs.dst dest (framed c s dest) } := by
    have addr : u.guestAddr .ss r 0 = frameAt c s := by
      rw [same.guestAddr rfl, zero_offset]
      exact value
    rw [StackUop.exec, addr, same.mem, framed]
  rw [execUops_append]
  split
  case isTrue wide =>
    refine ⟨_, start, load start ?_⟩
    rw [frameAt, if_pos wide]
    exact congrArg (s.ss + ·) (start.regs 5 (by decide))
  case isFalse narrow =>
    have moved := start.temporary ((execUops loadseg t (movOldpc c)).regs.src IREG_BP)
      (show 8 ≤ IREG_eaaddr.reg by decide)
    refine ⟨_, moved, load moved ?_⟩
    have bp : (execUops loadseg t (movOldpc c)).regs.src IREG_BP = s.regs 5 &&& 0xffff :=
      start.src (by decide)
    rw [frameAt, if_neg narrow, ← bp]
    exact congrArg (s.ss + ·) (@set_self (execUops loadseg t (movOldpc c)).regs _ 14)

/-- `ropLEAVE_16` has the interpreter's result with the stack pointer put together from its
halves. -/
theorem leave16_regs (begins : SameGuest t s) : SameGuest (execUops loadseg t (ropLeave16 c))
    { s with
      regs := (s.regs.dst IREG_SP (s.regs.src IREG_BP + 2)).dst IREG_BP
        (framed c s IREG_temp0_W) } := by
  obtain ⟨u, same, run⟩ := leave_load begins loadseg c IREG_temp0_W
  unfold ropLeave16
  rw [execUops_append, run]
  have held := same.temporary (framed c s IREG_temp0_W) (show 8 ≤ IREG_temp0_W.reg by decide)
  have top := held.write (congrArg (· + 2) (held.src (r := IREG_BP) (by decide)))
    (show IREG_SP.reg < 8 by decide)
  have value : ((u.regs.dst IREG_temp0_W (framed c s IREG_temp0_W)).dst IREG_SP
      ((u.regs.dst IREG_temp0_W (framed c s IREG_temp0_W)).src IREG_BP + 2)).src IREG_temp0_W =
        framed c s IREG_temp0_W := by
    rw [src_dst_of_ne (by decide)]
    exact (src_dst_word u.regs 33 _).trans (readw_low _ _)
  exact top.write value (by decide)

theorem leave32_regs (begins : SameGuest t s) : SameGuest (execUops loadseg t (ropLeave32 c))
    { s with
      regs := (s.regs.dst IREG_ESP (s.regs.src IREG_EBP + 4)).dst IREG_EBP
        (framed c s IREG_temp0) } := by
  obtain ⟨u, same, run⟩ := leave_load begins loadseg c IREG_temp0
  unfold ropLeave32
  rw [execUops_append, run]
  have held := same.temporary (framed c s IREG_temp0) (show 8 ≤ IREG_temp0.reg by decide)
  have top := held.write (congrArg (· + 4) (held.src (r := IREG_EBP) (by decide)))
    (show IREG_ESP.reg < 8 by decide)
  have value : ((u.regs.dst IREG_temp0 (framed c s IREG_temp0)).dst IREG_ESP
      ((u.regs.dst IREG_temp0 (framed c s IREG_temp0)).src IREG_EBP + 4)).src IREG_temp0 =
        framed c s IREG_temp0 := by
    rw [src_dst_of_ne (by decide)]
    exact src_dst_long u.regs 33 _
  exact top.write value (by decide)

theorem and_0xffff_and (x : BitVec 32) : x &&& 0xffff &&& 0xffff = x &&& 0xffff := by
  rw [BitVec.and_assoc]
  rfl

/-- `SP` is set, and the stack pointer advanced from there. -/
theorem addEsp_after_sp (stack32 : Bool) {x n : BitVec 32}
    (within : stack32 = true → ((x &&& 0xffff) + n).toNat < 65536) :
    addEsp stack32 (s.setReg IREG_SP x) n = s.setReg IREG_SP ((x &&& 0xffff) + n) := by
  have low : s.regs.dst IREG_SP x 4 &&& 0xffff = x &&& 0xffff := src_dst_word s.regs 4 x
  have high : s.regs.dst IREG_SP x 4 &&& 0xffff0000 = s.regs 4 &&& 0xffff0000 :=
    dst_word_high s.regs 4 x
  unfold addEsp StackCpu.setReg
  refine congrArg (fun regs => { s with regs := regs }) ?_
  dsimp only
  split
  case isTrue wide =>
    refine (set_set s.regs 4 _ _).trans (congrArg (s.regs.set 4) ?_)
    have whole := (advance_sp_iff (s.regs.dst IREG_SP x 4) n).mpr (low.symm ▸ within wide)
    rw [low, high] at whole
    exact whole.symm
  case isFalse =>
    rw [show (s.regs.dst IREG_SP x).src IREG_SP = x &&& 0xffff from low]
    exact dst_word_set (high_of_halves _ _) _

/-- On a 32-bit stack `opLEAVE_w` goes through an `ESP` whose upper half is still the old one. -/
theorem leaveW_eq
    (upper : c.mode.stack32 = true → s.regs 4 &&& 0xffff0000 = s.regs 5 &&& 0xffff0000)
    (within : c.mode.stack32 = true → (s.regs.src IREG_BP + 2).toNat < 65536) :
    opLeaveW c.mode.stack32 s = { s with
      regs := (s.regs.dst IREG_SP (s.regs.src IREG_BP + 2)).dst IREG_BP
        (framed c s IREG_temp0_W) } := by
  have bp : s.regs.src IREG_BP &&& 0xffff = s.regs.src IREG_BP := and_0xffff_and _
  have low : (s.setReg IREG_SP (s.regs.src IREG_BP)).regs 4 &&& 0xffff = s.regs 5 &&& 0xffff :=
    (src_dst_word s.regs 4 _).trans bp
  have high : (s.setReg IREG_SP (s.regs.src IREG_BP)).regs 4 &&& 0xffff0000 =
      s.regs 4 &&& 0xffff0000 := dst_word_high s.regs 4 _
  have read : s.ss + stackAbove c.mode.stack32 (s.setReg IREG_SP (s.regs.src IREG_BP)) 0 =
      frameAt c s := by
    rw [stackAbove_eq, spAt, low, zero_offset, zero_offset, and_0xffff_and, frameAt]
    split
    case isTrue wide =>
      refine congrArg (s.ss + ·) ((sum_halves _).symm.trans ?_)
      rw [low, high, upper wide, sum_halves]
    case isFalse => rfl
  rw [opLeaveW, popW]
  dsimp only
  rw [addEsp_after_sp _ (bp.symm ▸ within), bp,
    show (s.setReg IREG_SP (s.regs.src IREG_BP)).ss = s.ss from rfl, read]
  rfl

theorem leaveL_eq (within : c.mode.stack32 = false → (s.regs.src IREG_BP + 4).toNat < 65536) :
    opLeaveL c.mode.stack32 s = { s with
      regs := (s.regs.dst IREG_ESP (s.regs.src IREG_EBP + 4)).dst IREG_EBP
        (framed c s IREG_temp0) } := by
  have ebp : (s.setReg IREG_ESP (s.regs.src IREG_EBP)).regs 4 = s.regs 5 :=
    src_dst_long s.regs 4 _
  have read : s.ss + stackAbove c.mode.stack32 (s.setReg IREG_ESP (s.regs.src IREG_EBP)) 0 =
      frameAt c s := by
    rw [stackAbove_eq, spAt, ebp, zero_offset, zero_offset, and_0xffff_and, frameAt]
  have top : addEsp c.mode.stack32 (s.setReg IREG_ESP (s.regs.src IREG_EBP)) 4 =
      s.setReg IREG_ESP (s.regs.src IREG_EBP + 4) := by
    unfold addEsp StackCpu.setReg
    refine congrArg (fun regs => { s with regs := regs }) ?_
    dsimp only
    split
    case isTrue =>
      rw [show (s.regs.dst IREG_ESP (s.regs.src IREG_EBP)).src IREG_ESP = s.regs.src IREG_EBP from
        src_dst_long s.regs 4 _]
      exact set_set s.regs 4 _ _
    case isFalse narrow =>
      have whole := (advance_sp_iff (s.regs 5) 4).mpr (within (Bool.eq_false_of_not_eq_true narrow))
      refine (set_set s.regs 4 _ _).trans (congrArg (s.regs.set 4) ?_)
      rw [show s.regs.dst IREG_ESP (s.regs.src IREG_EBP) IREG_SP.reg = s.regs 5 from ebp,
        show (s.regs.dst IREG_ESP (s.regs.src IREG_EBP)).src IREG_SP = s.regs 5 &&& 0xffff from
          congrArg (· &&& 0xffff) ebp]
      exact whole
  rw [opLeaveL, popL]
  dsimp only
  rw [top, show (s.setReg IREG_ESP (s.regs.src IREG_EBP)).ss = s.ss from rfl, read]
  rfl

end Leave

/-! ## `PUSHA` and `POPA` -/

section All

variable {loadseg : LoadSeg} {s t : StackCpu} {c : RopContext} {n : BitVec 32} {size : IregSize}

/-- The registers of one size, but for the stack pointer. -/
def Others (size : IregSize) (ks : List (BitVec 32 × Ireg)) : Prop :=
  ∀ k ∈ ks, k.2.reg < 8 ∧ k.2.reg ≠ 4 ∧ k.2.size = size

/-- Accesses of a word or a double word. -/
def readOf (size : IregSize) : LinMem → BitVec 32 → BitVec 32 :=
  if size = .l then readl else readw

def writeOf (size : IregSize) : LinMem → BitVec 32 → BitVec 32 → LinMem :=
  if size = .l then writel else writew

/-- The stores of `PUSHA`, at the addresses of the interpreter. -/
theorem stored_all {m : LinMem} {sp : Ireg} {ks : List (BitVec 32 × Ireg)}
    (same : SameGuest t { s with mem := m })
    (held : t.regs sp.reg = spAt c.mode.stack32 s (-n))
    (sized : ∀ k ∈ ks, k.2.reg < 8 ∧ k.2.size = size)
    (placed : ∀ k ∈ ks, spAt c.mode.stack32 s (-n) + (n - k.1) = stackBelow c.mode.stack32 s k.1) :
    SameGuest (execUops loadseg t
        (ks.map fun k => .memStoreReg .ss sp (n - k.1) (.ireg k.2)))
      { s with
        mem := ks.foldl (fun mem k => writeOf size mem (s.ss + stackBelow c.mode.stack32 s k.1)
          (s.regs.src k.2)) m } := by
  induction ks generalizing t m with
  | nil => exact same
  | cons k ks ih =>
    obtain ⟨general, sizes⟩ := sized k List.mem_cons_self
    have addr : t.guestAddr .ss sp (n - k.1) = s.ss + stackBelow c.mode.stack32 s k.1 := by
      rw [same.guestAddr held, ← placed k List.mem_cons_self, BitVec.add_assoc]
      rfl
    have value : t.get (.ireg k.2) = s.regs.src k.2 := same.src general
    have wide : (UopSrc.ireg k.2).isL = decide (size = .l) := by rw [← sizes]; rfl
    refine ih (same.store ?_) held (fun q mem => sized q (List.mem_cons_of_mem _ mem))
      fun q mem => placed q (List.mem_cons_of_mem _ mem)
    rw [addr, value, wide, same.mem, writeOf]
    by_cases long : size = .l
    · rw [if_pos (decide_eq_true long), if_pos long]
    · rw [if_neg (by rw [decide_eq_false long]; decide), if_neg long]

/-- The loads of `POPA`, from the addresses of the interpreter. -/
theorem loaded_all {regs : IRegs} {sp : Ireg} {ks : List (BitVec 32 × Ireg)}
    (same : SameGuest t { s with regs := regs }) (spReg : sp.reg = 4 ∨ sp.reg = 14)
    (held : t.regs sp.reg = spAt c.mode.stack32 s 0) (others : Others size ks)
    (placed : ∀ k ∈ ks, spAt c.mode.stack32 s 0 + k.1 = stackAbove c.mode.stack32 s k.1) :
    SameGuest (execUops loadseg t (ks.map fun k => .memLoadReg k.2 .ss sp k.1))
      { s with
        regs := ks.foldl (fun now k => now.dst k.2
          (readOf size s.mem (s.ss + stackAbove c.mode.stack32 s k.1))) regs } := by
  induction ks generalizing t regs with
  | nil => exact same
  | cons k ks ih =>
    obtain ⟨general, other, sizes⟩ := others k List.mem_cons_self
    have addr : t.guestAddr .ss sp k.1 = s.ss + stackAbove c.mode.stack32 s k.1 := by
      rw [same.guestAddr held, ← placed k List.mem_cons_self, BitVec.add_assoc]
      rfl
    have value : (if k.2.size = .l then readl t.mem (t.guestAddr .ss sp k.1)
        else readw t.mem (t.guestAddr .ss sp k.1)) =
        readOf size s.mem (s.ss + stackAbove c.mode.stack32 s k.1) := by
      rw [addr, same.mem, sizes, readOf]
      split
      · rfl
      · rfl
    refine ih (same.write value general) ?_ (fun q mem => others q (List.mem_cons_of_mem _ mem))
      fun q mem => placed q (List.mem_cons_of_mem _ mem)
    refine (dst_of_ne ?_).trans held
    omega

theorem toNat_low (v : BitVec 32) : (v &&& 0xffff).toNat = v.toNat % 65536 := by
  rw [BitVec.toNat_and]
  exact Nat.and_two_pow_sub_one_eq_mod v.toNat 16

/-- A difference of 32 bits, cut to 16. -/
theorem sub_low {x k : Nat} (low : x < 65536) (small : k < 65536) :
    (x + (4294967296 - k)) % 4294967296 % 65536 = if k ≤ x then x - k else x + 65536 - k := by
  split
  case isTrue under =>
    have sum : x + (4294967296 - k) = x - k + 4294967296 := by omega
    rw [sum, Nat.add_mod_right, Nat.mod_eq_of_lt (by omega), Nat.mod_eq_of_lt (by omega)]
  case isFalse above =>
    have sum : x + (4294967296 - k) = x + 65536 - k + 65535 * 65536 := by omega
    have within : x + (4294967296 - k) < 4294967296 := by omega
    rw [Nat.mod_eq_of_lt within, sum, Nat.add_mul_mod_self_right, Nat.mod_eq_of_lt (by omega)]

theorem below_toNat {x k n : Nat} (low : x < 65536) (near : k ≤ n) (small : n < 65536)
    (range : x < k ∨ n ≤ x) :
    ((x + (4294967296 - n) % 4294967296) % 4294967296 % 65536 +
      (4294967296 - k + n) % 4294967296) % 4294967296 =
      (4294967296 - k + x) % 4294967296 % 65536 := by
  have size : (4294967296 - k + n) % 4294967296 = n - k := by
    have sum : 4294967296 - k + n = n - k + 4294967296 := by omega
    rw [sum, Nat.add_mod_right, Nat.mod_eq_of_lt (by omega)]
  rw [size, Nat.add_mod_mod, Nat.add_comm (4294967296 - k), sub_low low small,
    sub_low low (Nat.lt_of_le_of_lt near small)]
  rcases range with under | inside
  · rw [if_neg (by omega), if_neg (by omega), Nat.mod_eq_of_lt (by omega)]
    omega
  · rw [if_pos inside, if_pos (by omega), Nat.mod_eq_of_lt (by omega)]
    omega

/-- An access of a block that is pushed is where the interpreter has it, unless the block and not
the access passes the end of a 16-bit stack. -/
theorem placed_below {stack32 : Bool} {k : BitVec 32} (near : k.toNat ≤ n.toNat)
    (small : n.toNat < 65536)
    (within : stack32 = false →
      (s.regs.src IREG_SP).toNat < k.toNat ∨ n.toNat ≤ (s.regs.src IREG_SP).toNat) :
    spAt stack32 s (-n) + (n - k) = stackBelow stack32 s k := by
  unfold spAt stackBelow
  split
  case isTrue =>
    change s.regs 4 + -n + (n - k) = s.regs 4 - k
    bv_omega
  case isFalse narrow =>
    have range := within (Bool.eq_false_of_not_eq_true narrow)
    change ((s.regs.src IREG_SP + -n) &&& 0xffff) + (n - k) = (s.regs.src IREG_SP - k) &&& 0xffff
    have low : (s.regs.src IREG_SP).toNat < 65536 := by
      rw [show s.regs.src IREG_SP = s.regs 4 &&& 0xffff from rfl, toNat_low]
      exact Nat.mod_lt _ (by decide)
    apply BitVec.eq_of_toNat_eq
    rw [BitVec.toNat_add, toNat_low, toNat_low, BitVec.toNat_sub, BitVec.toNat_sub,
      BitVec.toNat_add, BitVec.toNat_neg]
    exact below_toNat low near small range

theorem placed_above {stack32 : Bool} {k : BitVec 32}
    (within : stack32 = false → (s.regs.src IREG_SP).toNat + k.toNat < 65536) :
    spAt stack32 s 0 + k = stackAbove stack32 s k := by
  unfold spAt stackAbove
  split
  case isTrue => exact congrArg (· + k) (zero_offset _)
  case isFalse narrow =>
    have range := within (Bool.eq_false_of_not_eq_true narrow)
    rw [zero_offset, and_0xffff_and]
    apply BitVec.eq_of_toNat_eq
    rw [toNat_low]
    change (s.regs.src IREG_SP + k).toNat = (s.regs.src IREG_SP + k).toNat % 65536
    rw [BitVec.toNat_add]
    omega

/-- `PUSHA` of either size: the registers with their distances from the top of the stack. -/
theorem pusha (begins : SameGuest t s) {ks : List (BitVec 32 × Ireg)}
    (sized : ∀ k ∈ ks, k.2.reg < 8 ∧ k.2.size = size)
    (near : ∀ k ∈ ks, k.1.toNat ≤ n.toNat) (small : n.toNat < 65536)
    (within : c.mode.stack32 = false → ∀ k ∈ ks,
      (s.regs.src IREG_SP).toNat < k.1.toNat ∨ n.toNat ≤ (s.regs.src IREG_SP).toNat) :
    SameGuest (execUops loadseg t (ropPushOf c n fun sp =>
        ks.map fun k => .memStoreReg .ss sp (n - k.1) (.ireg k.2)))
      (subEsp c.mode.stack32
        { s with mem := pushAll c.mode.stack32 s (writeOf size) ks } n) :=
  push_spec begins fun _ same held => stored_all same held sized fun k mem =>
    placed_below (near k mem) small fun narrow => within narrow k mem

/-- `POPA` of either size. -/
theorem popa (begins : SameGuest t s) {ks : List (BitVec 32 × Ireg)} (others : Others size ks)
    (within : c.mode.stack32 = false → ∀ k ∈ ks,
      (s.regs.src IREG_SP).toNat + k.1.toNat < 65536) :
    SameGuest (execUops loadseg t (movOldpc c ++ (loadSpWithOffset c 0).1 ++
        (ks.map fun k => .memLoadReg k.2 .ss (loadSpWithOffset c 0).2 k.1) ++ addSp c n))
      (addEsp c.mode.stack32
        { s with regs := popAll c.mode.stack32 s (readOf size) ks } n) := by
  have start : SameGuest (execUops loadseg t (movOldpc c)) s := movOldpc_spec begins
  obtain ⟨only, sp⟩ := @loadSp_spec loadseg c (execUops loadseg t (movOldpc c)) 0
  rw [spAt_congr start] at sp
  rw [execUops_append, execUops_append, execUops_append]
  exact addSp_spec (loaded_all (only.same.trans start) (loadSp_reg 0) sp others
    fun k mem => placed_above fun narrow => within narrow k mem)

/-- The block of `PUSHA` does not pass the end of a 16-bit stack, or no access of it is before. -/
def PushFits (c : RopContext) (s : StackCpu) (first n : Nat) : Prop :=
  c.mode.stack32 = false → (s.regs.src IREG_SP).toNat < first ∨ n ≤ (s.regs.src IREG_SP).toNat

theorem pusha16 (begins : SameGuest t s) (fits : PushFits c s 2 16) :
    SameGuest (execUops loadseg t (ropPusha16 c)) (opPushaW c.mode.stack32 s) := by
  refine @pusha loadseg s t c 16 .w begins
    [(2, IREG_AX), (4, IREG_CX), (6, IREG_DX), (8, IREG_BX), (10, IREG_SP), (12, IREG_BP),
      (14, IREG_SI), (16, IREG_DI)] (by decide) (by decide) (by decide) fun narrow k mem => ?_
  have least : ∀ k ∈ [(2, IREG_AX), (4, IREG_CX), (6, IREG_DX), (8, IREG_BX), (10, IREG_SP),
      (12, IREG_BP), (14, IREG_SI), ((16 : BitVec 32), IREG_DI)], 2 ≤ k.1.toNat := by decide
  exact (fits narrow).imp_left (Nat.lt_of_lt_of_le · (least k mem))

theorem pusha32 (begins : SameGuest t s) (fits : PushFits c s 4 32) :
    SameGuest (execUops loadseg t (ropPusha32 c)) (opPushaL c.mode.stack32 s) := by
  refine @pusha loadseg s t c 32 .l begins
    [(4, IREG_EAX), (8, IREG_ECX), (12, IREG_EDX), (16, IREG_EBX), (20, IREG_ESP),
      (24, IREG_EBP), (28, IREG_ESI), (32, IREG_EDI)] (by decide) (by decide) (by decide)
    fun narrow k mem => ?_
  have least : ∀ k ∈ [(4, IREG_EAX), (8, IREG_ECX), (12, IREG_EDX), (16, IREG_EBX),
      (20, IREG_ESP), (24, IREG_EBP), (28, IREG_ESI), ((32 : BitVec 32), IREG_EDI)],
      4 ≤ k.1.toNat := by decide
  exact (fits narrow).imp_left (Nat.lt_of_lt_of_le · (least k mem))

theorem popa16 (begins : SameGuest t s)
    (fits : c.mode.stack32 = false → (s.regs.src IREG_SP).toNat + 14 < 65536) :
    SameGuest (execUops loadseg t (ropPopa16 c)) (opPopaW c.mode.stack32 s) := by
  refine @popa loadseg s t c 16 .w begins
    [(0, IREG_DI), (2, IREG_SI), (4, IREG_BP), (8, IREG_BX), (10, IREG_DX), (12, IREG_CX),
      (14, IREG_AX)] (by unfold Others; decide) fun narrow k mem => ?_
  have most : ∀ k ∈ [(0, IREG_DI), (2, IREG_SI), (4, IREG_BP), (8, IREG_BX), (10, IREG_DX),
      (12, IREG_CX), ((14 : BitVec 32), IREG_AX)], k.1.toNat ≤ 14 := by decide
  exact Nat.lt_of_le_of_lt (Nat.add_le_add_left (most k mem) _) (fits narrow)

theorem popa32 (begins : SameGuest t s)
    (fits : c.mode.stack32 = false → (s.regs.src IREG_SP).toNat + 28 < 65536) :
    SameGuest (execUops loadseg t (ropPopa32 c)) (opPopaL c.mode.stack32 s) := by
  refine @popa loadseg s t c 32 .l begins
    [(0, IREG_EDI), (4, IREG_ESI), (8, IREG_EBP), (16, IREG_EBX), (20, IREG_EDX),
      (24, IREG_ECX), (28, IREG_EAX)] (by unfold Others; decide) fun narrow k mem => ?_
  have most : ∀ k ∈ [(0, IREG_EDI), (4, IREG_ESI), (8, IREG_EBP), (16, IREG_EBX),
      (20, IREG_EDX), (24, IREG_ECX), ((28 : BitVec 32), IREG_EAX)], k.1.toNat ≤ 28 := by decide
  exact Nat.lt_of_le_of_lt (Nat.add_le_add_left (most k mem) _) (fits narrow)

end All

/-! ## `PUSHF` and `PUSHFD` -/

section Flags

variable {loadseg : LoadSeg} {s t : StackCpu} {c : RopContext}

theorem rebuilt_start (begins : SameGuest t s) :
    SameGuest (execUops loadseg (execUops loadseg t (movOldpc c)) [.callFlagsRebuild]) s.rebuilt :=
  (movOldpc_spec begins).rebuilt

theorem pushf_spec (begins : SameGuest t s) : SameGuest
    (execUops loadseg t (movOldpc c ++ [.callFlagsRebuild] ++
      (loadSpWithOffset c (-2)).1 ++ [.memStoreReg .ss (loadSpWithOffset c (-2)).2 0 .flags] ++
      subSp c 2))
    (pushW c.mode.stack32 s.rebuilt (s.rebuilt.fl.flags.setWidth 32)) := by
  rw [execUops_append, execUops_append, execUops_append, execUops_append]
  refine push_tail (rebuilt_start begins) (fun sp => [.memStoreReg .ss sp 0 .flags])
    fun u _ same sp => stored_word loadseg same rfl (below_addr same sp) ?_
  exact congrArg (fun fl : FlagState => fl.flags.setWidth 32) same.fl

/-- Two words next to each other are a double word. -/
theorem writew_writew (mem : LinMem) (a w : BitVec 32) (f : BitVec 16) :
    writew (writew mem a (f.setWidth 32)) (a + 2) w = writel mem a
      (f.setWidth 32 ||| w <<< 16) := by
  funext x
  unfold writew writel writeBytes
  by_cases inside : (x - a).toNat < 4
  · rw [if_pos inside, byteLane_or, byteLane_shiftLeft (k := 2) (by omega)]
    by_cases low : (x - a).toNat < 2
    · rw [if_neg (by bv_omega), if_pos low, if_pos low]
      exact BitVec.or_zero.symm
    · have place : (x - (a + 2)).toNat = (x - a).toNat - 2 := by bv_omega
      rw [if_pos (by omega), place, if_neg low, byteLane_setWidth (by omega),
        @byteLane_of_ge 16 f _ (by omega)]
      exact BitVec.zero_or.symm
  · rw [if_neg inside, if_neg (by bv_omega), if_neg (by omega)]

theorem mask_low (mode : StackMode) : mode.eflagsMask &&& 0xffff = mode.eflagsMask := by
  unfold StackMode.eflagsMask
  split
  · decide
  · split
    · decide
    · decide

theorem pushfd_spec (begins : SameGuest t s) : SameGuest (execUops loadseg t (movOldpc c ++
      [.callFlagsRebuild, .andImm IREG_temp0_W .eflags c.mode.eflagsMask] ++
      (loadSpWithOffset c (-4)).1 ++
      [.memStoreReg .ss (loadSpWithOffset c (-4)).2 0 .flags,
        .memStoreReg .ss (loadSpWithOffset c (-4)).2 2 (.ireg IREG_temp0_W)] ++ subSp c 4))
    (pushL c.mode.stack32 s.rebuilt (s.rebuilt.fl.flags.setWidth 32 |||
      (s.eflags.setWidth 32 &&& c.mode.eflagsMask) <<< 16)) := by
  rw [execUops_append, execUops_append, execUops_append, execUops_append]
  have start : SameGuest (execUops loadseg (execUops loadseg t (movOldpc c))
      [.callFlagsRebuild, .andImm IREG_temp0_W .eflags c.mode.eflagsMask]) s.rebuilt :=
    (rebuilt_start begins).temporary _ (show 8 ≤ IREG_temp0_W.reg by decide)
  refine push_tail start (fun sp => [.memStoreReg .ss sp 0 .flags,
    .memStoreReg .ss sp 2 (.ireg IREG_temp0_W)]) fun u only same sp => ?_
  have flags : u.get .flags = s.rebuilt.fl.flags.setWidth 32 :=
    congrArg (fun fl : FlagState => fl.flags.setWidth 32) same.fl
  have upper : u.get (.ireg IREG_temp0_W) = s.eflags.setWidth 32 &&& c.mode.eflagsMask := by
    have kept := congrArg (· &&& (0xffff : BitVec 32)) (only.2 33 (by decide))
    refine kept.trans ((src_dst_word _ 33 _).trans ?_)
    rw [BitVec.and_assoc, mask_low]
    exact congrArg (fun e : BitVec 16 => e.setWidth 32 &&& c.mode.eflagsMask) begins.eflags
  have next : u.guestAddr .ss (loadSpWithOffset c (-4)).2 2 =
      s.rebuilt.ss + stackBelow c.mode.stack32 s.rebuilt 4 + 2 := by
    rw [← below_addr same sp]
    exact congrArg (· + 2) (zero_offset _).symm
  have first := stored_word loadseg same rfl (below_addr same sp) flags
  have kept : (StackUop.exec loadseg u (.memStoreReg .ss (loadSpWithOffset c (-4)).2 0 .flags)).get
      (.ireg IREG_temp0_W) = s.eflags.setWidth 32 &&& c.mode.eflagsMask := upper
  have second := stored_word loadseg first rfl next kept
  rw [← writew_writew]
  exact second

end Flags

/-! ## Agreement -/

/-- The code of an instruction goes where the interpreter goes, from every state that is the same to
the guest. -/
def StackAgrees (loadseg : LoadSeg) (c : RopContext) (s : StackCpu) (op : StackOp) : Prop :=
  ∀ uops, rop c op = some uops → ∀ t, SameGuest t s →
    ∃ s', interpret loadseg c.mode s op = some s' ∧ SameGuest (execUops loadseg t uops) s'

/-- An operand in memory that is addressed through `ESP`. -/
def ModRm.ThroughEsp (m : ModRm) : Prop := m.a32 = true ∧ m.rm = 4 ∧ m.base = 4

/-- What an instruction needs. A block of words, or a word and the place behind it, lies on one side
of the end of a 16-bit stack; a word register does not carry into the upper half of `ESP`; and
`PUSHF` finds the privilege that it was compiled for. -/
def StackFits (c : RopContext) (s : StackCpu) : StackOp → Prop
  | .popR16 r | .popW (.reg r) =>
      r = 4 → c.mode.stack32 = true → (s.regs.src IREG_SP + 2).toNat < 65536
  | .popW (.mem m) =>
      m.ThroughEsp → c.mode.stack32 = false → (s.regs.src IREG_SP + 2).toNat < 65536
  | .popL (.mem m) =>
      m.ThroughEsp → c.mode.stack32 = false → (s.regs.src IREG_SP + 4).toNat < 65536
  | .leave16 => c.mode.stack32 = true →
      s.regs 4 &&& 0xffff0000 = s.regs 5 &&& 0xffff0000 ∧
        (s.regs.src IREG_BP + 2).toNat < 65536
  | .leave32 => c.mode.stack32 = false → (s.regs.src IREG_BP + 4).toNat < 65536
  | .pusha16 => PushFits c s 2 16
  | .pusha32 => PushFits c s 4 32
  | .popa16 => c.mode.stack32 = false → (s.regs.src IREG_SP).toNat + 14 < 65536
  | .popa32 => c.mode.stack32 = false → (s.regs.src IREG_SP).toNat + 28 < 65536
  | .pushf | .pushfd => s.vm = true ∧ s.iopl ≠ 3 → c.vm = true ∧ c.iopl ≠ 3
  | _ => True

section Agreement

variable {loadseg : LoadSeg} {s t : StackCpu} {c : RopContext}

theorem pop_r16 (begins : SameGuest t s) {r : BitVec 3}
    (fits : r = 4 → c.mode.stack32 = true → (s.regs.src IREG_SP + 2).toNat < 65536) :
    SameGuest (execUops loadseg t (ropPopR16 c r))
      ((popW c.mode.stack32 s).2.setReg (IREG_16 r) (popW c.mode.stack32 s).1) := by
  unfold ropPopR16
  by_cases esp : r = 4
  · rw [if_neg (not_not.mpr esp)]
    have value := @pop_sp loadseg s t c begins IREG_SP rfl
    rw [esp, show (popW c.mode.stack32 s).2 = addEsp c.mode.stack32 s 2 from rfl,
      show IREG_16 4 = IREG_SP from rfl, addEsp_setSp _ (fits esp)]
    exact value
  · rw [if_pos esp]
    have other : (IREG_16 r).reg ≠ 4 := fun eq => esp (BitVec.eq_of_toNat_eq eq)
    exact pop_reg begins r.isLt other

theorem pop_r32 (begins : SameGuest t s) (r : BitVec 3) :
    SameGuest (execUops loadseg t (ropPopR32 c r))
      ((popL c.mode.stack32 s).2.setReg (IREG_32 r) (popL c.mode.stack32 s).1) := by
  unfold ropPopR32
  by_cases esp : r = 4
  · rw [if_neg (not_not.mpr esp)]
    have value := @pop_sp loadseg s t c begins IREG_ESP rfl
    rw [esp, show (popL c.mode.stack32 s).2 = addEsp c.mode.stack32 s 4 from rfl,
      show IREG_32 4 = IREG_ESP from rfl, addEsp_setEsp]
    exact value
  · rw [if_pos esp]
    have other : (IREG_32 r).reg ≠ 4 := fun eq => esp (BitVec.eq_of_toNat_eq eq)
    exact pop_reg begins r.isLt other

theorem advanced_of_fits {m : ModRm} {popped : Popped} {stack32 : Bool}
    (fits : m.ThroughEsp → stack32 = false →
      (s.regs.src IREG_SP + popped.offset).toNat < 65536) :
    m.a32 = true → m.rm = 4 → m.base = 4 →
      (popped.before stack32 s).regs 4 = s.regs 4 + popped.offset := by
  intro long sib esp
  refine (before_esp_iff popped stack32).mpr fun wraps => ?_
  exact absurd (fits ⟨long, sib, esp⟩ wraps.1) (Nat.not_lt_of_le wraps.2)

/-- An instruction with one code, which goes where its handler does. -/
theorem StackAgrees.of_code {op : StackOp} {code : List StackUop} {s' : StackCpu}
    (compiled : rop c op = some code) (ran : interpret loadseg c.mode s op = some s')
    (same : ∀ t, SameGuest t s → SameGuest (execUops loadseg t code) s') :
    StackAgrees loadseg c s op := by
  intro uops compiled' t begins
  obtain rfl := Option.some.inj (compiled.symm.trans compiled')
  exact ⟨s', ran, same t begins⟩

theorem agrees_popSeg {n : BitVec 32} {name : SegName} {uops : List StackUop} {v : BitVec 32}
    (begins : SameGuest t s) (compiled : ropPopSegOf c n name = some uops)
    (low : v &&& 0xffff = popped c s IREG_temp0_W) :
    SameGuest (execUops loadseg t uops)
      (loadPopped loadseg name (v, addEsp c.mode.stack32 s n)) := by
  unfold ropPopSegOf at compiled
  split at compiled
  · exact nomatch compiled
  · cases compiled
    exact pop_seg begins name low

theorem agrees_pushf (fits : s.vm = true ∧ s.iopl ≠ 3 → c.vm = true ∧ c.iopl ≠ 3) :
    StackAgrees loadseg c s .pushf := by
  intro uops compiled t begins
  change ropPushf c = some uops at compiled
  unfold ropPushf at compiled
  split at compiled
  · exact nomatch compiled
  · next open_ =>
    cases compiled
    refine ⟨_, if_neg fun closed => open_ (fits closed), ?_⟩
    exact pushf_spec begins

theorem agrees_pushfd (fits : s.vm = true ∧ s.iopl ≠ 3 → c.vm = true ∧ c.iopl ≠ 3) :
    StackAgrees loadseg c s .pushfd := by
  intro uops compiled t begins
  change ropPushfd c = some uops at compiled
  unfold ropPushfd at compiled
  split at compiled
  · exact nomatch compiled
  · next open_ =>
    cases compiled
    refine ⟨_, if_neg fun closed => open_ (fits closed), ?_⟩
    exact pushfd_spec begins

/-- The step lemma: an instruction that fits. -/
theorem stackAgrees_of_fits (loadseg : LoadSeg) {op : StackOp} (fits : StackFits c s op) :
    StackAgrees loadseg c s op := by
  cases op with
  | pushf => exact agrees_pushf fits
  | pushfd => exact agrees_pushfd fits
  | pushR16 r =>
    have general : (IREG_16 r).reg < 8 := r.isLt
    exact .of_code rfl rfl fun t begins => push_word begins rfl fun u same => same.src general
  | pushR32 r =>
    have general : (IREG_32 r).reg < 8 := r.isLt
    exact .of_code rfl rfl fun t begins => push_long begins rfl fun u same => same.src general
  | popR16 r => exact .of_code rfl rfl fun t begins => pop_r16 begins fits
  | popR32 r => exact .of_code rfl rfl fun t begins => pop_r32 begins r
  | pushImm16 imm => exact .of_code rfl rfl fun t begins => push_imm16 begins rfl
  | pushImm32 imm => exact .of_code rfl rfl fun t begins => push_imm32 begins
  | pushImm16x8 imm =>
    exact .of_code rfl rfl fun t begins => push_imm16 begins (signExtend_16 imm)
  | pushImm32x8 imm =>
    refine .of_code rfl rfl fun t begins => ?_
    rw [← signExtend_32 imm]
    exact push_imm32 begins
  | popW dest =>
    cases dest with
    | reg r => exact .of_code rfl rfl fun t begins => pop_r16 begins fits
    | mem m =>
      refine .of_code rfl rfl fun t begins =>
        pop_mem16 begins (@before_frame s .word c.mode.stack32) ?_
      exact @advanced_of_fits s m .word _ fits
  | popL dest =>
    cases dest with
    | reg r => exact .of_code rfl rfl fun t begins => pop_r32 begins r
    | mem m =>
      refine .of_code rfl rfl fun t begins =>
        pop_mem32 begins (@before_frame s .long c.mode.stack32) ?_
      exact @advanced_of_fits s m .long _ fits
  | pushSeg16 name =>
    refine .of_code rfl rfl fun t begins => push_word begins rfl fun u same => ?_
    exact congrArg (fun segs : SegName → SegReg => (segs name).seg.setWidth 32) same.segs
  | pushSeg32 name => exact .of_code rfl rfl fun t begins => push_seg32 begins name
  | popSeg16 name =>
    intro uops compiled t begins
    exact ⟨_, rfl, agrees_popSeg begins compiled (readw_low _ _)⟩
  | popSeg32 name =>
    intro uops compiled t begins
    exact ⟨_, rfl, agrees_popSeg begins compiled (readl_low _ _)⟩
  | leave16 =>
    refine .of_code rfl rfl fun t begins => ?_
    rw [leaveW_eq (fun wide => (fits wide).1) fun wide => (fits wide).2]
    exact leave16_regs begins
  | leave32 =>
    refine .of_code rfl rfl fun t begins => ?_
    rw [leaveL_eq fits]
    exact leave32_regs begins
  | pusha16 => exact .of_code rfl rfl fun t begins => pusha16 begins fits
  | pusha32 => exact .of_code rfl rfl fun t begins => pusha32 begins fits
  | popa16 => exact .of_code rfl rfl fun t begins => popa16 begins fits
  | popa32 => exact .of_code rfl rfl fun t begins => popa32 begins fits

end Agreement

/-! ## Blocks -/

section Blocks

variable (loadseg : LoadSeg)

/-- The code of a block of stack instructions, each compiled in its own context. -/
def ropBlock : List (RopContext × StackOp) → Option (List StackUop)
  | [] => some []
  | (c, op) :: rest => do
      let uops ← rop c op
      let more ← ropBlock rest
      pure (uops ++ more)

/-- The handlers of its instructions, one after the other. -/
def interpretBlock : List (RopContext × StackOp) → StackCpu → Option StackCpu
  | [], s => some s
  | (c, op) :: rest, s => interpret loadseg c.mode s op >>= interpretBlock rest

/-- Each instruction fits the state that the interpreter reaches it in. -/
def BlockFits : List (RopContext × StackOp) → StackCpu → Prop
  | [], _ => True
  | (c, op) :: rest, s =>
      StackFits c s op ∧ ∀ s', interpret loadseg c.mode s op = some s' → BlockFits rest s'

end Blocks

/-- A 16-bit stack. -/
def narrowStack : RopContext := ⟨⟨false, true, true⟩, 0x400, false, 0⟩

/-- `SP` is 0x1000. -/
def stackMiddle : StackCpu := { stackEnd with regs := fun r => if r = 4 then 0x1000 else 0x2000 }

end PCemWeb
