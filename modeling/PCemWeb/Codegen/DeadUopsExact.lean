import PCemWeb.Codegen.DeadUops

/-!
# What the dead list removes

Versions are counted in the list of micro-operations itself: the version of a register at place
`k` is the number of writes to it before `k`. `Generated` ties the tables to that count.
-/

namespace PCemWeb.Codegen

open Lib

/-! ## Versions in a list of micro-operations -/

namespace UopGen

variable (u : UopGen)

def sources : List SizedReg :=
  u.srcRegA.toList ++ u.srcRegB.toList ++ u.srcRegC.toList

def writes (reg : Nat) : Bool := u.destRegA.any fun r => r.reg = reg

end UopGen

section Versions

variable (pointerSize : Nat) (l : List UopGen)

/-- The version of `reg` when the micro-operation at `k` is laid down. -/
def versionBefore (k reg : Nat) : Nat := (l.take k).countP fun u => u.writes reg

/-- The micro-operation at `k` has the version as a source. -/
def SourceRead (k reg version : Nat) : Prop :=
  ∃ u, l[k]? = some u ∧ (∃ r ∈ u.sources, r.reg = reg) ∧ versionBefore l k reg = version

/-- The micro-operation at `k` writes `reg` over the version, and `full` tells if with its native
size. -/
def WrittenOver (full : Bool) (k reg version : Nat) : Prop :=
  ∃ u, l[k]? = some u ∧ ∃ r, u.destRegA = some r ∧ r.reg = reg ∧
    versionBefore l k reg = version ∧ regIsNativeSize pointerSize r = full

/-- A write of another size keeps a part of the version, so it reads it too. -/
def ReadsVersion (k reg version : Nat) : Prop :=
  SourceRead l k reg version ∨ WrittenOver pointerSize l false k reg version

/-- A barrier needs the version in memory. -/
def RequiredAtBarrier (reg version : Nat) : Prop :=
  isVolatile reg = false ∧
    ∃ k u, l[k]? = some u ∧ isBarrier u.type = true ∧ versionBefore l k reg = version

/-- The version that the block leaves. -/
def FinalVersion (reg version : Nat) : Prop := versionBefore l l.length reg = version

/-- None of the micro-operations in `live`, no barrier and nothing after the block uses the
version. -/
def Unused (live : Nat → Prop) (reg version : Nat) : Prop :=
  (∀ k, live k → ¬ ReadsVersion pointerSize l k reg version) ∧
    ¬ RequiredAtBarrier l reg version ∧ ¬ FinalVersion l reg version

end Versions

variable {pointerSize : Nat} {l : List UopGen} {u : UopGen} {k reg version : Nat}

theorem getElem?_concat {w : UopGen} :
    (l ++ [u])[k]? = some w ↔ l[k]? = some w ∨ (k = l.length ∧ w = u) := by
  rcases Nat.lt_trichotomy k l.length with lt | rfl | gt
  · rw [List.getElem?_append_left lt]
    exact ⟨Or.inl, fun h => h.resolve_right fun e => absurd e.1 (Nat.ne_of_lt lt)⟩
  · simp [eq_comm]
  · simp [List.getElem?_eq_none (show (l ++ [u]).length ≤ k by simp; omega),
      List.getElem?_eq_none (Nat.le_of_lt gt), Nat.ne_of_gt gt]

theorem lt_of_getElem? (at_k : l[k]? = some u) : k < l.length :=
  (List.getElem?_eq_some_iff.mp at_k).1

theorem versionBefore_concat (le : k ≤ l.length) :
    versionBefore (l ++ [u]) k reg = versionBefore l k reg := by
  rw [versionBefore, versionBefore, List.take_append_of_le_length le]

theorem versionBefore_concat_length :
    versionBefore (l ++ [u]) (l ++ [u]).length reg =
      versionBefore l l.length reg + if u.writes reg then 1 else 0 := by
  rw [versionBefore, versionBefore, List.take_length, List.take_length, List.countP_append,
    List.countP_singleton]

theorem versionBefore_mono {k' : Nat} (le : k ≤ k') :
    versionBefore l k reg ≤ versionBefore l k' reg :=
  (List.take_sublist_take_left le).countP_le

/-- A write raises the version of every later place. -/
theorem versionBefore_lt {k' : Nat} (lt : k < k') (at_k : l[k]? = some u)
    (writes : u.writes reg = true) :
    versionBefore l k reg + 1 ≤ versionBefore l k' reg := by
  refine le_trans (le_of_eq ?_) (versionBefore_mono (Nat.succ_le_of_lt lt))
  obtain ⟨inside, rfl⟩ := List.getElem?_eq_some_iff.mp at_k
  rw [versionBefore, versionBefore, List.take_succ_eq_append_getElem inside, List.countP_append]
  simp [writes]

theorem writes_of_dest {r : SizedReg} (dest : u.destRegA = some r) : u.writes r.reg = true := by
  simp [UopGen.writes, dest]

theorem exists_dest (writes : u.writes reg = true) :
    ∃ r, u.destRegA = some r ∧ r.reg = reg := by
  simpa [UopGen.writes, Option.any_eq_true] using writes

/-- Every version up to the last one has been made by a write. -/
theorem exists_writer (lt : version < versionBefore l l.length reg) :
    ∃ k u r, l[k]? = some u ∧ u.destRegA = some r ∧ r.reg = reg ∧
      versionBefore l k reg = version := by
  induction l using List.reverseRecOn with
  | nil => simp [versionBefore] at lt
  | append_singleton l w ih =>
    rw [versionBefore_concat_length] at lt
    rcases Nat.lt_or_ge version (versionBefore l l.length reg) with below | above
    · obtain ⟨k, u, r, at_k, dest, same, count⟩ := ih below
      exact ⟨k, u, r, getElem?_concat.mpr (.inl at_k), dest, same,
        versionBefore_concat (Nat.le_of_lt (lt_of_getElem? at_k)) ▸ count⟩
    · have written : w.writes reg = true := by
        by_contra unwritten
        rw [if_neg unwritten] at lt
        omega
      rw [if_pos written] at lt
      obtain ⟨r, dest, same⟩ := exists_dest written
      exact ⟨l.length, w, r, getElem?_concat.mpr (.inr ⟨rfl, rfl⟩), dest, same,
        (versionBefore_concat le_rfl).trans (by omega)⟩

/-- One write replaces a version. -/
theorem writer_unique {k' : Nat} {u' : UopGen} (at_k : l[k]? = some u) (at_k' : l[k']? = some u')
    (writes : u.writes reg = true) (writes' : u'.writes reg = true)
    (same : versionBefore l k reg = versionBefore l k' reg) : k = k' := by
  rcases Nat.lt_trichotomy k k' with lt | eq | gt
  · have := versionBefore_lt lt at_k writes
    omega
  · exact eq
  · have := versionBefore_lt gt at_k' writes'
    omega

/-! ## Numbers of versions -/

theorem regKey_eq (lt : version < 256) : regKey reg version = 256 * reg + version := by
  rw [regKey, Nat.or_comm, ← Nat.shiftLeft_add_eq_or_of_lt (show version < 2 ^ 8 from lt),
    Nat.shiftLeft_eq]
  omega

theorem regKey_inj {reg' version' : Nat} (lt : version < 256) (lt' : version' < 256) :
    regKey reg version = regKey reg' version' ↔ reg = reg' ∧ version = version' := by
  rw [regKey_eq lt, regKey_eq lt']
  omega

/-- The head of the list splits into a register and a version of it. -/
theorem regKey_split (lt : version < 256) :
    regKey (regKey reg version >>> 8) (regKey reg version &&& 0xff) = regKey reg version := by
  have high : regKey reg version >>> 8 = reg := by
    rw [regKey_eq lt, Nat.shiftRight_eq_div_pow]
    omega
  have low : regKey reg version &&& 0xff = version := by
    rw [regKey_eq lt, show 0xff = 2 ^ 8 - 1 from rfl, Nat.and_two_pow_sub_one_eq_mod]
    omega
  rw [high, low]

theorem regKey_ne_zero (lt : version < 256) (pos : 0 < version) : regKey reg version ≠ 0 := by
  rw [regKey_eq lt]
  omega

/-! ## What the steps change -/

/-- The marks of a barrier, in one pass. -/
theorem foldl_markReg (s : Ir) (regs : List Nat) :
    regs.foldl Ir.markReg s = { s with regVersion := fun key =>
      { s.regVersion key with
        required := (s.regVersion key).required || regs.any fun reg =>
          decide (0 < s.lastVersion reg ∧ isVolatile reg = false ∧
            regKey reg (s.lastVersion reg) = key) } } := by
  induction regs generalizing s with
  | nil => simp
  | cons reg regs ih =>
    have same : (s.markReg reg).lastVersion = s.lastVersion := by
      unfold Ir.markReg
      split <;> rfl
    rw [List.foldl_cons, ih, same]
    unfold Ir.markReg
    split
    case isTrue marked =>
      simp only [Ir.setVersion, Ir.mk.injEq, true_and, and_true]
      funext key
      rcases eq_or_ne key (regKey reg (s.lastVersion reg)) with rfl | other
      · simp [marked]
      · simp [Function.update_of_ne other, other.symm]
    case isFalse unmarked =>
      simp only [Ir.mk.injEq, true_and, and_true]
      funext key
      have off : ¬ (0 < s.lastVersion reg ∧ isVolatile reg = false ∧
          regKey reg (s.lastVersion reg) = key) := fun h => unmarked ⟨h.1, h.2.1⟩
      simp only [List.any_cons, decide_eq_false off, Bool.false_or]

/-- What reading `regs` does to the tables. -/
structure ReadEffect (s s' : Ir) (regs : List SizedReg) : Prop where
  uops : s'.uops = s.uops
  wrPos : s'.wrPos = s.wrPos
  lastVersion : s'.lastVersion = s.lastVersion
  deadList : s'.deadList = s.deadList
  next : ∀ key, (s'.regVersion key).next = (s.regVersion key).next
  parentUop : ∀ key, (s'.regVersion key).parentUop = (s.regVersion key).parentUop
  refcount : ∀ key, (s'.regVersion key).refcount = 0 ↔
    (s.regVersion key).refcount = 0 ∧ ∀ r ∈ regs, regKey r.reg (s.lastVersion r.reg) ≠ key
  required : ∀ key, (∀ r ∈ regs, regKey r.reg (s.lastVersion r.reg) ≠ key) →
    (s'.regVersion key).required = (s.regVersion key).required

theorem ReadEffect.refl (s : Ir) : ReadEffect s s [] where
  uops := rfl
  wrPos := rfl
  lastVersion := rfl
  deadList := rfl
  next _ := rfl
  parentUop _ := rfl
  refcount _ := by simp
  required _ _ := rfl

theorem ReadEffect.trans {s s' s'' : Ir} {regs regs' : List SizedReg}
    (first : ReadEffect s s' regs) (second : ReadEffect s' s'' regs') :
    ReadEffect s s'' (regs ++ regs') where
  uops := second.uops.trans first.uops
  wrPos := second.wrPos.trans first.wrPos
  lastVersion := second.lastVersion.trans first.lastVersion
  deadList := second.deadList.trans first.deadList
  next key := (second.next key).trans (first.next key)
  parentUop key := (second.parentUop key).trans (first.parentUop key)
  refcount key := by
    rw [second.refcount, first.refcount, first.lastVersion, List.forall_mem_append, and_assoc]
  required key untouched := by
    rw [List.forall_mem_append] at untouched
    rw [second.required key (first.lastVersion ▸ untouched.2), first.required key untouched.1]

/-- A source holds the last version of its register. -/
theorem readSrc_effect {s s' : Ir} {o : Option SizedReg} {a : Option IrReg}
    (read : s.readSrc o = some (a, s')) :
    a = o.map (fun r => ⟨r, s.lastVersion r.reg⟩) ∧ ReadEffect s s' o.toList := by
  cases o with
  | none =>
    simp only [Ir.readSrc, Option.some.injEq, Prod.mk.injEq] at read
    obtain ⟨rfl, rfl⟩ := read
    exact ⟨rfl, .refl s⟩
  | some r =>
    simp only [Ir.readSrc, Ir.regRead, Option.map_eq_some_iff] at read
    obtain ⟨⟨d, t⟩, step, same⟩ := read
    split at step
    · cases step
    rename_i nonzero
    simp only [Option.some.injEq, Prod.mk.injEq] at step same
    obtain ⟨rfl, rfl⟩ := step
    obtain ⟨rfl, rfl⟩ := same
    refine ⟨rfl, ⟨rfl, rfl, rfl, rfl, ?_, ?_, ?_, ?_⟩⟩
    all_goals
      intro key
      rcases eq_or_ne key (regKey r.reg (s.lastVersion r.reg)) with rfl | other
    · simp [Ir.setVersion]
    · simp [Ir.setVersion, Function.update_of_ne other]
    · simp [Ir.setVersion]
    · simp [Ir.setVersion, Function.update_of_ne other]
    · simp [Ir.setVersion, nonzero]
    · simp [Ir.setVersion, Function.update_of_ne other, other.symm]
    · simp
    · simp [Ir.setVersion, Function.update_of_ne other]

/-- `uop_alloc`, with the marks of a barrier in one pass. -/
theorem uopAlloc_eq {s s' : Ir} {type : BitVec 32} (alloc : s.uopAlloc type = some s') :
    s' = { s with
      wrPos := s.wrPos + 1
      regVersion := fun key => { s.regVersion key with
        required := (s.regVersion key).required || (isBarrier type &&
          (List.range IREG_COUNT).any fun reg =>
            decide (0 < s.lastVersion reg ∧ isVolatile reg = false ∧
              regKey reg (s.lastVersion reg) = key)) } } := by
  unfold Ir.uopAlloc at alloc
  split at alloc
  · cases alloc
  rw [Option.some.injEq] at alloc
  rw [← alloc]
  split
  case isTrue barrier => simp only [Ir.markAsRequired, foldl_markReg, barrier, Bool.true_and]
  case isFalse plain => simp [plain]

/-- A write makes the next version, behind the one it may put on the dead list. -/
theorem writeDest_eq {s s' : Ir} {o : Option SizedReg} {uopNr : Nat} {d : Option IrReg}
    (lt : ∀ reg, s.lastVersion reg < 256)
    (write : s.writeDest pointerSize uopNr o = some (d, s')) :
    (o = none ∧ d = none ∧ s' = s) ∨
      ∃ r, o = some r ∧ d = some ⟨r, s.lastVersion r.reg + 1⟩ ∧
        s.lastVersion r.reg + 1 < 256 ∧
        s' = (s.retire pointerSize r).newVersion r uopNr (s.lastVersion r.reg + 1) := by
  cases o with
  | none =>
    simp only [Ir.writeDest, Option.some.injEq, Prod.mk.injEq] at write
    exact .inl ⟨rfl, write.1.symm, write.2.symm⟩
  | some r =>
    simp only [Ir.writeDest, Ir.regWrite, Option.map_eq_some_iff] at write
    obtain ⟨⟨e, t⟩, step, same⟩ := write
    split at step
    · cases step
    rename_i nonzero
    have below := lt r.reg
    have room : s.lastVersion r.reg + 1 < 256 := by omega
    rw [Nat.mod_eq_of_lt room] at step
    simp only [Option.some.injEq, Prod.mk.injEq] at step same
    obtain ⟨rfl, rfl⟩ := step
    obtain ⟨rfl, rfl⟩ := same
    exact .inr ⟨r, rfl, rfl, room, rfl⟩

/-! ## One more micro-operation -/

theorem exists_at_concat {Q : UopGen → Nat → Prop} :
    (∃ w, (l ++ [u])[k]? = some w ∧ Q w (versionBefore (l ++ [u]) k reg)) ↔
      (∃ w, l[k]? = some w ∧ Q w (versionBefore l k reg)) ∨
        (k = l.length ∧ Q u (versionBefore l l.length reg)) := by
  constructor
  · rintro ⟨w, at_k, holds⟩
    rcases getElem?_concat.mp at_k with before | ⟨rfl, rfl⟩
    · rw [versionBefore_concat (Nat.le_of_lt (lt_of_getElem? before))] at holds
      exact .inl ⟨w, before, holds⟩
    · rw [versionBefore_concat le_rfl] at holds
      exact .inr ⟨rfl, holds⟩
  · rintro (⟨w, before, holds⟩ | ⟨rfl, holds⟩)
    · refine ⟨w, getElem?_concat.mpr (.inl before), ?_⟩
      rw [versionBefore_concat (Nat.le_of_lt (lt_of_getElem? before))]
      exact holds
    · refine ⟨u, getElem?_concat.mpr (.inr ⟨rfl, rfl⟩), ?_⟩
      rw [versionBefore_concat le_rfl]
      exact holds

theorem sourceRead_concat : SourceRead (l ++ [u]) k reg version ↔
    SourceRead l k reg version ∨
      (k = l.length ∧ (∃ r ∈ u.sources, r.reg = reg) ∧ versionBefore l l.length reg = version) :=
  exists_at_concat (Q := fun w count => (∃ r ∈ w.sources, r.reg = reg) ∧ count = version)

theorem writtenOver_concat {full : Bool} :
    WrittenOver pointerSize (l ++ [u]) full k reg version ↔
      WrittenOver pointerSize l full k reg version ∨
        (k = l.length ∧ ∃ r, u.destRegA = some r ∧ r.reg = reg ∧
          versionBefore l l.length reg = version ∧ regIsNativeSize pointerSize r = full) :=
  exists_at_concat (Q := fun w count => ∃ r, w.destRegA = some r ∧ r.reg = reg ∧
    count = version ∧ regIsNativeSize pointerSize r = full)

theorem requiredAtBarrier_concat : RequiredAtBarrier (l ++ [u]) reg version ↔
    RequiredAtBarrier l reg version ∨
      (isVolatile reg = false ∧ isBarrier u.type = true ∧
        versionBefore l l.length reg = version) := by
  unfold RequiredAtBarrier
  simp only [exists_at_concat (Q := fun w count => isBarrier w.type = true ∧ count = version),
    exists_or, exists_eq_left, and_or_left]

/-- A version is read while it is the last one. -/
theorem SourceRead.le (read : SourceRead l k reg version) :
    version ≤ versionBefore l l.length reg := by
  obtain ⟨w, at_k, -, rfl⟩ := read
  exact versionBefore_mono (Nat.le_of_lt (lt_of_getElem? at_k))

theorem RequiredAtBarrier.le (required : RequiredAtBarrier l reg version) :
    version ≤ versionBefore l l.length reg := by
  obtain ⟨-, k, w, at_k, -, rfl⟩ := required
  exact versionBefore_mono (Nat.le_of_lt (lt_of_getElem? at_k))

theorem WrittenOver.lt {full : Bool} (written : WrittenOver pointerSize l full k reg version) :
    version < versionBefore l l.length reg := by
  obtain ⟨w, at_k, r, dest, rfl, rfl, -⟩ := written
  exact versionBefore_lt (lt_of_getElem? at_k) at_k (writes_of_dest dest)

/-! ## The tables of a generated block -/

/-- The counters and the marks of the versions up to `last` are those of the list. -/
structure Counted (l : List UopGen) (last : Nat → Nat) (s : Ir) : Prop where
  refcount : ∀ reg version, version ≤ last reg →
    ((s.regVersion (regKey reg version)).refcount = 0 ↔ ∀ k, ¬ SourceRead l k reg version)
  /-- A read clears the mark, and version 0 keeps the one of an earlier block. -/
  required : ∀ reg version, reg < IREG_COUNT → 0 < version → version ≤ last reg →
    (∀ k, ¬ SourceRead l k reg version) →
    ((s.regVersion (regKey reg version)).required = true ↔ RequiredAtBarrier l reg version)

/-- The versions of the dead list. -/
def Listed (pointerSize : Nat) (l : List UopGen) (reg version : Nat) : Prop :=
  IREG_LAST_BH < reg ∧ 0 < version ∧ (∃ k, WrittenOver pointerSize l true k reg version) ∧
    (∀ k, ¬ SourceRead l k reg version) ∧ ¬ RequiredAtBarrier l reg version

/-- The micro-operation at `k` as it is laid down. -/
def laidDown (l : List UopGen) (k : Nat) (u : UopGen) : Uop where
  type := u.type
  srcRegA := u.srcRegA.map fun r => ⟨r, versionBefore l k r.reg⟩
  srcRegB := u.srcRegB.map fun r => ⟨r, versionBefore l k r.reg⟩
  srcRegC := u.srcRegC.map fun r => ⟨r, versionBefore l k r.reg⟩
  destRegA := u.destRegA.map fun r => ⟨r, versionBefore l k r.reg + 1⟩

/-- The dead list holds the versions `listed`. -/
def DeadChain (s : Ir) (listed : Nat → Nat → Prop) : Prop :=
  ∃ keys, Chain (fun key => (s.regVersion key).next) s.deadList keys ∧
    ∀ key, key ∈ keys ↔ ∃ reg version, key = regKey reg version ∧ listed reg version

/-- The state is that of a block of the micro-operations `l`. -/
structure Generated (pointerSize : Nat) (l : List UopGen) (s : Ir) : Prop where
  wrPos : s.wrPos = l.length
  lastVersion : ∀ reg, s.lastVersion reg = versionBefore l l.length reg
  last_lt : ∀ reg, versionBefore l l.length reg < 256
  uop : ∀ k u, l[k]? = some u → s.uops k = laidDown l k u
  parentUop : ∀ k u r, l[k]? = some u → u.destRegA = some r →
    (s.regVersion (regKey r.reg (versionBefore l k r.reg + 1))).parentUop = k
  counted : Counted l (versionBefore l l.length) s
  chain : DeadChain s (Listed pointerSize l)

theorem generated_reset (s : Ir) : Generated pointerSize [] s.reset where
  wrPos := rfl
  lastVersion reg := by simp [Ir.reset, versionBefore]
  last_lt reg := by simp [versionBefore]
  uop k u at_k := by simp at at_k
  parentUop k u r at_k := by simp at at_k
  counted := by
    constructor
    · intro reg version le
      obtain rfl : version = 0 := Nat.le_zero.mp le
      simp [Ir.reset, regKey_eq, SourceRead]
    · intro reg version _ pos le
      exact absurd le (Nat.not_le_of_lt pos)
  chain := ⟨[], rfl, by simp [Listed, WrittenOver]⟩

/-- The micro-operation's marks and reads, over the versions there are. -/
theorem Counted.read {s s₁ s₂ : Ir} (counted : Counted l (versionBefore l l.length) s)
    (last : ∀ reg, s.lastVersion reg = versionBefore l l.length reg)
    (last_lt : ∀ reg, versionBefore l l.length reg < 256)
    (alloc : s.uopAlloc u.type = some s₁) (read : ReadEffect s₁ s₂ u.sources) :
    Counted (l ++ [u]) (versionBefore l l.length) s₂ := by
  have laid := uopAlloc_eq alloc
  have last₁ : s₁.lastVersion = versionBefore l l.length := by
    rw [laid]
    exact funext last
  have unread_iff : ∀ reg version, version ≤ versionBefore l l.length reg →
      ((∀ r ∈ u.sources, regKey r.reg (s₁.lastVersion r.reg) ≠ regKey reg version) ↔
        ¬ ((∃ r ∈ u.sources, r.reg = reg) ∧ versionBefore l l.length reg = version)) := by
    intro reg version le
    rw [last₁]
    constructor
    · rintro apart ⟨⟨r, source, rfl⟩, rfl⟩
      exact apart r source rfl
    · intro unread r source same
      obtain ⟨rfl, rfl⟩ := (regKey_inj (last_lt _) (lt_of_le_of_lt le (last_lt _))).mp same
      exact unread ⟨⟨r, source, rfl⟩, rfl⟩
  have split_reads : ∀ reg version, (∀ k, ¬ SourceRead (l ++ [u]) k reg version) ↔
      (∀ k, ¬ SourceRead l k reg version) ∧
        ¬ ((∃ r ∈ u.sources, r.reg = reg) ∧ versionBefore l l.length reg = version) := by
    intro reg version
    simp only [sourceRead_concat, not_or, forall_and, forall_eq, not_and]
  constructor
  · intro reg version le
    rw [read.refcount, unread_iff reg version le, split_reads, laid]
    exact and_congr_left' (counted.refcount reg version le)
  · intro reg version inside pos le unread
    obtain ⟨unread, apart⟩ := (split_reads reg version).mp unread
    rw [read.required _ ((unread_iff reg version le).mpr apart), laid, requiredAtBarrier_concat,
      ← counted.required reg version inside pos le unread]
    simp only [Bool.or_eq_true, Bool.and_eq_true, List.any_eq_true, List.mem_range,
      decide_eq_true_eq, last]
    apply or_congr_right
    constructor
    · rintro ⟨barrier, reg', -, -, permanent, same⟩
      obtain ⟨rfl, rfl⟩ := (regKey_inj (last_lt _) (lt_of_le_of_lt le (last_lt _))).mp same
      exact ⟨permanent, barrier, rfl⟩
    · rintro ⟨permanent, barrier, rfl⟩
      exact ⟨barrier, reg, inside, pos, permanent, rfl⟩

/-- The version made by the write has not been used yet. -/
theorem Counted.write {s s' : Ir} {last last' : Nat → Nat} (counted : Counted l last s)
    (tables : ∀ reg version, version ≤ last reg →
      (s'.regVersion (regKey reg version)).refcount =
          (s.regVersion (regKey reg version)).refcount ∧
        (s'.regVersion (regKey reg version)).required =
          (s.regVersion (regKey reg version)).required)
    (made : ∀ reg version, last reg < version → version ≤ last' reg →
      (s'.regVersion (regKey reg version)).refcount = 0 ∧
        (s'.regVersion (regKey reg version)).required = false ∧
        (∀ k, ¬ SourceRead l k reg version) ∧ ¬ RequiredAtBarrier l reg version) :
    Counted l last' s' := by
  constructor
  · intro reg version le
    rcases Nat.lt_or_ge (last reg) version with new | old
    · obtain ⟨zero, -, unread, -⟩ := made reg version new le
      exact iff_of_true zero unread
    · rw [(tables reg version old).1]
      exact counted.refcount reg version old
  · intro reg version inside pos le unread
    rcases Nat.lt_or_ge (last reg) version with new | old
    · obtain ⟨-, unmarked, -, optional⟩ := made reg version new le
      rw [unmarked]
      exact iff_of_false Bool.false_ne_true optional
    · rw [(tables reg version old).2]
      exact counted.required reg version inside pos old unread

/-- A listed version has been replaced, so one more micro-operation does not use it. -/
theorem listed_concat : Listed pointerSize (l ++ [u]) reg version ↔
    Listed pointerSize l reg version ∨
      (IREG_LAST_BH < reg ∧ 0 < version ∧
        (∃ r, u.destRegA = some r ∧ r.reg = reg ∧ versionBefore l l.length reg = version ∧
          regIsNativeSize pointerSize r = true) ∧
        (∀ k, ¬ SourceRead (l ++ [u]) k reg version) ∧
          ¬ RequiredAtBarrier (l ++ [u]) reg version) := by
  constructor
  · rintro ⟨high, pos, ⟨k, written⟩, unread, optional⟩
    rcases writtenOver_concat.mp written with before | ⟨rfl, here⟩
    · refine .inl ⟨high, pos, ⟨k, before⟩, fun k' read => ?_, fun required => ?_⟩
      · exact unread k' (sourceRead_concat.mpr (.inl read))
      · exact optional (requiredAtBarrier_concat.mpr (.inl required))
    · exact .inr ⟨high, pos, here, unread, optional⟩
  · rintro (⟨high, pos, ⟨k, written⟩, unread, optional⟩ | ⟨high, pos, here, unread, optional⟩)
    · have replaced := written.lt
      refine ⟨high, pos, ⟨k, writtenOver_concat.mpr (.inl written)⟩, fun k' read => ?_,
        fun required => ?_⟩
      · rcases sourceRead_concat.mp read with before | ⟨-, -, last⟩
        · exact unread k' before
        · omega
      · rcases requiredAtBarrier_concat.mp required with before | ⟨-, -, last⟩
        · exact optional before
        · omega
    · exact ⟨high, pos, ⟨l.length, writtenOver_concat.mpr (.inr ⟨rfl, here⟩)⟩, unread, optional⟩

/-- Without a destination nothing joins the list. -/
theorem DeadChain.keep {s s' : Ir} {listed listed' : Nat → Nat → Prop} (chain : DeadChain s listed)
    (next : ∀ key, (s'.regVersion key).next = (s.regVersion key).next)
    (deadList : s'.deadList = s.deadList)
    (same : ∀ reg version, listed' reg version ↔ listed reg version) : DeadChain s' listed' := by
  obtain ⟨keys, links, members⟩ := chain
  refine ⟨keys, deadList ▸ links.congr fun key _ => next key, fun key => ?_⟩
  simp only [members, same]

/-- A version that was not on the list joins it. -/
theorem DeadChain.push {s : Ir} {listed listed' : Nat → Nat → Prop} (chain : DeadChain s listed)
    (lt : version < 256) (pos : 0 < version)
    (fresh : ∀ reg' version', listed reg' version' → regKey reg' version' ≠ regKey reg version)
    (same : ∀ reg' version', listed' reg' version' ↔
      listed reg' version' ∨ (reg' = reg ∧ version' = version)) :
    DeadChain (s.addToDeadList reg version) listed' := by
  obtain ⟨keys, links, members⟩ := chain
  refine ⟨regKey reg version :: keys, links.push (regKey_ne_zero lt pos) ?_ ?_, fun key => ?_⟩
  · simp [Ir.addToDeadList, Ir.setVersion]
  · intro key member
    obtain ⟨reg', version', rfl, on⟩ := (members key).mp member
    simp [Ir.addToDeadList, Ir.setVersion, Function.update_of_ne (fresh reg' version' on)]
  · rw [List.mem_cons, members]
    constructor
    · rintro (rfl | ⟨reg', version', rfl, on⟩)
      · exact ⟨reg, version, rfl, (same reg version).mpr (.inr ⟨rfl, rfl⟩)⟩
      · exact ⟨reg', version', rfl, (same reg' version').mpr (.inl on)⟩
    · rintro ⟨reg', version', rfl, on⟩
      rcases (same reg' version').mp on with before | ⟨rfl, rfl⟩
      · exact .inr ⟨reg', version', rfl, before⟩
      · exact .inl rfl

section Retire

variable {s : Ir} {r : SizedReg}

/-- The write lists the version it replaces exactly when that version has become dead. -/
theorem retire_chain (counted : Counted (l ++ [u]) (versionBefore l l.length) s)
    (last : ∀ reg, s.lastVersion reg = versionBefore l l.length reg)
    (last_lt : ∀ reg, versionBefore l l.length reg < 256)
    (chain : DeadChain s (Listed pointerSize l)) (dest : u.destRegA = some r) :
    DeadChain (s.retire pointerSize r) (Listed pointerSize (l ++ [u])) := by
  have joins : ∀ reg version, Listed pointerSize (l ++ [u]) reg version ↔
      Listed pointerSize l reg version ∨
        (reg = r.reg ∧ version = s.lastVersion r.reg ∧ IREG_LAST_BH < r.reg ∧
          s.lastVersion r.reg ≠ 0 ∧
          (s.regVersion (regKey r.reg (s.lastVersion r.reg))).refcount = 0 ∧
          (s.regVersion (regKey r.reg (s.lastVersion r.reg))).required = false ∧
          regIsNativeSize pointerSize r = true) := by
    intro reg version
    rw [listed_concat]
    apply or_congr_right
    rw [last]
    constructor
    · rintro ⟨high, pos, ⟨r', dest', rfl, rfl, native⟩, unread, optional⟩
      obtain rfl : r = r' := Option.some.inj (dest.symm.trans dest')
      refine ⟨rfl, rfl, high, Nat.ne_of_gt pos, (counted.refcount _ _ le_rfl).mpr unread, ?_,
        native⟩
      rw [← Bool.not_eq_true, counted.required _ _ r.lt_count pos le_rfl unread]
      exact optional
    · rintro ⟨rfl, rfl, high, nonzero, zero, unmarked, native⟩
      have unread := (counted.refcount _ _ le_rfl).mp zero
      have pos := Nat.pos_of_ne_zero nonzero
      refine ⟨high, pos, ⟨r, dest, rfl, rfl, native⟩, unread, ?_⟩
      rw [← counted.required _ _ r.lt_count pos le_rfl unread, unmarked]
      exact Bool.false_ne_true
  unfold Ir.retire
  dsimp only
  split
  case isTrue dead =>
    refine chain.push (last r.reg ▸ last_lt r.reg) (Nat.pos_of_ne_zero dead.2.1) ?_ ?_
    · intro reg version listed same
      obtain ⟨-, -, ⟨k, written⟩, -⟩ := listed
      have replaced := written.lt
      rw [last] at same
      obtain ⟨rfl, rfl⟩ :=
        (regKey_inj (lt_trans replaced (last_lt reg)) (last_lt r.reg)).mp same
      omega
    · intro reg version
      rw [joins]
      simp only [dead, ne_eq, not_false_eq_true, and_self, and_true]
  case isFalse alive =>
    refine chain.keep (fun _ => rfl) rfl fun reg version => ?_
    rw [joins, or_iff_left]
    exact fun dead => alive dead.2.2

/-- Joining the list changes a link and nothing else of a version. -/
theorem retire_regVersion (key : Nat) :
    ∃ next, (s.retire pointerSize r).regVersion key = { s.regVersion key with next := next } := by
  unfold Ir.retire
  dsimp only
  split
  · rcases eq_or_ne key (regKey r.reg (s.lastVersion r.reg)) with rfl | other
    · exact ⟨s.deadList, by simp [Ir.addToDeadList, Ir.setVersion]⟩
    · refine ⟨(s.regVersion key).next, ?_⟩
      simp [Ir.addToDeadList, Ir.setVersion, Function.update_of_ne other]
  · exact ⟨(s.regVersion key).next, rfl⟩

theorem retire_frame : (s.retire pointerSize r).uops = s.uops ∧
    (s.retire pointerSize r).wrPos = s.wrPos ∧
    (s.retire pointerSize r).lastVersion = s.lastVersion := by
  unfold Ir.retire
  dsimp only
  split <;> exact ⟨rfl, rfl, rfl⟩

end Retire

theorem newVersion_regVersion {s : Ir} {r : SizedReg} {uopNr : Nat} {key : Nat}
    (other : key ≠ regKey r.reg version) :
    (s.newVersion r uopNr version).regVersion key = s.regVersion key := by
  simp [Ir.newVersion, Ir.setVersion, Function.update_of_ne other]

theorem newVersion_next {s : Ir} {r : SizedReg} {uopNr : Nat} (key : Nat) :
    ((s.newVersion r uopNr version).regVersion key).next = (s.regVersion key).next := by
  rcases eq_or_ne key (regKey r.reg version) with rfl | other
  · simp [Ir.newVersion, Ir.setVersion]
  · rw [newVersion_regVersion other]

/-- The state between the reads of the micro-operation `u` and its write. -/
structure ReadDone (pointerSize : Nat) (l : List UopGen) (u : UopGen) (s : Ir) : Prop where
  wrPos : s.wrPos = l.length + 1
  lastVersion : ∀ reg, s.lastVersion reg = versionBefore l l.length reg
  last_lt : ∀ reg, versionBefore l l.length reg < 256
  uop : ∀ k w, l[k]? = some w → s.uops k = laidDown l k w
  parentUop : ∀ k w r, l[k]? = some w → w.destRegA = some r →
    (s.regVersion (regKey r.reg (versionBefore l k r.reg + 1))).parentUop = k
  counted : Counted (l ++ [u]) (versionBefore l l.length) s
  chain : DeadChain s (Listed pointerSize l)

theorem Generated.read {s s₁ s₂ : Ir} (generated : Generated pointerSize l s)
    (alloc : s.uopAlloc u.type = some s₁) (read : ReadEffect s₁ s₂ u.sources) :
    ReadDone pointerSize l u s₂ := by
  have laid := uopAlloc_eq alloc
  refine ⟨?_, ?_, generated.last_lt, ?_, ?_, ?_, ?_⟩
  · rw [read.wrPos, laid, generated.wrPos]
  · rw [read.lastVersion, laid]
    exact generated.lastVersion
  · rw [read.uops, laid]
    exact generated.uop
  · intro k w r at_k dest
    rw [read.parentUop, laid]
    exact generated.parentUop k w r at_k dest
  · exact generated.counted.read generated.lastVersion generated.last_lt alloc read
  · refine generated.chain.keep (fun key => ?_) ?_ fun _ _ => Iff.rfl
    · rw [read.next, laid]
    · rw [read.deadList, laid]

/-- The write adds a version. -/
theorem versionBefore_write {r : SizedReg} (dest : u.destRegA = some r) :
    versionBefore (l ++ [u]) (l ++ [u]).length reg =
      if reg = r.reg then versionBefore l l.length reg + 1 else versionBefore l l.length reg := by
  rw [versionBefore_concat_length]
  rcases eq_or_ne reg r.reg with rfl | other
  · rw [if_pos (writes_of_dest dest), if_pos rfl]
  · rw [if_neg other, if_neg (by simp [UopGen.writes, dest, other.symm]), Nat.add_zero]

theorem versionBefore_noWrite (none : u.destRegA = none) :
    versionBefore (l ++ [u]) (l ++ [u]).length reg = versionBefore l l.length reg := by
  rw [versionBefore_concat_length]
  simp [UopGen.writes, none]

theorem laidDown_concat {w : UopGen} (le : k ≤ l.length) :
    laidDown (l ++ [u]) k w = laidDown l k w := by
  simp only [laidDown, versionBefore_concat le]

/-- The micro-operation joins the ones before it. -/
theorem laid_concat {uops : Nat → Uop} (before : ∀ k w, l[k]? = some w → uops k = laidDown l k w)
    {w : UopGen} (at_k : (l ++ [u])[k]? = some w) :
    Function.update uops l.length (laidDown l l.length u) k = laidDown (l ++ [u]) k w := by
  rcases getElem?_concat.mp at_k with old | ⟨rfl, rfl⟩
  · have lt := lt_of_getElem? old
    rw [Function.update_of_ne (Nat.ne_of_lt lt), laidDown_concat (Nat.le_of_lt lt),
      before k w old]
  · rw [Function.update_self, laidDown_concat le_rfl]

namespace ReadDone

variable {s : Ir} {r : SizedReg}

/-- Without a destination the micro-operation is complete. -/
theorem noWrite (done : ReadDone pointerSize l u s) (none : u.destRegA = none) :
    Generated pointerSize (l ++ [u])
      { s with uops := Function.update s.uops l.length (laidDown l l.length u) } := by
  have last : versionBefore (l ++ [u]) (l ++ [u]).length = versionBefore l l.length :=
    funext fun _ => versionBefore_noWrite none
  refine ⟨?_, ?_, ?_, ?_, ?_, ?_, ?_⟩
  · rw [List.length_append]
    exact done.wrPos
  · rw [last]
    exact done.lastVersion
  · rw [last]
    exact done.last_lt
  · intro k w at_k
    exact laid_concat done.uop at_k
  · intro k w r at_k dest
    rcases getElem?_concat.mp at_k with old | ⟨-, rfl⟩
    · rw [versionBefore_concat (Nat.le_of_lt (lt_of_getElem? old))]
      exact done.parentUop k w r old dest
    · cases none.symm.trans dest
  · rw [last]
    exact ⟨done.counted.refcount, done.counted.required⟩
  · refine done.chain.keep (fun _ => rfl) rfl fun reg version => ?_
    rw [listed_concat]
    refine or_iff_left ?_
    rintro ⟨-, -, ⟨r, dest, -⟩, -⟩
    cases none.symm.trans dest

/-- With one, its new version is unused and the version before it may be dead. -/
theorem write (done : ReadDone pointerSize l u s) (dest : u.destRegA = some r)
    (room : s.lastVersion r.reg + 1 < 256) :
    Generated pointerSize (l ++ [u])
      { (s.retire pointerSize r).newVersion r l.length (s.lastVersion r.reg + 1) with
        uops := Function.update s.uops l.length (laidDown l l.length u) } := by
  have last : ∀ reg, versionBefore (l ++ [u]) (l ++ [u]).length reg =
      if reg = r.reg then versionBefore l l.length reg + 1
      else versionBefore l l.length reg := fun _ => versionBefore_write dest
  have old_key : ∀ reg version, version ≤ versionBefore l l.length reg →
      regKey reg version ≠ regKey r.reg (s.lastVersion r.reg + 1) := by
    intro reg version le same
    rw [done.lastVersion] at room same
    obtain ⟨rfl, rfl⟩ :=
      (regKey_inj (lt_of_le_of_lt le (done.last_lt reg)) room).mp same
    omega
  have untouched : ∀ reg version, version ≤ versionBefore l l.length reg →
      ∃ next, ((s.retire pointerSize r).newVersion r l.length
        (s.lastVersion r.reg + 1)).regVersion (regKey reg version) =
          { s.regVersion (regKey reg version) with next := next } := by
    intro reg version le
    rw [newVersion_regVersion (old_key reg version le)]
    exact retire_regVersion _
  refine ⟨?_, ?_, ?_, ?_, ?_, ?_, ?_⟩
  · rw [List.length_append]
    exact retire_frame.2.1.trans done.wrPos
  · intro reg
    rw [last]
    show Function.update (s.retire pointerSize r).lastVersion r.reg _ reg = _
    rw [retire_frame.2.2]
    split
    case isTrue same =>
      subst same
      rw [Function.update_self, done.lastVersion]
    case isFalse other => rw [Function.update_of_ne other, done.lastVersion]
  · intro reg
    rw [last]
    split
    case isTrue same =>
      subst same
      exact done.lastVersion r.reg ▸ room
    case isFalse other => exact done.last_lt reg
  · intro k w at_k
    exact laid_concat done.uop at_k
  · intro k w r' at_k dest'
    rcases getElem?_concat.mp at_k with old | ⟨rfl, rfl⟩
    · rw [versionBefore_concat (Nat.le_of_lt (lt_of_getElem? old))]
      obtain ⟨next, same⟩ := untouched r'.reg (versionBefore l k r'.reg + 1)
        (versionBefore_lt (lt_of_getElem? old) old (writes_of_dest dest'))
      dsimp only
      rw [same]
      exact done.parentUop k w r' old dest'
    · obtain rfl : r = r' := Option.some.inj (dest.symm.trans dest')
      rw [versionBefore_concat le_rfl, ← done.lastVersion]
      simp [Ir.newVersion, Ir.setVersion]
  · have counted : Counted (l ++ [u]) (versionBefore (l ++ [u]) (l ++ [u]).length)
        ((s.retire pointerSize r).newVersion r l.length (s.lastVersion r.reg + 1)) := by
      refine done.counted.write (fun reg version le => ?_) fun reg version new le => ?_
      · obtain ⟨next, same⟩ := untouched reg version le
        rw [same]
        exact ⟨rfl, rfl⟩
      · rw [last] at le
        split at le
        case isFalse => omega
        case isTrue same =>
          subst same
          obtain rfl : version = s.lastVersion r.reg + 1 := by
            rw [done.lastVersion]
            omega
          refine ⟨by simp [Ir.newVersion, Ir.setVersion],
            by simp [Ir.newVersion, Ir.setVersion], fun k read => ?_, fun required => ?_⟩
          · rcases sourceRead_concat.mp read with before | ⟨-, -, here⟩
            · exact absurd before.le (Nat.not_le_of_lt new)
            · omega
          · rcases requiredAtBarrier_concat.mp required with before | ⟨-, -, here⟩
            · exact absurd before.le (Nat.not_le_of_lt new)
            · omega
    exact ⟨counted.refcount, counted.required⟩
  · have listed := retire_chain done.counted done.lastVersion done.last_lt done.chain dest
    exact listed.keep newVersion_next rfl fun _ _ => Iff.rfl

end ReadDone

/-- `uop_gen` keeps the tables true to the list. -/
theorem Generated.step {s s' : Ir} (generated : Generated pointerSize l s)
    (gen : s.uopGen pointerSize u = some s') : Generated pointerSize (l ++ [u]) s' := by
  simp only [Ir.uopGen, Option.bind_eq_bind, Option.bind_eq_some_iff, Prod.exists,
    Option.some.injEq] at gen
  obtain ⟨s₁, alloc, a, s₂, readA, b, s₃, readB, c, s₄, readC, d, s₅, write, rfl⟩ := gen
  obtain ⟨rfl, effectA⟩ := readSrc_effect readA
  obtain ⟨rfl, effectB⟩ := readSrc_effect readB
  obtain ⟨rfl, effectC⟩ := readSrc_effect readC
  have done := generated.read alloc ((effectA.trans effectB).trans effectC)
  have last₁ : s₁.lastVersion = versionBefore l l.length := by
    rw [uopAlloc_eq alloc]
    exact funext generated.lastVersion
  have last₂ := effectA.lastVersion.trans last₁
  have last₃ := effectB.lastVersion.trans last₂
  rw [done.wrPos, Nat.add_sub_cancel] at write
  rcases writeDest_eq (fun reg => done.lastVersion reg ▸ done.last_lt reg) write with
    ⟨none, rfl, rfl⟩ | ⟨r, dest, rfl, room, rfl⟩
  · have generated' := done.noWrite none
    simpa only [laidDown, none, Option.map_none, last₁, last₂, last₃, done.wrPos,
      Nat.add_sub_cancel] using generated'
  · have generated' := done.write dest room
    have wrPos : ∀ version, ((s₄.retire pointerSize r).newVersion r l.length version).wrPos =
        l.length + 1 := fun _ => retire_frame.2.1.trans done.wrPos
    have uops : ∀ version, ((s₄.retire pointerSize r).newVersion r l.length version).uops =
        s₄.uops := fun _ => retire_frame.1
    simpa only [laidDown, dest, Option.map_some, last₁, last₂, last₃, done.lastVersion, wrPos,
      uops, Nat.add_sub_cancel] using generated'

theorem Generated.of_generate {s₀ s : Ir} (gen : s₀.generate pointerSize l = some s) :
    Generated pointerSize l s := by
  induction l using List.reverseRecOn generalizing s with
  | nil =>
    cases gen
    exact generated_reset s₀
  | append_singleton l u ih =>
    rw [Ir.generate, List.foldlM_append, Option.bind_eq_bind, Option.bind_eq_some_iff] at gen
    obtain ⟨t, before, step⟩ := gen
    rw [List.foldlM_cons, Option.bind_eq_bind, Option.bind_eq_some_iff] at step
    obtain ⟨t', step, last⟩ := step
    cases last
    exact (ih before).step step

/-! ## Draining the list -/

def Uop.sources (u : Uop) : List IrReg := u.srcRegA.toList ++ u.srcRegB.toList ++ u.srcRegC.toList

/-- The number of the version in a source. -/
def IrReg.key (r : IrReg) : Nat := regKey r.reg.reg r.version

/-- What releasing `sources` leaves: only their own links may change. -/
structure ReleaseEffect (s s' : Ir) (sources : List IrReg) : Prop where
  uops : s'.uops = s.uops
  parentUop : ∀ key, (s'.regVersion key).parentUop = (s.regVersion key).parentUop
  next : ∀ key, (∀ src ∈ sources, src.key ≠ key) →
    (s'.regVersion key).next = (s.regVersion key).next

theorem ReleaseEffect.trans {s s' s'' : Ir} {sources sources' : List IrReg}
    (first : ReleaseEffect s s' sources) (second : ReleaseEffect s' s'' sources') :
    ReleaseEffect s s'' (sources ++ sources') where
  uops := second.uops.trans first.uops
  parentUop key := (second.parentUop key).trans (first.parentUop key)
  next key apart := by
    rw [List.forall_mem_append] at apart
    rw [second.next key apart.2, first.next key apart.1]

theorem releaseSrc_effect (s : Ir) (o : Option IrReg) :
    ReleaseEffect s (s.releaseSrc o) o.toList := by
  cases o with
  | none => exact ⟨rfl, fun _ => rfl, fun _ _ => rfl⟩
  | some src =>
    have apart_ne : ∀ key, (∀ r ∈ (some src).toList, r.key ≠ key) →
        key ≠ regKey src.reg.reg src.version := fun key apart =>
      (apart src (by simp)).symm
    unfold Ir.releaseSrc
    dsimp only
    split
    · refine ⟨rfl, fun key => ?_, fun key apart => ?_⟩
      · rcases eq_or_ne key (regKey src.reg.reg src.version) with rfl | other
        · simp [Ir.addToDeadList, Ir.setVersion]
        · simp [Ir.addToDeadList, Ir.setVersion, Function.update_of_ne other]
      · simp [Ir.addToDeadList, Ir.setVersion, Function.update_of_ne (apart_ne key apart)]
    · refine ⟨rfl, fun key => ?_, fun key apart => ?_⟩
      · rcases eq_or_ne key (regKey src.reg.reg src.version) with rfl | other
        · simp [Ir.setVersion]
        · simp [Ir.setVersion, Function.update_of_ne other]
      · simp [Ir.setVersion, Function.update_of_ne (apart_ne key apart)]

/-- The micro-operations after the one at `nr` has been removed, if it may be. -/
def dropUop (uops : Nat → Uop) (nr : Nat) : Nat → Uop :=
  if isBarrier (uops nr).type = true then uops
  else Function.update uops nr { uops nr with type := UOP_INVALID }

theorem removeParent_effect (s : Ir) (key : Nat) :
    (s.removeParent key).uops = dropUop s.uops (s.regVersion key).parentUop ∧
      (∀ other, ((s.removeParent key).regVersion other).parentUop =
        (s.regVersion other).parentUop) ∧
      ∀ other, (∀ src ∈ (s.uops (s.regVersion key).parentUop).sources, src.key ≠ other) →
        ((s.removeParent key).regVersion other).next = (s.regVersion other).next := by
  unfold Ir.removeParent dropUop
  dsimp only
  split
  · exact ⟨rfl, fun _ => rfl, fun _ _ => rfl⟩
  have released := ((releaseSrc_effect { s with
    uops := Function.update s.uops (s.regVersion key).parentUop
      { s.uops (s.regVersion key).parentUop with type := UOP_INVALID } }
    (s.uops (s.regVersion key).parentUop).srcRegA).trans (releaseSrc_effect _
    (s.uops (s.regVersion key).parentUop).srcRegB)).trans (releaseSrc_effect _
    (s.uops (s.regVersion key).parentUop).srcRegC)
  refine ⟨released.uops, fun other => ?_, fun other apart => ?_⟩
  · refine Eq.trans ?_ (released.parentUop other)
    rcases eq_or_ne other key with rfl | ne
    · simp [Ir.setVersion]
    · simp [Ir.setVersion, Function.update_of_ne ne]
  · refine Eq.trans ?_ (released.next other apart)
    rcases eq_or_ne other key with rfl | ne
    · simp [Ir.setVersion]
    · simp [Ir.setVersion, Function.update_of_ne ne]

theorem dropUop_sources (uops : Nat → Uop) (nr i : Nat) :
    (dropUop uops nr i).sources = (uops i).sources := by
  unfold dropUop
  split
  · rfl
  · rcases eq_or_ne i nr with rfl | other
    · simp [Uop.sources]
    · rw [Function.update_of_ne other]

theorem isBarrier_invalid : isBarrier UOP_INVALID = false := by decide

theorem dropUop_type (uops : Nat → Uop) (nr i : Nat) :
    (dropUop uops nr i).type =
      if i = nr ∧ isBarrier (uops i).type = false then UOP_INVALID else (uops i).type := by
  unfold dropUop
  rcases eq_or_ne i nr with rfl | other
  · cases barrier : isBarrier (uops i).type <;> simp
  · split <;> simp [other]

/-- The loop ends, and each micro-operation behind a listed version that is no barrier is gone.
What is pushed on the way is lost. -/
theorem processDeadList_chain {keys : List Nat} {s : Ir}
    (chain : Chain (fun key => (s.regVersion key).next) s.deadList keys)
    (split : ∀ key ∈ keys, ∃ reg version, version < 256 ∧ key = regKey reg version)
    (apart : ∀ key ∈ keys, ∀ src ∈ (s.uops (s.regVersion key).parentUop).sources,
      src.key ∉ keys) :
    ∃ s', s.processDeadList keys.length = some s' ∧ ∀ i, (s'.uops i).type =
      if (∃ key ∈ keys, (s.regVersion key).parentUop = i) ∧ isBarrier (s.uops i).type = false
      then UOP_INVALID else (s.uops i).type := by
  induction keys generalizing s with
  | nil =>
    refine ⟨s, if_pos chain, fun i => ?_⟩
    simp
  | cons key keys ih =>
    obtain ⟨head, nonzero, rest⟩ := chain
    obtain ⟨reg, version, lt, rfl⟩ := split _ (.head _)
    have turn : s.processHead = { s.removeParent (regKey reg version) with
        deadList := ((s.removeParent (regKey reg version)).regVersion
          (regKey reg version)).next } := by
      unfold Ir.processHead
      rw [head, regKey_split lt]
    obtain ⟨uops, parent, next⟩ := removeParent_effect s (regKey reg version)
    have kept : ∀ other ∈ regKey reg version :: keys,
        ((s.removeParent (regKey reg version)).regVersion other).next =
          (s.regVersion other).next := by
      intro other member
      apply next
      rintro src source rfl
      exact apart _ (.head _) src source member
    have chain' : Chain (fun key => (s.processHead.regVersion key).next) s.processHead.deadList
        keys := by
      rw [turn]
      dsimp only
      rw [kept _ (.head _)]
      exact rest.congr fun other member => kept other (.tail _ member)
    obtain ⟨s', done, types⟩ := ih chain' (fun other member => split other (.tail _ member)) (by
      intro other member src source inRest
      rw [turn] at source
      dsimp only at source
      rw [parent, uops, dropUop_sources] at source
      exact apart other (.tail _ member) src source (.tail _ inRest))
    refine ⟨s', ?_, fun i => ?_⟩
    · rw [List.length_cons, Ir.processDeadList, if_neg (head ▸ nonzero)]
      exact done
    · rw [types, turn]
      dsimp only
      simp only [parent, uops, dropUop_type, List.exists_mem_cons_iff]
      split_ifs <;> grind [isBarrier_invalid]

/-! ## The removed micro-operations -/

theorem listed_iff_unused (made : 0 < version)
    (le : version ≤ versionBefore l l.length reg) :
    Listed pointerSize l reg version ↔
      IREG_LAST_BH < reg ∧ Unused pointerSize l (fun _ => True) reg version := by
  constructor
  · rintro ⟨high, -, ⟨k, written⟩, unread, optional⟩
    refine ⟨high, fun k' _ read => ?_, optional, Nat.ne_of_gt written.lt⟩
    rcases read with source | part
    · exact unread k' source
    · obtain ⟨w, at_k, r, dest, rfl, count, native⟩ := written
      obtain ⟨w', at_k', r', dest', same, count', partial'⟩ := part
      obtain rfl := writer_unique at_k at_k' (writes_of_dest dest)
        (same ▸ writes_of_dest dest') (count.trans count'.symm)
      obtain rfl : w = w' := Option.some.inj (at_k.symm.trans at_k')
      obtain rfl : r = r' := Option.some.inj (dest.symm.trans dest')
      exact absurd (native.symm.trans partial') Bool.true_eq_false_eq_False
  · rintro ⟨high, unread, optional, notFinal⟩
    obtain ⟨k, w, r, at_k, dest, same, count⟩ :=
      exists_writer (lt_of_le_of_ne le fun final => notFinal final.symm)
    refine ⟨high, made, ⟨k, w, at_k, r, dest, same, count, ?_⟩,
      fun k' read => unread k' trivial (.inl read), optional⟩
    cases native : regIsNativeSize pointerSize r with
    | true => rfl
    | false =>
      exact absurd (.inr ⟨w, at_k, r, dest, same, count, native⟩) (unread k trivial)

theorem Generated.listed_lt {s : Ir} (generated : Generated pointerSize l s)
    (listed : Listed pointerSize l reg version) : version < 256 := by
  obtain ⟨-, -, ⟨k, written⟩, -⟩ := listed
  exact lt_trans written.lt (generated.last_lt reg)

/-- A listed version stands for the micro-operation that made it. -/
theorem Generated.listed_parent {s : Ir} (generated : Generated pointerSize l s)
    (listed : Listed pointerSize l reg version) :
    ∃ k u r, l[k]? = some u ∧ u.destRegA = some r ∧ r.reg = reg ∧
      versionBefore l k reg + 1 = version ∧
      (s.regVersion (regKey reg version)).parentUop = k := by
  obtain ⟨-, pos, ⟨k, written⟩, -⟩ := listed
  have replaced := written.lt
  obtain ⟨k, u, r, at_k, dest, rfl, count⟩ :=
    exists_writer (show version - 1 < versionBefore l l.length reg by omega)
  obtain rfl : version = versionBefore l k r.reg + 1 := by omega
  exact ⟨k, u, r, at_k, dest, rfl, rfl, generated.parentUop k u r at_k dest⟩

theorem laidDown_sources (src : IrReg) :
    src ∈ (laidDown l k u).sources ↔
      ∃ r ∈ u.sources, (⟨r, versionBefore l k r.reg⟩ : IrReg) = src := by
  simp only [laidDown, Uop.sources, UopGen.sources, List.mem_append, Option.mem_toList,
    Option.map_eq_some_iff, or_and_right, exists_or]

/-- Exactly the unused versions of the registers above `IREG_EBX` lose their micro-operations. -/
theorem Generated.removed_iff {s : Ir} (generated : Generated pointerSize l s) :
    ∃ fuel s', s.markAsRequired.processDeadList fuel = some s' ∧ ∀ k u, l[k]? = some u →
      (s'.Removed k ↔ isBarrier u.type = false ∧ ∃ r, u.destRegA = some r ∧
        IREG_LAST_BH < r.reg ∧
        Unused pointerSize l (fun _ => True) r.reg (versionBefore l k r.reg + 1)) := by
  obtain ⟨keys, links, members⟩ := generated.chain
  have marked : s.markAsRequired = _ := foldl_markReg s (List.range IREG_COUNT)
  have links' : Chain (fun key => (s.markAsRequired.regVersion key).next)
      s.markAsRequired.deadList keys := by
    rw [marked]
    exact links
  obtain ⟨s', done, types⟩ := processDeadList_chain links'
    (by
      intro key member
      obtain ⟨reg, version, rfl, listed⟩ := (members key).mp member
      exact ⟨reg, version, generated.listed_lt listed, rfl⟩)
    (by
      intro key member src source inKeys
      rw [marked] at source
      obtain ⟨reg, version, rfl, listed⟩ := (members key).mp member
      obtain ⟨k, u, r, at_k, -, -, -, parent⟩ := generated.listed_parent listed
      dsimp only at source
      rw [parent, generated.uop k u at_k, laidDown_sources] at source
      obtain ⟨r', read, rfl⟩ := source
      obtain ⟨reg', version', same, listed'⟩ := (members _).mp inKeys
      obtain ⟨rfl, rfl⟩ := (regKey_inj
        (lt_of_le_of_lt (versionBefore_mono (Nat.le_of_lt (lt_of_getElem? at_k)))
          (generated.last_lt _)) (generated.listed_lt listed')).mp same
      exact listed'.2.2.2.1 k ⟨u, at_k, ⟨r', read, rfl⟩, rfl⟩)
  refine ⟨keys.length, s', done, fun k u at_k => ?_⟩
  have type : (s.markAsRequired.uops k).type = u.type := by
    rw [marked]
    dsimp only
    rw [generated.uop k u at_k]
    rfl
  have behind : (∃ key ∈ keys, (s.markAsRequired.regVersion key).parentUop = k) ↔
      ∃ r, u.destRegA = some r ∧ IREG_LAST_BH < r.reg ∧
        Unused pointerSize l (fun _ => True) r.reg (versionBefore l k r.reg + 1) := by
    rw [marked]
    constructor
    · rintro ⟨key, member, parent⟩
      obtain ⟨reg, version, rfl, listed⟩ := (members key).mp member
      obtain ⟨k', u', r, at_k', dest, rfl, rfl, parent'⟩ := generated.listed_parent listed
      obtain rfl : k' = k := parent'.symm.trans parent
      obtain rfl : u' = u := Option.some.inj (at_k'.symm.trans at_k)
      exact ⟨r, dest, (listed_iff_unused (Nat.succ_pos _)
        (versionBefore_lt (lt_of_getElem? at_k) at_k (writes_of_dest dest))).mp listed⟩
    · rintro ⟨r, dest, unused⟩
      have listed := (listed_iff_unused (Nat.succ_pos _)
        (versionBefore_lt (lt_of_getElem? at_k) at_k (writes_of_dest dest))).mpr unused
      exact ⟨_, (members _).mpr ⟨r.reg, _, rfl, listed⟩, generated.parentUop k u r at_k dest⟩
  rw [Ir.Removed, types, type, ← behind]
  split
  case isTrue gone => exact iff_of_true (by decide) gone.symm
  case isFalse stays => exact iff_of_false u.valid fun gone => stays gone.symm

/-- The drained state does not depend on the fuel. -/
theorem processDeadList_unique {n m : Nat} {s a b : Ir} (first : s.processDeadList n = some a)
    (second : s.processDeadList m = some b) : a = b := by
  induction n generalizing s m with
  | zero =>
    have empty : s.deadList = 0 := by
      by_contra nonempty
      simp [Ir.processDeadList, nonempty] at first
    cases m <;> simp_all [Ir.processDeadList]
  | succ n ih =>
    rcases eq_or_ne s.deadList 0 with empty | nonempty
    · cases m <;> simp_all [Ir.processDeadList]
    · cases m with
      | zero => simp [Ir.processDeadList, nonempty] at second
      | succ m =>
        simp only [Ir.processDeadList, if_neg nonempty] at first second
        exact ih first second

/-! ## Soundness and completeness -/

/-- The loop ends, and it has removed a micro-operation that is no barrier exactly when those that
remain do not use what it writes. -/
def DeadUopsGone (pointerSize : Nat) (l : List UopGen) (s : Ir) : Prop :=
  ∃ fuel s', s.markAsRequired.processDeadList fuel = some s' ∧ ∀ k u, l[k]? = some u →
    (s'.Removed k ↔ isBarrier u.type = false ∧ ∃ r, u.destRegA = some r ∧
      Unused pointerSize l (fun k => ¬ s'.Removed k) r.reg (versionBefore l k r.reg + 1))

theorem Unused.mono {live live' : Nat → Prop} (unused : Unused pointerSize l live reg version)
    (fewer : ∀ k, live' k → live k) : Unused pointerSize l live' reg version :=
  ⟨fun k alive => unused.1 k (fewer k alive), unused.2⟩

/-- What is removed is unused by what remains; what nothing in the block uses is removed, if its
register is not one of those with a high byte. -/
theorem deadUops_removed {s₀ s : Ir} (gen : s₀.generate pointerSize l = some s) :
    ∃ fuel s', s.markAsRequired.processDeadList fuel = some s' ∧ ∀ k u, l[k]? = some u →
      (s'.Removed k → isBarrier u.type = false ∧ ∃ r, u.destRegA = some r ∧
        Unused pointerSize l (fun k => ¬ s'.Removed k) r.reg (versionBefore l k r.reg + 1)) ∧
      (∀ r, isBarrier u.type = false → u.destRegA = some r → IREG_LAST_BH < r.reg →
        Unused pointerSize l (fun _ => True) r.reg (versionBefore l k r.reg + 1) →
        s'.Removed k) := by
  obtain ⟨fuel, s', done, exactly⟩ := (Generated.of_generate gen).removed_iff
  refine ⟨fuel, s', done, fun k u at_k => ⟨fun removed => ?_, ?_⟩⟩
  · obtain ⟨plain, r, dest, -, unused⟩ := (exactly k u at_k).mp removed
    exact ⟨plain, r, dest, unused.mono fun _ _ => trivial⟩
  · intro r plain dest high unused
    exact (exactly k u at_k).mpr ⟨plain, r, dest, high, unused⟩

section Loads

/-- `UOP_MOV_IMM` to a whole register. -/
def movImm (reg : Nat) (lt_count : reg < IREG_COUNT) : UopGen where
  type := 0x50000021#32
  srcRegA := none
  srcRegB := none
  srcRegC := none
  destRegA := some ⟨reg, .l, lt_count⟩
  valid := by decide

/-- The tables before the first block. -/
def emptyIr : Ir where
  uops := fun _ => ⟨0, none, none, none, none⟩
  wrPos := 0
  lastVersion := fun _ => 0
  regVersion := fun _ => ⟨0, false, false, 0, 0⟩
  deadList := 0

/-- Two loads of `reg`. -/
def twoLoads (reg : Nat) (lt_count : reg < IREG_COUNT) : List UopGen :=
  [movImm reg lt_count, movImm reg lt_count]

theorem twoLoads_unused {reg : Nat} {lt_count : reg < IREG_COUNT}
    (native : regIsNativeSize 4 ⟨reg, .l, lt_count⟩ = true) (live : Nat → Prop) :
    Unused 4 (twoLoads reg lt_count) live reg 1 := by
  have load : ∀ (k : Nat) (u : UopGen), (twoLoads reg lt_count)[k]? = some u →
      u = movImm reg lt_count := by
    intro k u at_k
    have member := List.mem_of_getElem? at_k
    simpa [twoLoads] using member
  refine ⟨fun k _ read => ?_, ?_, ?_⟩
  · rcases read with ⟨u, at_k, ⟨r, source, -⟩, -⟩ | ⟨u, at_k, r, dest, -, -, part⟩
    · obtain rfl := load k u at_k
      simp [UopGen.sources, movImm] at source
    · obtain rfl := load k u at_k
      cases dest
      exact absurd (native.symm.trans part) Bool.noConfusion
  · rintro ⟨-, k, u, at_k, barrier, -⟩
    obtain rfl := load k u at_k
    exact absurd (show isBarrier 0x50000021#32 = true from barrier) (by decide)
  · simp [FinalVersion, versionBefore, twoLoads, movImm, UopGen.writes]

/-- A load of `EAX` that another one replaces stays. -/
theorem not_gone_twoLoads : ∃ s, emptyIr.generate 4 (twoLoads 0 (by decide)) = some s ∧
    ¬ DeadUopsGone 4 (twoLoads 0 (by decide)) s := by
  obtain ⟨s, gen⟩ := Option.isSome_iff_exists.mp
    (show (emptyIr.generate 4 (twoLoads 0 (by decide))).isSome = true by decide +kernel)
  refine ⟨s, gen, ?_⟩
  rintro ⟨fuel, s', done, gone⟩
  obtain ⟨fuel', t, done', removed⟩ := (Generated.of_generate gen).removed_iff
  obtain rfl := processDeadList_unique done done'
  have removed₀ := (gone 0 (movImm 0 (by decide)) rfl).mpr
    ⟨by decide, _, rfl, twoLoads_unused (by decide) _⟩
  obtain ⟨-, r, dest, high, -⟩ := (removed 0 _ rfl).mp removed₀
  cases dest
  exact absurd high (by decide)

/-- A load of `ESI` that another one replaces goes, and the other one stays. -/
theorem deadUops_removed_twoLoads :
    ∃ s, emptyIr.generate 4 (twoLoads 6 (by decide)) = some s ∧
      ∃ fuel s', s.markAsRequired.processDeadList fuel = some s' ∧
        s'.Removed 0 ∧ ¬ s'.Removed 1 := by
  obtain ⟨s, gen⟩ := Option.isSome_iff_exists.mp
    (show (emptyIr.generate 4 (twoLoads 6 (by decide))).isSome = true by decide +kernel)
  obtain ⟨fuel, s', done, exactly⟩ := deadUops_removed gen
  refine ⟨s, gen, fuel, s', done, ?_, fun removed => ?_⟩
  · exact (exactly 0 _ rfl).2 _ (by decide) rfl (by decide) (twoLoads_unused (by decide) _)
  · obtain ⟨-, r, dest, -, -, notFinal⟩ := (exactly 1 (movImm 6 (by decide)) rfl).1 removed
    cases dest
    exact notFinal rfl

end Loads

end PCemWeb.Codegen
