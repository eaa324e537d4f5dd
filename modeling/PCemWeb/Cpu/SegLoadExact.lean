import PCemWeb.Cpu.SegLoad

/-!
# Coherence of the status word

The status word repeats `stack32`, `use32` and whether DS and SS are flat. Loads keep it right, but
the resets clear it as a whole although the caches that they leave have 64 KB limits. So it is right
exactly while both DS and SS have been loaded since the last reset.
-/

namespace PCemWeb.Cpu

namespace SegState

/-- The size bits are the sizes, and the bits against flat segments are clear only for flat ones. -/
structure Coherent (c : SegState) : Prop where
  use32 : c.curStatus.getLsbD 0 = decide (c.use32 ≠ 0)
  stack32 : c.curStatus.getLsbD 1 = c.stack32
  ds : c.curStatus.getLsbD 8 = false → (c.segs .ds).flat = true
  ss : c.curStatus.getLsbD 9 = false → (c.segs .ss).flat = true

/-- The size bits are the sizes. -/
def Sizes (c : SegState) : Prop :=
  c.curStatus.getLsbD 0 = decide (c.use32 ≠ 0) ∧ c.curStatus.getLsbD 1 = c.stack32

/-- No cache changes, nor what the status word says about flat segments. -/
structure Kept (c d : SegState) : Prop where
  segs : d.segs = c.segs
  flat : ∀ k, 8 ≤ k → d.curStatus.getLsbD k = c.curStatus.getLsbD k
  sizes : c.Sizes → d.Sizes

/-- One cache changes, and what the status word says about it is right. -/
structure Touched (name : SegName) (c d : SegState) : Prop where
  others : ∀ other ≠ name, d.segs other = c.segs other
  ds : d.curStatus.getLsbD 8 = c.curStatus.getLsbD 8 ∧ name ≠ .ds ∨
    name = .ds ∧ (d.curStatus.getLsbD 8 = false → (d.segs .ds).flat = true)
  ss : d.curStatus.getLsbD 9 = c.curStatus.getLsbD 9 ∧ name ≠ .ss ∨
    name = .ss ∧ (d.curStatus.getLsbD 9 = false → (d.segs .ss).flat = true)
  sizes : c.Sizes → d.Sizes

variable {c d e : SegState} {type : CpuType} {bus : Bus} {seg : BitVec 16} {name : SegName}

/-! ## Bits of the status word -/

/-- A mask of one bit changes that bit. -/
theorem getLsbD_putStatus {k : Nat} (inside : k < 16) (on : Bool) (j : Nat) :
    (c.putStatus (BitVec.twoPow 16 k) on).curStatus.getLsbD j =
      if j = k then on else c.curStatus.getLsbD j := by
  rcases eq_or_ne j k with rfl | apart
  · cases on <;> simp [putStatus, inside]
  · cases on <;> simp [putStatus, apart, apart.symm]
    intro bit
    exact BitVec.lt_of_getLsbD bit

theorem getLsbD_setStack32 (on : Bool) (j : Nat) : (c.setStack32 on).curStatus.getLsbD j =
    if j = 1 then on else c.curStatus.getLsbD j :=
  getLsbD_putStatus (k := 1) (by decide) on j

theorem getLsbD_setUse32 (on : Bool) (j : Nat) : (c.setUse32 on).curStatus.getLsbD j =
    if j = 0 then on else c.curStatus.getLsbD j :=
  getLsbD_putStatus (k := 0) (by decide) on j

theorem getLsbD_notFlatDs (on : Bool) (j : Nat) :
    (c.putStatus statusNotFlatDs on).curStatus.getLsbD j =
      if j = 8 then on else c.curStatus.getLsbD j :=
  getLsbD_putStatus (k := 8) (by decide) on j

theorem getLsbD_notFlatSs (on : Bool) (j : Nat) :
    (c.putStatus statusNotFlatSs on).curStatus.getLsbD j =
      if j = 9 then on else c.curStatus.getLsbD j :=
  getLsbD_putStatus (k := 9) (by decide) on j

/-! ## What keeps the caches -/

theorem Kept.refl : Kept c c := ⟨rfl, fun _ _ => rfl, id⟩

theorem Kept.trans (first : Kept c d) (second : Kept d e) : Kept c e :=
  ⟨second.segs.trans first.segs, fun k high => (second.flat k high).trans (first.flat k high),
    fun sizes => second.sizes (first.sizes sizes)⟩

theorem kept_abort (abrt : BitVec 8) (abrtError : BitVec 32) :
    Kept c { c with abrt, abrtError } := ⟨rfl, fun _ _ => rfl, id⟩

theorem kept_fault (abrt : BitVec 8) (error : BitVec 16) : Kept c (c.fault abrt error) :=
  kept_abort ..

theorem kept_setAccessed {addr : BitVec 32} : Kept c (c.setAccessed bus addr) := by
  unfold setAccessed
  split
  · exact kept_abort ..
  · exact .refl

theorem kept_setStack32 (on : Bool) : Kept c (c.setStack32 on) where
  segs := rfl
  flat k high := by rw [getLsbD_setStack32, if_neg (by omega)]
  sizes sizes := by
    refine ⟨?_, ?_⟩
    · rw [getLsbD_setStack32, if_neg (by decide)]
      exact sizes.1
    · rw [getLsbD_setStack32, if_pos rfl]
      rfl

theorem kept_setUse32 (on : Bool) : Kept c (c.setUse32 on) where
  segs := rfl
  flat k high := by rw [getLsbD_setUse32, if_neg (by omega)]
  sizes sizes := by
    refine ⟨?_, ?_⟩
    · rw [getLsbD_setUse32, if_pos rfl]
      cases on <;> rfl
    · rw [getLsbD_setUse32, if_neg (by decide)]
      exact sizes.2

theorem kept_descriptorAddr (refused : c.descriptorAddr seg = .error d) : Kept c d := by
  unfold descriptorAddr at refused
  dsimp only at refused
  generalize (if seg &&& 4 ≠ 0 then c.ldt else c.gdt) = table at refused
  split at refused
  · cases refused
    exact kept_fault ..
  · cases refused

theorem kept_readSegdat {addr : BitVec 32} (refused : c.readSegdat bus addr = .error d) :
    Kept c d := by
  unfold readSegdat at refused
  dsimp only at refused
  split at refused
  · cases refused
    exact kept_abort ..
  · split at refused
    · cases refused
      exact .refl
    · cases refused

/-- The state of a check, whether it passed or not. -/
def checked : Except SegState SegState → SegState
  | .error c => c
  | .ok c => c

theorem kept_checkStack {segdat : Segdat} : Kept c (checked (c.checkStack seg segdat)) := by
  unfold checkStack
  split
  · exact kept_fault ..
  split
  · exact kept_fault ..
  split
  · exact kept_fault ..
  split
  · exact kept_fault ..
  · exact kept_setStack32 _

theorem kept_checkData {segdat : Segdat} : Kept c (checked (c.checkData seg segdat)) := by
  unfold checkData
  split
  · split
    · exact kept_fault ..
    · exact .refl
  split
  · exact .refl
  · exact kept_fault ..

/-- The state of a check with what it passed on. -/
def checkedSeg : Except SegState (SegState × BitVec 32 × Segdat) → SegState
  | .error c => c
  | .ok (c, _, _) => c

theorem kept_present {r : Except SegState SegState} {addr : BitVec 32} {segdat : Segdat}
    (kept : Kept c (checked r)) : Kept c (checkedSeg (r.bind fun d =>
      if !present segdat then .error (d.x86np (seg &&& 0xfffc)) else .ok (d, addr, segdat))) := by
  cases r with
  | error d => exact kept
  | ok d =>
    dsimp only [Except.bind]
    split
    · exact Kept.trans kept (kept_fault ..)
    · exact kept

theorem kept_checkSeg : Kept c (checkedSeg (c.checkSeg bus seg name)) := by
  simp only [checkSeg, bind, Except.bind]
  cases found : c.descriptorAddr seg with
  | error d => exact kept_descriptorAddr found
  | ok addr =>
    dsimp only
    cases read : c.readSegdat bus addr with
    | error d => exact kept_readSegdat read
    | ok segdat =>
      dsimp only
      have data : Kept c (checked (c.checkData seg segdat)) := kept_checkData
      cases name with
      | ss => exact kept_present kept_checkStack
      | cs =>
        have own : Kept c (checked (.ok c)) := .refl
        exact kept_present own
      | ds => exact kept_present data
      | es => exact kept_present data
      | fs => exact kept_present data
      | gs => exact kept_present data

/-! ## What touches one cache -/

theorem Touched.trans (first : Touched name c d) (second : Touched name d e) :
    Touched name c e where
  others other apart := (second.others other apart).trans (first.others other apart)
  ds := by
    rcases second.ds with ⟨same, other⟩ | right
    · exact .inl ⟨same.trans (first.ds.resolve_right fun right => other right.1).1, other⟩
    · exact .inr right
  ss := by
    rcases second.ss with ⟨same, other⟩ | right
    · exact .inl ⟨same.trans (first.ss.resolve_right fun right => other right.1).1, other⟩
    · exact .inr right
  sizes sizes := second.sizes (first.sizes sizes)

theorem Touched.kept (touched : Touched name c d) (kept : Kept d e) : Touched name c e where
  others other apart := (congrFun kept.segs other).trans (touched.others other apart)
  ds := by
    rw [kept.flat 8 (by decide), congrFun kept.segs .ds]
    exact touched.ds
  ss := by
    rw [kept.flat 9 (by decide), congrFun kept.segs .ss]
    exact touched.ss
  sizes sizes := kept.sizes (touched.sizes sizes)

theorem Kept.touched (kept : Kept c d) (touched : Touched name d e) : Touched name c e where
  others other apart := (touched.others other apart).trans (congrFun kept.segs other)
  ds := by
    rw [← kept.flat 8 (by decide)]
    exact touched.ds
  ss := by
    rw [← kept.flat 9 (by decide)]
    exact touched.ss
  sizes sizes := touched.sizes (kept.sizes sizes)

/-- A cache is replaced and its bit is brought up to date. -/
theorem touched_updateFlat (s : X86Seg) : Touched name c ((c.setSeg name s).updateFlat name) := by
  have others (other : SegName) (apart : other ≠ name) :
      (c.setSeg name s).segs other = c.segs other := Function.update_of_ne apart ..
  cases name with
  | ds =>
    refine ⟨others, .inr ⟨rfl, fun clear => ?_⟩, .inl ⟨?_, nofun⟩, fun sizes => ⟨?_, ?_⟩⟩
    · rw [updateFlat, getLsbD_notFlatDs, if_pos rfl, Bool.not_eq_false'] at clear
      exact clear
    · rw [updateFlat, getLsbD_notFlatDs, if_neg (by decide)]
      rfl
    · rw [updateFlat, getLsbD_notFlatDs, if_neg (by decide)]
      exact sizes.1
    · rw [updateFlat, getLsbD_notFlatDs, if_neg (by decide)]
      exact sizes.2
  | ss =>
    refine ⟨others, .inl ⟨?_, nofun⟩, .inr ⟨rfl, fun clear => ?_⟩, fun sizes => ⟨?_, ?_⟩⟩
    · rw [updateFlat, getLsbD_notFlatSs, if_neg (by decide)]
      rfl
    · rw [updateFlat, getLsbD_notFlatSs, if_pos rfl, Bool.not_eq_false'] at clear
      exact clear
    · rw [updateFlat, getLsbD_notFlatSs, if_neg (by decide)]
      exact sizes.1
    · rw [updateFlat, getLsbD_notFlatSs, if_neg (by decide)]
      exact sizes.2
  | cs => exact ⟨others, .inl ⟨rfl, nofun⟩, .inl ⟨rfl, nofun⟩, id⟩
  | es => exact ⟨others, .inl ⟨rfl, nofun⟩, .inl ⟨rfl, nofun⟩, id⟩
  | fs => exact ⟨others, .inl ⟨rfl, nofun⟩, .inl ⟨rfl, nofun⟩, id⟩
  | gs => exact ⟨others, .inl ⟨rfl, nofun⟩, .inl ⟨rfl, nofun⟩, id⟩

theorem Touched.of_setSeg {s : X86Seg} (touched : Touched name (c.setSeg name s) d) :
    Touched name c d :=
  ⟨fun other apart => (touched.others other apart).trans (Function.update_of_ne apart ..),
    touched.ds, touched.ss, touched.sizes⟩

theorem touched_loadNull (data : name ≠ .ss) : Touched name c (c.loadNull name) := by
  have others (s : X86Seg) (other : SegName) (apart : other ≠ name) :
      (c.setSeg name s).segs other = c.segs other := Function.update_of_ne apart ..
  unfold loadNull
  dsimp only
  split
  · rename_i isDs
    subst isDs
    refine ⟨others _, .inr ⟨rfl, fun clear => ?_⟩, .inl ⟨?_, nofun⟩, fun sizes => ⟨?_, ?_⟩⟩
    · rw [getLsbD_notFlatDs, if_pos rfl] at clear
      cases clear
    · rw [getLsbD_notFlatDs, if_neg (by decide)]
      rfl
    · rw [getLsbD_notFlatDs, if_neg (by decide)]
      exact sizes.1
    · rw [getLsbD_notFlatDs, if_neg (by decide)]
      exact sizes.2
  · rename_i other
    exact ⟨others _, .inl ⟨rfl, other⟩, .inl ⟨rfl, data⟩, id⟩

theorem touched_loadsegReal : Touched name c ((c.loadsegReal seg name).updateFlat name) := by
  unfold loadsegReal
  dsimp only
  split
  · rename_i stack
    obtain ⟨rfl, -⟩ := stack
    have narrow : Kept c (c.setStack32 false) := kept_setStack32 false
    exact narrow.touched (touched_updateFlat _)
  · exact touched_updateFlat _

theorem touched_doSegLoad {segdat : Segdat} : Touched name c (c.doSegLoad type name segdat) :=
  touched_updateFlat _

/-- The load is not refused. -/
def completes (c : SegState) (bus : Bus) (seg : BitVec 16) (name : SegName) : Bool :=
  if c.protectedMode && !c.vm then
    if seg &&& ~~~3#16 = 0 then name ≠ .ss
    else
      match c.checkSeg bus seg name with
      | .error _ => false
      | .ok _ => true
  else true

/-- A load that is not refused leaves its register's bit right; a refused one changes nothing. -/
theorem loadseg_cases : (c.completes bus seg name = true ∧
      Touched name c (c.loadseg type bus seg name).2) ∨
    (c.completes bus seg name = false ∧ Kept c (c.loadseg type bus seg name).2) := by
  unfold completes loadseg
  by_cases mode : (c.protectedMode && !c.vm) = true
  · simp only [mode, if_true]
    by_cases null : seg &&& ~~~3#16 = 0
    · simp only [null, if_true]
      by_cases stack : name = .ss
      · simp only [stack, if_true, ne_eq, not_true_eq_false, decide_false]
        exact .inr ⟨trivial, kept_fault ..⟩
      · simp only [stack, if_false, ne_eq, not_false_eq_true, decide_true]
        exact .inl ⟨trivial, touched_loadNull stack⟩
    · simp only [null, if_false]
      have checks : Kept c (checkedSeg (c.checkSeg bus seg name)) := kept_checkSeg
      cases result : c.checkSeg bus seg name with
      | error d =>
        rw [result] at checks
        exact .inr ⟨rfl, checks⟩
      | ok found =>
        obtain ⟨d, addr, segdat⟩ := found
        rw [result] at checks
        have kept : Kept c d := checks
        refine .inl ⟨rfl, kept.touched ?_⟩
        have loaded : Touched name (d.setSeg name { d.segs name with seg })
            (((d.setSeg name { d.segs name with seg }).doSegLoad type name segdat).setAccessed
              bus addr) := touched_doSegLoad.kept kept_setAccessed
        exact loaded.of_setSeg.trans (touched_updateFlat _)
  · simp only [mode]
    exact .inl ⟨rfl, touched_loadsegReal⟩

theorem kept_checkCode {segdat : Segdat} (refused : c.checkCode seg segdat = .error d) :
    Kept c d := by
  unfold checkCode at refused
  split at refused
  · split at refused
    · cases refused
      exact kept_fault ..
    split at refused
    · cases refused
      exact kept_fault ..
    split at refused
    · cases refused
      exact kept_fault ..
    · cases refused
  split at refused
  · cases refused
    exact kept_fault ..
  · cases refused
    exact kept_fault ..

theorem kept_checkCs (refused : c.checkCs bus seg = .error d) : Kept c d := by
  simp only [checkCs, bind, Except.bind] at refused
  split at refused
  · cases refused
    exact kept_fault ..
  cases found : c.descriptorAddr seg with
  | error e =>
    rw [found] at refused
    cases refused
    exact kept_descriptorAddr found
  | ok addr =>
    simp only [found] at refused
    cases read : c.readSegdat bus addr with
    | error e =>
      rw [read] at refused
      cases refused
      exact kept_readSegdat read
    | ok segdat =>
      simp only [read] at refused
      cases code : c.checkCode seg segdat with
      | error e =>
        rw [code] at refused
        cases refused
        exact kept_checkCode code
      | ok _ =>
        rw [code] at refused
        cases refused

theorem kept_noteCpl : Kept c c.noteCpl := ⟨rfl, fun _ _ => rfl, id⟩

theorem Kept.touched_cs (kept : Kept c d) : Touched .cs c d :=
  ⟨fun other _ => congrFun kept.segs other, .inl ⟨kept.flat 8 (by decide), nofun⟩,
    .inl ⟨kept.flat 9 (by decide), nofun⟩, kept.sizes⟩

theorem touched_setSeg_cs (s : X86Seg) : Touched .cs c (c.setSeg .cs s) :=
  touched_updateFlat s

/-- `loadcs` touches no cache but CS's. -/
theorem touched_loadcs : Touched .cs c (c.loadcs type bus seg) := by
  unfold loadcs
  split
  · split
    · rename_i refused
      exact (kept_checkCs refused).touched_cs
    · rename_i addr segdat _
      have wide : (c.setUse32 (segdat.w3 &&& 0x40 ≠ 0)).use32 =
          if segdat.w3 &&& 0x40 ≠ 0 then 0x300 else 0 := by
        simp [setUse32, putStatus]
      generalize (if segdat.w3 &&& 0x40 ≠ 0 then (0x300 : BitVec 32) else 0) = size at wide
      subst wide
      have sized : Kept c (c.setUse32 (segdat.w3 &&& 0x40 ≠ 0)) := kept_setUse32 _
      have loaded : Touched .cs (c.setUse32 (segdat.w3 &&& 0x40 ≠ 0))
        ((c.setUse32 (segdat.w3 &&& 0x40 ≠ 0)).setSeg .cs
          { (c.setUse32 (segdat.w3 &&& 0x40 ≠ 0)).segs .cs with
            seg := (seg &&& ~~~3#16) ||| c.cpl.setWidth 16 }) := touched_setSeg_cs _
      exact ((sized.touched (loaded.trans touched_doSegLoad)).kept kept_noteCpl).kept
        kept_setAccessed
  · exact (touched_setSeg_cs _).kept kept_noteCpl

/-! ## Runs -/

/-- After a reset no segment is flat. -/
theorem flat_reset (s : X86Seg) : (s.reset type name).flat = false := by
  unfold X86Seg.reset
  dsimp only
  split <;> exact Bool.and_false _

end SegState

/-- A call of one of the five functions, or the rest of the machine changing the mode, the tables,
the pending abort and CS in between. -/
inductive SegOp
  | resetx86
  | softresetx86
  | x86segReset
  | loadseg (bus : Bus) (seg : BitVec 16) (name : SegName)
  | loadcs (bus : Bus) (seg : BitVec 16)
  | mode (cs : X86Seg) (cr0 : BitVec 32) (eflags : BitVec 16) (abrt : BitVec 8)
      (abrtError : BitVec 32) (oldcpl : BitVec 8) (gdt ldt : Table)

/-- The state with a record of what was loaded since the last reset. -/
structure SegRun where
  cpu : SegState
  /-- Ghost: DS was loaded since the last reset that left its bit clear. -/
  dsLoaded : Bool
  /-- Ghost: the same for SS. -/
  ssLoaded : Bool

namespace SegRun

/-- The static state before the first reset. -/
def powerOn : SegRun where
  cpu := {
    segs := fun _ => ⟨0, 0, 0, 0, 0, 0, 0, 0, false⟩
    cr0 := 0, eflags := 0, stack32 := false, use32 := 0, curStatus := 0, abrt := 0
    abrtError := 0, oldcpl := 0, gdt := ⟨0, 0⟩, ldt := ⟨0, 0⟩ }
  dsLoaded := false
  ssLoaded := false

def step (type : CpuType) (s : SegRun) : SegOp → SegRun
  | .resetx86 => ⟨s.cpu.resetx86 type, false, false⟩
  | .softresetx86 => ⟨s.cpu.softresetx86 type, false, false⟩
  | .x86segReset =>
    ⟨s.cpu.x86segReset type, s.dsLoaded && s.cpu.curStatus.getLsbD 8,
      s.ssLoaded && s.cpu.curStatus.getLsbD 9⟩
  | .loadseg bus seg name =>
    ⟨(s.cpu.loadseg type bus seg name).2,
      s.dsLoaded || (name = .ds && s.cpu.completes bus seg name),
      s.ssLoaded || (name = .ss && s.cpu.completes bus seg name)⟩
  | .loadcs bus seg => { s with cpu := s.cpu.loadcs type bus seg }
  | .mode cs cr0 eflags abrt abrtError oldcpl gdt ldt =>
    { s with
      cpu := { s.cpu.setSeg .cs cs with cr0, eflags, abrt, abrtError, oldcpl, gdt, ldt } }

/-- A bit against a flat segment is right where the segment was loaded, and else it is clear for a
segment that is not flat. -/
def FlatBit (loaded bit flat : Bool) : Prop :=
  if loaded then bit = false → flat = true else bit = false ∧ flat = false

/-- The invariant of runs. -/
structure Inv (s : SegRun) : Prop where
  sizes : s.cpu.Sizes
  ds : FlatBit s.dsLoaded (s.cpu.curStatus.getLsbD 8) (s.cpu.segs .ds).flat
  ss : FlatBit s.ssLoaded (s.cpu.curStatus.getLsbD 9) (s.cpu.segs .ss).flat

variable {s : SegRun} {type : CpuType} {c : SegState}

theorem inv_powerOn : Inv powerOn := ⟨⟨rfl, rfl⟩, ⟨rfl, rfl⟩, ⟨rfl, rfl⟩⟩

theorem Inv.kept (inv : Inv s) (kept : s.cpu.Kept c) : Inv { s with cpu := c } where
  sizes := kept.sizes inv.sizes
  ds := by
    rw [kept.flat 8 (by decide), kept.segs]
    exact inv.ds
  ss := by
    rw [kept.flat 9 (by decide), kept.segs]
    exact inv.ss

/-- A touched register counts as loaded. -/
theorem Inv.touched {name : SegName} (inv : Inv s) (touched : s.cpu.Touched name c) :
    Inv ⟨c, s.dsLoaded || (name = .ds), s.ssLoaded || (name = .ss)⟩ where
  sizes := touched.sizes inv.sizes
  ds := by
    rcases touched.ds with ⟨same, other⟩ | ⟨here, right⟩
    · rw [same, touched.others .ds other.symm, decide_eq_false other, Bool.or_false]
      exact inv.ds
    · rw [decide_eq_true here, Bool.or_true]
      exact right
  ss := by
    rcases touched.ss with ⟨same, other⟩ | ⟨here, right⟩
    · rw [same, touched.others .ss other.symm, decide_eq_false other, Bool.or_false]
      exact inv.ss
    · rw [decide_eq_true here, Bool.or_true]
      exact right

/-- A reset that clears the status word leaves both bits wrong. -/
theorem inv_cleared (clear : c.curStatus = 0) (use32 : c.use32 = 0) (stack32 : c.stack32 = false) :
    Inv ⟨c.x86segReset type, false, false⟩ where
  sizes := by
    have sizes : c.Sizes := by
      rw [SegState.Sizes, clear, use32, stack32]
      exact ⟨rfl, rfl⟩
    exact sizes
  ds := ⟨congrArg (BitVec.getLsbD · 8) clear, SegState.flat_reset _⟩
  ss := ⟨congrArg (BitVec.getLsbD · 9) clear, SegState.flat_reset _⟩

theorem flatBit_reset {loaded bit flat : Bool} (right : FlatBit loaded bit flat) :
    FlatBit (loaded && bit) bit false := by
  cases loaded <;> cases bit <;> simp_all [FlatBit]

theorem Inv.step (inv : Inv s) (op : SegOp) : Inv (s.step type op) := by
  cases op with
  | resetx86 => exact inv_cleared rfl rfl rfl
  | softresetx86 => exact inv_cleared rfl rfl rfl
  | x86segReset =>
    refine ⟨inv.sizes, ?_, ?_⟩
    · have flat : ((s.cpu.segs .ds).reset type .ds).flat = false := SegState.flat_reset _
      exact flat.symm ▸ flatBit_reset inv.ds
    · have flat : ((s.cpu.segs .ss).reset type .ss).flat = false := SegState.flat_reset _
      exact flat.symm ▸ flatBit_reset inv.ss
  | loadseg bus seg name =>
    have outcome : (s.cpu.completes bus seg name = true ∧
        s.cpu.Touched name (s.cpu.loadseg type bus seg name).2) ∨ _ := SegState.loadseg_cases
    rcases outcome with ⟨done, touched⟩ | ⟨refused, kept⟩
    · simp only [SegRun.step, done, Bool.and_true]
      exact inv.touched touched
    · simp only [SegRun.step, refused, Bool.and_false, Bool.or_false]
      exact inv.kept kept
  | loadcs bus seg =>
    have touched : s.cpu.Touched .cs (s.cpu.loadcs type bus seg) := SegState.touched_loadcs
    have kept := inv.touched touched
    simp only [reduceCtorEq, decide_false, Bool.or_false] at kept
    exact kept
  | mode cs cr0 eflags abrt abrtError oldcpl gdt ldt => exact ⟨inv.sizes, inv.ds, inv.ss⟩

theorem inv_foldl (ops : List SegOp) : Inv (ops.foldl (step type) powerOn) := by
  suffices all : ∀ s, Inv s → Inv (ops.foldl (step type) s) from all _ inv_powerOn
  induction ops with
  | nil => exact fun _ inv => inv
  | cons op ops ih => exact fun s inv => ih _ (inv.step op)

/-- In every run the status word is right exactly while both DS and SS have been loaded since the
last reset. -/
theorem coherent_iff_loaded (type : CpuType) (ops : List SegOp) :
    (ops.foldl (step type) powerOn).cpu.Coherent ↔
      (ops.foldl (step type) powerOn).dsLoaded = true ∧
        (ops.foldl (step type) powerOn).ssLoaded = true := by
  have inv : Inv (ops.foldl (step type) powerOn) := inv_foldl ops
  generalize ops.foldl (step type) powerOn = s at inv
  have bit {loaded bit flat : Bool} (right : FlatBit loaded bit flat) :
      (bit = false → flat = true) ↔ loaded = true := by
    cases loaded <;> cases bit <;> simp_all [FlatBit]
  refine ⟨fun coherent => ⟨(bit inv.ds).mp coherent.ds, (bit inv.ss).mp coherent.ss⟩, fun both => ?_⟩
  exact ⟨inv.sizes.1, inv.sizes.2, (bit inv.ds).mpr both.1, (bit inv.ss).mpr both.2⟩

/-- DS and SS are loaded in real mode after a reset. -/
example :
    let bus : Bus := ⟨fun _ => .ok 0, fun _ => none⟩
    let s := [.resetx86, .loadseg bus 0 .ds, .loadseg bus 0x30 .ss].foldl
      (step ⟨true, true, true⟩) powerOn
    s.dsLoaded = true ∧ s.ssLoaded = true := by decide

/-- A reset alone leaves the bits against flat segments clear. -/
theorem not_coherent_resetx86 : ¬ ∀ (type : CpuType) (ops : List SegOp),
    (ops.foldl (step type) powerOn).cpu.Coherent := by
  intro coherent
  have flat := (coherent ⟨true, true, true⟩ [.resetx86]).ds rfl
  exact absurd flat (by decide)

end SegRun

end PCemWeb.Cpu
