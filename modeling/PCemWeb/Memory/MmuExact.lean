import PCemWeb.Lib.BitFields
import PCemWeb.Memory.Mmu

/-!
# Translation against the architecture's walk

`WalkExact` compares both functions with the walk of `Lib.PageWalk`. They differ from it in three
cases: a write through a 4 MB page does not set the dirty bit; a fault of an access made with
`cpl_override` at CPL 3 is reported as a user's; and `mmutranslate_noabrt` refuses such an access its
writes to read-only pages.
-/

namespace PCemWeb.Memory

open PCemWeb.Lib

namespace Mmu

variable {m : Mmu} {addr temp : BitVec 32} {rw : Bool}

/-- The controls of the walk as the control registers hold them. -/
def control (m : Mmu) : Paging.Control where
  root := m.cr3.extractLsb' 12 20
  pse := m.cr4.getLsbD 4
  wp := m.cr0.getLsbD 16

/-- Accesses with `cpl_override` are the supervisor's. -/
def access (m : Mmu) (rw : Bool) : Paging.Access where
  user := m.cpl = 3 && !m.cplOverride
  write := rw

/-- The translation and its side effects are those of the walk, and `mmutranslate_noabrt` returns
the same address or refuses. -/
structure WalkExact (m : Mmu) (addr : BitVec 32) (rw : Bool) : Prop where
  real : match Paging.walk m.ram m.control (m.access rw) addr with
    | .ok (physical, ram) =>
      ∃ mmuPerm, m.mmutranslatereal addr rw = (physical, { m with ram, mmuPerm })
    | .error abrtError =>
      m.mmutranslatereal addr rw = (-1, { m with cr2 := addr, abrt := abrtPf, abrtError })
  noabrt : m.mmutranslateNoabrt addr rw =
    match Paging.walk m.ram m.control (m.access rw) addr with
    | .ok (physical, _) => physical
    | .error _ => -1

/-- A permitted write through a 4 MB page finds the dirty bit set, and an access that overrides CPL 3
finds its page present and, to write, writable. Without write protection the refusal of a read-only
page goes unnoticed where `-1` is the physical address. -/
structure Regular (m : Mmu) (addr : BitVec 32) (rw : Bool) : Prop where
  large : ∀ atPde pde, Paging.lookup m.ram m.control addr = some (.large atPde pde) → rw = true →
    Paging.permits m.control.wp (m.access rw) (.large atPde pde) = true → pde.dirty = true
  override : m.cpl = 3 → m.cplOverride = true → ∃ mapping,
    Paging.lookup m.ram m.control addr = some mapping ∧ (rw = true → mapping.writable = true ∨
      m.control.wp = false ∧ mapping.physical addr = -1)

/-! ## Masks -/

theorem and_one_eq_zero : temp &&& 1 = 0 ↔ Paging.Entry.present temp = false :=
  and_twoPow_eq_zero (k := 0) temp (by decide)

theorem and_two_eq_zero : temp &&& 2 = 0 ↔ temp.getLsbD 1 = false :=
  and_twoPow_eq_zero (k := 1) temp (by decide)

theorem and_four_eq_zero : temp &&& 4 = 0 ↔ temp.getLsbD 2 = false :=
  and_twoPow_eq_zero (k := 2) temp (by decide)

theorem and_large_eq_zero : temp &&& 0x80 = 0 ↔ Paging.Entry.large temp = false :=
  and_twoPow_eq_zero (k := 7) temp (by decide)

theorem and_cr4Pse_eq_zero : m.cr4 &&& cr4Pse = 0 ↔ m.control.pse = false :=
  and_twoPow_eq_zero (k := 4) m.cr4 (by decide)

theorem and_wpFlag_eq_zero : m.cr0 &&& wpFlag = 0 ↔ m.control.wp = false :=
  and_twoPow_eq_zero (k := 16) m.cr0 (by decide)

/-! ## Addresses -/

theorem getLsbD_lowMask12 : ∀ i < 32, (0xfff#32).getLsbD i = decide (i < 12) := by decide

theorem getLsbD_lowMask22 : ∀ i < 32, (0x3fffff#32).getLsbD i = decide (i < 22) := by decide

theorem getLsbD_tableMask : ∀ i < 32, (0xffc#32).getLsbD i = decide (2 ≤ i ∧ i < 12) := by decide

theorem physical_small (x : BitVec 32) : (x &&& ~~~0xfff#32) + (addr &&& 0xfff) =
    x.extractLsb' 12 20 ++ addr.extractLsb' 0 12 :=
  splice_eq_append (by decide) x addr getLsbD_lowMask12

theorem physical_large (x : BitVec 32) : (x &&& ~~~0x3fffff#32) + (addr &&& 0x3fffff) =
    x.extractLsb' 22 10 ++ addr.extractLsb' 0 22 :=
  splice_eq_append (by decide) x addr getLsbD_lowMask22

/-- The word of a table on page `x` that ten bits of the address select. -/
theorem wordIndex_table (x : BitVec 32) (shift : Nat) :
    wordIndex ((x &&& ~~~0xfff#32) + ((addr >>> shift) &&& 0xffc)) =
      x.extractLsb' 12 20 ++ addr.extractLsb' (shift + 2) 10 := by
  have low : (addr >>> shift) &&& 0xffc = ((addr >>> shift) &&& 0xffc) &&& 0xfff#32 := by
    rw [BitVec.and_assoc]
    rfl
  rw [low, splice_eq_append (by decide) x _ getLsbD_lowMask12, wordIndex]
  refine BitVec.eq_of_getLsbD_eq fun i bound => ?_
  simp only [BitVec.getLsbD_extractLsb', BitVec.getLsbD_cast, BitVec.getLsbD_append,
    BitVec.getLsbD_and, BitVec.getLsbD_ushiftRight, bound, decide_true, Bool.true_and, Nat.zero_add]
  by_cases below : i < 10
  · have mask := getLsbD_tableMask (2 + i) (by omega)
    have inTable : 2 ≤ 2 + i ∧ 2 + i < 12 := by omega
    simp only [inTable, and_self, decide_true] at mask
    have left : 2 + i < 12 := by omega
    have place : shift + (2 + i) = shift + 2 + i := by omega
    simp only [left, below, if_true, decide_true, Bool.true_and, place]
    exact (congrArg (addr.getLsbD (shift + 2 + i) && ·) mask).trans (Bool.and_true _)
  · have left : ¬ 2 + i < 12 := by omega
    have place : 2 + i - 12 = i - 10 := by omega
    have upper : i - 10 < 20 := by omega
    simp only [left, below, if_false, place, upper, decide_true]

/-! ## The branches of the walk -/

/-- The rights that fault, whichever way the check is written. -/
theorem denies_eq {mapping : Paging.Mapping} (user : temp.getLsbD 2 = mapping.user)
    (writable : temp.getLsbD 1 = mapping.writable) :
    m.denies temp rw = !Paging.permits m.control.wp (m.access rw) mapping := by
  simp only [denies, Paging.permits, access, and_four_eq_zero, and_two_eq_zero, user, writable,
    ne_eq, and_wpFlag_eq_zero]
  cases mapping.user <;> cases mapping.writable <;> cases rw <;> cases m.cplOverride <;>
    cases m.control.wp <;> by_cases three : m.cpl = 3 <;> simp [three]

theorem deniesNoabrt_eq {mapping : Paging.Mapping} (user : temp.getLsbD 2 = mapping.user)
    (writable : temp.getLsbD 1 = mapping.writable) :
    m.deniesNoabrt temp rw = (!Paging.permits m.control.wp (m.access rw) mapping ||
      decide (m.cpl = 3) && m.cplOverride && rw && !mapping.writable) := by
  simp only [deniesNoabrt, Paging.permits, access, and_four_eq_zero, and_two_eq_zero, user, writable,
    ne_eq, and_wpFlag_eq_zero]
  cases mapping.user <;> cases mapping.writable <;> cases rw <;> cases m.cplOverride <;>
    cases m.control.wp <;> by_cases three : m.cpl = 3 <;> simp [three]

/-- The fault reports CPL 3 as the user, overridden or not. -/
theorem pageFault_eq : m.pageFault addr temp rw = { m with
    cr2 := addr
    abrt := abrtPf
    abrtError := Paging.errorCode (Paging.Entry.present temp) ⟨m.cpl = 3, rw⟩ } := by
  have low : temp &&& 1 = (BitVec.ofBool (Paging.Entry.present temp)).setWidth 32 := by
    have bit := BitVec.and_twoPow temp 0
    have one : BitVec.twoPow 32 0 = 1 := rfl
    rw [one] at bit
    rw [bit, Paging.Entry.present]
    cases temp.getLsbD 0 <;> rfl
  simp only [pageFault, low, Paging.errorCode]
  by_cases three : m.cpl = 3
  · simp only [three, if_true, decide_true]
    cases Paging.Entry.present temp <;> cases rw <;> rfl
  · simp only [three, if_false, decide_false]
    cases Paging.Entry.present temp <;> cases rw <;> rfl

/-- What the code writes back: the leaf of a 4 MB page is never marked dirty. -/
def touch (rw : Bool) (ram : Paging.Words) : Paging.Mapping → Paging.Words
  | .large atPde pde => Function.update ram atPde pde.accessed
  | mapping => mapping.mark rw ram

theorem or_accessed (e : Paging.Entry) : e ||| 0x20 = e.accessed := rfl

theorem or_leaf (e : Paging.Entry) : (e ||| if rw then 0x60 else 0x20) = e.leaf rw := by
  cases rw with
  | false => rfl
  | true =>
    have both : (0x60 : BitVec 32) = BitVec.twoPow 32 5 ||| BitVec.twoPow 32 6 := rfl
    rw [if_pos rfl, both, ← BitVec.or_assoc]
    rfl

/-- The translation by the mapping of the address. -/
theorem mmutranslatereal_eq (ready : m.abrt = 0) : ∃ mmuPerm, m.mmutranslatereal addr rw =
    match Paging.lookup m.ram m.control addr with
    | none => (-1, { m with
        cr2 := addr, abrt := abrtPf, abrtError := Paging.errorCode false ⟨m.cpl = 3, rw⟩ })
    | some mapping =>
      if Paging.permits m.control.wp (m.access rw) mapping then
        (mapping.physical addr, { m with ram := touch rw m.ram mapping, mmuPerm })
      else (-1, { m with
        cr2 := addr, abrt := abrtPf, abrtError := Paging.errorCode true ⟨m.cpl = 3, rw⟩ }) := by
  have atPde : wordIndex ((m.cr3 &&& ~~~0xfff#32) + ((addr >>> 20) &&& 0xffc)) =
    m.control.root ++ addr.extractLsb' 22 10 := wordIndex_table m.cr3 20
  have atPte (pde : BitVec 32) : wordIndex ((pde &&& ~~~0xfff#32) + ((addr >>> 10) &&& 0xffc)) =
    pde.extractLsb' 12 20 ++ addr.extractLsb' 12 10 := wordIndex_table pde 10
  simp only [mmutranslatereal, ready, ne_eq, not_true_eq_false, if_false, mmuReadl, mmuWritel, atPde,
    atPte, and_one_eq_zero, and_large_eq_zero, and_cr4Pse_eq_zero, pageFault_eq, Paging.lookup,
    or_accessed, or_leaf]
  generalize seen : m.ram (m.control.root ++ addr.extractLsb' 22 10) = pde
  generalize seen' : m.ram (pde.extractLsb' 12 20 ++ addr.extractLsb' 12 10) = pte
  cases present : pde.present with
  | false => exact ⟨0, by simp only [if_true, Bool.not_false]⟩
  | true =>
    simp only [Bool.true_eq_false, if_false, Bool.not_true, Bool.false_eq_true]
    by_cases large : pde.large = true ∧ m.control.pse = true
    · have rights : m.denies pde rw = !Paging.permits m.control.wp (m.access rw)
        (.large (m.control.root ++ addr.extractLsb' 22 10) pde) := denies_eq rfl rfl
      simp only [large, and_self, Bool.true_eq_false, not_false_eq_true, if_true, Bool.and_true,
        rights]
      cases Paging.permits m.control.wp (m.access rw)
        (.large (m.control.root ++ addr.extractLsb' 22 10) pde) with
      | false => exact ⟨0, by simp only [Bool.not_false, if_true, Bool.false_eq_true, if_false]⟩
      | true =>
        refine ⟨pde &&& 4, ?_⟩
        simp only [Bool.not_true, Bool.false_eq_true, if_false, if_true, physical_large]
        rfl
    · have small : ¬ (¬ pde.large = false ∧ ¬ m.control.pse = false) := by
        rwa [Bool.not_eq_false, Bool.not_eq_false]
      have small' : (pde.large && m.control.pse) = false := by
        rwa [← Bool.not_eq_true, Bool.and_eq_true]
      have rights : m.denies (pte &&& pde) rw = !Paging.permits m.control.wp (m.access rw)
          (.small (m.control.root ++ addr.extractLsb' 22 10) pde
            (pde.extractLsb' 12 20 ++ addr.extractLsb' 12 10) pte) :=
        denies_eq ((BitVec.getLsbD_and ..).trans (Bool.and_comm _ _))
          ((BitVec.getLsbD_and ..).trans (Bool.and_comm _ _))
      simp only [small, small', Bool.false_eq_true, if_false, rights]
      cases mapped : pte.present with
      | false => exact ⟨0, by simp only [true_or, if_true, Bool.false_eq_true, if_false]⟩
      | true =>
        simp only [Bool.true_eq_false, false_or, if_true]
        cases Paging.permits m.control.wp (m.access rw) (.small _ pde _ pte) with
        | false => exact ⟨0, by simp only [Bool.not_false, if_true, Bool.false_eq_true, if_false]⟩
        | true =>
          refine ⟨pte &&& 4, ?_⟩
          simp only [Bool.not_true, Bool.false_eq_true, if_false, if_true, physical_small]
          rfl

theorem ite_refused {α : Type} {permitted refused : Bool} {a b : α} :
    (if (!permitted || refused) = true then b else a) =
      if (permitted && !refused) = true then a else b := by
  cases permitted <;> cases refused <;> rfl

/-- The translation without aborts, by the mapping of the address. -/
theorem mmutranslateNoabrt_eq (ready : m.abrt = 0) : m.mmutranslateNoabrt addr rw =
    match Paging.lookup m.ram m.control addr with
    | none => -1
    | some mapping =>
      if Paging.permits m.control.wp (m.access rw) mapping &&
          !(decide (m.cpl = 3) && m.cplOverride && rw && !mapping.writable) then
        mapping.physical addr
      else -1 := by
  have atPde : wordIndex ((m.cr3 &&& ~~~0xfff#32) + ((addr >>> 20) &&& 0xffc)) =
    m.control.root ++ addr.extractLsb' 22 10 := wordIndex_table m.cr3 20
  have atPte (pde : BitVec 32) : wordIndex ((pde &&& ~~~0xfff#32) + ((addr >>> 10) &&& 0xffc)) =
    pde.extractLsb' 12 20 ++ addr.extractLsb' 12 10 := wordIndex_table pde 10
  simp only [mmutranslateNoabrt, ready, ne_eq, not_true_eq_false, if_false, mmuReadl, atPde, atPte,
    and_one_eq_zero, and_large_eq_zero, and_cr4Pse_eq_zero, Paging.lookup]
  generalize m.ram (m.control.root ++ addr.extractLsb' 22 10) = pde
  generalize m.ram (pde.extractLsb' 12 20 ++ addr.extractLsb' 12 10) = pte
  cases present : pde.present with
  | false => simp only [if_true, Bool.not_false]
  | true =>
    simp only [Bool.true_eq_false, if_false, Bool.not_true, Bool.false_eq_true]
    by_cases large : pde.large = true ∧ m.control.pse = true
    · have rights : m.deniesNoabrt pde rw = (!Paging.permits m.control.wp (m.access rw)
        (.large (m.control.root ++ addr.extractLsb' 22 10) pde) || _) := deniesNoabrt_eq rfl rfl
      simp only [large, and_self, Bool.true_eq_false, not_false_eq_true, if_true, Bool.and_true,
        rights, physical_large, ite_refused]
      rfl
    · have small : ¬ (¬ pde.large = false ∧ ¬ m.control.pse = false) := by
        rwa [Bool.not_eq_false, Bool.not_eq_false]
      have small' : (pde.large && m.control.pse) = false := by
        rwa [← Bool.not_eq_true, Bool.and_eq_true]
      have rights : m.deniesNoabrt (pte &&& pde) rw = (!Paging.permits m.control.wp (m.access rw)
          (.small (m.control.root ++ addr.extractLsb' 22 10) pde
            (pde.extractLsb' 12 20 ++ addr.extractLsb' 12 10) pte) || _) :=
        deniesNoabrt_eq ((BitVec.getLsbD_and ..).trans (Bool.and_comm _ _))
          ((BitVec.getLsbD_and ..).trans (Bool.and_comm _ _))
      simp only [small, small', Bool.false_eq_true, if_false, rights]
      cases mapped : pte.present with
      | false => simp only [true_or, if_true, Bool.false_eq_true, if_false]
      | true =>
        simp only [Bool.true_eq_false, false_or, if_true, physical_small, ite_refused]
        rfl

/-! ## Where the translation is the walk -/

theorem errorCode_eq_iff {present user user' write : Bool} :
    Paging.errorCode present ⟨user, write⟩ = Paging.errorCode present ⟨user', write⟩ ↔
      user = user' := by
  cases present <;> cases user <;> cases user' <;> cases write <;> decide

/-- The reported user bit is the access's, unless CPL 3 is overridden. -/
theorem user_eq_iff (rw : Bool) : decide (m.cpl = 3) = (m.access rw).user ↔
    (m.cpl = 3 → m.cplOverride = false) := by
  simp only [access]
  by_cases three : m.cpl = 3
  · cases m.cplOverride <;> simp [three]
  · simp only [three, decide_false, Bool.false_and, false_implies]

/-- What the code writes back is what the walk marks, unless a write leaves a 4 MB page clean. -/
theorem touch_eq_mark_iff {mapping : Paging.Mapping} : touch rw m.ram mapping = mapping.mark rw m.ram ↔
    ∀ atPde pde, mapping = .large atPde pde → rw = true → pde.dirty = true := by
  cases mapping with
  | small => exact ⟨fun _ => nofun, fun _ => rfl⟩
  | large atPde pde =>
    have leaf : pde.accessed = pde.leaf rw ↔ (rw = true → pde.dirty = true) := by
      cases rw with
      | false => exact ⟨fun _ => nofun, fun _ => rfl⟩
      | true =>
        have marked : pde.leaf true = pde.accessed ||| BitVec.twoPow 32 6 := rfl
        have kept : pde.accessed.getLsbD 6 = pde.dirty := by
          rw [Paging.Entry.accessed, BitVec.getLsbD_or]
          exact Bool.or_false _
        rw [marked]
        refine ⟨fun same _ => ?_, fun dirty => BitVec.eq_of_getLsbD_eq fun i bound => ?_⟩
        · have bit := congrArg (BitVec.getLsbD · 6) same
          simp only [BitVec.getLsbD_or, kept] at bit
          exact bit.trans (Bool.or_true _)
        · rw [BitVec.getLsbD_or, BitVec.getLsbD_twoPow]
          by_cases here : 6 = i
          · rw [← here, kept, dirty rfl]
            rfl
          · simp only [here, decide_false, Bool.and_false, Bool.or_false]
    refine ⟨fun same => ?_, fun dirty => ?_⟩
    · rintro _ _ ⟨rfl, rfl⟩
      have entry := congrFun same atPde
      rw [touch, Paging.Mapping.mark, Function.update_self, Function.update_self] at entry
      exact leaf.mp entry
    · rw [touch, Paging.Mapping.mark, leaf.mpr (dirty atPde pde rfl)]

/-- What is left of the check for an access that overrides CPL 3. -/
theorem permits_override {mapping : Paging.Mapping} (override : m.cplOverride = true) :
    Paging.permits m.control.wp (m.access rw) mapping =
      (!rw || mapping.writable || !m.control.wp) := by
  simp only [Paging.permits, access, override, Bool.not_true, Bool.and_false, Bool.not_false,
    Bool.true_or, Bool.true_and]

/-- Where the walk faults, only the reported user bit can differ. -/
theorem walkExact_fault {present : Bool} (fault : Paging.walk m.ram m.control (m.access rw) addr =
      .error (Paging.errorCode present (m.access rw)))
    (real : m.mmutranslatereal addr rw = (-1, { m with
      cr2 := addr, abrt := abrtPf, abrtError := Paging.errorCode present ⟨m.cpl = 3, rw⟩ }))
    (noabrt : m.mmutranslateNoabrt addr rw = -1) :
    WalkExact m addr rw ↔ (m.cpl = 3 → m.cplOverride = false) := by
  have code : Paging.errorCode present ⟨m.cpl = 3, rw⟩ = Paging.errorCode present (m.access rw) ↔
    (m.cpl = 3 → m.cplOverride = false) := errorCode_eq_iff.trans (user_eq_iff rw)
  refine ⟨fun exact => ?_, fun user => ⟨?_, ?_⟩⟩
  · have same := exact.real
    simp only [fault, real, Prod.mk.injEq, Mmu.mk.injEq, true_and, and_true] at same
    exact code.mp same
  · simp only [fault, real, code.mpr user]
  · simp only [fault, noabrt]

/-- Where it does not, the dirty bit of a 4 MB page and the refusals can. -/
theorem walkExact_permitted {mapping : Paging.Mapping} {mmuPerm : BitVec 32}
    (permitted : Paging.walk m.ram m.control (m.access rw) addr =
      .ok (mapping.physical addr, mapping.mark rw m.ram))
    (real : m.mmutranslatereal addr rw =
      (mapping.physical addr, { m with ram := touch rw m.ram mapping, mmuPerm }))
    (noabrt : m.mmutranslateNoabrt addr rw =
      if !(decide (m.cpl = 3) && m.cplOverride && rw && !mapping.writable) then
        mapping.physical addr else -1) :
    WalkExact m addr rw ↔
      (∀ atPde pde, mapping = .large atPde pde → rw = true → pde.dirty = true) ∧
      (m.cpl = 3 → m.cplOverride = true → rw = true →
        mapping.writable = true ∨ mapping.physical addr = -1) := by
  have refusal : (m.mmutranslateNoabrt addr rw = mapping.physical addr) ↔
      (m.cpl = 3 → m.cplOverride = true → rw = true →
        mapping.writable = true ∨ mapping.physical addr = -1) := by
    rw [noabrt]
    by_cases three : m.cpl = 3
    · cases m.cplOverride <;> cases rw <;> cases mapping.writable <;> simp [three, eq_comm]
    · simp only [three, decide_false, Bool.false_and, Bool.not_false, if_true, false_implies]
  refine ⟨fun exact => ⟨?_, ?_⟩, fun both => ⟨?_, ?_⟩⟩
  · obtain ⟨perm, same⟩ : ∃ perm, m.mmutranslatereal addr rw =
        (mapping.physical addr, { m with ram := mapping.mark rw m.ram, mmuPerm := perm }) := by
      have same := exact.real
      rwa [permitted] at same
    rw [real, Prod.mk.injEq, Mmu.mk.injEq] at same
    exact touch_eq_mark_iff.mp same.2.1
  · have same := exact.noabrt
    rw [permitted] at same
    exact refusal.mp same
  · simp only [permitted]
    exact ⟨mmuPerm, by rw [real, touch_eq_mark_iff.mpr both.1]⟩
  · simp only [permitted]
    exact refusal.mpr both.2

/-- The code agrees with the walk where the access is regular, and nowhere else. -/
theorem walkExact_iff (ready : m.abrt = 0) : WalkExact m addr rw ↔ Regular m addr rw := by
  have translated : ∃ mmuPerm, m.mmutranslatereal addr rw = _ := mmutranslatereal_eq ready
  obtain ⟨mmuPerm, real⟩ := translated
  have noabrt : m.mmutranslateNoabrt addr rw = _ := mmutranslateNoabrt_eq ready
  cases looked : Paging.lookup m.ram m.control addr with
  | none =>
    simp only [looked] at real noabrt
    refine (walkExact_fault (by rw [Paging.walk, looked]) real noabrt).trans
      ⟨fun user => ⟨?_, fun three override => ?_⟩, fun regular three => ?_⟩
    · rw [looked]
      nofun
    · cases (user three).symm.trans override
    · by_contra override
      obtain ⟨mapping, some_, -⟩ := regular.override three (Bool.not_eq_false _ ▸ override)
      cases looked.symm.trans some_
  | some mapping =>
    have large (atPde : BitVec 30) (pde : BitVec 32) : mapping = .large atPde pde ↔
        Paging.lookup m.ram m.control addr = some (.large atPde pde) := by
      rw [looked, Option.some.injEq]
    cases permitted : Paging.permits m.control.wp (m.access rw) mapping with
    | false =>
      simp only [looked, permitted, Bool.false_and, Bool.false_eq_true, if_false] at real noabrt
      have fault : Paging.walk m.ram m.control (m.access rw) addr =
          .error (Paging.errorCode true (m.access rw)) := by
        simp only [Paging.walk, looked, permitted, Bool.false_eq_true, if_false]
      refine (walkExact_fault fault real noabrt).trans
        ⟨fun user => ⟨fun atPde pde found _ allowed => ?_, fun three override => ?_⟩,
          fun regular three => ?_⟩
      · rw [← (large atPde pde).mpr found, permitted] at allowed
        cases allowed
      · cases (user three).symm.trans override
      · by_contra override
        have override := (Bool.not_eq_false _).mp override
        obtain ⟨mapping', found, writable⟩ := regular.override three override
        obtain rfl := Option.some.inj (looked.symm.trans found)
        simp only [permits_override override, Bool.or_eq_false_iff, Bool.not_eq_false'] at permitted
        obtain ⟨⟨write, protected_⟩, wp⟩ := permitted
        rcases writable write with free | ⟨unprotected, -⟩
        · cases free.symm.trans protected_
        · cases wp.symm.trans unprotected
    | true =>
      simp only [looked, permitted, Bool.true_and, if_true] at real noabrt
      have passed : Paging.walk m.ram m.control (m.access rw) addr =
          .ok (mapping.physical addr, mapping.mark rw m.ram) := by
        simp only [Paging.walk, looked, permitted, if_true]
        rfl
      refine (walkExact_permitted passed real noabrt).trans
        ⟨fun both => ⟨fun atPde pde found write _ => ?_, fun three override => ?_⟩,
          fun regular => ⟨fun atPde pde found write => ?_, fun three override write => ?_⟩⟩
      · exact both.1 atPde pde ((large atPde pde).mpr found) write
      · refine ⟨mapping, looked, fun write => ?_⟩
        rw [permits_override override, write, Bool.not_true, Bool.false_or, Bool.or_eq_true,
          Bool.not_eq_true'] at permitted
        rcases both.2 three override write with writable | unnoticed
        · exact .inl writable
        · exact permitted.imp_right fun wp => ⟨wp, unnoticed⟩
      · exact regular.large atPde pde ((large atPde pde).mp found) write (found ▸ permitted)
      · obtain ⟨mapping', found, writable⟩ := regular.override three override
        obtain rfl := Option.some.inj (looked.symm.trans found)
        exact (writable write).imp_right And.right

/-- Page 0 is the directory: a 4 MB page for address 0, writable and not dirty. -/
def largePage : Mmu where
  ram := Function.update (fun _ => 0) 0 0x83
  cr0 := 0
  cr2 := 0
  cr3 := 0
  cr4 := 0x10
  csAccess := 0
  cplOverride := false
  abrt := 0
  abrtError := 0
  mmuPerm := 4

/-- Reads through a 4 MB page are regular. -/
theorem walkExact_largePage : WalkExact largePage 0x1234 false ∧
    (largePage.mmutranslatereal 0x1234 false).1 = 0x1234 := by
  refine ⟨(walkExact_iff rfl).mpr ⟨fun _ _ _ write => ?_, fun three => ?_⟩, by decide⟩
  · cases write
  · exact absurd three (by decide)

/-- A write through it leaves the dirty bit clear. -/
theorem not_walkExact_largePage :
    ¬ ∀ (m : Mmu) (addr : BitVec 32) (rw : Bool), m.abrt = 0 → WalkExact m addr rw := by
  intro exact
  obtain ⟨mmuPerm, same⟩ : ∃ mmuPerm, largePage.mmutranslatereal 0x1234 true =
      (0x1234, { largePage with ram := Function.update largePage.ram 0 0xe3, mmuPerm }) :=
    (exact largePage 0x1234 true rfl).real
  have clear : (largePage.mmutranslatereal 0x1234 true).2.ram 0 = 0xa3 := by decide
  rw [same] at clear
  have bits : (0xe3 : BitVec 32) = 0xa3 := clear
  exact absurd bits (by decide)

end Mmu

end PCemWeb.Memory
