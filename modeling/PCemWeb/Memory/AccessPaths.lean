import PCemWeb.Memory.Access
import PCemWeb.Memory.MmuExact

/-!
# What a translation depends on

A translation finds a physical address and marks its entries as accessed or dirty (`path`). It does
not read these two bits, so it is the same again after any marks, and whatever is stored elsewhere
(`path_of_alike`); and it maps pages to pages.
-/

namespace PCemWeb.Memory

open PCemWeb.Lib

/-- Two entries that differ at most in the accessed and the dirty bit. -/
def Alike (x y : BitVec 32) : Prop := ∀ i, i ≠ 5 → i ≠ 6 → x.getLsbD i = y.getLsbD i

section

variable {x y z : BitVec 32}

theorem Alike.refl : Alike x x := fun _ _ _ => rfl

theorem Alike.symm (alike : Alike x y) : Alike y x := fun i five six => (alike i five six).symm

theorem Alike.trans (first : Alike x y) (second : Alike y z) : Alike x z :=
  fun i five six => (first i five six).trans (second i five six)

theorem Alike.extract (alike : Alike x y) {start len : Nat} (above : 7 ≤ start) :
    x.extractLsb' start len = y.extractLsb' start len := by
  apply BitVec.eq_of_getLsbD_eq
  intro i inside
  rw [BitVec.getLsbD_extractLsb', BitVec.getLsbD_extractLsb', alike _ (by omega) (by omega)]

end

namespace Mmu

variable {m : Mmu} {addr addr' : BitVec 32} {rw : Bool} {k : WordRam} {phys : BitVec 32}

/-! ## Paths -/

/-- The bits that a translation sets in the entries it uses. -/
def marks (rw : Bool) : Paging.Mapping → WordRam
  | .large atPde _ => fun e => if e = atPde then 0x20 else 0
  | .small atPde _ atPte _ => fun e =>
    (if e = atPde then 0x20 else 0) ||| (if e = atPte then if rw then 0x60 else 0x20 else 0)

/-- The physical address and the marks of a translation, unless it faults. -/
def path (m : Mmu) (addr : BitVec 32) (rw : Bool) : Option (BitVec 32 × WordRam) :=
  if m.abrt ≠ 0 then none
  else
    match Paging.lookup m.ram m.control addr with
    | none => none
    | some mapping =>
      if Paging.permits m.control.wp (m.access rw) mapping then
        some (mapping.physical addr, marks rw mapping)
      else none

/-- The entry of the page directory, and that of the page table it leads to. -/
def atPde (m : Mmu) (addr : BitVec 32) : BitVec 30 := m.control.root ++ addr.extractLsb' 22 10

def atPte (pde addr : BitVec 32) : BitVec 30 := pde.extractLsb' 12 20 ++ addr.extractLsb' 12 10

/-- A mapping that is found holds the entries it names. -/
theorem lookup_cases {mapping : Paging.Mapping}
    (found : Paging.lookup m.ram m.control addr = some mapping) :
    Paging.Entry.present (m.ram (m.atPde addr)) = true ∧
      ((Paging.Entry.large (m.ram (m.atPde addr)) && m.control.pse) = true ∧
          mapping = .large (m.atPde addr) (m.ram (m.atPde addr)) ∨
        (Paging.Entry.large (m.ram (m.atPde addr)) && m.control.pse) = false ∧
          Paging.Entry.present (m.ram (atPte (m.ram (m.atPde addr)) addr)) = true ∧
          mapping = .small (m.atPde addr) (m.ram (m.atPde addr))
            (atPte (m.ram (m.atPde addr)) addr) (m.ram (atPte (m.ram (m.atPde addr)) addr))) := by
  simp only [Paging.lookup, Bool.not_eq_eq_eq_not] at found
  split at found
  · cases found
  · rename_i present
    refine ⟨Bool.not_eq_false _ ▸ present, ?_⟩
    split at found
    · rename_i large
      exact .inl ⟨large, (Option.some.inj found).symm⟩
    · rename_i small
      split at found
      · rename_i mapped
        exact .inr ⟨Bool.not_eq_true _ ▸ small, mapped, (Option.some.inj found).symm⟩
      · cases found

theorem lookup_large (present : Paging.Entry.present (m.ram (m.atPde addr)) = true)
    (large : (Paging.Entry.large (m.ram (m.atPde addr)) && m.control.pse) = true) :
    Paging.lookup m.ram m.control addr = some (.large (m.atPde addr) (m.ram (m.atPde addr))) := by
  unfold atPde at *
  simp only [Paging.lookup, present, large, Bool.not_true, Bool.false_eq_true, if_false, if_true]

theorem lookup_small (present : Paging.Entry.present (m.ram (m.atPde addr)) = true)
    (small : (Paging.Entry.large (m.ram (m.atPde addr)) && m.control.pse) = false)
    (mapped : Paging.Entry.present (m.ram (atPte (m.ram (m.atPde addr)) addr)) = true) :
    Paging.lookup m.ram m.control addr = some (.small (m.atPde addr) (m.ram (m.atPde addr))
      (atPte (m.ram (m.atPde addr)) addr) (m.ram (atPte (m.ram (m.atPde addr)) addr))) := by
  unfold atPte atPde at *
  simp only [Paging.lookup, present, small, mapped, Bool.not_true, Bool.false_eq_true, if_false,
    if_true]

theorem touch_eq_mark {mapping : Paging.Mapping}
    (found : Paging.lookup m.ram m.control addr = some mapping) :
    touch rw m.ram mapping = WordRam.mark (marks rw mapping) m.ram := by
  obtain ⟨-, ⟨-, rfl⟩ | ⟨-, -, rfl⟩⟩ := lookup_cases found
  · funext e
    simp only [touch, WordRam.mark, marks]
    by_cases here : e = m.atPde addr
    · rw [here, Function.update_self, if_pos rfl, or_accessed]
    · rw [Function.update_of_ne here, if_neg here]
      exact BitVec.or_zero.symm
  · funext e
    simp only [touch, Paging.Mapping.mark, WordRam.mark, marks, ← or_leaf, ← or_accessed]
    generalize atPte (m.ram (m.atPde addr)) addr = pte
    by_cases leaf : e = pte
    · rw [leaf, Function.update_self, if_pos rfl]
      by_cases both : pte = m.atPde addr
      · rw [if_pos both]
        cases rw
        · exact congrArg (m.ram pte ||| ·) (BitVec.or_self).symm
        · rfl
      · rw [if_neg both]
        exact congrArg (m.ram pte ||| ·) (BitVec.zero_or).symm
    · rw [Function.update_of_ne leaf, if_neg leaf]
      by_cases directory : e = m.atPde addr
      · rw [directory, Function.update_self, if_pos rfl]
        exact congrArg (m.ram (m.atPde addr) ||| ·) BitVec.or_zero.symm
      · rw [Function.update_of_ne directory, if_neg directory]
        exact BitVec.or_zero.symm

theorem mmutranslatereal_of_path (walked : m.path addr rw = some (phys, k)) :
    ∃ mmuPerm,
      m.mmutranslatereal addr rw = (phys, { m with ram := WordRam.mark k m.ram, mmuPerm }) := by
  unfold path at walked
  split at walked
  · cases walked
  · rename_i ready
    obtain ⟨mmuPerm, real⟩ := @mmutranslatereal_eq m addr rw (not_not.mp ready)
    split at walked
    · cases walked
    · rename_i mapping found
      split at walked
      · rename_i permitted
        cases walked
        refine ⟨mmuPerm, real.trans ?_⟩
        simp only [found, permitted, if_true, touch_eq_mark found]
      · cases walked

/-- A fault leaves memory as it is. -/
theorem mmutranslatereal_of_fault (fault : m.path addr rw = none) :
    (m.mmutranslatereal addr rw).1 = -1 ∧ (m.mmutranslatereal addr rw).2.ram = m.ram := by
  unfold path at fault
  split at fault
  · rename_i pending
    rw [mmutranslatereal, if_pos pending]
    exact ⟨rfl, rfl⟩
  · rename_i ready
    obtain ⟨mmuPerm, real⟩ := @mmutranslatereal_eq m addr rw (not_not.mp ready)
    split at fault
    · rename_i missing
      simp only [missing] at real
      rw [real]
      exact ⟨rfl, rfl⟩
    · rename_i mapping found
      split at fault
      · cases fault
      · rename_i denied
        simp only [found, denied] at real
        rw [real]
        exact ⟨rfl, rfl⟩

/-! ## Translations again -/

/-- The memory after other marks, or other stores. -/
def withRam (m : Mmu) (ram : WordRam) (mmuPerm : BitVec 32) : Mmu := { m with ram, mmuPerm }

theorem permits_large_alike {wp : Bool} {access : Paging.Access} {pde pde' : BitVec 32}
    {i : BitVec 30} (alike : Alike pde' pde) :
    Paging.permits wp access (.large i pde') = Paging.permits wp access (.large i pde) := by
  simp only [Paging.permits, Paging.Mapping.user, Paging.Mapping.writable, Paging.Entry.user,
    Paging.Entry.writable, alike 2 (by decide) (by decide), alike 1 (by decide) (by decide)]

theorem permits_small_alike {wp : Bool} {access : Paging.Access} {pde pde' pte pte' : BitVec 32}
    {i j j' : BitVec 30} (first : Alike pde' pde) (second : Alike pte' pte) :
    Paging.permits wp access (.small i pde' j' pte') =
      Paging.permits wp access (.small i pde j pte) := by
  simp only [Paging.permits, Paging.Mapping.user, Paging.Mapping.writable, Paging.Entry.user,
    Paging.Entry.writable, first 2 (by decide) (by decide), first 1 (by decide) (by decide),
    second 2 (by decide) (by decide), second 1 (by decide) (by decide)]

/-- What a translation finds, when the entries it uses are alike. -/
theorem lookup_of_alike {mapping : Paging.Mapping} (ram : WordRam) (mmuPerm : BitVec 32)
    (found : Paging.lookup m.ram m.control addr = some mapping)
    (alike : ∀ e, marks rw mapping e ≠ 0 → Alike (ram e) (m.ram e)) :
    ∃ mapping', Paging.lookup (m.withRam ram mmuPerm).ram m.control addr = some mapping' ∧
      mapping'.physical addr = mapping.physical addr ∧ marks rw mapping' = marks rw mapping ∧
      ∀ wp access, Paging.permits wp access mapping' = Paging.permits wp access mapping := by
  have directory : Alike (ram (m.atPde addr)) (m.ram (m.atPde addr)) := by
    apply alike
    obtain ⟨-, ⟨-, rfl⟩ | ⟨-, -, rfl⟩⟩ := lookup_cases found
    · simp [marks]
    · simp only [marks, if_true]
      split <;> cases rw <;> decide
  have present : Paging.Entry.present (ram (m.atPde addr)) =
      Paging.Entry.present (m.ram (m.atPde addr)) := directory 0 (by decide) (by decide)
  have large : Paging.Entry.large (ram (m.atPde addr)) =
      Paging.Entry.large (m.ram (m.atPde addr)) := directory 7 (by decide) (by decide)
  obtain ⟨present', ⟨large', rfl⟩ | ⟨small', mapped', rfl⟩⟩ := lookup_cases found
  · refine ⟨_, lookup_large (m := m.withRam ram mmuPerm) (present.trans present')
      ((congrArg (· && m.control.pse) large).trans large'), ?_, rfl, fun wp access => ?_⟩
    · exact congrArg (· ++ addr.extractLsb' 0 22) (directory.extract (by decide))
    · exact permits_large_alike directory
  · have table : atPte (ram (m.atPde addr)) addr = atPte (m.ram (m.atPde addr)) addr :=
      congrArg (· ++ addr.extractLsb' 12 10) (directory.extract (by decide))
    have leaf : Alike (ram (atPte (ram (m.atPde addr)) addr))
        (m.ram (atPte (m.ram (m.atPde addr)) addr)) := by
      rw [table]
      apply alike
      simp only [marks, if_true]
      split <;> cases rw <;> decide
    have mapped : Paging.Entry.present (ram (atPte (ram (m.atPde addr)) addr)) =
        Paging.Entry.present (m.ram (atPte (m.ram (m.atPde addr)) addr)) :=
      leaf 0 (by decide) (by decide)
    refine ⟨_, lookup_small (m := m.withRam ram mmuPerm) (present.trans present')
      ((congrArg (· && m.control.pse) large).trans small') (mapped.trans mapped'), ?_, ?_,
      fun wp access => ?_⟩
    · exact congrArg (· ++ addr.extractLsb' 0 12) (leaf.extract (by decide))
    · exact congrArg (fun i => marks rw (.small (m.atPde addr) 0 i 0)) table
    · exact permits_small_alike directory leaf

/-- A translation is the same when the entries it uses are alike. -/
theorem path_of_alike (ram : WordRam) (mmuPerm : BitVec 32)
    (walked : m.path addr rw = some (phys, k)) (alike : ∀ e, k e ≠ 0 → Alike (ram e) (m.ram e)) :
    (m.withRam ram mmuPerm).path addr rw = some (phys, k) := by
  unfold path at walked ⊢
  split at walked
  · cases walked
  · rename_i ready
    rw [if_neg (show ¬ (m.withRam ram mmuPerm).abrt ≠ 0 from ready)]
    split at walked
    · cases walked
    · rename_i mapping found
      split at walked
      · rename_i permitted
        cases walked
        obtain ⟨mapping', found', physical, same, rights⟩ :=
          lookup_of_alike ram mmuPerm found alike
        have control : (m.withRam ram mmuPerm).control = m.control := rfl
        have access : (m.withRam ram mmuPerm).access rw = m.access rw := rfl
        simp only [control, access, found', rights, permitted, if_true, physical, same]
      · cases walked

/-- Nor does a fault depend on the two bits. -/
theorem path_eq_of_alike (ram : WordRam) (mmuPerm : BitVec 32)
    (alike : ∀ e, Alike (ram e) (m.ram e)) :
    (m.withRam ram mmuPerm).path addr rw = m.path addr rw := by
  cases walked : m.path addr rw with
  | some found => exact path_of_alike ram mmuPerm walked fun e _ => alike e
  | none =>
    cases again : (m.withRam ram mmuPerm).path addr rw with
    | none => rfl
    | some found =>
      have back := path_of_alike m.ram m.mmuPerm again fun e _ => (alike e).symm
      cases walked.symm.trans back

theorem getLsbD_marks : ∀ i < 32, i ≠ 5 → i ≠ 6 →
    (0x20 : BitVec 32).getLsbD i = false ∧ (0x60 : BitVec 32).getLsbD i = false := by decide

theorem marks_bit {mapping : Paging.Mapping} {e : BitVec 30} {i : Nat} (five : i ≠ 5)
    (six : i ≠ 6) : (marks rw mapping e).getLsbD i = false := by
  by_cases inside : i < 32
  · obtain ⟨accessed, dirty⟩ := getLsbD_marks i inside five six
    have directory (p : Prop) [Decidable p] :
        (if p then (0x20 : BitVec 32) else 0).getLsbD i = false := by
      split
      · exact accessed
      · exact BitVec.getLsbD_zero
    have leaf (p : Prop) [Decidable p] :
        (if p then if rw = true then (0x60 : BitVec 32) else 0x20 else 0).getLsbD i = false := by
      split
      · split
        · exact dirty
        · exact accessed
      · exact BitVec.getLsbD_zero
    cases mapping with
    | large atPde pde => exact directory _
    | small atPde pde atPte pte =>
      exact (BitVec.getLsbD_or ..).trans (by rw [directory, leaf, Bool.or_false])
  · exact BitVec.getLsbD_of_ge _ _ (by omega)

/-- Marked entries are alike. -/
theorem alike_mark (walked : m.path addr rw = some (phys, k)) (r : WordRam) (e : BitVec 30) :
    Alike (WordRam.mark k r e) (r e) := by
  obtain ⟨mapping, rfl⟩ : ∃ mapping, marks rw mapping = k := by
    unfold path at walked
    split at walked
    · cases walked
    · split at walked
      · cases walked
      · split at walked
        · cases walked
          exact ⟨_, rfl⟩
        · cases walked
  intro i five six
  rw [WordRam.mark, BitVec.getLsbD_or, marks_bit five six, Bool.or_false]

/-! ## Pages -/

/-- An address within the page of another. -/
theorem extract_high_of_vpn (samePage : vpn addr = vpn addr') :
    addr.extractLsb' 22 10 = addr'.extractLsb' 22 10 ∧
      addr.extractLsb' 12 10 = addr'.extractLsb' 12 10 := by
  have bits (i : Nat) (low : 12 ≤ i) (high : i < 32) : addr.getLsbD i = addr'.getLsbD i := by
    have bit := congrArg (BitVec.getLsbD · (i - 12)) samePage
    have small : i - 12 < 20 := by omega
    have place : 12 + (i - 12) = i := by omega
    simpa [vpn, small, place] using bit
  constructor <;> apply BitVec.eq_of_getLsbD_eq <;> intro i inside <;>
    rw [BitVec.getLsbD_extractLsb', BitVec.getLsbD_extractLsb', bits _ (by omega) (by omega)]

/-- The low bits of a physical address are those of the linear address. -/
theorem physical_bit (mapping : Paging.Mapping) : ∃ low ≥ 12, ∃ frame : Nat → Bool,
    ∀ addr' : BitVec 32, ∀ i, (mapping.physical addr').getLsbD i =
      if i < low then addr'.getLsbD i else frame i := by
  cases mapping with
  | large atPde pde =>
    refine ⟨22, by decide, fun i => (pde.extractLsb' 22 10).getLsbD (i - 22), fun addr' i => ?_⟩
    refine (BitVec.getLsbD_append ..).trans ?_
    split <;> simp_all
  | small atPde pde atPte pte =>
    refine ⟨12, by decide, fun i => (pte.extractLsb' 12 20).getLsbD (i - 12), fun addr' i => ?_⟩
    refine (BitVec.getLsbD_append ..).trans ?_
    split <;> simp_all

/-- The offset into a page is not translated. -/
theorem physical_offset (mapping : Paging.Mapping) (addr : BitVec 32) :
    (mapping.physical addr).extractLsb' 0 12 = addr.extractLsb' 0 12 := by
  obtain ⟨low, wide, frame, bit⟩ := physical_bit mapping
  apply BitVec.eq_of_getLsbD_eq
  intro i inside
  have below : 0 + i < low := by omega
  rw [BitVec.getLsbD_extractLsb', BitVec.getLsbD_extractLsb', bit, if_pos below]

theorem physical_page (mapping : Paging.Mapping) (samePage : vpn addr = vpn addr') :
    vpn (mapping.physical addr') = vpn (mapping.physical addr) := by
  obtain ⟨low, -, frame, bit⟩ := physical_bit mapping
  apply BitVec.eq_of_getLsbD_eq
  intro i inside
  have same := congrArg (BitVec.getLsbD · i) samePage
  simp only [vpn, BitVec.getLsbD_extractLsb'] at same ⊢
  rw [bit, bit]
  split
  · exact same.symm
  · rfl

/-- A page is mapped to a page. -/
theorem path_same_page (samePage : vpn addr = vpn addr')
    (walked : m.path addr rw = some (phys, k)) :
    ∃ phys', m.path addr' rw = some (phys', k) ∧ vpn phys' = vpn phys ∧
      phys'.extractLsb' 0 12 = addr'.extractLsb' 0 12 := by
  obtain ⟨directory, table⟩ := extract_high_of_vpn samePage
  unfold path at walked ⊢
  split at walked
  · cases walked
  · rename_i ready
    rw [if_neg ready]
    have sameLookup : Paging.lookup m.ram m.control addr' = Paging.lookup m.ram m.control addr := by
      simp only [Paging.lookup, directory, table]
    rw [sameLookup]
    split at walked
    · cases walked
    · rename_i mapping found
      split at walked
      · rename_i permitted
        cases walked
        refine ⟨mapping.physical addr', ?_, physical_page mapping samePage,
          physical_offset mapping addr'⟩
        simp only [permitted, if_true]
      · cases walked

/-- The path where paging is on; the address itself where it is off. -/
def reach (m : Mmu) (addr : BitVec 32) (rw : Bool) : Option (BitVec 32 × WordRam) :=
  if m.cr0 >>> 31 ≠ 0 then m.path addr rw else some (addr, fun _ => 0)

theorem reach_of_alike (ram : WordRam) (mmuPerm : BitVec 32)
    (found : m.reach addr rw = some (phys, k))
    (alike : ∀ e, k e ≠ 0 → Alike (ram e) (m.ram e)) :
    (m.withRam ram mmuPerm).reach addr rw = some (phys, k) := by
  unfold reach at found ⊢
  rw [show (m.withRam ram mmuPerm).cr0 = m.cr0 from rfl]
  split at found
  · rename_i paging
    rw [if_pos paging]
    exact path_of_alike ram mmuPerm found alike
  · rename_i flat
    rw [if_neg flat]
    exact found

theorem reach_eq_of_alike (ram : WordRam) (mmuPerm : BitVec 32)
    (alike : ∀ e, Alike (ram e) (m.ram e)) :
    (m.withRam ram mmuPerm).reach addr rw = m.reach addr rw := by
  unfold reach
  rw [show (m.withRam ram mmuPerm).cr0 = m.cr0 from rfl, path_eq_of_alike ram mmuPerm alike]

theorem alike_mark_reach (found : m.reach addr rw = some (phys, k)) (r : WordRam) (e : BitVec 30) :
    Alike (WordRam.mark k r e) (r e) := by
  unfold reach at found
  split at found
  · exact alike_mark found r e
  · cases found
    rw [WordRam.mark_of_zero rfl]
    exact .refl

theorem reach_same_page (samePage : vpn addr = vpn addr')
    (found : m.reach addr rw = some (phys, k)) :
    ∃ phys', m.reach addr' rw = some (phys', k) ∧ vpn phys' = vpn phys ∧
      phys'.extractLsb' 0 12 = addr'.extractLsb' 0 12 := by
  unfold reach at found ⊢
  split at found
  · rename_i paging
    rw [if_pos paging]
    exact path_same_page samePage found
  · rename_i flat
    rw [if_neg flat]
    cases found
    exact ⟨addr', rfl, samePage.symm, rfl⟩

end Mmu

end PCemWeb.Memory
