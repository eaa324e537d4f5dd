import PCemWeb.Memory.AccessPaths

/-!
# One access

`Reaches` says where in RAM the bytes of an operand are and which entries their translation marks;
it outlasts marks and stores to the operand. From it and from entries of the lookup tables that
agree with it follows what each function reads or writes.
-/

namespace PCemWeb.Memory

open PCemWeb.Lib

/-! ## Translations -/

namespace Bus

variable {w : Nat} {s : Bus w} {addr phys : BitVec 32} {rw : Bool} {k : WordRam}

/-- The state after marks. -/
def withRam (s : Bus w) (ram : WordRam) (mmuPerm : BitVec 32) : Bus w :=
  { s with mmu := s.mmu.withRam ram mmuPerm }

theorem translate_of_reach (found : s.mmu.reach addr rw = some (phys, k))
    (real : s.mmu.cr0 >>> 31 = 0 ∨ phys ≠ 0xffffffff) :
    ∃ mmuPerm, s.translate addr rw = (some phys, s.withRam (WordRam.mark k s.ram) mmuPerm) := by
  unfold Mmu.reach at found
  unfold translate
  split at found
  · rename_i paging
    obtain ⟨mmuPerm, translated⟩ := Mmu.mmutranslatereal_of_path found
    refine ⟨mmuPerm, ?_⟩
    rw [if_pos paging, translated]
    dsimp only
    rw [if_neg (real.resolve_left paging)]
    rfl
  · rename_i flat
    cases found
    refine ⟨s.mmu.mmuPerm, ?_⟩
    rw [if_neg flat, WordRam.mark_zero]
    rfl

/-- The physical address `0xffffffff` is taken for a fault, after the marks. -/
theorem translate_of_last (found : s.mmu.reach addr rw = some (phys, k))
    (paging : s.mmu.cr0 >>> 31 ≠ 0) (last : phys = 0xffffffff) :
    ∃ mmuPerm, s.translate addr rw = (none, s.withRam (WordRam.mark k s.ram) mmuPerm) := by
  rw [Mmu.reach, if_pos paging] at found
  obtain ⟨mmuPerm, translated⟩ := Mmu.mmutranslatereal_of_path found
  refine ⟨mmuPerm, ?_⟩
  rw [translate, if_pos paging, translated]
  dsimp only
  rw [if_pos last]
  rfl

/-- A fault leaves RAM as it is. -/
theorem translate_of_fault (fault : s.mmu.reach addr rw = none) :
    (s.translate addr rw).1 = none ∧ (s.translate addr rw).2.ram = s.ram := by
  unfold Mmu.reach at fault
  split at fault
  · rename_i paging
    obtain ⟨refused, same⟩ := Mmu.mmutranslatereal_of_fault fault
    rw [translate, if_pos paging]
    exact ⟨if_pos refused, same⟩
  · cases fault

end Bus

/-! ## Places -/

theorem toNat_eq_page (x : BitVec 32) :
    x.toNat = (vpn x).toNat * 4096 + (x.extractLsb' 0 12).toNat := by
  have bound := x.isLt
  simp only [vpn, BitVec.extractLsb'_toNat, Nat.shiftRight_eq_div_pow]
  omega

theorem mod_of_byPages {d : BitVec 32} (byPages : d &&& 0xfff = 0) : d.toNat % 4096 = 0 := by
  have zero := congrArg BitVec.toNat byPages
  rw [BitVec.toNat_and] at zero
  exact (Nat.and_two_pow_sub_one_eq_mod d.toNat 12).symm.trans zero

/-- A displacement by pages keeps offsets, and moves pages. -/
theorem add_low {x d : BitVec 32} (byPages : d &&& 0xfff = 0) :
    (x + d).extractLsb' 0 12 = x.extractLsb' 0 12 := by
  have low := mod_of_byPages byPages
  apply BitVec.eq_of_toNat_eq
  simp only [BitVec.extractLsb'_toNat, BitVec.toNat_add, Nat.shiftRight_zero]
  omega

theorem add_page {x x' d : BitVec 32} (byPages : d &&& 0xfff = 0) (samePage : vpn x = vpn x') :
    vpn (x + d) = vpn (x' + d) := by
  have low := mod_of_byPages byPages
  have same := congrArg BitVec.toNat samePage
  apply BitVec.eq_of_toNat_eq
  simp only [vpn, BitVec.extractLsb'_toNat, BitVec.toNat_add, Nat.shiftRight_eq_div_pow] at same ⊢
  omega

/-- The mask of the A20 gate keeps offsets, and masks pages alike. -/
theorem mask_low {x mask : BitVec 32} (masksPages : mask &&& 0xfff = 0xfff) :
    (x &&& mask).extractLsb' 0 12 = x.extractLsb' 0 12 := by
  apply BitVec.eq_of_getLsbD_eq
  intro i inside
  have bit := congrArg (BitVec.getLsbD · i) masksPages
  have one : (0xfff : BitVec 32).getLsbD i = true :=
    (Mmu.getLsbD_lowMask12 i (by omega)).trans (decide_eq_true inside)
  simp only [BitVec.getLsbD_and, one, Bool.and_true] at bit
  simp [inside, bit]

theorem mask_page {x x' mask : BitVec 32} (samePage : vpn x = vpn x') :
    vpn (x &&& mask) = vpn (x' &&& mask) := by
  apply BitVec.eq_of_getLsbD_eq
  intro i inside
  have bit := congrArg (BitVec.getLsbD · i) samePage
  simp only [vpn, BitVec.getLsbD_extractLsb', BitVec.getLsbD_and, inside, decide_true,
    Bool.true_and] at bit ⊢
  rw [bit]

theorem granule_of_vpn {x x' : BitVec 32} (same : vpn x = vpn x') : granule x = granule x' := by
  have top (x : BitVec 32) : granule x = (vpn x).extractLsb' 2 18 := by
    apply BitVec.eq_of_getLsbD_eq
    intro i inside
    have small : 2 + i < 20 := by omega
    have place : 12 + (2 + i) = 14 + i := by omega
    simp only [granule, vpn, BitVec.getLsbD_extractLsb', inside, small, decide_true, Bool.true_and,
      place]
  rw [top, top, same]

/-- Two addresses on one page, at the same distance on either side of a map of pages. -/
theorem offset_of_page {x x' y y' : BitVec 32} (samePage : vpn x = vpn x')
    (samePage' : vpn y = vpn y') (low : y.extractLsb' 0 12 = x.extractLsb' 0 12)
    (low' : y'.extractLsb' 0 12 = x'.extractLsb' 0 12) : y' - y = x' - x := by
  have atX := toNat_eq_page x
  have atX' := toNat_eq_page x'
  have atY := toNat_eq_page y
  have atY' := toNat_eq_page y'
  rw [← samePage] at atX'
  rw [low, ← samePage'] at *
  rw [low'] at atY'
  apply BitVec.eq_of_toNat_eq
  rw [BitVec.toNat_sub, BitVec.toNat_sub]
  omega

namespace BusEnv

variable {w : Nat} (env : BusEnv w) (rw : Bool)

/-- Where in RAM a masked physical address is, if the mapping there is RAM. -/
def ramAt (phys : BitVec 32) : Option (BitVec 32) :=
  match (if rw then env.writeMapping else env.readMapping) (granule phys) with
  | some (.ram displacement) => some (phys + displacement)
  | _ => none

/-- Each address of an operand is translated to a place in RAM with marks elsewhere. -/
structure Reaches (operand : BitVec 32 → Prop) (place : BitVec 32 → BitVec 32)
    (mask : BitVec 32 → WordRam) (m : Mmu) : Prop where
  reach : ∀ a, operand a → ∃ phys, m.reach a rw = some (phys, mask a) ∧
    (m.cr0 >>> 31 = 0 ∨ phys ≠ 0xffffffff) ∧ env.ramAt rw (phys &&& env.rammask) = some (place a)
  apart : ∀ a b, operand a → operand b → mask b (WordRam.word (place a)) = 0

variable {env rw} {operand : BitVec 32 → Prop} {place : BitVec 32 → BitVec 32}
  {mask : BitVec 32 → WordRam} {m : Mmu} {a b phys p : BitVec 32} {k : WordRam}

theorem ramAt_eq (found : env.ramAt rw phys = some p) : ∃ d,
    (if rw then env.writeMapping else env.readMapping) (granule phys) = some (.ram d) ∧
      p = phys + d ∧ d &&& 0xfff = 0 := by
  unfold ramAt at found
  split at found
  · rename_i d mapped
    refine ⟨d, mapped, (Option.some.inj found).symm, env.byPages (granule phys) d ?_⟩
    cases rw
    · exact .inl mapped
    · exact .inr mapped
  · cases found

/-- The offset of a place in its page is that of the address. -/
theorem reach_place (found : m.reach a rw = some (phys, k))
    (inRam : env.ramAt rw (phys &&& env.rammask) = some p) :
    p.extractLsb' 0 12 = a.extractLsb' 0 12 := by
  obtain ⟨d, -, rfl, byPages⟩ := ramAt_eq inRam
  obtain ⟨phys', found', -, low⟩ := Mmu.reach_same_page rfl found
  obtain rfl : phys = phys' := congrArg Prod.fst (Option.some.inj (found.symm.trans found'))
  rw [add_low byPages, mask_low env.masksPages, low]

/-- A page of the operand is a page of RAM, with the same marks. -/
theorem reach_places {phys' p' : BitVec 32} {k' : WordRam} (samePage : vpn a = vpn b)
    (found : m.reach a rw = some (phys, k)) (found' : m.reach b rw = some (phys', k'))
    (inRam : env.ramAt rw (phys &&& env.rammask) = some p)
    (inRam' : env.ramAt rw (phys' &&& env.rammask) = some p') :
    k' = k ∧ vpn p' = vpn p ∧ p' - p = b - a := by
  obtain ⟨phys'', again, page, -⟩ := Mmu.reach_same_page samePage found
  obtain rfl : phys' = phys'' := congrArg Prod.fst (Option.some.inj (found'.symm.trans again))
  obtain rfl : k' = k := congrArg Prod.snd (Option.some.inj (found'.symm.trans again))
  obtain ⟨d, mapped, rfl, byPages⟩ := ramAt_eq inRam
  obtain ⟨d', mapped', rfl, byPages'⟩ := ramAt_eq inRam'
  have masked : vpn (phys' &&& env.rammask) = vpn (phys &&& env.rammask) :=
    mask_page page
  rw [granule_of_vpn masked, mapped] at mapped'
  obtain rfl : d = d' := Region.ram.inj (Option.some.inj mapped')
  have pages : vpn ((phys' &&& env.rammask) + d) = vpn ((phys &&& env.rammask) + d) :=
    add_page byPages masked
  exact ⟨rfl, pages, offset_of_page samePage pages.symm (reach_place found inRam)
    (reach_place found' inRam')⟩

theorem Reaches.low (reaches : env.Reaches rw operand place mask m) (inA : operand a) :
    (place a).extractLsb' 0 12 = a.extractLsb' 0 12 := by
  obtain ⟨phys, found, -, inRam⟩ := reaches.reach a inA
  exact reach_place found inRam

theorem Reaches.page (reaches : env.Reaches rw operand place mask m) (inA : operand a)
    (inB : operand b) (samePage : vpn a = vpn b) :
    mask b = mask a ∧ vpn (place b) = vpn (place a) ∧ place b = place a + (b - a) := by
  obtain ⟨phys, found, -, inRam⟩ := reaches.reach a inA
  obtain ⟨phys', found', -, inRam'⟩ := reaches.reach b inB
  obtain ⟨marks, page, distance⟩ := reach_places samePage found found' inRam inRam'
  refine ⟨marks, page, ?_⟩
  rw [← distance]
  bv_omega

/-- On the bus, too, the bytes of a page are consecutive. -/
theorem reach_bus (env : BusEnv w) {phys' : BitVec 32} {k' : WordRam} (samePage : vpn a = vpn b)
    (found : m.reach a rw = some (phys, k)) (found' : m.reach b rw = some (phys', k')) :
    vpn ((phys &&& env.rammask) + (b - a)) = vpn (phys &&& env.rammask) := by
  obtain ⟨again, found'', page, low'⟩ := Mmu.reach_same_page samePage found
  obtain rfl : phys' = again := congrArg Prod.fst (Option.some.inj (found'.symm.trans found''))
  obtain ⟨self, foundSelf, -, low⟩ := Mmu.reach_same_page rfl found
  obtain rfl : phys = self := congrArg Prod.fst (Option.some.inj (found.symm.trans foundSelf))
  have masked : vpn (phys' &&& env.rammask) = vpn (phys &&& env.rammask) :=
    mask_page page
  have distance : (phys' &&& env.rammask) - (phys &&& env.rammask) = b - a :=
    offset_of_page samePage masked.symm
      ((mask_low env.masksPages).trans low)
      ((mask_low env.masksPages).trans low')
  rw [← distance, BitVec.add_comm, BitVec.sub_add_cancel, masked]

/-- The operand is still reached when the entries it uses are alike. -/
theorem Reaches.withRam (reaches : env.Reaches rw operand place mask m) (ram : WordRam)
    (mmuPerm : BitVec 32)
    (alike : ∀ a, operand a → ∀ e, mask a e ≠ 0 → Alike (ram e) (m.ram e)) :
    env.Reaches rw operand place mask (m.withRam ram mmuPerm) where
  reach a inA := by
    obtain ⟨phys, found, real, inRam⟩ := reaches.reach a inA
    exact ⟨phys, Mmu.reach_of_alike ram mmuPerm found (alike a inA), real, inRam⟩
  apart := reaches.apart

theorem Reaches.marked (reaches : env.Reaches rw operand place mask m) (inA : operand a)
    (mmuPerm : BitVec 32) :
    env.Reaches rw operand place mask (m.withRam (WordRam.mark (mask a) m.ram) mmuPerm) := by
  obtain ⟨phys, found, -, -⟩ := reaches.reach a inA
  exact reaches.withRam _ mmuPerm fun b _ e _ => Mmu.alike_mark_reach found m.ram e

end BusEnv

/-! ## Bytes at their places -/

/-- The bytes of a number at the addresses from `a` on. -/
def bytesOf {n : Nat} (size : Nat) (a : BitVec 32) (v : BitVec n) :
    List (BitVec 32 × BitVec 8) :=
  (List.range size).map fun i => (a + BitVec.ofNat 32 i, v.extractLsb' (8 * i) 8)

theorem mem_bytesOf {n size : Nat} {a : BitVec 32} {v : BitVec n} {x : BitVec 32 × BitVec 8}
    (member : x ∈ bytesOf size a v) : ∃ i < size, x.1 = a + BitVec.ofNat 32 i := by
  obtain ⟨i, inRange, rfl⟩ := List.mem_map.mp member
  exact ⟨i, List.mem_range.mp inRange, rfl⟩

/-- The bytes of the halves. -/
theorem bytesOf_double {n size : Nat} (whole : n = 8 * size) (a : BitVec 32) (v : BitVec (n + n)) :
    bytesOf (size + size) a v = bytesOf size a (v.setWidth n) ++
      bytesOf size (a + BitVec.ofNat 32 size) ((v >>> n).setWidth n) := by
  rw [bytesOf, List.range_add, List.map_append, List.map_map]
  congr 1
  · apply List.map_congr_left
    intro i inRange
    have below := List.mem_range.mp inRange
    refine Prod.ext rfl (BitVec.eq_of_getLsbD_eq fun j inside => ?_)
    have narrow : 8 * i + j < n := by omega
    simp [inside, narrow]
  · apply List.map_congr_left
    intro i inRange
    have below := List.mem_range.mp inRange
    refine Prod.ext ?_ (BitVec.eq_of_getLsbD_eq fun j inside => ?_)
    · rw [Function.comp_apply, BitVec.add_assoc, BitVec.ofNat_add]
    · have narrow : 8 * i + j < n := by omega
      have place : 8 * (size + i) + j = n + (8 * i + j) := by omega
      simp [inside, narrow, place]

section

variable {operand : BitVec 32 → Prop} {place : BitVec 32 → BitVec 32}
  {mask : BitVec 32 → WordRam} {r : WordRam} {a b : BitVec 32}
  {l l' : List (BitVec 32 × BitVec 8)}

/-- Each byte is stored after the marks of its translation. -/
def puts (place : BitVec 32 → BitVec 32) (mask : BitVec 32 → WordRam)
    (l : List (BitVec 32 × BitVec 8)) (r : WordRam) : WordRam :=
  l.foldl (fun r x => (WordRam.mark (mask x.1) r).store8 (place x.1) x.2) r

theorem puts_append : puts place mask (l ++ l') r = puts place mask l' (puts place mask l r) :=
  List.foldl_append ..

/-- Marks may come first. -/
theorem mark_puts (apart : ∀ x ∈ l, mask b (WordRam.word (place x.1)) = 0) :
    WordRam.mark (mask b) (puts place mask l r) = puts place mask l (WordRam.mark (mask b) r) := by
  induction l generalizing r with
  | nil => rfl
  | cons x l ih =>
    refine (ih fun y inRest => apart y (.tail _ inRest)).trans ?_
    rw [WordRam.mark_store8 (apart x (.head _)), WordRam.mark_comm]
    rfl

/-- The marks of a byte that is stored are there. -/
theorem mark_puts_self (apart : ∀ x ∈ l, ∀ y ∈ l, mask x.1 (WordRam.word (place y.1)) = 0)
    {x : BitVec 32 × BitVec 8} (member : x ∈ l) :
    WordRam.mark (mask x.1) (puts place mask l r) = puts place mask l r := by
  induction l generalizing r with
  | nil => cases member
  | cons y l ih =>
    rcases List.mem_cons.mp member with rfl | inRest
    · have rest := mark_puts (r := (WordRam.mark (mask x.1) r).store8 (place x.1) x.2)
        fun z inRest => apart x (.head _) z (.tail _ inRest)
      refine rest.trans ?_
      rw [WordRam.mark_store8 (apart x (.head _) x (.head _)), WordRam.mark_self]
      rfl
    · exact ih (fun z inZ u inU => apart z (.tail _ inZ) u (.tail _ inU)) inRest

/-- Words that hold none of the bytes are only marked. -/
theorem puts_alike {e : BitVec 30} (elsewhere : ∀ x ∈ l, WordRam.word (place x.1) ≠ e)
    (marked : ∀ x ∈ l, ∀ r, Alike (WordRam.mark (mask x.1) r e) (r e)) :
    Alike (puts place mask l r e) (r e) := by
  induction l generalizing r with
  | nil => exact .refl
  | cons x l ih =>
    have rest := ih (r := (WordRam.mark (mask x.1) r).store8 (place x.1) x.2)
      (fun y inRest => elsewhere y (.tail _ inRest)) fun y inRest => marked y (.tail _ inRest)
    rw [WordRam.store8_of_ne (elsewhere x (.head _))] at rest
    exact rest.trans (marked x (.head _) r)

/-- A store, after the marks of its first byte, is that of its bytes where these are consecutive. -/
def StoresBytes (operand : BitVec 32 → Prop) (place : BitVec 32 → BitVec 32)
    (mask : BitVec 32 → WordRam) (size : Nat) {n : Nat}
    (store : WordRam → BitVec 32 → BitVec n → WordRam) : Prop :=
  ∀ r a v, (∀ i < size, operand (a + BitVec.ofNat 32 i)) →
    (∀ i < size, place (a + BitVec.ofNat 32 i) = place a + BitVec.ofNat 32 i ∧
      mask (a + BitVec.ofNat 32 i) = mask a) →
    store (WordRam.mark (mask a) r) (place a) v = puts place mask (bytesOf size a v) r

theorem bytesOf_one (a : BitVec 32) (v : BitVec 8) : bytesOf 1 a v = [(a, v)] := by
  have first : a + BitVec.ofNat 32 0 = a := BitVec.add_zero a
  have all : v.extractLsb' (8 * 0) 8 = v := by
    apply BitVec.eq_of_getLsbD_eq
    intro i inside
    simp [inside]
  simp only [bytesOf, List.range, List.range.loop, List.map, first, all]

theorem stores_one : StoresBytes operand place mask 1 WordRam.store8 := by
  intro r a v _ _
  rw [bytesOf_one]
  rfl

theorem stores_double {n size : Nat} {store : WordRam → BitVec 32 → BitVec n → WordRam}
    (half : StoresBytes operand place mask size store) (whole : n = 8 * size) (some : 0 < size)
    (apart : ∀ a b, operand a → operand b → mask b (WordRam.word (place a)) = 0) :
    StoresBytes operand place mask (size + size) fun r a (v : BitVec (n + n)) =>
      store (store r a (v.setWidth n)) (a + BitVec.ofNat 32 size) ((v >>> n).setWidth n) := by
  intro r a v inOperand consecutive
  have next (i : Nat) : a + BitVec.ofNat 32 size + BitVec.ofNat 32 i =
      a + BitVec.ofNat 32 (size + i) := by rw [BitVec.add_assoc, BitVec.ofNat_add]
  have first := half r a (v.setWidth n) (fun i below => inOperand i (by omega))
    fun i below => consecutive i (by omega)
  obtain ⟨placed, marks⟩ := consecutive size (by omega)
  have here : (a + BitVec.ofNat 32 0, (v.setWidth n).extractLsb' (8 * 0) 8) ∈
      bytesOf size a (v.setWidth n) :=
    List.mem_map.mpr ⟨0, List.mem_range.mpr some, rfl⟩
  -- the marks of the second half are there after the first
  have settled : WordRam.mark (mask (a + BitVec.ofNat 32 size))
      (puts place mask (bytesOf size a (v.setWidth n)) r) =
        puts place mask (bytesOf size a (v.setWidth n)) r := by
    rw [marks, ← (consecutive 0 (by omega)).2]
    refine mark_puts_self (fun x inX y inY => ?_) here
    obtain ⟨i, belowI, atX⟩ := mem_bytesOf inX
    obtain ⟨j, belowJ, atY⟩ := mem_bytesOf inY
    rw [atX, atY]
    exact apart _ _ (inOperand j (by omega)) (inOperand i (by omega))
  have second := half (puts place mask (bytesOf size a (v.setWidth n)) r)
    (a + BitVec.ofNat 32 size) ((v >>> n).setWidth n)
    (fun i below => next i ▸ inOperand (size + i) (by omega))
    (fun i below => by
      obtain ⟨placed', marks'⟩ := consecutive (size + i) (by omega)
      rw [next, placed, placed', marks', marks, BitVec.add_assoc, BitVec.ofNat_add]
      exact ⟨rfl, rfl⟩)
  dsimp only
  rw [first, bytesOf_double whole, puts_append, ← second, settled, placed]

end

/-! ## Lookup tables -/

theorem page_eq_of_vpn {a b : BitVec 32} (samePage : vpn a = vpn b) :
    a &&& ~~~0xfff#32 = b &&& ~~~0xfff#32 := by
  apply BitVec.eq_of_getLsbD_eq
  intro i inside
  simp only [BitVec.getLsbD_and, BitVec.getLsbD_not, Mmu.getLsbD_lowMask12 i inside]
  by_cases low : i < 12
  · simp [low]
  · have bit := congrArg (BitVec.getLsbD · (i - 12)) samePage
    have small : i - 12 < 20 := by omega
    have at' : 12 + (i - 12) = i := by omega
    simp only [vpn, BitVec.getLsbD_extractLsb', small, decide_true, Bool.true_and, at'] at bit
    rw [bit]

namespace BusEnv

variable {w : Nat} {env : BusEnv w} {operand : BitVec 32 → Prop}
  {place : BitVec 32 → BitVec 32} {mask : BitVec 32 → WordRam} {m : Mmu}
  {l : Lookups w} {r r' : WordRam} {a b q : BitVec 32}

/-- The pointer to a page reaches the offset of an address in it. -/
theorem hostIndex_target (samePage : vpn b = vpn a) :
    env.hostIndex (env.host.target q a) b = vpn q ++ b.extractLsb' 0 12 := by
  have narrow (x : BitVec 32) : (x.setWidth w).setWidth 32 = x :=
    (BitVec.setWidth_setWidth_of_le x env.wide).trans (BitVec.setWidth_eq x)
  have difference (x y : BitVec 32) : (x.setWidth w - y.setWidth w).setWidth 32 = x - y := by
    have back := BitVec.setWidth_add (x.setWidth w - y.setWidth w) (y.setWidth w) env.wide
    rw [BitVec.sub_add_cancel, narrow, narrow] at back
    exact (BitVec.eq_sub_iff_add_eq.mpr back.symm)
  have whole : (b &&& ~~~0xfff#32) + (b &&& 0xfff) = b := by
    rw [Mmu.physical_small]
    exact BitVec.eq_of_toNat_eq (by
      have at' := toNat_eq_page b
      rw [BitVec.toNat_append, ← Nat.shiftLeft_add_eq_or_of_lt (BitVec.isLt _), Nat.shiftLeft_eq]
      exact at'.symm)
  have cancelled :
      env.host.ram + ((q &&& ~~~0xfff#32).setWidth w - (a &&& ~~~0xfff#32).setWidth w) +
        b.setWidth w - env.host.ram =
        (q &&& ~~~0xfff#32).setWidth w - (a &&& ~~~0xfff#32).setWidth w + b.setWidth w := by
    rw [BitVec.add_assoc, BitVec.add_comm, BitVec.add_sub_cancel]
  rw [hostIndex, Host.target, cancelled, BitVec.setWidth_add _ _ env.wide, difference, narrow,
    ← page_eq_of_vpn samePage]
  calc (q &&& ~~~0xfff#32) - (b &&& ~~~0xfff#32) + b =
      (q &&& ~~~0xfff#32) - (b &&& ~~~0xfff#32) + ((b &&& ~~~0xfff#32) + (b &&& 0xfff)) := by
        rw [whole]
    _ = (q &&& ~~~0xfff#32) + (b &&& 0xfff) := by
        rw [← BitVec.add_assoc, BitVec.sub_add_cancel]
    _ = vpn q ++ b.extractLsb' 0 12 := Mmu.physical_small q

end BusEnv

end PCemWeb.Memory
