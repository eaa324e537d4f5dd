import PCemWeb.Cpu.Division

/-!
# What the division helpers store

The instruction set's own account of a division, over the integers, and the dividends for which
the helpers' wide host division is not defined.
-/

namespace PCemWeb

open Lib

/-! ## The instruction -/

namespace DivHelper

/-- A word read as the helper's signedness says. -/
def value (h : DivHelper) {w : Nat} (v : BitVec w) : Int := if h.signed then v.toInt else v.toNat

/-- The quotient is one of the destination's values. -/
def Fits (h : DivHelper) (quotient : Int) : Prop :=
  if h.signed then FitsSigned h.sz.bits quotient else FitsUnsigned h.sz.bits quotient

end DivHelper

/-- The double-width dividend: `AX`, `DX:AX` or `EDX:EAX`. -/
def dividend (regs : Fin 8 → BitVec 32) : (sz : Size) → BitVec (sz.bits + sz.bits)
  | .b8 => regAX regs
  | .b16 => regDX regs ++ regAX regs
  | .b32 => regEDX regs ++ regEAX regs

/-- A division of `n` by `d` ends as the instruction does: `x86_int(0)` is entered with the
registers untouched, exactly where the divisor is zero or the quotient does not fit; elsewhere the
exact quotient and remainder are stored. -/
inductive Divided {M : Type} (h : DivHelper) (n d : Int) (s : DivCpu M) :
    Option (DivExit M) → Prop
  | error (bad : d = 0 ∨ ¬h.Fits (n.tdiv d)) : Divided h n d s (some (.divideError s))
  | stored (q r : BitVec h.sz.bits) (fl : FlagState) (nonzero : d ≠ 0) (fits : h.Fits (n.tdiv d))
      (quotient : h.value q = n.tdiv d) (remainder : h.value r = n.tmod d) :
      Divided h n d s (some (.returns { s with regs := storeDivided s.regs h.sz q r, fl := fl }))

section Exact

variable {M : Type} (readmem : ReadMem M) (cpuIscyrix : Bool)
variable (src : GrpSrc) (segBase nextPc : BitVec 32) (s : DivCpu M)

/-- The operand of the instruction, unless its read faults. -/
def divOperand (sz : Size) : Option (BitVec sz.bits) :=
  match src with
  | .reg r => some (getr s.regs sz r)
  | .mem => (readmem sz s.mem segBase s.eaaddr).2

/-- The machine when the operand has been read. -/
def divFetched (sz : Size) : DivCpu M :=
  { s with
    pc := nextPc
    mem := match src with
      | .reg _ => s.mem
      | .mem => (readmem sz s.mem segBase s.eaaddr).1 }

/-- A helper does what the instruction does, and no host division on the way is undefined. -/
def DivisionExact (h : DivHelper) : Prop :=
  match divOperand readmem src segBase s h.sz with
  | none =>
      h.run readmem cpuIscyrix src segBase nextPc s =
        some (.faulted (divFetched readmem src segBase nextPc s h.sz))
  | some dst =>
      Divided h (h.value (dividend s.regs h.sz)) (h.value dst)
        (divFetched readmem src segBase nextPc s h.sz)
        (h.run readmem cpuIscyrix src segBase nextPc s)

/-- A signed word or long division of the most negative dividend by minus one. -/
def HostOverflow (h : DivHelper) : Prop :=
  h.signed = true ∧ h.sz ≠ .b8 ∧ dividend s.regs h.sz = BitVec.intMin (h.sz.bits + h.sz.bits) ∧
    divOperand readmem src segBase s h.sz = some (-1)

end Exact

/-! ## Registers -/

theorem setAL_setAH (regs : Fin 8 → BitVec 32) (q r : BitVec 8) :
    setAL (setAH regs r) q = storeDivided regs .b8 q r := by
  funext i
  by_cases ax : i = 0
  · subst ax
    simp only [setAL, setAH, storeDivided, if_true]
    have upper : ((regs 0).extractLsb' 16 16 ++ r ++ (regs 0).setWidth 8).extractLsb' 8 24 =
        (regs 0).extractLsb' 16 16 ++ r := BitVec.extractLsb'_append_eq_left
    rw [upper]
    exact BitVec.append_assoc
  · rw [setAL, if_neg ax, setAH, if_neg ax]
    exact (if_neg ax).symm

theorem setw_setw (regs : Fin 8 → BitVec 32) (q r : BitVec 16) :
    setw (setw regs 2 r) 0 q = storeDivided regs .b16 q r := by
  funext i
  by_cases ax : i = 0
  · subst ax
    rfl
  · rw [setw, if_neg ax, setw]
    exact (if_neg ax).symm

theorem setl_setl (regs : Fin 8 → BitVec 32) (q r : BitVec 32) :
    setl (setl regs 2 r) 0 q = storeDivided regs .b32 q r := rfl

/-- `(DX << 16) | AX` and `(EDX << 32) | EAX`. -/
theorem shiftLeft_or_eq_append {w : Nat} (x y : BitVec w) :
    x.setWidth (w + w) <<< w ||| y.setWidth (w + w) = x ++ y := by
  rw [← BitVec.setWidth_append_eq_shiftLeft_setWidth_or, BitVec.setWidth_eq]

/-! ## The fetch -/

section Fetch

variable {M : Type} (readmem : ReadMem M) (src : GrpSrc) (segBase nextPc : BitVec 32)
  (s : DivCpu M) (sz : Size)

theorem wjitGrpFetch_eq :
    wjitGrpFetch readmem src segBase nextPc s sz =
      match divOperand readmem src segBase s sz with
      | none => .error (divFetched readmem src segBase nextPc s sz)
      | some dst => .ok (dst, divFetched readmem src segBase nextPc s sz) := by
  cases src with
  | reg r => rfl
  | mem =>
    simp only [wjitGrpFetch, divOperand, divFetched]
    rcases readmem sz s.mem segBase s.eaaddr with ⟨mem, _ | dst⟩ <;> rfl

end Fetch

/-! ## The six helpers -/

section Helpers

variable {M : Type} {readmem : ReadMem M} {cpuIscyrix : Bool}
variable {src : GrpSrc} {segBase nextPc : BitVec 32} {s s' : DivCpu M}

theorem wjitGrpDivB_divided {dst : BitVec 8}
    (fetched : wjitGrpFetch readmem src segBase nextPc s .b8 = .ok (dst, s')) :
    Divided ⟨false, .b8⟩ (regAX s'.regs).toNat dst.toNat s'
      (wjitGrpDivB readmem cpuIscyrix src segBase nextPc s) := by
  rw [wjitGrpDivB, fetched]
  dsimp only
  by_cases zero : dst = 0
  · rw [if_neg (not_not.mpr zero), Option.bind_eq_bind, Option.bind_some,
      if_neg fun both => both.1 zero]
    exact .error (.inl (by rw [zero]; rfl))
  · obtain ⟨q, r, divided, left, quotient, cast, remainder⟩ :=
      unsignedDivision (w := 8) (by decide) ((regAX s'.regs).setWidth 32) dst zero
    obtain ⟨promoted, promotedRem⟩ :=
      hostSDiv_promoted (W := 32) (by decide) (by decide) (regAX s'.regs) dst
    rw [BitVec.toNat_setWidth_of_le (w := 16) (by decide)] at quotient cast remainder
    have small : q.toNat < 65536 := by
      have bound := Nat.div_le_self (regAX s'.regs).toNat dst.toNat
      have held := (regAX s'.regs).isLt
      rw [← Int.ofNat_tdiv] at quotient
      omega
    have fits : q.setWidth 16 &&& 0xff00 = 0 ↔
        FitsUnsigned 8 (((regAX s'.regs).toNat : Int).tdiv dst.toNat) := by
      rw [show (0xff00 : BitVec 16) = BitVec.allOnes 16 <<< 8 by decide, and_upper_eq_zero_iff,
        BitVec.toNat_setWidth, Nat.mod_eq_of_lt small, quotient]
    rw [if_pos zero, promoted, promotedRem, divided, left]
    simp only [Option.map_some, Option.bind_eq_bind, Option.bind_some]
    rw [setWidth_and_low (w := 8) q 0xff (by decide), setAL_setAH]
    split
    · rename_i both
      have good := fits.mp both.2
      exact .stored _ _ _ (toNat_ne_zero zero) good (cast good) remainder
    · rename_i bad
      exact .error (.inr fun good => bad ⟨zero, fits.mpr good⟩)

theorem wjitGrpIdivB_divided {dst : BitVec 8}
    (fetched : wjitGrpFetch readmem src segBase nextPc s .b8 = .ok (dst, s')) :
    Divided ⟨true, .b8⟩ (regAX s'.regs).toInt dst.toInt s'
      (wjitGrpIdivB readmem cpuIscyrix src segBase nextPc s) := by
  rw [wjitGrpIdivB, fetched]
  dsimp only
  by_cases zero : dst = 0
  · rw [if_neg (not_not.mpr zero), Option.bind_eq_bind, Option.bind_some,
      if_neg fun both => both.1 zero]
    exact .error (.inl (by rw [zero]; rfl))
  · -- a sign-extended word is never the most negative `int`
    have inside : ¬((regAX s'.regs).signExtend 32 = BitVec.intMin 32 ∧ dst = -1) := by
      rintro ⟨most, -⟩
      have least := BitVec.le_toInt (regAX s'.regs)
      rw [← BitVec.toInt_signExtend_of_le (v := 32) (by decide), most] at least
      revert least
      decide
    obtain ⟨q, r, divided, left, fits, cast, remainder⟩ :=
      signedDivision (w := 8) (by decide) (by decide)
        ((regAX s'.regs).signExtend 32) dst zero inside
    rw [BitVec.toInt_signExtend_of_le (by decide)] at fits cast remainder
    rw [if_pos zero, divided, left]
    simp only [Option.bind_eq_bind, Option.bind_some]
    rw [setWidth_and_low (w := 8) q 0xff (by decide), setWidth_and_low (w := 8) r 0xff (by decide),
      setAL_setAH]
    split
    · rename_i both
      have good := fits.mp both.2
      exact .stored _ _ _ (toInt_ne_zero zero) good (cast good) remainder
    · rename_i bad
      exact .error (.inr fun good => bad ⟨zero, fits.mpr good⟩)

theorem wjitGrpDivW_divided {dst : BitVec 16}
    (fetched : wjitGrpFetch readmem src segBase nextPc s .b16 = .ok (dst, s')) :
    Divided ⟨false, .b16⟩ (regDX s'.regs ++ regAX s'.regs : BitVec 32).toNat dst.toNat s'
      (wjitGrpDivW readmem cpuIscyrix src segBase nextPc s) := by
  rw [wjitGrpDivW, fetched]
  dsimp only
  rw [shiftLeft_or_eq_append (w := 16)]
  generalize (regDX s'.regs ++ regAX s'.regs : BitVec 32) = n
  by_cases zero : dst = 0
  · rw [if_neg (not_not.mpr zero), Option.bind_eq_bind, Option.bind_some,
      if_neg fun both => both.1 zero]
    exact .error (.inl (by rw [zero]; rfl))
  · obtain ⟨q, r, divided, left, quotient, cast, remainder⟩ :=
      unsignedDivision (by decide) n dst zero
    have fits : q &&& 0xffff0000 = 0 ↔ FitsUnsigned 16 ((n.toNat : Int).tdiv dst.toNat) := by
      rw [show (0xffff0000 : BitVec 32) = BitVec.allOnes 32 <<< 16 by decide,
        and_upper_eq_zero_iff, quotient]
    rw [if_pos zero, divided, left]
    simp only [Option.bind_eq_bind, Option.bind_some]
    rw [setWidth_and_low (w := 16) q 0xffff (by decide), setw_setw]
    split
    · rename_i both
      have good := fits.mp both.2
      exact .stored _ _ _ (toNat_ne_zero zero) good (cast good) remainder
    · rename_i bad
      exact .error (.inr fun good => bad ⟨zero, fits.mpr good⟩)

theorem wjitGrpIdivW_divided {dst : BitVec 16}
    (fetched : wjitGrpFetch readmem src segBase nextPc s .b16 = .ok (dst, s'))
    (inside : ¬((regDX s'.regs ++ regAX s'.regs : BitVec 32) = BitVec.intMin 32 ∧ dst = -1)) :
    Divided ⟨true, .b16⟩ (regDX s'.regs ++ regAX s'.regs : BitVec 32).toInt dst.toInt s'
      (wjitGrpIdivW readmem cpuIscyrix src segBase nextPc s) := by
  rw [wjitGrpIdivW, fetched]
  dsimp only
  rw [shiftLeft_or_eq_append (w := 16)]
  generalize (regDX s'.regs ++ regAX s'.regs : BitVec 32) = n at inside ⊢
  by_cases zero : dst = 0
  · rw [if_neg (not_not.mpr zero), Option.bind_eq_bind, Option.bind_some,
      if_neg fun both => both.1 zero]
    exact .error (.inl (by rw [zero]; rfl))
  · obtain ⟨q, r, divided, left, fits, cast, remainder⟩ :=
      signedDivision (by decide) (by decide) n dst zero inside
    rw [if_pos zero, divided, left]
    simp only [Option.bind_eq_bind, Option.bind_some]
    rw [setWidth_and_low (w := 16) q 0xffff (by decide), setw_setw]
    split
    · rename_i both
      have good := fits.mp both.2
      exact .stored _ _ _ (toInt_ne_zero zero) good (cast good) remainder
    · rename_i bad
      exact .error (.inr fun good => bad ⟨zero, fits.mpr good⟩)

/-- A word dividend of `-2^31` divided by minus one does not get past the host division. -/
theorem wjitGrpIdivW_traps
    (fetched : wjitGrpFetch readmem src segBase nextPc s .b16 = .ok ((-1 : BitVec 16), s'))
    (most : (regDX s'.regs ++ regAX s'.regs : BitVec 32) = BitVec.intMin 32) :
    wjitGrpIdivW readmem cpuIscyrix src segBase nextPc s = none := by
  rw [wjitGrpIdivW, fetched]
  dsimp only
  rw [shiftLeft_or_eq_append (w := 16), most, if_pos (by decide),
    hostSDiv_of_overflow rfl (by decide)]
  rfl

theorem wjitGrpDivL_divided {dst : BitVec 32}
    (fetched : wjitGrpFetch readmem src segBase nextPc s .b32 = .ok (dst, s')) :
    Divided ⟨false, .b32⟩ (regEDX s'.regs ++ regEAX s'.regs : BitVec 64).toNat dst.toNat s'
      (wjitGrpDivL readmem cpuIscyrix src segBase nextPc s) := by
  rw [wjitGrpDivL, wjitGrpLong, fetched]
  dsimp only
  rw [divl, shiftLeft_or_eq_append (w := 32)]
  dsimp only
  generalize (regEDX s'.regs ++ regEAX s'.regs : BitVec 64) = n
  by_cases zero : dst = 0
  · rw [if_pos zero, Option.bind_eq_bind, Option.bind_some]
    exact .error (.inl (by rw [zero]; rfl))
  · obtain ⟨q, r, divided, left, quotient, cast, remainder⟩ :=
      unsignedDivision (W := 64) (by decide) n dst zero
    have fits : q = (q.setWidth 32).setWidth 64 ↔
        FitsUnsigned 32 ((n.toNat : Int).tdiv dst.toNat) := by
      rw [setWidth_setWidth_eq_iff, quotient]
    rw [if_neg zero, divided, left]
    simp only [Option.bind_eq_bind, Option.bind_some]
    rw [setWidth_and_low (w := 32) q 0xffffffff (by decide), setl_setl]
    by_cases same : q = (q.setWidth 32).setWidth 64
    · have good := fits.mp same
      rw [if_neg (not_not.mpr same), Option.bind_some]
      exact .stored _ _ _ (toNat_ne_zero zero) good (cast good) remainder
    · rw [if_pos same, Option.bind_some]
      exact .error (.inr fun good => same (fits.mpr good))

theorem wjitGrpIdivL_divided {dst : BitVec 32}
    (fetched : wjitGrpFetch readmem src segBase nextPc s .b32 = .ok (dst, s'))
    (inside : ¬((regEDX s'.regs ++ regEAX s'.regs : BitVec 64) = BitVec.intMin 64 ∧ dst = -1)) :
    Divided ⟨true, .b32⟩ (regEDX s'.regs ++ regEAX s'.regs : BitVec 64).toInt dst.toInt s'
      (wjitGrpIdivL readmem cpuIscyrix src segBase nextPc s) := by
  rw [wjitGrpIdivL, wjitGrpLong, fetched]
  dsimp only
  rw [idivl, shiftLeft_or_eq_append (w := 32)]
  dsimp only
  generalize (regEDX s'.regs ++ regEAX s'.regs : BitVec 64) = n at inside ⊢
  by_cases zero : dst = 0
  · rw [if_pos zero, Option.bind_eq_bind, Option.bind_some]
    exact .error (.inl (by rw [zero]; rfl))
  · obtain ⟨q, r, divided, left, fits, cast, remainder⟩ :=
      signedDivision (W := 64) (by decide) (by decide) n dst zero inside
    rw [if_neg zero, divided, left]
    simp only [Option.bind_eq_bind, Option.bind_some]
    rw [setWidth_and_low (w := 32) q 0xffffffff (by decide), setl_setl]
    by_cases same : (q.setWidth 32).signExtend 64 = q
    · have good := fits.mp same
      rw [if_neg (not_not.mpr same.symm), Option.bind_some]
      exact .stored _ _ _ (toInt_ne_zero zero) good (cast good) remainder
    · rw [if_pos (Ne.symm same), Option.bind_some]
      exact .error (.inr fun good => same (fits.mpr good))

/-- A long dividend of `-2^63` divided by minus one does not either. -/
theorem wjitGrpIdivL_traps
    (fetched : wjitGrpFetch readmem src segBase nextPc s .b32 = .ok ((-1 : BitVec 32), s'))
    (most : (regEDX s'.regs ++ regEAX s'.regs : BitVec 64) = BitVec.intMin 64) :
    wjitGrpIdivL readmem cpuIscyrix src segBase nextPc s = none := by
  rw [wjitGrpIdivL, wjitGrpLong, fetched]
  dsimp only
  rw [idivl, shiftLeft_or_eq_append (w := 32), most, if_neg (by decide)]
  dsimp only
  rw [hostSDiv_of_overflow rfl (by decide)]
  rfl

end Helpers

/-! ## When no host division traps -/

section Iff

variable {M : Type} (readmem : ReadMem M) (cpuIscyrix : Bool)
variable (src : GrpSrc) (segBase nextPc : BitVec 32) (s : DivCpu M)

theorem not_divided_none {h : DivHelper} {n d : Int} {s : DivCpu M} : ¬Divided h n d s none := by
  intro ended
  cases ended

theorem wjitGrpFetch_of_operand {sz : Size} {dst : BitVec sz.bits}
    (read : divOperand readmem src segBase s sz = some dst) :
    wjitGrpFetch readmem src segBase nextPc s sz =
      .ok (dst, divFetched readmem src segBase nextPc s sz) := by
  rw [wjitGrpFetch_eq, read]

theorem divisionExact_of_fault (h : DivHelper)
    (fault : divOperand readmem src segBase s h.sz = none) :
    h.run readmem cpuIscyrix src segBase nextPc s =
      some (.faulted (divFetched readmem src segBase nextPc s h.sz)) := by
  obtain ⟨signed, sz⟩ := h
  have fetched := wjitGrpFetch_eq readmem src segBase nextPc s sz
  rw [fault] at fetched
  cases sz with
  | b8 =>
    cases signed with
    | false => rw [DivHelper.run, wjitGrpDivB, fetched]
    | true => rw [DivHelper.run, wjitGrpIdivB, fetched]
  | b16 =>
    cases signed with
    | false => rw [DivHelper.run, wjitGrpDivW, fetched]
    | true => rw [DivHelper.run, wjitGrpIdivW, fetched]
  | b32 =>
    cases signed with
    | false => rw [DivHelper.run, wjitGrpDivL, wjitGrpLong, fetched]
    | true => rw [DivHelper.run, wjitGrpIdivL, wjitGrpLong, fetched]

theorem not_divisionExact_of_overflow (h : DivHelper)
    (overflow : HostOverflow readmem src segBase s h) :
    ¬DivisionExact readmem cpuIscyrix src segBase nextPc s h := by
  obtain ⟨signed, wide, most, read⟩ := overflow
  intro exact
  rw [DivisionExact, read] at exact
  dsimp only at exact
  have fetched := wjitGrpFetch_of_operand readmem src segBase nextPc s read
  obtain ⟨_, sz⟩ := h
  cases signed
  cases sz with
  | b8 => exact wide rfl
  | b16 =>
    have none : wjitGrpIdivW readmem cpuIscyrix src segBase nextPc s = none :=
      wjitGrpIdivW_traps fetched most
    rw [DivHelper.run, none] at exact
    exact not_divided_none exact
  | b32 =>
    have none : wjitGrpIdivL readmem cpuIscyrix src segBase nextPc s = none :=
      wjitGrpIdivL_traps fetched most
    rw [DivHelper.run, none] at exact
    exact not_divided_none exact

theorem divisionExact_of_inside (h : DivHelper)
    (inside : ¬HostOverflow readmem src segBase s h) :
    DivisionExact readmem cpuIscyrix src segBase nextPc s h := by
  rw [DivisionExact]
  cases read : divOperand readmem src segBase s h.sz with
  | none => exact divisionExact_of_fault readmem cpuIscyrix src segBase nextPc s h read
  | some dst =>
    dsimp only
    have fetched := wjitGrpFetch_of_operand readmem src segBase nextPc s read
    obtain ⟨signed, sz⟩ := h
    cases sz with
    | b8 =>
      cases signed with
      | false => exact wjitGrpDivB_divided fetched
      | true => exact wjitGrpIdivB_divided fetched
    | b16 =>
      cases signed with
      | false => exact wjitGrpDivW_divided fetched
      | true =>
        apply wjitGrpIdivW_divided fetched
        rintro ⟨most, rfl⟩
        exact inside ⟨rfl, by decide, most, read⟩
    | b32 =>
      cases signed with
      | false => exact wjitGrpDivL_divided fetched
      | true =>
        apply wjitGrpIdivL_divided fetched
        rintro ⟨most, rfl⟩
        exact inside ⟨rfl, by decide, most, read⟩

/-- A division helper does what the instruction does, without an undefined host division, unless it
is `idiv` at 16 or 32 bits of the most negative dividend by minus one. -/
theorem divisionExact_iff (h : DivHelper) :
    DivisionExact readmem cpuIscyrix src segBase nextPc s h ↔
      ¬HostOverflow readmem src segBase s h := by
  constructor
  · intro exact overflow
    exact not_divisionExact_of_overflow readmem cpuIscyrix src segBase nextPc s h overflow exact
  · exact divisionExact_of_inside readmem cpuIscyrix src segBase nextPc s h

/-- `idiv cx` with `DX:AX` at `-2^31` and `CX` at minus one. -/
theorem not_divisionExact_minusOne :
    ¬∀ s : DivCpu Unit,
      DivisionExact (fun _ mem _ _ => (mem, none)) false (.reg 1) 0 0 s ⟨true, .b16⟩ := by
  intro always
  let fl : FlagState := ⟨.unknown, 0, 0, 0, 2⟩
  let s : DivCpu Unit :=
    ⟨fun i => if i = 2 then 0x8000 else if i = 1 then 0xffff else 0, 0, 0, fl, ()⟩
  apply not_divisionExact_of_overflow _ _ _ _ _ s _ _ (always s)
  exact ⟨rfl, by decide, by decide, by decide⟩

end Iff

end PCemWeb
