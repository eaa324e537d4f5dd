import PCemWeb.Codegen.WasmShifts

/-!
# When the shifts and rotates are right

The emitted code pushes a value and stores its low bits into the destination, so it is right when
these bits are the interpreter's. Each operation is compared bit by bit.
-/

namespace PCemWeb

open Lib I32Instr

/-! ## Operands -/

section Operands

variable {size : IregSize} {x v : BitVec 32} {i : Nat}

theorem IregSize.low_add_width_le (size : IregSize) : size.low + size.width ≤ 32 := by
  cases size <;> decide

theorem getLsbD_operand (inside : i < 32) :
    (size.operand x).getLsbD i = (decide (i < size.width) && x.getLsbD (size.low + i)) := by
  rw [IregSize.operand, BitVec.getLsbD_and, BitVec.getLsbD_ushiftRight, BitVec.getLsbD_ofNat,
    Nat.testBit_two_pow_sub_one, decide_eq_true inside, Bool.true_and, Bool.and_comm]

/-- The value of `e_dst`. -/
def insertAt (size : IregSize) (v x : BitVec 32) : BitVec 32 :=
  match size with
  | .l => v
  | .w => (v &&& 0xffff) ||| (x &&& 0xffff0000)
  | .b => (v &&& 0xff) ||| (x &&& 0xffffff00)
  | .bh => ((v &&& 0xff) <<< 8) ||| (x &&& 0xffff00ff)

theorem getLsbD_0xffff : ∀ i < 32, (0xffff : BitVec 32).getLsbD i = decide (i < 16) := by decide

theorem getLsbD_0xffff0000 : ∀ i < 32,
    (0xffff0000 : BitVec 32).getLsbD i = decide (16 ≤ i) := by decide

theorem getLsbD_0xff : ∀ i < 32, (0xff : BitVec 32).getLsbD i = decide (i < 8) := by decide

theorem getLsbD_0xffffff00 : ∀ i < 32,
    (0xffffff00 : BitVec 32).getLsbD i = decide (8 ≤ i) := by decide

theorem getLsbD_0xffff00ff : ∀ i < 32,
    (0xffff00ff : BitVec 32).getLsbD i = decide (i < 8 ∨ 16 ≤ i) := by decide

/-- The operand's bits come from the value, the others stay. -/
theorem getLsbD_insertAt (inside : i < 32) :
    (insertAt size v x).getLsbD i =
      if size.low ≤ i ∧ i < size.low + size.width then v.getLsbD (i - size.low)
      else x.getLsbD i := by
  cases size with
  | l => simp [insertAt, IregSize.low, IregSize.width, inside]
  | w =>
    simp only [insertAt, BitVec.getLsbD_or, BitVec.getLsbD_and, getLsbD_0xffff i inside,
      getLsbD_0xffff0000 i inside, IregSize.low, IregSize.width]
    grind
  | b =>
    simp only [insertAt, BitVec.getLsbD_or, BitVec.getLsbD_and, getLsbD_0xff i inside,
      getLsbD_0xffffff00 i inside, IregSize.low, IregSize.width]
    grind
  | bh =>
    simp only [insertAt, BitVec.getLsbD_or, BitVec.getLsbD_and, BitVec.getLsbD_shiftLeft,
      getLsbD_0xff (i - 8) (by omega), getLsbD_0xffff00ff i inside, IregSize.low, IregSize.width,
      inside]
    grind

theorem eSrc_pushes (locals : WLoc → BitVec 32) (r : Ireg) :
    Pushes (eSrc r) locals (r.size.operand (locals (.int r.reg))) locals := by
  intro stack
  obtain ⟨reg, size⟩ := r
  cases size with
  | l =>
    have whole : IregSize.operand .l (locals (.int reg)) = locals (.int reg) := by
      apply BitVec.eq_of_getLsbD_eq
      intro i inside
      rw [getLsbD_operand inside]
      simp [IregSize.low, IregSize.width, inside]
    rw [whole]
    rfl
  | w => rfl
  | b => rfl
  | bh => rfl

theorem eDst_pops (locals : WLoc → BitVec 32) (r : Ireg) (v : BitVec 32) :
    Pops (eDst r) locals v
      (Function.update locals (.int r.reg) (insertAt r.size v (locals (.int r.reg)))) := by
  intro stack
  obtain ⟨reg, size⟩ := r
  cases size <;> rfl

end Operands

/-! ## The value before it is stored -/

section Stored

variable {op : ShiftOp} {u : ShiftUop} {locals locals' : WLoc → BitVec 32} {code : WCode}
  {v : BitVec 32}

/-- Code that pushes a value and stores it is right when the value has the interpreter's bits. -/
theorem shiftsRight_iff_bits (sameSize : u.dest.size = u.src.size)
    (emitted : codegenShift op u = some (code ++ eDst u.dest))
      (pushes : Pushes code locals v locals')
    (kept : ∀ hr, locals' (.int hr) = locals (.int hr)) :
    ShiftsRight op u locals ↔ ∀ i < u.src.size.width, v.getLsbD i =
      (opShift op u.src.size (u.src.size.operand (locals (.int u.src.reg)))
        (u.amount.value locals).toNat).getLsbD i := by
  have ran := pushes.pops (eDst_pops locals' u.dest v) []
  have width := u.dest.size.low_add_width_le
  constructor
  · rintro ⟨code', locals'', emitted', ran', replaces⟩ i inside
    obtain rfl := Option.some.inj (emitted.symm.trans emitted')
    obtain rfl : _ = locals'' := congrArg Prod.snd (Option.some.inj (ran.symm.trans ran'))
    rw [← sameSize] at inside
    have bit := replaces.inside i inside
    dsimp only at bit
    rw [Function.update_self, getLsbD_insertAt (by omega), if_pos (by omega),
      Nat.add_sub_cancel_left] at bit
    exact bit
  · intro bits
    refine ⟨_, _, emitted, ran, ?_, ?_, ?_⟩
    · intro i inside
      rw [Function.update_self, getLsbD_insertAt (by omega), if_pos (by omega),
        Nat.add_sub_cancel_left]
      exact bits i (sameSize ▸ inside)
    · intro i inside apart
      rw [Function.update_self, getLsbD_insertAt inside, if_neg apart, kept]
    · intro hr other
      rw [Function.update_of_ne (by simpa using other), kept]

theorem emit_pushes (amount : ShiftAmount) :
    Pushes amount.emit locals (amount.value locals) locals := by
  cases amount with
  | imm v => exact pushes_const
  | reg hr => exact pushes_get

variable {size : IregSize} {x k : BitVec 32} {c i : Nat}

theorem width_le (size : IregSize) : size.width ≤ 32 := by cases size <;> decide

/-! ## Bits of the interpreter's values -/

theorem getLsbD_opShift_shl (inside : i < size.width) :
    (opShift .shl size (size.operand x) c).getLsbD i =
      (decide (c ≤ i) && x.getLsbD (size.low + (i - c))) := by
  have width := width_le size
  rcases eq_or_ne c 0 with rfl | nonzero
  · rw [opShift, if_pos rfl, getLsbD_operand (by omega), decide_eq_true inside]
    simp
  · rw [opShift, if_neg nonzero, BitVec.getLsbD_shiftLeft, decide_eq_true (show i < 32 by omega)]
    rcases Nat.lt_or_ge i c with low | high
    · simp [low, Nat.not_le_of_lt low]
    · rw [getLsbD_operand (by omega), decide_eq_true (show i - c < size.width by omega)]
      simp [high, Nat.not_lt_of_le high]

theorem getLsbD_opShift_shr (inside : i < size.width) :
    (opShift .shr size (size.operand x) c).getLsbD i =
      (decide (i + c < size.width) && x.getLsbD (size.low + (i + c))) := by
  have width := width_le size
  rcases eq_or_ne c 0 with rfl | nonzero
  · rw [opShift, if_pos rfl, getLsbD_operand (by omega)]
    simp
  · rw [opShift, if_neg nonzero, BitVec.getLsbD_ushiftRight, Nat.add_comm c i]
    rcases Nat.lt_or_ge (i + c) 32 with low | high
    · rw [getLsbD_operand low]
    · rw [BitVec.getLsbD_of_ge _ _ high, decide_eq_false (by omega), Bool.false_and]

/-- The sign extension of an operand repeats its top bit. -/
theorem getLsbD_signed {j : Nat} (inside : j < 32) :
    (((size.operand x).setWidth size.width).signExtend 32).getLsbD j =
      x.getLsbD (size.low + if j < size.width then j else size.width - 1) := by
  have width := width_le size
  have pos : 0 < size.width := by cases size <;> decide
  rw [BitVec.getLsbD_signExtend, decide_eq_true inside, Bool.true_and]
  split
  case isTrue low =>
    rw [BitVec.getLsbD_setWidth, decide_eq_true low, Bool.true_and, getLsbD_operand inside,
      decide_eq_true low, Bool.true_and]
  case isFalse high =>
    rw [BitVec.msb_eq_getLsbD_last, BitVec.getLsbD_setWidth, decide_eq_true (by omega),
      Bool.true_and, getLsbD_operand (by omega), decide_eq_true (by omega), Bool.true_and]

theorem getLsbD_opShift_sar (inside : i < size.width) :
    (opShift .sar size (size.operand x) c).getLsbD i =
      x.getLsbD (size.low + if i + c < size.width then i + c else size.width - 1) := by
  have width := width_le size
  rcases eq_or_ne c 0 with rfl | nonzero
  · rw [opShift, if_pos rfl, getLsbD_operand (by omega)]
    simp [inside]
  · rw [opShift, if_neg nonzero, BitVec.getLsbD_sshiftRight, decide_eq_false
      (show ¬ 32 ≤ i by omega), Bool.not_false,
      Bool.true_and, Nat.add_comm c i]
    split
    case isTrue near => rw [getLsbD_signed near]
    case isFalse far =>
      have last : (if 32 - 1 < size.width then 32 - 1 else size.width - 1) = size.width - 1 := by
        split <;> omega
      rw [BitVec.msb_eq_getLsbD_last, getLsbD_signed (by decide), last, if_neg (by omega)]

/-- A rotate moves each bit by `n` places, around the end of the operand. -/
theorem getLsbD_rotated {n : Nat} (inside : i < size.width) (less : n < size.width) :
    (((size.operand x) <<< n) ||| ((size.operand x) >>> (size.width - n))).getLsbD i =
      x.getLsbD (size.low + (if n ≤ i then i - n else i + size.width - n)) := by
  have width := width_le size
  rw [BitVec.getLsbD_or, BitVec.getLsbD_shiftLeft, BitVec.getLsbD_ushiftRight,
    decide_eq_true (show i < 32 by omega), Bool.true_and]
  split
  case isTrue low =>
    rw [decide_eq_false (Nat.not_lt_of_le low), getLsbD_operand (by omega),
      decide_eq_true (show i - n < size.width by omega)]
    rcases Nat.lt_or_ge (size.width - n + i) 32 with near | far
    · rw [getLsbD_operand near, decide_eq_false (by omega)]
      simp
    · rw [BitVec.getLsbD_of_ge _ _ far]
      simp
  case isFalse high =>
    have around : (size.operand x).getLsbD (size.width - n + i) =
        x.getLsbD (size.low + (size.width - n + i)) := by
      rw [getLsbD_operand (by omega), decide_eq_true (by omega), Bool.true_and]
    rw [decide_eq_true (Nat.lt_of_not_le high), around,
      show i + size.width - n = size.width - n + i by omega]
    simp

theorem toNat_and_width (c : Nat) : c &&& (size.width - 1) = c % size.width := by
  cases size
  · exact Nat.and_two_pow_sub_one_eq_mod c 5
  · exact Nat.and_two_pow_sub_one_eq_mod c 4
  · exact Nat.and_two_pow_sub_one_eq_mod c 3
  · exact Nat.and_two_pow_sub_one_eq_mod c 3

theorem reduced_count (few : c < 32) :
    (if size = .l then c else c &&& (size.width - 1)) = c % size.width := by
  split
  case isTrue long => subst long; exact (Nat.mod_eq_of_lt few).symm
  case isFalse => exact toNat_and_width c

theorem getLsbD_opShift_rol (few : c < 32) (inside : i < size.width) :
    (opShift .rol size (size.operand x) c).getLsbD i =
      x.getLsbD (size.low + (i + (size.width - c % size.width)) % size.width) := by
  have width := width_le size
  have less := Nat.mod_lt c (show 0 < size.width by omega)
  rcases eq_or_ne c 0 with rfl | nonzero
  · rw [opShift, if_pos rfl, getLsbD_operand (by omega), decide_eq_true inside, Nat.zero_mod,
      Nat.sub_zero, Nat.add_mod_right, Nat.mod_eq_of_lt inside, Bool.true_and]
  · rw [opShift, if_neg nonzero, reduced_count few]
    rw [getLsbD_rotated inside less]
    split
    case isTrue low =>
      rw [show i + (size.width - c % size.width) = i - c % size.width + size.width by omega,
        Nat.add_mod_right, Nat.mod_eq_of_lt (show i - c % size.width < size.width by omega)]
    case isFalse high =>
      rw [Nat.add_sub_assoc (Nat.le_of_lt less), Nat.mod_eq_of_lt
        (show i + (size.width - c % size.width) < size.width by omega)]

theorem getLsbD_opShift_ror (few : c < 32) (inside : i < size.width) :
    (opShift .ror size (size.operand x) c).getLsbD i =
      x.getLsbD (size.low + (i + c % size.width) % size.width) := by
  have width := width_le size
  have less := Nat.mod_lt c (show 0 < size.width by omega)
  rcases eq_or_ne c 0 with rfl | nonzero
  · rw [opShift, if_pos rfl, getLsbD_operand (by omega), decide_eq_true inside, Nat.zero_mod,
      Nat.add_zero, Nat.mod_eq_of_lt inside, Bool.true_and]
  · rw [opShift, if_neg nonzero, reduced_count few]
    rcases Nat.eq_zero_or_pos (c % size.width) with none | some
    · rw [none, Nat.sub_zero, Nat.add_zero, Nat.mod_eq_of_lt inside, BitVec.getLsbD_or,
        BitVec.getLsbD_shiftLeft, decide_eq_true inside, BitVec.ushiftRight_zero,
        getLsbD_operand (by omega), decide_eq_true inside]
      simp
    · -- a rotate right by `n` is one left by the rest of the width
      have turned := getLsbD_rotated (x := x) inside (show size.width - c % size.width < size.width
        by omega)
      rw [show size.width - (size.width - c % size.width) = c % size.width by omega] at turned
      rw [BitVec.or_comm, turned]
      split
      case isTrue low =>
        rw [show i + c % size.width = i - (size.width - c % size.width) + size.width by omega,
          Nat.add_mod_right, Nat.mod_eq_of_lt
            (show i - (size.width - c % size.width) < size.width by omega)]
      case isFalse high =>
        rw [Nat.mod_eq_of_lt (show i + c % size.width < size.width by omega)]
        congr 2
        omega

/-! ## Bits of the emitted values -/

/-- Both halves of the doubled operand are the operand. -/
theorem getLsbD_doubled {j : Nat} (small : size ≠ .l) (inside : j < 2 * size.width) :
    (((size.operand x) <<< ((rotWidth size).toNat % 32)) ||| size.operand x).getLsbD j =
      x.getLsbD (size.low + j % size.width) := by
  have places : (rotWidth size).toNat % 32 = size.width := by
    cases size
    · exact absurd rfl small
    all_goals rfl
  have half : 2 * size.width ≤ 32 := by
    cases size
    · exact absurd rfl small
    all_goals decide
  rw [places, BitVec.getLsbD_or, BitVec.getLsbD_shiftLeft, decide_eq_true (show j < 32 by omega),
    Bool.true_and, getLsbD_operand (show j < 32 by omega)]
  rcases Nat.lt_or_ge j size.width with low | high
  · rw [decide_eq_true low, Nat.mod_eq_of_lt low]
    simp
  · rw [getLsbD_operand (by omega), decide_eq_true (show j - size.width < size.width by omega),
      decide_eq_false (Nat.not_lt_of_le high), Nat.mod_eq_sub_mod high,
      Nat.mod_eq_of_lt (show j - size.width < size.width by omega)]
    simp

/-- An operand aligned to the top, shifted and brought back. -/
theorem getLsbD_aligned {pre post : Nat} (bottom : post = pre + size.low)
    (top : post + size.width = 32) (inside : i < size.width) :
    (((x <<< pre).sshiftRight c) >>> post).getLsbD i =
      x.getLsbD (size.low + if i + c < size.width then i + c else size.width - 1) := by
  have shifted : ∀ {j : Nat}, pre ≤ j → j < 32 → (x <<< pre).getLsbD j = x.getLsbD (j - pre) := by
    intro j above below
    rw [BitVec.getLsbD_shiftLeft, decide_eq_true below, decide_eq_false (Nat.not_lt_of_le above)]
    simp
  rw [BitVec.getLsbD_ushiftRight, BitVec.getLsbD_sshiftRight,
    decide_eq_false (show ¬ 32 ≤ post + i by omega), Bool.not_false, Bool.true_and]
  rcases Nat.lt_or_ge (i + c) size.width with near | far
  · rw [if_pos (show c + (post + i) < 32 by omega), if_pos near, shifted (by omega) (by omega)]
    congr 1
    omega
  · rw [if_neg (show ¬ c + (post + i) < 32 by omega), if_neg (Nat.not_lt_of_le far),
      BitVec.msb_eq_getLsbD_last, shifted (by omega) (by omega)]
    congr 1
    omega

/-! ## The emitted values -/

theorem pushes_shl (count : (u.amount.value locals).toNat = c) (few : c < 32) :
    Pushes ((if u.src.size = .bh then eSrc u.src else [.get (.int u.src.reg)]) ++
      u.amount.emit ++ [.op .shl]) locals
      ((if u.src.size = .bh then u.src.size.operand (locals (.int u.src.reg))
        else locals (.int u.src.reg)) <<< c) locals := by
  have source : Pushes (if u.src.size = .bh then eSrc u.src else [.get (.int u.src.reg)]) locals
      (if u.src.size = .bh then u.src.size.operand (locals (.int u.src.reg))
        else locals (.int u.src.reg)) locals := by
    split
    case isTrue => exact eSrc_pushes locals u.src
    case isFalse => exact pushes_get
  have shifted := source.binary (o := .shl) (emit_pushes u.amount)
  rw [I32Op.eval, count, Nat.mod_eq_of_lt few] at shifted
  exact shifted

theorem pushes_shr (count : (u.amount.value locals).toNat = c) (few : c < 32) :
    Pushes (eSrc u.src ++ u.amount.emit ++ [.op .shrU]) locals
      ((u.src.size.operand (locals (.int u.src.reg))) >>> c) locals := by
  have shifted := (eSrc_pushes locals u.src).binary (o := .shrU) (emit_pushes u.amount)
  rw [I32Op.eval, count, Nat.mod_eq_of_lt few] at shifted
  exact shifted

/-- A shift by a constant, left out when it is 0. -/
theorem pushes_shift_const {o : I32Op} {v : BitVec 32} (first : Pushes code locals v locals')
    (idle : o.eval v 0 = v) :
    Pushes (code ++ if k ≠ 0 then [.const k, .op o] else []) locals (o.eval v k) locals' := by
  split
  case isTrue =>
    have shifted := first.binary (o := o) (pushes_const (v := k))
    rw [List.append_assoc] at shifted
    exact shifted
  case isFalse zero =>
    rw [List.append_nil, not_not.mp zero, idle]
    exact first

theorem pushes_sar (count : (u.amount.value locals).toNat = c) (few : c < 32) :
    Pushes ([.get (.int u.src.reg)] ++ (if u.sarPre ≠ 0 then [.const u.sarPre, .op .shl] else []) ++
      u.amount.emit ++ [.op .shrS] ++
      if u.sarPost ≠ 0 then [.const u.sarPost, .op .shrU] else []) locals
      ((((locals (.int u.src.reg)) <<< (u.sarPre.toNat % 32)).sshiftRight c) >>>
        (u.sarPost.toNat % 32)) locals := by
  have aligned := pushes_shift_const (k := u.sarPre) (o := .shl)
    (@pushes_get WLoc _ locals (.int u.src.reg)) (BitVec.shiftLeft_zero _)
  have shifted := aligned.binary (o := .shrS) (emit_pushes u.amount)
  have realigned := pushes_shift_const (k := u.sarPost) (o := .shrU) shifted
    (BitVec.ushiftRight_zero _)
  simp only [I32Op.eval, count, Nat.mod_eq_of_lt few] at realigned
  exact realigned

/-- The places by which the doubled operand is shifted. -/
def ShiftUop.rotPlaces (u : ShiftUop) (left : Bool) (c : Nat) : Nat :=
  if left then
    if u.amount.isImm = false ∧ u.src.size = .w then (48 - c) % 32
    else (u.src.size.width - c % u.src.size.width) % u.src.size.width
  else c % u.src.size.width

theorem toNat_and_rotWidth (small : size ≠ .l) (v : BitVec 32) :
    (v &&& (rotWidth size - 1)).toNat = v.toNat % size.width := by
  have ones : (rotWidth size - 1).toNat = size.width - 1 := by
    cases size
    · exact absurd rfl small
    all_goals rfl
  rw [BitVec.toNat_and, ones, toNat_and_width]

theorem toNat_rotWidth (small : size ≠ .l) : (rotWidth size).toNat = size.width := by
  cases size
  · exact absurd rfl small
  all_goals rfl

/-- The places of an immediate rotate to the left. -/
theorem toNat_places (small : size ≠ .l) (v : BitVec 32) :
    ((rotWidth size - (v &&& (rotWidth size - 1))) &&& (rotWidth size - 1)).toNat =
      (size.width - v.toNat % size.width) % size.width := by
  have width := width_le size
  have less := Nat.mod_lt v.toNat (show 0 < size.width by cases size <;> decide)
  rw [toNat_and_rotWidth small, BitVec.toNat_sub, toNat_and_rotWidth small, toNat_rotWidth small]
  congr 1
  omega

theorem pushes_rotAmount (left : Bool) (small : u.src.size ≠ .l)
    (count : (u.amount.value locals).toNat = c) (few : c < 32) :
    ∃ a, Pushes (u.rotAmount left) locals a locals ∧ a.toNat % 32 = u.rotPlaces left c := by
  have width := width_le u.src.size
  have less (n : Nat) := Nat.mod_lt n (show 0 < u.src.size.width by cases u.src.size <;> decide)
  obtain ⟨dest, ⟨reg, size⟩, amount⟩ := u
  dsimp only at small count width less
  cases left with
  | false =>
    refine ⟨amount.value locals &&& (rotWidth size - 1), ?_, ?_⟩
    · cases amount with
      | imm v => exact pushes_const
      | reg hr => exact pushes_get.binary pushes_const
    · rw [toNat_and_rotWidth small, count]
      exact Nat.mod_eq_of_lt (Nat.lt_of_lt_of_le (less c) width)
  | true =>
    cases amount with
    | imm v =>
      refine ⟨_, pushes_const, ?_⟩
      dsimp only
      rw [toNat_places small, show v.toNat = c from count]
      exact Nat.mod_eq_of_lt (Nat.lt_of_lt_of_le (less _) width)
    | reg hr =>
      have subtracted : Pushes [.const (rotWidth size), .get (.int hr), .op .sub] locals
          (rotWidth size - locals (.int hr)) locals := pushes_const.binary pushes_get
      have value : (locals (.int hr)).toNat = c := count
      cases size with
      | l => exact absurd rfl small
      | w =>
        refine ⟨_, subtracted, ?_⟩
        rw [BitVec.toNat_sub, value]
        change (2 ^ 32 - c + 16) % 2 ^ 32 % 32 = (48 - c) % 32
        omega
      | b | bh =>
        refine ⟨_, subtracted.binary pushes_const, ?_⟩
        change ((8 - locals (.int hr)) &&& (rotWidth .b - 1)).toNat % 32 = (8 - c % 8) % 8
        rw [toNat_and_rotWidth (by decide), BitVec.toNat_sub, value]
        change (2 ^ 32 - c + 8) % 2 ^ 32 % 8 % 32 = (8 - c % 8) % 8
        omega

theorem pushes_rot_small (left : Bool) (small : u.src.size ≠ .l)
    (count : (u.amount.value locals).toNat = c) (few : c < 32) :
    ∃ locals', (∀ hr, locals' (.int hr) = locals (.int hr)) ∧
      Pushes (eSrc u.src ++ [.tee .scratch] ++ [.const (rotWidth u.src.size)] ++ [.op .shl] ++
        [.get .scratch] ++ [.op .or] ++ u.rotAmount left ++ [.op .shrU]) locals
        ((((u.src.size.operand (locals (.int u.src.reg))) <<<
            ((rotWidth u.src.size).toNat % 32)) |||
          u.src.size.operand (locals (.int u.src.reg))) >>> u.rotPlaces left c) locals' := by
  have saved := (eSrc_pushes locals u.src).tee (x := .scratch)
  have kept : ∀ hr, Function.update locals .scratch (u.src.size.operand (locals (.int u.src.reg)))
      (.int hr) = locals (.int hr) := fun hr => Function.update_of_ne (by simp) _ _
  have sameCount : u.amount.value
      (Function.update locals .scratch (u.src.size.operand (locals (.int u.src.reg)))) =
        u.amount.value locals := by
    cases h : u.amount with
    | imm v => rfl
    | reg hr => exact kept hr
  obtain ⟨a, pushesAmount, places⟩ := pushes_rotAmount left small
    ((congrArg BitVec.toNat sameCount).trans count) few
  have doubled := ((saved.binary (o := .shl) (pushes_const (v := rotWidth u.src.size))).binary
    (o := .or)
    (pushes_get (x := .scratch))).binary (o := .shrU) pushesAmount
  rw [Function.update_self] at doubled
  refine ⟨_, kept, ?_⟩
  rw [← places]
  exact doubled

/-! ## Each operation -/

theorem shiftsRight_shl (sameSize : u.dest.size = u.src.size)
    (few : (u.amount.value locals).toNat < 32) : ShiftsRight .shl u locals := by
  have emitted : codegenShift .shl u = some u.shl := if_pos sameSize
  rw [shiftsRight_iff_bits sameSize emitted (pushes_shl rfl few) (fun _ => rfl)]
  intro i inside
  have width := width_le u.src.size
  rw [getLsbD_opShift_shl inside, BitVec.getLsbD_shiftLeft, decide_eq_true (show i < 32 by omega),
    Bool.true_and]
  rcases Nat.lt_or_ge i (u.amount.value locals).toNat with low | high
  · rw [decide_eq_true low, decide_eq_false (Nat.not_le_of_lt low)]
    rfl
  · rw [decide_eq_false (Nat.not_lt_of_le high), decide_eq_true high]
    split
    case isTrue => rw [getLsbD_operand (by omega), decide_eq_true (by omega)]; simp
    case isFalse lowByte =>
      have bottom : u.src.size.low = 0 := by
        cases h : u.src.size
        case bh => exact absurd h lowByte
        all_goals rfl
      rw [bottom, Nat.zero_add]
      rfl

theorem shiftsRight_shr (sameSize : u.dest.size = u.src.size)
    (few : (u.amount.value locals).toNat < 32) : ShiftsRight .shr u locals := by
  have emitted : codegenShift .shr u = some u.shr := if_pos sameSize
  rw [shiftsRight_iff_bits sameSize emitted (pushes_shr rfl few) (fun _ => rfl)]
  intro i inside
  have width := width_le u.src.size
  rw [getLsbD_opShift_shr inside, BitVec.getLsbD_ushiftRight, Nat.add_comm _ i]
  rcases Nat.lt_or_ge (i + (u.amount.value locals).toNat) 32 with near | far
  · rw [getLsbD_operand near]
  · rw [BitVec.getLsbD_of_ge _ _ far, decide_eq_false (by omega), Bool.false_and]

theorem shiftsRight_sar (sameSize : u.dest.size = u.src.size)
    (few : (u.amount.value locals).toNat < 32) : ShiftsRight .sar u locals := by
  have emitted : codegenShift .sar u = some u.sar := if_pos sameSize
  rw [shiftsRight_iff_bits sameSize emitted (pushes_sar rfl few) (fun _ => rfl)]
  intro i inside
  rw [getLsbD_opShift_sar inside]
  apply getLsbD_aligned _ _ inside
  · rw [ShiftUop.sarPost, ShiftUop.sarPre]
    cases u.src.size <;> rfl
  · rw [ShiftUop.sarPost]
    cases u.src.size <;> rfl

/-- The place from which a rotate takes bit `i`. -/
def rotFrom (left : Bool) (width c i : Nat) : Nat :=
  if left then (i + (width - c % width)) % width else (i + c % width) % width

theorem getLsbD_opShift_rot {left : Bool} (few : c < 32) (inside : i < size.width) :
    (opShift (if left then .rol else .ror) size (size.operand x) c).getLsbD i =
      x.getLsbD (size.low + rotFrom left size.width c i) := by
  cases left with
  | false => exact getLsbD_opShift_ror few inside
  | true => exact getLsbD_opShift_rol few inside

/-- The native rotates. -/
theorem getLsbD_rotate {left : Bool} (few : v.toNat < 32) (inside : i < 32) :
    ((if left then I32Op.rotl else I32Op.rotr).eval x v).getLsbD i =
      x.getLsbD (rotFrom left 32 v.toNat i) := by
  cases left with
  | false =>
    change (x.rotateRight (v.toNat % 32)).getLsbD i = x.getLsbD ((i + v.toNat % 32) % 32)
    rw [Nat.mod_eq_of_lt few, BitVec.getLsbD_rotateRight_of_lt few, decide_eq_true inside,
      Bool.true_and]
    rcases Nat.lt_or_ge i (32 - v.toNat) with low | high
    · rw [decide_eq_true low, cond_true]
      congr 1
      omega
    · rw [decide_eq_false (Nat.not_lt_of_le high), cond_false]
      congr 1
      omega
  | true =>
    change (x.rotateLeft (v.toNat % 32)).getLsbD i = x.getLsbD ((i + (32 - v.toNat % 32)) % 32)
    rw [Nat.mod_eq_of_lt few, BitVec.getLsbD_rotateLeft_of_le few, decide_eq_true inside,
      Bool.true_and]
    rcases Nat.lt_or_ge i v.toNat with low | high
    · rw [decide_eq_true low, cond_true]
      congr 1
      omega
    · rw [decide_eq_false (Nat.not_lt_of_le high), cond_false]
      congr 1
      omega

/-- A rotate of a doubled operand by at most its width. -/
theorem getLsbD_doubled_shifted {a : Nat} (small : size ≠ .l)
    (near : a + i < 2 * size.width) :
    ((((size.operand x) <<< ((rotWidth size).toNat % 32)) ||| size.operand x) >>> a).getLsbD i =
      x.getLsbD (size.low + (a + i) % size.width) := by
  rw [BitVec.getLsbD_ushiftRight, getLsbD_doubled small near]

/-- A 16-bit rotate to the left by a register of more than 16 has lost low bits of the operand. -/
def Overrotated (op : ShiftOp) (u : ShiftUop) (locals : WLoc → BitVec 32) : Prop :=
  op = .rol ∧ u.amount.isImm = false ∧ u.src.size = .w ∧ 16 < (u.amount.value locals).toNat ∧
    ∃ j < 32 - (u.amount.value locals).toNat, (locals (.int u.src.reg)).getLsbD j = true

theorem shiftsRight_rot_long {left : Bool} (sameSize : u.dest.size = u.src.size)
    (long : u.src.size = .l) (few : (u.amount.value locals).toNat < 32)
    (emitted : codegenShift (if left then .rol else .ror) u = some (u.rotCommon left)) :
    ShiftsRight (if left then .rol else .ror) u locals := by
  have emittedLong : u.rotCommon left = [.get (.int u.src.reg)] ++ u.amount.emit ++
      [.op (if left then .rotl else .rotr)] ++ eDst u.dest := if_pos long
  rw [emittedLong] at emitted
  rw [shiftsRight_iff_bits sameSize emitted (pushes_get.binary (emit_pushes u.amount))
    (fun _ => rfl)]
  intro i inside
  rw [getLsbD_opShift_rot few inside]
  rw [long] at inside ⊢
  rw [getLsbD_rotate few inside]
  exact congrArg _ (Nat.zero_add _).symm

/-- A rotate by 0 is a move. -/
theorem shiftsRight_rot_move {left : Bool} (sameSize : u.dest.size = u.src.size)
    (few : (u.amount.value locals).toNat < 32)
    (whole : (u.amount.value locals).toNat % u.src.size.width = 0)
    (emitted : codegenShift (if left then .rol else .ror) u = some (eSrc u.src ++ eDst u.dest)) :
    ShiftsRight (if left then .rol else .ror) u locals := by
  rw [shiftsRight_iff_bits sameSize emitted (eSrc_pushes locals u.src) (fun _ => rfl)]
  intro i inside
  have width := width_le u.src.size
  have here : rotFrom left u.src.size.width (u.amount.value locals).toNat i = i := by
    rw [rotFrom, whole, Nat.sub_zero, Nat.add_mod_right, Nat.add_zero, Nat.mod_eq_of_lt inside,
      ite_self]
  rw [getLsbD_opShift_rot few inside, here, getLsbD_operand (by omega), decide_eq_true inside,
    Bool.true_and]

theorem shiftsRight_rot_small_iff {left : Bool} (sameSize : u.dest.size = u.src.size)
    (small : u.src.size ≠ .l) (few : (u.amount.value locals).toNat < 32)
    (emitted : codegenShift (if left then .rol else .ror) u = some (u.rotCommon left)) :
    ShiftsRight (if left then .rol else .ror) u locals ↔ ∀ i < u.src.size.width,
      ((((u.src.size.operand (locals (.int u.src.reg))) <<<
          ((rotWidth u.src.size).toNat % 32)) |||
        u.src.size.operand (locals (.int u.src.reg))) >>>
          u.rotPlaces left (u.amount.value locals).toNat).getLsbD i =
      (locals (.int u.src.reg)).getLsbD (u.src.size.low +
        rotFrom left u.src.size.width (u.amount.value locals).toNat i) := by
  have emittedSmall : u.rotCommon left = _ := if_neg small
  rw [emittedSmall] at emitted
  obtain ⟨locals', kept, pushes⟩ := pushes_rot_small left small rfl few
  rw [shiftsRight_iff_bits sameSize emitted pushes kept]
  apply forall₂_congr
  intro i inside
  rw [getLsbD_opShift_rot few inside]

theorem rot_places {left : Bool} {i c : Nat} (inside : i < u.src.size.width)
    (masked : ¬ (left = true ∧ u.amount.isImm = false ∧ u.src.size = .w)) :
    u.rotPlaces left c + i < 2 * u.src.size.width ∧
      (u.rotPlaces left c + i) % u.src.size.width = rotFrom left u.src.size.width c i := by
  have less := Nat.mod_lt c (show 0 < u.src.size.width by omega)
  cases left with
  | false =>
    have places : u.rotPlaces false c = c % u.src.size.width := rfl
    rw [places, Nat.add_comm _ i]
    exact ⟨by omega, rfl⟩
  | true =>
    have places : u.rotPlaces true c =
        (u.src.size.width - c % u.src.size.width) % u.src.size.width :=
      if_neg (not_and.mp masked rfl)
    have less' := Nat.mod_lt (u.src.size.width - c % u.src.size.width)
      (show 0 < u.src.size.width by omega)
    rw [places]
    refine ⟨by omega, ?_⟩
    rw [Nat.mod_add_mod, Nat.add_comm _ i]
    rfl

theorem shiftsRight_rot_masked {left : Bool} (sameSize : u.dest.size = u.src.size)
    (small : u.src.size ≠ .l) (few : (u.amount.value locals).toNat < 32)
    (emitted : codegenShift (if left then .rol else .ror) u = some (u.rotCommon left))
    (masked : ¬ (left = true ∧ u.amount.isImm = false ∧ u.src.size = .w)) :
    ShiftsRight (if left then .rol else .ror) u locals := by
  rw [shiftsRight_rot_small_iff sameSize small few emitted]
  intro i inside
  obtain ⟨near, same⟩ := rot_places (c := (u.amount.value locals).toNat) inside masked
  rw [getLsbD_doubled_shifted small near, same]

/-- Bits moved in from beyond the doubled operand are 0. -/
theorem getLsbD_beyond {a : Nat} (v : BitVec 32) (far : 32 ≤ a + i) :
    (v >>> a).getLsbD i = false := by
  rw [BitVec.getLsbD_ushiftRight, BitVec.getLsbD_of_ge _ _ far]

theorem shiftsRight_rol_word_iff (sameSize : u.dest.size = u.src.size) (word : u.src.size = .w)
    (register : u.amount.isImm = false) (few : (u.amount.value locals).toNat < 32)
    (emitted : codegenShift .rol u = some (u.rotCommon true)) :
    ShiftsRight .rol u locals ↔ ¬ Overrotated .rol u locals := by
  have small : u.src.size ≠ .l := by simp [word]
  have places : u.rotPlaces true (u.amount.value locals).toNat =
      (48 - (u.amount.value locals).toNat) % 32 := by
    rw [ShiftUop.rotPlaces, if_pos rfl, if_pos ⟨register, word⟩]
  rw [show ShiftsRight .rol u locals ↔ _ from
    @shiftsRight_rot_small_iff u locals true sameSize small few emitted, places, Overrotated]
  generalize (u.amount.value locals).toNat = c at few
  rw [word, register]
  constructor
  · rintro bits ⟨-, -, -, many, j, low, set⟩
    -- the bit that belongs at the place `j + c - 16` is lost
    have bit := bits (j + c - 16) (by change _ < 16; omega)
    rw [getLsbD_beyond _ (by omega), show rotFrom true IregSize.w.width c (j + c - 16) = j by
      change (j + c - 16 + (16 - c % 16)) % 16 = j
      omega, show IregSize.w.low + j = j from Nat.zero_add j, set] at bit
    cases bit
  · intro unharmed i inside
    have inside : i < 16 := inside
    rcases Nat.lt_or_ge ((48 - c) % 32 + i) 32 with near | far
    · rw [getLsbD_doubled_shifted (by decide) near]
      congr 2
      change ((48 - c) % 32 + i) % 16 = (i + (16 - c % 16)) % 16
      omega
    · rw [getLsbD_beyond _ far]
      have lost := not_exists.mp (fun set => unharmed ⟨rfl, rfl, rfl, by omega, set⟩)
        (i + 16 - c)
      rw [show rotFrom true IregSize.w.width c i = i + 16 - c by
        change (i + (16 - c % 16)) % 16 = _
        omega, show IregSize.w.low + (i + 16 - c) = i + 16 - c from Nat.zero_add _]
      exact (Bool.eq_false_iff.mpr fun set => lost ⟨by omega, set⟩).symm

/-- Either a move by 0 or the common code. -/
theorem rot_cases (left : Bool) : (u.rot left = eSrc u.src ++ eDst u.dest ∧
      u.amount.isImm = true ∧ (u.amount.value locals).toNat % u.src.size.width = 0) ∨
    u.rot left = u.rotCommon left := by
  obtain ⟨dest, src, amount⟩ := u
  cases amount with
  | reg hr => exact Or.inr rfl
  | imm v =>
    rcases eq_or_ne (v &&& ((if src.size = .l then 32 else rotWidth src.size) - 1)) 0
      with zero | nonzero
    · refine Or.inl ⟨if_pos zero, rfl, ?_⟩
      have zero := congrArg BitVec.toNat zero
      by_cases long : src.size = .l
      · rw [if_pos long, BitVec.toNat_and] at zero
        rw [long]
        exact (Nat.and_two_pow_sub_one_eq_mod v.toNat 5).symm.trans zero
      · rw [if_neg long, toNat_and_rotWidth long] at zero
        exact zero
    · exact Or.inr (if_neg nonzero)

theorem shiftsRight_rot_iff {left : Bool} (sameSize : u.dest.size = u.src.size)
    (few : (u.amount.value locals).toNat < 32) :
    ShiftsRight (if left then .rol else .ror) u locals ↔
      ¬ Overrotated (if left then .rol else .ror) u locals := by
  have emitted : codegenShift (if left then .rol else .ror) u = some (u.rot left) := by
    cases left
    · exact if_pos sameSize
    · exact if_pos sameSize
  rcases @rot_cases u locals left with ⟨move, immediate, whole⟩ | common
  · rw [move] at emitted
    refine iff_of_true (shiftsRight_rot_move sameSize few whole emitted) ?_
    rintro ⟨-, register, -⟩
    rw [immediate] at register
    cases register
  rw [common] at emitted
  by_cases long : u.src.size = .l
  · refine iff_of_true (shiftsRight_rot_long sameSize long few emitted) ?_
    rintro ⟨-, -, word, -⟩
    rw [long] at word
    cases word
  by_cases unmasked : left = true ∧ u.amount.isImm = false ∧ u.src.size = .w
  · obtain ⟨rfl, register, word⟩ := unmasked
    exact shiftsRight_rol_word_iff sameSize word register few emitted
  · refine iff_of_true (shiftsRight_rot_masked sameSize long few emitted unmasked) ?_
    rintro ⟨isRol, register, word, -⟩
    cases left with
    | false => cases isRol
    | true => exact unmasked ⟨rfl, register, word⟩

end Stored

/-- The emitted shifts and rotates of every size are the interpreter's, but for the 16-bit rotate to
the left by a register, whose amount is not reduced: from 17 on it loses the low bits. -/
theorem shiftsRight_iff (op : ShiftOp) (u : ShiftUop) (locals : WLoc → BitVec 32)
    (sameSize : u.dest.size = u.src.size) (few : (u.amount.value locals).toNat ≤ 31) :
    ShiftsRight op u locals ↔ ¬ Overrotated op u locals := by
  have few : (u.amount.value locals).toNat < 32 := Nat.lt_succ_of_le few
  cases op with
  | shl => exact iff_of_true (shiftsRight_shl sameSize few) (fun lost => nomatch lost.1)
  | shr => exact iff_of_true (shiftsRight_shr sameSize few) (fun lost => nomatch lost.1)
  | sar => exact iff_of_true (shiftsRight_sar sameSize few) (fun lost => nomatch lost.1)
  | rol => exact @shiftsRight_rot_iff u locals true sameSize few
  | ror => exact @shiftsRight_rot_iff u locals false sameSize few

/-- `ROL AX, CL` with `AX` in the host register 0 and the count in the host register 1. -/
def rolAxCl : ShiftUop := ⟨⟨0, .w⟩, ⟨0, .w⟩, .reg 1⟩

/-- Both host registers, and 0 elsewhere. -/
def axCl (ax cl : BitVec 32) : WLoc → BitVec 32
  | .int 0 => ax
  | .int 1 => cl
  | _ => 0

theorem shiftsRight_iff_rolAxCl : ShiftsRight .rol rolAxCl (axCl 0x8001 12) :=
  (shiftsRight_iff .rol rolAxCl (axCl 0x8001 12) rfl (by decide)).mpr
    fun lost => absurd lost.2.2.2.1 (by decide)

/-- By 17 the rotate of 1 must give 2. -/
theorem not_shiftsRight_rolAxCl : ¬ ∀ op u locals, u.dest.size = u.src.size →
    (u.amount.value locals).toNat ≤ 31 → ShiftsRight op u locals := by
  intro right
  have overrotated : Overrotated .rol rolAxCl (axCl 1 17) :=
    ⟨rfl, rfl, rfl, by decide, 0, by decide, by decide⟩
  exact (shiftsRight_rol_word_iff rfl rfl rfl (by decide) rfl).mp
    (right .rol rolAxCl (axCl 1 17) rfl (by decide)) overrotated

end PCemWeb
