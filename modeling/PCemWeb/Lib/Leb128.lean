import Mathlib.Tactic.Common

/-!
# Unsigned LEB128

A number is written seven bits at a time, the lowest first, and each byte but the last has its
top bit set. The encoding may be longer than needed, as long as the last byte's bits are there.
`decodeUnsigned` reads a number of a given width, which bounds the bytes and the bits of the last.
-/

namespace PCemWeb.Lib

/-- The number at the head of some bytes, and the bytes after it. -/
def decodeUleb : List UInt8 → Option (Nat × List UInt8)
  | [] => none
  | b :: rest =>
    if b.toNat < 128 then some (b.toNat, rest)
    else (decodeUleb rest).map fun (n, rest) => (b.toNat - 128 + 128 * n, rest)

/-- A number in `more + 1` bytes. -/
def paddedUleb : (more n : Nat) → List UInt8
  | 0, n => [UInt8.ofNat (n % 128)]
  | more + 1, n => UInt8.ofNat (128 + n % 128) :: paddedUleb more (n / 128)

/-- How many numbers fit in `more + 1` bytes. -/
def paddedRange : (more : Nat) → Nat
  | 0 => 128
  | more + 1 => 128 * paddedRange more

theorem length_paddedUleb (more n : Nat) : (paddedUleb more n).length = more + 1 := by
  induction more generalizing n with
  | zero => rfl
  | succ more ih => rw [paddedUleb, List.length_cons, ih]

theorem toNat_ofNat_of_lt {n : Nat} (bound : n < 256) : (UInt8.ofNat n).toNat = n := by
  rw [UInt8.toNat_ofNat']
  exact Nat.mod_eq_of_lt bound

/-- A padded number is read back. -/
theorem decodeUleb_paddedUleb {more n : Nat} (fits : n < paddedRange more) (rest : List UInt8) :
    decodeUleb (paddedUleb more n ++ rest) = some (n, rest) := by
  induction more generalizing n with
  | zero =>
    have small : n < 128 := fits
    have byte : (UInt8.ofNat (n % 128)).toNat = n := by
      rw [toNat_ofNat_of_lt (by omega), Nat.mod_eq_of_lt small]
    simp only [paddedUleb, List.cons_append, List.nil_append, decodeUleb, byte, if_pos small]
  | succ more ih =>
    have byte : (UInt8.ofNat (128 + n % 128)).toNat = 128 + n % 128 :=
      toNat_ofNat_of_lt (by omega)
    have continued : ¬128 + n % 128 < 128 := by omega
    have high : n / 128 < paddedRange more := by
      rw [paddedRange] at fits
      exact Nat.div_lt_of_lt_mul fits
    simp only [paddedUleb, List.cons_append, decodeUleb, byte, if_neg continued, ih high,
      Option.map_some]
    congr 2
    omega

/-! ## Numbers of a given width -/

/-- A number of at most `bits` bits at the head of some bytes, and the bytes after it. -/
def decodeUnsigned : (bits : Nat) → List UInt8 → Option (Nat × List UInt8)
  | _, [] => none
  | bits, b :: rest =>
    if b.toNat < 128 then if b.toNat < 1 <<< bits then some (b.toNat, rest) else none
    else if bits ≤ 7 then none
    else (decodeUnsigned (bits - 7) rest).map fun (n, rest) => (b.toNat - 128 + 128 * n, rest)

/-- A number in as few bytes as it takes, at most `more + 1`. -/
def uleb : (more n : Nat) → List UInt8
  | 0, n => [UInt8.ofNat (n % 128)]
  | more + 1, n =>
    if n < 128 then [UInt8.ofNat n] else UInt8.ofNat (128 + n % 128) :: uleb more (n / 128)

theorem length_uleb_le_more (more n : Nat) : (uleb more n).length ≤ more + 1 := by
  induction more generalizing n with
  | zero => exact Nat.le_refl _
  | succ more ih =>
    rw [uleb]
    split
    · exact Nat.le_add_left _ _
    · exact Nat.succ_le_succ (ih _)

/-- A number that fits in fewer bytes takes no more. -/
theorem length_uleb_le {more most n : Nat} (fits : n < paddedRange most) :
    (uleb more n).length ≤ most + 1 := by
  induction most generalizing more n with
  | zero =>
    rcases more with _ | more
    · exact Nat.le_refl _
    · have small : n < 128 := fits
      rw [uleb, if_pos small]
      exact Nat.le_refl _
  | succ most ih =>
    rcases more with _ | more
    · exact Nat.le_add_left _ _
    · rw [uleb]
      split
      · exact Nat.le_add_left _ _
      · rw [paddedRange] at fits
        exact Nat.succ_le_succ (ih (Nat.div_lt_of_lt_mul fits))

theorem one_shiftLeft_succ (bits : Nat) : 1 <<< (bits + 7) = 128 * 1 <<< bits := by
  rw [Nat.shiftLeft_add, Nat.shiftLeft_eq, Nat.shiftLeft_eq]
  omega

/-- A number that fits its width is read back. -/
theorem decodeUnsigned_uleb {more n bits : Nat} (fits : n < paddedRange more)
    (width : n < 1 <<< bits) (rest : List UInt8) :
    decodeUnsigned bits (uleb more n ++ rest) = some (n, rest) := by
  induction more generalizing n bits with
  | zero =>
    have small : n < 128 := fits
    have byte : (UInt8.ofNat (n % 128)).toNat = n := by
      rw [toNat_ofNat_of_lt (by omega), Nat.mod_eq_of_lt small]
    simp only [uleb, List.cons_append, List.nil_append, decodeUnsigned, byte, if_pos small,
      if_pos width]
  | succ more ih =>
    rw [uleb]
    split
    · rename_i small
      have byte : (UInt8.ofNat n).toNat = n := toNat_ofNat_of_lt (by omega)
      simp only [List.cons_append, List.nil_append, decodeUnsigned, byte, if_pos small,
        if_pos width]
    · rename_i large
      have byte : (UInt8.ofNat (128 + n % 128)).toNat = 128 + n % 128 :=
        toNat_ofNat_of_lt (by omega)
      have continued : ¬128 + n % 128 < 128 := by omega
      have high : n / 128 < paddedRange more := by
        rw [paddedRange] at fits
        exact Nat.div_lt_of_lt_mul fits
      have wide : ¬bits ≤ 7 := by
        intro narrow
        have : 1 <<< bits ≤ 1 <<< 7 := by
          rw [Nat.shiftLeft_eq, Nat.shiftLeft_eq]
          exact Nat.mul_le_mul_left 1 (Nat.pow_le_pow_right (by decide) narrow)
        omega
      obtain ⟨bits', rfl⟩ : ∃ bits', bits = bits' + 7 := ⟨bits - 7, by omega⟩
      rw [one_shiftLeft_succ] at width
      have width' : n / 128 < 1 <<< bits' := Nat.div_lt_of_lt_mul width
      simp only [List.cons_append, decodeUnsigned, byte, if_neg continued, if_neg wide,
        Nat.add_sub_cancel, ih high width', Option.map_some]
      congr 2
      omega

end PCemWeb.Lib
