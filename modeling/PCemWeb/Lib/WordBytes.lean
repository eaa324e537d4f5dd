import Mathlib.Logic.Function.Basic
import Mathlib.Tactic.Common

/-!
# Bytes in words

A memory of aligned 32-bit words, least significant byte first: its bytes, stores of 1, 2, 4 and 8
bytes at any address, and marks, by which bits of chosen words are set. A mark and a store of
bytes elsewhere commute, so that a sequence of both can be read as the marks and then the bytes.
-/

namespace PCemWeb.Lib

/-- Memory by the index of the aligned word. -/
abbrev WordRam := BitVec 30 → BitVec 32

/-! ## Bytes of a word -/

/-- The low bit of byte `i` of a word. -/
def byteShift (i : BitVec 2) : Nat := 8 * i.toNat

def byteOf (x : BitVec 32) (i : BitVec 2) : BitVec 8 := x.extractLsb' (byteShift i) 8

/-- Byte `i` of a word is replaced. -/
def spliceByte (x : BitVec 32) (i : BitVec 2) (v : BitVec 8) : BitVec 32 :=
  (x &&& ~~~(0xff#32 <<< byteShift i)) ||| v.setWidth 32 <<< byteShift i

section

variable {x : BitVec 32} {i j : BitVec 2} {v : BitVec 8}

theorem getLsbD_ff (k : Nat) : (0xff#32).getLsbD k = decide (k < 8) := by
  by_cases small : k < 32
  · revert k
    decide
  · rw [BitVec.getLsbD_of_ge _ _ (by omega)]
    exact (decide_eq_false (by omega)).symm

theorem getLsbD_spliceByte (k : Nat) (inside : k < 32) : (spliceByte x i v).getLsbD k =
    if byteShift i ≤ k ∧ k < byteShift i + 8 then v.getLsbD (k - byteShift i)
    else x.getLsbD k := by
  simp only [spliceByte, BitVec.getLsbD_or, BitVec.getLsbD_and, BitVec.getLsbD_not,
    BitVec.getLsbD_shiftLeft, BitVec.getLsbD_setWidth, getLsbD_ff, inside, decide_true,
    Bool.true_and]
  by_cases low : k < byteShift i
  · rw [if_neg (by omega)]
    simp [low]
  · by_cases high : k < byteShift i + 8
    · rw [if_pos ⟨by omega, high⟩]
      have first : k - byteShift i < 8 := by omega
      have second : k - byteShift i < 32 := by omega
      simp [low, first, second]
    · rw [if_neg (by omega)]
      have first : ¬ k - byteShift i < 8 := by omega
      have out : v.getLsbD (k - byteShift i) = false := BitVec.getLsbD_of_ge _ _ (by omega)
      simp [low, first, out]

theorem byteShift_le (i : BitVec 2) : byteShift i ≤ 24 := by
  have := i.isLt
  unfold byteShift
  omega

theorem byteOf_spliceByte_self : byteOf (spliceByte x i v) i = v := by
  apply BitVec.eq_of_getLsbD_eq
  intro k inside
  have := byteShift_le i
  rw [byteOf, BitVec.getLsbD_extractLsb', getLsbD_spliceByte _ (by omega),
    if_pos ⟨by omega, by omega⟩, Nat.add_sub_cancel_left]
  simp [inside]

theorem byteOf_spliceByte_of_ne (other : j ≠ i) : byteOf (spliceByte x i v) j = byteOf x j := by
  apply BitVec.eq_of_getLsbD_eq
  intro k inside
  have := byteShift_le j
  have apart : j.toNat ≠ i.toNat := fun same => other (BitVec.eq_of_toNat_eq same)
  rw [byteOf, byteOf, BitVec.getLsbD_extractLsb', BitVec.getLsbD_extractLsb',
    getLsbD_spliceByte _ (by omega), if_neg]
  unfold byteShift
  omega

theorem spliceByte_byteOf : spliceByte x i (byteOf x i) = x := by
  apply BitVec.eq_of_getLsbD_eq
  intro k inside
  rw [getLsbD_spliceByte k inside]
  split
  · rename_i within
    have small : k - byteShift i < 8 := by omega
    rw [byteOf, BitVec.getLsbD_extractLsb', decide_eq_true small, Bool.true_and]
    congr 1
    omega
  · rfl

end

/-! ## Bytes of a memory -/

namespace WordRam

/-- The word of a byte address, and the byte of that word. -/
def word (a : BitVec 32) : BitVec 30 := a.extractLsb' 2 30

def lane (a : BitVec 32) : BitVec 2 := a.extractLsb' 0 2

def load8 (r : WordRam) (a : BitVec 32) : BitVec 8 := byteOf (r (word a)) (lane a)

def store8 (r : WordRam) (a : BitVec 32) (v : BitVec 8) : WordRam :=
  Function.update r (word a) (spliceByte (r (word a)) (lane a) v)

/-- Two halves, the low one first. -/
def join {n : Nat} (lo hi : BitVec n) : BitVec (n + n) :=
  lo.setWidth (n + n) ||| hi.setWidth (n + n) <<< n

def load16 (r : WordRam) (a : BitVec 32) : BitVec 16 := join (r.load8 a) (r.load8 (a + 1))

def load32 (r : WordRam) (a : BitVec 32) : BitVec 32 := join (r.load16 a) (r.load16 (a + 2))

def load64 (r : WordRam) (a : BitVec 32) : BitVec 64 := join (r.load32 a) (r.load32 (a + 4))

def store16 (r : WordRam) (a : BitVec 32) (v : BitVec 16) : WordRam :=
  (r.store8 a (v.setWidth 8)).store8 (a + 1) ((v >>> 8).setWidth 8)

def store32 (r : WordRam) (a : BitVec 32) (v : BitVec 32) : WordRam :=
  (r.store16 a (v.setWidth 16)).store16 (a + 2) ((v >>> 16).setWidth 16)

def store64 (r : WordRam) (a : BitVec 32) (v : BitVec 64) : WordRam :=
  (r.store32 a (v.setWidth 32)).store32 (a + 4) ((v >>> 32).setWidth 32)

/-- Bits of chosen words are set. -/
def mark (k r : WordRam) : WordRam := fun e => r e ||| k e

section

variable {r : WordRam} {k k' : WordRam} {a b : BitVec 32} {e : BitVec 30} {v : BitVec 8}

/-! ## One byte -/

theorem store8_of_ne (other : word a ≠ e) : r.store8 a v e = r e :=
  Function.update_of_ne (Ne.symm other) _ _

/-- The word and the byte in it determine the address. -/
theorem eq_of_word_of_lane (sameWord : word a = word b) (sameLane : lane a = lane b) : a = b := by
  apply BitVec.eq_of_getLsbD_eq
  intro i inside
  by_cases low : i < 2
  · have bit := congrArg (BitVec.getLsbD · i) sameLane
    simpa [lane, low] using bit
  · have bit := congrArg (BitVec.getLsbD · (i - 2)) sameWord
    have small : i - 2 < 30 := by omega
    have whole : 2 + (i - 2) = i := by omega
    simpa [word, small, whole] using bit

theorem load8_store8_self : (r.store8 a v).load8 a = v := by
  rw [load8, store8, Function.update_self, byteOf_spliceByte_self]

theorem load8_store8_of_ne (other : b ≠ a) : (r.store8 a v).load8 b = r.load8 b := by
  by_cases sameWord : word b = word a
  · have apart : lane b ≠ lane a := fun sameLane => other (eq_of_word_of_lane sameWord sameLane)
    rw [load8, store8, sameWord, Function.update_self, byteOf_spliceByte_of_ne apart, load8,
      sameWord]
  · rw [load8, store8_of_ne (Ne.symm sameWord), load8]

/-- Storing what is there changes nothing. -/
theorem store8_load8 : r.store8 a (r.load8 a) = r := by
  rw [store8, load8, spliceByte_byteOf, Function.update_eq_self]

/-! ## Halves -/

theorem toNat_join {n : Nat} (lo hi : BitVec n) :
    (join lo hi).toNat = lo.toNat + hi.toNat <<< n := by
  have low := lo.isLt
  have high := hi.isLt
  have shifted : hi.toNat <<< n < 2 ^ (n + n) := by
    rw [Nat.shiftLeft_eq, Nat.pow_add]
    exact Nat.mul_lt_mul_of_pos_right high (Nat.two_pow_pos n)
  have grown : 2 ^ n ≤ 2 ^ (n + n) := Nat.pow_le_pow_right (by decide) (Nat.le_add_left n n)
  rw [join, BitVec.toNat_or, BitVec.toNat_shiftLeft, BitVec.toNat_setWidth, BitVec.toNat_setWidth,
    Nat.mod_eq_of_lt (Nat.lt_of_lt_of_le low grown),
    Nat.mod_eq_of_lt (Nat.lt_of_lt_of_le high grown), Nat.mod_eq_of_lt shifted, Nat.or_comm,
    ← Nat.shiftLeft_add_eq_or_of_lt low, Nat.add_comm]

theorem setWidth_join {n : Nat} (lo hi : BitVec n) : (join lo hi).setWidth n = lo := by
  apply BitVec.eq_of_getLsbD_eq
  intro i inside
  simp [join, inside]

theorem setWidth_join_high {n : Nat} (lo hi : BitVec n) :
    (join lo hi >>> n).setWidth n = hi := by
  apply BitVec.eq_of_getLsbD_eq
  intro i inside
  have wide : n + i < n + n := by omega
  simp [join, inside, wide]

theorem store16_load16 : r.store16 a (r.load16 a) = r := by
  have high : (r.load16 a >>> 8).setWidth 8 = r.load8 (a + 1) := setWidth_join_high _ _
  have low : (r.load16 a).setWidth 8 = r.load8 a := setWidth_join _ _
  rw [store16, high, low, store8_load8, store8_load8]

theorem store32_load32 : r.store32 a (r.load32 a) = r := by
  have high : (r.load32 a >>> 16).setWidth 16 = r.load16 (a + 2) := setWidth_join_high _ _
  have low : (r.load32 a).setWidth 16 = r.load16 a := setWidth_join _ _
  rw [store32, high, low, store16_load16, store16_load16]

/-! ## Marks -/

theorem mark_zero : mark (fun _ => 0) r = r := by
  funext e
  exact BitVec.or_zero

theorem mark_self : mark k (mark k r) = mark k r := by
  funext e
  rw [mark, mark, BitVec.or_assoc, BitVec.or_self]

theorem mark_comm : mark k (mark k' r) = mark k' (mark k r) := by
  funext e
  rw [mark, mark, mark, mark, BitVec.or_assoc, BitVec.or_comm (k' e), BitVec.or_assoc]

theorem mark_of_zero (apart : k e = 0) : mark k r e = r e := by
  rw [mark, apart]
  exact BitVec.or_zero

theorem mark_store8 (apart : k (word a) = 0) :
    mark k (r.store8 a v) = (mark k r).store8 a v := by
  funext e
  by_cases here : e = word a
  · subst here
    rw [mark_of_zero apart, store8, store8, Function.update_self, Function.update_self,
      mark_of_zero apart]
  · rw [mark, store8_of_ne (Ne.symm here), store8_of_ne (Ne.symm here), mark]

theorem load8_mark (apart : k (word a) = 0) : (mark k r).load8 a = r.load8 a := by
  rw [load8, mark_of_zero apart, load8]

end

/-! ## Sequences of bytes -/

/-- A number from its bytes, the least significant first. -/
def fromBytes : List (BitVec 8) → Nat
  | [] => 0
  | b :: bs => b.toNat + 256 * fromBytes bs

/-- The bytes from an address on. -/
def bytesAt (r : WordRam) (a : BitVec 32) (n : Nat) : List (BitVec 8) :=
  (List.range n).map fun i => r.load8 (a + BitVec.ofNat 32 i)

theorem bytesAt_add (r : WordRam) (a : BitVec 32) (m n : Nat) :
    r.bytesAt a (m + n) = r.bytesAt a m ++ r.bytesAt (a + BitVec.ofNat 32 m) n := by
  simp only [bytesAt, List.range_add, List.map_append, List.map_map, Function.comp_def,
    BitVec.add_assoc, BitVec.ofNat_add]

theorem length_bytesAt (r : WordRam) (a : BitVec 32) (n : Nat) : (r.bytesAt a n).length = n := by
  rw [bytesAt, List.length_map, List.length_range]

theorem fromBytes_append (xs ys : List (BitVec 8)) :
    fromBytes (xs ++ ys) = fromBytes xs + fromBytes ys <<< (8 * xs.length) := by
  induction xs with
  | nil => simp [fromBytes]
  | cons b bs ih =>
    have shifted : fromBytes ys <<< (8 * bs.length) <<< 8 =
        256 * fromBytes ys <<< (8 * bs.length) := by
      rw [Nat.shiftLeft_eq _ 8, Nat.mul_comm]
    rw [List.cons_append, fromBytes, ih, fromBytes, List.length_cons, Nat.mul_succ,
      Nat.shiftLeft_add, shifted]
    omega

theorem toNat_load16 (r : WordRam) (a : BitVec 32) :
    (r.load16 a).toNat = fromBytes (r.bytesAt a 2) := by
  have single (b : BitVec 32) : fromBytes (r.bytesAt b 1) = (r.load8 b).toNat := by
    simp [bytesAt, fromBytes]
  rw [bytesAt_add r a 1 1, fromBytes_append, length_bytesAt, single, single]
  exact toNat_join _ _

theorem toNat_load32 (r : WordRam) (a : BitVec 32) :
    (r.load32 a).toNat = fromBytes (r.bytesAt a 4) := by
  rw [bytesAt_add r a 2 2, fromBytes_append, length_bytesAt, ← toNat_load16, ← toNat_load16]
  exact toNat_join _ _

theorem toNat_load64 (r : WordRam) (a : BitVec 32) :
    (r.load64 a).toNat = fromBytes (r.bytesAt a 8) := by
  rw [bytesAt_add r a 4 4, fromBytes_append, length_bytesAt, ← toNat_load32, ← toNat_load32]
  exact toNat_join _ _

end WordRam

end PCemWeb.Lib
