import PCemWeb.Lib.Leb128

/-!
# Decoders of byte sequences

A decoder takes a value off the head of some bytes. `Decodes p bytes x` says that the decoder takes
just these bytes for the value, whatever comes after. A value with its size in front is decoded by
`sized`, which gives the decoder inside those bytes only and wants all of them used.
-/

namespace PCemWeb.Lib

variable {α β : Type}

abbrev Decoder (α : Type) := StateT (List UInt8) Option α

namespace Decoder

/-! ## Decoders -/

def byte : Decoder UInt8
  | [] => none
  | b :: rest => some (b, rest)

def u32 : Decoder Nat := decodeUnsigned 32

/-- The next `n` bytes. -/
def take (n : Nat) : Decoder (List UInt8) := fun input =>
  if n ≤ input.length then some (input.take n, input.drop n) else none

/-- Certain bytes. -/
def expect (bytes : List UInt8) : Decoder Unit := fun input =>
  if input.take bytes.length = bytes then some ((), input.drop bytes.length) else none

def times (p : Decoder α) : Nat → Decoder (List α)
  | 0 => pure []
  | n + 1 => do
    let x ← p
    let xs ← times p n
    pure (x :: xs)

/-- A sequence with its length in front. -/
def vec (p : Decoder α) : Decoder (List α) := do
  let n ← u32
  times p n

/-- The value that all the bytes stand for. -/
def whole (p : Decoder α) (bytes : List UInt8) : Option α :=
  match p bytes with
  | some (x, []) => some x
  | _ => none

/-- A value with its size in front. -/
def sized (p : Decoder α) : Decoder α := do
  let n ← u32
  let content ← take n
  match whole p content with
  | some x => pure x
  | none => failure

/-! ## What is decoded -/

def Decodes (p : Decoder α) (bytes : List UInt8) (x : α) : Prop :=
  ∀ rest, p (bytes ++ rest) = some (x, rest)

variable {p : Decoder α} {f : α → Decoder β} {xs ys bytes : List UInt8} {x : α} {y : β}

theorem decodes_pure (x : α) : Decodes (pure x) [] x := fun _ => rfl

theorem Decodes.bind (first : Decodes p xs x) (second : Decodes (f x) ys y) :
    Decodes (p >>= f) (xs ++ ys) y := by
  intro rest
  change (p (xs ++ ys ++ rest)).bind (fun (a, rest) => f a rest) = _
  rw [List.append_assoc, first]
  exact second rest

/-- The last decoder of several. -/
theorem Decodes.map {g : α → β} (first : Decodes p xs x) :
    Decodes (p >>= fun a => pure (g a)) xs (g x) := by
  have both : Decodes (p >>= fun a => pure (g a)) (xs ++ []) (g x) :=
    first.bind (decodes_pure (g x))
  rwa [List.append_nil] at both

theorem Decodes.whole (decodes : Decodes p bytes x) : Decoder.whole p bytes = some x := by
  have all := decodes []
  rw [List.append_nil] at all
  simp only [Decoder.whole, all]

theorem decodes_byte (b : UInt8) : Decodes byte [b] b := fun _ => rfl

theorem decodes_u32 {more n : Nat} (fits : n < paddedRange more) (width : n < 0x100000000) :
    Decodes u32 (uleb more n) n := decodeUnsigned_uleb fits width

theorem decodes_take (bytes : List UInt8) : Decodes (take bytes.length) bytes bytes := by
  intro rest
  rw [take, if_pos (by rw [List.length_append]; omega), List.take_left, List.drop_left]

theorem decodes_expect (bytes : List UInt8) : Decodes (expect bytes) bytes () := by
  intro rest
  rw [expect, List.take_left, if_pos rfl, List.drop_left]

theorem decodes_times {enc : α → List UInt8} {values : List α}
    (items : ∀ x ∈ values, Decodes p (enc x) x) :
    Decodes (times p values.length) (values.flatMap enc) values := by
  induction values with
  | nil => exact decodes_pure []
  | cons x values ih =>
    rw [List.length_cons, times, List.flatMap_cons]
    exact (items x (.head _)).bind (ih fun x later => items x (.tail _ later)).map

theorem decodes_vec {enc : α → List UInt8} {values : List α} {more : Nat}
    (items : ∀ x ∈ values, Decodes p (enc x) x) (fits : values.length < paddedRange more)
    (width : values.length < 0x100000000) :
    Decodes (vec p) (uleb more values.length ++ values.flatMap enc) values :=
  (decodes_u32 fits width).bind (decodes_times items)

theorem decodes_sized {more : Nat} (content : Decoder.whole p bytes = some x)
    (fits : bytes.length < paddedRange more) (width : bytes.length < 0x100000000) :
    Decodes (sized p) (uleb more bytes.length ++ bytes) x := by
  have last : Decodes (do
      let content ← take bytes.length
      match Decoder.whole p content with
      | some x => pure x
      | none => failure) (bytes ++ []) x := by
    refine (decodes_take bytes).bind ?_
    rw [content]
    exact decodes_pure x
  rw [List.append_nil] at last
  exact (decodes_u32 fits width).bind last

end Decoder

end PCemWeb.Lib
