import Mathlib.Tactic.Common

/-!
# Guessed geometry

`guessGeometry` and `chsBytes` of `media.js`, and when the guessed geometry fits the image. Sizes
are whole numbers that JavaScript's numbers hold exactly, and the floors of its divisions are exact.
-/

namespace PCemWeb.Web

structure Geometry : Type where
  cylinders : Nat
  heads : Nat
  sectors : Nat
  deriving DecidableEq

/-- An entry of `presets`: the size of the image and its `c`, `h` and `s`. -/
structure Preset : Type where
  size : Nat
  c : Nat
  h : Nat
  s : Nat
  deriving DecidableEq

def presets : List Preset :=
  [⟨5 * 1024 * 1024 + 42 * 1024, 306, 2, 17⟩, ⟨10653696, 306, 4, 17⟩, ⟨21377024, 615, 4, 17⟩,
    ⟨42823680, 820, 6, 17⟩]

/-- `Math.abs(bytes - p.size) < 512 * 64`. -/
def Preset.Near (bytes : Nat) (p : Preset) : Prop := bytes < p.size + 32768 ∧ p.size < bytes + 32768

instance (bytes : Nat) (p : Preset) : Decidable (p.Near bytes) := instDecidableAnd

/-- The heads and sectors that are tried for other sizes. -/
def shapes : List (Nat × Nat) := [(16, 63), (16, 38), (8, 26), (4, 17), (2, 17)]

/-- `c > 0 && c <= 65535` for the cylinders of a shape. -/
def ShapeFits (sectorsTotal : Nat) (shape : Nat × Nat) : Prop :=
  0 < sectorsTotal / (shape.1 * shape.2) ∧ sectorsTotal / (shape.1 * shape.2) ≤ 65535

instance (sectorsTotal : Nat) (shape : Nat × Nat) : Decidable (ShapeFits sectorsTotal shape) :=
  instDecidableAnd

def guessGeometry (bytes : Nat) : Geometry :=
  match presets.find? (fun p => p.Near bytes) with
  | some p => ⟨p.c, p.h, p.s⟩
  | none =>
    match shapes.find? (fun shape => ShapeFits (bytes / 512) shape) with
    | some (h, s) => ⟨bytes / 512 / (h * s), h, s⟩
    | none => ⟨615, 4, 17⟩

def chsBytes (g : Geometry) : Nat := g.cylinders * g.heads * g.sectors * 512

/-! ## Which sizes it fits -/

/-- The bytes of one cylinder of the smallest shape. -/
def smallestCylinder : Nat := 2 * 17 * 512

/-- A usable geometry that reaches no byte past the image and leaves less than a cylinder of it. -/
structure Geometry.Fits (g : Geometry) (bytes : Nat) : Prop where
  cylinders_pos : 0 < g.cylinders
  heads_pos : 0 < g.heads
  sectors_pos : 0 < g.sectors
  cylinders_le : g.cylinders ≤ 65535
  inside : chsBytes g ≤ bytes
  rest : bytes < chsBytes g + g.heads * g.sectors * 512

/-- The image is no smaller than a preset that it matches, and a geometry of 16 heads and 63 sectors
holds it. -/
def SizeServed (bytes : Nat) : Prop :=
  (∀ p ∈ presets, p.Near bytes → chsBytes ⟨p.c, p.h, p.s⟩ ≤ bytes) ∧ bytes < 65536 * 16 * 63 * 512

/-- What all entries have in common: an image that matches one and is not smaller leaves less than a
cylinder. -/
theorem preset_shape {p : Preset} (listed : p ∈ presets) :
    0 < p.c ∧ 0 < p.h ∧ 0 < p.s ∧ p.c ≤ 65535 ∧
      p.size + 32768 ≤ chsBytes ⟨p.c, p.h, p.s⟩ + p.h * p.s * 512 ∧
      p.size + 32768 ≤ 65536 * 16 * 63 * 512 := by
  revert p
  decide

/-- A size matches one entry at most. -/
theorem preset_unique {bytes : Nat} {p q : Preset} (listed : p ∈ presets) (other : q ∈ presets)
    (near : p.Near bytes) (also : q.Near bytes) : p = q := by
  have apart : ∀ p ∈ presets, ∀ q ∈ presets,
      p = q ∨ p.size + 65536 ≤ q.size ∨ q.size + 65536 ≤ p.size := by decide
  obtain ⟨below, above⟩ := near
  obtain ⟨below', above'⟩ := also
  rcases apart p listed q other with same | far | far
  · exact same
  · omega
  · omega

/-- The floor of the cylinders of a shape leaves less than a cylinder. -/
theorem fits_shape {bytes h s : Nat} (fits : ShapeFits (bytes / 512) (h, s)) :
    Geometry.Fits ⟨bytes / 512 / (h * s), h, s⟩ bytes := by
  obtain ⟨positive, small⟩ := fits
  have area : 0 < h * s := by
    by_contra none
    rw [Nat.eq_zero_of_not_pos none, Nat.div_zero] at positive
    exact absurd positive (Nat.lt_irrefl 0)
  have capacity : chsBytes ⟨bytes / 512 / (h * s), h, s⟩ = h * s *
    (bytes / 512 / (h * s)) * 512 := by
    rw [chsBytes, Nat.mul_assoc _ h s, Nat.mul_comm _ (h * s)]
  have whole := Nat.div_add_mod (bytes / 512) (h * s)
  have part := Nat.mod_lt (bytes / 512) area
  refine ⟨positive, Nat.pos_of_mul_pos_right area, Nat.pos_of_mul_pos_left area, small, ?_, ?_⟩
  · rw [capacity]
    omega
  · show bytes < chsBytes _ + h * s * 512
    rw [capacity]
    omega

/-- Some shape takes every image from one cylinder of the smallest up to the cylinder limit. -/
theorem shape_of_size {bytes : Nat} (large : smallestCylinder ≤ bytes)
    (small : bytes < 65536 * 16 * 63 * 512) : ∃ shape ∈ shapes, ShapeFits (bytes / 512) shape := by
  have least : 34 ≤ bytes / 512 := by
    rw [smallestCylinder] at large
    omega
  rcases Nat.lt_or_ge (bytes / 512) 1008 with few | many
  · refine ⟨(2, 17), by decide, ?_, ?_⟩
    · exact Nat.div_pos least (by decide)
    · exact Nat.div_le_of_le_mul (by omega)
  · refine ⟨(16, 63), by decide, ?_, ?_⟩
    · exact Nat.div_pos many (by decide)
    · show bytes / 512 / 1008 ≤ 65535
      omega

/-- An image beyond the cylinder limit is given the fixed geometry. -/
theorem guess_of_large {bytes : Nat} (large : 65536 * 16 * 63 * 512 ≤ bytes) :
    guessGeometry bytes = ⟨615, 4, 17⟩ := by
  have unlisted : presets.find? (fun p => p.Near bytes) = none := by
    rw [List.find?_eq_none]
    intro p listed near
    have limit := (preset_shape listed).2.2.2.2.2
    have below := (of_decide_eq_true near).1
    omega
  have shapeless : shapes.find? (fun shape => ShapeFits (bytes / 512) shape) = none := by
    rw [List.find?_eq_none]
    intro shape listed fits
    have area : ∀ shape ∈ shapes, 0 < shape.1 * shape.2 ∧ shape.1 * shape.2 ≤ 1008 := by decide
    obtain ⟨positive, most⟩ := area shape listed
    have limit := (of_decide_eq_true fits).2
    have many : 65536 ≤ bytes / 512 / (shape.1 * shape.2) := by
      rw [Nat.le_div_iff_mul_le positive]
      calc 65536 * (shape.1 * shape.2) ≤ 65536 * 1008 := Nat.mul_le_mul_left _ most
        _ ≤ bytes / 512 := by omega
    omega
  rw [guessGeometry, unlisted, shapeless]

/-- The guess fits exactly the images that are no smaller than a preset they match and that are
below the cylinder limit. -/
theorem guessGeometry_fits_iff (bytes : Nat) (large : smallestCylinder ≤ bytes) :
    (guessGeometry bytes).Fits bytes ↔ SizeServed bytes := by
  rcases Nat.lt_or_ge bytes (65536 * 16 * 63 * 512) with small | beyond
  swap
  · rw [guess_of_large beyond]
    constructor
    · intro fits
      have rest : bytes < 615 * 4 * 17 * 512 + 4 * 17 * 512 := fits.rest
      omega
    · rintro ⟨-, small⟩
      omega
  cases found : presets.find? (fun p => p.Near bytes) with
  | some p =>
    have listed := List.mem_of_find?_eq_some found
    have near : p.Near bytes := by simpa only [decide_eq_true_eq] using List.find?_some found
    have guess : guessGeometry bytes = ⟨p.c, p.h, p.s⟩ := by rw [guessGeometry, found]
    obtain ⟨cylinders, heads, sectors, most, rest, -⟩ := preset_shape listed
    rw [guess]
    constructor
    · intro fits
      refine ⟨fun q other also => ?_, small⟩
      rw [preset_unique other listed also near]
      exact fits.inside
    · intro served
      exact ⟨cylinders, heads, sectors, most, served.1 p listed near,
        Nat.lt_of_lt_of_le near.1 rest⟩
  | none =>
    have unlisted := List.find?_eq_none.mp found
    obtain ⟨shape, member, fits⟩ := shape_of_size large small
    cases tried : shapes.find? (fun shape => ShapeFits (bytes / 512) shape) with
    | none => exact absurd (decide_eq_true fits) (List.find?_eq_none.mp tried shape member)
    | some chosen =>
      have guess : guessGeometry bytes =
          ⟨bytes / 512 / (chosen.1 * chosen.2), chosen.1, chosen.2⟩ := by
        rw [guessGeometry, found, tried]
      rw [guess]
      constructor
      · intro
        exact ⟨fun p listed near => absurd (decide_eq_true near) (unlisted p listed), small⟩
      · intro
        have suits : ShapeFits (bytes / 512) chosen := by
          simpa only [decide_eq_true_eq] using List.find?_some tried
        exact fits_shape suits

theorem guessGeometry_fits_tenMegabytes :
    smallestCylinder ≤ 10653696 ∧
      ((guessGeometry 10653696).Fits 10653696 ↔ SizeServed 10653696) :=
  ⟨by decide, guessGeometry_fits_iff 10653696 (by decide)⟩

/-- An image of exactly the first preset's size is given a larger geometry. -/
theorem not_fits_firstPreset :
    smallestCylinder ≤ 5285888 ∧ ¬(guessGeometry 5285888).Fits 5285888 := by
  refine ⟨by decide, fun fits => ?_⟩
  have inside : 306 * 2 * 17 * 512 ≤ 5285888 := fits.inside
  omega

end PCemWeb.Web
