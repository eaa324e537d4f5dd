import Mathlib.Data.List.Basic
import Mathlib.Tactic.IntervalCases
import PCemWeb.Floppy.DiscImg

/-!
# Which images are usable

The geometry that an image file gets, against the buffer of a track: every read and every sector of
every seek lies in it, and a sector of an image with a BPB is where the BPB says.
-/

namespace PCemWeb

/-! ## The statement -/

/-- `sizeof track_data[side]`. -/
def trackDataSize : Nat := 20 * 1024

namespace TrackLoad

/-- The position in the file that byte `j` of a buffer is read from. A read that the file ends
before leaves the byte. -/
def position (l : TrackLoad) (buffer : Fin 2) (j : Nat) : Option Nat :=
  (l.reads.find? fun r => r.buffer = buffer ∧ j < r.len).map fun r => r.filePos + j

/-- Reads and sectors lie in their buffers. -/
structure Inside (l : TrackLoad) : Prop where
  reads : ∀ r ∈ l.reads, r.len ≤ trackDataSize
  sectors : ∀ side, ∀ s ∈ l.sectors side, s.pos + s.len ≤ trackDataSize

end TrackLoad

/-- The position in the file of sector `(c, h, r)`. -/
def Img.sectorPos (img : Img) (bps c h r : Nat) : Nat :=
  ((c * img.sides + h) * img.sectors + r - 1) * bps

/-- The track has each sector of the geometry, and each sector has its bytes of the file. -/
structure TrackLoad.Backed (img : Img) (bps : Nat) (l : TrackLoad) : Prop where
  present : ∀ h r, h < img.sides → 1 ≤ r → r ≤ img.sectors → ∃ side, ∃ s ∈ l.sectors side,
    s.c.toNat = l.track ∧ s.h.toNat = h ∧ s.r.toNat = r
  bytes : ∀ side, ∀ s ∈ l.sectors side, s.len = bps ∧ ∀ j < s.len,
    l.position s.buffer (s.pos + j) = some (img.sectorPos bps s.c.toNat s.h.toNat s.r.toNat + j)

/-- `img_load` returns, and if it takes the file then every seek that a drive can make is inside its
buffers and, for an image with a BPB, backed by the file. -/
def ImgUsable (bpbDisable : Bool) (f : ImageFile) : Prop :=
  match imgLoad bpbDisable f with
  | .divisionByZero => False
  | .rejected => True
  | .loaded img => ∀ (clamp type : Fin 8) (old diff : Int),
      (imgSeek img (doublestep40 type) (fddSeek clamp old diff).toNat).Inside ∧
        (¬(bpbDisable = true ∨ f.bpb.Wacky) →
          (imgSeek img (doublestep40 type) (fddSeek clamp old diff).toNat).Backed img
            f.bpb.bps.toNat)

/-- The condition on a BPB: some sectors, and either a track of more than 25000 bytes or sectors of
512 bytes in a number that is given up, or that fits the buffer and is not one of an XDF image. -/
def Bpb.Fits (b : Bpb) : Prop :=
  b.sectors ≠ 0 ∧
    (25000 < b.bytesPerTrack ∨
      (b.bps = 512 ∧
        (b.sectors = 47 ∨ (b.sectors = 20 ∧ b.mid ≠ 0xf0) ∨
          (b.sectors ≤ 40 ∧ b.sectors ≠ 23 ∧ b.sectors ≠ 24 ∧ (b.sectors = 19 → b.mid = 0xf0)))))

/-! ## Plain tracks -/

section Plain

variable {img : Img} {track : Nat}

/-- A loop of `disc_sector_add` for one side appends its sectors. -/
theorem foldl_add (side : Fin 2) (make : Nat → Sector) (n : Nat) (t : SectorTable)
    (room : (t side).length + n ≤ 256) :
    (List.range n).foldl (fun t i => t.add side (make i)) t =
      fun i => if i = side then t i ++ (List.range n).map make else t i := by
  induction n with
  | zero =>
    funext i
    simp
  | succ n ih =>
    rw [List.range_succ, List.foldl_append, ih (by omega)]
    funext i
    simp only [List.foldl_cons, List.foldl_nil, SectorTable.add]
    rw [if_neg (by simp; omega)]
    by_cases here : i = side
    · subst here
      simp
    · simp only [if_neg here]

/-- The sectors of a side. -/
def Img.sideSectors (img : Img) (track : Nat) (side : Fin 2) : List Sector :=
  (List.range img.sectors).map fun sector => ⟨.ofNat 8 track, .ofNat 8 side, .ofNat 8 (sector + 1),
    img.sectorSizeCode, side, sector * img.sectorSize⟩

theorem register_plain (plain : img.xdfType = none) (sides : img.sides = 1 ∨ img.sides = 2)
    (few : img.sectors ≤ 256) (side : Fin 2) :
    img.register track side = if side.val < img.sides then img.sideSectors track side else [] := by
  unfold Img.register
  rw [plain]
  have one (t : SectorTable) (s : Fin 2) (empty : t s = []) : img.addSide track t s =
      fun i => if i = s then t i ++ img.sideSectors track s else t i := by
    unfold Img.addSide Img.sideSectors
    exact foldl_add s _ img.sectors t (by rw [empty, List.length_nil]; omega)
  rcases sides with single | double
  · rw [single]
    simp only [List.take, List.foldl_cons, List.foldl_nil]
    rw [one _ 0 rfl]
    match side with
    | 0 => simp
    | 1 => simp
  · rw [double]
    simp only [List.take, List.foldl_cons, List.foldl_nil]
    rw [one _ 0 rfl, one _ 1 (by simp)]
    match side with
    | 0 => simp
    | 1 => simp

theorem mem_sideSectors {side : Fin 2} {s : Sector} :
    s ∈ img.sideSectors track side ↔ ∃ sector < img.sectors,
      s = ⟨.ofNat 8 track, .ofNat 8 side, .ofNat 8 (sector + 1), img.sectorSizeCode, side,
        sector * img.sectorSize⟩ := by
  unfold Img.sideSectors
  rw [List.mem_map]
  simp only [List.mem_range, eq_comm]

/-- The geometries whose sectors are all of 512 bytes, with one sector size code. -/
structure Img.Plain (img : Img) : Prop where
  xdf : img.xdfType = none
  sides : img.sides = 1 ∨ img.sides = 2
  size : img.sectorSize = 512
  few : img.sectors ≤ 255

/-- A sector of such a geometry. -/
def plainSector (track : Nat) (side : Fin 2) (sector : Nat) : Sector :=
  ⟨.ofNat 8 track, .ofNat 8 side, .ofNat 8 (sector + 1), 2, side, sector * 512⟩

theorem mem_register (plain : img.Plain) {side : Fin 2} {s : Sector} :
    s ∈ img.register track side ↔ side.val < img.sides ∧ ∃ sector < img.sectors,
      s = plainSector track side sector := by
  have few := plain.few
  have code : img.sectorSizeCode = 2 := by
    unfold Img.sectorSizeCode
    rw [plain.size]
    rfl
  rw [register_plain plain.xdf plain.sides (by omega)]
  by_cases used : side.val < img.sides
  · rw [if_pos used, mem_sideSectors, code, plain.size]
    exact ⟨fun found => ⟨used, found⟩, fun found => found.2⟩
  · rw [if_neg used]
    exact ⟨fun none => absurd none List.not_mem_nil, fun found => absurd found.1 used⟩

/-- The track that a seek ends on. -/
theorem imgSeek_track (img : Img) (doublestep : Bool) (track : Nat) :
    (imgSeek img doublestep track).track ≤ track := by
  unfold imgSeek
  dsimp only
  split <;> omega

theorem imgSeek_sectors (img : Img) (doublestep : Bool) (track : Nat) :
    (imgSeek img doublestep track).sectors =
      img.register (imgSeek img doublestep track).track := rfl

theorem imgSeek_len {doublestep : Bool} {r : TrackRead}
    (read : r ∈ (imgSeek img doublestep track).reads) : r.len = img.sectors * img.sectorSize := by
  unfold imgSeek at read
  dsimp only at read
  split at read
  · rcases List.mem_cons.mp read with rfl | other
    · rfl
    · rw [List.mem_singleton.mp other]
  · rw [List.mem_singleton.mp read]

/-- The first read is into the buffer of side 0. -/
theorem imgSeek_read (img : Img) (doublestep : Bool) (track : Nat) :
    ∃ r ∈ (imgSeek img doublestep track).reads, r.len = img.sectors * img.sectorSize := by
  unfold imgSeek
  dsimp only
  split
  · exact ⟨_, List.mem_cons_self, rfl⟩
  · exact ⟨_, List.mem_cons_self, rfl⟩

/-- Where a byte of a buffer comes from. -/
theorem imgSeek_position (sides : img.sides = 1 ∨ img.sides = 2) (doublestep : Bool) {side : Fin 2}
    (used : side.val < img.sides) {j : Nat} (inside : j < img.sectors * img.sectorSize) :
    (imgSeek img doublestep track).position side j =
      some ((((imgSeek img doublestep track).track * img.sides + side.val) * img.sectors) *
        img.sectorSize + j) := by
  have arrange (c : Nat) : ((c * img.sides + side.val) * img.sectors) * img.sectorSize =
      c * img.sectors * img.sectorSize * img.sides +
        side.val * (img.sectors * img.sectorSize) := by
    rw [Nat.add_mul, Nat.add_mul, Nat.mul_assoc side.val, Nat.mul_right_comm c img.sides,
      Nat.mul_right_comm (c * img.sectors)]
  rw [arrange]
  unfold TrackLoad.position imgSeek
  dsimp only
  rcases sides with single | double
  · rw [if_neg (by omega), single]
    obtain rfl : side = 0 := Fin.ext (by change side.val = 0; omega)
    simp [inside]
  · rw [if_pos double, double]
    match side with
    | 0 => simp [inside]
    | 1 =>
      have apart : ¬((0 : Fin 2) = 1) := by decide
      simp [inside, apart]

end Plain

/-! ## Seeks of a plain image -/

theorem fddSeek_le (clamp : Fin 8) (old diff : Int) : (fddSeek clamp old diff).toNat ≤ 82 := by
  have most : maxTrack clamp ≤ 82 := by
    revert clamp
    decide
  unfold fddSeek
  dsimp only
  split <;> omega

section Seeks

variable {img : Img} {track : Nat}

/-- A side of at most forty sectors fits its buffer. -/
theorem inside_plain (plain : img.Plain) (few : img.sectors ≤ 40) (doublestep : Bool) :
    (imgSeek img doublestep track).Inside := by
  refine ⟨fun r read => ?_, fun side s member => ?_⟩
  · rw [imgSeek_len read, plain.size]
    unfold trackDataSize
    omega
  · rw [imgSeek_sectors] at member
    obtain ⟨-, sector, small, rfl⟩ := (mem_register plain).mp member
    change sector * 512 + 512 ≤ 20 * 1024
    omega

/-- Its sectors are where the BPB says. -/
theorem backed_plain (plain : img.Plain) (few : img.sectors ≤ 40) (low : track ≤ 82)
    (doublestep : Bool) : (imgSeek img doublestep track).Backed img 512 := by
  have bound := imgSeek_track img doublestep track
  have cylinder : (BitVec.ofNat 8 (imgSeek img doublestep track).track).toNat =
      (imgSeek img doublestep track).track := by
    rw [BitVec.toNat_ofNat]
    omega
  have head (side : Fin 2) : (BitVec.ofNat 8 side.val).toNat = side.val := by
    rw [BitVec.toNat_ofNat]
    omega
  have number {sector : Nat} (small : sector < img.sectors) :
      (BitVec.ofNat 8 (sector + 1)).toNat = sector + 1 := by
    rw [BitVec.toNat_ofNat]
    omega
  refine ⟨fun h r inside first last => ?_, fun side s member => ?_⟩
  · obtain ⟨side, rfl⟩ : ∃ side : Fin 2, h = side.val :=
      ⟨⟨h, by rcases plain.sides with one | two <;> omega⟩, rfl⟩
    obtain ⟨sector, rfl⟩ : ∃ sector, r = sector + 1 := ⟨r - 1, by omega⟩
    have small : sector < img.sectors := by omega
    refine ⟨side, plainSector (imgSeek img doublestep track).track side sector, ?_, cylinder,
      head side, number small⟩
    rw [imgSeek_sectors]
    exact (mem_register plain).mpr ⟨inside, sector, by omega, rfl⟩
  · rw [imgSeek_sectors] at member
    obtain ⟨used, sector, small, rfl⟩ := (mem_register plain).mp member
    refine ⟨rfl, fun j within => ?_⟩
    change j < 512 at within
    dsimp only [plainSector]
    rw [imgSeek_position plain.sides doublestep used (by rw [plain.size]; omega), plain.size,
      cylinder, head side, number small]
    refine congrArg some ?_
    unfold Img.sectorPos
    generalize ((imgSeek img doublestep track).track * img.sides + side.val) * img.sectors = base
    omega

/-- More than forty sectors do not fit. -/
theorem not_inside {doublestep : Bool} (size : img.sectorSize = 512) (many : 40 < img.sectors) :
    ¬(imgSeek img doublestep track).Inside := by
  intro inside
  obtain ⟨r, read, len⟩ := imgSeek_read img doublestep track
  have := inside.reads r read
  rw [len, size] at this
  unfold trackDataSize at this
  omega

/-- The registered sectors have 512 bytes, whatever the BPB says. -/
theorem not_backed_size {doublestep : Bool} {bps : Nat} (plain : img.Plain)
    (some : 0 < img.sectors) (other : bps ≠ 512) :
    ¬(imgSeek img doublestep track).Backed img bps := by
  intro backed
  have sides : (0 : Fin 2).val < img.sides := by
    change 0 < img.sides
    rcases plain.sides with one | two <;> omega
  have member := (@mem_register img (imgSeek img doublestep track).track plain 0 _).mpr
    ⟨sides, 0, some, rfl⟩
  exact other (backed.bytes 0 _ member).1.symm

/-- Track 0 of an XDF image begins with sector 0x81. -/
theorem xdfTrackZero_first (x : Fin 5) :
    ∃ s ∈ xdfTrackZero x (fun _ => []) 0, s.c = 0 ∧ s.h = 0 ∧ s.r = 0x81 ∧ s.n = 2 ∧
      s.buffer = 0 ∧ s.pos = 0 := by
  revert x
  decide +kernel

theorem not_backed_xdf {x : Fin 5} {bps : Nat} (xdf : img.xdfType = some x)
    (sides : img.sides = 1 ∨ img.sides = 2) (some : 0 < img.sectors) (size : img.sectorSize = 512)
    (bytes : bps ≠ 0) (doublestep : Bool) : ¬(imgSeek img doublestep 0).Backed img bps := by
  intro backed
  have zero : (imgSeek img doublestep 0).track = 0 :=
    Nat.le_zero.mp (imgSeek_track img doublestep 0)
  obtain ⟨s, member, c, h, r, n, buffer, pos⟩ := xdfTrackZero_first x
  have listed : s ∈ (imgSeek img doublestep 0).sectors 0 := by
    rw [imgSeek_sectors, zero, Img.register, xdf]
    exact member
  have first := (backed.bytes 0 s listed).2 0 (by rw [Sector.len, n]; decide)
  rw [buffer, pos, c, h, r, imgSeek_position sides doublestep
    (by change 0 < img.sides; omega) (by rw [size]; omega), zero] at first
  have same := Option.some.inj first
  unfold Img.sectorPos at same
  simp at same
  omega

/-- Where a sector lies in its buffer. -/
def Sector.place (s : Sector) : Nat × Nat := (s.pos, s.len)

/-- Two tables whose sectors lie at the same places. -/
def SamePlaces (t t' : SectorTable) : Prop :=
  ∀ side, (t side).map Sector.place = (t' side).map Sector.place

theorem samePlaces_add {t t' : SectorTable} {s s' : Sector} (same : SamePlaces t t')
    (place : s.place = s'.place) (side : Fin 2) : SamePlaces (t.add side s) (t'.add side s') := by
  intro i
  have len : (t side).length = (t' side).length := by
    have := congrArg List.length (same side)
    rwa [List.length_map, List.length_map] at this
  unfold SectorTable.add
  rw [len]
  by_cases full : 256 ≤ (t' side).length
  · rw [if_pos full, if_pos full]
    exact same i
  · rw [if_neg full, if_neg full]
    by_cases here : i = side
    · simp only [if_pos here, List.map_append, same i, List.map_cons, place, List.map_nil]
    · simp only [if_neg here, same i]

theorem samePlaces_addMapped (track track' : Nat) (buffer : Fin 2) (map : List (Fin 2 × Nat))
    (pos : Nat) {t t' : SectorTable} (same : SamePlaces t t') :
    SamePlaces (addMapped track buffer map pos t) (addMapped track' buffer map pos t') := by
  induction map generalizing pos t t' with
  | nil => exact same
  | cons entry map ih =>
    refine ih _ (samePlaces_add same ?_ entry.1)
    rfl

/-- Where the sectors of an XDF track lie does not depend on the track, but for track 0. -/
theorem xdfTrackRest_places (x : Fin 5) (track track' : Nat) :
    SamePlaces (xdfTrackRest x track fun _ => []) (xdfTrackRest x track' fun _ => []) :=
  samePlaces_addMapped track track' 1 _ 0
    (samePlaces_addMapped track track' 0 _ 0 fun _ => rfl)

/-- The maps of the high density formats fit the buffer. -/
theorem inside_xdf {x : Fin 5} (high : x = 0 ∨ x = 1 ∨ x = 3) (xdf : img.xdfType = some x)
    (size : img.sectorSize = 512) (few : img.sectors ≤ 40) (doublestep : Bool) :
    (imgSeek img doublestep track).Inside := by
  have zero : ∀ side, ∀ s ∈ xdfTrackZero x (fun _ => []) side, s.pos + s.len ≤ trackDataSize := by
    rcases high with rfl | rfl | rfl <;> decide +kernel
  have rest : ∀ side, ∀ p ∈ (xdfTrackRest x 1 (fun _ => []) side).map Sector.place,
      p.1 + p.2 ≤ trackDataSize := by
    rcases high with rfl | rfl | rfl <;> decide +kernel
  refine ⟨fun r read => ?_, fun side s member => ?_⟩
  · rw [imgSeek_len read, size]
    unfold trackDataSize
    omega
  · rw [imgSeek_sectors, Img.register, xdf] at member
    dsimp only at member
    split at member
    · exact zero side s member
    · have place : s.place ∈ _ := List.mem_map_of_mem member
      rw [xdfTrackRest_places x _ 1 side] at place
      exact rest side _ place

end Seeks

/-! ## Loads -/

/-- A geometry by file size fits the buffer. -/
theorem guessGeometry_bounds (size : Int) :
    (guessGeometry size).1 ≤ 36 ∧
      ((guessGeometry size).2.2.1 = 1 ∨ (guessGeometry size).2.2.1 = 2) := by
  unfold guessGeometry
  repeat' split
  all_goals decide

theorem imgLoad_guess {bpbDisable : Bool} {f : ImageFile}
    (guess : bpbDisable = true ∨ f.bpb.Wacky) :
    ∃ img, imgLoad bpbDisable f = .loaded img ∧ img.Plain ∧ img.sectors ≤ 40 := by
  obtain ⟨few, sides⟩ := guessGeometry_bounds f.size
  unfold imgLoad
  dsimp only
  rw [if_pos guess]
  refine ⟨_, rfl, ⟨rfl, sides, rfl, ?_⟩, ?_⟩
  · dsimp only
    omega
  · dsimp only
    omega

/-- `xdf_type` of a BPB, or `none` where the file is rejected. -/
def Bpb.outcome (b : Bpb) : Option (Option (Fin 5)) := b.rate.bind fun r => b.xdf r.1 r.2

section Loads

variable {b b' : Bpb}

theorem rate_none : b.rate = none ↔ 25000 < b.bytesPerTrack := by
  unfold Bpb.rate
  repeat' split
  all_goals simp only [reduceCtorEq, false_iff, true_iff]
  all_goals omega

theorem outcome_of_ne (other : b.bps ≠ 512) :
    b.outcome = if 25000 < b.bytesPerTrack then none else some none := by
  unfold Bpb.outcome Bpb.xdf
  simp only [if_neg other]
  by_cases big : 25000 < b.bytesPerTrack
  · rw [rate_none.mpr big, if_pos big, Option.bind_none]
  · rw [if_neg big]
    cases eq : b.rate with
    | none => exact absurd (rate_none.mp eq) big
    | some r => rfl

instance (b : Bpb) : Decidable b.Fits := inferInstanceAs (Decidable (_ ∧ _))

/-- The total and the sides play no part, and the media type only as being 0xf0 or not. -/
theorem outcome_congr (bps : b.bps = b'.bps) (sectors : b.sectors = b'.sectors)
    (mid : b.mid = 0xf0 ↔ b'.mid = 0xf0) :
    b.outcome = b'.outcome ∧ (b.Fits ↔ b'.Fits) := by
  unfold Bpb.Fits Bpb.outcome Bpb.rate Bpb.xdf Bpb.bytesPerTrack
  simp only [bps, sectors, mid, ne_eq, and_self]

theorem fits_of_eq (whole : b.bps = 512) (some_ : b.sectors ≠ 0) :
    b.Fits ↔ b.outcome = none ∨ (b.outcome = some none ∧ b.sectors ≤ 40) := by
  by_cases high : b.mid = 0xf0
  · have table : ∀ s : BitVec 8, s ≠ 0 → (Bpb.Fits ⟨512, 0, 0xf0, s, 0⟩ ↔
        Bpb.outcome ⟨512, 0, 0xf0, s, 0⟩ = none ∨
          (Bpb.outcome ⟨512, 0, 0xf0, s, 0⟩ = some none ∧ s ≤ 40)) := by
      decide +kernel
    obtain ⟨outcome, fits⟩ :=
      @outcome_congr b ⟨512, 0, 0xf0, b.sectors, 0⟩ whole rfl (iff_of_true high rfl)
    rw [fits, outcome]
    exact table b.sectors some_
  · have table : ∀ s : BitVec 8, s ≠ 0 → (Bpb.Fits ⟨512, 0, 0, s, 0⟩ ↔
        Bpb.outcome ⟨512, 0, 0, s, 0⟩ = none ∨
          (Bpb.outcome ⟨512, 0, 0, s, 0⟩ = some none ∧ s ≤ 40)) := by
      decide +kernel
    obtain ⟨outcome, fits⟩ :=
      @outcome_congr b ⟨512, 0, 0, b.sectors, 0⟩ whole rfl
        (iff_of_false high (show ¬(0 : BitVec 8) = 0xf0 by decide))
    rw [fits, outcome]
    exact table b.sectors some_

theorem fits_iff (some_ : b.sectors ≠ 0) :
    b.Fits ↔ b.outcome = none ∨ (b.outcome = some none ∧ b.bps = 512 ∧ b.sectors ≤ 40) := by
  by_cases whole : b.bps = 512
  · rw [fits_of_eq whole some_]
    simp only [whole, true_and]
  · rw [outcome_of_ne whole]
    unfold Bpb.Fits
    by_cases big : 25000 < b.bytesPerTrack
    · rw [if_pos big]
      exact ⟨fun _ => .inl rfl, fun _ => ⟨some_, .inl big⟩⟩
    · rw [if_neg big]
      constructor
      · rintro ⟨-, large | ⟨same, -⟩⟩
        · exact absurd large big
        · exact absurd same whole
      · rintro (bad | ⟨-, same, -⟩)
        · cases bad
        · exact absurd same whole

/-- The two ends of a load by BPB. -/
theorem imgLoad_bpb {bpbDisable : Bool} {f : ImageFile}
    (read : ¬(bpbDisable = true ∨ f.bpb.Wacky)) (some_ : f.bpb.sectors ≠ 0) :
    (f.bpb.outcome = none ∧ imgLoad bpbDisable f = .rejected) ∨
      ∃ tracks xdf hole, f.bpb.outcome = some xdf ∧
        imgLoad bpbDisable f =
          .loaded ⟨f.bpb.sectors.toNat, tracks, f.bpb.sides.toNat, 512, xdf, hole⟩ := by
  have nonzero : ¬f.bpb.sides.toNat * f.bpb.sectors.toNat = 0 := by
    have first : f.bpb.sectors.toNat ≠ 0 := fun zero => some_ (BitVec.eq_of_toNat_eq zero)
    have second : f.bpb.sides.toNat ≠ 0 := by
      intro zero
      refine read (.inr (.inl ?_))
      rw [BitVec.lt_def, zero]
      decide
    exact Nat.mul_ne_zero second first
  unfold imgLoad Bpb.outcome
  dsimp only
  rw [if_neg read, if_neg nonzero]
  cases f.bpb.rate with
  | none => exact .inl ⟨rfl, rfl⟩
  | some r =>
    obtain ⟨rate, maxSpt⟩ := r
    dsimp only [Option.bind_some]
    cases f.bpb.xdf rate maxSpt with
    | none => exact .inl ⟨rfl, rfl⟩
    | some xdf => exact .inr ⟨_, _, _, rfl, rfl⟩

end Loads

/-- An image file of any length and content: the load does not divide by zero, and every seek stays
in its buffers and finds the sectors where the BPB says, exactly when the BPB is not used or it
fits the buffer. -/
theorem imgUsable_iff (bpbDisable : Bool) (f : ImageFile) :
    ImgUsable bpbDisable f ↔ bpbDisable = true ∨ f.bpb.Wacky ∨ f.bpb.Fits := by
  rw [← or_assoc]
  unfold ImgUsable
  by_cases guess : bpbDisable = true ∨ f.bpb.Wacky
  · obtain ⟨img, loaded, plain, few⟩ := imgLoad_guess guess
    rw [loaded]
    exact ⟨fun _ => .inl guess, fun _ clamp type old diff =>
      ⟨inside_plain plain few _, fun read => absurd guess read⟩⟩
  rw [or_iff_right guess]
  have sides : f.bpb.sides.toNat = 1 ∨ f.bpb.sides.toNat = 2 := by
    have low : ¬f.bpb.sides < 1 := fun bad => guess (.inr (.inl bad))
    have high : ¬2 < f.bpb.sides := fun bad => guess (.inr (.inr (.inl bad)))
    rw [BitVec.lt_def] at low high
    change ¬f.bpb.sides.toNat < 1 at low
    change ¬2 < f.bpb.sides.toNat at high
    omega
  have bytes : f.bpb.bps.toNat ≠ 0 := by
    have low : ¬f.bpb.bps < 128 := fun bad => guess (.inr (.inr (.inr (.inl bad))))
    rw [BitVec.lt_def] at low
    change ¬f.bpb.bps.toNat < 128 at low
    omega
  by_cases some_ : f.bpb.sectors = 0
  · have divided : imgLoad bpbDisable f = .divisionByZero := by
      unfold imgLoad
      dsimp only
      rw [if_neg guess, some_]
      exact if_pos (Nat.mul_zero _)
    rw [divided]
    exact ⟨False.elim, fun fits => fits.1 some_⟩
  have positive : 0 < f.bpb.sectors.toNat :=
    Nat.pos_of_ne_zero fun zero => some_ (BitVec.eq_of_toNat_eq zero)
  rw [fits_iff some_]
  obtain ⟨none_, rejected⟩ | ⟨tracks, xdf, hole, outcome, loaded⟩ := imgLoad_bpb guess some_
  · rw [rejected]
    exact ⟨fun _ => .inl none_, fun _ => trivial⟩
  rw [loaded, outcome]
  simp only [reduceCtorEq, false_or, Option.some.injEq]
  cases xdf with
  | some x =>
    constructor
    · intro usable
      have backed := (usable 4 4 0 0).2 guess
      exact absurd backed (not_backed_xdf rfl sides positive rfl bytes _)
    · rintro ⟨plain, -⟩
      cases plain
  | none =>
    have plain : Img.Plain ⟨f.bpb.sectors.toNat, tracks, f.bpb.sides.toNat, 512, none, hole⟩ :=
      ⟨rfl, sides, rfl, by have := f.bpb.sectors.isLt; dsimp only; omega⟩
    constructor
    · intro usable
      obtain ⟨inside, backed⟩ := usable 4 4 0 0
      refine ⟨rfl, ?_, ?_⟩
      · by_contra other
        refine not_backed_size plain positive ?_ (backed guess)
        exact fun same => other (BitVec.eq_of_toNat_eq same)
      · by_contra many
        rw [BitVec.le_def] at many
        change ¬f.bpb.sectors.toNat ≤ 40 at many
        exact not_inside rfl (by dsimp only; omega) inside
    · rintro ⟨-, whole, few⟩ clamp type old diff
      rw [BitVec.le_def] at few
      rw [whole]
      exact ⟨inside_plain plain few _,
        fun _ => backed_plain plain few (fddSeek_le clamp old diff) _⟩

/-- A file whose BPB says two sides, 512 bytes and no sectors: the number of tracks is divided by
zero. -/
theorem not_imgUsable_noSectors :
    ¬ImgUsable false ⟨List.replicate 11 0 ++ [0, 2] ++ List.replicate 13 0 ++ [2], 0, 0⟩ := by
  intro usable
  have divided : imgLoad false
      ⟨List.replicate 11 0 ++ [0, 2] ++ List.replicate 13 0 ++ [2], 0, 0⟩ = .divisionByZero := by
    decide
  unfold ImgUsable at usable
  rw [divided] at usable
  exact usable

end PCemWeb
