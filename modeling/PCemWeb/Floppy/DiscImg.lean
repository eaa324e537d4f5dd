/-!
# Floppy images

`disc/disc_img.c` with `disc_sector_add` of `disc_sector.c` and the drive types of `fdd.c`: how
`img_load` finds the geometry of an image file, and what `img_seek` reads into `track_data` and
registers. No code looks at the bytes of a track, so `track_data` is modelled by the positions in
the file that its bytes come from.
-/

namespace PCemWeb

/-! ## Files -/

/-- An image file, with what the two words of `img_load` hold before they are read. -/
structure ImageFile : Type where
  bytes : List (BitVec 8)
  oldBps : BitVec 16
  oldTotal : BitVec 16

namespace ImageFile

variable (f : ImageFile)

/-- `fread` of two bytes into a word: past the end of the file the word keeps its bytes. -/
def freadWord (pos : Nat) (old : BitVec 16) : BitVec 16 :=
  f.bytes[pos + 1]?.getD (old.extractLsb' 8 8) ++ f.bytes[pos]?.getD (old.setWidth 8)

/-- `fgetc` after `fseek`. -/
def fgetc (pos : Nat) : BitVec 8 := f.bytes[pos]?.getD 0xff

/-- `ftell` after `fseek (f, -1, SEEK_END)`. In an empty file the seek fails and the position is
still the one after the last `fgetc`; a position that a `long` cannot hold is -1. -/
def ftellLast : Int :=
  if f.bytes.length = 0 then 0x1a
  else if f.bytes.length ≤ 2147483648 then f.bytes.length - 1
  else -1

/-- `size`, a 32-bit sum. -/
def size : Int := (f.ftellLast + 1).bmod 4294967296

end ImageFile

/-! ## Geometry -/

/-- `bit_rate_300`; the third is `500.0 * 300.0 / 360.0`. -/
inductive BitRate : Type
  | kbps250
  | kbps300
  | kbps416
  | kbps500
  | kbps1000
  deriving DecidableEq

/-- The fields of `img[drive]` that seeks use. `xdfType` is `xdf_type - 1`. -/
structure Img : Type where
  sectors : Nat
  tracks : Nat
  sides : Nat
  sectorSize : Nat
  xdfType : Option (Fin 5)
  hole : Nat
  deriving DecidableEq

/-- How `img_load` ends. -/
inductive ImgLoad : Type
  | divisionByZero
  | rejected
  | loaded (img : Img)
  deriving DecidableEq

/-- The fields of the BPB that are read. -/
structure Bpb : Type where
  bps : BitVec 16
  total : BitVec 16
  mid : BitVec 8
  sectors : BitVec 8
  sides : BitVec 8

/-- The reads at the head of `img_load`. -/
def ImageFile.bpb (f : ImageFile) : Bpb where
  bps := f.freadWord 0x0b f.oldBps
  total := f.freadWord 0x13 f.oldTotal
  mid := f.fgetc 0x15
  sectors := f.fgetc 0x18
  sides := f.fgetc 0x1a

/-- The geometry for a file without a BPB: sectors, tracks, sides and bit rate by size. -/
def guessGeometry (size : Int) : Nat × Nat × Nat × BitRate :=
  if size ≤ 160 * 1024 then (8, 40, 1, .kbps250)
  else if size ≤ 180 * 1024 then (9, 40, 1, .kbps250)
  else if size ≤ 320 * 1024 then (8, 40, 2, .kbps250)
  else if size ≤ 360 * 1024 then (9, 40, 2, .kbps250)
  else if size < 1024 * 1024 then (9, 80, 2, .kbps250)
  else if size ≤ 1228800 then (15, 80, 2, .kbps416)
  else if size ≤ 0x1a4000 - 1 then (18, 80, 2, .kbps500)
  else if size ≤ 2000000 then (21, 80, 2, .kbps500)
  else (36, 80, 2, .kbps1000)

namespace Bpb

variable (b : Bpb)

/-- The test that sends `img_load` to the file size. -/
def Wacky : Prop := b.sides < 1 ∨ 2 < b.sides ∨ b.bps < 128 ∨ 2048 < b.bps

instance : Decidable b.Wacky := inferInstanceAs (Decidable (_ ∨ _))

/-- `bpt`. -/
def bytesPerTrack : Nat := b.sectors.toNat * b.bps.toNat

/-- The bit rate and `max_spt` by bytes per track. -/
def rate : Option (BitRate × Nat) :=
  if b.bytesPerTrack ≤ 6250 then some (.kbps250, 0)
  else if b.bytesPerTrack ≤ 7500 then some (.kbps300, 0)
  else if b.bytesPerTrack ≤ 10416 then
    some (if b.mid = 0xf0 then (.kbps500, 22) else (.kbps416, 18))
  else if b.bytesPerTrack ≤ 12500 then some (.kbps500, 22)
  else if b.bytesPerTrack ≤ 25000 then some (.kbps1000, 45)
  else none

/-- `xdf_type`, or `none` for the sector counts that are given up. -/
def xdf (rate : BitRate) (maxSpt : Nat) : Option (Option (Fin 5)) :=
  if b.bps = 512 then
    if rate = .kbps250 ∨ rate = .kbps300 then some none
    else if maxSpt < b.sectors.toNat then
      if b.sectors = 19 then some (some 0)
      else if b.sectors = 23 then some (some 1)
      else if b.sectors = 24 then some (some 3)
      else if b.sectors = 46 then some (some 2)
      else if b.sectors = 48 then some (some 4)
      else none
    else some none
  else some none

end Bpb

/-- `hole`. -/
def BitRate.hole (rate : BitRate) : Nat :=
  if rate = .kbps250 ∨ rate = .kbps300 then 0 else if rate = .kbps1000 then 2 else 1

/-- `img_load` of a file that opens. -/
def imgLoad (bpbDisable : Bool) (f : ImageFile) : ImgLoad :=
  let b := f.bpb
  if bpbDisable = true ∨ b.Wacky then
    let (sectors, tracks, sides, rate) := guessGeometry f.size
    .loaded ⟨sectors, tracks, sides, 512, none, rate.hole⟩
  else if b.sides.toNat * b.sectors.toNat = 0 then .divisionByZero
  else
    let tracks := b.total.toNat / (b.sides.toNat * b.sectors.toNat)
    match b.rate with
    | none => .rejected
    | some (rate, maxSpt) =>
        match b.xdf rate maxSpt with
        | none => .rejected
        | some xdf => .loaded ⟨b.sectors.toNat, tracks, b.sides.toNat, 512, xdf, rate.hole⟩

/-! ## Sectors -/

/-- `sector_t`; `data` is `&track_data[buffer][pos]`. -/
structure Sector : Type where
  c : BitVec 8
  h : BitVec 8
  r : BitVec 8
  n : BitVec 8
  buffer : Fin 2
  pos : Nat
  deriving DecidableEq

/-- Its bytes. -/
def Sector.len (s : Sector) : Nat := 128 <<< s.n.toNat

/-- `disc_sector_data[drive]` up to `disc_sector_count`. -/
abbrev SectorTable : Type := Fin 2 → List Sector

/-- `disc_sector_add`, with `MAX_SECTORS`. -/
def SectorTable.add (side : Fin 2) (s : Sector) (t : SectorTable) : SectorTable :=
  if 256 ≤ (t side).length then t else fun i => if i = side then t i ++ [s] else t i

/-- `xdf_track0`: sectors of a FAT and of a side of track 0. -/
def xdfTrack0 : Fin 5 → Nat × Nat
  | 0 => (9, 17)
  | 1 => (11, 19)
  | 2 => (22, 37)
  | 3 => (12, 20)
  | 4 => (21, 39)

/-- `xdf_spt`. -/
def xdfSpt : Fin 5 → Nat
  | 0 => 3
  | 1 => 4
  | 2 => 4
  | 3 => 2
  | 4 => 2

/-- `xdf_map`: side and size of each sector. -/
def xdfMap : Fin 5 → List (Fin 2 × Nat)
  | 0 => [(0, 3), (0, 6), (1, 2), (0, 2), (1, 6), (1, 3)]
  | 1 => [(0, 3), (0, 4), (1, 6), (0, 2), (1, 2), (0, 6), (1, 4), (1, 3)]
  | 2 => [(0, 3), (0, 4), (0, 5), (0, 7), (1, 3), (1, 4), (1, 5), (1, 7)]
  | 3 => [(0, 5), (1, 6), (0, 6), (1, 5)]
  | 4 => [(0, 6), (1, 7), (0, 7), (1, 6)]

/-- A loop that registers `count` sectors of 512 bytes of a side, with numbers from `first`, one
after the other from `pos`. -/
def addSectors (side buffer : Fin 2) (track first count pos : Nat)
    (t : SectorTable) : SectorTable :=
  (List.range count).foldl
    (fun t sector => t.add side ⟨.ofNat 8 track, .ofNat 8 side, .ofNat 8
      (first + sector), 2, buffer,
      pos + 512 * sector⟩) t

/-- Track 0 of an XDF image. The buffer of side 0 holds a sector of side 1. -/
def xdfTrackZero (x : Fin 5) (t : SectorTable) : SectorTable :=
  let fat := (xdfTrack0 x).1
  let t := addSectors 0 0 0 0x81 fat 0 t
  let t := addSectors 1 0 0 0x81 1 (512 * fat) t
  let t := addSectors 0 0 0 1 8 (512 * fat + 512) t
  let t := addSectors 1 1 0 0x82 14 0 t
  addSectors 1 1 0 (0x82 + 14) ((xdfTrack0 x).2 - 1 - 14) (14 * 512 + 5 * 512) t

/-- Sectors of several sizes, one after the other in a buffer. -/
def addMapped (track : Nat) (buffer : Fin 2) : List (Fin 2 × Nat) → Nat → SectorTable → SectorTable
  | [], _, t => t
  | (side, n) :: map, pos, t =>
      addMapped track buffer map (pos + 128 <<< n)
        (t.add side ⟨.ofNat 8 track, .ofNat 8 side, .ofNat 8 (n + 0x80), .ofNat 8 n, buffer, pos⟩)

/-- Any other track of an XDF image. -/
def xdfTrackRest (x : Fin 5) (track : Nat) (t : SectorTable) : SectorTable :=
  let t := addMapped track 0 ((xdfMap x).take (xdfSpt x)) 0 t
  addMapped track 1 (((xdfMap x).drop (xdfSpt x)).take (xdfSpt x)) 0 t

/-! ## Seeks -/

/-- An `fread` into `track_data[buffer]`. -/
structure TrackRead : Type where
  buffer : Fin 2
  filePos : Nat
  len : Nat

/-- What a seek leaves: `disc_track`, the reads and the registered sectors. -/
structure TrackLoad : Type where
  track : Nat
  reads : List TrackRead
  sectors : SectorTable

/-- `img_sector_size_code`. -/
def Img.sectorSizeCode (img : Img) : BitVec 8 :=
  if img.sectorSize = 128 then 0
  else if img.sectorSize = 256 then 1
  else if img.sectorSize = 1024 then 3
  else if img.sectorSize = 2048 then 4
  else if img.sectorSize = 4096 then 5
  else if img.sectorSize = 8192 then 6
  else if img.sectorSize = 16384 then 7
  else 2

/-- The last loops of `img_seek`: the sectors of one side of a plain image. -/
def Img.addSide (img : Img) (track : Nat) (t : SectorTable) (side : Fin 2) : SectorTable :=
  (List.range img.sectors).foldl
    (fun t sector => t.add side ⟨.ofNat 8 track, .ofNat 8 side, .ofNat 8 (sector + 1),
      img.sectorSizeCode, side, sector * img.sectorSize⟩) t

/-- The sectors that a seek registers, after both sides are reset. -/
def Img.register (img : Img) (track : Nat) : SectorTable :=
  match img.xdfType with
  | some x =>
      if track = 0 then xdfTrackZero x fun _ => [] else xdfTrackRest x track fun _ => []
  | none => ([0, 1].take img.sides).foldl (img.addSide track) fun _ => []

/-- `img_seek`. -/
def imgSeek (img : Img) (doublestep : Bool) (track : Nat) : TrackLoad :=
  let track := if img.tracks ≤ 41 ∧ doublestep = true then track / 2 else track
  let len := img.sectors * img.sectorSize
  let reads : List TrackRead :=
    if img.sides = 2 then
      [⟨0, track * img.sectors * img.sectorSize * 2, len⟩,
        ⟨1, track * img.sectors * img.sectorSize * 2 + len, len⟩]
    else [⟨0, track * img.sectors * img.sectorSize, len⟩]
  ⟨track, reads, img.register track⟩

/-! ## Drives -/

/-- `max_track` of `drive_types`; `fdd_seek` keeps the track from 0 to it. -/
def maxTrack (type : Fin 8) : Nat :=
  if type.val = 0 then 0 else if type.val = 1 then 41 else 82

/-- `FLAG_DOUBLE_STEP`, which `fdd_doublestep_40` tests. -/
def doublestep40 (type : Fin 8) : Bool := type.val = 2 ∨ type.val = 3

/-- `fdd_seek`: the track that the seek of the image is called with. -/
def fddSeek (type : Fin 8) (track trackDiff : Int) : Int :=
  let track := track + trackDiff
  let track := if track < 0 then 0 else track
  if maxTrack type < track then maxTrack type else track

end PCemWeb
