import Mathlib.Data.List.Basic
import Mathlib.Tactic.Common

/-!
# Hard disk images

`hdd_read_sectors`, `hdd_write_sectors` and `hdd_format_sectors` over the four kinds of image. A
call is told what the medium answers (`Medium`) and says what it returns and how many bytes it
moves to or from the caller's buffer; `none` stands for a lookup outside the block table of a VHD
image. `starts` is the condition under which a request is clipped to a size that fits, and
`Carried` the one under which the call returns 0.
-/

namespace PCemWeb.Ide

abbrev Byte := BitVec 8

/-! ## VHD images -/

/-- What `mvhd_io.c` uses of an open image. The block table covers the sectors of the image, as
its header promises. -/
structure Vhd where
  fixed : Bool
  totalSectors : Nat
  sectPerBlock : Nat
  entries : Nat
  positive : 0 < sectPerBlock
  covers : totalSectors ≤ sectPerBlock * entries
  small : totalSectors < 4294967296

/-- The sectors of the image after `offset`, in `uint32_t`. -/
def Vhd.rest (v : Vhd) (offset : Nat) : Nat := (v.totalSectors + 4294967296 - offset) % 4294967296

/-- `transfer_sect` of `mvhd_check_sectors`. -/
def Vhd.checkSectors (v : Vhd) (offset numSectors : Nat) : Nat :=
  if v.rest offset < numSectors then v.rest offset else numSectors

/-- The bytes that a transfer from `offset` moves. A dynamic image looks the block of each sector
up in its table. -/
def Vhd.transfer (v : Vhd) (offset numSectors : Nat) : Option Nat :=
  let transferSectors := v.checkSectors offset numSectors
  let ls := (offset + transferSectors) % 4294967296
  if v.fixed then some (transferSectors * 512)
  else if ls ≤ offset then some 0
  else if (ls - 1) / v.sectPerBlock < v.entries then some (transferSectors * 512)
  else none

/-- The offsets and counts of the writes of `mvhd_format_sectors`; its buffer has 64 sectors. -/
def formatChunks (offset numSectors : Nat) : List (Nat × Nat) :=
  ((List.range (numSectors / 64)).map fun i => (offset + 64 * i, 64)) ++
    [(offset + 64 * (numSectors / 64), numSectors % 64)]

/-! ## Images -/

inductive Image
  | raw
  | rawRam
  | browser
  | vhd (v : Vhd)

/-- `hdd_file_t`. -/
structure HddFile where
  spt : Nat
  hpc : Nat
  sectors : Int
  readOnly : Bool
  image : Image

/-- What the medium answers during one call: whether `wasm_diskio_read` and `wasm_diskio_write`
succeed, how many bytes a stream holds or takes from the requested position on (a failing browser
request moves so many before it fails), and the bytes that are read. -/
structure Medium where
  ok : Bool
  avail : Nat
  bytes : Nat → Byte

/-- What a call returns, and the bytes it moves. -/
structure Transfer where
  ret : Int
  moved : Nat

/-- `transfer_sectors` of the three calls. -/
def HddFile.transferSectors (h : HddFile) (offset : Int) (nrSectors : Nat) : Int :=
  if h.sectors - offset < nrSectors then h.sectors - offset else nrSectors

/-- `sectors * 512` as the `size_t` of a 32-bit build. -/
def byteCount (sectors : Int) : Nat := (sectors * 512 % 4294967296).toNat

/-- The result of a call that moved `moved` bytes for `transferSectors` of the sectors. -/
def partly (nrSectors : Nat) (transferSectors : Int) (moved : Nat) : Transfer :=
  ⟨if (nrSectors : Int) ≠ transferSectors then 1 else 0, moved⟩

/-- `offset` as the `uint32_t` that the VHD functions take. -/
def toUInt32 (offset : Int) : Nat := (offset % 4294967296).toNat

variable (h : HddFile) (offset : Int) (nrSectors : Nat) (m : Medium)

def hddReadSectors : Option Transfer :=
  let transferSectors := h.transferSectors offset nrSectors
  match h.image with
  | .browser =>
    if transferSectors ≤ 0 then some ⟨1, 0⟩
    else if m.ok then some (partly nrSectors transferSectors (byteCount transferSectors))
    else some ⟨1, min m.avail (byteCount transferSectors)⟩
  | .vhd v =>
    (v.transfer (toUInt32 offset) nrSectors).map fun moved =>
      ⟨nrSectors - v.checkSectors (toUInt32 offset) nrSectors,
        if v.fixed then min m.avail moved else moved⟩
  | .raw | .rawRam =>
    some (partly nrSectors transferSectors (min m.avail (byteCount transferSectors)))

/-- `fwrite` takes all of its buffer, a RAM disk what it has room for. -/
def hddWriteSectors : Option Transfer :=
  let transferSectors := h.transferSectors offset nrSectors
  match h.image with
  | .browser =>
    if h.readOnly then some ⟨1, 0⟩
    else if transferSectors ≤ 0 then some ⟨1, 0⟩
    else if m.ok then some (partly nrSectors transferSectors (byteCount transferSectors))
    else some ⟨1, min m.avail (byteCount transferSectors)⟩
  | .vhd v =>
    -- a read-only VHD image writes through mvhd_noop_write
    if h.readOnly then some ⟨0, 0⟩
    else (v.transfer (toUInt32 offset) nrSectors).map fun moved =>
      ⟨nrSectors - v.checkSectors (toUInt32 offset) nrSectors, moved⟩
  | .raw =>
    if h.readOnly then some ⟨1, 0⟩
    else some (partly nrSectors transferSectors (byteCount transferSectors))
  | .rawRam =>
    if h.readOnly then some ⟨1, 0⟩
    else some (partly nrSectors transferSectors (min m.avail (byteCount transferSectors)))

/-- The bytes written are the call's own zeros. -/
def hddFormatSectors : Option Transfer :=
  let transferSectors := h.transferSectors offset nrSectors
  match h.image with
  | .browser =>
    if h.readOnly then some ⟨1, 0⟩
    else if 0 < transferSectors ∧ m.ok = false then some ⟨1, 0⟩
    else some (partly nrSectors transferSectors 0)
  | .vhd v =>
    if h.readOnly then some ⟨0, 0⟩
    else if (formatChunks (toUInt32 offset) nrSectors).all fun c =>
        (v.transfer (c.1 % 4294967296) c.2).isSome then some ⟨0, 0⟩
    else none
  | .raw | .rawRam =>
    if h.readOnly then some ⟨1, 0⟩
    else some (partly nrSectors transferSectors 0)

/-! ## When a request fits -/

/-- The request does not begin past the end of a raw image or of a VHD image. -/
def HddFile.starts : Bool :=
  match h.image with
  | .browser => true
  | .raw | .rawRam => offset ≤ h.sectors
  | .vhd v => toUInt32 offset ≤ v.totalSectors

/-- A format ends at most one buffer past the end of a VHD image. -/
def HddFile.formatStarts : Bool :=
  match h.image with
  | .vhd v => toUInt32 offset + 64 * (nrSectors / 64) ≤ v.totalSectors
  | _ => true

variable {h offset nrSectors m}

theorem Vhd.checkSectors_le (v : Vhd) (o n : Nat) : v.checkSectors o n ≤ n := by
  simp only [Vhd.checkSectors]
  split <;> omega

/-- A transfer that begins inside the image stays inside its table. -/
theorem Vhd.transfer_defined (v : Vhd) {o n : Nat} (starts : o ≤ v.totalSectors) :
    ∃ moved, v.transfer o n = some moved ∧ moved ≤ n * 512 := by
  have small := v.small
  have rest : v.rest o = v.totalSectors - o := by simp only [Vhd.rest]; omega
  have fits : o + v.checkSectors o n ≤ v.totalSectors := by
    simp only [Vhd.checkSectors, rest]
    split <;> omega
  have bytes : v.checkSectors o n * 512 ≤ n * 512 := Nat.mul_le_mul_right _ (v.checkSectors_le o n)
  have noWrap : (o + v.checkSectors o n) % 4294967296 = o + v.checkSectors o n :=
    Nat.mod_eq_of_lt (by omega)
  simp only [Vhd.transfer, noWrap]
  split
  · exact ⟨_, rfl, bytes⟩
  split
  · exact ⟨_, rfl, Nat.zero_le _⟩
  rename_i moves
  have inTable : (o + v.checkSectors o n - 1) / v.sectPerBlock < v.entries :=
    (Nat.div_lt_iff_lt_mul v.positive).mpr (by have := v.covers; rw [Nat.mul_comm]; omega)
  exact ⟨_, if_pos inTable, bytes⟩

/-- The bytes of a clipped request. -/
theorem byteCount_le {t : Int} (low : 0 ≤ t) (high : t ≤ nrSectors) :
    byteCount t ≤ nrSectors * 512 := by
  simp only [byteCount]
  omega

theorem HddFile.transferSectors_le : h.transferSectors offset nrSectors ≤ nrSectors := by
  simp only [HddFile.transferSectors]
  split <;> omega

theorem HddFile.transferSectors_nonneg (starts : offset ≤ h.sectors) :
    0 ≤ h.transferSectors offset nrSectors := by
  simp only [HddFile.transferSectors]
  split <;> omega

/-- A read that begins inside the image fills no more than the sectors asked for. -/
theorem hddReadSectors_defined (starts : h.starts offset = true) :
    ∃ t, hddReadSectors h offset nrSectors m = some t ∧ t.moved ≤ nrSectors * 512 := by
  have upper : h.transferSectors offset nrSectors ≤ nrSectors := HddFile.transferSectors_le
  simp only [hddReadSectors]
  cases image : h.image with
  | browser =>
    by_cases none : h.transferSectors offset nrSectors ≤ 0
    · exact ⟨_, if_pos none, Nat.zero_le _⟩
    have bytes := byteCount_le (by omega) upper
    simp only [none, if_false]
    split
    · exact ⟨_, rfl, bytes⟩
    · exact ⟨_, rfl, Nat.le_trans (Nat.min_le_right ..) bytes⟩
  | vhd v =>
    simp only [HddFile.starts, image, decide_eq_true_eq] at starts
    obtain ⟨moved, done, bytes⟩ := v.transfer_defined (n := nrSectors) starts
    refine ⟨_, congrArg (Option.map _) done, ?_⟩
    dsimp only
    split <;> omega
  | raw | rawRam =>
    simp only [HddFile.starts, image, decide_eq_true_eq] at starts
    have lower : 0 ≤ h.transferSectors offset nrSectors := HddFile.transferSectors_nonneg starts
    exact ⟨_, rfl, Nat.le_trans (Nat.min_le_right ..) (byteCount_le lower upper)⟩

/-- A write that begins inside the image takes no more than the sectors given. -/
theorem hddWriteSectors_defined (starts : h.starts offset = true) :
    ∃ t, hddWriteSectors h offset nrSectors m = some t ∧ t.moved ≤ nrSectors * 512 := by
  have upper : h.transferSectors offset nrSectors ≤ nrSectors := HddFile.transferSectors_le
  simp only [hddWriteSectors]
  by_cases readOnly : h.readOnly = true
  · cases h.image <;> exact ⟨_, if_pos readOnly, Nat.zero_le _⟩
  simp only [readOnly, Bool.false_eq_true, if_false]
  cases image : h.image with
  | browser =>
    by_cases none : h.transferSectors offset nrSectors ≤ 0
    · exact ⟨_, if_pos none, Nat.zero_le _⟩
    have bytes := byteCount_le (by omega) upper
    simp only [none, if_false]
    split
    · exact ⟨_, rfl, bytes⟩
    · exact ⟨_, rfl, Nat.le_trans (Nat.min_le_right ..) bytes⟩
  | vhd v =>
    simp only [HddFile.starts, image, decide_eq_true_eq] at starts
    obtain ⟨moved, done, bytes⟩ := v.transfer_defined (n := nrSectors) starts
    exact ⟨_, congrArg (Option.map _) done, bytes⟩
  | raw =>
    simp only [HddFile.starts, image, decide_eq_true_eq] at starts
    have lower : 0 ≤ h.transferSectors offset nrSectors := HddFile.transferSectors_nonneg starts
    exact ⟨_, rfl, byteCount_le lower upper⟩
  | rawRam =>
    simp only [HddFile.starts, image, decide_eq_true_eq] at starts
    have lower : 0 ≤ h.transferSectors offset nrSectors := HddFile.transferSectors_nonneg starts
    exact ⟨_, rfl, Nat.le_trans (Nat.min_le_right ..) (byteCount_le lower upper)⟩

/-- A format that begins each of its writes inside the image stays inside its table. -/
theorem hddFormatSectors_defined (starts : h.formatStarts offset nrSectors = true) :
    ∃ t, hddFormatSectors h offset nrSectors m = some t := by
  simp only [hddFormatSectors]
  by_cases readOnly : h.readOnly = true
  · cases h.image <;> exact ⟨_, if_pos readOnly⟩
  simp only [readOnly, Bool.false_eq_true, if_false]
  cases image : h.image with
  | browser =>
    dsimp only
    split <;> exact ⟨_, rfl⟩
  | vhd v =>
    simp only [HddFile.formatStarts, image, decide_eq_true_eq] at starts
    have small := v.small
    refine ⟨_, if_pos (List.all_eq_true.mpr fun c chunk => ?_)⟩
    have start : c.1 ≤ v.totalSectors := by
      rcases List.mem_append.mp chunk with full | last
      · obtain ⟨i, inRange, rfl⟩ := List.mem_map.mp full
        have := List.mem_range.mp inRange
        dsimp only
        omega
      · obtain rfl := List.mem_singleton.mp last
        exact starts
    rw [Nat.mod_eq_of_lt (by omega)]
    obtain ⟨moved, done, -⟩ := v.transfer_defined (n := c.2) start
    exact Option.isSome_iff_exists.mpr ⟨moved, done⟩
  | raw | rawRam => exact ⟨_, rfl⟩

end PCemWeb.Ide
