import PCemWeb.Ide.HddFile
import PCemWeb.Lib.Bytes

/-!
# The content of a disk image

`hdd_read_sectors`, `hdd_write_sectors` and `hdd_format_sectors` on raw, RAM-disk and browser images,
with the bytes that they move. A raw image is a stream with a position, a RAM disk a buffer with a
cursor, a browser image is addressed by each request. `int` arithmetic wraps, and `size_t` has 32
bits.
-/

namespace PCemWeb.Ide

open PCemWeb.Lib

namespace BackEnd

inductive Kind
  | raw
  | rawRam
  | browser
deriving DecidableEq, Repr

inductive Op
  | read
  | write
  | format
deriving DecidableEq, Repr

/-- `MAX_STREAM_SIZE`. -/
def maxStreamSize : Nat := 2147483647

/-- `hdd_file_t`, and the allocation of a RAM disk, which `hdd_load_ext` makes larger than the
image. -/
structure Image where
  kind : Kind
  sectors : Nat
  readOnly : Bool
  capacity : Nat
  positive : 0 < sectors
  small : sectors < 2147483648
  room : kind = .rawRam → sectors * 512 < capacity ∧ capacity ≤ maxStreamSize

/-- What an image holds: its bytes (those past `size` are what it would grow by), the position of
its stream or cursor, and the allocation of a RAM disk. -/
structure Store where
  size : Nat
  bytes : Nat → Byte
  pos : Nat
  capacity : Nat

/-- What the host answers during a call: how many bytes of its transfer number `c` are moved where
it fails, and the allocation after a RAM disk asked for more. -/
structure Host where
  short : Nat → Option Nat
  realloc : Nat → Option Nat

structure Outcome where
  ret : Int
  store : Store
  buffer : Nat → Byte

/-! ## Arithmetic -/

def wrapInt (x : Int) : Int :=
  (x + 2147483648) % 4294967296 - 2147483648

def toSize (x : Int) : Nat :=
  (x % 4294967296).toNat

def transferSectors (sectors : Nat) (offset : Int) (nrSectors : Nat) : Int :=
  if wrapInt (sectors - offset) < nrSectors then wrapInt (sectors - offset) else nrSectors

/-- The bytes moved of those asked for. -/
def granted (answer : Option Nat) (asked : Nat) : Nat :=
  match answer with
  | none => asked
  | some k => min k (asked - 1)

/-! ## Streams -/

/-- `fseeko64` from the start. -/
def fseek (s : Store) (addr : Int) : Store :=
  if addr < 0 then s else { s with pos := addr.toNat }

def fread (answer : Option Nat) (s : Store) (buffer : Nat → Byte) (size : Nat) :
    Store × (Nat → Byte) :=
  let moved := granted answer (min size (s.size - s.pos))
  ({ s with pos := s.pos + moved }, overlay buffer 0 (slice s.bytes s.pos moved))

def fwrite (answer : Option Nat) (s : Store) (buffer : Nat → Byte) (size : Nat) : Store :=
  let moved := granted answer size
  { s with
    bytes := overlay s.bytes s.pos (slice buffer 0 moved)
    pos := s.pos + moved
    size := if moved = 0 then s.size else max s.size (s.pos + moved) }

/-! ## RAM disks -/

def ramdiskSeek (s : Store) (addr : Int) : Store :=
  if maxStreamSize < toSize addr then s else { s with pos := toSize addr }

/-- The size of a transfer, cut at the end of the stream. -/
def ramdiskClip (s : Store) (size : Nat) : Nat :=
  if toSize (maxStreamSize - size) < s.pos then maxStreamSize - s.pos else size

def ramdiskRead (s : Store) (buffer : Nat → Byte) (size : Nat) : Store × (Nat → Byte) :=
  let size := ramdiskClip s size
  if size = 0 then (s, buffer)
  else if s.size < s.pos then (s, buffer)
  else
    let written := min (s.size - s.pos) size
    ({ s with pos := s.pos + written }, overlay buffer 0 (slice s.bytes s.pos written))

/-- `ramdisk_stream_grow`; the size it asks of the heap and the heap's answer are one. -/
def ramdiskGrow (host : Host) (s : Store) (required : Nat) : Option Store :=
  if toSize (maxStreamSize - required) < s.pos then none
  else
    let required := (required + s.pos) % 4294967296
    if required ≤ s.capacity then some s
    else (host.realloc required).map fun capacity => { s with capacity := capacity }

def ramdiskWrite (host : Host) (s : Store) (buffer : Nat → Byte) (size : Nat) : Store :=
  let size := ramdiskClip s size
  match ramdiskGrow host s size with
  | none => s
  | some s =>
    if s.capacity < s.pos then s
    else
      let written := min (s.capacity - s.pos) size
      { s with
        bytes := overlay s.bytes s.pos (slice buffer 0 written)
        pos := s.pos + written
        size := max s.size (s.pos + written) }

/-! ## Browser images -/

/-- The check of `diskio_rw`: the request lies inside the image. -/
def diskioInside (s : Store) (byteOffset : Nat) (len : Int) : Bool :=
  (byteOffset : Int) + len ≤ s.size

/-- `(uint64_t)offset * 512`. -/
def byteOffset (offset : Int) : Nat :=
  (offset * 512 % 18446744073709551616).toNat

/-- `wasm_diskio_read`; `true` for a failure. -/
def diskioRead (answer : Option Nat) (s : Store) (offset : Nat) (len : Int)
    (buffer : Nat → Byte) : Bool × (Nat → Byte) :=
  if !diskioInside s offset len then (true, buffer)
  else
    let moved := granted answer len.toNat
    (moved != len.toNat, overlay buffer 0 (slice s.bytes offset moved))

def diskioWrite (answer : Option Nat) (s : Store) (offset : Nat) (len : Int)
    (buffer : Nat → Byte) : Bool × Store :=
  if !diskioInside s offset len then (true, s)
  else
    let moved := granted answer len.toNat
    (moved != len.toNat, { s with bytes := overlay s.bytes offset (slice buffer 0 moved) })

/-! ## The three calls -/

def zeros : Nat → Byte := fun _ => 0

/-- `nr_sectors != transfer_sectors`. -/
def partly (nrSectors : Nat) (transfer : Int) : Int :=
  if (nrSectors : Int) ≠ transfer then 1 else 0

variable (img : Image) (host : Host) (offset : Int) (nrSectors : Nat) (s : Store)
  (buffer : Nat → Byte)

def hddReadSectors : Outcome :=
  let transfer := transferSectors img.sectors offset nrSectors
  match img.kind with
  | .browser =>
    if transfer ≤ 0 then ⟨1, s, buffer⟩
    else
      let done := diskioRead (host.short 0) s (byteOffset offset) (wrapInt (transfer * 512)) buffer
      ⟨if done.1 then 1 else partly nrSectors transfer, s, done.2⟩
  | .raw =>
    let done := fread (host.short 0) (fseek s (offset * 512)) buffer (toSize (transfer * 512))
    ⟨partly nrSectors transfer, done.1, done.2⟩
  | .rawRam =>
    let done := ramdiskRead (ramdiskSeek s (offset * 512)) buffer (toSize (transfer * 512))
    ⟨partly nrSectors transfer, done.1, done.2⟩

def hddWriteSectors : Outcome :=
  let transfer := transferSectors img.sectors offset nrSectors
  if img.readOnly then ⟨1, s, buffer⟩
  else
    match img.kind with
    | .browser =>
      if transfer ≤ 0 then ⟨1, s, buffer⟩
      else
        let done := diskioWrite (host.short 0) s (byteOffset offset) (wrapInt (transfer * 512))
          buffer
        ⟨if done.1 then 1 else partly nrSectors transfer, done.2, buffer⟩
    | .raw =>
      ⟨partly nrSectors transfer,
        fwrite (host.short 0) (fseek s (offset * 512)) buffer (toSize (transfer * 512)), buffer⟩
    | .rawRam =>
      ⟨partly nrSectors transfer,
        ramdiskWrite host (ramdiskSeek s (offset * 512)) buffer (toSize (transfer * 512)), buffer⟩

/-- The loop over the sectors of a browser image, which a failure leaves. -/
def browserZero : (left c : Nat) → Store → Bool × Store
  | 0, _, s => (false, s)
  | left + 1, c, s =>
    let done := diskioWrite (host.short c) s (byteOffset (wrapInt (offset + c))) 512 zeros
    if done.1 then done else browserZero left (c + 1) done.2

def rawZero : (left c : Nat) → Store → Store
  | 0, _, s => s
  | left + 1, c, s => rawZero left (c + 1) (fwrite (host.short c) s zeros 512)

def ramZero : (left : Nat) → Store → Store
  | 0, s => s
  | left + 1, s => ramZero left (ramdiskWrite host s zeros 512)

def hddFormatSectors : Outcome :=
  let transfer := transferSectors img.sectors offset nrSectors
  if img.readOnly then ⟨1, s, buffer⟩
  else
    match img.kind with
    | .browser =>
      let done := browserZero host offset transfer.toNat 0 s
      ⟨if done.1 then 1 else partly nrSectors transfer, done.2, buffer⟩
    | .raw =>
      ⟨partly nrSectors transfer, rawZero host transfer.toNat 0 (fseek s (offset * 512)), buffer⟩
    | .rawRam =>
      ⟨partly nrSectors transfer, ramZero host transfer.toNat (ramdiskSeek s (offset * 512)),
        buffer⟩

def run (op : Op) : Outcome :=
  match op with
  | .read => hddReadSectors img host offset nrSectors s buffer
  | .write => hddWriteSectors img host offset nrSectors s buffer
  | .format => hddFormatSectors img host offset nrSectors s buffer

end BackEnd

end PCemWeb.Ide
