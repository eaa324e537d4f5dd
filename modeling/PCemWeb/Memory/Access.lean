import PCemWeb.Lib.WordBytes
import PCemWeb.Memory.Lookup
import PCemWeb.Memory.Mmu

/-!
# Guest accesses

`readmembl` to `writememql` take a linear address. Misaligned accesses within a page go through the
lookup tables, writes to pages that hold code through their page structures, the rest by way of the
translation through the handlers of the memory mappings; misaligned accesses that cross into the
next page are split, after a check of both pages.

Of what a write to RAM does, the masks and the evict list of its page are those of
`Codegen.EvictList`. The notes that the JIT oracle takes are left out.
-/

namespace PCemWeb.Memory

open PCemWeb.Lib

/-- The state that an access reads and writes. -/
structure Bus (w : Nat) where
  mmu : Mmu
  lookups : Lookups w
  memLogicalAddr : BitVec 32

/-- The handlers of a `mem_mapping_t`, where they are given. -/
structure BusHandlers (w : Nat) where
  readB : Option (BitVec 32 → Bus w → BitVec 8 × Bus w)
  readW : Option (BitVec 32 → Bus w → BitVec 16 × Bus w)
  readL : Option (BitVec 32 → Bus w → BitVec 32 × Bus w)
  writeB : Option (BitVec 32 → BitVec 8 → Bus w → Bus w)
  writeW : Option (BitVec 32 → BitVec 16 → Bus w → Bus w)
  writeL : Option (BitVec 32 → BitVec 32 → Bus w → Bus w)

/-- A mapping: RAM, at a displacement of what the bus addresses, or anything else. -/
inductive Region (w : Nat)
  | ram (displacement : BitVec 32)
  | device (handlers : BusHandlers w)

/-- `addr >> 14`. -/
def granule (addr : BitVec 32) : BitVec 18 := addr.extractLsb' 14 18

/-- What stays the same during an access. -/
structure BusEnv (w : Nat) where
  host : Host w
  /-- `wjit_oracle_nofill`. -/
  nofill : Bool
  /-- `pages[].block`. -/
  block : BitVec 20 → BitVec 16
  recompPage : BitVec 32
  /-- `codegen_in_recompile`. -/
  inRecompile : Bool
  rammask : BitVec 32
  readMapping : BitVec 18 → Option (Region w)
  writeMapping : BitVec 18 → Option (Region w)
  /-- The page of RAM that `pages[].mem` points to. -/
  pageMem : BitVec 20 → BitVec 20
  cpuCyrixAlignment : Bool
  timingMisaligned : BitVec 32
  /-- Host pointers hold 32-bit offsets. -/
  wide : 32 ≤ w
  /-- `mem_a20_recalc` masks no bit of an offset into a page. -/
  masksPages : rammask &&& 0xfff = 0xfff
  /-- RAM is displaced by pages. -/
  byPages : ∀ g d, readMapping g = some (.ram d) ∨ writeMapping g = some (.ram d) → d &&& 0xfff = 0
  /-- `mem_alloc` and `mem_remap_top` set `mem` of the pages of RAM. -/
  pagesMem : ∀ p d, writeMapping (granule p) = some (.ram d) →
    pageMem (vpn p) = vpn (p + d) ∧ pageMem (vpn (p + d)) = vpn (p + d)

namespace Bus

variable {w : Nat}

/-- The words of RAM. -/
abbrev ram (s : Bus w) : WordRam := s.mmu.ram

def setRam (s : Bus w) (ram : WordRam) : Bus w := { s with mmu := { s.mmu with ram } }

/-- `mmutranslate_read` or `mmutranslate_write` if `cr0 >> 31`, with `none` for the `0xffffffff` of
a fault. -/
def translate (s : Bus w) (addr : BitVec 32) (rw : Bool) : Option (BitVec 32) × Bus w :=
  if s.mmu.cr0 >>> 31 ≠ 0 then
    let (phys, mmu) := s.mmu.mmutranslatereal addr rw
    (if phys = 0xffffffff then none else some phys, { s with mmu })
  else (some addr, s)

/-- The check of the pages of the first and the last byte of an access. -/
def check (s : Bus w) (first last : BitVec 32) (rw : Bool) : Bool × Bus w :=
  match s.translate first rw with
  | (none, s) => (false, s)
  | (some _, s) =>
    match s.translate last rw with
    | (none, s) => (false, s)
    | (some _, s) => (true, s)

end Bus

namespace BusEnv

variable {w : Nat} (env : BusEnv w)

/-! ## Handlers of RAM -/

def fillEnv (s : Bus w) : FillEnv := ⟨env.nofill, s.mmu.mmuPerm, env.block, env.recompPage⟩

/-- `addreadlookup(mem_logical_addr, addr)`. -/
def fillRead (addr : BitVec 32) (s : Bus w) : Bus w :=
  { s with lookups := s.lookups.addreadlookup env.host (env.fillEnv s) s.memLogicalAddr addr }

/-- `addwritelookup(mem_logical_addr, addr)`. -/
def fillWrite (addr : BitVec 32) (s : Bus w) : Bus w :=
  { s with lookups := s.lookups.addwritelookup env.host (env.fillEnv s) s.memLogicalAddr addr }

/-- A read of RAM at a displacement. -/
def readRam {n : Nat} (load : WordRam → BitVec 32 → BitVec n) (displacement addr : BitVec 32)
    (s : Bus w) : BitVec n × Bus w :=
  let addr := addr + displacement
  let s := env.fillRead addr s
  (load s.ram addr, s)

/-- `&p->mem[addr & 0xfff]`, as an index into `ram`. -/
def inPage (p : BitVec 20) (addr : BitVec 32) : BitVec 32 :=
  env.pageMem p ++ addr.extractLsb' 0 12

/-- A write to a page, unless nothing changes and nothing is being recompiled. -/
def writePage {n : Nat} (load : WordRam → BitVec 32 → BitVec n)
    (store : WordRam → BitVec 32 → BitVec n → WordRam) (addr : BitVec 32) (val : BitVec n)
    (p : BitVec 20) (s : Bus w) : Bus w :=
  if val ≠ load s.ram (env.inPage p addr) ∨ env.inRecompile then
    s.setRam (store s.ram (env.inPage p addr) val)
  else s

/-- `mem_write_ramb_page`. -/
def memWriteRambPage : BitVec 32 → BitVec 8 → BitVec 20 → Bus w → Bus w :=
  env.writePage WordRam.load8 WordRam.store8

/-- `mem_write_ramw_page`. -/
def memWriteRamwPage : BitVec 32 → BitVec 16 → BitVec 20 → Bus w → Bus w :=
  env.writePage WordRam.load16 WordRam.store16

/-- `mem_write_raml_page`. -/
def memWriteRamlPage : BitVec 32 → BitVec 32 → BitVec 20 → Bus w → Bus w :=
  env.writePage WordRam.load32 WordRam.store32

/-- A write to RAM at a displacement, with the write to the page. -/
def writeRam {n : Nat} (writePage : BitVec 32 → BitVec n → BitVec 20 → Bus w → Bus w)
    (displacement addr : BitVec 32) (val : BitVec n) (s : Bus w) : Bus w :=
  let oldaddr := addr
  let addr := addr + displacement
  writePage addr val (vpn oldaddr) (env.fillWrite addr s)

/-- `mem_read_ram` to `mem_write_raml`, and at the displacement `0xA0000 - remap_start_addr`
`mem_read_remapped` to `mem_write_remappedl`. -/
def ramHandlers (displacement : BitVec 32) : BusHandlers w where
  readB := some (env.readRam WordRam.load8 displacement)
  readW := some (env.readRam WordRam.load16 displacement)
  readL := some (env.readRam WordRam.load32 displacement)
  writeB := some (env.writeRam env.memWriteRambPage displacement)
  writeW := some (env.writeRam env.memWriteRamwPage displacement)
  writeL := some (env.writeRam env.memWriteRamlPage displacement)

def handlers : Region w → BusHandlers w
  | .ram displacement => env.ramHandlers displacement
  | .device handlers => handlers

/-- `read_mapping[addr >> 14]`. -/
def reads (addr : BitVec 32) : Option (BusHandlers w) :=
  (env.readMapping (granule addr)).map env.handlers

/-- `write_mapping[addr >> 14]`. -/
def writes (addr : BitVec 32) : Option (BusHandlers w) :=
  (env.writeMapping (granule addr)).map env.handlers

/-! ## Misaligned accesses -/

/-- What a pointer in the lookup tables reaches, as an index into `ram`. -/
def hostIndex (pointer : BitVec w) (addr : BitVec 32) : BitVec 32 :=
  (pointer + addr.setWidth w - env.host.ram).setWidth 32

/-- `cycles -= timing_misaligned`. -/
def chargeMisaligned (charged : Bool) (s : Bus w) : Bus w :=
  if charged then
    { s with lookups := { s.lookups with cycles := s.lookups.cycles - env.timingMisaligned } }
  else s

/-- A misaligned read of twice the width of `half`, or the rest of the read. -/
def readWide {n : Nat} (mask : BitVec 32) (charged : Bool) (fault : BitVec (n + n))
    (half : BitVec 32 → Bus w → BitVec n × Bus w) (step : BitVec 32)
    (load : WordRam → BitVec 32 → BitVec (n + n))
    (mapped : BitVec 32 → Bus w → BitVec (n + n) × Bus w) (addr : BitVec 32) (s : Bus w) :
    BitVec (n + n) × Bus w :=
  let s := { s with memLogicalAddr := addr }
  if addr &&& mask ≠ 0 then
    let s := env.chargeMisaligned charged s
    if addr &&& 0xfff > 0xfff - mask then
      match s.check addr (addr + mask) false with
      | (false, s) => (fault, s)
      | (true, s) =>
        let (lo, s) := half addr s
        let (hi, s) := half (addr + step) s
        (WordRam.join lo hi, s)
    else if s.lookups.readlookup2 (vpn addr) ≠ -1 then
      (load s.ram (env.hostIndex (s.lookups.readlookup2 (vpn addr)) addr), s)
    else mapped addr s
  else mapped addr s

/-- A misaligned write of twice the width of `half`, or the rest of the write. -/
def writeWide {n : Nat} (mask : BitVec 32) (charged : Bool)
    (half : BitVec 32 → BitVec n → Bus w → Bus w) (step : BitVec 32)
    (store : WordRam → BitVec 32 → BitVec (n + n) → WordRam)
    (mapped : BitVec 32 → BitVec (n + n) → Bus w → Bus w) (addr : BitVec 32)
    (val : BitVec (n + n)) (s : Bus w) : Bus w :=
  let s := { s with memLogicalAddr := addr }
  if addr &&& mask ≠ 0 then
    let s := env.chargeMisaligned charged s
    if addr &&& 0xfff > 0xfff - mask then
      match s.check addr (addr + mask) true with
      | (false, s) => s
      | (true, s) => half (addr + step) ((val >>> n).setWidth n) (half addr (val.setWidth n) s)
    else if s.lookups.writelookup2 (vpn addr) ≠ -1 then
      s.setRam (store s.ram (env.hostIndex (s.lookups.writelookup2 (vpn addr)) addr) val)
    else mapped addr val s
  else mapped addr val s

/-! ## Reads -/

/-- The translation and the mask of the A20 gate, for the handlers of a mapping to read from. -/
def readMapped {n : Nat} (fault : BitVec n)
    (read : Option (BusHandlers w) → BitVec 32 → Bus w → BitVec n × Bus w) (addr : BitVec 32)
    (s : Bus w) : BitVec n × Bus w :=
  match s.translate addr false with
  | (none, s) => (fault, s)
  | (some phys, s) => read (env.reads (phys &&& env.rammask)) (phys &&& env.rammask) s

/-- `readmembl`. -/
def readmembl (addr : BitVec 32) (s : Bus w) : BitVec 8 × Bus w :=
  env.readMapped 0xff (fun map addr s =>
    match map.bind BusHandlers.readB with
    | some readB => readB addr s
    | none => (0xff, s)) addr { s with memLogicalAddr := addr }

/-- Two reads, the low half first. -/
def readPair {n : Nat} (read : BitVec 32 → Bus w → BitVec n × Bus w) (step addr : BitVec 32)
    (s : Bus w) : BitVec (n + n) × Bus w :=
  let (lo, s) := read addr s
  let (hi, s) := read (addr + step) s
  (WordRam.join lo hi, s)

/-- `readmemwl`. -/
def readmemwl (addr : BitVec 32) : Bus w → BitVec 16 × Bus w :=
  env.readWide 1 (!env.cpuCyrixAlignment || addr &&& 7 = 7) (0xffff : BitVec 16) env.readmembl 1
    WordRam.load16
    (env.readMapped 0xffff fun map addr s =>
      match map.bind BusHandlers.readW, map.bind BusHandlers.readB with
      | some readW, _ => readW addr s
      | none, some readB => readPair readB 1 addr s
      | none, none => (0xffff, s)) addr

/-- `readmemll`. -/
def readmemll (addr : BitVec 32) : Bus w → BitVec 32 × Bus w :=
  env.readWide 3 (!env.cpuCyrixAlignment || addr &&& 7 > 4) (0xffffffff : BitVec 32) env.readmemwl 2
    WordRam.load32
    (env.readMapped 0xffffffff fun map addr s =>
      match map.bind BusHandlers.readL, map.bind BusHandlers.readW, map.bind BusHandlers.readB with
      | some readL, _, _ => readL addr s
      | none, some readW, _ => readPair readW 2 addr s
      | none, none, some readB => readPair (readPair readB 1) 2 addr s
      | none, none, none => (0xffffffff, s)) addr

/-- `readmemql`; without a handler the physical address is read like a linear one. -/
def readmemql (addr : BitVec 32) : Bus w → BitVec 64 × Bus w :=
  env.readWide 7 true (0xffffffff : BitVec 64) env.readmemll 4 WordRam.load64
    (env.readMapped 0xffffffff fun map addr s =>
      match map.bind BusHandlers.readL with
      | some readL => readPair readL 4 addr s
      | none => readPair env.readmemll 4 addr s) addr

/-! ## Writes -/

/-- A page that holds code is written through its page structure, another after the translation and
the mask of the A20 gate by the handlers of a mapping. -/
def writeMapped {n : Nat} (toPage : BitVec 32 → BitVec n → BitVec 20 → Bus w → Bus w)
    (write : Option (BusHandlers w) → BitVec 32 → BitVec n → Bus w → Bus w) (addr : BitVec 32)
    (val : BitVec n) (s : Bus w) : Bus w :=
  match s.lookups.pageLookup (vpn addr) with
  | some p => toPage addr val p s
  | none =>
    match s.translate addr true with
    | (none, s) => s
    | (some phys, s) => write (env.writes (phys &&& env.rammask)) (phys &&& env.rammask) val s

/-- `writemembl`. -/
def writemembl (addr : BitVec 32) (val : BitVec 8) (s : Bus w) : Bus w :=
  env.writeMapped env.memWriteRambPage (fun map addr val s =>
    match map.bind BusHandlers.writeB with
    | some writeB => writeB addr val s
    | none => s) addr val { s with memLogicalAddr := addr }

/-- Two writes, the low half first. -/
def writePair {n : Nat} (write : BitVec 32 → BitVec n → Bus w → Bus w) (step addr : BitVec 32)
    (val : BitVec (n + n)) (s : Bus w) : Bus w :=
  write (addr + step) ((val >>> n).setWidth n) (write addr (val.setWidth n) s)

/-- `writememwl`. -/
def writememwl (addr : BitVec 32) (val : BitVec 16) (s : Bus w) : Bus w :=
  env.writeWide (n := 8) 1 (!env.cpuCyrixAlignment || addr &&& 7 = 7) env.writemembl 1
    WordRam.store16
    (env.writeMapped env.memWriteRamwPage fun map addr val s =>
      match map.bind BusHandlers.writeW, map.bind BusHandlers.writeB with
      | some writeW, _ => writeW addr val s
      | none, some writeB => writePair (n := 8) writeB 1 addr val s
      | none, none => s) addr val s

/-- `writememll`. -/
def writememll (addr : BitVec 32) (val : BitVec 32) (s : Bus w) : Bus w :=
  env.writeWide (n := 16) 3 (!env.cpuCyrixAlignment || addr &&& 7 > 4) env.writememwl 2
    WordRam.store32
    (env.writeMapped env.memWriteRamlPage fun map addr val s =>
      match map.bind BusHandlers.writeL, map.bind BusHandlers.writeW,
        map.bind BusHandlers.writeB with
      | some writeL, _, _ => writeL addr val s
      | none, some writeW, _ => writePair (n := 16) writeW 2 addr val s
      | none, none, some writeB => writePair (n := 16) (writePair (n := 8) writeB 1) 2 addr val s
      | none, none, none => s) addr val s

/-- `writememql`. -/
def writememql (addr : BitVec 32) (val : BitVec 64) (s : Bus w) : Bus w :=
  env.writeWide (n := 32) 7 true env.writememll 4 WordRam.store64
    (env.writeMapped (fun addr val p => writePair (n := 32) (env.memWriteRamlPage · · p) 4 addr val)
      fun map addr val s =>
        match map.bind BusHandlers.writeL, map.bind BusHandlers.writeW,
          map.bind BusHandlers.writeB with
        | some writeL, _, _ => writePair (n := 32) writeL 4 addr val s
        | none, some writeW, _ => writePair (n := 32) (writePair (n := 16) writeW 2) 4 addr val s
        | none, none, some writeB =>
          writePair (n := 32) (writePair (n := 16) (writePair (n := 8) writeB 1) 2) 4 addr val s
        | none, none, none => s) addr val s

end BusEnv

end PCemWeb.Memory
