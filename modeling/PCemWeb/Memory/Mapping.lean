import PCemWeb.Memory.Lookup
import Mathlib.Data.List.Basic

/-!
# The mapping tables

Devices register memory mappings in a list, later mappings over earlier ones. For each granule
of 16 KB, `read_mapping`, `write_mapping` and `_mem_exec` cache which mapping is on top;
`mem_mapping_recalc` brings a range of the tables up to date and drops the lookup entries, and
every operation on a mapping calls it for the range that the mapping covers.
-/

namespace PCemWeb.Memory

/-- A `mem_mapping_t *`. -/
abbrev MapId := Nat

/-- The six handlers of a mapping, null when they are 0. -/
structure Handlers (w : Nat) where
  readB : BitVec w
  readW : BitVec w
  readL : BitVec w
  writeB : BitVec w
  writeW : BitVec w
  writeL : BitVec w

/-- `mem_mapping_t`; the list is kept in `Mem`. -/
structure MemMapping (w : Nat) where
  enable : Bool
  base : BitVec 32
  size : BitVec 32
  handlers : Handlers w
  exec : BitVec w
  flags : BitVec 32
  p : BitVec w

/-- `MEM_MAPPING_EXTERNAL`. -/
def memMappingExternal : BitVec 32 := 1

/-- `MEM_MAPPING_INTERNAL`. -/
def memMappingInternal : BitVec 32 := 2

/-- `mem_mapping_read_allowed`; a state that is none of the three is fatal. -/
def memMappingReadAllowed (flags : BitVec 32) (state : BitVec 8) : Option Bool :=
  if state &&& 0xf0 = 0x00 then some true
  else if state &&& 0xf0 = 0x20 then some (flags &&& memMappingInternal = 0)
  else if state &&& 0xf0 = 0x10 then some (flags &&& memMappingExternal = 0)
  else none

/-- `mem_mapping_write_allowed`. -/
def memMappingWriteAllowed (flags : BitVec 32) (state : BitVec 8) : Option Bool :=
  if state &&& 0x0f = 0x03 then some false
  else if state &&& 0x0f = 0x00 then some true
  else if state &&& 0x0f = 0x02 then some (flags &&& memMappingInternal = 0)
  else if state &&& 0x0f = 0x01 then some (flags &&& memMappingExternal = 0)
  else none

/-- `mapping->read_b || mapping->read_w || mapping->read_l`. -/
def Handlers.reads {w : Nat} (h : Handlers w) : Bool := h.readB ≠ 0 ∨ h.readW ≠ 0 ∨ h.readL ≠ 0

/-- `mapping->write_b || mapping->write_w || mapping->write_l`. -/
def Handlers.writes {w : Nat} (h : Handlers w) : Bool :=
  h.writeB ≠ 0 ∨ h.writeW ≠ 0 ∨ h.writeL ≠ 0

/-- The memory system: the registered mappings, the tables over the granules and the lookups. -/
structure Mem (w : Nat) where
  maps : MapId → MemMapping w
  /-- The chain of `base_mapping.next`. -/
  list : List MapId
  readMapping : Nat → Option MapId
  writeMapping : Nat → Option MapId
  /-- `_mem_exec`. -/
  memExec : Nat → BitVec w
  /-- `_mem_state`. -/
  memState : Nat → BitVec 8
  lookups : Lookups w

namespace Mem

variable {w : Nat}

/-- The values of `c` in `for (c = start; c < stop; c += 0x4000)`. -/
def granules (start stop : Nat) : List Nat :=
  List.range' start ((stop - start + 0x3fff) / 0x4000) 0x4000

/-- `Clear out old mappings`. -/
def clearGranule (s : Mem w) (c : Nat) : Mem w :=
  { s with
    readMapping := Function.update s.readMapping (c >>> 14) none
    writeMapping := Function.update s.writeMapping (c >>> 14) none
    memExec := Function.update s.memExec (c >>> 14) 0 }

/-- `mapping->exec + (c - mapping->base)`, null when the mapping has no memory to execute. -/
def execAt (m : MemMapping w) (c : Nat) : BitVec w :=
  if m.exec ≠ 0 then m.exec + BitVec.ofNat w (c - m.base.toNat) else 0

/-- The read half of the turn at `c` for one mapping. -/
def mapRead (id : MapId) (s : Mem w) (c : Nat) : Option (Mem w) :=
  if (s.maps id).handlers.reads then
    (memMappingReadAllowed (s.maps id).flags (s.memState (c >>> 14))).map fun allowed =>
      if allowed then
        { s with
          readMapping := Function.update s.readMapping (c >>> 14) (some id)
          memExec := Function.update s.memExec (c >>> 14) (execAt (s.maps id) c) }
      else s
  else some s

/-- The write half. -/
def mapWrite (id : MapId) (s : Mem w) (c : Nat) : Option (Mem w) :=
  if (s.maps id).handlers.writes then
    (memMappingWriteAllowed (s.maps id).flags (s.memState (c >>> 14))).map fun allowed =>
      if allowed then
        { s with writeMapping := Function.update s.writeMapping (c >>> 14) (some id) }
      else s
  else some s

/-- The turn at `c` for one mapping. -/
def mapGranule (id : MapId) (s : Mem w) (c : Nat) : Option (Mem w) :=
  (mapRead id s c).bind fun s => mapWrite id s c

/-- `In range?` -/
def reaches (m : MemMapping w) (base size : Nat) : Bool :=
  m.enable ∧ m.base.toNat < base + size ∧ m.base.toNat + m.size.toNat > base

/-- The first granule that is written. It is the first granule of the mapping, also when the
mapping begins below the range. -/
def startOf (m : MemMapping w) (base : Nat) : Nat :=
  let start := if m.base.toNat < base then m.base.toNat else base
  if start < m.base.toNat then m.base.toNat else start

/-- The end of what is written. -/
def endOf (m : MemMapping w) (base size : Nat) : Nat :=
  if m.base.toNat + m.size.toNat < base + size then m.base.toNat + m.size.toNat else base + size

/-- One turn of `Walk mapping list`. -/
def mapOne (base size : Nat) (s : Mem w) (id : MapId) : Option (Mem w) :=
  let m := s.maps id
  if reaches m base size then (granules (startOf m base) (endOf m base size)).foldlM (mapGranule id) s
  else some s

/-- `mem_mapping_recalc`. -/
def memMappingRecalc (s : Mem w) (base size : Nat) : Option (Mem w) :=
  if size = 0 then some s
  else
    let s := (granules base (base + size)).foldl clearGranule s
    (s.list.foldlM (mapOne base size) s).map fun s =>
      { s with lookups := s.lookups.flushmmucacheCr3 }

/-! ## Operations on mappings -/

/-- `mapping->... = ...`. -/
def setMap (s : Mem w) (id : MapId) (m : MemMapping w) : Mem w :=
  { s with maps := Function.update s.maps id m }

/-- `mem_mapping_recalc(mapping->base, mapping->size)`. -/
def recalcMap (s : Mem w) (id : MapId) : Option (Mem w) :=
  s.memMappingRecalc (s.maps id).base.toNat (s.maps id).size.toNat

/-- `mem_mapping_add` up to the recalculation. -/
def linkMap (s : Mem w) (id : MapId) (base size : BitVec 32) (handlers : Handlers w)
    (exec : BitVec w) (flags : BitVec 32) (p : BitVec w) : Mem w :=
  { s.setMap id ⟨size ≠ 0, base, size, handlers, exec, flags, p⟩ with list := s.list ++ [id] }

/-- `mem_mapping_add`. -/
def memMappingAdd (s : Mem w) (id : MapId) (base size : BitVec 32) (handlers : Handlers w)
    (exec : BitVec w) (flags : BitVec 32) (p : BitVec w) : Option (Mem w) :=
  (s.linkMap id base size handlers exec flags p).recalcMap id

/-- `mem_mapping_remove` up to the recalculation. -/
def unlinkMap (s : Mem w) (id : MapId) : Mem w := { s with list := s.list.erase id }

/-- `mem_mapping_remove`, which runs off the end of the list when the mapping is not in it. -/
def memMappingRemove (s : Mem w) (id : MapId) : Option (Mem w) :=
  if id ∈ s.list then (s.unlinkMap id).recalcMap id else none

/-- `mem_mapping_set_handler`. -/
def memMappingSetHandler (s : Mem w) (id : MapId) (handlers : Handlers w) : Option (Mem w) :=
  (s.setMap id { s.maps id with handlers := handlers }).recalcMap id

/-- `mem_mapping_set_addr`. -/
def memMappingSetAddr (s : Mem w) (id : MapId) (base size : BitVec 32) : Option (Mem w) :=
  ((s.setMap id { s.maps id with enable := false }).recalcMap id).bind fun s =>
    (s.setMap id { s.maps id with enable := true, base := base, size := size }).recalcMap id

/-- `mem_mapping_set_exec`. -/
def memMappingSetExec (s : Mem w) (id : MapId) (exec : BitVec w) : Option (Mem w) :=
  (s.setMap id { s.maps id with exec := exec }).recalcMap id

/-- `mem_mapping_disable`. -/
def memMappingDisable (s : Mem w) (id : MapId) : Option (Mem w) :=
  (s.setMap id { s.maps id with enable := false }).recalcMap id

/-- `mem_mapping_enable`. -/
def memMappingEnable (s : Mem w) (id : MapId) : Option (Mem w) :=
  (s.setMap id { s.maps id with enable := true }).recalcMap id

/-- The loop of `mem_set_mem_state`. -/
def fillState (s : Mem w) (base size : BitVec 32) (state : BitVec 32) : Mem w :=
  { s with
    memState := (granules 0 size.toNat).foldl
      (fun table c => Function.update table ((BitVec.ofNat 32 c + base).toNat >>> 14)
        (state.setWidth 8)) s.memState }

/-- `mem_set_mem_state`. -/
def memSetMemState (s : Mem w) (base size : BitVec 32) (state : BitVec 32) : Option (Mem w) :=
  (s.fillState base size state).memMappingRecalc base.toNat size.toNat

end Mem

/-! ## Steps -/

/-- The operations on the mappings and on the lookup tables. -/
inductive MemOp (w : Nat)
  | add (id : MapId) (base size : BitVec 32) (handlers : Handlers w) (exec : BitVec w)
      (flags : BitVec 32) (p : BitVec w)
  | remove (id : MapId)
  | setHandler (id : MapId) (handlers : Handlers w)
  | setAddr (id : MapId) (base size : BitVec 32)
  | setExec (id : MapId) (exec : BitVec w)
  | disable (id : MapId)
  | enable (id : MapId)
  | setMemState (base size state : BitVec 32)
  | recalc (base size : Nat)
  | addread (env : FillEnv) (virt phys : BitVec 32)
  | addwrite (env : FillEnv) (virt phys : BitVec 32)
  | flushWritePage (addr virt : BitVec 32)
  | flush
  | flushNopc
  | flushCr3

namespace Mem

variable {w : Nat}

/-- One call. -/
def step (h : Host w) (s : Mem w) : MemOp w → Option (Mem w)
  | .add id base size handlers exec flags p => s.memMappingAdd id base size handlers exec flags p
  | .remove id => s.memMappingRemove id
  | .setHandler id handlers => s.memMappingSetHandler id handlers
  | .setAddr id base size => s.memMappingSetAddr id base size
  | .setExec id exec => s.memMappingSetExec id exec
  | .disable id => s.memMappingDisable id
  | .enable id => s.memMappingEnable id
  | .setMemState base size state => s.memSetMemState base size state
  | .recalc base size => s.memMappingRecalc base size
  | .addread env virt phys => some { s with lookups := s.lookups.addreadlookup h env virt phys }
  | .addwrite env virt phys => some { s with lookups := s.lookups.addwritelookup h env virt phys }
  | .flushWritePage addr virt =>
    some { s with lookups := s.lookups.memFlushWritePage h addr virt }
  | .flush => some { s with lookups := s.lookups.flushmmucache }
  | .flushNopc => some { s with lookups := s.lookups.flushmmucacheNopc }
  | .flushCr3 => some { s with lookups := s.lookups.flushmmucacheCr3 }

end Mem

end PCemWeb.Memory
