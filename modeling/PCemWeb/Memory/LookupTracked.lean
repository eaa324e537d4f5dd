import PCemWeb.Memory.MappingRuns

/-!
# The rings name every lookup entry

A fill forgets what its slot named before it takes the slot, and a flush of one page clears all
entries of the pages whose slots it empties. So the two rings cover the three tables in every
run, and a flush leaves the tables empty.
-/

namespace PCemWeb.Memory

open PCemWeb.Lib

namespace Lookups

variable {w : Nat} {l : Lookups w}

/-- The rings cover the tables: a virtual page with an entry is in a slot. -/
structure Tracked (l : Lookups w) : Prop where
  read : Covers (· < 256) l.readlookup fun v => l.readlookup2 v ≠ -1
  write : Covers (· < 256) l.writelookup fun v => l.writelookup2 v ≠ -1 ∨ l.pageLookup v ≠ none
  readNext : l.readlnext < 256
  writeNext : l.writelnext < 256

/-- No page has an entry. -/
structure NoEntry (l : Lookups w) : Prop where
  read (v : Vpn) : l.readlookup2 v = -1
  write (v : Vpn) : l.writelookup2 v = -1
  page (v : Vpn) : l.pageLookup v = none

theorem tracked_resetreadlookup : l.resetreadlookup.Tracked :=
  ⟨fun _ live => absurd rfl live, fun _ live => live.elim (absurd rfl) (absurd rfl),
    Nat.zero_lt_succ _, Nat.zero_lt_succ _⟩

/-! ## Flushes -/

theorem Tracked.flushRead (tracked : l.Tracked) (c : Nat) : (l.flushRead c).Tracked := by
  unfold Lookups.flushRead
  cases slot : l.readlookup c with
  | none => exact tracked
  | some page =>
    refine ⟨tracked.read.drop (fun i v live named => ?_) (fun v live => ?_), tracked.write,
      tracked.readNext, tracked.writeNext⟩
    · have other : i ≠ c := by
        rintro rfl
        obtain rfl : page = v := Option.some.inj (slot.symm.trans named)
        exact live (Function.update_self ..)
      exact (Function.update_of_ne other _ _).trans named
    · by_cases same : v = page
      · subst same
        exact absurd (Function.update_self ..) live
      · simpa [same] using live

/-- The write tables lose all entries of one page. -/
theorem Tracked.forgetWrite (tracked : l.Tracked) {c : Nat} {page : Vpn}
    (slot : l.writelookup c = some page) :
    Covers (· < 256) (Function.update l.writelookup c none) fun v =>
      Function.update l.writelookup2 page (-1) v ≠ -1 ∨
        Function.update l.pageLookup page none v ≠ none := by
  refine tracked.write.drop (fun i v live named => ?_) (fun v live => ?_)
  · have other : i ≠ c := by
      rintro rfl
      obtain rfl : page = v := Option.some.inj (slot.symm.trans named)
      simp at live
    exact (Function.update_of_ne other _ _).trans named
  · by_cases same : v = page
    · subst same
      simp at live
    · simpa [same] using live

theorem Tracked.flushWrite (tracked : l.Tracked) (c : Nat) : (l.flushWrite c).Tracked := by
  unfold Lookups.flushWrite
  cases slot : l.writelookup c with
  | none => exact tracked
  | some page =>
    exact ⟨tracked.read, tracked.forgetWrite slot, tracked.readNext, tracked.writeNext⟩

theorem Tracked.flushWritePage (tracked : l.Tracked) (h : Host w) (addr virt : BitVec 32)
    (c : Nat) : (Lookups.flushWritePage h addr virt l c).Tracked := by
  unfold Lookups.flushWritePage
  cases slot : l.writelookup c with
  | none => exact tracked
  | some page =>
    dsimp only
    split
    · exact ⟨tracked.read, tracked.forgetWrite slot, tracked.readNext, tracked.writeNext⟩
    · exact tracked

theorem Tracked.foldl {turn : Lookups w → Nat → Lookups w}
    (keeps : ∀ {l : Lookups w} c, l.Tracked → (turn l c).Tracked) (cs : List Nat)
    (tracked : l.Tracked) : (cs.foldl turn l).Tracked := by
  induction cs generalizing l with
  | nil => exact tracked
  | cons c cs ih => exact ih (keeps c tracked)

theorem Tracked.flushSlots (tracked : l.Tracked) : l.flushSlots.Tracked :=
  tracked.foldl (fun c before => (before.flushRead c).flushWrite c) _

theorem Tracked.memFlushWritePage (tracked : l.Tracked) (h : Host w) (addr virt : BitVec 32) :
    (l.memFlushWritePage h addr virt).Tracked :=
  tracked.foldl (fun c before => before.flushWritePage h addr virt c) _

theorem flushSlot_readlookup (c : Nat) :
    (l.flushSlot c).readlookup = Function.update l.readlookup c none := by
  have sameWrite (l : Lookups w) : (l.flushWrite c).readlookup = l.readlookup := by
    unfold Lookups.flushWrite
    cases l.writelookup c <;> rfl
  rw [flushSlot, sameWrite]
  unfold Lookups.flushRead
  cases slot : l.readlookup c with
  | none => exact (Function.update_eq_self_iff.mpr slot.symm).symm
  | some page => rfl

theorem flushSlot_writelookup (c : Nat) :
    (l.flushSlot c).writelookup = Function.update l.writelookup c none := by
  have sameRead (l : Lookups w) : (l.flushRead c).writelookup = l.writelookup := by
    unfold Lookups.flushRead
    cases l.readlookup c <;> rfl
  unfold flushSlot Lookups.flushWrite
  rw [sameRead]
  cases slot : l.writelookup c with
  | none => exact (sameRead l).trans (Function.update_eq_self_iff.mpr slot.symm).symm
  | some page => rfl

/-- The loop empties the slots it visits and fills none. -/
theorem foldl_flushSlot_empty (cs : List Nat) (c : Nat) :
    (c ∈ cs ∨ l.readlookup c = none → (cs.foldl flushSlot l).readlookup c = none) ∧
      (c ∈ cs ∨ l.writelookup c = none → (cs.foldl flushSlot l).writelookup c = none) := by
  induction cs generalizing l with
  | nil => simp
  | cons b cs ih =>
    obtain ⟨readRest, writeRest⟩ := ih (l := l.flushSlot b)
    rw [flushSlot_readlookup] at readRest
    rw [flushSlot_writelookup] at writeRest
    by_cases here : c = b
    · subst here
      simp only [Function.update_self] at readRest writeRest
      exact ⟨fun _ => readRest (.inr trivial), fun _ => writeRest (.inr trivial)⟩
    · simp only [Function.update_of_ne here] at readRest writeRest
      simpa [here] using ⟨readRest, writeRest⟩

/-- A flush of covered tables leaves nothing. -/
theorem Tracked.noEntry (tracked : l.Tracked) : l.flushSlots.NoEntry := by
  have after := tracked.flushSlots
  have emptied (c : Nat) (inRange : c < 256) :
      l.flushSlots.readlookup c = none ∧ l.flushSlots.writelookup c = none := by
    have visited : c ∈ List.range 256 := List.mem_range.mpr inRange
    have empty := foldl_flushSlot_empty (l := l) (List.range 256) c
    unfold Lookups.flushSlots
    exact ⟨empty.1 (.inl visited), empty.2 (.inl visited)⟩
  have noRead := after.read.dead fun c inRange => (emptied c inRange).1
  have noWrite := after.write.dead fun c inRange => (emptied c inRange).2
  refine ⟨fun v => ?_, fun v => ?_, fun v => ?_⟩
  · exact Classical.byContradiction (noRead v)
  · exact Classical.byContradiction fun set => noWrite v (.inl set)
  · exact Classical.byContradiction fun set => noWrite v (.inr set)

theorem Tracked.noEntry_flushmmucache (tracked : l.Tracked) : l.flushmmucache.NoEntry := by
  obtain ⟨read, write, page⟩ := tracked.noEntry
  refine ⟨fun v => ?_, fun v => ?_, fun v => ?_⟩ <;> dsimp only [Lookups.flushmmucache]
  · exact read v
  · exact write v
  · exact page v

theorem Tracked.flushmmucache (tracked : l.Tracked) : l.flushmmucache.Tracked := by
  obtain ⟨read, write, readNext, writeNext⟩ := tracked.flushSlots
  refine ⟨?_, ?_, ?_, ?_⟩ <;> dsimp only [Lookups.flushmmucache]
  · exact read
  · exact write
  · exact readNext
  · exact writeNext

/-! ## Fills -/

theorem nextSlot_lt (h : Host w) (n : Nat) : (n + 1) &&& (h.cachesize - 1) < 256 := by
  obtain ⟨k, small, size⟩ := h.isCachesize
  have bound : h.cachesize ≤ 256 := by
    rw [size, Nat.one_shiftLeft]
    exact Nat.pow_le_pow_right (by decide) small
  have masked : (n + 1) &&& (h.cachesize - 1) ≤ h.cachesize - 1 := Nat.and_le_right
  omega

/-- What the slot named has no entry any more, and nothing else changed. -/
theorem evictRead_live {v : Vpn} (live : l.evictRead.readlookup2 v ≠ -1) :
    l.readlookup2 v ≠ -1 ∧ l.readlookup l.readlnext ≠ some v := by
  unfold evictRead at live
  cases slot : l.readlookup l.readlnext with
  | none =>
    rw [slot] at live
    exact ⟨live, by simp⟩
  | some page =>
    rw [slot] at live
    dsimp only at live
    by_cases same : v = page
    · subst same
      simp at live
    · rw [Function.update_of_ne same] at live
      exact ⟨live, by simpa using fun eq => same eq.symm⟩

theorem Tracked.addreadlookup (tracked : l.Tracked) (h : Host w) (env : FillEnv)
    (virt phys : BitVec 32) : (l.addreadlookup h env virt phys).Tracked := by
  have rings : l.evictRead.readlookup = l.readlookup ∧ l.evictRead.readlnext = l.readlnext ∧
      l.evictRead.writelookup = l.writelookup ∧ l.evictRead.writelookup2 = l.writelookup2 ∧
      l.evictRead.pageLookup = l.pageLookup ∧ l.evictRead.writelnext = l.writelnext := by
    unfold evictRead
    cases l.readlookup l.readlnext <;> exact ⟨rfl, rfl, rfl, rfl, rfl, rfl⟩
  obtain ⟨readlookup, readlnext, writelookup, writelookup2, pageLookup, writelnext⟩ := rings
  unfold Lookups.addreadlookup
  split
  · exact tracked
  · dsimp only
    refine ⟨?_, ?_, nextSlot_lt h _, ?_⟩
    · dsimp only
      rw [readlookup, readlnext]
      refine tracked.read.store tracked.readNext _ fun v live => ?_
      by_cases same : v = vpn virt
      · exact .inl same
      · rw [Function.update_of_ne same] at live
        exact .inr (evictRead_live live)
    · dsimp only
      rw [writelookup, writelookup2, pageLookup]
      exact tracked.write
    · dsimp only
      rw [writelnext]
      exact tracked.writeNext

/-- What the slot named has no entry of either kind any more. -/
theorem evictWrite_live {v : Vpn}
    (live : l.evictWrite.writelookup2 v ≠ -1 ∨ l.evictWrite.pageLookup v ≠ none) :
    (l.writelookup2 v ≠ -1 ∨ l.pageLookup v ≠ none) ∧ l.writelookup l.writelnext ≠ some v := by
  unfold evictWrite at live
  cases slot : l.writelookup l.writelnext with
  | none =>
    rw [slot] at live
    exact ⟨live, by simp⟩
  | some page =>
    rw [slot] at live
    dsimp only at live
    by_cases same : v = page
    · subst same
      simp at live
    · rw [Function.update_of_ne same, Function.update_of_ne same] at live
      exact ⟨live, by simpa using fun eq => same eq.symm⟩

/-- Of the other pages nothing is mapped. -/
theorem mapWrite_live {h : Host w} {env : FillEnv} {virt phys : BitVec 32} {v : Vpn}
    (other : v ≠ vpn virt) :
    (l.mapWrite h env virt phys).writelookup2 v = l.writelookup2 v ∧
      (l.mapWrite h env virt phys).pageLookup v = l.pageLookup v := by
  unfold Lookups.mapWrite
  split
  · exact ⟨rfl, Function.update_of_ne other _ _⟩
  · exact ⟨Function.update_of_ne other _ _, rfl⟩

theorem Tracked.addwritelookup (tracked : l.Tracked) (h : Host w) (env : FillEnv)
    (virt phys : BitVec 32) : (l.addwritelookup h env virt phys).Tracked := by
  have evicted : l.evictWrite.readlookup = l.readlookup ∧
      l.evictWrite.readlookup2 = l.readlookup2 ∧ l.evictWrite.readlnext = l.readlnext ∧
      l.evictWrite.writelookup = l.writelookup ∧ l.evictWrite.writelnext = l.writelnext := by
    unfold evictWrite
    cases l.writelookup l.writelnext <;> exact ⟨rfl, rfl, rfl, rfl, rfl⟩
  have mapped (l : Lookups w) : (l.mapWrite h env virt phys).readlookup = l.readlookup ∧
      (l.mapWrite h env virt phys).readlookup2 = l.readlookup2 ∧
      (l.mapWrite h env virt phys).readlnext = l.readlnext ∧
      (l.mapWrite h env virt phys).writelookup = l.writelookup ∧
      (l.mapWrite h env virt phys).writelnext = l.writelnext := by
    unfold Lookups.mapWrite
    split <;> exact ⟨rfl, rfl, rfl, rfl, rfl⟩
  obtain ⟨readlookup, readlookup2, readlnext, writelookup, writelnext⟩ := mapped l.evictWrite
  rw [evicted.1] at readlookup
  rw [evicted.2.1] at readlookup2
  rw [evicted.2.2.1] at readlnext
  rw [evicted.2.2.2.1] at writelookup
  rw [evicted.2.2.2.2] at writelnext
  unfold Lookups.addwritelookup
  split
  · exact tracked
  · refine ⟨?_, ?_, ?_, nextSlot_lt h _⟩
    · dsimp only
      rw [readlookup, readlookup2]
      exact tracked.read
    · dsimp only
      rw [writelookup, writelnext]
      refine tracked.write.store tracked.writeNext _ fun v live => ?_
      by_cases same : v = vpn virt
      · exact .inl same
      · rw [(mapWrite_live same).1, (mapWrite_live same).2] at live
        exact .inr (evictWrite_live live)
    · dsimp only
      rw [readlnext]
      exact tracked.readNext

end Lookups

/-! ## Runs -/

namespace Mem

open Lookups

variable {w : Nat} {s t : Mem w} {id : MapId} {base size : Nat}

theorem recalc_tracked (tracked : s.lookups.Tracked)
    (done : s.memMappingRecalc base size = some t) : t.lookups.Tracked := by
  obtain ⟨-, -, -, lookups⟩ := recalc_setup done
  rw [lookups]
  split
  · exact tracked
  · exact tracked.flushSlots

theorem step_tracked {h : Host w} {op : MemOp w} (tracked : s.lookups.Tracked)
    (done : step h s op = some t) : t.lookups.Tracked := by
  cases op with
  | add | setHandler | setExec | disable | enable | setMemState | recalc =>
    exact recalc_tracked (by exact tracked) done
  | remove id =>
    simp only [step, memMappingRemove] at done
    split at done
    · exact recalc_tracked (by exact tracked) done
    · cases done
  | setAddr id base size =>
    obtain ⟨mid, first, second⟩ := Option.bind_eq_some_iff.mp done
    have midTracked : mid.lookups.Tracked := recalc_tracked (by exact tracked) first
    exact recalc_tracked (by exact midTracked) second
  | addread env virt phys =>
    cases done
    exact tracked.addreadlookup h env virt phys
  | addwrite env virt phys =>
    cases done
    exact tracked.addwritelookup h env virt phys
  | flushWritePage addr virt =>
    cases done
    dsimp only
    exact tracked.memFlushWritePage h addr virt
  | flush =>
    cases done
    dsimp only
    exact tracked.flushmmucache
  | flushNopc | flushCr3 =>
    cases done
    dsimp only
    exact tracked.flushSlots

/-- Rings of one slot: the second fill of each kind drops the entry of the first. -/
def oneSlot : Host 32 := ⟨0x10000, 1, ⟨0, by decide, rfl⟩⟩

/-- Two reads and two writes of the pages 1 and 2, the second of them in a page with code. -/
def fourFills : List (MemOp 32) :=
  let env : FillEnv := ⟨false, 4, fun page => if page = 6 then 1 else 0, 0⟩
  [.addread env 0x1000 0x5000, .addread env 0x2000 0x6000, .addwrite env 0x1000 0x5000,
    .addwrite env 0x2000 0x6000]

end Mem

end PCemWeb.Memory
