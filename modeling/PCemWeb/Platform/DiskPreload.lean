import PCemWeb.Platform.DiskCacheMoves
import PCemWeb.Platform.DiskRing

/-!
# Preloaded header blocks

`wasm_diskio_preload` places blocks that it does not enter into the ring, so that the browser main
thread can read an image's header without a fetch. A `HeaderSession` records which blocks were
placed since their disk was registered and what they ought to hold. `HeadersResident` says that all
of them are still resident with those bytes, and that reads of them make no fetch. It holds in every
session whose preloads place no block that the ring already names; `staleHeader` shows what an entry
from before the registration does.
-/

namespace PCemWeb.Platform

open PCemWeb.Lib

structure HeaderSession where
  cache : DiskIo
  /-- Ghost: the blocks that preloads placed since the disk was registered. -/
  placed : Nat → Nat → Bool
  /-- Ghost: what was preloaded there, overlaid by the writes since. -/
  image : Nat → Nat → Byte

namespace HeaderSession

def init : HeaderSession := ⟨.init, fun _ _ => false, fun _ _ => 0⟩

/-- The block is absent in `s` and not in `t`. -/
def newly (s t : DiskIo) (id i : Nat) : Bool :=
  match s.disks id, t.disks id with
  | some d, some d' => d.state i = .absent ∧ d'.state i ≠ .absent
  | _, _ => false

/-- One operation, with the outcomes of its fetches and allocations. -/
def step (s : HeaderSession) : DiskOp × List Bool → Option HeaderSession
  | (.register size source, env) =>
    match diskioRegister size source { s.cache with env } with
    | (none, cache) => some { s with cache }
    | (some id, cache) =>
      some { s with cache, placed := Function.update s.placed id fun _ => false }
  | (.unregister id, env) =>
    some { s with
      cache := diskioUnregister id { s.cache with env }
      placed := Function.update s.placed id fun _ => false }
  | (.preload id len, env) =>
    let cache := (diskioPreload id len { s.cache with env }).2
    some {
      cache
      placed := Function.update s.placed id fun i => s.placed id i || newly s.cache cache id i
      image := Function.update s.image id fun k =>
        if newly s.cache cache id (k / blockSize) then
          if k < len then s.cache.browserDisks id k else 0
        else s.image id k }
  | (.read id offset len, env) =>
    (diskioRead id offset len { s.cache with env }).map fun r => { s with cache := r.after }
  | (.write id offset buf, env) =>
    (diskioWrite id offset buf { s.cache with env }).map fun r =>
      { s with cache := r.after, image := writeContents s.image id offset r.moved }

/-- A preload places no block for which the ring has an entry. -/
def Unlisted (s : HeaderSession) : DiskOp × List Bool → Bool
  | (.preload id len, _) =>
    match s.cache.disks id with
    | none => true
    | some d => fetchRun * blockSize < len || s.cache.cleanRing.all fun e =>
      e.1 ≠ id || d.state e.2 ≠ .absent || decide (¬ Stageable d len e.2)
  | _ => true

end HeaderSession

/-- A block is resident and holds the image's bytes. -/
def Resident (v : View) (id i : Nat) : Prop :=
  ∃ d p, v.cache.disks id = some d ∧ i < d.nblocks ∧ d.state i ≠ .absent ∧ d.block i = some p ∧
    ∀ j < blockSize, p j = v.image id (i * blockSize + j)

/-- The range lies in placed blocks. -/
def HeaderSession.Covered (s : HeaderSession) (id offset len : Nat) : Prop :=
  ∀ k, offset ≤ k → k < offset + len → s.placed id (k / blockSize) = true

/-- Every placed block is resident with its bytes, and a read of placed blocks fetches nothing. -/
structure HeadersResident (s : HeaderSession) : Prop where
  resident : ∀ id i, s.placed id i = true → Resident ⟨s.cache, s.image⟩ id i
  reads : ∀ env id offset len d, id < maxDisks → s.cache.disks id = some d →
    offset + len ≤ d.size → s.Covered id offset len →
      diskioRead id offset len { s.cache with env } =
        some ⟨0, slice (s.image id) offset len, { s.cache with env }⟩

/-- A resident block that the ring does not name cannot be evicted. -/
def Held (v : View) (id i : Nat) : Prop := Resident v id i ∧ (id, i) ∉ v.cache.cleanRing

variable {s t : DiskIo} {v w : View} {image : Nat → Nat → Byte} {id idx i : Nat} {d : Disk}

/-! ## Moves keep a held block -/

/-- A block of `t` with the state and bytes that it has in `s`. -/
theorem Resident.of_same {image' : Nat → Nat → Byte} {d d' : Disk}
    (resident : Resident ⟨s, image⟩ id i) (live : s.disks id = some d)
    (live' : t.disks id = some d') (nblocks : d'.nblocks = d.nblocks)
    (state : d'.state i = d.state i) (block : d'.block i = d.block i)
    (bytes : ∀ j < blockSize, image' id (i * blockSize + j) = image id (i * blockSize + j)) :
    Resident ⟨t, image'⟩ id i := by
  obtain ⟨e, p, live'', inRange, present, held, holds⟩ := resident
  obtain rfl := Option.some.inj (live.symm.trans live'')
  refine ⟨d', p, live', nblocks ▸ inRange, state ▸ present, block.trans held, fun j bound => ?_⟩
  exact (holds j bound).trans (bytes j bound).symm

/-- Evictions pass over it. -/
theorem Held.evicted (held : Held ⟨s, image⟩ id i) (evicted : Evicted s t) :
    Held ⟨t, image⟩ id i := by
  obtain ⟨resident, unlisted⟩ := held
  have ⟨d, p, live, _⟩ := resident
  obtain ⟨d', live', -, nblocks, blocks⟩ := evicted.disk _ d live
  refine ⟨?_, fun inRing => unlisted (evicted.ring _ inRing)⟩
  rcases blocks i with ⟨state, block⟩ | ⟨-, -, -, inRing⟩
  · exact resident.of_same live live' nblocks state block fun _ _ => rfl
  · exact absurd inRing unlisted

/-- Another block is placed. -/
theorem Held.place_other {d' : Disk} {p : Option (Nat → Byte)} {st : BlkState} {id' : Nat}
    (held : Held ⟨s, image⟩ id i) (live : s.disks id' = some d')
    (other : id ≠ id' ∨ i ≠ idx) :
    Held ⟨s.setDisk id' (some (d'.place idx p st)), image⟩ id i := by
  obtain ⟨resident, unlisted⟩ := held
  have ⟨d, _, live', _⟩ := resident
  refine ⟨?_, unlisted⟩
  rcases eq_or_ne id id' with rfl | apart
  · obtain rfl := Option.some.inj (live.symm.trans live')
    have elsewhere : i ≠ idx := other.resolve_left (not_not.mpr rfl)
    exact resident.of_same live (Function.update_self ..) rfl (Function.update_of_ne elsewhere ..)
      (Function.update_of_ne elsewhere ..) fun _ _ => rfl
  · exact resident.of_same live' ((Function.update_of_ne apart ..).trans live') rfl rfl rfl
      fun _ _ => rfl

/-- What is stored in one block is outside the others. -/
theorem writeContents_elsewhere {inBlock j : Nat} {piece : List Byte} {id' : Nat}
    (fits : inBlock + piece.length ≤ blockSize) (bound : j < blockSize)
    (other : id ≠ id' ∨ i ≠ idx) :
    writeContents image id' (idx * blockSize + inBlock) piece id (i * blockSize + j) =
      image id (i * blockSize + j) := by
  rcases eq_or_ne id id' with rfl | apart
  · have elsewhere : i ≠ idx := other.resolve_left (not_not.mpr rfl)
    rw [writeContents, Function.update_self]
    refine overlay_of_outside ?_
    rcases Nat.lt_or_gt_of_ne elsewhere with below | above
    · have := Nat.mul_le_mul_right blockSize (Nat.succ_le_of_lt below)
      rw [Nat.succ_mul] at this
      omega
    · have := Nat.mul_le_mul_right blockSize (Nat.succ_le_of_lt above)
      rw [Nat.succ_mul] at this
      omega
  · rw [writeContents, Function.update_of_ne apart]

theorem Held.store {inBlock : Nat} {p : Nat → Byte} {piece : List Byte} {id' : Nat} {d' : Disk}
    (held : Held ⟨s, image⟩ id i) (live : s.disks id' = some d') (block : d'.block idx = some p)
    (fits : inBlock + piece.length ≤ blockSize) :
    Held ⟨s.setDisk id' (some (d'.place idx (some (overlay p inBlock piece)) .dirty)),
      writeContents image id' (idx * blockSize + inBlock) piece⟩ id i := by
  by_cases here : id = id' ∧ i = idx
  · obtain ⟨rfl, rfl⟩ := here
    obtain ⟨⟨d, q, live', inRange, -, block', holds⟩, unlisted⟩ := held
    obtain rfl := Option.some.inj (live.symm.trans live')
    obtain rfl := Option.some.inj (block.symm.trans block')
    refine ⟨⟨_, _, Function.update_self .., inRange, ?_, Function.update_self .., fun j bound => ?_⟩,
      unlisted⟩
    · have dirty : (d'.place i (some (overlay p inBlock piece)) .dirty).state i = .dirty :=
        Function.update_self ..
      rw [dirty]
      decide
    · have shifted : writeContents image id (i * blockSize + inBlock) piece id (i * blockSize + j) =
          overlay (fun a => image id (i * blockSize + a)) inBlock piece j := by
        rw [writeContents, Function.update_self, overlay_shift]
      refine Eq.trans ?_ shifted.symm
      by_cases inPiece : inBlock ≤ j ∧ j < inBlock + piece.length
      · exact overlay_of_inside inPiece.1 inPiece.2
      · rw [overlay_of_outside (by omega), overlay_of_outside (by omega)]
        exact holds j bound
  · have other : id ≠ id' ∨ i ≠ idx := not_and_or.mp here
    have placed : Held ⟨s.setDisk id' (some (d'.place idx (some (overlay p inBlock piece)) .dirty)),
      image⟩ id i := held.place_other live other
    obtain ⟨⟨e, q, live', inRange, present, block', holds⟩, unlisted⟩ := placed
    refine ⟨⟨e, q, live', inRange, present, block', fun j bound => ?_⟩, unlisted⟩
    exact (holds j bound).trans (writeContents_elsewhere fits bound other).symm

theorem Held.move (held : Held v id i) (move : Move v w) : Held w id i := by
  cases move with
  | env => exact held
  | @fault s t image id' idx d' p live inRange absent evicted =>
    have other : id ≠ id' ∨ i ≠ idx := by
      by_contra here
      obtain ⟨rfl, rfl⟩ := not_or.mp here |>.imp not_not.mp not_not.mp
      obtain ⟨⟨d, q, live', -, present, -⟩, -⟩ := held
      obtain rfl := Option.some.inj (live.symm.trans live')
      exact present absent
    obtain ⟨resident, unlisted⟩ := (held.place_other live other).evicted evicted
    refine ⟨resident, fun inRing => ?_⟩
    rcases List.mem_append.mp inRing with old | new
    · exact unlisted old
    · obtain ⟨rfl, rfl⟩ := Prod.mk.inj (List.mem_singleton.mp new)
      exact other.elim (· rfl) (· rfl)
  | store live block fits => exact held.store live block fits

theorem Held.moves (held : Held v id i) (moves : Moves v w) : Held w id i := by
  induction moves with
  | refl => exact held
  | tail _ move ih => exact ih.move move

/-! ## Reads of held blocks -/

theorem diskioBlock_resident (resident : Resident ⟨s, image⟩ id idx) :
    ∃ p, diskioBlock id idx s = some (some p, s) ∧
      ∀ j < blockSize, p j = image id (idx * blockSize + j) := by
  obtain ⟨d, p, live, inRange, present, block, holds⟩ := resident
  have live : s.disks id = some d := live
  refine ⟨p, ?_, holds⟩
  simp only [diskioBlock, live, not_le.mpr inRange, if_false, ne_eq, present, not_false_eq_true,
    if_true, block]

/-- The read returns 0 with the image's bytes and leaves the state as it was. -/
theorem rwLoop_resident {fuel offset len : Nat} {buf : List Byte} (enough : len ≤ fuel)
    (covered : ∀ k, offset ≤ k → k < offset + len → Resident ⟨s, image⟩ id (k / blockSize)) :
    rwLoop id false fuel offset len buf s = some ⟨0, slice (image id) offset len, s⟩ := by
  induction fuel generalizing offset len buf with
  | zero =>
    obtain rfl := Nat.le_zero.mp enough
    rfl
  | succ fuel ih =>
    simp only [rwLoop]
    split
    · rename_i empty
      subst empty
      rfl
    rename_i some_
    obtain ⟨at_, inBlock, positive, short, fits, -⟩ := chunk_bounds offset some_
    generalize offset - offset / blockSize * blockSize = start at *
    generalize min (blockSize - start) len = chunk at *
    obtain ⟨p, block, holds⟩ := diskioBlock_resident (covered offset le_rfl (by omega))
    have rest : rwLoop id false fuel (offset + chunk) (len - chunk) (buf.drop chunk) s =
        some ⟨0, slice (image id) (offset + chunk) (len - chunk), s⟩ :=
      ih (by omega) fun k low high => covered k (by omega) (by omega)
    have first : slice p start chunk = slice (image id) offset chunk :=
      slice_congr fun j bound => by rw [holds _ (by omega), ← Nat.add_assoc, at_]
    simp only [block, Option.bind_some, Bool.false_eq_true, if_false, rest, Option.map_some, first]
    rw [← slice_append, Nat.add_sub_cancel' short]

/-! ## Steps -/

/-- Placed blocks are held. -/
def HeaderInv (s : HeaderSession) : Prop :=
  ∀ id i, s.placed id i = true → Held ⟨s.cache, s.image⟩ id i

theorem diskioRead_resident {offset len : Nat} (slot : id < maxDisks) (live : s.disks id = some d)
    (inside : offset + len ≤ d.size)
    (covered : ∀ k, offset ≤ k → k < offset + len → Resident ⟨s, image⟩ id (k / blockSize)) :
    diskioRead id offset len s = some ⟨0, slice (image id) offset len, s⟩ := by
  simp only [diskioRead, diskioRw, not_le.mpr slot, if_false, live, not_lt.mpr inside]
  exact rwLoop_resident le_rfl covered

theorem HeaderInv.headersResident {s : HeaderSession} (inv : HeaderInv s) : HeadersResident s where
  resident id i placed := (inv id i placed).1
  reads _ id _ _ _ slot live inside covered :=
    diskioRead_resident slot live inside fun k low high => (inv id _ (covered k low high)).1

theorem newly_iff : HeaderSession.newly s t id i = true ↔ ∃ d d', s.disks id = some d ∧
    t.disks id = some d' ∧ d.state i = .absent ∧ d'.state i ≠ .absent := by
  unfold HeaderSession.newly
  split
  · rename_i d d' live live'
    rw [decide_eq_true_iff, live, live']
    refine ⟨fun both => ⟨d, d', rfl, rfl, both⟩, ?_⟩
    rintro ⟨_, _, ⟨⟩, ⟨⟩, both⟩
    exact both
  · rename_i unused
    refine ⟨nofun, ?_⟩
    rintro ⟨d, d', live, live', -⟩
    exact absurd live' (unused d d' live)

/-- Where nothing can be staged, nothing is done. -/
theorem diskioPreload_tooLong {len : Nat} (long : fetchRun * blockSize < len) :
    (diskioPreload id len s).2 = s := by
  unfold diskioPreload
  split
  · rfl
  split
  · rfl
  · rw [if_pos (.inr long)]

/-- A block held before a preload is held after it. -/
theorem Held.preload {len id' : Nat} {stage : Nat → Byte} (held : Held ⟨s, image⟩ id' i)
    (frame : PreloadFrame id len stage s t) : Held ⟨t, image⟩ id' i := by
  obtain ⟨resident, unlisted⟩ := held
  have ⟨d, _, live, _, present, _⟩ := resident
  refine ⟨?_, fun inRing => unlisted (frame.ring ▸ inRing)⟩
  rcases eq_or_ne id' id with rfl | other
  · obtain ⟨d', live', preloaded⟩ := frame.disk d live
    rcases preloaded.block i with ⟨state, block⟩ | ⟨absent, -⟩
    · exact resident.of_same live live' preloaded.nblocks state block fun _ _ => rfl
    · exact absurd absent present
  · have live' := (frame.others id' other).trans live
    exact resident.of_same live live' rfl rfl rfl fun _ _ => rfl

/-- A block that the preload placed is held, if the ring does not name it. -/
theorem Held.of_newly {len : Nat} {stage : Nat → Byte} (frame : PreloadFrame id len stage s t)
    (fresh : HeaderSession.newly s t id i = true)
    (unlisted : ∀ d, s.disks id = some d → d.state i = .absent → Stageable d len i →
      (id, i) ∉ s.cleanRing)
    (bytes : ∀ j < blockSize, image id (i * blockSize + j) =
      if i * blockSize + j < len then stage (i * blockSize + j) else 0) :
    Held ⟨t, image⟩ id i := by
  obtain ⟨d, d', live, live', absent, present⟩ := newly_iff.mp fresh
  obtain ⟨d'', live'', preloaded⟩ := frame.disk d live
  obtain rfl := Option.some.inj (live'.symm.trans live'')
  rcases preloaded.block i with ⟨state, -⟩ | ⟨-, stageable, -, p, block, holds⟩
  · exact absurd (state.trans absent) present
  refine ⟨⟨d', p, live', preloaded.nblocks ▸ stageable.1, present, block, fun j bound => ?_⟩,
    fun inRing => unlisted d live absent stageable (frame.ring ▸ inRing)⟩
  exact (holds j bound).trans (bytes j bound).symm

theorem Held.of_image {image' : Nat → Nat → Byte} (held : Held ⟨s, image⟩ id i)
    (bytes : ∀ j < blockSize, image' id (i * blockSize + j) = image id (i * blockSize + j)) :
    Held ⟨s, image'⟩ id i := by
  obtain ⟨resident, unlisted⟩ := held
  have ⟨_, _, live, _⟩ := resident
  exact ⟨resident.of_same live live rfl rfl rfl bytes, unlisted⟩

theorem HeaderInv.preload {s t : HeaderSession} {len : Nat} {env : List Bool} (inv : HeaderInv s)
    (unlisted : s.Unlisted (.preload id len, env) = true)
    (next : s.step (.preload id len, env) = some t) : HeaderInv t := by
  have framed (c : DiskIo) : PreloadFrame id len (c.browserDisks id) c (diskioPreload id len c).2 :=
    preloadFrame_diskioPreload
  have frame := framed { s.cache with env }
  have ring (d : Disk) (live : s.cache.disks id = some d) (i : Nat) (absent : d.state i = .absent)
      (stageable : Stageable d len i) (short : len ≤ fetchRun * blockSize) :
      (id, i) ∉ s.cache.cleanRing := by
    intro inRing
    simp only [HeaderSession.Unlisted, live, Bool.or_eq_true, decide_eq_true_eq, List.all_eq_true]
      at unlisted
    rcases unlisted.resolve_left (not_lt.mpr short) _ inRing with (other | present) | not_
    · exact other rfl
    · exact present absent
    · exact not_ stageable
  cases next
  intro id' i placed
  have block (j : Nat) (bound : j < blockSize) : (i * blockSize + j) / blockSize = i := by
    rw [Nat.mul_comm, Nat.mul_add_div (by decide), Nat.div_eq_of_lt bound, Nat.add_zero]
  rcases eq_or_ne id' id with rfl | other
  · simp only [Function.update_self, Bool.or_eq_true] at placed
    by_cases fresh : HeaderSession.newly s.cache
        (diskioPreload id' len { s.cache with env }).2 id' i = true
    · refine Held.of_newly frame fresh (fun d live absent stageable => ?_) fun j bound => ?_
      · refine ring d live i absent stageable (not_lt.mp fun long => ?_)
        rw [diskioPreload_tooLong long] at fresh
        obtain ⟨e, e', live, live', absent, present⟩ := newly_iff.mp fresh
        obtain rfl := Option.some.inj (live.symm.trans live')
        exact present absent
      · simp only [Function.update_self, block j bound, fresh, if_true]
    · have held : Held ⟨{ s.cache with env }, s.image⟩ id' i :=
        inv id' i (placed.resolve_right fresh)
      refine (held.preload frame).of_image fun j bound => ?_
      simp only [Function.update_self, block j bound, fresh, Bool.false_eq_true, if_false]
  · simp only [Function.update_of_ne other] at placed
    have held : Held ⟨{ s.cache with env }, s.image⟩ id' i := inv id' i placed
    refine (held.preload frame).of_image fun j bound => ?_
    simp only [Function.update_of_ne other]

theorem HeaderInv.step {s t : HeaderSession} {op : DiskOp × List Bool} (inv : HeaderInv s)
    (unlisted : s.Unlisted op = true) (next : s.step op = some t) : HeaderInv t := by
  obtain ⟨op, env⟩ := op
  cases op with
  | register size source =>
    simp only [HeaderSession.step] at next
    rcases diskioRegister_cases size source { s.cache with env } with
      ⟨env', failed⟩ | ⟨slot, env', -, -, -, registered⟩
    · simp only [failed] at next
      cases next
      exact inv
    · simp only [registered] at next
      cases next
      intro id i placed
      rcases eq_or_ne id slot with rfl | other
      · simp only [Function.update_self, Bool.false_eq_true] at placed
      · simp only [Function.update_of_ne other] at placed
        obtain ⟨resident, notInRing⟩ := inv id i placed
        have ⟨_, _, live, _⟩ := resident
        exact ⟨resident.of_same live ((Function.update_of_ne other ..).trans live) rfl rfl rfl
          fun _ _ => rfl, notInRing⟩
  | unregister slot =>
    cases next
    intro id i placed
    rcases eq_or_ne id slot with rfl | other
    · simp only [Function.update_self, Bool.false_eq_true] at placed
    · simp only [Function.update_of_ne other] at placed
      unfold diskioUnregister
      split
      · exact inv id i placed
      · obtain ⟨resident, notInRing⟩ := inv id i placed
        have ⟨_, _, live, _⟩ := resident
        exact ⟨resident.of_same live ((Function.update_of_ne other ..).trans live) rfl rfl rfl
          fun _ _ => rfl, notInRing⟩
  | preload id len => exact inv.preload unlisted next
  | read id offset len =>
    obtain ⟨r, done, rfl⟩ := Option.map_eq_some_iff.mp next
    intro id' i placed
    have held : Held ⟨{ s.cache with env }, s.image⟩ id' i := inv id' i placed
    exact held.moves (moves_diskioRead done)
  | write id offset buf =>
    obtain ⟨r, done, rfl⟩ := Option.map_eq_some_iff.mp next
    intro id' i placed
    have held : Held ⟨{ s.cache with env }, s.image⟩ id' i := inv id' i placed
    exact held.moves (moves_diskioWrite done)

/-- Preloaded headers stay resident in every session whose preloads place no block that the ring
names. -/
theorem headersResident_of_run {s : HeaderSession}
    (run : RunOk HeaderSession.step (fun s op => s.Unlisted op = true) .init s) :
    HeadersResident s := by
  have inv : HeaderInv s := run.invariant nofun HeaderInv.step
  exact inv.headersResident

/-- A header of 100 bytes that was written to, beside the faults of another disk. -/
theorem headersResident_of_written : ∃ s, RunOk HeaderSession.step
    (fun s op => s.Unlisted op = true) .init s ∧ s.placed 0 0 = true ∧ s.image 0 60 = 2 ∧
      s.image 0 61 = 1 ∧ HeadersResident s := by
  obtain ⟨s, done⟩ := Option.isSome_iff_exists.mp (show (execOk HeaderSession.step
    HeaderSession.Unlisted .init (preloadOps 100 ++ [(.register (4 * blockSize) fun _ => 3, []),
      (.write 0 60 [2], []), (.read 1 0 1, [])])).isSome from rfl)
  have run := RunOk.of_execOk (fun _ _ => id) done
  refine ⟨s, run, ?_, ?_, ?_, headersResident_of_run run⟩ <;> cases done <;> rfl

/-- The ring is full of stale entries of slot 0 when a disk takes that slot and has its header
preloaded; the first fault of another disk evicts it. -/
def staleHeader : List (DiskOp × List Bool) :=
  staleOps 128 ++ preloadOps 100 ++ [(.register blockSize fun _ => 1, []), (.read 1 0 1, [])]

theorem not_headersResident_staleHeader :
    ¬ ∀ ops s, exec HeaderSession.step .init ops = some s → HeadersResident s := by
  intro resident
  have lost : ((exec HeaderSession.step .init staleHeader).map fun s => s.placed 0 0 &&
      (s.cache.disks 0).all (·.state 0 = .absent)) = some true := by decide +kernel
  obtain ⟨s, done, both⟩ := Option.map_eq_some_iff.mp lost
  obtain ⟨placed, absent⟩ := Bool.and_eq_true_iff.mp both
  obtain ⟨d, p, live, -, present, -⟩ := (resident _ s done).resident 0 0 placed
  have live : s.cache.disks 0 = some d := live
  rw [live] at absent
  exact present (of_decide_eq_true absent)

end PCemWeb.Platform
