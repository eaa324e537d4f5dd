import Mathlib.Logic.Relation
import PCemWeb.Platform.DiskCacheExact

/-!
# Moves of the block cache

Reads and writes of the disk engine are made of three moves: an outcome is consumed, an absent block
is faulted in and enters the ring, and a chunk is stored in a resident block. On the way into the
ring older entries are evicted. What every move keeps, every transfer keeps, whatever stale entries
the ring has. `image` is what the disks ought to hold, which only a stored chunk changes.
-/

namespace PCemWeb.Platform

open PCemWeb.Lib

/-- The cache beside the bytes that each disk ought to hold. -/
structure View where
  cache : DiskIo
  image : Nat → Nat → Byte

/-- Entries left the ring, and clean blocks that they named were freed. -/
structure Evicted (s t : DiskIo) : Prop where
  ring : ∀ e ∈ t.cleanRing, e ∈ s.cleanRing
  browserDisks : t.browserDisks = s.browserDisks
  free : ∀ id, s.disks id = none → t.disks id = none
  disk : ∀ id d, s.disks id = some d → ∃ d', t.disks id = some d' ∧ d'.size = d.size ∧
    d'.nblocks = d.nblocks ∧ ∀ i, (d'.state i = d.state i ∧ d'.block i = d.block i) ∨
      (d.state i = .clean ∧ d'.state i = .absent ∧ d'.block i = none ∧ (id, i) ∈ s.cleanRing)

inductive Move : View → View → Prop
  | env {s : DiskIo} {image : Nat → Nat → Byte} (env : List Bool) :
      Move ⟨s, image⟩ ⟨{ s with env }, image⟩
  | fault {s t : DiskIo} {image : Nat → Nat → Byte} {id idx : Nat} {d : Disk} {p : Nat → Byte}
      (live : s.disks id = some d) (inRange : idx < d.nblocks) (absent : d.state idx = .absent)
      (evicted : Evicted (s.setDisk id (some (d.place idx (some p) .clean))) t) :
      Move ⟨s, image⟩ ⟨{ t with cleanRing := t.cleanRing ++ [(id, idx)] }, image⟩
  | store {s : DiskIo} {image : Nat → Nat → Byte} {id idx inBlock : Nat} {d : Disk}
      {p : Nat → Byte} {piece : List Byte} (live : s.disks id = some d)
      (block : d.block idx = some p) (fits : inBlock + piece.length ≤ blockSize) :
      Move ⟨s, image⟩
        ⟨s.setDisk id (some (d.place idx (some (overlay p inBlock piece)) .dirty)),
          writeContents image id (idx * blockSize + inBlock) piece⟩

abbrev Moves : View → View → Prop := Relation.ReflTransGen Move

variable {s t u : DiskIo} {v w : View} {image : Nat → Nat → Byte} {id idx : Nat} {d : Disk}

/-! ## Evictions -/

theorem Evicted.of_ring {ring : List (Nat × Nat)} (sub : ∀ e ∈ ring, e ∈ s.cleanRing) :
    Evicted s { s with cleanRing := ring } :=
  ⟨sub, rfl, fun _ unused => unused, fun _ d live => ⟨d, live, rfl, rfl, fun _ => .inl ⟨rfl, rfl⟩⟩⟩

theorem Evicted.trans (first : Evicted s t) (second : Evicted t u) : Evicted s u where
  ring e inRing := first.ring e (second.ring e inRing)
  browserDisks := second.browserDisks.trans first.browserDisks
  free id unused := second.free id (first.free id unused)
  disk id d live := by
    obtain ⟨d', live', size', nblocks', blocks'⟩ := first.disk id d live
    obtain ⟨d'', live'', size'', nblocks'', blocks''⟩ := second.disk id d' live'
    refine ⟨d'', live'', size''.trans size', nblocks''.trans nblocks', fun i => ?_⟩
    rcases blocks' i with ⟨state', block'⟩ | ⟨clean', absent', none', inRing'⟩
    · rcases blocks'' i with ⟨state'', block''⟩ | ⟨clean'', absent'', none'', inRing''⟩
      · exact .inl ⟨state''.trans state', block''.trans block'⟩
      · exact .inr ⟨state'.symm.trans clean'', absent'', none'', first.ring _ inRing''⟩
    · rcases blocks'' i with ⟨state'', block''⟩ | ⟨clean'', -⟩
      · exact .inr ⟨clean', state''.trans absent', block''.trans none', inRing'⟩
      · rw [absent'] at clean''
        cases clean''

/-- The block that the oldest entry names is freed. -/
theorem Evicted.free_head {rest : List (Nat × Nat)} (head : s.cleanRing = (id, idx) :: rest)
    (live : s.disks id = some d) (clean : d.state idx = .clean) :
    Evicted s { s.setDisk id (some (d.place idx none .absent)) with cleanRing := rest } where
  ring e inRest := head ▸ .tail _ inRest
  browserDisks := rfl
  free id' unused := by
    have other : id' ≠ id := by
      rintro rfl
      cases unused.symm.trans live
    exact (Function.update_of_ne other ..).trans unused
  disk id' d' live' := by
    rcases eq_or_ne id' id with rfl | other
    · obtain rfl := Option.some.inj (live.symm.trans live')
      refine ⟨_, Function.update_self .., rfl, rfl, fun i => ?_⟩
      rcases eq_or_ne i idx with rfl | apart
      · exact .inr ⟨clean, Function.update_self .., Function.update_self .., head ▸ .head _⟩
      · exact .inl ⟨Function.update_of_ne apart .., Function.update_of_ne apart ..⟩
    · exact ⟨d', (Function.update_of_ne other ..).trans live', rfl, rfl, fun _ => .inl ⟨rfl, rfl⟩⟩

/-- `evictOldest` reads its list of entries, not the ring. -/
theorem evictOldest_ring {ring : List (Nat × Nat)} (ring' : List (Nat × Nat)) :
    evictOldest ring { s with cleanRing := ring' } = evictOldest ring s := by
  induction ring with
  | nil => rfl
  | cons e rest ih =>
    unfold evictOldest
    rw [ih]
    rfl

theorem evicted_evictOldest {ring : List (Nat × Nat)} (result : evictOldest ring s = some t)
    (whole : s.cleanRing = ring) : Evicted s t := by
  induction ring generalizing s with
  | nil =>
    cases result
    exact .of_ring fun e inNil => absurd inNil List.not_mem_nil
  | cons e rest ih =>
    obtain ⟨id, idx⟩ := e
    have skip (result : evictOldest rest s = some t) : Evicted s t := by
      have dropped : Evicted s { s with cleanRing := rest } :=
        .of_ring fun e inRest => whole ▸ .tail _ inRest
      rw [← evictOldest_ring rest] at result
      exact dropped.trans (ih result rfl)
    unfold evictOldest at result
    split at result
    case h_1 => exact skip result
    case h_2 d live =>
      split at result
      · cases result
      · split at result
        case isTrue clean =>
          cases result
          exact .free_head whole live clean
        case isFalse => exact skip result

theorem cleanRingInsert_eq (inserted : cleanRingInsert id idx s = some t) :
    ∃ u, Evicted s u ∧ t = { u with cleanRing := u.cleanRing ++ [(id, idx)] } := by
  obtain ⟨u, result, rfl⟩ := Option.map_eq_some_iff.mp inserted
  refine ⟨u, ?_, rfl⟩
  split at result
  · exact evicted_evictOldest result rfl
  · cases result
    exact .of_ring fun _ inRing => inRing

/-! ## What moves keep of a disk -/

/-- A disk stays registered with its size. -/
theorem Move.disk (move : Move v w) (live : v.cache.disks id = some d) :
    ∃ d', w.cache.disks id = some d' ∧ d'.size = d.size ∧ d'.nblocks = d.nblocks := by
  cases move with
  | env => exact ⟨d, live, rfl, rfl⟩
  | @fault s t image id' idx d' p live' inRange absent evicted =>
    rcases eq_or_ne id id' with rfl | other
    · obtain rfl := Option.some.inj (live.symm.trans live')
      obtain ⟨e, live, size, nblocks, -⟩ := evicted.disk id _ (Function.update_self ..)
      exact ⟨e, live, size, nblocks⟩
    · obtain ⟨e, live, size, nblocks, -⟩ :=
        evicted.disk id d ((Function.update_of_ne other ..).trans live)
      exact ⟨e, live, size, nblocks⟩
  | @store s image id' idx inBlock d' p piece live' =>
    rcases eq_or_ne id id' with rfl | other
    · obtain rfl := Option.some.inj (live.symm.trans live')
      exact ⟨_, Function.update_self .., rfl, rfl⟩
    · exact ⟨d, (Function.update_of_ne other ..).trans live, rfl, rfl⟩

theorem Moves.disk (moves : Moves v w) (live : v.cache.disks id = some d) :
    ∃ d', w.cache.disks id = some d' ∧ d'.size = d.size ∧ d'.nblocks = d.nblocks := by
  induction moves with
  | refl => exact ⟨d, live, rfl, rfl⟩
  | tail _ move ih =>
    obtain ⟨d', live', size', nblocks'⟩ := ih
    obtain ⟨d'', live'', size'', nblocks''⟩ := move.disk live'
    exact ⟨d'', live'', size''.trans size', nblocks''.trans nblocks'⟩

/-! ## The engine's functions as moves -/

/-- The blocks of a run are absent until they are faulted in. -/
def AbsentRun (id idx k more : Nat) (s : DiskIo) : Prop :=
  ∀ d, s.disks id = some d → ∀ j, k ≤ j → j < k + more →
    idx + j < d.nblocks ∧ d.state (idx + j) = .absent

theorem AbsentRun.next {k more : Nat} {p : Nat → Byte} (run : AbsentRun id idx k (more + 1) s)
    (live : s.disks id = some d)
    (evicted : Evicted (s.setDisk id (some (d.place (idx + k) (some p) .clean))) t) :
    AbsentRun id idx (k + 1) more t := by
  intro d' live' j low high
  obtain ⟨inRange, absent⟩ := run d live j (by omega) (by omega)
  obtain ⟨d'', live'', -, nblocks, blocks⟩ := evicted.disk id _ (Function.update_self ..)
  obtain rfl := Option.some.inj (live'.symm.trans live'')
  have placed : (d.place (idx + k) (some p) .clean).state (idx + j) = .absent :=
    (Function.update_of_ne (by omega) ..).trans absent
  refine ⟨nblocks ▸ inRange, ?_⟩
  rcases blocks (idx + j) with ⟨same, -⟩ | ⟨-, absent', -⟩
  · exact same.trans placed
  · exact absent'

theorem moves_placeRun {stage : Nat → Byte} {k more : Nat}
    (result : placeRun id idx stage k more s = some t) (run : AbsentRun id idx k more s) :
    Moves ⟨s, image⟩ ⟨t, image⟩ := by
  induction more generalizing k s with
  | zero =>
    cases result
    exact .refl
  | succ more ih =>
    unfold placeRun at result
    split at result
    case isFalse =>
      cases result
      exact .single (.env _)
    case isTrue =>
      split at result
      · cases result
      · rename_i d live
        obtain ⟨after, inserted, rest⟩ := Option.bind_eq_some_iff.mp result
        obtain ⟨u, evicted, rfl⟩ := cleanRingInsert_eq inserted
        obtain ⟨inRange, absent⟩ := run d live k (Nat.le_refl k) (by omega)
        have consumed : AbsentRun id idx k (more + 1) s.consume := run
        have faulted : Move ⟨s.consume, image⟩ _ := .fault live inRange absent evicted
        have left : AbsentRun id idx (k + 1) more u := consumed.next live evicted
        exact .head (.env _) (.head faulted (ih rest left))

/-- The block that `diskio_block` returns is in the table. -/
theorem moves_diskioBlock {resident : Option (Nat → Byte)}
    (result : diskioBlock id idx s = some (resident, t)) : Moves ⟨s, image⟩ ⟨t, image⟩ ∧
      ∀ p, resident = some p → ∃ d, t.disks id = some d ∧ d.block idx = some p := by
  unfold diskioBlock at result
  split at result
  · cases result
  rename_i d live
  split at result
  · cases result
  rename_i inRange
  split at result
  · cases result
    exact ⟨.refl, fun p found => ⟨d, live, found⟩⟩
  rename_i absent
  dsimp only at result
  split at result
  · obtain ⟨after, placed, both⟩ := Option.map_eq_some_iff.mp result
    obtain ⟨rfl, rfl⟩ := Prod.mk.inj both
    have run : AbsentRun id idx 0 (absentRun d idx 1 (fetchRun - 1)) s.consume := by
      intro d' live' j _ high
      obtain rfl := Option.some.inj (live.symm.trans live')
      have first : ∀ j < 1, idx + j < d.nblocks ∧ d.state (idx + j) = .absent := by
        intro j zero
        obtain rfl := Nat.lt_one_iff.mp zero
        exact ⟨not_le.mp inRange, not_not.mp absent⟩
      exact (absentRun_spec d idx 1 (fetchRun - 1) first).2 j (by omega)
    refine ⟨.head (.env _) (moves_placeRun placed run), fun p found => ?_⟩
    exact Option.bind_eq_some_iff.mp found
  · cases result
    exact ⟨.single (.env _), nofun⟩

theorem writeContents_nil {offset : Nat} : writeContents image id offset [] = image := by
  rw [writeContents, overlay_nil, Function.update_eq_self]

theorem writeContents_append {offset : Nat} {xs ys : List Byte} :
    writeContents (writeContents image id offset xs) id (offset + xs.length) ys =
      writeContents image id offset (xs ++ ys) := by
  simp only [writeContents, Function.update_self, Function.update_idem, overlay_append]

/-- Storing a chunk in the block that was returned is a move. -/
theorem move_storeChunk {inBlock : Nat} {p : Nat → Byte} {piece : List Byte}
    (result : storeChunk id idx inBlock p piece s = some t)
    (found : ∃ d, s.disks id = some d ∧ d.block idx = some p)
    (fits : inBlock + piece.length ≤ blockSize) :
    Move ⟨s, image⟩ ⟨t, writeContents image id (idx * blockSize + inBlock) piece⟩ := by
  obtain ⟨d, live, rfl⟩ := Option.map_eq_some_iff.mp result
  obtain ⟨d', live', block⟩ := found
  obtain rfl := Option.some.inj (live.symm.trans live')
  exact .store live block fits

/-- A read leaves the image as it is, and a write overlays what it stored. -/
theorem moves_rwLoop {isWrite : Bool} {fuel offset len : Nat} {buf : List Byte} {r : Transfer}
    (result : rwLoop id isWrite fuel offset len buf s = some r)
    (enough : isWrite = true → buf.length = len) :
    Moves ⟨s, image⟩
      ⟨r.after, if isWrite then writeContents image id offset r.moved else image⟩ := by
  induction fuel generalizing offset len buf s r image with
  | zero =>
    unfold rwLoop at result
    split at result <;> cases result
    simp only [writeContents_nil, ite_self]
    exact .refl
  | succ fuel ih =>
    simp only [rwLoop] at result
    split at result
    · cases result
      simp only [writeContents_nil, ite_self]
      exact .refl
    rename_i some_
    obtain ⟨place, -, -, within, fits, -⟩ := chunk_bounds offset some_
    generalize offset - offset / blockSize * blockSize = inBlock at *
    generalize min (blockSize - inBlock) len = chunk at *
    obtain ⟨⟨resident, after⟩, fetched, rest⟩ := Option.bind_eq_some_iff.mp result
    have fetch : Moves ⟨s, image⟩ ⟨after, image⟩ ∧ _ := moves_diskioBlock fetched
    obtain ⟨moves, found⟩ := fetch
    cases resident with
    | none =>
      cases rest
      simp only [writeContents_nil, ite_self]
      exact moves
    | some p =>
      obtain ⟨stored, kept, last⟩ := Option.bind_eq_some_iff.mp rest
      obtain ⟨r', done, rfl⟩ := Option.map_eq_some_iff.mp last
      cases isWrite with
      | false =>
        cases kept
        have left : Moves ⟨after, image⟩ ⟨r'.after, image⟩ := ih done (absurd · Bool.false_ne_true)
        exact moves.trans left
      | true =>
        simp only [if_true] at kept ⊢
        have whole := enough rfl
        have length : (buf.take chunk).length = chunk :=
          List.length_take_of_le (whole.symm ▸ within)
        have within_ : inBlock + (buf.take chunk).length ≤ blockSize := by rwa [length]
        have store : Move ⟨after, image⟩ ⟨stored, writeContents image id
            (offset / blockSize * blockSize + inBlock) (buf.take chunk)⟩ :=
          move_storeChunk kept (found p rfl) within_
        rw [place] at store
        have left : Moves ⟨stored, writeContents image id offset (buf.take chunk)⟩
            ⟨r'.after, writeContents (writeContents image id offset (buf.take chunk)) id
              (offset + chunk) r'.moved⟩ := ih done fun _ => by rw [List.length_drop, whole]
        have joined : writeContents (writeContents image id offset (buf.take chunk)) id
            (offset + chunk) r'.moved =
              writeContents image id offset (buf.take chunk ++ r'.moved) := by
          rw [← writeContents_append, length]
        exact (moves.tail store).trans (joined ▸ left)

theorem moves_diskioRead {offset len : Nat} {r : Transfer}
    (result : diskioRead id offset len s = some r) : Moves ⟨s, image⟩ ⟨r.after, image⟩ := by
  unfold diskioRead diskioRw at result
  split at result
  · cases result
    exact .refl
  split at result
  · cases result
    exact .refl
  split at result
  · cases result
    exact .refl
  · exact moves_rwLoop result nofun

theorem moves_diskioWrite {offset : Nat} {buf : List Byte} {r : Transfer}
    (result : diskioWrite id offset buf s = some r) :
    Moves ⟨s, image⟩ ⟨r.after, writeContents image id offset r.moved⟩ := by
  unfold diskioWrite diskioRw at result
  split at result
  · cases result
    exact writeContents_nil ▸ .refl
  split at result
  · cases result
    exact writeContents_nil ▸ .refl
  split at result
  · cases result
    exact writeContents_nil ▸ .refl
  · exact moves_rwLoop result fun _ => rfl

/-! ## Preloading and registering -/

/-- Block `i` can be staged from the first `len` bytes: whole, or as the disk's final block. -/
def Stageable (d : Disk) (len i : Nat) : Prop :=
  i < d.nblocks ∧ i * blockSize < len ∧ ((i + 1) * blockSize ≤ len ∨ i + 1 = d.nblocks)

instance {len i : Nat} : Decidable (Stageable d len i) :=
  inferInstanceAs (Decidable (_ ∧ _ ∧ (_ ∨ _)))

/-- What a preload of `len` bytes does to the blocks of one disk: absent ones that can be staged
become clean with what was staged. -/
structure Preloaded (len : Nat) (stage : Nat → Byte) (d d' : Disk) : Prop where
  size : d'.size = d.size
  nblocks : d'.nblocks = d.nblocks
  block : ∀ i, (d'.state i = d.state i ∧ d'.block i = d.block i) ∨
    (d.state i = .absent ∧ Stageable d len i ∧ d'.state i = .clean ∧ ∃ p,
      d'.block i = some p ∧ ∀ j < blockSize, p j = if i * blockSize + j < len then stage (i * blockSize + j) else 0)

theorem Preloaded.refl {len : Nat} {stage : Nat → Byte} : Preloaded len stage d d :=
  ⟨rfl, rfl, fun _ => .inl ⟨rfl, rfl⟩⟩

theorem Preloaded.trans {len : Nat} {stage : Nat → Byte} {d' d'' : Disk}
    (first : Preloaded len stage d d') (second : Preloaded len stage d' d'') :
    Preloaded len stage d d'' where
  size := second.size.trans first.size
  nblocks := second.nblocks.trans first.nblocks
  block i := by
    rcases first.block i with ⟨state, block⟩ | placed
    · rcases second.block i with ⟨state', block'⟩ | ⟨absent, ⟨inRange, inLen, whole⟩, placed⟩
      · exact .inl ⟨state'.trans state, block'.trans block⟩
      · rw [first.nblocks] at inRange whole
        exact .inr ⟨state.symm.trans absent, ⟨inRange, inLen, whole⟩, placed⟩
    · rcases second.block i with ⟨state', block'⟩ | ⟨absent, -⟩
      · obtain ⟨absent, stageable, clean, p, block, bytes⟩ := placed
        exact .inr ⟨absent, stageable, state'.trans clean, p, block'.trans block, bytes⟩
      · cases placed.2.2.1.symm.trans absent

/-- The ring, the sources and the other disks stay as they are. -/
structure PreloadFrame (id len : Nat) (stage : Nat → Byte) (s t : DiskIo) : Prop where
  ring : t.cleanRing = s.cleanRing
  browserDisks : t.browserDisks = s.browserDisks
  others : ∀ id' ≠ id, t.disks id' = s.disks id'
  free : s.disks id = none → t.disks id = none
  disk : ∀ d, s.disks id = some d → ∃ d', t.disks id = some d' ∧ Preloaded len stage d d'

theorem PreloadFrame.of_env {len : Nat} {stage : Nat → Byte} (env : List Bool) :
    PreloadFrame id len stage s { s with env } :=
  ⟨rfl, rfl, fun _ _ => rfl, fun unused => unused, fun d live => ⟨d, live, .refl⟩⟩

theorem PreloadFrame.trans {len : Nat} {stage : Nat → Byte} (first : PreloadFrame id len stage s t)
    (second : PreloadFrame id len stage t u) : PreloadFrame id len stage s u where
  ring := second.ring.trans first.ring
  browserDisks := second.browserDisks.trans first.browserDisks
  others id' other := (second.others id' other).trans (first.others id' other)
  free unused := second.free (first.free unused)
  disk d live := by
    obtain ⟨d', live', placed⟩ := first.disk d live
    obtain ⟨d'', live'', placed'⟩ := second.disk d' live'
    exact ⟨d'', live'', placed.trans placed'⟩

/-- One absent block is placed. -/
theorem PreloadFrame.place {len : Nat} {stage : Nat → Byte} (live : s.disks id = some d)
    (absent : d.state idx = .absent) (stageable : Stageable d len idx) :
    PreloadFrame id len stage s (s.setDisk id (some (d.place idx
      (some fun j => if j < min (len - idx * blockSize) blockSize then
        stage (idx * blockSize + j) else 0) .clean))) where
  ring := rfl
  browserDisks := rfl
  others id' other := Function.update_of_ne other ..
  free unused := by cases unused.symm.trans live
  disk d' live' := by
    obtain rfl := Option.some.inj (live.symm.trans live')
    refine ⟨_, Function.update_self .., rfl, rfl, fun i => ?_⟩
    rcases eq_or_ne i idx with rfl | apart
    · refine .inr ⟨absent, stageable, Function.update_self .., _, Function.update_self ..,
        fun j bound => ?_⟩
      have same : j < min (len - i * blockSize) blockSize ↔ i * blockSize + j < len := by omega
      simp only [same]
    · exact .inl ⟨Function.update_of_ne apart .., Function.update_of_ne apart ..⟩

theorem preloadFrame_preloadLoop {len more resident : Nat} {stage : Nat → Byte}
    (live : s.disks id = some d) (inRange : idx + more ≤ d.nblocks)
    (covered : (idx + more) * blockSize < len + blockSize) :
    PreloadFrame id len stage s (preloadLoop id len stage idx more resident s).2 := by
  induction more generalizing idx resident s d with
  | zero => exact .of_env s.env
  | succ more ih =>
    rw [show idx + (more + 1) = idx + 1 + more by omega] at inRange covered
    have inLen : idx * blockSize < len := by
      have least := Nat.mul_le_mul_right blockSize (show idx + 1 ≤ idx + 1 + more by omega)
      rw [Nat.add_mul] at least
      omega
    simp only [preloadLoop, live]
    split
    · exact .of_env s.env
    rename_i full
    split
    · exact ih live inRange covered
    rename_i absent
    split
    · have stageable : Stageable d len idx := by
        refine ⟨by omega, inLen, ?_⟩
        rw [Nat.add_mul]
        omega
      have placed : PreloadFrame id len stage s.consume _ :=
        .place live (not_not.mp absent) stageable
      exact (PreloadFrame.of_env s.env.tail).trans (placed.trans
        (ih (Function.update_self ..) inRange covered))
    · exact .of_env s.env.tail

theorem ceilDiv_covers (len n : Nat) :
    (0 + min ((len + blockSize - 1) / blockSize) n) * blockSize < len + blockSize := by
  have ceil : (len + blockSize - 1) / blockSize * blockSize < len + blockSize := by
    have floor := Nat.div_mul_le_self (len + blockSize - 1) blockSize
    have positive : 0 < blockSize := by decide
    omega
  exact lt_of_le_of_lt (Nat.mul_le_mul_right _ (by omega)) ceil

theorem preloadFrame_diskioPreload {len : Nat} :
    PreloadFrame id len (s.browserDisks id) s (diskioPreload id len s).2 := by
  simp only [diskioPreload]
  split
  · exact .of_env s.env
  split
  · exact .of_env s.env
  rename_i d live
  split
  · exact .of_env s.env
  · exact preloadFrame_preloadLoop live (by omega) (ceilDiv_covers len d.nblocks)

end PCemWeb.Platform
