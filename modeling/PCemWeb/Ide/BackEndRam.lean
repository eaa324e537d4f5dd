import PCemWeb.Ide.BackEndExact

/-!
# RAM disks

A RAM disk serves every request that begins at 0 or later up to its end. Its cursor is a 32-bit
offset, so that an offset outside the image wraps to `offset % 2^23`; a seek past 2 GB leaves the
cursor where it was.
-/

namespace PCemWeb.Ide

open PCemWeb.Lib

namespace BackEnd

variable {img : Image} {op : Op} {offset : Int} {nrSectors sectors : Nat} {fault : Option Nat}
  {s : Store} {buffer : Nat → Byte} {host : Host}

/-! ## The operations of the RAM disk -/

theorem ramdiskSeek_eq (s : Store) (offset : Int) :
    ramdiskSeek s (offset * 512) =
      if offset % 8388608 < 4194304 then { s with pos :=
        (offset % 8388608).toNat * 512 } else s := by
  have pos : toSize (offset * 512) = (offset % 8388608).toNat * 512 := by
    unfold toSize
    omega
  unfold ramdiskSeek maxStreamSize
  rw [pos]
  by_cases low : offset % 8388608 < 4194304
  · rw [if_neg (by omega), if_pos low]
  · rw [if_pos (by omega), if_neg low]

/-- A transfer that ends before 2 GB is not cut. -/
theorem ramdiskClip_inside {size : Nat} (fits : s.pos + size ≤ maxStreamSize) :
    ramdiskClip s size = size := by
  unfold maxStreamSize at fits
  unfold ramdiskClip toSize maxStreamSize
  rw [if_neg (by omega)]

/-- A length that stands for a negative count is not cut. -/
theorem ramdiskClip_huge {size : Nat} (bounded : s.pos ≤ maxStreamSize)
    (huge : maxStreamSize < size)
    (word : size < 4294967296) : ramdiskClip s size = size := by
  unfold maxStreamSize at bounded huge
  unfold ramdiskClip toSize maxStreamSize
  rw [if_neg (by omega)]

theorem ramdiskRead_inside (s : Store) (buffer : Nat → Byte) (size : Nat)
    (fits : s.pos + size ≤ s.size)
    (bounded : s.size ≤ maxStreamSize) :
    (ramdiskRead s buffer size).2 = overlay buffer 0 (slice s.bytes s.pos size) ∧
      (ramdiskRead s buffer size).1.bytes = s.bytes ∧
      (ramdiskRead s buffer size).1.size = s.size := by
  unfold ramdiskRead
  rw [ramdiskClip_inside (by omega)]
  by_cases none_ : size = 0
  · subst none_
    simp
  · have all : min (s.size - s.pos) size = size := by omega
    simp only [if_neg none_, if_neg (show ¬ s.size < s.pos by omega), all, and_self]

/-- Nothing is read for no bytes or past the end. -/
theorem ramdiskRead_nothing {size : Nat} (bounded : s.pos ≤ maxStreamSize)
    (nothing : size = 0 ∨ s.size ≤ s.pos) : ramdiskRead s buffer size = (s, buffer) := by
  unfold ramdiskRead
  by_cases past : s.size < s.pos
  · simp only [if_pos past, ite_self]
  · rcases nothing with rfl | atEnd
    · rw [ramdiskClip_inside (by omega)]
      rfl
    · have none_ (n : Nat) : min (s.size - s.pos) n = 0 := by omega
      simp only [if_neg past, none_, Nat.add_zero, slice_zero, overlay_nil, ite_self]

/-- Something is read before the end. -/
theorem ramdiskRead_first {size : Nat} (some_ : 0 < size) (before : s.pos < s.size)
    (bounded : s.size ≤ maxStreamSize) : (ramdiskRead s buffer size).2 0 = s.bytes s.pos := by
  have positive : 0 < ramdiskClip s size := by
    unfold ramdiskClip
    split <;> omega
  have moved : 0 < min (s.size - s.pos) (ramdiskClip s size) := by omega
  unfold ramdiskRead
  simp only [if_neg (show ¬ ramdiskClip s size = 0 by omega),
    if_neg (show ¬ s.size < s.pos by omega)]
  rw [overlay_slice, if_pos (by omega)]
  rfl

theorem ramdiskGrow_inside {required : Nat} (fits : required + s.pos ≤ s.capacity)
    (bounded : s.capacity ≤ maxStreamSize) : ramdiskGrow host s required = some s := by
  unfold maxStreamSize at bounded
  unfold ramdiskGrow toSize maxStreamSize
  rw [if_neg (by omega), if_pos (by omega)]

theorem ramdiskWrite_inside {size : Nat} (fits : s.pos + size ≤ s.size)
    (room : s.size ≤ s.capacity) (bounded : s.capacity ≤ maxStreamSize) :
    ramdiskWrite host s buffer size =
      { s with bytes := overlay s.bytes s.pos (slice buffer 0 size), pos := s.pos + size } := by
  unfold ramdiskWrite
  rw [ramdiskClip_inside (by omega)]
  dsimp only
  rw [ramdiskGrow_inside (by omega) bounded]
  have all : min (s.capacity - s.pos) size = size := by omega
  have end_ : max s.size (s.pos + size) = s.size := by omega
  simp only [if_neg (show ¬ s.capacity < s.pos by omega), all, end_]

/-- A negative count of bytes wraps the size that is required, and the allocation stays. -/
theorem ramdiskWrite_wrapped {size : Nat} (huge : maxStreamSize < size) (word : size < 4294967296)
    (wraps : size + s.pos = 4294967296 + s.size) (room : s.size ≤ s.capacity)
    (bounded : s.pos ≤ maxStreamSize) (beyond : s.capacity < s.pos) :
    ramdiskWrite host s buffer size = s := by
  have grown : ramdiskGrow host s size = some s := by
    unfold maxStreamSize at bounded huge
    unfold ramdiskGrow toSize maxStreamSize
    rw [if_neg (by omega), if_pos (by omega)]
  unfold ramdiskWrite
  rw [ramdiskClip_huge bounded huge word]
  dsimp only
  rw [grown]
  simp only [if_pos beyond]

theorem size_le_ramdiskWrite (size : Nat) : s.size ≤ (ramdiskWrite host s buffer size).size := by
  unfold ramdiskWrite ramdiskGrow
  dsimp only
  split
  · exact Nat.le_refl _
  · rename_i grown
    split at grown
    · cases grown
    split at grown
    · cases grown
      split
      · exact Nat.le_refl _
      · exact Nat.le_max_left ..
    · obtain ⟨capacity, -, rfl⟩ := Option.map_eq_some_iff.mp grown
      split
      · exact Nat.le_refl _
      · exact Nat.le_max_left ..

/-- Where the heap gives what is asked for, the end of the stream follows the cursor. -/
theorem pos_le_ramdiskWrite (fault : Option Nat) (s : Store) (buffer : Nat → Byte) (size : Nat)
    (bounded : s.pos ≤ maxStreamSize)
    (word : size < 4294967296) (room : s.pos ≤ s.capacity ∨ size ≤ maxStreamSize) :
    s.pos ≤ (ramdiskWrite (hostOf fault) s buffer size).size ∧
      (0 < size → s.pos < maxStreamSize → s.pos < s.capacity →
        s.pos < (ramdiskWrite (hostOf fault) s buffer size).size) := by
  have clip : ramdiskClip s size = size ∧ maxStreamSize < size ∨
      ramdiskClip s size = min size (maxStreamSize - s.pos) ∧ size ≤ maxStreamSize := by
    by_cases huge : maxStreamSize < size
    · exact .inl ⟨ramdiskClip_huge bounded huge word, huge⟩
    · refine .inr ⟨?_, by omega⟩
      unfold maxStreamSize at bounded huge
      unfold ramdiskClip toSize maxStreamSize
      split <;> omega
  generalize clipped : ramdiskClip s size = asked at clip
  have passes : ¬ toSize (maxStreamSize - asked) < s.pos := by
    unfold maxStreamSize at bounded clip
    unfold toSize maxStreamSize
    omega
  have inRoom : s.pos ≤ s.capacity ∨ asked + s.pos < 4294967296 := by
    unfold maxStreamSize at bounded clip room
    omega
  have positive : 0 < size → s.pos < maxStreamSize → 0 < asked := by omega
  unfold ramdiskWrite ramdiskGrow
  rw [clipped]
  simp only [if_neg passes, hostOf, Option.map_some]
  by_cases kept : (asked + s.pos) % 4294967296 ≤ s.capacity
  · simp only [if_pos kept]
    rw [if_neg (by omega)]
    dsimp only
    omega
  · simp only [if_neg kept]
    rw [if_neg (by omega)]
    dsimp only
    omega

theorem size_le_ramZero (left : Nat) : s.size ≤ (ramZero host left s).size := by
  induction left generalizing s with
  | zero => exact Nat.le_refl _
  | succ left ih => exact Nat.le_trans (size_le_ramdiskWrite 512) ih

theorem ramZero_add (m n : Nat) : ramZero host (m + n) s = ramZero host n (ramZero host m s) := by
  induction m generalizing s with
  | zero => rw [Nat.zero_add, ramZero]
  | succ m ih => rw [Nat.succ_add, ramZero, ih, ramZero]

/-- The loop of a format inside the image. -/
theorem ramZero_inside (left : Nat) (inside : s.pos + left * 512 ≤ s.size)
    (room : s.size ≤ s.capacity) (bounded : s.capacity ≤ maxStreamSize) :
    ramZero host left s =
      { s with bytes := overlay s.bytes s.pos (slice zeros 0 (left * 512))
               pos := s.pos + left * 512 } := by
  induction left generalizing s with
  | zero => simp [ramZero]
  | succ left ih =>
    rw [ramZero, ramdiskWrite_inside (by omega) room bounded]
    have rest : s.pos + 512 + left * 512 ≤ s.size := by omega
    refine (ih (s := { s with bytes := overlay s.bytes s.pos (slice zeros 0 512)
                              pos := s.pos + 512 }) rest room bounded).trans ?_
    dsimp only
    rw [overlay_zeros]
    have bytes : 512 + left * 512 = (left + 1) * 512 := by omega
    rw [bytes, Nat.add_assoc, bytes]

/-! ## Requests -/

/-- Sizes of a RAM disk image. -/
structure Sizes (img : Image) : Prop where
  sectors : img.sectors < 4194304
  room : img.sectors * 512 < img.capacity
  capacity : img.capacity ≤ maxStreamSize

theorem sizes (kind : img.kind = .rawRam) : Sizes img := by
  obtain ⟨room, capacity⟩ := img.room kind
  unfold maxStreamSize at capacity
  exact ⟨by omega, room, capacity⟩

theorem not_fails_of_ram (kind : img.kind = .rawRam) : ¬ Fails img op offset nrSectors fault :=
  fun failed => failed.1 kind

theorem ram_ret (kind : img.kind = .rawRam) (active : op = .read ∨ img.readOnly = false) :
    (run img host offset nrSectors s buffer op).ret =
      partly nrSectors (transferSectors img.sectors offset nrSectors) := by
  cases op with
  | read => simp only [run, hddReadSectors, kind]
  | write =>
    simp only [run, hddWriteSectors, kind, active.resolve_left (by decide), Bool.false_eq_true,
      if_false]
  | format =>
    simp only [run, hddFormatSectors, kind, active.resolve_left (by decide), Bool.false_eq_true,
      if_false]

/-- A RAM disk serves a request inside it. -/
theorem ram_front {t : Nat} (kind : img.kind = .rawRam)
    (active : op = .read ∨ img.readOnly = false) (request : Request op offset nrSectors)
    (front : Front img.sectors offset nrSectors t) (holds : Holds img s) :
    Exact img op offset nrSectors fault s buffer (run img host offset nrSectors s buffer op) := by
  have start := front.start
  have inside := front.inside
  have whole := holds.size
  obtain ⟨small, room, bounded⟩ := sizes kind
  have capacity := (holds.ram kind).1
  have seek : ramdiskSeek s (offset * 512) = { s with pos := (offset * 512).toNat } := by
    rw [ramdiskSeek_eq, if_pos (by omega)]
    congr 1
    omega
  have ret : partly nrSectors (transferSectors img.sectors offset nrSectors) ≠ 0 ↔
      t ≠ nrSectors ∨ Fails img op offset nrSectors fault := by
    rw [partly_ne_zero, front.transfer]
    refine ⟨fun cut => .inl (by omega), fun cases_ => ?_⟩
    have := cases_.resolve_right (not_fails_of_ram kind)
    omega
  cases op with
  | read =>
    have bytes := toSize_front front (request.memory (by decide))
    obtain ⟨filled_, kept, size⟩ := ramdiskRead_inside
      { s with pos := (offset * 512).toNat } buffer (t * 512) (by dsimp only; omega)
      (by dsimp only; omega)
    refine exact_of_read (t * 512) front (Nat.le_refl _) (fun _ => rfl) ?_ ?_ ?_ ?_ <;>
      simp only [run, hddReadSectors, kind, seek, bytes]
    · exact kept
    · exact size
    · exact filled_
    · exact ret
  | write =>
    have writable := active.resolve_left (by decide)
    have bytes := toSize_front front (request.memory (by decide))
    refine exact_of_write (t * 512) buffer front ⟨by decide, writable⟩ holds
      (Nat.le_refl _) (fun _ => rfl) ?_ ?_ (fun a _ => ?_) (fun i => rfl) ?_ <;>
      simp only [run, hddWriteSectors, kind, writable, Bool.false_eq_true, if_false, seek, bytes]
    · rw [ramdiskWrite_inside (by dsimp only; omega) (by dsimp only; omega) (by dsimp only; omega)]
    · rw [ramdiskWrite_inside (by dsimp only; omega) (by dsimp only; omega) (by dsimp only; omega)]
    · exact ret
  | format =>
    have writable := active.resolve_left (by decide)
    have left : (transferSectors img.sectors offset nrSectors).toNat = t := by
      rw [front.transfer]
      rfl
    refine exact_of_write (t * 512) zeros front ⟨by decide, writable⟩ holds
      (Nat.le_refl _) (fun _ => rfl) ?_ ?_ (fun a _ => ?_) (fun i => rfl) ?_ <;>
      simp only [run, hddFormatSectors, kind, writable, Bool.false_eq_true, if_false, seek, left]
    · rw [ramZero_inside t (by dsimp only; omega) (by dsimp only; omega) (by dsimp only; omega)]
    · rw [ramZero_inside t (by dsimp only; omega) (by dsimp only; omega) (by dsimp only; omega)]
    · exact ret

/-- A call that leaves the cursor, at most, somewhere else. -/
theorem ram_idle (kind : img.kind = .rawRam) (active : op = .read ∨ img.readOnly = false)
    (rests : op = .read → ramdiskRead (ramdiskSeek s (offset * 512)) buffer
      (toSize (transferSectors img.sectors offset nrSectors * 512)) =
        (ramdiskSeek s (offset * 512), buffer))
    (keeps : op = .write → (ramdiskWrite host (ramdiskSeek s (offset * 512)) buffer
      (toSize (transferSectors img.sectors offset nrSectors * 512))).size = s.size ∧
      (ramdiskWrite host (ramdiskSeek s (offset * 512)) buffer
      (toSize (transferSectors img.sectors offset nrSectors * 512))).bytes = s.bytes)
    (none_ : op = .format → transferSectors img.sectors offset nrSectors ≤ 0) :
    Idle s buffer (run img host offset nrSectors s buffer op) := by
  have same : (ramdiskSeek s (offset * 512)).size = s.size ∧
      (ramdiskSeek s (offset * 512)).bytes = s.bytes := by
    rw [ramdiskSeek_eq]
    split <;> exact ⟨rfl, rfl⟩
  cases op with
  | read =>
    simp only [run, hddReadSectors, kind]
    rw [rests rfl]
    exact ⟨same.1, same.2, rfl⟩
  | write =>
    simp only [run, hddWriteSectors, kind, active.resolve_left (by decide), Bool.false_eq_true,
      if_false]
    exact ⟨(keeps rfl).1, (keeps rfl).2, rfl⟩
  | format =>
    have left : (transferSectors img.sectors offset nrSectors).toNat = 0 :=
      Int.toNat_of_nonpos (none_ rfl)
    simp only [run, hddFormatSectors, kind, active.resolve_left (by decide), Bool.false_eq_true,
      if_false, left, ramZero]
    exact ⟨same.1, same.2, rfl⟩

theorem owed_far (kind : img.kind = .rawRam) (far : Far img.sectors offset)
    (request : Request op offset nrSectors) (single : op ≠ .format) :
    owed img.sectors offset nrSectors = 0 := by
  have small := (sizes kind).sectors
  have memory := request.memory single
  unfold Far at far
  unfold owed
  omega

/-- The byte that an offset wraps to, before the end, -/
theorem cursor_lt (before : offset % 8388608 < sectors) :
    (offset % 8388608).toNat * 512 < sectors * 512 := by
  omega

/-- and past it. -/
theorem le_cursor (past : sectors ≤ offset % 8388608) :
    sectors * 512 ≤ (offset % 8388608).toNat * 512 := by
  omega

theorem toSize_lt (x : Int) : toSize x < 4294967296 := by
  unfold toSize
  omega

/-- The length that stands for a negative count, at a cursor past the end. -/
theorem wrapped_length (past : sectors < offset % 8388608) (low : offset % 8388608 < 4194304) :
    2147483647 < ((sectors - offset) % 8388608).toNat * 512 ∧
      ((sectors - offset) % 8388608).toNat * 512 + (offset % 8388608).toNat * 512 =
        4294967296 + sectors * 512 := by
  omega

/-- The cursor where the seek leaves the store that refutes a call. -/
theorem seek_filled (pos : Nat) :
    ramdiskSeek (filled img pos) (offset * 512) =
      filled img (if offset % 8388608 < 4194304 then (offset % 8388608).toNat * 512 else pos) := by
  rw [ramdiskSeek_eq]
  split <;> rfl

/-- A read that begins inside the image, at a cursor that is not meant. -/
theorem not_meets_ram_read (kind : img.kind = .rawRam) (outside : offset < 0 ∨ img.sectors ≤ offset)
    (cursor : offset % 8388608 < 4194304 → offset % 8388608 < img.sectors)
    (some_ : 0 < toSize (transferSectors img.sectors offset nrSectors * 512)) :
    ¬ Meets img .read offset nrSectors fault := by
  have positive := img.positive
  obtain ⟨small, room, bounded⟩ := sizes kind
  refine not_meets_of_buffer 0 (fun _ => Nat.zero_le _) outside ?_
  simp only [run, hddReadSectors, kind, seek_filled]
  rw [ramdiskRead_first some_]
  · change (2 : Byte) ≠ 1
    decide
  · dsimp only [filled]
    split
    · exact cursor_lt (cursor ‹_›)
    · omega
  · dsimp only [filled]
    omega

/-- A write whose cursor lies past the end. -/
theorem not_meets_ram_write (kind : img.kind = .rawRam) (writable : img.readOnly = false)
    (past : offset % 8388608 < 4194304 → img.sectors < offset % 8388608)
    (word : toSize (transferSectors img.sectors offset nrSectors * 512) < 4294967296)
    (reaches : offset % 8388608 < 4194304 → offset % 8388608 * 512 ≤ img.capacity ∨
      toSize (transferSectors img.sectors offset nrSectors * 512) ≤ maxStreamSize) :
    ¬ Meets img .write offset nrSectors fault := by
  obtain ⟨small, room, bounded⟩ := sizes kind
  have limit : maxStreamSize = 2147483647 := rfl
  refine not_meets_of_size (img.sectors * 512 + 1) (fun _ => by omega) ?_
  simp only [run, hddWriteSectors, kind, writable, Bool.false_eq_true, if_false, seek_filled]
  by_cases low : offset % 8388608 < 4194304
  · rw [if_pos low]
    have beyond := past low
    refine Nat.lt_of_lt_of_le ?_ (pos_le_ramdiskWrite _ _ _ _ ?_ word ?_).1 <;> dsimp only [filled]
    · omega
    · omega
    · exact (reaches low).imp_left fun fits => by omega
  · rw [if_neg low]
    refine Nat.lt_of_lt_of_le ?_ (pos_le_ramdiskWrite _ _ _ _ ?_ word (.inl ?_)).1 <;> dsimp only
      [filled] <;>
      omega

/-- A write over the last sectors of the image. -/
theorem not_meets_ram_over (kind : img.kind = .rawRam) (writable : img.readOnly = false)
    (request : Request .write offset nrSectors) (far : Far img.sectors offset)
    (cursor : offset % 8388608 < img.sectors)
    (bytes : toSize (transferSectors img.sectors offset nrSectors * 512) =
      ((img.sectors - offset) % 8388608).toNat * 512) :
    ¬ Meets img .write offset nrSectors fault := by
  have positive := img.positive
  obtain ⟨small, room, bounded⟩ := sizes kind
  have limit : maxStreamSize = 2147483647 := rfl
  have memory := request.memory (by decide)
  refine not_meets_of_image 0 ((offset % 8388608).toNat * 512)
    (fun _ => Nat.zero_le _) (cursor_lt cursor) (fun reached => ?_) ?_
  · unfold Reached at reached
    unfold Far at far
    omega
  · simp only [run, hddWriteSectors, kind, writable, Bool.false_eq_true, if_false, seek_filled]
    rw [if_pos (by omega), ramdiskWrite_inside (by dsimp only [filled]; omega)
      (by dsimp only [filled]; omega) (by dsimp only [filled]; omega)]
    dsimp only [filled]
    rw [overlay_slice, if_pos (by omega)]
    decide

theorem ram_far (kind : img.kind = .rawRam) (active : op = .read ∨ img.readOnly = false)
    (request : Request op offset nrSectors) (far : Far img.sectors offset)
    (count : 0 < nrSectors) :
    Meets img op offset nrSectors fault ↔ CursorRests img op offset nrSectors := by
  have small := img.small
  obtain ⟨few, room, bounded⟩ := sizes kind
  have limit : maxStreamSize = 2147483647 := rfl
  obtain ⟨negative, bytes⟩ := transfer_far request small far
  have ret := partly_far far small request
  have out := far_outOfRange far small count
  have side : offset < 0 ∨ img.sectors ≤ offset := by
    unfold Far at far
    omega
  have word : toSize (transferSectors img.sectors offset nrSectors * 512) < 4294967296 :=
    toSize_lt _
  cases op with
  | read =>
    by_cases rests : CursorRests img .read offset nrSectors
    · refine iff_of_true ((meets_iff_of_idle _ active out fun host s buffer holds _ =>
        ⟨by rw [ram_ret kind active]; exact ret, ram_idle kind active (fun _ => ?_)
          (fun wrong => by cases wrong) (fun wrong => by cases wrong)⟩).mpr
        (.inl (owed_far kind far request (by decide)))) rests
      have whole := holds.size
      obtain ⟨high, low⟩ := rests
      rw [ramdiskSeek_eq, if_pos low]
      apply ramdiskRead_nothing
      · dsimp only
        omega
      · refine .inr ?_
        dsimp only
        omega
    · refine iff_of_false (not_meets_ram_read kind side (fun low => ?_) ?_) rests
      · exact Int.lt_of_not_ge fun high => rests ⟨high, low⟩
      · refine Nat.pos_of_ne_zero fun none_ => rests ?_
        rw [bytes] at none_
        unfold CursorRests
        dsimp only
        omega
  | write =>
    have writable := active.resolve_left (by decide)
    by_cases rests : CursorRests img .write offset nrSectors
    · refine iff_of_true ((meets_iff_of_idle _ active out fun host s buffer holds _ =>
        ⟨by rw [ram_ret kind active]; exact ret, ram_idle kind active (fun wrong => by cases wrong)
          (fun _ => ?_) (fun wrong => by cases wrong)⟩).mpr
        (.inl (owed_far kind far request (by decide)))) rests
      have whole := holds.size
      have capacity := (holds.ram kind).1
      rw [ramdiskSeek_eq]
      rcases rests with atEnd | ⟨past, low, beyond⟩
      · have none_ : ((img.sectors - offset) % 8388608).toNat * 512 = 0 := by omega
        rw [bytes, none_, if_pos (by omega), ramdiskWrite_inside (by dsimp only; omega)
          (by dsimp only; omega) (by dsimp only; omega)]
        simp
      · obtain ⟨huge, wraps⟩ := wrapped_length past low
        have cursor : (offset % 8388608).toNat * 512 ≤ maxStreamSize := by
          rw [limit]
          omega
        have outside : s.capacity < (offset % 8388608).toNat * 512 := by omega
        rw [if_pos low, ramdiskWrite_wrapped (by rw [bytes]; exact huge) word
          (by rw [bytes, whole]; exact wraps) (by dsimp only; omega) cursor outside]
        exact ⟨rfl, rfl⟩
    · refine iff_of_false ?_ rests
      by_cases cursor : offset % 8388608 < img.sectors
      · exact not_meets_ram_over kind writable request far cursor bytes
      · have past : img.sectors < offset % 8388608 := by
          have : offset % 8388608 ≠ img.sectors := fun atEnd => rests (.inl atEnd)
          omega
        refine not_meets_ram_write kind writable (fun _ => past) word fun low => .inl ?_
        exact Int.not_lt.mp fun beyond => rests (.inr ⟨past, low, beyond⟩)
  | format =>
    rw [meets_iff_of_idle _ active out fun host s buffer holds _ =>
      ⟨by rw [ram_ret kind active]; exact ret, ram_idle kind active (fun wrong => by cases wrong)
        (fun wrong => by cases wrong) (fun _ => Int.le_of_lt negative)⟩]
    exact ⟨fun nothing => nothing.resolve_right (not_fails_of_ram kind), .inl⟩

/-- A loop that begins past the end, or goes on to the end and further, makes the disk larger. -/
theorem size_lt_ramZero {pos left : Nat} (bounded : pos ≤ maxStreamSize)
    (sizes : Sizes img) (some_ : 0 < left)
    (past : img.sectors * 512 < pos ∨ ∃ k < left, pos + k * 512 = img.sectors * 512) :
    img.sectors * 512 < (ramZero (hostOf fault) left (filled img pos)).size := by
  have limit : maxStreamSize = 2147483647 := rfl
  have small := sizes.sectors
  have room := sizes.room
  have capacity := sizes.capacity
  rcases past with past | ⟨k, within, atEnd⟩
  · obtain ⟨left, rfl⟩ : ∃ m, left = m + 1 := ⟨left - 1, by omega⟩
    rw [ramZero]
    have follows := (pos_le_ramdiskWrite fault (filled img pos) zeros 512 bounded (by decide)
      (.inr (by rw [limit]; decide))).1
    exact Nat.lt_of_lt_of_le (Nat.lt_of_lt_of_le past follows) (size_le_ramZero left)
  · obtain ⟨left, rfl⟩ : ∃ m, left = k + (m + 1) := ⟨left - k - 1, by omega⟩
    rw [ramZero_add, ramZero, ramZero_inside k (by dsimp only [filled]; omega)
      (by dsimp only [filled]; omega) (by dsimp only [filled]; omega)]
    refine Nat.lt_of_lt_of_le ?_ (size_le_ramZero left)
    have follows := (pos_le_ramdiskWrite fault { filled img pos with
      bytes := overlay (filled img pos).bytes (filled img pos).pos (slice zeros 0 (k * 512))
      pos := (filled img pos).pos + k * 512 } zeros 512
      (by dsimp only [filled]; omega) (by decide) (.inr (by rw [limit]; decide))).2 (by decide)
      (by dsimp only [filled]; omega) (by dsimp only [filled]; omega)
    dsimp only [filled] at follows ⊢
    omega

theorem not_meets_ram_format (kind : img.kind = .rawRam) (writable : img.readOnly = false)
    (low : offset < 0)
    (count : transferSectors img.sectors offset nrSectors = img.sectors - offset) :
    ¬ Meets img .format offset nrSectors fault := by
  have all := sizes kind
  have small := all.sectors
  have room := all.room
  have capacity := all.capacity
  have limit : maxStreamSize = 2147483647 := rfl
  refine not_meets_of_size (img.sectors * 512 + 1) (fun _ => by omega) ?_
  simp only [run, hddFormatSectors, kind, writable, Bool.false_eq_true, if_false, seek_filled]
  by_cases wraps : offset % 8388608 < 4194304
  · rw [if_pos wraps]
    refine size_lt_ramZero ?_ all (by omega) ?_
    · rw [limit]
      omega
    · by_cases past : img.sectors < offset % 8388608
      · refine .inl ?_
        clear room
        omega
      · refine .inr ⟨(img.sectors - offset % 8388608).toNat, by omega, ?_⟩
        clear room
        omega
  · rw [if_neg wraps]
    exact size_lt_ramZero (by omega) all (by omega) (.inl (by omega))

/-- Before the image, a RAM disk serves only a request for nothing, and a write of nothing not
even always: it moves the end of the disk to the cursor. -/
theorem ram_before (kind : img.kind = .rawRam) (active : op = .read ∨ img.readOnly = false)
    (request : Request op offset nrSectors) (near : ¬ Far img.sectors offset) (low : offset < 0) :
    Meets img op offset nrSectors fault ↔
      nrSectors = 0 ∧ (op = .write → offset % 8388608 ≤ img.sectors) := by
  have positive := img.positive
  obtain ⟨few, room, bounded⟩ := sizes kind
  have limit : maxStreamSize = 2147483647 := rfl
  obtain ⟨value, -⟩ := transfer_near request near
  by_cases none_ : nrSectors = 0
  · subst none_
    have zero : transferSectors img.sectors offset 0 = 0 := by omega
    have bytes : toSize (transferSectors img.sectors offset 0 * 512) = 0 := by
      rw [zero]
      rfl
    by_cases stays : op = .write → offset % 8388608 ≤ img.sectors
    · refine iff_of_true (fun host s buffer holds follows => ?_) ⟨rfl, stays⟩
      obtain ⟨capacity, cursor⟩ := holds.ram kind
      have whole := holds.size
      refine exact_of_idle holds (ram_idle kind active (fun _ => ?_) (fun writes => ?_)
        fun _ => Int.le_of_eq zero) ?_ (.inl ?_)
      · rw [bytes]
        refine ramdiskRead_nothing ?_ (.inl rfl)
        rw [ramdiskSeek_eq]
        split
        · dsimp only
          omega
        · exact cursor
      · have inside := stays writes
        rw [bytes, ramdiskSeek_eq, if_pos (by omega), ramdiskWrite_inside]
        · simp
        · dsimp only
          clear room
          omega
        · dsimp only
          omega
        · dsimp only
          omega
      · rw [ram_ret kind active, zero]
        refine iff_of_false (by simp [partly]) ?_
        rintro (out | ⟨writes, readOnly⟩ | failed)
        · have := outOfRange_iff.mp out
          omega
        · rw [active.resolve_left writes] at readOnly
          cases readOnly
        · exact not_fails_of_ram kind failed
      · unfold owed
        omega
    · refine iff_of_false ?_ fun both => stays both.2
      obtain ⟨writes, past⟩ := Classical.not_imp.mp stays
      subst writes
      refine not_meets_ram_write kind (active.resolve_left (by decide)) (fun _ => ?_) (toSize_lt _)
        fun _ => .inr ?_
      · exact Int.not_le.mp past
      · rw [bytes]
        exact Nat.zero_le _
  · refine iff_of_false ?_ fun both => none_ both.1
    by_cases past : img.sectors < offset + nrSectors
    · have count : transferSectors img.sectors offset nrSectors = img.sectors - offset := by omega
      cases op with
      | read =>
        have memory := request.memory (by decide)
        refine not_meets_ram_read kind (.inl low) (fun wraps => ?_) ?_
        · omega
        · rw [count]
          unfold toSize
          omega
      | write =>
        have memory := request.memory (by decide)
        exact not_meets_ram_write kind (active.resolve_left (by decide)) (fun wraps => by omega)
          (toSize_lt _) fun wraps => by omega
      | format =>
        exact not_meets_ram_format kind (active.resolve_left (by decide)) low count
    · intro meets
      have exact_ := meets (hostOf fault) (filled img 0) (fun _ => 1)
        (holds_filled img 0 fun _ => Nat.zero_le _) follows_hostOf
      have reported := exact_.ret.mpr (.inl (outOfRange_iff.mpr (by omega)))
      rw [ram_ret kind active] at reported
      exact past ((partly_near near request).mp reported)

theorem ram_meets (kind : img.kind = .rawRam) (active : op = .read ∨ img.readOnly = false)
    (request : Request op offset nrSectors) :
    Meets img op offset nrSectors fault ↔ RamServed img op offset nrSectors := by
  unfold RamServed
  by_cases far : Far img.sectors offset
  · rw [if_pos far]
    by_cases none_ : nrSectors = 0
    · subst none_
      refine iff_of_false (not_meets_of_zero active fun host s buffer => ?_) fun both => by omega
      rw [ram_ret kind active]
      exact partly_far far img.small request
    have count : 0 < nrSectors := Nat.pos_of_ne_zero none_
    rw [ram_far kind active request far count]
    exact ⟨fun rests => ⟨count, rests⟩, fun both => both.2⟩
  · rw [if_neg far]
    by_cases start : 0 ≤ offset
    · obtain ⟨t, front⟩ := front_of_near request far start
      exact iff_of_true (fun host s buffer holds _ => ram_front kind active request front holds)
        (.inl start)
    · rw [ram_before kind active request far (by omega)]
      exact ⟨.inr, fun served => served.resolve_left start⟩

end BackEnd

end PCemWeb.Ide
