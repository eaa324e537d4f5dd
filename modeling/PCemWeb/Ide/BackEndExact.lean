import PCemWeb.Ide.BackEnd

/-!
# Which requests the back ends serve alike

A request owes its sectors that lie inside the image, whatever kind of image it is (`Exact`). Each
call meets that exactly under `Served`: a raw image ignores what its stream answers, a request for
no sectors fails on a browser image, and one that begins before the image or beyond its end is
carried out at a stale or a wrapped position.
-/

namespace PCemWeb.Ide

open PCemWeb.Lib

namespace BackEnd

/-! ## What a request owes -/

/-- Some requested sector lies outside the image. -/
def OutOfRange (sectors : Nat) (offset : Int) (nrSectors : Nat) : Prop :=
  ∃ i : Nat, i < nrSectors ∧ ¬ (0 ≤ offset + i ∧ offset + i < sectors)

/-- How many of the requested sectors lie inside the image. -/
def owed (sectors : Nat) (offset : Int) (nrSectors : Nat) : Nat :=
  (min (offset + nrSectors) sectors - max offset 0).toNat

/-- The transfers that the host must make for them: one, or one for each sector to format. -/
def transfers (op : Op) (sectors : Nat) : Nat :=
  if op = .format then sectors else min sectors 1

/-- The transfer that the host fails is one of these. A RAM disk has no host transfers. -/
def Fails (img : Image) (op : Op) (offset : Int) (nrSectors : Nat) (fault : Option Nat) : Prop :=
  img.kind ≠ .rawRam ∧
    ∃ c, fault = some c ∧ c < transfers op (owed img.sectors offset nrSectors)

/-- The host's answers when `fault` is the first transfer that it fails. -/
structure Follows (fault : Option Nat) (short : Nat → Option Nat) : Prop where
  before : ∀ c, (∀ d, fault = some d → c < d) → short c = none
  there : ∀ d, fault = some d → short d ≠ none

/-- Byte `i` of the caller's buffer belongs to a sector inside the image. -/
def Wanted (sectors : Nat) (offset : Int) (nrSectors i : Nat) : Prop :=
  i < nrSectors * 512 ∧ 0 ≤ offset * 512 + i ∧ offset * 512 + i < sectors * 512

/-- Byte `a` of the image is requested. -/
def Reached (offset : Int) (nrSectors a : Nat) : Prop :=
  offset * 512 ≤ a ∧ (a : Int) < (offset + nrSectors) * 512

/-- The image is written to. -/
def Writes (img : Image) (op : Op) : Prop :=
  op ≠ .read ∧ img.readOnly = false

/-- What a call owes: the requested sectors inside the image, at their own position in the buffer,
nothing else changed, and a result that tells whether all of the request was carried out. -/
structure Exact (img : Image) (op : Op) (offset : Int) (nrSectors : Nat) (fault : Option Nat)
    (s : Store) (buffer : Nat → Byte) (r : Outcome) : Prop where
  ret : r.ret ≠ 0 ↔ OutOfRange img.sectors offset nrSectors ∨ (op ≠ .read ∧ img.readOnly = true) ∨
    Fails img op offset nrSectors fault
  size : r.store.size = s.size
  bufferKept : ∀ i, ¬ (op = .read ∧ Wanted img.sectors offset nrSectors i) →
    r.buffer i = buffer i
  bufferRead : op = .read → ¬ Fails img op offset nrSectors fault →
    ∀ i, Wanted img.sectors offset nrSectors i → r.buffer i = s.bytes (offset * 512 + i).toNat
  imageKept : ∀ a < s.size, ¬ (Writes img op ∧ Reached offset nrSectors a) →
    r.store.bytes a = s.bytes a
  imageWritten : Writes img op → ¬ Fails img op offset nrSectors fault →
    ∀ a < s.size, Reached offset nrSectors a →
      r.store.bytes a = if op = .format then 0 else buffer (a - offset * 512).toNat

/-- The image holds its sectors, and the cursor of a RAM disk is where a seek can put it. -/
structure Holds (img : Image) (s : Store) : Prop where
  size : s.size = img.sectors * 512
  ram : img.kind = .rawRam → s.capacity = img.capacity ∧ s.pos ≤ maxStreamSize

/-- The arguments are `int`, and the caller's buffer is in memory. -/
structure Request (op : Op) (offset : Int) (nrSectors : Nat) : Prop where
  low : -2147483648 ≤ offset
  high : offset < 2147483648
  count : nrSectors < 2147483648
  memory : op ≠ .format → nrSectors * 512 < 2147483648

/-- The call is exact, whatever the image holds, wherever its position is and however much a failing
transfer moves. -/
def Meets (img : Image) (op : Op) (offset : Int) (nrSectors : Nat) (fault : Option Nat) : Prop :=
  ∀ host s buffer, Holds img s → Follows fault host.short →
    Exact img op offset nrSectors fault s buffer (run img host offset nrSectors s buffer op)

/-- The request begins past the end, or so far before the image that `sectors - offset` wraps. -/
def Far (sectors : Nat) (offset : Int) : Prop :=
  sectors < offset ∨ 2147483648 ≤ sectors - offset

instance (sectors : Nat) (offset : Int) : Decidable (Far sectors offset) :=
  inferInstanceAs (Decidable (_ ∨ _))

/-- Far away, a stream moves nothing: it is read past its end, or the length is 0 modulo 2^32, or
the count of a loop is negative. -/
def StreamRests (op : Op) (sectors : Nat) (offset : Int) : Prop :=
  match op with
  | .read => sectors < offset ∨ (sectors - offset) % 8388608 = 0
  | .write => (sectors - offset) % 8388608 = 0
  | .format => True

/-- The condition on raw images. A stream stays where it is at a negative offset, its answers are
ignored, and a negative count of sectors becomes a length just below 2^32. -/
def RawServed (img : Image) (op : Op) (offset : Int) (nrSectors : Nat) (fault : Option Nat) :
    Prop :=
  if Far img.sectors offset then
    0 < nrSectors ∧
      (owed img.sectors offset nrSectors = 0 ∨ Fails img op offset nrSectors fault) ∧
      StreamRests op img.sectors offset
  else nrSectors = 0 ∨
    0 ≤ offset ∧ (Fails img op offset nrSectors fault → img.sectors < offset + nrSectors)

/-- Far away, a RAM disk moves nothing: the cursor wraps to its end or further, and the allocation
is not reached; a loop moves nothing, and then nothing may be owed. -/
def CursorRests (img : Image) (op : Op) (offset : Int) (nrSectors : Nat) : Prop :=
  match op with
  | .read => img.sectors ≤ offset % 8388608 ∧ offset % 8388608 < 4194304
  | .write => offset % 8388608 = img.sectors ∨
      img.sectors < offset % 8388608 ∧ offset % 8388608 < 4194304 ∧
        img.capacity < offset % 8388608 * 512
  | .format => owed img.sectors offset nrSectors = 0

/-- The condition on RAM disks, whose cursor wraps at 2^23 sectors. -/
def RamServed (img : Image) (op : Op) (offset : Int) (nrSectors : Nat) : Prop :=
  if Far img.sectors offset then 0 < nrSectors ∧ CursorRests img op offset nrSectors
  else 0 ≤ offset ∨ nrSectors = 0 ∧ (op = .write → offset % 8388608 ≤ img.sectors)

/-- The condition on browser images, which check each transfer. -/
def BrowserServed (img : Image) (op : Op) (offset : Int) (nrSectors : Nat) (fault : Option Nat) :
    Prop :=
  if nrSectors = 0 then op = .format ∧ ¬ Far img.sectors offset
  else 0 ≤ offset ∨ owed img.sectors offset nrSectors = 0 ∨ Fails img op offset nrSectors fault

def Served (img : Image) (op : Op) (offset : Int) (nrSectors : Nat) (fault : Option Nat) : Prop :=
  (op ≠ .read ∧ img.readOnly = true) ∨
    match img.kind with
    | .raw => RawServed img op offset nrSectors fault
    | .rawRam => RamServed img op offset nrSectors
    | .browser => BrowserServed img op offset nrSectors fault

variable {img : Image} {op : Op} {offset : Int} {nrSectors sectors : Nat} {fault : Option Nat}
  {s : Store} {buffer : Nat → Byte} {host : Host}

/-! ## Arithmetic -/

theorem wrapInt_of_small {x : Int} (low : -2147483648 ≤ x) (high : x < 2147483648) :
    wrapInt x = x := by
  unfold wrapInt
  omega

theorem wrapInt_of_large {x : Int} (low : 2147483648 ≤ x) (high : x < 6442450944) :
    wrapInt x = x - 4294967296 := by
  unfold wrapInt
  omega

theorem outOfRange_iff :
    OutOfRange sectors offset nrSectors ↔
      0 < nrSectors ∧ (offset < 0 ∨ sectors < offset + nrSectors) := by
  constructor
  · rintro ⟨i, inCount, outside⟩
    omega
  · rintro ⟨some_, low | high⟩
    · exact ⟨0, some_, by omega⟩
    · by_cases low : offset < 0
      · exact ⟨0, some_, by omega⟩
      · exact ⟨nrSectors - 1, by omega, by omega⟩

/-- Not far away, the count is cut at the end of the image. -/
theorem transfer_near (request : Request op offset nrSectors) (near : ¬ Far sectors offset) :
    transferSectors sectors offset nrSectors = min (nrSectors : Int) (sectors - offset) ∧
      0 ≤ transferSectors sectors offset nrSectors := by
  have low := request.low
  unfold Far at near
  unfold transferSectors
  rw [wrapInt_of_small (by omega) (by omega)]
  split <;> omega

/-- Far away, the count is negative. -/
theorem transfer_far (request : Request op offset nrSectors) (small : sectors < 2147483648)
    (far : Far sectors offset) :
    transferSectors sectors offset nrSectors < 0 ∧
      toSize (transferSectors sectors offset nrSectors * 512) =
        ((sectors - offset) % 8388608).toNat * 512 := by
  have low := request.low
  have high := request.high
  unfold transferSectors toSize
  rcases far with beyond | below
  · rw [wrapInt_of_small (by omega) (by omega)]
    split <;> omega
  · rw [wrapInt_of_large (by omega) (by omega)]
    split <;> omega

/-- The request begins inside the image or at its end. -/
structure Front (sectors : Nat) (offset : Int) (nrSectors : Nat) (t : Nat) : Prop where
  start : 0 ≤ offset
  transfer : transferSectors sectors offset nrSectors = t
  inside : offset + t ≤ sectors
  count : t ≤ nrSectors
  cut : t = nrSectors ∨ offset + t = sectors
  owed : owed sectors offset nrSectors = t

theorem front_of_near (request : Request op offset nrSectors) (near : ¬ Far sectors offset)
    (start : 0 ≤ offset) : ∃ t, Front sectors offset nrSectors t := by
  obtain ⟨value, positive⟩ := transfer_near request near
  have inside : offset ≤ sectors := by
    unfold Far at near
    omega
  refine ⟨(transferSectors sectors offset nrSectors).toNat, start, by omega, by omega, by omega,
    by omega, ?_⟩
  unfold owed
  omega

theorem partly_ne_zero {n : Nat} {t : Int} : partly n t ≠ 0 ↔ (n : Int) ≠ t := by
  unfold partly
  split <;> simp_all

/-- A cut request has a sector past the end. -/
theorem Front.outOfRange {t : Nat} (front : Front sectors offset nrSectors t) :
    OutOfRange sectors offset nrSectors ↔ t ≠ nrSectors := by
  have := front.start
  have := front.inside
  have := front.count
  have := front.cut
  rw [outOfRange_iff]
  omega

theorem granted_le (answer : Option Nat) (n : Nat) : granted answer n ≤ n := by
  unfold granted
  split <;> omega

@[simp] theorem granted_zero (answer : Option Nat) : granted answer 0 = 0 :=
  Nat.le_zero.mp (granted_le answer 0)

theorem granted_lt {answer : Option Nat} {n : Nat} (short : answer ≠ none) (some_ : 0 < n) :
    granted answer n < n := by
  cases answer with
  | none => contradiction
  | some k =>
    unfold granted
    dsimp only
    omega

/-- One transfer carries a read or a write. -/
theorem fails_iff (single : op ≠ .format) (kind : img.kind ≠ .rawRam) :
    Fails img op offset nrSectors fault ↔
      fault = some 0 ∧ 0 < owed img.sectors offset nrSectors := by
  unfold Fails transfers
  rw [if_neg single]
  constructor
  · rintro ⟨-, c, there, first⟩
    have : c = 0 := by omega
    subst this
    exact ⟨there, by omega⟩
  · rintro ⟨there, some_⟩
    exact ⟨kind, 0, there, by omega⟩

theorem Follows.first (follows : Follows fault host.short) (fine : fault ≠ some 0) :
    host.short 0 = none := by
  refine follows.before 0 fun d there => ?_
  cases d with
  | zero => exact absurd there fine
  | succ d => omega

/-- What the single transfer of a request inside the image moves. -/
theorem granted_front {t : Nat} (front : Front img.sectors offset nrSectors t)
    (single : op ≠ .format) (kind : img.kind ≠ .rawRam) (follows : Follows fault host.short) :
    (granted (host.short 0) (t * 512) = t * 512 ↔ ¬ Fails img op offset nrSectors fault) := by
  rw [fails_iff single kind, front.owed]
  by_cases none_ : t = 0
  · subst none_
    simp
  by_cases fine : fault = some 0
  · have short := granted_lt (n := t * 512) (follows.there 0 fine) (by omega)
    constructor
    · omega
    · exact fun good => absurd ⟨fine, by omega⟩ good
  · rw [follows.first fine]
    exact ⟨fun _ both => fine both.1, fun _ => rfl⟩

/-- A read inside the image. -/
theorem exact_of_read {t : Nat} {r : Outcome} (moved : Nat)
    (front : Front img.sectors offset nrSectors t) (atMost : moved ≤ t * 512)
    (all : ¬ Fails img .read offset nrSectors fault → moved = t * 512)
    (bytes : r.store.bytes = s.bytes) (size : r.store.size = s.size)
    (filled : r.buffer = overlay buffer 0 (slice s.bytes (offset * 512).toNat moved))
    (ret : r.ret ≠ 0 ↔ t ≠ nrSectors ∨ Fails img .read offset nrSectors fault) :
    Exact img .read offset nrSectors fault s buffer r := by
  have start := front.start
  have inside := front.inside
  have count := front.count
  have cut := front.cut
  refine ⟨?_, size, fun i outside => ?_, fun _ fine i wanted => ?_, fun a _ _ => by rw [bytes],
    fun writes => absurd rfl writes.1⟩
  · rw [ret, front.outOfRange]
    simp
  · rw [filled, overlay_slice, if_neg]
    rintro ⟨-, low⟩
    refine outside ⟨rfl, ?_⟩
    unfold Wanted
    omega
  · unfold Wanted at wanted
    rw [filled, overlay_slice, if_pos (by rw [all fine]; omega)]
    congr 1
    omega

/-- A write inside the image. -/
theorem exact_of_write {t : Nat} {r : Outcome} (moved : Nat) (data : Nat → Byte)
    (front : Front img.sectors offset nrSectors t) (writes : Writes img op)
    (holds : Holds img s) (atMost : moved ≤ t * 512)
    (all : ¬ Fails img op offset nrSectors fault → moved = t * 512)
    (kept : r.buffer = buffer) (size : r.store.size = s.size)
    (bytes : ∀ a < s.size, r.store.bytes a =
      overlay s.bytes (offset * 512).toNat (slice data 0 moved) a)
    (source : ∀ i, data i = if op = .format then 0 else buffer i)
    (ret : r.ret ≠ 0 ↔ t ≠ nrSectors ∨ Fails img op offset nrSectors fault) :
    Exact img op offset nrSectors fault s buffer r := by
  have start := front.start
  have inside := front.inside
  have count := front.count
  have cut := front.cut
  have whole := holds.size
  refine ⟨?_, size, fun i _ => by rw [kept], fun reads => absurd reads writes.1,
    fun a inImage outside => ?_, fun _ fine a inImage reached => ?_⟩
  · rw [ret, front.outOfRange]
    simp [writes.2]
  · rw [bytes a inImage, overlay_slice, if_neg]
    rintro ⟨low, high⟩
    refine outside ⟨writes, ?_⟩
    unfold Reached
    omega
  · unfold Reached at reached
    rw [bytes a inImage, overlay_slice, if_pos (by rw [all fine]; omega), source]
    have same : 0 + (a - (offset * 512).toNat) = (a - offset * 512).toNat := by omega
    rw [same]

/-! ## Calls that move nothing -/

theorem owed_of_wanted {i : Nat} (wanted : Wanted sectors offset nrSectors i) :
    0 < owed sectors offset nrSectors := by
  unfold Wanted at wanted
  unfold owed
  omega

theorem owed_of_reached {a : Nat} (inImage : a < sectors * 512)
    (reached : Reached offset nrSectors a) : 0 < owed sectors offset nrSectors := by
  unfold Reached at reached
  unfold owed
  omega

/-- A call that changes nothing. -/
structure Idle (s : Store) (buffer : Nat → Byte) (r : Outcome) : Prop where
  size : r.store.size = s.size
  bytes : r.store.bytes = s.bytes
  buffer : r.buffer = buffer

theorem exact_of_idle {r : Outcome} (holds : Holds img s) (idle : Idle s buffer r)
    (ret : r.ret ≠ 0 ↔ OutOfRange img.sectors offset nrSectors ∨
      (op ≠ .read ∧ img.readOnly = true) ∨ Fails img op offset nrSectors fault)
    (nothing : owed img.sectors offset nrSectors = 0 ∨ Fails img op offset nrSectors fault ∨
      (op ≠ .read ∧ img.readOnly = true)) :
    Exact img op offset nrSectors fault s buffer r := by
  refine ⟨ret, idle.size, fun i _ => by rw [idle.buffer], fun reads fine i wanted => ?_,
    fun a _ _ => by rw [idle.bytes], fun writes fine a inImage reached => ?_⟩
  · rcases nothing with none_ | failed | ⟨other, -⟩
    · have := owed_of_wanted wanted
      omega
    · exact absurd failed fine
    · exact absurd reads other
  · rcases nothing with none_ | failed | ⟨-, readOnly⟩
    · have := owed_of_reached (holds.size ▸ inImage) reached
      omega
    · exact absurd failed fine
    · rw [writes.2] at readOnly
      cases readOnly

/-- Bytes that are neither zero nor those of the buffers that are read into. -/
def filled (img : Image) (pos : Nat) : Store :=
  { size := img.sectors * 512, bytes := fun _ => 2, pos := pos, capacity := img.capacity }

theorem holds_filled (img : Image) (pos : Nat)
    (bounded : img.kind = .rawRam → pos ≤ maxStreamSize) : Holds img (filled img pos) :=
  ⟨rfl, fun ram => ⟨rfl, bounded ram⟩⟩

/-- A host that moves one byte of the transfer that it fails. -/
def hostOf (fault : Option Nat) : Host :=
  { short := fun c => if fault = some c then some 1 else none
    realloc := fun _ => some maxStreamSize }

theorem follows_hostOf : Follows fault (hostOf fault).short := by
  refine ⟨fun c before => if_neg fun there => ?_, fun d there => ?_⟩
  · have := before c there
    omega
  · simp [hostOf, there]

/-- An exact call that moves nothing owed nothing, or failed. -/
theorem nothing_of_idle {r : Outcome} {pos : Nat} (active : op = .read ∨ img.readOnly = false)
    (exact_ : Exact img op offset nrSectors fault (filled img pos) (fun _ => 1) r)
    (idle : Idle (filled img pos) (fun _ => 1) r) :
    owed img.sectors offset nrSectors = 0 ∨ Fails img op offset nrSectors fault := by
  by_cases none_ : owed img.sectors offset nrSectors = 0
  · exact .inl none_
  refine .inr (Classical.byContradiction fun fine => ?_)
  unfold owed at none_
  by_cases reads : op = .read
  · have := exact_.bufferRead reads fine (max (0 - offset) 0 * 512).toNat (by
      unfold Wanted
      omega)
    rw [idle.buffer] at this
    revert this
    change (1 : Byte) = 2 → False
    decide
  · have writable : img.readOnly = false := active.resolve_left reads
    have := exact_.imageWritten ⟨reads, writable⟩ fine (max offset 0 * 512).toNat
      (by change _ < img.sectors * 512; omega) (by
        unfold Reached
        omega)
    rw [idle.bytes] at this
    revert this
    change (2 : Byte) = (if op = .format then (0 : Byte) else 1) → False
    split <;> decide

theorem not_fails_of_zero : ¬ Fails img op offset 0 fault := by
  rintro ⟨-, c, -, first⟩
  unfold transfers owed at first
  split at first <;> omega

/-- A request for nothing has nothing to report. -/
theorem ret_of_zero {r : Outcome} (active : op = .read ∨ img.readOnly = false)
    (exact_ : Exact img op offset 0 fault s buffer r) : r.ret = 0 := by
  refine Classical.byContradiction fun reported => ?_
  rcases exact_.ret.mp reported with out | ⟨writes, readOnly⟩ | failed
  · have := outOfRange_iff.mp out
    omega
  · rw [active.resolve_left writes] at readOnly
    cases readOnly
  · exact not_fails_of_zero failed

/-- Far away, when the call reports an error and moves nothing. -/
theorem meets_iff_of_idle (fault : Option Nat) (active : op = .read ∨ img.readOnly = false)
    (out : OutOfRange img.sectors offset nrSectors)
    (idle : ∀ host s buffer, Holds img s → Follows fault host.short →
      (run img host offset nrSectors s buffer op).ret ≠ 0 ∧
        Idle s buffer (run img host offset nrSectors s buffer op)) :
    Meets img op offset nrSectors fault ↔
      owed img.sectors offset nrSectors = 0 ∨ Fails img op offset nrSectors fault := by
  constructor
  · intro meets
    have holds := holds_filled img 0 fun _ => Nat.zero_le maxStreamSize
    exact nothing_of_idle active (meets (hostOf fault) _ (fun _ => 1) holds follows_hostOf)
      (idle _ _ _ holds follows_hostOf).2
  · intro nothing host s buffer holds follows
    obtain ⟨ret, still⟩ := idle host s buffer holds follows
    exact exact_of_idle holds still ⟨fun _ => .inl out, fun _ => ret⟩
      (nothing.imp_right .inl)

/-- A call that reports an error for no sectors. -/
theorem not_meets_of_zero (active : op = .read ∨ img.readOnly = false)
    (ret : ∀ host s buffer, (run img host offset 0 s buffer op).ret ≠ 0) :
    ¬ Meets img op offset 0 fault :=
  fun meets => ret _ _ _ (ret_of_zero active (meets (hostOf fault) _ (fun _ => 1)
    (holds_filled img 0 fun _ => Nat.zero_le maxStreamSize) follows_hostOf))

/-- A call for sectors elsewhere that changes the first byte of the caller's buffer. -/
theorem not_meets_of_buffer (pos : Nat) (bounded : img.kind = .rawRam → pos ≤ maxStreamSize)
    (outside : offset < 0 ∨ img.sectors ≤ offset)
    (changed : (run img (hostOf fault) offset nrSectors (filled img pos) (fun _ => 1) op).buffer 0 ≠
      1) : ¬ Meets img op offset nrSectors fault := by
  intro meets
  refine changed ((meets _ _ _ (holds_filled img pos bounded) follows_hostOf).bufferKept 0 ?_)
  rintro ⟨-, wanted⟩
  unfold Wanted at wanted
  omega

/-- A call that changes a byte of the image that is not requested. -/
theorem not_meets_of_image (pos a : Nat) (bounded : img.kind = .rawRam → pos ≤ maxStreamSize)
    (inImage : a < img.sectors * 512) (other : ¬ Reached offset nrSectors a)
    (changed : (run img (hostOf fault) offset nrSectors (filled img pos)
      (fun _ => 1) op).store.bytes a ≠ 2) : ¬ Meets img op offset nrSectors fault :=
  fun meets => changed ((meets _ _ _ (holds_filled img pos bounded) follows_hostOf).imageKept a
    inImage
    fun both => other both.2)

/-- A call that makes the image larger. -/
theorem not_meets_of_size (pos : Nat) (bounded : img.kind = .rawRam → pos ≤ maxStreamSize)
    (grown : img.sectors * 512 <
      (run img (hostOf fault) offset nrSectors (filled img pos) (fun _ => 1) op).store.size) :
    ¬ Meets img op offset nrSectors fault := by
  intro meets
  have same := (meets _ _ (fun _ => 1) (holds_filled img pos bounded) follows_hostOf).size
  rw [same] at grown
  exact Nat.lt_irrefl _ grown

/-! ## Raw images -/

theorem partly_near (near : ¬ Far sectors offset) (request : Request op offset nrSectors) :
    partly nrSectors (transferSectors sectors offset nrSectors) ≠ 0 ↔
      sectors < offset + nrSectors := by
  rw [partly_ne_zero, (transfer_near request near).1]
  omega

theorem partly_far (far : Far sectors offset) (small : sectors < 2147483648)
    (request : Request op offset nrSectors) :
    partly nrSectors (transferSectors sectors offset nrSectors) ≠ 0 := by
  have := (transfer_far request small far).1
  rw [partly_ne_zero]
  omega

theorem far_outOfRange (far : Far sectors offset) (small : sectors < 2147483648)
    (some_ : 0 < nrSectors) : OutOfRange sectors offset nrSectors := by
  unfold Far at far
  rw [outOfRange_iff]
  omega

theorem fread_zero (answer : Option Nat) : fread answer s buffer 0 = (s, buffer) := by
  unfold fread
  simp

theorem fwrite_zero (answer : Option Nat) : fwrite answer s buffer 0 = s := by
  unfold fwrite
  simp

/-- A read at a stale position. -/
theorem not_meets_stale_read (kind : img.kind = .raw) (low : offset < 0) (blocks : Nat)
    (bytes : toSize (transferSectors img.sectors offset nrSectors * 512) = blocks * 512)
    (some_ : 0 < blocks) : ¬ Meets img .read offset nrSectors fault := by
  have positive := img.positive
  refine not_meets_of_buffer 0 (fun ram => by rw [kind] at ram; cases ram) (.inl low) ?_
  have moves : 0 < granted ((hostOf fault).short 0) (min (blocks * 512) (img.sectors * 512)) := by
    unfold hostOf granted
    dsimp only
    split
    · omega
    · split at * <;> cases ‹_ = some _›
      omega
  simp only [run, hddReadSectors, kind, bytes, fread, fseek, if_pos
    (show offset * 512 < 0 by omega)]
  rw [overlay_slice, if_pos]
  · change (2 : Byte) ≠ 1
    decide
  · simpa [filled] using moves

/-- A write past the end. -/
theorem size_fwrite (s : Store) (buffer : Nat → Byte) (blocks : Nat) (answer : Option Nat)
    (one : answer = none ∨ answer = some 1)
    (some_ : 0 < blocks) :
    s.pos < (fwrite answer s buffer (blocks * 512)).size := by
  have moves : 0 < granted answer (blocks * 512) := by
    rcases one with rfl | rfl <;> unfold granted <;> dsimp only <;> omega
  simp only [fwrite]
  rw [if_neg (by omega)]
  omega

theorem one_of_hostOf (c : Nat) :
    (hostOf fault).short c = none ∨ (hostOf fault).short c = some 1 := by
  unfold hostOf
  dsimp only
  split
  · exact .inr rfl
  · exact .inl rfl

theorem not_meets_stale_write (kind : img.kind = .raw) (writable : img.readOnly = false)
    (outside : offset < 0 ∨ img.sectors < offset) (blocks : Nat)
    (bytes : toSize (transferSectors img.sectors offset nrSectors * 512) = blocks * 512)
    (some_ : 0 < blocks) : ¬ Meets img .write offset nrSectors fault := by
  refine not_meets_of_size (img.sectors * 512) (fun ram => by rw [kind] at ram; cases ram) ?_
  have start : img.sectors * 512 ≤ (fseek (filled img (img.sectors * 512)) (offset * 512)).pos := by
    unfold fseek filled
    split
    · exact Nat.le_refl _
    · dsimp only
      omega
  simp only [run, hddWriteSectors, kind, writable, Bool.false_eq_true, if_false, bytes]
  exact Nat.lt_of_le_of_lt start (size_fwrite _ _ blocks _ (one_of_hostOf 0) some_)

theorem overlay_zeros (mem : Nat → Byte) (base m n : Nat) :
    overlay (overlay mem base (slice zeros 0 m)) (base + m) (slice zeros 0 n) =
      overlay mem base (slice zeros 0 (m + n)) := by
  have split : slice zeros 0 (m + n) = slice zeros 0 m ++ slice zeros 0 n := by
    rw [slice_append]
    exact congrArg (slice zeros 0 m ++ ·) (slice_congr fun _ _ => rfl)
  rw [split, overlay_append, length_slice]

theorem size_le_fwrite (answer : Option Nat) (n : Nat) : s.size ≤
    (fwrite answer s buffer n).size := by
  simp only [fwrite]
  split <;> omega

theorem size_le_rawZero (left c : Nat) : s.size ≤ (rawZero host left c s).size := by
  induction left generalizing c s with
  | zero => exact Nat.le_refl _
  | succ left ih => exact Nat.le_trans (size_le_fwrite _ _) (ih (c + 1))

/-- The loop of a format inside the image. -/
theorem rawZero_inside (host : Host) (left c : Nat) (inside : s.pos + left * 512 ≤ s.size) :
    ∃ moved ≤ left * 512, (rawZero host left c s).size = s.size ∧
      (rawZero host left c s).bytes = overlay s.bytes s.pos (slice zeros 0 moved) ∧
      ((∀ d < left, host.short (c + d) = none) → moved = left * 512) := by
  induction left generalizing c s with
  | zero => exact ⟨0, by omega, rfl, by simp [rawZero], fun _ => rfl⟩
  | succ left ih =>
    have atMost := granted_le (host.short c) 512
    have size : (fwrite (host.short c) s zeros 512).size = s.size := by
      simp only [fwrite]
      split <;> omega
    obtain ⟨moved, few, kept, bytes, all⟩ := ih (s := fwrite (host.short c) s zeros 512) (c + 1) (by
      rw [size]
      simp only [fwrite]
      omega)
    refine ⟨granted (host.short c) 512 + moved, by omega, kept.trans size, ?_, fun fine => ?_⟩
    · rw [rawZero, bytes]
      simp only [fwrite]
      rw [overlay_zeros]
    · have first : host.short c = none := fine 0 (by omega)
      have rest := all fun d before => by
        rw [Nat.add_assoc, Nat.add_comm 1]
        exact fine (d + 1) (by omega)
      rw [rest, first]
      simp only [granted]
      omega

/-- No transfer of a format fails. -/
theorem Follows.all {t : Nat} (follows : Follows fault host.short) (kind : img.kind ≠ .rawRam)
    (owedEq : owed img.sectors offset nrSectors = t)
    (fine : ¬ Fails img .format offset nrSectors fault) : ∀ d < t, host.short d = none := by
  refine fun d before => follows.before d fun c there => ?_
  refine Nat.lt_of_lt_of_le before (Nat.le_of_not_lt fun early => fine ⟨kind, c, there, ?_⟩)
  rw [transfers, if_pos rfl, owedEq]
  exact early

theorem toSize_front {t : Nat} (front : Front sectors offset nrSectors t)
    (memory : nrSectors * 512 < 2147483648) :
    toSize (transferSectors sectors offset nrSectors * 512) = t * 512 := by
  have := front.count
  rw [front.transfer]
  unfold toSize
  omega

theorem fseek_front (start : 0 ≤ offset) :
    fseek s (offset * 512) = { s with pos := (offset * 512).toNat } := by
  rw [fseek, if_neg (by omega)]

/-- A raw image serves a request inside it unless its stream fails unnoticed. -/
theorem raw_front {t : Nat} (kind : img.kind = .raw) (active : op = .read ∨ img.readOnly = false)
    (request : Request op offset nrSectors) (front : Front img.sectors offset nrSectors t)
    (holds : Holds img s) (follows : Follows fault host.short)
    (noticed : Fails img op offset nrSectors fault → t ≠ nrSectors) :
    Exact img op offset nrSectors fault s buffer (run img host offset nrSectors s buffer op) := by
  have start := front.start
  have inside := front.inside
  have whole := holds.size
  have notRam : img.kind ≠ .rawRam := by rw [kind]; decide
  have ret : partly nrSectors (transferSectors img.sectors offset nrSectors) ≠ 0 ↔
      t ≠ nrSectors ∨ Fails img op offset nrSectors fault := by
    rw [partly_ne_zero, front.transfer]
    constructor
    · omega
    · rintro (cut | failed)
      · omega
      · have := noticed failed
        omega
  cases op with
  | read =>
    have bytes := toSize_front front (request.memory (by decide))
    have room : min (t * 512) (s.size - (offset * 512).toNat) = t * 512 := by omega
    refine exact_of_read (granted (host.short 0) (t * 512)) front (granted_le _ _)
      (granted_front front (by decide) notRam follows).mpr ?_ ?_ ?_ ?_ <;>
      simp only [run, hddReadSectors, kind, fseek_front start, fread, bytes, room]
    exact ret
  | write =>
    have writable := active.resolve_left (by decide)
    have bytes := toSize_front front (request.memory (by decide))
    have atMost := granted_le (host.short 0) (t * 512)
    refine exact_of_write (granted (host.short 0) (t * 512)) buffer front
      ⟨by decide, writable⟩ holds
      atMost
      (granted_front front (by decide) notRam follows).mpr ?_ ?_ (fun a _ => ?_) (fun i => rfl) ?_
        <;>
      simp only [run, hddWriteSectors, kind, writable, Bool.false_eq_true, if_false,
        fseek_front start, fwrite, bytes]
    · split
      · rfl
      · omega
    · exact ret
  | format =>
    have writable := active.resolve_left (by decide)
    have count : (transferSectors img.sectors offset nrSectors).toNat = t := by
      rw [front.transfer]
      rfl
    obtain ⟨moved, atMost, size, bytes, all⟩ := rawZero_inside host
      (s := { s with pos := (offset * 512).toNat }) t 0 (by dsimp only; omega)
    refine exact_of_write moved zeros front ⟨by decide, writable⟩ holds atMost
      (fun fine => all fun d before => by
        rw [Nat.zero_add]
        exact follows.all notRam front.owed fine d before) ?_ ?_ (fun a _ => ?_) (fun i => rfl) ?_
          <;>
      simp only [run, hddFormatSectors, kind, writable, Bool.false_eq_true, if_false,
        fseek_front start, count]
    · exact size
    · rw [bytes]
    · exact ret

/-- Every call returns whether the count was cut. -/
theorem raw_ret (kind : img.kind = .raw) (active : op = .read ∨ img.readOnly = false) :
    (run img host offset nrSectors s buffer op).ret =
      partly nrSectors (transferSectors img.sectors offset nrSectors) := by
  cases op with
  | read => simp only [run, hddReadSectors, kind]
  | write =>
    simp only [run, hddWriteSectors, kind, active.resolve_left (by decide), Bool.false_eq_true,
      if_false]
  | format =>
    simp only [run, hddFormatSectors, kind, active.resolve_left (by decide), Bool.false_eq_true,
      if_false]

theorem idle_fseek (addr : Int) {r : Outcome} (store : r.store = fseek s addr)
    (kept : r.buffer = buffer) : Idle s buffer r := by
  refine ⟨?_, ?_, kept⟩ <;> rw [store, fseek] <;> split <;> rfl

/-- A stream gives nothing for no bytes, or past its end. -/
theorem fread_nothing {size : Nat} (answer : Option Nat)
    (nothing : min size (s.size - s.pos) = 0) : fread answer s buffer size = (s, buffer) := by
  unfold fread
  simp [nothing]

/-- The transfer of a call has no bytes, or begins past the end of a stream that is read. -/
def Void (op : Op) (sectors : Nat) (offset : Int) (nrSectors : Nat) : Prop :=
  match op with
  | .read => toSize (transferSectors sectors offset nrSectors * 512) = 0 ∨ sectors ≤ offset
  | .write => toSize (transferSectors sectors offset nrSectors * 512) = 0
  | .format => transferSectors sectors offset nrSectors ≤ 0

theorem raw_idle (host : Host) (offset : Int) (nrSectors : Nat) (buffer : Nat → Byte)
    (kind : img.kind = .raw) (active : op = .read ∨ img.readOnly = false) (holds : Holds img s)
    (none_ : Void op img.sectors offset nrSectors) :
    Idle s buffer (run img host offset nrSectors s buffer op) := by
  have whole := holds.size
  apply idle_fseek (offset * 512)
  · cases op with
    | read =>
      simp only [run, hddReadSectors, kind]
      rw [fread_nothing]
      rcases none_ with bytes | beyond
      · rw [bytes]
        exact Nat.zero_min _
      · rw [fseek_front (by omega)]
        dsimp only
        omega
    | write =>
      simp only [run, hddWriteSectors, kind, active.resolve_left (by decide), Bool.false_eq_true,
        if_false, show toSize _ = 0 from none_, fwrite_zero]
    | format =>
      have count : (transferSectors img.sectors offset nrSectors).toNat = 0 :=
        Int.toNat_of_nonpos (show transferSectors img.sectors offset nrSectors ≤ 0 from none_)
      simp only [run, hddFormatSectors, kind, active.resolve_left (by decide), Bool.false_eq_true,
        if_false, count, rawZero]
  · cases op with
    | read =>
      simp only [run, hddReadSectors, kind]
      rw [fread_nothing]
      rcases none_ with bytes | beyond
      · rw [bytes]
        exact Nat.zero_min _
      · rw [fseek_front (by omega)]
        dsimp only
        omega
    | write =>
      simp only [run, hddWriteSectors, kind, active.resolve_left (by decide), Bool.false_eq_true,
        if_false]
    | format =>
      simp only [run, hddFormatSectors, kind, active.resolve_left (by decide), Bool.false_eq_true,
        if_false]

/-- A format at a stale position. -/
theorem not_meets_stale_format (kind : img.kind = .raw) (writable : img.readOnly = false)
    (low : offset < 0) (some_ : 0 < transferSectors img.sectors offset nrSectors) :
    ¬ Meets img .format offset nrSectors fault := by
  refine not_meets_of_size (img.sectors * 512) (fun ram => by rw [kind] at ram; cases ram) ?_
  obtain ⟨left, count⟩ : ∃ left, (transferSectors img.sectors offset nrSectors).toNat = left + 1 :=
    ⟨(transferSectors img.sectors offset nrSectors).toNat - 1, by omega⟩
  simp only [run, hddFormatSectors, kind, writable, Bool.false_eq_true, if_false, count, rawZero]
  rw [fseek, if_pos (by omega)]
  have grown := size_fwrite (filled img (img.sectors * 512)) zeros 1 ((hostOf fault).short 0)
    (one_of_hostOf 0) (by decide)
  exact Nat.lt_of_lt_of_le grown (size_le_rawZero _ _)

theorem raw_far (kind : img.kind = .raw) (active : op = .read ∨ img.readOnly = false)
    (request : Request op offset nrSectors) (far : Far img.sectors offset)
    (count : 0 < nrSectors) :
    Meets img op offset nrSectors fault ↔
      (owed img.sectors offset nrSectors = 0 ∨ Fails img op offset nrSectors fault) ∧
      StreamRests op img.sectors offset := by
  have small := img.small
  obtain ⟨negative, bytes⟩ := transfer_far request small far
  have ret := partly_far far small request
  have out := far_outOfRange far small count
  have still (none_) := meets_iff_of_idle fault active out fun host s buffer holds _ =>
    ⟨by rw [raw_ret kind active]; exact ret,
      raw_idle host offset nrSectors buffer kind active holds none_⟩
  have side : offset < 0 ∨ img.sectors < offset := by
    unfold Far at far
    omega
  cases op with
  | read =>
    by_cases served : img.sectors < offset ∨ (img.sectors - offset) % 8388608 = 0
    · rw [still (by simp only [Void, bytes]; omega)]
      exact ⟨fun nothing => ⟨nothing, served⟩, fun both => both.1⟩
    · refine iff_of_false (not_meets_stale_read kind (by omega) _ bytes
        ?_) fun both => served both.2
      omega
  | write =>
    by_cases served : (img.sectors - offset) % 8388608 = 0
    · rw [still (by simp only [Void, bytes]; omega)]
      exact ⟨fun nothing => ⟨nothing, served⟩, fun both => both.1⟩
    · refine iff_of_false (not_meets_stale_write kind (active.resolve_left (by decide)) side _ bytes
        ?_) fun both => served both.2
      omega
  | format =>
    rw [still (Int.le_of_lt negative)]
    exact ⟨fun nothing => ⟨nothing, trivial⟩, fun both => both.1⟩

/-- Before the image, a raw image serves only a request for nothing. -/
theorem raw_before (fault : Option Nat) (kind : img.kind = .raw)
    (active : op = .read ∨ img.readOnly = false)
    (request : Request op offset nrSectors) (near : ¬ Far img.sectors offset) (low : offset < 0) :
    Meets img op offset nrSectors fault ↔ nrSectors = 0 := by
  have positive := img.positive
  obtain ⟨value, -⟩ := transfer_near request near
  by_cases none_ : nrSectors = 0
  · subst none_
    refine iff_of_true (fun host s buffer holds follows => ?_) rfl
    have zero : transferSectors img.sectors offset 0 = 0 := by omega
    have out : ¬ OutOfRange img.sectors offset 0 := by
      rw [outOfRange_iff]
      omega
    refine exact_of_idle holds (raw_idle host offset 0 buffer kind active holds ?_) ?_ ?_
    · cases op
      · exact .inl (by rw [zero]; rfl)
      · unfold Void
        rw [zero]
        rfl
      · exact Int.le_of_eq zero
    · rw [raw_ret kind active, zero]
      refine iff_of_false (by simp [partly]) ?_
      rintro (outside | ⟨writes, readOnly⟩ | failed)
      · exact out outside
      · rw [active.resolve_left writes] at readOnly
        cases readOnly
      · exact not_fails_of_zero failed
    · refine .inl ?_
      unfold owed
      omega
  · refine iff_of_false ?_ none_
    by_cases past : img.sectors < offset + nrSectors
    · have blocks : transferSectors img.sectors offset nrSectors = img.sectors - offset := by omega
      cases op with
      | read =>
        have memory := request.memory (by decide)
        refine not_meets_stale_read kind low (img.sectors - offset).toNat ?_ (by omega)
        rw [blocks]
        unfold toSize
        omega
      | write =>
        have memory := request.memory (by decide)
        refine not_meets_stale_write kind (active.resolve_left (by decide)) (.inl low)
          (img.sectors - offset).toNat ?_ (by omega)
        rw [blocks]
        unfold toSize
        omega
      | format =>
        exact not_meets_stale_format kind (active.resolve_left (by decide)) low (by omega)
    · intro meets
      have exact_ := meets (hostOf fault) (filled img 0) (fun _ => 1)
        (holds_filled img 0 fun _ => Nat.zero_le _) follows_hostOf
      have reported := exact_.ret.mpr (.inl (outOfRange_iff.mpr (by omega)))
      rw [raw_ret kind active] at reported
      exact past ((partly_near near request).mp reported)

theorem raw_meets (kind : img.kind = .raw) (active : op = .read ∨ img.readOnly = false)
    (request : Request op offset nrSectors) :
    Meets img op offset nrSectors fault ↔ RawServed img op offset nrSectors fault := by
  unfold RawServed
  by_cases far : Far img.sectors offset
  · rw [if_pos far]
    by_cases none_ : nrSectors = 0
    · subst none_
      refine iff_of_false (not_meets_of_zero active fun host s buffer => ?_) (by omega)
      rw [raw_ret kind active]
      exact partly_far far img.small request
    have count : 0 < nrSectors := Nat.pos_of_ne_zero none_
    rw [raw_far kind active request far count]
    exact ⟨fun both => ⟨count, both⟩, fun all => all.2⟩
  · rw [if_neg far]
    by_cases start : 0 ≤ offset
    · obtain ⟨t, front⟩ := front_of_near request far start
      constructor
      · intro meets
        refine .inr ⟨start, fun failed => ?_⟩
        have exact_ := meets (hostOf fault) (filled img 0) (fun _ => 1)
          (holds_filled img 0 fun _ => Nat.zero_le _) follows_hostOf
        have reported := exact_.ret.mpr (.inr (.inr failed))
        rw [raw_ret kind active] at reported
        exact (partly_near far request).mp reported
      · intro served host s buffer holds follows
        refine raw_front kind active request front holds follows fun failed => ?_
        rcases served with none_ | ⟨-, noticed⟩
        · subst none_
          exact absurd failed not_fails_of_zero
        · have := noticed failed
          have := front.inside
          omega
    · rw [raw_before fault kind active request far (by omega)]
      omega

end BackEnd

end PCemWeb.Ide
