import PCemWeb.Platform.DiskExport
import PCemWeb.Platform.EmuThreadWaits

/-!
# Exports while the machine runs

A download or a system export streams disks block by block while the emulation thread may be in a
timeslice: state, pointer and contents of a block are read in steps of their own, and each write to
the sink lets other events in. The exporters pause the machine first if it runs, which sets flags
that the thread reads between timeslices. `Snapshots` says that each image equals what the guest
saw of the disk at one moment of the operation; it holds in the runs that `quiet` describes, where
an image is opened outside a timeslice and the machine is not set running before it is complete.
-/

namespace PCemWeb.Platform

open PCemWeb.Lib

/-! ## Images -/

/-- What the guest sees of a disk: its resident blocks, and the source elsewhere. -/
def DiskIo.view (s : DiskIo) (id at_ : Nat) : Byte :=
  let cached := (s.disks id).bind fun d =>
    if d.state (at_ / blockSize) = .absent then none else d.block (at_ / blockSize)
  cached.elim (s.browserDisks id at_) (· (at_ % blockSize))

/-- The disk has an entry in `browserDisks`. -/
def DiskIo.attached (s : DiskIo) (id : Nat) : Bool := id < maxDisks && (s.disks id).isSome

/-- Where `streamMergedDisk` is with a block: at the loop head, before the pointer, before the copy,
before the source's answer, or before the sink's. -/
inductive ImagePhase
  | head
  | dirty
  | pointed
  | clean
  | writing
  deriving DecidableEq, Repr

/-- A disk image that is being streamed, with the chunks that the sink has taken. -/
structure Image where
  disk : Nat
  size : Nat
  nblocks : Nat
  block : Nat
  phase : ImagePhase
  chunks : List (List Byte)

/-- `streamMergedDisk` up to its loop. -/
def Image.open (s : DiskIo) (id : Nat) : Image :=
  ⟨id, diskioGetSize id s, diskioNblocks id s, 0, .head, []⟩

namespace Image

def off (img : Image) : Nat := img.block * blockSize

def len (img : Image) : Nat := min blockSize (img.size - img.off)

/-- The chunk of the current block is there. -/
def take (img : Image) (chunk : List Byte) : Image :=
  { img with phase := .writing, chunks := img.chunks ++ [chunk] }

/-- The next step of `streamMergedDisk`. -/
def step (s : DiskIo) (img : Image) : Option Image :=
  match img.phase with
  | .head =>
    if img.block < img.nblocks then
      some { img with
        phase := if diskioBlockState img.disk img.block s = .dirty then .dirty else .clean }
    else none
  | .dirty => some { img with phase := .pointed }
  | .pointed => (diskioBlockPtr img.disk img.block s).map fun p => img.take (slice p 0 img.len)
  | .clean => some (img.take (readSourceSlice (s.browserDisks img.disk) img.off img.len))
  | .writing => some { img with phase := .head, block := img.block + 1 }

/-- The loop has ended. -/
def complete (img : Image) : Bool := img.phase = .head && img.nblocks ≤ img.block

end Image

/-! ## Operations -/

/-- A download or an export: the disks to come, `wasRunning`, and the image that is being streamed.
`seen` is history: the states of the cache since the operation began. -/
structure Operation where
  disks : List Nat
  wasRunning : Bool
  image : Option Image
  seen : List DiskIo

/-- An image that was written. -/
structure Written where
  disk : Nat
  chunks : List (List Byte)
  seen : List DiskIo

/-- The emulation, the disk engine and the operations under way. -/
structure Exporter where
  shell : Shell
  session : Session
  ops : List (Option Operation)
  written : List Written

inductive ExporterLabel
  | shell (l : ShellLabel)
  /-- A disk access of the guest, with the outcomes of its fetches and allocations. -/
  | access (op : DiskOp) (env : List Bool)
  /-- `downloadDiskImage` up to the stream. -/
  | download (id : Nat)
  /-- The Export handler; `own` is the test `i === runningIndex`. -/
  | exportSystem (disks : List Nat) (own : Bool)
  | openImage (k : Nat)
  | stream (k : Nat)
  | closeImage (k : Nat)
  /-- The `finally` of an operation, when it is done or has thrown. -/
  | finish (k : Nat)

/-- Reads and writes, which `diskio_rw` serves. -/
def DiskOp.isAccess : DiskOp → Bool
  | .read .. | .write .. => true
  | _ => false

def Operation.see (s : DiskIo) (o : Operation) : Operation := { o with seen := o.seen ++ [s] }

namespace Exporter

def init (session : Session) : Exporter := ⟨.init, session, [], []⟩

/-- An operation begins, and pauses the machine if it was running. -/
def begin (s : Exporter) (disks : List Nat) (wasRunning : Bool) : Exporter :=
  { s with
    shell := if wasRunning then s.shell.setPaused true else s.shell
    ops := s.ops ++ [some ⟨disks, wasRunning, none, [s.session.cache]⟩] }

def op? (s : Exporter) (k : Nat) : Option Operation := s.ops[k]?.join

def setOp (s : Exporter) (k : Nat) (o : Option Operation) : Exporter :=
  { s with ops := s.ops.set k o }

/-- A step of operation `k`. -/
def opStep (s : Exporter) (k : Nat) (f : Operation → Option Exporter) : Option Exporter :=
  if s.shell.main = .loop then (s.op? k).bind f else none

def step (s : Exporter) : ExporterLabel → Option Exporter
  | .shell l => (s.shell.step l).map fun shell => { s with shell }
  | .access op env =>
    match s.shell.emu with
    | .slice .. =>
      if op.isAccess then
        (s.session.step (op, env)).map fun session =>
          { s with session, ops := s.ops.map (Option.map (Operation.see session.cache)) }
      else none
    | _ => none
  | .download id =>
    if s.shell.main = .loop && s.session.cache.attached id then
      some (s.begin [id] (s.shell.state = .running))
    else none
  | .exportSystem disks own =>
    if s.shell.main = .loop then some (s.begin disks (own && s.shell.state = .running)) else none
  | .openImage k =>
    s.opStep k fun o =>
      match o.image, o.disks with
      | none, id :: rest =>
        if s.session.cache.attached id then
          some (s.setOp k (some { o with disks := rest, image := some (.open s.session.cache id) }))
        else none
      | _, _ => none
  | .stream k =>
    s.opStep k fun o =>
      (o.image.bind (Image.step s.session.cache)).map fun img =>
        s.setOp k (some { o with image := some img })
  | .closeImage k =>
    s.opStep k fun o =>
      o.image.bind fun img =>
        if img.complete then
          some { s.setOp k (some { o with image := none }) with
            written := s.written ++ [⟨img.disk, img.chunks, o.seen⟩] }
        else none
  | .finish k =>
    s.opStep k fun o =>
      some { s.setOp k none with
        shell := if o.wasRunning then s.shell.setPaused false else s.shell }

/-- Some image is being streamed. -/
def streaming (s : Exporter) : Bool := s.ops.any fun o => o.any (·.image.isSome)

/-- The machine does not run, and no timeslice is left over. -/
def calm (s : Exporter) : Bool := s.shell.state ≠ .running && !s.shell.emu.inSlice

/-- Images are opened while the machine is still, and until they are complete nothing starts it. -/
def quiet (s : Exporter) : ExporterLabel → Bool
  | .openImage _ => s.calm
  | .shell (.setPaused p) => p || !s.streaming
  | .shell (.finish ok) => s.shell.main ≠ .inside .start || !ok || !s.streaming
  | .finish k => !(s.op? k).any (·.wasRunning) || !(s.setOp k none).streaming
  | _ => true

/-- Each image equals the guest's view of the disk at one moment of the operation. -/
def Snapshots (s : Exporter) : Prop :=
  ∀ w ∈ s.written, ∃ cache ∈ w.seen, ∃ d, cache.disks w.disk = some d ∧
    w.chunks.flatten = slice (cache.view w.disk) 0 d.size

end Exporter

/-! ## One image -/

section

variable {s : DiskIo} {contents : Nat → Nat → Byte} {id : Nat} {d : Disk} {img next : Image}

/-- In a sound cache the guest sees the contents. -/
theorem DiskIo.view_eq {at_ : Nat} (inv : CacheInv s contents) (live : s.disks id = some d)
    (inside : at_ < d.size) : s.view id at_ = contents id at_ := by
  have disk := inv.disk id d live
  have block := disk.block (at_ / blockSize) (disk.index_lt at_ inside)
  have split : at_ / blockSize * blockSize + at_ % blockSize = at_ := Nat.div_add_mod' _ _
  have short : at_ % blockSize < blockSize := Nat.mod_lt _ (by decide)
  simp only [DiskIo.view, live, Option.bind_some]
  by_cases absent : d.state (at_ / blockSize) = .absent
  · rw [if_pos absent]
    have unwritten := block.unwritten (by rw [absent]; decide) _ short
    rw [split] at unwritten
    exact unwritten.symm
  · obtain ⟨p, held, holds⟩ := block.resident absent
    rw [if_neg absent, held]
    have byte := holds _ short (by rwa [split])
    rwa [split] at byte

/-- The number of chunks that the sink has. -/
def Image.taken (img : Image) : Nat := if img.phase = .writing then img.block + 1 else img.block

/-- An image whose chunks so far are those of the contents. -/
structure ImageInv (s : DiskIo) (contents : Nat → Byte) (img : Image) : Prop where
  disk : ∃ d, s.disks img.disk = some d ∧ img.size = d.size ∧ img.nblocks = d.nblocks
  slot : img.disk < maxDisks
  within : img.block ≤ img.nblocks
  more : img.phase ≠ .head → img.block < img.nblocks
  dirty : img.phase = .dirty ∨ img.phase = .pointed → diskioBlockState img.disk img.block s = .dirty
  clean : img.phase = .clean → diskioBlockState img.disk img.block s ≠ .dirty
  chunks : img.chunks = (List.range img.taken).map fun b =>
    slice contents (b * blockSize) (min blockSize (img.size - b * blockSize))

theorem ImageInv.open (attached : s.attached id = true) (contents : Nat → Byte) :
    ImageInv s contents (.open s id) := by
  obtain ⟨slot, live⟩ := Bool.and_eq_true_iff.mp attached
  have slot : id < maxDisks := of_decide_eq_true slot
  obtain ⟨d, live⟩ := Option.isSome_iff_exists.mp live
  refine ⟨⟨d, live, ?_, ?_⟩, slot, Nat.zero_le _, absurd rfl, ?_, ?_, rfl⟩
  · simp only [Image.open, diskioGetSize, not_le.mpr slot, if_false, live, Option.elim_some]
  · simp only [Image.open, diskioNblocks, not_le.mpr slot, if_false, live, Option.elim_some]
  · rintro (phase | phase) <;> cases phase
  · exact fun phase => absurd phase (by simp [Image.open])

/-- A chunk of the contents joins the image. -/
theorem ImageInv.take {chunk : List Byte} (inv : ImageInv s (contents img.disk) img)
    (more : img.block < img.nblocks) (reading : img.phase ≠ .writing)
    (right : chunk = slice (contents img.disk) (img.block * blockSize)
      (min blockSize (img.size - img.block * blockSize))) :
    ImageInv s (contents img.disk) (img.take chunk) := by
  refine ⟨inv.disk, inv.slot, inv.within, fun _ => more, ?_, ?_, ?_⟩
  · rintro (phase | phase) <;> cases phase
  · intro phase
    cases phase
  · have before : img.taken = img.block := if_neg reading
    have after : (img.take chunk).taken = img.block + 1 := rfl
    rw [after, List.range_succ, List.map_append]
    simp only [Image.take, inv.chunks, before, List.map_cons, List.map_nil, right]

/-- One step of the stream in a sound cache. -/
theorem ImageInv.step (cache : CacheInv s contents) (inv : ImageInv s (contents img.disk) img)
    (step : img.step s = some next) : ImageInv s (contents next.disk) next := by
  obtain ⟨d, live, size, nblocks⟩ := inv.disk
  have getSize : diskioGetSize img.disk s = img.size := by
    rw [diskioGetSize, if_neg (not_le.mpr inv.slot), live, Option.elim_some, size]
  have merged (more : img.block < img.nblocks) : mergedChunk img.disk img.block s =
      some (slice (contents img.disk) (img.block * blockSize)
        (min blockSize (img.size - img.block * blockSize))) := by
    rw [size]
    exact mergedChunk_eq cache inv.slot live (nblocks ▸ more)
  simp only [mergedChunk, getSize] at merged
  cases phase : img.phase with
  | head =>
    simp only [Image.step, phase] at step
    split at step <;> cases step
    rename_i more
    have taken : img.taken = img.block := if_neg (by rw [phase]; decide)
    refine ⟨inv.disk, inv.slot, inv.within, fun _ => more, ?_, ?_, ?_⟩
    · intro reads
      by_contra clean
      simp [clean] at reads
    · intro reads dirty
      simp [dirty] at reads
    · have kept : Image.taken { img with
          phase := if diskioBlockState img.disk img.block s = .dirty then .dirty else .clean } =
            img.block := by
        simp only [Image.taken]
        split <;> simp
      rw [kept, ← taken]
      exact inv.chunks
  | dirty =>
    simp only [Image.step, phase] at step
    cases step
    have taken : img.taken = img.block := if_neg (by rw [phase]; decide)
    refine ⟨inv.disk, inv.slot, inv.within, fun _ => inv.more (by rw [phase]; decide),
      fun _ => inv.dirty (.inl phase), fun reads => ?_, ?_⟩
    · cases reads
    · exact inv.chunks.trans (by rw [taken]; rfl)
  | pointed =>
    simp only [Image.step, phase] at step
    obtain ⟨p, held, rfl⟩ := Option.map_eq_some_iff.mp step
    have more := inv.more (by rw [phase]; decide)
    have chunk := merged more
    rw [if_pos (inv.dirty (.inr phase)), held, Option.map_some] at chunk
    exact inv.take more (by rw [phase]; decide) (Option.some.inj chunk)
  | clean =>
    simp only [Image.step, phase] at step
    cases step
    have more := inv.more (by rw [phase]; decide)
    have chunk := merged more
    rw [if_neg (inv.clean phase)] at chunk
    exact inv.take more (by rw [phase]; decide) (Option.some.inj chunk)
  | writing =>
    simp only [Image.step, phase] at step
    cases step
    have more := inv.more (by rw [phase]; decide)
    have taken : img.taken = img.block + 1 := if_pos phase
    refine ⟨inv.disk, inv.slot, more, fun reading => absurd rfl reading, ?_, ?_, ?_⟩
    · rintro (reads | reads) <;> cases reads
    · intro reads
      cases reads
    · exact inv.chunks.trans (by rw [taken]; rfl)

/-- A complete image is what the guest sees. -/
theorem ImageInv.complete (cache : CacheInv s contents) (inv : ImageInv s (contents img.disk) img)
    (complete : img.complete = true) : ∃ d, s.disks img.disk = some d ∧
      img.chunks.flatten = slice (s.view img.disk) 0 d.size := by
  obtain ⟨d, live, size, nblocks⟩ := inv.disk
  obtain ⟨head, ended⟩ := Bool.and_eq_true_iff.mp complete
  have head : img.phase = .head := of_decide_eq_true head
  have ended : img.nblocks ≤ img.block := of_decide_eq_true ended
  have taken : img.taken = d.nblocks := by
    rw [Image.taken, if_neg (by rw [head]; decide), ← nblocks]
    exact Nat.le_antisymm inv.within ended
  refine ⟨d, live, ?_⟩
  rw [inv.chunks, taken, flatten_chunks, size, Nat.min_eq_right (cache.disk _ d live).covers]
  refine slice_congr fun j bound => ?_
  rw [Nat.zero_add]
  exact (DiskIo.view_eq cache live bound).symm

end

/-! ## The machine at rest -/

/-- A thread that is in no slice begins none while the machine does not run. -/
theorem Shell.Moves.calm {s t : Shell} {l : ShellLabel} (moves : s.Moves l t)
    (stopped : s.state ≠ .running) (noSlice : s.emu.inSlice = false)
    (noResume : ∀ p, l = .setPaused p → p = true)
    (noStart : ∀ ok, l = .finish ok → s.main = .inside .start → ok = false) :
    t.state ≠ .running ∧ t.emu.inSlice = false := by
  have slice {emu : EmuPc} (at_ : s.emu = emu) : emu.inSlice = false := at_ ▸ noSlice
  have await {s : Shell} {c : Call} {requested : Bool} (noSlice : s.emu.inSlice = false) :
      (s.await c requested).emu.inSlice = false := by
    simp only [Shell.await]
    cases emu : s.emu <;> rw [emu] at noSlice <;> first | rfl | cases noSlice
  cases moves with
  | pass d =>
    refine ⟨stopped, ?_⟩
    simp only [Shell.pass]
    cases emu : s.emu <;> rw [emu] at noSlice <;> first | rfl | cases noSlice
  | beginSlice emu runs =>
    simp only [Shell.runs, Bool.and_eq_true, decide_eq_true_eq] at runs
    exact absurd runs.1.1 stopped
  | fault emu | observeDone emu | expire emu | endBurst emu | nextSlice emu => cases slice emu
  | wantBurst | lockBurst | lockSecond | unlockHead | unlock => exact ⟨stopped, rfl⟩
  | requestStop | refused | quiet | late | serve | complete | acquire | lockTimeout =>
    exact ⟨stopped, noSlice⟩
  | call => exact ⟨stopped, await noSlice⟩
  | tick => exact ⟨stopped, await noSlice⟩
  | setPaused p main resumed =>
    refine ⟨fun running => ?_, noSlice⟩
    rcases resumed running with before | ⟨unpaused, -⟩
    · exact stopped before
    · cases (noResume p rfl).symm.trans unpaused
  | finish ok main started =>
    refine ⟨fun running => ?_, noSlice⟩
    rcases started running with before | ⟨ok', rfl⟩
    · exact stopped before
    · cases (noStart ok rfl main).symm.trans ok'

/-- The invariant of the quiet runs: while an image is streamed the machine is at rest. -/
structure Still (s : Exporter) : Prop where
  session : SessionInv s.session
  seen : ∀ o, some o ∈ s.ops → s.session.cache ∈ o.seen
  calm : s.streaming = true → s.calm = true
  images : ∀ o, some o ∈ s.ops → ∀ img, o.image = some img →
    ImageInv s.session.cache (s.session.contents img.disk) img
  written : s.Snapshots

section

variable {s t : Exporter} {k : Nat} {o : Operation} {img : Image}

theorem Exporter.streaming_iff :
    s.streaming = true ↔ ∃ o, some o ∈ s.ops ∧ ∃ img, o.image = some img := by
  simp only [Exporter.streaming, List.any_eq_true, Option.any_eq_true, Option.isSome_iff_exists]
  constructor
  · rintro ⟨_, mem, o, rfl, img⟩
    exact ⟨o, mem, img⟩
  · rintro ⟨o, mem, img⟩
    exact ⟨_, mem, o, rfl, img⟩

theorem Exporter.mem_of_op? (at_ : s.op? k = some o) : some o ∈ s.ops :=
  List.mem_of_getElem? (Option.join_eq_some_iff.mp at_)

theorem Exporter.mem_setOp {o' : Option Operation} (mem : some o ∈ (s.setOp k o').ops) :
    some o ∈ s.ops ∨ some o = o' :=
  List.mem_or_eq_of_mem_set mem

theorem Exporter.of_opStep {f : Operation → Option Exporter} (next : s.opStep k f = some t) :
    ∃ o, s.op? k = some o ∧ f o = some t := by
  simp only [Exporter.opStep] at next
  split at next
  · exact Option.bind_eq_some_iff.mp next
  · cases next

/-- No image is streamed while the guest can access a disk. -/
theorem Still.noImage (still : Still s) (busy : s.calm = false) (mem : some o ∈ s.ops) :
    o.image = none := by
  rcases image : o.image with _ | img
  · rfl
  · have calm := still.calm (Exporter.streaming_iff.mpr ⟨o, mem, img, image⟩)
    cases calm.symm.trans busy

theorem Still.init {session : Session} (inv : SessionInv session) : Still (.init session) where
  session := inv
  seen _ mem := absurd mem List.not_mem_nil
  calm streaming := absurd streaming (by simp [Exporter.init, Exporter.streaming])
  images _ mem := absurd mem List.not_mem_nil
  written _ mem := absurd mem List.not_mem_nil

/-- The shell moves under the operations. -/
theorem Still.shell {shell : Shell} (still : Still s)
    (calm : s.streaming = true → s.calm = true →
      shell.state ≠ .running ∧ shell.emu.inSlice = false) : Still { s with shell } := by
  refine ⟨still.session, still.seen, fun streaming => ?_, still.images, still.written⟩
  have streaming : s.streaming = true := streaming
  obtain ⟨stopped, noSlice⟩ := calm streaming (still.calm streaming)
  simp [Exporter.calm, stopped, noSlice]

/-- The guest accesses a disk, in a timeslice. -/
theorem Still.access {op : DiskOp} {env : List Bool} (still : Still s)
    (next : s.step (.access op env) = some t) : Still t := by
  simp only [Exporter.step] at next
  split at next
  · rename_i t0 spent emu
    split at next
    · rename_i access
      obtain ⟨session, accessed, rfl⟩ := Option.map_eq_some_iff.mp next
      have sound : s.session.Sound (op, env) = true := by
        cases op <;> first | rfl | cases access
      have busy : s.calm = false := by simp [Exporter.calm, emu, EmuPc.inSlice]
      have was {o : Operation} (mem : some o ∈ s.ops.map
          (Option.map (Operation.see session.cache))) :
          ∃ o', some o' ∈ s.ops ∧ o = o'.see session.cache := by
        obtain ⟨_ | o', mem', eq⟩ := List.mem_map.mp mem
        · cases eq
        · exact ⟨o', mem', (Option.some.inj eq).symm⟩
      have noImage {o : Operation} (mem : some o ∈ s.ops.map
          (Option.map (Operation.see session.cache))) : o.image = none := by
        obtain ⟨o', mem', rfl⟩ := was mem
        have none : o'.image = none := still.noImage busy mem'
        exact none
      refine ⟨still.session.step sound accessed, fun o mem => ?_, fun streaming => ?_,
        fun o mem img image => ?_, still.written⟩
      · obtain ⟨o', -, rfl⟩ := was mem
        exact List.mem_append_right _ (List.mem_singleton.mpr rfl)
      · obtain ⟨o, mem, img, image⟩ := Exporter.streaming_iff.mp streaming
        cases image.symm.trans (noImage mem)
      · cases image.symm.trans (noImage mem)
    · cases next
  · cases next

/-- An operation begins: if it pauses the machine, no image is streamed. -/
theorem Still.begin {disks : List Nat} {wasRunning : Bool} (still : Still s)
    (running : wasRunning = true → s.shell.state = .running) : Still (s.begin disks wasRunning) := by
  have joined {o : Operation} (mem : some o ∈ (s.begin disks wasRunning).ops) :
      some o ∈ s.ops ∨ o = ⟨disks, wasRunning, none, [s.session.cache]⟩ := by
    rcases List.mem_append.mp mem with old | new
    · exact .inl old
    · exact .inr (Option.some.inj (List.mem_singleton.mp new))
  refine ⟨still.session, fun o mem => ?_, fun streaming => ?_, fun o mem img image => ?_,
    still.written⟩
  · rcases joined mem with old | rfl
    · exact still.seen o old
    · exact List.mem_singleton.mpr rfl
  · obtain ⟨o, mem, img, image⟩ := Exporter.streaming_iff.mp streaming
    have old : some o ∈ s.ops := (joined mem).resolve_right fun new => by subst new; cases image
    have calm := still.calm (Exporter.streaming_iff.mpr ⟨o, old, img, image⟩)
    cases wasRunning with
    | false => exact calm
    | true =>
      have running := running rfl
      simp [Exporter.calm, running] at calm
  · rcases joined mem with old | rfl
    · exact still.images o old img image
    · cases image

/-- One operation goes on. -/
theorem Still.setOp {o' : Operation} (still : Still s) (seen : s.session.cache ∈ o'.seen)
    (calm : s.calm = true ∨ o'.image = none)
    (image : ∀ img, o'.image = some img →
      ImageInv s.session.cache (s.session.contents img.disk) img) :
    Still (s.setOp k (some o')) := by
  refine ⟨still.session, fun o mem => ?_, fun streaming => ?_, fun o mem img at_ => ?_,
    still.written⟩
  · rcases Exporter.mem_setOp mem with old | new
    · exact still.seen o old
    · exact Option.some.inj new ▸ seen
  · obtain ⟨o, mem, img, at_⟩ := Exporter.streaming_iff.mp streaming
    rcases calm with calm | none
    · exact calm
    · rcases Exporter.mem_setOp mem with old | new
      · exact still.calm (Exporter.streaming_iff.mpr ⟨o, old, img, at_⟩)
      · cases (Option.some.inj new ▸ at_).symm.trans none
  · rcases Exporter.mem_setOp mem with old | new
    · exact still.images o old img at_
    · cases Option.some.inj new
      exact image img at_

/-- An operation is over. -/
theorem Still.drop (still : Still s) : Still (s.setOp k none) := by
  have old {o : Operation} (mem : some o ∈ (s.setOp k none).ops) : some o ∈ s.ops :=
    (Exporter.mem_setOp mem).resolve_right (by simp)
  refine ⟨still.session, fun o mem => still.seen o (old mem), fun streaming => ?_,
    fun o mem => still.images o (old mem), still.written⟩
  obtain ⟨o, mem, image⟩ := Exporter.streaming_iff.mp streaming
  exact still.calm (Exporter.streaming_iff.mpr ⟨o, old mem, image⟩)

/-- One step within the discipline. -/
theorem Still.step {l : ExporterLabel} (still : Still s) (quiet : s.quiet l = true)
    (next : s.step l = some t) : Still t := by
  cases l with
  | shell l =>
    obtain ⟨shell, moved, rfl⟩ := Option.map_eq_some_iff.mp next
    refine still.shell fun streaming calm => ?_
    obtain ⟨stopped, noSlice⟩ := Bool.and_eq_true_iff.mp calm
    refine (Shell.moves_of_step moved).calm (of_decide_eq_true stopped)
      (Bool.not_eq_true' _ ▸ noSlice) ?_ ?_
    · rintro p rfl
      simpa [Exporter.quiet, streaming] using quiet
    · rintro ok rfl inside
      simpa [Exporter.quiet, streaming, inside] using quiet
  | access op env => exact still.access next
  | download id =>
    simp only [Exporter.step] at next
    split at next <;> cases next
    exact still.begin of_decide_eq_true
  | exportSystem disks own =>
    simp only [Exporter.step] at next
    split at next <;> cases next
    exact still.begin fun running => of_decide_eq_true (Bool.and_eq_true_iff.mp running).2
  | openImage k =>
    obtain ⟨o, at_, opened⟩ := Exporter.of_opStep next
    have mem := Exporter.mem_of_op? at_
    split at opened
    · split at opened <;> cases opened
      rename_i attached
      refine still.setOp (still.seen o mem) (.inl quiet) ?_
      rintro img ⟨⟩
      exact ImageInv.open attached _
    · cases opened
  | stream k =>
    obtain ⟨o, at_, streamed⟩ := Exporter.of_opStep next
    have mem := Exporter.mem_of_op? at_
    obtain ⟨img', step, rfl⟩ := Option.map_eq_some_iff.mp streamed
    obtain ⟨img, image, step⟩ := Option.bind_eq_some_iff.mp step
    have calm := still.calm (Exporter.streaming_iff.mpr ⟨o, mem, img, image⟩)
    refine still.setOp (still.seen o mem) (.inl calm) ?_
    rintro img' ⟨⟩
    exact (still.images o mem img image).step still.session.cache step
  | closeImage k =>
    obtain ⟨o, at_, closed⟩ := Exporter.of_opStep next
    have mem := Exporter.mem_of_op? at_
    obtain ⟨img, image, closed⟩ := Option.bind_eq_some_iff.mp closed
    split at closed <;> cases closed
    rename_i complete
    have closed : Still (s.setOp k (some { o with image := none })) :=
      still.setOp (still.seen o mem) (.inr rfl) (by simp)
    refine ⟨closed.session, closed.seen, closed.calm, closed.images, fun w written => ?_⟩
    rcases List.mem_append.mp written with old | new
    · exact still.written w old
    · cases List.mem_singleton.mp new
      exact ⟨s.session.cache, still.seen o mem,
        (still.images o mem img image).complete still.session.cache complete⟩
  | finish k =>
    obtain ⟨o, at_, finished⟩ := Exporter.of_opStep next
    cases finished
    refine still.drop.shell fun streaming calm => ?_
    obtain ⟨stopped, noSlice⟩ := Bool.and_eq_true_iff.mp calm
    have resting : s.shell.state ≠ .running ∧ s.shell.emu.inSlice = false :=
      ⟨of_decide_eq_true stopped, Bool.not_eq_true' _ ▸ noSlice⟩
    have noResume : o.wasRunning = false := by
      simpa [Exporter.quiet, at_, streaming] using quiet
    simpa [noResume] using resting

end

/-! ## Downloads of a running machine -/

/-- A disk of two blocks, the second of one byte, all 0. -/
def twoBlocks : List (DiskOp × List Bool) := [(.register 0x20001 fun _ => 0, [])]

def shells (ls : List ShellLabel) : List ExporterLabel := ls.map .shell

/-- The steps of one block. -/
def streamBlock (dirty : Bool) : List ExporterLabel :=
  List.replicate (if dirty then 4 else 3) (.stream 0)

/-- The boot and the first timeslice. -/
def firstSlice : List ExporterLabel :=
  shells (bootCall ++ [.wantBurst, .lockBurst, .beginSlice])

/-- A write and the end of the timeslice; the machine is paused, and the disk is downloaded. -/
def pausedDownload : List ExporterLabel :=
  firstSlice ++ [.access (.write 0 0x20000 [1]) []] ++
    shells [.endSlice, .unlock, .setPaused true] ++ [.download 0, .openImage 0] ++
      streamBlock false ++ streamBlock true ++ [.closeImage 0, .finish 0]

/-- The download pauses the machine in a timeslice, which goes on: it writes to both blocks after
the first is read. -/
def tornDownload : List ExporterLabel :=
  firstSlice ++ [.download 0, .openImage 0] ++ streamBlock false ++
    [.access (.write 0 0 [1]) [], .access (.write 0 0x20000 [1]) []] ++ streamBlock true ++
      [.closeImage 0, .finish 0]

/-- The first and the last byte of an image of two chunks. -/
theorem ends_of_slice {f view : Nat → Byte} {n : Nat} {x : Byte} (some_ : 0 < n)
    (image : slice f 0 n ++ [x] = slice view 0 (n + 1)) : view 0 = f 0 ∧ view n = x := by
  rw [slice_append] at image
  obtain ⟨first, last⟩ := List.append_inj image (by simp only [length_slice])
  have byte := congrArg (·[0]?) first
  simp only [slice, List.getElem?_map, List.getElem?_range some_, Option.map_some,
    Option.some.injEq, Nat.add_zero] at byte
  refine ⟨byte.symm, ?_⟩
  simpa [slice, Nat.zero_add] using last.symm

end PCemWeb.Platform
