import Mathlib.Data.Nat.Bitwise
import PCemWeb.Ide.Transfer

/-!
# Exact transfers

`transferExact_iff`: a command that has ended has moved the sectors of its request, each once and in
order, and its registers name the last of them, exactly if the storage layer served each of its
calls and the registers can name that sector. They cannot after a transfer of more than one sector
by block address: `ide_next_sector` then advances `lba_addr`, which no register shows, where it
advances the registers in the other mode.
-/

namespace PCemWeb.Ide

open PCemWeb.Lib

variable {r : Request} {h : HddFile} {c c' : Channel} {d d' : Drive} {k : Nat} {a : Answer}
  {m : Medium}

/-! ## The task file -/

/-- What the four writes before that of the drive and head leave in a drive. -/
def Drive.addressed (r : Request) (d : Drive) : Drive :=
  { d with
    secount := r.count.toNat
    sector := r.sector.toNat
    cylinder := ((d.cylinder &&& 0xFF00 ||| r.cylinderLow.toNat) &&& 0xFF) |||
      (r.cylinderHigh.toNat <<< 8)
    lbaAddr := ((((d.lbaAddr &&& 0xFFFFF00) ||| r.sector.toNat) &&& 0xFFF00FF |||
      (r.cylinderLow.toNat <<< 8)) &&& 0xF00FFFF) ||| (r.cylinderHigh.toNat <<< 16) }

/-- What the write of the drive and head adds. -/
def Drive.headed (r : Request) (d : Drive) : Drive :=
  { d with head := r.head, lba := r.lba,
           lbaAddr := (d.lbaAddr &&& 0x0FFFFFF) ||| (r.head <<< 24) }

theorem Request.head_lt : r.head < 16 := by
  have nibble : r.head = r.driveHead.toNat % 16 := by
    rw [Request.head, BitVec.toNat_and]
    exact Nat.and_two_pow_sub_one_eq_mod r.driveHead.toNat 4
  omega

theorem cylinder_eq (low high : Byte) (x : Nat) :
    ((x &&& 0xFF00 ||| low.toNat) &&& 0xFF) ||| (high.toNat <<< 8) =
      high.toNat * 256 + low.toNat := by
  have small := low.isLt
  have byte : low.toNat &&& 0xFF = low.toNat :=
    (Nat.and_two_pow_sub_one_eq_mod low.toNat 8).trans (Nat.mod_eq_of_lt small)
  have high8 : high.toNat <<< 8 = high.toNat * 256 := Nat.shiftLeft_eq high.toNat 8
  have apart : 0xFF00 &&& 0xFF = 0 := by decide
  rw [Nat.and_or_distrib_right, Nat.and_assoc, byte, apart, Nat.and_zero, Nat.zero_or, Nat.or_comm,
    ← Nat.shiftLeft_add_eq_or_of_lt small, high8]

theorem lbaAddr_eq (sector low high : Byte) {head : Nat} (x : Nat) :
    ((((((x &&& 0xFFFFF00) ||| sector.toNat) &&& 0xFFF00FF ||| (low.toNat <<< 8)) &&& 0xF00FFFF) |||
      (high.toNat <<< 16)) &&& 0x0FFFFFF) ||| (head <<< 24) =
      head * 16777216 + (high.toNat * 256 + low.toNat) * 256 + sector.toNat := by
  have s := sector.isLt
  have l := low.isLt
  have hi := high.isLt
  have low8 : low.toNat <<< 8 = low.toNat * 256 := Nat.shiftLeft_eq low.toNat 8
  have high16 : high.toNat <<< 16 = high.toNat * 65536 := Nat.shiftLeft_eq high.toNat 16
  have head24 : head <<< 24 = head * 16777216 := Nat.shiftLeft_eq head 24
  have sectorByte : sector.toNat &&& 255 = sector.toNat :=
    (Nat.and_two_pow_sub_one_eq_mod sector.toNat 8).trans (Nat.mod_eq_of_lt s)
  have lowByte : low.toNat <<< 8 &&& 65535 = low.toNat <<< 8 :=
    (Nat.and_two_pow_sub_one_eq_mod _ 16).trans (Nat.mod_eq_of_lt (by omega))
  have highByte : high.toNat <<< 16 &&& 16777215 = high.toNat <<< 16 :=
    (Nat.and_two_pow_sub_one_eq_mod _ 24).trans (Nat.mod_eq_of_lt (by omega))
  -- no bit of what the register held before is left
  have bits : ((((((x &&& 0xFFFFF00) ||| sector.toNat) &&& 0xFFF00FF ||| (low.toNat <<< 8)) &&&
      0xF00FFFF) ||| (high.toNat <<< 16)) &&& 0x0FFFFFF) ||| (head <<< 24) =
      ((sector.toNat ||| low.toNat <<< 8) ||| high.toNat <<< 16) ||| head <<< 24 := by
    simp only [Nat.and_or_distrib_right, Nat.and_assoc, Nat.reduceAnd, Nat.and_zero, Nat.zero_or,
      sectorByte, lowByte, highByte]
  have first : low.toNat <<< 8 + sector.toNat = sector.toNat ||| low.toNat <<< 8 := by
    rw [Nat.shiftLeft_add_eq_or_of_lt s, Nat.or_comm]
  have second : high.toNat <<< 16 + (low.toNat <<< 8 + sector.toNat) =
      (sector.toNat ||| low.toNat <<< 8) ||| high.toNat <<< 16 := by
    rw [Nat.shiftLeft_add_eq_or_of_lt (by omega), first, Nat.or_comm]
  rw [bits, ← second, Nat.or_comm, ← Nat.shiftLeft_add_eq_or_of_lt (by omega), low8, high16, head24]
  omega

/-! ## The start -/

theorem writeDriveHead_headed {val : Byte} (awake : c.ide.reset = false ∧ c.other.reset = false)
    (same : val = r.driveHead) : ∃ other cur,
    writeDriveHead c val = ⟨(c.selected r).headed r, other, cur, c.armed⟩ := by
  subst same
  have noReset : ¬(c.ide.reset || c.other.reset) = true := by simp [awake]
  rw [writeDriveHead, if_neg noReset, Channel.selected]
  by_cases same : c.cur = r.driveHead.getLsbD 4
  · rw [if_neg (not_not.mpr same), if_pos same]
    exact ⟨_, _, rfl⟩
  · rw [if_pos same, if_neg same]
    exact ⟨_, _, rfl⟩

/-- The drive that the registers of a request were written to. -/
def Drive.requested (r : Request) (d : Drive) : Drive := (d.addressed r).headed r

theorem Request.issued (ready : c.Ready r)
    (issued : exec Channel.step c (r.ops.map fun op => (op, a)) = some c') : ∃ other cur,
      writeCommand ⟨(c.selected r).requested r, other, cur, false⟩ (.ofByte r.command) a =
        some c' := by
  obtain ⟨other, cur, headed⟩ := writeDriveHead_headed (r := r)
    (c := ⟨c.ide.addressed r, c.other.addressed r, c.cur, c.armed⟩) ready.awake rfl
  have selected : Channel.selected ⟨c.ide.addressed r, c.other.addressed r, c.cur, c.armed⟩ r =
      (c.selected r).addressed r := by
    simp only [Channel.selected]
    split <;> rfl
  rw [selected, ready.quiet] at headed
  have drives : exec Channel.step c (r.ops.map fun op => (op, a)) =
      (writeide (writeDriveHead ⟨c.ide.addressed r, c.other.addressed r, c.cur, c.armed⟩
        r.driveHead)
        .command r.command a).bind some := rfl
  have present : ¬((c.selected r).requested r).type = .none := by
    rw [show ((c.selected r).requested r).type = (c.selected r).type from rfl, ready.present]
    decide
  rw [drives, ready.quiet, headed] at issued
  obtain ⟨started, command, same⟩ := Option.bind_eq_some_iff.mp issued
  cases same
  exact ⟨other, cur, (if_neg present).symm.trans command⟩

/-- The registers name the start address, whatever they held before. -/
theorem Drive.At.requested (ready : c.Ready r) :
    ((c.selected r).requested r).At r (c.selected r).hddFile 0 := by
  have cylinder : ((c.selected r).requested r).cylinder = r.cylinder := cylinder_eq ..
  have lbaAddr : ((c.selected r).requested r).lbaAddr =
      r.head * 16777216 + r.cylinder * 256 + r.sector.toNat := lbaAddr_eq ..
  refine ⟨rfl, rfl, ready.skip, fun lba => ⟨?_, rfl, cylinder, rfl⟩, fun chs => ?_, ready.sector,
    ready.head⟩
  · rw [lbaAddr, Request.start, sectorAt, if_pos lba, Nat.add_zero]
  · have first := (ready.sector chs).1
    rw [cylinder, Request.start, sectorAt, if_neg (by simp [chs])]
    change (r.cylinder * (c.selected r).hddFile.hpc + r.head) * (c.selected r).hddFile.spt +
      r.sector.toNat = _
    omega

theorem Request.count_eq : r.count.toNat = (r.due - 0) % 256 := by
  have := r.count.isLt
  simp only [Request.due]
  split <;> omega

/-- The command begins with none of its sectors moved. -/
theorem Request.stage (ready : c.Ready r)
    (issued : exec Channel.step c (r.ops.map fun op => (op, a)) = some c') :
    Stage r (c.selected r).hddFile c' := by
  obtain ⟨other, cur, written⟩ := Request.issued ready issued
  have awake : ((c.selected r).requested r).reset = false := by
    change (c.selected r).reset = false
    rw [Channel.selected]
    split
    · exact ready.awake.1
    · exact ready.awake.2
  have under (d : Drive) (command : d.command = .ofByte r.command) (reset : d.reset = false)
      (place : d.At r (c.selected r).hddFile 0) (count : d.secount = r.count.toNat) :
      d.Under r (c.selected r).hddFile 0 :=
    ⟨command, reset, place, count.trans Request.count_eq, Request.due_pos⟩
  have place := Drive.At.requested ready
  have drq : (drqStat ||| dscStat ||| readyStat).getLsbD 3 = true := by decide
  have transfers := ready.transfers
  cases command : Command.ofByte r.command with
  | read | readNoretry | readDma =>
    rw [command] at written
    cases written
    refine .waiting 0 (under _ command.symm awake (place.congr rfl) rfl)
      ?_ busyStatus.1 busyStatus.2
    exact Drive.Fetched.history ⟨rfl, fun _ => ⟨rfl, rfl⟩, by simp⟩ (by rw [command]; rfl)
  | readMultiple =>
    rw [command] at written
    simp only [writeCommand] at written
    split at written
    · cases written
    cases written
    refine .waiting 0 (under _ command.symm awake (place.congr rfl) rfl)
      ?_ busyStatus.1 busyStatus.2
    exact Drive.Fetched.history ⟨rfl, fun _ => ⟨rfl, rfl⟩, by simp⟩ (by rw [command]; rfl)
  | write | writeNoretry =>
    rw [command] at written
    cases written
    have writes : (Command.ofByte r.command).writes = true := by rw [command]; rfl
    refine .writing 0 (under _ command.symm awake (place.congr rfl) rfl) ?_ writes
      (by rw [command]; rfl) drq rfl
    exact Drive.Stored.history ⟨by simp, rfl⟩ writes
  | writeMultiple =>
    rw [command] at written
    simp only [writeCommand] at written
    split at written
    · cases written
    cases written
    have writes : (Command.ofByte r.command).writes = true := by rw [command]; rfl
    refine .writing 0 (under _ command.symm awake (place.congr rfl) rfl) ?_ writes
      (by rw [command]; rfl) drq rfl
    exact Drive.Stored.history ⟨by simp, rfl⟩ writes
  | writeDma =>
    rw [command] at written
    cases written
    have writes : (Command.ofByte r.command).writes = true := by rw [command]; rfl
    refine .waiting 0 (under _ command.symm awake (place.congr rfl) rfl)
      ?_ busyStatus.1 busyStatus.2
    exact Drive.Stored.history ⟨by simp, rfl⟩ writes
  | _ => simp [command, Command.reads, Command.writes] at transfers

/-! ## The last sector -/

/-- The digits of an address, none of them larger, give the address only if they are the same. -/
theorem digits_eq {hpc spt c₁ c₂ h₁ h₂ s₁ s₂ : Nat} (heads : 0 < hpc) (sectors : 0 < spt)
    (cylinder : c₁ ≤ c₂) (head : h₁ ≤ h₂) (sector : s₁ ≤ s₂)
    (same : (c₁ * hpc + h₁) * spt + s₁ = (c₂ * hpc + h₂) * spt + s₂) :
    c₁ = c₂ ∧ h₁ = h₂ ∧ s₁ = s₂ := by
  have cylinders : c₁ * hpc ≤ c₂ * hpc := Nat.mul_le_mul_right hpc cylinder
  have tracks : (c₁ * hpc + h₁) * spt ≤ (c₂ * hpc + h₂) * spt :=
    Nat.mul_le_mul_right spt (by omega)
  have track : c₁ * hpc + h₁ = c₂ * hpc + h₂ := Nat.eq_of_mul_eq_mul_right sectors (by omega)
  exact ⟨Nat.eq_of_mul_eq_mul_right heads (by omega), by omega, by omega⟩

/-- The registers name the sector that they stand at exactly if it fits them. -/
theorem Drive.At.named_iff (place : d.At r h (r.due - 1)) :
    d.named = r.start h + r.due - 1 ↔ r.lastFits h := by
  have due := r.due_pos
  rw [Drive.named, place.lba, place.file, Request.lastFits]
  cases lba : r.lba with
  | true =>
    obtain ⟨-, sector, cylinder, head⟩ := place.linear lba
    have small := r.sector.isLt
    have low := r.cylinderLow.isLt
    have high := r.cylinderHigh.isLt
    have nibble : r.head < 16 := Request.head_lt
    have same : sectorAt true h (d.cylinder % 65536) (d.head % 16) (d.sector % 256) =
        r.start h := by
      rw [sector, cylinder, head, Request.start, lba, Nat.mod_eq_of_lt nibble,
        Nat.mod_eq_of_lt small, Request.cylinder, Nat.mod_eq_of_lt (by omega)]
    rw [same]
    simp only [if_true]
    omega
  | false =>
    obtain ⟨first, track⟩ := place.sector lba
    have heads := place.head lba
    have linear : (d.cylinder * h.hpc + d.head) * h.spt + (d.sector - 1) =
        r.start h + r.due - 1 := by
      have := place.tracks lba
      omega
    have quotient : (r.start h + r.due - 1) / h.spt = d.cylinder * h.hpc + d.head := by
      rw [← linear, Nat.mul_comm]
      exact Nat.mul_add_div (by omega) .. |>.trans (by rw [Nat.div_eq_of_lt (by omega)]; rfl)
    have sector : (r.start h + r.due - 1) % h.spt = d.sector - 1 := by
      rw [← linear, Nat.mul_comm, Nat.mul_add_mod, Nat.mod_eq_of_lt (by omega)]
    have head : (r.start h + r.due - 1) / h.spt % h.hpc = d.head := by
      rw [quotient, Nat.mul_comm, Nat.mul_add_mod, Nat.mod_eq_of_lt heads]
    have cylinder : (r.start h + r.due - 1) / (h.hpc * h.spt) = d.cylinder := by
      rw [Nat.mul_comm, ← Nat.div_div_eq_div_mul, quotient, Nat.mul_comm]
      exact Nat.mul_add_div (by omega) .. |>.trans (by rw [Nat.div_eq_of_lt heads]; rfl)
    simp only [sectorAt, Bool.false_eq_true, if_false, cylinder, head, sector]
    constructor
    · intro named
      have tracks : (d.cylinder % 65536 * h.hpc + d.head % 16) * h.spt ≤
          (d.cylinder * h.hpc + d.head) * h.spt :=
        Nat.mul_le_mul_right _ (Nat.add_le_add (Nat.mul_le_mul_right _ (Nat.mod_le ..))
          (Nat.mod_le ..))
      have same : (d.cylinder % 65536 * h.hpc + d.head % 16) * h.spt + d.sector % 256 =
          (d.cylinder * h.hpc + d.head) * h.spt + d.sector := by omega
      obtain ⟨cylinder, head, sector⟩ := digits_eq (by omega) (by omega) (Nat.mod_le d.cylinder _)
        (Nat.mod_le d.head _) (Nat.mod_le d.sector _) same
      omega
    · rintro ⟨cylinder, head, sector⟩
      rw [Nat.mod_eq_of_lt cylinder, Nat.mod_eq_of_lt head, Nat.mod_eq_of_lt (by omega)]
      omega

/-! ## The sectors -/

theorem filter_map_eq_iff {α β : Type} {l : List α} {p : α → Bool} {f : α → β} :
    (l.filter p).map f = l.map f ↔ ∀ x ∈ l, p x = true := by
  constructor
  · intro same
    have lengths := congrArg List.length same
    rw [List.length_map, List.length_map] at lengths
    exact List.length_filter_eq_length_iff.mp lengths
  · intro all
    rw [List.filter_eq_self.mpr all]

theorem Call.Answered.whole_iff {call : Call} (answered : call.Answered) :
    call.whole = true ↔ call.nrSectors * 512 ≤ call.result.moved := by
  rw [Call.whole, answered.result]
  simp

theorem all_moved_iff {n moved : Nat} (some_ : 0 < n) :
    (∀ i < n, (i + 1) * 512 ≤ moved) ↔ n * 512 ≤ moved := by
  constructor
  · intro all
    have last := all (n - 1) (Nat.sub_lt some_ Nat.one_pos)
    rwa [Nat.sub_add_cancel some_] at last
  · intro whole i inRange
    exact Nat.le_trans (Nat.mul_le_mul_right 512 inRange) whole

/-- A read moves the sectors of its one call that the layer filled. -/
theorem Drive.Fetched.sectors_iff (fetched : d.Fetched r h r.due) (reads : d.command.reads = true) :
    d.transferred = ((List.range r.due).map fun i => ((r.start h + i : Nat) : Int)) ↔
      ∀ call ∈ d.calls, call.whole = true := by
  have due := r.due_pos
  have later : d.doInitialRead = false := by
    cases initial : d.doInitialRead with
    | false => rfl
    | true => exact absurd (fetched.before initial).1 (by omega)
  obtain ⟨-, m, t, answer, calls⟩ := fetched.after later
  have answered : Call.Answered ⟨.read, h, r.start h, r.due, m, t⟩ := ⟨answer, fun _ => due⟩
  simp only [Drive.transferred, reads, if_true, calls, fetched.handed, List.flatMap_cons,
    List.flatMap_nil, List.append_nil, List.forall_mem_singleton, answered.whole_iff,
    Int.natCast_add]
  rw [filter_map_eq_iff]
  simp only [List.mem_range, Call.moves, decide_eq_true_eq]
  exact all_moved_iff due

theorem stored_sectors {calls : List Call} (single : ∀ call ∈ calls, call.nrSectors = 1) :
    (calls.flatMap fun call => ((List.range call.nrSectors).filter call.moves).map
      fun i : Nat => call.offset + (i : Int)) = (calls.filter (·.moves 0)).map (·.offset) := by
  induction calls with
  | nil => rfl
  | cons call calls ih =>
    obtain ⟨one, rest⟩ := List.forall_mem_cons.mp single
    rw [List.flatMap_cons, ih rest, one, List.filter_cons]
    by_cases moves : call.moves 0 = true
    · simp [List.range_succ, moves]
    · simp [List.range_succ, moves]

/-- A write moves the sector of each of its calls that the layer took. -/
theorem Drive.Stored.sectors_iff (stored : d.Stored r h r.due) (reads : d.command.reads = false) :
    d.transferred = ((List.range r.due).map fun i => ((r.start h + i : Nat) : Int)) ↔
      ∀ call ∈ d.calls, call.whole = true := by
  have single : ∀ call ∈ d.calls, call.nrSectors = 1 := by
    intro call made
    have pair := List.mem_map_of_mem (f := fun call : Call => (call.offset, call.nrSectors)) made
    rw [stored.requests] at pair
    obtain ⟨i, -, same⟩ := List.mem_map.mp pair
    exact (congrArg Prod.snd same).symm
  have offsets : d.calls.map (·.offset) =
      (List.range r.due).map fun i => ((r.start h + i : Nat) : Int) := by
    have first := congrArg (List.map Prod.fst) stored.requests
    simpa only [List.map_map, Function.comp_def] using first
  simp only [Drive.transferred, reads, Bool.false_eq_true, if_false]
  rw [stored_sectors single, ← offsets, filter_map_eq_iff]
  refine forall_congr' fun call => forall_congr' fun made => ?_
  rw [(stored.answered call made).whole_iff, single call made, Call.moves, decide_eq_true_eq]

/-- A request that has ended was carried out exactly if the storage layer served each of its calls
and the registers can name its last sector. -/
theorem Stage.exact_iff (stage : Stage r h c) (ended : c.ide.ended = true)
    (transfers : (Command.ofByte r.command).reads = true ∨
      (Command.ofByte r.command).writes = true) :
    TransferExact r h c.ide ↔ (∀ call ∈ c.ide.calls, call.whole = true) ∧ r.lastFits h := by
  simp only [Drive.ended, Bool.and_eq_true, Bool.or_eq_true, Bool.not_eq_true',
    decide_eq_true_eq] at ended
  obtain ⟨idle, finished⟩ := ended
  have noPio (pio : (Command.ofByte r.command).pio = true)
      (command : c.ide.command = .ofByte r.command) (asks : c.ide.atastat.getLsbD 3 = true) :
      False := by
    rcases finished with (quiet | dma) | dma
    · exact absurd (quiet.symm.trans asks) (by decide)
    · rw [← command, dma] at pio
      cases pio
    · rw [← command, dma] at pio
      cases pio
  cases stage with
  | waiting _ _ _ busy => exact absurd (idle.symm.trans busy) (by decide)
  | reading _ under _ _ _ pio asks => exact (noPio pio under.command asks).elim
  | writing _ under _ _ pio asks => exact (noPio pio under.command asks).elim
  | done command place history =>
    have sectors : c.ide.transferred =
        ((List.range r.due).map fun i => ((r.start h + i : Nat) : Int)) ↔
          ∀ call ∈ c.ide.calls, call.whole = true := by
      rcases transfers with reads | writes
      · exact (history.fetched reads).sectors_iff (by rw [command, reads])
      · exact (history.stored writes).sectors_iff
          (by rw [command, Command.reads_of_writes writes])
    have registers := place.named_iff
    constructor
    · rintro ⟨moved, named⟩
      exact ⟨sectors.mp moved, registers.mp named⟩
    · rintro ⟨whole, fits⟩
      exact ⟨sectors.mpr whole, registers.mpr fits⟩

/-- The first disk of the example, with no second. -/
def exampleChannel : Channel := .init (exampleDisk .browser) noDisk

/-- A DMA read of two sectors, the last of a track and the first of the next. -/
def trackRequest : Request := ⟨2, 17, 0, 0, 0xA0, 0xC8⟩

/-- A DMA read of two sectors by block address. -/
def blockRequest : Request := ⟨2, 5, 0, 0, 0xE0, 0xC8⟩

/-- The timer, with a bus master that is not ready at first. -/
def dmaOps : List (Op × Answer) :=
  [(.timer, { goodAnswer with busMaster := some false }), (.timer, goodAnswer),
    (.timer, goodAnswer)]

/-- The state in which a request of the example ends. -/
theorem exampleChannel_run {r : Request} {test : Channel → Bool}
    (done : ((exec Channel.step exampleChannel (r.ops.map fun op => (op, goodAnswer))).bind
      (execOk Channel.step Channel.attends · dmaOps)).any test = true) :
    ∃ c₀ c₁, exec Channel.step exampleChannel (r.ops.map fun op => (op, goodAnswer)) = some c₀ ∧
      RunOk Channel.step (fun c op => c.attends op = true) c₀ c₁ ∧ test c₁ = true := by
  obtain ⟨c₁, ran, passed⟩ := (Option.any_eq_true ..).mp done
  obtain ⟨c₀, issued, served⟩ := Option.bind_eq_some_iff.mp ran
  exact ⟨c₀, c₁, issued, RunOk.of_execOk (fun _ _ => id) served, passed⟩

theorem trackRequest_ready : exampleChannel.Ready trackRequest :=
  ⟨by decide, by decide, by decide, by decide, by decide, by decide, by decide, by decide⟩

theorem blockRequest_ready : exampleChannel.Ready blockRequest :=
  ⟨by decide, by decide, by decide, by decide, by decide, by decide, by decide, by decide⟩

end PCemWeb.Ide
