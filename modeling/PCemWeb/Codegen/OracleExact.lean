import PCemWeb.Codegen.Oracle

/-!
# The journal is exact

Each hook records a write whose undoing restores the bytes it covered, so the journal of a run is
an exact log of it as long as nothing has tainted the run.
-/

namespace PCemWeb.Codegen.Oracle

open Lib

/-! ## One write -/

section Write

variable {ram : Ram} {addr : Nat} {size : AccessSize}

/-- The bytes of a read are the ones in RAM. -/
theorem bytes_read : (List.range size.bytes).map (byteLane (size.read ram addr)) =
    slice ram addr size.bytes := by
  apply List.map_congr_left
  intro j inside
  rw [List.mem_range] at inside
  cases size with
  | b =>
    obtain rfl : j = 0 := Nat.lt_one_iff.mp inside
    exact (byteLane_setWidth (by decide)).trans byteLane_self
  | w =>
    have small : 8 * j + 8 ≤ 32 := by
      simp only [AccessSize.bytes] at inside
      omega
    exact (byteLane_setWidth small).trans (byteLane_le16 inside)
  | l => exact byteLane_le32 inside

/-- Writing back what was read undoes a write of that size at that place. -/
theorem ramWriteRaw_undo (v : BitVec 32) :
    ramWriteRaw (ramWriteRaw ram addr size v) addr size (size.read ram addr) = ram := by
  funext at_
  rw [ramWriteRaw, bytes_read, overlay_slice]
  split
  case isTrue inside => rw [Nat.add_sub_cancel' inside.1]
  case isFalse outside =>
    rw [ramWriteRaw]
    apply overlay_of_outside
    rw [List.length_map, List.length_range]
    omega

end Write

/-- The journal leads from `base` to `ram` and back. -/
abbrev Exact (journal : List JEntry) (base ram : Ram) : Prop :=
  ExactLog redoEntry undoEntry journal base ram

namespace Machine

/-- The journal that the hooks write in this phase. -/
def journal (m : Machine) : List JEntry := if m.phase = 1 then m.journalA else m.journalB

/-- The run has recorded all its writes since RAM was `base`, unless it is tainted. -/
structure Recording (base : Ram) (m : Machine) : Prop where
  running : m.phase ≠ 0
  exact : m.taint = false → Exact m.journal base m.ram

variable {m : Machine} {base : Ram} {inRecompile : Bool}

theorem Recording.memWriteRamPage (recording : Recording base m) (addr : Nat) (size : AccessSize)
    (val : BitVec 32) : Recording base (m.memWriteRamPage inRecompile addr size val) := by
  unfold Machine.memWriteRamPage
  split
  case isFalse => exact recording
  rw [if_pos recording.running]
  unfold noteRamWrite
  have concat : m.taint = false → Exact
      (m.journal ++ [⟨addr, size, size.read m.ram addr, size.trunc val⟩]) base
      (ramWriteRaw m.ram addr size (size.trunc val)) := fun clean =>
    (recording.exact clean).concat rfl (ramWriteRaw_undo _)
  rcases eq_or_ne m.phase 1 with one | other
  · rw [if_pos one]
    rw [journal, if_pos one] at concat
    split
    · exact ⟨recording.running, fun clean => by cases clean⟩
    · refine ⟨recording.running, fun clean => ?_⟩
      simp only [journal, if_pos one]
      exact concat clean
  · rw [if_neg other]
    rw [journal, if_neg other] at concat
    split
    · exact ⟨recording.running, fun clean => by cases clean⟩
    · refine ⟨recording.running, fun clean => ?_⟩
      simp only [journal, if_neg other]
      exact concat clean

theorem Recording.access (recording : Recording base m) (a : Access) :
    Recording base (m.access inRecompile a) := by
  cases a with
  | write addr size val => exact recording.memWriteRamPage addr size val
  | io =>
    simp only [Machine.access, if_pos recording.running]
    exact ⟨recording.running, fun clean => by cases clean⟩

theorem Recording.run (recording : Recording base m) (inRecompile : Bool) (as : List Access)
    (st : OracleState) :
    Recording base (m.run inRecompile as st) := by
  have folded : Recording base (as.foldl (Machine.access · inRecompile) m) := by
    induction as generalizing m with
    | nil => exact recording
    | cons a as ih => exact ih (recording.access a)
  exact ⟨folded.running, folded.exact⟩

/-- In the replay only journal B grows. -/
theorem access_frame (inRecompile : Bool) (a : Access) : (m.access inRecompile a).phase = m.phase ∧
    (m.phase ≠ 1 → (m.access inRecompile a).journalA = m.journalA) := by
  cases a with
  | write addr size val =>
    simp only [Machine.access, Machine.memWriteRamPage, noteRamWrite]
    split_ifs with _ _ one
    all_goals exact ⟨rfl, fun other => by first | rfl | exact absurd one other⟩
  | io =>
    simp only [Machine.access]
    split <;> exact ⟨rfl, fun _ => rfl⟩

theorem run_frame (inRecompile : Bool) (as : List Access) (st : OracleState) :
    (m.run inRecompile as st).phase = m.phase ∧
      (m.phase ≠ 1 → (m.run inRecompile as st).journalA = m.journalA) := by
  show (as.foldl (Machine.access · inRecompile) m).phase = m.phase ∧
    (m.phase ≠ 1 → (as.foldl (Machine.access · inRecompile) m).journalA = m.journalA)
  induction as generalizing m with
  | nil => exact ⟨rfl, fun _ => rfl⟩
  | cons a as ih =>
    obtain ⟨phase, journalA⟩ := ih (m := m.access inRecompile a)
    have frame := access_frame (m := m) inRecompile a
    refine ⟨phase.trans frame.1, fun other => ?_⟩
    exact (journalA (frame.1 ▸ other)).trans (frame.2 other)

/-- A sequence of writes to RAM. -/
def writes (m : Machine) (inRecompile : Bool) (ws : List (Nat × AccessSize × BitVec 32)) :
    Machine := ws.foldl (fun m w => m.memWriteRamPage inRecompile w.1 w.2.1 w.2.2) m

/-- Journal A has room for as many writes as it has entries left. -/
theorem write_taint (inRecompile : Bool) {w : Nat × AccessSize × BitVec 32} (one : m.phase = 1)
    (room : m.journalA.length < JOURNAL_MAX) (clean : m.taint = false) :
    (m.memWriteRamPage inRecompile w.1 w.2.1 w.2.2).taint = false ∧
      (m.memWriteRamPage inRecompile w.1 w.2.1 w.2.2).journalA.length ≤
        m.journalA.length + 1 := by
  simp only [Machine.memWriteRamPage, noteRamWrite, one, if_neg (Nat.not_le_of_lt room)]
  split
  · simp [clean]
  · exact ⟨clean, Nat.le_succ _⟩

theorem writes_taint (inRecompile : Bool) {ws : List (Nat × AccessSize × BitVec 32)} (one : m.phase = 1)
    (room : m.journalA.length + ws.length ≤ JOURNAL_MAX) (clean : m.taint = false) :
    (m.writes inRecompile ws).taint = false := by
  induction ws generalizing m with
  | nil => exact clean
  | cons w ws ih =>
    rw [List.length_cons] at room
    obtain ⟨still, length⟩ :=
      write_taint inRecompile (w := w) one (by omega) clean
    have phase := (access_frame (m := m) inRecompile (.write w.1 w.2.1 w.2.2)).1
    exact ih (phase.trans one) (Nat.le_trans (Nat.add_le_add_right length _) (by omega)) still

theorem Recording.writes (recording : Recording base m) (inRecompile : Bool)
    (ws : List (Nat × AccessSize × BitVec 32)) :
    Recording base (m.writes inRecompile ws) := by
  induction ws generalizing m with
  | nil => exact recording
  | cons w ws ih => exact ih (recording.memWriteRamPage w.1 w.2.1 w.2.2)

theorem writes_phase (ws : List (Nat × AccessSize × BitVec 32)) :
    (m.writes inRecompile ws).phase = m.phase := by
  induction ws generalizing m with
  | nil => rfl
  | cons w ws ih => exact ih.trans (access_frame inRecompile (.write w.1 w.2.1 w.2.2)).1

end Machine

/-! ## The replay -/

/-- The replay goes on from `base` with the block's journal `journalA`. -/
structure Replaying (journalA : List JEntry) (base : Ram) (m : Machine) : Prop where
  phase : m.phase = 2
  journalA : m.journalA = journalA
  recording : m.Recording base

variable {g : Guest} {m : Machine} {base : Ram} {journalA : List JEntry} {sjit : OracleState}

theorem Replaying.run (replaying : Replaying journalA base m) (as : List Access)
    (st : OracleState) : Replaying journalA base (m.run g.inRecompile as st) where
  phase := (Machine.run_frame g.inRecompile as st).1.trans replaying.phase
  journalA := ((Machine.run_frame g.inRecompile as st).2 (by rw [replaying.phase]; decide)).trans
    replaying.journalA
  recording := replaying.recording.run g.inRecompile as st

theorem Replaying.interpStep (replaying : Replaying journalA base m) :
    Replaying journalA base (g.interpStep m) := by
  have dispatched : Replaying journalA base
      (g.dispatch (g.fetch (g.prepare m.st) m.ram).2.2 (m.run g.inRecompile
        (g.fetch (g.prepare m.st) m.ram).1 (g.fetch (g.prepare m.st) m.ram).2.1)) := by
    unfold Guest.dispatch
    split
    · exact (replaying.run _ _).run _ _
    · exact replaying.run _ _
  exact ⟨dispatched.phase, dispatched.journalA, dispatched.recording.running,
    dispatched.recording.exact⟩

/-- The compared fields and globals are equal. -/
def Contract (s t : OracleState) : Prop :=
  (∀ field ∈ cmpFields, s.cpu field = t.cpu field) ∧
    s.use32 = t.use32 ∧ s.stack32 = t.stack32 ∧ s.cpuCurStatus = t.cpuCurStatus

theorem contract_of_tests {s t : OracleState} (noDiff : stateDiff s.cpu t.cpu = 0)
    (globals : globalsEqual s t = true) : Contract s t := by
  simp only [globalsEqual, decide_eq_true_eq] at globals
  refine ⟨fun field compared => ?_, globals.1.symm, globals.2.1.symm, globals.2.2.symm⟩
  rw [stateDiff, List.countP_eq_zero] at noDiff
  have equal := noDiff field compared
  simpa using equal

/-- What each way out leaves, against the machine after the block's run. -/
def Leaves (jit : Machine) : Exit → Machine → Prop
  | .interpreted, _ => False
  | .skipped, m => m.ram = jit.ram ∧ m.st = jit.st
  | .abandoned, m => m.st = jit.st
  | .verified, m => m.ram = jit.ram ∧ Contract jit.st m.st
  | .died, _ => True

theorem redoEntry_congr (e e' : JEntry) (same : e.key = e'.key) : redoEntry e = redoEntry e' := by
  simp only [JEntry.key, Prod.mk.injEq] at same
  funext ram
  rw [redoEntry, redoEntry, same.1, same.2.1, same.2.2]

/-- The replay's RAM is what its journal makes of `base`, so equal journals mean equal RAM. -/
theorem replay_leaves {jit : Machine} (jitLog : Exact jit.journalA base jit.ram) (steps : Nat) :
    ∀ m, Replaying jit.journalA base m →
      Leaves jit (replay g jit.st steps m).1 (replay g jit.st steps m).2 := by
  induction steps with
  | zero => exact fun _ _ => trivial
  | succ steps ih =>
    intro m replaying
    have next := replaying.interpStep (g := g)
    rw [replay]
    split
    case isTrue => rfl
    case isFalse clean =>
    split
    case isTrue => trivial
    case isFalse =>
    split
    case isTrue equal =>
      obtain ⟨noDiff, globals, journals⟩ := equal
      refine ⟨?_, contract_of_tests noDiff globals⟩
      have exact := next.recording.exact (Bool.not_eq_true _ ▸ clean)
      rw [Machine.journal, if_neg (by rw [next.phase]; decide)] at exact
      rw [next.journalA, journalsEqual, decide_eq_true_eq] at journals
      rw [← jitLog.redo_eq, ← exact.redo_eq]
      exact (redoAll_congr redoEntry_congr journals).symm
    case isFalse =>
    split
    case isTrue => trivial
    case isFalse => exact ih _ next

/-- The block's run records all its writes. -/
theorem jitRun_exact (clean : (g.jitRun m).taint = false) :
    Exact (g.jitRun m).journalA m.ram (g.jitRun m).ram := by
  have start : Machine.Recording m.ram { m with taint := false, journalA := [], phase := 1 } :=
    ⟨Nat.one_ne_zero, fun _ => .nil⟩
  have finished := start.run g.inRecompile (g.code m.st m.ram).1 (g.code m.st m.ram).2
  have phase := (Machine.run_frame (m := { m with taint := false, journalA := [], phase := 1 })
    g.inRecompile (g.code m.st m.ram).1 (g.code m.st m.ram).2).1
  have exact := finished.exact clean
  rw [Machine.journal, if_pos phase] at exact
  exact exact

theorem oracleExec_leaves {block : OracleBlock} (replayable : block.oracleTaint = false) :
    Leaves (g.jitRun m) (oracleExec g block m).1 (oracleExec g block m).2 := by
  unfold oracleExec
  rw [if_neg (by rw [replayable]; decide)]
  dsimp only
  split
  case isTrue => exact ⟨rfl, rfl⟩
  case isFalse tainted =>
    have clean := Bool.not_eq_true _ ▸ tainted
    have log := jitRun_exact clean
    refine replay_leaves log _ _ ⟨rfl, rfl, two_ne_zero, fun _ => ?_⟩
    show ExactLog redoEntry undoEntry [] m.ram (rollback (g.jitRun m).journalA (g.jitRun m).ram)
    rw [rollback, log.undo_eq]
    exact .nil

/-! ## The log and the ways out -/

section Nop

/-- A processor with all its fields 0. -/
def idleState : OracleState := ⟨fun _ => 0, 0, 0, 0, 0, 0⟩

def idle : Machine := ⟨idleState, fun _ => 0, 0, false, [], [], 0, 0, 0⟩

/-- A block of one `NOP`, whose code counts cycles as the interpreter does not. -/
def nop : Guest where
  code := fun st _ => ([], { st with
    cpu := Function.update (Function.update st.cpu .pc 1) .cycles 1 })
  fetch := fun st _ => ([], st, 0x90#32)
  opcodes := fun _ _ st _ => ([], st)
  segDs := 0
  inRecompile := false

end Nop

end PCemWeb.Codegen.Oracle
