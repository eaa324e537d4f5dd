import PCemWeb.Devices.PitLatch
import Mathlib.Tactic.IntervalCases

/-!
# Where the interval timer keeps its latches

Counting changes neither the latches nor the reload register, and the commands keep the channel in
agreement with its view in every run that avoids the defects.
-/

namespace PCemWeb.Devices

/-! ## What counting leaves alone -/

/-- The registers that accesses of the ports use. -/
structure PitRegisters where
  l : BitVec 32
  wm : BitVec 8
  rm : BitVec 8
  rl : BitVec 16
  m : BitVec 8
  rereadlatch : Bool
  latched : Bool
  disabled : Bool
  doReadStatus : Bool
  readStatus : BitVec 8

namespace PitChannel

variable {e : PitClock} {c : PitChannel} {x : BitVec 32}

def registers (c : PitChannel) : PitRegisters :=
  ⟨c.l, c.wm, c.rm, c.rl, c.m, c.rereadlatch, c.latched, c.disabled, c.doReadStatus, c.readStatus⟩

theorem registers_settle : (c.settle e).registers = c.registers := by
  unfold settle dumpAndDisableTimer
  dsimp only
  split
  · split <;> rfl
  · rfl

theorem registers_goOn (n : Int) : (c.goOn e n).registers = c.registers := by
  unfold goOn
  dsimp only
  split <;> rfl

theorem registers_start (count delay : Int) (out : Bool) :
    (c.start e count delay out).registers = c.registers := by
  unfold start
  dsimp only
  split <;> rfl

theorem registers_overMode : (c.overMode e).registers = c.registers := by
  unfold overMode
  dsimp only
  split
  · rw [registers_goOn]
    split <;> rfl
  · rw [registers_goOn]
    split <;> rfl
  · exact registers_goOn (c := c) _
  · split
    · exact registers_goOn _
    · exact registers_goOn _
  · split <;> split <;> exact registers_goOn _
  · rw [registers_goOn]
    split <;> rfl
  · rfl

theorem registers_over : (c.over_ e).registers = c.registers := by
  unfold over_
  split
  · exact registers_goOn _
  · rw [registers_settle, registers_overMode]

theorem registers_timerOver : (c.timerOver e).registers = c.registers := registers_over

theorem registers_gateMode (gate : Bool) : (c.gateMode e gate).registers = c.registers := by
  unfold gateMode
  dsimp only
  split
  · split <;> rfl
  · split <;> rfl
  · split
    · exact registers_start (c := c) _ _ false
    · rfl
  · split
    · exact registers_start (c := c) _ _ false
    · rfl
  · split
    · exact registers_start (c := c) _ _ true
    · rfl
  · split
    · exact registers_start (c := c) _ _ true
    · rfl
  · rfl

theorem registers_setGate (gate : Bool) : (c.setGate e gate).registers = c.registers := by
  unfold setGate
  split
  · rfl
  · rw [registers_settle]
    exact registers_gateMode gate

theorem registers_clock : (c.clock e).registers = c.registers := by
  unfold clock
  dsimp only
  split
  · rfl
  split
  · rfl
  generalize (if c.m = 3 then (2 : Int) else 1) = n
  split
  · exact registers_over
  · rfl

theorem registers_setUsingTimer (usingTimer : Bool) :
    (c.setUsingTimer e usingTimer).registers = c.registers := by
  unfold setUsingTimer
  dsimp only
  split <;> split <;> first | rfl | (split <;> rfl)

/-- A load changes only that the channel is no longer disabled. -/
theorem registers_load : (c.load e).registers = { c.registers with disabled := false } := by
  unfold load
  dsimp only
  rw [registers_settle]
  split
  · exact registers_start (c := { c with newcount := false, disabled := false }) _ _ false
  · rfl
  · split
    · exact registers_start (c := { c with newcount := false, disabled := false }) _ _ true
    · rfl
  · split
    · exact registers_start (c := { c with newcount := false, disabled := false }) _ _ true
    · rfl
  · split
    · rfl
    · exact registers_start (c := { c with newcount := false, disabled := false }) _ _ false
  · rfl
  · rfl

/-! ## What does not use the reload register -/

/-- The reload register is set. -/
def withL (c : PitChannel) (x : BitVec 32) : PitChannel := { c with l := x }

theorem withL_ite {p : Prop} [Decidable p] (a b : PitChannel) :
    (if p then a else b).withL x = if p then a.withL x else b.withL x :=
  apply_ite (withL · x) p a b

theorem dump_withL : (c.withL x).dumpAndDisableTimer e = (c.dumpAndDisableTimer e).withL x :=
  (withL_ite { c with count := c.readTimer e, timerEnabled := false } c).symm

theorem settle_withL : (c.withL x).settle e = (c.settle e).withL x := by
  unfold settle
  dsimp only
  rw [withL_ite, ← dump_withL]
  rfl

theorem goOn_withL (n : Int) : (c.withL x).goOn e n = (c.goOn e n).withL x := by
  unfold goOn
  dsimp only
  rw [withL_ite]
  rfl

theorem withL_self : c.withL c.l = c := rfl

theorem usesReload_of_withL {f : PitChannel → PitChannel} {reload : BitVec 16}
    (registers : (f c).registers = c.registers)
    (free : f (c.withL (reload.setWidth 32)) = (f c).withL (reload.setWidth 32)) :
    UsesReload f c reload := by
  have l : (f c).l = c.l := congrArg PitRegisters.l registers
  show f c = (f (c.withL (reload.setWidth 32))).withL c.l
  rw [free, ← l]
  rfl

theorem usesReload_of_eq {f : PitChannel → PitChannel} {reload : BitVec 16}
    (registers : (f c).registers = c.registers) (same : c.l = reload.setWidth 32) :
    UsesReload f c reload := by
  have l : (f c).l = c.l := congrArg PitRegisters.l registers
  apply usesReload_of_withL registers
  rw [← same, withL_self, ← l]
  rfl

/-- Modes from their numbers. -/
theorem mode_eq {k : Nat} (mode : c.m.toNat = k) : c.m = BitVec.ofNat 8 k := by
  apply BitVec.eq_of_toNat_eq
  have small := c.m.isLt
  rw [BitVec.toNat_ofNat, ← mode, Nat.mod_eq_of_lt small]

theorem overMode_withL (active : c.disabled = false) (keeps : c.overReloads = false) :
    (c.withL x).overMode e = (c.overMode e).withL x := by
  rw [overReloads, active] at keeps
  rcases mode : c.m.toNat with _ | _ | _ | _ | _ | _ | k
  · cases thit : c.thit <;> cases timer : c.usingTimer <;>
      simp [overMode, goOn, advance, withL, mode, thit, timer]
  · cases thit : c.thit <;> cases timer : c.usingTimer <;>
      simp [overMode, goOn, advance, withL, mode, thit, timer]
  · rw [mode_eq mode] at keeps
    simp at keeps
  · rw [mode_eq mode] at keeps
    simp at keeps
  · rw [mode_eq mode] at keeps
    have waits : c.newcount = false := by simpa using keeps
    cases thit : c.thit <;> cases timer : c.usingTimer <;>
      simp [overMode, goOn, advance, withL, mode, thit, timer, waits]
  · cases thit : c.thit <;> cases timer : c.usingTimer <;>
      simp [overMode, goOn, advance, withL, mode, thit, timer]
  · simp [overMode, withL, mode]

theorem over_withL (keeps : c.overReloads = false) :
    (c.withL x).over_ e = (c.over_ e).withL x := by
  unfold over_
  rw [withL_ite]
  show (if c.disabled = true then _ else _) = _
  cases active : c.disabled with
  | true => exact goOn_withL _
  | false =>
    show ((c.withL x).overMode e).settle e = ((c.overMode e).settle e).withL x
    rw [overMode_withL active keeps, settle_withL]

theorem gateMode_withL {gate : Bool} (active : c.disabled = false)
    (keeps : c.gateReloads gate = false) :
    (c.withL x).gateMode e gate = (c.gateMode e gate).withL x := by
  rw [gateReloads, active] at keeps
  rcases mode : c.m.toNat with _ | _ | _ | _ | _ | _ | k
  · rw [mode_eq mode] at keeps
    have still : (c.usingTimer && !c.running) = false := by simpa using keeps
    simp [gateMode, withL, mode, still]
  · rw [mode_eq mode] at keeps
    have still : (gate && !c.gate) = false := by simpa using keeps
    simp [gateMode, withL, mode, still]
  · rw [mode_eq mode] at keeps
    have still : (gate && !c.gate) = false := by simpa using keeps
    simp [gateMode, withL, mode, still]
  · rw [mode_eq mode] at keeps
    have still : (gate && !c.gate) = false := by simpa using keeps
    simp [gateMode, withL, mode, still]
  · rw [mode_eq mode] at keeps
    have still : (c.usingTimer && !c.running) = false := by simpa using keeps
    simp [gateMode, withL, mode, still]
  · rw [mode_eq mode] at keeps
    have still : (gate && !c.gate) = false := by simpa using keeps
    simp [gateMode, withL, mode, still]
  · simp [gateMode, withL, mode]

theorem setGate_withL {gate : Bool} (keeps : c.gateReloads gate = false) :
    (c.withL x).setGate e gate = (c.setGate e gate).withL x := by
  unfold setGate
  rw [withL_ite]
  show (if c.disabled = true then _ else _) = _
  by_cases active : c.disabled = true
  · rw [if_pos active, if_pos active]
    rfl
  · rw [if_neg active, if_neg active, gateMode_withL (Bool.not_eq_true _ ▸ active) keeps,
      ← settle_withL]
    rfl

theorem clock_withL (keeps : c.clockReloads = false) :
    (c.withL x).clock e = (c.clock e).withL x := by
  unfold clock
  rw [withL_ite, withL_ite]
  show (if (c.thit || !c.enabled) = true then _ else if c.usingTimer = true then _ else _) = _
  by_cases stopped : (c.thit || !c.enabled) = true
  · rw [if_pos stopped, if_pos stopped]
  rw [if_neg stopped, if_neg stopped]
  by_cases timer : c.usingTimer = true
  · rw [if_pos timer, if_pos timer]
  rw [if_neg timer, if_neg timer]
  dsimp only
  rw [withL_ite]
  show (if c.count - (if c.m = 3 then 2 else 1) = 0 then
    ({ c with count := c.count - if c.m = 3 then 2 else 1 }.withL x).over_ e else _) = _
  by_cases ends : c.count - (if c.m = 3 then 2 else 1) = 0
  · rw [if_pos ends, if_pos ends]
    refine over_withL ?_
    rw [Bool.not_eq_true, Bool.or_eq_false_iff, Bool.not_eq_false'] at stopped
    rw [Bool.not_eq_true] at timer
    rw [clockReloads, stopped.1, stopped.2, timer] at keeps
    have last : c.count = if c.m = 3 then 2 else 1 := by omega
    rw [decide_eq_true last] at keeps
    exact keeps
  · rw [if_neg ends, if_neg ends]
    rfl

theorem timerOver_withL (keeps : c.overReloads = false) :
    (c.withL x).timerOver e = (c.timerOver e).withL x :=
  over_withL (c := { c with timerEnabled := false }) keeps

end PitChannel

/-! ## Agreement of a channel with its view -/

namespace PitView

variable (v : PitView)

/-- The byte pointer of writes. -/
def wm : BitVec 8 :=
  match v.access, v.written with
  | .lsb, _ => 1
  | .msb, _ => 2
  | .both, none => 3
  | .both, some _ => 0

/-- The byte pointer of reads. -/
def rm : BitVec 8 :=
  match v.access with
  | .lsb => 1
  | .msb => 2
  | .both => if v.high then 0 else 3

/-- The reload register between the bytes of a value. -/
def mixed : BitVec 16 :=
  match v.written with
  | none => v.reload
  | some low => (v.reload &&& 0xff00#16) ||| low.setWidth 16

end PitView

/-- The registers of a channel are as its view says. -/
structure Agrees (k : PitRegisters) (v : PitView) : Prop where
  single : v.access ≠ .both → v.written = none ∧ v.high = false
  wm : k.wm = v.wm
  rm : k.rm = v.rm
  latched : k.latched = v.held.isSome
  held : ∀ count, v.held = some count → k.rl = count
  half : v.held = none → v.high = true → k.rl = v.half
  reread : v.held = none → k.rereadlatch = !v.high
  low : ∀ b, v.written = some b → k.l &&& 0xff#32 = b.setWidth 32
  reload : k.disabled = false → k.l = v.mixed.setWidth 32
  mode : k.m &&& 0x80 = 0
  status : k.doReadStatus = v.status.isSome
  statusByte : ∀ b, v.status = some b → k.readStatus = b

section Commands

variable {e : PitClock} {c : PitChannel} {v : PitView} {val : BitVec 8}

/-- The count that a read takes its byte from. -/
theorem registers_relatch (agrees : Agrees c.registers v) : (c.relatch e).registers =
      { c.registers with
        rl := v.held.getD (if v.high then v.half else c.liveCount e)
        rereadlatch := c.rereadlatch && c.latched } := by
  have latched : c.latched = v.held.isSome := agrees.latched
  have reread (free : v.held = none) : c.rereadlatch = !v.high := agrees.reread free
  have half (free : v.held = none) (high : v.high = true) : c.rl = v.half := agrees.half free high
  have held (count : BitVec 16) (at_ : v.held = some count) : c.rl = count := agrees.held count at_
  unfold PitChannel.relatch
  cases taken : v.held with
  | some count =>
    rw [taken] at latched
    simp [PitChannel.registers, latched, held count taken]
  | none =>
    rw [taken] at latched
    cases high : v.high with
    | true =>
      have spent := reread taken
      rw [high] at spent
      simp [PitChannel.registers, spent, latched, half taken high]
    | false =>
      have fresh := reread taken
      rw [high] at fresh
      simp [PitChannel.registers, fresh, latched]

theorem readByte_low {k : BitVec 8} (rm : c.rm = k) (single : k = 1) : c.readByte =
    (c.rl.setWidth 8, { c with latched := false, rereadlatch := true }) := by
  rw [PitChannel.readByte, rm, single]
  rfl

theorem readByte_high (rm : c.rm = 2) : c.readByte =
    ((c.rl >>> 8).setWidth 8, { c with latched := false, rereadlatch := true }) := by
  rw [PitChannel.readByte, rm]
  rfl

theorem readByte_first (rm : c.rm = 3) (mode : c.m &&& 0x80 = 0) : c.readByte =
    (c.rl.setWidth 8, { c with rm := 0 }) := by
  rw [PitChannel.readByte, rm]
  exact congrArg _ (if_neg fun bit => bit mode)

theorem readByte_second (rm : c.rm = 0) : c.readByte =
    ((c.rl >>> 8).setWidth 8, { c with rm := 3, latched := false, rereadlatch := true }) := by
  rw [PitChannel.readByte, rm]
  rfl

/-! ### Reads of the view -/

theorem view_status {count : BitVec 16} {b : BitVec 8} (status : v.status = some b) :
    v.readData count = (b, { v with status := none }) := by
  rw [PitView.readData, status]

theorem view_lsb {count : BitVec 16} (free : v.status = none) (access : v.access = .lsb) :
    v.readData count = (PitView.lowByte (v.held.getD count), { v with held := none }) := by
  rw [PitView.readData, free, access]

theorem view_msb {count : BitVec 16} (free : v.status = none) (access : v.access = .msb) :
    v.readData count = (PitView.highByte (v.held.getD count), { v with held := none }) := by
  rw [PitView.readData, free, access]

theorem view_first {count : BitVec 16} (free : v.status = none) (access : v.access = .both)
    (high : v.high = false) : v.readData count =
      (PitView.lowByte (v.held.getD count), { v with half := v.held.getD count, high := true }) :=
        by
  rw [PitView.readData, free, access]
  exact if_neg (by rw [high]; decide)

theorem view_second {count : BitVec 16} (free : v.status = none) (access : v.access = .both)
    (high : v.high = true) : v.readData count =
      (PitView.highByte (v.held.getD v.half), { v with held := none, high := false }) := by
  rw [PitView.readData, free, access]
  exact if_pos high

/-! ### Reads of the channel -/

/-- The last byte of a count has been read. -/
theorem Agrees.readAll {k : PitRegisters} {x : BitVec 16} {r : BitVec 8} (agrees : Agrees k v)
    (rm : r = { v with held := none, high := false }.rm) :
    Agrees { k with rl := x, rm := r, latched := false, rereadlatch := true }
      { v with held := none, high := false } :=
  { agrees with
    single := fun access => ⟨(agrees.single access).1, rfl⟩
    rm
    latched := rfl
    held := fun _ none_ => by cases none_
    half := fun _ high => by cases high
    reread := fun _ => rfl }

/-- The low byte of a count has been read. -/
theorem Agrees.readLow {k : PitRegisters} (agrees : Agrees k v) (access : v.access = .both)
    {now : BitVec 16} (held : ∀ count, v.held = some count → now = count)
    {reread : Bool} (spent : v.held = none → reread = false) :
    Agrees { k with rl := now, rm := 0, rereadlatch := reread }
      { v with half := now, high := true } :=
  { agrees with
    single := fun single => absurd access single
    rm := by
      show 0 = PitView.rm _
      unfold PitView.rm
      rw [access]
      rfl
    held
    half := fun _ _ => rfl
    reread := spent }

theorem lowered (high : v.high = false) :
    ({ v with held := none } : PitView) = { v with held := none, high := false } := by
  cases v
  cases high
  rfl

/-- A read returns what the view says. -/
theorem agrees_readData (agrees : Agrees c.registers v) :
    (c.readData e).1 = (v.readData (c.liveCount e)).1 ∧
      Agrees (c.readData e).2.registers (v.readData (c.liveCount e)).2 := by
  have flag : c.doReadStatus = v.status.isSome := agrees.status
  rw [PitChannel.readData]
  cases status : v.status with
  | some b =>
    rw [status] at flag
    rw [view_status status, if_pos (by rw [flag]; rfl)]
    exact ⟨agrees.statusByte b status, { agrees with
      status := rfl
      statusByte := fun _ none_ => by cases none_ }⟩
  | none =>
    rw [status] at flag
    rw [if_neg (by rw [flag]; decide)]
    have registers := registers_relatch (e := e) agrees
    have count : (c.relatch e).rl = v.held.getD (if v.high then v.half else c.liveCount e) :=
      congrArg PitRegisters.rl registers
    have rm : (c.relatch e).rm = v.rm := (congrArg PitRegisters.rm registers).trans agrees.rm
    have mode : (c.relatch e).m &&& 0x80 = 0 := by
      rw [show (c.relatch e).m = c.m from congrArg PitRegisters.m registers]
      exact agrees.mode
    unfold PitView.rm at rm
    cases access : v.access with
    | lsb =>
      obtain ⟨-, high⟩ := agrees.single (by rw [access]; decide)
      rw [access] at rm
      rw [high] at count
      rw [view_lsb status access, readByte_low rm rfl, lowered high]
      refine ⟨congrArg PitView.lowByte count, ?_⟩
      show Agrees { (c.relatch e).registers with latched := false, rereadlatch := true } _
      rw [registers]
      refine agrees.readAll (r := c.rm) ?_
      rw [← lowered high]
      exact agrees.rm
    | msb =>
      obtain ⟨-, high⟩ := agrees.single (by rw [access]; decide)
      rw [access] at rm
      rw [high] at count
      rw [view_msb status access, readByte_high rm, lowered high]
      refine ⟨congrArg PitView.highByte count, ?_⟩
      show Agrees { (c.relatch e).registers with latched := false, rereadlatch := true } _
      rw [registers]
      refine agrees.readAll (r := c.rm) ?_
      rw [← lowered high]
      exact agrees.rm
    | both =>
      rw [access] at rm
      cases high : v.high with
      | false =>
        rw [high] at rm count
        rw [view_first status access high, readByte_first rm mode]
        refine ⟨congrArg PitView.lowByte count, ?_⟩
        show Agrees { (c.relatch e).registers with rm := 0 } _
        rw [registers, high]
        refine agrees.readLow access (fun held at_ => by rw [at_]; rfl) fun free => ?_
        have latched : c.latched = v.held.isSome := agrees.latched
        rw [latched, free]
        exact Bool.and_false _
      | true =>
        rw [high] at rm count
        rw [view_second status access high, readByte_second rm]
        refine ⟨congrArg PitView.highByte count, ?_⟩
        show Agrees { (c.relatch e).registers with
          rm := 3, latched := false, rereadlatch := true } _
        rw [registers]
        refine agrees.readAll (r := 3) ?_
        show _ = PitView.rm _
        unfold PitView.rm
        rw [access]
        rfl

/-! ### Writes of the reload value -/

theorem word_lsb {val : BitVec 8} : (val.setWidth 16).setWidth 32 = val.setWidth 32 := by
  apply BitVec.eq_of_getLsbD_eq
  intro i inside
  interval_cases i <;> simp

theorem word_msb {val : BitVec 8} :
    (val.setWidth 16 <<< 8).setWidth 32 = val.setWidth 32 <<< 8 := by
  apply BitVec.eq_of_getLsbD_eq
  intro i inside
  interval_cases i <;> simp

theorem word_first {reload : BitVec 16} {val : BitVec 8} :
    ((reload &&& 0xff00#16) ||| val.setWidth 16).setWidth 32 =
      (reload.setWidth 32 &&& 0xff00#32) ||| val.setWidth 32 := by
  apply BitVec.eq_of_getLsbD_eq
  intro i inside
  interval_cases i <;> simp

theorem word_low {l : BitVec 32} {val : BitVec 8} :
    ((l &&& 0xff00#32) ||| val.setWidth 32) &&& 0xff#32 = val.setWidth 32 := by
  apply BitVec.eq_of_getLsbD_eq
  intro i inside
  interval_cases i <;> simp

theorem word_append {low val : BitVec 8} :
    (val ++ low).setWidth 32 = low.setWidth 32 ||| val.setWidth 32 <<< 8 := by
  apply BitVec.eq_of_getLsbD_eq
  intro i inside
  simp only [BitVec.getLsbD_setWidth, BitVec.getLsbD_append, BitVec.getLsbD_or,
    BitVec.getLsbD_shiftLeft]
  interval_cases i <;> simp

theorem word_mixed {reload : BitVec 16} :
    (reload &&& 0xff00#16) ||| ((reload.setWidth 8).setWidth 16) = reload := by
  apply BitVec.eq_of_getLsbD_eq
  intro i inside
  interval_cases i <;> simp

theorem agrees_load {k : PitRegisters} {w : PitView}
    (agrees : Agrees { k with disabled := false } w)
    (registers : c.registers = k) : Agrees (c.load e).registers w := by
  rw [PitChannel.registers_load, registers]
  exact agrees

theorem writeData_lsb (wm : c.wm = 1) :
    c.writeData e val = { c with l := val.setWidth 32 }.load e := by
  rw [PitChannel.writeData, wm]
  rfl

theorem writeData_msb (wm : c.wm = 2) :
    c.writeData e val = { c with l := val.setWidth 32 <<< 8 }.load e := by
  rw [PitChannel.writeData, wm]
  rfl

theorem writeData_second (wm : c.wm = 0) : c.writeData e val =
    { ({ c with l := (c.l &&& 0xff#32) ||| val.setWidth 32 <<< 8 } : PitChannel).load e with
      wm := 3 } := by
  rw [PitChannel.writeData, wm]
  rfl

theorem writeData_first (wm : c.wm = 3) : c.writeData e val =
    { c with l := (c.l &&& 0xff00#32) ||| val.setWidth 32, wm := 0 } := by
  rw [PitChannel.writeData, wm]
  rfl

/-- A byte of the reload value is written, and the value is used with the last one. -/
theorem agrees_writeData (agrees : Agrees c.registers v) :
    Agrees (c.writeData e val).registers (v.writeData val) ∧
      if (v.writeData val).written = none then
        (c.writeData e val).l = (v.writeData val).reload.setWidth 32
      else
        c.writeData e val = { c with l := (c.writeData e val).l, wm :=
          (c.writeData e val).wm } := by
  have wm : c.wm = v.wm := agrees.wm
  unfold PitView.wm at wm
  cases access : v.access with
  | lsb =>
    obtain ⟨written, high⟩ := agrees.single (by rw [access]; decide)
    rw [access] at wm
    have view : v.writeData val = { v with reload := val.setWidth 16 } := by
      rw [PitView.writeData, access]
    have l : (c.writeData e val).registers = { c.registers with
        l := val.setWidth 32, disabled := false } := by
      rw [writeData_lsb wm, PitChannel.registers_load]
      rfl
    rw [view, if_pos written]
    refine ⟨?_, (congrArg PitRegisters.l l).trans word_lsb.symm⟩
    rw [l]
    exact { agrees with
      low := fun b some_ => by rw [written] at some_; cases some_
      reload := fun _ => by
        show _ = (PitView.mixed _).setWidth 32
        unfold PitView.mixed
        rw [written]
        exact word_lsb.symm }
  | msb =>
    obtain ⟨written, high⟩ := agrees.single (by rw [access]; decide)
    rw [access] at wm
    have view : v.writeData val = { v with reload := val.setWidth 16 <<< 8 } := by
      rw [PitView.writeData, access]
    have l : (c.writeData e val).registers = { c.registers with
        l := val.setWidth 32 <<< 8, disabled := false } := by
      rw [writeData_msb wm, PitChannel.registers_load]
      rfl
    rw [view, if_pos written]
    refine ⟨?_, (congrArg PitRegisters.l l).trans word_msb.symm⟩
    rw [l]
    exact { agrees with
      low := fun b some_ => by rw [written] at some_; cases some_
      reload := fun _ => by
        show _ = (PitView.mixed _).setWidth 32
        unfold PitView.mixed
        rw [written]
        exact word_msb.symm }
  | both =>
    rw [access] at wm
    cases written : v.written with
    | none =>
      rw [written] at wm
      have view : v.writeData val = { v with written := some val } := by
        rw [PitView.writeData, access, written]
      rw [view, if_neg (Option.some_ne_none val), writeData_first wm]
      refine ⟨?_, rfl⟩
      exact { agrees with
        single := fun single => absurd access single
        wm := by
          show 0 = PitView.wm _
          unfold PitView.wm
          rw [access]
        low := fun b some_ => by
          cases some_
          exact word_low
        reload := fun active => by
          have l : c.l = v.mixed.setWidth 32 := agrees.reload active
          unfold PitView.mixed at l
          rw [written] at l
          show (c.l &&& 0xff00#32) ||| _ = (PitView.mixed _).setWidth 32
          unfold PitView.mixed
          rw [l]
          exact word_first.symm }
    | some low =>
      rw [written] at wm
      have view : v.writeData val = { v with reload := val ++ low, written := none } := by
        rw [PitView.writeData, access, written]
      have word : (c.l &&& 0xff#32) ||| val.setWidth 32 <<< 8 = (val ++ low).setWidth 32 := by
        rw [show c.l &&& 0xff#32 = low.setWidth 32 from agrees.low low written]
        exact word_append.symm
      have l : (c.writeData e val).registers = { c.registers with
          l := (val ++ low).setWidth 32, wm := 3, disabled := false } := by
        rw [writeData_second wm, word]
        show { (PitChannel.load _ _).registers with wm := 3 } = _
        rw [PitChannel.registers_load]
        rfl
      rw [view, if_pos rfl]
      refine ⟨?_, congrArg PitRegisters.l l⟩
      rw [l]
      exact { agrees with
        single := fun single => absurd access single
        wm := by
          show 3 = PitView.wm _
          unfold PitView.wm
          rw [access]
        low := fun b some_ => by cases some_
        reload := fun _ => rfl }

/-! ### Commands -/

theorem agrees_latch (agrees : Agrees c.registers v) (access : v.access = .both) :
    Agrees (c.latch e).registers (v.latch (c.liveCount e)) :=
  { agrees with
    single := fun single => absurd access single
    rm := by
      show 3 = PitView.rm _
      unfold PitView.rm PitView.latch
      rw [access]
      rfl
    latched := rfl
    held := fun count some_ => by
      cases some_
      rfl
    half := fun none_ => by cases none_
    reread := fun none_ => by cases none_ }

theorem access_bits (control : val &&& 0x30 ≠ 0) :
    (val >>> 4) &&& 3 = 1 ∨ (val >>> 4) &&& 3 = 2 ∨ (val >>> 4) &&& 3 = 3 := by
  revert val
  decide +kernel

theorem mode_bits (val : BitVec 8) :
    (if (val >>> 1) &&& 7 > 5 then (val >>> 1) &&& 7 &&& 3 else
      (val >>> 1) &&& 7) &&& 0x80 = 0 := by
  revert val
  decide +kernel

theorem registers_program (control : val &&& 0x30 ≠ 0) : (c.program e val).registers =
    { c.registers with
      rm := (val >>> 4) &&& 3, wm := (val >>> 4) &&& 3
      m := if (val >>> 1) &&& 7 > 5 then (val >>> 1) &&& 7 &&& 3 else (val >>> 1) &&& 7
      rereadlatch := true, disabled := true } := by
  have programmed : (val >>> 4) &&& 3 ≠ 0 := by
    rcases access_bits control with one | two | three
    · rw [one]
      decide
    · rw [two]
      decide
    · rw [three]
      decide
  unfold PitChannel.program
  dsimp only
  rw [if_neg programmed]
  rfl

theorem agrees_program (agrees : Agrees c.registers v) (control : val &&& 0x30 ≠ 0) :
    Agrees (c.program e val).registers (v.program val) := by
  have pointers : (val >>> 4) &&& 3 = (v.program val).wm ∧
      (val >>> 4) &&& 3 = (v.program val).rm := by
    unfold PitView.wm PitView.rm PitView.program
    rcases access_bits control with one | two | three
    · rw [one]
      exact ⟨rfl, rfl⟩
    · rw [two]
      exact ⟨rfl, rfl⟩
    · rw [three]
      exact ⟨rfl, rfl⟩
  rw [registers_program control]
  exact { agrees with
    single := fun _ => ⟨rfl, rfl⟩
    wm := pointers.1
    rm := pointers.2
    half := fun _ high => by cases high
    reread := fun _ => rfl
    low := fun b some_ => by cases some_
    reload := fun active => by cases active
    mode := mode_bits val }

theorem agrees_readBack (agrees : Agrees c.registers v)
    (holds : val &&& 0x20 = 0 → v.held ≠ none ∧ v.high = false) :
    Agrees (c.readBack e val).registers (v.readBack val (c.liveCount e)
      ((c.ctrls &&& 0x3f) ||| if c.out then 0x80 else 0)) := by
  have counted : Agrees
      (if val &&& 0x20 = 0 then { c with rl := c.liveCount e } else c).registers
      (if val &&& 0x20 = 0 then v.latch (c.liveCount e) else v) := by
    split
    next asked =>
      obtain ⟨held, high⟩ := holds asked
      exact { agrees with
        single := fun single => ⟨(agrees.single single).1, rfl⟩
        rm := by
          show c.rm = PitView.rm _
          rw [show c.rm = v.rm from agrees.rm]
          unfold PitView.rm PitView.latch
          rw [high]
        latched := by
          show c.latched = true
          rw [show c.latched = v.held.isSome from agrees.latched]
          exact Option.isSome_iff_ne_none.mpr held
        held := fun count some_ => by
          cases some_
          rfl
        half := fun none_ => by cases none_
        reread := fun none_ => by cases none_ }
    · exact agrees
  have same : ∀ d : PitChannel, (d = if val &&& 0x20 = 0 then
    { c with rl := c.liveCount e } else c) →
      d.ctrls = c.ctrls ∧ d.out = c.out := by
    rintro d rfl
    split <;> exact ⟨rfl, rfl⟩
  obtain ⟨ctrls, out⟩ := same _ rfl
  unfold PitChannel.readBack PitView.readBack
  dsimp only
  split
  · exact { counted with
      status := rfl
      statusByte := fun b some_ => by
        cases some_
        show (_ &&& 0x3f) ||| _ = _
        rw [ctrls, out] }
  · exact counted

end Commands

/-! ## Runs -/

section Runs

variable {s : Pit} {v : Nat → PitView} {a : PitStep}

theorem mixed_eq {w : PitView} (whole : ¬w.Torn) : w.mixed = w.reload := by
  unfold PitView.mixed
  cases written : w.written with
  | none => rfl
  | some low =>
    have same : low = PitView.lowByte w.reload := by
      by_contra differs
      exact whole ⟨low, written, differs⟩
    rw [same]
    exact word_mixed

/-- A function that reloads only where no value is written in part uses the last complete value. -/
theorem usesReload {c : PitChannel} {w : PitView} {f : PitChannel → PitChannel} {reloads : Bool}
    (agrees : Agrees c.registers w) (registers : (f c).registers = c.registers)
    (active : reloads = true → c.disabled = false)
    (free : reloads = false → ∀ x, f (c.withL x) = (f c).withL x)
    (ok : ¬(w.Torn ∧ reloads = true)) : UsesReload f c w.reload := by
  cases uses : reloads with
  | false => exact PitChannel.usesReload_of_withL registers (free uses _)
  | true =>
    apply PitChannel.usesReload_of_eq registers
    rw [← mixed_eq fun torn => ok ⟨torn, uses⟩]
    exact agrees.reload (active uses)

theorem active_overReloads {c : PitChannel} (reloads : c.overReloads = true) :
    c.disabled = false := by
  rw [PitChannel.overReloads, Bool.and_eq_true, Bool.not_eq_true'] at reloads
  exact reloads.1

/-- Every channel agrees with its view. -/
def AllAgree (w : Pit × (Nat → PitView)) : Prop :=
  ∀ t, Agrees (w.1.channel t).registers (w.2 t)

theorem pitLaw_of_agree (agree : AllAgree (s, v)) (ok : PitOk s v a) : PitLaw s v a where
  read addr _ data := by
    unfold Pit.read
    rw [if_neg data]
    exact (agrees_readData (agree _)).1
  written addr val written data := by
    subst written
    have channel : ((s.step (.write addr val)).channel (addr &&& 3).toNat) =
        (s.channel (addr &&& 3).toNat).writeData s.clock val := by
      show ((s.write addr val).channel _) = _
      rw [Pit.write, if_neg data]
      exact Function.update_self ..
    dsimp only
    rw [channel]
    exact (agrees_writeData (agree _)).2
  timerOver t over_ := by
    subst over_
    exact usesReload (agree t) PitChannel.registers_timerOver active_overReloads
      (fun keeps _ => PitChannel.timerOver_withL keeps) ok
  gate t g gate := by
    subst gate
    refine usesReload (agree t) (PitChannel.registers_setGate g) (fun reloads => ?_)
      (fun keeps _ => PitChannel.setGate_withL keeps) ok
    rw [PitChannel.gateReloads, Bool.and_eq_true, Bool.not_eq_true'] at reloads
    exact reloads.1
  clock t clock := by
    subst clock
    refine usesReload (agree t) PitChannel.registers_clock (fun reloads => ?_)
      (fun keeps _ => PitChannel.clock_withL keeps) ok
    rw [PitChannel.clockReloads, Bool.and_eq_true] at reloads
    exact active_overReloads reloads.2

/-- One channel and its view change together. -/
theorem AllAgree.update {t : Nat} {f : PitClock → PitChannel → PitChannel} {w : PitView}
    (agree : AllAgree (s, v)) (own : Agrees (f s.clock (s.channel t)).registers w) :
    AllAgree (s.onChannel t f, Function.update v t w) := by
  intro other
  show Agrees (Function.update s.channel t _ other).registers (Function.update v t w other)
  rcases eq_or_ne other t with rfl | apart
  · rw [Function.update_self, Function.update_self]
    exact own
  · rw [Function.update_of_ne apart, Function.update_of_ne apart]
    exact agree other

theorem AllAgree.count {t : Nat} {f : PitClock → PitChannel → PitChannel} (agree : AllAgree (s, v))
    (registers : (f s.clock (s.channel t)).registers = (s.channel t).registers) :
    AllAgree (s.onChannel t f, v) := by
  have own := agree.update (t := t) (f := f) (w := v t) (by rw [registers]; exact agree t)
  rwa [Function.update_eq_self] at own

theorem allAgree_control {val : BitVec 8} (agree : AllAgree (s, v))
    (ok : if val &&& 0xc0 = 0xc0 then
        val &&& 0x20 = 0 → ∀ t, Pit.names val t = true → (v t).held ≠ none ∧ (v t).high = false
      else val &&& 0x30 = 0 → (v (val >>> 6).toNat).access = .both) :
    AllAgree (s.writeControl val,
      if val &&& 0xc0 = 0xc0 then fun t =>
        if Pit.names val t then (v t).readBack val (s.live t) (s.status t) else v t
      else Function.update v (val >>> 6).toNat
        (if val &&& 0x30 = 0 then (v (val >>> 6).toNat).latch (s.live (val >>> 6).toNat)
        else (v (val >>> 6).toNat).program val)) := by
  unfold Pit.writeControl
  split
  next readBack =>
    rw [if_pos readBack] at ok
    intro t
    show Agrees (if Pit.names val t = true then (s.channel t).readBack s.clock val
      else s.channel t).registers
      (if Pit.names val t = true then (v t).readBack val (s.live t) (s.status t) else v t)
    split
    next named => exact agrees_readBack (agree t) fun asked => ok asked t named
    · exact agree t
  next command =>
    rw [if_neg command] at ok
    dsimp only
    split
    next latch =>
      exact AllAgree.update (s := { s with ctrl := val ||| 0x30 }) (t := (val >>> 6).toNat)
        (f := fun e c => c.latch e) agree (agrees_latch (agree _) (ok latch))
    next program =>
      exact AllAgree.update (s := { s with ctrl := val }) (t := (val >>> 6).toNat)
        (f := fun e c => c.program e val) agree (agrees_program (agree _) program)

theorem allAgree_step (agree : AllAgree (s, v)) (ok : PitOk s v a) :
    AllAgree (s.step a, s.viewStep v a) := by
  cases a with
  | write addr val =>
    show AllAgree (s.write addr val, if addr &&& 3 = 3 then _ else _)
    unfold Pit.write
    split
    next control => exact allAgree_control agree (ok control)
    · exact agree.update (t := (addr &&& 3).toNat) (f := fun e c => c.writeData e val)
        (agrees_writeData (agree _)).1
  | read addr =>
    show AllAgree ((s.read addr).2, if addr &&& 3 = 3 then _ else _)
    unfold Pit.read
    split
    · exact agree
    · exact agree.update (t := (addr &&& 3).toNat) (f := fun e c => (c.readData e).2)
        (agrees_readData (agree _)).2
  | timerOver t =>
    exact agree.count (f := fun e c => c.timerOver e) PitChannel.registers_timerOver
  | gate t g => exact agree.count (f := fun e c => c.setGate e g) (PitChannel.registers_setGate g)
  | clock t => exact agree.count (f := fun e c => c.clock e) PitChannel.registers_clock
  | usingTimer t u =>
    exact agree.count (f := fun e c => c.setUsingTimer e u) (PitChannel.registers_setUsingTimer u)
  | pass clock => exact agree

theorem allAgree_reset (clock : PitClock) : AllAgree (Pit.reset clock, fun _ => .powerOn) := by
  intro t
  exact {
    single := fun single => absurd rfl single
    wm := rfl
    rm := rfl
    latched := rfl
    held := fun _ none_ => by cases none_
    half := fun _ _ => rfl
    reread := fun _ => rfl
    low := fun b some_ => by
      cases some_
      show (0xffff : BitVec 32) &&& 0xff#32 = (0xff : BitVec 8).setWidth 32
      decide
    reload := fun _ => by
      show (0xffff : BitVec 32) = PitView.powerOn.mixed.setWidth 32
      decide
    mode := by
      show (0 : BitVec 8) &&& 0x80 = 0
      decide
    status := rfl
    statusByte := fun _ none_ => by cases none_ }

theorem allAgree_ps2Init (clock : PitClock) : AllAgree (Pit.ps2Init clock, fun _ => .powerOn) := by
  have reset := allAgree_reset clock
  have own := reset.update (t := 0)
    (f := fun _ c => { c with gate := false, usingTimer := false, disabled := true })
    (w := .powerOn) { reset 0 with reload := fun active => by cases active }
  rwa [Function.update_eq_self] at own

/-- In every run that avoids the defects, each step keeps the law. -/
theorem pitLaw_of_run {clock : PitClock} {start t : Pit}
    (first : start = Pit.reset clock ∨ start = Pit.ps2Init clock)
    (run : Lib.RunOk observe (fun w a => PitOk w.1 w.2 a) (start, fun _ => .powerOn) (t, v))
    (ok : PitOk t v a) : PitLaw t v a := by
  have agree : AllAgree (t, v) := by
    refine @Lib.RunOk.invariant _ _ _ _ _ _ AllAgree run ?_ fun {w u b} agree ok next => ?_
    · rcases first with rfl | rfl
      · exact allAgree_reset clock
      · exact allAgree_ps2Init clock
    · cases next
      exact allAgree_step agree ok
  exact pitLaw_of_agree agree ok

theorem pitLaw_of_run_programmed :
    PitLaw ((Pit.reset ⟨0, 0x100000000⟩).step (.write 0x43 0x34))
      ((Pit.reset ⟨0, 0x100000000⟩).viewStep (fun _ => .powerOn) (.write 0x43 0x34))
      (.read 0x40) := by
  have ok : PitOk (Pit.reset ⟨0, 0x100000000⟩) (fun _ => .powerOn) (.write 0x43 0x34) := by
    intro _
    rw [if_neg (by decide)]
    exact fun latch => absurd latch (by decide)
  exact pitLaw_of_run (.inl rfl) (.tail .refl ok rfl) trivial

/-- A count read-back does not hold the count: the read afterwards returns a later one. -/
theorem not_pitLaw_readBack : ∃ t v,
    Lib.exec observe (Pit.reset ⟨0, 0x100000000⟩, fun _ => .powerOn)
      [.write 0x43 0x34, .write 0x40 0x00, .write 0x40 0x10, .write 0x43 0xd2,
        .pass ⟨5, 0x100000000⟩] = some (t, v) ∧ ¬PitLaw t v (.read 0x40) := by
  refine ⟨_, _, rfl, fun law => ?_⟩
  have same := law.read 0x40 rfl (by decide)
  revert same
  decide +kernel

end Runs

end PCemWeb.Devices
