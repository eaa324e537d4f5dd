import PCemWeb.Atapi.Atapi

/-!
# The modes of the bus

Between two steps of the packet engine the bus is in one of a few `Mode`s, which say what the
initiator sees on the next reads. `ScsiBus.In` is the relation of a bus to its mode, with the delays
that the mode stands for. `In.read` and the lemmas on `handshake` and `kick` are the specifications
of the bus functions: what one call makes of each mode. They also say what becomes of the bytes:
`fetched` are those that the initiator has taken from the bus.
-/

namespace PCemWeb.Atapi

open PCemWeb.Ide (Byte)

/-! ## Modes -/

/-- What the bus does next. Numbers are of reads. -/
inductive Mode
  /-- No target is selected. -/
  | free
  /-- The target has `sent` bytes of the command and asks for the next in `n`. -/
  | command (sent n : Nat)
  /-- The target works on the command. -/
  | waiting
  /-- The target, having worked, comes to phase `q` and asks in `n`. -/
  | starts (q : Phase) (n : Nat)
  /-- The target comes to phase `q` in `n` and asks one read before. -/
  | early (q : Phase) (n : Nat)
  /-- In phase `p`, the target asks in `n`. -/
  | asks (p : Phase) (n : Nat)
  /-- The target puts the next byte on the bus and asks in `n`. -/
  | fetches (n : Nat)
  /-- The target leaves phase `p` in `n`, for phase `q` or to free the bus. -/
  | turns (p : Phase) (q : Option Phase) (n : Nat)

def Phase.busState : Phase → BusState
  | .dataOut => .dataOut
  | .dataIn => .dataIn
  | .command => .command
  | .status => .status
  | .messageIn | .messageOut => .messageIn

def Mode.state : Mode → BusState
  | .free => .idle
  | .command .. | .early .. => .command
  | .waiting | .starts .. => .commandWait
  | .asks p _ | .turns p _ _ => p.busState
  | .fetches _ => .dataIn

def Mode.phase : Mode → Phase
  | .free => .dataOut
  | .command .. | .waiting | .starts .. => .command
  | .early q n => if n = 1 then q else .command
  | .asks p _ | .turns p _ _ => p
  | .fetches _ => .dataIn

def Mode.req : Mode → Bool
  | .command _ n | .asks _ n => n = 0
  | .early _ n => n = 1
  | .free | .waiting | .starts .. | .fetches _ | .turns .. => false

def Mode.bsy : Mode → Bool
  | .free => false
  | _ => true

def Mode.clearReq : Mode → Nat
  | .command _ n | .starts _ n | .fetches n => n
  | .early _ n => n - 1
  | .free | .waiting | .asks .. | .turns .. => 0

def Mode.change : Mode → Nat
  | .starts _ n | .early _ n | .turns _ _ n => n
  | .free | .command .. | .waiting | .asks .. | .fetches _ => 0

def Mode.newReq : Mode → Nat
  | .asks _ n => n
  | .turns _ (some _) n => n + 4
  | _ => 0

/-- The phase that the bus goes to, where it matters. -/
def Mode.next : Mode → Option (Option Phase)
  | .command _ n => if n = 0 then none else some (some .command)
  | .starts q _ | .early q _ => some (some q)
  | .fetches _ => some (some .dataIn)
  | .turns _ q _ => some q
  | .free | .waiting | .asks .. => none

/-- The phases that a target answers a command with when it has worked on it. -/
def Phase.answers (q : Phase) : Prop := q = .dataIn ∨ q = .dataOut ∨ q = .status

/-- The modes that occur. -/
def Mode.Valid : Mode → Prop
  | .free | .waiting => True
  | .command sent n => sent < 12 ∧ n ≤ 3
  | .starts q n | .early q n => q.answers ∧ 1 ≤ n ∧ n ≤ 4
  | .asks p n => p ≠ .command ∧ p ≠ .messageOut ∧ n ≤ 4
  | .fetches n => 1 ≤ n ∧ n ≤ 3
  | .turns p q n => 1 ≤ n ∧ n ≤ 4 ∧ match q with
    | none => p = .messageIn
    | some q => (p = .dataOut ∧ q.answers) ∨ (p = .dataIn ∧ q = .status) ∨
        (p = .status ∧ q = .messageIn)

/-- The target takes data, or is about to. -/
def Mode.receiving : Mode → Prop
  | .starts q _ | .early q _ | .asks q _ | .turns _ (some q) _ => q = .dataOut
  | _ => False

/-- A byte that the initiator has not taken is on the bus. -/
def Mode.latched : Mode → Bool
  | .asks .dataIn _ | .fetches _ => true
  | _ => false

/-- The mode after a read. -/
def Mode.read : Mode → Mode
  | .command sent n => .command sent (n - 1)
  | .starts q n => if n = 1 then .asks q 0 else .starts q (n - 1)
  | .early q n => if n = 1 then .asks q 0 else .early q (n - 1)
  | .asks p n => .asks p (n - 1)
  | .fetches n => if n = 1 then .asks .dataIn 0 else .fetches (n - 1)
  | .turns p q n => if n = 1 then (match q with | none => .free | some q => .asks q 4)
      else .turns p q (n - 1)
  | .free => .free
  | .waiting => .waiting

variable {τ : Type} {T : Target τ} {b b' : ScsiBus τ} {m : Mode} {fetched : List Byte}

/-- The bus is in a mode, and the initiator has taken the bytes `fetched` from it. -/
structure ScsiBus.In (T : Target τ) (b : ScsiBus τ) (m : Mode) (fetched : List Byte) : Prop where
  state : b.state = m.state
  phase : b.phase = m.phase
  req : b.req = m.req
  bsy : b.bsy = m.bsy
  clearReq : b.clearReq = m.clearReq
  change : b.changeStateDelay = m.change
  newReq : b.newReqDelay = m.newReq
  ackIn : b.ackIn = false
  next : ∀ q, m.next = some q → b.newState = q
  valid : m.Valid
  sent : ∀ sent n, m = .command sent n → b.command.length = sent
  message : ∀ n, m = .asks .messageIn n → b.data = 0
  receives : m.receiving → T.receives b.target
  put : b.put = if m.latched then fetched ++ [b.data] else fetched

/-! ## Reads -/

theorem ScsiBus.In.init {t : τ} : (ScsiBus.init t).In T .free [] :=
  ⟨rfl, rfl, rfl, rfl, rfl, rfl, rfl, rfl, nofun, trivial, nofun, nofun, nofun, rfl⟩

theorem ScsiBus.read_still (clearReq : b.clearReq = 0) (change : b.changeStateDelay = 0)
    (newReq : b.newReqDelay = 0) : b.read T = some b := by
  simp [ScsiBus.read, ScsiBus.tickClearReq, ScsiBus.tickChange, ScsiBus.tickNewReq, clearReq, change,
    newReq]

theorem ScsiBus.read_clearReq (clearReq : b.clearReq ≠ 0) (change : b.changeStateDelay = 0)
    (newReq : b.newReqDelay = 0) : b.read T = some (if b.clearReq = 1 then
      { b with clearReq := 0, phase := b.newState.getD .dataOut, req := true }
    else { b with clearReq := b.clearReq - 1 }) := by
  simp only [ScsiBus.read, ScsiBus.tickClearReq, clearReq, if_false]
  split <;> simp [ScsiBus.tickChange, ScsiBus.tickNewReq, change, newReq]

theorem ScsiBus.read_newReq (clearReq : b.clearReq = 0) (change : b.changeStateDelay = 0)
    (newReq : b.newReqDelay ≠ 0) : b.read T = some (if b.newReqDelay = 1 then
      { b with newReqDelay := 0, req := true }
    else { b with newReqDelay := b.newReqDelay - 1 }) := by
  simp [ScsiBus.read, ScsiBus.tickClearReq, ScsiBus.tickChange, ScsiBus.tickNewReq, clearReq, change,
    newReq]

/-- A read before the last of a change of phase. -/
theorem ScsiBus.read_change (change : 1 < b.changeStateDelay) (clearReq : b.clearReq ≠ 1)
    (newReq : b.newReqDelay ≠ 1) : b.read T = some { b with
      clearReq := b.clearReq - 1, changeStateDelay := b.changeStateDelay - 1,
      newReqDelay := b.newReqDelay - 1 } := by
  have some_ : b.changeStateDelay ≠ 0 := by omega
  have notLast : b.changeStateDelay ≠ 1 := by omega
  simp only [ScsiBus.read, ScsiBus.tickClearReq, clearReq, if_false]
  split
  · rename_i none
    simp only [ScsiBus.tickChange, some_, notLast, if_false, Option.map_some, ScsiBus.tickNewReq,
      newReq]
    split
    · rename_i noReq
      simp [none, noReq]
    · simp [none]
  · simp only [ScsiBus.tickChange, some_, notLast, if_false, Option.map_some, ScsiBus.tickNewReq,
      newReq]
    split
    · rename_i noReq
      simp [noReq]
    · rfl

end PCemWeb.Atapi
